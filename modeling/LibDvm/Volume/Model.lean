import LibDvm.Disc.Heap
import LibDvm.Cache.Model
import LibDvm.Prober.Model
import LibDvm.Lib.Machine

/-! # Volumes

`dvm_volume.c`, the mounting half of `dvm_prober.c` and the two wrappers `fatMount` and
`ext2Mount` under their own names. What lies outside (`malloc`, the file systems, the
device table of the platform) answers through parameters. A name is the bytes before
its NUL.
-/

namespace LibDvm.Volume

open Words Prober DiscHeap

/-! ## File-system drivers -/

/-- A `DvmFsDriver`: its address and the name it goes by. -/
structure DvmFsDriver where
  addr : Nat
  fstype : String
deriving DecidableEq

/-- `MAX_DRIVERS`. -/
def maxDrivers : Nat := 8

/-- The loop of `dvmRegisterFsDriver` over the slots of the table. -/
def registerLoop (fsdrv : DvmFsDriver) :
    List (Option DvmFsDriver) → List (Option DvmFsDriver) × Bool
  | [] => ([], false)
  | none :: rest => (some fsdrv :: rest, true)
  | some drv :: rest =>
      if drv.addr = fsdrv.addr then (some drv :: rest, true)
      else if drv.fstype = fsdrv.fstype then (some drv :: rest, false)
      else
        let done := registerLoop fsdrv rest
        (some drv :: done.1, done.2)

def dvmRegisterFsDriver (table : List (Option DvmFsDriver)) (fsdrv : Option DvmFsDriver) :
    List (Option DvmFsDriver) × Bool :=
  match fsdrv with
  | none => (table, false)
  | some fsdrv => registerLoop fsdrv table

/-- The lookup of `dvmMountPartition`, up to the first empty slot. -/
def findDriver (fstype : String) : List (Option DvmFsDriver) → Option DvmFsDriver
  | [] => none
  | none :: _ => none
  | some drv :: rest => if drv.fstype = fstype then some drv else findDriver fstype rest

def vfatFsDriver : DvmFsDriver := ⟨0, "vfat"⟩
def ext2FsDriver : DvmFsDriver := ⟨2, "ext2"⟩

/-! ## Volumes and the device table -/

abbrev Name := List UInt8

/-- `DvmVolume`, with the disc its driver has mounted and its place in the device table. -/
structure DvmVolume where
  devid : Nat
  fsdrv : DvmFsDriver
  namebuf : Name
  disc : Nat
deriving DecidableEq

/-- The volume layer: registered drivers, registered volumes and disc objects. -/
structure System where
  drvTable : List (Option DvmFsDriver)
  devices : List DvmVolume
  heap : DiscHeap

/-- The build, and how the platform looks a name up in its device table. A result that
is not one of the volumes stands for another device. -/
structure Platform where
  build : Build
  order : ByteOrder
  getDeviceOpTab : List DvmVolume → Name → Option DvmVolume

/-- `vol->namebuf` after `memset` and `memcpy`. -/
def namebuf (name : Name) : Name := (name.take 32) ++ List.replicate (32 - name.length) 0

/-- What the outside does while one partition is mounted. `addDevice` is the new place
in the device table or a negative number. -/
structure MountOutcome where
  volAllocated : Bool
  mounted : Bool
  addDevice : Option Nat

/-! ## Mounting -/

/-- `fsdrv->mount`: it works on the disc and becomes a user of it when it succeeds. -/
def driverMount (heap : DiscHeap) (disc : Nat) (mounted : Bool) : DiscHeap × Bool :=
  let heap := heap.access disc
  if mounted then (heap.addUser disc, true) else (heap, false)

/-- `fsdrv->umount`. -/
def driverUmount (heap : DiscHeap) (disc : Nat) : DiscHeap :=
  (heap.access disc).removeUser disc

/-- The body of `dvmMountPartition`. -/
def mountPartition (s : System) (name : Name) (disc : Nat) (part : DvmPartInfo)
    (o : MountOutcome) : System × Bool :=
  match part.fstype.bind fun fstype => findDriver fstype s.drvTable with
  | none => (s, false)
  | some fsdrv =>
      if !o.volAllocated then (s, false)
      else
        let mount := driverMount s.heap disc o.mounted
        if !mount.2 then ({ s with heap := mount.1 }, false)
        else match o.addDevice with
          | none => ({ s with heap := driverUmount mount.1 disc }, false)
          | some devid =>
              ({ s with
                heap := mount.1
                devices := s.devices ++ [⟨devid, fsdrv, namebuf name, disc⟩] }, true)

/-- `dvmMountPartition`. A failure is recorded with what has become of the disc. -/
def dvmMountPartition (s : System) (name : Name) (disc : Nat) (part : DvmPartInfo)
    (o : MountOutcome) : System × Bool :=
  let r := mountPartition s name disc part o
  if r.2 then r
  else
    let obj := r.1.heap.objs disc
    let before := (s.heap.objs disc).base.numUsers
    ({ r.1 with
      heap := r.1.heap.record (.mountFailed disc obj.alive before obj.base.numUsers) }, false)

/-- The record `dvmMountVolume` makes up. -/
def volumePart (base : DvmDisc) (startSector : Nat) (fstype : String) : DvmPartInfo :=
  ⟨0, 0, some fstype, startSector, if startSector ≠ 0 then secNot 0 else base.numSectors⟩

def dvmMountVolume (s : System) (name : Name) (disc startSector : Nat) (fstype : String)
    (o : MountOutcome) : System × Bool :=
  let s := { s with heap := if startSector ≠ 0 then s.heap else s.heap.use disc }
  dvmMountPartition s name disc (volumePart (s.heap.objs disc).base startSector fstype) o

/-- The name `dvmUnmountVolume` looks up. -/
def lookupName (name : Name) : Name :=
  if name ≠ [] ∧ 0x3a ∉ name then name.take 30 ++ [0x3a] else name

/-- `dvmUnmountVolume`. -/
def dvmUnmountVolume (platform : Platform) (s : System) (name : Option Name) : System × Bool :=
  match name with
  | none => (s, false)
  | some name =>
      match platform.getDeviceOpTab s.devices (lookupName name) with
      | none => (s, false)
      | some vol =>
          if vol ∈ s.devices then
            ({ s with
              devices := s.devices.erase vol
              heap := driverUmount s.heap vol.disc }, true)
          else (s, false)

/-! ## Probing -/

/-- What the outside does during one mount attempt: allocations, the reads of the
prober, and the mounts, in the order the partitions are tried. -/
structure Answers where
  discAllocated : Bool
  cacheAllocated : Bool
  dataAddress : Option Nat
  probeBuffer : Option (Nat → UInt8)
  readSectors : (call numSectors first count : Nat) → Option (Nat → UInt8)
  mounts : Nat → MountOutcome

/-- `volname` for a partition. -/
def volname (basename : Name) (index : Nat) : Name :=
  basename.take 14 ++ if index > 1 then [UInt8.ofNat (0x30 + index)] else []

/-- The mount loop of `dvmProbeMountDisc`, at partition `i` with `numMounted` so far. -/
def mountLoop (basename : Name) (disc : Nat) (mounts : Nat → MountOutcome) :
    List DvmPartInfo → Nat → Nat → System → System × Nat
  | [], _, numMounted, s => (s, numMounted)
  | part :: rest, i, numMounted, s =>
      if part.fstype.isNone then mountLoop basename disc mounts rest (i + 1) numMounted s
      else
        let r := dvmMountPartition s (volname basename part.index) disc part (mounts i)
        mountLoop basename disc mounts rest (i + 1) (if r.2 then numMounted + 1 else numMounted) r.1

/-- The partition table as `dvmProbeMountDisc` asks for it. -/
def probeTable (order : ByteOrder) (base : DvmDisc) (ans : Answers) : ProbeResult :=
  dvmReadPartitionTable order ⟨base, ans.readSectors⟩ 4 dvmIdentFstype ans.probeBuffer

def dvmProbeMountDisc (platform : Platform) (s : System) (basename : Name) (disc : Nat)
    (ans : Answers) : System × Nat :=
  let found := probeTable platform.order (s.heap.objs disc).base ans
  let s := { s with heap := (s.heap.access disc).modify disc (setNumSectors found.numSectors) }
  if found.ret = 0 then
    let r := dvmMountVolume s basename disc 0 "exfat" (ans.mounts 0)
    (r.1, if r.2 then 1 else 0)
  else mountLoop basename disc ans.mounts (found.out.take found.ret) 0 0 s

/-! ## The three ways to mount an interface -/

/-- The disc under a cache, without its contents: all that `dvmDiscCacheCreate` looks at. -/
def bareDisc (base : DvmDisc) : InnerDisc Unit :=
  ⟨base, fun _ => (), 0, fun _ => none, fun _ => none, fun _ => false⟩

/-- `dvmDiscCacheCreate` on the disc `disc`. -/
def createCache (heap : DiscHeap) (disc cachePages sectorsPerPage : Nat) (ans : Answers) :
    DiscHeap × Nat :=
  let heap := heap.use disc
  match Cache.dvmDiscCacheCreate (bareDisc (heap.objs disc).base) cachePages sectorsPerPage
      ans.cacheAllocated (ans.dataAddress.map fun address => (address, fun _ => ())) with
  | .inl _ => (heap, disc)
  | .inr cache => ((heap.addUser disc).create cache.base (some disc), heap.next)

/-- The disc that `dvmProbeMountDiscIface`, `fatMount` and `ext2Mount` begin with. -/
def createDisc (platform : Platform) (heap : DiscHeap) (iface : Option DiscInterface)
    (cachePages sectorsPerPage : Nat) (ans : Answers) : DiscHeap × Option Nat :=
  match iface.bind fun iface => (dvmDiscCreate platform.build iface ans.discAllocated).1 with
  | none => (heap, none)
  | some base =>
      let disc := heap.next
      let heap := heap.create base none
      if cachePages ≠ 0 then
        let r := createCache heap disc cachePages sectorsPerPage ans
        (r.1, some r.2)
      else (heap, some disc)

def dvmProbeMountDiscIface (platform : Platform) (s : System) (basename : Name)
    (iface : Option DiscInterface) (cachePages sectorsPerPage : Nat) (ans : Answers) :
    System × Nat :=
  let created := createDisc platform s.heap iface cachePages sectorsPerPage ans
  let s := { s with heap := created.1 }
  match created.2 with
  | none => (s, 0)
  | some disc =>
      let r := dvmProbeMountDisc platform s basename disc ans
      if r.2 = 0 then ({ r.1 with heap := r.1.heap.destroy disc }, 0) else r

/-- `fatMount` and `ext2Mount`, which differ in the driver and its file system. -/
def driverMountIface (fsdrv : DvmFsDriver) (fstype : String) (platform : Platform) (s : System)
    (name : Name) (iface : Option DiscInterface)
    (startSector cachePages sectorsPerPage : Nat) (ans : Answers) : System × Bool :=
  let created := createDisc platform s.heap iface cachePages sectorsPerPage ans
  let s := { s with heap := created.1 }
  match created.2 with
  | none => (s, false)
  | some disc =>
      let registered := dvmRegisterFsDriver s.drvTable (some fsdrv)
      let s := { s with drvTable := registered.1 }
      let r := if registered.2 then dvmMountVolume s name disc startSector fstype (ans.mounts 0)
        else (s, false)
      if r.2 then r else ({ r.1 with heap := r.1.heap.destroy disc }, false)

def fatMount := driverMountIface vfatFsDriver "vfat"

def ext2Mount := driverMountIface ext2FsDriver "ext2"

/-! ## Calls and runs -/

inductive Call where
  | probeMount (basename : Name) (iface : Option DiscInterface)
      (cachePages sectorsPerPage : Nat) (ans : Answers)
  | fatMount (name : Name) (iface : Option DiscInterface)
      (startSector cachePages sectorsPerPage : Nat) (ans : Answers)
  | ext2Mount (name : Name) (iface : Option DiscInterface)
      (startSector cachePages sectorsPerPage : Nat) (ans : Answers)
  | unmount (name : Option Name)

/-- The number a call returns; 1 for true and 0 for false. -/
def call (platform : Platform) (s : System) : Call → System × Nat
  | .probeMount basename iface cachePages sectorsPerPage ans =>
      dvmProbeMountDiscIface platform s basename iface cachePages sectorsPerPage ans
  | .fatMount name iface startSector cachePages sectorsPerPage ans =>
      let r := fatMount platform s name iface startSector cachePages sectorsPerPage ans
      (r.1, r.2.toNat)
  | .ext2Mount name iface startSector cachePages sectorsPerPage ans =>
      let r := ext2Mount platform s name iface startSector cachePages sectorsPerPage ans
      (r.1, r.2.toNat)
  | .unmount name =>
      let r := dvmUnmountVolume platform s name
      (r.1, r.2.toNat)

def machine (platform : Platform) : Machine System Call Nat where
  step := call platform

/-- Before the first call: some drivers may be registered, no disc exists. -/
def boot (drvTable : List (Option DvmFsDriver)) : System :=
  { drvTable := drvTable
    devices := []
    heap := ⟨fun _ => ⟨wrapBase .other ⟨0, 0, 0, 0, 0, false, false⟩, none, false⟩, 0, []⟩ }

end LibDvm.Volume
