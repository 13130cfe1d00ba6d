import LibDvm.Volume.Startup
import LibDvm.Block.Model
import LibDvm.Fat.Model

/-! # Mounting a file system

The `mount` and `umount` functions of the three drivers under their own names, and
`dvmMountPartition` and `dvmUnmountVolume` around them. FatFs and lwext4 are parameters;
they know a volume by the address of its `DvmVolume`, which the volume layer allocates and
frees.
-/

namespace LibDvm.Mount

open Prober Volume Block
open Fat (FResult)

/-! ## What the libraries offer -/

/-- `MKFS_PARM`. -/
structure MkfsParm where
  fmt : Nat
  nFat : Nat
  align : Nat
  nRoot : Nat
  auSize : Nat

/-- A `FatVolume` by its address, with the disc and the range that its `disk_*` calls use. -/
structure FatVolumeAt where
  addr : Nat
  disc : Nat
  range : FatVolume

/-- FatFs as the mount code uses it; `φ` is its state. -/
structure FatFsMount (φ : Type) where
  fMount : φ → FatVolumeAt → (ipart : Nat) → φ × FResult
  fUmount : φ → (addr : Nat) → φ × FResult
  fMkfs : φ → FatVolumeAt → (ipart : Nat) → MkfsParm → φ × FResult

/-- The `ext4_blockdev` of an `Ext4Volume` by its address, with the disc behind it. -/
structure Ext4VolumeAt where
  addr : Nat
  disc : Nat
  phBcnt : Nat
  bdev : Ext4Blockdev

/-- lwext4 as the mount code uses it; `μ` is its state. An error number of 0 is `EOK`. -/
structure Lwext4Mount (μ : Type) where
  ext4Mount : μ → Ext4VolumeAt → (readOnly : Bool) → μ × Nat
  ext4Recover : μ → (addr : Nat) → μ × Nat
  ext4JournalStart : μ → (addr : Nat) → μ × Nat
  ext4JournalStop : μ → (addr : Nat) → μ × Nat
  ext4Umount : μ → (addr : Nat) → μ × Nat

/-- Both libraries, and the volumes whose `lock` has been initialised by the ext driver. -/
structure Libraries (φ μ : Type) where
  fatfs : φ
  lwext4 : μ
  locks : Nat → Bool

/-- Numbers of the platform: the feature bits, of which `FEATURE_MEDIUM_CANFORMAT` may be
missing, and `ENOTSUP`. -/
structure Numbers where
  mediumCanwrite : Nat
  mediumCanformat : Option Nat
  enotsup : Nat

/-- `fsdrv->mount` and `fsdrv->umount` of a driver, on the volume at an address. What a
mount does to the users of the disc is `driverMount`. -/
structure Driver (ω : Type) where
  mount : ω → (addr disc : Nat) → DvmDisc → DvmPartInfo → ω × Bool
  umount : ω → (addr : Nat) → ω

/-! ## FAT -/

abbrev fmFat : Nat := 0x01
abbrev fmFat32 : Nat := 0x02
abbrev fmExfat : Nat := 0x04
abbrev fmSfd : Nat := 0x08

section Drivers

variable {φ μ : Type} (fatfs : FatFsMount φ) (lw : Lwext4Mount μ) (numbers : Numbers)

def fatVolume (part : DvmPartInfo) : FatVolume :=
  ⟨secWrap part.startSector, secWrap part.numSectors, secWrap_lt _, secWrap_lt _⟩

/-- `disc->features & FEATURE_MEDIUM_CANFORMAT`, where there is such a feature. -/
def canFormat (base : DvmDisc) : Bool :=
  match numbers.mediumCanformat with
  | none => false
  | some bit => base.features &&& bit != 0

/-- `FM_SFD` for a volume that is no partition of a table. -/
def mkfsParm (ipart : Nat) (opt : MkfsParm) : MkfsParm :=
  if ipart = 0 then { opt with fmt := opt.fmt ||| fmSfd } else opt

/-- The part of `_FAT_mount_vfat` and `_FAT_mount_exfat` that formats the medium and tries
again. -/
def fatFormat (w : φ) (vol : FatVolumeAt) (ipart : Nat) (opt : MkfsParm) : φ × FResult :=
  let w := (fatfs.fUmount w vol.addr).1
  let r := fatfs.fMkfs w vol ipart (mkfsParm ipart opt)
  if r.2 = .ok then fatfs.fMount r.1 vol ipart else r

/-- What `_FAT_mount_vfat` and `_FAT_mount_exfat` share: all but the format. -/
def fatMountAs (opt : MkfsParm) (w : φ) (addr disc : Nat) (base : DvmDisc)
    (part : DvmPartInfo) : φ × Bool :=
  let vol : FatVolumeAt := ⟨addr, disc, fatVolume part⟩
  let ipart := if vol.range.startSector ≠ 0 then 0 else part.index
  let r := fatfs.fMount w vol ipart
  let r := if r.2 = .noFilesystem ∧ canFormat numbers base then fatFormat fatfs r.1 vol ipart opt
    else r
  if r.2 ≠ .ok then ((fatfs.fUmount r.1 addr).1, false) else (r.1, true)

def fatMountVfat : φ → (addr disc : Nat) → DvmDisc → DvmPartInfo → φ × Bool :=
  fatMountAs fatfs numbers ⟨fmFat ||| fmFat32, 2, 0, 0, 0⟩

def fatMountExfat : φ → (addr disc : Nat) → DvmDisc → DvmPartInfo → φ × Bool :=
  fatMountAs fatfs numbers ⟨fmExfat, 0, 0, 0, 0⟩

/-- `_FAT_umount`. -/
def fatUmount (w : φ) (addr : Nat) : φ := (fatfs.fUmount w addr).1

/-! ## ext -/

/-- The block device `_ext4_mount` fills in; its buffer comes with `_ext4_dev_open`. -/
def ext4Blockdev (base : DvmDisc) (part : DvmPartInfo) : Ext4Blockdev where
  phBsize := base.sectorSz
  phBbuf := 0
  partOffset := secWrap part.startSector * base.sectorSz % 2 ^ 64
  partSize := secWrap part.numSectors * base.sectorSz % 2 ^ 64

/-- `_ext4_mount`. -/
def ext4Mount (w : μ × (Nat → Bool)) (addr disc : Nat) (base : DvmDisc) (part : DvmPartInfo) :
    (μ × (Nat → Bool)) × Bool :=
  let vol : Ext4VolumeAt := ⟨addr, disc, base.numSectors, ext4Blockdev base part⟩
  let r := lw.ext4Mount w.1 vol (!canWrite numbers.mediumCanwrite base)
  if r.2 ≠ 0 then ((r.1, w.2), false)
  else
    let r := lw.ext4Recover r.1 addr
    if r.2 ≠ 0 ∧ r.2 ≠ numbers.enotsup then (((lw.ext4Umount r.1 addr).1, w.2), false)
    else
      let r := lw.ext4JournalStart r.1 addr
      if r.2 ≠ 0 then (((lw.ext4Umount r.1 addr).1, w.2), false)
      else ((r.1, Function.update w.2 addr true), true)

/-- `_ext4_umount`. -/
def ext4Umount (w : μ × (Nat → Bool)) (addr : Nat) : μ × (Nat → Bool) :=
  let lib := (lw.ext4Umount (lw.ext4JournalStop w.1 addr).1 addr).1
  (lib, Function.update w.2 addr false)

/-! ## The drivers of the library -/

def fatDriver (mount : φ → (addr disc : Nat) → DvmDisc → DvmPartInfo → φ × Bool) :
    Driver (Libraries φ μ) where
  mount w addr disc base part :=
    let r := mount w.fatfs addr disc base part
    ({ w with fatfs := r.1 }, r.2)
  umount w addr := { w with fatfs := fatUmount fatfs w.fatfs addr }

def ext4Driver : Driver (Libraries φ μ) where
  mount w addr disc base part :=
    let r := ext4Mount lw numbers (w.lwext4, w.locks) addr disc base part
    (⟨w.fatfs, r.1.1, r.1.2⟩, r.2)
  umount w addr :=
    let r := ext4Umount lw (w.lwext4, w.locks) addr
    ⟨w.fatfs, r.1, r.2⟩

def driver (fsdrv : DvmFsDriver) : Driver (Libraries φ μ) :=
  if fsdrv = vfatFsDriver then fatDriver fatfs (fatMountVfat fatfs numbers)
  else if fsdrv = exfatFsDriver then fatDriver fatfs (fatMountExfat fatfs numbers)
  else ext4Driver lw numbers

end Drivers

/-! ## The volume layer on top -/

/-- The volume layer, the address of each registered volume, and the libraries. -/
structure Layer (ω : Type) where
  sys : System
  vols : List (Nat × DvmVolume)
  libs : ω

/-- What a call returns, and the address it has freed, if any, with the state in which the
libraries were at that moment. -/
structure Outcome (ω : Type) where
  ret : Bool
  freed : Option (Nat × ω)

/-- A call, with what `malloc` and `AddDevice` answer. -/
inductive Action where
  | mount (name : Name) (disc : Nat) (part : DvmPartInfo) (malloc addDevice : Option Nat)
  | unmount (name : Option Name)

section Layer

variable {ω : Type} (drivers : DvmFsDriver → Driver ω)

/-- `dvmMountPartition`, down to the drivers. -/
def mountPartition (l : Layer ω) (name : Name) (disc : Nat) (part : DvmPartInfo)
    (malloc addDevice : Option Nat) : Layer ω × Outcome ω :=
  match part.fstype.bind fun fstype => findDriver fstype l.sys.drvTable, malloc with
  | some fsdrv, some addr =>
      let mount := (drivers fsdrv).mount l.libs addr disc (l.sys.heap.objs disc).base part
      let r := dvmMountPartition l.sys name disc part ⟨true, mount.2, addDevice⟩
      if !mount.2 then (⟨r.1, l.vols, mount.1⟩, ⟨false, some (addr, mount.1)⟩)
      else match addDevice with
        | none =>
            let libs := (drivers fsdrv).umount mount.1 addr
            (⟨r.1, l.vols, libs⟩, ⟨false, some (addr, libs)⟩)
        | some devid =>
            (⟨r.1, l.vols ++ [(addr, ⟨devid, fsdrv, namebuf name, disc⟩)], mount.1⟩,
              ⟨true, none⟩)
  | _, _ =>
      let r := dvmMountPartition l.sys name disc part ⟨malloc.isSome, false, addDevice⟩
      ({ l with sys := r.1 }, ⟨false, none⟩)

/-- `dvmUnmountVolume`, down to the drivers. -/
def unmountVolume (platform : Platform) (l : Layer ω) (name : Option Name) :
    Layer ω × Outcome ω :=
  match name with
  | none => (l, ⟨false, none⟩)
  | some text =>
      let found := (platform.getDeviceOpTab l.sys.devices (lookupName text)).bind fun vol =>
        l.vols.find? fun p => p.2 = vol
      match found with
      | none => (l, ⟨false, none⟩)
      | some p =>
          let libs := (drivers p.2.fsdrv).umount l.libs p.1
          (⟨(dvmUnmountVolume platform l.sys name).1, l.vols.erase p, libs⟩,
            ⟨true, some (p.1, libs)⟩)

def layer (platform : Platform) : Machine (Layer ω) Action (Outcome ω) where
  step l
    | .mount name disc part malloc addDevice =>
        mountPartition drivers l name disc part malloc addDevice
    | .unmount name => unmountVolume drivers platform l name

end Layer

end LibDvm.Mount
