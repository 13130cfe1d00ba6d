import LibDvm.Volume.Startup
import Mathlib.Data.List.Flatten

/-! # The start-up of `dvm_calico.c`

The block devices of the DS and DSi are static disc objects, which `dvmInit` sizes, puts a
cache on and probes. With it the result about the names of a start-up covers every console
port.
-/

namespace LibDvm.Volume

open DiscHeap

/-- `BlkDevice`, as far as `dvmInit` mounts it. -/
inductive BlkDevice where
  | dldi
  | twlSdCard
  | twlNandAes
deriving DecidableEq

/-- What the console answers: its numbers for devices and features, the block devices,
`g_envExtraInfo->dldi_features`, `systemIsTwlMode` and `g_dvmCalicoNandMount`. -/
structure Calico where
  ioType : BlkDevice → Nat
  canRead : Nat
  canWrite : Nat
  blkDevInit : BlkDevice → Bool
  blkDevIsPresent : BlkDevice → Bool
  blkDevGetSectorCount : BlkDevice → Nat
  dldiFeatures : Nat
  isTwlMode : Bool
  nandMount : Nat
  ans : BlkDevice → Answers

namespace Calico

variable (console : Calico)

/-- `s_dvmDiscDldi`, `s_dvmDiscSd` and `s_dvmDiscNand`, with what `dvmInit` adds for the
NAND. -/
def features : BlkDevice → Nat
  | .dldi => console.dldiFeatures
  | .twlSdCard => console.canRead ||| console.canWrite
  | .twlNandAes =>
      if console.nandMount ≥ 2 then console.canRead ||| console.canWrite else console.canRead

theorem sector_lt_u16 : 512 < 2 ^ 16 := by decide

def disc (dev : BlkDevice) : DvmDisc where
  ioType := console.ioType dev
  features := u16 (console.features dev)
  numUsers := 0
  numSectors := secWrap (console.blkDevGetSectorCount dev)
  sectorSz := 512
  blockSz := 0
  numUsers_lt := zero_lt_u16
  numSectors_lt := secWrap_lt _
  sectorSz_lt := sector_lt_u16
  blockSz_lt := zero_lt_u16

end Calico

/-- `_dvmGetCalicoDisc`. A static disc that is handed out is an object that dies when its
destroy function is called, which does nothing. -/
def dvmGetCalicoDisc (console : Calico) (heap : DiscHeap) (dev : BlkDevice)
    (cachePages sectorsPerPage : Nat) : DiscHeap × Option Nat :=
  if !console.blkDevInit dev || !console.blkDevIsPresent dev then (heap, none)
  else
    let disc := heap.next
    let heap := heap.create (console.disc dev) none
    let r := createCache heap disc cachePages sectorsPerPage (console.ans dev)
    (r.1, some r.2)

/-- `_dvmGetAndMountCalicoDisc`. -/
def dvmGetAndMountCalicoDisc (platform : Platform) (console : Calico) (s : System) (name : Name)
    (dev : BlkDevice) (cachePages sectorsPerPage : Nat) : System × Nat :=
  let got := dvmGetCalicoDisc console s.heap dev cachePages sectorsPerPage
  let s := { s with heap := got.1 }
  match got.2 with
  | none => (s, 0)
  | some disc =>
      let r := dvmProbeMountDisc platform s name disc (console.ans dev)
      if r.2 = 0 then ({ r.1 with heap := r.1.heap.destroy disc }, 0) else r

/-- The devices `dvmInit` tries, in its order, under their names. -/
def Calico.drives (console : Calico) : List (Name × BlkDevice) :=
  [(ascii "fat", .dldi)] ++
    if console.isTwlMode then
      [(ascii "sd", .twlSdCard)] ++
        if console.nandMount ≠ 0 then [(ascii "nand", .twlNandAes)] else []
    else []

/-- The calls of `_dvmGetAndMountCalicoDisc`, adding up `num_mounted`. -/
def mountCalicoDiscs (platform : Platform) (console : Calico) (cachePages sectorsPerPage : Nat) :
    List (Name × BlkDevice) → System → Nat → System × Nat
  | [], s, numMounted => (s, numMounted)
  | (name, dev) :: rest, s, numMounted =>
      let r := dvmGetAndMountCalicoDisc platform console s name dev cachePages sectorsPerPage
      mountCalicoDiscs platform console cachePages sectorsPerPage rest r.1 (numMounted + r.2)

/-! ## Every port -/

inductive Startup where
  | interfaces (port : Port) (linked : DvmFsDriver → Bool) (drive : Name → Drive)
  | calico (console : Calico)

/-- `dvmInit` of the port, without the working directory. -/
def Startup.dvmInit (platform : Platform) (cachePages sectorsPerPage : Nat) (s : System) :
    Startup → System × Bool
  | .interfaces port linked drive =>
      Volume.dvmInit platform port linked drive cachePages sectorsPerPage s
  | .calico console =>
      let r := mountCalicoDiscs platform console cachePages sectorsPerPage console.drives s 0
      (r.1, r.2 != 0)

def Startup.names : Startup → List Name
  | .interfaces port _ _ => port.names
  | .calico _ => [ascii "fat", ascii "sd", ascii "nand"].flatMap probeNames

theorem Startup.names_nodup (startup : Startup) : startup.names.Nodup := by
  cases startup with
  | interfaces port linked drive => exact port.names_nodup
  | calico console =>
      show ([ascii "fat", ascii "sd", ascii "nand"].flatMap probeNames).Nodup
      decide +kernel

theorem Startup.names_plain (startup : Startup) : ∀ name ∈ startup.names, Plain name := by
  cases startup with
  | interfaces port linked drive => exact port.names_plain
  | calico console =>
      show ∀ name ∈ [ascii "fat", ascii "sd", ascii "nand"].flatMap probeNames, Plain name
      decide +kernel

theorem Calico.drives_sublist (console : Calico) :
    (console.drives.map Prod.fst).Sublist [ascii "fat", ascii "sd", ascii "nand"] := by
  unfold Calico.drives
  cases console.isTwlMode with
  | false => simp
  | true => by_cases hnand : console.nandMount = 0 <;> simp [hnand]

theorem dvmGetAndMountCalicoDisc_adds {name : Name} (hlen : name.length ≤ 14)
    (platform : Platform) (console : Calico) (s : System) (dev : BlkDevice)
    (cachePages sectorsPerPage : Nat) :
    let r := dvmGetAndMountCalicoDisc platform console s name dev cachePages sectorsPerPage
    Adds s r.1 (probeNames name) r.2 := by
  unfold dvmGetAndMountCalicoDisc
  simp only
  cases (dvmGetCalicoDisc console s.heap dev cachePages sectorsPerPage).2 with
  | none => exact .unchanged rfl
  | some disc =>
      have hprobe := dvmProbeMountDisc_adds hlen platform
        { s with heap := (dvmGetCalicoDisc console s.heap dev cachePages sectorsPerPage).1 } disc
        (console.ans dev)
      simp only at hprobe ⊢
      split
      · next hnone =>
          rw [hnone] at hprobe
          exact hprobe
      · exact hprobe

theorem mountCalicoDiscs_adds (platform : Platform) (console : Calico)
    (cachePages sectorsPerPage : Nat) {drives : List (Name × BlkDevice)}
    (hlen : ∀ e ∈ drives, e.1.length ≤ 14) (s : System) (numMounted : Nat) :
    let r := mountCalicoDiscs platform console cachePages sectorsPerPage drives s numMounted
    ∃ count, r.2 = numMounted + count ∧
      Adds s r.1 ((drives.map Prod.fst).flatMap probeNames) count := by
  induction drives generalizing s numMounted with
  | nil => exact ⟨0, rfl, .unchanged rfl⟩
  | cons e rest ih =>
      have hfirst := dvmGetAndMountCalicoDisc_adds (hlen e List.mem_cons_self) platform console s
        e.2 cachePages sectorsPerPage
      obtain ⟨count, hret, hadds⟩ := ih (fun e' he' => hlen e' (List.mem_cons_of_mem e he'))
        (dvmGetAndMountCalicoDisc platform console s e.1 e.2 cachePages sectorsPerPage).1
        (numMounted +
          (dvmGetAndMountCalicoDisc platform console s e.1 e.2 cachePages sectorsPerPage).2)
      refine ⟨_, ?_, hfirst.append hadds⟩
      rw [← Nat.add_assoc]
      exact hret

theorem Startup.dvmInit_names (platform : Platform) (after : DvmVolume → List UInt8)
    (startup : Startup) (cachePages sectorsPerPage : Nat) (drvTable : List (Option DvmFsDriver)) :
    let r := startup.dvmInit platform cachePages sectorsPerPage (boot drvTable)
    (r.1.devices.map (deviceName after)).Sublist startup.names ∧
      (∀ vol ∈ r.1.devices, vol.namebuf = namebuf (deviceName after vol)) ∧
      (r.2 = true ↔ r.1.devices ≠ []) := by
  cases startup with
  | interfaces port linked drive =>
      exact Volume.dvmInit_names platform after port linked drive cachePages sectorsPerPage drvTable
  | calico console =>
      have hshort : ∀ e ∈ console.drives, e.1.length ≤ 14 := by
        intro e he
        have hall : ∀ name ∈ [ascii "fat", ascii "sd", ascii "nand"], name.length ≤ 14 := by decide
        exact hall _ (console.drives_sublist.subset (List.mem_map_of_mem he))
      obtain ⟨count, hret, hadds⟩ := mountCalicoDiscs_adds platform console cachePages
        sectorsPerPage hshort (boot drvTable) 0
      obtain ⟨hsub, hbufs, hlen⟩ := (hadds.mono
        (console.drives_sublist.flatMap probeNames)).read rfl after
        (Startup.names_plain (.calico console))
      refine ⟨hsub, hbufs, ?_⟩
      rw [Nat.zero_add] at hret
      rw [Startup.dvmInit]
      simp only [hret, ← hlen]
      simp

/-- Whatever drives, file systems and failures the first start-up of a port meets: its
volumes have pairwise different names, each of them is unmounted under its own, and `dvmInit`
returns true exactly when there is one. -/
theorem init_volumes_named {platform : Platform} {after : DvmVolume → List UInt8}
    {others : List Name} (hlookup : ExactLookup platform after others) (startup : Startup)
    (hothers : ∀ name ∈ startup.names, name ∉ others) (cachePages sectorsPerPage : Nat)
    (drvTable : List (Option DvmFsDriver)) :
    let r := startup.dvmInit platform cachePages sectorsPerPage (boot drvTable)
    (r.1.devices.map (deviceName after)).Nodup ∧
      (∀ vol ∈ r.1.devices, Unmounts platform r.1 (deviceName after vol) vol) ∧
      (r.2 = true ↔ r.1.devices ≠ []) := by
  intro r
  obtain ⟨hsub, hbufs, hret⟩ :=
    startup.dvmInit_names platform after cachePages sectorsPerPage drvTable
  obtain ⟨hnodup, hunmounts⟩ :=
    names_unmount hlookup hothers startup.names_nodup startup.names_plain hsub hbufs
  exact ⟨hnodup, hunmounts, hret⟩

def sampleCalico : Calico where
  ioType
    | .dldi => 0
    | .twlSdCard => 1
    | .twlNandAes => 3
  canRead := 1
  canWrite := 2
  blkDevInit dev := dev != .dldi
  blkDevIsPresent _ := true
  blkDevGetSectorCount _ := 1000
  dldiFeatures := 0
  isTwlMode := true
  nandMount := 1
  ans dev := sampleAnswers (some (if dev = .twlSdCard then 3 else 4))

def sampleDsi : System × Bool :=
  (Startup.calico sampleCalico).dvmInit namedPlatform 16 8
    (boot (registerDrivers [some exfatFsDriver] sampleTable))

theorem init_volumes_named_sample :
    sampleDsi.1.devices.map (deviceName padding) = [ascii "sd", ascii "nand"] ∧
      (sampleDsi.1.devices.map (deviceName padding)).Nodup :=
  ⟨by decide +kernel,
    (init_volumes_named (exactPlatform_exact padding otherDevices) (.calico sampleCalico)
      (by decide +kernel) 16 8 (registerDrivers [some exfatFsDriver] sampleTable)).1⟩

end LibDvm.Volume
