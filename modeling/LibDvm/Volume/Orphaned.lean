import LibDvm.Volume.Ownership

/-! # Attempts that lose their disc

The condition under which discs keep their owners is exact. In an orphaned attempt the
first volume mounted on the disc fails to get its place in the device table, `umount`
destroys the disc, and the failure that `dvmMountPartition` then reports stays on record
for good.
-/

namespace LibDvm.Volume

open DiscHeap Prober

/-! ## What every call keeps -/

/-- The discs once a call has created its own and the prober has set the size of it. -/
def Call.opened (platform : Platform) (h : DiscHeap) : Call → DiscHeap
  | .probeMount _ iface cachePages sectorsPerPage ans =>
      let created := createDisc platform h iface cachePages sectorsPerPage ans
      match created.2 with
      | none => created.1
      | some d =>
          (created.1.access d).modify d
            (setNumSectors (probeTable platform.order (created.1.objs d).base ans).numSectors)
  | .fatMount _ iface _ cachePages sectorsPerPage ans =>
      (createDisc platform h iface cachePages sectorsPerPage ans).1
  | .ext2Mount _ iface _ cachePages sectorsPerPage ans =>
      (createDisc platform h iface cachePages sectorsPerPage ans).1
  | .unmount _ => h

section Kept

variable {P : DiscHeap → Prop} {heap : DiscHeap} {s : System}

theorem kept_driverMount (k : Kept P) (hp : P heap) (d : Nat) (mounted : Bool) :
    P (driverMount heap d mounted).1 := by
  unfold driverMount
  cases mounted with
  | false => exact k.access hp d
  | true => exact k.addUser (k.access hp d) d

theorem kept_driverUmount (k : Kept P) (hp : P heap) (d : Nat) : P (driverUmount heap d) :=
  k.removeUser (k.access hp d) d

theorem kept_dvmMountPartition (k : Kept P) (hp : P s.heap) (name : Name) (d : Nat)
    (part : DvmPartInfo) (o : MountOutcome) : P (dvmMountPartition s name d part o).1.heap := by
  have hmount := kept_driverMount k hp d o.mounted
  have hbody : P (mountPartition s name d part o).1.heap := by
    unfold mountPartition
    split
    · exact hp
    · split
      · exact hp
      · simp only
        split
        · exact hmount
        · split
          · exact kept_driverUmount k hmount d
          · exact hmount
  unfold dvmMountPartition
  simp only
  split
  · exact hbody
  · exact k.record hbody _

theorem kept_dvmMountVolume (k : Kept P) (hp : P s.heap) (name : Name) (d startSector : Nat)
    (fstype : String) (o : MountOutcome) :
    P (dvmMountVolume s name d startSector fstype o).1.heap := by
  unfold dvmMountVolume
  refine kept_dvmMountPartition k ?_ _ _ _ _
  split
  · exact hp
  · exact k.use hp d

theorem kept_mountLoop (k : Kept P) (hp : P s.heap) (basename : Name) (d : Nat)
    (mounts : Nat → MountOutcome) (parts : List DvmPartInfo) (i numMounted : Nat) :
    P (mountLoop basename d mounts parts i numMounted s).1.heap := by
  induction parts generalizing i numMounted s with
  | nil => exact hp
  | cons part rest ih =>
      simp only [mountLoop]
      split
      · exact ih hp (i + 1) numMounted
      · exact ih (kept_dvmMountPartition k hp _ d part (mounts i)) (i + 1) _

theorem kept_dvmProbeMountDisc (k : Kept P) (platform : Platform) (basename : Name) (d : Nat)
    (ans : Answers)
    (hp : P ((s.heap.access d).modify d
      (setNumSectors (probeTable platform.order (s.heap.objs d).base ans).numSectors))) :
    P (dvmProbeMountDisc platform s basename d ans).1.heap := by
  unfold dvmProbeMountDisc
  simp only
  split
  · exact kept_dvmMountVolume k hp basename d 0 "exfat" (ans.mounts 0)
  · exact kept_mountLoop k hp basename d ans.mounts _ 0 0

theorem kept_driverMountIface (k : Kept P) (fsdrv : DvmFsDriver) (fstype : String)
    (platform : Platform) (name : Name) (iface : Option DiscInterface)
    (startSector cachePages sectorsPerPage : Nat) (ans : Answers)
    (hp : P (createDisc platform s.heap iface cachePages sectorsPerPage ans).1) :
    P (driverMountIface fsdrv fstype platform s name iface startSector cachePages sectorsPerPage
      ans).1.heap := by
  unfold driverMountIface
  simp only
  split
  · exact hp
  · next d _ =>
      split
      · have hmounted := fun table : List (Option DvmFsDriver) =>
          kept_dvmMountVolume (s := { s with drvTable := table, heap := _ }) k hp name d
            startSector fstype (ans.mounts 0)
        split
        · exact hmounted _
        · exact k.destroy (hmounted _) d
      · exact k.destroy hp d

theorem kept_call (k : Kept P) (platform : Platform) (c : Call)
    (hp : P (c.opened platform s.heap)) : P ((machine platform).step s c).1.heap := by
  cases c with
  | probeMount basename iface cachePages sectorsPerPage ans =>
      show P (dvmProbeMountDiscIface platform s basename iface cachePages sectorsPerPage
        ans).1.heap
      unfold dvmProbeMountDiscIface
      unfold Call.opened at hp
      simp only at hp ⊢
      cases hdisc : (createDisc platform s.heap iface cachePages sectorsPerPage ans).2 with
      | none =>
          rw [hdisc] at hp
          exact hp
      | some d =>
          rw [hdisc] at hp
          have hprobed := kept_dvmProbeMountDisc (s := { s with heap := _ }) k platform basename d
            ans hp
          simp only
          split
          · exact k.destroy hprobed d
          · exact hprobed
  | fatMount name iface startSector cachePages sectorsPerPage ans =>
      exact kept_driverMountIface k vfatFsDriver "vfat" platform name iface startSector cachePages
        sectorsPerPage ans hp
  | ext2Mount name iface startSector cachePages sectorsPerPage ans =>
      exact kept_driverMountIface k ext2FsDriver "ext2" platform name iface startSector cachePages
        sectorsPerPage ans hp
  | unmount name =>
      show P (dvmUnmountVolume platform s name).1.heap
      unfold dvmUnmountVolume
      split
      · exact hp
      · split
        · exact hp
        · next vol _ =>
            split
            · exact kept_driverUmount k hp vol.disc
            · exact hp

end Kept

/-! ## The log over a call -/

theorem before_createDisc (platform : Platform) (h : DiscHeap) (iface : Option DiscInterface)
    (cachePages sectorsPerPage : Nat) (ans : Answers) :
    Before h (createDisc platform h iface cachePages sectorsPerPage ans).1 := by
  have hused : ∀ base, Before h ((h.create base none).use h.next) := fun base =>
    (before_kept h).use (h := h.create base none) (Before.refl h) h.next
  unfold createDisc createCache
  simp only
  split
  · exact Before.refl h
  · split
    · split
      · exact hused _
      · exact (before_kept h).addUser (hused _) h.next
    · exact Before.refl h

theorem before_call (platform : Platform) (s : System) (c : Call) :
    Before s.heap ((machine platform).step s c).1.heap := by
  apply kept_call (before_kept s.heap) platform c
  cases c with
  | probeMount basename iface cachePages sectorsPerPage ans =>
      have hcreated := before_createDisc platform s.heap iface cachePages sectorsPerPage ans
      unfold Call.opened
      simp only
      split
      · exact hcreated
      · exact (before_kept s.heap).access hcreated _
  | fatMount name iface startSector cachePages sectorsPerPage ans =>
      exact before_createDisc platform s.heap iface cachePages sectorsPerPage ans
  | ext2Mount name iface startSector cachePages sectorsPerPage ans =>
      exact before_createDisc platform s.heap iface cachePages sectorsPerPage ans
  | unmount name => exact Before.refl s.heap

/-! ## A failure that took the disc away -/

/-- A failed `dvmMountPartition` is on record that left no disc behind. -/
def DiscLost (h : DiscHeap) : Prop :=
  ∃ d before after, .mountFailed d false before after ∈ h.log

theorem DiscLost.later {h h' : DiscHeap} (hl : DiscLost h) (hb : Before h h') : DiscLost h' := by
  obtain ⟨d, before, after, hmem⟩ := hl
  exact ⟨d, before, after, hb.subset hmem⟩

theorem DiscLost.not_owned {s : System} (hl : DiscLost s.heap) : ¬ DiscsOwned s := by
  obtain ⟨d, before, after, hmem⟩ := hl
  intro hown
  have := (hown.failed d false before after hmem).1
  contradiction

/-- `umount` takes the only user of the disc away. -/
theorem dvmMountPartition_orphaned {s : System} {d : Nat} (name : Name) (part : DvmPartInfo)
    (o : MountOutcome) (hs : Held s (some d)) (htop : Top s.heap d)
    (hzero : volumesOn s.devices d = 0) (hreach : reachesAddDevice s.drvTable part o = true)
    (hfail : o.addDevice = none) : DiscLost (dvmMountPartition s name d part o).1.heap := by
  have hown := hs.held d htop (Or.inr rfl)
  rw [hzero] at hown
  simp only [reachesAddDevice, Bool.and_eq_true, Option.isSome_iff_exists] at hreach
  obtain ⟨⟨⟨fsdrv, hdrv⟩, hvol⟩, hmounted⟩ := hreach
  obtain ⟨hlog, hone, -, hret⟩ := driverMount_owned hs.log hown (by omega) o.mounted
  rw [hmounted] at hlog hone hret
  have hgone := (driverUmount_last hlog hone).2.1
  have hbody : mountPartition s name d part o =
      ({ s with heap := driverUmount (driverMount s.heap d true).1 d }, false) := by
    simp [mountPartition, hdrv, hvol, hmounted, hret, hfail]
  have heq : (dvmMountPartition s name d part o).1.heap =
      (driverUmount (driverMount s.heap d true).1 d).record
        (.mountFailed d ((driverUmount (driverMount s.heap d true).1 d).objs d).alive
          (s.heap.objs d).base.numUsers
          ((driverUmount (driverMount s.heap d true).1 d).objs d).base.numUsers) := by
    simp [dvmMountPartition, hbody]
  rw [heq, hgone.dead]
  exact ⟨d, _, _, List.mem_cons_self⟩

theorem dvmMountVolume_orphaned {s : System} {d : Nat} (name : Name) (startSector : Nat)
    (fstype : String) (o : MountOutcome) (hs : Held s (some d)) (htop : Top s.heap d)
    (hzero : volumesOn s.devices d = 0)
    (hreach : reachesAddDevice s.drvTable (volumePart (s.heap.objs d).base startSector fstype) o =
      true)
    (hfail : o.addDevice = none) :
    DiscLost (dvmMountVolume s name d startSector fstype o).1.heap := by
  unfold dvmMountVolume
  by_cases hstart : startSector ≠ 0
  · simp only [hstart, ne_eq, not_false_eq_true, if_true]
    exact dvmMountPartition_orphaned name _ o hs htop hzero hreach hfail
  · simp only [hstart, if_false]
    have hused : Held { s with heap := s.heap.use d } (some d) := hs.record (hs.alive htop) rfl
    exact dvmMountPartition_orphaned name _ o hused htop hzero hreach hfail

/-- Up to the first partition that comes to `AddDevice` nothing is mounted. -/
theorem mountLoop_orphaned {d : Nat} (basename : Name) (mounts : Nat → MountOutcome)
    (parts : List DvmPartInfo) (i numMounted : Nat) (s : System) (hs : Held s (some d))
    (htop : Top s.heap d) (hzero : volumesOn s.devices d = 0)
    (hfirst : firstUnregistered s.drvTable mounts parts i = true) :
    DiscLost (mountLoop basename d mounts parts i numMounted s).1.heap := by
  induction parts generalizing i numMounted s with
  | nil => contradiction
  | cons part rest ih =>
      by_cases hreach : reachesAddDevice s.drvTable part (mounts i) = true
      · simp only [firstUnregistered, hreach, if_true, Option.isNone_iff_eq_none] at hfirst
        have hsome : part.fstype.isNone = false := by
          cases hfs : part.fstype with
          | none => simp [reachesAddDevice, hfs] at hreach
          | some fstype => rfl
        have hlost := dvmMountPartition_orphaned (volname basename part.index) part (mounts i) hs
          htop hzero hreach hfirst
        simp only [mountLoop, hsome, Bool.false_eq_true, if_false]
        exact hlost.later (kept_mountLoop (before_kept _) (Before.refl _) basename d mounts rest
          (i + 1) _)
      · simp only [firstUnregistered, hreach, Bool.false_eq_true, if_false] at hfirst
        simp only [mountLoop]
        split
        · exact ih (i + 1) numMounted s hs htop hzero hfirst
        · obtain ⟨hheld, htop', htable, hcount⟩ :=
            dvmMountPartition_held (volname basename part.index) part (mounts i) hs htop
              (by omega) (Or.inr fun h => absurd h hreach)
          have hret := dvmMountPartition_ret s (volname basename part.index) d part (mounts i)
          rw [Bool.eq_false_iff.mpr hreach, Bool.false_and] at hret
          rw [hret, hzero] at hcount
          exact ih (i + 1) _ _ hheld htop' hcount (by rw [htable]; exact hfirst)

theorem dvmProbeMountDisc_orphaned {s : System} {d : Nat} (platform : Platform)
    (basename : Name) (ans : Answers) (hs : Held s (some d)) (htop : Top s.heap d)
    (hzero : volumesOn s.devices d = 0)
    (hfirst : firstUnregistered s.drvTable ans.mounts
      (probedParts platform.order (s.heap.objs d).base ans) 0 = true) :
    DiscLost (dvmProbeMountDisc platform s basename d ans).1.heap := by
  unfold dvmProbeMountDisc
  simp only [probedParts] at hfirst
  generalize probeTable platform.order (s.heap.objs d).base ans = found at hfirst ⊢
  obtain ⟨hsized, htop'⟩ := hs.probed htop found.numSectors
  by_cases hret : found.ret = 0
  · rw [if_pos hret] at hfirst
    simp only [hret, if_true]
    have hbase : (((s.heap.access d).modify d (setNumSectors found.numSectors)).objs d).base =
        setNumSectors found.numSectors (s.heap.objs d).base := by
      rw [modify_self, access_objs]
    obtain ⟨hreach, hfail⟩ := (firstUnregistered_single _ _ _).mp hfirst
    exact dvmMountVolume_orphaned basename 0 "exfat" (ans.mounts 0) hsized htop' hzero
      (by rw [hbase]; exact hreach) hfail
  · rw [if_neg hret] at hfirst
    simp only [hret, if_false]
    exact mountLoop_orphaned basename ans.mounts _ 0 0 _ hsized htop' hzero hfirst

/-! ## Calls that lose their disc -/

theorem dvmProbeMountDiscIface_orphaned {s : System} (platform : Platform) (basename : Name)
    (iface : Option DiscInterface) (cachePages sectorsPerPage : Nat) (ans : Answers)
    (hs : Held s none)
    (horphan : orphanedProbe platform s iface cachePages sectorsPerPage ans = true) :
    DiscLost (dvmProbeMountDiscIface platform s basename iface cachePages sectorsPerPage
      ans).1.heap := by
  have hcreated := createDisc_held platform iface cachePages sectorsPerPage ans hs
  unfold dvmProbeMountDiscIface
  unfold orphanedProbe at horphan
  simp only at hcreated horphan ⊢
  cases hdisc : (createDisc platform s.heap iface cachePages sectorsPerPage ans).2 with
  | none =>
      simp only [hdisc] at horphan
      contradiction
  | some d =>
      simp only [hdisc] at hcreated horphan ⊢
      obtain ⟨hheld, htop, hzero⟩ := hcreated
      have hlost := dvmProbeMountDisc_orphaned platform basename ans hheld htop hzero horphan
      split
      · exact hlost.later ((before_kept _).destroy (Before.refl _) d)
      · exact hlost

theorem driverMountIface_orphaned {s : System} (fsdrv : DvmFsDriver) (fstype : String)
    (platform : Platform) (name : Name) (iface : Option DiscInterface)
    (startSector cachePages sectorsPerPage : Nat) (ans : Answers) (hs : Held s none)
    (horphan : orphanedMount fsdrv fstype platform s iface startSector cachePages sectorsPerPage
      ans = true) :
    DiscLost (driverMountIface fsdrv fstype platform s name iface startSector cachePages
      sectorsPerPage ans).1.heap := by
  have hcreated := createDisc_held platform iface cachePages sectorsPerPage ans hs
  unfold driverMountIface
  unfold orphanedMount at horphan
  simp only at hcreated horphan ⊢
  cases hdisc : (createDisc platform s.heap iface cachePages sectorsPerPage ans).2 with
  | none =>
      simp only [hdisc] at horphan
      contradiction
  | some d =>
      simp only [hdisc, Bool.and_eq_true] at hcreated horphan ⊢
      obtain ⟨hheld, htop, hzero⟩ := hcreated
      obtain ⟨hreg, hfirst⟩ := horphan
      obtain ⟨hreach, hfail⟩ := (firstUnregistered_single _ _ _).mp hfirst
      have htable : Held { s with
          drvTable := (dvmRegisterFsDriver s.drvTable (some fsdrv)).1
          heap := (createDisc platform s.heap iface cachePages sectorsPerPage ans).1 } (some d) :=
        ⟨hheld.log, hheld.shape, hheld.volumes, hheld.held, hheld.gone⟩
      have hlost := dvmMountVolume_orphaned name startSector fstype (ans.mounts 0) htable htop
        hzero hreach hfail
      simp only [hreg, if_true]
      split
      · exact hlost
      · exact hlost.later ((before_kept _).destroy (Before.refl _) d)

/-! ## Ownership over whole runs -/

theorem call_orphaned (platform : Platform) (s : System) (c : Call) (hs : Held s none)
    (hc : c.orphaned platform s = true) : DiscLost ((machine platform).step s c).1.heap := by
  cases c with
  | probeMount basename iface cachePages sectorsPerPage ans =>
      exact dvmProbeMountDiscIface_orphaned platform basename iface cachePages sectorsPerPage ans
        hs hc
  | fatMount name iface startSector cachePages sectorsPerPage ans =>
      exact driverMountIface_orphaned vfatFsDriver "vfat" platform name iface startSector cachePages
        sectorsPerPage ans hs hc
  | ext2Mount name iface startSector cachePages sectorsPerPage ans =>
      exact driverMountIface_orphaned ext2FsDriver "ext2" platform name iface startSector cachePages
        sectorsPerPage ans hs hc
  | unmount name => contradiction

/-- A run leaves every disc with its owners exactly when none of its attempts is orphaned. -/
theorem disc_ownership (platform : Platform) (drvTable : List (Option DvmFsDriver))
    (calls : List Call) :
    DiscsOwned ((machine platform).run (boot drvTable) calls) ↔
      (machine platform).Throughout (fun s c => c.orphaned platform s = false) (boot drvTable)
        calls := by
  refine (machine platform).run_iff_throughout _ (fun s => Held s none)
    (fun s => DiscLost s.heap) DiscsOwned (call_held platform) ?_ ?_ (fun _ hs => hs.owned)
    (fun _ hlost => hlost.not_owned) calls (boot_held drvTable)
  · intro s c hs hc
    exact call_orphaned platform s c hs (by simpa using hc)
  · intro s c hlost
    exact hlost.later (before_call platform s c)

def samplePlatform : Platform where
  build := .other
  order := .little
  getDeviceOpTab devices name :=
    devices.find? fun vol => vol.namebuf.takeWhile (· ≠ 0) = name.takeWhile (· ≠ 0x3a)

def sampleIface : DiscInterface := ⟨0, 3, 64, 512, 1, true, true⟩

def sampleAnswers (addDevice : Option Nat) : Answers where
  discAllocated := true
  cacheAllocated := true
  dataAddress := some 4096
  probeBuffer := some fun _ => 0
  readSectors _ _ _ _ := none
  mounts _ := ⟨true, true, addDevice⟩

def sampleMount (cachePages : Nat) (addDevice : Option Nat) : Call :=
  .fatMount [0x61] (some sampleIface) 0 cachePages 8 (sampleAnswers addDevice)

def sampleTable : List (Option DvmFsDriver) := List.replicate maxDrivers none

example : (machine samplePlatform).Throughout
    (fun s c => c.orphaned samplePlatform s = false) (boot sampleTable)
    [sampleMount 2 (some 3), .unmount (some [0x61]), sampleMount 0 (some 3)] :=
  ⟨by decide +kernel, by decide +kernel, by decide +kernel, trivial⟩

/-- When `AddDevice` fails, `umount` destroys the disc and `fatMount` destroys it again. -/
theorem orphaned_disc_destroyed_twice :
    ((machine samplePlatform).run (boot sampleTable) [sampleMount 0 none]).heap.log =
        [.destroyed 0 false, .mountFailed 0 false 0 0, .destroyed 0 true, .used 0 true,
          .used 0 true, .used 0 true, .used 0 true, .used 0 true] ∧
      ¬ DiscsOwned ((machine samplePlatform).run (boot sampleTable) [sampleMount 0 none]) := by
  have hlog : ((machine samplePlatform).run (boot sampleTable) [sampleMount 0 none]).heap.log =
      [.destroyed 0 false, .mountFailed 0 false 0 0, .destroyed 0 true, .used 0 true,
        .used 0 true, .used 0 true, .used 0 true, .used 0 true] := by
    decide +kernel
  refine ⟨hlog, ?_⟩
  intro hown
  have hfailed := hown.failed 0 false 0 0 (by rw [hlog]; simp)
  simp at hfailed

end LibDvm.Volume
