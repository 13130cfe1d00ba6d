import LibDvm.Volume.Startup

/-! # What `dvmDeinit` releases

`dvmDeinit` walks over the device table and unmounts each device under the name it reads
there. Every volume goes whose name `dvmUnmountVolume` does not shorten, and with the last
volume of a disc the disc, destroyed once.
-/

namespace LibDvm.Volume

open DiscHeap Prober

/-! ## The shutdown -/

/-- `devoptab_list` apart from the volumes: its length `STD_MAX`, the other devices by
slot, and the memory behind a `namebuf`. -/
structure DevoptabList where
  stdMax : Nat
  others : Nat → Option Name
  after : DvmVolume → List UInt8

/-- `devoptab_list[i]->name`, or `none` for a null pointer. -/
def dotabName (list : DevoptabList) (s : System) (i : Nat) : Option Name :=
  match s.devices.find? fun vol => vol.devid = i with
  | some vol => some (deviceName list.after vol)
  | none => list.others i

/-- The body of the loop of `dvmDeinit`. -/
def deinitSlot (platform : Platform) (list : DevoptabList) (s : System) (i : Nat) : System :=
  match dotabName list s i with
  | none => s
  | some name => if name = ascii "stdnull" then s else (dvmUnmountVolume platform s (some name)).1

/-- The loop of `dvmDeinit` over the slots still to visit. -/
def deinitLoop (platform : Platform) (list : DevoptabList) : List Nat → System → System
  | [], s => s
  | i :: rest, s => deinitLoop platform list rest (deinitSlot platform list s i)

/-- `dvmDeinit`, after the files have been synced. -/
def dvmDeinit (platform : Platform) (list : DevoptabList) (s : System) : System :=
  deinitLoop platform list (List.range' 3 (list.stdMax - 3)) s

/-! ## The table it finds -/

/-- The volumes stand in slots of their own, under names of their own that are no paths. -/
structure Tabled (list : DevoptabList) (others : List Name) (devices : List DvmVolume) :
    Prop where
  slots : (devices.map DvmVolume.devid).Nodup
  inside : ∀ vol ∈ devices, 3 ≤ vol.devid ∧ vol.devid < list.stdMax
  names : (devices.map (deviceName list.after)).Nodup
  apart : ∀ vol ∈ devices, deviceName list.after vol ∉ others
  plain : ∀ vol ∈ devices, deviceName list.after vol ≠ [] ∧ 0x3a ∉ deviceName list.after vol

/-- The other devices of the table are those that a lookup finds, and their names are no
paths either. -/
structure OthersListed (list : DevoptabList) (others : List Name) : Prop where
  listed : ∀ i name, list.others i = some name → name ∈ others
  stdnull : ascii "stdnull" ∈ others
  plain : ∀ name ∈ others, name ≠ [] ∧ 0x3a ∉ name

section

variable {platform : Platform} {list : DevoptabList} {others : List Name} {s : System}

theorem Tabled.sublist {devices devices' : List DvmVolume} (h : Tabled list others devices)
    (hsub : devices'.Sublist devices) : Tabled list others devices' where
  slots := h.slots.sublist (hsub.map _)
  inside := fun vol hvol => h.inside vol (hsub.subset hvol)
  names := h.names.sublist (hsub.map _)
  apart := fun vol hvol => h.apart vol (hsub.subset hvol)
  plain := fun vol hvol => h.plain vol (hsub.subset hvol)

theorem Tabled.bearer (h : Tabled list others s.devices) {vol : DvmVolume}
    (hvol : vol ∈ s.devices) : OnlyBearer list.after others s vol :=
  ⟨hvol, h.apart vol hvol, fun _ hother hsame =>
    List.inj_on_of_nodup_map h.names hother hvol hsame⟩

theorem Tabled.dotabName (h : Tabled list others s.devices) {vol : DvmVolume}
    (hvol : vol ∈ s.devices) :
    dotabName list s vol.devid = some (deviceName list.after vol) := by
  unfold Volume.dotabName
  cases hfind : s.devices.find? fun v => v.devid = vol.devid with
  | none => exact absurd (List.find?_eq_none.mp hfind vol hvol) (by simp)
  | some found =>
      have hsame : found.devid = vol.devid := by simpa using List.find?_some hfind
      rw [List.inj_on_of_nodup_map h.slots (List.mem_of_find?_eq_some hfind) hvol hsame]

theorem Tabled.dotabName_plain (h : Tabled list others s.devices)
    (hothers : OthersListed list others) {i : Nat} {name : Name}
    (hname : Volume.dotabName list s i = some name) : name ≠ [] ∧ 0x3a ∉ name := by
  unfold Volume.dotabName at hname
  cases hfind : s.devices.find? fun v => v.devid = i with
  | none =>
      rw [hfind] at hname
      exact hothers.plain name (hothers.listed i name hname)
  | some found =>
      rw [hfind] at hname
      rw [← Option.some.inj hname]
      exact h.plain found (List.mem_of_find?_eq_some hfind)

/-! ## One slot -/

theorem dvmUnmountVolume_sublist (platform : Platform) (s : System) (name : Option Name) :
    (dvmUnmountVolume platform s name).1.devices.Sublist s.devices := by
  unfold dvmUnmountVolume
  split
  · exact List.Sublist.refl _
  · split
    · exact List.Sublist.refl _
    · split
      · exact List.erase_sublist
      · exact List.Sublist.refl _

/-- A lookup never finds a volume with a name of more than 30 bytes. -/
theorem dvmUnmountVolume_keeps_long (hlookup : ExactLookup platform list.after others)
    {name : Name} (hname : name ≠ [] ∧ 0x3a ∉ name) {vol : DvmVolume} (hvol : vol ∈ s.devices)
    (hlong : 30 < (deviceName list.after vol).length) :
    vol ∈ (dvmUnmountVolume platform s (some name)).1.devices := by
  unfold dvmUnmountVolume
  simp only
  split
  · exact hvol
  · next found hfound =>
      split
      · next hreg =>
          have hread := hlookup.exact (colon_mem_lookupName hname.1 hname.2) hreg hfound
          rw [deviceText_lookupName hname.1 hname.2] at hread
          have hne : vol ≠ found := by
            intro heq
            have hlen := congrArg List.length hread
            rw [List.length_take, ← heq] at hlen
            omega
          exact (List.mem_erase_of_ne hne).mpr hvol
      · exact hvol

theorem Tabled.deinitSlot_removes (h : Tabled list others s.devices)
    (hothers : OthersListed list others) (hlookup : ExactLookup platform list.after others)
    {vol : DvmVolume} (hvol : vol ∈ s.devices)
    (hshort : (deviceName list.after vol).length ≤ 30) :
    vol ∉ (deinitSlot platform list s vol.devid).devices := by
  have hbearer := h.bearer hvol
  have hfound := hbearer.found hlookup (h.plain vol hvol) hshort
  have hnull : deviceName list.after vol ≠ ascii "stdnull" := by
    intro heq
    exact hbearer.others (heq ▸ hothers.stdnull)
  rw [deinitSlot, h.dotabName hvol]
  simp only [if_neg hnull, dvmUnmountVolume_found hfound hvol]
  exact (List.Nodup.of_map _ h.slots).not_mem_erase

theorem Tabled.deinitSlot (h : Tabled list others s.devices)
    (hothers : OthersListed list others) (hlookup : ExactLookup platform list.after others)
    (hs : Held s none) (i : Nat) :
    let s' := Volume.deinitSlot platform list s i
    s'.devices.Sublist s.devices ∧ Held s' none ∧
      ∀ vol ∈ s.devices, 30 < (deviceName list.after vol).length → vol ∈ s'.devices := by
  unfold Volume.deinitSlot
  cases hname : Volume.dotabName list s i with
  | none => exact ⟨List.Sublist.refl _, hs, fun vol hvol _ => hvol⟩
  | some name =>
      simp only
      split
      · exact ⟨List.Sublist.refl _, hs, fun vol hvol _ => hvol⟩
      · exact ⟨dvmUnmountVolume_sublist platform s (some name),
          dvmUnmountVolume_held platform (some name) hs, fun vol hvol hlong =>
            dvmUnmountVolume_keeps_long hlookup (h.dotabName_plain hothers hname) hvol hlong⟩

/-! ## The whole table -/

/-- The loop over any slots leaves the volumes with long names, and those of other slots at
most. -/
theorem Tabled.deinitLoop (h : Tabled list others s.devices)
    (hothers : OthersListed list others) (hlookup : ExactLookup platform list.after others)
    (hs : Held s none) (slots : List Nat) :
    let s' := Volume.deinitLoop platform list slots s
    s'.devices.Sublist s.devices ∧ Held s' none ∧
      (∀ vol ∈ s.devices, 30 < (deviceName list.after vol).length → vol ∈ s'.devices) ∧
      ∀ vol ∈ s'.devices, vol.devid ∈ slots → 30 < (deviceName list.after vol).length := by
  induction slots generalizing s with
  | nil => exact ⟨List.Sublist.refl _, hs, fun vol hvol _ => hvol, by simp⟩
  | cons i rest ih =>
      obtain ⟨hsub, hheld, hkeeps⟩ := h.deinitSlot hothers hlookup hs i
      obtain ⟨hsub', hheld', hkeeps', hgone⟩ := ih (h.sublist hsub) hheld
      refine ⟨hsub'.trans hsub, hheld', ?_, ?_⟩
      · intro vol hvol hlong
        exact hkeeps' vol (hkeeps vol hvol hlong) hlong
      · intro vol hvol hslot
        rcases List.mem_cons.mp hslot with rfl | hrest
        · by_contra hshort
          have hmem := hsub'.subset hvol
          exact h.deinitSlot_removes hothers hlookup (hsub.subset hmem) (by omega) hmem
        · exact hgone vol hvol hrest

theorem Tabled.dvmDeinit (h : Tabled list others s.devices)
    (hothers : OthersListed list others) (hlookup : ExactLookup platform list.after others)
    (hs : Held s none) :
    let s' := Volume.dvmDeinit platform list s
    Held s' none ∧ ∀ vol, vol ∈ s'.devices ↔
      vol ∈ s.devices ∧ 30 < (deviceName list.after vol).length := by
  obtain ⟨hsub, hheld, hkeeps, hgone⟩ :=
    h.deinitLoop hothers hlookup hs (List.range' 3 (list.stdMax - 3))
  refine ⟨hheld, fun vol => ⟨fun hvol => ?_, fun hvol => hkeeps vol hvol.1 hvol.2⟩⟩
  have hinside := h.inside vol (hsub.subset hvol)
  refine ⟨hsub.subset hvol, hgone vol hvol ?_⟩
  rw [List.mem_range'_1]
  omega

end

/-! ## Shutdown after any run -/

/-- After any run whose attempts keep their discs: a shutdown unmounts exactly the volumes
with names of at most 30 bytes, no disc is used after its end or ended twice, and the discs
left are those of the volumes left. -/
theorem deinit_releases {platform : Platform} {list : DevoptabList} {others : List Name}
    (hlookup : ExactLookup platform list.after others) (hothers : OthersListed list others)
    (drvTable : List (Option DvmFsDriver)) (calls : List Call)
    (hkept : (machine platform).Throughout (fun s c => c.orphaned platform s = false)
      (boot drvTable) calls)
    (htabled : Tabled list others ((machine platform).run (boot drvTable) calls).devices) :
    let s := (machine platform).run (boot drvTable) calls
    let s' := dvmDeinit platform list s
    (∀ vol, vol ∈ s'.devices ↔ vol ∈ s.devices ∧ 30 < (deviceName list.after vol).length) ∧
      DiscsOwned s' ∧
      ((∀ vol ∈ s.devices, (deviceName list.after vol).length ≤ 30) →
        ∀ d < s'.heap.next, d ∈ s'.heap.destroyedDiscs) := by
  intro s s'
  have hs : Held s none :=
    (machine platform).run_invariant_throughout _ (fun s => Held s none) (call_held platform)
      (boot_held drvTable) hkept
  obtain ⟨hheld, hleft⟩ := htabled.dvmDeinit hothers hlookup hs
  refine ⟨hleft, hheld.owned, fun hshort d hd => (hheld.owned.destroyed d hd).mpr ?_⟩
  rintro ⟨vol, hvol, -⟩
  have hlong := (hleft vol).mp hvol
  have := hshort vol hlong.1
  omega

def sampleList : DevoptabList :=
  ⟨35, fun i => if i = 0 then some (ascii "stdnull") else none, padding⟩

theorem sampleList_others : OthersListed sampleList otherDevices := by
  refine ⟨fun i name hname => ?_, by decide, by decide⟩
  simp only [sampleList] at hname
  split at hname
  · rw [← Option.some.inj hname]
    decide
  · cases hname

def sampleMounts : List Call :=
  [sampleMount 2 (some 3),
    .fatMount (longName ++ [0x62]) (some sampleIface) 0 0 8 (sampleAnswers (some 4))]

def mountedSystem : System := (machine namedPlatform).run (boot sampleTable) sampleMounts

theorem deinit_releases_sample :
    (dvmDeinit namedPlatform sampleList mountedSystem).devices.map DvmVolume.devid = [4] ∧
      DiscsOwned (dvmDeinit namedPlatform sampleList mountedSystem) :=
  ⟨by decide +kernel,
    (deinit_releases (exactPlatform_exact padding otherDevices) sampleList_others sampleTable
      sampleMounts (by decide +kernel)
      ⟨by decide +kernel, by decide +kernel, by decide +kernel, by decide +kernel,
        by decide +kernel⟩).2.1⟩

/-- A start-up and a shutdown leave nothing behind: whatever drives there are, when no
attempt loses its disc and `AddDevice` hands out slots of their own, no volume stays
registered, and every disc that was created is destroyed once, after its last use. -/
theorem init_deinit_releases {platform : Platform} {list : DevoptabList} {others : List Name}
    (hlookup : ExactLookup platform list.after others) (hothers : OthersListed list others)
    (console : Console) (hapart : ∀ name ∈ (Port.libogc2 console).names, name ∉ others)
    (linked : DvmFsDriver → Bool) (drive : Name → Drive) (cachePages sectorsPerPage : Nat)
    (drvTable : List (Option DvmFsDriver))
    (hkept : (machine platform).Throughout (fun s c => c.orphaned platform s = false)
      (boot (registerDrivers ((Port.libogc2 console).drivers linked) drvTable))
      ((Port.libogc2 console).calls drive cachePages sectorsPerPage))
    (hslots : let devices := (dvmInit platform (.libogc2 console) linked drive cachePages
        sectorsPerPage (boot drvTable)).1.devices
      (devices.map DvmVolume.devid).Nodup ∧
        ∀ vol ∈ devices, 3 ≤ vol.devid ∧ vol.devid < list.stdMax) :
    let s' := dvmDeinit platform list (dvmInit platform (.libogc2 console) linked drive cachePages
      sectorsPerPage (boot drvTable)).1
    s'.devices = [] ∧ DiscsOwned s' ∧ ∀ d < s'.heap.next, d ∈ s'.heap.destroyedDiscs := by
  obtain ⟨hnames, -, -⟩ := dvmInit_names platform list.after (.libogc2 console) linked drive
    cachePages sectorsPerPage drvTable
  have hrun := dvmInit_run platform (.libogc2 console) linked drive cachePages sectorsPerPage
    drvTable
  generalize (dvmInit platform (.libogc2 console) linked drive cachePages sectorsPerPage
    (boot drvTable)).1 = s at hslots hnames hrun ⊢
  have hplain : ∀ vol ∈ s.devices, deviceName list.after vol ∈ (Port.libogc2 console).names :=
    fun vol hvol => hnames.subset (List.mem_map_of_mem hvol)
  have htabled : Tabled list others s.devices := by
    refine ⟨hslots.1, hslots.2, (Port.names_nodup _).sublist hnames, fun vol hvol => ?_,
      fun vol hvol => ?_⟩
    · exact hapart _ (hplain vol hvol)
    · have := Port.names_plain _ _ (hplain vol hvol)
      exact ⟨this.nonempty, this.noColon⟩
  have hs : Held s none := by
    rw [hrun]
    exact (machine platform).run_invariant_throughout _ (fun s => Held s none)
      (call_held platform) (boot_held _) hkept
  obtain ⟨hheld, hleft⟩ := htabled.dvmDeinit hothers hlookup hs
  have hempty : (dvmDeinit platform list s).devices = [] := by
    rw [List.eq_nil_iff_forall_not_mem]
    intro vol hvol
    obtain ⟨hmem, hlong⟩ := (hleft vol).mp hvol
    have := (Port.names_plain _ _ (hplain vol hmem)).length
    omega
  refine ⟨hempty, hheld.owned, fun d hd => (hheld.owned.destroyed d hd).mpr ?_⟩
  rw [hempty]
  simp

theorem init_deinit_releases_sample :
    sampleStartup.1.devices ≠ [] ∧
      (dvmDeinit namedPlatform sampleList sampleStartup.1).devices = [] :=
  ⟨by decide +kernel,
    (init_deinit_releases (exactPlatform_exact padding otherDevices) sampleList_others .wii
      (by decide +kernel) (fun _ => true) sampleDrive 2 8 sampleTable (by decide +kernel)
      ⟨by decide +kernel, by decide +kernel⟩).1⟩

end LibDvm.Volume
