import LibDvm.Volume.Shutdown
import LibDvm.Cache.Atomic
import LibDvm.Lib.Lifetimes

/-! # What the drives hold when their discs are gone

A cache writes its dirty pages when it is destroyed, and it is destroyed with the last
volume on it. So between the calls of the volume layer and the requests to the discs
nothing is lost: the caches that the mounts create serve their requests as bare drives
would, and the drive of a cache that is gone holds what was written.
-/

namespace LibDvm.Volume

open DiscHeap Cache Prober Act

variable {α : Type}

/-! ## The cache of a mount -/

/-- A drive that fails at nothing, and what the memory holds that its cache is given. -/
structure Medium (α : Type) where
  sectors : Nat → α
  memory : Nat → α

def Medium.disc (medium : Medium α) (base : DvmDisc) : InnerDisc α :=
  ⟨base, medium.sectors, 0, fun _ => none, fun _ => none, fun _ => false⟩

/-- The wrapper that `createDisc` begins with. -/
def wrapper (platform : Platform) (iface : Option DiscInterface) (ans : Answers) :
    Option DvmDisc :=
  iface.bind fun iface => (dvmDiscCreate platform.build iface ans.discAllocated).1

/-- The cache that `createDisc` puts on its wrapper. -/
def cacheOn (platform : Platform) (medium : Medium α) (iface : Option DiscInterface)
    (cachePages sectorsPerPage : Nat) (ans : Answers) : Option (DvmDiscCache α) :=
  (wrapper platform iface ans).bind fun base =>
    (dvmDiscCacheCreate (medium.disc base) cachePages sectorsPerPage ans.cacheAllocated
      (ans.dataAddress.map fun address => (address, medium.memory))).getRight?

/-- The cache a call of the volume layer creates on the drive it is given. -/
def Call.cache (platform : Platform) (medium : Medium α) : Call → Option (DvmDiscCache α)
  | .probeMount _ iface cachePages sectorsPerPage ans =>
      cacheOn platform medium iface cachePages sectorsPerPage ans
  | .fatMount _ iface _ cachePages sectorsPerPage ans =>
      cacheOn platform medium iface cachePages sectorsPerPage ans
  | .ext2Mount _ iface _ cachePages sectorsPerPage ans =>
      cacheOn platform medium iface cachePages sectorsPerPage ans
  | .unmount _ => none

/-- A drive that is probed knows its size, so that the prober leaves it alone. -/
def Call.sized (platform : Platform) : Call → Bool
  | .probeMount _ iface _ _ ans =>
      (wrapper platform iface ans).all fun base => secNot base.numSectors != 0
  | _ => true

theorem dvmDiscCacheCreate_bare (medium : Medium α) (base : DvmDisc)
    (cachePages sectorsPerPage : Nat) (ok : Bool) (address : Option Nat) :
    (dvmDiscCacheCreate (bareDisc base) cachePages sectorsPerPage ok
      (address.map fun a => (a, fun _ => ()))).getRight?.map (fun c => c.base) =
    (dvmDiscCacheCreate (medium.disc base) cachePages sectorsPerPage ok
      (address.map fun a => (a, medium.memory))).getRight?.map (fun c => c.base) := by
  unfold dvmDiscCacheCreate bareDisc Medium.disc
  dsimp only
  split_ifs
  · rfl
  · rfl
  · cases address <;> rfl

theorem createDisc_cacheGeometry {h : DiscHeap}
    (hfresh : ∀ d, h.next ≤ d → (h.objs d).inner = none) (platform : Platform)
    (medium : Medium α) (iface : Option DiscInterface) (cachePages sectorsPerPage : Nat)
    (ans : Answers) (d : Nat) :
    cacheGeometry (createDisc platform h iface cachePages sectorsPerPage ans).1 d =
      ((if d = h.next + 1 then cacheOn platform medium iface cachePages sectorsPerPage ans
        else none).map fun c => c.base.geometry).or (cacheGeometry h d) := by
  unfold createDisc cacheOn wrapper
  cases iface.bind fun iface => (dvmDiscCreate platform.build iface ans.discAllocated).1 with
  | none => simp
  | some base =>
      have hwrap := create_wrap_cacheGeometry hfresh base d
      by_cases hpages : cachePages = 0
      · have hnone : dvmDiscCacheCreate (medium.disc base) cachePages sectorsPerPage
            ans.cacheAllocated (ans.dataAddress.map fun address => (address, medium.memory)) =
              .inl (medium.disc base) := by
          unfold dvmDiscCacheCreate
          exact if_pos (Or.inl hpages)
        simp only [hpages, ne_eq, not_true_eq_false, if_false, Option.bind_some]
        rw [hpages] at hnone
        rw [hnone]
        simpa using hwrap
      · have hbare := dvmDiscCacheCreate_bare medium base cachePages sectorsPerPage
          ans.cacheAllocated ans.dataAddress
        simp only [hpages, ne_eq, not_false_eq_true, if_true, Option.bind_some]
        unfold createCache
        simp only [use_objs, create_new]
        cases hcache : dvmDiscCacheCreate (bareDisc base) cachePages sectorsPerPage
            ans.cacheAllocated (ans.dataAddress.map fun address => (address, fun _ => ())) with
        | inl _ =>
            rw [hcache] at hbare
            rw [Option.map_eq_none_iff.mp hbare.symm]
            have hused := (steady_kept _).use (Steady.refl (h.create base none)) h.next
            simpa [hused.cacheGeometry d] using hwrap
        | inr cache =>
            rw [hcache] at hbare
            obtain ⟨cache', hcache', (hbase : cache'.base = cache.base)⟩ :=
              Option.map_eq_some_iff.mp hbare.symm
            have hsteady : Steady (h.create base none)
                (((h.create base none).use h.next).addUser h.next) :=
              (steady_kept _).addUser ((steady_kept _).use (Steady.refl _) h.next) h.next
            rw [hcache', create_cacheGeometry, hsteady.next, create_next, hsteady.cacheGeometry,
              hwrap, ← hbase]
            by_cases hd : d = h.next + 1
            · simp [hd]
            · simp [hd]

theorem createDisc_numSectors (platform : Platform) (h : DiscHeap) (iface : Option DiscInterface)
    (cachePages sectorsPerPage : Nat) (ans : Answers) {d : Nat}
    (hd : (createDisc platform h iface cachePages sectorsPerPage ans).2 = some d) :
    ∃ base, wrapper platform iface ans = some base ∧
      ((createDisc platform h iface cachePages sectorsPerPage ans).1.objs d).base.numSectors =
        base.numSectors := by
  unfold wrapper
  unfold createDisc at hd ⊢
  cases hbase : iface.bind fun iface =>
      (dvmDiscCreate platform.build iface ans.discAllocated).1 with
  | none => simp [hbase] at hd
  | some base =>
      refine ⟨base, rfl, ?_⟩
      by_cases hpages : cachePages = 0
      · simp only [hbase, hpages, ne_eq, not_true_eq_false, if_false] at hd ⊢
        rw [← Option.some.inj hd, create_new]
      · simp only [hbase, hpages, ne_eq, not_false_eq_true, if_true] at hd ⊢
        rw [← Option.some.inj hd]
        unfold createCache
        simp only [use_objs, create_new]
        cases hcache : dvmDiscCacheCreate (bareDisc base) cachePages sectorsPerPage
            ans.cacheAllocated (ans.dataAddress.map fun address => (address, fun _ => ())) with
        | inl _ => simp
        | inr cache =>
            have hsize : cache.base.numSectors = base.numSectors := by
              obtain ⟨-, _, _, _, -, -, rfl⟩ := dvmDiscCacheCreate_cache hcache
              rfl
            simp only
            rw [show ((h.create base none).use h.next).next =
              (((h.create base none).use h.next).addUser h.next).next from rfl, create_new]
            exact hsize

theorem probeTable_known {base : DvmDisc} (hknown : secNot base.numSectors ≠ 0)
    (order : Words.ByteOrder) (ans : Answers) :
    (setNumSectors (probeTable order base ans).numSectors base).geometry = base.geometry := by
  rw [probeTable, readPartitionTable_known order _ 4 dvmIdentFstype ans.probeBuffer hknown]
  exact geometry_setNumSectors base

theorem call_cacheGeometry {s : System} (hs : Held s none) (platform : Platform)
    (medium : Medium α) (c : Call) (hsized : c.sized platform = true) (d : Nat) :
    cacheGeometry (call platform s c).1.heap d =
      ((if d = s.heap.next + 1 then c.cache platform medium else none).map
        fun c => c.base.geometry).or (cacheGeometry s.heap d) := by
  have hcall : Steady (c.opened platform s.heap) (call platform s c).1.heap :=
    kept_call (steady_kept _) platform c (Steady.refl _)
  rw [hcall.cacheGeometry]
  cases c with
  | probeMount basename iface cachePages sectorsPerPage ans =>
      have hcreated := createDisc_cacheGeometry hs.shape.fresh platform medium iface cachePages
        sectorsPerPage ans d
      unfold Call.opened
      cases hdisc : (createDisc platform s.heap iface cachePages sectorsPerPage ans).2 with
      | none =>
          simp only [hdisc]
          exact hcreated
      | some disc =>
          obtain ⟨base, hbase, hsize⟩ := createDisc_numSectors platform s.heap iface cachePages
            sectorsPerPage ans hdisc
          have hknown : secNot base.numSectors ≠ 0 := by
            simpa [Call.sized, hbase] using hsized
          rw [← hsize] at hknown
          simp only [hdisc]
          generalize (createDisc platform s.heap iface cachePages sectorsPerPage ans).1 = created
            at hknown hcreated ⊢
          have hopened : Steady created ((created.access disc).modify disc (setNumSectors
              (probeTable platform.order (created.objs disc).base ans).numSectors)) := by
            refine ((steady_kept created).access (Steady.refl created) disc).modify ?_
            rw [access_objs]
            exact probeTable_known hknown platform.order ans
          rw [hopened.cacheGeometry]
          exact hcreated
  | fatMount name iface startSector cachePages sectorsPerPage ans =>
      exact createDisc_cacheGeometry hs.shape.fresh platform medium iface cachePages
        sectorsPerPage ans d
  | ext2Mount name iface startSector cachePages sectorsPerPage ans =>
      exact createDisc_cacheGeometry hs.shape.fresh platform medium iface cachePages
        sectorsPerPage ans d
  | unmount name => simp [Call.opened, Call.cache]

/-! ## The system with its shutdown -/

/-- A call of the volume layer with the drive it may mount, or the shutdown. -/
inductive SystemCall (α : Type) where
  | call (c : Call) (medium : Medium α)
  | deinit

def systemMachine (α : Type) (platform : Platform) (list : DevoptabList) :
    Machine System (SystemCall α) Nat where
  step s
    | .call c _ => call platform s c
    | .deinit => (dvmDeinit platform list s, 0)

def SystemCall.cache (platform : Platform) : SystemCall α → Option (DvmDiscCache α)
  | .call c medium => c.cache platform medium
  | .deinit => none

def SystemCall.clean (platform : Platform) (s : System) : SystemCall α → Bool
  | .call c _ => !c.orphaned platform s && c.sized platform
  | .deinit => true

/-- The call orphans no disc, and its cache has pages of 32768 sectors at most. -/
def SystemCall.allowed (platform : Platform) (s : System) (c : SystemCall α) : Bool :=
  c.clean platform s && (c.cache platform).all fun cache => decide (cache.pageSz ≤ 32768)

section

variable {platform : Platform} {list : DevoptabList}

theorem deinitSlot_cases (platform : Platform) (list : DevoptabList) (s : System) (i : Nat) :
    deinitSlot platform list s i = s ∨
      ∃ name, deinitSlot platform list s i = (call platform s (.unmount name)).1 := by
  unfold deinitSlot
  split
  · exact .inl rfl
  · split
    · exact .inl rfl
    · exact .inr ⟨_, rfl⟩

theorem dvmDeinit_invariant {s : System} (Inv : System → Prop)
    (hunmount : ∀ s name, Inv s → Inv (call platform s (.unmount name)).1) (hs : Inv s) :
    Inv (dvmDeinit platform list s) := by
  unfold dvmDeinit
  generalize List.range' 3 (list.stdMax - 3) = slots
  induction slots generalizing s with
  | nil => exact hs
  | cons i rest ih =>
      apply ih
      rcases deinitSlot_cases platform list s i with heq | ⟨name, heq⟩
      · rwa [heq]
      · rw [heq]
        exact hunmount s name hs

theorem kept_dvmDeinit {P : DiscHeap → Prop} (k : Kept P) {s : System} (hp : P s.heap) :
    P (dvmDeinit platform list s).heap :=
  dvmDeinit_invariant (fun s => P s.heap)
    (fun s name hp => kept_call (s := s) k platform (.unmount name) hp) hp

theorem systemMachine_held (s : System) (c : SystemCall α) (hs : Held s none)
    (hc : c.allowed platform s = true) :
    Held ((systemMachine α platform list).step s c).1 none := by
  cases c with
  | call c medium =>
      simp only [SystemCall.allowed, SystemCall.clean, Bool.and_eq_true, Bool.not_eq_true'] at hc
      exact call_held platform s c hs hc.1.1
  | deinit =>
      exact dvmDeinit_invariant (fun s => Held s none)
        (fun s name hs => dvmUnmountVolume_held platform name hs) hs

theorem before_systemCall (s : System) (c : SystemCall α) :
    Before s.heap ((systemMachine α platform list).step s c).1.heap := by
  cases c with
  | call c medium => exact before_call platform s c
  | deinit => exact kept_dvmDeinit (before_kept s.heap) (Before.refl s.heap)

end

/-! ## Caches and bare drives -/

def newCache (platform : Platform) (s : System) (c : SystemCall α) (d : Nat) :
    Option (DvmDiscCache α) :=
  if d = s.heap.next + 1 then c.cache platform else none

def mounted (α : Type) (platform : Platform) (list : DevoptabList) :
    Lifetimes System (SystemCall α) Nat Nat where
  system := systemMachine α platform list
  ended s d := decide (d ∈ s.heap.destroyedDiscs)

/-- The caches as the mounts create them. The last act of a cache is the flush of
`_dvmDiscCacheDestroy`. -/
def caches (platform : Platform) (aligned : Nat → Bool → Bool) :
    Objects System (SystemCall α) Nat (DvmDiscCache α) (Cache.Call α) (Reply α) where
  begins := newCache platform
  object := Cache.machine α aligned
  lastAct c := (dvmDiscCacheFlush c).1

structure BareDrive (α : Type) where
  base : DvmDisc
  sectors : Nat → α

/-- The drives of the same mounts, to which every write goes at once. -/
def drives (platform : Platform) :
    Objects System (SystemCall α) Nat (BareDrive α) (Cache.Call α) (Reply α) where
  begins s c d := (newCache platform s c d).map fun cache => ⟨cache.base, cache.inner.sectors⟩
  object.step drive r :=
    let served := (plainDisc α drive.base.numSectors).step drive.sectors r
    ({ drive with sectors := served.1 }, served.2)
  lastAct drive := drive

/-- A cache that stands for its drive. -/
structure Alive (c : DvmDiscCache α) (drive : BareDrive α) : Prop where
  content : Represents c drive.sectors
  syncing : Syncing c
  base : c.base = drive.base

/-- A cache whose drive has got everything. -/
structure Dead (c : DvmDiscCache α) (drive : BareDrive α) : Prop where
  content : c.inner.sectors = drive.sectors
  base : c.base = drive.base

/-- The requests that a cache serves as its drive does, to caches that are there, and calls
that are allowed. -/
abbrev Orderly (platform : Platform) (list : DevoptabList) (aligned : Nat → Bool → Bool) :
    System × (Nat → Option (DvmDiscCache α)) → Act Nat (Cache.Call α) (SystemCall α) → Prop :=
  (mounted α platform list).InTime (caches platform aligned)
    (fun c r => r.regular aligned c.pageSz) (fun s c => c.allowed platform s = true)

section

variable {platform : Platform} {list : DevoptabList} {aligned : Nat → Bool → Bool}

theorem cacheOn_alive {medium : Medium α} {iface : Option DiscInterface}
    {cachePages sectorsPerPage : Nat} {ans : Answers} {c : DvmDiscCache α}
    (hc : cacheOn platform medium iface cachePages sectorsPerPage ans = some c)
    (hpage : c.pageSz ≤ 32768) : Alive c ⟨c.base, c.inner.sectors⟩ := by
  obtain ⟨base, -, hcreate⟩ := Option.bind_eq_some_iff.mp hc
  have hcreate := Sum.getRight?_eq_some_iff.mp hcreate
  rw [dvmDiscCacheCreate_pageSz hcreate] at hpage
  have hnew := dvmDiscCacheCreate_created hcreate hpage
  refine ⟨?_, ?_, rfl⟩
  · have hrep := hnew.represents (fun _ => rfl) fun _ => rfl
    rwa [show c.inner.sectors = (medium.disc base).sectors by rw [hnew.inner]]
  · intro n
    rw [hnew.inner]
    rfl

theorem newCache_alive {s : System} {c : SystemCall α} {d : Nat} {cache : DvmDiscCache α}
    (hnew : newCache platform s c d = some cache) (hc : c.allowed platform s = true) :
    Alive cache ⟨cache.base, cache.inner.sectors⟩ := by
  unfold newCache at hnew
  split at hnew
  · have hpage : cache.pageSz ≤ 32768 := by
      simpa [SystemCall.allowed, hnew] using (Bool.and_eq_true_iff.mp hc).2
    cases c with
    | deinit => cases hnew
    | call c medium =>
        cases c with
        | probeMount => exact cacheOn_alive hnew hpage
        | fatMount => exact cacheOn_alive hnew hpage
        | ext2Mount => exact cacheOn_alive hnew hpage
        | unmount => cases hnew
  · cases hnew

theorem Alive.pageSz {c : DvmDiscCache α} {drive : BareDrive α} (h : Alive c drive)
    {r : Cache.Call α} (hr : r.regular aligned c.pageSz = true) :
    ((Cache.machine α aligned).step c r).1.pageSz = c.pageSz :=
  (h.content.regular_call aligned hr).2.pageSz

theorem Alive.step {c : DvmDiscCache α} {drive : BareDrive α} (h : Alive c drive)
    {r : Cache.Call α} (hr : r.regular aligned c.pageSz = true) :
    Alive ((Cache.machine α aligned).step c r).1 ((drives platform).object.step drive r).1 := by
  obtain ⟨hcontent, hsame⟩ := h.content.regular_call aligned hr
  rw [h.base] at hcontent
  refine ⟨hcontent, ?_, hsame.base.trans h.base⟩
  intro n
  exact (congrFun hsame.flushFault n).trans (h.syncing n)

theorem Alive.flush {c : DvmDiscCache α} {drive : BareDrive α} (h : Alive c drive) :
    Dead (dvmDiscCacheFlush c).1 drive := by
  obtain ⟨A, U, hrep⟩ := h.content.rep
  exact ⟨h.content.flushed_sectors (h.content.flush_ok h.syncing),
    hrep.flushAll.2.base.trans h.base⟩

/-- The caches do for their callers what their drives would. -/
theorem caches_alike :
    Lifetimes.Alike (mounted α platform list) (caches platform aligned) (drives platform)
      (fun c r => r.regular aligned c.pageSz) (fun s => Held s none)
      (fun s c => c.allowed platform s = true) Alive Dead where
  system s c hs hc := systemMachine_held s c hs hc
  lasting s c d hd := by
    have hmem : d ∈ s.heap.destroyedDiscs := of_decide_eq_true hd
    exact decide_eq_true (((before_systemCall s c).filterMap destroyedDisc).subset hmem)
  fresh s c d hs hd := by
    have hlt := ((hs.log.dead d).mp (of_decide_eq_true hd)).1
    exact if_neg (by omega)
  begins s c d hc := by
    show Option.Rel Alive (newCache platform s c d) ((newCache platform s c d).map _)
    cases hnew : newCache platform s c d with
    | none => exact .none
    | some cache => exact .some (newCache_alive hnew hc)
  object c drive r h hr := h.step hr
  fits c drive r r' h hr := by
    show r'.regular aligned ((Cache.machine α aligned).step c r).1.pageSz = _
    rw [h.pageSz hr]
  lastAct c drive h := h.flush

theorem systemMachine_cacheGeometry {s : System} (hs : Held s none) {c : SystemCall α}
    (hc : c.allowed platform s = true) (d : Nat) :
    ((systemMachine α platform list).step s c).1.heap.cacheGeometry d =
      ((newCache platform s c d).map fun cache => cache.base.geometry).or
        (s.heap.cacheGeometry d) := by
  cases c with
  | call c medium =>
      simp only [SystemCall.allowed, SystemCall.clean, Bool.and_eq_true] at hc
      exact call_cacheGeometry hs platform medium c hc.1.2 d
  | deinit =>
      have hsteady : Steady s.heap (dvmDeinit platform list s).heap :=
        kept_dvmDeinit (steady_kept s.heap) (Steady.refl s.heap)
      refine (hsteady.cacheGeometry d).trans ?_
      simp [newCache, SystemCall.cache]

def noDiscs (σ : Type) (drvTable : List (Option DvmFsDriver)) : System × (Nat → Option σ) :=
  (boot drvTable, fun _ => none)

theorem stand_base {ended : Bool} {c : DvmDiscCache α} {drive : BareDrive α}
    (h : Lifetimes.Stand ended Alive Dead c drive) : c.base = drive.base := by
  unfold Lifetimes.Stand at h
  split at h
  · exact h.base
  · exact h.base

/-- In every orderly run there is a cache for every disc over another one, and it has the
geometry of that disc; and each cache stands to its drive as one that is there, or gone. -/
theorem contents_kept (drvTable : List (Option DvmFsDriver))
    {acts : List (Act Nat (Cache.Call α) (SystemCall α))}
    (hin : ((mounted α platform list).machine (caches platform aligned)).Throughout
      (Orderly platform list aligned) (noDiscs _ drvTable) acts) :
    let s := ((mounted α platform list).machine (caches platform aligned)).run
      (noDiscs _ drvTable) acts
    let bare := ((mounted α platform list).machine (drives platform)).run (noDiscs _ drvTable) acts
    Held s.1 none ∧ (∀ d, (s.2 d).map (fun c => c.base.geometry) = s.1.heap.cacheGeometry d) ∧
      (mounted α platform list).Abreast Alive Dead s.1 s.2 bare.2 := by
  intro s bare
  have hstart : (mounted α platform list).Abreast Alive Dead (boot drvTable)
      (noDiscs (DvmDiscCache α) drvTable).2 (noDiscs (BareDrive α) drvTable).2 := fun _ => .none
  obtain ⟨hheld, (hsystem : bare.1 = s.1), habreast⟩ :=
    caches_alike.run (boot_held drvTable) hstart hin
  have hcalls : (systemMachine α platform list).Throughout
      (fun s c => c.allowed platform s = true) (boot drvTable) (systemCalls acts) :=
    Lifetimes.throughout_system hin
  have hmark : ∀ s c d, Held s none → c.allowed platform s = true →
      ((systemMachine α platform list).step s c).1.heap.cacheGeometry d =
        (((drives platform).begins s c d).map fun drive : BareDrive α => drive.base.geometry).or
          (s.heap.cacheGeometry d) := by
    intro s c d hs hc
    rw [systemMachine_cacheGeometry hs hc d, drives, Option.map_map]
    rfl
  have hshown := Lifetimes.run_shown (l := mounted α platform list) (o := drives platform)
    (fun drive => drive.base.geometry) (fun s d => s.heap.cacheGeometry d) (fun _ _ => rfl)
    (fun _ => rfl) systemMachine_held hmark (s := noDiscs (BareDrive α) drvTable)
    (boot_held drvTable) (fun _ => rfl) hcalls
  refine ⟨hheld, fun d => ?_, habreast⟩
  rw [← hsystem]
  refine (Lifetimes.rel_map (fun c drive hstand => ?_) (habreast d)).trans (hshown d)
  rw [stand_base hstand]

/-- A shutdown loses nothing of what was written to a cached disc. After an orderly run, in
which mounts create the caches, `dvmDeinit` destroys every disc but those under a volume with
a name of more than 30 bytes; the drive under each cache that is destroyed, then or before,
holds what was written, and the other caches still read as that. -/
theorem shutdown_saves {others : List Name} (hlookup : ExactLookup platform list.after others)
    (hothers : OthersListed list others) (drvTable : List (Option DvmFsDriver))
    {acts : List (Act Nat (Cache.Call α) (SystemCall α))} {during : List (Nat × Cache.Call α)}
    (hin : ((mounted α platform list).machine (caches platform aligned)).Throughout
      (Orderly platform list aligned) (noDiscs _ drvTable) (acts ++ [.system .deinit during]))
    (htabled : Tabled list others (((mounted α platform list).machine (caches platform aligned)).run
      (noDiscs _ drvTable) acts).1.devices) :
    let m := (mounted α platform list).machine (caches platform aligned)
    let s := m.run (noDiscs _ drvTable) acts
    let s' := m.run (noDiscs _ drvTable) (acts ++ [.system .deinit during])
    let bare := ((mounted α platform list).machine (drives platform)).run (noDiscs _ drvTable)
      (acts ++ [.system .deinit during])
    ∀ d < s'.1.heap.next,
      (d ∈ s'.1.heap.destroyedDiscs ↔ ∀ vol ∈ s.1.devices, s'.1.heap.Under vol.disc d →
        (deviceName list.after vol).length ≤ 30) ∧
      (s'.2 d).map (fun c => c.base.geometry) = s'.1.heap.cacheGeometry d ∧
      (d ∈ s'.1.heap.destroyedDiscs →
        (s'.2 d).map (fun c => c.inner.sectors) = (bare.2 d).map BareDrive.sectors) ∧
      (d ∉ s'.1.heap.destroyedDiscs →
        (s'.2 d).map DvmDiscCache.logical = (bare.2 d).map BareDrive.sectors) := by
  intro m s s' bare d hd
  obtain ⟨hs, -, -⟩ := contents_kept drvTable ((m.throughout_append _ _ _).mp hin).1
  obtain ⟨-, hgeometry, habreast⟩ := contents_kept drvTable hin
  have hafter : s'.1 = dvmDeinit platform list s.1 :=
    congrArg Prod.fst (m.run_append (noDiscs _ drvTable) acts [.system .deinit during])
  obtain ⟨hheld, hleft⟩ := htabled.dvmDeinit hothers hlookup hs
  rw [← hafter] at hheld hleft
  have hstand := habreast d
  refine ⟨?_, hgeometry d, fun hdead => ?_, fun hthere => ?_⟩
  · rw [hheld.owned.destroyed d hd]
    constructor
    · intro hnone vol hvol hunder
      by_contra hlong
      exact hnone ⟨vol, (hleft vol).mpr ⟨hvol, by omega⟩, hunder⟩
    · rintro hshort ⟨vol, hvol, hunder⟩
      obtain ⟨hmem, hlong⟩ := (hleft vol).mp hvol
      have := hshort vol hmem hunder
      omega
  · rw [show (mounted α platform list).ended s'.1 d = true from decide_eq_true hdead] at hstand
    exact Lifetimes.rel_map (fun c drive h => Dead.content h) hstand
  · rw [show (mounted α platform list).ended s'.1 d = false from decide_eq_false hthere] at hstand
    exact Lifetimes.rel_map (fun c drive h => h.content.logical) hstand

end

def sampleMedium : Medium Nat := ⟨fun s => 100 + s, fun _ => 0⟩

/-- Two mounts, the second without a cache, with a write to the cache of the first after them
and one within its mount. -/
def sampleActs : List (Act Nat (Cache.Call Nat) (SystemCall Nat)) :=
  [.system (.call (sampleMount 2 (some 3)) sampleMedium) [(1, .write 0 (fun _ => 5) 3 1 true)],
    .system (.call (.fatMount (longName ++ [0x62]) (some sampleIface) 0 0 8
      (sampleAnswers (some 4))) sampleMedium) [],
    .object 1 (.write 0 (fun _ => 7) 1 1 true)]

def sampleShutdown : List (Nat × Cache.Call Nat) := [(1, .write 0 (fun _ => 9) 9 1 true)]

def sampleEnd : System × (Nat → Option (DvmDiscCache Nat)) :=
  ((mounted Nat namedPlatform sampleList).machine (caches namedPlatform fun _ _ => true)).run
    (noDiscs _ sampleTable) (sampleActs ++ [.system .deinit sampleShutdown])

/-- The drive under the cache holds all three writes. -/
theorem shutdown_saves_sample :
    ((sampleEnd.2 1).map fun c => c.inner.sectors).map (fun m => [1, 3, 4, 9].map m) =
      some [7, 5, 104, 9] := by
  have hlookup : ExactLookup namedPlatform sampleList.after otherDevices :=
    exactPlatform_exact padding otherDevices
  have hin : ((mounted Nat namedPlatform sampleList).machine
      (caches namedPlatform fun _ _ => true)).Throughout
      (Orderly namedPlatform sampleList fun _ _ => true) (noDiscs _ sampleTable)
      (sampleActs ++ [.system .deinit sampleShutdown]) := by
    decide +kernel
  have h := (shutdown_saves hlookup sampleList_others sampleTable hin
    ⟨by decide +kernel, by decide +kernel, by decide +kernel, by decide +kernel,
      by decide +kernel⟩ 1 (by decide +kernel)).2.2.1 (by decide +kernel)
  exact (congrArg (Option.map fun m => [1, 3, 4, 9].map m) h).trans (by decide +kernel)

end LibDvm.Volume
