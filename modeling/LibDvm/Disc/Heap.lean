import LibDvm.Disc.Model
import Mathlib.Logic.Function.Basic
import Mathlib.Data.List.Nodup
import Mathlib.Tactic.Common

/-! # Disc objects and who owns them

Wrappers and caches in memory, with their user counts. Every call of a disc function
and every destruction is recorded together with whether the object was still there.
The rules say what an operation on a disc that has its users does, and that it
touches no disc but that one and the one under it.
-/

namespace LibDvm

/-- A disc object; `inner` is the disc under a cache. It dies when it is destroyed. -/
structure DiscObj where
  base : DvmDisc
  inner : Option Nat
  alive : Bool

inductive DiscEvent where
  | used (disc : Nat) (alive : Bool)
  | destroyed (disc : Nat) (alive : Bool)
  | mountFailed (disc : Nat) (alive : Bool) (before after : Nat)
deriving DecidableEq

/-- The log holds the latest event first. -/
structure DiscHeap where
  objs : Nat → DiscObj
  next : Nat
  log : List DiscEvent

namespace DiscHeap

/-! ## Operations -/

def record (h : DiscHeap) (e : DiscEvent) : DiscHeap := { h with log := e :: h.log }

/-- A function of disc `d` runs. -/
def use (h : DiscHeap) (d : Nat) : DiscHeap := h.record (.used d (h.objs d).alive)

def modify (h : DiscHeap) (d : Nat) (f : DvmDisc → DvmDisc) : DiscHeap :=
  { h with objs := Function.update h.objs d { h.objs d with base := f (h.objs d).base } }

/-- `free` at the end of a destroy function. -/
def kill (h : DiscHeap) (d : Nat) : DiscHeap :=
  { h.record (.destroyed d (h.objs d).alive) with
    objs := Function.update h.objs d { h.objs d with alive := false } }

/-- A transfer or flush through `d`, which a cache passes on to the disc under it. -/
def access (h : DiscHeap) (d : Nat) : DiscHeap :=
  match (h.objs d).inner with
  | none => h.use d
  | some i => (h.use d).use i

def create (h : DiscHeap) (base : DvmDisc) (inner : Option Nat) : DiscHeap :=
  { h with
    objs := Function.update h.objs h.next ⟨base, inner, true⟩
    next := h.next + 1 }

def addUser (h : DiscHeap) (d : Nat) : DiscHeap := (h.use d).modify d dvmDiscAddUser

/-- `dvmDiscRemoveUser`, given the destroy function of the disc. -/
def removeUserWith (destroy : DiscHeap → Nat → DiscHeap) (h : DiscHeap) (d : Nat) : DiscHeap :=
  let h := (h.use d).modify d dropUser
  if (h.objs d).base.numUsers = 0 then destroy h d else h

/-- `_dvmDiscWrapDestroy`. -/
def dvmDiscWrapDestroy (h : DiscHeap) (d : Nat) : DiscHeap := h.kill d

/-- `_dvmDiscCacheDestroy` of a cache on the wrapper `i`. -/
def dvmDiscCacheDestroy (h : DiscHeap) (d i : Nat) : DiscHeap :=
  (removeUserWith dvmDiscWrapDestroy (h.access d) i).kill d

/-- `disc->vt->destroy(disc)`. -/
def destroy (h : DiscHeap) (d : Nat) : DiscHeap :=
  match (h.objs d).inner with
  | none => dvmDiscWrapDestroy h d
  | some i => dvmDiscCacheDestroy h d i

def removeUser (h : DiscHeap) (d : Nat) : DiscHeap := removeUserWith destroy h d

/-! ## Small facts about the operations -/

@[simp] theorem use_objs (h : DiscHeap) (d : Nat) : (h.use d).objs = h.objs := rfl

@[simp] theorem modify_next (h : DiscHeap) (d : Nat) (f : DvmDisc → DvmDisc) :
    (h.modify d f).next = h.next := rfl

@[simp] theorem kill_next (h : DiscHeap) (d : Nat) : (h.kill d).next = h.next := rfl

@[simp] theorem modify_self (h : DiscHeap) (d : Nat) (f : DvmDisc → DvmDisc) :
    (h.modify d f).objs d = { h.objs d with base := f (h.objs d).base } := by
  simp [modify]

@[simp] theorem modify_alive (h : DiscHeap) (d j : Nat) (f : DvmDisc → DvmDisc) :
    ((h.modify d f).objs j).alive = (h.objs j).alive := by
  by_cases hj : j = d
  · subst hj
    simp [modify]
  · simp [modify, hj]

@[simp] theorem modify_inner (h : DiscHeap) (d j : Nat) (f : DvmDisc → DvmDisc) :
    ((h.modify d f).objs j).inner = (h.objs j).inner := by
  by_cases hj : j = d
  · subst hj
    simp [modify]
  · simp [modify, hj]

theorem modify_other (h : DiscHeap) {d j : Nat} (f : DvmDisc → DvmDisc) (hj : j ≠ d) :
    (h.modify d f).objs j = h.objs j := by
  simp [modify, hj]

@[simp] theorem kill_dead (h : DiscHeap) (d : Nat) : ((h.kill d).objs d).alive = false := by
  simp [kill]

@[simp] theorem kill_inner (h : DiscHeap) (d j : Nat) :
    ((h.kill d).objs j).inner = (h.objs j).inner := by
  by_cases hj : j = d
  · subst hj
    simp [kill]
  · simp [kill, hj]

theorem kill_other (h : DiscHeap) {d j : Nat} (hj : j ≠ d) : (h.kill d).objs j = h.objs j := by
  simp [kill, hj]

@[simp] theorem create_next (h : DiscHeap) (base : DvmDisc) (inner : Option Nat) :
    (h.create base inner).next = h.next + 1 := rfl

@[simp] theorem create_new (h : DiscHeap) (base : DvmDisc) (inner : Option Nat) :
    (h.create base inner).objs h.next = ⟨base, inner, true⟩ := by
  simp [create]

theorem create_other (h : DiscHeap) (base : DvmDisc) (inner : Option Nat) {j : Nat}
    (hj : j ≠ h.next) : (h.create base inner).objs j = h.objs j := by
  simp [create, hj]

/-! ## The log -/

def Safe : DiscEvent → Prop
  | .used _ alive => alive = true
  | .destroyed _ alive => alive = true
  | .mountFailed _ alive before after => alive = true ∧ before = after

def destroyedDisc : DiscEvent → Option Nat
  | .destroyed d _ => some d
  | _ => none

def destroyedDiscs (h : DiscHeap) : List Nat := h.log.filterMap destroyedDisc

/-- All that has happened was safe, and the discs destroyed, each once, are the dead ones. -/
structure LogOk (h : DiscHeap) : Prop where
  safe : ∀ e ∈ h.log, Safe e
  once : h.destroyedDiscs.Nodup
  dead : ∀ d, d ∈ h.destroyedDiscs ↔ d < h.next ∧ (h.objs d).alive = false

theorem LogOk.record {h : DiscHeap} (hl : LogOk h) {e : DiscEvent} (he : Safe e)
    (hd : destroyedDisc e = none) : LogOk (h.record e) := by
  have hsame : (h.record e).destroyedDiscs = h.destroyedDiscs :=
    List.filterMap_cons_none hd
  refine ⟨?_, ?_, ?_⟩
  · intro e' he'
    rcases List.mem_cons.mp he' with rfl | hold
    · exact he
    · exact hl.safe e' hold
  · rw [hsame]
    exact hl.once
  · rw [hsame]
    exact hl.dead

theorem LogOk.use {h : DiscHeap} (hl : LogOk h) {d : Nat} (ha : (h.objs d).alive = true) :
    LogOk (h.use d) := hl.record ha rfl

theorem LogOk.modify {h : DiscHeap} (hl : LogOk h) (d : Nat) (f : DvmDisc → DvmDisc) :
    LogOk (h.modify d f) :=
  ⟨hl.safe, hl.once, fun j => by
    rw [modify_alive]
    exact hl.dead j⟩

theorem LogOk.kill {h : DiscHeap} (hl : LogOk h) {d : Nat} (hd : d < h.next)
    (ha : (h.objs d).alive = true) : LogOk (h.kill d) := by
  have hcons : (h.kill d).destroyedDiscs = d :: h.destroyedDiscs := rfl
  have hnew : d ∉ h.destroyedDiscs := by
    intro hmem
    have := ((hl.dead d).mp hmem).2
    rw [ha] at this
    contradiction
  refine ⟨?_, ?_, ?_⟩
  · intro e he
    rcases List.mem_cons.mp he with rfl | hold
    · exact ha
    · exact hl.safe e hold
  · rw [hcons]
    exact List.nodup_cons.mpr ⟨hnew, hl.once⟩
  · intro j
    rw [hcons, List.mem_cons, kill_next]
    by_cases hj : j = d
    · subst hj
      simp [hd]
    · rw [kill_other h hj, hl.dead j]
      simp [hj]

theorem create_destroyed (h : DiscHeap) (base : DvmDisc) (inner : Option Nat) :
    (h.create base inner).destroyedDiscs = h.destroyedDiscs := rfl

theorem LogOk.create {h : DiscHeap} (hl : LogOk h) (base : DvmDisc) (inner : Option Nat) :
    LogOk (h.create base inner) := by
  refine ⟨hl.safe, hl.once, ?_⟩
  intro j
  have hold := hl.dead j
  by_cases hj : j = h.next
  · subst hj
    have hnone : h.next ∉ h.destroyedDiscs := by
      intro hmem
      have := (hold.mp hmem).1
      omega
    simpa [create_destroyed, create_new] using hnone
  · rw [create_destroyed, create_other h base inner hj, hold, create_next]
    have hlt : j < h.next + 1 ↔ j < h.next := by omega
    rw [hlt]

/-! ## Discs with their users -/

/-- Disc `d` is there with `n` users; if it is a cache, it is the one user of the disc
under it. -/
structure Owned (h : DiscHeap) (d n : Nat) : Prop where
  bound : d < h.next
  alive : (h.objs d).alive = true
  users : (h.objs d).base.numUsers = n
  inner : ∀ i, (h.objs d).inner = some i →
    i < h.next ∧ i ≠ d ∧ (h.objs i).alive = true ∧ (h.objs i).base.numUsers = 1

/-- Disc `d` and the disc under it are gone. -/
structure Gone (h : DiscHeap) (d : Nat) : Prop where
  dead : (h.objs d).alive = false
  inner : ∀ i, (h.objs d).inner = some i → (h.objs i).alive = false

/-- `d` or the disc under it. -/
def Under (h : DiscHeap) (d j : Nat) : Prop := j = d ∨ (h.objs d).inner = some j

/-- From `h` to `h'` no disc is made and only `d` and the disc under it change. -/
structure Only (d : Nat) (h h' : DiscHeap) : Prop where
  next : h'.next = h.next
  inner : ∀ j, (h'.objs j).inner = (h.objs j).inner
  other : ∀ j, ¬ h.Under d j → h'.objs j = h.objs j

theorem Only.refl (d : Nat) (h : DiscHeap) : Only d h h := ⟨rfl, fun _ => rfl, fun _ _ => rfl⟩

theorem Only.under {d : Nat} {h h' : DiscHeap} (o : Only d h h') (j : Nat) :
    h'.Under d j ↔ h.Under d j := by
  unfold Under
  rw [o.inner d]

theorem Only.trans {d : Nat} {h h' h'' : DiscHeap} (o : Only d h h') (o' : Only d h' h'') :
    Only d h h'' where
  next := o'.next.trans o.next
  inner j := (o'.inner j).trans (o.inner j)
  other j hj := (o'.other j (by rwa [o.under])).trans (o.other j hj)

theorem only_use {h : DiscHeap} (d j : Nat) : Only d h (h.use j) :=
  ⟨rfl, fun _ => rfl, fun _ _ => rfl⟩

theorem only_modify {h : DiscHeap} {d j : Nat} (f : DvmDisc → DvmDisc) (hj : h.Under d j) :
    Only d h (h.modify j f) where
  next := rfl
  inner k := modify_inner h j k f
  other k hk := modify_other h f (by
    rintro rfl
    exact hk hj)

theorem only_kill {h : DiscHeap} {d j : Nat} (hj : h.Under d j) : Only d h (h.kill j) where
  next := rfl
  inner k := kill_inner h j k
  other k hk := kill_other h (by
    rintro rfl
    exact hk hj)

/-! ## The rules -/

theorem addUser_numUsers {disc : DvmDisc} (hn : disc.numUsers + 1 < 2 ^ 16) :
    (dvmDiscAddUser disc).numUsers = disc.numUsers + 1 := u16_of_lt hn

theorem dropUser_numUsers {disc : DvmDisc} (hn : 0 < disc.numUsers) :
    (dropUser disc).numUsers = disc.numUsers - 1 := by
  have := disc.numUsers_lt
  show (disc.numUsers + 2 ^ 16 - 1) % 2 ^ 16 = disc.numUsers - 1
  omega

theorem Owned.congr {h h' : DiscHeap} {d n : Nat} (ho : Owned h d n) (hobjs : h'.objs = h.objs)
    (hnext : h'.next = h.next) : Owned h' d n := by
  refine ⟨?_, ?_, ?_, ?_⟩
  · rw [hnext]
    exact ho.bound
  · rw [hobjs]
    exact ho.alive
  · rw [hobjs]
    exact ho.users
  · rw [hobjs, hnext]
    exact ho.inner

theorem Owned.modify {h : DiscHeap} {d n m : Nat} (ho : Owned h d n) (f : DvmDisc → DvmDisc)
    (hm : (f (h.objs d).base).numUsers = m) : Owned (h.modify d f) d m := by
  refine ⟨ho.bound, ?_, ?_, ?_⟩
  · rw [modify_alive]
    exact ho.alive
  · rw [modify_self]
    exact hm
  · intro i hi
    rw [modify_inner] at hi
    obtain ⟨hlt, hne, ha, hu⟩ := ho.inner i hi
    rw [modify_next, modify_other h f hne]
    exact ⟨hlt, hne, ha, hu⟩

theorem access_objs (h : DiscHeap) (d : Nat) : (h.access d).objs = h.objs := by
  unfold access
  split <;> rfl

theorem access_next (h : DiscHeap) (d : Nat) : (h.access d).next = h.next := by
  unfold access
  split <;> rfl

theorem LogOk.access {h : DiscHeap} {d n : Nat} (hl : LogOk h) (ho : Owned h d n) :
    LogOk (h.access d) := by
  unfold DiscHeap.access
  cases hi : (h.objs d).inner with
  | none => exact hl.use ho.alive
  | some i =>
      obtain ⟨-, -, ha, -⟩ := ho.inner i hi
      exact (hl.use ho.alive).use ha

theorem Owned.access {h : DiscHeap} {d n : Nat} (ho : Owned h d n) : Owned (h.access d) d n :=
  ho.congr (access_objs h d) (access_next h d)

theorem only_access (h : DiscHeap) (d : Nat) : Only d h (h.access d) := by
  refine ⟨access_next h d, ?_, ?_⟩
  · intro j
    rw [access_objs]
  · intro j _
    rw [access_objs]

theorem addUser_owned {h : DiscHeap} {d n : Nat} (hl : LogOk h) (ho : Owned h d n)
    (hn : n + 1 < 2 ^ 16) :
    LogOk (h.addUser d) ∧ Owned (h.addUser d) d (n + 1) ∧ Only d h (h.addUser d) := by
  have hused : Owned (h.use d) d n := ho.congr rfl rfl
  refine ⟨(hl.use ho.alive).modify d _, ?_, ?_⟩
  · apply hused.modify
    rw [use_objs, addUser_numUsers (by rw [ho.users]; exact hn), ho.users]
  · exact (only_use d d).trans (only_modify _ (Or.inl rfl))

theorem removeUser_wrap {h : DiscHeap} {d i : Nat} (hl : LogOk h) (hi : i < h.next)
    (hunder : h.Under d i) (ha : (h.objs i).alive = true)
    (hu : (h.objs i).base.numUsers = 1) :
    LogOk (removeUserWith dvmDiscWrapDestroy h i) ∧
      ((removeUserWith dvmDiscWrapDestroy h i).objs i).alive = false ∧
      Only d h (removeUserWith dvmDiscWrapDestroy h i) := by
  have hzero : ((h.use i).modify i dropUser |>.objs i).base.numUsers = 0 := by
    rw [modify_self]
    show (dropUser (h.objs i).base).numUsers = 0
    rw [dropUser_numUsers (by omega), hu]
  have heq : removeUserWith dvmDiscWrapDestroy h i = ((h.use i).modify i dropUser).kill i :=
    if_pos hzero
  rw [heq]
  refine ⟨?_, kill_dead _ i, ?_⟩
  · apply LogOk.kill ((hl.use ha).modify i dropUser) hi
    rw [modify_alive]
    exact ha
  · have hmod : Only d h ((h.use i).modify i dropUser) :=
      (only_use d i).trans (only_modify dropUser hunder)
    exact hmod.trans (only_kill ((hmod.under i).mpr hunder))

theorem destroy_gone {h : DiscHeap} {d n : Nat} (hl : LogOk h) (ho : Owned h d n) :
    LogOk (h.destroy d) ∧ Gone (h.destroy d) d ∧ Only d h (h.destroy d) := by
  cases hinner : (h.objs d).inner with
  | none =>
      have heq : h.destroy d = h.kill d := by
        simp only [destroy, hinner, dvmDiscWrapDestroy]
      rw [heq]
      refine ⟨hl.kill ho.bound ho.alive, ⟨kill_dead h d, ?_⟩, only_kill (Or.inl rfl)⟩
      intro i hi
      rw [kill_inner, hinner] at hi
      contradiction
  | some i =>
      have heq : h.destroy d = (removeUserWith dvmDiscWrapDestroy (h.access d) i).kill d := by
        simp only [destroy, hinner, dvmDiscCacheDestroy]
      obtain ⟨hlt, hne, ha, hu⟩ := ho.inner i hinner
      have hacc := only_access h d
      obtain ⟨hlog, hdead, honly⟩ := removeUser_wrap (d := d) (hl.access ho)
        (by rw [access_next]; exact hlt) (Or.inr (by rw [access_objs]; exact hinner))
        (by rw [access_objs]; exact ha) (by rw [access_objs]; exact hu)
      -- the cache itself is untouched while the wrapper goes
      have hself : ((removeUserWith dvmDiscWrapDestroy (h.access d) i).objs d).alive = true := by
        have hkeep : (removeUserWith dvmDiscWrapDestroy (h.access d) i).objs d =
            (h.access d).objs d := by
          unfold removeUserWith dvmDiscWrapDestroy
          simp only
          split
          · rw [kill_other _ (Ne.symm hne), modify_other _ _ (Ne.symm hne), use_objs]
          · rw [modify_other _ _ (Ne.symm hne), use_objs]
        rw [hkeep, access_objs]
        exact ho.alive
      have hall := hacc.trans honly
      rw [heq]
      refine ⟨hlog.kill (by rw [hall.next]; exact ho.bound) hself, ⟨kill_dead _ d, ?_⟩,
        hall.trans (only_kill (Or.inl rfl))⟩
      intro j hj
      rw [kill_inner, hall.inner, hinner] at hj
      obtain rfl : i = j := Option.some.inj hj
      rw [kill_other _ hne]
      exact hdead

theorem removeUser_keeps {h : DiscHeap} {d n : Nat} (hl : LogOk h) (ho : Owned h d (n + 2)) :
    LogOk (h.removeUser d) ∧ Owned (h.removeUser d) d (n + 1) ∧ Only d h (h.removeUser d) := by
  have hused : Owned (h.use d) d (n + 2) := ho.congr rfl rfl
  have hdrop : (dropUser ((h.use d).objs d).base).numUsers = n + 1 := by
    rw [dropUser_numUsers (by rw [hused.users]; omega), hused.users]
    omega
  have hpos : ¬ (((h.use d).modify d dropUser).objs d).base.numUsers = 0 := by
    rw [modify_self]
    show ¬ (dropUser ((h.use d).objs d).base).numUsers = 0
    omega
  have heq : h.removeUser d = (h.use d).modify d dropUser := if_neg hpos
  rw [heq]
  exact ⟨(hl.use ho.alive).modify d _, hused.modify _ hdrop,
    (only_use d d).trans (only_modify _ (Or.inl rfl))⟩

theorem removeUser_last {h : DiscHeap} {d : Nat} (hl : LogOk h) (ho : Owned h d 1) :
    LogOk (h.removeUser d) ∧ Gone (h.removeUser d) d ∧ Only d h (h.removeUser d) := by
  have hused : Owned (h.use d) d 1 := ho.congr rfl rfl
  have hdrop : (dropUser ((h.use d).objs d).base).numUsers = 0 := by
    rw [dropUser_numUsers (by rw [hused.users]; omega), hused.users]
  have hdropped : Owned ((h.use d).modify d dropUser) d 0 := hused.modify _ hdrop
  have heq : h.removeUser d = ((h.use d).modify d dropUser).destroy d := if_pos hdropped.users
  rw [heq]
  obtain ⟨hlog, hgone, honly⟩ := destroy_gone ((hl.use ho.alive).modify d _) hdropped
  have hmod : Only d h ((h.use d).modify d dropUser) :=
    (only_use d d).trans (only_modify _ (Or.inl rfl))
  exact ⟨hlog, hgone, hmod.trans honly⟩

/-! ## Discs on top of one another -/

/-- How discs lie on one another; no operation but the creation of a disc changes it. -/
structure Shape (h : DiscHeap) : Prop where
  fresh : ∀ d, h.next ≤ d → (h.objs d).inner = none
  under : ∀ d i, (h.objs d).inner = some i → i < h.next ∧ (h.objs i).inner = none
  unique : ∀ c d i, (h.objs c).inner = some i → (h.objs d).inner = some i → c = d

def Top (h : DiscHeap) (d : Nat) : Prop := d < h.next ∧ ∀ c, (h.objs c).inner ≠ some d

theorem Shape.only {h h' : DiscHeap} {d : Nat} (hs : Shape h) (ho : Only d h h') : Shape h' where
  fresh j hj := by
    rw [ho.inner]
    exact hs.fresh j (by rwa [ho.next] at hj)
  under j i hi := by
    rw [ho.inner] at hi
    rw [ho.inner, ho.next]
    exact hs.under j i hi
  unique c j i hc hj := by
    rw [ho.inner] at hc hj
    exact hs.unique c j i hc hj

theorem top_only {h h' : DiscHeap} {d : Nat} (ho : Only d h h') (j : Nat) :
    Top h' j ↔ Top h j := by
  simp only [Top, ho.next, ho.inner]

theorem Shape.apart {h : DiscHeap} (hs : Shape h) {c d : Nat} (hc : Top h c) (hd : Top h d)
    (hne : c ≠ d) {j : Nat} (hj : h.Under c j) : ¬ h.Under d j := by
  rintro (rfl | hdj)
  · rcases hj with rfl | hcj
    · exact hne rfl
    · exact hd.2 c hcj
  · rcases hj with rfl | hcj
    · exact hc.2 d hdj
    · exact hne (hs.unique c d j hcj hdj)

theorem Owned.frame {h h' : DiscHeap} {c d n : Nat} (hs : Shape h) (hc : Top h c) (hd : Top h d)
    (hne : c ≠ d) (ho : Only d h h') (hown : Owned h c n) : Owned h' c n := by
  have hself : h'.objs c = h.objs c := ho.other c (hs.apart hc hd hne (Or.inl rfl))
  refine ⟨?_, ?_, ?_, ?_⟩
  · rw [ho.next]
    exact hown.bound
  · rw [hself]
    exact hown.alive
  · rw [hself]
    exact hown.users
  · intro i hi
    rw [ho.inner] at hi
    rw [ho.next, ho.other i (hs.apart hc hd hne (Or.inr hi))]
    exact hown.inner i hi

theorem Gone.frame {h h' : DiscHeap} {c d : Nat} (hs : Shape h) (hc : Top h c) (hd : Top h d)
    (hne : c ≠ d) (ho : Only d h h') (hgone : Gone h c) : Gone h' c := by
  constructor
  · rw [ho.other c (hs.apart hc hd hne (Or.inl rfl))]
    exact hgone.dead
  · intro i hi
    rw [ho.inner] at hi
    rw [ho.other i (hs.apart hc hd hne (Or.inr hi))]
    exact hgone.inner i hi

/-! ## A new disc -/

theorem Shape.create {h : DiscHeap} (hs : Shape h) (base : DvmDisc) {inner : Option Nat}
    (hinner : ∀ i, inner = some i → Top h i ∧ (h.objs i).inner = none) :
    Shape (h.create base inner) := by
  have hnew : ∀ j, ((h.create base inner).objs j).inner =
      if j = h.next then inner else (h.objs j).inner := by
    intro j
    by_cases hj : j = h.next
    · rw [if_pos hj, hj, create_new]
    · rw [if_neg hj, create_other h base inner hj]
  refine ⟨?_, ?_, ?_⟩
  · intro d hd
    rw [create_next] at hd
    rw [hnew, if_neg (by omega)]
    exact hs.fresh d (by omega)
  · intro d i hi
    rw [hnew] at hi
    split at hi
    · obtain ⟨htop, hnone⟩ := hinner i hi
      have := htop.1
      rw [create_next, hnew, if_neg (by omega)]
      exact ⟨by omega, hnone⟩
    · obtain ⟨hlt, hnone⟩ := hs.under d i hi
      rw [create_next, hnew, if_neg (by omega)]
      exact ⟨by omega, hnone⟩
  · intro c d i hc hd
    rw [hnew] at hc hd
    split at hc <;> split at hd
    · omega
    · exact absurd hd ((hinner i hc).1.2 d)
    · exact absurd hc ((hinner i hd).1.2 c)
    · exact hs.unique c d i hc hd

theorem top_create {h : DiscHeap} (hs : Shape h) (base : DvmDisc) {inner : Option Nat}
    (hinner : ∀ i, inner = some i → Top h i) (d : Nat) :
    Top (h.create base inner) d ↔ d = h.next ∨ (Top h d ∧ inner ≠ some d) := by
  have hnew : ∀ c, c ≠ h.next →
      ((h.create base inner).objs c).inner = (h.objs c).inner := by
    intro c hc
    rw [create_other h base inner hc]
  constructor
  · rintro ⟨hlt, hno⟩
    rw [create_next] at hlt
    by_cases hd : d = h.next
    · exact Or.inl hd
    · refine Or.inr ⟨⟨by omega, ?_⟩, ?_⟩
      · intro c hc
        have hcn : c ≠ h.next := by
          rintro rfl
          rw [hs.fresh _ (Nat.le_refl _)] at hc
          contradiction
        exact hno c (by rwa [hnew c hcn])
      · have := hno h.next
        rwa [create_new] at this
  · rintro (rfl | ⟨⟨hlt, hno⟩, hfree⟩)
    · refine ⟨by rw [create_next]; omega, ?_⟩
      intro c hc
      by_cases hcn : c = h.next
      · rw [hcn, create_new] at hc
        have := (hinner _ hc).1
        omega
      · rw [hnew c hcn] at hc
        have := (hs.under c _ hc).1
        omega
    · refine ⟨by rw [create_next]; omega, ?_⟩
      intro c hc
      by_cases hcn : c = h.next
      · rw [hcn, create_new] at hc
        exact hfree hc
      · rw [hnew c hcn] at hc
        exact hno c hc

theorem Owned.create {h : DiscHeap} {d n : Nat} (ho : Owned h d n) (base : DvmDisc)
    (inner : Option Nat) : Owned (h.create base inner) d n := by
  have := ho.bound
  have hself : (h.create base inner).objs d = h.objs d := create_other h base inner (by omega)
  refine ⟨by rw [create_next]; omega, ?_, ?_, ?_⟩
  · rw [hself]
    exact ho.alive
  · rw [hself]
    exact ho.users
  · intro i hi
    rw [hself] at hi
    obtain ⟨hlt, hne, ha, hu⟩ := ho.inner i hi
    rw [create_next, create_other h base inner (by omega)]
    exact ⟨by omega, hne, ha, hu⟩

theorem Gone.create {h : DiscHeap} {d : Nat} (hs : Shape h) (hg : Gone h d) (hd : d < h.next)
    (base : DvmDisc) (inner : Option Nat) : Gone (h.create base inner) d := by
  have hself : (h.create base inner).objs d = h.objs d := create_other h base inner (by omega)
  refine ⟨by rw [hself]; exact hg.dead, ?_⟩
  intro i hi
  rw [hself] at hi
  have := (hs.under d i hi).1
  rw [create_other h base inner (by omega)]
  exact hg.inner i hi

/-! ## What lasts

The log only grows, and a disc stays on the disc it was created on, with the geometry it
has. Both follow operation by operation from what the few basic ones keep.
-/

/-- A property of the discs that every use, every count of users and every destruction
keeps. -/
structure Kept (P : DiscHeap → Prop) : Prop where
  record : ∀ {h}, P h → ∀ e, P (h.record e)
  added : ∀ {h}, P h → ∀ d, P (h.modify d dvmDiscAddUser)
  dropped : ∀ {h}, P h → ∀ d, P (h.modify d dropUser)
  kill : ∀ {h}, P h → ∀ d, P (h.kill d)

namespace Kept

variable {P : DiscHeap → Prop} {h : DiscHeap} (k : Kept P)

include k

theorem use (hp : P h) (d : Nat) : P (h.use d) := k.record hp _

theorem access (hp : P h) (d : Nat) : P (h.access d) := by
  unfold DiscHeap.access
  cases (h.objs d).inner with
  | none => exact k.use hp d
  | some i => exact k.use (k.use hp d) i

theorem addUser (hp : P h) (d : Nat) : P (h.addUser d) := k.added (k.use hp d) d

theorem removeUserWith {destroy : DiscHeap → Nat → DiscHeap}
    (hdestroy : ∀ {h}, P h → ∀ d, P (destroy h d)) (hp : P h) (d : Nat) :
    P (removeUserWith destroy h d) := by
  have hdropped : P ((h.use d).modify d dropUser) := k.dropped (k.use hp d) d
  unfold DiscHeap.removeUserWith
  simp only
  split
  · exact hdestroy hdropped d
  · exact hdropped

theorem destroy (hp : P h) (d : Nat) : P (h.destroy d) := by
  unfold DiscHeap.destroy
  cases (h.objs d).inner with
  | none => exact k.kill hp d
  | some i => exact k.kill (k.removeUserWith k.kill (k.access hp d) i) d

theorem removeUser (hp : P h) (d : Nat) : P (h.removeUser d) := k.removeUserWith k.destroy hp d

end Kept

/-- What the log of `h` holds is still in the log of `h'`. -/
def Before (h h' : DiscHeap) : Prop := h.log <:+ h'.log

theorem Before.refl (h : DiscHeap) : Before h h := List.suffix_refl h.log

theorem before_kept (h : DiscHeap) : Kept (Before h) where
  record {h'} hb _ := hb.trans (List.suffix_cons _ h'.log)
  added hb _ := hb
  dropped hb _ := hb
  kill {h'} hb _ := hb.trans (List.suffix_cons _ h'.log)

/-- From `h` to `h'` no disc is made, and the geometry of the discs stays. -/
structure Steady (h h' : DiscHeap) : Prop where
  next : h'.next = h.next
  inner : ∀ d, (h'.objs d).inner = (h.objs d).inner
  geometry : ∀ d, (h'.objs d).base.geometry = (h.objs d).base.geometry

theorem Steady.refl (h : DiscHeap) : Steady h h := ⟨rfl, fun _ => rfl, fun _ => rfl⟩

theorem Steady.modify {h h' : DiscHeap} (hs : Steady h h') {d : Nat} {f : DvmDisc → DvmDisc}
    (hf : (f (h'.objs d).base).geometry = (h'.objs d).base.geometry) :
    Steady h (h'.modify d f) where
  next := hs.next
  inner c := (modify_inner h' d c f).trans (hs.inner c)
  geometry c := by
    refine Eq.trans ?_ (hs.geometry c)
    by_cases hc : c = d
    · subst hc
      rw [modify_self]
      exact hf
    · rw [modify_other h' f hc]

theorem steady_kept (h : DiscHeap) : Kept (Steady h) where
  record hs _ := ⟨hs.next, hs.inner, hs.geometry⟩
  added hs _ := hs.modify (geometry_dvmDiscAddUser _)
  dropped hs _ := hs.modify (geometry_dropUser _)
  kill {h'} hs d := by
    refine ⟨hs.next, fun c => (kill_inner h' d c).trans (hs.inner c), fun c => ?_⟩
    refine Eq.trans ?_ (hs.geometry c)
    by_cases hc : c = d
    · subst hc
      simp [kill]
    · rw [kill_other h' hc]

/-- The geometry of the cache at `d`, if there is one. -/
def cacheGeometry (h : DiscHeap) (d : Nat) : Option (Nat × Nat × Nat × Nat × Nat) :=
  (h.objs d).inner.map fun _ => (h.objs d).base.geometry

theorem Steady.cacheGeometry {h h' : DiscHeap} (hs : Steady h h') (d : Nat) :
    cacheGeometry h' d = DiscHeap.cacheGeometry h d := by
  unfold DiscHeap.cacheGeometry
  rw [hs.inner, hs.geometry]

theorem create_cacheGeometry (h : DiscHeap) (base : DvmDisc) (inner : Option Nat) (d : Nat) :
    cacheGeometry (h.create base inner) d =
      if d = h.next then inner.map fun _ => base.geometry else cacheGeometry h d := by
  unfold cacheGeometry
  by_cases hd : d = h.next
  · rw [if_pos hd, hd, create_new]
  · rw [if_neg hd, create_other h base inner hd]

theorem create_wrap_cacheGeometry {h : DiscHeap}
    (hfresh : ∀ d, h.next ≤ d → (h.objs d).inner = none) (base : DvmDisc) (d : Nat) :
    cacheGeometry (h.create base none) d = cacheGeometry h d := by
  rw [create_cacheGeometry]
  split
  · next hd =>
      rw [hd, cacheGeometry, hfresh h.next (Nat.le_refl _)]
      rfl
  · rfl

end DiscHeap

end LibDvm
