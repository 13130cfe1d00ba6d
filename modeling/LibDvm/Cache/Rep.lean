import LibDvm.Cache.Listed
import LibDvm.Lib.Align

/-! # The representation invariant

`Rep c A U`: the list of the cache `c` links the allocated entries `A` and then the unallocated
entries `U`, every entry once. This file holds what each operation of the cache
does to it: the search, the victim scan, the flush of an entry, the reuse of an
entry for another page, and the move to the front.
-/

namespace LibDvm.Cache

open NodeList Store

variable {α : Type} {c : DvmDiscCache α} {A U : List Nat}

/-! ## Definitions -/

def Clean (page : Nat) (e : DvmDiscCacheEntry) : Prop := e.dirtyStart = page ∧ e.dirtyEnd = 0

/-- An allocated entry on a disc of `sectors` sectors: it holds a page of the disc,
and is clean or dirty on a range inside that page and the disc. -/
structure EntryOk (page sectors : Nat) (e : DvmDiscCacheEntry) : Prop where
  aligned : page ∣ e.baseSector
  inside : e.baseSector < sectors
  dirty : Clean page e ∨
    (e.dirtyStart < e.dirtyEnd ∧ e.dirtyEnd ≤ page ∧ e.baseSector + e.dirtyEnd ≤ sectors)

structure EntryFree (page : Nat) (e : DvmDiscCacheEntry) : Prop where
  empty : e.baseSector = emptyPage
  clean : Clean page e

/-- The representation invariant: in list order `A` are the allocated entries and `U` the
others. -/
structure Rep (c : DvmDiscCache α) (A U : List Nat) : Prop where
  linked : c.links.Linked (A ++ U)
  visits : (A ++ U).Perm (List.range c.numPages)
  allocated : ∀ p ∈ A, EntryOk c.pageSz c.base.numSectors (c.entries p)
  free : ∀ p ∈ U, EntryFree c.pageSz (c.entries p)
  page_le : c.pageSz ≤ 2 ^ 15
  pos : 0 < c.numPages

/-- `Rep` around one entry `p` of the list, with nothing said about that entry. -/
structure RepAt (c : DvmDiscCache α) (A : List Nat) (p : Nat) (U : List Nat) : Prop where
  linked : c.links.Linked (A ++ p :: U)
  visits : (A ++ p :: U).Perm (List.range c.numPages)
  allocated : ∀ q ∈ A, EntryOk c.pageSz c.base.numSectors (c.entries q)
  free : ∀ q ∈ U, EntryFree c.pageSz (c.entries q)
  page_le : c.pageSz ≤ 2 ^ 15
  pos : 0 < c.numPages

/-! ## Page arithmetic -/

theorem pageSz_eq (c : DvmDiscCache α) : c.pageSz = 2 ^ c.pageShift := by
  rw [DvmDiscCache.pageSz, Nat.one_shiftLeft]

theorem pageSz_pos (c : DvmDiscCache α) : 0 < c.pageSz := by
  rw [pageSz_eq]
  exact Nat.two_pow_pos _

theorem entryCell_add (c : DvmDiscCache α) (p off : Nat) :
    entryCell c p + off = Align.cell c.pageSz p off := by
  rw [entryCell, Align.cell, pageSz_eq, Nat.shiftLeft_eq]

theorem pageShift_le (h : c.pageSz ≤ 2 ^ 15) : c.pageShift ≤ 15 := by
  rw [pageSz_eq] at h
  exact (Nat.pow_le_pow_iff_right (by decide)).mp h

theorem EntryOk.ne_empty {page sectors : Nat} {e : DvmDiscCacheEntry}
    (h : EntryOk page sectors e) (hs : sectors < 2 ^ 32) : e.baseSector ≠ emptyPage := by
  have hi := h.inside
  simp only [emptyPage]
  omega

/-! ## Members of the list -/

theorem Rep.mem_iff (h : Rep c A U) (p : Nat) : p ∈ A ++ U ↔ p < c.numPages :=
  mem_of_visits h.visits p

theorem Rep.lt_of_mem (h : Rep c A U) {p : Nat} (hp : p ∈ A) : p < c.numPages :=
  (h.mem_iff p).mp (List.mem_append_left U hp)

theorem Rep.order_eq (h : Rep c A U) : c.order = A ++ U := order_of_visits h.linked h.visits

theorem Rep.base_ne (h : Rep c A U) {p : Nat} (hp : p ∈ A) :
    (c.entries p).baseSector ≠ emptyPage :=
  (h.allocated p hp).ne_empty c.base.numSectors_lt

theorem Rep.mem_allocated (h : Rep c A U) {p : Nat} (hp : p < c.numPages)
    (hb : (c.entries p).baseSector ≠ emptyPage) : p ∈ A := by
  rcases List.mem_append.mp ((h.mem_iff p).mpr hp) with hA | hU
  · exact hA
  · exact absurd (h.free p hU).empty hb

theorem Rep.listed (h : Rep c A U) : Listed c A U where
  linked := h.linked
  visits := h.visits
  allocated := by
    intro p hp
    have hinside := (h.allocated p hp).inside
    have hsectors := c.base.numSectors_lt
    simp only [emptyPage]
    omega
  free := fun p hp => (h.free p hp).empty
  pos := h.pos

theorem Rep.dirty (h : Rep c A U) {p : Nat} (hp : p < c.numPages) :
    Clean c.pageSz (c.entries p) ∨ p ∈ A := by
  rcases List.mem_append.mp ((h.mem_iff p).mpr hp) with hA | hU
  · exact .inr hA
  · exact .inl (h.free p hU).clean

theorem Rep.nodup (h : Rep c A U) : (A ++ U).Nodup := h.linked.nodup

/-! ## Search -/

/-- The three answers of a search: the entry that holds the page, the nearest
following page, or no page at or after the wanted one. -/
theorem Rep.search_cases (h : Rep c A U) (page : Nat) :
    (∃ p ∈ A, dvmDiscCacheSearch c page = some p ∧ (c.entries p).baseSector = page) ∨
      (∃ p ∈ A, dvmDiscCacheSearch c page = some p ∧ page < (c.entries p).baseSector ∧
        ∀ q ∈ A, (c.entries q).baseSector < page ∨
          (c.entries p).baseSector ≤ (c.entries q).baseSector) ∨
      dvmDiscCacheSearch c page = none ∧ ∀ q ∈ A, (c.entries q).baseSector < page :=
  h.listed.search_cases page

/-! ## Updating one entry -/

@[simp] theorem setEntry_entries (c : DvmDiscCache α) (p q : Nat) (e : DvmDiscCacheEntry) :
    (c.setEntry p e).entries q = if q = p then e else c.entries q := rfl

theorem Rep.at_last {p : Nat} (h : Rep c (A ++ [p]) U) : RepAt c A p U where
  linked := by simpa using h.linked
  visits := by simpa using h.visits
  allocated := fun q hq => h.allocated q (List.mem_append_left _ hq)
  free := h.free
  page_le := h.page_le
  pos := h.pos

theorem Rep.at_first {p : Nat} (h : Rep c A (p :: U)) : RepAt c A p U where
  linked := h.linked
  visits := h.visits
  allocated := h.allocated
  free := fun q hq => h.free q (List.mem_cons_of_mem p hq)
  page_le := h.page_le
  pos := h.pos

theorem RepAt.ne {p : Nat} (h : RepAt c A p U) {q : Nat} (hq : q ∈ A ∨ q ∈ U) : q ≠ p := by
  have hnodup := List.nodup_append.mp h.linked.nodup
  intro heq
  subst heq
  rcases hq with hA | hU
  · exact hnodup.2.2 q hA q (by simp) rfl
  · exact (List.nodup_cons.mp hnodup.2.1).1 hU

theorem RepAt.allocate {p : Nat} (h : RepAt c A p U) {e : DvmDiscCacheEntry}
    (he : EntryOk c.pageSz c.base.numSectors e) : Rep (c.setEntry p e) (A ++ [p]) U where
  linked := by simpa [DvmDiscCache.setEntry] using h.linked
  visits := by simpa [DvmDiscCache.setEntry] using h.visits
  allocated := by
    intro q hq
    rw [setEntry_entries]
    rcases List.mem_append.mp hq with hA | hp
    · rw [if_neg (h.ne (.inl hA))]
      exact h.allocated q hA
    · rw [if_pos (List.mem_singleton.mp hp)]
      exact he
  free := by
    intro q hq
    rw [setEntry_entries, if_neg (h.ne (.inr hq))]
    exact h.free q hq
  page_le := h.page_le
  pos := h.pos

theorem RepAt.release {p : Nat} (h : RepAt c A p U) {e : DvmDiscCacheEntry}
    (he : EntryFree c.pageSz e) : Rep (c.setEntry p e) A (p :: U) where
  linked := h.linked
  visits := h.visits
  allocated := by
    intro q hq
    rw [setEntry_entries, if_neg (h.ne (.inl hq))]
    exact h.allocated q hq
  free := by
    intro q hq
    rw [setEntry_entries]
    rcases List.mem_cons.mp hq with hp | hU
    · rw [if_pos hp]
      exact he
    · rw [if_neg (h.ne (.inr hU))]
      exact h.free q hU
  page_le := h.page_le
  pos := h.pos

theorem Rep.setEntry (h : Rep c A U) {p : Nat} (hp : p ∈ A) {e : DvmDiscCacheEntry}
    (he : EntryOk c.pageSz c.base.numSectors e) : Rep (c.setEntry p e) A U where
  linked := h.linked
  visits := h.visits
  allocated := by
    intro q hq
    rw [setEntry_entries]
    split
    · exact he
    · exact h.allocated q hq
  free := by
    intro q hq
    have hne : q ≠ p := fun heq => (List.nodup_append.mp h.nodup).2.2 p hp q hq heq.symm
    rw [setEntry_entries, if_neg hne]
    exact h.free q hq
  page_le := h.page_le
  pos := h.pos

theorem Rep.touch (h : Rep c A U) {p : Nat} (hp : p ∈ A) (hhead : c.links.list.next ≠ some p) :
    Rep { c with links := c.links.moveToFront p } (p :: A.erase p) U := by
  have hmoved := h.listed.touch hp hhead
  refine ⟨hmoved.linked, hmoved.visits, ?_, h.free, h.page_le, h.pos⟩
  intro q hq
  apply h.allocated q
  rcases List.mem_cons.mp hq with rfl | hrest
  · exact hp
  · exact List.mem_of_mem_erase hrest

theorem Rep.erase_head (h : Rep c A U) {p : Nat} (hp : p ∈ A)
    (hhead : c.links.list.next = some p) : p :: A.erase p = A := h.listed.erase_head hp hhead

/-! ## The victim scan -/

theorem Rep.at_victim {A' U' : List Nat} {p : Nat} (h : Rep c A U)
    (hv : VictimAt A U A' p U') : RepAt c A' p U' := by
  rcases hv with ⟨rfl, rfl, rfl⟩ | ⟨rfl, rfl⟩
  · exact h.at_last
  · exact h.at_first

theorem Rep.victim_spec (h : Rep c A U) :
    ∃ A' p U', RwState.victim c = some p ∧ VictimAt A U A' p U' := h.listed.victim_spec

end LibDvm.Cache
