import LibDvm.Cache.Model
import Mathlib.Data.List.Range
import Mathlib.Tactic.Common

/-! # The list of a cache

`Listed c A U`: the list of the cache `c` links the allocated entries `A` and then the
unallocated entries `U`, every entry once. The search, the victim scan and the move to
the front depend on nothing else, whatever the entries hold beside their page.
-/

namespace LibDvm.Cache

open NodeList Store

variable {α : Type} {c : DvmDiscCache α} {A U : List Nat}

/-! ## Definitions -/

structure Listed (c : DvmDiscCache α) (A U : List Nat) : Prop where
  linked : c.links.Linked (A ++ U)
  visits : (A ++ U).Perm (List.range c.numPages)
  allocated : ∀ p ∈ A, (c.entries p).baseSector < emptyPage
  free : ∀ p ∈ U, (c.entries p).baseSector = emptyPage
  pos : 0 < c.numPages

/-! ## Every entry once -/

section Visits

variable {xs : List Nat}

theorem mem_of_visits {n : Nat} (h : xs.Perm (List.range n)) (p : Nat) : p ∈ xs ↔ p < n := by
  rw [h.mem_iff, List.mem_range]

theorem length_of_visits {n : Nat} (h : xs.Perm (List.range n)) : xs.length = n := by
  rw [h.length_eq, List.length_range]

theorem order_of_visits (hlinked : c.links.Linked xs)
    (hvisits : xs.Perm (List.range c.numPages)) : c.order = xs :=
  hlinked.forward (Nat.le_of_eq (length_of_visits hvisits))

end Visits

theorem Listed.length_eq (h : Listed c A U) : (A ++ U).length = c.numPages :=
  length_of_visits h.visits

theorem Listed.frame {c' : DvmDiscCache α} (h : Listed c A U) (hpages : c'.numPages = c.numPages)
    (hlinks : c'.links = c.links)
    (hbase : ∀ p, (c'.entries p).baseSector = (c.entries p).baseSector) : Listed c' A U where
  linked := by rw [hlinks]; exact h.linked
  visits := by rw [hpages]; exact h.visits
  allocated := fun p hp => by rw [hbase]; exact h.allocated p hp
  free := fun p hp => by rw [hbase]; exact h.free p hp
  pos := by rw [hpages]; exact h.pos

/-! ## Search -/

/-- What the search loop returns on the allocated entries `A`, started from `minSec`
and `ret`: a hit, else the smallest page above the wanted one that is below `minSec`. -/
theorem dvmDiscCacheSearchLoop_spec (c : DvmDiscCache α) (page : Nat)
    (hA : ∀ p ∈ A, (c.entries p).baseSector ≠ emptyPage)
    (hU : ∀ p ∈ U, (c.entries p).baseSector = emptyPage) (minSec : Nat) (ret : Option Nat) :
    (∃ p ∈ A, dvmDiscCacheSearchLoop c page (A ++ U) minSec ret = some p ∧
        (c.entries p).baseSector = page) ∨
      (∀ p ∈ A, (c.entries p).baseSector ≠ page) ∧
        ((dvmDiscCacheSearchLoop c page (A ++ U) minSec ret = ret ∧
            ∀ q ∈ A, page < (c.entries q).baseSector → minSec ≤ (c.entries q).baseSector) ∨
          ∃ p ∈ A, dvmDiscCacheSearchLoop c page (A ++ U) minSec ret = some p ∧
            page < (c.entries p).baseSector ∧ (c.entries p).baseSector < minSec ∧
            ∀ q ∈ A, page < (c.entries q).baseSector →
              (c.entries p).baseSector ≤ (c.entries q).baseSector) := by
  induction A generalizing minSec ret with
  | nil =>
      right
      refine ⟨by simp, .inl ⟨?_, by simp⟩⟩
      cases U with
      | nil => rfl
      | cons u U => simp [dvmDiscCacheSearchLoop, hU u (by simp)]
  | cons p A ih =>
      have hp := hA p (by simp)
      have hrest := fun m r => ih (fun q hq => hA q (List.mem_cons_of_mem p hq)) m r
      simp only [List.cons_append, dvmDiscCacheSearchLoop, if_neg hp, List.mem_cons,
        forall_eq_or_imp, exists_eq_or_imp]
      by_cases heq : (c.entries p).baseSector = page
      · left
        exact .inl ⟨by rw [if_pos heq], heq⟩
      · rw [if_neg heq]
        by_cases hbetter : (c.entries p).baseSector > page ∧ (c.entries p).baseSector < minSec
        · rw [if_pos hbetter]
          rcases hrest (c.entries p).baseSector (some p) with hit | ⟨hmiss, hkeep | hlower⟩
          · exact .inl (.inr hit)
          · obtain ⟨hret, hmin⟩ := hkeep
            exact .inr ⟨⟨heq, hmiss⟩, .inr (.inl ⟨hret, hbetter.1, hbetter.2,
              ⟨fun _ => Nat.le_refl _, hmin⟩⟩)⟩
          · obtain ⟨q, hq, hret, hgt, hlt, hmin⟩ := hlower
            exact .inr ⟨⟨heq, hmiss⟩, .inr (.inr ⟨q, hq, hret, hgt, by omega,
              ⟨fun _ => Nat.le_of_lt hlt, hmin⟩⟩)⟩
        · rw [if_neg hbetter]
          rcases hrest minSec ret with hit | ⟨hmiss, hkeep | hlower⟩
          · exact .inl (.inr hit)
          · obtain ⟨hret, hmin⟩ := hkeep
            exact .inr ⟨⟨heq, hmiss⟩, .inl ⟨hret, ⟨fun _ => by omega, hmin⟩⟩⟩
          · obtain ⟨q, hq, hret, hgt, hlt, hmin⟩ := hlower
            exact .inr ⟨⟨heq, hmiss⟩, .inr (.inr ⟨q, hq, hret, hgt, hlt,
              ⟨fun _ => by omega, hmin⟩⟩)⟩

theorem dvmDiscCacheSearch_cases (hlinked : c.links.Linked (A ++ U))
    (hlength : (A ++ U).length ≤ c.numPages)
    (hA : ∀ p ∈ A, (c.entries p).baseSector < emptyPage)
    (hU : ∀ p ∈ U, (c.entries p).baseSector = emptyPage) (page : Nat) :
    (∃ p ∈ A, dvmDiscCacheSearch c page = some p ∧ (c.entries p).baseSector = page) ∨
      (∃ p ∈ A, dvmDiscCacheSearch c page = some p ∧ page < (c.entries p).baseSector ∧
        ∀ q ∈ A, (c.entries q).baseSector < page ∨
          (c.entries p).baseSector ≤ (c.entries q).baseSector) ∨
      dvmDiscCacheSearch c page = none ∧ ∀ q ∈ A, (c.entries q).baseSector < page := by
  have hsearch : dvmDiscCacheSearch c page =
      dvmDiscCacheSearchLoop c page (A ++ U) emptyPage none := by
    rw [dvmDiscCacheSearch, DvmDiscCache.order, hlinked.forward hlength]
  rw [hsearch]
  rcases dvmDiscCacheSearchLoop_spec c page (fun p hp => Nat.ne_of_lt (hA p hp)) hU emptyPage none
    with hit | ⟨hmiss, hnone | hnext⟩
  · exact .inl hit
  · right; right
    refine ⟨hnone.1, fun q hq => ?_⟩
    have h1 := hnone.2 q hq
    have h2 := hmiss q hq
    have h3 := hA q hq
    omega
  · obtain ⟨p, hp, hret, hgt, _, hmin⟩ := hnext
    refine .inr (.inl ⟨p, hp, hret, hgt, fun q hq => ?_⟩)
    have h1 := hmiss q hq
    have h2 := hmin q hq
    omega

theorem Listed.search_cases (h : Listed c A U) (page : Nat) :
    (∃ p ∈ A, dvmDiscCacheSearch c page = some p ∧ (c.entries p).baseSector = page) ∨
      (∃ p ∈ A, dvmDiscCacheSearch c page = some p ∧ page < (c.entries p).baseSector ∧
        ∀ q ∈ A, (c.entries q).baseSector < page ∨
          (c.entries p).baseSector ≤ (c.entries q).baseSector) ∨
      dvmDiscCacheSearch c page = none ∧ ∀ q ∈ A, (c.entries q).baseSector < page :=
  dvmDiscCacheSearch_cases h.linked (Nat.le_of_eq h.length_eq) h.allocated h.free page

/-! ## Making an entry the MRU -/

theorem Listed.touch (h : Listed c A U) {p : Nat} (hp : p ∈ A)
    (hhead : c.links.list.next ≠ some p) :
    Listed { c with links := c.links.moveToFront p } (p :: A.erase p) U := by
  obtain ⟨xs, ys, hpxs, rfl, herase⟩ := List.exists_erase_eq hp
  have hxs : xs ≠ [] := by
    intro hnil
    apply hhead
    rw [h.linked.head, hnil]
    rfl
  have hlist : xs ++ p :: ys ++ U = xs ++ p :: (ys ++ U) := by simp
  have hmoved := Links.Linked.moveToFront (hlist ▸ h.linked) hxs
  rw [herase]
  refine ⟨by simpa using hmoved, ?_, ?_, h.free, h.pos⟩
  · have hmiddle : (xs ++ p :: ys).Perm (p :: (xs ++ ys)) := List.perm_middle
    exact (hmiddle.symm.append_right U).trans h.visits
  · intro q hq
    apply h.allocated q
    simp only [List.mem_cons, List.mem_append] at hq ⊢
    tauto

theorem Listed.erase_head (h : Listed c A U) {p : Nat} (hp : p ∈ A)
    (hhead : c.links.list.next = some p) : p :: A.erase p = A := by
  cases A with
  | nil => simp at hp
  | cons q A =>
      have hq : q = p := by simpa [h.linked.head] using hhead
      rw [hq, List.erase_cons_head]

/-! ## The victim scan -/

/-- Where the entry to reuse stands: it is the last allocated one of a full cache,
or the first unallocated one. -/
def VictimAt (A U A' : List Nat) (p : Nat) (U' : List Nat) : Prop :=
  A = A' ++ [p] ∧ U = [] ∧ U' = [] ∨ A = A' ∧ U = p :: U'

theorem victimLoop_spec {F G : List Nat} {q : Nat} (fuel : Nat)
    (hlinked : c.links.Linked (A ++ F ++ q :: G))
    (hA : ∀ a ∈ A, c.unallocated a = false) (hF : ∀ f ∈ F, c.unallocated f = true)
    (hq : c.unallocated q = true) (hfuel : F.length ≤ fuel) :
    some (RwState.victimLoop c fuel q) = (F ++ [q]).head? := by
  have hprev := hlinked.prev_eq
  induction F using List.reverseRecOn generalizing q G fuel with
  | nil =>
      cases fuel with
      | zero => rfl
      | succ fuel =>
          rw [RwState.victimLoop, hprev]
          cases hlast : (A ++ []).getLast? with
          | none => simp
          | some a =>
              have ha : a ∈ A := by simpa using List.mem_of_getLast? hlast
              simp [hA a ha]
  | append_singleton F f ih =>
      cases fuel with
      | zero => simp at hfuel
      | succ fuel =>
          have hf := hF f (by simp)
          rw [RwState.victimLoop, hprev]
          simp only [List.append_assoc, List.getLast?_append, List.getLast?_singleton,
            Option.some_or, hq, hf, Bool.and_self, if_true]
          have hlist : A ++ (F ++ [f]) ++ q :: G = A ++ F ++ f :: q :: G := by simp
          rw [ih fuel (hlist ▸ hlinked) (fun x hx => hF x (by simp [hx])) hf
            (by simpa using hfuel) ((hlist ▸ hlinked).prev_eq)]
          cases F <;> simp

theorem Listed.victim_spec (h : Listed c A U) :
    ∃ A' p U', RwState.victim c = some p ∧ VictimAt A U A' p U' := by
  have hlen := h.length_eq
  have halloc : ∀ a ∈ A, c.unallocated a = false := by
    intro a ha
    simpa [DvmDiscCache.unallocated] using Nat.ne_of_lt (h.allocated a ha)
  have hfree : ∀ u ∈ U, c.unallocated u = true := by
    intro u hu
    simpa [DvmDiscCache.unallocated] using h.free u hu
  rcases List.eq_nil_or_concat U with hU | ⟨F, q, hU⟩
  · -- no free entry: the scan stops at the tail at once
    have hA : A ≠ [] := by
      intro hnil
      have hpos := h.pos
      simp only [hnil, hU, List.append_nil, List.length_nil] at hlen
      omega
    obtain ⟨A', p, rfl⟩ := (List.eq_nil_or_concat A).resolve_left hA
    have hp : c.unallocated p = false := halloc p (by simp)
    refine ⟨A', p, [], ?_, .inl ⟨by simp, hU, rfl⟩⟩
    rw [RwState.victim, h.linked.tail, hU]
    simp only [List.append_nil, List.concat_eq_append, List.getLast?_append,
      List.getLast?_singleton, Option.some_or, Option.map_some, Option.some.injEq]
    cases c.numPages with
    | zero => rfl
    | succ n => cases hprev : (c.links.link p).prev <;> simp [RwState.victimLoop, hprev, hp]
  · subst hU
    have hlast : c.links.list.prev = some q := by rw [h.linked.tail]; simp
    have hq := hfree q (by simp)
    have hscan := victimLoop_spec (A := A) (F := F) (G := []) c.numPages (by simpa using h.linked)
      halloc (fun f hf => hfree f (by simp [hf])) hq
      (by simp at hlen; omega)
    cases F with
    | nil =>
        refine ⟨A, q, [], ?_, .inr ⟨rfl, rfl⟩⟩
        rw [RwState.victim, hlast]
        simpa using hscan
    | cons u F =>
        refine ⟨A, u, F ++ [q], ?_, .inr ⟨rfl, by simp⟩⟩
        rw [RwState.victim, hlast]
        simpa using hscan

end LibDvm.Cache
