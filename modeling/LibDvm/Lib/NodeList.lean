import Mathlib.Data.List.Basic
import Mathlib.Data.List.Induction
import Mathlib.Data.List.Nodup

/-! # Doubly linked lists over an index type

A header and one node for each index hold nullable links. `Segment` reads a
stretch of nodes in both directions at once, `Linked` closes it with the header,
and the two walks are proved to visit a linked list in opposite orders. The one
mutation is the splice that moves a node to the front.
-/

namespace LibDvm.NodeList

variable {ι : Type}

/-- A pair of nullable links; in the header `next` is the head and `prev` the tail. -/
@[ext] structure Node (ι : Type) where
  next : Option ι
  prev : Option ι

structure Links (ι : Type) where
  list : Node ι
  link : ι → Node ι

/-! ## Walking -/

/-- Follow `step` from a nullable link, at most `fuel` nodes. -/
def walk (step : ι → Option ι) : Nat → Option ι → List ι
  | 0, _ => []
  | _ + 1, none => []
  | fuel + 1, some x => x :: walk step fuel (step x)

def Links.forward (s : Links ι) (fuel : Nat) : List ι :=
  walk (fun x => (s.link x).next) fuel s.list.next

def Links.backward (s : Links ι) (fuel : Nat) : List ι :=
  walk (fun x => (s.link x).prev) fuel s.list.prev

/-! ## Linked segments -/

/-- The nodes of `xs` are chained both ways, `before` precedes the first of them
and `after` follows the last. -/
def Links.Segment (s : Links ι) : Option ι → List ι → Option ι → Prop
  | _, [], _ => True
  | before, x :: xs, after =>
      (s.link x).prev = before ∧ (s.link x).next = xs.head?.or after ∧
        s.Segment (some x) xs after

structure Links.Linked (s : Links ι) (xs : List ι) : Prop where
  head : s.list.next = xs.head?
  tail : s.list.prev = xs.getLast?
  nodup : xs.Nodup
  segment : s.Segment none xs none

@[simp] theorem segment_nil (s : Links ι) (before after : Option ι) :
    s.Segment before [] after := trivial

theorem segment_append (s : Links ι) (before after : Option ι) (xs ys : List ι) :
    s.Segment before (xs ++ ys) after ↔
      s.Segment before xs (ys.head?.or after) ∧
        s.Segment (xs.getLast?.or before) ys after := by
  induction xs generalizing before with
  | nil => simp
  | cons x xs ih =>
      have hlast : (x :: xs).getLast?.or before = xs.getLast?.or (some x) := by
        cases xs with
        | nil => simp
        | cons y xs => simp [List.getLast?_cons]
      have hhead : (xs ++ ys).head?.or after = xs.head?.or (ys.head?.or after) := by
        cases xs <;> simp
      simp only [List.cons_append, Links.Segment, ih, hlast, hhead, and_assoc]

theorem Links.Segment.relink {s t : Links ι} {before after before' after' : Option ι}
    {xs : List ι} (h : s.Segment before xs after)
    (hprev : ∀ x ∈ xs.tail, (t.link x).prev = (s.link x).prev)
    (hnext : ∀ x ∈ xs.dropLast, (t.link x).next = (s.link x).next)
    (hfirst : ∀ x, xs.head? = some x → (t.link x).prev = before')
    (hlast : ∀ x, xs.getLast? = some x → (t.link x).next = after') :
    t.Segment before' xs after' := by
  induction xs generalizing before before' with
  | nil => trivial
  | cons x xs ih =>
      obtain ⟨_, hn, hrest⟩ := h
      refine ⟨hfirst x rfl, ?_, ?_⟩
      · cases xs with
        | nil => simpa using hlast x rfl
        | cons y ys => rw [hnext x (by simp), hn]; rfl
      · cases xs with
        | nil => trivial
        | cons y ys =>
            refine ih hrest (fun z hz => hprev z (List.mem_cons_of_mem y hz)) ?_ ?_ ?_
            · intro z hz
              exact hnext z (by rw [List.dropLast_cons_cons]; exact List.mem_cons_of_mem _ hz)
            · intro z hz
              cases hz
              rw [hprev y (by simp)]
              exact hrest.1
            · intro z hz
              exact hlast z (by simpa [List.getLast?_cons_cons] using hz)

/-! ## The two walks of a linked list -/

theorem segment_walk_next {s : Links ι} {before : Option ι} {xs : List ι} {fuel : Nat}
    (h : s.Segment before xs none) (hfuel : xs.length ≤ fuel) :
    walk (fun x => (s.link x).next) fuel xs.head? = xs := by
  induction xs generalizing before fuel with
  | nil => cases fuel <;> rfl
  | cons x xs ih =>
      cases fuel with
      | zero => simp at hfuel
      | succ fuel =>
          obtain ⟨_, hn, hrest⟩ := h
          simp only [List.head?_cons, walk, hn, Option.or_none]
          rw [ih hrest (by simpa using hfuel)]

theorem segment_walk_prev {s : Links ι} {after : Option ι} {xs : List ι} {fuel : Nat}
    (h : s.Segment none xs after) (hfuel : xs.length ≤ fuel) :
    walk (fun x => (s.link x).prev) fuel xs.getLast? = xs.reverse := by
  induction xs using List.reverseRecOn generalizing after fuel with
  | nil => cases fuel <;> rfl
  | append_singleton xs x ih =>
      cases fuel with
      | zero => simp at hfuel
      | succ fuel =>
          obtain ⟨hfront, hp, _, _⟩ := (segment_append s none after xs [x]).mp h
          simp only [List.getLast?_append, List.getLast?_singleton, Option.some_or, walk, hp,
            Option.or_none, List.reverse_append, List.reverse_singleton, List.singleton_append]
          rw [ih hfront (by simpa using hfuel)]

theorem Links.Linked.forward {s : Links ι} {xs : List ι} (h : s.Linked xs) {fuel : Nat}
    (hfuel : xs.length ≤ fuel) : s.forward fuel = xs := by
  rw [Links.forward, h.head]
  exact segment_walk_next h.segment hfuel

theorem Links.Linked.backward {s : Links ι} {xs : List ι} (h : s.Linked xs) {fuel : Nat}
    (hfuel : xs.length ≤ fuel) : s.backward fuel = xs.reverse := by
  rw [Links.backward, h.tail]
  exact segment_walk_prev h.segment hfuel

theorem Links.Linked.prev_eq {s : Links ι} {xs ys : List ι} {x : ι}
    (h : s.Linked (xs ++ x :: ys)) : (s.link x).prev = xs.getLast? := by
  have hx := ((segment_append s none none xs (x :: ys)).mp h.segment).2.1
  simpa using hx

/-! ## Moving a node to the front -/

section Splice

variable [DecidableEq ι]

def Links.setNext (s : Links ι) (x : ι) (v : Option ι) : Links ι :=
  { s with link := fun i => if i = x then { s.link i with next := v } else s.link i }

def Links.setPrev (s : Links ι) (x : ι) (v : Option ι) : Links ι :=
  { s with link := fun i => if i = x then { s.link i with prev := v } else s.link i }

@[simp] theorem setNext_next (s : Links ι) (x i : ι) (v : Option ι) :
    ((s.setNext x v).link i).next = if i = x then v else (s.link i).next := by
  by_cases hi : i = x <;> simp [Links.setNext, hi]

@[simp] theorem setNext_prev (s : Links ι) (x i : ι) (v : Option ι) :
    ((s.setNext x v).link i).prev = (s.link i).prev := by
  by_cases hi : i = x <;> simp [Links.setNext, hi]

@[simp] theorem setPrev_prev (s : Links ι) (x i : ι) (v : Option ι) :
    ((s.setPrev x v).link i).prev = if i = x then v else (s.link i).prev := by
  by_cases hi : i = x <;> simp [Links.setPrev, hi]

@[simp] theorem setPrev_next (s : Links ι) (x i : ι) (v : Option ι) :
    ((s.setPrev x v).link i).next = (s.link i).next := by
  by_cases hi : i = x <;> simp [Links.setPrev, hi]

@[simp] theorem setNext_list (s : Links ι) (x : ι) (v : Option ι) :
    (s.setNext x v).list = s.list := rfl

@[simp] theorem setPrev_list (s : Links ι) (x : ι) (v : Option ι) :
    (s.setPrev x v).list = s.list := rfl

/-- Unlink `p` and relink it at the head. It runs on a node that is not the head,
so the two `none` arms without effect stand for null dereferences that a linked
list rules out. -/
def Links.moveToFront (s : Links ι) (p : ι) : Links ι :=
  let s := match (s.link p).prev with
    | some q => s.setNext q (s.link p).next
    | none => s
  let s := match (s.link p).next with
    | some r => s.setPrev r (s.link p).prev
    | none => { s with list := { s.list with prev := (s.link p).prev } }
  let s := s.setNext p s.list.next
  let s := match (s.link p).next with
    | some h => s.setPrev h (some p)
    | none => s
  let s := s.setPrev p none
  { s with list := { s.list with next := some p } }

section MovedNode

variable {s : Links ι} {p q h : ι}

theorem moveToFront_self (hq : (s.link p).prev = some q) (hh : s.list.next = some h)
    (hpq : p ≠ q) :
    (s.moveToFront p).link p = ⟨some h, none⟩ := by
  cases hn : (s.link p).next with
  | none => ext1 <;> simp [Links.moveToFront, hq, hn, hh, hpq]
  | some r => ext1 <;> simp [Links.moveToFront, hq, hn, hh, hpq]

theorem moveToFront_next (hq : (s.link p).prev = some q) (hh : s.list.next = some h)
    (hpq : p ≠ q) {i : ι} (hip : i ≠ p) :
    ((s.moveToFront p).link i).next = if i = q then (s.link p).next else (s.link i).next := by
  cases hn : (s.link p).next <;> simp [Links.moveToFront, hq, hn, hh, hpq, hip]

theorem moveToFront_prev (hq : (s.link p).prev = some q) (hh : s.list.next = some h)
    (hpq : p ≠ q) {i : ι} (hip : i ≠ p) :
    ((s.moveToFront p).link i).prev =
      if i = h then some p else if (s.link p).next = some i then some q else (s.link i).prev := by
  cases hn : (s.link p).next with
  | none => simp [Links.moveToFront, hq, hn, hh, hpq, hip]
  | some r =>
      have hcomm : (r = i) = (i = r) := propext eq_comm
      simp [Links.moveToFront, hq, hn, hh, hpq, hip, hcomm]

theorem moveToFront_list_prev (hq : (s.link p).prev = some q) (hh : s.list.next = some h)
    (hpq : p ≠ q) :
    (s.moveToFront p).list.prev = if (s.link p).next = none then some q else s.list.prev := by
  cases hn : (s.link p).next <;> simp [Links.moveToFront, hq, hn, hh, hpq]

end MovedNode

/-- Moving a node that is not the head to the front of its list. -/
theorem Links.Linked.moveToFront {s : Links ι} {xs ys : List ι} {p : ι}
    (hs : s.Linked (xs ++ p :: ys)) (hxs : xs ≠ []) :
    (s.moveToFront p).Linked (p :: (xs ++ ys)) := by
  obtain ⟨h, xs', hcons⟩ := List.exists_cons_of_ne_nil hxs
  obtain ⟨q, hq⟩ := Option.ne_none_iff_exists'.mp (mt List.getLast?_eq_none_iff.mp hxs)
  have hqmem : q ∈ xs := List.mem_of_getLast? hq
  have hhead : xs.head? = some h := by rw [hcons]; rfl
  have hnodup := List.nodup_append.mp hs.nodup
  have hpys : p ∉ ys := (List.nodup_cons.mp hnodup.2.1).1
  have hpxs : p ∉ xs := fun hm => hnodup.2.2 p hm p (by simp) rfl
  have hdisj : ∀ x ∈ xs, x ∉ ys := fun x hx hy =>
    hnodup.2.2 x hx x (List.mem_cons_of_mem p hy) rfl
  have hpq : p ≠ q := fun e => hpxs (e ▸ hqmem)
  have hhm : h ∈ xs := List.mem_of_mem_head? hhead
  have hnextp : s.list.next = some h := by rw [hs.head]; simp [hhead]
  obtain ⟨hfront, hprevp, hnp, hback⟩ := (segment_append s none none xs (p :: ys)).mp hs.segment
  have hprev : (s.link p).prev = some q := by simpa [hq] using hprevp
  have hnext : (s.link p).next = ys.head? := by simpa using hnp
  have hne : ∀ x ∈ xs ++ ys, x ≠ p := by
    intro x hx e
    rcases List.mem_append.mp hx with hm | hm
    · exact hpxs (e ▸ hm)
    · exact hpys (e ▸ hm)
  refine ⟨rfl, ?_, ?_, ?_⟩
  · rw [moveToFront_list_prev hprev hnextp hpq, hnext, hs.tail]
    cases ys with
    | nil => simp [hq, List.getLast?_cons]
    | cons y ys => simp [List.getLast?_cons]
  · refine List.nodup_cons.mpr ⟨?_, ?_⟩
    · simp [hpxs, hpys]
    · exact hs.nodup.sublist (List.Sublist.append_left (List.sublist_cons_self p ys) xs)
  · have hself := moveToFront_self hprev hnextp hpq
    refine ⟨by rw [hself], by rw [hself]; simp [hhead], ?_⟩
    refine (segment_append _ _ _ xs ys).mpr ⟨?_, ?_⟩
    · -- in front of `p` only the old head and `q` get a new neighbour
      refine hfront.relink ?_ ?_ ?_ ?_
      · intro x hx
        have hxm := List.mem_of_mem_tail hx
        rw [moveToFront_prev hprev hnextp hpq (hne x (by simp [hxm])), if_neg, if_neg]
        · rw [hnext]
          exact fun e => hdisj x hxm (List.mem_of_mem_head? e)
        · rintro rfl
          rw [hcons] at hx hnodup
          exact (List.nodup_cons.mp hnodup.1).1 hx
      · intro x hx
        have hxm := (List.dropLast_sublist xs).mem hx
        rw [moveToFront_next hprev hnextp hpq (hne x (by simp [hxm])), if_neg]
        rintro rfl
        obtain ⟨zs, rfl⟩ := List.getLast?_eq_some_iff.mp hq
        rw [List.dropLast_concat] at hx
        exact (List.nodup_append.mp hnodup.1).2.2 x hx x (by simp) rfl
      · intro x hx
        obtain rfl : h = x := by simpa [hhead] using hx
        rw [moveToFront_prev hprev hnextp hpq (hne h (by simp [hhm])), if_pos rfl]
      · intro x hx
        obtain rfl : q = x := by simpa [hq] using hx
        rw [moveToFront_next hprev hnextp hpq hpq.symm, if_pos rfl, hnext]
        simp
    · -- behind `p` only the first node does
      refine hback.relink ?_ ?_ ?_ ?_
      · intro x hx
        have hxm := List.mem_of_mem_tail hx
        rw [moveToFront_prev hprev hnextp hpq (hne x (by simp [hxm])), if_neg, if_neg]
        · rw [hnext]
          intro e
          cases ys with
          | nil => simp at hx
          | cons y ys =>
              obtain rfl : y = x := by simpa using e
              exact (List.nodup_cons.mp (List.nodup_cons.mp hnodup.2.1).2).1 hx
        · rintro rfl
          exact hdisj x hhm hxm
      · intro x hx
        have hxm := (List.dropLast_sublist ys).mem hx
        rw [moveToFront_next hprev hnextp hpq (hne x (by simp [hxm])), if_neg]
        rintro rfl
        exact hdisj x hqmem hxm
      · intro x hx
        have hxm := List.mem_of_mem_head? hx
        rw [moveToFront_prev hprev hnextp hpq (hne x (by simp [hxm])), if_neg, if_pos]
        · simp [hq]
        · rw [hnext, hx]
        · rintro rfl
          exact hdisj x hhm hxm
      · intro x hx
        have hxm := List.mem_of_getLast? hx
        rw [moveToFront_next hprev hnextp hpq (hne x (by simp [hxm])), if_neg]
        · obtain ⟨zs, rfl⟩ := List.getLast?_eq_some_iff.mp hx
          have hx' := ((segment_append s (some p) none zs [x]).mp hback).2.2.1
          simpa using hx'
        · rintro rfl
          exact hdisj x hqmem hxm

end Splice

end LibDvm.NodeList
