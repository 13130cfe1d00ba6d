import Mathlib.Data.List.Dedup
import Mathlib.Data.List.Induction

/-! # Least recently used

A list of bounded length that keeps what was accessed, most recent first: an access
moves its item to the front and drops what no longer fits. After a sequence of
accesses it holds the most recent distinct ones, in order of last access.
-/

namespace LibDvm.Recency

variable {α : Type} [DecidableEq α]

/-- An access to `x` in a list with room for `room` items. -/
def access (room : Nat) (items : List α) (x : α) : List α := (x :: items.erase x).take room

theorem access_nodup (room : Nat) {items : List α} (h : items.Nodup) (x : α) :
    (access room items x).Nodup := by
  have hcons : (x :: items.erase x).Nodup := List.nodup_cons.mpr ⟨h.not_mem_erase, h.erase x⟩
  exact hcons.sublist (List.take_sublist room _)

def recent (accesses : List α) : List α := accesses.dedup.reverse

theorem dedup_append_singleton (accesses : List α) (x : α) :
    (accesses ++ [x]).dedup = accesses.dedup.erase x ++ [x] := by
  induction accesses with
  | nil => simp
  | cons y ys ih =>
      rw [List.cons_append]
      by_cases hold : y ∈ ys
      · rw [List.dedup_cons_of_mem (List.mem_append_left _ hold), List.dedup_cons_of_mem hold, ih]
      · rw [List.dedup_cons_of_notMem hold]
        by_cases hyx : y = x
        · subst hyx
          rw [List.dedup_cons_of_mem (by simp), ih, List.erase_cons_head,
            List.erase_of_not_mem (by simpa using hold)]
        · rw [List.dedup_cons_of_notMem (by simp [hold, hyx]), ih,
            List.erase_cons_tail (by simpa using hyx), List.cons_append]

theorem recent_append_singleton (accesses : List α) (x : α) :
    recent (accesses ++ [x]) = x :: (recent accesses).erase x := by
  have hnodup := List.nodup_dedup accesses
  rw [recent, dedup_append_singleton, List.reverse_append, List.reverse_singleton,
    List.singleton_append, recent, hnodup.erase_eq_filter,
    (List.nodup_reverse.mpr hnodup).erase_eq_filter, List.filter_reverse]

theorem access_take (room : Nat) (items : List α) (x : α) :
    access room (items.take room) x = access room items x := by
  cases room with
  | zero => rfl
  | succ room =>
      simp only [access, List.take_succ_cons]
      congr 1
      induction items generalizing room with
      | nil => simp
      | cons y ys ih =>
          rw [List.take_succ_cons]
          by_cases hyx : y = x
          · subst hyx
            rw [List.erase_cons_head, List.erase_cons_head, List.take_take, Nat.min_self]
          · have hother : ¬ (y == x) = true := by simpa using hyx
            rw [List.erase_cons_tail hother, List.erase_cons_tail hother]
            cases room with
            | zero => rfl
            | succ room => rw [List.take_succ_cons, List.take_succ_cons, ih room]

/-- The accesses of a run leave the most recent distinct items that there is room for. -/
theorem foldl_access (room : Nat) (accesses : List α) :
    accesses.foldl (access room) [] = (recent accesses).take room := by
  induction accesses using List.reverseRecOn with
  | nil => simp [recent]
  | append_singleton accesses x ih =>
      rw [List.foldl_append, ih, List.foldl_cons, List.foldl_nil, access_take,
        recent_append_singleton, access]

end LibDvm.Recency
