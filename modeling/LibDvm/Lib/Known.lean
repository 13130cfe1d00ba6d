import Mathlib.Data.List.Forall2
import Mathlib.Tactic.Common

/-! # Partly known contents

What is known of a list: its length, and some of its items. Overwriting a part makes that
part known, resizing keeps what is known of the rest.
-/

namespace LibDvm.Known

universe u

variable {α : Type u}

def Admits (k : Option α) (a : α) : Prop := k = none ∨ k = some a

instance [DecidableEq α] : DecidableRel (Admits (α := α)) :=
  fun k a => inferInstanceAs (Decidable (k = none ∨ k = some a))

/-- `data` has the length that is known and the items that are known. -/
def Agrees (known : List (Option α)) (data : List α) : Prop := List.Forall₂ Admits known data

instance [DecidableEq α] (known : List (Option α)) (data : List α) :
    Decidable (Agrees known data) :=
  inferInstanceAs (Decidable (List.Forall₂ Admits known data))

/-- What is known of `len` items from `pos` on. -/
def slice (pos len : Nat) (known : List (Option α)) : List (Option α) := (known.drop pos).take len

/-- What is known once `buf` has been put at `pos`. -/
def overwrite (pos : Nat) (buf : List α) (known : List (Option α)) : List (Option α) :=
  known.take pos ++ buf.map some ++ known.drop (pos + buf.length)

/-- What is known once the length has become `n`. -/
def resize (n : Nat) (known : List (Option α)) : List (Option α) :=
  known.take n ++ List.replicate (n - known.length) none

theorem agrees_some (data : List α) : Agrees (data.map some) data := by
  induction data with
  | nil => exact .nil
  | cons a data ih => exact .cons (Or.inr rfl) ih

theorem agrees_none {n : Nat} {data : List α} (h : data.length = n) :
    Agrees (List.replicate n none) data := by
  induction data generalizing n with
  | nil =>
      subst h
      exact .nil
  | cons a data ih =>
      subst h
      exact .cons (Or.inl rfl) (ih rfl)

namespace Agrees

variable {known : List (Option α)} {data data' : List α}

theorem length (h : Agrees known data) : known.length = data.length := List.Forall₂.length_eq h

theorem append {known' : List (Option α)} (h : Agrees known data) (h' : Agrees known' data') :
    Agrees (known ++ known') (data ++ data') := List.rel_append h h'

theorem take (h : Agrees known data) (n : Nat) : Agrees (known.take n) (data.take n) :=
  List.forall₂_take n h

theorem drop (h : Agrees known data) (n : Nat) : Agrees (known.drop n) (data.drop n) :=
  List.forall₂_drop n h

theorem slice (h : Agrees known data) (pos len : Nat) :
    Agrees (slice pos len known) ((data.drop pos).take len) := (h.drop pos).take len

theorem overwrite (h : Agrees known data) (pos : Nat) (buf : List α) :
    Agrees (overwrite pos buf known)
      (data.take pos ++ buf ++ data.drop (pos + buf.length)) :=
  ((h.take pos).append (agrees_some buf)).append (h.drop _)

/-- A list of `n` items with the old ones in front, as far as there is room for them. -/
theorem resize (h : Agrees known data) {n : Nat} (hlen : data'.length = n)
    (hkept : data'.take (min data.length n) = data.take (min data.length n)) :
    Agrees (resize n known) data' := by
  have hsplit : data' = data.take n ++ data'.drop (min data.length n) := by
    conv_lhs => rw [← List.take_append_drop (min data.length n) data', hkept]
    congr 1
    rcases Nat.le_total data.length n with hle | hle
    · rw [Nat.min_eq_left hle, List.take_length, List.take_of_length_le hle]
    · rw [Nat.min_eq_right hle]
  rw [hsplit]
  refine (h.take n).append (agrees_none ?_)
  rw [List.length_drop, h.length, hlen]
  omega

end Agrees

end LibDvm.Known
