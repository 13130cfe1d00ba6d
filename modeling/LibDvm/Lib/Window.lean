import LibDvm.Lib.Store
import Mathlib.Logic.Function.Basic

/-! # Windows of one store

Several clients each own a range of the cells of one store and count them from zero.
While the ranges do not overlap, the store serves every client as an array of its own.
-/

namespace LibDvm

open Store

variable {α κ : Type}

/-- The cells from `start` on, `size` of them. -/
structure Window where
  start : Nat
  size : Nat

namespace Window

def Apart (w v : Window) : Prop := w.start + w.size ≤ v.start ∨ v.start + v.size ≤ w.start

instance (w v : Window) : Decidable (w.Apart v) := inferInstanceAs (Decidable (_ ∨ _))

/-- What the window shows of the store is the array `g`. -/
def Shows (w : Window) (f g : Nat → α) : Prop := ∀ k < w.size, f (w.start + k) = g k

variable {w v : Window} {f g : Nat → α}

theorem Shows.read (h : w.Shows f g) {d n : Nat} (hin : d + n ≤ w.size) :
    (List.range n).map (fun k => f (w.start + d + k)) =
      (List.range n).map fun k => g (d + k) := by
  apply List.map_congr_left
  intro k hk
  rw [List.mem_range] at hk
  rw [Nat.add_assoc, h (d + k) (by omega)]

theorem Shows.write (h : w.Shows f g) (d : Nat) (src : Nat → α) (s n : Nat) :
    w.Shows (blit f (w.start + d) src s n) (blit g d src s n) := by
  intro k hk
  by_cases hin : d ≤ k ∧ k < d + n
  · obtain ⟨j, rfl⟩ := Nat.exists_eq_add_of_le hin.1
    rw [← Nat.add_assoc, blit_offset _ _ _ _ (by omega), blit_offset _ _ _ _ (by omega)]
  · rw [blit_outside (by omega), blit_outside (by omega), h k hk]

theorem Shows.write_apart (h : w.Shows f g) (hapart : w.Apart v) {d n : Nat}
    (hin : d + n ≤ v.size) (src : Nat → α) (s : Nat) :
    w.Shows (blit f (v.start + d) src s n) g := by
  intro k hk
  rw [Apart] at hapart
  rw [blit_outside (by omega), h k hk]

/-- A write through one of several windows changes what this one shows, and no other. -/
theorem shows_update [DecidableEq κ] {windows : κ → Window} {arrays : κ → Nat → α}
    (hapart : ∀ i j, i ≠ j → (windows i).Apart (windows j))
    (h : ∀ i, (windows i).Shows f (arrays i)) (j : κ) {d n : Nat}
    (hin : d + n ≤ (windows j).size) (src : Nat → α) (s : Nat) (i : κ) :
    (windows i).Shows (blit f ((windows j).start + d) src s n)
      (Function.update arrays j (blit (arrays j) d src s n) i) := by
  by_cases hij : i = j
  · subst hij
    rw [Function.update_self]
    exact (h i).write d src s n
  · rw [Function.update_of_ne hij]
    exact (h i).write_apart (hapart i j hij) hin src s

end Window

end LibDvm
