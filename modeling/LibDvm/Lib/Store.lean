import Mathlib.Data.List.Basic

/-! # Flat stores and block copies

A store is a function from addresses to cells. `blit` copies a block between two
stores.
-/

namespace LibDvm.Store

variable {α : Type}

/-! ## Block copies -/

/-- Copy `n` cells of `src` from `s` over the cells of `dst` from `d`. -/
def blit (dst : Nat → α) (d : Nat) (src : Nat → α) (s n : Nat) : Nat → α :=
  fun i => if d ≤ i ∧ i < d + n then src (s + (i - d)) else dst i

theorem blit_inside {dst src : Nat → α} {d s n i : Nat} (hd : d ≤ i) (hn : i < d + n) :
    blit dst d src s n i = src (s + (i - d)) := if_pos ⟨hd, hn⟩

theorem blit_outside {dst src : Nat → α} {d s n i : Nat} (hi : i < d ∨ d + n ≤ i) :
    blit dst d src s n i = dst i := if_neg (by omega)

@[simp] theorem blit_offset (dst src : Nat → α) (d s : Nat) {n k : Nat} (hk : k < n) :
    blit dst d src s n (d + k) = src (s + k) := by
  rw [blit_inside (Nat.le_add_right d k) (by omega), Nat.add_sub_cancel_left]

@[simp] theorem blit_zero (dst src : Nat → α) (d s : Nat) : blit dst d src s 0 = dst := by
  funext i
  exact blit_outside (by omega)

theorem eq_blit {f dst src : Nat → α} {d s n : Nat} (hin : ∀ k < n, f (d + k) = src (s + k))
    (hout : ∀ i, i < d ∨ d + n ≤ i → f i = dst i) : f = blit dst d src s n := by
  funext i
  by_cases hi : d ≤ i ∧ i < d + n
  · obtain ⟨k, rfl⟩ := Nat.exists_eq_add_of_le hi.1
    rw [hin k (by omega), blit_offset dst src d s (by omega)]
  · rw [hout i (by omega), blit_outside (by omega)]

theorem blit_congr {dst src src' : Nat → α} {d s n : Nat}
    (h : ∀ k < n, src (s + k) = src' (s + k)) : blit dst d src s n = blit dst d src' s n := by
  apply eq_blit
  · intro k hk
    rw [blit_offset dst src d s hk, h k hk]
  · intro i hi
    exact blit_outside hi

theorem blit_append (dst src : Nat → α) (d s m n : Nat) :
    blit (blit dst d src s m) (d + m) src (s + m) n = blit dst d src s (m + n) := by
  funext i
  by_cases hm : d + m ≤ i
  · by_cases hn : i < d + m + n
    · rw [blit_inside hm hn, blit_inside (by omega) (by omega)]
      congr 1
      omega
    · rw [blit_outside (by omega), blit_outside (by omega), blit_outside (by omega)]
  · rw [blit_outside (by omega)]
    by_cases hd : d ≤ i
    · rw [blit_inside hd (by omega), blit_inside hd (by omega)]
    · rw [blit_outside (by omega), blit_outside (by omega)]

end LibDvm.Store
