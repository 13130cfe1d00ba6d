import LibDvm.Lib.Align

/-! # Ranges on a grid of blocks

How many blocks a range of cells meets, and how many of its two ends lie inside a block.
Both shrink by what is cut off the front of the range up to the end of a block.
-/

namespace LibDvm.Align

/-- The blocks of size `size` that the `n` cells from `s` on meet. -/
def blocks (size s n : Nat) : Nat := if n = 0 then 0 else (s + n - 1) / size - s / size + 1

def edges (size s n : Nat) : Nat :=
  if n = 0 then 0
  else (if s % size = 0 then 0 else 1) + (if (s + n) % size = 0 then 0 else 1)

variable {size s n m : Nat}

theorem blocks_pos (hn : 0 < n) : 0 < blocks size s n := by
  rw [blocks, if_neg (by omega)]
  omega

@[simp] theorem edges_zero (size s : Nat) : edges size s 0 = 0 := rfl

theorem edges_of_pos (hn : 0 < n) (size s : Nat) :
    edges size s n =
      (if s % size = 0 then 0 else 1) + (if (s + n) % size = 0 then 0 else 1) :=
  if_neg (by omega)

theorem blocks_cut (hsize : 0 < size) (hm : 0 < m) (hmn : m ≤ n) (hend : m < n → size ∣ s + m) :
    blocks size (s + m) (n - m) + 1 ≤ blocks size s n := by
  by_cases hall : m = n
  · subst hall
    rw [Nat.sub_self, blocks, if_pos rfl]
    exact blocks_pos hm
  · have hlt : m < n := by omega
    obtain ⟨q, hq⟩ := hend hlt
    have hfirst : s / size < q := by
      rw [Nat.div_lt_iff_lt_mul hsize, Nat.mul_comm, ← hq]
      omega
    have hnext : (s + m) / size = q := by rw [hq, Nat.mul_div_cancel_left q hsize]
    have hlast : q ≤ (s + n - 1) / size := by
      rw [← hnext]
      exact Nat.div_le_div_right (by omega)
    rw [blocks, blocks, if_neg (by omega), if_neg (by omega), hnext,
      show s + m + (n - m) - 1 = s + n - 1 by omega]
    omega

theorem edges_cut (hm : 0 < m) (hmn : m ≤ n) (hend : m < n → size ∣ s + m) :
    edges size (s + m) (n - m) + (if s % size = 0 ∧ size ∣ s + m then 0 else 1) ≤
      edges size s n := by
  by_cases hall : m = n
  · subst hall
    rw [Nat.sub_self, edges_zero, edges_of_pos hm]
    simp only [Nat.dvd_iff_mod_eq_zero]
    by_cases hs : s % size = 0 <;> by_cases he : (s + m) % size = 0 <;> simp [hs, he]
  · have hdvd : size ∣ s + m := hend (by omega)
    rw [edges_of_pos (by omega), edges_of_pos (by omega),
      if_pos (Nat.dvd_iff_mod_eq_zero.mp hdvd), show s + m + (n - m) = s + n by omega]
    by_cases hs : s % size = 0
    · simp [hs, hdvd]
    · simp only [hs, false_and, if_false]
      omega

end LibDvm.Align
