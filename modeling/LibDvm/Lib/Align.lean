import Mathlib.Data.Nat.Bits
import Mathlib.Algebra.Order.Ring.Nat

/-! # Aligned blocks of a power-of-two grid

Rounding an address down to its block, the two masks that compute it on
fixed-width words, and the fact that distinct aligned blocks do not meet.
-/

namespace LibDvm.Align

/-- The start of the block of size `size` that holds `s`. -/
def down (size s : Nat) : Nat := s - s % size

theorem down_le (size s : Nat) : down size s ≤ s := Nat.sub_le _ _

theorem down_add_mod (size s : Nat) : down size s + s % size = s :=
  Nat.sub_add_cancel (Nat.mod_le s size)

theorem dvd_down (size s : Nat) : size ∣ down size s := Nat.dvd_sub_mod s

theorem lt_down_add {size : Nat} (hsize : 0 < size) (s : Nat) : s < down size s + size := by
  have hmod := Nat.mod_lt s hsize
  have hsum := down_add_mod size s
  omega

theorem add_le_of_lt {size a b : Nat} (ha : size ∣ a) (hb : size ∣ b) (hab : a < b) :
    a + size ≤ b := by
  have hle := Nat.le_of_dvd (Nat.sub_pos_of_lt hab) (Nat.dvd_sub hb ha)
  omega

theorem eq_of_overlap {size a b s : Nat} (ha : size ∣ a) (hb : size ∣ b)
    (has : a ≤ s ∧ s < a + size) (hbs : b ≤ s ∧ s < b + size) : a = b := by
  rcases Nat.lt_trichotomy a b with hlt | heq | hgt
  · have hle := add_le_of_lt ha hb hlt
    omega
  · exact heq
  · have hle := add_le_of_lt hb ha hgt
    omega

theorem down_eq_of_mem {size a s : Nat} (ha : size ∣ a) (hs : a ≤ s ∧ s < a + size) :
    down size s = a :=
  eq_of_overlap (dvd_down size s) ha
    ⟨down_le size s, lt_down_add (by omega) s⟩ hs

theorem down_eq_self {size a : Nat} (hsize : 0 < size) (ha : size ∣ a) : down size a = a :=
  down_eq_of_mem ha ⟨Nat.le_refl a, by omega⟩

theorem down_add_self {size s : Nat} (hsize : 0 < size) :
    down size (down size s + size) = down size s + size :=
  down_eq_self hsize ((Nat.dvd_add_right (dvd_down size s)).mpr (Nat.dvd_refl size))

/-! ## Masks -/

theorem and_low_mask (s shift : Nat) : s &&& (2 ^ shift - 1) = s % 2 ^ shift :=
  Nat.and_two_pow_sub_one_eq_mod s shift

/-- Clearing the low bits of a `width`-bit word rounds it down. -/
theorem and_high_mask {s shift width : Nat} (hs : s < 2 ^ width) (hshift : shift ≤ width) :
    s &&& (2 ^ width - 1 - (2 ^ shift - 1)) = down (2 ^ shift) s := by
  have hmask : 2 ^ width - 1 - (2 ^ shift - 1) = (2 ^ (width - shift) - 1) <<< shift := by
    have hpow : 2 ^ width = 2 ^ (width - shift) * 2 ^ shift := by
      rw [← Nat.pow_add, Nat.sub_add_cancel hshift]
    have hpos := Nat.two_pow_pos shift
    rw [Nat.shiftLeft_eq, Nat.sub_mul, hpow]
    omega
  have hdown : down (2 ^ shift) s = (s >>> shift) <<< shift := by
    have hdiv := Nat.div_add_mod s (2 ^ shift)
    rw [Nat.shiftLeft_eq, Nat.shiftRight_eq_div_pow, down, Nat.mul_comm]
    omega
  rw [hmask, hdown]
  refine Nat.eq_of_testBit_eq fun i => ?_
  simp only [Nat.testBit_and, Nat.testBit_shiftLeft, Nat.testBit_two_pow_sub_one,
    Nat.testBit_shiftRight]
  by_cases hi : shift ≤ i
  · have hsum : shift + (i - shift) = i := by omega
    by_cases hw : i < width
    · simp [hi, hsum, show i - shift < width - shift by omega]
    · have hbit : s.testBit i = false :=
        Nat.testBit_lt_two_pow (Nat.lt_of_lt_of_le hs (Nat.pow_le_pow_right (by decide) (by omega)))
      simp [hi, hsum, hbit]
  · simp [hi]

/-! ## Slots of a flat array -/

/-- Cell `off` of slot `i` when a flat array is cut into slots of `size` cells. -/
def cell (size i off : Nat) : Nat := i * size + off

theorem cell_outside {size i j a n b : Nat} (hn : a + n ≤ size) (hb : b < size) (hij : i ≠ j) :
    cell size j b < cell size i a ∨ cell size i a + n ≤ cell size j b := by
  unfold cell
  rcases Nat.lt_or_gt_of_ne hij with hlt | hgt
  · have hmul := Nat.mul_le_mul_right size (Nat.succ_le_of_lt hlt)
    rw [Nat.succ_mul] at hmul
    omega
  · have hmul := Nat.mul_le_mul_right size (Nat.succ_le_of_lt hgt)
    rw [Nat.succ_mul] at hmul
    omega

end LibDvm.Align
