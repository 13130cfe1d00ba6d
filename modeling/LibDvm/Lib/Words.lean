import Mathlib.Algebra.Order.Ring.Nat

/-! # Words in memory

Loads of 16-bit and 32-bit words in the byte order of the host, the byte swaps, and
the fact that a load followed by the swap a big-endian host needs is the
little-endian reading on every host.
-/

namespace LibDvm.Words

inductive ByteOrder where
  | little
  | big
deriving DecidableEq

variable (order : ByteOrder) (mem : Nat → UInt8) (at_ : Nat)

/-! ## Host loads -/

def byte : Nat := (mem at_).toNat

def load16 : Nat :=
  match order with
  | .little => byte mem at_ + byte mem (at_ + 1) * 2 ^ 8
  | .big => byte mem at_ * 2 ^ 8 + byte mem (at_ + 1)

def load32 : Nat :=
  match order with
  | .little => byte mem at_ + byte mem (at_ + 1) * 2 ^ 8 + byte mem (at_ + 2) * 2 ^ 16 +
      byte mem (at_ + 3) * 2 ^ 24
  | .big => byte mem at_ * 2 ^ 24 + byte mem (at_ + 1) * 2 ^ 16 + byte mem (at_ + 2) * 2 ^ 8 +
      byte mem (at_ + 3)

/-! ## Byte swaps -/

def bswap16 (x : Nat) : Nat := x % 2 ^ 8 * 2 ^ 8 + x / 2 ^ 8 % 2 ^ 8

def bswap32 (x : Nat) : Nat :=
  x % 2 ^ 8 * 2 ^ 24 + x / 2 ^ 8 % 2 ^ 8 * 2 ^ 16 + x / 2 ^ 16 % 2 ^ 8 * 2 ^ 8 +
    x / 2 ^ 24 % 2 ^ 8

/-- `le16`: the identity on a little-endian host. -/
def le16 (x : Nat) : Nat :=
  match order with
  | .little => x
  | .big => bswap16 x

/-- `le32`: the identity on a little-endian host. -/
def le32 (x : Nat) : Nat :=
  match order with
  | .little => x
  | .big => bswap32 x

/-! ## The reading does not depend on the host -/

theorem byte_lt : byte mem at_ < 2 ^ 8 := (mem at_).toNat_lt

theorem le16_load16 :
    le16 order (load16 order mem at_) = byte mem at_ + byte mem (at_ + 1) * 2 ^ 8 := by
  have h0 := byte_lt mem at_
  have h1 := byte_lt mem (at_ + 1)
  cases order with
  | little => rfl
  | big =>
      simp only [le16, load16, bswap16]
      omega

theorem le32_load32 :
    le32 order (load32 order mem at_) =
      byte mem at_ + byte mem (at_ + 1) * 2 ^ 8 + byte mem (at_ + 2) * 2 ^ 16 +
        byte mem (at_ + 3) * 2 ^ 24 := by
  have h0 := byte_lt mem at_
  have h1 := byte_lt mem (at_ + 1)
  have h2 := byte_lt mem (at_ + 2)
  have h3 := byte_lt mem (at_ + 3)
  cases order with
  | little => rfl
  | big =>
      simp only [le32, load32, bswap32]
      omega

theorem le32_load32_lt : le32 order (load32 order mem at_) < 2 ^ 32 := by
  have h0 := byte_lt mem at_
  have h1 := byte_lt mem (at_ + 1)
  have h2 := byte_lt mem (at_ + 2)
  have h3 := byte_lt mem (at_ + 3)
  rw [le32_load32]
  omega

/-! ## Fields of a word -/

theorem shiftLeft_or (high : Nat) {low k : Nat} (h : low < 2 ^ k) :
    high <<< k ||| low = high * 2 ^ k + low := by
  rw [← Nat.shiftLeft_add_eq_or_of_lt h, Nat.shiftLeft_eq]

/-- The lowest `k` bits of what is left of a word after its first `i`. -/
theorem field_eq (n i k : Nat) : (n >>> i) &&& (2 ^ k - 1) = n / 2 ^ i % 2 ^ k := by
  rw [Nat.and_two_pow_sub_one_eq_mod, Nat.shiftRight_eq_div_pow]

/-- The usual test for a power of two takes a zero for one. -/
theorem and_pred_eq_zero_iff (n : Nat) : n &&& (n - 1) = 0 ↔ n = 0 ∨ n.isPowerOfTwo := by
  by_cases hzero : n = 0
  · simp [hzero]
  · rw [Nat.and_sub_one_eq_zero_iff_isPowerOfTwo hzero]
    simp [hzero]

end LibDvm.Words
