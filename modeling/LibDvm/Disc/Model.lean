import Mathlib.Algebra.Order.Ring.Nat
import Mathlib.Tactic.SplitIfs

/-! # Disc objects and platform words

`sec_t` and `unsigned` are 32 bits wide; the geometry fields of a disc are
`uint16_t`. Wherever the code stores or adds in one of these types the wrap is
written out.
-/

namespace LibDvm

/-! ## Words -/

/-- Conversion to `sec_t`, and to `unsigned` on the same targets. -/
def secWrap (n : Nat) : Nat := n % 2 ^ 32

/-- Subtraction of two `sec_t` values. -/
def secSub (a b : Nat) : Nat := (a + 2 ^ 32 - b) % 2 ^ 32

/-- Bitwise complement of a `sec_t` value. -/
def secNot (n : Nat) : Nat := 2 ^ 32 - 1 - n

/-- Conversion to `uint16_t`. -/
def u16 (n : Nat) : Nat := n % 2 ^ 16

theorem secWrap_of_lt {n : Nat} (h : n < 2 ^ 32) : secWrap n = n := Nat.mod_eq_of_lt h

theorem secSub_of_le {a b : Nat} (hb : b ≤ a) (ha : a < 2 ^ 32) : secSub a b = a - b := by
  unfold secSub
  omega

theorem secSub_pos {a b : Nat} (ha : a < 2 ^ 32) (hb : b < 2 ^ 32) (hne : a ≠ b) :
    0 < secSub a b := by
  unfold secSub
  omega

theorem u16_of_lt {n : Nat} (h : n < 2 ^ 16) : u16 n = n := Nat.mod_eq_of_lt h

theorem zero_lt_u16 : 0 < 2 ^ 16 := by decide

theorem u16_lt (n : Nat) : u16 n < 2 ^ 16 := Nat.mod_lt n zero_lt_u16

theorem secWrap_lt (n : Nat) : secWrap n < 2 ^ 32 := Nat.mod_lt n (by decide)

/-! ## Disc objects -/

/-- `DvmDisc` without its function table. The bounds are those of the C types. -/
structure DvmDisc where
  ioType : Nat
  features : Nat
  numUsers : Nat
  numSectors : Nat
  sectorSz : Nat
  blockSz : Nat
  numUsers_lt : numUsers < 2 ^ 16
  numSectors_lt : numSectors < 2 ^ 32
  sectorSz_lt : sectorSz < 2 ^ 16
  blockSz_lt : blockSz < 2 ^ 16

/-- `disc->num_users ++` of `dvmDiscAddUser`. -/
def dvmDiscAddUser (disc : DvmDisc) : DvmDisc :=
  { disc with
    numUsers := u16 (disc.numUsers + 1)
    numUsers_lt := u16_lt _ }

/-- `--disc->num_users` of `dvmDiscRemoveUser`. -/
def dropUser (disc : DvmDisc) : DvmDisc :=
  { disc with
    numUsers := u16 (disc.numUsers + 2 ^ 16 - 1)
    numUsers_lt := u16_lt _ }

/-- A store to `disc->num_sectors`. -/
def setNumSectors (n : Nat) (disc : DvmDisc) : DvmDisc :=
  { disc with
    numSectors := secWrap n
    numSectors_lt := secWrap_lt _ }

def DvmDisc.geometry (disc : DvmDisc) : Nat × Nat × Nat × Nat × Nat :=
  (disc.ioType, disc.features, disc.numSectors, disc.sectorSz, disc.blockSz)

theorem geometry_dvmDiscAddUser (disc : DvmDisc) :
    (dvmDiscAddUser disc).geometry = disc.geometry := rfl

theorem geometry_dropUser (disc : DvmDisc) : (dropUser disc).geometry = disc.geometry := by
  rw [dropUser, DvmDisc.geometry, DvmDisc.geometry]

theorem geometry_setNumSectors (disc : DvmDisc) :
    (setNumSectors disc.numSectors disc).geometry = disc.geometry := by
  simp [DvmDisc.geometry, setNumSectors, secWrap_of_lt disc.numSectors_lt]

def plainBase (numSectors : Nat) (h : numSectors < 2 ^ 32) : DvmDisc :=
  ⟨0, 0, 0, numSectors, 512, 1, zero_lt_u16, h, by decide, by decide⟩

/-- A `DISC_INTERFACE`, with the answers of its `startup` and `isInserted`. -/
structure DiscInterface where
  ioType : Nat
  features : Nat
  numberOfSectors : Nat
  bytesPerSector : Nat
  sectorsPerBlock : Nat
  startup : Bool
  isInserted : Bool

/-- The two builds of `dvmDiscCreate`. -/
inductive Build where
  | gamecubeWii
  | other
deriving DecidableEq

/-- The object `dvmDiscCreate` fills in. -/
def wrapBase (build : Build) (iface : DiscInterface) : DvmDisc :=
  match build with
  | .gamecubeWii =>
      { ioType := iface.ioType
        features := u16 iface.features
        numUsers := 0
        numSectors := secWrap iface.numberOfSectors
        sectorSz := u16 iface.bytesPerSector
        blockSz := u16 iface.sectorsPerBlock
        numUsers_lt := zero_lt_u16
        numSectors_lt := secWrap_lt _
        sectorSz_lt := u16_lt _
        blockSz_lt := u16_lt _ }
  | .other =>
      { ioType := iface.ioType
        features := u16 iface.features
        numUsers := 0
        numSectors := secNot 0
        sectorSz := 512
        blockSz := 0
        numUsers_lt := zero_lt_u16
        numSectors_lt := by decide
        sectorSz_lt := by decide
        blockSz_lt := zero_lt_u16 }

theorem wrapBase_numUsers (build : Build) (iface : DiscInterface) :
    (wrapBase build iface).numUsers = 0 := by
  cases build <;> rfl

/-- `dvmDiscCreate`, and how often it has called `shutdown`. `allocated` is the outcome
of `malloc`. -/
def dvmDiscCreate (build : Build) (iface : DiscInterface) (allocated : Bool) :
    Option DvmDisc × Nat :=
  if !iface.startup || !iface.isInserted then (none, 0)
  else if build = .gamecubeWii ∧ (iface.numberOfSectors = 0 ∨ iface.bytesPerSector < 512 ∨
      iface.sectorsPerBlock &&& (iface.sectorsPerBlock - 1) ≠ 0) then (none, 1)
  else if !allocated then (none, 0)
  else (some (wrapBase build iface), 0)

theorem dvmDiscCreate_numUsers {build : Build} {iface : DiscInterface} {allocated : Bool}
    {base : DvmDisc} (h : (dvmDiscCreate build iface allocated).1 = some base) :
    base.numUsers = 0 := by
  unfold dvmDiscCreate at h
  split_ifs at h
  cases h
  exact wrapBase_numUsers build iface

/-- The plain disc a cache sits on: its sectors, and the verdicts on the calls to
come. A read or write that fails leaves `some junk` in its own target cells. -/
structure InnerDisc (α : Type) where
  disc : DvmDisc
  sectors : Nat → α
  calls : Nat
  readFault : Nat → Option (Nat → α)
  writeFault : Nat → Option (Nat → α)
  flushFault : Nat → Bool

end LibDvm
