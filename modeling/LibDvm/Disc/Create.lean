import LibDvm.Disc.Model
import LibDvm.Lib.Words

/-! # The geometry a disc takes over

On GameCube and Wii `dvmDiscCreate` looks at the geometry of the interface before it stores
it. The look is at 32-bit fields, the store is into 16-bit ones. Of the exits behind a
`startup` that succeeded only the refused geometry shuts the interface down again.
-/

namespace LibDvm

structure DiscInterface.Wide (iface : DiscInterface) : Prop where
  numberOfSectors_lt : iface.numberOfSectors < 2 ^ 32
  bytesPerSector_lt : iface.bytesPerSector < 2 ^ 32
  sectorsPerBlock_lt : iface.sectorsPerBlock < 2 ^ 32

/-- No sectors, sectors below 512 bytes, or a block size other than 0 and the powers of two. -/
def DiscInterface.Refused (iface : DiscInterface) : Prop :=
  iface.numberOfSectors = 0 ∨ iface.bytesPerSector < 512 ∨
    ¬ (iface.sectorsPerBlock = 0 ∨ iface.sectorsPerBlock.isPowerOfTwo)

/-- A disc comes back that has the geometry of the interface and may be divided by, or none
does and a `startup` that succeeded is followed by one `shutdown`. -/
def ExactOrBacksOut (iface : DiscInterface) (allocated : Bool) : Prop :=
  match dvmDiscCreate .gamecubeWii iface allocated with
  | (some disc, _) =>
      disc.numSectors = iface.numberOfSectors ∧ disc.sectorSz = iface.bytesPerSector ∧
        disc.blockSz = iface.sectorsPerBlock ∧ 512 ≤ disc.sectorSz ∧ disc.sectorSz ≠ 0
  | (none, shutdowns) => iface.startup = true → shutdowns = 1

/-- Nothing is started, or a medium is there whose geometry is refused, or fits and finds
memory. -/
def CreatesCleanly (iface : DiscInterface) (allocated : Bool) : Prop :=
  iface.startup = false ∨
    iface.isInserted = true ∧
      (iface.Refused ∨
        allocated = true ∧ iface.bytesPerSector < 2 ^ 16 ∧ iface.sectorsPerBlock < 2 ^ 16)

/-! ## The exits -/

variable {iface : DiscInterface} {allocated : Bool}

theorem dvmDiscCreate_absent {build : Build}
    (h : iface.startup = false ∨ iface.isInserted = false) :
    dvmDiscCreate build iface allocated = (none, 0) := by
  unfold dvmDiscCreate
  rcases h with hstart | hinserted
  · rw [hstart]
    rfl
  · rw [hinserted, Bool.not_false, Bool.or_true, if_pos rfl]

theorem refused_iff :
    (iface.numberOfSectors = 0 ∨ iface.bytesPerSector < 512 ∨
      iface.sectorsPerBlock &&& (iface.sectorsPerBlock - 1) ≠ 0) ↔ iface.Refused := by
  rw [DiscInterface.Refused, Ne, Words.and_pred_eq_zero_iff]

theorem dvmDiscCreate_refused (hstart : iface.startup = true) (hinserted : iface.isInserted = true)
    (h : iface.Refused) : dvmDiscCreate .gamecubeWii iface allocated = (none, 1) := by
  unfold dvmDiscCreate
  rw [hstart, hinserted, if_neg (by decide), if_pos ⟨rfl, refused_iff.mpr h⟩]

theorem dvmDiscCreate_accepted (hstart : iface.startup = true)
    (hinserted : iface.isInserted = true) (h : ¬ iface.Refused) :
    dvmDiscCreate .gamecubeWii iface allocated =
      if allocated = true then (some (wrapBase .gamecubeWii iface), 0) else (none, 0) := by
  have hgate : ¬ (Build.gamecubeWii = .gamecubeWii ∧ (iface.numberOfSectors = 0 ∨
      iface.bytesPerSector < 512 ∨
      iface.sectorsPerBlock &&& (iface.sectorsPerBlock - 1) ≠ 0)) :=
    fun hc => h (refused_iff.mp hc.2)
  unfold dvmDiscCreate
  rw [hstart, hinserted, if_neg (by decide), if_neg hgate]
  cases allocated <;> rfl

/-! ## The geometry stored -/

theorem u16_eq_self_iff (n : Nat) : u16 n = n ↔ n < 2 ^ 16 :=
  Nat.mod_eq_iff_lt (by decide)

theorem wrapBase_exact_iff (hwide : iface.Wide) :
    ((wrapBase .gamecubeWii iface).numSectors = iface.numberOfSectors ∧
      (wrapBase .gamecubeWii iface).sectorSz = iface.bytesPerSector ∧
      (wrapBase .gamecubeWii iface).blockSz = iface.sectorsPerBlock) ↔
      iface.bytesPerSector < 2 ^ 16 ∧ iface.sectorsPerBlock < 2 ^ 16 := by
  have hsectors : (wrapBase .gamecubeWii iface).numSectors = iface.numberOfSectors :=
    secWrap_of_lt hwide.numberOfSectors_lt
  have hsectorSz : (wrapBase .gamecubeWii iface).sectorSz = u16 iface.bytesPerSector := rfl
  have hblockSz : (wrapBase .gamecubeWii iface).blockSz = u16 iface.sectorsPerBlock := rfl
  rw [hsectorSz, hblockSz, u16_eq_self_iff, u16_eq_self_iff]
  exact and_iff_right hsectors

/-! ## Accepted exactly or backed out of -/

theorem dvmDiscCreate_exact_iff (hwide : iface.Wide) :
    ExactOrBacksOut iface allocated ↔ CreatesCleanly iface allocated := by
  unfold ExactOrBacksOut CreatesCleanly
  cases hstart : iface.startup with
  | false =>
      rw [dvmDiscCreate_absent (Or.inl hstart)]
      exact ⟨fun _ => Or.inl rfl, fun _ h => by cases h⟩
  | true =>
      cases hinserted : iface.isInserted with
      | false =>
          -- the medium is missing and nothing is shut down
          rw [dvmDiscCreate_absent (Or.inr hinserted)]
          constructor
          · intro h
            cases h rfl
          · rintro (h | ⟨h, -⟩) <;> cases h
      | true =>
          by_cases hrefused : iface.Refused
          · rw [dvmDiscCreate_refused hstart hinserted hrefused]
            exact ⟨fun _ => Or.inr ⟨rfl, Or.inl hrefused⟩, fun _ _ => rfl⟩
          · rw [dvmDiscCreate_accepted hstart hinserted hrefused]
            cases allocated with
            | false =>
                constructor
                · intro h
                  cases h rfl
                · rintro (h | ⟨-, h | ⟨h, -⟩⟩)
                  · cases h
                  · exact absurd h hrefused
                  · cases h
            | true =>
                constructor
                · rintro ⟨hsectors, hsector, hblock, -⟩
                  have hfits := (wrapBase_exact_iff hwide).mp ⟨hsectors, hsector, hblock⟩
                  exact Or.inr ⟨rfl, Or.inr ⟨rfl, hfits⟩⟩
                · rintro (h | ⟨-, h | ⟨-, hfits⟩⟩)
                  · cases h
                  · exact absurd h hrefused
                  · have hexact := (wrapBase_exact_iff hwide).mpr hfits
                    have hlarge : 512 ≤ (wrapBase .gamecubeWii iface).sectorSz := by
                      rw [hexact.2.1]
                      exact Nat.le_of_not_lt fun hlt => hrefused (Or.inr (Or.inl hlt))
                    exact ⟨hexact.1, hexact.2.1, hexact.2.2, hlarge, by omega⟩

def drive (bytesPerSector : Nat) (isInserted : Bool) : DiscInterface :=
  ⟨0, 0, 1000, bytesPerSector, 8, true, isInserted⟩

theorem dvmDiscCreate_exact_iff_sample :
    ExactOrBacksOut (drive 2048 true) true ↔ CreatesCleanly (drive 2048 true) true :=
  dvmDiscCreate_exact_iff ⟨by decide, by decide, by decide⟩

/-- Without a medium or memory the drive stays started, and sectors of 2^16 bytes make a disc
of zero-byte sectors. -/
theorem drive_left_started :
    dvmDiscCreate .gamecubeWii (drive 512 false) true = (none, 0) ∧
      dvmDiscCreate .gamecubeWii (drive 512 true) false = (none, 0) ∧
      (dvmDiscCreate .gamecubeWii (drive 65536 true) true).1.map DvmDisc.sectorSz = some 0 ∧
      ¬ ExactOrBacksOut (drive 512 false) true ∧ ¬ ExactOrBacksOut (drive 512 true) false ∧
      ¬ ExactOrBacksOut (drive 65536 true) true := by
  refine ⟨rfl, rfl, rfl, ?_, ?_, ?_⟩
  · intro h
    cases h rfl
  · intro h
    cases h rfl
  · rintro ⟨-, -, -, -, hzero⟩
    exact hzero rfl

end LibDvm
