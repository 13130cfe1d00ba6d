import LibDvm.Cache.Invariant

/-! # The geometries a cache can hold

`dvmDiscCacheCreate` checks that there are pages and that their size is a power of two.
The page size then goes into `uint16_t` fields, and the size of the data buffer is a
product of `unsigned` numbers.
-/

namespace LibDvm.Cache

variable {α : Type}

/-- The page size that creation settles on, in sectors of the inner disc. -/
def requestedPage (inner : DvmDisc) (sectorsPerPage : Nat) : Nat :=
  max inner.blockSz (sectorsPerPage * 512 % 2 ^ 32 / inner.sectorSz)

theorem effectivePage_eq (inner : DvmDisc) (sectorsPerPage : Nat) :
    effectivePage inner sectorsPerPage = requestedPage inner sectorsPerPage := by
  unfold effectivePage requestedPage secWrap
  simp only
  split <;> omega

/-- Every quantity of the cache is the exact one for pages of `page` sectors. -/
structure HoldsGeometry (inner : DvmDisc) (cachePages page : Nat) (cache : DvmDiscCache α) :
    Prop where
  powerOfTwo : page = 1 <<< cache.pageShift
  covers : inner.blockSz ≤ page
  stored : cache.base.blockSz = page
  clean : ∀ p, cache.entries p = ⟨emptyPage, page, 0⟩
  dirty : ∀ p start stop, start ≤ page → stop ≤ page →
    (cache.setDirty p start stop).entries p =
      { cache.entries p with dirtyStart := start, dirtyEnd := stop }
  dataSz : cache.dataSz = cachePages * page * inner.sectorSz

/-- Creation hands back the inner disc untouched, or a cache that represents its geometry. -/
def AcceptsRepresentable (inner : InnerDisc α) (cachePages page : Nat) :
    InnerDisc α ⊕ DvmDiscCache α → Prop
  | .inl disc => disc = inner
  | .inr cache => HoldsGeometry inner.disc cachePages page cache

def Refused (cachePages page : Nat) (mallocOk : Bool) (allocated : Option (Nat × (Nat → α))) :
    Prop :=
  cachePages = 0 ∨ page = 0 ∨ page &&& (page - 1) ≠ 0 ∨ mallocOk = false ∨ allocated = none

theorem dvmDiscCacheCreate_refused {inner : InnerDisc α} {cachePages sectorsPerPage : Nat}
    {mallocOk : Bool} {allocated : Option (Nat × (Nat → α))}
    (h : Refused cachePages (effectivePage inner.disc sectorsPerPage) mallocOk allocated) :
    dvmDiscCacheCreate inner cachePages sectorsPerPage mallocOk allocated = .inl inner := by
  unfold dvmDiscCacheCreate
  simp only
  split
  · rfl
  · next hchecks =>
      simp only [not_or, Decidable.not_not] at hchecks
      obtain ⟨hpages, hzero, hmask⟩ := hchecks
      rcases h with h | h | h | h | h
      · exact absurd h hpages
      · exact absurd h hzero
      · exact absurd hmask h
      · simp [h]
      · rw [h]
        split <;> rfl

theorem dvmDiscCacheCreate_accepted {inner : InnerDisc α} {cachePages sectorsPerPage : Nat}
    {mallocOk : Bool} {allocated : Option (Nat × (Nat → α))}
    (h : ¬ Refused cachePages (effectivePage inner.disc sectorsPerPage) mallocOk allocated) :
    ∃ shift data memory, effectivePage inner.disc sectorsPerPage = 2 ^ shift ∧
      dvmDiscCacheCreate inner cachePages sectorsPerPage mallocOk allocated =
        .inr (initialCache inner cachePages (effectivePage inner.disc sectorsPerPage) data
          memory) := by
  simp only [Refused, not_or, Decidable.not_not, Bool.not_eq_false] at h
  obtain ⟨hpages, hzero, hmask, hmalloc, hdata⟩ := h
  obtain ⟨shift, hshift⟩ := page_isPowerOfTwo hzero hmask
  cases allocated with
  | none => exact absurd rfl hdata
  | some place =>
      refine ⟨shift, place.1, place.2, hshift, ?_⟩
      simp [dvmDiscCacheCreate, hpages, hzero, hmask, hmalloc]

theorem initialCache_holdsGeometry {inner : InnerDisc α} {cachePages page shift data : Nat}
    {memory : Nat → α} (hpow : page = 2 ^ shift) (hblock : inner.disc.blockSz ≤ page) :
    HoldsGeometry inner.disc cachePages page (initialCache inner cachePages page data memory) ↔
      page < 2 ^ 16 ∧ cachePages * page * inner.disc.sectorSz < 2 ^ 32 := by
  constructor
  · intro h
    have hstored : u16 page = page := h.stored
    have hproduct : secWrap (cachePages * page * inner.disc.sectorSz) =
        cachePages * page * inner.disc.sectorSz := h.dataSz
    constructor
    · rw [← hstored]
      exact u16_lt page
    · rw [← hproduct]
      exact secWrap_lt _
  · rintro ⟨hpage, hproduct⟩
    have hle : shift ≤ 15 := by
      rw [hpow] at hpage
      have := (Nat.pow_lt_pow_iff_right (by decide)).mp hpage
      omega
    refine ⟨?_, hblock, u16_of_lt hpage, ?_, ?_, secWrap_of_lt hproduct⟩
    · show page = 1 <<< pageShiftLoop page 32 0
      rw [hpow, pageShiftLoop_spec (Nat.zero_le _) (by omega), Nat.one_shiftLeft]
    · intro p
      show DvmDiscCacheEntry.mk emptyPage (u16 page) 0 = _
      rw [u16_of_lt hpage]
    · intro p start stop hstart hstop
      simp only [DvmDiscCache.setDirty, DvmDiscCache.setEntry, if_true]
      rw [u16_of_lt (by omega), u16_of_lt (by omega)]

/-- Creation accepts representable geometries only, exactly when it refuses, or the page
size fits 16 bits and the size of the data buffer 32. -/
theorem creation_representable (inner : InnerDisc α) (cachePages sectorsPerPage : Nat)
    (mallocOk : Bool) (allocated : Option (Nat × (Nat → α))) :
    AcceptsRepresentable inner cachePages (requestedPage inner.disc sectorsPerPage)
        (dvmDiscCacheCreate inner cachePages sectorsPerPage mallocOk allocated) ↔
      Refused cachePages (requestedPage inner.disc sectorsPerPage) mallocOk allocated ∨
        requestedPage inner.disc sectorsPerPage < 2 ^ 16 ∧
          cachePages * requestedPage inner.disc sectorsPerPage * inner.disc.sectorSz <
            2 ^ 32 := by
  rw [← effectivePage_eq]
  by_cases hrefused : Refused cachePages (effectivePage inner.disc sectorsPerPage) mallocOk
      allocated
  · rw [dvmDiscCacheCreate_refused hrefused]
    exact ⟨fun _ => Or.inl hrefused, fun _ => rfl⟩
  · obtain ⟨shift, data, memory, hpow, hcreate⟩ := dvmDiscCacheCreate_accepted hrefused
    have hblock : inner.disc.blockSz ≤ effectivePage inner.disc sectorsPerPage := by
      rw [effectivePage_eq]
      exact Nat.le_max_left _ _
    rw [hcreate]
    refine (initialCache_holdsGeometry hpow hblock).trans ?_
    exact ⟨Or.inr, fun h => h.resolve_left hrefused⟩

def sampleCreation (cachePages sectorsPerPage : Nat) : InnerDisc Nat ⊕ DvmDiscCache Nat :=
  dvmDiscCacheCreate sampleDisc cachePages sectorsPerPage true (some (4096, fun _ => 0))

/-- Pages of 65536 sectors are stored as a block size and a clean marker of 0; 131073 pages
of 64 sectors get a buffer of 32768 bytes. -/
theorem unrepresentable_accepted :
    (sampleCreation 1 65536).map (fun _ => ())
          (fun c => (c.base.blockSz, (c.entries 0).dirtyStart)) = .inr (0, 0) ∧
      ¬ AcceptsRepresentable sampleDisc 1 (requestedPage sampleDisc.disc 65536)
        (sampleCreation 1 65536) ∧
      (sampleCreation 131073 64).map (fun _ => ()) (fun c => c.dataSz) = .inr 32768 ∧
      ¬ AcceptsRepresentable sampleDisc 131073 (requestedPage sampleDisc.disc 64)
        (sampleCreation 131073 64) := by
  have hpage : requestedPage sampleDisc.disc 65536 = 65536 := by decide
  have hsmall : requestedPage sampleDisc.disc 64 = 64 := by decide
  refine ⟨by decide +kernel, ?_, by decide +kernel, ?_⟩
  · intro h
    rw [hpage] at h
    have hstored : (0 : Nat) = 65536 := h.stored
    omega
  · intro h
    rw [hsmall] at h
    have hdata : (32768 : Nat) = 131073 * 64 * 512 := h.dataSz
    omega

end LibDvm.Cache
