import LibDvm.Cache.Loop

/-! # The representation invariant over whole runs

A cache that `dvmDiscCacheCreate` builds starts with every entry unallocated and
clean. Each call keeps the invariant whatever the inner disc answers and always
returns, so the invariant holds after every run of calls.
-/

namespace LibDvm.Cache

open NodeList Store

variable {α : Type} {c : DvmDiscCache α} {A U : List Nat}

/-! ## A new cache -/

theorem pageShiftLoop_spec {shift fuel k : Nat} (hk : k ≤ shift) (hfuel : shift < fuel + k) :
    pageShiftLoop (2 ^ shift) fuel k = shift := by
  induction fuel generalizing k with
  | zero => omega
  | succ fuel ih =>
      rw [pageShiftLoop, Nat.one_shiftLeft]
      by_cases heq : 2 ^ k = 2 ^ shift
      · rw [if_pos heq]
        exact Nat.pow_right_injective (Nat.le_refl 2) heq
      · rw [if_neg heq]
        have hne : k ≠ shift := fun h => heq (by rw [h])
        exact ih (by omega) (by omega)

theorem page_isPowerOfTwo {page : Nat} (hpos : page ≠ 0) (hmask : page &&& (page - 1) = 0) :
    ∃ shift, page = 2 ^ shift :=
  (Nat.and_sub_one_eq_zero_iff_isPowerOfTwo hpos).mp hmask

theorem initialLinks_segment {pages i n : Nat} (h : i + n = pages) :
    (initialLinks pages).Segment (if i = 0 then none else some (i - 1)) (List.range' i n)
      none := by
  induction n generalizing i with
  | zero => trivial
  | succ n ih =>
      rw [List.range'_succ]
      refine ⟨rfl, ?_, ?_⟩
      · cases n with
        | zero =>
            have hlast : ¬ i + 1 < pages := by omega
            simp [initialLinks, hlast]
        | succ n =>
            have hmore : i + 1 < pages := by omega
            simp [initialLinks, hmore, List.range'_succ]
      · simpa using ih (i := i + 1) (by omega)

theorem initialLinks_linked {pages : Nat} (hpos : 0 < pages) :
    (initialLinks pages).Linked (List.range pages) where
  head := by
    cases pages with
    | zero => omega
    | succ n => simp [initialLinks, List.range_succ_eq_map]
  tail := by
    cases pages with
    | zero => omega
    | succ n => simp [initialLinks, List.range_succ]
  nodup := List.nodup_range
  segment := by
    rw [List.range_eq_range']
    exact initialLinks_segment (i := 0) (by omega)

structure Created (inner : InnerDisc α) (cachePages sectorsPerPage : Nat)
    (c : DvmDiscCache α) : Prop where
  pos : 0 < cachePages
  pages : c.numPages = cachePages
  page : c.pageSz = effectivePage inner.disc sectorsPerPage
  sectors : c.base.numSectors = inner.disc.numSectors
  sectorSz : c.base.sectorSz = inner.disc.sectorSz
  log : c.log = []
  rep : Rep c [] (List.range cachePages)
  dataSz : c.dataSz = secWrap (cachePages * c.pageSz * c.base.sectorSz)
  inner : c.inner = { inner with disc := dvmDiscAddUser inner.disc }
  entries : ∀ p, (c.entries p).baseSector = emptyPage

theorem effectivePage_lt (inner : DvmDisc) (sectorsPerPage : Nat) :
    effectivePage inner sectorsPerPage < 2 ^ 32 := by
  have hblock := inner.blockSz_lt
  have hscaled : secWrap (sectorsPerPage * 512) / inner.sectorSz < 2 ^ 32 :=
    Nat.lt_of_le_of_lt (Nat.div_le_self _ _) (secWrap_lt _)
  unfold effectivePage
  dsimp only
  split <;> omega

theorem dvmDiscCacheCreate_cache {inner : InnerDisc α} {cachePages sectorsPerPage : Nat}
    {mallocOk : Bool} {allocated : Option (Nat × (Nat → α))}
    (hcreate : dvmDiscCacheCreate inner cachePages sectorsPerPage mallocOk allocated = .inr c) :
    0 < cachePages ∧ ∃ shift data memory, shift < 32 ∧
      effectivePage inner.disc sectorsPerPage = 2 ^ shift ∧
      c = initialCache inner cachePages (effectivePage inner.disc sectorsPerPage) data memory := by
  unfold dvmDiscCacheCreate at hcreate
  dsimp only at hcreate
  split at hcreate
  · cases hcreate
  · rename_i hchecks
    split at hcreate
    · cases hcreate
    · split at hcreate
      · cases hcreate
      · rename_i data memory
        simp only [not_or, Decidable.not_not] at hchecks
        obtain ⟨hpages, hzero, hmask⟩ := hchecks
        obtain ⟨shift, hshift⟩ := page_isPowerOfTwo hzero hmask
        have hlt := effectivePage_lt inner.disc sectorsPerPage
        rw [hshift] at hlt
        exact ⟨Nat.pos_of_ne_zero hpages, shift, data, memory,
          (Nat.pow_lt_pow_iff_right (by decide)).mp hlt, hshift, (Sum.inr.inj hcreate).symm⟩

theorem initialCache_pageShift (inner : InnerDisc α) (pages : Nat) {page shift : Nat}
    (hpage : page = 2 ^ shift) (hshift : shift < 32) (data : Nat) (memory : Nat → α) :
    (initialCache inner pages page data memory).pageShift = shift := by
  rw [hpage]
  exact pageShiftLoop_spec (Nat.zero_le _) (by omega)

theorem dvmDiscCacheCreate_pageSz {inner : InnerDisc α} {cachePages sectorsPerPage : Nat}
    {mallocOk : Bool} {allocated : Option (Nat × (Nat → α))}
    (hcreate : dvmDiscCacheCreate inner cachePages sectorsPerPage mallocOk allocated = .inr c) :
    c.pageSz = effectivePage inner.disc sectorsPerPage := by
  obtain ⟨-, shift, data, memory, hlt, hshift, rfl⟩ := dvmDiscCacheCreate_cache hcreate
  rw [pageSz_eq, initialCache_pageShift inner cachePages hshift hlt, hshift]

theorem initialCache_listed (inner : InnerDisc α) {pages : Nat} (page data : Nat)
    (memory : Nat → α) (hpos : 0 < pages) :
    Listed (initialCache inner pages page data memory) [] (List.range pages) where
  linked := initialLinks_linked hpos
  visits := List.Perm.refl _
  allocated := by simp
  free := fun _ _ => rfl
  pos := hpos

theorem dvmDiscCacheCreate_created {inner : InnerDisc α} {cachePages sectorsPerPage : Nat}
    {mallocOk : Bool} {allocated : Option (Nat × (Nat → α))}
    (hcreate : dvmDiscCacheCreate inner cachePages sectorsPerPage mallocOk allocated = .inr c)
    (hpage : effectivePage inner.disc sectorsPerPage ≤ 2 ^ 15) :
    Created inner cachePages sectorsPerPage c := by
  have hsz := dvmDiscCacheCreate_pageSz hcreate
  obtain ⟨hpos, -, data, memory, -, -, rfl⟩ := dvmDiscCacheCreate_cache hcreate
  have hlisted := initialCache_listed inner (effectivePage inner.disc sectorsPerPage) data memory
    hpos
  refine ⟨hpos, rfl, hsz, rfl, rfl, rfl, ?_, ?_, rfl, fun _ => rfl⟩
  · refine ⟨hlisted.linked, hlisted.visits, by simp, ?_, ?_, hpos⟩
    · intro p _
      refine ⟨rfl, ?_, rfl⟩
      rw [hsz]
      exact u16_of_lt (by omega)
    · rw [hsz]
      exact hpage
  · rw [hsz]
    rfl

/-! ## A sample cache -/

def sampleDisc : InnerDisc Nat where
  disc := plainBase 8 (by decide)
  sectors := fun s => 100 + s
  calls := 0
  readFault := fun _ => none
  writeFault := fun _ => none
  flushFault := fun _ => false

def sampleCache : DvmDiscCache Nat := initialCache sampleDisc 3 1 64 fun _ => 0

theorem sampleCache_created :
    dvmDiscCacheCreate sampleDisc 3 1 true (some (64, fun _ => 0)) = .inr sampleCache := rfl

/-! ## Calls -/

theorem Rep.flushLoop (ret : Bool) (xs : List Nat) (h : Rep c A U)
    (hxs : ∀ p ∈ xs, p < c.numPages) :
    Rep (dvmDiscCacheFlushLoop c ret xs).1 A U ∧ Same c (dvmDiscCacheFlushLoop c ret xs).1 := by
  induction xs generalizing c ret with
  | nil => exact ⟨h, Same.refl c⟩
  | cons p rest ih =>
      rw [dvmDiscCacheFlushLoop]
      by_cases hfree : c.unallocated p = true
      · rw [if_pos hfree]
        exact ⟨h, Same.refl c⟩
      · rw [if_neg hfree]
        have hsame := flush_same c p
        have hrest := ih (ret && (dvmDiscCacheEntryFlush c p).2) (h.flush (hxs p (by simp)))
          (by rw [hsame.pages]; exact fun q hq => hxs q (List.mem_cons_of_mem p hq))
        exact ⟨hrest.1, hsame.trans hrest.2⟩

theorem Rep.order_lt (h : Rep c A U) {p : Nat} (hp : p ∈ c.order) : p < c.numPages := by
  rw [h.order_eq] at hp
  exact (h.mem_iff p).mp hp

theorem dvmDiscFlush_same (c : DvmDiscCache α) :
    Same c { c with inner := (dvmDiscFlush c.inner).1 } :=
  ⟨rfl, rfl, rfl, rfl, rfl, rfl, rfl, rfl⟩

theorem Rep.flushAll (h : Rep c A U) :
    Rep (dvmDiscCacheFlush c).1 A U ∧ Same c (dvmDiscCacheFlush c).1 := by
  obtain ⟨hrep, hsame⟩ := h.flushLoop true c.order fun p hp => h.order_lt hp
  have hend := dvmDiscFlush_same (dvmDiscCacheFlushLoop c true c.order).1
  exact ⟨hrep.frame hend rfl rfl, hsame.trans hend⟩

def rwRequest (isAligned : Bool) (c : DvmDiscCache α) (address num : Nat)
    (isPartial isWrite : Bool) : Request :=
  ⟨isWrite, isPartial || decide (num < c.pageSz), isAligned, address, num * c.base.sectorSz⟩

theorem rwRequest_cached_iff {isAligned isPartial : Bool} {address num : Nat} (isWrite : Bool) :
    (rwRequest isAligned c address num isPartial isWrite).cached = true ↔
      isPartial = true ∨ isAligned = false ∨ num < c.pageSz := by
  cases isPartial <;> cases isAligned <;> simp [Request.cached, rwRequest]

def rwInit (c : DvmDiscCache α) (buffer : Nat → α) (first num : Nat) : RwState α :=
  ⟨c, buffer, 0, first, num, none, 0⟩

theorem rwStart_cases (isAligned : Bool) (c : DvmDiscCache α) (address : Nat)
    (buffer : Nat → α) (first num : Nat) (isPartial isWrite : Bool) :
    ((c.base.numSectors ≤ first ∨ c.base.numSectors < first + num) ∧
        rwStart isAligned c address buffer first num isPartial isWrite = none) ∨
      (first < c.base.numSectors ∧ first + num ≤ c.base.numSectors ∧
        rwStart isAligned c address buffer first num isPartial isWrite =
          some (rwRequest isAligned c address num isPartial isWrite,
            rwInit c buffer first num)) := by
  unfold rwStart
  have hN := c.base.numSectors_lt
  by_cases hfirst : first ≥ c.base.numSectors
  · exact .inl ⟨.inl hfirst, if_pos hfirst⟩
  · have hsub : secSub c.base.numSectors first = c.base.numSectors - first :=
      secSub_of_le (by omega) hN
    rw [if_neg hfirst, hsub]
    by_cases hnum : num > c.base.numSectors - first
    · exact .inl ⟨.inr (by omega), if_pos hnum⟩
    · exact .inr ⟨by omega, by omega, if_neg hnum⟩

theorem Rep.loopOk (h : Rep c A U) (isAligned : Bool) (address : Nat) (buffer : Nat → α)
    {first num : Nat} (isPartial isWrite : Bool) (hin : first + num ≤ c.base.numSectors) :
    LoopOk (rwRequest isAligned c address num isPartial isWrite)
      (rwInit c buffer first num) where
  rep := ⟨A, U, h⟩
  inside := hin
  held := by simp [rwInit]
  length := by simp [rwInit, rwRequest]

theorem rwInit_single {buffer : Nat → α} {first num : Nat}
    (hpart : PagePart (rwInit c buffer first num)) (hpage : first % c.pageSz + num ≤ c.pageSz) :
    (rwInit c buffer first num).curSectors = num := by
  have hle := hpart.le
  have hrest := hpart.rest
  have hsplit := hpart.split
  have hdown := hpart.down
  have hmod := Align.down_add_mod c.pageSz first
  dsimp only [rwInit] at hle hrest hsplit hdown ⊢
  omega

theorem Rep.readWrite (h : Rep c A U) (isAligned : Bool) (address : Nat) (buffer : Nat → α)
    (first num : Nat) (isPartial isWrite : Bool) :
    (∃ A' U', Rep (dvmDiscCacheReadWrite isAligned c address buffer first num isPartial
        isWrite).self A' U') ∧
      Same c (dvmDiscCacheReadWrite isAligned c address buffer first num isPartial
        isWrite).self ∧
      (dvmDiscCacheReadWrite isAligned c address buffer first num isPartial
        isWrite).ret.isSome = true := by
  unfold dvmDiscCacheReadWrite
  rcases rwStart_cases isAligned c address buffer first num isPartial isWrite with
    ⟨_, heq⟩ | ⟨_, hin, heq⟩
  · rw [heq]
    exact ⟨⟨A, U, h⟩, Same.refl c, rfl⟩
  · rw [heq]
    have hstart := h.loopOk isAligned address buffer isPartial isWrite hin
    obtain ⟨hloop, hsame, hdone⟩ := hstart.loop num
    exact ⟨hloop.rep, hsame, hdone (Nat.le_refl num)⟩

/-- Step lemma: a call keeps the invariant, whatever it returns, and returns. -/
theorem Rep.call (h : Rep c A U) (aligned : Nat → Bool → Bool) (r : Call α) :
    (∃ A' U', Rep (call aligned c r).1 A' U') ∧ Same c (call aligned c r).1 ∧
      (call aligned c r).2.ret.isSome = true := by
  cases r with
  | read address buffer first num isPartial =>
      exact h.readWrite (aligned address false) address buffer first num isPartial false
  | write address buffer first num isPartial =>
      exact h.readWrite (aligned address true) address buffer first num isPartial true
  | flush => exact ⟨⟨A, U, h.flushAll.1⟩, h.flushAll.2, rfl⟩

/-! ## Runs -/

/-- Run lemma: the invariant holds after every run of calls. -/
theorem Rep.run (h : Rep c A U) (aligned : Nat → Bool → Bool) (calls : List (Call α)) :
    (∃ A' U', Rep ((machine α aligned).run c calls) A' U') ∧
      Same c ((machine α aligned).run c calls) := by
  refine Machine.run_invariant (machine α aligned)
    (fun c' => (∃ A' U', Rep c' A' U') ∧ Same c c') ?_ calls ⟨⟨A, U, h⟩, Same.refl c⟩
  rintro c' r ⟨⟨A', U', hrep⟩, hsame⟩
  obtain ⟨hrep', hsame', _⟩ := hrep.call aligned r
  exact ⟨hrep', hsame.trans hsame'⟩

theorem Rep.run_returns (h : Rep c A U) (aligned : Nat → Bool → Bool) (calls : List (Call α)) :
    ∀ reply ∈ (machine α aligned).answers c calls, reply.ret.isSome = true := by
  induction calls generalizing c A U with
  | nil => simp [Machine.answers]
  | cons r calls ih =>
      obtain ⟨⟨A', U', hrep⟩, _, hret⟩ := h.call aligned r
      intro reply hmem
      rcases List.mem_cons.mp hmem with rfl | hrest
      · exact hret
      · exact ih hrep reply hrest

theorem Rep.dirty_range (h : Rep c A U) {p : Nat} (hp : p < c.numPages) :
    ((c.entries p).dirtyStart = c.pageSz ∧ (c.entries p).dirtyEnd = 0) ∨
      ((c.entries p).dirtyStart < (c.entries p).dirtyEnd ∧
        (c.entries p).dirtyEnd ≤ min c.pageSz (c.base.numSectors - (c.entries p).baseSector)) := by
  rcases h.dirty hp with hclean | hA
  · exact .inl hclean
  · rcases (h.allocated p hA).dirty with hclean | ⟨hlt, hpage, hdisc⟩
    · exact .inl hclean
    · exact .inr ⟨hlt, by omega⟩

/-- In every state that a cache with pages of at most 32768 sectors reaches, under any
inner failures, the links visit each entry once in opposite orders, the unallocated
entries are a clean suffix, the allocated ones hold aligned pages of the disc, and
every dirty range lies inside its page and the disc. The memory behind the pages is taken
to hold all of them, as the representable geometries of `Cache.Geometry` do. -/
theorem run_representation {inner : InnerDisc α} {cachePages sectorsPerPage : Nat}
    {mallocOk : Bool} {allocated : Option (Nat × (Nat → α))}
    (hcreate : dvmDiscCacheCreate inner cachePages sectorsPerPage mallocOk allocated = .inr c)
    (hpage : effectivePage inner.disc sectorsPerPage ≤ 32768) (aligned : Nat → Bool → Bool)
    (calls : List (Call α)) :
    let c' := (machine α aligned).run c calls
    (∀ reply ∈ (machine α aligned).answers c calls, reply.ret.isSome = true) ∧
      c'.pageSz = effectivePage inner.disc sectorsPerPage ∧
      c'.base.numSectors = inner.disc.numSectors ∧
      ∃ A U : List Nat,
        (∀ fuel ≥ cachePages, c'.links.forward fuel = A ++ U ∧
          c'.links.backward fuel = (A ++ U).reverse) ∧
        (A ++ U).Perm (List.range cachePages) ∧
        (∀ p ∈ U, (c'.entries p).baseSector = emptyPage ∧
          (c'.entries p).dirtyStart = c'.pageSz ∧ (c'.entries p).dirtyEnd = 0) ∧
        (∀ p ∈ A, (c'.entries p).baseSector ≠ emptyPage ∧
          c'.pageSz ∣ (c'.entries p).baseSector ∧
          (c'.entries p).baseSector < c'.base.numSectors) ∧
        ∀ p < cachePages,
          ((c'.entries p).dirtyStart = c'.pageSz ∧ (c'.entries p).dirtyEnd = 0) ∨
            ((c'.entries p).dirtyStart < (c'.entries p).dirtyEnd ∧
              (c'.entries p).dirtyEnd ≤
                min c'.pageSz (c'.base.numSectors - (c'.entries p).baseSector)) := by
  have hnew := dvmDiscCacheCreate_created hcreate hpage
  obtain ⟨⟨A, U, hrep⟩, hsame⟩ := hnew.rep.run aligned calls
  have hpages := hsame.pages.trans hnew.pages
  have hlen : (A ++ U).length = cachePages := (length_of_visits hrep.visits).trans hpages
  refine ⟨hnew.rep.run_returns aligned calls, hsame.pageSz.trans hnew.page,
    (congrArg DvmDisc.numSectors hsame.base).trans hnew.sectors, A, U, ?_, ?_, ?_, ?_, ?_⟩
  · intro fuel hfuel
    exact ⟨hrep.linked.forward (by omega), hrep.linked.backward (by omega)⟩
  · rw [← hpages]
    exact hrep.visits
  · exact fun p hp => ⟨(hrep.free p hp).empty, (hrep.free p hp).clean⟩
  · exact fun p hp => ⟨hrep.base_ne hp, (hrep.allocated p hp).aligned,
      (hrep.allocated p hp).inside⟩
  · rw [← hpages]
    exact fun p hp => hrep.dirty_range hp

theorem run_representation_sample :
    ∃ A U : List Nat, (A ++ U).Perm (List.range 3) ∧
      ((machine Nat fun _ _ => true).run sampleCache
        [.read 0 (fun _ => 0) 0 5 true]).links.forward 3 = A ++ U := by
  obtain ⟨_, _, _, A, U, hwalk, hperm, _⟩ := run_representation sampleCache_created (by decide)
    (fun _ _ => true) [.read 0 (fun _ => 0) 0 5 true]
  exact ⟨A, U, hperm, (hwalk 3 (Nat.le_refl 3)).1⟩

end LibDvm.Cache
