import LibDvm.Cache.Access
import LibDvm.Lib.Span
import Mathlib.Data.Finset.Card

/-! # What the inner disc has to do

The transfers of the inner disc, counted in the access log. A request reads no page twice
and a write reads at most its two ends; and what is written back was written to: the inner
writes so far and the dirty pages are together at most the pages that the writes met.
-/

namespace LibDvm.Cache

open NodeList RwState

variable {α : Type} {c : DvmDiscCache α} {A U : List Nat} {rq : Request} {st : RwState α}

/-! ## Counting -/

def Access.isTransfer (isWrite : Bool) : Access → Bool
  | .transfer w _ _ _ => w == isWrite
  | .copy _ _ _ _ _ => false

namespace DvmDiscCache

def transfers (c : DvmDiscCache α) (isWrite : Bool) : Nat :=
  c.log.countP (Access.isTransfer isWrite)

def dirtyPages (c : DvmDiscCache α) : Finset Nat :=
  (Finset.range c.numPages).filter fun p => c.isDirty p = true

def writesOwed (c : DvmDiscCache α) : Nat := c.transfers true + c.dirtyPages.card

end DvmDiscCache

theorem mem_dirtyPages {p : Nat} : p ∈ c.dirtyPages ↔ p < c.numPages ∧ c.isDirty p = true := by
  rw [DvmDiscCache.dirtyPages, Finset.mem_filter, Finset.mem_range]

theorem transfers_logged {c' : DvmDiscCache α} {a : Access} (h : c'.log = c.log ++ [a])
    (isWrite : Bool) :
    c'.transfers isWrite = c.transfers isWrite + (a.isTransfer isWrite).toNat := by
  rw [DvmDiscCache.transfers, h, List.countP_append, List.countP_singleton,
    DvmDiscCache.transfers]
  cases a.isTransfer isWrite <;> rfl

theorem writesOwed_congr {c' : DvmDiscCache α} (hw : c'.transfers true = c.transfers true)
    (hpages : c'.numPages = c.numPages) (hdirty : ∀ p, c'.isDirty p = c.isDirty p) :
    c'.writesOwed = c.writesOwed := by
  have hset : c'.dirtyPages = c.dirtyPages := by
    ext p
    rw [mem_dirtyPages, mem_dirtyPages, hpages, hdirty]
  rw [DvmDiscCache.writesOwed, DvmDiscCache.writesOwed, hw, hset]

/-! ## What each operation adds -/

theorem flush_reads (c : DvmDiscCache α) (p : Nat) :
    (dvmDiscCacheEntryFlush c p).1.transfers false = c.transfers false := by
  rcases dvmDiscCacheEntryFlush_cases c p with ⟨_, heq⟩ | ⟨_, _, heq⟩ | ⟨_, _, heq⟩
  · rw [heq]
  · rw [heq]
    exact transfers_logged (a := flushAccess c p) rfl false
  · rw [heq]
    exact transfers_logged (a := flushAccess c p) rfl false

theorem flush_writesOwed {p : Nat} (hp : p < c.numPages)
    (hok : (dvmDiscCacheEntryFlush c p).2 = true) :
    (dvmDiscCacheEntryFlush c p).1.writesOwed = c.writesOwed := by
  rcases dvmDiscCacheEntryFlush_cases c p with ⟨_, heq⟩ | ⟨hlt, _, heq⟩ | ⟨_, _, heq⟩
  · rw [heq]
  · have hwritten : (dvmDiscCacheEntryFlush c p).1.transfers true = c.transfers true + 1 := by
      rw [heq]
      exact transfers_logged (a := flushAccess c p) rfl true
    have hdirty : p ∈ c.dirtyPages := mem_dirtyPages.mpr ⟨hp, decide_eq_true hlt⟩
    have hset : (dvmDiscCacheEntryFlush c p).1.dirtyPages = c.dirtyPages.erase p := by
      ext q
      rw [mem_dirtyPages, Finset.mem_erase, mem_dirtyPages, (flush_same c p).pages]
      by_cases hq : q = p
      · subst hq
        have hclean : (dvmDiscCacheEntryFlush c q).1.isDirty q = false := by
          rw [heq]
          simp [DvmDiscCache.isDirty, DvmDiscCache.setDirty, DvmDiscCache.setEntry, u16]
        simp [hclean]
      · rw [flush_isDirty hq]
        simp [hq]
    have hcard := Finset.card_erase_add_one hdirty
    rw [DvmDiscCache.writesOwed, DvmDiscCache.writesOwed, hwritten, hset]
    omega
  · rw [heq] at hok
    cases hok

theorem setBase_isDirty (c : DvmDiscCache α) (p sector q : Nat) :
    (c.setBase p sector).isDirty q = c.isDirty q := by
  by_cases hq : q = p
  · subst hq
    simp [DvmDiscCache.isDirty, DvmDiscCache.setBase, DvmDiscCache.setEntry]
  · simp [DvmDiscCache.isDirty, DvmDiscCache.setBase, DvmDiscCache.setEntry, hq]

theorem pageLoaded_transfers (c : DvmDiscCache α) (p page : Nat) (isWrite : Bool) :
    (pageLoaded c p page).transfers isWrite = c.transfers isWrite + (!isWrite).toNat := by
  let loaded : Access :=
    .transfer false (.slot p (dvmDiscCacheEntryGetData c p)) page (pageExtent c page)
  have hlog : (pageLoaded c p page).log = c.log ++ [loaded] := rfl
  rw [transfers_logged hlog]
  cases isWrite <;> rfl

theorem fill_reads {page : Nat} (hpage : page < c.base.numSectors) (p : Nat) (whole : Bool) :
    (fill rq c p page whole).1.transfers false ≤
      c.transfers false + if rq.isWrite = true ∧ whole = true then 0 else 1 := by
  have hflush := flush_reads c p
  have hload : (pageLoaded (retagged c p page) p page).transfers false =
      (dvmDiscCacheEntryFlush c p).1.transfers false + 1 := pageLoaded_transfers _ _ _ false
  by_cases hskip : rq.isWrite = true ∧ whole = true
  · rw [if_pos hskip, RwState.fill, hskip.1, hskip.2]
    simp only [Bool.not_true, Bool.or_self, Bool.false_eq_true, if_false]
    split
    · exact Nat.le_of_eq hflush
    · exact Nat.le_of_eq hflush
  · rw [if_neg hskip]
    rcases fill_cases rq hpage p whole with
      ⟨_, heq⟩ | ⟨_, hw, hh, _⟩ | ⟨_, _, heq⟩ | ⟨_, _, heq⟩
    · rw [heq]
      dsimp only
      omega
    · exact absurd ⟨hw, hh⟩ hskip
    · rw [heq]
      dsimp only
      omega
    · rw [heq]
      show (pageLoaded (retagged c p page) p page).transfers false ≤ _
      omega

theorem fill_writesOwed (hwrite : ∀ n, c.inner.writeFault n = none) {p page : Nat}
    (hp : p < c.numPages) (hpage : page < c.base.numSectors) (whole : Bool) :
    (fill rq c p page whole).1.writesOwed = c.writesOwed := by
  have hok : (dvmDiscCacheEntryFlush c p).2 = true := by
    rw [(flush_verdict c p).1, hwrite]
    simp
  have hpages := (fill_same rq hpage p whole).pages
  rw [← flush_writesOwed hp hok]
  rcases fill_cases rq hpage p whole with
    ⟨hno, _⟩ | ⟨_, _, _, heq⟩ | ⟨_, _, heq⟩ | ⟨_, _, heq⟩
  · rw [hok] at hno
    cases hno
  · refine writesOwed_congr (by rw [heq]; rfl) (hpages.trans (flush_same c p).pages.symm) ?_
    intro q
    rw [heq]
    exact setBase_isDirty _ p page q
  · refine writesOwed_congr ?_ (hpages.trans (flush_same c p).pages.symm) ?_
    · rw [heq]
      exact pageLoaded_transfers _ p page true
    · intro q
      rw [heq]
      exact setBase_isDirty _ p page q
  · refine writesOwed_congr ?_ (hpages.trans (flush_same c p).pages.symm) ?_
    · rw [heq]
      exact pageLoaded_transfers _ p page true
    · intro q
      rw [heq]
      exact (setBase_isDirty _ p emptyPage q).trans (setBase_isDirty _ p page q)

theorem hit_transfers (rq : Request) (st : RwState α) (p off cur : Nat) (whole : Bool)
    (isWrite : Bool) :
    (st.cacheHit rq p off cur whole).self.transfers isWrite = st.self.transfers isWrite :=
  transfers_logged (hit_log rq st p off cur whole) isWrite

theorem hit_writesOwed (rq : Request) (st : RwState α) (p off cur : Nat) (whole : Bool) :
    (st.cacheHit rq p off cur whole).self.writesOwed ≤
      st.self.writesOwed + rq.isWrite.toNat := by
  have hsame := hit_same rq st p off cur whole
  have htransfers := hit_transfers rq st p off cur whole true
  cases hw : rq.isWrite with
  | false =>
      apply Nat.le_of_eq
      refine writesOwed_congr htransfers hsame.pages fun q => ?_
      rw [DvmDiscCache.isDirty, hit_entries, hitEntry_read hw]
      split
      · next hq => rw [hq]; rfl
      · rfl
  | true =>
      have hset : (st.cacheHit rq p off cur whole).self.dirtyPages ⊆
          insert p st.self.dirtyPages := by
        intro q hq
        by_cases hqp : q = p
        · rw [hqp]
          exact Finset.mem_insert_self _ _
        · rw [mem_dirtyPages, hsame.pages, DvmDiscCache.isDirty, hit_entries, if_neg hqp] at hq
          exact Finset.mem_insert_of_mem (mem_dirtyPages.mpr hq)
      have hcard := (Finset.card_le_card hset).trans (Finset.card_insert_le _ _)
      rw [DvmDiscCache.writesOwed, DvmDiscCache.writesOwed, htransfers, Bool.toNat_true]
      omega

theorem direct_transfers (rq : Request) (st : RwState α) (isWrite : Bool) :
    (st.direct rq).1.self.transfers isWrite =
      st.self.transfers isWrite + (rq.isWrite == isWrite).toNat :=
  transfers_logged (direct_log rq st) isWrite

theorem direct_writesOwed (rq : Request) (st : RwState α) :
    (st.direct rq).1.self.writesOwed = st.self.writesOwed + rq.isWrite.toNat := by
  have hsame := direct_same rq st
  have htransfers := direct_transfers rq st true
  have hset : (st.direct rq).1.self.dirtyPages = st.self.dirtyPages := by
    ext q
    rw [mem_dirtyPages, mem_dirtyPages, hsame.pages, DvmDiscCache.isDirty,
      (direct_fields rq st).2.1]
    rfl
  rw [DvmDiscCache.writesOwed, DvmDiscCache.writesOwed, htransfers, hset]
  cases rq.isWrite
  · exact Nat.add_right_comm _ _ _
  · exact Nat.add_right_comm _ _ _

/-! ## One turn -/

/-- From `c` to `c'` the inner disc reads `reads` times at most, and the writes made and
owed grow by `writes` at most. -/
structure Traffic (c c' : DvmDiscCache α) (reads writes : Nat) : Prop where
  reads : c'.transfers false ≤ c.transfers false + reads
  writes : c'.writesOwed ≤ c.writesOwed + writes

namespace Traffic

variable {c₁ c₂ c₃ : DvmDiscCache α} {r r' w w' : Nat}

theorem refl (c : DvmDiscCache α) (r w : Nat) : Traffic c c r w :=
  ⟨Nat.le_add_right _ _, Nat.le_add_right _ _⟩

theorem trans (h : Traffic c₁ c₂ r w) (h' : Traffic c₂ c₃ r' w') :
    Traffic c₁ c₃ (r + r') (w + w') := by
  obtain ⟨hr, hw⟩ := h
  obtain ⟨hr', hw'⟩ := h'
  exact ⟨by omega, by omega⟩

theorem mono (h : Traffic c₁ c₂ r w) (hr : r ≤ r') (hw : w ≤ w') : Traffic c₁ c₂ r' w' :=
  ⟨Nat.le_trans h.reads (by omega), Nat.le_trans h.writes (by omega)⟩

end Traffic

/-- The inner reads that `n` sectors from `first` on may cost: their pages, or for a write
their ends inside a page. -/
def rangeLoads (isWrite : Bool) (pageSz first n : Nat) : Nat :=
  if isWrite then Align.edges pageSz first n else Align.blocks pageSz first n

def rangeStores (isWrite : Bool) (pageSz first n : Nat) : Nat :=
  if isWrite then Align.blocks pageSz first n else 0

/-- The inner reads of a turn that moves `n` sectors. -/
def turnLoads (isWrite : Bool) (pageSz first n : Nat) : Nat :=
  if isWrite = true ∧ first % pageSz = 0 ∧ pageSz ∣ first + n then 0 else 1

theorem turnLoads_cut (isWrite : Bool) {size s n m : Nat} (hsize : 0 < size) (hm : 0 < m)
    (hmn : m ≤ n) (hend : m < n → size ∣ s + m) :
    turnLoads isWrite size s m + rangeLoads isWrite size (s + m) (n - m) ≤
        rangeLoads isWrite size s n ∧
      isWrite.toNat + rangeStores isWrite size (s + m) (n - m) ≤ rangeStores isWrite size s n := by
  have hblocks := Align.blocks_cut hsize hm hmn hend
  cases isWrite with
  | false =>
      simp only [turnLoads, rangeLoads, rangeStores, Bool.false_eq_true, false_and, if_false,
        Bool.toNat_false]
      omega
  | true =>
      have hedges := Align.edges_cut hm hmn hend
      simp only [turnLoads, rangeLoads, rangeStores, true_and, if_true, Bool.toNat_true]
      omega

theorem LoopOk.direct_end (h : LoopOk rq st) (hnum : 0 < st.numSectors)
    (hmiss : (st.search st.curPageSector).cacheHit? st.curPageSector = none)
    (hrest : (st.search st.curPageSector).directSectors < st.numSectors) :
    st.self.pageSz ∣ st.firstSector + (st.search st.curPageSector).directSectors := by
  obtain ⟨A, U, hrep⟩ := h.rep
  obtain ⟨hself, _, _, hfirst, hnums⟩ := search_fields st st.curPageSector
  obtain ⟨hlt, hne⟩ := h.directLimit_ne hnum hmiss
  have hin := h.inside
  have hN := st.self.base.numSectors_lt
  have hmoved : (st.search st.curPageSector).directSectors =
      secSub (st.search st.curPageSector).directLimit st.firstSector := by
    unfold directSectors at hrest ⊢
    rw [hfirst, hnums] at hrest ⊢
    dsimp only at hrest ⊢
    split at hrest
    · omega
    · next hno => rw [if_neg hno]
  -- a limit below the first sector would wrap to more than the disc has
  have hlimit : (st.search st.curPageSector).directLimit =
      st.firstSector + (st.search st.curPageSector).directSectors := by
    rw [hmoved] at hrest ⊢
    unfold secSub at hrest ⊢
    omega
  rw [← hlimit]
  unfold directLimit at hlimit ⊢
  cases hp : (st.search st.curPageSector).p with
  | none =>
      rw [hp, hself] at hlimit
      dsimp only at hlimit
      omega
  | some p =>
      rw [hp, hself] at hlimit
      dsimp only at hlimit ⊢
      rw [hself]
      rcases List.mem_append.mp ((hrep.mem_iff p).mpr (h.search_held _ hp)) with hA | hU
      · exact (hrep.allocated p hA).aligned
      · rw [(hrep.free p hU).empty] at hlimit
        simp only [emptyPage] at hlimit
        omega

theorem LoopOk.page_end (h : LoopOk rq st) (hnum : 0 < st.numSectors)
    (hrest : st.curSectors < st.numSectors) : st.self.pageSz ∣ st.firstSector + st.curSectors := by
  have hpart := h.pagePart hnum
  have hend := hpart.rest hrest
  rw [← hpart.split, Nat.add_assoc, hend]
  exact Nat.dvd_add hpart.aligned (Nat.dvd_refl _)

theorem LoopOk.turnLoads_page (h : LoopOk rq st) (hnum : 0 < st.numSectors) :
    (if rq.isWrite = true ∧ st.isWhole = true then 0 else 1) ≤
      turnLoads rq.isWrite st.self.pageSz st.firstSector st.curSectors := by
  have hpart := h.pagePart hnum
  unfold turnLoads
  split
  · omega
  · next hpartial =>
      rw [if_neg]
      rintro ⟨hw, hfirst, hend⟩
      apply hpartial
      refine ⟨hw, hpart.whole.mpr ?_⟩
      have hoff : st.curPageOffset = 0 := by
        have hsplit := hpart.split
        have hmod := Align.down_add_mod st.self.pageSz st.firstSector
        rw [hpart.down] at hsplit
        omega
      have hcur : st.self.pageSz ∣ st.curSectors :=
        (Nat.dvd_add_right (Nat.dvd_of_mod_eq_zero hfirst)).mp hend
      have hle := Nat.le_of_dvd hpart.pos hcur
      have hfits := hpart.fits
      exact ⟨hoff, by omega⟩

theorem hitFrom_traffic (rq : Request) (st from_ : RwState α) (p : Nat) :
    Traffic from_.self (hitFrom rq st from_ p).self 0 rq.isWrite.toNat :=
  ⟨Nat.le_of_eq (hit_transfers rq from_ p st.curPageOffset st.curSectors st.isWhole false),
    hit_writesOwed rq from_ p st.curPageOffset st.curSectors st.isWhole⟩

theorem LoopOk.filled_traffic (h : LoopOk rq st) (hnum : 0 < st.numSectors)
    (hwrite : ∀ n, st.self.inner.writeFault n = none) {p : Nat} (hp : p < st.self.numPages) :
    Traffic st.self (filled rq st p).self
      (turnLoads rq.isWrite st.self.pageSz st.firstSector st.curSectors) 0 :=
  ⟨Nat.le_trans (fill_reads (h.page_lt hnum) p st.isWhole)
      (Nat.add_le_add_left (h.turnLoads_page hnum) _),
    Nat.le_of_eq (fill_writesOwed hwrite hp (h.page_lt hnum) st.isWhole)⟩

theorem direct_traffic (rq : Request) (st : RwState α) (pageSz first n : Nat) :
    Traffic st.self (st.direct rq).1.self (turnLoads rq.isWrite pageSz first n)
      rq.isWrite.toNat := by
  refine ⟨?_, Nat.le_of_eq (direct_writesOwed rq st)⟩
  rw [direct_transfers]
  cases rq.isWrite with
  | false => exact Nat.le_refl _
  | true => exact Nat.le_add_right _ _

/-- Step lemma: what a turn that moves `n` sectors costs. -/
theorem LoopOk.turn_traffic (h : LoopOk rq st) (hnum : 0 < st.numSectors)
    (hwrite : ∀ n, st.self.inner.writeFault n = none) :
    ∃ n, 0 < n ∧ n ≤ st.numSectors ∧
      (n < st.numSectors → st.self.pageSz ∣ st.firstSector + n) ∧
      ((RwState.turn rq st).2 = true → Advanced st (RwState.turn rq st).1 n) ∧
      Traffic st.self (RwState.turn rq st).1.self
        (turnLoads rq.isWrite st.self.pageSz st.firstSector n) rq.isWrite.toNat := by
  obtain ⟨A, U, hrep⟩ := h.rep
  obtain ⟨hself, _, hoffset, hfirst, hnums⟩ := search_fields st st.curPageSector
  have hpart := h.pagePart hnum
  have hend := h.page_end hnum
  cases turn_cases rq hrep with
  | hit p held base eq =>
      have hp := h.hit_mem hnum hrep (h.search_held _ held) base
      have hmoved := h.hitFrom hnum (hself ▸ hrep) (hself ▸ Same.refl st.self) hfirst hnums
        hoffset (fun q hq => h.search_held _ hq) hp (hself ▸ base)
      have htraffic := hitFrom_traffic rq st (st.search st.curPageSector) p
      rw [hself] at htraffic
      rw [eq]
      exact ⟨st.curSectors, hpart.pos, hpart.le, hend, fun _ => hmoved.2,
        htraffic.mono (Nat.zero_le _) (Nat.le_refl _)⟩
  | filled p miss cached victim ok eq =>
      obtain ⟨A', U', hrep', hp, hpn, hbase⟩ := h.fill_ok hnum victim ok
      have hsame : Same st.self (filled rq st p).self :=
        fill_same rq (h.page_lt hnum) p st.isWhole
      have hmoved := h.hitFrom hnum hrep' hsame hfirst hnums hoffset
        (fun q hq => by obtain rfl : p = q := Option.some.inj hq; exact hpn) hp hbase
      have htraffic := (h.filled_traffic hnum hwrite hpn).trans
        (hitFrom_traffic rq st (filled rq st p) p)
      rw [Nat.add_zero, Nat.zero_add] at htraffic
      rw [eq]
      exact ⟨st.curSectors, hpart.pos, hpart.le, hend, fun _ => hmoved.2, htraffic⟩
  | fillFailed p miss cached victim failed eq =>
      obtain ⟨_, hpn⟩ := h.fill_failed hnum victim failed
      rw [eq]
      exact ⟨st.curSectors, hpart.pos, hpart.le, hend, fun hno => (by cases hno),
        (h.filled_traffic hnum hwrite hpn).mono (Nat.le_refl _) (Nat.zero_le _)⟩
  | direct miss streaming ok eq =>
      obtain ⟨hpos, hle⟩ := h.direct_pos hnum miss
      have htraffic := direct_traffic rq (st.search st.curPageSector) st.self.pageSz st.firstSector
        (st.search st.curPageSector).directSectors
      rw [hself] at htraffic
      rw [eq]
      refine ⟨_, hpos, hle, h.direct_end hnum miss, fun _ => (h.direct_turn hnum miss).2, ?_⟩
      rw [advance_self]
      exact htraffic
  | directFailed miss streaming failed eq =>
      obtain ⟨hpos, hle⟩ := h.direct_pos hnum miss
      have htraffic := direct_traffic rq (st.search st.curPageSector) st.self.pageSz st.firstSector
        (st.search st.curPageSector).directSectors
      rw [hself] at htraffic
      rw [eq]
      exact ⟨_, hpos, hle, h.direct_end hnum miss, fun hno => (by cases hno), htraffic⟩

/-! ## Requests and runs -/

/-- Run lemma of the loop: what is left of the request bounds what it costs. -/
theorem LoopOk.loop_traffic (fuel : Nat) (h : LoopOk rq st)
    (hwrite : ∀ n, st.self.inner.writeFault n = none) :
    Traffic st.self (RwState.loop rq fuel st).1.self
      (rangeLoads rq.isWrite st.self.pageSz st.firstSector st.numSectors)
      (rangeStores rq.isWrite st.self.pageSz st.firstSector st.numSectors) := by
  induction fuel generalizing st with
  | zero => exact Traffic.refl _ _ _
  | succ fuel ih =>
      unfold RwState.loop
      by_cases hzero : st.numSectors = 0
      · rw [if_pos hzero]
        exact Traffic.refl _ _ _
      · rw [if_neg hzero]
        have hnum := Nat.pos_of_ne_zero hzero
        obtain ⟨hturn, hsame, -⟩ := h.turn hnum
        obtain ⟨n, hpos, hle, hend, hgo, htraffic⟩ := h.turn_traffic hnum hwrite
        obtain ⟨hloads, hstores⟩ :=
          turnLoads_cut rq.isWrite (pageSz_pos st.self) hpos hle hend
        by_cases hon : (RwState.turn rq st).2 = true
        · rw [if_pos hon]
          have hadv := hgo hon
          have hleft : (RwState.turn rq st).1.numSectors = st.numSectors - n := by
            have := hadv.num
            omega
          have hrest := ih hturn (by rw [hsame.writeFault]; exact hwrite)
          rw [hsame.pageSz, hadv.first, hleft] at hrest
          exact (htraffic.trans hrest).mono hloads hstores
        · rw [if_neg hon]
          exact htraffic.mono (by omega) (by omega)

theorem Rep.readWrite_traffic (h : Rep c A U) (hwrite : ∀ n, c.inner.writeFault n = none)
    (isAligned : Bool) (address : Nat) (buffer : Nat → α) (first num : Nat)
    (isPartial isWrite : Bool) :
    Traffic c
      (dvmDiscCacheReadWrite isAligned c address buffer first num isPartial isWrite).self
      (rangeLoads isWrite c.pageSz first num) (rangeStores isWrite c.pageSz first num) := by
  unfold dvmDiscCacheReadWrite
  rcases rwStart_cases isAligned c address buffer first num isPartial isWrite with
    ⟨_, heq⟩ | ⟨_, hin, heq⟩
  · rw [heq]
    exact Traffic.refl _ _ _
  · rw [heq]
    exact (h.loopOk isAligned address buffer isPartial isWrite hin).loop_traffic num hwrite

theorem flushLoop_reads (c : DvmDiscCache α) (ret : Bool) (xs : List Nat) :
    (dvmDiscCacheFlushLoop c ret xs).1.transfers false = c.transfers false := by
  induction xs generalizing c ret with
  | nil => rfl
  | cons p rest ih =>
      rw [dvmDiscCacheFlushLoop]
      split
      · rfl
      · exact (ih _ _).trans (flush_reads c p)

theorem flushLoop_writesOwed (hwrite : ∀ n, c.inner.writeFault n = none) (ret : Bool)
    (xs : List Nat) (hxs : ∀ p ∈ xs, p < c.numPages) :
    (dvmDiscCacheFlushLoop c ret xs).1.writesOwed = c.writesOwed := by
  induction xs generalizing c ret with
  | nil => rfl
  | cons p rest ih =>
      rw [dvmDiscCacheFlushLoop]
      split
      · rfl
      · have hsame := flush_same c p
        have hok : (dvmDiscCacheEntryFlush c p).2 = true := by
          rw [(flush_verdict c p).1, hwrite]
          simp
        refine (ih (by rw [hsame.writeFault]; exact hwrite) _ ?_).trans
          (flush_writesOwed (hxs p List.mem_cons_self) hok)
        rw [hsame.pages]
        exact fun q hq => hxs q (List.mem_cons_of_mem p hq)

def Call.loads (pageSz : Nat) : Call α → Nat
  | .read _ _ first num _ => rangeLoads false pageSz first num
  | .write _ _ first num _ => rangeLoads true pageSz first num
  | .flush => 0

def Call.stores (pageSz : Nat) : Call α → Nat
  | .read _ _ first num _ => rangeStores false pageSz first num
  | .write _ _ first num _ => rangeStores true pageSz first num
  | .flush => 0

theorem Rep.call_traffic (h : Rep c A U) (hwrite : ∀ n, c.inner.writeFault n = none)
    (aligned : Nat → Bool → Bool) (r : Call α) :
    Traffic c (LibDvm.Cache.call aligned c r).1 (r.loads c.pageSz) (r.stores c.pageSz) := by
  cases r with
  | read address buffer first num isPartial =>
      exact h.readWrite_traffic hwrite (aligned address false) address buffer first num isPartial
        false
  | write address buffer first num isPartial =>
      exact h.readWrite_traffic hwrite (aligned address true) address buffer first num isPartial
        true
  | flush =>
      exact ⟨Nat.le_of_eq (flushLoop_reads c true c.order),
        Nat.le_of_eq (flushLoop_writesOwed hwrite true c.order fun p hp => h.order_lt hp)⟩

theorem Rep.run_traffic (h : Rep c A U) (hwrite : ∀ n, c.inner.writeFault n = none)
    (aligned : Nat → Bool → Bool) (calls : List (Call α)) :
    Traffic c ((machine α aligned).run c calls) (calls.map (Call.loads c.pageSz)).sum
      (calls.map (Call.stores c.pageSz)).sum := by
  induction calls generalizing c A U with
  | nil => exact Traffic.refl _ _ _
  | cons r calls ih =>
      obtain ⟨⟨A', U', hrep⟩, hsame, -⟩ := h.call aligned r
      have hrest := ih hrep (by rw [hsame.writeFault]; exact hwrite)
      rw [hsame.pageSz] at hrest
      rw [List.map_cons, List.map_cons, List.sum_cons, List.sum_cons, Machine.run_cons]
      exact (h.call_traffic hwrite aligned r).trans hrest

/-- On an inner disc whose writes succeed, in every run of any calls: the inner reads are at
most the pages that the reads met and the ends inside a page that the writes had, and the
inner writes, with one for each page still dirty, are at most the pages that the writes
met. -/
theorem inner_traffic_bounded {inner : InnerDisc α} {cachePages sectorsPerPage : Nat}
    {mallocOk : Bool} {allocated : Option (Nat × (Nat → α))}
    (hcreate : dvmDiscCacheCreate inner cachePages sectorsPerPage mallocOk allocated = .inr c)
    (hpage : effectivePage inner.disc sectorsPerPage ≤ 32768)
    (hwrite : ∀ n, inner.writeFault n = none) (aligned : Nat → Bool → Bool)
    (calls : List (Call α)) :
    let c' := (machine α aligned).run c calls
    c'.transfers false ≤ (calls.map (Call.loads c.pageSz)).sum ∧
      c'.transfers true + c'.dirtyPages.card ≤ (calls.map (Call.stores c.pageSz)).sum := by
  have hnew := dvmDiscCacheCreate_created hcreate hpage
  have hrun := hnew.rep.run_traffic (by rw [hnew.inner]; exact hwrite) aligned calls
  have hlog : ∀ isWrite, c.transfers isWrite = 0 := by
    intro isWrite
    rw [DvmDiscCache.transfers, hnew.log, List.countP_nil]
  have hclean : c.dirtyPages = ∅ := by
    rw [Finset.eq_empty_iff_forall_notMem]
    intro p hp
    obtain ⟨hlt, hdirty⟩ := mem_dirtyPages.mp hp
    have hfree : p ∈ List.range cachePages := by rwa [List.mem_range, ← hnew.pages]
    have hend := (hnew.rep.free p hfree).clean.2
    have := of_decide_eq_true hdirty
    omega
  have howed : c.writesOwed = 0 := by
    rw [DvmDiscCache.writesOwed, hlog, hclean, Finset.card_empty]
  obtain ⟨hreads, hwrites⟩ := hrun
  rw [hlog, Nat.zero_add] at hreads
  rw [howed, Nat.zero_add] at hwrites
  exact ⟨hreads, hwrites⟩

def fourSectorPages : DvmDiscCache Nat := initialCache sampleDisc 2 4 64 fun _ => 0

def sampleTraffic : List (Call Nat) :=
  [.write 0 (fun _ => 7) 1 6 false, .read 0 (fun _ => 0) 2 1 true, .flush]

theorem inner_traffic_bounded_sample :
    ((machine Nat fun _ _ => true).run fourSectorPages sampleTraffic).transfers false ≤ 3 ∧
      ((machine Nat fun _ _ => true).run fourSectorPages sampleTraffic).transfers true ≤ 2 := by
  have hcreate : dvmDiscCacheCreate sampleDisc 2 4 true (some (64, fun _ => 0)) =
      .inr fourSectorPages := rfl
  have hwrite : ∀ n, sampleDisc.writeFault n = none := fun _ => rfl
  have h := inner_traffic_bounded hcreate (by decide) hwrite (fun _ _ => true) sampleTraffic
  have hstores := Nat.le_trans (Nat.le_add_right _ _) h.2
  exact ⟨h.1, hstores⟩

end LibDvm.Cache
