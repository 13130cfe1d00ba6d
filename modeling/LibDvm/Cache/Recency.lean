import LibDvm.Cache.Invariant
import LibDvm.Lib.Recency

/-! # Recency of the pages

The list of a cache is ordered by last access. The search does not depend on that
order; the choice of the page to give up does. Neither depends on the page size, so
nothing here bounds it.
-/

namespace LibDvm.Cache

open NodeList RwState Recency

variable {α : Type} {c : DvmDiscCache α} {A U : List Nat}

/-! ## Search -/

/-- In every list whose unallocated entries form a suffix, the search returns an entry
that holds the page if there is one, else one with the smallest page above it, else
nothing. -/
theorem search_exact (hlinked : c.links.Linked (A ++ U)) (hlength : (A ++ U).length ≤ c.numPages)
    (hA : ∀ p ∈ A, (c.entries p).baseSector < emptyPage)
    (hU : ∀ p ∈ U, (c.entries p).baseSector = emptyPage) {page : Nat} (hpage : page < emptyPage) :
    ((∃ p ∈ A ++ U, (c.entries p).baseSector = page) →
        ∃ p ∈ A ++ U, dvmDiscCacheSearch c page = some p ∧ (c.entries p).baseSector = page) ∧
      ((∀ p ∈ A ++ U, (c.entries p).baseSector ≠ page) →
        ∀ p, dvmDiscCacheSearch c page = some p →
          p ∈ A ∧ page < (c.entries p).baseSector ∧
            ∀ q ∈ A, page < (c.entries q).baseSector →
              (c.entries p).baseSector ≤ (c.entries q).baseSector) ∧
      (dvmDiscCacheSearch c page = none ↔ ∀ p ∈ A, (c.entries p).baseSector < page) := by
  rcases dvmDiscCacheSearch_cases hlinked hlength hA hU page with
    ⟨p, hp, hret, hbase⟩ | ⟨p, hp, hret, habove, hmin⟩ | ⟨hret, hbelow⟩
  · have hmem : p ∈ A ++ U := List.mem_append_left U hp
    refine ⟨fun _ => ⟨p, hmem, hret, hbase⟩, fun hmiss => absurd hbase (hmiss p hmem), ?_⟩
    rw [hret]
    constructor
    · simp
    · intro hbelow
      have := hbelow p hp
      omega
  · have hmiss : ∀ q ∈ A ++ U, (c.entries q).baseSector ≠ page := by
      intro q hq
      rcases List.mem_append.mp hq with hqA | hqU
      · have := hmin q hqA
        omega
      · rw [hU q hqU]
        omega
    refine ⟨fun ⟨q, hq, hheld⟩ => absurd hheld (hmiss q hq), fun _ r hr => ?_, ?_⟩
    · obtain rfl : p = r := Option.some.inj (hret.symm.trans hr)
      refine ⟨hp, habove, fun q hq hq' => ?_⟩
      have := hmin q hq
      omega
    · rw [hret]
      constructor
      · simp
      · intro hbelow
        have := hbelow p hp
        omega
  · refine ⟨?_, fun _ p hp => ?_, fun _ => hbelow, fun _ => hret⟩
    · rintro ⟨q, hq, hheld⟩
      rcases List.mem_append.mp hq with hqA | hqU
      · have := hbelow q hqA
        omega
      · have := hU q hqU
        omega
    · rw [hret] at hp
      cases hp

def twoPageCache : DvmDiscCache Nat := (sampleCache.setBase 0 4).setBase 1 2

theorem search_exact_sample :
    dvmDiscCacheSearch twoPageCache 3 = some 0 ∧
      (dvmDiscCacheSearch twoPageCache 5 = none ↔
        ∀ p ∈ [0, 1], (twoPageCache.entries p).baseSector < 5) :=
  ⟨by decide +kernel,
    (search_exact (A := [0, 1]) (U := [2]) (initialLinks_linked (by decide : 0 < 3))
      (by decide) (by decide +kernel) (by decide +kernel) (by decide)).2.2⟩

/-! ## The pages in list order -/

/-- The pages that the entries `A` hold. -/
def pagesOf (c : DvmDiscCache α) (A : List Nat) : List Nat :=
  A.map fun p => (c.entries p).baseSector

theorem pagesOf_congr {c' : DvmDiscCache α}
    (h : ∀ p ∈ A, (c'.entries p).baseSector = (c.entries p).baseSector) :
    pagesOf c' A = pagesOf c A := List.map_congr_left h

theorem mem_pagesOf {page : Nat} :
    page ∈ pagesOf c A ↔ ∃ p ∈ A, (c.entries p).baseSector = page := List.mem_map

theorem pagesOf_erase {p : Nat} (hp : p ∈ A) (hnodup : (pagesOf c A).Nodup) :
    pagesOf c (A.erase p) = (pagesOf c A).erase (c.entries p).baseSector := by
  obtain ⟨xs, ys, -, rfl, herase⟩ := List.exists_erase_eq hp
  have hsplit : pagesOf c (xs ++ p :: ys) =
      pagesOf c xs ++ (c.entries p).baseSector :: pagesOf c ys := by simp [pagesOf]
  rw [hsplit] at hnodup ⊢
  have hnew : (c.entries p).baseSector ∉ pagesOf c xs := by
    intro hmem
    exact (List.nodup_append.mp hnodup).2.2 _ hmem _ (by simp) rfl
  rw [herase, List.erase_append_right _ hnew, List.erase_cons_head]
  simp [pagesOf]

theorem Listed.hit (rq : Request) {st : RwState α} (h : Listed st.self A U) {p : Nat} (hp : p ∈ A)
    (off cur : Nat) :
    Listed (st.cacheHit rq p off cur false).self (p :: A.erase p) U := by
  have hsame := hit_same rq st p off cur false
  have hlinks := hit_links rq st p off cur false
  have hbase := hit_base rq st p off cur false
  by_cases hhead : st.self.links.list.next = some p
  · rw [if_neg (by simp [hhead])] at hlinks
    rw [h.erase_head hp hhead]
    exact h.frame hsame.pages hlinks hbase
  · rw [if_pos ⟨rfl, hhead⟩] at hlinks
    exact (h.touch hp hhead).frame hsame.pages hlinks hbase

theorem fill_ok_fields {rq : Request} {p page : Nat} {whole : Bool}
    (hpage : page < c.base.numSectors) (hok : (fill rq c p page whole).2 = true) :
    (fill rq c p page whole).1.entries = (retagged c p page).entries ∧
      (fill rq c p page whole).1.links = c.links := by
  rcases fill_cases rq hpage p whole with
    ⟨_, heq⟩ | ⟨_, _, _, heq⟩ | ⟨_, _, heq⟩ | ⟨_, _, heq⟩
  · simp [heq] at hok
  · rw [heq]
    exact ⟨rfl, flush_links c p⟩
  · rw [heq]
    exact ⟨rfl, flush_links c p⟩
  · simp [heq] at hok

theorem Listed.fill_ok {rq : Request} {p page : Nat} {whole : Bool} {A' U' : List Nat}
    (h : Listed c A U) (hv : VictimAt A U A' p U') (hpage : page < c.base.numSectors)
    (hok : (fill rq c p page whole).2 = true) :
    Listed (fill rq c p page whole).1 (A' ++ [p]) U' ∧
      ((fill rq c p page whole).1.entries p).baseSector = page ∧
      pagesOf (fill rq c p page whole).1 A' = pagesOf c A' := by
  obtain ⟨hentries, hlinks⟩ := fill_ok_fields hpage hok
  have hpages := (fill_same rq hpage p whole).pages
  have hlist : A ++ U = A' ++ [p] ++ U' := by
    rcases hv with ⟨rfl, rfl, rfl⟩ | ⟨rfl, rfl⟩ <;> simp
  have hlinked := h.linked
  have hvisits := h.visits
  rw [hlist] at hlinked hvisits
  have hself : ((fill rq c p page whole).1.entries p).baseSector = page := by
    rw [hentries, retagged_entry]
  have hother : ∀ q ∈ A' ++ U', (fill rq c p page whole).1.entries q = c.entries q := by
    intro q hq
    have hne : q ≠ p := by
      rintro rfl
      have hmiddle : (A' ++ [q] ++ U').Perm (q :: (A' ++ U')) := by simp
      exact (List.nodup_cons.mp (hmiddle.nodup_iff.mp hlinked.nodup)).1 hq
    rw [hentries, retagged_other hne]
  have hlt := c.base.numSectors_lt
  refine ⟨⟨by rw [hlinks]; exact hlinked, by rw [hpages]; exact hvisits, ?_, ?_, ?_⟩, hself, ?_⟩
  · intro q hq
    rcases List.mem_append.mp hq with hqA | hqp
    · rw [hother q (List.mem_append_left U' hqA)]
      apply h.allocated q
      rcases hv with ⟨rfl, _, _⟩ | ⟨rfl, _⟩
      · exact List.mem_append_left _ hqA
      · exact hqA
    · rw [List.mem_singleton.mp hqp, hself]
      simp only [emptyPage]
      omega
  · intro q hq
    rw [hother q (List.mem_append_right A' hq)]
    apply h.free q
    rcases hv with ⟨_, _, rfl⟩ | ⟨_, rfl⟩
    · simp at hq
    · exact List.mem_cons_of_mem p hq
  · rw [hpages]
    exact h.pos
  · exact pagesOf_congr fun q hq => by rw [hother q (List.mem_append_left U' hq)]

/-! ## One request -/

theorem hitFrom_done {rq : Request} {st from_ : RwState α} {p num : Nat} (hlt : num < 2 ^ 32)
    (hcur : st.curSectors = num) (hnums : from_.numSectors = num) :
    (hitFrom rq st from_ p).numSectors = 0 := by
  obtain ⟨_, _, hkept, _, _⟩ :=
    hit_loop rq from_ p st.curPageOffset st.curSectors st.isWhole
  show secSub (from_.cacheHit rq p _ _ _).numSectors _ = 0
  rw [hkept, hnums, hcur, secSub_of_le (Nat.le_refl num) hlt, Nat.sub_self]

/-- The page that holds a sector, named by its first one. -/
abbrev pageOf (c : DvmDiscCache α) (sector : Nat) : Nat := Align.down c.pageSz sector

section Request

variable (isAligned : Bool) (address : Nat) (buffer : Nat → α) {first num : Nat}
  (isPartial isWrite : Bool)

theorem rwInit_page (hshift : c.pageShift < 32) (hfirst : first < 2 ^ 32) (hnum : 0 < num)
    (hpage : first % c.pageSz + num ≤ c.pageSz) (hshort : num < c.pageSz) :
    (rwInit c buffer first num).curPageSector = pageOf c first ∧
      (rwInit c buffer first num).curSectors = num ∧
      (rwInit c buffer first num).isWhole = false := by
  have hpart : PagePart (rwInit c buffer first num) := pagePart_of_shift hshift hfirst hnum
  have hcur := rwInit_single hpart hpage
  refine ⟨hpart.down, hcur, ?_⟩
  by_contra hwhole
  have hall := (hpart.whole.mp (by simpa using hwhole)).2
  rw [hcur] at hall
  exact Nat.ne_of_lt hshort hall

theorem rwInit_search (page : Nat) :
    ((rwInit c buffer first num).search page).p = dvmDiscCacheSearch c page := by
  have hfresh : page ≥ (rwInit c buffer first num).searchBase := Nat.zero_le page
  unfold search
  rw [if_pos hfresh]
  cases hs : dvmDiscCacheSearch c page <;> simp [rwInit, hs]

theorem Listed.rwInit_miss (h : Listed c A U) {page : Nat}
    (hmiss : ((rwInit c buffer first num).search page).cacheHit? page = none) :
    page ∉ pagesOf c A := by
  intro hheld
  obtain ⟨q, hq, hbase⟩ := mem_pagesOf.mp hheld
  have hno := cacheHit?_eq_none.mp hmiss
  rw [rwInit_search, search_self] at hno
  rcases h.search_cases page with ⟨p, _, hs, hpage⟩ | ⟨p, _, _, hgt, hmin⟩ | ⟨_, hbelow⟩
  · exact hno p hs hpage
  · have := hmin q hq
    omega
  · have := hbelow q hq
    omega

theorem Listed.rwInit_mem (h : Listed c A U) {page p : Nat}
    (hheld : ((rwInit c buffer first num).search page).p = some p) : p ∈ A := by
  rw [rwInit_search] at hheld
  rcases h.search_cases page with ⟨q, hq, hs, _⟩ | ⟨q, hq, hs, _⟩ | ⟨hs, _⟩
  · rwa [← Option.some.inj (hs.symm.trans hheld)]
  · rwa [← Option.some.inj (hs.symm.trans hheld)]
  · rw [hs] at hheld
    cases hheld

/-- The outcomes of a request inside a page and shorter than it: it is turned away; it
hits the entry of the page; it misses, and hits the victim filled with the page; it
misses and fails. -/
inductive PageCase (c : DvmDiscCache α) (A U : List Nat) (page : Nat) (r : RwResult α) : Prop where
  | rejected (same : r.self = c) (ret : r.ret = some false)
  | hit (rq : Request) (st : RwState α) (p off cur : Nat) (mem : p ∈ A)
      (base : (c.entries p).baseSector = page) (start : st.self = c)
      (self : r.self = (st.cacheHit rq p off cur false).self)
  | filled (rq : Request) (st : RwState α) (p off cur : Nat) (A' U' : List Nat)
      (miss : page ∉ pagesOf c A) (inside : page < c.base.numSectors)
      (victim : VictimAt A U A' p U') (ok : (fill rq c p page false).2 = true)
      (start : st.self = (fill rq c p page false).1)
      (self : r.self = (st.cacheHit rq p off cur false).self)
  | failed (miss : page ∉ pagesOf c A) (ret : r.ret = some false)

theorem Listed.page_cases (h : Listed c A U) (hshift : c.pageShift < 32) (hnum : 0 < num)
    (hpage : first % c.pageSz + num ≤ c.pageSz) (hshort : num < c.pageSz) :
    PageCase c A U (pageOf c first)
      (dvmDiscCacheReadWrite isAligned c address buffer first num isPartial isWrite) := by
  obtain ⟨n, rfl⟩ : ∃ n, num = n + 1 := ⟨num - 1, by omega⟩
  unfold dvmDiscCacheReadWrite
  rcases rwStart_cases isAligned c address buffer first (n + 1) isPartial isWrite with
    ⟨_, heq⟩ | ⟨hfirst, hin, heq⟩
  · rw [heq]
    exact .rejected rfl rfl
  · rw [heq]
    have hlt := c.base.numSectors_lt
    have hcached : (rwRequest isAligned c address (n + 1) isPartial isWrite).cached = true :=
      (rwRequest_cached_iff isWrite).mpr (Or.inr (Or.inr hshort))
    obtain ⟨hsector, hcur, hwhole⟩ := rwInit_page (c := c) buffer hshift (by omega) hnum hpage
      hshort
    have hinside : pageOf c first < c.base.numSectors :=
      Nat.lt_of_le_of_lt (Align.down_le _ _) hfirst
    obtain ⟨A', v, U', hvictim, hat⟩ := h.victim_spec
    generalize hrq : rwRequest isAligned c address (n + 1) isPartial isWrite = rq at hcached
    generalize hst : rwInit c buffer first (n + 1) = st at hsector hcur hwhole
    have hself : st.self = c := by rw [← hst]; rfl
    have hnums : st.numSectors = n + 1 := by rw [← hst]; rfl
    have hloop := loop_single rq st hnums
    have hdone {from_ : RwState α} (p : Nat) (hfrom : from_.numSectors = n + 1) :
        (hitFrom rq st from_ p).numSectors = 0 :=
      hitFrom_done (by omega) hcur hfrom
    have hmissed (hmiss : (st.search st.curPageSector).cacheHit? st.curPageSector = none) :
        pageOf c first ∉ pagesOf c A := by
      rw [hsector, ← hst] at hmiss
      exact h.rwInit_miss buffer hmiss
    rw [← hself] at hvictim
    cases turn_cases_of_victim rq hvictim with
    | hit p held base eq =>
        obtain ⟨hsearch, _, _, _, hsearched⟩ := search_fields st st.curPageSector
        have hmem : p ∈ A := by
          rw [← hst] at held
          exact h.rwInit_mem buffer held
        rw [eq] at hloop
        rw [hself, hsector] at base
        refine .hit rq (st.search st.curPageSector) p st.curPageOffset st.curSectors hmem base
          (hsearch.trans hself) ?_
        dsimp only
        rw [hloop fun _ => hdone p (hsearched.trans hnums)]
        show (hitFrom rq st _ p).self = _
        rw [hitFrom, advance_self, hwhole]
    | filled p miss cached victim ok eq =>
        obtain rfl : p = v := Option.some.inj (victim.symm.trans hvictim)
        obtain ⟨_, _, _, hfilled⟩ := filled_fields rq st p
        rw [hself, hsector, hwhole] at ok
        rw [eq] at hloop
        refine .filled rq (filled rq st p) p st.curPageOffset st.curSectors A' U' (hmissed miss)
          hinside hat ok ?_ ?_
        · show (fill rq st.self p st.curPageSector st.isWhole).1 = _
          rw [hself, hsector, hwhole]
        · dsimp only
          rw [hloop fun _ => hdone p (hfilled.trans hnums)]
          show (hitFrom rq st _ p).self = _
          rw [hitFrom, advance_self, hwhole]
    | fillFailed p miss cached victim failed eq =>
        rw [eq] at hloop
        refine .failed (hmissed miss) ?_
        dsimp only
        rw [hloop (by simp)]
    | direct miss streaming ok eq =>
        rw [streaming] at hcached
        cases hcached
    | directFailed miss streaming failed eq =>
        rw [streaming] at hcached
        cases hcached

theorem readWrite_zero :
    (dvmDiscCacheReadWrite isAligned c address buffer first 0 isPartial isWrite).self = c := by
  unfold dvmDiscCacheReadWrite
  rcases rwStart_cases isAligned c address buffer first 0 isPartial isWrite with
    ⟨_, heq⟩ | ⟨_, _, heq⟩
  · rw [heq]
  · rw [heq]
    rfl

end Request

section PageCase

variable {page : Nat} {r : RwResult α}

theorem PageCase.resident (hcase : PageCase c A U page r) (hheld : page ∈ pagesOf c A) :
    r.self.inner = c.inner := by
  cases hcase with
  | rejected same ret => rw [same]
  | hit rq st p off cur mem base start self => rw [self, hit_inner, start]
  | filled rq st p off cur A' U' miss => exact absurd hheld miss
  | failed miss => exact absurd hheld miss

theorem PageCase.access (hcase : PageCase c A U page r) (h : Listed c A U)
    (hnodup : (pagesOf c A).Nodup) (hret : r.ret = some true) :
    Same c r.self ∧ ∃ A' U', Listed r.self A' U' ∧
      pagesOf r.self A' = Recency.access c.numPages (pagesOf c A) page := by
  have hlength := h.length_eq
  rw [List.length_append] at hlength
  cases hcase with
  | rejected same ret => simp [ret] at hret
  | hit rq st p off cur mem base start self =>
      have hlisted : Listed st.self A U := by rw [start]; exact h
      have hsame := hit_same rq st p off cur false
      have hpages : pagesOf r.self (p :: A.erase p) = page :: (pagesOf c A).erase page := by
        rw [self, pagesOf_congr (c := st.self) fun q _ => hit_base rq st p off cur false q, start,
          ← base, ← pagesOf_erase mem hnodup]
        rfl
      refine ⟨by rw [self, ← start]; exact hsame, p :: A.erase p, U, ?_, ?_⟩
      · rw [self]
        exact hlisted.hit rq mem off cur
      · rw [hpages, Recency.access, List.take_of_length_le]
        rw [← hpages, pagesOf, List.length_map, List.length_cons, List.length_erase_of_mem mem]
        have := List.length_pos_of_mem mem
        omega
  | filled rq st p off cur A' U' miss inside victim ok start self =>
      obtain ⟨hlisted, hbase, hothers⟩ := h.fill_ok victim inside ok
      have hsame := (fill_same rq inside p false).trans (start ▸ hit_same rq st p off cur false)
      have hnew : p ∉ A' := by
        have hdistinct := (List.nodup_append.mp hlisted.linked.nodup).1
        exact fun hmem => (List.nodup_append.mp hdistinct).2.2 p hmem p (by simp) rfl
      rw [← start] at hlisted hbase hothers
      have hfront : (p :: (A' ++ [p]).erase p) = p :: A' := by
        rw [List.erase_append_right _ hnew, List.erase_cons_head, List.append_nil]
      have hpages : pagesOf r.self (p :: A') = page :: pagesOf c A' := by
        rw [self, pagesOf_congr (c := st.self) fun q _ => hit_base rq st p off cur false q,
          ← hbase, ← hothers]
        rfl
      have hfits : (page :: pagesOf c A).take c.numPages = page :: pagesOf c A' := by
        rcases victim with ⟨rfl, rfl, -⟩ | ⟨rfl, rfl⟩
        · -- a full cache loses the page of its last entry
          have hroom : c.numPages = (pagesOf c A').length + 1 := by
            simp [pagesOf, ← hlength]
          rw [hroom, List.take_succ_cons]
          simp [pagesOf]
        · rw [List.take_of_length_le]
          simp only [pagesOf, List.length_cons, List.length_map] at hlength ⊢
          omega
      refine ⟨by rw [self]; exact hsame, p :: A', U', ?_, ?_⟩
      · rw [self, ← hfront]
        exact hlisted.hit rq (by simp) off cur
      · rw [hpages, Recency.access, List.erase_of_not_mem miss, hfits]
  | failed miss ret => simp [ret] at hret

end PageCase

/-! ## One call -/

/-- The page a call accesses. A flush and a request for no sectors access none. -/
def Call.page (pageSz : Nat) : Call α → Option Nat
  | .read _ _ first num _ => if num = 0 then none else some (Align.down pageSz first)
  | .write _ _ first num _ => if num = 0 then none else some (Align.down pageSz first)
  | .flush => none

def Call.InPage (pageSz : Nat) : Call α → Prop
  | .read _ _ first num _ => num < pageSz ∧ first % pageSz + num ≤ pageSz
  | .write _ _ first num _ => num < pageSz ∧ first % pageSz + num ≤ pageSz
  | .flush => True

def Call.Succeeds (aligned : Nat → Bool → Bool) (c : DvmDiscCache α) : Call α → Prop
  | .flush => True
  | r => (call aligned c r).2.ret = some true

instance (pageSz : Nat) : (r : Call α) → Decidable (r.InPage pageSz)
  | .read _ _ first num _ =>
      inferInstanceAs (Decidable (num < pageSz ∧ first % pageSz + num ≤ pageSz))
  | .write _ _ first num _ =>
      inferInstanceAs (Decidable (num < pageSz ∧ first % pageSz + num ≤ pageSz))
  | .flush => isTrue trivial

instance (aligned : Nat → Bool → Bool) (c : DvmDiscCache α) :
    (r : Call α) → Decidable (r.Succeeds aligned c)
  | .flush => isTrue trivial
  | .read address buffer first num isPartial => inferInstanceAs
      (Decidable ((call aligned c (.read address buffer first num isPartial)).2.ret = some true))
  | .write address buffer first num isPartial => inferInstanceAs
      (Decidable ((call aligned c (.write address buffer first num isPartial)).2.ret = some true))

/-- Least recently used pages with room for `room`, driven by the calls. -/
def lru (α : Type) (pageSz room : Nat) : Machine (List Nat) (Call α) Unit :=
  ⟨fun pages r => (match r.page pageSz with
    | none => pages
    | some page => access room pages page, ())⟩

theorem lru_run (pageSz room : Nat) (pages : List Nat) (calls : List (Call α)) :
    (lru α pageSz room).run pages calls =
      (calls.filterMap (Call.page pageSz)).foldl (access room) pages := by
  induction calls generalizing pages with
  | nil => rfl
  | cons r calls ih =>
      rw [Machine.run_cons, ih]
      cases hpage : r.page pageSz with
      | none => simp [lru, hpage]
      | some page => simp [lru, hpage]

theorem flushLoop_kept (c : DvmDiscCache α) (ret : Bool) (xs : List Nat) :
    Same c (dvmDiscCacheFlushLoop c ret xs).1 ∧
      (dvmDiscCacheFlushLoop c ret xs).1.links = c.links ∧
      ∀ q, ((dvmDiscCacheFlushLoop c ret xs).1.entries q).baseSector =
        (c.entries q).baseSector := by
  induction xs generalizing c ret with
  | nil => exact ⟨Same.refl c, rfl, fun _ => rfl⟩
  | cons p rest ih =>
      rw [dvmDiscCacheFlushLoop]
      by_cases hfree : c.unallocated p = true
      · rw [if_pos hfree]
        exact ⟨Same.refl c, rfl, fun _ => rfl⟩
      · rw [if_neg hfree]
        obtain ⟨hsame, hlinks, hbase⟩ :=
          ih (dvmDiscCacheEntryFlush c p).1 (ret && (dvmDiscCacheEntryFlush c p).2)
        exact ⟨(flush_same c p).trans hsame, hlinks.trans (flush_links c p),
          fun q => (hbase q).trans (flush_base c p q)⟩

/-- The cache `c` holds the given pages, in list order and each once. -/
def HoldsPages (c : DvmDiscCache α) (pages : List Nat) : Prop :=
  pages.Nodup ∧ ∃ A U, Listed c A U ∧ pagesOf c A = pages

theorem HoldsPages.flush {pages : List Nat} (h : HoldsPages c pages) :
    HoldsPages (dvmDiscCacheFlush c).1 pages := by
  obtain ⟨hnodup, A, U, hlisted, hpages⟩ := h
  obtain ⟨hsame, hlinks, hbase⟩ := flushLoop_kept c true c.order
  refine ⟨hnodup, A, U, hlisted.frame hsame.pages hlinks hbase, ?_⟩
  rw [← hpages]
  exact pagesOf_congr fun q _ => hbase q

section Request

variable (isAligned : Bool) (address : Nat) (buffer : Nat → α) {first num : Nat}
  (isPartial isWrite : Bool)

theorem HoldsPages.readWrite {pages : List Nat} (h : HoldsPages c pages)
    (hshift : c.pageShift < 32) (hshort : num < c.pageSz)
    (hpage : first % c.pageSz + num ≤ c.pageSz)
    (hret : (dvmDiscCacheReadWrite isAligned c address buffer first num isPartial isWrite).ret =
      some true) :
    Same c (dvmDiscCacheReadWrite isAligned c address buffer first num isPartial isWrite).self ∧
      HoldsPages
        (dvmDiscCacheReadWrite isAligned c address buffer first num isPartial isWrite).self
        (match if num = 0 then none else some (Align.down c.pageSz first) with
          | none => pages
          | some page => access c.numPages pages page) := by
  by_cases hzero : num = 0
  · subst hzero
    rw [readWrite_zero]
    exact ⟨Same.refl c, h⟩
  · obtain ⟨hnodup, A, U, hlisted, rfl⟩ := h
    have hcase := hlisted.page_cases isAligned address buffer isPartial isWrite hshift
      (Nat.pos_of_ne_zero hzero) hpage hshort
    obtain ⟨hsame, A', U', hlisted', hpages⟩ := hcase.access hlisted hnodup hret
    rw [if_neg hzero]
    exact ⟨hsame, access_nodup _ hnodup _, A', U', hlisted', hpages⟩

end Request

/-- Step lemma: a call that succeeds does to the list what it does to the abstract one. -/
theorem HoldsPages.call {pages : List Nat} (h : HoldsPages c pages) (hshift : c.pageShift < 32)
    (aligned : Nat → Bool → Bool) {r : Call α} (hin : r.InPage c.pageSz)
    (hok : r.Succeeds aligned c) :
    Same c (call aligned c r).1 ∧
      HoldsPages (call aligned c r).1 ((lru α c.pageSz c.numPages).step pages r).1 := by
  cases r with
  | read address buffer first num isPartial =>
      exact h.readWrite (aligned address false) address buffer isPartial false hshift hin.1 hin.2
        hok
  | write address buffer first num isPartial =>
      exact h.readWrite (aligned address true) address buffer isPartial true hshift hin.1 hin.2 hok
  | flush => exact ⟨(flushLoop_kept c true c.order).1.trans (dvmDiscFlush_same _), h.flush⟩

theorem HoldsPages.resident {pages : List Nat} (h : HoldsPages c pages) (hshift : c.pageShift < 32)
    (aligned : Nat → Bool → Bool) {r : Call α} (hin : r.InPage c.pageSz) {page : Nat}
    (hpage : r.page c.pageSz = some page) (hheld : page ∈ pages) :
    (LibDvm.Cache.call aligned c r).1.inner = c.inner := by
  obtain ⟨-, A, U, hlisted, rfl⟩ := h
  cases r with
  | read address buffer first num isPartial =>
      obtain ⟨hnum, rfl⟩ : num ≠ 0 ∧ Align.down c.pageSz first = page := by
        simpa [Call.page] using hpage
      exact (hlisted.page_cases (aligned address false) address buffer isPartial false hshift
        (Nat.pos_of_ne_zero hnum) hin.2 hin.1).resident hheld
  | write address buffer first num isPartial =>
      obtain ⟨hnum, rfl⟩ : num ≠ 0 ∧ Align.down c.pageSz first = page := by
        simpa [Call.page] using hpage
      exact (hlisted.page_cases (aligned address true) address buffer isPartial true hshift
        (Nat.pos_of_ne_zero hnum) hin.2 hin.1).resident hheld
  | flush => cases hpage

/-! ## Runs -/

/-- Run lemma: the list of the cache follows the abstract one. -/
theorem HoldsPages.run {pages : List Nat} (h : HoldsPages c pages) (hshift : c.pageShift < 32)
    (aligned : Nat → Bool → Bool) {calls : List (Call α)}
    (hcalls : (machine α aligned).Throughout
      (fun c' r => r.InPage c.pageSz ∧ r.Succeeds aligned c') c calls) :
    Same c ((machine α aligned).run c calls) ∧
      HoldsPages ((machine α aligned).run c calls)
        ((lru α c.pageSz c.numPages).run pages calls) := by
  refine (machine α aligned).run_simulates (lru α c.pageSz c.numPages) _
    (fun c' pages' => Same c c' ∧ HoldsPages c' pages') ?_ ⟨Same.refl c, h⟩ hcalls
  rintro c' pages' r ⟨hsame, hholds⟩ ⟨hin, hok⟩
  have hstep := hholds.call (by rw [hsame.shift]; exact hshift) aligned
    (by rw [hsame.pageSz]; exact hin) hok
  rw [hsame.pageSz, hsame.pages] at hstep
  exact ⟨hsame.trans hstep.1, hstep.2⟩

/-- After successful requests that lie inside a page each and are shorter than it, and any
flushes, the list holds the most recent distinct pages there is room for, most recent
first, then the unallocated entries; a request for one of these pages makes no transfer.
The memory behind the pages is taken to hold all of them, as the representable geometries
of `Cache.Geometry` do. -/
theorem run_least_recently_used {inner : InnerDisc α} {cachePages sectorsPerPage : Nat}
    {mallocOk : Bool} {allocated : Option (Nat × (Nat → α))}
    (hcreate : dvmDiscCacheCreate inner cachePages sectorsPerPage mallocOk allocated = .inr c)
    (aligned : Nat → Bool → Bool) {calls : List (Call α)}
    (hcalls : (machine α aligned).Throughout
      (fun c' r => r.InPage c.pageSz ∧ r.Succeeds aligned c') c calls) :
    let c' := (machine α aligned).run c calls
    let accessed := calls.filterMap (Call.page c.pageSz)
    let resident := (recent accessed).take cachePages
    resident.length = min cachePages accessed.dedup.length ∧
      (∃ A U : List Nat, (∀ fuel ≥ cachePages, c'.links.forward fuel = A ++ U) ∧
        (A ++ U).Perm (List.range cachePages) ∧
        A.map (fun p => (c'.entries p).baseSector) = resident ∧
        (∀ p ∈ A, (c'.entries p).baseSector ≠ emptyPage) ∧
        ∀ p ∈ U, (c'.entries p).baseSector = emptyPage) ∧
      ∀ (r : Call α) (page : Nat), r.InPage c.pageSz → r.page c.pageSz = some page →
        page ∈ resident → (call aligned c' r).1.inner = c'.inner := by
  obtain ⟨hpos, shift, data, memory, hshift, hpage, hnew⟩ := dvmDiscCacheCreate_cache hcreate
  have hlisted := initialCache_listed inner (effectivePage inner.disc sectorsPerPage) data memory
    hpos
  have hlog := initialCache_pageShift inner cachePages hpage hshift data memory
  have hpages : c.numPages = cachePages := by rw [hnew]; rfl
  rw [← hnew] at hlisted hlog
  have hempty : HoldsPages c [] := ⟨List.nodup_nil, [], _, hlisted, rfl⟩
  obtain ⟨hsame, hholds⟩ := hempty.run (hlog ▸ hshift) aligned hcalls
  rw [lru_run, foldl_access, hpages] at hholds
  refine ⟨by simp [recent], ?_, ?_⟩
  · obtain ⟨-, A, U, hlist, hA⟩ := hholds
    have hlength := hlist.length_eq
    rw [hsame.pages, hpages] at hlength
    have hvisits := hlist.visits
    rw [hsame.pages, hpages] at hvisits
    exact ⟨A, U, fun fuel hfuel => hlist.linked.forward (by omega), hvisits, hA,
      fun p hp => Nat.ne_of_lt (hlist.allocated p hp), hlist.free⟩
  · intro r page hin hr hheld
    exact hholds.resident (by rw [hsame.shift, hlog]; exact hshift) aligned
      (by rw [hsame.pageSz]; exact hin) (by rw [hsame.pageSz]; exact hr) hheld

def twoSectorPages : DvmDiscCache Nat := initialCache sampleDisc 2 2 64 fun _ => 0

def readOne (sector : Nat) : Call Nat := .read 0 (fun _ => 0) sector 1 false

theorem run_least_recently_used_sample :
    ∃ A U : List Nat,
      ((machine Nat fun _ _ => true).run twoSectorPages
        [readOne 0, readOne 3, .flush, readOne 1, readOne 5]).links.forward 2 = A ++ U ∧
      A.map (fun p => (((machine Nat fun _ _ => true).run twoSectorPages
        [readOne 0, readOne 3, .flush, readOne 1, readOne 5]).entries p).baseSector) =
          [4, 0] := by
  have hcreate : dvmDiscCacheCreate sampleDisc 2 2 true (some (64, fun _ => 0)) =
      .inr twoSectorPages := rfl
  have hcalls : (machine Nat fun _ _ => true).Throughout
      (fun c' r => r.InPage twoSectorPages.pageSz ∧ r.Succeeds (fun _ _ => true) c')
      twoSectorPages [readOne 0, readOne 3, .flush, readOne 1, readOne 5] := by
    decide +kernel
  obtain ⟨-, ⟨A, U, hwalk, -, hpages, -⟩, -⟩ := run_least_recently_used hcreate _ hcalls
  exact ⟨A, U, hwalk 2 (Nat.le_refl 2), hpages.trans (by decide +kernel)⟩

end LibDvm.Cache
