import LibDvm.Cache.Recency
import LibDvm.Cache.Traffic
import LibDvm.Lib.Misses

/-! # How often a page is read

For requests that lie inside a page the inner reads are the misses of least recently used.
So a cache with more pages never reads more often, and no other choice of the pages to keep,
made with all the requests in view, reads much less.
-/

namespace LibDvm.Cache

open NodeList RwState Recency

variable {α : Type} {c : DvmDiscCache α} {A U : List Nat}

/-! ## One call -/

theorem fill_ok_reads {rq : Request} {p page : Nat} (hpage : page < c.base.numSectors)
    (hok : (fill rq c p page false).2 = true) :
    (fill rq c p page false).1.transfers false = c.transfers false + 1 := by
  rcases fill_cases rq hpage p false with
    ⟨_, heq⟩ | ⟨_, _, hwhole, _⟩ | ⟨_, _, heq⟩ | ⟨_, _, heq⟩
  · rw [heq] at hok
    cases hok
  · cases hwhole
  · rw [heq]
    exact (pageLoaded_transfers (retagged c p page) p page false).trans
      (congrArg (· + 1) (flush_reads c p))
  · rw [heq] at hok
    cases hok

theorem PageCase.reads {page : Nat} {r : RwResult α} (hcase : PageCase c A U page r)
    (hret : r.ret = some true) :
    r.self.transfers false = c.transfers false + if page ∈ pagesOf c A then 0 else 1 := by
  cases hcase with
  | rejected same ret => simp [ret] at hret
  | hit rq st p off cur mem base start self =>
      rw [if_pos (mem_pagesOf.mpr ⟨p, mem, base⟩), self, hit_transfers, start]
      rfl
  | filled rq st p off cur A' U' miss inside victim ok start self =>
      rw [if_neg miss, self, hit_transfers, start]
      exact fill_ok_reads inside ok
  | failed miss ret => simp [ret] at hret

/-- Step lemma: a call reads once, if its page is not resident. -/
theorem HoldsPages.call_reads {pages : List Nat} (h : HoldsPages c pages)
    (hshift : c.pageShift < 32) (aligned : Nat → Bool → Bool) {r : Call α}
    (hin : r.InPage c.pageSz) (hok : r.Succeeds aligned c) :
    (LibDvm.Cache.call aligned c r).1.transfers false = c.transfers false +
      misses c.numPages pages (r.page c.pageSz).toList := by
  obtain ⟨-, A, U, hlisted, rfl⟩ := h
  have hrequest : ∀ isAligned address buffer first num isPartial isWrite,
      num < c.pageSz → first % c.pageSz + num ≤ c.pageSz →
      (dvmDiscCacheReadWrite isAligned c address buffer first num isPartial isWrite).ret =
        some true →
      (dvmDiscCacheReadWrite isAligned c address buffer first num isPartial
        isWrite).self.transfers false = c.transfers false + misses c.numPages (pagesOf c A)
          (if num = 0 then none else some (Align.down c.pageSz first)).toList := by
    intro isAligned address buffer first num isPartial isWrite hshort hpage hret
    by_cases hzero : num = 0
    · subst hzero
      rw [readWrite_zero]
      rfl
    · have hcase := hlisted.page_cases isAligned address buffer isPartial isWrite hshift
        (Nat.pos_of_ne_zero hzero) hpage hshort
      rw [hcase.reads hret, if_neg hzero]
      rfl
  cases r with
  | read address buffer first num isPartial =>
      exact hrequest _ address buffer first num isPartial false hin.1 hin.2 hok
  | write address buffer first num isPartial =>
      exact hrequest _ address buffer first num isPartial true hin.1 hin.2 hok
  | flush => exact flushLoop_reads c true c.order

/-! ## Runs -/

theorem HoldsPages.run_reads {pages : List Nat} (h : HoldsPages c pages)
    (hshift : c.pageShift < 32) (aligned : Nat → Bool → Bool) {calls : List (Call α)}
    (hcalls : (machine α aligned).Throughout
      (fun c' r => r.InPage c.pageSz ∧ r.Succeeds aligned c') c calls) :
    ((machine α aligned).run c calls).transfers false = c.transfers false +
      misses c.numPages pages (calls.filterMap (Call.page c.pageSz)) := by
  induction calls generalizing c pages with
  | nil => rfl
  | cons r calls ih =>
      obtain ⟨⟨hin, hok⟩, hrest⟩ := hcalls
      obtain ⟨hsame, hholds⟩ := h.call hshift aligned hin hok
      have hreads := h.call_reads hshift aligned hin hok
      have hrun := ih hholds (by rw [hsame.shift]; exact hshift)
        (by rw [hsame.pageSz]; exact hrest)
      rw [hsame.pages, hsame.pageSz] at hrun
      have hstep : misses c.numPages pages (r.page c.pageSz).toList +
          misses c.numPages ((lru α c.pageSz c.numPages).step pages r).1
            (calls.filterMap (Call.page c.pageSz)) =
          misses c.numPages pages ((r :: calls).filterMap (Call.page c.pageSz)) := by
        cases hpage : r.page c.pageSz with
        | none => simp [lru, hpage, misses]
        | some page => simp [lru, hpage, misses]
      rw [Machine.run_cons]
      calc ((machine α aligned).run (LibDvm.Cache.call aligned c r).1 calls).transfers false
          = _ := hrun
        _ = _ := by rw [hreads, Nat.add_assoc, hstep]

theorem created_reads {inner : InnerDisc α} {cachePages sectorsPerPage : Nat}
    {mallocOk : Bool} {allocated : Option (Nat × (Nat → α))}
    (hcreate : dvmDiscCacheCreate inner cachePages sectorsPerPage mallocOk allocated = .inr c)
    (aligned : Nat → Bool → Bool) {calls : List (Call α)}
    (hcalls : (machine α aligned).Throughout
      (fun c' r => r.InPage c.pageSz ∧ r.Succeeds aligned c') c calls) :
    ((machine α aligned).run c calls).transfers false =
      misses cachePages [] (calls.filterMap (Call.page c.pageSz)) := by
  obtain ⟨hpos, shift, data, memory, hshift, hpage, hnew⟩ := dvmDiscCacheCreate_cache hcreate
  have hlisted := initialCache_listed inner (effectivePage inner.disc sectorsPerPage) data memory
    hpos
  have hlog := initialCache_pageShift inner cachePages hpage hshift data memory
  have hpages : c.numPages = cachePages := by rw [hnew]; rfl
  have hnone : c.transfers false = 0 := by rw [hnew]; rfl
  rw [← hnew] at hlisted hlog
  have hempty : HoldsPages c [] := ⟨List.nodup_nil, [], _, hlisted, rfl⟩
  have hreads := hempty.run_reads (hlog ▸ hshift) aligned hcalls
  rwa [hnone, Nat.zero_add, hpages] at hreads

/-- In a run of successful requests that lie inside a page each and are shorter than it, the
inner reads are the misses of least recently used. Any other choice of at most `other` pages
to keep at a time, that brings in a page only for a request that misses it, reads at least
`cachePages - other + 1` times for each `cachePages` reads of the cache but the first ones. -/
theorem reads_competitive {inner : InnerDisc α} {cachePages sectorsPerPage : Nat}
    {mallocOk : Bool} {allocated : Option (Nat × (Nat → α))}
    (hcreate : dvmDiscCacheCreate inner cachePages sectorsPerPage mallocOk allocated = .inr c)
    (aligned : Nat → Bool → Bool) {calls : List (Call α)}
    (hcalls : (machine α aligned).Throughout
      (fun c' r => r.InPage c.pageSz ∧ r.Succeeds aligned c') c calls) :
    let reads := ((machine α aligned).run c calls).transfers false
    let accessed := calls.filterMap (Call.page c.pageSz)
    reads = misses cachePages [] accessed ∧
      ∀ other ≤ cachePages, ∀ count, Serves other ∅ accessed count →
        (cachePages - other + 1) * reads ≤ cachePages * (count + (cachePages - other + 1)) := by
  have hreads := created_reads hcreate aligned hcalls
  refine ⟨hreads, ?_⟩
  intro other hother count hserves
  rw [hreads]
  have hnone : (∅ : Finset Nat).card ≤ other := Nat.zero_le other
  exact misses_competitive hother hnone hserves []

/-- Of two caches with pages of one size, each over a disc of its own, the one with more pages
reads its disc no more often than the other one, whatever the calls: requests that lie inside
a page each and are shorter than it, all of them successful, and flushes. -/
theorem more_pages_fewer_reads {inner inner' : InnerDisc α} {c' : DvmDiscCache α}
    {cachePages cachePages' sectorsPerPage sectorsPerPage' : Nat} {mallocOk mallocOk' : Bool}
    {allocated allocated' : Option (Nat × (Nat → α))}
    (hcreate : dvmDiscCacheCreate inner cachePages sectorsPerPage mallocOk allocated = .inr c)
    (hcreate' : dvmDiscCacheCreate inner' cachePages' sectorsPerPage' mallocOk' allocated' =
      .inr c')
    (hsize : c.pageSz = c'.pageSz) (hmore : cachePages ≤ cachePages')
    (aligned : Nat → Bool → Bool) {calls : List (Call α)}
    (hcalls : (machine α aligned).Throughout
      (fun d r => r.InPage c.pageSz ∧ r.Succeeds aligned d) c calls)
    (hcalls' : (machine α aligned).Throughout
      (fun d r => r.InPage c.pageSz ∧ r.Succeeds aligned d) c' calls) :
    ((machine α aligned).run c' calls).transfers false ≤
      ((machine α aligned).run c calls).transfers false := by
  rw [created_reads hcreate aligned hcalls,
    created_reads hcreate' aligned (by rw [← hsize]; exact hcalls'), ← hsize]
  simpa using misses_antitone hmore [] (calls.filterMap (Call.page c.pageSz))

def oneTwoSectorPage : DvmDiscCache Nat := initialCache sampleDisc 1 2 64 fun _ => 0

def sampleReads : List (Call Nat) := [readOne 0, readOne 3, .flush, readOne 1]

/-- The two pages, kept in turn in room for one, are brought in three times. -/
theorem reads_competitive_sample :
    2 * ((machine Nat fun _ _ => true).run twoSectorPages sampleReads).transfers false ≤
      2 * (3 + 2) := by
  have hcreate : dvmDiscCacheCreate sampleDisc 2 2 true (some (64, fun _ => 0)) =
      .inr twoSectorPages := rfl
  have hcalls : (machine Nat fun _ _ => true).Throughout
      (fun c' r => r.InPage twoSectorPages.pageSz ∧ r.Succeeds (fun _ _ => true) c')
      twoSectorPages sampleReads := by
    decide +kernel
  have haccessed : sampleReads.filterMap (Call.page twoSectorPages.pageSz) = [0, 2, 0] := by
    decide +kernel
  have hcompare := (reads_competitive hcreate _ hcalls).2 1 (by decide) 3
  rw [haccessed] at hcompare
  have hother : Serves 1 ∅ [0, 2, 0] 3 := serves_lru (by decide) [] [0, 2, 0]
  exact hcompare hother

theorem more_pages_fewer_reads_sample :
    ((machine Nat fun _ _ => true).run twoSectorPages sampleReads).transfers false ≤
      ((machine Nat fun _ _ => true).run oneTwoSectorPage sampleReads).transfers false := by
  have hcreate : dvmDiscCacheCreate sampleDisc 1 2 true (some (64, fun _ => 0)) =
      .inr oneTwoSectorPage := rfl
  have hcreate' : dvmDiscCacheCreate sampleDisc 2 2 true (some (64, fun _ => 0)) =
      .inr twoSectorPages := rfl
  exact more_pages_fewer_reads hcreate hcreate' rfl (by decide) (fun _ _ => true)
    (by decide +kernel) (by decide +kernel)

end LibDvm.Cache
