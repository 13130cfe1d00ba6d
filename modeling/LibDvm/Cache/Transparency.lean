import LibDvm.Cache.Stream

/-! # Transparency

A cached disc next to a plain array of sectors. The two are related by the logical
content, and every call preserves the relation except where the code goes wrong: a
request that goes through the cache keeps relying on an earlier search although it
has reused entries since, and so may fill a page that another entry still holds.
-/

namespace LibDvm.Cache

open NodeList Store RwState

variable {α : Type} {c : DvmDiscCache α} {A U : List Nat} {rq : Request} {st : RwState α}

/-! ## The plain disc -/

/-- An array of `sectors` sectors: a transfer that starts and ends on the disc succeeds,
a read delivers the latest content and a write replaces it. -/
def plainDisc (α : Type) (sectors : Nat) : Machine (Nat → α) (Call α) (Reply α) where
  step m := fun
    | .read _ buffer first num _ =>
        if first < sectors ∧ first + num ≤ sectors then
          (m, ⟨some true, (List.range num).map fun k => m (first + k)⟩)
        else (m, ⟨some false, (List.range num).map buffer⟩)
    | .write _ buffer first num _ =>
        if first < sectors ∧ first + num ≤ sectors then
          (blit m first buffer 0 num, ⟨some true, []⟩)
        else (m, ⟨some false, []⟩)
    | .flush => (m, ⟨some true, []⟩)

/-! ## Stale fills -/

/-- The turn fills the page although an entry other than the one it reuses holds it. -/
def staleFill (rq : Request) (st : RwState α) : Bool :=
  rq.cached && ((st.search st.curPageSector).cacheHit? st.curPageSector).isNone &&
    (List.range st.self.numPages).any fun q =>
      (st.self.entries q).baseSector == st.curPageSector && victim st.self != some q

def staleLoop (rq : Request) : Nat → RwState α → Bool
  | 0, _ => false
  | fuel + 1, st =>
      if st.numSectors = 0 then false
      else staleFill rq st || (turn rq st).2 && staleLoop rq fuel (turn rq st).1

def staleRequest (isAligned : Bool) (c : DvmDiscCache α) (address : Nat) (buffer : Nat → α)
    (first num : Nat) (isPartial isWrite : Bool) : Bool :=
  match rwStart isAligned c address buffer first num isPartial isWrite with
  | none => false
  | some (rq, st) => staleLoop rq num st

def Call.stale (aligned : Nat → Bool → Bool) (c : DvmDiscCache α) : Call α → Bool
  | .read address buffer first num isPartial =>
      staleRequest (aligned address false) c address buffer first num isPartial false
  | .write address buffer first num isPartial =>
      staleRequest (aligned address true) c address buffer first num isPartial true
  | .flush => false

theorem staleFill_streaming (h : rq.cached = false) (st : RwState α) :
    staleFill rq st = false := by
  simp [staleFill, h]

theorem sole_of_not_stale (hfresh : staleFill rq st = false) (hcached : rq.cached = true)
    (hmiss : (st.search st.curPageSector).cacheHit? st.curPageSector = none) {p : Nat}
    (hp : victim st.self = some p) : SoleHolder st.self p st.curPageSector := by
  intro q hq hqp hbase
  have hall : ((List.range st.self.numPages).any fun q =>
      (st.self.entries q).baseSector == st.curPageSector && victim st.self != some q) = false := by
    simpa [staleFill, hcached, hmiss] using hfresh
  have hne := List.any_eq_false.mp hall q (List.mem_range.mpr hq)
  simp [hbase, hp, Ne.symm hqp] at hne

theorem staleFill_fresh (h : LoopOk rq st) (hnum : 0 < st.numSectors)
    (hbase : st.searchBase ≤ st.curPageSector) : staleFill rq st = false := by
  cases hmiss : (st.search st.curPageSector).cacheHit? st.curPageSector with
  | some p => simp [staleFill, hmiss]
  | none =>
      have hnone : ((List.range st.self.numPages).any fun q =>
          (st.self.entries q).baseSector == st.curPageSector && victim st.self != some q) =
          false := by
        rw [List.any_eq_false]
        intro q hq
        simp [h.fresh_miss hnum hbase hmiss (List.mem_range.mp hq)]
      simp [staleFill, hnone]

theorem staleLoop_streaming (h : rq.cached = false) (fuel : Nat) (st : RwState α) :
    staleLoop rq fuel st = false := by
  induction fuel generalizing st with
  | zero => rfl
  | succ fuel ih => simp [staleLoop, staleFill_streaming h, ih]

theorem staleRequest_eq_false (h : Rep c A U) (isAligned : Bool) (address : Nat)
    (buffer : Nat → α) (first num : Nat) (isPartial isWrite : Bool)
    (hcase : first % c.pageSz + num ≤ c.pageSz ∨
      isAligned = true ∧ isPartial = false ∧ c.pageSz ≤ num) :
    staleRequest isAligned c address buffer first num isPartial isWrite = false := by
  unfold staleRequest
  rcases rwStart_cases isAligned c address buffer first num isPartial isWrite with
    ⟨_, heq⟩ | ⟨_, hin, heq⟩
  · rw [heq]
  · rw [heq]
    have hloop := h.loopOk isAligned address buffer isPartial isWrite hin
    dsimp only
    cases hcached : (rwRequest isAligned c address num isPartial isWrite).cached with
    | false => exact staleLoop_streaming hcached num _
    | true =>
        cases num with
        | zero => rfl
        | succ n =>
            have hnum : 0 < (rwInit c buffer first (n + 1)).numSectors := Nat.succ_pos n
            have hpage : first % c.pageSz + (n + 1) ≤ c.pageSz := by
              rcases hcase with hpage | ⟨haligned, hpartial, hlong⟩
              · exact hpage
              · simp [Request.cached, rwRequest, haligned, hpartial, Nat.not_lt.mpr hlong]
                  at hcached
            have hcur := rwInit_single (hloop.pagePart (Nat.succ_pos n)) hpage
            have hfill := staleFill_fresh hloop hnum (Nat.zero_le _)
            rw [staleLoop, if_neg (Nat.ne_of_gt hnum), hfill, Bool.false_or,
              Bool.and_eq_false_iff]
            by_cases hgo : (RwState.turn (rwRequest isAligned c address (n + 1) isPartial
                isWrite) (rwInit c buffer first (n + 1))).2 = true
            · right
              obtain ⟨m, _, hadv, hall⟩ := (hloop.turn hnum).2.2 hgo
              have hzero := hadv.num
              rw [hall hcached, hcur] at hzero
              have hdone : (RwState.turn (rwRequest isAligned c address (n + 1) isPartial
                  isWrite) (rwInit c buffer first (n + 1))).1.numSectors = 0 :=
                Nat.add_eq_right.mp hzero
              cases n with
              | zero => rfl
              | succ n => rw [staleLoop, if_pos hdone]
            · exact .inl (by simpa using hgo)

/-! ## Serving a request -/

theorem direct_write_coherent {rq : Request} {st : RwState α} (hc : st.self.Coherent)
    (hfree : ∀ s, st.firstSector ≤ s ∧ s < st.firstSector + st.directSectors →
      ∀ p ∈ List.range st.self.numPages, st.self.covers p s = false)
    (hw : rq.isWrite = true) (hok : (st.direct rq).2 = true) :
    (st.direct rq).1.self.Coherent ∧
      (st.direct rq).1.self.logical =
        blit st.self.logical st.firstSector st.buffer st.offset st.directSectors := by
  have hsame := direct_same rq st
  obtain ⟨_, hentries, hcells, _⟩ := direct_fields rq st
  rw [direct_write hw] at hok
  have hinner : (st.direct rq).1.self.inner = (dvmDiscWriteSectors st.self.inner st.buffer
      st.offset st.firstSector st.directSectors).1 := by rw [direct_write hw]
  have hwindows : (st.direct rq).1.self.writeBack.windows = st.self.writeBack.windows :=
    congrArg List.range hsame.pages
  have hcovers : (st.direct rq).1.self.covers = st.self.covers :=
    funext fun q => covers_eq hsame (by rw [hentries])
  have hdirty : (st.direct rq).1.self.dirtyAt = st.self.dirtyAt := by
    unfold DvmDiscCache.dirtyAt
    rw [hentries]
  have hheld : (st.direct rq).1.self.held = st.self.held := by
    unfold DvmDiscCache.held entryCell
    rw [hentries, hcells, hsame.shift]
  have houtside : ∀ s, ¬ (st.firstSector ≤ s ∧ s < st.firstSector + st.directSectors) →
      (st.direct rq).1.self.inner.sectors s = st.self.inner.sectors s := by
    intro s hs
    rw [hinner]
    exact dvmDiscWriteSectors_outside (by omega)
  have hbypass := hc.bypass (st.direct rq).1.self.writeBack hwindows hcovers hdirty hheld
    houtside hfree
  refine ⟨hbypass.1, eq_blit ?_ ?_⟩
  · intro k hk
    refine ((hbypass.2 _).1 ⟨by omega, by omega⟩).trans ?_
    show (st.direct rq).1.self.inner.sectors _ = _
    rw [hinner, dvmDiscWriteSectors_blit hok, blit_offset _ _ _ _ hk]
  · intro s hs
    exact (hbypass.2 s).2 (by omega)

theorem direct_read_coherent {rq : Request} {st : RwState α} (hc : st.self.Coherent)
    (hfree : ∀ s, st.firstSector ≤ s ∧ s < st.firstSector + st.directSectors →
      ∀ p ∈ List.range st.self.numPages, st.self.covers p s = false)
    (hr : rq.isWrite = false) (hok : (st.direct rq).2 = true) :
    (st.direct rq).1.self.Coherent ∧ (st.direct rq).1.self.logical = st.self.logical ∧
      (st.direct rq).1.buffer =
        blit st.buffer st.offset st.self.logical st.firstSector st.directSectors := by
  obtain ⟨_, hentries, hcells, _⟩ := direct_fields rq st
  rw [direct_read hr] at hok
  have hinner : (st.direct rq).1.self.inner = (dvmDiscReadSectors st.self.inner st.buffer
      st.offset st.firstSector st.directSectors).1 := by rw [direct_read hr]
  have hread : (st.direct rq).1.buffer = (dvmDiscReadSectors st.self.inner st.buffer
      st.offset st.firstSector st.directSectors).2.1 := by rw [direct_read hr]
  have hstate : (st.direct rq).1.self.writeBack = st.self.writeBack :=
    writeBack_eq (direct_same rq st) hentries hcells (by rw [hinner, dvmDiscReadSectors_sectors])
  refine ⟨?_, ?_, ?_⟩
  · rw [DvmDiscCache.Coherent, hstate]
    exact hc
  · rw [DvmDiscCache.logical, hstate]
    rfl
  · rw [hread, dvmDiscReadSectors_blit hok]
    apply blit_congr
    intro k hk
    have hsector : st.firstSector ≤ st.firstSector + k ∧
        st.firstSector + k < st.firstSector + st.directSectors := by omega
    have hview : st.self.logical (st.firstSector + k) =
        st.self.inner.sectors (st.firstSector + k) :=
      WriteBack.view_uncovered (hfree _ hsector)
    exact hview.symm

theorem direct_coherent (rq : Request) (st : RwState α) (hc : st.self.Coherent)
    (hfree : ∀ s, st.firstSector ≤ s ∧ s < st.firstSector + st.directSectors →
      ∀ p ∈ List.range st.self.numPages, st.self.covers p s = false)
    (hok : (st.direct rq).2 = true) :
    (st.direct rq).1.self.Coherent ∧
      (st.direct rq).1.self.logical =
        (if rq.isWrite then
          blit st.self.logical st.firstSector st.buffer st.offset st.directSectors
        else st.self.logical) ∧
      (st.direct rq).1.buffer =
        if rq.isWrite then st.buffer
        else blit st.buffer st.offset st.self.logical st.firstSector st.directSectors := by
  cases hw : rq.isWrite with
  | true =>
      obtain ⟨hcoherent, hlogical⟩ := direct_write_coherent hc hfree hw hok
      exact ⟨hcoherent, hlogical, by rw [direct_write hw, if_pos rfl]⟩
  | false => exact direct_read_coherent hc hfree hw hok

theorem LoopOk.direct_served (h : LoopOk rq st) (hnum : 0 < st.numSectors)
    (hs : SearchOk st) (hc : st.self.Coherent)
    (hmiss : (st.search st.curPageSector).cacheHit? st.curPageSector = none)
    (hok : ((st.search st.curPageSector).direct rq).2 = true) :
    Served rq st (((st.search st.curPageSector).direct rq).1.advance
        (st.search st.curPageSector).directSectors)
      (st.search st.curPageSector).directSectors := by
  obtain ⟨A, U, hrep⟩ := h.rep
  obtain ⟨hself, hbuffer, hoffset, hfirst, _⟩ := search_fields st st.curPageSector
  obtain ⟨hcoh, hlog, hbuf⟩ := direct_coherent rq (st.search st.curPageSector)
    (by rw [hself]; exact hc)
    (by
      rw [hself, hfirst]
      exact fun s hs' p hp =>
        h.direct_uncovered hnum (hs.search hrep) hmiss hs' (List.mem_range.mp hp))
    hok
  rw [hself, hbuffer, hoffset, hfirst] at hlog hbuf
  refine ⟨?_, ?_, ?_, (h.direct_turn hnum hmiss).2⟩
  · rw [advance_self]
    exact hcoh
  · rw [advance_self]
    exact hlog
  · rw [advance_buffer]
    exact hbuf

/-- Step lemma: without inner failures and stale fills, a turn serves its sectors. -/
theorem LoopOk.turn_served (h : LoopOk rq st) (hnum : 0 < st.numSectors)
    (hc : st.self.Coherent) (hfine : Faultless st.self) (hfresh : staleFill rq st = false)
    (hs : rq.cached = false → SearchOk st) :
    ∃ n, Served rq st (RwState.turn rq st).1 n := by
  have hok := h.turn_ok hnum hfine
  obtain ⟨A, U, hrep⟩ := h.rep
  cases hcached : rq.cached with
  | true =>
      have hturn := h.cached_turn hnum hcached hc
        fun hmiss p hp => sole_of_not_stale hfresh hcached hmiss hp
      exact ⟨_, hturn.1 hok⟩
  | false =>
      obtain ⟨hself, hbuffer, hoffset, hfirst, hnums⟩ := search_fields st st.curPageSector
      cases h.stream_cases hcached hok with
      | hit p held lt base eq =>
          rw [eq]
          refine ⟨_, h.hitFrom_served hnum (hself ▸ hrep) (hself ▸ Same.refl st.self) hbuffer
            hoffset hfirst hnums (fun q hq => h.search_held _ hq)
            (h.hit_mem hnum hrep lt base) (hself ▸ base) ?_ fun s _ => by rw [hself]⟩
          rw [hself]
          exact WriteBack.Coherent.mono hc fun _ hf => hf.elim
      | direct miss eq =>
          have hdirect : ((st.search st.curPageSector).direct rq).2 = true :=
            Faultless.direct (by rw [hself]; exact hfine) rq
          rw [eq]
          exact ⟨_, h.direct_served hnum (hs hcached) hc miss hdirect⟩

/-- Run lemma: the loop serves the whole request. -/
theorem LoopOk.loop_served (fuel : Nat) (h : LoopOk rq st) (hc : st.self.Coherent)
    (hfine : Faultless st.self) (hfresh : staleLoop rq fuel st = false)
    (hs : rq.cached = false → 0 < st.numSectors → SearchOk st) (hfuel : st.numSectors ≤ fuel) :
    Served rq st (RwState.loop rq fuel st).1 st.numSectors := by
  induction fuel generalizing st with
  | zero =>
      have hzero : st.numSectors = 0 := by omega
      rw [RwState.loop, hzero]
      exact Served.refl rq hc
  | succ fuel ih =>
      rw [RwState.loop]
      by_cases hzero : st.numSectors = 0
      · rw [if_pos hzero, hzero]
        exact Served.refl rq hc
      · have hnum := Nat.pos_of_ne_zero hzero
        have hgo := h.turn_ok hnum hfine
        rw [staleLoop, if_neg hzero, hgo, Bool.true_and, Bool.or_eq_false_iff] at hfresh
        obtain ⟨n, hturn⟩ := h.turn_served hnum hc hfine hfresh.1 fun hst => hs hst hnum
        obtain ⟨hnext, hsame, hless⟩ := h.turn hnum
        obtain ⟨m, hpos, hadv, _⟩ := hless hgo
        have hmoved := hadv.num
        have hrest := ih hnext hturn.coherent (hfine.of_same hsame) hfresh.2
          (fun hst => h.stream_search hnum hst (hs hst hnum) hgo) (by omega)
        have hsum := hturn.advanced.num
        have hall := hturn.trans hrest
        rw [show n + (RwState.turn rq st).1.numSectors = st.numSectors by omega] at hall
        rw [if_neg hzero, if_pos hgo]
        exact hall

/-! ## Calls -/

/-- A cache that stands for the plain disc content `m`. -/
structure Represents (c : DvmDiscCache α) (m : Nat → α) : Prop where
  rep : ∃ A U, Rep c A U
  coherent : c.Coherent
  fine : Faultless c
  logical : c.logical = m

theorem Represents.readWrite {m : Nat → α} (h : Represents c m) (isAligned : Bool)
    (address : Nat) (buffer : Nat → α) (first num : Nat) (isPartial isWrite : Bool)
    (hfresh : staleRequest isAligned c address buffer first num isPartial isWrite = false) :
    let r := dvmDiscCacheReadWrite isAligned c address buffer first num isPartial isWrite
    let inRange := first < c.base.numSectors ∧ first + num ≤ c.base.numSectors
    r.ret = some (decide inRange) ∧
      Represents r.self (if inRange ∧ isWrite = true then blit m first buffer 0 num else m) ∧
      r.buffer = if inRange ∧ isWrite = false then blit buffer 0 m first num else buffer := by
  obtain ⟨A, U, hrep⟩ := h.rep
  obtain ⟨hrep', hsame, _⟩ := hrep.readWrite isAligned address buffer first num isPartial isWrite
  unfold dvmDiscCacheReadWrite at hrep' hsame ⊢
  unfold staleRequest at hfresh
  rcases rwStart_cases isAligned c address buffer first num isPartial isWrite with
    ⟨hout, heq⟩ | ⟨hfirst, hin, heq⟩
  · have hno : ¬ (first < c.base.numSectors ∧ first + num ≤ c.base.numSectors) := by omega
    rw [heq]
    dsimp only
    rw [decide_eq_false hno, if_neg (fun hx => hno hx.1), if_neg (fun hx => hno hx.1)]
    exact ⟨rfl, h, rfl⟩
  · have hyes : first < c.base.numSectors ∧ first + num ≤ c.base.numSectors := ⟨hfirst, hin⟩
    rw [heq] at hrep' hsame hfresh ⊢
    have hloop := hrep.loopOk isAligned address buffer isPartial isWrite hin
    have hsearch : SearchOk (rwInit c buffer first num) :=
      fun hlt => absurd hlt (Nat.not_lt_zero _)
    have hserved := hloop.loop_served num h.coherent h.fine hfresh (fun _ _ => hsearch)
      (Nat.le_refl num)
    have hret := hloop.loop_ok num h.fine (Nat.le_refl num)
    have hcontent := hserved.content
    have hbuffer := hserved.buffer
    dsimp only at hrep' hsame ⊢
    generalize RwState.loop (rwRequest isAligned c address num isPartial isWrite) num
      (rwInit c buffer first num) = done at *
    rw [decide_eq_true hyes]
    refine ⟨hret, ⟨hrep', hserved.coherent, h.fine.of_same hsame, ?_⟩, ?_⟩
    · rw [← h.logical]
      cases isWrite with
      | true =>
          rw [if_pos ⟨hyes, rfl⟩]
          exact hcontent
      | false =>
          rw [if_neg (by simp)]
          exact hcontent
    · rw [← h.logical]
      cases isWrite with
      | true =>
          rw [if_neg (by simp)]
          exact hbuffer
      | false =>
          rw [if_pos ⟨hyes, rfl⟩]
          exact hbuffer

theorem Represents.call {m : Nat → α} (h : Represents c m) (aligned : Nat → Bool → Bool)
    (r : Call α) (hfresh : r.stale aligned c = false) :
    Represents (LibDvm.Cache.call aligned c r).1
        ((plainDisc α c.base.numSectors).step m r).1 ∧
      (r ≠ .flush → (LibDvm.Cache.call aligned c r).2 =
        ((plainDisc α c.base.numSectors).step m r).2) := by
  cases r with
  | read address buffer first num isPartial =>
      obtain ⟨hret, hrep, hbuffer⟩ := h.readWrite (aligned address false) address buffer first num
        isPartial false hfresh
      dsimp only [LibDvm.Cache.call, plainDisc]
      rw [if_neg (by simp)] at hrep
      rw [hret, hbuffer]
      by_cases hin : first < c.base.numSectors ∧ first + num ≤ c.base.numSectors
      · rw [if_pos hin, if_pos ⟨hin, rfl⟩, decide_eq_true hin]
        refine ⟨hrep, fun _ => ?_⟩
        have hdata : (List.range num).map (blit buffer 0 m first num) =
            (List.range num).map fun k => m (first + k) := by
          apply List.map_congr_left
          intro k hk
          rw [List.mem_range] at hk
          rw [blit_inside (Nat.zero_le k) (by omega), Nat.sub_zero]
        rw [hdata]
      · rw [if_neg hin, if_neg (fun hx => hin hx.1), decide_eq_false hin]
        exact ⟨hrep, fun _ => rfl⟩
  | write address buffer first num isPartial =>
      obtain ⟨hret, hrep, _⟩ := h.readWrite (aligned address true) address buffer first num
        isPartial true hfresh
      dsimp only [LibDvm.Cache.call, plainDisc]
      rw [hret]
      by_cases hin : first < c.base.numSectors ∧ first + num ≤ c.base.numSectors
      · rw [if_pos ⟨hin, rfl⟩] at hrep
        rw [if_pos hin, decide_eq_true hin]
        exact ⟨hrep, fun _ => rfl⟩
      · rw [if_neg (fun hx => hin hx.1)] at hrep
        rw [if_neg hin, decide_eq_false hin]
        exact ⟨hrep, fun _ => rfl⟩
  | flush =>
      obtain ⟨A, U, hrep⟩ := h.rep
      have hflushed := (hrep.flushable h.coherent).flush.1
      refine ⟨⟨⟨A, U, hrep.flushAll.1⟩, hflushed.coherent, h.fine.of_same hflushed.same, ?_⟩,
        fun hne => absurd rfl hne⟩
      show (dvmDiscCacheFlush c).1.logical = m
      rw [← h.logical]
      exact funext hflushed.logical

theorem Created.coherent {inner : InnerDisc α} {cachePages sectorsPerPage : Nat}
    (h : Created inner cachePages sectorsPerPage c) : c.Coherent ∧ c.logical = inner.sectors := by
  have hnone : ∀ p s, c.covers p s = false :=
    fun p s => not_covers_iff.mpr (.inl (h.entries p))
  have hsectors : c.inner.sectors = inner.sectors := by rw [h.inner]
  refine ⟨⟨?_, ?_⟩, ?_⟩
  · intro p _ q _ s hcov
    rw [show c.writeBack.covers p s = c.covers p s from rfl, hnone] at hcov
    cases hcov
  · intro p _ s hcov
    rw [show c.writeBack.covers p s = c.covers p s from rfl, hnone] at hcov
    cases hcov
  · funext s
    rw [← hsectors]
    exact WriteBack.view_uncovered fun p _ => hnone p s

theorem Created.represents {inner : InnerDisc α} {cachePages sectorsPerPage : Nat}
    (h : Created inner cachePages sectorsPerPage c)
    (hread : ∀ n, inner.readFault n = none) (hwrite : ∀ n, inner.writeFault n = none) :
    Represents c inner.sectors := by
  refine ⟨⟨_, _, h.rep⟩, h.coherent.1, ⟨?_, ?_⟩, h.coherent.2⟩
  · rw [h.inner]
    exact hread
  · rw [h.inner]
    exact hwrite

/-! ## Runs -/

/-- On an inner disc without failures, in every run none of whose requests makes a stale
fill, the cached disc answers each transfer as a plain array of sectors does, out of
data slots that lie in the buffer allocated for them. -/
theorem cache_transparent {inner : InnerDisc α} {cachePages sectorsPerPage : Nat}
    {mallocOk : Bool} {allocated : Option (Nat × (Nat → α))}
    (hcreate : dvmDiscCacheCreate inner cachePages sectorsPerPage mallocOk allocated = .inr c)
    (hpage : effectivePage inner.disc sectorsPerPage ≤ 32768)
    (hroom : cachePages * effectivePage inner.disc sectorsPerPage * inner.disc.sectorSz < 2 ^ 32)
    (hread : ∀ n, inner.readFault n = none) (hwrite : ∀ n, inner.writeFault n = none)
    (aligned : Nat → Bool → Bool) (calls : List (Call α))
    (hfresh : (machine α aligned).Throughout (fun c r => r.stale aligned c = false) c calls)
    (r : Call α) (hlast : r.stale aligned ((machine α aligned).run c calls) = false) :
    let c' := (machine α aligned).run c calls
    let m := (plainDisc α inner.disc.numSectors).run inner.sectors calls
    (∀ p < c'.numPages, (p + 1) * c'.pageSz * c'.base.sectorSz ≤ c'.dataSz) ∧
      (r ≠ .flush →
        (call aligned c' r).2 = ((plainDisc α inner.disc.numSectors).step m r).2) := by
  have hnew := dvmDiscCacheCreate_created hcreate hpage
  obtain ⟨_, hsame⟩ := hnew.rep.run aligned calls
  have hrelated : Represents ((machine α aligned).run c calls)
        ((plainDisc α inner.disc.numSectors).run inner.sectors calls) ∧
      ((machine α aligned).run c calls).base.numSectors = inner.disc.numSectors := by
    refine Machine.run_simulates (machine α aligned) (plainDisc α inner.disc.numSectors)
      (fun c r => r.stale aligned c = false)
      (fun c m => Represents c m ∧ c.base.numSectors = inner.disc.numSectors) ?_
      ⟨hnew.represents hread hwrite, hnew.sectors⟩ hfresh
    intro c' m' r' hrel hfresh'
    obtain ⟨hrep, hN⟩ := hrel
    obtain ⟨A, U, hinv⟩ := hrep.rep
    have hstep := (hrep.call aligned r' hfresh').1
    rw [hN] at hstep
    exact ⟨hstep, by rw [← hN]; exact congrArg DvmDisc.numSectors (hinv.call aligned r').2.1.base⟩
  refine ⟨?_, fun hne => ?_⟩
  · intro p hp
    rw [hsame.pages, hnew.pages] at hp
    rw [hsame.pageSz, hsame.base, hsame.dataSz, hnew.dataSz]
    rw [← hnew.page, ← hnew.sectorSz] at hroom
    rw [secWrap_of_lt hroom]
    exact Nat.mul_le_mul_right _ (Nat.mul_le_mul_right _ hp)
  · have hanswer := (hrelated.1.call aligned r hlast).2 hne
    rw [hrelated.2] at hanswer
    exact hanswer

theorem cache_transparent_sample :
    (call (fun _ _ => true) ((machine Nat fun _ _ => true).run sampleCache
      [.write 0 (fun _ => 7) 1 1 true]) (.read 0 (fun _ => 0) 1 1 true)).2 = ⟨some true, [7]⟩ := by
  have h := (cache_transparent sampleCache_created (by decide) (by decide) (fun _ => rfl)
    (fun _ => rfl) (fun _ _ => true) [.write 0 (fun _ => 7) 1 1 true] ⟨by decide, trivial⟩
    (.read 0 (fun _ => 0) 1 1 true) (by decide)).2 (by simp)
  exact h

/-- The write of sector 1 is in the cache when sectors 0 and 1 are read through it; the
read fills a second entry with sector 1 from the inner disc and misses the write. -/
theorem cache_not_transparent :
    let written : List (Call Nat) := [.write 0 (fun _ => 7) 1 1 true]
    let readBack : Call Nat := .read 0 (fun _ => 0) 0 2 true
    dvmDiscCacheCreate sampleDisc 3 1 true (some (64, fun _ => 0)) = .inr sampleCache ∧
      (call (fun _ _ => true) ((machine Nat fun _ _ => true).run sampleCache written)
        readBack).2.data = [100, 101] ∧
      ((plainDisc Nat 8).step ((plainDisc Nat 8).run sampleDisc.sectors written)
        readBack).2.data = [100, 7] :=
  ⟨rfl, by decide, by decide⟩

end LibDvm.Cache
