import LibDvm.Cache.Atomic

/-! # What a power cut leaves

The memory of the cache is lost, the inner disc stays. After a flush that succeeds the
inner disc has everything; from then on the cache writes to it only what the disc reads
as at that time, or what a request is just writing. So whenever the power goes, also in
the middle of a request, each sector has a value that it had at the flush or was given
since.
-/

namespace LibDvm.Cache

open NodeList Store RwState

variable {α : Type} {c : DvmDiscCache α} {A U : List Nat} {m : Nat → α} {rq : Request}
  {st : RwState α}

/-- The cache after `k` turns of a request. -/
def interruptedRequest (isAligned : Bool) (c : DvmDiscCache α) (k address : Nat)
    (buffer : Nat → α) (first num : Nat) (isPartial isWrite : Bool) : DvmDiscCache α :=
  match rwStart isAligned c address buffer first num isPartial isWrite with
  | none => c
  | some (rq, st) => (RwState.loop rq k st).1.self

/-- The cache after `k` turns of a call. -/
def interrupted (aligned : Nat → Bool → Bool) (c : DvmDiscCache α) (k : Nat) :
    Call α → DvmDiscCache α
  | .read address buffer first num isPartial =>
      interruptedRequest (aligned address false) c k address buffer first num isPartial false
  | .write address buffer first num isPartial =>
      interruptedRequest (aligned address true) c k address buffer first num isPartial true
  | .flush => (dvmDiscCacheFlushLoop c true (c.order.take k)).1

/-! ## Values a sector may have -/

/-- The sectors, on the inner disc and as they read, have values that `P` allows, and so
have the sectors still to be written. -/
structure Allowed (P : Nat → α → Prop) (rq : Request) (st : RwState α) : Prop where
  inner : ∀ s, P s (st.self.inner.sectors s)
  logical : ∀ s, P s (st.self.logical s)
  buffer : rq.isWrite = true →
    ∀ k < st.numSectors, P (st.firstSector + k) (st.buffer (st.offset + k))

variable {P : Nat → α → Prop}

theorem flush_allowed (hsound : c.Sound) (hc : c.Coherent) (hfine : Faultless c) {p : Nat}
    (hp : p < c.numPages) (hinner : ∀ s, P s (c.inner.sectors s))
    (hlogical : ∀ s, P s (c.logical s)) (s : Nat) :
    P s ((dvmDiscCacheEntryFlush c p).1.inner.sectors s) := by
  obtain ⟨hkept, hwritten⟩ := flush_sectors hsound hp s
  by_cases hd : c.dirtyAt p s
  · have hok : (dvmDiscCacheEntryFlush c p).2 = true := by
      rw [(flush_verdict c p).1, hfine.2]
      simp
    have hlt : (c.entries p).dirtyStart < (c.entries p).dirtyEnd := by
      obtain ⟨h1, h2⟩ := hd
      omega
    have hcov := (hsound.dirty_covered hp hlt).2 s hd
    rw [hwritten hd hok]
    have hview : c.logical s = c.held p s := hc.view_covered (List.mem_range.mpr hp) hcov
    exact hview ▸ hlogical s
  · rw [hkept hd]
    exact hinner s

theorem Rep.victim_lt (h : Rep c A U) {p : Nat} (hvictim : victim c = some p) :
    p < c.numPages := by
  obtain ⟨A', q, U', hq, hat⟩ := h.victim_spec
  obtain rfl : q = p := Option.some.inj (hq.symm.trans hvictim)
  exact (mem_of_visits (h.at_victim hat).visits q).mp (by simp)

theorem fill_sectors (rq : Request) {page : Nat} (hpage : page < c.base.numSectors) (p : Nat)
    (whole : Bool) : (RwState.fill rq c p page whole).1.inner.sectors =
      (dvmDiscCacheEntryFlush c p).1.inner.sectors := by
  rcases fill_cases rq hpage p whole with ⟨_, heq⟩ | ⟨_, _, _, heq⟩ | ⟨_, _, heq⟩ | ⟨_, _, heq⟩
  · rw [heq]
  · rw [heq]
    rfl
  · rw [heq]
    exact pageLoaded_sectors _ _ _
  · rw [heq]
    exact pageLoaded_sectors _ _ _

theorem directSectors_le (st : RwState α) : st.directSectors ≤ st.numSectors := by
  unfold directSectors
  dsimp only
  split <;> omega

theorem direct_allowed (h : Allowed P rq st) (hfine : Faultless st.self) (s : Nat) :
    P s ((st.direct rq).1.self.inner.sectors s) := by
  have hok := hfine.direct rq
  cases hw : rq.isWrite with
  | true =>
      rw [direct_write hw] at hok ⊢
      show P s ((dvmDiscWriteSectors _ _ _ _ _).1.sectors s)
      rw [dvmDiscWriteSectors_blit hok]
      by_cases hs : st.firstSector ≤ s ∧ s < st.firstSector + st.directSectors
      · obtain ⟨k, rfl⟩ := Nat.exists_eq_add_of_le hs.1
        have hle := directSectors_le st
        rw [blit_offset _ _ _ _ (by omega)]
        exact h.buffer hw k (by omega)
      · rw [blit_outside (by omega)]
        exact h.inner s
  | false =>
      rw [direct_read hw]
      show P s ((dvmDiscReadSectors _ _ _ _ _).1.sectors s)
      rw [dvmDiscReadSectors_sectors]
      exact h.inner s

theorem LoopOk.turn_inner_allowed (h : LoopOk rq st) (hnum : 0 < st.numSectors)
    (hc : st.self.Coherent) (hfine : Faultless st.self) (hallowed : Allowed P rq st) (s : Nat) :
    P s ((RwState.turn rq st).1.self.inner.sectors s) := by
  obtain ⟨A, U, hrep⟩ := h.rep
  obtain ⟨hself, hbuffer, hoffset, hfirst, hnums⟩ := search_fields st st.curPageSector
  have hfill : ∀ p, victim st.self = some p →
      P s ((filled rq st p).self.inner.sectors s) := by
    intro p hvictim
    have hp : p < st.self.numPages := hrep.victim_lt hvictim
    show P s ((RwState.fill rq st.self p st.curPageSector st.isWhole).1.inner.sectors s)
    rw [fill_sectors rq (h.page_lt hnum)]
    exact flush_allowed hrep.sound hc hfine hp hallowed.inner hallowed.logical s
  have hsearched : Allowed P rq (st.search st.curPageSector) := by
    refine ⟨?_, ?_, ?_⟩
    · rw [hself]
      exact hallowed.inner
    · rw [hself]
      exact hallowed.logical
    · rw [hbuffer, hoffset, hfirst, hnums]
      exact hallowed.buffer
  cases turn_cases rq hrep with
  | hit p _ _ eq =>
      rw [eq]
      show P s ((LibDvm.Cache.hitFrom rq st (st.search st.curPageSector) p).self.inner.sectors s)
      rw [LibDvm.Cache.hitFrom, advance_self, hit_inner, hself]
      exact hallowed.inner s
  | filled p _ _ victim _ eq =>
      rw [eq]
      show P s ((LibDvm.Cache.hitFrom rq st (filled rq st p) p).self.inner.sectors s)
      rw [LibDvm.Cache.hitFrom, advance_self, hit_inner]
      exact hfill p victim
  | fillFailed p _ _ victim _ eq =>
      rw [eq]
      exact hfill p victim
  | direct _ _ _ eq =>
      rw [eq]
      show P s ((((st.search st.curPageSector).direct rq).1.advance _).self.inner.sectors s)
      rw [advance_self]
      exact direct_allowed hsearched (hself ▸ hfine) s
  | directFailed _ _ _ eq =>
      rw [eq]
      exact direct_allowed hsearched (hself ▸ hfine) s

/-- Step lemma: a turn writes and caches allowed values only. -/
theorem LoopOk.turn_allowed (h : LoopOk rq st) (hnum : 0 < st.numSectors)
    (hc : st.self.Coherent) (hfine : Faultless st.self) (hfresh : staleFill rq st = false)
    (hs : rq.cached = false → SearchOk st) (hallowed : Allowed P rq st) :
    Allowed P rq (RwState.turn rq st).1 := by
  obtain ⟨n, hserved⟩ := h.turn_served hnum hc hfine hfresh hs
  have hleft := hserved.advanced.num
  refine ⟨h.turn_inner_allowed hnum hc hfine hallowed, fun s => ?_, fun hw k hk => ?_⟩
  · rw [hserved.content]
    cases hw : rq.isWrite with
    | true =>
        rw [if_pos rfl]
        by_cases hin : st.firstSector ≤ s ∧ s < st.firstSector + n
        · obtain ⟨k, rfl⟩ := Nat.exists_eq_add_of_le hin.1
          rw [blit_offset _ _ _ _ (by omega)]
          exact hallowed.buffer hw k (by omega)
        · rw [blit_outside (by omega)]
          exact hallowed.logical s
    | false => exact hallowed.logical s
  · rw [hserved.buffer, if_pos hw, hserved.advanced.first, hserved.advanced.offset,
      Nat.add_assoc, Nat.add_assoc]
    exact hallowed.buffer hw (n + k) (by omega)

theorem LoopOk.loop_allowed (fuel : Nat) (h : LoopOk rq st) (hc : st.self.Coherent)
    (hfine : Faultless st.self) (hfresh : staleLoop rq fuel st = false)
    (hs : rq.cached = false → 0 < st.numSectors → SearchOk st) (hallowed : Allowed P rq st) :
    Allowed P rq (RwState.loop rq fuel st).1 := by
  induction fuel generalizing st with
  | zero => exact hallowed
  | succ fuel ih =>
      rw [RwState.loop]
      by_cases hzero : st.numSectors = 0
      · rw [if_pos hzero]
        exact hallowed
      · have hnum := Nat.pos_of_ne_zero hzero
        have hgo := h.turn_ok hnum hfine
        rw [staleLoop, if_neg hzero, hgo, Bool.true_and, Bool.or_eq_false_iff] at hfresh
        obtain ⟨_, hserved⟩ := h.turn_served hnum hc hfine hfresh.1 fun hst => hs hst hnum
        obtain ⟨hnext, hsame, _⟩ := h.turn hnum
        rw [if_neg hzero, if_pos hgo]
        exact ih hnext hserved.coherent (hfine.of_same hsame) hfresh.2
          (fun hst => h.stream_search hnum hst (hs hst hnum) hgo)
          (h.turn_allowed hnum hc hfine hfresh.1 (fun hst => hs hst hnum) hallowed)

theorem LoopOk.staleLoop_all {n : Nat} (h : LoopOk rq st) (hn : st.numSectors ≤ n)
    (hfresh : staleLoop rq n st = false) (turns : Nat) : staleLoop rq turns st = false := by
  induction turns generalizing n st with
  | zero => rfl
  | succ turns ih =>
      rw [staleLoop]
      by_cases hzero : st.numSectors = 0
      · rw [if_pos hzero]
      · obtain ⟨n, rfl⟩ : ∃ k, n = k + 1 := ⟨n - 1, by omega⟩
        rw [staleLoop, if_neg hzero, Bool.or_eq_false_iff] at hfresh
        rw [if_neg hzero, Bool.or_eq_false_iff]
        obtain ⟨hnext, _, hless⟩ := h.turn (Nat.pos_of_ne_zero hzero)
        refine ⟨hfresh.1, ?_⟩
        cases hgo : (RwState.turn rq st).2 with
        | true =>
            obtain ⟨k, hpos, hadv, _⟩ := hless hgo
            have hleft := hadv.num
            have hrest := hfresh.2
            rw [hgo, Bool.true_and] at hrest
            exact ih hnext (by omega) hrest
        | false => rfl

theorem flushLoop_allowed (ret : Bool) (xs : List Nat) (hsound : c.Sound) (hc : c.Coherent)
    (hfine : Faultless c) (hxs : ∀ p ∈ xs, p < c.numPages)
    (hinner : ∀ s, P s (c.inner.sectors s)) (hlogical : ∀ s, P s (c.logical s)) (s : Nat) :
    P s ((dvmDiscCacheFlushLoop c ret xs).1.inner.sectors s) := by
  induction xs generalizing c ret with
  | nil => exact hinner s
  | cons p rest ih =>
      rw [dvmDiscCacheFlushLoop]
      by_cases hfree : c.unallocated p = true
      · rw [if_pos hfree]
        exact hinner s
      · rw [if_neg hfree]
        have hp := hxs p (by simp)
        have hsame := flush_same c p
        obtain ⟨hcoherent, hlog⟩ := flush_coherent hsound hc hp
        apply ih _ (flush_sound hsound) hcoherent (hfine.of_same hsame)
        · rw [hsame.pages]
          exact fun q hq => hxs q (List.mem_cons_of_mem p hq)
        · exact fun s => flush_allowed hsound hc hfine hp hinner hlogical s
        · exact fun s => (hlog s).symm ▸ hlogical s

/-! ## Calls -/

theorem Represents.loop_allowed (h : Represents c m) (isAligned : Bool) (address : Nat)
    (buffer : Nat → α) (first num : Nat) (isPartial isWrite : Bool)
    (hfresh : staleRequest isAligned c address buffer first num isPartial isWrite = false)
    (hinner : ∀ s, P s (c.inner.sectors s)) (hlogical : ∀ s, P s (m s))
    (hbuffer : isWrite = true → first + num ≤ c.base.numSectors →
      ∀ k < num, P (first + k) (buffer k)) (turns s : Nat) :
    P s ((interruptedRequest isAligned c turns address buffer first num isPartial
      isWrite).inner.sectors s) := by
  obtain ⟨A, U, hrep⟩ := h.rep
  unfold staleRequest at hfresh
  unfold interruptedRequest
  rcases rwStart_cases isAligned c address buffer first num isPartial isWrite with
    ⟨_, heq⟩ | ⟨_, hin, heq⟩
  · rw [heq]
    exact hinner s
  · rw [heq] at hfresh ⊢
    have hloop := hrep.loopOk isAligned address buffer isPartial isWrite hin
    have hstart : Allowed P (rwRequest isAligned c address num isPartial isWrite)
        (rwInit c buffer first num) := by
      refine ⟨hinner, fun s => ?_, fun hw k hk => ?_⟩
      · exact h.logical ▸ hlogical s
      · show P (first + k) (buffer (0 + k))
        rw [Nat.zero_add]
        exact hbuffer hw hin k hk
    have hsearch : SearchOk (rwInit c buffer first num) :=
      fun hlt => absurd hlt (Nat.not_lt_zero _)
    have hall := hloop.staleLoop_all (Nat.le_refl num) hfresh turns
    exact (hloop.loop_allowed turns h.coherent h.fine hall (fun _ _ => hsearch) hstart).inner s

theorem Represents.interrupted_allowed (h : Represents c m) (aligned : Nat → Bool → Bool)
    {r : Call α} (hr : r.regular aligned c.pageSz = true)
    (hinner : ∀ s, P s (c.inner.sectors s)) (hbefore : ∀ s, P s (m s))
    (hafter : ∀ s, P s (((plainDisc α c.base.numSectors).step m r).1 s)) (turns s : Nat) :
    P s ((interrupted aligned c turns r).inner.sectors s) := by
  obtain ⟨A, U, hrep⟩ := h.rep
  have hfresh := Call.stale_of_regular hrep aligned hr
  cases r with
  | read address buffer first num isPartial =>
      exact h.loop_allowed (aligned address false) address buffer first num isPartial false hfresh
        hinner hbefore (fun hno => by cases hno) turns s
  | write address buffer first num isPartial =>
      refine h.loop_allowed (aligned address true) address buffer first num isPartial true hfresh
        hinner hbefore (fun _ hin k hk => ?_) turns s
      have hnew := hafter (first + k)
      have hrange : first < c.base.numSectors ∧ first + num ≤ c.base.numSectors := by omega
      rw [plainDisc] at hnew
      dsimp only at hnew
      rw [if_pos hrange] at hnew
      dsimp only at hnew
      rw [blit_offset _ _ _ _ hk, Nat.zero_add] at hnew
      exact hnew
  | flush =>
      exact flushLoop_allowed true _ hrep.sound h.coherent h.fine
        (fun p hp => hrep.order_lt (List.mem_of_mem_take hp)) hinner
        (fun s => h.logical ▸ hbefore s) s

theorem call_interrupted (aligned : Nat → Bool → Bool) (c : DvmDiscCache α) (r : Call α) :
    ∃ turns,
      (call aligned c r).1.inner.sectors = (interrupted aligned c turns r).inner.sectors := by
  have hrequest : ∀ isAligned address buffer first num isPartial isWrite,
      (dvmDiscCacheReadWrite isAligned c address buffer first num isPartial
        isWrite).self.inner.sectors =
      (interruptedRequest isAligned c num address buffer first num isPartial
        isWrite).inner.sectors := by
    intro isAligned address buffer first num isPartial isWrite
    unfold dvmDiscCacheReadWrite interruptedRequest
    cases rwStart isAligned c address buffer first num isPartial isWrite <;> rfl
  cases r with
  | read address buffer first num isPartial => exact ⟨num, hrequest _ _ _ _ _ _ _⟩
  | write address buffer first num isPartial => exact ⟨num, hrequest _ _ _ _ _ _ _⟩
  | flush =>
      refine ⟨c.order.length, ?_⟩
      rw [interrupted, List.take_length]
      rfl

theorem Represents.run_allowed (h : Represents c m) (aligned : Nat → Bool → Bool)
    {calls : List (Call α)} (hcalls : ∀ r ∈ calls, r.regular aligned c.pageSz = true)
    (hinner : ∀ s, P s (c.inner.sectors s))
    (hvalues : ∀ j ≤ calls.length, ∀ s,
      P s ((plainDisc α c.base.numSectors).run m (calls.take j) s)) (s : Nat) :
    P s (((machine α aligned).run c calls).inner.sectors s) := by
  induction calls generalizing c m with
  | nil => exact hinner s
  | cons r calls ih =>
      have hr : r.regular aligned c.pageSz = true := hcalls r (by simp)
      obtain ⟨hstep, hsame⟩ := h.regular_call aligned hr
      apply ih hstep
      · rw [hsame.pageSz]
        exact fun r' hr' => hcalls r' (List.mem_cons_of_mem r hr')
      · obtain ⟨turns, heq⟩ := call_interrupted aligned c r
        rw [heq]
        exact h.interrupted_allowed aligned hr hinner (hvalues 0 (Nat.zero_le _))
          (hvalues 1 (by simp)) turns
      · intro j hj
        rw [hsame.numSectors]
        exact hvalues (j + 1) (by simpa using hj)

/-- From a cache whose content is all on the inner disc on, whatever is on the inner disc
has been the content since. -/
theorem Represents.power_cut (h : Represents c m) (hsectors : c.inner.sectors = m)
    (aligned : Nat → Bool → Bool) (calls : List (Call α)) {r : Call α}
    (hregular : ∀ r' ∈ calls ++ [r], r'.regular aligned c.pageSz = true) (turns s : Nat) :
    ∃ j ≤ calls.length + 1,
      (interrupted aligned ((machine α aligned).run c calls) turns r).inner.sectors s =
        (plainDisc α c.base.numSectors).run m ((calls ++ [r]).take j) s := by
  have hcalls : ∀ r' ∈ calls, r'.regular aligned c.pageSz = true :=
    fun r' hr' => hregular r' (List.mem_append_left _ hr')
  obtain ⟨hrun, hsame, _⟩ := h.regular_run aligned hcalls
  let P : Nat → α → Prop := fun s v => ∃ j ≤ calls.length + 1,
    v = (plainDisc α c.base.numSectors).run m ((calls ++ [r]).take j) s
  have hnow : ∀ j ≤ calls.length, ∀ s,
      P s ((plainDisc α c.base.numSectors).run m (calls.take j) s) := by
    intro j hj s
    exact ⟨j, by omega, by rw [List.take_append_of_le_length hj]⟩
  refine hrun.interrupted_allowed (P := P) aligned ?_ ?_ ?_ ?_ turns s
  · rw [hsame.pageSz]
    exact hregular r (by simp)
  · refine h.run_allowed aligned hcalls ?_ hnow
    rw [hsectors]
    exact hnow 0 (Nat.zero_le _)
  · intro s
    have hlast := hnow calls.length (Nat.le_refl _) s
    rw [List.take_length] at hlast
    exact hlast
  · rw [hsame.numSectors]
    intro s
    refine ⟨calls.length + 1, Nat.le_refl _, ?_⟩
    rw [List.take_of_length_le (by simp), Machine.run_append]
    rfl

end LibDvm.Cache
