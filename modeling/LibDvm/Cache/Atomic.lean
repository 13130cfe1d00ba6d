import LibDvm.Cache.Transparency

/-! # Runs of atomic requests

Two kinds of requests are served as one step of a plain disc. On an inner disc without
failures these are the requests inside one page and those that stream; and whatever
the inner disc does, a request inside one page that goes through the cache either
takes effect as a whole or not at all.
-/

namespace LibDvm.Cache

open NodeList Store RwState

variable {α : Type} {c : DvmDiscCache α} {A U : List Nat} {m : Nat → α}

theorem Same.numSectors {c' : DvmDiscCache α} (h : Same c c') :
    c'.base.numSectors = c.base.numSectors := congrArg DvmDisc.numSectors h.base

/-! ## Regular requests -/

def inPage (pageSz first num : Nat) : Bool := decide (first % pageSz + num ≤ pageSz)

/-- The request stays inside one page, or streams past the cache. -/
def regularRange (pageSz first num : Nat) (isAligned isPartial : Bool) : Bool :=
  inPage pageSz first num || isAligned && !isPartial && decide (pageSz ≤ num)

def Call.regular (aligned : Nat → Bool → Bool) (pageSz : Nat) : Call α → Bool
  | .read address _ first num isPartial =>
      regularRange pageSz first num (aligned address false) isPartial
  | .write address _ first num isPartial =>
      regularRange pageSz first num (aligned address true) isPartial
  | .flush => true

theorem Call.stale_of_regular (h : Rep c A U) (aligned : Nat → Bool → Bool) {r : Call α}
    (hr : r.regular aligned c.pageSz = true) : r.stale aligned c = false := by
  have hrange : ∀ isAligned address buffer first num isPartial isWrite,
      regularRange c.pageSz first num isAligned isPartial = true →
        staleRequest isAligned c address buffer first num isPartial isWrite = false := by
    intro isAligned address buffer first num isPartial isWrite hreg
    apply staleRequest_eq_false h
    simpa [regularRange, inPage, and_assoc] using hreg
  cases r with
  | read address buffer first num isPartial => exact hrange _ _ _ _ _ _ _ hr
  | write address buffer first num isPartial => exact hrange _ _ _ _ _ _ _ hr
  | flush => rfl

def Syncing (c : DvmDiscCache α) : Prop := ∀ n, c.inner.flushFault n = false

theorem Represents.flush_ok (h : Represents c m) (hsync : Syncing c) :
    (dvmDiscCacheFlush c).2 = true := by
  obtain ⟨A, U, hrep⟩ := h.rep
  rw [(hrep.flushable h.coherent).flush_ok]
  refine ⟨fun p _ => ?_, hsync _⟩
  rw [DvmDiscCache.writeFails, h.fine.2]
  simp

theorem Represents.flushed_sectors (h : Represents c m) (hok : (dvmDiscCacheFlush c).2 = true) :
    (dvmDiscCacheFlush c).1.inner.sectors = m := by
  obtain ⟨A, U, hrep⟩ := h.rep
  rw [← h.logical]
  exact funext ((hrep.flushable h.coherent).flush_idle hok).1

/-- Step lemma: a regular request, or a flush, is a step of the plain disc. -/
theorem Represents.regular_call (h : Represents c m) (aligned : Nat → Bool → Bool) {r : Call α}
    (hr : r.regular aligned c.pageSz = true) :
    Represents (LibDvm.Cache.call aligned c r).1
        ((plainDisc α c.base.numSectors).step m r).1 ∧
      Same c (LibDvm.Cache.call aligned c r).1 := by
  obtain ⟨A, U, hrep⟩ := h.rep
  exact ⟨(h.call aligned r (Call.stale_of_regular hrep aligned hr)).1,
    (hrep.call aligned r).2.1⟩

theorem Represents.regular_answer (h : Represents c m) (hsync : Syncing c)
    (aligned : Nat → Bool → Bool) {r : Call α} (hr : r.regular aligned c.pageSz = true) :
    (LibDvm.Cache.call aligned c r).2 = ((plainDisc α c.base.numSectors).step m r).2 := by
  obtain ⟨A, U, hrep⟩ := h.rep
  have hanswer := (h.call aligned r (Call.stale_of_regular hrep aligned hr)).2
  cases r with
  | read address buffer first num isPartial => exact hanswer (by simp)
  | write address buffer first num isPartial => exact hanswer (by simp)
  | flush =>
      dsimp only [LibDvm.Cache.call, plainDisc]
      rw [h.flush_ok hsync]

theorem Represents.regular_run (h : Represents c m) (aligned : Nat → Bool → Bool)
    {calls : List (Call α)} (hcalls : ∀ r ∈ calls, r.regular aligned c.pageSz = true) :
    Represents ((machine α aligned).run c calls)
        ((plainDisc α c.base.numSectors).run m calls) ∧
      Same c ((machine α aligned).run c calls) ∧
      (Syncing c → (machine α aligned).answers c calls =
        (plainDisc α c.base.numSectors).answers m calls) := by
  induction calls generalizing c m with
  | nil => exact ⟨h, Same.refl c, fun _ => rfl⟩
  | cons r calls ih =>
      have hr : r.regular aligned c.pageSz = true := hcalls r (by simp)
      obtain ⟨hstep, hsame⟩ := h.regular_call aligned hr
      have hrest := ih hstep (by
        rw [hsame.pageSz]
        exact fun r' hr' => hcalls r' (List.mem_cons_of_mem r hr'))
      rw [hsame.numSectors] at hrest
      refine ⟨hrest.1, hsame.trans hrest.2.1, fun hsync => ?_⟩
      have hsync' : Syncing (LibDvm.Cache.call aligned c r).1 := by
        unfold Syncing
        rw [hsame.flushFault]
        exact hsync
      rw [Machine.answers_cons, Machine.answers_cons, ← h.regular_answer hsync aligned hr]
      exact congrArg _ (hrest.2.2 hsync')

/-! ## Requests under failures -/

def singleRange (pageSz first num : Nat) (isAligned isPartial : Bool) : Bool :=
  inPage pageSz first num && (isPartial || !isAligned || decide (num < pageSz))

def Call.single (aligned : Nat → Bool → Bool) (pageSz : Nat) : Call α → Bool
  | .read address _ first num isPartial =>
      singleRange pageSz first num (aligned address false) isPartial
  | .write address _ first num isPartial =>
      singleRange pageSz first num (aligned address true) isPartial
  | .flush => true

def Reply.ok (reply : Reply α) : Bool := reply.ret == some true

def Reply.delivered (reply : Reply α) : Option (Reply α) := if reply.ok then some reply else none

/-- A disc whose requests fail at the will of the second input. One that fails does
nothing. -/
def fallibleDisc (α : Type) (sectors : Nat) :
    Machine (Nat → α) (Call α × Bool) (Option (Reply α)) where
  step m i :=
    if i.2 then
      let s := (plainDisc α sectors).step m i.1
      (s.1, some s.2)
    else (m, none)

/-- What a request that goes through the cache inside one page does to the content `m`. -/
inductive Outcome (sectors : Nat) (m : Nat → α) (buffer : Nat → α) (first num : Nat)
    (isWrite : Bool) (r : RwResult α) : Prop where
  | failed (ret : r.ret = some false) (content : r.self.logical = m)
  | served (ret : r.ret = some true) (start : first < sectors) (inside : first + num ≤ sectors)
      (content : r.self.logical = if isWrite then blit m first buffer 0 num else m)
      (data : r.buffer = if isWrite then buffer else blit buffer 0 m first num)

theorem Rep.single_readWrite (h : Rep c A U) (hc : c.Coherent) (isAligned : Bool) (address : Nat)
    (buffer : Nat → α) (first num : Nat) (isPartial isWrite : Bool)
    (hrange : singleRange c.pageSz first num isAligned isPartial = true) :
    let r := dvmDiscCacheReadWrite isAligned c address buffer first num isPartial isWrite
    r.self.Coherent ∧ Outcome c.base.numSectors c.logical buffer first num isWrite r := by
  rw [singleRange, inPage, Bool.and_eq_true, decide_eq_true_iff] at hrange
  obtain ⟨hpage, hthrough⟩ := hrange
  unfold dvmDiscCacheReadWrite
  rcases rwStart_cases isAligned c address buffer first num isPartial isWrite with
    ⟨_, heq⟩ | ⟨hfirst, hin, heq⟩
  · rw [heq]
    exact ⟨hc, .failed rfl rfl⟩
  · rw [heq]
    cases num with
    | zero =>
        refine ⟨hc, .served rfl hfirst hin ?_ ?_⟩ <;> cases isWrite <;> simp [RwState.loop, rwInit]
    | succ n =>
        have hloop := h.loopOk isAligned address buffer isPartial isWrite hin
        have hnum : 0 < (rwInit c buffer first (n + 1)).numSectors := Nat.succ_pos n
        have hcur := rwInit_single (hloop.pagePart hnum) hpage
        have hcached :
            (rwRequest isAligned c address (n + 1) isPartial isWrite).cached = true :=
          (rwRequest_cached_iff isWrite).mpr (by simpa [or_assoc] using hthrough)
        have hturn := hloop.cached_turn hnum hcached hc
          fun hmiss _ _ _ hq _ => hloop.fresh_miss hnum (Nat.zero_le _) hmiss hq
        rw [hcur] at hturn
        have hsingle := loop_single (rwRequest isAligned c address (n + 1) isPartial isWrite)
          (rwInit c buffer first (n + 1)) rfl (by
            intro hgo
            have hleft : _ + (n + 1) = n + 1 := (hturn.1 hgo).advanced.num
            omega)
        dsimp only
        rw [hsingle]
        cases hgo : (RwState.turn (rwRequest isAligned c address (n + 1) isPartial isWrite)
            (rwInit c buffer first (n + 1))).2 with
        | true =>
            have hserved := hturn.1 hgo
            exact ⟨hserved.coherent, .served rfl hfirst hin hserved.content hserved.buffer⟩
        | false =>
            obtain ⟨hcoherent, hlogical⟩ := hturn.2 hgo
            exact ⟨hcoherent, .failed rfl (funext hlogical)⟩

/-- Step lemma: under any inner failures a call takes effect as a whole or not at all. -/
theorem Rep.single_call (h : Rep c A U) (hc : c.Coherent) (aligned : Nat → Bool → Bool)
    {r : Call α} (hr : r.single aligned c.pageSz = true) :
    let out := LibDvm.Cache.call aligned c r
    out.1.Coherent ∧ (fallibleDisc α c.base.numSectors).step c.logical (r, out.2.ok) =
      (out.1.logical, out.2.delivered) := by
  cases r with
  | read address buffer first num isPartial =>
      have hrw := h.single_readWrite hc (aligned address false) address buffer first num isPartial
        false hr
      dsimp only [LibDvm.Cache.call]
      obtain ⟨hcoherent, houtcome⟩ := hrw
      refine ⟨hcoherent, ?_⟩
      cases houtcome with
      | failed hret hcontent =>
          rw [hret, hcontent]
          rfl
      | served hret hstart hin hcontent hdata =>
          rw [hret, hcontent, hdata]
          have hlist : (List.range num).map (blit buffer 0 c.logical first num) =
              (List.range num).map fun k => c.logical (first + k) := by
            apply List.map_congr_left
            intro k hk
            rw [List.mem_range] at hk
            rw [blit_inside (Nat.zero_le k) (by omega), Nat.sub_zero]
          simp [Reply.ok, Reply.delivered, fallibleDisc, plainDisc, hstart, hin, hlist]
  | write address buffer first num isPartial =>
      have hrw := h.single_readWrite hc (aligned address true) address buffer first num isPartial
        true hr
      dsimp only [LibDvm.Cache.call]
      obtain ⟨hcoherent, houtcome⟩ := hrw
      refine ⟨hcoherent, ?_⟩
      cases houtcome with
      | failed hret hcontent =>
          rw [hret, hcontent]
          rfl
      | served hret hstart hin hcontent _ =>
          rw [hret, hcontent]
          simp [Reply.ok, Reply.delivered, fallibleDisc, plainDisc, hstart, hin]
  | flush =>
      have hflushed := (h.flushable hc).flush.1
      have hlogical : (dvmDiscCacheFlush c).1.logical = c.logical := funext hflushed.logical
      refine ⟨hflushed.coherent, ?_⟩
      dsimp only [LibDvm.Cache.call]
      rw [hlogical]
      cases hok : (dvmDiscCacheFlush c).2 <;>
        simp [Reply.ok, Reply.delivered, fallibleDisc, plainDisc]

theorem Rep.single_run (h : Rep c A U) (hc : c.Coherent) (aligned : Nat → Bool → Bool)
    {calls : List (Call α)} (hcalls : ∀ r ∈ calls, r.single aligned c.pageSz = true) :
    let c' := (machine α aligned).run c calls
    let replies := (machine α aligned).answers c calls
    (∃ A' U', Rep c' A' U') ∧ c'.Coherent ∧
      (fallibleDisc α c.base.numSectors).answers c.logical (calls.zip (replies.map Reply.ok)) =
        replies.map Reply.delivered ∧
      (fallibleDisc α c.base.numSectors).run c.logical (calls.zip (replies.map Reply.ok)) =
        c'.logical := by
  induction calls generalizing c A U with
  | nil => exact ⟨⟨A, U, h⟩, hc, rfl, rfl⟩
  | cons r calls ih =>
      obtain ⟨hcoherent, hstep⟩ := h.single_call hc aligned (hcalls r (by simp))
      obtain ⟨⟨A', U', hrep⟩, hsame, _⟩ := h.call aligned r
      have hrest := ih hrep hcoherent (by
        rw [hsame.pageSz]
        exact fun r' hr' => hcalls r' (List.mem_cons_of_mem r hr'))
      rw [hsame.numSectors] at hrest
      have hhead : (fallibleDisc α c.base.numSectors).step c.logical
          (r, ((machine α aligned).step c r).2.ok) =
            (((machine α aligned).step c r).1.logical,
              ((machine α aligned).step c r).2.delivered) := hstep
      refine ⟨hrest.1, hrest.2.1, ?_, ?_⟩
      · rw [Machine.answers_cons, List.map_cons, List.map_cons, List.zip_cons_cons,
          Machine.answers_cons, hhead]
        exact congrArg _ hrest.2.2.1
      · rw [Machine.answers_cons, List.map_cons, List.zip_cons_cons, Machine.run_cons, hhead]
        exact hrest.2.2.2

/-- Under any inner failures, in every run of flushes and of requests that go through the
cache inside one page, each call takes effect as a whole or not at all, as its return
value says: reads deliver what the successful writes so far have left, and so does the
inner disc after a flush that succeeds. -/
theorem faulty_run_atomic {inner : InnerDisc α} {cachePages sectorsPerPage : Nat}
    {mallocOk : Bool} {allocated : Option (Nat × (Nat → α))}
    (hcreate : dvmDiscCacheCreate inner cachePages sectorsPerPage mallocOk allocated = .inr c)
    (hpage : effectivePage inner.disc sectorsPerPage ≤ 32768) (aligned : Nat → Bool → Bool)
    {calls : List (Call α)}
    (hcalls : ∀ r ∈ calls, r.single aligned (effectivePage inner.disc sectorsPerPage) = true) :
    let c' := (machine α aligned).run c calls
    let replies := (machine α aligned).answers c calls
    let inputs := calls.zip (replies.map Reply.ok)
    let content := (fallibleDisc α inner.disc.numSectors).run inner.sectors inputs
    (fallibleDisc α inner.disc.numSectors).answers inner.sectors inputs =
        replies.map Reply.delivered ∧
      c'.logical = content ∧
      ((dvmDiscCacheFlush c').2 = true → (dvmDiscCacheFlush c').1.inner.sectors = content) := by
  have hnew := dvmDiscCacheCreate_created hcreate hpage
  obtain ⟨hcoherent, hlogical⟩ := hnew.coherent
  rw [← hnew.page] at hcalls
  obtain ⟨⟨A, U, hrep⟩, hc, hanswers, hrun⟩ := hnew.rep.single_run hcoherent aligned hcalls
  rw [hlogical, hnew.sectors] at hanswers hrun
  refine ⟨hanswers, hrun.symm, fun hok => ?_⟩
  rw [hrun]
  exact funext ((hrep.flushable hc).flush_idle hok).1

def faultyDisc : InnerDisc Nat :=
  { sampleDisc with writeFault := fun n => if n = 0 then some fun _ => 9 else none }

def faultySample : DvmDiscCache Nat := initialCache faultyDisc 1 1 64 fun _ => 0

theorem faultySample_created :
    dvmDiscCacheCreate faultyDisc 1 1 true (some (64, fun _ => 0)) = .inr faultySample := rfl

theorem faulty_run_atomic_sample :
    (dvmDiscCacheFlush ((machine Nat fun _ _ => true).run faultySample
      [.write 0 (fun _ => 7) 1 1 true, .read 0 (fun _ => 0) 2 1 true])).1.inner.sectors 1 = 7 := by
  have hcalls : ∀ r ∈ ([.write 0 (fun _ => 7) 1 1 true, .read 0 (fun _ => 0) 2 1 true] :
      List (Call Nat)), r.single (fun _ _ => true) (effectivePage faultyDisc.disc 1) = true :=
    List.forall_mem_cons.mpr ⟨by decide, List.forall_mem_singleton.mpr (by decide)⟩
  have h := faulty_run_atomic faultySample_created (by decide) (fun _ _ => true) hcalls
  exact (congrFun (h.2.2 (by decide)) 1).trans (by decide)

end LibDvm.Cache
