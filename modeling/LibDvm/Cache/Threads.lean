import LibDvm.Cache.Atomic
import LibDvm.Lib.Monitor

/-! # The cache under its lock

Any number of threads call the cache, and `self->lock` is held from the first line of a
call to its last. A body moves in the turns of its loop: a turn of the request loop, or
one entry of a flush. What the model of the calls does in one step is what a body does
in all of its turns, so the rules of a monitor apply.
-/

namespace LibDvm.Cache

open NodeList Store RwState Monitor

variable {α : Type} {c : DvmDiscCache α} {A U : List Nat} {τ : Type}

/-! ## Bodies -/

structure RwLocals (α : Type) where
  buffer : Nat → α
  offset : Nat
  firstSector : Nat
  numSectors : Nat
  p : Option Nat
  searchBase : Nat

def RwState.locals (st : RwState α) : RwLocals α :=
  ⟨st.buffer, st.offset, st.firstSector, st.numSectors, st.p, st.searchBase⟩

def RwLocals.on (l : RwLocals α) (self : DvmDiscCache α) : RwState α :=
  ⟨self, l.buffer, l.offset, l.firstSector, l.numSectors, l.p, l.searchBase⟩

inductive Body (α : Type) where
  | refused (reply : Reply α)
  | readWrite (rq : Request) (num : Nat) (locals : RwLocals α)
  | flush (ret : Bool) (rest : List Nat)

/-- The reply to a request for `num` sectors. -/
def rwReply (isWrite : Bool) (num : Nat) (buffer : Nat → α) (ret : Bool) : Reply α :=
  ⟨some ret, if isWrite then [] else (List.range num).map buffer⟩

def enterReadWrite (isAligned : Bool) (self : DvmDiscCache α) (address : Nat)
    (buffer : Nat → α) (firstSector numSectors : Nat) (isPartial isWrite : Bool) : Body α :=
  match rwStart isAligned self address buffer firstSector numSectors isPartial isWrite with
  | none => .refused (rwReply isWrite numSectors buffer false)
  | some (rq, st) => .readWrite rq numSectors st.locals

/-- A call right after `__lock_acquire`. -/
def enter (aligned : Nat → Bool → Bool) (self : DvmDiscCache α) : Call α → Body α
  | .read address buffer first num isPartial =>
      enterReadWrite (aligned address false) self address buffer first num isPartial false
  | .write address buffer first num isPartial =>
      enterReadWrite (aligned address true) self address buffer first num isPartial true
  | .flush => .flush true self.order

/-- `ret &= dvmDiscFlush(self->inner)`, after the walk. -/
def endFlush (self : DvmDiscCache α) (ret : Bool) : DvmDiscCache α × (Body α ⊕ Reply α) :=
  let (inner, ok) := dvmDiscFlush self.inner
  ({ self with inner }, .inr ⟨some (ret && ok), []⟩)

def work (self : DvmDiscCache α) : Body α → DvmDiscCache α × (Body α ⊕ Reply α)
  | .refused reply => (self, .inr reply)
  | .readWrite rq num l =>
      if l.numSectors = 0 then (self, .inr (rwReply rq.isWrite num l.buffer true))
      else
        let st := (turn rq (l.on self)).1
        (st.self, if (turn rq (l.on self)).2 then .inl (.readWrite rq num st.locals)
          else .inr (rwReply rq.isWrite num st.buffer false))
  | .flush ret [] => endFlush self ret
  | .flush ret (p :: rest) =>
      if self.unallocated p then endFlush self ret
      else
        let flushed := dvmDiscCacheEntryFlush self p
        (flushed.1, .inl (.flush (ret && flushed.2) rest))

def monitor (α : Type) (aligned : Nat → Bool → Bool) :
    Monitor (DvmDiscCache α) (Call α) (Body α) (Reply α) := ⟨enter aligned, work⟩

/-! ## A body does what its call does -/

variable {aligned : Nat → Bool → Bool}

theorem finishes_loop (rq : Request) (num fuel : Nat) (st : RwState α) {ret : Bool}
    (hret : (RwState.loop rq fuel st).2 = some ret) :
    (monitor α aligned).Finishes st.self (.readWrite rq num st.locals)
      ((RwState.loop rq fuel st).1.self,
        rwReply rq.isWrite num (RwState.loop rq fuel st).1.buffer ret) := by
  induction fuel generalizing st with
  | zero =>
      rw [RwState.loop] at hret
      by_cases hzero : st.numSectors = 0
      · obtain rfl : true = ret := by simpa [hzero] using hret
        exact .last (if_pos hzero)
      · simp [hzero] at hret
  | succ fuel ih =>
      rw [RwState.loop] at hret ⊢
      by_cases hzero : st.numSectors = 0
      · rw [if_pos hzero] at hret ⊢
        obtain rfl : true = ret := Option.some.inj hret
        exact .last (if_pos hzero)
      · rw [if_neg hzero] at hret ⊢
        have hwork : (monitor α aligned).work st.self (.readWrite rq num st.locals) =
            ((turn rq st).1.self,
              if (turn rq st).2 then .inl (.readWrite rq num (turn rq st).1.locals)
              else .inr (rwReply rq.isWrite num (turn rq st).1.buffer false)) := if_neg hzero
        by_cases hgo : (turn rq st).2 = true
        · rw [if_pos hgo] at hret hwork ⊢
          exact .more hwork (ih _ hret)
        · rw [if_neg hgo] at hret hwork ⊢
          obtain rfl : false = ret := Option.some.inj hret
          exact .last hwork

theorem finishes_flush (self : DvmDiscCache α) (ret : Bool) (xs : List Nat) :
    (monitor α aligned).Finishes self (.flush ret xs)
      ({ (dvmDiscCacheFlushLoop self ret xs).1 with
          inner := (dvmDiscFlush (dvmDiscCacheFlushLoop self ret xs).1.inner).1 },
        ⟨some ((dvmDiscCacheFlushLoop self ret xs).2 &&
          (dvmDiscFlush (dvmDiscCacheFlushLoop self ret xs).1.inner).2), []⟩) := by
  induction xs generalizing self ret with
  | nil => exact .last rfl
  | cons p rest ih =>
      rw [dvmDiscCacheFlushLoop]
      by_cases hfree : self.unallocated p = true
      · rw [if_pos hfree]
        exact .last (if_pos hfree)
      · rw [if_neg hfree]
        exact .more (if_neg hfree) (ih _ _)

theorem Rep.finishes_readWrite (h : Rep c A U) (isAligned : Bool) (address : Nat)
    (buffer : Nat → α) (first num : Nat) (isPartial isWrite : Bool) :
    let r := dvmDiscCacheReadWrite isAligned c address buffer first num isPartial isWrite
    (monitor α aligned).Finishes c
      (enterReadWrite isAligned c address buffer first num isPartial isWrite)
      (r.self, ⟨r.ret, if isWrite then [] else (List.range num).map r.buffer⟩) := by
  have hreturns :=
    (h.readWrite isAligned address buffer first num isPartial isWrite).2.2
  unfold dvmDiscCacheReadWrite at hreturns ⊢
  unfold enterReadWrite
  rcases rwStart_cases isAligned c address buffer first num isPartial isWrite with
    ⟨_, heq⟩ | ⟨_, _, heq⟩
  · rw [heq]
    exact .last rfl
  · rw [heq] at hreturns ⊢
    obtain ⟨ret, hret⟩ := Option.isSome_iff_exists.mp hreturns
    dsimp only at hret ⊢
    rw [hret]
    exact finishes_loop (rwRequest isAligned c address num isPartial isWrite) num num
      (rwInit c buffer first num) hret

variable (aligned) in
theorem Rep.finishes (h : Rep c A U) (r : Call α) :
    (monitor α aligned).Finishes c (enter aligned c r) (LibDvm.Cache.call aligned c r) := by
  cases r with
  | read address buffer first num isPartial =>
      exact h.finishes_readWrite (aligned address false) address buffer first num isPartial false
  | write address buffer first num isPartial =>
      exact h.finishes_readWrite (aligned address true) address buffer first num isPartial true
  | flush => exact finishes_flush c true c.order

/-! ## Schedules -/

variable [DecidableEq τ]

/-- The threads of `τ` on the cache, as the schedule has it. -/
def underLock (aligned : Nat → Bool → Bool) (c : DvmDiscCache α)
    (schedule : List (Event τ (Call α))) : State (DvmDiscCache α) (Call α) (Body α) (Reply α) τ :=
  ((monitor α aligned).threads τ).run (State.init τ (Body α) c) schedule

/-- Run lemma: the calls of all threads form one run of the cache. -/
theorem Rep.serial (h : Rep c A U) (aligned : Nat → Bool → Bool)
    (schedule : List (Event τ (Call α))) :
    Serial (monitor α aligned) (machine α aligned) c (underLock aligned c schedule) := by
  refine (Serial.init (monitor α aligned) (machine α aligned) c).run (fun c => ∃ A U, Rep c A U)
    ?_ ?_ ⟨A, U, h⟩ schedule
  · rintro c' r ⟨A', U', hrep⟩
    exact hrep.finishes aligned r
  · rintro c' r ⟨A', U', hrep⟩
    exact (hrep.call aligned r).1

/-- Under every schedule of any number of threads, and any inner failures, at most one
thread is in a body; each thread's bodies are its calls, in order; all bodies together
answer as the calls made one after another do; between two bodies the cache is in the
state these leave, with its invariant; a body that has ended stays before the later
ones; and whoever has the lock can get to its release. -/
theorem threads_serialised {inner : InnerDisc α} {cachePages sectorsPerPage : Nat}
    {mallocOk : Bool} {allocated : Option (Nat × (Nat → α))}
    (hcreate : dvmDiscCacheCreate inner cachePages sectorsPerPage mallocOk allocated = .inr c)
    (hpage : effectivePage inner.disc sectorsPerPage ≤ 32768) (aligned : Nat → Bool → Bool)
    (schedule : List (Event τ (Call α))) :
    let g := underLock aligned c schedule
    (∀ t u, (g.phase t).holds = true → (g.phase u).holds = true → t = u) ∧
      (∀ t, (g.of t).map (·.input) ++ (g.phase t).pending = g.calls t ∧
        (g.of t).map (·.answer) = g.returns t ++ (g.phase t).answer) ∧
      g.history.map (·.answer) = (machine α aligned).answers c g.inputs ∧
      (g.holder = none → g.shared = (machine α aligned).run c g.inputs ∧
        ∃ A U, Rep g.shared A U) ∧
      (∀ more, g.history <+: (underLock aligned c (schedule ++ more)).history) ∧
      ∀ t, g.holder = some t → ∃ n, (underLock aligned c
        (schedule ++ (List.replicate n (.work t) ++ [.release t]))).holder = none := by
  have hnew := dvmDiscCacheCreate_created hcreate hpage
  have h := hnew.rep.serial aligned schedule
  refine ⟨fun t u ht hu => h.exclusive ht hu, fun t => ⟨h.calls t, h.returns t⟩, h.answers,
    fun hfree => ?_, fun more => ?_, fun t ht => ?_⟩
  · rw [h.free hfree]
    exact ⟨rfl, (hnew.rep.run aligned _).1⟩
  · rw [underLock, underLock, Machine.run_append]
    exact run_history _ _ more
  · obtain ⟨n, hn⟩ := h.unlocks ht
    refine ⟨n, ?_⟩
    rw [underLock, Machine.run_append]
    exact hn

def sampleSchedule : List (Event Bool (Call Nat)) :=
  [.call true (.write 0 (fun _ => 7) 1 1 true), .acquire true,
    .call false (.read 0 (fun _ => 0) 1 1 true), .acquire false, .work true, .work true,
    .release true, .acquire false, .work false, .work false, .release false]

theorem threads_serialised_sample :
    (underLock (fun _ _ => true) sampleCache sampleSchedule).history.map (·.answer) =
      (machine Nat fun _ _ => true).answers sampleCache
        [.write 0 (fun _ => 7) 1 1 true, .read 0 (fun _ => 0) 1 1 true] :=
  (threads_serialised sampleCache_created (by decide) (fun _ _ => true) sampleSchedule).2.2.1

/-- On an inner disc without failures, threads that make regular requests are served as
by one plain array of sectors, in the order in which their bodies end. -/
theorem threads_share_plain_disc {inner : InnerDisc α} {cachePages sectorsPerPage : Nat}
    {mallocOk : Bool} {allocated : Option (Nat × (Nat → α))}
    (hcreate : dvmDiscCacheCreate inner cachePages sectorsPerPage mallocOk allocated = .inr c)
    (hpage : effectivePage inner.disc sectorsPerPage ≤ 32768)
    (hread : ∀ n, inner.readFault n = none) (hwrite : ∀ n, inner.writeFault n = none)
    (hflush : ∀ n, inner.flushFault n = false) (aligned : Nat → Bool → Bool)
    (schedule : List (Event τ (Call α)))
    (hcalls : ∀ t r, .call t r ∈ schedule →
      r.regular aligned (effectivePage inner.disc sectorsPerPage) = true) :
    let g := underLock aligned c schedule
    g.history.map (·.answer) = (plainDisc α inner.disc.numSectors).answers inner.sectors g.inputs ∧
      (g.holder = none → g.shared.logical =
        (plainDisc α inner.disc.numSectors).run inner.sectors g.inputs) := by
  have hnew := dvmDiscCacheCreate_created hcreate hpage
  have h := hnew.rep.serial aligned schedule
  have hregular : ∀ r ∈ (underLock aligned c schedule).inputs,
      r.regular aligned c.pageSz = true := by
    intro r hr
    rw [hnew.page]
    obtain ⟨t, ht⟩ := h.input_called hr
    rcases run_calls _ _ schedule ht with hnone | hmem
    · cases hnone
    · exact hcalls t r hmem
  have hsync : Syncing c := by
    unfold Syncing
    rw [hnew.inner]
    exact hflush
  obtain ⟨hrep, _, hanswers⟩ := (hnew.represents hread hwrite).regular_run aligned hregular
  rw [hnew.sectors] at hrep hanswers
  exact ⟨h.answers.trans (hanswers hsync), fun hfree => by rw [h.free hfree]; exact hrep.logical⟩

theorem threads_share_plain_disc_sample :
    (underLock (fun _ _ => true) sampleCache sampleSchedule).history.map (·.answer) =
      [⟨some true, []⟩, ⟨some true, [7]⟩] := by
  have hcalls : ∀ t r, .call t r ∈ sampleSchedule →
      r.regular (fun _ _ => true) (effectivePage sampleDisc.disc 1) = true := by
    intro t r hmem
    simp only [sampleSchedule, List.mem_cons, Event.call.injEq, reduceCtorEq, false_or,
      List.not_mem_nil, or_false] at hmem
    rcases hmem with ⟨_, rfl⟩ | ⟨_, rfl⟩ <;> decide
  exact (threads_share_plain_disc sampleCache_created (by decide) (fun _ => rfl) (fun _ => rfl)
    (fun _ => rfl) (fun _ _ => true) sampleSchedule hcalls).1

end LibDvm.Cache
