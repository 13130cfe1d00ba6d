import LibDvm.Cache.Threads
import LibDvm.Cache.Crash

/-! # A power cut among threads

The power may go while a thread is anywhere in its body and others wait for the lock. What
is then on the inner disc is what the finished bodies, and the turns of the body under way,
have written there.
-/

namespace LibDvm.Cache

open NodeList Store RwState Monitor

variable {α : Type} {c : DvmDiscCache α} {m : Nat → α} {τ : Type} {aligned : Nat → Bool → Bool}

/-! ## Bodies under way -/

theorem reaches_loop {rq : Request} {num : Nat} {s s' : DvmDiscCache α} {k k' : Body α}
    (h : (monitor α aligned).Reaches s k s' k') (st : RwState α) (hs : s = st.self)
    (hk : k = .readWrite rq num st.locals) :
    ∃ turns, s' = (RwState.loop rq turns st).1.self := by
  induction h generalizing st with
  | refl => exact ⟨0, by rw [RwState.loop]; exact hs⟩
  | @more s s₁ s' k k₁ k' hgo rest ih =>
      subst hs hk
      have hnum : st.numSectors ≠ 0 := by
        intro hzero
        have hend : (monitor α aligned).work st.self (.readWrite rq num st.locals) =
            (st.self, .inr (rwReply rq.isWrite num st.buffer true)) := if_pos hzero
        rw [hend] at hgo
        cases hgo
      have hwork : (monitor α aligned).work st.self (.readWrite rq num st.locals) =
          ((turn rq st).1.self,
            if (turn rq st).2 then .inl (.readWrite rq num (turn rq st).1.locals)
            else .inr (rwReply rq.isWrite num (turn rq st).1.buffer false)) := if_neg hnum
      rw [hwork] at hgo
      by_cases hturn : (turn rq st).2 = true
      · rw [if_pos hturn] at hgo
        obtain ⟨hself, hbody⟩ := Prod.mk.inj hgo
        obtain ⟨turns, heq⟩ := ih (turn rq st).1 hself.symm (Sum.inl.inj hbody).symm
        refine ⟨turns + 1, ?_⟩
        rw [RwState.loop, if_neg hnum, if_pos hturn]
        exact heq
      · rw [if_neg hturn] at hgo
        cases (Prod.mk.inj hgo).2

theorem reaches_flush {s s' : DvmDiscCache α} {k k' : Body α}
    (h : (monitor α aligned).Reaches s k s' k') (ret : Bool) (xs : List Nat)
    (hk : k = .flush ret xs) :
    ∃ turns, s' = (dvmDiscCacheFlushLoop s ret (xs.take turns)).1 := by
  induction h generalizing ret xs with
  | refl => exact ⟨0, rfl⟩
  | @more s s₁ s' k k₁ k' hgo rest ih =>
      subst hk
      cases xs with
      | nil => cases hgo
      | cons p xs =>
          by_cases hfree : s.unallocated p = true
          · have hend : (monitor α aligned).work s (.flush ret (p :: xs)) = endFlush s ret :=
              if_pos hfree
            rw [hend] at hgo
            cases hgo
          · have hwork : (monitor α aligned).work s (.flush ret (p :: xs)) =
                ((dvmDiscCacheEntryFlush s p).1,
                  .inl (.flush (ret && (dvmDiscCacheEntryFlush s p).2) xs)) := if_neg hfree
            rw [hwork] at hgo
            obtain ⟨hself, hbody⟩ := Prod.mk.inj hgo
            obtain ⟨turns, heq⟩ := ih _ xs (Sum.inl.inj hbody).symm
            refine ⟨turns + 1, ?_⟩
            rw [List.take_succ_cons, dvmDiscCacheFlushLoop, if_neg hfree]
            subst hself
            exact heq

theorem reaches_interrupted {c' : DvmDiscCache α} {r : Call α} {k : Body α}
    (h : (monitor α aligned).Reaches c (enter aligned c r) c' k) :
    ∃ turns, c' = interrupted aligned c turns r := by
  have hrequest : ∀ isAligned address buffer first num isPartial isWrite,
      (monitor α aligned).Reaches c
        (enterReadWrite isAligned c address buffer first num isPartial isWrite) c' k →
      ∃ turns, c' =
        interruptedRequest isAligned c turns address buffer first num isPartial isWrite := by
    intro isAligned address buffer first num isPartial isWrite hreach
    unfold enterReadWrite at hreach
    unfold interruptedRequest
    rcases rwStart_cases isAligned c address buffer first num isPartial isWrite with
      ⟨_, heq⟩ | ⟨_, _, heq⟩
    · rw [heq] at hreach ⊢
      cases hreach with
      | refl => exact ⟨0, rfl⟩
      | more hgo rest => cases hgo
    · rw [heq] at hreach ⊢
      exact reaches_loop hreach _ rfl rfl
  cases r with
  | read address buffer first num isPartial => exact hrequest _ _ _ _ _ _ _ h
  | write address buffer first num isPartial => exact hrequest _ _ _ _ _ _ _ h
  | flush => exact reaches_flush h true c.order rfl

/-! ## Since the last flush -/

/-- The first `n` of the bodies are all on the inner disc: there are none, or the last of
them is a flush that has succeeded. -/
def SyncedAt (history : List (Finished τ (Call α) (Reply α))) : Nat → Prop
  | 0 => True
  | n + 1 => ∃ f, history[n]? = some f ∧ f.input = .flush ∧ f.answer.ok = true

theorem Represents.cut (h : Represents c m) (hsectors : c.inner.sectors = m)
    {calls current : List (Call α)} {c' : DvmDiscCache α}
    (hregular : ∀ r ∈ calls ++ current, r.regular aligned c.pageSz = true)
    (hmoment : (current = [] ∧ c' = (machine α aligned).run c calls) ∨
      ∃ r turns, current = [r] ∧
        c' = interrupted aligned ((machine α aligned).run c calls) turns r) (s : Nat) :
    ∃ j ≤ (calls ++ current).length, c'.inner.sectors s =
      (plainDisc α c.base.numSectors).run m ((calls ++ current).take j) s := by
  rcases hmoment with ⟨rfl, rfl⟩ | ⟨r, turns, rfl, rfl⟩
  · rw [List.append_nil] at hregular ⊢
    let P : Nat → α → Prop := fun s v => ∃ j ≤ calls.length,
      v = (plainDisc α c.base.numSectors).run m (calls.take j) s
    refine h.run_allowed (P := P) aligned hregular ?_ (fun j hj s => ⟨j, hj, rfl⟩) s
    rw [hsectors]
    exact fun s => ⟨0, Nat.zero_le _, rfl⟩
  · obtain ⟨j, hj, heq⟩ := h.power_cut hsectors aligned calls hregular turns s
    exact ⟨j, by simpa using hj, heq⟩

theorem Represents.cut_since {m₀ : Nat → α} {calls current : List (Call α)} {n sectors : Nat}
    (hn : n ≤ calls.length) (hsize : c.base.numSectors = sectors)
    (hat : let c₁ := (machine α aligned).run c (calls.take n)
      let m := (plainDisc α sectors).run m₀ (calls.take n)
      Represents c₁ m ∧ c₁.inner.sectors = m ∧ Same c c₁)
    (hregular : ∀ r ∈ calls ++ current, r.regular aligned c.pageSz = true)
    {c' : DvmDiscCache α}
    (hmoment : (current = [] ∧ c' = (machine α aligned).run c calls) ∨
      ∃ r turns, current = [r] ∧
        c' = interrupted aligned ((machine α aligned).run c calls) turns r) (s : Nat) :
    ∃ j, n ≤ j ∧ j ≤ (calls ++ current).length ∧ c'.inner.sectors s =
      (plainDisc α sectors).run m₀ ((calls ++ current).take j) s := by
  obtain ⟨hrep, hsectors, hsame⟩ := hat
  have hsplit : (machine α aligned).run c calls = (machine α aligned).run
      ((machine α aligned).run c (calls.take n)) (calls.drop n) := by
    rw [← Machine.run_append, List.take_append_drop]
  rw [hsplit] at hmoment
  obtain ⟨j, hj, heq⟩ := hrep.cut hsectors (by
    rw [hsame.pageSz]
    intro r hr
    rcases List.mem_append.mp hr with hafter | hnow
    · exact hregular r (List.mem_append_left _ (List.mem_of_mem_drop hafter))
    · exact hregular r (List.mem_append_right _ hnow)) hmoment s
  refine ⟨n + j, by omega, ?_, ?_⟩
  · simp only [List.length_append, List.length_drop] at hj ⊢
    omega
  · rw [heq, hsame.numSectors, hsize, ← Machine.run_append, List.take_add,
      List.take_append_of_le_length hn, List.drop_append_of_le_length hn]

theorem Created.flushed {inner : InnerDisc α} {cachePages sectorsPerPage : Nat}
    (hnew : Created inner cachePages sectorsPerPage c) (hread : ∀ n, inner.readFault n = none)
    (hwrite : ∀ n, inner.writeFault n = none) {before : List (Call α)}
    (hregular : ∀ r ∈ before, r.regular aligned c.pageSz = true)
    (hok : (call aligned ((machine α aligned).run c before) .flush).2.ok = true) :
    let c' := (machine α aligned).run c (before ++ [.flush])
    let m := (plainDisc α inner.disc.numSectors).run inner.sectors (before ++ [.flush])
    Represents c' m ∧ c'.inner.sectors = m ∧ Same c c' := by
  obtain ⟨hrun, hsame, -⟩ := (hnew.represents hread hwrite).regular_run aligned hregular
  obtain ⟨hclean, hsame'⟩ := hrun.regular_call aligned (r := .flush) rfl
  have hflushed := hrun.flushed_sectors (by simpa [Reply.ok, call] using hok)
  rw [hsame.numSectors, hnew.sectors] at hclean
  rw [hnew.sectors] at hflushed
  dsimp only
  rw [Machine.run_append, Machine.run_append]
  exact ⟨hclean, hflushed, hsame.trans hsame'⟩

theorem Created.sync_ok {inner : InnerDisc α} {cachePages sectorsPerPage : Nat}
    (hnew : Created inner cachePages sectorsPerPage c) (hread : ∀ n, inner.readFault n = none)
    (hwrite : ∀ n, inner.writeFault n = none) (hflush : ∀ n, inner.flushFault n = false)
    {before : List (Call α)} (hregular : ∀ r ∈ before, r.regular aligned c.pageSz = true) :
    (call aligned ((machine α aligned).run c before) .flush).2.ok = true := by
  obtain ⟨hrun, hsame, -⟩ := (hnew.represents hread hwrite).regular_run aligned hregular
  have hsync : Syncing ((machine α aligned).run c before) := by
    unfold Syncing
    rw [hsame.flushFault, hnew.inner]
    exact hflush
  simpa [Reply.ok, call] using hrun.flush_ok hsync

theorem Created.unflushed {inner : InnerDisc α} {cachePages sectorsPerPage : Nat}
    (hnew : Created inner cachePages sectorsPerPage c) (hread : ∀ n, inner.readFault n = none)
    (hwrite : ∀ n, inner.writeFault n = none) :
    Represents c inner.sectors ∧ c.inner.sectors = inner.sectors ∧ Same c c := by
  refine ⟨hnew.represents hread hwrite, ?_, Same.refl c⟩
  rw [hnew.inner]

theorem Created.synced_at {inner : InnerDisc α} {cachePages sectorsPerPage : Nat}
    (hnew : Created inner cachePages sectorsPerPage c) (hread : ∀ n, inner.readFault n = none)
    (hwrite : ∀ n, inner.writeFault n = none) {history : List (Finished τ (Call α) (Reply α))}
    (hanswers : history.map (·.answer) = (machine α aligned).answers c (history.map (·.input)))
    (hregular : ∀ r ∈ history.map (·.input), r.regular aligned c.pageSz = true) {n : Nat}
    (hsynced : SyncedAt history n) :
    let before := (history.map (·.input)).take n
    let c' := (machine α aligned).run c before
    let m := (plainDisc α inner.disc.numSectors).run inner.sectors before
    Represents c' m ∧ c'.inner.sectors = m ∧ Same c c' := by
  cases n with
  | zero => exact hnew.unflushed hread hwrite
  | succ n =>
      obtain ⟨f, hf, hflush, hok⟩ := hsynced
      have hinput : (history.map (·.input))[n]? = some .flush := by
        rw [List.getElem?_map, hf, Option.map_some, hflush]
      have hanswer : some f.answer = some (call aligned ((machine α aligned).run c
          ((history.map (·.input)).take n)) .flush).2 := by
        have hat := (machine α aligned).answers_getElem? c (history.map (·.input)) n
        rw [← hanswers, List.getElem?_map, hf, hinput] at hat
        exact hat
      rw [Option.some.inj hanswer] at hok
      dsimp only
      rw [List.take_add_one, hinput, Option.toList_some]
      exact hnew.flushed hread hwrite (fun r hr => hregular r (List.mem_of_mem_take hr)) hok

/-! ## Schedules -/

variable [DecidableEq τ]

/-- On an inner disc without failing transfers, threads make regular requests under any
schedule, and the power goes at any moment of it: in each sector of the inner disc is what
the sector read as after some of the bodies, in the order in which they ended and with the
one under way as the last; and of these only a body after the latest flush that succeeded,
or that flush. -/
theorem threads_power_cut {inner : InnerDisc α} {cachePages sectorsPerPage : Nat}
    {mallocOk : Bool} {allocated : Option (Nat × (Nat → α))}
    (hcreate : dvmDiscCacheCreate inner cachePages sectorsPerPage mallocOk allocated = .inr c)
    (hpage : effectivePage inner.disc sectorsPerPage ≤ 32768)
    (hread : ∀ n, inner.readFault n = none) (hwrite : ∀ n, inner.writeFault n = none)
    (aligned : Nat → Bool → Bool) (schedule : List (Event τ (Call α)))
    (hcalls : ∀ t r, .call t r ∈ schedule →
      r.regular aligned (effectivePage inner.disc sectorsPerPage) = true) :
    let g := underLock aligned c schedule
    ∀ n ≤ g.history.length, SyncedAt g.history n → ∀ s, ∃ j, n ≤ j ∧
      j ≤ (g.inputs ++ g.current).length ∧ g.shared.inner.sectors s =
        (plainDisc α inner.disc.numSectors).run inner.sectors
          ((g.inputs ++ g.current).take j) s := by
  intro g n hn hsynced s
  have hnew := dvmDiscCacheCreate_created hcreate hpage
  have h := hnew.rep.serial aligned schedule
  have hmade : ∀ t r, r ∈ g.calls t → r.regular aligned c.pageSz = true := by
    intro t r hr
    rw [hnew.page]
    rcases run_calls _ _ schedule hr with hnone | hmem
    · cases hnone
    · exact hcalls t r hmem
  have hinputs : ∀ r ∈ g.inputs, r.regular aligned c.pageSz = true := fun r hr =>
    (h.input_called hr).elim fun t ht => hmade t r ht
  refine Represents.cut_since (by simpa [g, State.inputs] using hn) hnew.sectors
    (hnew.synced_at hread hwrite h.answers hinputs hsynced) (fun r hr => ?_) ?_ s
  · rcases List.mem_append.mp hr with hended | hnow
    · exact hinputs r hended
    · exact (h.current_called hnow).elim fun t ht => hmade t r ht
  · rcases h.moment with hidle | ⟨t, r, k, -, hr, hreach⟩
    · exact .inl hidle
    · obtain ⟨turns, heq⟩ := reaches_interrupted hreach
      exact .inr ⟨r, turns, hr, heq⟩

def sampleCut : List (Event Bool (Call Nat)) :=
  [.call true (.write 0 (fun _ => 7) 1 1 true), .acquire true, .work true, .work true,
    .release true, .call true .flush, .acquire true, .work true, .work true, .release true,
    .call false (.write 0 (fun _ => 8) 1 1 true), .acquire false, .work false]

theorem threads_power_cut_sample :
    (underLock (fun _ _ => true) sampleCache sampleCut).shared.inner.sectors 1 ∈ [7, 8] := by
  have hcalls : ∀ t r, .call t r ∈ sampleCut →
      r.regular (fun _ _ => true) (effectivePage sampleDisc.disc 1) = true := by
    intro t r hmem
    simp only [sampleCut, List.mem_cons, Event.call.injEq, reduceCtorEq, false_or,
      List.not_mem_nil, or_false] at hmem
    rcases hmem with ⟨_, rfl⟩ | ⟨_, rfl⟩ | ⟨_, rfl⟩ <;> decide
  obtain ⟨j, hn, hj, heq⟩ := threads_power_cut sampleCache_created (by decide) (fun _ => rfl)
    (fun _ => rfl) (fun _ _ => true) sampleCut hcalls 2 (by decide) ⟨_, rfl, rfl, by decide⟩ 1
  rw [heq]
  have hcases : j = 2 ∨ j = 3 := by
    have : ((underLock (fun _ _ => true) sampleCache sampleCut).inputs ++
      (underLock (fun _ _ => true) sampleCache sampleCut).current).length = 3 := by decide
    omega
  rcases hcases with rfl | rfl <;> decide

end LibDvm.Cache
