import LibDvm.Lib.Program

/-! # Locks over a lock

Threads run operations of several libraries, each library under a lock of its own, and the
operations ask one monitor below all of them, which has its own lock. Where the monitor
serves each library as a device of its own, the operations of a library are those of the
library alone on that device, one after another.
-/

namespace LibDvm.Layers

open Machine (ofKey)
open Monitor (Finished Phase Serial)

variable {σ ι β ο φ ω ρ ψ τ κ : Type*}

/-- Where a thread is: outside, blocked on the lock of a library, in an operation with the
rest of its program, or done and about to release the lock. -/
inductive Stage (κ ι ο φ ω ρ : Type*) where
  | idle
  | waiting (k : κ) (op : ω)
  | inside (k : κ) (op : ω) (p : Program ι ο (φ × ρ))
  | leaving (k : κ) (r : ρ)

/-- What the scheduler lets happen next. The lock of a library is taken and released by
`lock` and `unlock`, that of the monitor by `acquire` and `answer`. -/
inductive Event (τ κ ω : Type*) where
  | call (t : τ) (k : κ) (op : ω)
  | lock (t : τ)
  | ask (t : τ)
  | acquire (t : τ)
  | work (t : τ)
  | answer (t : τ)
  | finish (t : τ)
  | unlock (t : τ)

structure State (σ ι β ο φ ω ρ τ κ : Type*) where
  inner : Monitor.State σ (κ × ι) β (κ × ο) τ
  memory : κ → φ
  holder : κ → Option τ
  stage : τ → Stage κ ι ο φ ω ρ
  history : List (κ × Finished τ ω ρ)
  calls : τ → List (κ × ω)
  returns : τ → List (κ × ρ)

def State.init (ι β ο ω ρ τ : Type*) (s : σ) (memory : κ → φ) : State σ ι β ο φ ω ρ τ κ :=
  ⟨Monitor.State.init τ β s, memory, fun _ => none, fun _ => .idle, [], fun _ => [], fun _ => []⟩

variable [DecidableEq τ] [DecidableEq κ]

/-- One event. What the event's thread cannot do now leaves everything as it is. -/
def next (M : Monitor σ (κ × ι) β (κ × ο)) (code : κ → φ → ω → Program ι ο (φ × ρ))
    (g : State σ ι β ο φ ω ρ τ κ) : Event τ κ ω → State σ ι β ο φ ω ρ τ κ
  | .call t k op =>
      match g.stage t with
      | .idle =>
          { g with
            stage := Function.update g.stage t (.waiting k op)
            calls := Function.update g.calls t (g.calls t ++ [(k, op)]) }
      | _ => g
  | .lock t =>
      match g.stage t with
      | .waiting k op =>
          match g.holder k with
          | none =>
              { g with
                holder := Function.update g.holder k (some t)
                stage := Function.update g.stage t (.inside k op (code k (g.memory k) op)) }
          | some _ => g
      | _ => g
  | .ask t =>
      match g.stage t with
      | .inside k _ (.ask i _) => { g with inner := M.next g.inner (.call t (k, i)) }
      | _ => g
  | .acquire t => { g with inner := M.next g.inner (.acquire t) }
  | .work t => { g with inner := M.next g.inner (.work t) }
  | .answer t =>
      match g.stage t, g.inner.phase t with
      | .inside k op (.ask _ rest), .leaving o =>
          { g with
            inner := M.next g.inner (.release t)
            stage := Function.update g.stage t (.inside k op (rest o.2)) }
      | _, _ => g
  | .finish t =>
      match g.stage t with
      | .inside k op (.done r) =>
          { g with
            memory := Function.update g.memory k r.1
            stage := Function.update g.stage t (.leaving k r.2)
            history := g.history ++ [(k, ⟨t, op, r.2⟩)] }
      | _ => g
  | .unlock t =>
      match g.stage t with
      | .leaving k r =>
          { g with
            holder := Function.update g.holder k none
            stage := Function.update g.stage t .idle
            returns := Function.update g.returns t (g.returns t ++ [(k, r)]) }
      | _ => g

def threads (M : Monitor σ (κ × ι) β (κ × ο)) (code : κ → φ → ω → Program ι ο (φ × ρ))
    (τ : Type*) [DecidableEq τ] : Machine (State σ ι β ο φ ω ρ τ κ) (Event τ κ ω) Unit :=
  ⟨fun g e => (next M code g e, ())⟩

/-! ## One library -/

/-- The rest of a program, with the answer that its thread is about to take. -/
def fed (p : Program ι ο (φ × ρ)) (phase : Phase (κ × ι) β (κ × ο)) : Program ι ο (φ × ρ) :=
  match p, phase with
  | .ask _ rest, .leaving o => rest o.2
  | p, _ => p

omit [DecidableEq κ] in
@[simp] theorem fed_idle (p : Program ι ο (φ × ρ)) :
    fed p (.idle : Phase (κ × ι) β (κ × ο)) = p := by
  cases p <;> rfl

/-- What a thread does in the library `k`. -/
def Stage.view (k : κ) (phase : Phase (κ × ι) β (κ × ο)) :
    Stage κ ι ο φ ω ρ → Phase ω (Program ι ο (φ × ρ)) ρ
  | .idle => .idle
  | .waiting k' op => if k' = k then .waiting op else .idle
  | .inside k' op p => if k' = k then .inside op (fed p phase) else .idle
  | .leaving k' r => if k' = k then .leaving r else .idle

/-- The library `k` and its device, as one resource under the lock of the library. -/
def State.view (own : κ → Machine ψ ι ο) (devices : κ → ψ) (g : State σ ι β ο φ ω ρ τ κ)
    (k : κ) : Monitor.State (φ × ψ) ω (Program ι ο (φ × ρ)) ρ τ where
  shared := (g.memory k, (own k).run (devices k) (ofKey k g.inner.inputs))
  holder := g.holder k
  phase t := (g.stage t).view k (g.inner.phase t)
  history := ofKey k g.history
  calls t := ofKey k (g.calls t)
  returns t := ofKey k (g.returns t)

def Stage.Asked (phase : Phase (κ × ι) β (κ × ο)) : Stage κ ι ο φ ω ρ → Prop
  | .inside k _ (.ask i _) =>
      match phase with
      | .idle => True
      | .waiting j => j = (k, i)
      | .inside j _ => j = (k, i)
      | .leaving o => o.1 = k
  | _ => phase = .idle

/-! ## One event, seen from one library -/

namespace Stage

variable (k k' : κ) (op : ω) (phase : Phase (κ × ι) β (κ × ο))

@[simp] theorem view_idle : (idle : Stage κ ι ο φ ω ρ).view k phase = .idle := rfl

@[simp] theorem view_waiting : (waiting k' op : Stage κ ι ο φ ω ρ).view k phase =
    if k' = k then .waiting op else .idle := rfl

@[simp] theorem view_inside (p : Program ι ο (φ × ρ)) :
    (inside k' op p).view k phase = if k' = k then .inside op (fed p phase) else .idle := rfl

@[simp] theorem view_leaving (r : ρ) : (leaving k' r : Stage κ ι ο φ ω ρ).view k phase =
    if k' = k then .leaving r else .idle := rfl

end Stage

section View

variable {M : Monitor σ (κ × ι) β (κ × ο)} {code : κ → φ → ω → Program ι ο (φ × ρ)}
  (own : κ → Machine ψ ι ο) (devices : κ → ψ) (g : State σ ι β ο φ ω ρ τ κ)

theorem view_stage (k : κ) (t : τ) (s : Stage κ ι ο φ ω ρ) :
    (fun u => (Function.update g.stage t s u).view k (g.inner.phase u)) =
      Function.update (fun u => (g.stage u).view k (g.inner.phase u)) t
        (s.view k (g.inner.phase t)) := by
  funext u
  by_cases hu : u = t
  · subst hu
    simp
  · simp [hu]

theorem ofKey_calls {δ : Type*} (k k' : κ) (t : τ) (f : τ → List (κ × δ)) (x : δ) :
    (fun u => ofKey k (Function.update f t (f t ++ [(k', x)]) u)) =
      if k' = k then Function.update (fun u => ofKey k (f u)) t (ofKey k (f t) ++ [x])
      else fun u => ofKey k (f u) := by
  funext u
  by_cases hu : u = t
  · subst hu
    by_cases hk : k' = k <;> simp [Machine.ofKey_append, ofKey, hk]
  · by_cases hk : k' = k <;> simp [hu, hk]

theorem view_call {t : τ} (k : κ) (op : ω) (hstage : g.stage t = .idle) (k' : κ) :
    (next M code g (.call t k op)).view own devices k' = if k = k' then
      (Program.monitor (code k') (own k')).next (g.view own devices k') (.call t op)
    else g.view own devices k' := by
  have hphase : (g.stage t).view k' (g.inner.phase t) = .idle := by rw [hstage]; rfl
  by_cases hk : k = k'
  · simp only [next, hstage, State.view, view_stage, ofKey_calls, if_pos hk, Stage.view_waiting]
    simp only [Monitor.next, hphase]
  · simp only [next, hstage, State.view, view_stage, ofKey_calls, if_neg hk, Stage.view_waiting]
    simp only [← hphase, Function.update_eq_self]

theorem view_lock {t : τ} {k : κ} {op : ω} (hstage : g.stage t = .waiting k op)
    (hinner : g.inner.phase t = .idle) (hholder : g.holder k = none) (k' : κ) :
    (next M code g (.lock t)).view own devices k' = if k = k' then
      (Program.monitor (code k') (own k')).next (g.view own devices k') (.acquire t)
    else g.view own devices k' := by
  have hphase : (g.stage t).view k' (g.inner.phase t) = if k = k' then .waiting op else .idle := by
    rw [hstage]
    rfl
  by_cases hk : k = k'
  · subst hk
    rw [if_pos rfl] at hphase
    simp only [next, hstage, hholder, State.view, view_stage, if_true, Stage.view_inside, hinner,
      fed_idle, Function.update_self]
    simp only [Monitor.next, hphase]
    rfl
  · rw [if_neg hk] at hphase
    simp only [next, hstage, hholder, State.view, view_stage, if_neg hk, Stage.view_inside,
      Function.update_of_ne (Ne.symm hk)]
    simp only [← hphase, Function.update_eq_self]

theorem view_finish {t : τ} {k : κ} {op : ω} {r : φ × ρ}
    (hstage : g.stage t = .inside k op (.done r)) (k' : κ) :
    (next M code g (.finish t)).view own devices k' = if k = k' then
      (Program.monitor (code k') (own k')).next (g.view own devices k') (.work t)
    else g.view own devices k' := by
  have hphase : (g.stage t).view k' (g.inner.phase t) =
      if k = k' then .inside op (.done r) else .idle := by
    rw [hstage]
    rfl
  by_cases hk : k = k'
  · subst hk
    rw [if_pos rfl] at hphase
    simp only [next, hstage, State.view, view_stage, if_true, Stage.view_leaving,
      Function.update_self, Machine.ofKey_append, ofKey]
    simp only [Monitor.next, hphase]
    rfl
  · rw [if_neg hk] at hphase
    simp only [next, hstage, State.view, view_stage, if_neg hk, Stage.view_leaving,
      Function.update_of_ne (Ne.symm hk), Machine.ofKey_append, ofKey, List.append_nil]
    simp only [← hphase, Function.update_eq_self]

theorem view_unlock {t : τ} {k : κ} {r : ρ} (hstage : g.stage t = .leaving k r) (k' : κ) :
    (next M code g (.unlock t)).view own devices k' = if k = k' then
      (Program.monitor (code k') (own k')).next (g.view own devices k') (.release t)
    else g.view own devices k' := by
  have hphase : (g.stage t).view k' (g.inner.phase t) = if k = k' then .leaving r else .idle := by
    rw [hstage]
    rfl
  by_cases hk : k = k'
  · subst hk
    rw [if_pos rfl] at hphase
    simp only [next, hstage, State.view, view_stage, ofKey_calls, if_true, Stage.view_idle,
      Function.update_self]
    simp only [Monitor.next, hphase]
  · rw [if_neg hk] at hphase
    simp only [next, hstage, State.view, view_stage, ofKey_calls, if_neg hk, Stage.view_idle,
      Function.update_of_ne (Ne.symm hk)]
    simp only [← hphase, Function.update_eq_self]

omit [DecidableEq τ] in
theorem view_inner {inner : Monitor.State σ (κ × ι) β (κ × ο) τ}
    (hhistory : inner.history = g.inner.history) (k : κ)
    (hphase : ∀ u, (g.stage u).view k (inner.phase u) = (g.stage u).view k (g.inner.phase u)) :
    ({ g with inner := inner }).view own devices k = g.view own devices k := by
  simp only [State.view, Monitor.State.inputs, hhistory, hphase]

theorem view_ask (t : τ) (k : κ) :
    (next M code g (.ask t)).view own devices k = g.view own devices k := by
  cases hstage : g.stage t with
  | inside k' op p =>
      cases p with
      | done r => simp [next, hstage]
      | ask i rest =>
          simp only [next, hstage]
          cases hinner : g.inner.phase t with
          | idle =>
              refine view_inner own devices g (by simp [Monitor.next, hinner]) k fun u => ?_
              by_cases hu : u = t
              · subst hu
                simp [Monitor.next, hinner, hstage, fed]
              · simp [Monitor.next, hinner, hu]
          | _ => simp [Monitor.next, hinner]
  | _ => simp [next, hstage]

theorem view_acquire (t : τ) (k : κ) :
    (next M code g (.acquire t)).view own devices k = g.view own devices k := by
  simp only [next]
  cases hinner : g.inner.phase t with
  | waiting j =>
      cases hholder : g.inner.holder with
      | some u => simp [Monitor.next, hinner, hholder]
      | none =>
          refine view_inner own devices g (by simp [Monitor.next, hinner, hholder]) k fun u => ?_
          by_cases hu : u = t
          · subst hu
            cases hstage : g.stage u <;> simp [Monitor.next, hinner, hholder, fed]
          · simp [Monitor.next, hinner, hholder, hu]
  | _ => simp [Monitor.next, hinner]

theorem view_work_more {t : τ} {j : κ × ι} {b b' : β} {s : σ}
    (hinner : g.inner.phase t = .inside j b) (hwork : M.work g.inner.shared b = (s, .inl b'))
    (k : κ) : (next M code g (.work t)).view own devices k = g.view own devices k := by
  simp only [next]
  refine view_inner own devices g (by simp [Monitor.next, hinner, hwork]) k fun u => ?_
  by_cases hu : u = t
  · subst hu
    cases hstage : g.stage u <;> simp [Monitor.next, hinner, hwork, fed]
  · simp [Monitor.next, hinner, hwork, hu]

theorem view_work_last {t : τ} {k : κ} {op : ω} {i : ι} {rest : ο → Program ι ο (φ × ρ)} {b : β}
    {s : σ} (hstage : g.stage t = .inside k op (.ask i rest))
    (hinner : g.inner.phase t = .inside (k, i) b)
    (hwork : M.work g.inner.shared b = (s, .inr (k,
      ((own k).step ((own k).run (devices k) (ofKey k g.inner.inputs)) i).2))) (k' : κ) :
    (next M code g (.work t)).view own devices k' = if k = k' then
      (Program.monitor (code k') (own k')).next (g.view own devices k') (.work t)
    else g.view own devices k' := by
  have hphase : (g.stage t).view k' (g.inner.phase t) =
      if k = k' then .inside op (.ask i rest) else .idle := by
    rw [hstage, hinner]
    rfl
  have hphases : (fun u => (g.stage u).view k' ((M.next g.inner (.work t)).phase u)) =
      Function.update (fun u => (g.stage u).view k' (g.inner.phase u)) t
        (if k = k' then .inside op (rest ((own k).step ((own k).run (devices k)
          (ofKey k g.inner.inputs)) i).2) else .idle) := by
    funext u
    by_cases hu : u = t
    · subst hu
      simp [Monitor.next, hinner, hwork, hstage, fed]
    · simp [Monitor.next, hinner, hwork, hu]
  have hinputs : (M.next g.inner (.work t)).inputs = g.inner.inputs ++ [(k, i)] := by
    simp [Monitor.next, hinner, hwork, Monitor.State.inputs]
  simp only [next, State.view, hphases, hinputs, Machine.ofKey_append, ofKey]
  by_cases hk : k = k'
  · subst hk
    rw [if_pos rfl] at hphase
    simp only [Monitor.next, hphase, if_true, Machine.run_append]
    rfl
  · rw [if_neg hk] at hphase
    simp only [if_neg hk, ← hphase, Function.update_eq_self, List.append_nil]

theorem view_answer {t : τ} {k : κ} {op : ω} {i : ι} {rest : ο → Program ι ο (φ × ρ)}
    {o : κ × ο} (hstage : g.stage t = .inside k op (.ask i rest))
    (hinner : g.inner.phase t = .leaving o) (k' : κ) :
    (next M code g (.answer t)).view own devices k' = g.view own devices k' := by
  have hphases : (fun u => (Function.update g.stage t (.inside k op (rest o.2)) u).view k'
      ((M.next g.inner (.release t)).phase u)) =
        fun u => (g.stage u).view k' (g.inner.phase u) := by
    funext u
    by_cases hu : u = t
    · subst hu
      simp [Monitor.next, hinner, hstage, fed]
    · simp [Monitor.next, hinner, hu]
  have hinputs : (M.next g.inner (.release t)).inputs = g.inner.inputs := by
    simp [Monitor.next, hinner, Monitor.State.inputs]
  simp only [next, hstage, hinner, State.view, hphases, hinputs]

end View

/-! ## Every library alone -/

/-- The monitor serves its callers as `m` does, and what meets `P` is answered as the
libraries' own devices answer it. -/
structure Served (M : Monitor σ (κ × ι) β (κ × ο)) (m : Machine σ (κ × ι) (κ × ο))
    (Inv : σ → Prop) (s₀ : σ) (own : κ → Machine ψ ι ο) (devices : κ → ψ)
    (P : κ × ι → Prop) : Prop where
  start : Inv s₀
  keeps : ∀ s i, Inv s → Inv (m.step s i).1
  finishes : ∀ s i, Inv s → M.Finishes s (M.enter s i) (m.step s i)
  answers : ∀ is, (∀ i ∈ is, P i) → m.answers s₀ is = (Machine.family own).answers devices is

/-- Alone on its device, a library asks only what meets `P`. -/
def Proper (code : κ → φ → ω → Program ι ο (φ × ρ)) (own : κ → Machine ψ ι ο) (memory : κ → φ)
    (devices : κ → ψ) (P : κ × ι → Prop) : Prop :=
  ∀ k ops op, let s := (Program.operations (code k) (own k)).run (memory k, devices k) ops
    (code k s.1 op).Asks (own k) (fun i => P (k, i)) s.2

variable {M : Monitor σ (κ × ι) β (κ × ο)} {m : Machine σ (κ × ι) (κ × ο)} {Inv : σ → Prop}
  {s₀ : σ} {code : κ → φ → ω → Program ι ο (φ × ρ)} {own : κ → Machine ψ ι ο} {memory : κ → φ}
  {devices : κ → ψ} {P : κ × ι → Prop} {g : State σ ι β ο φ ω ρ τ κ}

theorem Served.answer (h : Served M m Inv s₀ own devices P) {is : List (κ × ι)}
    (his : ∀ i ∈ is, P i) {k : κ} {i : ι} (hi : P (k, i)) :
    (m.step (m.run s₀ is) (k, i)).2 =
      (k, ((own k).step ((own k).run (devices k) (ofKey k is)) i).2) := by
  have hall : ∀ j ∈ is ++ [(k, i)], P j := by
    intro j hj
    rcases List.mem_append.mp hj with hold | hnew
    · exact his j hold
    · exact List.mem_singleton.mp hnew ▸ hi
  have hmore := h.answers _ hall
  rw [Machine.answers_append, Machine.answers_append, h.answers is his] at hmore
  have hlast := List.append_cancel_left hmore
  simp only [Machine.answers_cons, Machine.answers_nil, List.cons.injEq, and_true] at hlast
  rw [hlast, ← (Machine.family_apart own devices is k).1]
  rfl

/-- The bodies of the monitor are serial, nobody is at the monitor but with what its
program asks, and each library is alone on its device. -/
structure Sound (M : Monitor σ (κ × ι) β (κ × ο)) (m : Machine σ (κ × ι) (κ × ο)) (s₀ : σ)
    (code : κ → φ → ω → Program ι ο (φ × ρ)) (own : κ → Machine ψ ι ο) (memory : κ → φ)
    (devices : κ → ψ) (P : κ × ι → Prop) (g : State σ ι β ο φ ω ρ τ κ) : Prop where
  inner : Serial M m s₀ g.inner
  proper : ∀ i ∈ g.inner.inputs, P i
  asked : ∀ t, (g.stage t).Asked (g.inner.phase t)
  serial : ∀ k, Serial (Program.monitor (code k) (own k)) (Program.operations (code k) (own k))
    (memory k, devices k) (g.view own devices k)
  asking : ∀ k, Program.Asking (own k) (fun i => P (k, i)) (g.view own devices k)

theorem Sound.init : Sound M m s₀ code own memory devices P
    (State.init ι β ο ω ρ τ s₀ memory) where
  inner := Serial.init M m s₀
  proper := fun i hi => absurd hi List.not_mem_nil
  asked := fun _ => rfl
  serial := fun k => Serial.init _ _ (memory k, devices k)
  asking := fun k t op p hin => by cases hin

def Event.thread : Event τ κ ω → τ
  | .call t _ _ => t
  | .lock t => t
  | .ask t => t
  | .acquire t => t
  | .work t => t
  | .answer t => t
  | .finish t => t
  | .unlock t => t

theorem next_of_ne (M : Monitor σ (κ × ι) β (κ × ο)) (code : κ → φ → ω → Program ι ο (φ × ρ))
    (g : State σ ι β ο φ ω ρ τ κ) (e : Event τ κ ω) {u : τ} (hu : u ≠ e.thread) :
    (next M code g e).stage u = g.stage u ∧
      (next M code g e).inner.phase u = g.inner.phase u := by
  cases e with
  | acquire t => exact ⟨rfl, Monitor.next_phase_of_ne M g.inner (.acquire t) hu⟩
  | work t => exact ⟨rfl, Monitor.next_phase_of_ne M g.inner (.work t) hu⟩
  | ask t =>
      simp only [next]
      split
      · exact ⟨rfl, Monitor.next_phase_of_ne M g.inner (.call t _) hu⟩
      · exact ⟨rfl, rfl⟩
  | answer t =>
      simp only [next]
      split
      · exact ⟨Function.update_of_ne hu _ _, Monitor.next_phase_of_ne M g.inner (.release t) hu⟩
      · exact ⟨rfl, rfl⟩
  | lock t =>
      simp only [next]
      split
      · split
        · exact ⟨Function.update_of_ne hu _ _, rfl⟩
        · exact ⟨rfl, rfl⟩
      · exact ⟨rfl, rfl⟩
  | _ =>
      simp only [next]
      split
      · exact ⟨Function.update_of_ne hu _ _, rfl⟩
      · exact ⟨rfl, rfl⟩

omit [DecidableEq τ] [DecidableEq κ] in
theorem asked_idle (k : κ) (op : ω) (p : Program ι ο (φ × ρ)) :
    (Stage.inside k op p).Asked (.idle : Phase (κ × ι) β (κ × ο)) := by
  cases p with
  | done r => rfl
  | ask i rest => trivial

omit [DecidableEq τ] [DecidableEq κ] in
theorem Stage.Asked.question {s : Stage κ ι ο φ ω ρ} {phase : Phase (κ × ι) β (κ × ο)}
    (h : s.Asked phase) (hbusy : phase ≠ .idle) :
    ∃ k op i rest, s = .inside k op (.ask i rest) := by
  cases s with
  | inside k op p =>
      cases p with
      | done r => exact absurd h hbusy
      | ask i rest => exact ⟨k, op, i, rest, rfl⟩
  | _ => exact absurd h hbusy

/-! ## One event -/

theorem Sound.moved (h : Sound M m s₀ code own memory devices P g)
    (hcode : Proper code own memory devices P) {e : Event τ κ ω}
    (hinner : Serial M m s₀ (next M code g e).inner)
    (hproper : ∀ i ∈ (next M code g e).inner.inputs, P i)
    (hasked : ((next M code g e).stage e.thread).Asked ((next M code g e).inner.phase e.thread))
    (k : κ) (e' : Option (Monitor.Event τ ω))
    (hviews : ∀ k', (next M code g e).view own devices k' = match e' with
      | some e' => if k = k' then (Program.monitor (code k') (own k')).next
          (g.view own devices k') e' else g.view own devices k'
      | none => g.view own devices k') :
    Sound M m s₀ code own memory devices P (next M code g e) where
  inner := hinner
  proper := hproper
  asked u := by
    by_cases hu : u = e.thread
    · subst hu
      exact hasked
    · obtain ⟨hstage, hphase⟩ := next_of_ne M code g e hu
      rw [hstage, hphase]
      exact h.asked u
  serial k' := by
    rw [hviews]
    split
    · split
      · exact (h.serial k').next (fun _ => True)
          (fun s op _ => Program.monitor_finishes s op) trivial _
      · exact h.serial k'
    · exact h.serial k'
  asking k' := by
    rw [hviews]
    split
    · split
      · exact (h.asking k').next (h.serial k') (hcode k' _) _
      · exact h.asking k'
    · exact h.asking k'

theorem Sound.outside (h : Sound M m s₀ code own memory devices P g)
    (hcode : Proper code own memory devices P) {e : Event τ κ ω}
    (hinner : (next M code g e).inner = g.inner)
    (hasked : ((next M code g e).stage e.thread).Asked (g.inner.phase e.thread))
    (k : κ) (e' : Monitor.Event τ ω)
    (hviews : ∀ k', (next M code g e).view own devices k' = if k = k' then
      (Program.monitor (code k') (own k')).next (g.view own devices k') e'
      else g.view own devices k') :
    Sound M m s₀ code own memory devices P (next M code g e) := by
  refine h.moved hcode ?_ ?_ ?_ k (some e') hviews
  · rw [hinner]
    exact h.inner
  · rw [hinner]
    exact h.proper
  · rw [hinner]
    exact hasked

theorem Sound.call (h : Sound M m s₀ code own memory devices P g)
    (hcode : Proper code own memory devices P) (t : τ) (k : κ) (op : ω) :
    Sound M m s₀ code own memory devices P (next M code g (.call t k op)) := by
  have hasked := h.asked t
  cases hstage : g.stage t with
  | idle =>
      rw [hstage] at hasked
      refine h.outside hcode ?_ ?_ k (.call t op) (view_call own devices g k op hstage)
      · simp [next, hstage]
      · simp only [next, hstage, Event.thread, Function.update_self]
        exact hasked
  | _ => simpa [next, hstage] using h

theorem Sound.lock (h : Sound M m s₀ code own memory devices P g)
    (hcode : Proper code own memory devices P) (t : τ) :
    Sound M m s₀ code own memory devices P (next M code g (.lock t)) := by
  have hasked := h.asked t
  cases hstage : g.stage t with
  | waiting k op =>
      cases hholder : g.holder k with
      | some u => simpa [next, hstage, hholder] using h
      | none =>
          rw [hstage] at hasked
          have hidle : g.inner.phase t = .idle := hasked
          refine h.outside hcode ?_ ?_ k (.acquire t)
            (view_lock own devices g hstage hidle hholder)
          · simp [next, hstage, hholder]
          · simp only [next, hstage, hholder, Event.thread, Function.update_self, hidle]
            exact asked_idle k op _
  | _ => simpa [next, hstage] using h

theorem Sound.finish (h : Sound M m s₀ code own memory devices P g)
    (hcode : Proper code own memory devices P) (t : τ) :
    Sound M m s₀ code own memory devices P (next M code g (.finish t)) := by
  have hasked := h.asked t
  cases hstage : g.stage t with
  | inside k op p =>
      cases p with
      | ask i rest => simpa [next, hstage] using h
      | done r =>
          rw [hstage] at hasked
          refine h.outside hcode ?_ ?_ k (.work t) (view_finish own devices g hstage)
          · simp [next, hstage]
          · simp only [next, hstage, Event.thread, Function.update_self]
            exact hasked
  | _ => simpa [next, hstage] using h

theorem Sound.unlock (h : Sound M m s₀ code own memory devices P g)
    (hcode : Proper code own memory devices P) (t : τ) :
    Sound M m s₀ code own memory devices P (next M code g (.unlock t)) := by
  have hasked := h.asked t
  cases hstage : g.stage t with
  | leaving k r =>
      rw [hstage] at hasked
      refine h.outside hcode ?_ ?_ k (.release t) (view_unlock own devices g hstage)
      · simp [next, hstage]
      · simp only [next, hstage, Event.thread, Function.update_self]
        exact hasked
  | _ => simpa [next, hstage] using h

theorem Sound.inner_next (h : Sound M m s₀ code own memory devices P g)
    (hserved : Served M m Inv s₀ own devices P) (e : Monitor.Event τ (κ × ι)) :
    Serial M m s₀ (M.next g.inner e) :=
  h.inner.next Inv hserved.finishes (m.run_invariant Inv hserved.keeps _ hserved.start) e

theorem Sound.ask (h : Sound M m s₀ code own memory devices P g)
    (hcode : Proper code own memory devices P) (hserved : Served M m Inv s₀ own devices P)
    (t : τ) : Sound M m s₀ code own memory devices P (next M code g (.ask t)) := by
  have hasked := h.asked t
  cases hstage : g.stage t with
  | inside k op p =>
      cases p with
      | done r => simpa [next, hstage] using h
      | ask i rest =>
          rw [hstage] at hasked
          have hnext : next M code g (.ask t) =
              { g with inner := M.next g.inner (.call t (k, i)) } := by simp [next, hstage]
          refine h.moved hcode ?_ ?_ ?_ k none (view_ask own devices g t)
          · rw [hnext]
            exact h.inner_next hserved (.call t (k, i))
          · rw [hnext]
            cases hinner : g.inner.phase t <;>
              simpa [Monitor.next, hinner, Monitor.State.inputs] using h.proper
          · rw [hnext]
            cases hinner : g.inner.phase t with
            | idle => simp [Event.thread, Monitor.next, hinner, hstage, Stage.Asked]
            | _ => simpa [Event.thread, Monitor.next, hinner, hstage] using hasked
  | _ => simpa [next, hstage] using h

theorem Sound.acquire (h : Sound M m s₀ code own memory devices P g)
    (hcode : Proper code own memory devices P) (hserved : Served M m Inv s₀ own devices P)
    (t : τ) : Sound M m s₀ code own memory devices P (next M code g (.acquire t)) := by
  have hasked := h.asked t
  have hnext : next M code g (.acquire t) =
      { g with inner := M.next g.inner (.acquire t) } := rfl
  cases hinner : g.inner.phase t with
  | waiting j =>
      obtain ⟨k, op, i, rest, hstage⟩ := hasked.question (by simp [hinner])
      rw [hstage, hinner] at hasked
      refine h.moved hcode (h.inner_next hserved (.acquire t)) ?_ ?_ k none
        (view_acquire own devices g t)
      · rw [hnext]
        cases hholder : g.inner.holder <;>
          simpa [Monitor.next, hinner, hholder, Monitor.State.inputs] using h.proper
      · rw [hnext]
        obtain rfl : j = (k, i) := hasked
        cases hholder : g.inner.holder <;>
          simp [Event.thread, Monitor.next, hinner, hholder, hstage, Stage.Asked]
  | _ => simpa [next, Monitor.next, hinner] using h

theorem Sound.answer (h : Sound M m s₀ code own memory devices P g)
    (hcode : Proper code own memory devices P) (hserved : Served M m Inv s₀ own devices P)
    (t : τ) : Sound M m s₀ code own memory devices P (next M code g (.answer t)) := by
  have hasked := h.asked t
  cases hinner : g.inner.phase t with
  | leaving o =>
      obtain ⟨k, op, i, rest, hstage⟩ := hasked.question (by simp [hinner])
      have hnext : next M code g (.answer t) = { g with
          inner := M.next g.inner (.release t)
          stage := Function.update g.stage t (.inside k op (rest o.2)) } := by
        simp [next, hstage, hinner]
      refine h.moved hcode ?_ ?_ ?_ k none (view_answer own devices g hstage hinner)
      · rw [hnext]
        exact h.inner_next hserved (.release t)
      · rw [hnext]
        simpa [Monitor.next, hinner, Monitor.State.inputs] using h.proper
      · rw [hnext]
        simpa [Event.thread, Monitor.next, hinner] using asked_idle k op (rest o.2)
  | _ =>
      have hnext : next M code g (.answer t) = g := by
        simp only [next, hinner]
        split <;> simp_all
      rw [hnext]
      exact h

theorem Sound.asks (h : Sound M m s₀ code own memory devices P g) {t : τ} {k : κ} {op : ω}
    {i : ι} {rest : ο → Program ι ο (φ × ρ)} {j : κ × ι} {b : β}
    (hstage : g.stage t = .inside k op (.ask i rest)) (hinner : g.inner.phase t = .inside j b) :
    P (k, i) := by
  refine (h.asking k t op (.ask i rest) ?_).1
  simp [State.view, hstage, hinner, fed]

theorem Sound.current (h : Sound M m s₀ code own memory devices P g) {j : κ × ι}
    (hj : j ∈ g.inner.current) : P j ∧ ∃ t, g.holder j.1 = some t := by
  rcases h.inner.moment with ⟨hnone, -⟩ | ⟨t, j', b, hinner, hcurrent, -⟩
  · rw [hnone] at hj
    cases hj
  · obtain rfl : j = j' := by simpa [hcurrent] using hj
    have hasked := h.asked t
    obtain ⟨k, op, i, rest, hstage⟩ := hasked.question (by simp [hinner])
    rw [hstage, hinner] at hasked
    obtain rfl : j = (k, i) := hasked
    refine ⟨h.asks hstage hinner, t, ((h.serial k).holder t).mp ?_⟩
    simp [State.view, hstage, Phase.holds]

theorem Sound.work (h : Sound M m s₀ code own memory devices P g)
    (hcode : Proper code own memory devices P) (hserved : Served M m Inv s₀ own devices P)
    (t : τ) : Sound M m s₀ code own memory devices P (next M code g (.work t)) := by
  have hasked := h.asked t
  have hnext : next M code g (.work t) = { g with inner := M.next g.inner (.work t) } := rfl
  cases hinner : g.inner.phase t with
  | inside j b =>
      obtain ⟨k, op, i, rest, hstage⟩ := hasked.question (by simp [hinner])
      rw [hstage, hinner] at hasked
      obtain rfl : j = (k, i) := hasked
      rcases (h.inner.body t (k, i) b hinner).cases_work with hlast | ⟨s', b', hmore, -⟩
      · have hi : P (k, i) := h.asks hstage hinner
        have hanswer := hserved.answer h.proper hi
        refine h.moved hcode (h.inner_next hserved (.work t)) ?_ ?_ k (some (.work t))
          (view_work_last own devices g hstage hinner (hlast.trans (by rw [hanswer])))
        · rw [hnext]
          simp only [Monitor.next, hinner, hlast, Monitor.State.inputs, List.map_append]
          intro j hj
          rcases List.mem_append.mp hj with hold | hnew
          · exact h.proper j hold
          · exact List.mem_singleton.mp hnew ▸ hi
        · rw [hnext]
          simp [Event.thread, Monitor.next, hinner, hlast, hstage, Stage.Asked, hanswer]
      · refine h.moved hcode (h.inner_next hserved (.work t)) ?_ ?_ k none
          (view_work_more own devices g hinner hmore)
        · rw [hnext]
          simpa [Monitor.next, hinner, hmore, Monitor.State.inputs] using h.proper
        · rw [hnext]
          simp [Event.thread, Monitor.next, hinner, hmore, hstage, Stage.Asked]
  | _ => simpa [next, Monitor.next, hinner] using h

theorem Sound.next (h : Sound M m s₀ code own memory devices P g)
    (hcode : Proper code own memory devices P) (hserved : Served M m Inv s₀ own devices P)
    (e : Event τ κ ω) : Sound M m s₀ code own memory devices P (next M code g e) := by
  cases e with
  | call t k op => exact h.call hcode t k op
  | lock t => exact h.lock hcode t
  | ask t => exact h.ask hcode hserved t
  | acquire t => exact h.acquire hcode hserved t
  | work t => exact h.work hcode hserved t
  | answer t => exact h.answer hcode hserved t
  | finish t => exact h.finish hcode t
  | unlock t => exact h.unlock hcode t

/-- Run lemma: under every schedule each library is alone on its device. -/
theorem Sound.run (h : Sound M m s₀ code own memory devices P g)
    (hcode : Proper code own memory devices P) (hserved : Served M m Inv s₀ own devices P)
    (schedule : List (Event τ κ ω)) :
    Sound M m s₀ code own memory devices P ((threads M code τ).run g schedule) :=
  (threads M code τ).run_invariant (Sound M m s₀ code own memory devices P)
    (fun _ e hg => hg.next hcode hserved e) schedule h

/-! ## No dead end -/

theorem run_work (M : Monitor σ (κ × ι) β (κ × ο)) (code : κ → φ → ω → Program ι ο (φ × ρ))
    (g : State σ ι β ο φ ω ρ τ κ) (t : τ) (n : Nat) :
    (threads M code τ).run g (List.replicate n (.work t)) =
      { g with inner := (M.threads τ).run g.inner (List.replicate n (.work t)) } := by
  induction n generalizing g with
  | zero => rfl
  | succ n ih =>
      rw [List.replicate_succ, Machine.run_cons, ih]
      rfl

theorem Sound.answered (h : Sound M m s₀ code own memory devices P g) {t : τ} {k : κ} {op : ω}
    {i : ι} {rest : ο → Program ι ο (φ × ρ)} (hstage : g.stage t = .inside k op (.ask i rest))
    (ht : (g.inner.phase t).holds = true) :
    ∃ es o, let g' := (threads M code τ).run g es
      g'.inner.holder = none ∧ g'.stage t = .inside k op (rest o) ∧
        ∀ u, u ≠ t → g'.stage u = g.stage u ∧ g'.inner.phase u = g.inner.phase u := by
  obtain ⟨n, o, hn⟩ := h.inner.leaves ht
  have hothers : ∀ u, u ≠ t → ((M.threads τ).run g.inner (List.replicate n (.work t))).phase u =
      g.inner.phase u := by
    intro u hu
    refine Monitor.run_phase_of_ne M g.inner fun e he => ?_
    rw [List.eq_of_mem_replicate he]
    exact hu
  refine ⟨List.replicate n (.work t) ++ [.answer t], o.2, ?_⟩
  rw [Machine.run_append, run_work]
  generalize (M.threads τ).run g.inner (List.replicate n (.work t)) = inner at hn hothers ⊢
  refine ⟨?_, ?_, fun u hu => ⟨?_, ?_⟩⟩
  · simp [threads, Layers.next, hstage, hn, Monitor.next]
  · simp [threads, Layers.next, hstage, hn]
  · simp [threads, Layers.next, hstage, hn, hu]
  · simpa [threads, Layers.next, hstage, hn, hu, Monitor.next] using hothers u hu

theorem Sound.goes_on (h : Sound M m s₀ code own memory devices P g)
    (hcode : Proper code own memory devices P) (hserved : Served M m Inv s₀ own devices P)
    {t : τ} {k : κ} {op : ω} {i : ι} {rest : ο → Program ι ο (φ × ρ)}
    (hstage : g.stage t = .inside k op (.ask i rest)) :
    ∃ es o, ((threads M code τ).run g es).stage t = .inside k op (rest o) := by
  have hinside : ∀ g : State σ ι β ο φ ω ρ τ κ, Sound M m s₀ code own memory devices P g →
      g.stage t = .inside k op (.ask i rest) → (g.inner.phase t).holds = true →
        ∃ es o, ((threads M code τ).run g es).stage t = .inside k op (rest o) := by
    intro g h hstage ht
    obtain ⟨es, o, -, hes, -⟩ := h.answered hstage ht
    exact ⟨es, o, hes⟩
  have hfree : ∀ g : State σ ι β ο φ ω ρ τ κ, Sound M m s₀ code own memory devices P g →
      g.stage t = .inside k op (.ask i rest) → (g.inner.phase t).holds = false →
        g.inner.holder = none →
        ∃ es o, ((threads M code τ).run g es).stage t = .inside k op (rest o) := by
    intro g h hstage ht hholder
    have hasked := h.asked t
    have hin : (((threads M code τ).run g [.ask t, .acquire t]).inner.phase t).holds = true := by
      cases hinner : g.inner.phase t with
      | idle =>
          simp [threads, Layers.next, hstage, Monitor.next, hinner, hholder, Phase.holds]
      | waiting j =>
          simp [threads, Layers.next, hstage, Monitor.next, hinner, hholder, Phase.holds]
      | _ => simp [hinner, Phase.holds] at ht
    have hstage' : ((threads M code τ).run g [.ask t, .acquire t]).stage t =
        .inside k op (.ask i rest) := by
      simp [threads, Layers.next, hstage]
    obtain ⟨es, o, hes⟩ := hinside _ (h.run hcode hserved [.ask t, .acquire t]) hstage' hin
    refine ⟨[.ask t, .acquire t] ++ es, o, ?_⟩
    rw [Machine.run_append]
    exact hes
  cases ht : (g.inner.phase t).holds with
  | true => exact hinside g h hstage ht
  | false =>
      cases hholder : g.inner.holder with
      | none => exact hfree g h hstage ht hholder
      | some u =>
          have hu : (g.inner.phase u).holds = true := (h.inner.holder u).mpr hholder
          have htu : t ≠ u := by
            rintro rfl
            rw [ht] at hu
            cases hu
          have hbusy : g.inner.phase u ≠ .idle := by
            intro hidle
            rw [hidle] at hu
            cases hu
          obtain ⟨k', op', i', rest', hstage'⟩ := (h.asked u).question hbusy
          obtain ⟨es, o, hnone, -, hothers⟩ := h.answered hstage' hu
          obtain ⟨hst, hph⟩ := hothers t htu
          obtain ⟨es', o', hes'⟩ := hfree _ (h.run hcode hserved es) (hst.trans hstage)
            (by rw [hph]; exact ht) hnone
          refine ⟨es ++ es', o', ?_⟩
          rw [Machine.run_append]
          exact hes'

theorem Sound.leaves (h : Sound M m s₀ code own memory devices P g)
    (hcode : Proper code own memory devices P) (hserved : Served M m Inv s₀ own devices P)
    {t : τ} {k : κ} {op : ω} {p : Program ι ο (φ × ρ)} (hstage : g.stage t = .inside k op p) :
    ∃ es r, ((threads M code τ).run g es).stage t = .leaving k r := by
  induction p generalizing g with
  | done r => exact ⟨[.finish t], r.2, by simp [threads, Layers.next, hstage]⟩
  | ask i rest ih =>
      obtain ⟨es, o, hes⟩ := h.goes_on hcode hserved hstage
      obtain ⟨es', r, hes'⟩ := ih o (h.run hcode hserved es) hes
      refine ⟨es ++ es', r, ?_⟩
      rw [Machine.run_append]
      exact hes'

/-- Whoever has the lock of a library can give it back, whoever is in the monitor. -/
theorem Sound.unlocks (h : Sound M m s₀ code own memory devices P g)
    (hcode : Proper code own memory devices P) (hserved : Served M m Inv s₀ own devices P)
    {t : τ} {k : κ} (ht : g.holder k = some t) :
    ∃ es, ((threads M code τ).run g es).holder k = none := by
  have hleaving : ∀ g : State σ ι β ο φ ω ρ τ κ, ∀ r, g.stage t = .leaving k r →
      ((threads M code τ).run g [.unlock t]).holder k = none := by
    intro g r hstage
    simp [threads, Layers.next, hstage]
  have hheld := ((h.serial k).holder t).mpr ht
  cases hstage : g.stage t with
  | idle => simp [State.view, hstage, Phase.holds] at hheld
  | waiting k' op =>
      simp only [State.view, hstage, Stage.view_waiting] at hheld
      split at hheld <;> cases hheld
  | inside k' op p =>
      by_cases hk : k' = k
      · subst hk
        obtain ⟨es, r, hes⟩ := h.leaves hcode hserved hstage
        refine ⟨es ++ [.unlock t], ?_⟩
        rw [Machine.run_append]
        exact hleaving _ r hes
      · simp [State.view, hstage, hk, Phase.holds] at hheld
  | leaving k' r =>
      by_cases hk : k' = k
      · subst hk
        exact ⟨[.unlock t], hleaving g r hstage⟩
      · simp [State.view, hstage, hk, Phase.holds] at hheld

end LibDvm.Layers
