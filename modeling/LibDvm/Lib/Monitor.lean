import LibDvm.Lib.Machine
import Mathlib.Logic.Function.Basic

/-! # Calls under one lock

A monitor is a resource that threads enter one at a time. The body of a call is done
piece by piece, and between two pieces any thread may move. Where the body alone does
what one step of a sequential machine does, the calls of all threads, under every
schedule, answer as that machine does in the order in which they finish.
-/

namespace LibDvm

universe u v w x y

/-- What a body starts from once its thread has the lock, and one piece of a body: it
goes on, or ends with an answer. -/
structure Monitor (σ : Type u) (ι : Type v) (κ : Type w) (ο : Type x) where
  enter : σ → ι → κ
  work : σ → κ → σ × (κ ⊕ ο)

namespace Monitor

variable {σ : Type u} {ι : Type v} {κ : Type w} {ο : Type x} {τ : Type y}

/-- Where a thread is: outside, blocked on the lock, in the body of its call, or done
with the body and about to release the lock. -/
inductive Phase (ι : Type v) (κ : Type w) (ο : Type x) where
  | idle
  | waiting (i : ι)
  | inside (i : ι) (k : κ)
  | leaving (o : ο)

inductive Event (τ : Type y) (ι : Type v) where
  | call (t : τ) (i : ι)
  | acquire (t : τ)
  | work (t : τ)
  | release (t : τ)

def Event.thread : Event τ ι → τ
  | .call t _ => t
  | .acquire t => t
  | .work t => t
  | .release t => t

structure Finished (τ : Type y) (ι : Type v) (ο : Type x) where
  thread : τ
  input : ι
  answer : ο

/-- The resource, its lock and its threads. `history` lists the bodies in the order in
which they ended; `calls` and `returns` are what each thread has asked and been told. -/
structure State (σ : Type u) (ι : Type v) (κ : Type w) (ο : Type x) (τ : Type y) where
  shared : σ
  holder : Option τ
  phase : τ → Phase ι κ ο
  history : List (Finished τ ι ο)
  calls : τ → List ι
  returns : τ → List ο

def State.init (τ : Type y) (κ : Type w) (s : σ) : State σ ι κ ο τ :=
  ⟨s, none, fun _ => .idle, [], fun _ => [], fun _ => []⟩

def State.inputs (g : State σ ι κ ο τ) : List ι := g.history.map (·.input)

def State.of [DecidableEq τ] (g : State σ ι κ ο τ) (t : τ) : List (Finished τ ι ο) :=
  g.history.filter fun f => f.thread = t

def Phase.pending : Phase ι κ ο → List ι
  | .waiting i => [i]
  | .inside i _ => [i]
  | _ => []

def State.current (g : State σ ι κ ο τ) : List ι :=
  match g.holder with
  | none => []
  | some t =>
      match g.phase t with
      | .inside i _ => [i]
      | _ => []

def Phase.answer : Phase ι κ ο → List ο
  | .leaving o => [o]
  | _ => []

/-- The thread is between `acquire` and `release`. -/
def Phase.holds : Phase ι κ ο → Bool
  | .inside _ _ => true
  | .leaving _ => true
  | _ => false

variable [DecidableEq τ]

/-- One event. What the event's thread cannot do now leaves everything as it is. -/
def next (M : Monitor σ ι κ ο) (g : State σ ι κ ο τ) : Event τ ι → State σ ι κ ο τ
  | .call t i =>
      match g.phase t with
      | .idle =>
          { g with
            phase := Function.update g.phase t (.waiting i)
            calls := Function.update g.calls t (g.calls t ++ [i]) }
      | _ => g
  | .acquire t =>
      match g.phase t, g.holder with
      | .waiting i, none =>
          { g with
            holder := some t
            phase := Function.update g.phase t (.inside i (M.enter g.shared i)) }
      | _, _ => g
  | .work t =>
      match g.phase t with
      | .inside i k =>
          match M.work g.shared k with
          | (shared, .inl k') =>
              { g with shared, phase := Function.update g.phase t (.inside i k') }
          | (shared, .inr o) =>
              { g with
                shared
                phase := Function.update g.phase t (.leaving o)
                history := g.history ++ [⟨t, i, o⟩] }
      | _ => g
  | .release t =>
      match g.phase t with
      | .leaving o =>
          { g with
            holder := none
            phase := Function.update g.phase t .idle
            returns := Function.update g.returns t (g.returns t ++ [o]) }
      | _ => g

theorem next_phase_of_ne (M : Monitor σ ι κ ο) (g : State σ ι κ ο τ) (e : Event τ ι) {u : τ}
    (hu : u ≠ e.thread) : (M.next g e).phase u = g.phase u := by
  cases e with
  | call t i => cases hphase : g.phase t <;> simp_all [next, Event.thread]
  | acquire t => cases hphase : g.phase t <;> cases hholder : g.holder <;>
      simp_all [next, Event.thread]
  | work t =>
      cases hphase : g.phase t with
      | inside i k =>
          have hu' : u ≠ t := hu
          cases hwork : M.work g.shared k with
          | mk s r => cases r <;> simp [next, hphase, hwork, hu']
      | _ => simp [next, hphase]
  | release t => cases hphase : g.phase t <;> simp_all [next, Event.thread]

theorem next_shared (M : Monitor σ ι κ ο) (g : State σ ι κ ο τ) (e : Event τ ι) :
    (M.next g e).shared = g.shared ∨ (g.phase e.thread).holds = true := by
  cases e with
  | call t i => cases hphase : g.phase t <;> simp [next, hphase]
  | acquire t => cases hphase : g.phase t <;> cases hholder : g.holder <;>
      simp [next, hphase, hholder]
  | work t =>
      cases hphase : g.phase t with
      | inside i k => exact .inr (by simp [Event.thread, hphase, Phase.holds])
      | _ => simp [next, hphase]
  | release t => cases hphase : g.phase t <;> simp [next, hphase]

def threads (M : Monitor σ ι κ ο) (τ : Type y) [DecidableEq τ] :
    Machine (State σ ι κ ο τ) (Event τ ι) Unit := ⟨fun g e => (next M g e, ())⟩

inductive Finishes (M : Monitor σ ι κ ο) : σ → κ → σ × ο → Prop where
  | last {s s' : σ} {k : κ} {o : ο} (h : M.work s k = (s', .inr o)) : Finishes M s k (s', o)
  | more {s s' : σ} {k k' : κ} {r : σ × ο} (h : M.work s k = (s', .inl k'))
      (rest : Finishes M s' k' r) : Finishes M s k r

theorem Finishes.cases_work {M : Monitor σ ι κ ο} {s : σ} {k : κ} {r : σ × ο}
    (h : M.Finishes s k r) : M.work s k = (r.1, .inr r.2) ∨
      ∃ s' k', M.work s k = (s', .inl k') ∧ M.Finishes s' k' r := by
  cases h with
  | last hend => exact .inl hend
  | more hgo rest => exact .inr ⟨_, _, hgo, rest⟩

/-- The body gets from `k` to `k'` without ending, and the resource from `s` to `s'`. -/
inductive Reaches (M : Monitor σ ι κ ο) : σ → κ → σ → κ → Prop where
  | refl {s : σ} {k : κ} : Reaches M s k s k
  | more {s s' s'' : σ} {k k' k'' : κ} (h : M.work s k = (s', .inl k'))
      (rest : Reaches M s' k' s'' k'') : Reaches M s k s'' k''

theorem Reaches.work {M : Monitor σ ι κ ο} {s s' s'' : σ} {k k' k'' : κ}
    (h : M.Reaches s k s' k') (hgo : M.work s' k' = (s'', .inl k'')) :
    M.Reaches s k s'' k'' := by
  induction h with
  | refl => exact .more hgo .refl
  | more hfirst rest ih => exact .more hfirst (ih hgo)

def adapt {ι' : Type v} {ο' : Type x} (M : Monitor σ ι κ ο) (f : ι' → ι) (g : ι' → ο → ο') :
    Monitor σ ι' (ι' × κ) ο' where
  enter s i := (i, M.enter s (f i))
  work s k :=
    let r := M.work s k.2
    (r.1, match r.2 with
      | .inl k' => .inl (k.1, k')
      | .inr o => .inr (g k.1 o))

theorem Finishes.adapt {ι' : Type v} {ο' : Type x} {M : Monitor σ ι κ ο} {s : σ} {k : κ}
    {r : σ × ο} (h : M.Finishes s k r) (f : ι' → ι) (g : ι' → ο → ο') (i : ι') :
    (M.adapt f g).Finishes s (i, k) (r.1, g i r.2) := by
  induction h with
  | last hend => exact .last (by simp [Monitor.adapt, hend])
  | more hgo rest ih => exact .more (by simp only [Monitor.adapt, hgo]) ih

theorem Reaches.of_adapt {ι' : Type v} {ο' : Type x} {M : Monitor σ ι κ ο} {s s' : σ}
    {f : ι' → ι} {g : ι' → ο → ο'} {k k' : ι' × κ} (h : (M.adapt f g).Reaches s k s' k') :
    M.Reaches s k.2 s' k'.2 := by
  induction h with
  | refl => exact .refl
  | @more s s' s'' k k' k'' hgo rest ih =>
      cases hwork : M.work s k.2 with
      | mk s₁ r =>
          cases r with
          | inl k₁ =>
              obtain ⟨rfl, rfl⟩ : s₁ = s' ∧ (k.1, k₁) = k' := by
                simpa [Monitor.adapt, hwork] using hgo
              exact .more hwork ih
          | inr o => simp [Monitor.adapt, hwork] at hgo

/-! ## Serial histories -/

/-- The bodies so far are a run of the machine `m`, and each thread's are its calls. -/
structure Serial (M : Monitor σ ι κ ο) (m : Machine σ ι ο) (s₀ : σ) (g : State σ ι κ ο τ) :
    Prop where
  answers : g.history.map (·.answer) = m.answers s₀ g.inputs
  holder : ∀ t, (g.phase t).holds = true ↔ g.holder = some t
  begun : ∀ t i k, g.phase t = .inside i k →
    M.Reaches (m.run s₀ g.inputs) (M.enter (m.run s₀ g.inputs) i) g.shared k
  body : ∀ t i k, g.phase t = .inside i k →
    M.Finishes g.shared k (m.step (m.run s₀ g.inputs) i)
  settled : (∀ t i k, g.phase t ≠ .inside i k) → g.shared = m.run s₀ g.inputs
  calls : ∀ t, (g.of t).map (·.input) ++ (g.phase t).pending = g.calls t
  returns : ∀ t, (g.of t).map (·.answer) = g.returns t ++ (g.phase t).answer

variable {M : Monitor σ ι κ ο} {m : Machine σ ι ο} {s₀ : σ} {g : State σ ι κ ο τ}

theorem Serial.init (M : Monitor σ ι κ ο) (m : Machine σ ι ο) (s₀ : σ) :
    Serial M m s₀ (State.init τ κ s₀) where
  answers := rfl
  holder := by simp [State.init, Phase.holds]
  begun := by simp [State.init]
  body := by simp [State.init]
  settled := fun _ => rfl
  calls := fun _ => rfl
  returns := fun _ => rfl

theorem Serial.exclusive (h : Serial M m s₀ g) {t u : τ} (ht : (g.phase t).holds = true)
    (hu : (g.phase u).holds = true) : t = u := by
  have hsame : some t = some u := ((h.holder t).mp ht).symm.trans ((h.holder u).mp hu)
  exact Option.some.inj hsame

theorem Serial.free (h : Serial M m s₀ g) (hfree : g.holder = none) :
    g.shared = m.run s₀ g.inputs := by
  apply h.settled
  intro t i k hin
  have hheld : g.holder = some t := (h.holder t).mp (by rw [hin]; rfl)
  rw [hfree] at hheld
  cases hheld

/-- At every moment the resource is where the finished bodies have left it, or a body has
begun there. -/
theorem Serial.moment (h : Serial M m s₀ g) :
    (g.current = [] ∧ g.shared = m.run s₀ g.inputs) ∨
      ∃ t i k, g.phase t = .inside i k ∧ g.current = [i] ∧
        M.Reaches (m.run s₀ g.inputs) (M.enter (m.run s₀ g.inputs) i) g.shared k := by
  have hout : ∀ t, g.holder = some t → (∀ i k, g.phase t ≠ .inside i k) →
      g.shared = m.run s₀ g.inputs := by
    intro t ht hnot
    apply h.settled
    intro u i k hin
    have hu : g.holder = some u := (h.holder u).mp (by rw [hin]; rfl)
    obtain rfl : t = u := Option.some.inj (ht.symm.trans hu)
    exact hnot i k hin
  cases hholder : g.holder with
  | none => exact .inl ⟨by simp [State.current, hholder], h.free hholder⟩
  | some t =>
      cases hphase : g.phase t with
      | inside i k =>
          exact .inr ⟨t, i, k, hphase, by simp [State.current, hholder, hphase],
            h.begun t i k hphase⟩
      | _ =>
          refine .inl ⟨by simp [State.current, hholder, hphase], hout t hholder ?_⟩
          simp [hphase]

/-! ## One event -/

theorem Serial.call (h : Serial M m s₀ g) {t : τ} (i : ι) (hphase : g.phase t = .idle) :
    Serial M m s₀ { g with
      phase := Function.update g.phase t (.waiting i)
      calls := Function.update g.calls t (g.calls t ++ [i]) } := by
  have hcalls := h.calls t
  have hreturns := h.returns t
  rw [hphase] at hcalls hreturns
  refine ⟨h.answers, fun u => ?_, fun u j k hin => ?_, fun u j k hin => ?_,
    fun hnone => h.settled fun u j k hin => ?_, fun u => ?_, fun u => ?_⟩
  · by_cases hu : u = t
    · subst u
      simp [← h.holder t, hphase, Phase.holds]
    · simpa [hu] using h.holder u
  · by_cases hu : u = t
    · subst u
      simp at hin
    · exact h.begun u j k (by simpa [hu] using hin)
  · by_cases hu : u = t
    · subst u
      simp at hin
    · exact h.body u j k (by simpa [hu] using hin)
  · by_cases hu : u = t
    · subst u
      rw [hphase] at hin
      cases hin
    · exact hnone u j k (by simpa [hu] using hin)
  · by_cases hu : u = t
    · subst u
      simpa [Phase.pending, State.of] using hcalls
    · simpa [hu, State.of] using h.calls u
  · by_cases hu : u = t
    · subst u
      simpa [Phase.answer, State.of] using hreturns
    · simpa [hu, State.of] using h.returns u

theorem Serial.own (h : Serial M m s₀ g) (t : τ) (s : σ) (holder : Option τ) (p : Phase ι κ ο)
    (fs : List (Finished τ ι ο)) (told : List ο)
    (hothers : ∀ u, u ≠ t → (g.phase u).holds = false) (hown : ∀ f ∈ fs, f.thread = t)
    (hanswers : fs.map (·.answer) = m.answers (m.run s₀ g.inputs) (fs.map (·.input)))
    (hholder : holder = if p.holds then some t else none)
    (hbegun : ∀ i k, p = .inside i k →
      let s₁ := m.run s₀ (g.inputs ++ fs.map (·.input))
      M.Reaches s₁ (M.enter s₁ i) s k)
    (hbody : ∀ i k, p = .inside i k →
      M.Finishes s k (m.step (m.run s₀ (g.inputs ++ fs.map (·.input))) i))
    (hsettled : (∀ i k, p ≠ .inside i k) → s = m.run s₀ (g.inputs ++ fs.map (·.input)))
    (hcalls : fs.map (·.input) ++ p.pending = (g.phase t).pending)
    (hreturns : (g.phase t).answer ++ fs.map (·.answer) = told ++ p.answer) :
    Serial M m s₀
      { shared := s
        holder := holder
        phase := Function.update g.phase t p
        history := g.history ++ fs
        calls := g.calls
        returns := Function.update g.returns t (g.returns t ++ told) } := by
  have hinputs : ∀ ph ca re, State.inputs (⟨s, holder, ph, g.history ++ fs, ca, re⟩ :
      State σ ι κ ο τ) = g.inputs ++ fs.map (·.input) := fun _ _ _ => List.map_append
  have hmine : ∀ ph ca re, State.of (⟨s, holder, ph, g.history ++ fs, ca, re⟩ :
      State σ ι κ ο τ) t = g.of t ++ fs := by
    intro ph ca re
    have hall : fs.filter (fun f => f.thread = t) = fs := by simpa using hown
    rw [State.of, List.filter_append, hall]
    rfl
  have hnot : ∀ u, u ≠ t → ∀ ph ca re, State.of (⟨s, holder, ph, g.history ++ fs, ca, re⟩ :
      State σ ι κ ο τ) u = g.of u := by
    intro u hu ph ca re
    have hnone : fs.filter (fun f => f.thread = u) = [] := by
      rw [List.filter_eq_nil_iff]
      intro f hf
      simpa [hown f hf] using Ne.symm hu
    rw [State.of, List.filter_append, hnone, List.append_nil]
    rfl
  have hthread : ∀ u j k, Function.update g.phase t p u = .inside j k → u = t := by
    intro u j k hin
    by_contra hu
    have hheld : (g.phase u).holds = true := by
      rw [show g.phase u = .inside j k by simpa [hu] using hin]
      rfl
    rw [hothers u hu] at hheld
    cases hheld
  refine ⟨?_, fun u => ?_, fun u j k hin => ?_, fun u j k hin => ?_, fun hnone => ?_,
    fun u => ?_, fun u => ?_⟩
  · rw [hinputs, Machine.answers_append, ← h.answers, ← hanswers, List.map_append]
  · by_cases hu : u = t
    · subst u
      cases hp : p.holds <;> simp [hholder, hp]
    · have hno : (g.phase u).holds = false := hothers u hu
      cases hp : p.holds <;> simp [hholder, hp, hu, hno, Ne.symm hu]
  · rw [hinputs]
    obtain rfl : u = t := hthread u j k hin
    exact hbegun j k (by simpa using hin)
  · rw [hinputs]
    obtain rfl : u = t := hthread u j k hin
    exact hbody j k (by simpa using hin)
  · rw [hinputs]
    exact hsettled fun i k hp => hnone t i k (by simpa using hp)
  · by_cases hu : u = t
    · subst u
      rw [hmine, List.map_append, List.append_assoc]
      simpa [hcalls] using h.calls t
    · rw [hnot u hu]
      simpa [hu] using h.calls u
  · by_cases hu : u = t
    · subst u
      rw [hmine, List.map_append, h.returns t, List.append_assoc, hreturns]
      simp
    · rw [hnot u hu]
      simpa [hu] using h.returns u

theorem Serial.others (h : Serial M m s₀ g) {t : τ}
    (ht : (g.phase t).holds = true ∨ g.holder = none) :
    ∀ u, u ≠ t → (g.phase u).holds = false := by
  intro u hu
  rw [Bool.eq_false_iff]
  intro hheld
  rcases ht with ht | hfree
  · exact hu (h.exclusive hheld ht)
  · have hholder : g.holder = some u := (h.holder u).mp hheld
    rw [hfree] at hholder
    cases hholder

/-- Step lemma: every event keeps the history serial. -/
theorem Serial.next (Inv : σ → Prop)
    (hbody : ∀ s i, Inv s → M.Finishes s (M.enter s i) (m.step s i))
    (hrun : Inv (m.run s₀ g.inputs)) (h : Serial M m s₀ g) (e : Event τ ι) :
    Serial M m s₀ (M.next g e) := by
  cases e with
  | call t i =>
      cases hphase : g.phase t with
      | idle => simpa [Monitor.next, hphase] using h.call i hphase
      | _ => simpa [Monitor.next, hphase] using h
  | acquire t =>
      cases hphase : g.phase t with
      | waiting i =>
          cases hholder : g.holder with
          | some u => simpa [Monitor.next, hphase, hholder] using h
          | none =>
              have hshared : g.shared = m.run s₀ g.inputs := h.free hholder
              have hown := h.own t g.shared (some t) (.inside i (M.enter g.shared i)) [] []
                (h.others (.inr hholder)) (by simp) rfl rfl
                (by
                  intro j k hp
                  cases hp
                  simpa [← hshared] using Reaches.refl)
                (by
                  intro j k hp
                  cases hp
                  simpa [← hshared] using hbody g.shared i (hshared ▸ hrun))
                (fun hne => absurd rfl (hne i _)) (by simp [hphase, Phase.pending])
                (by simp [hphase, Phase.answer])
              simpa [Monitor.next, hphase, hholder] using hown
      | _ => simpa [Monitor.next, hphase] using h
  | work t =>
      cases hphase : g.phase t with
      | inside i k =>
          have hothers := h.others (t := t) (.inl (by rw [hphase]; rfl))
          have hholder : g.holder = some t := (h.holder t).mp (by rw [hphase]; rfl)
          rcases (h.body t i k hphase).cases_work with hend | ⟨s', k', hgo, hrest⟩
          · generalize hr : m.step (m.run s₀ g.inputs) i = r at hend
            have hown := h.own t r.1 (some t) (.leaving r.2) [⟨t, i, r.2⟩] [] hothers (by simp)
              (by simp [← hr]) rfl (by simp) (by simp)
              (fun _ => by simp [Machine.run_append, hr])
              (by simp [hphase, Phase.pending]) (by simp [hphase, Phase.answer])
            simpa [Monitor.next, hphase, hend, hholder] using hown
          · have hown := h.own t s' (some t) (.inside i k') [] [] hothers (by simp) rfl rfl
              (by
                intro j k'' hp
                cases hp
                simpa using (h.begun t i k hphase).work hgo)
              (by
                intro j k'' hp
                cases hp
                simpa using hrest)
              (fun hne => absurd rfl (hne i k')) (by simp [hphase, Phase.pending])
              (by simp [hphase, Phase.answer])
            simpa [Monitor.next, hphase, hgo, hholder] using hown
      | _ => simpa [Monitor.next, hphase] using h
  | release t =>
      cases hphase : g.phase t with
      | leaving o =>
          have hothers := h.others (t := t) (.inl (by rw [hphase]; rfl))
          have hout : ∀ u i k, g.phase u ≠ .inside i k := by
            intro u i k hin
            have hu : u = t := h.exclusive (by rw [hin]; rfl) (by rw [hphase]; rfl)
            rw [hu, hphase] at hin
            cases hin
          have hown := h.own t g.shared none .idle [] [o] hothers (by simp) rfl rfl (by simp)
            (by simp)
            (fun _ => by simpa using h.settled hout) (by simp [hphase, Phase.pending])
            (by simp [hphase, Phase.answer])
          simpa [Monitor.next, hphase] using hown
      | _ => simpa [Monitor.next, hphase] using h

/-! ## Schedules -/

/-- Run lemma: under every schedule the history is serial, if the sequential machine keeps
an invariant under which a body does what one of its steps does. -/
theorem Serial.run (Inv : σ → Prop)
    (hbody : ∀ s i, Inv s → M.Finishes s (M.enter s i) (m.step s i))
    (hstep : ∀ s i, Inv s → Inv (m.step s i).1) (hs : Inv s₀) (h : Serial M m s₀ g)
    (schedule : List (Event τ ι)) : Serial M m s₀ ((M.threads τ).run g schedule) := by
  induction schedule generalizing g with
  | nil => exact h
  | cons e es ih =>
      have hrun : Inv (m.run s₀ g.inputs) := m.run_invariant Inv hstep g.inputs hs
      exact ih (h.next Inv hbody hrun e)

theorem run_phase_of_ne (M : Monitor σ ι κ ο) (g : State σ ι κ ο τ) {u : τ}
    {schedule : List (Event τ ι)} (hu : ∀ e ∈ schedule, u ≠ e.thread) :
    ((M.threads τ).run g schedule).phase u = g.phase u := by
  induction schedule generalizing g with
  | nil => rfl
  | cons e es ih =>
      rw [Machine.run_cons, ih _ fun e' he' => hu e' (List.mem_cons_of_mem e he')]
      exact next_phase_of_ne M g e (hu e List.mem_cons_self)

theorem next_history (M : Monitor σ ι κ ο) (g : State σ ι κ ο τ) (e : Event τ ι) :
    g.history <+: (M.next g e).history := by
  cases e with
  | call t i => cases hphase : g.phase t <;> simp [next, hphase]
  | acquire t => cases hphase : g.phase t <;> cases hholder : g.holder <;>
      simp [next, hphase, hholder]
  | work t =>
      cases hphase : g.phase t with
      | inside i k =>
          cases hwork : M.work g.shared k with
          | mk s r => cases r <;> simp [next, hphase, hwork]
      | _ => simp [next, hphase]
  | release t => cases hphase : g.phase t <;> simp [next, hphase]

theorem run_history (M : Monitor σ ι κ ο) (g : State σ ι κ ο τ) (schedule : List (Event τ ι)) :
    g.history <+: ((M.threads τ).run g schedule).history := by
  induction schedule generalizing g with
  | nil => exact List.prefix_refl _
  | cons e es ih => exact (next_history M g e).trans (ih (M.next g e))

theorem next_calls (M : Monitor σ ι κ ο) (g : State σ ι κ ο τ) (e : Event τ ι) (t : τ) :
    (M.next g e).calls t = g.calls t ∨
      ∃ i, e = .call t i ∧ (M.next g e).calls t = g.calls t ++ [i] := by
  cases e with
  | call u i =>
      cases hphase : g.phase u with
      | idle =>
          by_cases ht : t = u
          · subst t
            exact .inr ⟨i, rfl, by simp [next, hphase]⟩
          · exact .inl (by simp [next, hphase, ht])
      | _ => simp [next, hphase]
  | acquire u => cases hphase : g.phase u <;> cases hholder : g.holder <;>
      simp [next, hphase, hholder]
  | work u =>
      cases hphase : g.phase u with
      | inside i k =>
          cases hwork : M.work g.shared k with
          | mk s r => cases r <;> simp [next, hphase, hwork]
      | _ => simp [next, hphase]
  | release u => cases hphase : g.phase u <;> simp [next, hphase]

theorem run_calls (M : Monitor σ ι κ ο) (g : State σ ι κ ο τ) (schedule : List (Event τ ι))
    {t : τ} {i : ι} (hi : i ∈ ((M.threads τ).run g schedule).calls t) :
    i ∈ g.calls t ∨ .call t i ∈ schedule := by
  induction schedule generalizing g with
  | nil => exact .inl hi
  | cons e es ih =>
      rcases ih (M.next g e) hi with hnow | hlater
      · rcases next_calls M g e t with heq | ⟨j, he, heq⟩
        · exact .inl (heq ▸ hnow)
        · rw [heq, List.mem_append, List.mem_singleton] at hnow
          rcases hnow with hold | rfl
          · exact .inl hold
          · exact .inr (he ▸ List.mem_cons_self)
      · exact .inr (List.mem_cons_of_mem e hlater)

theorem Serial.input_called (h : Serial M m s₀ g) {i : ι} (hi : i ∈ g.inputs) :
    ∃ t, i ∈ g.calls t := by
  obtain ⟨f, hf, rfl⟩ := List.mem_map.mp hi
  refine ⟨f.thread, ?_⟩
  rw [← h.calls f.thread]
  exact List.mem_append_left _ (List.mem_map_of_mem (List.mem_filter.mpr ⟨hf, by simp⟩))

theorem Serial.current_called (h : Serial M m s₀ g) {i : ι} (hi : i ∈ g.current) :
    ∃ t, i ∈ g.calls t := by
  rcases h.moment with ⟨hnone, -⟩ | ⟨t, j, k, hphase, hcurrent, -⟩
  · rw [hnone] at hi
    cases hi
  · obtain rfl : i = j := by simpa [hcurrent] using hi
    refine ⟨t, ?_⟩
    rw [← h.calls t, hphase]
    exact List.mem_append_right _ List.mem_cons_self

theorem Finishes.leaves {s : σ} {k : κ} {r : σ × ο} (h : M.Finishes s k r) {t : τ} {i : ι}
    (hshared : g.shared = s) (hphase : g.phase t = .inside i k) :
    ∃ n, ((M.threads τ).run g (List.replicate n (.work t))).phase t = .leaving r.2 := by
  induction h generalizing g with
  | last hend =>
      subst hshared
      refine ⟨1, ?_⟩
      simp [threads, Monitor.next, hphase, hend]
  | @more _ s' _ k' _ hgo rest ih =>
      subst hshared
      have hshared' : (M.next g (.work t)).shared = s' := by simp [Monitor.next, hphase, hgo]
      have hphase' : (M.next g (.work t)).phase t = .inside i k' := by
        simp [Monitor.next, hphase, hgo]
      obtain ⟨n, hn⟩ := ih hshared' hphase'
      exact ⟨n + 1, hn⟩

theorem Serial.leaves (h : Serial M m s₀ g) {t : τ} (ht : (g.phase t).holds = true) :
    ∃ n o, ((M.threads τ).run g (List.replicate n (.work t))).phase t = .leaving o := by
  cases hphase : g.phase t with
  | idle => simp [hphase, Phase.holds] at ht
  | waiting i => simp [hphase, Phase.holds] at ht
  | inside i k =>
      obtain ⟨n, hn⟩ := (h.body t i k hphase).leaves rfl hphase
      exact ⟨n, _, hn⟩
  | leaving o => exact ⟨0, o, hphase⟩

/-- Whoever has the lock can always give it back: no schedule so far is a dead end. -/
theorem Serial.unlocks (h : Serial M m s₀ g) {t : τ} (ht : g.holder = some t) :
    ∃ n, ((M.threads τ).run g (List.replicate n (.work t) ++ [.release t])).holder = none := by
  obtain ⟨n, o, hn⟩ := h.leaves ((h.holder t).mpr ht)
  refine ⟨n, ?_⟩
  rw [Machine.run_append]
  generalize (M.threads τ).run g (List.replicate n (.work t)) = g' at hn ⊢
  simp [threads, Monitor.next, hn]

end Monitor

end LibDvm
