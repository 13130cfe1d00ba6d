import LibDvm.Lib.Monitor

/-! # Programs over a machine

What a library does with a device below it: it asks one thing after another, goes on with
each answer, and ends with a result. Run at once, a program is a step of a machine. Run
question by question under a lock, it is a body of a monitor.
-/

namespace LibDvm

universe u v w x y z x'

inductive Program (ι : Type v) (ο : Type w) (β : Type x) where
  | done (b : β)
  | ask (i : ι) (next : ο → Program ι ο β)

namespace Program

variable {ψ : Type u} {ι : Type v} {ο : Type w} {β : Type x}

def run (m : Machine ψ ι ο) : ψ → Program ι ο β → ψ × β
  | s, .done b => (s, b)
  | s, .ask i next => run m (m.step s i).1 (next (m.step s i).2)

/-- Whatever the program asks, from this state on, meets `P`. -/
def Asks (m : Machine ψ ι ο) (P : ι → Prop) : ψ → Program ι ο β → Prop
  | _, .done _ => True
  | s, .ask i next => P i ∧ Asks m P (m.step s i).1 (next (m.step s i).2)

variable {φ : Type x} {ω : Type y} {ρ : Type x'} {τ : Type z}

/-- The operations of a library with a memory of its own; `code` gives their programs. -/
def operations (code : φ → ω → Program ι ο (φ × ρ)) (m : Machine ψ ι ο) :
    Machine (φ × ψ) ω ρ where
  step s op :=
    let r := (code s.1 op).run m s.2
    ((r.2.1, r.1), r.2.2)

def monitor (code : φ → ω → Program ι ο (φ × ρ)) (m : Machine ψ ι ο) :
    Monitor (φ × ψ) ω (Program ι ο (φ × ρ)) ρ where
  enter s op := code s.1 op
  work s p :=
    match p with
    | .done r => ((r.1, s.2), .inr r.2)
    | .ask i next => ((s.1, (m.step s.2 i).1), .inl (next (m.step s.2 i).2))

variable {code : φ → ω → Program ι ο (φ × ρ)} {m : Machine ψ ι ο}

theorem monitor_body (s : φ × ψ) (p : Program ι ο (φ × ρ)) :
    (monitor code m).Finishes s p (((p.run m s.2).2.1, (p.run m s.2).1), (p.run m s.2).2.2) := by
  induction p generalizing s with
  | done r => exact .last rfl
  | ask i next ih => exact .more rfl (ih (m.step s.2 i).2 (s.1, (m.step s.2 i).1))

theorem monitor_finishes (s : φ × ψ) (op : ω) :
    (monitor code m).Finishes s ((monitor code m).enter s op)
      ((operations code m).step s op) := monitor_body s (code s.1 op)

/-! ## What the bodies ask -/

/-- Whoever is in a body asks only what meets `P`. -/
def Asking (m : Machine ψ ι ο) (P : ι → Prop)
    (g : Monitor.State (φ × ψ) ω (Program ι ο (φ × ρ)) ρ τ) : Prop :=
  ∀ t op p, g.phase t = .inside op p → p.Asks m P g.shared.2

variable [DecidableEq τ] {P : ι → Prop} {s₀ : φ × ψ}
  {g : Monitor.State (φ × ψ) ω (Program ι ο (φ × ρ)) ρ τ}

theorem Asking.next_self (h : Asking m P g)
    (hserial : Monitor.Serial (monitor code m) (operations code m) s₀ g)
    (hcode : ∀ op, let s := (operations code m).run s₀ g.inputs
      (code s.1 op).Asks m P s.2) (e : Monitor.Event τ ω) {op : ω} {p : Program ι ο (φ × ρ)}
    (hin : ((monitor code m).next g e).phase e.thread = .inside op p) :
    p.Asks m P ((monitor code m).next g e).shared.2 := by
  cases e with
  | call t i =>
      cases hphase : g.phase t with
      | inside op' p' =>
          obtain ⟨rfl, rfl⟩ : op' = op ∧ p' = p := by
            simpa [Monitor.next, Monitor.Event.thread, hphase] using hin
          simpa [Monitor.next, hphase] using h t op' p' hphase
      | _ => simp [Monitor.next, Monitor.Event.thread, hphase] at hin
  | acquire t =>
      cases hphase : g.phase t with
      | waiting op' =>
          cases hholder : g.holder with
          | some u => simp [Monitor.next, Monitor.Event.thread, hphase, hholder] at hin
          | none =>
              have hshared := hserial.free hholder
              obtain ⟨rfl, rfl⟩ : op' = op ∧ (monitor code m).enter g.shared op' = p := by
                simpa [Monitor.next, Monitor.Event.thread, hphase, hholder] using hin
              simpa [Monitor.next, hphase, hholder, hshared, monitor] using hcode op'
      | inside op' p' =>
          obtain ⟨rfl, rfl⟩ : op' = op ∧ p' = p := by
            simpa [Monitor.next, Monitor.Event.thread, hphase] using hin
          simpa [Monitor.next, hphase] using h t op' p' hphase
      | _ => simp [Monitor.next, Monitor.Event.thread, hphase] at hin
  | work t =>
      cases hphase : g.phase t with
      | inside op' p' =>
          have hasks := h t op' p' hphase
          cases p' with
          | done r => simp [Monitor.next, Monitor.Event.thread, hphase, monitor] at hin
          | ask i next =>
              obtain ⟨rfl, rfl⟩ : op' = op ∧ next (m.step g.shared.2 i).2 = p := by
                simpa [Monitor.next, Monitor.Event.thread, hphase, monitor] using hin
              simpa [Monitor.next, hphase, monitor] using hasks.2
      | _ => simp [Monitor.next, Monitor.Event.thread, hphase] at hin
  | release t =>
      cases hphase : g.phase t with
      | inside op' p' =>
          obtain ⟨rfl, rfl⟩ : op' = op ∧ p' = p := by
            simpa [Monitor.next, Monitor.Event.thread, hphase] using hin
          simpa [Monitor.next, hphase] using h t op' p' hphase
      | _ => simp [Monitor.next, Monitor.Event.thread, hphase] at hin

theorem Asking.next (h : Asking m P g)
    (hserial : Monitor.Serial (monitor code m) (operations code m) s₀ g)
    (hcode : ∀ op, let s := (operations code m).run s₀ g.inputs
      (code s.1 op).Asks m P s.2) (e : Monitor.Event τ ω) :
    Asking m P ((monitor code m).next g e) := by
  intro u op p hin
  by_cases hu : u = e.thread
  · subst hu
    exact h.next_self hserial hcode e hin
  · rw [Monitor.next_phase_of_ne _ _ _ hu] at hin
    rcases Monitor.next_shared (monitor code m) g e with heq | hheld
    · rw [heq]
      exact h u op p hin
    · exact absurd (hserial.exclusive (by rw [hin]; rfl) hheld) hu

end Program

end LibDvm
