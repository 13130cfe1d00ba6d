/-! # Sequences drawn by repeated calls

A function that hands out one item at a time, or an error at the end, draws a
sequence from a state. States that stay related draw related sequences.
-/

namespace LibDvm

universe u v w

variable {σ : Type u} {α : Type v} {ε : Type w} (next : σ → σ × Except ε α)

/-- Calling `next` from a state hands out these items and then fails with this error. -/
inductive Pulls : σ → List α → ε → Prop where
  | stop {s : σ} {e : ε} (h : (next s).2 = .error e) : Pulls s [] e
  | item {s : σ} {a : α} {rest : List α} {e : ε} (h : (next s).2 = .ok a)
      (tail : Pulls (next s).1 rest e) : Pulls s (a :: rest) e

/-- The state after `n` calls. -/
def pulled : Nat → σ → σ
  | 0, s => s
  | n + 1, s => pulled n (next s).1

namespace Pulls

variable {next}

/-- A relation between two states that `next` and `next'` keep, item by item, carries a
sequence over. -/
theorem simulates {τ : Type u} {β : Type v} {ι : Type w} {next' : τ → τ × Except ι β}
    (R : σ → τ → Prop) (f : α → β) (g : ε → ι)
    (hitem : ∀ s t a, R s t → (next s).2 = .ok a →
      (next' t).2 = .ok (f a) ∧ R (next s).1 (next' t).1)
    (hstop : ∀ s t e, R s t → (next s).2 = .error e → (next' t).2 = .error (g e))
    {s : σ} {t : τ} {xs : List α} {e : ε} (hR : R s t) (hx : Pulls next s xs e) :
    Pulls next' t (xs.map f) (g e) := by
  induction hx generalizing t with
  | stop h => exact .stop (hstop _ _ _ hR h)
  | item h _ ih =>
      obtain ⟨hok, hnext⟩ := hitem _ _ _ hR h
      exact .item hok (ih hnext)

end Pulls

end LibDvm
