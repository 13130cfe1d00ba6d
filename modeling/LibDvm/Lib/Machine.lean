import Mathlib.Logic.Function.Basic

/-! # Runs of a machine with inputs and outputs

A machine is a step function. An invariant of its steps is an invariant of its runs,
and a relation that every step of two machines preserves relates their runs, also under
a side condition on the steps. The last rule says when such a condition is exact.
-/

namespace LibDvm

universe u v w x y

structure Machine (σ : Type u) (ι : Type v) (ο : Type w) where
  step : σ → ι → σ × ο

namespace Machine

variable {σ : Type u} {ι : Type v} {ο : Type w} {τ : Type x} {π : Type y}

def run (m : Machine σ ι ο) : σ → List ι → σ
  | s, [] => s
  | s, i :: is => run m (m.step s i).1 is

def answers (m : Machine σ ι ο) : σ → List ι → List ο
  | _, [] => []
  | s, i :: is => (m.step s i).2 :: answers m (m.step s i).1 is

@[simp] theorem run_nil (m : Machine σ ι ο) (s : σ) : m.run s [] = s := rfl

@[simp] theorem run_cons (m : Machine σ ι ο) (s : σ) (i : ι) (is : List ι) :
    m.run s (i :: is) = m.run (m.step s i).1 is := rfl

@[simp] theorem answers_nil (m : Machine σ ι ο) (s : σ) : m.answers s [] = [] := rfl

@[simp] theorem answers_cons (m : Machine σ ι ο) (s : σ) (i : ι) (is : List ι) :
    m.answers s (i :: is) = (m.step s i).2 :: m.answers (m.step s i).1 is := rfl

theorem run_append (m : Machine σ ι ο) (s : σ) (is js : List ι) :
    m.run s (is ++ js) = m.run (m.run s is) js := by
  induction is generalizing s with
  | nil => rfl
  | cons i is ih => exact ih (m.step s i).1

theorem answers_append (m : Machine σ ι ο) (s : σ) (is js : List ι) :
    m.answers s (is ++ js) = m.answers s is ++ m.answers (m.run s is) js := by
  induction is generalizing s with
  | nil => rfl
  | cons i is ih =>
      rw [List.cons_append, answers_cons, ih, answers_cons, run_cons]
      rfl

theorem answers_getElem? (m : Machine σ ι ο) (s : σ) (is : List ι) (n : Nat) :
    (m.answers s is)[n]? = (is[n]?).map fun i => (m.step (m.run s (is.take n)) i).2 := by
  induction is generalizing s n with
  | nil => simp
  | cons i is ih =>
      cases n with
      | zero => rfl
      | succ n => simpa using ih (m.step s i).1 n

/-- A machine behind another interface: inputs are translated for it, and its answers
back. -/
def adapt {ι' : Type x} {ο' : Type y} (m : Machine σ ι ο) (f : ι' → ι) (g : ι' → ο → ο') :
    Machine σ ι' ο' where
  step s i :=
    let r := m.step s (f i)
    (r.1, g i r.2)

/-- Every step of the run starts from a state and an input that meet `C`. -/
def Throughout (m : Machine σ ι ο) (C : σ → ι → Prop) : σ → List ι → Prop
  | _, [] => True
  | s, i :: is => C s i ∧ Throughout m C (m.step s i).1 is

instance decidableThroughout (m : Machine σ ι ο) (C : σ → ι → Prop) [∀ s i, Decidable (C s i)] :
    (s : σ) → (is : List ι) → Decidable (m.Throughout C s is)
  | _, [] => isTrue trivial
  | s, i :: is =>
      let _ := decidableThroughout m C (m.step s i).1 is
      inferInstanceAs (Decidable (C s i ∧ m.Throughout C (m.step s i).1 is))

theorem throughout_of_forall (m : Machine σ ι ο) {C : σ → ι → Prop} (h : ∀ s i, C s i) (s : σ)
    (is : List ι) : m.Throughout C s is := by
  induction is generalizing s with
  | nil => trivial
  | cons i is ih => exact ⟨h s i, ih (m.step s i).1⟩

theorem throughout_append (m : Machine σ ι ο) {C : σ → ι → Prop} (s : σ) (is js : List ι) :
    m.Throughout C s (is ++ js) ↔ m.Throughout C s is ∧ m.Throughout C (m.run s is) js := by
  induction is generalizing s with
  | nil => exact ⟨fun h => ⟨trivial, h⟩, And.right⟩
  | cons i is ih => exact (and_congr_right fun _ => ih (m.step s i).1).trans and_assoc.symm

/-- Invariant rule: what each step preserves every run preserves. -/
theorem run_invariant (m : Machine σ ι ο) (Inv : σ → Prop)
    (hstep : ∀ s i, Inv s → Inv (m.step s i).1) {s : σ} (is : List ι) (hs : Inv s) :
    Inv (m.run s is) := by
  induction is generalizing s with
  | nil => exact hs
  | cons i is ih => exact ih (hstep s i hs)

/-- The same for an invariant of the steps that meet `C`. -/
theorem run_invariant_throughout (m : Machine σ ι ο) (C : σ → ι → Prop) (Inv : σ → Prop)
    (hstep : ∀ s i, Inv s → C s i → Inv (m.step s i).1) {s : σ} {is : List ι} (hs : Inv s)
    (hC : m.Throughout C s is) : Inv (m.run s is) := by
  induction is generalizing s with
  | nil => exact hs
  | cons i is ih => exact ih (hstep s i hs hC.1) hC.2

/-- Simulation rule: two machines on the same inputs stay related. -/
theorem run_simulates (m : Machine σ ι ο) (n : Machine τ ι π) (C : σ → ι → Prop)
    (R : σ → τ → Prop)
    (hstep : ∀ s t i, R s t → C s i → R (m.step s i).1 (n.step t i).1)
    {s : σ} {t : τ} {is : List ι} (hR : R s t) (hC : m.Throughout C s is) :
    R (m.run s is) (n.run t is) := by
  induction is generalizing s t with
  | nil => exact hR
  | cons i is ih => exact ih (hstep s t i hR hC.1) hC.2

/-- Refinement rule: two machines that stay related and answer alike on the inputs in `C`
answer alike in a whole run of such inputs. -/
theorem run_refines (m : Machine σ ι ο) (n : Machine τ ι ο) (C : ι → Prop) (R : σ → τ → Prop)
    (hstep : ∀ s t i, R s t → C i →
      R (m.step s i).1 (n.step t i).1 ∧ (m.step s i).2 = (n.step t i).2)
    {s : σ} {t : τ} {is : List ι} (hR : R s t) (hC : ∀ i ∈ is, C i) :
    R (m.run s is) (n.run t is) ∧ m.answers s is = n.answers t is := by
  induction is generalizing s t with
  | nil => exact ⟨hR, rfl⟩
  | cons i is ih =>
      obtain ⟨hnext, hanswer⟩ := hstep s t i hR (hC i List.mem_cons_self)
      obtain ⟨hrun, hanswers⟩ := ih hnext fun j hj => hC j (List.mem_cons_of_mem i hj)
      refine ⟨hrun, ?_⟩
      rw [answers_cons, answers_cons, hanswer, hanswers]

/-- Two conditions that agree wherever `Inv` holds hold throughout the same runs, if a step
that meets them keeps `Inv`. -/
theorem throughout_iff (m : Machine σ ι ο) {C D : σ → ι → Prop} (Inv : σ → Prop)
    (hiff : ∀ s i, Inv s → (C s i ↔ D s i))
    (hstep : ∀ s i, Inv s → C s i → Inv (m.step s i).1) {s : σ} (is : List ι) (hs : Inv s) :
    m.Throughout C s is ↔ m.Throughout D s is := by
  induction is generalizing s with
  | nil => exact Iff.rfl
  | cons i is ih =>
      constructor
      · intro hC
        have hnext := hstep s i hs hC.1
        exact ⟨(hiff s i hs).mp hC.1, (ih hnext).mp hC.2⟩
      · intro hD
        have hC : C s i := (hiff s i hs).mpr hD.1
        exact ⟨hC, (ih (hstep s i hs hC)).mpr hD.2⟩

theorem throughout_congr (m : Machine σ ι ο) {C D : σ → ι → Prop} (h : ∀ s i, C s i ↔ D s i)
    {s : σ} (is : List ι) : m.Throughout C s is ↔ m.Throughout D s is :=
  m.throughout_iff (fun _ => True) (fun s i _ => h s i) (fun _ _ _ _ => trivial) is trivial

/-- Exactness rule: where `Inv` lasts while the steps meet `C`, and a step that does not
meet `C` loses `P` for good, a run ends in `P` exactly when all of its steps meet `C`. -/
theorem run_iff_throughout (m : Machine σ ι ο) (C : σ → ι → Prop) (Inv Lost P : σ → Prop)
    (hstep : ∀ s i, Inv s → C s i → Inv (m.step s i).1)
    (hlose : ∀ s i, Inv s → ¬ C s i → Lost (m.step s i).1)
    (hstay : ∀ s i, Lost s → Lost (m.step s i).1)
    (hinv : ∀ s, Inv s → P s) (hlost : ∀ s, Lost s → ¬ P s) {s : σ} (is : List ι)
    (hs : Inv s) : P (m.run s is) ↔ m.Throughout C s is := by
  induction is generalizing s with
  | nil => exact ⟨fun _ => trivial, fun _ => hinv s hs⟩
  | cons i is ih =>
      by_cases hC : C s i
      · rw [run_cons, ih (hstep s i hs hC)]
        exact ⟨fun hrest => ⟨hC, hrest⟩, fun hall => hall.2⟩
      · have hend : Lost (m.run s (i :: is)) :=
          m.run_invariant Lost hstay is (hlose s i hs hC)
        exact ⟨fun hP => absurd hP (hlost _ hend), fun hall => absurd hall.1 hC⟩

/-! ## Families

Machines side by side, each with a state of its own, and inputs that say which machine
they are for.
-/

section Family

variable {κ : Type x} [DecidableEq κ]

/-- What is marked with the key `k`, in order. -/
def ofKey {β : Type y} (k : κ) : List (κ × β) → List β
  | [] => []
  | e :: es => if e.1 = k then e.2 :: ofKey k es else ofKey k es

theorem ofKey_append {β : Type y} (k : κ) (es fs : List (κ × β)) :
    ofKey k (es ++ fs) = ofKey k es ++ ofKey k fs := by
  induction es with
  | nil => rfl
  | cons e es ih =>
      simp only [List.cons_append, ofKey, ih]
      split <;> rfl

theorem ofKey_eq_nil {β : Type y} {k : κ} {es : List (κ × β)} (h : ∀ e ∈ es, e.1 ≠ k) :
    ofKey k es = [] := by
  induction es with
  | nil => rfl
  | cons e es ih =>
      rw [ofKey, if_neg (h e List.mem_cons_self)]
      exact ih fun e' he' => h e' (List.mem_cons_of_mem e he')

theorem ofKey_take_nil {β : Type y} {k : κ} {es : List (κ × β)} (h : ofKey k es = []) (n : Nat) :
    ofKey k (es.take n) = [] := by
  rw [← List.take_append_drop n es, ofKey_append] at h
  exact (List.append_eq_nil_iff.mp h).1

theorem ofKey_getLast? {β : Type y} {k : κ} {es : List (κ × β)} {b : β}
    (h : (ofKey k es).getLast? = some b) :
    ∃ before after, es = before ++ (k, b) :: after ∧ ofKey k after = [] := by
  induction es with
  | nil => cases h
  | cons e es ih =>
      by_cases hrest : ofKey k es = []
      · by_cases hk : e.1 = k
        · refine ⟨[], es, ?_, hrest⟩
          rw [ofKey, if_pos hk, hrest, List.getLast?_singleton] at h
          rw [← hk, ← Option.some.inj h]
          rfl
        · rw [ofKey, if_neg hk, hrest] at h
          cases h
      · have hlast : (ofKey k es).getLast? = some b := by
          by_cases hk : e.1 = k
          · rw [ofKey, if_pos hk, List.getLast?_cons_of_ne_nil hrest] at h
            exact h
          · rwa [ofKey, if_neg hk] at h
        obtain ⟨before, after, rfl, hafter⟩ := ih hlast
        exact ⟨e :: before, after, rfl, hafter⟩

def family (m : κ → Machine σ ι ο) : Machine (κ → σ) (κ × ι) (κ × ο) where
  step s i :=
    let r := (m i.1).step (s i.1) i.2
    (Function.update s i.1 r.1, (i.1, r.2))

/-- Each machine of a family runs on its own inputs, whatever the others do. -/
theorem family_apart (m : κ → Machine σ ι ο) (s : κ → σ) (is : List (κ × ι)) (k : κ) :
    (family m).run s is k = (m k).run (s k) (ofKey k is) ∧
      ofKey k ((family m).answers s is) = (m k).answers (s k) (ofKey k is) := by
  induction is generalizing s with
  | nil => exact ⟨rfl, rfl⟩
  | cons i is ih =>
      obtain ⟨hrun, hanswers⟩ := ih ((family m).step s i).1
      rw [run_cons, answers_cons, hrun, ofKey, ofKey, hanswers]
      by_cases hk : i.1 = k
      · subst hk
        have hnext : ((family m).step s i).1 i.1 = ((m i.1).step (s i.1) i.2).1 :=
          Function.update_self _ _ _
        rw [if_pos rfl, if_pos (show ((family m).step s i).2.1 = i.1 from rfl), hnext]
        exact ⟨rfl, rfl⟩
      · have hkept : ((family m).step s i).1 k = s k := Function.update_of_ne (Ne.symm hk) _ _
        rw [if_neg hk, if_neg (show ¬ ((family m).step s i).2.1 = k from hk), hkept]
        exact ⟨rfl, rfl⟩

end Family

end Machine

end LibDvm
