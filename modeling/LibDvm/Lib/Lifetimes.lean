import LibDvm.Lib.Machine
import Mathlib.Data.Option.Basic

/-! # Objects that begin and end

A system whose steps create objects and end them. An object is a machine of its own; it is
called between the steps of the system and within them, and when it ends it does its last
act. Two kinds of objects over one system stay related as their calls relate them, and the
ended ones as their last acts do.
-/

namespace LibDvm

universe u v w x y z t y' t'

/-- A call that finds no object does nothing. -/
def Machine.optional {σ : Type y} {ι : Type z} {ο : Type t} (m : Machine σ ι ο) :
    Machine (Option σ) ι (Option ο) where
  step
    | none, _ => (none, none)
    | some o, i =>
        let r := m.step o i
        (some r.1, some r.2)

/-- `ended` says which objects have ended in a state of the system. -/
structure Lifetimes (τ : Type u) (γ : Type v) (π : Type w) (κ : Type x) where
  system : Machine τ γ π
  ended : τ → κ → Bool

/-- What the objects are that a step of the system creates, and how they end. -/
structure Objects (τ : Type u) (γ : Type v) (κ : Type x) (σ : Type y) (ι : Type z)
    (ο : Type t) where
  begins : τ → γ → κ → Option σ
  object : Machine σ ι ο
  lastAct : σ → σ

/-- A call of an object, or one of the system with the calls of objects within it. -/
inductive Act (κ : Type x) (ι : Type z) (γ : Type v) where
  | object (k : κ) (i : ι)
  | system (c : γ) (during : List (κ × ι))

namespace Act

variable {κ : Type x} {ι : Type z} {γ : Type v}

def systemCalls : List (Act κ ι γ) → List γ
  | [] => []
  | .object _ _ :: acts => systemCalls acts
  | .system c _ :: acts => c :: systemCalls acts

end Act

namespace Lifetimes

open Act

variable {τ : Type u} {γ : Type v} {π : Type w} {κ : Type x} {ι : Type z}
  {σ : Type y} {ο : Type t} {σ' : Type y'} {ο' : Type t'}

section Machine

variable (l : Lifetimes τ γ π κ) (o : Objects τ γ κ σ ι ο)

/-- The objects with those that the step `c` creates. -/
def begun (was : τ) (c : γ) (objs : κ → Option σ) : κ → Option σ := fun k =>
  (o.begins was c k).or (objs k)

def settle (was now : τ) (objs : κ → Option σ) : κ → Option σ := fun k =>
  if l.ended was k = false ∧ l.ended now k = true then (objs k).map o.lastAct else objs k

def Served (fits : σ → ι → Bool) (now : τ) (objs : κ → Option σ) (e : κ × ι) : Prop :=
  l.ended now e.1 = false ∧ (objs e.1).any (fun x => fits x e.2) = true

instance (fits : σ → ι → Bool) (now : τ) (objs : κ → Option σ) (e : κ × ι) :
    Decidable (l.Served fits now objs e) := inferInstanceAs (Decidable (_ ∧ _))

/-- A step calls objects only that are there, and the system as `allowed` says. -/
def InTime (fits : σ → ι → Bool) (allowed : τ → γ → Prop) (s : τ × (κ → Option σ)) :
    Act κ ι γ → Prop
  | .object k i => l.Served fits s.1 s.2 (k, i)
  | .system c during => allowed s.1 c ∧ ∀ e ∈ during, l.Served fits s.1 (begun o s.1 c s.2) e

instance (fits : σ → ι → Bool) (allowed : τ → γ → Prop) [∀ t c, Decidable (allowed t c)]
    (s : τ × (κ → Option σ)) : (a : Act κ ι γ) → Decidable (l.InTime o fits allowed s a)
  | .object k i => inferInstanceAs (Decidable (l.Served fits s.1 s.2 (k, i)))
  | .system c during =>
      inferInstanceAs (Decidable (allowed s.1 c ∧
        ∀ e ∈ during, l.Served fits s.1 (begun o s.1 c s.2) e))

variable [DecidableEq κ]

def side : Machine (κ → Option σ) (κ × ι) (κ × Option ο) :=
  Machine.family fun _ => o.object.optional

def machine : Machine (τ × (κ → Option σ)) (Act κ ι γ) (Option ο ⊕ π) where
  step s
    | .object k i =>
        let r := (side o).step s.2 (k, i)
        ((s.1, r.1), .inl r.2.2)
    | .system c during =>
        let r := l.system.step s.1 c
        ((r.1, l.settle o s.1 r.1 ((side o).run (begun o s.1 c s.2) during)), .inr r.2)

end Machine

theorem side_step [DecidableEq κ] {o : Objects τ γ κ σ ι ο} {objs : κ → Option σ} {e : κ × ι}
    {x : σ} (hx : objs e.1 = some x) :
    ((side o).step objs e).1 = Function.update objs e.1 (some (o.object.step x e.2).1) := by
  show Function.update objs e.1 (o.object.optional.step (objs e.1) e.2).1 = _
  rw [hx]
  rfl

section Tag

variable {δ : Type u} {o : Objects τ γ κ σ ι ο}

theorem side_tag [DecidableEq κ] {tag : σ → δ} (hobject : ∀ x i, tag (o.object.step x i).1 = tag x)
    (objs : κ → Option σ) (es : List (κ × ι)) (k : κ) :
    ((side o).run objs es k).map tag = (objs k).map tag := by
  refine (side o).run_invariant (fun objs' => ∀ k, (objs' k).map tag = (objs k).map tag) ?_ es
    (fun _ => rfl) k
  intro objs' e h k
  rw [← h k]
  by_cases hk : k = e.1
  · subst hk
    show (Function.update objs' e.1 (o.object.optional.step (objs' e.1) e.2).1 e.1).map tag = _
    rw [Function.update_self]
    cases objs' e.1 with
    | none => rfl
    | some x => exact congrArg some (hobject x e.2)
  · exact congrArg (Option.map tag) (Function.update_of_ne hk _ _)

theorem settle_tag (l : Lifetimes τ γ π κ) {tag : σ → δ} (hlast : ∀ x, tag (o.lastAct x) = tag x)
    (was now : τ) (objs : κ → Option σ) (k : κ) :
    (l.settle o was now objs k).map tag = (objs k).map tag := by
  unfold settle
  split
  · rw [Option.map_map]
    exact congrArg (fun f => (objs k).map f) (funext hlast)
  · rfl

variable [DecidableEq κ] {l : Lifetimes τ γ π κ} {Inv : τ → Prop} {allowed : τ → γ → Prop}

theorem throughout_system {fits : σ → ι → Bool} {s : τ × (κ → Option σ)}
    {acts : List (Act κ ι γ)} (hin : (l.machine o).Throughout (l.InTime o fits allowed) s acts) :
    l.system.Throughout allowed s.1 (systemCalls acts) := by
  induction acts generalizing s with
  | nil => trivial
  | cons a acts ih =>
      cases a with
      | object k i => exact ih (s := ((l.machine o).step s (.object k i)).1) hin.2
      | system c during =>
          exact ⟨hin.1.1, ih (s := ((l.machine o).step s (.system c during)).1) hin.2⟩

/-- Where the system shows a mark of its objects that neither a call nor a last act changes,
it shows the objects that are there. -/
theorem run_shown (tag : σ → δ) (shown : τ → κ → Option δ)
    (hobject : ∀ x i, tag (o.object.step x i).1 = tag x) (hlast : ∀ x, tag (o.lastAct x) = tag x)
    (hinv : ∀ t c, Inv t → allowed t c → Inv (l.system.step t c).1)
    (hshown : ∀ t c k, Inv t → allowed t c →
      shown (l.system.step t c).1 k = ((o.begins t c k).map tag).or (shown t k))
    {s : τ × (κ → Option σ)} (hs : Inv s.1) (htag : ∀ k, (s.2 k).map tag = shown s.1 k)
    {acts : List (Act κ ι γ)} (hall : l.system.Throughout allowed s.1 (systemCalls acts)) (k : κ) :
    (((l.machine o).run s acts).2 k).map tag = shown ((l.machine o).run s acts).1 k := by
  induction acts generalizing s with
  | nil => exact htag k
  | cons a acts ih =>
      cases a with
      | object j i =>
          refine ih (s := ((l.machine o).step s (.object j i)).1) hs (fun k' => ?_) hall
          exact (side_tag hobject s.2 [(j, i)] k').trans (htag k')
      | system c during =>
          refine ih (s := ((l.machine o).step s (.system c during)).1)
            (hinv s.1 c hs hall.1) (fun k' => ?_) hall.2
          calc (((l.machine o).step s (.system c during)).1.2 k').map tag
              = ((side o).run (begun o s.1 c s.2) during k').map tag := settle_tag l hlast _ _ _ k'
            _ = (begun o s.1 c s.2 k').map tag := side_tag hobject _ during k'
            _ = ((o.begins s.1 c k').map tag).or ((s.2 k').map tag) := by
                unfold begun
                cases o.begins s.1 c k' <;> rfl
            _ = shown (l.system.step s.1 c).1 k' := by rw [htag k', hshown s.1 c k' hs hall.1]

end Tag

/-! ## Two kinds of objects over one system -/

/-- Objects that begin together, answer the same calls and end together. -/
structure Alike (l : Lifetimes τ γ π κ) (o : Objects τ γ κ σ ι ο) (o' : Objects τ γ κ σ' ι ο')
    (fits : σ → ι → Bool) (Inv : τ → Prop) (allowed : τ → γ → Prop)
    (Alive Dead : σ → σ' → Prop) : Prop where
  system : ∀ t c, Inv t → allowed t c → Inv (l.system.step t c).1
  lasting : ∀ t c k, l.ended t k = true → l.ended (l.system.step t c).1 k = true
  fresh : ∀ t c k, Inv t → l.ended t k = true → o.begins t c k = none
  begins : ∀ t c k, allowed t c → Option.Rel Alive (o.begins t c k) (o'.begins t c k)
  object : ∀ x x' i, Alive x x' → fits x i = true →
    Alive (o.object.step x i).1 (o'.object.step x' i).1
  fits : ∀ x x' i j, Alive x x' → fits x i = true → fits (o.object.step x i).1 j = fits x j
  lastAct : ∀ x x', Alive x x' → Dead (o.lastAct x) (o'.lastAct x')

def Stand (ended : Bool) (Alive Dead : σ → σ' → Prop) (x : σ) (x' : σ') : Prop :=
  if ended then Dead x x' else Alive x x'

/-- Both kinds of objects are there for the same keys, and stand to each other as they do. -/
def Abreast (l : Lifetimes τ γ π κ) (Alive Dead : σ → σ' → Prop) (t : τ) (objs : κ → Option σ)
    (objs' : κ → Option σ') : Prop :=
  ∀ k, Option.Rel (Stand (l.ended t k) Alive Dead) (objs k) (objs' k)

section Alike

variable {l : Lifetimes τ γ π κ} {o : Objects τ γ κ σ ι ο} {o' : Objects τ γ κ σ' ι ο'}
  {fits : σ → ι → Bool} {Inv : τ → Prop} {allowed : τ → γ → Prop} {Alive Dead : σ → σ' → Prop}

theorem rel_some {R : σ → σ' → Prop} {x : σ} {a' : Option σ'} (h : Option.Rel R (some x) a') :
    ∃ x', a' = some x' ∧ R x x' := by
  cases h with
  | some hx => exact ⟨_, rfl, hx⟩

theorem rel_or {R : σ → σ' → Prop} {a b : Option σ} {a' b' : Option σ'} (h : Option.Rel R a a')
    (h' : Option.Rel R b b') : Option.Rel R (a.or b) (a'.or b') := by
  cases h with
  | some hx => exact .some hx
  | none => exact h'

theorem rel_map {δ : Type u} {R : σ → σ' → Prop} {f : σ → δ} {g : σ' → δ}
    (hfg : ∀ x x', R x x' → f x = g x') {a : Option σ} {a' : Option σ'} (h : Option.Rel R a a') :
    a.map f = a'.map g := by
  cases h with
  | some hx => exact congrArg some (hfg _ _ hx)
  | none => rfl

theorem Alike.begun (h : Alike l o o' fits Inv allowed Alive Dead) {t : τ} {objs : κ → Option σ}
    {objs' : κ → Option σ'} (ht : Inv t) {c : γ} (hc : allowed t c)
    (hobjs : Abreast l Alive Dead t objs objs') :
    Abreast l Alive Dead t (begun o t c objs) (begun o' t c objs') := by
  intro k
  refine rel_or ?_ (hobjs k)
  have hnew := h.begins t c k hc
  cases hend : l.ended t k with
  | false => exact hnew
  | true =>
      rw [h.fresh t c k ht hend] at hnew ⊢
      generalize o'.begins t c k = new at hnew
      cases hnew
      exact .none

theorem Alike.settle (h : Alike l o o' fits Inv allowed Alive Dead) {t : τ} {objs : κ → Option σ}
    {objs' : κ → Option σ'} (c : γ) (hobjs : Abreast l Alive Dead t objs objs') :
    let now := (l.system.step t c).1
    Abreast l Alive Dead now (l.settle o t now objs) (l.settle o' t now objs') := by
  intro now k
  have hrel := hobjs k
  unfold Lifetimes.settle
  cases hwas : l.ended t k with
  | true =>
      rw [hwas] at hrel
      rw [show l.ended now k = true from h.lasting t c k hwas]
      simpa using hrel
  | false =>
      rw [hwas] at hrel
      cases hnow : l.ended now k with
      | false => simpa using hrel
      | true =>
          simp only [and_self, if_true]
          generalize objs k = a, objs' k = a' at hrel
          cases hrel with
          | none => exact .none
          | some hx => exact .some (h.lastAct _ _ hx)

variable [DecidableEq κ]

theorem Alike.call (h : Alike l o o' fits Inv allowed Alive Dead) {t : τ} {objs : κ → Option σ}
    {objs' : κ → Option σ'} (hobjs : Abreast l Alive Dead t objs objs') {e : κ × ι}
    (he : l.Served fits t objs e) :
    Abreast l Alive Dead t ((side o).step objs e).1 ((side o').step objs' e).1 ∧
      ∀ e', l.Served fits t ((side o).step objs e).1 e' ↔ l.Served fits t objs e' := by
  obtain ⟨halive, hfits⟩ := he
  have hrel := hobjs e.1
  rw [halive] at hrel
  obtain ⟨x, hx, hfits⟩ : ∃ x, objs e.1 = some x ∧ fits x e.2 = true := by
    simpa [Option.any_eq_true] using hfits
  rw [hx] at hrel
  obtain ⟨x', hx', hrel⟩ := rel_some hrel
  rw [side_step hx, side_step hx']
  constructor
  · intro k
    by_cases hk : k = e.1
    · subst hk
      rw [Function.update_self, Function.update_self, halive]
      exact .some (h.object x x' e.2 hrel hfits)
    · rw [Function.update_of_ne hk, Function.update_of_ne hk]
      exact hobjs k
  · intro e'
    unfold Served
    by_cases hk : e'.1 = e.1
    · simp only [hk, Function.update_self, hx, Option.any_some, h.fits x x' e.2 e'.2 hrel hfits]
    · simp only [Function.update_of_ne hk]

theorem Alike.calls (h : Alike l o o' fits Inv allowed Alive Dead) {t : τ} {objs : κ → Option σ}
    {objs' : κ → Option σ'} (hobjs : Abreast l Alive Dead t objs objs') {es : List (κ × ι)}
    (hes : ∀ e ∈ es, l.Served fits t objs e) :
    Abreast l Alive Dead t ((side o).run objs es) ((side o').run objs' es) := by
  induction es generalizing objs objs' with
  | nil => exact hobjs
  | cons e es ih =>
      obtain ⟨hnext, hserved⟩ := h.call hobjs (hes e List.mem_cons_self)
      exact ih hnext fun e' he' => (hserved e').mpr (hes e' (List.mem_cons_of_mem e he'))

/-- Simulation rule for objects over one system. -/
theorem Alike.run (h : Alike l o o' fits Inv allowed Alive Dead) {t : τ} {objs : κ → Option σ}
    {objs' : κ → Option σ'} (ht : Inv t) (hobjs : Abreast l Alive Dead t objs objs')
    {acts : List (Act κ ι γ)}
    (hin : (l.machine o).Throughout (l.InTime o fits allowed) (t, objs) acts) :
    let s := (l.machine o).run (t, objs) acts
    let s' := (l.machine o').run (t, objs') acts
    Inv s.1 ∧ s'.1 = s.1 ∧ Abreast l Alive Dead s.1 s.2 s'.2 := by
  refine (l.machine o).run_simulates (l.machine o') (l.InTime o fits allowed)
    (fun s s' => Inv s.1 ∧ s'.1 = s.1 ∧ Abreast l Alive Dead s.1 s.2 s'.2) ?_ ⟨ht, rfl, hobjs⟩ hin
  rintro ⟨t, objs⟩ ⟨_, objs'⟩ a ⟨ht, rfl, hobjs⟩ ha
  cases a with
  | object k i => exact ⟨ht, rfl, (h.call hobjs ha).1⟩
  | system c during =>
      obtain ⟨hc, hduring⟩ := ha
      have hbegun := h.begun ht hc hobjs
      exact ⟨h.system _ c ht hc, rfl, h.settle c (h.calls hbegun hduring)⟩

end Alike

end Lifetimes

end LibDvm
