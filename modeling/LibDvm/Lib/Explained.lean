import LibDvm.Lib.Machine

/-! # Explained histories

A specification reads a history call by call. From what is known before a call it says
whether the answer is admitted, and what is known after it. A machine whose states stay
in line with what is known has only histories that the specification explains.
-/

namespace LibDvm

universe u v w x

/-- What is known before a call, the call and its answer: what is known after it, or `none`
where the answer is not admitted. -/
structure Spec (τ : Type x) (ι : Type v) (ο : Type w) where
  next : τ → ι → ο → Option τ

namespace Spec

variable {σ : Type u} {ι : Type v} {ο : Type w} {τ : Type x}

/-- What is known after a history, if each of its answers is admitted. -/
def after (spec : Spec τ ι ο) : τ → List (ι × ο) → Option τ
  | t, [] => some t
  | t, e :: h => (spec.next t e.1 e.2).bind fun t' => spec.after t' h

def Explains (spec : Spec τ ι ο) (t : τ) (h : List (ι × ο)) : Prop := (spec.after t h).isSome

instance (spec : Spec τ ι ο) (t : τ) (h : List (ι × ο)) : Decidable (spec.Explains t h) :=
  inferInstanceAs (Decidable ((spec.after t h).isSome = true))

/-- The answer that `spec` admits takes `R` from one state to the next. -/
def Follows (spec : Spec τ ι ο) (R : σ → τ → Prop) (t : τ) (i : ι) (r : σ × ο) : Prop :=
  ∃ t', spec.next t i r.2 = some t' ∧ R r.1 t'

end Spec

namespace Machine

variable {σ : Type u} {ι : Type v} {ο : Type w} {τ : Type x}

def history (m : Machine σ ι ο) : σ → List ι → List (ι × ο)
  | _, [] => []
  | s, i :: is => (i, (m.step s i).2) :: history m (m.step s i).1 is

/-- A machine each of whose steps follows the specification is explained by it. -/
theorem history_after (m : Machine σ ι ο) (spec : Spec τ ι ο) (C : σ → ι → Prop)
    (R : σ → τ → Prop) (hstep : ∀ s t i, R s t → C s i → spec.Follows R t i (m.step s i))
    {s : σ} {t : τ} {is : List ι} (hR : R s t) (hC : m.Throughout C s is) :
    ∃ t', spec.after t (m.history s is) = some t' ∧ R (m.run s is) t' := by
  induction is generalizing s t with
  | nil => exact ⟨t, rfl, hR⟩
  | cons i is ih =>
      obtain ⟨t₁, hnext, hR₁⟩ := hstep s t i hR hC.1
      obtain ⟨t', hafter, hR'⟩ := ih hR₁ hC.2
      refine ⟨t', ?_, hR'⟩
      rw [history, Spec.after, hnext]
      exact hafter

section Forget

variable {π : Type x} (m : Machine σ ι ο) (n : Machine σ ι (ο × π))
  (hstep : ∀ s i, m.step s i = ((n.step s i).1, (n.step s i).2.1))

include hstep

/-- What else the answers of `n` carry does not change those of `m`. -/
theorem history_forget (s : σ) (is : List ι) :
    (n.history s is).map (fun e => (e.1, e.2.1)) = m.history s is := by
  induction is generalizing s with
  | nil => rfl
  | cons i is ih => rw [history, history, List.map_cons, ih, hstep s i]

theorem throughout_forget (C : σ → ι → Prop) (s : σ) (is : List ι) :
    n.Throughout C s is ↔ m.Throughout C s is := by
  induction is generalizing s with
  | nil => exact Iff.rfl
  | cons i is ih =>
      rw [Throughout, Throughout, hstep s i, ih]

end Forget

end Machine

/-! ## Listings

A listing hands out its items one by one, a call at its end fails in a way of its own, and
a rewind starts it again. It is read from a source, which has answered before the listing
does; when the source fails the place of the listing is lost, until the next rewind.
-/

section Listing

variable {α : Type u} {κ : Type v} {β : Type w} {ε : Type x} {φ : Type}

/-- The calls on a listing; `want` says what of an item is asked for. -/
inductive ListingCall (κ : Type v) where
  | next (want : κ)
  | rewind

inductive ListingReply (β : Type w) (ε : Type x) where
  | item (shown : β)
  | rewound
  | failed (e : ε)

/-- How `next` returns. -/
def ListingReply.ofNext : Except ε β → ListingReply β ε
  | .ok shown => .item shown
  | .error e => .failed e

/-- How `rewind` returns. -/
def ListingReply.ofRewind : Except ε Unit → ListingReply β ε
  | .ok _ => .rewound
  | .error e => .failed e

/-- What the source answers; a broken item is there but cannot be shown. -/
inductive Sourced (α : Type u) (φ : Type) where
  | item (a : α)
  | broken (a : α) (f : φ)
  | ended
  | rewound
  | failed (f : φ)

/-- The item at a place, which is any one when the place is lost. -/
def IsNext (items : List α) : Option Nat → α → Prop
  | some k, a => items[k]? = some a
  | none, a => a ∈ items

instance [DecidableEq α] (items : List α) (place : Option Nat) (a : α) :
    Decidable (IsNext items place a) :=
  match place with
  | some k => inferInstanceAs (Decidable (items[k]? = some a))
  | none => inferInstanceAs (Decidable (a ∈ items))

variable [DecidableEq α] [DecidableEq β] [DecidableEq ε] (items : List α)
  (shown : κ → α → β) (atEnd : ε) (error : φ → Option ε)

/-- From the place of a listing, `none` when it is lost, to its place after a call. -/
def listingNext (place : Option Nat) :
    ListingCall κ → ListingReply β ε × Option (Sourced α φ) → Option (Option Nat)
  | .next want, (.item b, some (.item a)) =>
      if IsNext items place a ∧ b = shown want a then some (place.map (· + 1)) else none
  | .next _, (.failed e, some (.broken a f)) =>
      if IsNext items place a ∧ error f = some e ∧ e ≠ atEnd then some (place.map (· + 1))
      else none
  | .next _, (.failed e, some .ended) =>
      if (∀ k ∈ place, k = items.length) ∧ e = atEnd then some place else none
  | .next _, (.failed e, some (.failed f)) =>
      if error f = some e ∧ e ≠ atEnd then some none else none
  | .rewind, (.rewound, some .rewound) => some (some 0)
  | .rewind, (.failed e, some (.failed f)) => if error f = some e then some none else none
  | _, _ => none

def listing : Spec (Option Nat) (ListingCall κ) (ListingReply β ε × Option (Sourced α φ)) :=
  ⟨listingNext items shown atEnd error⟩

end Listing

end LibDvm
