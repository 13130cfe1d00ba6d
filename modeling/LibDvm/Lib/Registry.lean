import LibDvm.Lib.Machine
import Mathlib.Data.List.Nodup
import Mathlib.Tactic.Common

/-! # A bounded registry, first come first served

Items with pairwise different keys, in the order of their registration. Registering an
item again changes nothing; an item whose key is taken, or for which there is no room,
is turned away. Nothing is ever removed, so the items are those whose registration
succeeded at some time.
-/

namespace LibDvm

universe u v

structure Registry {ι : Type u} {κ : Type v} (key : ι → κ) (room : Nat) where
  items : List ι
  distinct : (items.map key).Nodup
  bounded : items.length ≤ room

namespace Registry

section Items

variable {ι : Type u} {κ : Type v} {key : ι → κ} {room : Nat}

def empty : Registry key room := ⟨[], List.nodup_nil, Nat.zero_le room⟩

theorem distinct_append {items : List ι} (h : (items.map key).Nodup) {x : ι}
    (hx : key x ∉ items.map key) : ((items ++ [x]).map key).Nodup := by
  rw [List.map_append, List.map_singleton]
  exact List.Nodup.append h (List.nodup_singleton _) (by simpa using hx)

theorem bounded_append {items : List ι} (h : items.length < room) (x : ι) :
    (items ++ [x]).length ≤ room := by
  rw [List.length_append]
  exact h

/-- Some request for `x` among `inputs` was answered with success. -/
def Granted (inputs : List (Option ι)) (answers : List Bool) (x : ι) : Prop :=
  ∃ k : Nat, inputs[k]? = some (some x) ∧ answers[k]? = some true

theorem granted_cons {input : Option ι} {inputs : List (Option ι)} {answer : Bool}
    {answers : List Bool} {x : ι} :
    Granted (input :: inputs) (answer :: answers) x ↔
      (input = some x ∧ answer = true) ∨ Granted inputs answers x := by
  constructor
  · rintro ⟨k, hin, hout⟩
    cases k with
    | zero => exact .inl ⟨Option.some.inj hin, Option.some.inj hout⟩
    | succ k => exact .inr ⟨k, hin, hout⟩
  · rintro (⟨rfl, rfl⟩ | ⟨k, hin, hout⟩)
    · exact ⟨0, rfl, rfl⟩
    · exact ⟨k + 1, hin, hout⟩

end Items

variable {ι : Type u} {κ : Type v} [DecidableEq κ] {key : ι → κ} {room : Nat}

def lookup (r : Registry key room) (k : κ) : Option ι := r.items.find? fun x => key x = k

theorem lookup_eq_some (r : Registry key room) (k : κ) (x : ι) :
    r.lookup k = some x ↔ x ∈ r.items ∧ key x = k := by
  constructor
  · intro h
    exact ⟨List.mem_of_find?_eq_some h, by simpa using List.find?_some h⟩
  · rintro ⟨hmem, rfl⟩
    cases hfind : r.lookup (key x) with
    | none =>
        have hno := List.find?_eq_none.mp hfind x hmem
        simp at hno
    | some y =>
        have hy : key y = key x := by simpa using List.find?_some hfind
        rw [List.inj_on_of_nodup_map r.distinct (List.mem_of_find?_eq_some hfind) hmem hy]

variable [DecidableEq ι]

def register (r : Registry key room) (x : ι) : Registry key room × Bool :=
  if x ∈ r.items then (r, true)
  else if hkey : key x ∈ r.items.map key then (r, false)
  else if hroom : r.items.length < room then
    (⟨r.items ++ [x], distinct_append r.distinct hkey, bounded_append hroom x⟩, true)
  else (r, false)

/-- Registrations one after another; no item is asked for by `none`. -/
def machine (key : ι → κ) (room : Nat) : Machine (Registry key room) (Option ι) Bool :=
  ⟨fun r x => match x with
    | none => (r, false)
    | some x => r.register x⟩

/-! ## One registration -/

theorem register_cases (r : Registry key room) (x : ι) :
    (x ∈ r.items ∧ r.register x = (r, true)) ∨
      (x ∉ r.items ∧ r.register x = (r, false)) ∨
      (x ∉ r.items ∧ (r.register x).1.items = r.items ++ [x] ∧ (r.register x).2 = true) := by
  unfold register
  by_cases hmem : x ∈ r.items
  · exact .inl ⟨hmem, if_pos hmem⟩
  · right
    rw [if_neg hmem]
    by_cases hkey : key x ∈ r.items.map key
    · exact .inl ⟨hmem, dif_pos hkey⟩
    · rw [dif_neg hkey]
      by_cases hroom : r.items.length < room
      · rw [dif_pos hroom]
        exact .inr ⟨hmem, rfl, rfl⟩
      · exact .inl ⟨hmem, dif_neg hroom⟩

theorem items_prefix_step (r : Registry key room) (x : Option ι) :
    r.items <+: ((machine key room).step r x).1.items := by
  cases x with
  | none => exact List.prefix_rfl
  | some x =>
      show r.items <+: (r.register x).1.items
      have hitems : (r.register x).1.items = r.items ∨ (r.register x).1.items = r.items ++ [x] := by
        rcases r.register_cases x with ⟨-, heq⟩ | ⟨-, heq⟩ | ⟨-, heq, -⟩
        · left
          rw [heq]
        · left
          rw [heq]
        · exact .inr heq
      rcases hitems with hkept | hadded
      · exact ⟨[], by rw [hkept, List.append_nil]⟩
      · exact ⟨[x], hadded.symm⟩

theorem step_answer (r : Registry key room) (x : Option ι) :
    ((machine key room).step r x).2 = true ↔
      ∃ y, x = some y ∧ y ∈ ((machine key room).step r x).1.items := by
  cases x with
  | none => simp [machine]
  | some x =>
      show (r.register x).2 = true ↔ ∃ y, some x = some y ∧ y ∈ (r.register x).1.items
      rcases r.register_cases x with ⟨hmem, heq⟩ | ⟨hmem, heq⟩ | ⟨-, hitems, heq⟩
      · simp [heq, hmem]
      · simp [heq, hmem]
      · simp [heq, hitems]

theorem step_mem (r : Registry key room) (x : Option ι) (y : ι) :
    y ∈ ((machine key room).step r x).1.items ↔
      y ∈ r.items ∨ x = some y ∧ ((machine key room).step r x).2 = true := by
  constructor
  · intro hy
    cases x with
    | none => exact .inl hy
    | some x =>
        change y ∈ (r.register x).1.items at hy
        rcases r.register_cases x with ⟨-, heq⟩ | ⟨-, heq⟩ | ⟨-, hitems, heq⟩
        · rw [heq] at hy
          exact .inl hy
        · rw [heq] at hy
          exact .inl hy
        · rw [hitems] at hy
          rcases List.mem_append.mp hy with hold | hnew
          · exact .inl hold
          · exact .inr ⟨by rw [List.mem_singleton.mp hnew], heq⟩
  · rintro (hy | ⟨rfl, hret⟩)
    · exact (items_prefix_step r x).mem hy
    · obtain ⟨z, hz, hmem⟩ := (step_answer r _).mp hret
      rwa [← Option.some.inj hz] at hmem

/-! ## Runs -/

/-- After a run the registered items are the old ones and those granted since. -/
theorem run_mem (inputs : List (Option ι)) (r : Registry key room) (x : ι) :
    x ∈ ((machine key room).run r inputs).items ↔
      x ∈ r.items ∨ Granted inputs ((machine key room).answers r inputs) x := by
  induction inputs generalizing r with
  | nil => simp [Granted]
  | cons input inputs ih =>
      rw [Machine.run_cons, ih, Machine.answers_cons, granted_cons, step_mem, or_assoc]

end Registry

end LibDvm
