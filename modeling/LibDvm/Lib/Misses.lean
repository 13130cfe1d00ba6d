import LibDvm.Lib.Recency
import Mathlib.Data.Finset.Card
import Mathlib.Tactic.Common
import Mathlib.Tactic.Ring

/-! # How often an item is missing

The accesses that least recently used does not find. More room never makes them more, and
any other way to serve the same accesses with less room, or as much, misses nearly as
often: the ratio is the one of phases, each with as many different items as there is room.
-/

namespace LibDvm.Recency

variable {α : Type} [DecidableEq α]

/-- The accesses that miss their item, from a list with room for `room`. -/
def misses (room : Nat) : List α → List α → Nat
  | _, [] => 0
  | items, x :: xs => (if x ∈ items then 0 else 1) + misses room (access room items x) xs

/-! ## More room -/

theorem access_take_le {room more : Nat} (hle : room ≤ more) (items : List α) (x : α) :
    (access more items x).take room = access room (items.take room) x := by
  rw [access_take, access, access, List.take_take, Nat.min_eq_left hle]

theorem misses_antitone {room more : Nat} (hle : room ≤ more) (items accesses : List α) :
    misses more items accesses ≤ misses room (items.take room) accesses := by
  induction accesses generalizing items with
  | nil => exact Nat.le_refl 0
  | cons x xs ih =>
      have hrest := ih (access more items x)
      rw [access_take_le hle] at hrest
      have hfirst : (if x ∈ items then 0 else 1) ≤ if x ∈ items.take room then 0 else 1 := by
        split
        · exact Nat.zero_le _
        · next hnew => rw [if_neg fun hmem => hnew (List.mem_of_mem_take hmem)]
      rw [misses, misses]
      omega

/-! ## Any other way -/

/-- The accesses can be served from the items held, with room for `room` and by bringing in
what is accessed only, and `count` of them miss their item. -/
inductive Serves (room : Nat) : Finset α → List α → Nat → Prop where
  | nil (held : Finset α) : Serves room held [] 0
  | cons {held held' : Finset α} {x : α} {xs : List α} {count : Nat} (served : x ∈ held')
      (demand : held' ⊆ insert x held) (fits : held'.card ≤ room)
      (rest : Serves room held' xs count) :
      Serves room held (x :: xs) ((if x ∈ held then 0 else 1) + count)

theorem serves_lru {room : Nat} (hroom : 0 < room) (items accesses : List α) :
    Serves room items.toFinset accesses (misses room items accesses) := by
  induction accesses generalizing items with
  | nil => exact .nil _
  | cons x xs ih =>
      have hserved : x ∈ (access room items x).toFinset := by
        obtain ⟨n, rfl⟩ : ∃ n, room = n + 1 := ⟨room - 1, by omega⟩
        simp [access]
      have hdemand : (access room items x).toFinset ⊆ insert x items.toFinset := by
        intro y hy
        rw [List.mem_toFinset, access] at hy
        rcases List.mem_cons.mp (List.mem_of_mem_take hy) with rfl | hmem
        · exact Finset.mem_insert_self _ _
        · exact Finset.mem_insert_of_mem (List.mem_toFinset.mpr (List.mem_of_mem_erase hmem))
      have hfits : (access room items x).toFinset.card ≤ room :=
        (List.toFinset_card_le _).trans (List.length_take_le _ _)
      have hcount : (if x ∈ items.toFinset then 0 else 1) = if x ∈ items then 0 else 1 := by
        simp only [List.mem_toFinset]
      rw [misses, ← hcount]
      exact .cons hserved hdemand hfits (ih _)

theorem missed_insert {start held marked : Finset α} {missed : Nat}
    (hheld : held ⊆ start ∪ marked) (hmissed : (marked \ start).card ≤ missed) (x : α) :
    (insert x marked \ start).card ≤ missed + if x ∈ held then 0 else 1 := by
  by_cases hx : x ∈ held
  · have hold : insert x marked \ start = marked \ start := by
      rcases Finset.mem_union.mp (hheld hx) with hstart | hmarked
      · exact Finset.insert_sdiff_of_mem marked hstart
      · rw [Finset.insert_eq_of_mem hmarked]
    rwa [hold, if_pos hx]
  · have hsub : insert x marked \ start ⊆ insert x (marked \ start) := by
      intro y hy
      obtain ⟨hmem, hstart⟩ := Finset.mem_sdiff.mp hy
      rcases Finset.mem_insert.mp hmem with rfl | hmarked
      · exact Finset.mem_insert_self _ _
      · exact Finset.mem_insert_of_mem (Finset.mem_sdiff.mpr ⟨hmarked, hstart⟩)
    rw [if_neg hx]
    calc (insert x marked \ start).card
        ≤ (insert x (marked \ start)).card := Finset.card_le_card hsub
      _ ≤ (marked \ start).card + 1 := Finset.card_insert_le _ _
      _ ≤ missed + 1 := Nat.succ_le_succ hmissed

theorem held_insert {start held held' marked : Finset α} {x : α}
    (hheld : held ⊆ start ∪ marked) (hdemand : held' ⊆ insert x held) :
    held' ⊆ start ∪ insert x marked := by
  intro y hy
  rcases Finset.mem_insert.mp (hdemand hy) with rfl | hold
  · exact Finset.mem_union_right _ (Finset.mem_insert_self _ _)
  · rcases Finset.mem_union.mp (hheld hold) with hstart | hmarked
    · exact Finset.mem_union_left _ hstart
    · exact Finset.mem_union_right _ (Finset.mem_insert_of_mem hmarked)

/-! ## Phases

The list begins with the items accessed in the phase so far; a phase ends before the access
that would make them more than there is room for. -/

theorem access_marked {room : Nat} {marked : List α} {x : α} (hx : x ∈ marked)
    (hroom : marked.length ≤ room) (rest : List α) :
    access room (marked ++ rest) x =
      (x :: marked.erase x) ++ rest.take (room - marked.length) := by
  have hlength : (x :: marked.erase x).length = marked.length := by
    rw [List.length_cons, List.length_erase_of_mem hx]
    have := List.length_pos_of_mem hx
    omega
  rw [access, List.erase_append_left _ hx, ← List.cons_append, List.take_append, hlength,
    List.take_of_length_le (by omega)]

theorem access_unmarked {room : Nat} {marked : List α} {x : α} (hx : x ∉ marked)
    (hroom : marked.length < room) (rest : List α) :
    access room (marked ++ rest) x =
      (x :: marked) ++ (rest.erase x).take (room - (marked.length + 1)) := by
  rw [access, List.erase_append_right _ hx, ← List.cons_append, List.take_append,
    List.length_cons, List.take_of_length_le (by rw [List.length_cons]; omega)]

theorem access_first {room : Nat} (hroom : 0 < room) (items : List α) (x : α) :
    access room items x = [x] ++ (items.erase x).take (room - 1) := by
  obtain ⟨n, rfl⟩ : ∃ n, room = n + 1 := ⟨room - 1, by omega⟩
  rw [access, List.take_succ_cons, Nat.add_sub_cancel, List.singleton_append]

/-- Step and run at once: what least recently used misses from here on, against what the
other way misses from here on and has missed in this phase. -/
theorem misses_phase {room other : Nat} (hother : other ≤ room) {held : Finset α}
    {accesses : List α} {count : Nat} (h : Serves other held accesses count)
    {start : Finset α} {marked : List α} {missed : Nat} (hnodup : marked.Nodup)
    (hroom : marked.length ≤ room) (hstart : start.card ≤ other)
    (hheld : held ⊆ start ∪ marked.toFinset)
    (hmissed : (marked.toFinset \ start).card ≤ missed) (rest : List α) :
    (room - other + 1) * misses room (marked ++ rest) accesses ≤
      room * (count + missed) + (room - other + 1) * (room - marked.length) := by
  induction h generalizing start marked missed rest with
  | nil held => simp [misses]
  | @cons held held' x xs count served demand fits _ ih =>
      have hmissed' := missed_insert hheld hmissed x
      have hheld' := held_insert hheld demand
      have hsum : (if x ∈ held then 0 else 1) + count + missed =
          count + (missed + if x ∈ held then 0 else 1) := by
        omega
      have hfirst : (if x ∈ marked ++ rest then 0 else 1) ≤ 1 := by split <;> omega
      rw [misses, hsum]
      by_cases hx : x ∈ marked
      · -- the phase goes on with an item that it has, which least recently used keeps
        have hsame : (x :: marked.erase x).Perm marked := (List.perm_cons_erase hx).symm
        have hset : insert x marked.toFinset = (x :: marked.erase x).toFinset := by
          rw [List.toFinset_eq_of_perm _ _ hsame,
            Finset.insert_eq_of_mem (List.mem_toFinset.mpr hx)]
        rw [hset] at hmissed' hheld'
        have hrest := ih (hsame.nodup_iff.mpr hnodup) (hsame.length_eq ▸ hroom) hstart hheld'
          hmissed' (rest.take (room - marked.length))
        rw [hsame.length_eq] at hrest
        rwa [access_marked hx hroom, if_pos (List.mem_append_left _ hx), Nat.zero_add]
      · rw [← List.toFinset_cons] at hmissed' hheld'
        by_cases hfull : marked.length < room
        · -- the phase goes on with a new item
          have hrest := ih (List.nodup_cons.mpr ⟨hx, hnodup⟩) hfull hstart hheld' hmissed'
            ((rest.erase x).take (room - (marked.length + 1)))
          rw [List.length_cons] at hrest
          rw [access_unmarked hx hfull, show room - marked.length =
            room - (marked.length + 1) + 1 by omega]
          have hscaled := Nat.mul_le_mul_left (room - other + 1) hfirst
          rw [Nat.mul_add, Nat.mul_add _ _ 1]
          omega
        · -- the phase ends, and the other way has missed what it had no room for
          have hlen : marked.length = room := by omega
          have hnew : (insert x marked.toFinset).card = room + 1 := by
            rw [← List.toFinset_cons, List.toFinset_card_of_nodup
              (List.nodup_cons.mpr ⟨hx, hnodup⟩), List.length_cons, hlen]
          have hlost := Finset.le_card_sdiff start (x :: marked).toFinset
          rw [List.toFinset_cons, hnew] at hlost
          have hpos : 0 < room := by
            have := Finset.card_pos.mpr ⟨x, served⟩
            omega
          have hserved : ([x].toFinset \ held').card ≤ 0 := by simp [served]
          have hrest := ih (List.nodup_singleton x) hpos fits Finset.subset_union_left hserved
            (((marked ++ rest).erase x).take (room - 1))
          have hpaid : room * (room - other + 1) ≤
              room * (missed + if x ∈ held then 0 else 1) := by
            apply Nat.mul_le_mul_left
            rw [List.toFinset_cons] at hmissed'
            omega
          have hscaled := Nat.mul_le_mul_left (room - other + 1) hfirst
          have hphase : (room - other + 1) * (room - 1) + (room - other + 1) =
              room * (room - other + 1) := by
            rw [← Nat.mul_add_one, Nat.sub_add_cancel hpos, Nat.mul_comm]
          rw [access_first hpos, Nat.mul_add, Nat.mul_add room]
          simp only [Nat.add_zero, List.length_singleton] at hrest
          omega

/-- Against any other way to serve the accesses: in each phase it misses `room - other + 1`
times at least, and least recently used `room` times at most. -/
theorem misses_competitive {room other : Nat} (hother : other ≤ room) {held : Finset α}
    {accesses : List α} {count : Nat} (hheld : held.card ≤ other)
    (h : Serves other held accesses count) (items : List α) :
    (room - other + 1) * misses room items accesses ≤
      room * (count + (room - other + 1)) := by
  have hphase := misses_phase hother h List.nodup_nil (Nat.zero_le room) hheld
    Finset.subset_union_left (show (([] : List α).toFinset \ held).card ≤ 0 by simp) items
  rw [List.nil_append, List.length_nil, Nat.sub_zero, Nat.add_zero] at hphase
  rw [Nat.mul_add, Nat.mul_comm room (room - other + 1)]
  exact hphase

end LibDvm.Recency
