import LibDvm.Prober.Model
import Mathlib.Data.Finset.Lattice.Fold
import Mathlib.Order.Lattice.Nat
import Mathlib.Tactic.Common

/-! # What the entry loop of the prober finds

The loop records the populated entries in order until the array is full. It folds
their ends, added in 32 bits, into a running maximum, and it stops at the first
malformed entry it looks at.
-/

namespace LibDvm.Prober

variable (entry : Nat → DvmMbrPartEntry)

/-! ## Slots -/

/-- The slots written into an array with room for `room` records. -/
def recordedSlots (room : Nat) (slots : List Nat) : List Nat :=
  (slots.filter fun i => (entry i).populated).take room

def visitedSlots : Nat → List Nat → List Nat
  | _, [] => []
  | 0, _ => []
  | room + 1, i :: rest =>
      i :: visitedSlots (if (entry i).populated then room else room + 1) rest

def usedSectors (total : Nat) (recorded : List Nat) : Nat :=
  recorded.foldl (fun total i => max total (entry i).partEnd) total

@[simp] theorem recordedSlots_zero (slots : List Nat) : recordedSlots entry 0 slots = [] := rfl

theorem recordedSlots_cons_populated {i : Nat} (h : (entry i).populated) (room : Nat)
    (rest : List Nat) :
    recordedSlots entry (room + 1) (i :: rest) = i :: recordedSlots entry room rest := by
  simp [recordedSlots, h]

theorem recordedSlots_cons_skipped {i : Nat} (h : (entry i).populated = false) (room : Nat)
    (rest : List Nat) :
    recordedSlots entry room (i :: rest) = recordedSlots entry room rest := by
  simp [recordedSlots, h]

theorem recorded_mem {room i : Nat} {slots : List Nat} (h : i ∈ recordedSlots entry room slots) :
    i ∈ slots ∧ (entry i).populated := by
  have hmem := List.mem_of_mem_take h
  simpa using hmem

theorem recorded_nonempty {room i : Nat} {slots : List Nat} (hroom : 0 < room) (hi : i ∈ slots)
    (hpop : (entry i).populated) : ∃ r, r ∈ recordedSlots entry room slots := by
  have hne : recordedSlots entry room slots ≠ [] := by
    intro hnil
    have hfilter := (List.take_eq_nil_iff.mp hnil).resolve_left (by omega)
    have hskip := List.filter_eq_nil_iff.mp hfilter i hi
    exact hskip hpop
  exact List.exists_mem_of_ne_nil _ hne

/-! ## The running maximum -/

theorem usedSectors_le_iff (bound : Nat) (recorded : List Nat) (total : Nat) :
    usedSectors entry total recorded ≤ bound ↔
      total ≤ bound ∧ ∀ i ∈ recorded, (entry i).partEnd ≤ bound := by
  induction recorded generalizing total with
  | nil => simp [usedSectors]
  | cons i rest ih =>
      have hstep : usedSectors entry total (i :: rest) =
          usedSectors entry (max total (entry i).partEnd) rest := rfl
      rw [hstep, ih]
      simp only [Nat.max_le, List.mem_cons, forall_eq_or_imp]
      tauto

theorem partEnd_le_used {recorded : List Nat} {i : Nat} (total : Nat) (hi : i ∈ recorded) :
    (entry i).partEnd ≤ usedSectors entry total recorded :=
  ((usedSectors_le_iff entry _ recorded total).mp (Nat.le_refl _)).2 i hi

theorem lt_used_iff (bound : Nat) (recorded : List Nat) :
    bound < usedSectors entry 0 recorded ↔ ∃ i ∈ recorded, bound < (entry i).partEnd := by
  have h := usedSectors_le_iff entry bound recorded 0
  constructor
  · intro hlt
    by_contra hnone
    push Not at hnone
    have := h.mpr ⟨Nat.zero_le _, hnone⟩
    omega
  · rintro ⟨i, hi, hlt⟩
    have := partEnd_le_used entry 0 hi
    omega

theorem partEnd_lt (e : DvmMbrPartEntry) : e.partEnd < 2 ^ 32 := Nat.mod_lt _ (by decide)

theorem usedSectors_lt (recorded : List Nat) : usedSectors entry 0 recorded < 2 ^ 32 := by
  have h := usedSectors_le_iff entry (2 ^ 32 - 1) recorded 0
  have hle := h.mpr ⟨Nat.zero_le _, fun i _ => by
    have := partEnd_lt (entry i)
    omega⟩
  omega

/-! ## The entry loop -/

theorem partLoop_wellFormed (maxPartitions : Nat) (slots : List Nat) (total : Nat)
    (out : List DvmPartInfo)
    (hclean : ∀ i ∈ visitedSlots entry (maxPartitions - out.length) slots,
      (entry i).malformed = false) :
    partLoop entry maxPartitions slots total out =
      ⟨false, usedSectors entry total (recordedSlots entry (maxPartitions - out.length) slots),
        out ++ (recordedSlots entry (maxPartitions - out.length) slots).map
          fun i => (entry i).info i⟩ := by
  induction slots generalizing total out with
  | nil => simp [partLoop, recordedSlots, usedSectors]
  | cons i rest ih =>
      by_cases hroom : out.length < maxPartitions
      · obtain ⟨room, hr⟩ : ∃ room, maxPartitions - out.length = room + 1 :=
          ⟨maxPartitions - out.length - 1, by omega⟩
        rw [hr] at hclean ⊢
        have hfirst : (entry i).malformed = false := hclean i (by simp [visitedSlots])
        cases hpop : (entry i).populated with
        | true =>
            have hlen : maxPartitions - (out ++ [(entry i).info i]).length = room := by
              simp only [List.length_append, List.length_singleton]
              omega
            have hrest := ih (max total (entry i).partEnd) (out ++ [(entry i).info i]) (by
              intro j hj
              rw [hlen] at hj
              exact hclean j (by simp [visitedSlots, hpop, hj]))
            rw [hlen] at hrest
            rw [recordedSlots_cons_populated entry hpop]
            have htotal : (if (entry i).partEnd > total then (entry i).partEnd else total) =
                max total (entry i).partEnd := by
              split <;> omega
            simp only [partLoop, if_pos hroom, hfirst, hpop, htotal, hrest]
            simp [usedSectors]
        | false =>
            have hrest := ih total out (by
              intro j hj
              rw [hr] at hj
              exact hclean j (by simp [visitedSlots, hpop, hj]))
            rw [hr] at hrest
            rw [recordedSlots_cons_skipped entry hpop]
            simp only [partLoop, if_pos hroom, hfirst, hpop, hrest]
            rfl
      · have hfull : maxPartitions - out.length = 0 := by omega
        rw [hfull]
        simp [partLoop, hroom, usedSectors]

theorem partLoop_malformed (maxPartitions : Nat) (slots : List Nat) (total : Nat)
    (out : List DvmPartInfo)
    (hbad : ∃ i ∈ visitedSlots entry (maxPartitions - out.length) slots, (entry i).malformed) :
    (partLoop entry maxPartitions slots total out).malformed = true := by
  induction slots generalizing total out with
  | nil => simp [visitedSlots] at hbad
  | cons i rest ih =>
      obtain ⟨j, hj, hmal⟩ := hbad
      by_cases hroom : out.length < maxPartitions
      · obtain ⟨room, hr⟩ : ∃ room, maxPartitions - out.length = room + 1 :=
          ⟨maxPartitions - out.length - 1, by omega⟩
        rw [hr] at hj
        cases hfirst : (entry i).malformed with
        | true => simp [partLoop, hroom, hfirst]
        | false =>
            have hne : j ≠ i := by
              rintro rfl
              rw [hfirst] at hmal
              contradiction
            cases hpop : (entry i).populated with
            | true =>
                have hlen : maxPartitions - (out ++ [(entry i).info i]).length = room := by
                  simp only [List.length_append, List.length_singleton]
                  omega
                simp only [partLoop, if_pos hroom, hfirst, hpop]
                apply ih
                rw [hlen]
                exact ⟨j, by simpa [visitedSlots, hpop, hne] using hj, hmal⟩
            | false =>
                simp only [partLoop, if_pos hroom, hfirst, hpop]
                apply ih
                rw [hr]
                exact ⟨j, by simpa [visitedSlots, hpop, hne] using hj, hmal⟩
      · have hfull : maxPartitions - out.length = 0 := by omega
        rw [hfull] at hj
        simp [visitedSlots] at hj

/-! ## The identify loop -/

def DvmPartInfo.span (part : DvmPartInfo) : Nat × Nat := (part.startSector, part.numSectors)

theorem identLoop_spans (order : Words.ByteOrder) (d : ProbeDisc) (bufSz numSectors : Nat)
    (parts : List DvmPartInfo) (buf : Nat → UInt8) (call : Nat) :
    (identLoop order d bufSz numSectors parts buf call).1.map DvmPartInfo.span =
      parts.map DvmPartInfo.span := by
  induction parts generalizing buf call with
  | nil => rfl
  | cons part rest ih =>
      unfold identLoop
      cases hread : readInto d buf bufSz call numSectors part.startSector with
      | none => rfl
      | some data =>
          simp only [List.map_cons, ih]
          congr 1
          cases dvmIdentMbrVbr order data with
          | none => rfl
          | some text =>
              simp only
              split <;> rfl

/-! ## Hosts of either byte order -/

open Words

theorem dvmRead16_eq (order : ByteOrder) (buf : Nat → UInt8) (offset : Nat) :
    dvmRead16 order buf offset = byte buf offset + byte buf (offset + 1) * 2 ^ 8 :=
  le16_load16 order buf offset

theorem dvmRead32_eq (order : ByteOrder) (buf : Nat → UInt8) (offset : Nat) :
    dvmRead32 order buf offset =
      byte buf offset + byte buf (offset + 1) * 2 ^ 8 + byte buf (offset + 2) * 2 ^ 16 +
        byte buf (offset + 3) * 2 ^ 24 :=
  le32_load32 order buf offset

end LibDvm.Prober
