import Mathlib.Data.List.Basic
import Mathlib.Tactic.Common

/-! # Write-back windows over a backing store

Windows over a backing store answer for the addresses they cover; what a window
holds dirty has not reached the store yet. `view` is what a reader sees. A system
of windows is coherent when no address is covered twice and clean contents equal
the store. The rules below say which updates keep it coherent and what each does
to the view: writing back, giving a window another range, storing through a
window, and storing past all of them.
-/

namespace LibDvm

structure WriteBack (ι κ α : Type) where
  windows : List ι
  covers : ι → κ → Bool
  dirty : ι → κ → Prop
  content : ι → κ → α
  back : κ → α

namespace WriteBack

variable {ι κ α : Type}

/-- A covered address is read from its window, any other from the backing store. -/
def view (w : WriteBack ι κ α) (s : κ) : α :=
  match w.windows.find? (fun i => w.covers i s) with
  | some i => w.content i s
  | none => w.back s

/-- Coherence, with the clean contents at the addresses in `X` left open. -/
structure Coherent (w : WriteBack ι κ α) (X : κ → Prop) : Prop where
  disjoint : ∀ i ∈ w.windows, ∀ j ∈ w.windows, ∀ s,
    w.covers i s = true → w.covers j s = true → i = j
  clean : ∀ i ∈ w.windows, ∀ s, w.covers i s = true → ¬ w.dirty i s → ¬ X s →
    w.content i s = w.back s

/-! ## Reading -/

section View

variable {w : WriteBack ι κ α} {X : κ → Prop} {s : κ}

theorem view_uncovered (h : ∀ i ∈ w.windows, w.covers i s = false) : w.view s = w.back s := by
  have hfind : w.windows.find? (fun i => w.covers i s) = none :=
    List.find?_eq_none.mpr fun i hi => by simp [h i hi]
  rw [view, hfind]

theorem Coherent.view_covered (h : w.Coherent X) {i : ι} (hi : i ∈ w.windows)
    (hc : w.covers i s = true) : w.view s = w.content i s := by
  unfold view
  cases hfind : w.windows.find? (fun i => w.covers i s) with
  | none =>
      rw [List.find?_eq_none] at hfind
      exact absurd hc (hfind i hi)
  | some j =>
      have hj : w.covers j s = true := by simpa using List.find?_some hfind
      rw [h.disjoint j (List.mem_of_find?_eq_some hfind) i hi s hj hc]

theorem covered_or (w : WriteBack ι κ α) (s : κ) :
    (∃ i ∈ w.windows, w.covers i s = true) ∨ ∀ i ∈ w.windows, w.covers i s = false := by
  by_cases h : ∃ i ∈ w.windows, w.covers i s = true
  · exact .inl h
  · exact .inr fun i hi => by simpa using fun hc => h ⟨i, hi, hc⟩

theorem Coherent.view_clean (h : w.Coherent X) (hs : ¬ X s)
    (hclean : ∀ i ∈ w.windows, w.covers i s = true → ¬ w.dirty i s) : w.view s = w.back s := by
  rcases w.covered_or s with ⟨i, hi, hc⟩ | hnone
  · rw [h.view_covered hi hc, h.clean i hi s hc (hclean i hi hc) hs]
  · exact view_uncovered hnone

theorem Coherent.mono {Y : κ → Prop} (h : w.Coherent X) (hXY : ∀ s, X s → Y s) :
    w.Coherent Y where
  disjoint := h.disjoint
  clean := fun i hi s hc hd hs => h.clean i hi s hc hd fun hx => hs (hXY s hx)

end View

/-! ## Updates -/

section Updates

variable {w w' : WriteBack ι κ α} {X : κ → Prop}

theorem Coherent.view_eq {X' : κ → Prop} {s : κ} (h : w.Coherent X) (h' : w'.Coherent X')
    (hwindows : w'.windows = w.windows) (hcovers : w'.covers = w.covers)
    (hcontent : ∀ i ∈ w.windows, w.covers i s = true → w'.content i s = w.content i s)
    (hback : (∀ i ∈ w.windows, w.covers i s = false) → w'.back s = w.back s) :
    w'.view s = w.view s := by
  rcases w.covered_or s with ⟨i, hi, hc⟩ | hnone
  · rw [h.view_covered hi hc, h'.view_covered (hwindows ▸ hi) (by rw [hcovers]; exact hc),
      hcontent i hi hc]
  · have hnone' : ∀ i ∈ w'.windows, w'.covers i s = false := by
      rw [hwindows, hcovers]
      exact hnone
    rw [view_uncovered hnone, view_uncovered hnone', hback hnone]

/-- Writing back: the store takes on contents of windows, and a window gives up the
dirty mark of an address only once the store holds what the window holds. What a
window still marks dirty may hold anything in the store. -/
theorem Coherent.write_back (h : w.Coherent X) (hwindows : w'.windows = w.windows)
    (hcovers : w'.covers = w.covers) (hcontent : w'.content = w.content)
    (hback : ∀ s, w'.back s = w.back s ∨
      ∃ i ∈ w.windows, w.covers i s = true ∧ (w'.dirty i s ∨ w'.back s = w.content i s))
    (hdirty : ∀ i ∈ w.windows, ∀ s, w.covers i s = true → ¬ w'.dirty i s →
      ¬ w.dirty i s ∨ w'.back s = w.content i s) :
    w'.Coherent X ∧ ∀ s, w'.view s = w.view s := by
  have hcoherent : w'.Coherent X := by
    constructor
    · rw [hwindows, hcovers]
      exact h.disjoint
    · intro i hi s hc hd hs
      rw [hwindows] at hi
      rw [hcovers] at hc
      rw [hcontent]
      rcases hdirty i hi s hc hd with hclean | heq
      · rcases hback s with heq | ⟨j, hj, hcj, hstate⟩
        · rw [heq]
          exact h.clean i hi s hc hclean hs
        · obtain rfl := h.disjoint i hi j hj s hc hcj
          rcases hstate with hdirt | heq
          · exact absurd hdirt hd
          · exact heq.symm
      · exact heq.symm
  refine ⟨hcoherent, fun s => h.view_eq hcoherent hwindows hcovers ?_ ?_⟩
  · intro i _ _
    rw [hcontent]
  · intro hnone
    rcases hback s with heq | ⟨i, hi, hc, _⟩
    · exact heq
    · rw [hnone i hi] at hc
      cases hc

/-- Giving the clean window `p` another range, free of the other windows. Where its
content there is not the store's, the address goes to `X`. -/
theorem Coherent.replace (h : w.Coherent fun _ => False) (p : ι)
    (hwindows : w'.windows = w.windows)
    (hcovers : ∀ i ∈ w.windows, i ≠ p → w'.covers i = w.covers i)
    (hdirty : ∀ i ∈ w.windows, i ≠ p → w'.dirty i = w.dirty i)
    (hcontent : ∀ i ∈ w.windows, i ≠ p → ∀ s, w.covers i s = true →
      w'.content i s = w.content i s)
    (hback : w'.back = w.back)
    (hclean : ∀ s, w.covers p s = true → ¬ w.dirty p s)
    (hfree : ∀ i ∈ w.windows, i ≠ p → ∀ s, w'.covers p s = true → w.covers i s = false)
    (hfill : ∀ s, w'.covers p s = true → ¬ X s → w'.content p s = w.back s) :
    w'.Coherent X ∧ ∀ s, ¬ X s → w'.view s = w.view s := by
  classical
  have hcoherent : w'.Coherent X := by
    constructor
    · intro i hi j hj s hci hcj
      rw [hwindows] at hi hj
      by_cases hip : i = p <;> by_cases hjp : j = p
      · rw [hip, hjp]
      · rw [hip] at hci
        rw [hcovers j hj hjp, hfree j hj hjp s hci] at hcj
        cases hcj
      · rw [hjp] at hcj
        rw [hcovers i hi hip, hfree i hi hip s hcj] at hci
        cases hci
      · rw [hcovers i hi hip] at hci
        rw [hcovers j hj hjp] at hcj
        exact h.disjoint i hi j hj s hci hcj
    · intro i hi s hc hd hs
      rw [hwindows] at hi
      rw [hback]
      by_cases hip : i = p
      · rw [hip] at hc ⊢
        exact hfill s hc hs
      · rw [hcovers i hi hip] at hc
        rw [hdirty i hi hip] at hd
        rw [hcontent i hi hip s hc]
        exact h.clean i hi s hc hd not_false
  refine ⟨hcoherent, fun s hs => ?_⟩
  by_cases hother : ∃ i ∈ w.windows, i ≠ p ∧ w.covers i s = true
  · obtain ⟨i, hi, hip, hc⟩ := hother
    have hc' : w'.covers i s = true := by rw [hcovers i hi hip]; exact hc
    rw [h.view_covered hi hc, hcoherent.view_covered (hwindows ▸ hi) hc',
      hcontent i hi hip s hc]
  · have hold : w.view s = w.back s := by
      apply h.view_clean not_false
      intro i hi hc
      by_cases hip : i = p
      · rw [hip] at hc ⊢
        exact hclean s hc
      · exact absurd ⟨i, hi, hip, hc⟩ hother
    rw [hold, ← hback]
    rcases w'.covered_or s with ⟨i, hi, hc⟩ | hnone
    · rw [hwindows] at hi
      by_cases hip : i = p
      · rw [hip] at hi hc
        rw [hcoherent.view_covered (hwindows ▸ hi) hc, hback]
        exact hfill s hc hs
      · rw [hcovers i hi hip] at hc
        exact absurd ⟨i, hi, hip, hc⟩ hother
    · exact view_uncovered hnone

theorem Coherent.store (h : w.Coherent X) (w' : WriteBack ι κ α) {p : ι} (hp : p ∈ w.windows)
    (hwindows : w'.windows = w.windows) (hcovers : w'.covers = w.covers)
    (hback : w'.back = w.back)
    (hcontent : ∀ i ∈ w.windows, ∀ s, w.covers i s = true → ¬ X s →
      w'.content i s = w.content i s)
    (hdirty : ∀ i ∈ w.windows, ∀ s, w.dirty i s → w'.dirty i s)
    (hX : ∀ s, X s → w.covers p s = true ∧ w'.dirty p s) :
    w'.Coherent (fun _ => False) ∧
      ∀ s, (X s → w'.view s = w'.content p s) ∧ (¬ X s → w'.view s = w.view s) := by
  have hcoherent : w'.Coherent fun _ => False := by
    constructor
    · rw [hwindows, hcovers]
      exact h.disjoint
    · intro i hi s hc hd _
      rw [hwindows] at hi
      rw [hcovers] at hc
      have hs : ¬ X s := by
        intro hx
        obtain ⟨hcp, hdp⟩ := hX s hx
        rw [h.disjoint i hi p hp s hc hcp] at hd
        exact hd hdp
      rw [hcontent i hi s hc hs, hback]
      exact h.clean i hi s hc (fun hdirt => hd (hdirty i hi s hdirt)) hs
  refine ⟨hcoherent, fun s => ⟨fun hx => ?_, fun hx => ?_⟩⟩
  · exact hcoherent.view_covered (hwindows ▸ hp) (by rw [hcovers]; exact (hX s hx).1)
  · exact h.view_eq hcoherent hwindows hcovers (fun i hi hc => hcontent i hi s hc hx)
      fun _ => congrFun hback s

theorem Coherent.bypass (h : w.Coherent X) (w' : WriteBack ι κ α) {Y : κ → Prop}
    (hwindows : w'.windows = w.windows)
    (hcovers : w'.covers = w.covers) (hdirty : w'.dirty = w.dirty)
    (hcontent : w'.content = w.content) (hback : ∀ s, ¬ Y s → w'.back s = w.back s)
    (hY : ∀ s, Y s → ∀ i ∈ w.windows, w.covers i s = false) :
    w'.Coherent X ∧
      ∀ s, (Y s → w'.view s = w'.back s) ∧ (¬ Y s → w'.view s = w.view s) := by
  have hcovered : ∀ i ∈ w.windows, ∀ s, w.covers i s = true → ¬ Y s := by
    intro i hi s hc hy
    rw [hY s hy i hi] at hc
    cases hc
  have hcoherent : w'.Coherent X := by
    constructor
    · rw [hwindows, hcovers]
      exact h.disjoint
    · intro i hi s hc hd hs
      rw [hwindows] at hi
      rw [hcovers] at hc
      rw [hdirty] at hd
      rw [hcontent, hback s (hcovered i hi s hc)]
      exact h.clean i hi s hc hd hs
  refine ⟨hcoherent, fun s => ⟨fun hy => ?_, fun hy => ?_⟩⟩
  · apply view_uncovered
    rw [hwindows, hcovers]
    exact hY s hy
  · exact h.view_eq hcoherent hwindows hcovers (fun i _ _ => by rw [hcontent])
      fun _ => hback s hy

end Updates

end WriteBack

end LibDvm
