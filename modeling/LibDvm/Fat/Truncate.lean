import LibDvm.Fat.Position

/-! # Truncating

`_FAT_ftruncate_r` tries `f_expand`, seeks to the new size, cuts the file there and moves
back. It takes the `FR_OK` of the seek for having got there, and undoes nothing when a
later call fails.
-/

namespace LibDvm.Fat

/-! ## The view after each call -/

/-- `now` is `was` once `f_expand` has been tried for `size` bytes. -/
inductive FatFile.Prepared (was now : FatFile) (size : Nat) (fr : FResult) : Prop where
  | unchanged (hfr : fr ≠ .ok) (heq : now = was)
  | allocated (hfr : fr = .ok) (hexp : was.Expanded now size)

structure FatFile.Truncated (was now : FatFile) (size : Nat) : Prop where
  length : now.data.length = size
  kept : now.data.take (min was.data.length size) = was.data.take (min was.data.length size)
  pos : now.pos = min was.pos size

section Calls

variable {φ : Type} {fatfs : FileCalls φ} {view : φ → FatFile} {was mid now : FatFile}
  {n : Nat} {fr : FResult}

theorem fExpand_prepared (hdoc : fatfs.Documented view) (fp : φ) (n : Nat) :
    (view fp).Prepared (view (fatfs.fExpand fp n).1) n (fatfs.fExpand fp n).2 := by
  by_cases hfr : (fatfs.fExpand fp n).2 = .ok
  · exact .allocated hfr (hdoc.expand fp n hfr)
  · exact .unchanged hfr (hdoc.expand_fails fp n hfr)

theorem FatFile.Prepared.pos_eq (h : was.Prepared mid n fr) : mid.pos = was.pos := by
  cases h with
  | unchanged _ heq => rw [heq]
  | allocated _ hexp => exact hexp.pos

theorem FatFile.Prepared.kept (h : was.Prepared mid n fr) : was.data <+: mid.data := by
  cases h with
  | unchanged _ heq => exact heq ▸ List.prefix_rfl
  | allocated _ hexp =>
      rw [hexp.empty]
      exact List.nil_prefix

theorem FatFile.Prepared.reaches_iff (h : was.Prepared mid n fr) (hw : was.writable = true)
    (hs : mid.Sought now n) : now.pos = n ↔ n ≤ was.room := by
  rw [hs.reaches_iff]
  have hdata := was.data_le
  cases h with
  | unchanged _ heq =>
      rw [heq, hw]
      constructor
      · rintro (hle | ⟨-, hle⟩) <;> omega
      · exact fun hle => Or.inr ⟨rfl, hle⟩
  | allocated _ hexp =>
      have hlen := hexp.length
      have hfits := hexp.fits
      exact ⟨fun _ => hfits, fun _ => Or.inl (by omega)⟩

theorem cutAt_ok (hdoc : fatfs.Documented view) {fp : φ} (hok : (cutAt fatfs fp n).2 = .ok) :
    ∃ sought, (view fp).Sought sought n ∧ sought.Cut (view (cutAt fatfs fp n).1) := by
  obtain ⟨hsought, -⟩ := lseek_or_stay hdoc fp n
  simp only [ne_comm (a := n)] at hsought
  simp only [cutAt] at hok ⊢
  generalize (if fatfs.fTell fp ≠ n then fatfs.fLseek fp n else (fp, .ok)) = r at *
  by_cases hr : r.2 = .ok
  · rw [if_pos hr] at hok ⊢
    exact ⟨_, hsought hr, hdoc.truncate _ hok⟩
  · rw [if_neg hr] at hok
    exact absurd hok hr

theorem cutAt_fails (hdoc : fatfs.Documented view) {fp : φ} (hfail : (cutAt fatfs fp n).2 ≠ .ok) :
    if fatfs.fTell fp ≠ n ∧ (fatfs.fLseek fp n).2 = .ok then
      (view fp).Sought (view (cutAt fatfs fp n).1) n
    else view (cutAt fatfs fp n).1 = view fp := by
  by_cases hhere : fatfs.fTell fp ≠ n
  · by_cases hseek : (fatfs.fLseek fp n).2 = .ok
    · rw [if_pos ⟨hhere, hseek⟩]
      simp only [cutAt, if_pos hhere, hseek, if_true] at hfail ⊢
      rw [hdoc.truncate_fails _ hfail]
      exact hdoc.lseek fp n hseek
    · rw [if_neg (fun h => hseek h.2)]
      simp only [cutAt, if_pos hhere, if_neg hseek]
      exact hdoc.lseek_fails fp n hseek
  · rw [if_neg (fun h => hhere h.1)]
    simp only [cutAt, if_neg hhere, if_true] at hfail ⊢
    exact hdoc.truncate_fails fp hfail

end Calls

/-! ## A truncation that succeeds -/

section Succeeds

variable {was mid sought cut now : FatFile} {n : Nat} {fr : FResult}

theorem FatFile.Cut.length (h : sought.Cut cut) : cut.data.length = sought.pos := by
  have := sought.pos_le
  rw [h.data, List.length_take]
  omega

theorem FatFile.Prepared.backup_le (hp : was.Prepared mid n fr) (hs : mid.Sought sought n) :
    min was.pos n ≤ sought.pos := by
  have hpos := hp.pos_eq
  have hmid := mid.pos_le
  have hroom := mid.data_le
  by_cases hle : n ≤ mid.data.length
  · have := (hs.within hle).1
    omega
  · cases hw : mid.writable with
    | true =>
        have := (hs.extended (by omega) hw).1
        omega
    | false =>
        have := (hs.clipped (by omega) hw).1
        omega

theorem FatFile.Prepared.truncated_iff (hp : was.Prepared mid n fr) (hw : was.writable = true)
    (hs : mid.Sought sought n) (hc : sought.Cut cut) (hb : cut.Sought now (min was.pos n)) :
    was.Truncated now n ↔ n ≤ was.room := by
  have hlen := hc.length
  have hback := hb.within (by have := hp.backup_le hs; omega)
  rw [← hp.reaches_iff hw hs]
  constructor
  · intro h
    have hsize := h.length
    rw [hback.2] at hsize
    omega
  · intro hreach
    refine ⟨by rw [hback.2]; omega, ?_, hback.1⟩
    have hkept : was.data <+: sought.data := hp.kept.trans hs.kept
    obtain ⟨rest, hrest⟩ := hkept
    rw [hback.2, hc.data, hreach, List.take_take, ← hrest,
      List.take_append_of_le_length (by omega)]
    congr 1
    omega

end Succeeds

section Calls

variable {φ : Type} {fatfs : FileCalls φ} {view : φ → FatFile} {fp : φ} {size : Int}

theorem ftruncateCut_of_neg (hneg : size < 0) :
    ftruncateCut fatfs fp size = (fp, .invalidParameter, 0) :=
  if_neg (by omega)

theorem ftruncateCut_of_nonneg (fatfs : FileCalls φ) (fp : φ) {size : Int} (hsize : 0 ≤ size) :
    ftruncateCut fatfs fp size =
      ((cutAt fatfs (fatfs.fExpand fp (fsize size)).1 (fsize size)).1,
        (cutAt fatfs (fatfs.fExpand fp (fsize size)).1 (fsize size)).2,
        min (fatfs.fTell (fatfs.fExpand fp (fsize size)).1) (fsize size)) := by
  rw [ftruncateCut, if_pos hsize]
  simp only [Prod.mk.injEq, true_and]
  split <;> omega

theorem ftruncate_ok (hdoc : fatfs.Documented view) (hsize : 0 ≤ size)
    (hret : (ftruncate fatfs fp size).2 = .ok ()) :
    ∃ mid fr sought cut, (view fp).Prepared mid (fsize size) fr ∧
      mid.Sought sought (fsize size) ∧ sought.Cut cut ∧
      cut.Sought (view (ftruncate fatfs fp size).1) (min (view fp).pos (fsize size)) := by
  have hprep := fExpand_prepared hdoc fp (fsize size)
  have hcutEq := ftruncateCut_of_nonneg fatfs fp hsize
  rw [hdoc.tell, hprep.pos_eq] at hcutEq
  simp only [ftruncate, hcutEq] at hret ⊢
  have hfr := (setErrno_ok.mp hret).1
  generalize hcut : cutAt fatfs (fatfs.fExpand fp (fsize size)).1 (fsize size) = r at *
  by_cases hok : r.2 = .ok
  · obtain ⟨sought, hs, hc⟩ := cutAt_ok hdoc (hcut ▸ hok)
    rw [hcut] at hc
    obtain ⟨hback, -⟩ := lseek_or_stay hdoc r.1 (min (view fp).pos (fsize size))
    simp only [ne_comm (a := min (view fp).pos (fsize size))] at hback
    simp only [hok, true_and] at hfr ⊢
    exact ⟨_, _, sought, _, hprep, hs, hc, hback hfr⟩
  · simp only [hok, false_and, if_false] at hfr

/-- A truncation of a writable file that reports success has done what it reports exactly
when the volume has room for the size. -/
theorem truncate_does_what_it_reports (hdoc : fatfs.Documented view) {fp : φ}
    (hwritable : (view fp).writable = true) {size : Int} (hsize : 0 ≤ size)
    (hoff : size < 2 ^ 63) (hret : (ftruncate fatfs fp size).2 = .ok ()) :
    (view fp).Truncated (view (ftruncate fatfs fp size).1) size.toNat ↔
      size.toNat ≤ (view fp).room := by
  obtain ⟨mid, fr, sought, cut, hprep, hs, hc, hback⟩ := ftruncate_ok hdoc hsize hret
  rw [fsize_of_nonneg hsize (by omega)] at hprep hs hback
  exact hprep.truncated_iff hwritable hs hc hback

end Calls

theorem truncate_does_what_it_reports_sample :
    (sampleFile 2 true (by decide)).Truncated
        (ftruncate memoryCalls (sampleFile 2 true (by decide)) 8).1 8 ↔ 8 ≤ 10 :=
  truncate_does_what_it_reports memoryCalls_documented rfl (by decide) (by decide) rfl

/-- On a full volume the driver reports a file of twelve bytes and leaves one of ten. -/
theorem truncate_on_full_volume :
    (ftruncate memoryCalls (sampleFile 2 true (by decide)) 12).2 = .ok () ∧
      (ftruncate memoryCalls (sampleFile 2 true (by decide)) 12).1.data.length = 10 ∧
      ¬ (sampleFile 2 true (by decide)).Truncated
        (ftruncate memoryCalls (sampleFile 2 true (by decide)) 12).1 12 := by
  have hlen : (ftruncate memoryCalls (sampleFile 2 true (by decide)) 12).1.data.length = 10 := by
    rfl
  refine ⟨by rfl, hlen, ?_⟩
  intro h
  have := h.length
  rw [hlen] at this
  omega

/-! ## A truncation that fails -/

def FatFile.Intact (was now : FatFile) : Prop :=
  now.data.length = was.data.length ∧ now.pos = was.pos

/-- A seek to `ofs` that comes to nothing: the pointer is at the end of a file that cannot
grow. -/
def FatFile.Stuck (f : FatFile) (ofs : Nat) : Prop :=
  f.pos = f.data.length ∧ f.data.length < ofs ∧ (f.writable = false ∨ f.room = f.data.length)

theorem FatFile.Sought.intact_iff {was now : FatFile} {ofs : Nat} (h : was.Sought now ofs)
    (hne : was.pos ≠ ofs) : was.Intact now ↔ was.Stuck ofs := by
  have hpos := was.pos_le
  have hroom := was.data_le
  by_cases hle : ofs ≤ was.data.length
  · have hwithin := (h.within hle).1
    constructor
    · exact fun hintact => absurd (hintact.2.symm.trans hwithin) hne
    · exact fun hstuck => absurd hstuck.2.1 (by omega)
  · cases hw : was.writable with
    | false =>
        obtain ⟨hend, hdata⟩ := h.clipped (by omega) hw
        constructor
        · intro hintact
          have := hintact.2
          exact ⟨by omega, by omega, Or.inl hw⟩
        · intro hstuck
          have := hstuck.1
          exact ⟨by rw [hdata], by omega⟩
    | true =>
        obtain ⟨hend, hlen⟩ := h.extended (by omega) hw
        constructor
        · intro hintact
          have := hintact.1
          have := hintact.2
          exact ⟨by omega, by omega, Or.inr (by omega)⟩
        · intro hstuck
          obtain ⟨hat, hlt, hfull⟩ := hstuck
          have hfull := hfull.resolve_left (by simp [hw])
          exact ⟨by omega, by omega⟩

/-- The state before a truncation to `n` bytes in which no step that goes through changes
the file: `f_expand` fails, and no seek is due, it fails, or it comes to nothing. -/
def Untouched {φ : Type} (fatfs : FileCalls φ) (view : φ → FatFile) (fp : φ) (n : Nat) : Prop :=
  (fatfs.fExpand fp n).2 ≠ .ok ∧
    ((view fp).pos = n ∨ (fatfs.fLseek (fatfs.fExpand fp n).1 n).2 ≠ .ok ∨ (view fp).Stuck n)

section Calls

variable {φ : Type} {fatfs : FileCalls φ} {view : φ → FatFile} {fp : φ} {size : Int}

theorem ftruncate_cut_fails (hfail : (ftruncateCut fatfs fp size).2.1 ≠ .ok) :
    (ftruncate fatfs fp size).1 = (ftruncateCut fatfs fp size).1 ∧
      ∃ errno, (ftruncate fatfs fp size).2 = .error errno := by
  simp only [ftruncate, hfail, false_and, if_false, true_and]
  exact setErrno_error () hfail

/-- After `f_expand`, a failure up to `f_truncate` leaves the file intact exactly when no
seek is due, it fails or it comes to nothing. -/
theorem cutAt_intact_iff (hdoc : fatfs.Documented view) {fp : φ} {n : Nat}
    (hfail : (cutAt fatfs fp n).2 ≠ .ok) :
    (view fp).Intact (view (cutAt fatfs fp n).1) ↔
      (view fp).pos = n ∨ (fatfs.fLseek fp n).2 ≠ .ok ∨ (view fp).Stuck n := by
  have hcases := cutAt_fails hdoc hfail
  by_cases hmoved : fatfs.fTell fp ≠ n ∧ (fatfs.fLseek fp n).2 = .ok
  · rw [if_pos hmoved] at hcases
    rw [hdoc.tell] at hmoved
    rw [hcases.intact_iff hmoved.1]
    constructor
    · exact fun h => Or.inr (Or.inr h)
    · rintro (hhere | hseek | hstuck)
      · exact absurd hhere hmoved.1
      · exact absurd hmoved.2 hseek
      · exact hstuck
  · rw [if_neg hmoved] at hcases
    rw [hcases, ← hdoc.tell]
    refine ⟨fun _ => ?_, fun _ => ⟨rfl, rfl⟩⟩
    by_cases hhere : fatfs.fTell fp = n
    · exact Or.inl hhere
    · exact Or.inr (Or.inl fun hseek => hmoved ⟨hhere, hseek⟩)

theorem cutAt_not_intact (hdoc : fatfs.Documented view) {was : FatFile} {fp : φ} {n : Nat}
    (hexp : was.Expanded (view fp) n) (hfail : (cutAt fatfs fp n).2 ≠ .ok) :
    ¬ was.Intact (view (cutAt fatfs fp n).1) := by
  intro hintact
  have hlen := hintact.1
  rw [hexp.empty, List.length_nil] at hlen
  have hpos := hexp.positive
  have hnow := hexp.length
  have hcases := cutAt_fails hdoc hfail
  split at hcases
  · have hdata := (hcases.within (by omega)).2
    rw [hdata] at hlen
    omega
  · rw [hcases] at hlen
    omega

/-- A truncation that fails by the time of `f_truncate` leaves the file intact exactly when
the size is negative or nothing that has gone through changes the file. -/
theorem failed_truncate_intact (hdoc : fatfs.Documented view) {fp : φ} {size : Int}
    (hoff : size < 2 ^ 63) (hfail : (ftruncateCut fatfs fp size).2.1 ≠ .ok) :
    (∃ errno, (ftruncate fatfs fp size).2 = .error errno) ∧
      ((view fp).Intact (view (ftruncate fatfs fp size).1) ↔
        size < 0 ∨ Untouched fatfs view fp size.toNat) := by
  obtain ⟨hstate, hret⟩ := ftruncate_cut_fails hfail
  refine ⟨hret, ?_⟩
  rw [hstate]
  by_cases hneg : size < 0
  · rw [ftruncateCut_of_neg hneg]
    exact ⟨fun _ => Or.inl hneg, fun _ => ⟨rfl, rfl⟩⟩
  · have hcutEq := ftruncateCut_of_nonneg fatfs fp (Int.not_lt.mp hneg)
    rw [fsize_of_nonneg (by omega) (by omega)] at hcutEq
    rw [hcutEq] at hfail ⊢
    simp only [hneg, false_or, Untouched]
    cases fExpand_prepared hdoc fp size.toNat with
    | unchanged hfr heq =>
        have hiff := cutAt_intact_iff hdoc hfail
        rw [heq] at hiff
        exact hiff.trans ⟨fun h => ⟨hfr, h⟩, fun h => h.2⟩
    | allocated hfr hexp =>
        have hnot := cutAt_not_intact hdoc hexp hfail
        exact ⟨fun h => absurd h hnot, fun h => absurd hfr h.1⟩

end Calls

theorem failed_truncate_intact_sample :
    (∃ errno, (ftruncate memoryCalls (sampleFile 3 false (by decide)) 9).2 = .error errno) ∧
      ((sampleFile 3 false (by decide)).Intact
          (ftruncate memoryCalls (sampleFile 3 false (by decide)) 9).1 ↔
        (9 : Int) < 0 ∨ Untouched memoryCalls id (sampleFile 3 false (by decide)) 9) :=
  failed_truncate_intact memoryCalls_documented (by decide) (by decide)

/-- On a read-only file the pointer stays where the seek before `f_truncate` has put it. -/
theorem failed_truncate_moves_pointer :
    (ftruncateCut memoryCalls (sampleFile 0 false (by decide)) 2).2.1 = .denied ∧
      (ftruncate memoryCalls (sampleFile 0 false (by decide)) 2).2 = .error .eacces ∧
      (ftruncate memoryCalls (sampleFile 0 false (by decide)) 2).1.pos = 2 ∧
      ¬ (sampleFile 0 false (by decide)).Intact
        (ftruncate memoryCalls (sampleFile 0 false (by decide)) 2).1 := by
  refine ⟨by rfl, by rfl, by rfl, ?_⟩
  intro h
  have hpos : (2 : Nat) = 0 := h.2
  omega

end LibDvm.Fat
