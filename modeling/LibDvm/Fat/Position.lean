import LibDvm.Fat.FatFs

/-! # Seeking

What `_FAT_seek_r` returns is the position it asked for, not the one FatFs has reached. The
two agree exactly as far as FatFs can follow.
-/

namespace LibDvm.Fat

/-! ## Seeks of FatFs -/

namespace FatFile

variable {was now : FatFile} {ofs : Nat}

theorem sought_here (f : FatFile) : f.Sought f f.pos :=
  ⟨rfl, List.prefix_rfl, fun _ => ⟨rfl, rfl⟩, fun hlt => absurd f.pos_le (by omega),
    fun hlt => absurd f.pos_le (by omega)⟩

theorem Sought.reaches_iff (h : was.Sought now ofs) :
    now.pos = ofs ↔ ofs ≤ was.data.length ∨ was.writable = true ∧ ofs ≤ was.room := by
  by_cases hle : ofs ≤ was.data.length
  · exact ⟨fun _ => Or.inl hle, fun _ => (h.within hle).1⟩
  · cases hw : was.writable with
    | false =>
        have hpos := (h.clipped (by omega) hw).1
        simp only [hle, false_or, Bool.false_eq_true, false_and, iff_false]
        omega
    | true =>
        have hpos := (h.extended (by omega) hw).1
        simp only [hle, false_or, true_and]
        omega

end FatFile

section Calls

variable {φ : Type} {fatfs : FileCalls φ} {view : φ → FatFile}

/-! ## `_FAT_set_errno` -/

theorem setErrno_ok {ρ : Type} {fr : FResult} {ret value : ρ} :
    setErrno fr ret = .ok value ↔ fr = .ok ∧ ret = value := by
  cases fr <;> simp [setErrno, frToErrno]

theorem setErrno_error {ρ : Type} {fr : FResult} (ret : ρ) (h : fr ≠ .ok) :
    ∃ errno, setErrno fr ret = .error errno := by
  cases fr <;> first | exact ⟨_, rfl⟩ | exact absurd rfl h

/-! ## `_FAT_seek_r` -/

theorem fsize_of_nonneg {n : Int} (hlow : 0 ≤ n) (hhigh : n < 2 ^ 64) : fsize n = n.toNat := by
  rw [fsize, Int.emod_eq_of_lt hlow hhigh]

/-- The seek call of the driver, which it leaves out when the pointer is there already. -/
theorem lseek_or_stay (hdoc : fatfs.Documented view) (fp : φ) (ofs : Nat) :
    let r := if ofs ≠ fatfs.fTell fp then fatfs.fLseek fp ofs else (fp, .ok)
    (r.2 = .ok → (view fp).Sought (view r.1) ofs) ∧ (r.2 ≠ .ok → view r.1 = view fp) := by
  intro r
  by_cases hhere : ofs = fatfs.fTell fp
  · have hr : r = (fp, .ok) := if_neg (by simpa using hhere)
    rw [hr]
    refine ⟨fun _ => ?_, fun h => absurd rfl h⟩
    rw [hhere, hdoc.tell]
    exact (view fp).sought_here
  · have hr : r = fatfs.fLseek fp ofs := if_pos hhere
    rw [hr]
    exact ⟨hdoc.lseek fp ofs, hdoc.lseek_fails fp ofs⟩

theorem toOff_of_nonneg {n : Nat} (hn : n < 2 ^ 64) : 0 ≤ toOff n ↔ n < 2 ^ 63 := by
  unfold toOff
  split <;> omega

theorem fsize_lt (n : Int) : fsize n < 2 ^ 64 := by
  unfold fsize
  omega

theorem seek_before {fp : φ} {offset : Int} {whence : Whence} {base : Nat}
    (hbase : seekBase fatfs fp whence = some base) (hlow : -2 ^ 63 ≤ offset)
    (hneg : base + offset < 0) : seek fatfs fp offset whence = (fp, .error .einval) := by
  have hdist : fsize (-offset) = (-offset).toNat := fsize_of_nonneg (by omega) (by omega)
  have hnot : ¬ (offset ≥ 0 ∨ base ≥ fsize (-offset)) := by
    rw [hdist]
    omega
  simp only [seek, hbase, if_neg hnot]
  rfl

theorem seek_from {fp : φ} {offset : Int} {whence : Whence} {base : Nat}
    (hbase : seekBase fatfs fp whence = some base) (hlow : -2 ^ 63 ≤ offset)
    (hnonneg : 0 ≤ base + offset) :
    let pos := fsize (base + offset)
    let r := if pos ≠ fatfs.fTell fp then fatfs.fLseek fp pos else (fp, .ok)
    seek fatfs fp offset whence = (r.1, setErrno r.2 (toOff pos)) := by
  have hdist : 0 > offset → fsize (-offset) = (-offset).toNat :=
    fun _ => fsize_of_nonneg (by omega) (by omega)
  have hgo : offset ≥ 0 ∨ base ≥ fsize (-offset) := by
    by_cases hoff : offset ≥ 0
    · exact Or.inl hoff
    · rw [hdist (by omega)]
      omega
  simp only [seek, hbase, if_pos hgo]

/-- The returned position is the one of the file, and a target before the start is refused. -/
structure SeekHonest (fatfs : FileCalls φ) (fp : φ) (offset : Int) (whence : Whence) : Prop where
  position : ∀ pos, (seek fatfs fp offset whence).2 = .ok pos → 0 ≤ pos →
    pos = fatfs.fTell (seek fatfs fp offset whence).1
  beforeStart : ∀ base, seekBase fatfs fp whence = some base → base + offset < 0 →
    (seek fatfs fp offset whence).2 = .error .einval ∧
      fatfs.fTell (seek fatfs fp offset whence).1 = fatfs.fTell fp

/-- FatFs can follow a seek: it fails, or its target lies within the file or within the room
of a writable one. -/
def SeekReaches (fatfs : FileCalls φ) (view : φ → FatFile) (fp : φ) (offset : Int)
    (whence : Whence) : Prop :=
  ∀ base, seekBase fatfs fp whence = some base → 0 ≤ base + offset →
    fsize (base + offset) < 2 ^ 63 → (fatfs.fLseek fp (fsize (base + offset))).2 = .ok →
      fsize (base + offset) ≤ (view fp).data.length ∨
        (view fp).writable = true ∧ fsize (base + offset) ≤ (view fp).room

/-- A seek reports the position of the file exactly when FatFs can follow it. -/
theorem seek_reports_position (hdoc : fatfs.Documented view) (fp : φ) {offset : Int}
    (hlow : -2 ^ 63 ≤ offset) (whence : Whence) :
    SeekHonest fatfs fp offset whence ↔ SeekReaches fatfs view fp offset whence := by
  constructor
  · intro h base hbase hnonneg hsmall hok
    by_cases hhere : fsize (base + offset) = fatfs.fTell fp
    · left
      rw [hhere, hdoc.tell]
      exact (view fp).pos_le
    · have heq := seek_from hbase hlow hnonneg
      simp only [ne_eq, hhere, not_false_eq_true, if_true] at heq
      have hret : (seek fatfs fp offset whence).2 = .ok (toOff (fsize (base + offset))) := by
        rw [heq]
        exact setErrno_ok.mpr ⟨hok, rfl⟩
      have hpos := h.position _ hret ((toOff_of_nonneg (fsize_lt _)).mpr hsmall)
      rw [heq, toOff, if_pos hsmall, hdoc.tell] at hpos
      exact (hdoc.lseek fp _ hok).reaches_iff.mp (by simpa using hpos.symm)
  · intro h
    constructor
    · intro pos hret hpos
      cases hbase : seekBase fatfs fp whence with
      | none => simp [seek, hbase] at hret
      | some base =>
          by_cases hneg : base + offset < 0
          · rw [seek_before hbase hlow hneg] at hret
            cases hret
          · have heq := seek_from hbase hlow (by omega)
            simp only at heq
            rw [heq] at hret ⊢
            obtain ⟨hok, rfl⟩ := setErrno_ok.mp hret
            have hsmall := (toOff_of_nonneg (fsize_lt _)).mp hpos
            rw [toOff, if_pos hsmall]
            by_cases hhere : fsize (base + offset) = fatfs.fTell fp
            · simp [hhere]
            · simp only [ne_eq, hhere, not_false_eq_true, if_true] at hok ⊢
              rw [hdoc.tell, (hdoc.lseek fp _ hok).reaches_iff.mpr
                (h base hbase (by omega) hsmall hok)]
    · intro base hbase hneg
      rw [seek_before hbase hlow hneg]
      exact ⟨rfl, rfl⟩

end Calls

def sampleFile (pos : Nat) (writable : Bool) (hpos : pos ≤ 3) : FatFile :=
  ⟨[1, 2, 3], pos, writable, 10, hpos, by decide, by decide⟩

theorem seek_reports_position_sample :
    SeekHonest memoryCalls (sampleFile 1 true (by decide)) 7 .end ↔
      SeekReaches memoryCalls id (sampleFile 1 true (by decide)) 7 .end :=
  seek_reports_position memoryCalls_documented _ (by decide) _

/-- Past the end of a read-only file the driver reports 10, the file stays at 3. -/
theorem seek_past_end_misreported :
    (seek memoryCalls (sampleFile 1 false (by decide)) 10 .set).2 = .ok 10 ∧
      memoryCalls.fTell (seek memoryCalls (sampleFile 1 false (by decide)) 10 .set).1 = 3 ∧
      ¬ SeekHonest memoryCalls (sampleFile 1 false (by decide)) 10 .set := by
  have hret : (seek memoryCalls (sampleFile 1 false (by decide)) 10 .set).2 = .ok 10 := by rfl
  have htell : memoryCalls.fTell (seek memoryCalls (sampleFile 1 false (by decide)) 10 .set).1 =
      3 := by rfl
  refine ⟨hret, htell, ?_⟩
  intro h
  have := h.position 10 hret (by decide)
  rw [htell] at this
  omega

end LibDvm.Fat
