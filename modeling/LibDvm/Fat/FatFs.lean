import LibDvm.Fat.Model

/-! # FatFs as documented

What the documentation of FatFs promises of the calls the driver makes, over an abstract
view of an open file and of a volume. Any call may fail; it then has no effect. A FatFs
that works in memory keeps all of it.
-/

namespace LibDvm.Fat

/-! ## An open file -/

/-- An open file: its bytes, the pointer, and the length it can reach before the volume
is full. -/
structure FatFile where
  data : List UInt8
  pos : Nat
  writable : Bool
  room : Nat
  pos_le : pos ≤ data.length
  data_le : data.length ≤ room
  room_lt : room < 2 ^ 64

namespace FatFile

def moveTo (f : FatFile) (pos : Nat) (h : pos ≤ f.data.length) : FatFile :=
  { f with pos := pos, pos_le := h }

/-- `now` is `was` after a seek to `ofs`: within the file the pointer moves there, past its
end it stops at the end of a read-only file, and extends a writable one as far as the
volume has room. -/
structure Sought (was now : FatFile) (ofs : Nat) : Prop where
  writable : now.writable = was.writable
  kept : was.data <+: now.data
  within : ofs ≤ was.data.length → now.pos = ofs ∧ now.data = was.data
  clipped : was.data.length < ofs → was.writable = false →
    now.pos = was.data.length ∧ now.data = was.data
  extended : was.data.length < ofs → was.writable = true →
    now.pos = min ofs was.room ∧ now.data.length = now.pos

/-- `now` is `was` cut at its pointer. -/
structure Cut (was now : FatFile) : Prop where
  allowed : was.writable = true
  data : now.data = was.data.take was.pos
  pos : now.pos = was.pos

/-- `now` is the empty file `was` after an allocation of `size` bytes. -/
structure Expanded (was now : FatFile) (size : Nat) : Prop where
  allowed : was.writable = true
  empty : was.data = []
  positive : 0 < size
  fits : size ≤ was.room
  length : now.data.length = size
  pos : now.pos = was.pos
  writable : now.writable = was.writable

end FatFile

/-- The documented behaviour of the calls on an open file, as seen through `view`. -/
structure FileCalls.Documented {φ : Type} (fatfs : FileCalls φ) (view : φ → FatFile) :
    Prop where
  tell : ∀ fp, fatfs.fTell fp = (view fp).pos
  size : ∀ fp, fatfs.fSize fp = (view fp).data.length
  lseek : ∀ fp ofs, (fatfs.fLseek fp ofs).2 = .ok →
    (view fp).Sought (view (fatfs.fLseek fp ofs).1) ofs
  lseek_fails : ∀ fp ofs, (fatfs.fLseek fp ofs).2 ≠ .ok → view (fatfs.fLseek fp ofs).1 = view fp
  truncate : ∀ fp, (fatfs.fTruncate fp).2 = .ok → (view fp).Cut (view (fatfs.fTruncate fp).1)
  truncate_fails : ∀ fp, (fatfs.fTruncate fp).2 ≠ .ok → view (fatfs.fTruncate fp).1 = view fp
  truncate_denied : ∀ fp, (view fp).writable = false → (fatfs.fTruncate fp).2 = .denied
  expand : ∀ fp size, (fatfs.fExpand fp size).2 = .ok →
    (view fp).Expanded (view (fatfs.fExpand fp size).1) size
  expand_fails : ∀ fp size, (fatfs.fExpand fp size).2 ≠ .ok →
    view (fatfs.fExpand fp size).1 = view fp

/-! ## A FatFs in memory -/

namespace FatFile

def extend (f : FatFile) (length : Nat) (hle : f.data.length ≤ length) (hroom : length ≤ f.room) :
    FatFile where
  data := f.data ++ List.replicate (length - f.data.length) 0
  pos := length
  writable := f.writable
  room := f.room
  pos_le := by
    simp only [List.length_append, List.length_replicate]
    omega
  data_le := by
    simp only [List.length_append, List.length_replicate]
    omega
  room_lt := f.room_lt

def lseek (f : FatFile) (ofs : Nat) : FatFile × FResult :=
  if h : ofs ≤ f.data.length then (f.moveTo ofs h, .ok)
  else if f.writable then
    (f.extend (min ofs f.room) (by have := f.data_le; omega) (Nat.min_le_right _ _), .ok)
  else (f.moveTo f.data.length (Nat.le_refl _), .ok)

def truncate (f : FatFile) : FatFile × FResult :=
  if f.writable then
    ({ f with
      data := f.data.take f.pos
      pos_le := by have := f.pos_le; simp [this]
      data_le := by have := f.data_le; simp only [List.length_take]; omega }, .ok)
  else (f, .denied)

def expand (f : FatFile) (size : Nat) : FatFile × FResult :=
  if h : f.writable = true ∧ f.data = [] ∧ 0 < size ∧ size ≤ f.room then
    ({ f with
      data := List.replicate size 0
      pos_le := by have := f.pos_le; simp only [h.2.1, List.length_nil] at this; omega
      data_le := by simp only [List.length_replicate]; exact h.2.2.2 }, .ok)
  else (f, .denied)

end FatFile

def memoryCalls : FileCalls FatFile where
  fTell f := f.pos
  fSize f := f.data.length
  fLseek := FatFile.lseek
  fTruncate := FatFile.truncate
  fExpand := FatFile.expand

theorem FatFile.lseek_sought (f : FatFile) (ofs : Nat) : f.Sought (f.lseek ofs).1 ofs := by
  unfold FatFile.lseek
  split
  · next hle =>
      exact ⟨rfl, List.prefix_rfl, fun _ => ⟨rfl, rfl⟩, fun hlt => absurd hle (by omega),
        fun hlt => absurd hle (by omega)⟩
  · next hgt =>
      cases hw : f.writable with
      | true =>
          rw [if_pos rfl]
          refine ⟨rfl, List.prefix_append _ _, fun hle => absurd hle hgt,
            fun _ hro => absurd hro (by simp [hw]), fun _ _ => ⟨rfl, ?_⟩⟩
          have := f.data_le
          simp only [FatFile.extend, List.length_append, List.length_replicate]
          omega
      | false =>
          rw [if_neg (by simp)]
          exact ⟨rfl, List.prefix_rfl, fun hle => absurd hle hgt, fun _ _ => ⟨rfl, rfl⟩,
            fun _ hrw => absurd hrw (by simp [hw])⟩

theorem memoryCalls_documented : memoryCalls.Documented id where
  tell _ := rfl
  size _ := rfl
  lseek f ofs _ := f.lseek_sought ofs
  lseek_fails f ofs h := by
    refine absurd ?_ h
    simp only [memoryCalls, FatFile.lseek]
    split
    · rfl
    · split <;> rfl
  truncate f h := by
    cases hw : f.writable with
    | true =>
        simp only [memoryCalls, FatFile.truncate, hw, if_true]
        exact ⟨hw, rfl, rfl⟩
    | false => simp [memoryCalls, FatFile.truncate, hw] at h
  truncate_fails f h := by
    cases hw : f.writable with
    | true => simp [memoryCalls, FatFile.truncate, hw] at h
    | false => simp [memoryCalls, FatFile.truncate, hw]
  truncate_denied f h := by
    simp only [id_eq] at h
    simp [memoryCalls, FatFile.truncate, h]
  expand f size h := by
    simp only [memoryCalls, FatFile.expand] at h ⊢
    split at h
    · next hall =>
        obtain ⟨hw, hempty, hpos, hroom⟩ := hall
        rw [dif_pos ⟨hw, hempty, hpos, hroom⟩]
        exact ⟨hw, hempty, hpos, hroom, by simp, rfl, rfl⟩
    · cases h
  expand_fails f size h := by
    simp only [memoryCalls, FatFile.expand] at h ⊢
    split at h
    · exact absurd rfl h
    · next hnot => rw [dif_neg hnot]

end LibDvm.Fat
