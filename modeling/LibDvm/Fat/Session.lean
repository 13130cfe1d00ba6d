import LibDvm.Fat.Attributes
import LibDvm.Fat.Truncate
import LibDvm.Lib.Explained
import LibDvm.Lib.Known

/-! # An open file

The calls on one open file of a FAT volume, in any order, run on a FatFs that takes down its
results. A call fails with a result of FatFs, or because it is refused before FatFs is asked.
Otherwise every history is one of a plain file of bytes, some of which are unspecified: a
seek or a truncation past the end makes room without filling it. The contents of a file are
unknown once FatFs has failed to read, write, cut or sync it.
-/

namespace LibDvm.Fat

open Known

/-! ## The calls -/

/-- What the driver calls on an open file, and the fields of it that it reads. -/
structure DataCalls (φ : Type) extends FileCalls φ where
  /-- The bytes read come first. -/
  fRead : φ → (len : Nat) → φ × List UInt8 × FResult
  /-- The number of bytes written comes first. -/
  fWrite : φ → List UInt8 → φ × Nat × FResult
  fSync : φ → φ × FResult
  sclust : φ → Nat
  flag : φ → Nat

/-- Conversion of a `UINT` to `ssize_t`. -/
def toSsize (n : Nat) : Int := if n < 2 ^ 31 then n else n - 2 ^ 32

section Calls

variable {φ : Type} (fatfs : DataCalls φ)

/-- `_FAT_read_r`: the count returned and the bytes read. -/
def readFile (fp : φ) (len : Nat) : φ × Except Errno (Int × List UInt8) :=
  let r := fatfs.fRead fp len
  (r.1, setErrno r.2.2 (toSsize r.2.1.length, r.2.1))

/-- `_FAT_write_r`. -/
def writeFile (fp : φ) (buf : List UInt8) : φ × Except Errno Int :=
  let r := fatfs.fWrite fp buf
  (r.1, setErrno r.2.2 (toSsize r.2.1))

/-- `_FAT_fsync_r`. -/
def fsync (fp : φ) : φ × Except Errno Unit :=
  let r := fatfs.fSync fp
  (r.1, setErrno r.2 ())

/-- `_FAT_fstat_r` on an open file. -/
def fstatFile (vol : VolumeInfo) (fp : φ) : Stat :=
  fstat vol ⟨fatfs.sclust fp, fatfs.flag fp, fatfs.fSize fp⟩

end Calls

/-! ## The file as a machine -/

inductive FileCall where
  | read (len : Nat)
  | write (buf : List UInt8)
  | seek (offset : Int) (whence : Whence)
  | ftruncate (size : Int)
  | fsync
  | fstat

inductive FileReply where
  | bytes (ret : Except Errno (Int × List UInt8))
  | number (ret : Except Errno Int)
  | done (ret : Except Errno Unit)
  | attributes (st : Stat)

def fileCall {φ : Type} (fatfs : DataCalls φ) (vol : VolumeInfo) (fp : φ) :
    FileCall → φ × FileReply
  | .read len =>
      let r := readFile fatfs fp len
      (r.1, .bytes r.2)
  | .write buf =>
      let r := writeFile fatfs fp buf
      (r.1, .number r.2)
  | .seek offset whence =>
      let r := seek fatfs.toFileCalls fp offset whence
      (r.1, .number r.2)
  | .ftruncate size =>
      let r := ftruncate fatfs.toFileCalls fp size
      (r.1, .done r.2)
  | .fsync =>
      let r := fsync fatfs fp
      (r.1, .done r.2)
  | .fstat => (fp, .attributes (fstatFile fatfs vol fp))

def openedFile {φ : Type} (fatfs : DataCalls φ) (vol : VolumeInfo) :
    Machine φ FileCall FileReply := ⟨fileCall fatfs vol⟩

/-! ## What FatFs says on the way -/

/-- A FatFs that takes down its results. The driver drops the one of `f_expand`. -/
def DataCalls.recorded {φ : Type} (fatfs : DataCalls φ) : DataCalls (φ × List FResult) where
  fTell fp := fatfs.fTell fp.1
  fSize fp := fatfs.fSize fp.1
  fLseek fp ofs :=
    let r := fatfs.fLseek fp.1 ofs
    ((r.1, fp.2 ++ [r.2]), r.2)
  fTruncate fp :=
    let r := fatfs.fTruncate fp.1
    ((r.1, fp.2 ++ [r.2]), r.2)
  fExpand fp size :=
    let r := fatfs.fExpand fp.1 size
    ((r.1, fp.2), r.2)
  fRead fp len :=
    let r := fatfs.fRead fp.1 len
    ((r.1, fp.2 ++ [r.2.2]), r.2)
  fWrite fp buf :=
    let r := fatfs.fWrite fp.1 buf
    ((r.1, fp.2 ++ [r.2.2]), r.2)
  fSync fp :=
    let r := fatfs.fSync fp.1
    ((r.1, fp.2 ++ [r.2]), r.2)
  sclust fp := fatfs.sclust fp.1
  flag fp := fatfs.flag fp.1

def recordedFile {φ : Type} (fatfs : DataCalls φ) (vol : VolumeInfo) :
    Machine φ FileCall (FileReply × List FResult) where
  step fp call :=
    let r := fileCall fatfs.recorded vol (fp, []) call
    (r.1.1, r.2, r.1.2)

def failure (results : List FResult) : Option FResult := results.find? (· ≠ .ok)

/-! ## A file of bytes -/

structure ByteFile where
  known : List (Option UInt8)
  pos : Nat

namespace ByteFile

def target (f : ByteFile) (offset : Int) : Whence → Option Int
  | .set => some offset
  | .cur => some (f.pos + offset)
  | .end => some (f.known.length + offset)
  | .other => none

def moveTo (f : ByteFile) (pos : Nat) : ByteFile :=
  if pos ≤ f.known.length then { f with pos := pos } else ⟨resize pos f.known, pos⟩

def write (f : ByteFile) (buf : List UInt8) : ByteFile :=
  ⟨overwrite f.pos buf f.known, f.pos + buf.length⟩

def truncate (f : ByteFile) (size : Nat) : ByteFile := ⟨resize size f.known, min f.pos size⟩

end ByteFile

/-- The attributes of a file of `size` bytes. -/
def FileStat (vol : VolumeInfo) (writable : Bool) (size : Nat) (st : Stat) : Prop :=
  st.size = size ∧ st.mode = (if writable then 0o100666 else 0o100444) ∧
    st.blocks = clusterBlocks vol size

instance (vol : VolumeInfo) (writable : Bool) (size : Nat) (st : Stat) :
    Decidable (FileStat vol writable size st) :=
  inferInstanceAs (Decidable (_ ∧ _ ∧ _))

/-- A call on a file of bytes that meets no failure: the answers it may have, and the file
afterwards. -/
def byteFileServed (vol : VolumeInfo) (writable : Bool) (f : ByteFile) :
    FileCall → FileReply → Option ByteFile
  | .read len, .bytes (.ok (count, bytes)) =>
      if count = bytes.length ∧ Agrees (slice f.pos len f.known) bytes then
        some { f with pos := f.pos + bytes.length }
      else none
  | .write buf, .number (.ok count) =>
      if writable ∧ 0 ≤ count ∧ count ≤ buf.length then some (f.write (buf.take count.toNat))
      else none
  | .seek offset whence, .number (.ok pos) =>
      if f.target offset whence = some pos ∧ 0 ≤ pos ∧ (writable ∨ pos ≤ f.known.length) then
        some (f.moveTo pos.toNat)
      else none
  | .seek offset whence, .number (.error e) =>
      if e = .einval ∧ ∀ pos ∈ f.target offset whence, pos < 0 then some f else none
  | .ftruncate size, .done (.ok _) =>
      if writable ∧ 0 ≤ size then some (f.truncate size.toNat) else none
  | .ftruncate size, .done (.error e) => if e = .einval ∧ size < 0 then some f else none
  | .fsync, .done (.ok _) => some f
  | .fstat, .attributes st => if FileStat vol writable f.known.length st then some f else none
  | _, _ => none

def byteFileFailed (writable : Bool) (f : ByteFile) : FileCall → Option ByteFile
  | .seek _ _ => some f
  | .write _ => if writable then none else some f
  | _ => none

def FileReply.error : FileReply → Option Errno
  | .bytes (.error e) => some e
  | .number (.error e) => some e
  | .done (.error e) => some e
  | _ => none

def FileCall.refusable : FileCall → Bool
  | .seek _ _ => true
  | .ftruncate size => size < 0
  | _ => false

/-- From what is known of the file, `none` once nothing is, to what is known after a call. -/
def byteFileNext (vol : VolumeInfo) (writable : Bool) (known : Option ByteFile) (call : FileCall)
    (answer : FileReply × List FResult) : Option (Option ByteFile) :=
  match failure answer.2, known with
  | some fr, _ =>
      if answer.1.error = frToErrno fr then some (known.bind (byteFileFailed writable · call))
      else none
  | none, none =>
      if answer.1.error = none ∨ call.refusable = true ∧ answer.1.error = some .einval then
        some none
      else none
  | none, some f => (byteFileServed vol writable f call answer.1).map some

def byteFile (vol : VolumeInfo) (writable : Bool) :
    Spec (Option ByteFile) FileCall (FileReply × List FResult) :=
  ⟨byteFileNext vol writable⟩

/-! ## FatFs as documented -/

namespace FatFile

/-- `now` is `was` once `bytes` have been read. -/
structure ReadOut (was now : FatFile) (len : Nat) (bytes : List UInt8) : Prop where
  got : bytes = (was.data.drop was.pos).take len
  data : now.data = was.data
  pos : now.pos = was.pos + bytes.length
  writable : now.writable = was.writable

/-- `now` is `was` once `buf` has been written. -/
structure Written (was now : FatFile) (buf : List UInt8) : Prop where
  allowed : was.writable = true
  data : now.data = was.data.take was.pos ++ buf ++ was.data.drop (was.pos + buf.length)
  pos : now.pos = was.pos + buf.length
  writable : now.writable = true

end FatFile

/-- The documented behaviour of the calls on an open file, as seen through `view`. A volume
that is full cuts a write short. -/
structure DataCalls.Documented {φ : Type} (fatfs : DataCalls φ) (view : φ → FatFile) : Prop
    extends FileCalls.Documented fatfs.toFileCalls view where
  truncate_mode : ∀ fp, (view (fatfs.fTruncate fp).1).writable = (view fp).writable
  read : ∀ fp len, (fatfs.fRead fp len).2.2 = .ok →
    (view fp).ReadOut (view (fatfs.fRead fp len).1) len (fatfs.fRead fp len).2.1
  write : ∀ fp buf, (fatfs.fWrite fp buf).2.2 = .ok →
    (fatfs.fWrite fp buf).2.1 ≤ buf.length ∧
      (view fp).Written (view (fatfs.fWrite fp buf).1) (buf.take (fatfs.fWrite fp buf).2.1)
  write_denied : ∀ fp buf, (view fp).writable = false → view (fatfs.fWrite fp buf).1 = view fp
  sync : ∀ fp, (fatfs.fSync fp).2 = .ok → view (fatfs.fSync fp).1 = view fp
  flag : ∀ fp, fatfs.flag fp &&& faWrite ≠ 0 ↔ (view fp).writable = true
  sclust : ∀ fp, fatfs.sclust fp = 0 → (view fp).data = []

/-! ## Following the file -/

section Follows

variable {φ : Type} {fatfs : DataCalls φ} {view : φ → FatFile} {vol : VolumeInfo}
  {writable : Bool} {fp : φ} {f : ByteFile}

structure Knows (view : φ → FatFile) (writable : Bool) (fp : φ) (f : ByteFile) : Prop where
  known : Agrees f.known (view fp).data
  pos : f.pos = (view fp).pos
  writable : (view fp).writable = writable

def Tracks (view : φ → FatFile) (writable : Bool) (fp : φ) (known : Option ByteFile) : Prop :=
  ∀ f ∈ known, Knows view writable fp f

theorem tracks_none : Tracks view writable fp none := fun _ hf => nomatch hf

theorem Knows.tracks (h : Knows view writable fp f) : Tracks view writable fp (some f) := by
  rintro g hg
  cases hg
  exact h

/-- What a call must not go beyond: positions within the file, or within the room of a
writable one, and numbers within their types. -/
def Fits (fatfs : DataCalls φ) (view : φ → FatFile) (fp : φ) : FileCall → Prop
  | .read len => len < 2 ^ 31
  | .write buf => buf.length < 2 ^ 31
  | .seek offset whence => -2 ^ 63 ≤ offset ∧
      ∀ base ∈ seekBase fatfs.toFileCalls fp whence, 0 ≤ base + offset →
        base + offset < 2 ^ 63 ∧ (base + offset ≤ (view fp).data.length ∨
          (view fp).writable = true ∧ base + offset ≤ (view fp).room)
  | .ftruncate size => size < 2 ^ 63 ∧ size.toNat ≤ (view fp).room
  | .fsync => True
  | .fstat => (view fp).data.length < 2 ^ 62

instance (fatfs : DataCalls φ) (view : φ → FatFile) (fp : φ) :
    (call : FileCall) → Decidable (Fits fatfs view fp call)
  | .read len => inferInstanceAs (Decidable (len < 2 ^ 31))
  | .write buf => inferInstanceAs (Decidable (buf.length < 2 ^ 31))
  | .seek offset whence => inferInstanceAs (Decidable (-2 ^ 63 ≤ offset ∧
      ∀ base ∈ seekBase fatfs.toFileCalls fp whence, 0 ≤ base + offset →
        base + offset < 2 ^ 63 ∧ (base + offset ≤ (view fp).data.length ∨
          (view fp).writable = true ∧ base + offset ≤ (view fp).room)))
  | .ftruncate size => inferInstanceAs (Decidable (size < 2 ^ 63 ∧ size.toNat ≤ (view fp).room))
  | .fsync => inferInstanceAs (Decidable True)
  | .fstat => inferInstanceAs (Decidable ((view fp).data.length < 2 ^ 62))

theorem toSsize_of_lt {n : Nat} (h : n < 2 ^ 31) : toSsize n = n := if_pos h

/-! ### Results taken down -/

/-- Among the results `fr` is the first failure, if it is one, and else there is none. -/
def EndsIn (results : List FResult) (fr : FResult) : Prop :=
  failure results = if fr = .ok then none else some fr

theorem EndsIn.concat {results : List FResult} (h : EndsIn results .ok) (fr : FResult) :
    EndsIn (results ++ [fr]) fr := by
  have hnone : results.find? (· ≠ .ok) = none := h
  unfold EndsIn failure
  rw [List.find?_append, hnone]
  by_cases hok : fr = .ok <;> simp [hok]

theorem endsIn_nil : EndsIn [] .ok := rfl

theorem endsIn_single (fr : FResult) : EndsIn [fr] fr := endsIn_nil.concat fr

/-- A step of the driver on the FatFs that takes down its results, and the plain one. -/
structure Noted (r : (φ × List FResult) × FResult) (plain : φ × FResult) : Prop where
  state : r.1.1 = plain.1
  result : r.2 = plain.2
  ends : EndsIn r.1.2 plain.2

theorem noted_lseek (fatfs : DataCalls φ) {results : List FResult} (h : EndsIn results .ok)
    (fp : φ) (ofs : Nat) (p : Prop) [Decidable p] :
    Noted (if p then fatfs.recorded.fLseek (fp, results) ofs else ((fp, results), .ok))
      (if p then fatfs.fLseek fp ofs else (fp, .ok)) := by
  split
  · exact ⟨rfl, rfl, h.concat _⟩
  · exact ⟨rfl, rfl, h⟩

theorem noted_cutAt (fatfs : DataCalls φ) {results : List FResult} (h : EndsIn results .ok)
    (fp : φ) (size : Nat) :
    Noted (cutAt fatfs.recorded.toFileCalls (fp, results) size)
      (cutAt fatfs.toFileCalls fp size) := by
  have hseek := noted_lseek fatfs h fp size (fatfs.fTell fp ≠ size)
  change Noted (let r := if fatfs.fTell fp ≠ size then _ else _
    if r.2 = .ok then fatfs.recorded.fTruncate r.1 else r) (let r := if _ then _ else _
    if r.2 = .ok then fatfs.fTruncate r.1 else r)
  generalize (if fatfs.fTell fp ≠ size then fatfs.recorded.fLseek (fp, results) size
    else ((fp, results), .ok)) = r at hseek ⊢
  generalize (if fatfs.fTell fp ≠ size then fatfs.fLseek fp size else (fp, .ok)) = plain
    at hseek ⊢
  obtain ⟨⟨now, results'⟩, fr⟩ := r
  obtain ⟨rfl, rfl, hends⟩ := hseek
  dsimp only at hends ⊢
  by_cases hok : plain.2 = .ok
  · rw [if_pos hok, if_pos hok]
    rw [hok] at hends
    exact ⟨rfl, rfl, hends.concat _⟩
  · rw [if_neg hok, if_neg hok]
    exact ⟨rfl, rfl, hends⟩

theorem noted_ftruncate (fatfs : DataCalls φ) (fp : φ) {size : Int} (hsize : 0 ≤ size) :
    ∃ r plain, Noted r plain ∧
      ftruncate fatfs.recorded.toFileCalls (fp, []) size = (r.1, setErrno r.2 ()) ∧
      ftruncate fatfs.toFileCalls fp size = (plain.1, setErrno plain.2 ()) := by
  have hcut := noted_cutAt fatfs endsIn_nil (fatfs.fExpand fp (fsize size)).1 (fsize size)
  have htell : fatfs.recorded.fTell ((fatfs.fExpand fp (fsize size)).1, []) =
      fatfs.fTell (fatfs.fExpand fp (fsize size)).1 := rfl
  let backup := if fatfs.fTell (fatfs.fExpand fp (fsize size)).1 > fsize size then fsize size
    else fatfs.fTell (fatfs.fExpand fp (fsize size)).1
  have hr : ftruncateCut fatfs.recorded.toFileCalls (fp, []) size =
      let r := cutAt fatfs.recorded.toFileCalls ((fatfs.fExpand fp (fsize size)).1, [])
        (fsize size)
      (r.1, r.2, backup) := if_pos hsize
  have hp : ftruncateCut fatfs.toFileCalls fp size =
      let r := cutAt fatfs.toFileCalls (fatfs.fExpand fp (fsize size)).1 (fsize size)
      (r.1, r.2, backup) := if_pos hsize
  unfold ftruncate
  rw [hr, hp]
  generalize backup = n
  generalize cutAt fatfs.recorded.toFileCalls ((fatfs.fExpand fp (fsize size)).1, [])
    (fsize size) = r at hcut ⊢
  generalize cutAt fatfs.toFileCalls (fatfs.fExpand fp (fsize size)).1 (fsize size) = plain
    at hcut ⊢
  obtain ⟨⟨now, results⟩, fr⟩ := r
  obtain ⟨now', fr'⟩ := plain
  obtain ⟨rfl, rfl, hends⟩ := hcut
  refine ⟨_, _, ?_, rfl, rfl⟩
  dsimp only at hends ⊢
  by_cases hok : fr = .ok
  · subst hok
    exact noted_lseek fatfs hends now n (FResult.ok = .ok ∧ fatfs.fTell now ≠ n)
  · rw [if_neg fun h => hok h.1, if_neg fun h => hok h.1]
    exact ⟨rfl, rfl, hends⟩

def Refuses (fatfs : FileCalls φ) (fp : φ) : FileCall → Prop
  | .seek offset whence =>
      ∀ pos ∈ seekBase fatfs fp whence, ¬ (offset ≥ 0 ∨ pos ≥ fsize (-offset))
  | .ftruncate size => size < 0
  | _ => False

theorem error_bytes (fr : FResult) (ret : Int × List UInt8) :
    (FileReply.bytes (setErrno fr ret)).error = frToErrno fr := by
  cases fr <;> rfl

theorem error_number (fr : FResult) (ret : Int) :
    (FileReply.number (setErrno fr ret)).error = frToErrno fr := by
  cases fr <;> rfl

theorem error_done (fr : FResult) : (FileReply.done (setErrno fr ())).error = frToErrno fr := by
  cases fr <;> rfl

theorem frToErrno_none {fr : FResult} : frToErrno fr = none ↔ fr = .ok := by
  cases fr <;> simp [frToErrno]

structure EndsOrRefused (fatfs : DataCalls φ) (vol : VolumeInfo) (fp : φ) (call : FileCall)
    (r : φ × FileReply × List FResult) : Prop where
  same : (openedFile fatfs vol).step fp call = (r.1, r.2.1)
  ends : (∃ fr, EndsIn r.2.2 fr ∧ r.2.1.error = frToErrno fr) ∨
    Refuses fatfs.toFileCalls fp call ∧ r.2.2 = [] ∧ r.2.1.error = some .einval

theorem seek_ends (fp : φ) (offset : Int) (whence : Whence) :
    EndsOrRefused fatfs vol fp (.seek offset whence)
      ((recordedFile fatfs vol).step fp (.seek offset whence)) := by
  have hbase : seekBase fatfs.recorded.toFileCalls (fp, []) whence =
      seekBase fatfs.toFileCalls fp whence := by
    cases whence <;> rfl
  have hstep : (recordedFile fatfs vol).step fp (.seek offset whence) =
      let r := seek fatfs.recorded.toFileCalls (fp, []) offset whence
      (r.1.1, .number r.2, r.1.2) := rfl
  have hplain : (openedFile fatfs vol).step fp (.seek offset whence) =
      let r := seek fatfs.toFileCalls fp offset whence
      (r.1, .number r.2) := rfl
  rw [hstep]
  cases hfrom : seekBase fatfs.toFileCalls fp whence with
  | none =>
      have hr : seek fatfs.recorded.toFileCalls (fp, []) offset whence =
          ((fp, []), .error .einval) := by
        simp only [seek, hbase, hfrom]
      have hp : seek fatfs.toFileCalls fp offset whence = (fp, .error .einval) := by
        simp only [seek, hfrom]
      rw [hr]
      refine ⟨by rw [hplain, hp], .inr ⟨?_, rfl, rfl⟩⟩
      intro pos hpos
      rw [hfrom] at hpos
      cases hpos
  | some pos =>
      by_cases hgo : offset ≥ 0 ∨ pos ≥ fsize (-offset)
      · have hr : seek fatfs.recorded.toFileCalls (fp, []) offset whence =
            let r := if fsize (pos + offset) ≠ fatfs.fTell fp then
              fatfs.recorded.fLseek (fp, []) (fsize (pos + offset)) else ((fp, []), .ok)
            (r.1, setErrno r.2 (toOff (fsize (pos + offset)))) := by
          simp only [seek, hbase, hfrom, if_pos hgo]
          rfl
        have hp : seek fatfs.toFileCalls fp offset whence =
            let r := if fsize (pos + offset) ≠ fatfs.fTell fp then
              fatfs.fLseek fp (fsize (pos + offset)) else (fp, .ok)
            (r.1, setErrno r.2 (toOff (fsize (pos + offset)))) := by
          simp only [seek, hfrom, if_pos hgo]
        obtain ⟨hstate, hresult, hends⟩ := noted_lseek fatfs endsIn_nil fp
          (fsize (pos + offset)) (fsize (pos + offset) ≠ fatfs.fTell fp)
        rw [hr]
        refine ⟨?_, .inl ⟨_, hends, ?_⟩⟩
        · rw [hplain, hp]
          dsimp only
          rw [hstate, hresult]
        · rw [← hresult]
          exact error_number _ _
      · have hr : seek fatfs.recorded.toFileCalls (fp, []) offset whence =
            ((fp, []), .error .einval) := by
          simp only [seek, hbase, hfrom, if_neg hgo]
          rfl
        have hp : seek fatfs.toFileCalls fp offset whence = (fp, .error .einval) := by
          simp only [seek, hfrom, if_neg hgo]
          rfl
        rw [hr]
        refine ⟨by rw [hplain, hp], .inr ⟨?_, rfl, rfl⟩⟩
        intro base hmem
        rw [hfrom] at hmem
        cases hmem
        exact hgo

theorem recordedFile_ends (fatfs : DataCalls φ) (vol : VolumeInfo) (fp : φ) (call : FileCall) :
    EndsOrRefused fatfs vol fp call ((recordedFile fatfs vol).step fp call) := by
  cases call with
  | read len => exact ⟨rfl, .inl ⟨_, endsIn_single _, error_bytes _ _⟩⟩
  | write buf => exact ⟨rfl, .inl ⟨_, endsIn_single _, error_number _ _⟩⟩
  | seek offset whence => exact seek_ends fp offset whence
  | ftruncate size =>
      have hstep : (recordedFile fatfs vol).step fp (.ftruncate size) =
          let r := ftruncate fatfs.recorded.toFileCalls (fp, []) size
          (r.1.1, .done r.2, r.1.2) := rfl
      have hplain : (openedFile fatfs vol).step fp (.ftruncate size) =
          let r := ftruncate fatfs.toFileCalls fp size
          (r.1, .done r.2) := rfl
      rw [hstep]
      by_cases hsize : 0 ≤ size
      · obtain ⟨r, plain, ⟨hstate, hresult, hends⟩, hr, hp⟩ :=
          noted_ftruncate fatfs fp hsize
        rw [hr]
        refine ⟨by rw [hplain, hp, ← hstate, ← hresult], .inl ⟨_, hends, ?_⟩⟩
        rw [hresult]
        exact error_done _
      · have hcut (recorded : FileCalls (φ × List FResult)) :
            ftruncate recorded (fp, []) size = ((fp, []), .error .einval) := by
          simp [ftruncate, ftruncateCut, hsize, setErrno, frToErrno]
        have hp : ftruncate fatfs.toFileCalls fp size = (fp, .error .einval) := by
          simp [ftruncate, ftruncateCut, hsize, setErrno, frToErrno]
        rw [hcut]
        exact ⟨by rw [hplain, hp], .inr ⟨Int.not_le.mp hsize, rfl, rfl⟩⟩
  | fsync => exact ⟨rfl, .inl ⟨_, endsIn_single _, error_done _⟩⟩
  | fstat => exact ⟨rfl, .inl ⟨.ok, rfl, rfl⟩⟩

/-! ### One call -/

structure Keeps (fatfs : DataCalls φ) (view : φ → FatFile) (vol : VolumeInfo) (writable : Bool)
    (fp : φ) (f : ByteFile) (call : FileCall) : Prop where
  served : (fileCall fatfs vol fp call).2.error = none →
    ∃ f', byteFileServed vol writable f call (fileCall fatfs vol fp call).2 = some f' ∧
      Knows view writable (fileCall fatfs vol fp call).1 f'
  failed : (fileCall fatfs vol fp call).2.error ≠ none →
    Tracks view writable (fileCall fatfs vol fp call).1 (byteFileFailed writable f call)
  refused : Refuses fatfs.toFileCalls fp call →
    byteFileServed vol writable f call (fileCall fatfs vol fp call).2 = some f ∧
      Knows view writable (fileCall fatfs vol fp call).1 f

theorem Keeps.follows {call : FileCall} (hk : Keeps fatfs view vol writable fp f call) :
    (byteFile vol writable).Follows (Tracks view writable) (some f) call
      ((recordedFile fatfs vol).step fp call) := by
  obtain ⟨hsame, hends⟩ := recordedFile_ends fatfs vol fp call
  generalize (recordedFile fatfs vol).step fp call = r at hsame hends ⊢
  obtain ⟨now, reply, results⟩ := r
  have hcall : fileCall fatfs vol fp call = (now, reply) := hsame
  obtain ⟨hserved, hfailed, hrefused⟩ := hk
  rw [hcall] at hserved hfailed hrefused
  dsimp only at hends hserved hfailed hrefused
  rcases hends with ⟨fr, hends, herr⟩ | ⟨hrefuses, rfl, -⟩
  · by_cases hok : fr = .ok
    · have hnone : failure results = none := hends.trans (if_pos hok)
      obtain ⟨f', hnext, hknows⟩ := hserved (herr.trans (frToErrno_none.mpr hok))
      refine ⟨some f', ?_, hknows.tracks⟩
      simp only [byteFile, byteFileNext, hnone, hnext, Option.map_some]
    · have hsome : failure results = some fr := hends.trans (if_neg hok)
      refine ⟨byteFileFailed writable f call, ?_, hfailed fun h => ?_⟩
      · simp only [byteFile, byteFileNext, hsome, herr, if_true, Option.bind_some]
      · exact hok (frToErrno_none.mp (herr.symm.trans h))
  · obtain ⟨hnext, hknows⟩ := hrefused hrefuses
    refine ⟨some f, ?_, hknows.tracks⟩
    change (byteFileServed vol writable f call reply).map some = _
    rw [hnext, Option.map_some]

theorem unknown_follows (fp : φ) (call : FileCall) :
    (byteFile vol writable).Follows (Tracks view writable) none call
      ((recordedFile fatfs vol).step fp call) := by
  obtain ⟨-, hends⟩ := recordedFile_ends fatfs vol fp call
  generalize (recordedFile fatfs vol).step fp call = r at hends ⊢
  obtain ⟨now, reply, results⟩ := r
  dsimp only at hends
  refine ⟨none, ?_, tracks_none⟩
  rcases hends with ⟨fr, hends, herr⟩ | ⟨hrefuses, rfl, herr⟩
  · by_cases hok : fr = .ok
    · have hnone : failure results = none := hends.trans (if_pos hok)
      have hfree : reply.error = none := herr.trans (frToErrno_none.mpr hok)
      simp [byteFile, byteFileNext, hnone, hfree]
    · have hsome : failure results = some fr := hends.trans (if_neg hok)
      simp [byteFile, byteFileNext, hsome, herr]
  · have hrefusable : call.refusable = true := by
      cases call with
      | seek offset whence => rfl
      | ftruncate size => exact decide_eq_true hrefuses
      | read len => exact hrefuses.elim
      | write buf => exact hrefuses.elim
      | fsync => exact hrefuses.elim
      | fstat => exact hrefuses.elim
    exact if_pos (Or.inr ⟨hrefusable, herr⟩)

theorem read_keeps (hdoc : fatfs.Documented view) (hf : Knows view writable fp f) {len : Nat}
    (hlen : len < 2 ^ 31) : Keeps fatfs view vol writable fp f (.read len) := by
  refine ⟨fun hfree => ?_, fun _ => tracks_none, False.elim⟩
  have hok : (fatfs.fRead fp len).2.2 = .ok :=
    frToErrno_none.mp ((error_bytes _ _).symm.trans hfree)
  have hread := hdoc.read fp len hok
  have hret : (fileCall fatfs vol fp (.read len)).2 =
      .bytes (.ok (toSsize (fatfs.fRead fp len).2.1.length, (fatfs.fRead fp len).2.1)) :=
    congrArg FileReply.bytes (setErrno_ok.mpr ⟨hok, rfl⟩)
  have hshort : (fatfs.fRead fp len).2.1.length ≤ len := by
    rw [hread.got]
    exact List.length_take_le _ _
  have hbytes : Agrees (slice f.pos len f.known) (fatfs.fRead fp len).2.1 := by
    rw [hread.got, hf.pos]
    exact hf.known.slice _ _
  rw [hret]
  refine ⟨{ f with pos := f.pos + (fatfs.fRead fp len).2.1.length },
    if_pos ⟨toSsize_of_lt (by omega), hbytes⟩, ?_, ?_, hread.writable.trans hf.writable⟩
  · exact hread.data ▸ hf.known
  · change f.pos + _ = (view (fatfs.fRead fp len).1).pos
    rw [hread.pos, hf.pos]

theorem write_keeps (hdoc : fatfs.Documented view) (hf : Knows view writable fp f)
    {buf : List UInt8} (hbuf : buf.length < 2 ^ 31) :
    Keeps fatfs view vol writable fp f (.write buf) := by
  refine ⟨fun hfree => ?_, fun _ => ?_, False.elim⟩
  · have hok : (fatfs.fWrite fp buf).2.2 = .ok :=
      frToErrno_none.mp ((error_number _ _).symm.trans hfree)
    obtain ⟨hshort, hwrite⟩ := hdoc.write fp buf hok
    have hret : (fileCall fatfs vol fp (.write buf)).2 =
        .number (.ok ((fatfs.fWrite fp buf).2.1 : Int)) := by
      rw [← toSsize_of_lt (show (fatfs.fWrite fp buf).2.1 < 2 ^ 31 by omega)]
      exact congrArg FileReply.number (setErrno_ok.mpr ⟨hok, rfl⟩)
    have hw : writable = true := hf.writable.symm.trans hwrite.allowed
    rw [hret]
    refine ⟨f.write (buf.take (fatfs.fWrite fp buf).2.1), if_pos ⟨hw, by omega, by omega⟩, ?_,
      ?_, hwrite.writable.trans hw.symm⟩
    · change Agrees _ (view (fatfs.fWrite fp buf).1).data
      rw [hwrite.data, ← hf.pos]
      exact hf.known.overwrite _ _
    · change f.pos + _ = (view (fatfs.fWrite fp buf).1).pos
      rw [hwrite.pos, hf.pos]
  · change Tracks view writable (fatfs.fWrite fp buf).1 (if writable then none else some f)
    cases hw : writable with
    | true => exact tracks_none
    | false =>
        have hkept := hdoc.write_denied fp buf (hf.writable.trans hw)
        subst hw
        exact Knows.tracks ⟨hkept ▸ hf.known, hkept ▸ hf.pos, hkept ▸ hf.writable⟩

theorem Knows.moveTo (hf : Knows view writable fp f) {now : φ} {ofs : Nat}
    (hs : (view fp).Sought (view now) ofs)
    (hfits : ofs ≤ (view fp).data.length ∨ (view fp).writable = true ∧ ofs ≤ (view fp).room) :
    Knows view writable now (f.moveTo ofs) := by
  have hpos : (view now).pos = ofs := hs.reaches_iff.mpr hfits
  have hlen := hf.known.length
  refine ⟨?_, ?_, hs.writable.trans hf.writable⟩
  · unfold ByteFile.moveTo
    split
    · next hle =>
        rw [(hs.within (by omega)).2]
        exact hf.known
    · next hgt =>
        have hw : (view fp).writable = true := (hfits.resolve_left (by omega)).1
        have hnow := (hs.extended (by omega) hw).2
        refine hf.known.resize (hnow.trans hpos) ?_
        obtain ⟨rest, hrest⟩ := hs.kept
        rw [← hrest, Nat.min_eq_left (by omega), List.take_left, List.take_length]
  · rw [hpos]
    unfold ByteFile.moveTo
    split <;> rfl

theorem target_eq (hdoc : fatfs.Documented view) (hf : Knows view writable fp f) (offset : Int)
    (whence : Whence) :
    f.target offset whence =
      (seekBase fatfs.toFileCalls fp whence).map fun base : Nat => (base : Int) + offset := by
  cases whence with
  | set => simp [ByteFile.target, seekBase]
  | cur => simp [ByteFile.target, seekBase, hdoc.tell, hf.pos]
  | «end» => simp [ByteFile.target, seekBase, hdoc.size, hf.known.length]
  | other => rfl

theorem refuses_target (hdoc : fatfs.Documented view) (hf : Knows view writable fp f)
    {offset : Int} (whence : Whence) (hlow : -2 ^ 63 ≤ offset) :
    Refuses fatfs.toFileCalls fp (.seek offset whence) ↔
      ∀ pos ∈ f.target offset whence, pos < 0 := by
  rw [target_eq hdoc hf]
  change (∀ base ∈ seekBase fatfs.toFileCalls fp whence, _) ↔ _
  cases seekBase fatfs.toFileCalls fp whence with
  | none => simp
  | some base =>
      have hneg : 0 > offset → fsize (-offset) = (-offset).toNat :=
        fun _ => fsize_of_nonneg (by omega) (by omega)
      simp only [Option.mem_def, Option.map_some, Option.some.injEq, forall_eq']
      by_cases hoff : offset ≥ 0
      · constructor <;> intro h <;> omega
      · rw [hneg (by omega)]
        omega

theorem seek_keeps (hdoc : fatfs.Documented view) (hf : Knows view writable fp f) {offset : Int}
    {whence : Whence} (hfits : Fits fatfs view fp (.seek offset whence)) :
    Keeps fatfs view vol writable fp f (.seek offset whence) := by
  obtain ⟨hlow, hfits⟩ := hfits
  have htarget := target_eq hdoc hf offset whence
  have hrefuses := refuses_target hdoc hf whence hlow
  have hcall : fileCall fatfs vol fp (.seek offset whence) =
      ((seek fatfs.toFileCalls fp offset whence).1,
        .number (seek fatfs.toFileCalls fp offset whence).2) := rfl
  by_cases hrefused : Refuses fatfs.toFileCalls fp (.seek offset whence)
  · have hseek : seek fatfs.toFileCalls fp offset whence = (fp, .error .einval) := by
      unfold seek
      cases hbase : seekBase fatfs.toFileCalls fp whence with
      | none => rfl
      | some base =>
          dsimp only
          rw [if_neg (hrefused base hbase)]
          rfl
    rw [hseek] at hcall
    refine ⟨fun hfree => ?_, fun _ => ?_, fun _ => ?_⟩
    · rw [hcall] at hfree
      cases hfree
    · rw [hcall]
      exact hf.tracks
    · rw [hcall]
      exact ⟨if_pos ⟨rfl, hrefuses.mp hrefused⟩, hf⟩
  · obtain ⟨base, hbase, hnonneg⟩ : ∃ base, seekBase fatfs.toFileCalls fp whence = some base ∧
        0 ≤ (base : Int) + offset := by
      rw [hrefuses, htarget] at hrefused
      cases hbase : seekBase fatfs.toFileCalls fp whence with
      | none => simp [hbase] at hrefused
      | some base =>
          refine ⟨base, rfl, ?_⟩
          simpa [hbase] using hrefused
    obtain ⟨hoff, hreach⟩ := hfits base hbase hnonneg
    have hsize : fsize (base + offset) = (base + offset).toNat :=
      fsize_of_nonneg (by omega) (by omega)
    have hseek := seek_from hbase hlow hnonneg
    simp only [hsize] at hseek
    obtain ⟨hsought, hkept⟩ :=
      lseek_or_stay hdoc.toDocumented fp ((base : Int) + offset).toNat
    rw [hseek] at hcall
    generalize (if ((base : Int) + offset).toNat ≠ fatfs.fTell fp then _ else _ :
      φ × FResult) = r at hsought hkept hcall
    have herror : (fileCall fatfs vol fp (.seek offset whence)).2.error = frToErrno r.2 := by
      rw [hcall]
      exact error_number _ _
    refine ⟨fun hfree => ?_, fun herr => ?_, fun h => absurd h hrefused⟩
    · have hok : r.2 = .ok := frToErrno_none.mp (herror.symm.trans hfree)
      have hret : setErrno r.2 (toOff ((base : Int) + offset).toNat) =
          .ok ((base : Int) + offset) := by
        refine setErrno_ok.mpr ⟨hok, ?_⟩
        rw [toOff_of_lt (by omega)]
        omega
      have hinside : ((base : Int) + offset).toNat ≤ (view fp).data.length ∨
          (view fp).writable = true ∧ ((base : Int) + offset).toNat ≤ (view fp).room := by
        refine hreach.imp ?_ ?_
        · omega
        · exact fun h => ⟨h.1, by omega⟩
      rw [hcall, hret]
      refine ⟨_, if_pos ⟨?_, hnonneg, ?_⟩, hf.moveTo (hsought hok) hinside⟩
      · rw [htarget, hbase]
        rfl
      · rw [hf.known.length, ← hf.writable]
        exact hreach.symm.imp And.left id
    · have hsame := hkept fun hok => herr (herror.trans (frToErrno_none.mpr hok))
      rw [hcall]
      exact Knows.tracks ⟨hsame ▸ hf.known, hsame ▸ hf.pos, hsame ▸ hf.writable⟩

theorem lseek_mode (hdoc : fatfs.Documented view) (fp : φ) (ofs : Nat) :
    (view (fatfs.fLseek fp ofs).1).writable = (view fp).writable := by
  by_cases hok : (fatfs.fLseek fp ofs).2 = .ok
  · exact (hdoc.lseek fp ofs hok).writable
  · rw [hdoc.lseek_fails fp ofs hok]

theorem cutAt_mode (hdoc : fatfs.Documented view) (fp : φ) (n : Nat) :
    (view (cutAt fatfs.toFileCalls fp n).1).writable = (view fp).writable := by
  have hseek : (view (if fatfs.fTell fp ≠ n then fatfs.fLseek fp n else (fp, .ok)).1).writable =
      (view fp).writable := by
    split
    · exact lseek_mode hdoc fp n
    · rfl
  unfold cutAt
  generalize (if fatfs.fTell fp ≠ n then fatfs.fLseek fp n else (fp, .ok)) = r at hseek ⊢
  simp only
  split
  · rw [hdoc.truncate_mode, hseek]
  · exact hseek

theorem ftruncate_mode (hdoc : fatfs.Documented view) (fp : φ) (size : Int) :
    (view (ftruncate fatfs.toFileCalls fp size).1).writable = (view fp).writable := by
  have hcut : (view (ftruncateCut fatfs.toFileCalls fp size).1).writable =
      (view fp).writable := by
    unfold ftruncateCut
    split
    · simp only
      rw [cutAt_mode hdoc]
      cases fExpand_prepared hdoc.toDocumented fp (fsize size) with
      | unchanged _ heq => rw [heq]
      | allocated _ hexp => exact hexp.writable
    · rfl
  unfold ftruncate
  simp only
  split
  · rw [lseek_mode hdoc, hcut]
  · exact hcut

theorem ftruncate_allowed (hdoc : fatfs.Documented view) {size : Int} (hsize : 0 ≤ size)
    (hret : (ftruncate fatfs.toFileCalls fp size).2 = .ok ()) : (view fp).writable = true := by
  obtain ⟨mid, fr, sought, cut, hprep, hs, hc, -⟩ := ftruncate_ok hdoc.toDocumented hsize hret
  have hmid : mid.writable = true := hs.writable ▸ hc.allowed
  cases hprep with
  | unchanged _ heq => exact heq ▸ hmid
  | allocated _ hexp => exact hexp.allowed

theorem ftruncate_keeps (hdoc : fatfs.Documented view) (hf : Knows view writable fp f)
    {size : Int} (hfits : Fits fatfs view fp (.ftruncate size)) :
    Keeps fatfs view vol writable fp f (.ftruncate size) := by
  obtain ⟨hoff, hroom⟩ := hfits
  have hcall : fileCall fatfs vol fp (.ftruncate size) =
      ((ftruncate fatfs.toFileCalls fp size).1,
        .done (ftruncate fatfs.toFileCalls fp size).2) := rfl
  refine ⟨fun hfree => ?_, fun _ => tracks_none, fun hneg => ?_⟩
  · have hret : (ftruncate fatfs.toFileCalls fp size).2 = .ok () := by
      rw [hcall] at hfree
      cases hret : (ftruncate fatfs.toFileCalls fp size).2 with
      | ok done => rfl
      | error errno =>
          rw [hret] at hfree
          cases hfree
    have hsize : 0 ≤ size := by
      by_contra hneg
      simp [ftruncate, ftruncateCut_of_neg (Int.not_le.mp hneg), setErrno, frToErrno] at hret
    have hw := ftruncate_allowed hdoc hsize hret
    obtain ⟨mid, fr, sought, cut, hprep, hs, hc, hback⟩ :=
      ftruncate_ok hdoc.toDocumented hsize hret
    rw [fsize_of_nonneg hsize (by omega)] at hprep hs hback
    have htrunc := (hprep.truncated_iff hw hs hc hback).mpr hroom
    rw [hcall, hret]
    refine ⟨f.truncate size.toNat, if_pos ⟨hf.writable ▸ hw, hsize⟩, ?_, ?_, ?_⟩
    · exact hf.known.resize htrunc.length htrunc.kept
    · exact (congrArg (min · size.toNat) hf.pos).trans htrunc.pos.symm
    · exact (ftruncate_mode hdoc fp size).trans hf.writable
  · have hsize : size < 0 := hneg
    have hstay : ftruncate fatfs.toFileCalls fp size = (fp, .error .einval) := by
      simp [ftruncate, ftruncateCut_of_neg hsize, setErrno, frToErrno]
    rw [hcall, hstay]
    exact ⟨if_pos ⟨rfl, hsize⟩, hf⟩

theorem fsync_keeps (hdoc : fatfs.Documented view) (hf : Knows view writable fp f) :
    Keeps fatfs view vol writable fp f .fsync := by
  refine ⟨fun hfree => ?_, fun _ => tracks_none, False.elim⟩
  have hok : (fatfs.fSync fp).2 = .ok := frToErrno_none.mp ((error_done _).symm.trans hfree)
  have hret : (fileCall fatfs vol fp .fsync).2 = .done (.ok ()) :=
    congrArg FileReply.done (setErrno_ok.mpr ⟨hok, rfl⟩)
  have hsame := hdoc.sync fp hok
  rw [hret]
  exact ⟨f, rfl, hsame ▸ hf.known, hsame ▸ hf.pos, hsame ▸ hf.writable⟩

theorem fstatFile_shows (hdoc : fatfs.Documented view) (hvol : vol.Proper)
    (hf : Knows view writable fp f) (hlen : (view fp).data.length < 2 ^ 62) :
    FileStat vol writable f.known.length (fstatFile fatfs vol fp) := by
  have hsize : (fstatFile fatfs vol fp).size = f.known.length := by
    rw [hf.known.length]
    change (if fatfs.sclust fp ≠ 0 then toOff (fatfs.fSize fp) else 0) = _
    by_cases hclust : fatfs.sclust fp = 0
    · rw [if_neg (by simpa using hclust), hdoc.sclust fp hclust]
      rfl
    · rw [if_pos hclust, hdoc.size, toOff_of_lt (by omega)]
  refine ⟨hsize, ?_, ?_⟩
  · change (if fatfs.flag fp &&& faWrite ≠ 0 then _ else _ : Nat) = _
    cases hw : writable with
    | true =>
        rw [if_pos ((hdoc.flag fp).mpr (hf.writable.trans hw))]
        rfl
    | false =>
        have hro : ¬ fatfs.flag fp &&& faWrite ≠ 0 := by
          rw [hdoc.flag fp, hf.writable, hw]
          decide
        rw [if_neg hro]
        rfl
  · change stBlocks (fstatFile fatfs vol fp).size _ = _
    rw [hsize]
    exact stBlocks_eq hvol (by rw [hf.known.length]; exact hlen)

theorem fstat_keeps (hdoc : fatfs.Documented view) (hvol : vol.Proper)
    (hf : Knows view writable fp f) (hlen : (view fp).data.length < 2 ^ 62) :
    Keeps fatfs view vol writable fp f .fstat :=
  ⟨fun _ => ⟨f, if_pos (fstatFile_shows hdoc hvol hf hlen), hf⟩, fun herr => absurd rfl herr,
    False.elim⟩

/-- Step lemma: each call follows the file of bytes. -/
theorem fileCall_follows (hdoc : fatfs.Documented view) (hvol : vol.Proper)
    {known : Option ByteFile} (hf : Tracks view writable fp known) {call : FileCall}
    (hfits : Fits fatfs view fp call) :
    (byteFile vol writable).Follows (Tracks view writable) known call
      ((recordedFile fatfs vol).step fp call) := by
  cases known with
  | none => exact unknown_follows fp call
  | some f =>
      have hf : Knows view writable fp f := hf f rfl
      cases call with
      | read len => exact (read_keeps hdoc hf hfits).follows
      | write buf => exact (write_keeps hdoc hf hfits).follows
      | seek offset whence => exact (seek_keeps hdoc hf hfits).follows
      | ftruncate size => exact (ftruncate_keeps hdoc hf hfits).follows
      | fsync => exact (fsync_keeps hdoc hf).follows
      | fstat => exact (fstat_keeps hdoc hvol hf hfits).follows

end Follows

/-! ## A FatFs in memory -/

namespace FatFile

def write (f : FatFile) (buf : List UInt8) : FatFile × Nat × FResult :=
  if f.writable then
    let bw := min buf.length (f.room - f.pos)
    ({ f with
      data := f.data.take f.pos ++ buf.take bw ++ f.data.drop (f.pos + bw)
      pos := f.pos + bw
      pos_le := by
        have := f.pos_le
        simp only [List.length_append, List.length_take, List.length_drop]
        omega
      data_le := by
        have := f.pos_le
        have := f.data_le
        simp only [List.length_append, List.length_take, List.length_drop]
        omega }, bw, .ok)
  else (f, 0, .denied)

def read (f : FatFile) (len : Nat) : FatFile × List UInt8 × FResult :=
  let bytes := (f.data.drop f.pos).take len
  (f.moveTo (f.pos + bytes.length) (by
    have := f.pos_le
    simp only [bytes, List.length_take, List.length_drop]
    omega), bytes, .ok)

end FatFile

def memoryData : DataCalls FatFile where
  toFileCalls := memoryCalls
  fRead := FatFile.read
  fWrite := FatFile.write
  fSync f := (f, .ok)
  sclust f := if f.data = [] then 0 else 2
  flag f := if f.writable then faRead ||| faWrite else faRead

theorem FatFile.write_written (f : FatFile) (buf : List UInt8) (hok : (f.write buf).2.2 = .ok) :
    (f.write buf).2.1 ≤ buf.length ∧
      f.Written (f.write buf).1 (buf.take (f.write buf).2.1) := by
  cases hw : f.writable with
  | false =>
      rw [FatFile.write, if_neg (by simp [hw])] at hok
      cases hok
  | true =>
      have hlen : (buf.take (min buf.length (f.room - f.pos))).length =
          min buf.length (f.room - f.pos) := by
        rw [List.length_take]
        omega
      rw [FatFile.write, if_pos hw]
      refine ⟨Nat.min_le_left _ _, hw, ?_, ?_, hw⟩
      · rw [hlen]
      · rw [hlen]

theorem memoryData_documented : memoryData.Documented id where
  toDocumented := memoryCalls_documented
  truncate_mode f := by
    change (f.truncate).1.writable = f.writable
    unfold FatFile.truncate
    split <;> rfl
  read f len _ := ⟨rfl, rfl, rfl, rfl⟩
  write := FatFile.write_written
  write_denied f buf hro := by
    have hw : f.write buf = (f, 0, .denied) := if_neg (by simp [show f.writable = false from hro])
    exact congrArg Prod.fst hw
  sync _ _ := rfl
  flag f := by
    change (if f.writable then faRead ||| faWrite else faRead) &&& faWrite ≠ 0 ↔ f.writable = true
    cases f.writable <;> decide
  sclust f h := by
    change (if f.data = [] then 0 else 2) = 0 at h
    by_contra hne
    rw [if_neg (show f.data ≠ [] from hne)] at h
    cases h

def sampleInfo : VolumeInfo := ⟨1, 8, 512⟩

theorem sampleInfo_proper : sampleInfo.Proper := ⟨⟨12, by decide, by decide, by decide⟩⟩

end LibDvm.Fat
