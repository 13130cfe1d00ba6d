import LibDvm.NitroFs.Listing
import LibDvm.Lib.Machine

/-! # Reading and seeking

A descriptor opened on a regular file stays inside the file, whatever is read from it
and wherever it is sent. The clamp of a seek comes after an addition in 32 bits, so it
agrees with the exact one only as far as that addition does.
-/

namespace LibDvm.NitroFs

variable {ι : Type}

/-! ## What the ROM library delivers -/

/-- The library knows the size of file `id`, and a read inside the file that succeeds
delivers its bytes. -/
structure Serves (nr : NitroRom ι) (id : Nat) (content : List UInt8) : Prop where
  size : nr.getFileSize id = content.length
  bytes : ∀ pos len data, pos + len ≤ content.length → nr.readFile id pos len = some data →
    data = (content.drop pos).take len

/-! ## One call -/

section OneCall

variable {nr : NitroRom ι} {content : List UInt8} {fil : NitroFile}

theorem read_cases (hs : Serves nr fil.fileId content) (hsize : content.length < 2 ^ 32)
    (hpos : fil.pos ≤ content.length) (len : Nat) :
    read nr fil len =
        ({ fil with pos := fil.pos + min len (content.length - fil.pos) },
          .ok ((content.drop fil.pos).take (min len (content.length - fil.pos)))) ∨
      read nr fil len = (fil, .error .eio) := by
  have hmax : secSub (nr.getFileSize fil.fileId) fil.pos = content.length - fil.pos := by
    rw [hs.size]
    exact secSub_of_le hpos hsize
  have hlen : (if len < content.length - fil.pos then len else content.length - fil.pos) =
      min len (content.length - fil.pos) := by
    split <;> omega
  unfold read
  simp only [hmax, hlen]
  generalize hn : min len (content.length - fil.pos) = n
  by_cases hzero : n = 0
  · left
    simp [hzero]
  · rw [if_neg hzero]
    cases hread : nr.readFile fil.fileId fil.pos n with
    | none => exact Or.inr rfl
    | some data =>
        left
        have hdata := hs.bytes fil.pos n data (by omega) hread
        have hwrap : secWrap (fil.pos + n) = fil.pos + n := secWrap_of_lt (by omega)
        simp only [hwrap, hdata]

theorem seek_cases (nr : NitroRom ι) (fil : NitroFile) (offset : Int) (whence : Whence) :
    (∃ pos ≤ nr.getFileSize fil.fileId,
        seek nr fil offset whence = ({ fil with pos := pos }, .ok pos)) ∨
      seek nr fil offset whence = (fil, .error .einval) := by
  unfold seek
  simp only
  split
  · exact Or.inr rfl
  · next start _ =>
      split
      · refine Or.inl ⟨_, ?_, rfl⟩
        split <;> omega
      · exact Or.inr rfl

end OneCall

/-! ## Runs on one descriptor -/

inductive FileOp where
  | seek (offset : Int) (whence : Whence)
  | read (len : Nat)

inductive FileReply where
  | position (ret : Except Errno Nat)
  | data (ret : Except Errno (List UInt8))

/-- Calls on one descriptor. Each comes with the library as it answers during that call. -/
def fileMachine (ι : Type) : Machine NitroFile (NitroRom ι × FileOp) FileReply where
  step fil c :=
    match c.2 with
    | .seek offset whence => (seek c.1 fil offset whence).map id .position
    | .read len => (read c.1 fil len).map id .data

theorem fileMachine_seek (fil : NitroFile) (nr : NitroRom ι) (offset : Int) (whence : Whence) :
    (fileMachine ι).step fil (nr, .seek offset whence) =
      (seek nr fil offset whence).map id .position := rfl

theorem fileMachine_read (fil : NitroFile) (nr : NitroRom ι) (len : Nat) :
    (fileMachine ι).step fil (nr, .read len) = (read nr fil len).map id .data := rfl

/-- The descriptor belongs to file `file` and lies inside it. -/
structure Inside (file : Nat) (content : List UInt8) (fil : NitroFile) : Prop where
  fileId : fil.fileId = file
  pos_le : fil.pos ≤ content.length

variable {file : Nat} {content : List UInt8}

theorem Inside.step (hsize : content.length < 2 ^ 32) {fil : NitroFile}
    (h : Inside file content fil) (c : NitroRom ι × FileOp) (hs : Serves c.1 file content) :
    Inside file content ((fileMachine ι).step fil c).1 := by
  obtain ⟨nr, op⟩ := c
  have hserve : Serves nr fil.fileId content := by
    rw [h.fileId]
    exact hs
  have hpos := h.pos_le
  cases op with
  | seek offset whence =>
      rw [fileMachine_seek, Prod.map_fst, id_eq]
      rcases seek_cases nr fil offset whence with ⟨pos, hle, heq⟩ | heq
      · rw [heq]
        exact ⟨h.fileId, by rwa [hserve.size] at hle⟩
      · rw [heq]
        exact h
  | read len =>
      rw [fileMachine_read, Prod.map_fst, id_eq]
      rcases read_cases hserve hsize hpos len with heq | heq
      · rw [heq]
        refine ⟨h.fileId, ?_⟩
        show fil.pos + min len (content.length - fil.pos) ≤ content.length
        omega
      · rw [heq]
        exact h

theorem Inside.run (hsize : content.length < 2 ^ 32) {fil : NitroFile}
    (h : Inside file content fil) {calls : List (NitroRom ι × FileOp)}
    (hs : ∀ c ∈ calls, Serves c.1 file content) :
    Inside file content ((fileMachine ι).run fil calls) := by
  induction calls generalizing fil with
  | nil => exact h
  | cons c rest ih =>
      exact ih (h.step hsize c (hs c List.mem_cons_self))
        fun c' hc' => hs c' (List.mem_cons_of_mem c hc')

/-- A stretch read in pieces: the pieces together are the bytes that follow the position. -/
theorem Inside.pieces (hsize : content.length < 2 ^ 32) {fil : NitroFile}
    (h : Inside file content fil) {cuts : List (NitroRom ι × Nat)}
    (hs : ∀ c ∈ cuts, Serves c.1 file content) {parts : List (List UInt8)}
    (hread : (fileMachine ι).answers fil (cuts.map fun c => (c.1, .read c.2)) =
      parts.map fun part => .data (.ok part)) :
    parts.flatten = (content.drop fil.pos).take (cuts.map Prod.snd).sum := by
  induction cuts generalizing fil parts with
  | nil =>
      cases parts with
      | nil => simp
      | cons part rest => cases hread
  | cons c cuts ih =>
      obtain ⟨nr, len⟩ := c
      cases parts with
      | nil => cases hread
      | cons part parts =>
          have hstep := h.step hsize (nr, .read len) (hs _ List.mem_cons_self)
          simp only [List.map_cons, Machine.answers, List.cons.injEq] at hread
          obtain ⟨hfirst, hrest⟩ := hread
          have htail := ih hstep (fun c' hc' => hs c' (List.mem_cons_of_mem _ hc')) hrest
          have hserve : Serves nr fil.fileId content := by
            rw [h.fileId]
            exact hs _ List.mem_cons_self
          rw [fileMachine_read, Prod.map_snd] at hfirst
          rw [fileMachine_read, Prod.map_fst, id_eq] at htail
          rcases read_cases hserve hsize h.pos_le len with heq | heq
          · rw [heq] at hfirst htail
            simp only [FileReply.data.injEq, Except.ok.injEq] at hfirst
            rw [List.flatten_cons, htail, ← hfirst, List.map_cons, List.sum_cons]
            by_cases hlen : len ≤ content.length - fil.pos
            · rw [Nat.min_eq_left hlen, List.take_add, List.drop_drop]
            · -- the first piece already takes the rest of the file
              have hpos := h.pos_le
              rw [Nat.min_eq_right (by omega), Nat.add_sub_cancel' hpos, List.drop_length,
                List.take_nil, List.append_nil,
                List.take_of_length_le (by rw [List.length_drop]),
                List.take_of_length_le (by rw [List.length_drop]; omega)]
          · rw [heq] at hfirst
            cases hfirst

/-! ## Descriptors of regular files -/

theorem openFile_inside {nr : NitroRom ι} {cwd : Nat} {path : Name} {flags : Nat}
    {fil : NitroFile} (hfile : file < 2 ^ 16)
    (hpath : nr.resolvePath cwd (stripDevice path) = file)
    (hopen : openFile nr cwd path flags = .ok fil) : Inside file content fil := by
  unfold openFile at hopen
  simp only [hpath] at hopen
  split at hopen
  · contradiction
  · rw [if_neg (by omega)] at hopen
    cases hopen
    refine ⟨?_, Nat.zero_le _⟩
    rw [Int.toNat_natCast, u16_of_lt hfile]

/-- Whatever is done on a descriptor of a regular file, it stays inside the file; a read
delivers the bytes at its position and moves past them or leaves it alone, so that the
pieces of a stretch make up the stretch. -/
theorem file_reads_exact (hsize : content.length < 2 ^ 32) {nr : NitroRom ι}
    (hroot : nr.rootDir ≤ 2 ^ 16) {cwd : Nat} {path : Name} {flags : Nat} {fil : NitroFile}
    (hfile : file < nr.rootDir) (hpath : nr.resolvePath cwd (stripDevice path) = file)
    (hopen : openFile nr cwd path flags = .ok fil) {calls : List (NitroRom ι × FileOp)}
    (hserve : ∀ c ∈ calls, Serves c.1 file content) :
    let f := (fileMachine ι).run fil calls
    f.fileId = file ∧ f.pos ≤ content.length ∧
      secSub content.length f.pos = content.length - f.pos ∧
      (∀ nr' : NitroRom ι, Serves nr' file content → ∀ len,
        (∀ data, (read nr' f len).2 = .ok data →
          data.length = min len (content.length - f.pos) ∧
            data = (content.drop f.pos).take data.length ∧
            (read nr' f len).1 = { f with pos := f.pos + data.length }) ∧
        ∀ e, (read nr' f len).2 = .error e → (read nr' f len).1 = f) ∧
      (∀ (nr' : NitroRom ι) offset whence e,
        (seek nr' f offset whence).2 = .error e → (seek nr' f offset whence).1 = f) ∧
      ∀ (cuts : List (NitroRom ι × Nat)) (parts : List (List UInt8)),
        (∀ c ∈ cuts, Serves c.1 file content) →
        (fileMachine ι).answers f (cuts.map fun c => (c.1, .read c.2)) =
          parts.map (fun part => .data (.ok part)) →
        parts.flatten = (content.drop f.pos).take (cuts.map Prod.snd).sum := by
  have hopened : Inside file content fil := openFile_inside (by omega) hpath hopen
  have hin := hopened.run hsize hserve
  intro f
  refine ⟨hin.fileId, hin.pos_le, secSub_of_le hin.pos_le hsize, ?_, ?_, ?_⟩
  · intro nr' hs len
    have hs' : Serves nr' f.fileId content := by
      rw [hin.fileId]
      exact hs
    rcases read_cases hs' hsize hin.pos_le len with heq | heq
    · rw [heq]
      constructor
      · rintro data hdata
        obtain rfl := Except.ok.inj hdata
        have hlen : ((content.drop f.pos).take (min len (content.length - f.pos))).length =
            min len (content.length - f.pos) := by
          rw [List.length_take, List.length_drop]
          omega
        rw [hlen]
        exact ⟨rfl, rfl, rfl⟩
      · intro e he
        cases he
    · rw [heq]
      refine ⟨?_, fun _ _ => rfl⟩
      intro data hdata
      cases hdata
  · intro nr' offset whence e he
    rcases seek_cases nr' f offset whence with ⟨pos, _, heq⟩ | heq
    · rw [heq] at he
      cases he
    · rw [heq]
  · intro cuts parts hs hread
    exact hin.pieces hsize hs hread

def letters : List UInt8 := [1, 2, 3, 4, 5]

def letterRom : NitroRom (Nat × List NitroRomIterEntry) :=
  { sampleRom with readFile := fun _ pos len => some ((letters.drop pos).take len) }

theorem letterRom_serves (id : Nat) : Serves letterRom id letters where
  size := rfl
  bytes _ _ _ _ h := (Option.some.inj h).symm

/-- The file "a", after a seek to its second byte and a read of one: a read of two bytes and
one past the end deliver the rest. -/
theorem file_reads_exact_sample :
    let f := (fileMachine _).run ⟨0, 0⟩ [(letterRom, .seek 1 .set), (letterRom, .read 1)]
    f.pos = 2 ∧
      (fileMachine _).answers f [(letterRom, .read 2), (letterRom, .read 9)] =
        [.data (.ok [3, 4]), .data (.ok [5])] ∧
      [[3, 4], [5]].flatten = (letters.drop 2).take (2 + 9) := by
  have hpath : letterRom.resolvePath 0xf000 (stripDevice [0x61]) = ((0 : Nat) : Int) := rfl
  have hserve : ∀ c ∈ [(letterRom, FileOp.seek 1 .set), (letterRom, .read 1)],
      Serves c.1 0 letters := by
    simp [letterRom_serves]
  have hcuts : ∀ c ∈ [(letterRom, 2), (letterRom, 9)], Serves c.1 0 letters := by
    simp [letterRom_serves]
  have h := file_reads_exact (by decide) (by decide) (by decide) hpath
    (show openFile letterRom 0xf000 [0x61] 0 = .ok ⟨0, 0⟩ from rfl) hserve
  exact ⟨rfl, rfl, h.2.2.2.2.2 [(letterRom, 2), (letterRom, 9)] [[3, 4], [5]] hcuts rfl⟩

/-! ## The clamp of a seek -/

def seekBase (nr : NitroRom ι) (fil : NitroFile) : Whence → Option Nat
  | .set => some 0
  | .cur => some fil.pos
  | .end => some (nr.getFileSize fil.fileId)
  | .other => none

/-- A seek from `base` refuses a target before the file and moves to the nearest place in
the file otherwise, in integers without bound. -/
def SeeksExactly (nr : NitroRom ι) (fil : NitroFile) (offset : Int) (whence : Whence)
    (base : Nat) : Prop :=
  seek nr fil offset whence =
    if base + offset < 0 then (fil, .error .einval)
    else
      let pos := (min (base + offset) (nr.getFileSize fil.fileId)).toNat
      ({ fil with pos := pos }, .ok pos)

theorem seek_from (nr : NitroRom ι) (fil : NitroFile) (offset : Int) {whence : Whence}
    {base : Nat} (hbase : seekBase nr fil whence = some base) :
    seek nr fil offset whence =
      if offset ≥ 0 ∨ (base : Int) ≥ negOff offset then
        let pos := min (addOff base offset) (nr.getFileSize fil.fileId)
        ({ fil with pos := pos }, .ok pos)
      else (fil, .error .einval) := by
  have hmin (a b : Nat) : (if a < b then a else b) = min a b := by
    split <;> omega
  cases whence <;> cases hbase <;> simp only [seek, hmin]

/-- The clamp is exact as long as the addition in 32 bits loses nothing, or what is left
of the sum lies past the end as well. -/
theorem seek_clamps_exactly {nr : NitroRom ι} {fil : NitroFile} {offset : Int}
    {whence : Whence} {base : Nat} (hbase : seekBase nr fil whence = some base)
    (hpos : fil.pos < 2 ^ 32) (hsize : nr.getFileSize fil.fileId < 2 ^ 32)
    (hoff : -2 ^ 63 ≤ offset ∧ offset < 2 ^ 63) :
    SeeksExactly nr fil offset whence base ↔
      if base + offset < 0 then offset ≠ -2 ^ 63
      else base + offset < 2 ^ 32 ∨ nr.getFileSize fil.fileId ≤ (base + offset) % 2 ^ 32 := by
  have hlt : base < 2 ^ 32 := by
    cases whence <;> cases hbase
    · decide
    · exact hpos
    · exact hsize
  unfold SeeksExactly
  rw [seek_from nr fil offset hbase]
  generalize nr.getFileSize fil.fileId = size at hsize ⊢
  by_cases hneg : base + offset < 0
  · rw [if_pos hneg, if_pos hneg]
    by_cases hmin : offset = -2 ^ 63
    · -- the negation of the least offset is that offset again
      have htaken : offset ≥ 0 ∨ (base : Int) ≥ negOff offset := by
        right
        rw [negOff, if_pos hmin]
        omega
      rw [if_pos htaken]
      simp [hmin]
    · have hrefused : ¬ (offset ≥ 0 ∨ (base : Int) ≥ negOff offset) := by
        rw [negOff, if_neg hmin]
        omega
      rw [if_neg hrefused]
      exact ⟨fun _ => hmin, fun _ => rfl⟩
  · have htaken : offset ≥ 0 ∨ (base : Int) ≥ negOff offset := by
      unfold negOff
      split <;> omega
    rw [if_neg hneg, if_neg hneg, if_pos htaken]
    simp only [Prod.mk.injEq, NitroFile.mk.injEq, and_true, Except.ok.injEq, and_self]
    unfold addOff
    omega

/-- A seek to 2^32 in a file of five bytes goes to its start, not to its end. -/
theorem far_seek_goes_to_start :
    seek sampleRom ⟨3, 0⟩ (2 ^ 32) .set = (⟨0, 0⟩, .ok 0) ∧
      ¬ SeeksExactly sampleRom ⟨3, 0⟩ (2 ^ 32) .set 0 := by
  have hseek : seek sampleRom ⟨3, 0⟩ (2 ^ 32) .set = (⟨0, 0⟩, .ok 0) := by
    rw [seek_from _ _ _ (show seekBase sampleRom ⟨3, 0⟩ .set = some 0 from rfl)]
    decide
  refine ⟨hseek, ?_⟩
  unfold SeeksExactly
  rw [hseek]
  decide

theorem seek_clamps_exactly_sample :
    SeeksExactly sampleRom ⟨3, 0⟩ 7 .cur 3 :=
  (seek_clamps_exactly rfl (by decide) (by decide) (by decide)).mpr (by decide)

end LibDvm.NitroFs
