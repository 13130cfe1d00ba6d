import LibDvm.Fat.Attributes
import LibDvm.Fat.Position
import LibDvm.Lib.Explained

/-! # Directories of FAT volumes

The directory calls of `fat_driver.c`, and what a user gets who asks for entries and
rewinds in any order. FatFs marks the end of a directory with an empty name, which the
driver turns into an error of its own. The calls are run on a FatFs that takes down its
answers, so that each one given to the user is held against what FatFs said.
-/

namespace LibDvm.Fat

open Calendar

/-! ## The calls -/

/-- What the driver calls on directories; `δ` is a `FFDIR` with its volume. -/
structure DirCalls (ν δ : Type) where
  fOpendir : ν → (path : Name) → ν × δ × FResult
  fReaddir : δ → δ × FileInfo × FResult
  fRewinddir : δ → δ × FResult

/-- `NAME_MAX` of the C library and `FF_LFN_BUF` of FatFs. -/
structure NameLimits where
  nameMax : Nat
  lfnBuf : Nat

/-- The bytes copied to `filename_buf`: one more than `strnlen` counts. -/
def filenameCopy (limits : NameLimits) (fname : Name) : List UInt8 :=
  let nameLen := min fname.length (if limits.nameMax < limits.lfnBuf then limits.nameMax
    else limits.lfnBuf)
  (fname ++ [0]).take (nameLen + 1)

/-- Which of the two buffers of `_FAT_dirnext_r` is not null. -/
structure Wanted where
  filename : Bool
  stat : Bool

structure DirEntry where
  filename : Option (List UInt8)
  stat : Option Stat
deriving DecidableEq

section Calls

variable {ν δ : Type} (fatfs : DirCalls ν δ) (limits : NameLimits) (mktime : Tm → Int)
  (info : VolumeInfo)

/-- `_FAT_diropen_r`. -/
def diropen (vol : ν) (path : Name) : ν × Except Errno δ :=
  let r := fatfs.fOpendir vol (stripDevice path)
  (r.1, setErrno r.2.2 r.2.1)

/-- `_FAT_dirreset_r`. -/
def dirreset (dp : δ) : δ × Except Errno Unit :=
  let r := fatfs.fRewinddir dp
  (r.1, setErrno r.2 ())

/-- `_FAT_dirnext_r`. -/
def dirnext (dp : δ) (wanted : Wanted) : δ × Except Errno DirEntry :=
  let r := fatfs.fReaddir dp
  let fno := r.2.1
  let fr := if r.2.2 = .ok ∧ fno.fname = [] then .noFile else r.2.2
  (r.1, setErrno fr
    { filename := if wanted.filename then some (filenameCopy limits fno.fname) else none
      stat := if wanted.stat then some (setStat mktime info fno) else none })

def dirCall (dp : δ) : ListingCall Wanted → δ × ListingReply DirEntry Errno
  | .next wanted =>
      let r := dirnext fatfs limits mktime info dp wanted
      (r.1, .ofNext r.2)
  | .rewind =>
      let r := dirreset fatfs dp
      (r.1, .ofRewind r.2)

def openedDir : Machine δ (ListingCall Wanted) (ListingReply DirEntry Errno) :=
  ⟨dirCall fatfs limits mktime info⟩

end Calls

/-! ## What FatFs says on the way -/

inductive DirAnswer where
  | read (fr : FResult) (fno : FileInfo)
  | rewound (fr : FResult)

def DirCalls.recorded {ν δ : Type} (fatfs : DirCalls ν δ) :
    DirCalls ν (δ × List DirAnswer) where
  fOpendir vol path :=
    let r := fatfs.fOpendir vol path
    (r.1, (r.2.1, []), r.2.2)
  fReaddir dp :=
    let r := fatfs.fReaddir dp.1
    ((r.1, dp.2 ++ [.read r.2.2 r.2.1]), r.2)
  fRewinddir dp :=
    let r := fatfs.fRewinddir dp.1
    ((r.1, dp.2 ++ [.rewound r.2]), r.2)

def sourced : List DirAnswer → Option (Sourced FileInfo FResult)
  | [.read fr fno] =>
      some (if fr ≠ .ok then .failed fr else if fno.fname = [] then .ended else .item fno)
  | [.rewound fr] => some (if fr ≠ .ok then .failed fr else .rewound)
  | _ => none

def recordedDir {ν δ : Type} (fatfs : DirCalls ν δ) (limits : NameLimits) (mktime : Tm → Int)
    (info : VolumeInfo) : Machine δ (ListingCall Wanted)
      (ListingReply DirEntry Errno × Option (Sourced FileInfo FResult)) where
  step dp c :=
    let r := dirCall fatfs.recorded limits mktime info (dp, []) c
    (r.1.1, r.2, sourced r.1.2)

/-! ## What a listing has to show -/

def entryStat (mktime : Tm → Int) (info : VolumeInfo) (fno : FileInfo) : Stat where
  dev := info.ioType
  ino := fno.fclust
  mode :=
    if fno.fattrib &&& amDir ≠ 0 then 0o40777
    else if fno.fattrib &&& amRdo = 0 then 0o100666 else 0o100444
  nlink := 1
  uid := 1
  gid := 2
  rdev := info.ioType
  size := fno.fsize
  atime := makeTime mktime fno.acdate fno.actime
  mtime := makeTime mktime fno.fdate fno.ftime
  ctime := makeTime mktime fno.crdate fno.crtime
  blksize := info.csize * info.ssize
  blocks := clusterBlocks info fno.fsize

/-- An entry as asked for: its whole name, terminated, and its attributes. -/
def shownEntry (mktime : Tm → Int) (info : VolumeInfo) (wanted : Wanted) (fno : FileInfo) :
    DirEntry where
  filename := if wanted.filename then some (fno.fname ++ [0]) else none
  stat := if wanted.stat then some (entryStat mktime info fno) else none

def dirListing (mktime : Tm → Int) (info : VolumeInfo) (entries : List FileInfo) :
    Spec (Option Nat) (ListingCall Wanted)
      (ListingReply DirEntry Errno × Option (Sourced FileInfo FResult)) :=
  listing entries (shownEntry mktime info) .enoent frToErrno

/-! ## FatFs as documented -/

structure FileInfo.Proper (limits : NameLimits) (fno : FileInfo) : Prop where
  named : fno.fname ≠ []
  short : fno.fname.length ≤ limits.lfnBuf
  small : fno.fsize < 2 ^ 62

structure DirView (limits : NameLimits) where
  entries : List FileInfo
  place : Nat
  proper : ∀ fno ∈ entries, fno.Proper limits

/-- `f_readdir` never returns the two codes that mean a missing file. -/
structure DirCalls.Documented {ν δ : Type} (fatfs : DirCalls ν δ) (limits : NameLimits)
    (entries : ν → Name → List FileInfo) (view : δ → DirView limits) : Prop where
  opendir : ∀ vol path, (fatfs.fOpendir vol path).2.2 = .ok →
    (view (fatfs.fOpendir vol path).2.1).entries = entries vol path ∧
      (view (fatfs.fOpendir vol path).2.1).place = 0
  same : ∀ dp, (view (fatfs.fReaddir dp).1).entries = (view dp).entries ∧
    (view (fatfs.fRewinddir dp).1).entries = (view dp).entries
  readdir : ∀ dp fno, (view dp).entries[(view dp).place]? = some fno →
    (fatfs.fReaddir dp).2.2 = .ok → (fatfs.fReaddir dp).2.1 = fno ∧
      (view (fatfs.fReaddir dp).1).place = (view dp).place + 1
  readdir_end : ∀ dp, (view dp).entries.length ≤ (view dp).place →
    (fatfs.fReaddir dp).2.2 = .ok → (fatfs.fReaddir dp).2.1.fname = [] ∧
      (view (fatfs.fReaddir dp).1).place = (view dp).place
  readdir_fails : ∀ dp, (fatfs.fReaddir dp).2.2 ≠ .noFile ∧ (fatfs.fReaddir dp).2.2 ≠ .noPath
  rewinddir : ∀ dp, (fatfs.fRewinddir dp).2 = .ok → (view (fatfs.fRewinddir dp).1).place = 0

/-! ## Following the directory -/

theorem filenameCopy_eq {limits : NameLimits} (hmax : limits.lfnBuf ≤ limits.nameMax)
    {fname : Name} (hshort : fname.length ≤ limits.lfnBuf) :
    filenameCopy limits fname = fname ++ [0] := by
  unfold filenameCopy
  rw [if_neg (by omega), Nat.min_eq_left hshort]
  exact List.take_of_length_le (by simp)

theorem setStat_eq (mktime : Tm → Int) {info : VolumeInfo} (hinfo : info.Proper) {fno : FileInfo}
    (hsize : fno.fsize < 2 ^ 62) : setStat mktime info fno = entryStat mktime info fno := by
  have hoff : toOff fno.fsize = fno.fsize := toOff_of_lt (by omega)
  have hmode := setStat_mode mktime info fno
  have hblocks := stBlocks_eq hinfo hsize
  rw [← hoff] at hblocks
  simp only [setStat] at hmode ⊢
  rw [entryStat, hmode, hblocks, hoff]

theorem setErrno_failed {ρ : Type} {fr : FResult} (ret : ρ) (hok : fr ≠ .ok) :
    ∃ errno, setErrno fr ret = .error errno ∧ frToErrno fr = some errno ∧
      (fr ≠ .noFile ∧ fr ≠ .noPath → errno ≠ .enoent) := by
  cases fr <;> simp_all [setErrno, frToErrno]

section Follows

variable {ν δ : Type} {fatfs : DirCalls ν δ} {limits : NameLimits} {mktime : Tm → Int}
  {info : VolumeInfo} {entriesOf : ν → Name → List FileInfo} {view : δ → DirView limits}
  {entries : List FileInfo} {dp : δ} {place : Option Nat}

/-- The directory has these entries, and its place is known unless it is lost. -/
structure OnEntries (view : δ → DirView limits) (entries : List FileInfo) (dp : δ)
    (place : Option Nat) : Prop where
  same : (view dp).entries = entries
  place : ∀ k ∈ place, (view dp).place = k ∧ k ≤ entries.length

theorem OnEntries.lost {entries : List FileInfo} (h : (view dp).entries = entries) :
    OnEntries view entries dp none := ⟨h, fun _ hk => nomatch hk⟩

theorem OnEntries.at {entries : List FileInfo} {k : Nat} (h : (view dp).entries = entries)
    (hplace : (view dp).place = k) (hle : k ≤ entries.length) :
    OnEntries view entries dp (some k) := by
  refine ⟨h, ?_⟩
  rintro j hj
  cases hj
  exact ⟨hplace, hle⟩

theorem OnEntries.next (hkept : (view dp).entries = entries) {place : Option Nat}
    (hplace : ∀ k ∈ place, (view dp).place = k + 1 ∧ k < entries.length) :
    OnEntries view entries dp (place.map (· + 1)) := by
  refine ⟨hkept, ?_⟩
  intro j hj
  obtain ⟨k, hk, rfl⟩ := Option.map_eq_some_iff.mp hj
  exact hplace k hk

theorem dirnext_item (hdoc : fatfs.Documented limits entriesOf view)
    (hmax : limits.lfnBuf ≤ limits.nameMax) (hinfo : info.Proper)
    (hd : OnEntries view entries dp place) (wanted : Wanted)
    (hok : (fatfs.fReaddir dp).2.2 = .ok) {fno : FileInfo}
    (hview : (view dp).entries[(view dp).place]? = some fno) :
    (dirListing mktime info entries).Follows (OnEntries view entries) place (.next wanted)
      ((recordedDir fatfs limits mktime info).step dp (.next wanted)) := by
  have hproper := (view dp).proper fno (List.mem_of_getElem? hview)
  obtain ⟨hfno, hnext⟩ := hdoc.readdir dp fno hview hok
  have hret : (dirnext fatfs.recorded limits mktime info (dp, []) wanted).2 =
      .ok (shownEntry mktime info wanted fno) := by
    unfold dirnext
    simp only [DirCalls.recorded, hfno, hproper.named, and_false, if_false]
    refine setErrno_ok.mpr ⟨hok, ?_⟩
    rw [filenameCopy_eq hmax hproper.short, setStat_eq mktime hinfo hproper.small]
    rfl
  have hstep : (recordedDir fatfs limits mktime info).step dp (.next wanted) =
      ((fatfs.fReaddir dp).1, .item (shownEntry mktime info wanted fno),
        some (.item fno)) := by
    change ((fatfs.fReaddir dp).1,
      ListingReply.ofNext (dirnext fatfs.recorded limits mktime info (dp, []) wanted).2,
      sourced [.read (fatfs.fReaddir dp).2.2 (fatfs.fReaddir dp).2.1]) = _
    rw [hret, hok, hfno, sourced, if_neg (by simp), if_neg hproper.named]
    rfl
  rw [hstep]
  rw [hd.same] at hview
  have hentry : IsNext entries place fno := by
    cases place with
    | none => exact List.mem_of_getElem? hview
    | some k =>
        rw [(hd.place k rfl).1] at hview
        exact hview
  refine ⟨place.map (· + 1), if_pos ⟨hentry, rfl⟩, .next ((hdoc.same dp).1.trans hd.same) ?_⟩
  intro k hk
  rw [(hd.place k hk).1] at hnext hview
  exact ⟨hnext, (List.getElem?_eq_some_iff.mp hview).1⟩

theorem dirnext_ended (hdoc : fatfs.Documented limits entriesOf view)
    (hd : OnEntries view entries dp place) (wanted : Wanted)
    (hok : (fatfs.fReaddir dp).2.2 = .ok)
    (hend : (view dp).entries.length ≤ (view dp).place) :
    (dirListing mktime info entries).Follows (OnEntries view entries) place (.next wanted)
      ((recordedDir fatfs limits mktime info).step dp (.next wanted)) := by
  obtain ⟨hname, hstay⟩ := hdoc.readdir_end dp hend hok
  have hret : (dirnext fatfs.recorded limits mktime info (dp, []) wanted).2 =
      .error .enoent := by
    unfold dirnext
    simp only [DirCalls.recorded, hok, hname, and_self, if_true]
    rfl
  have hstep : (recordedDir fatfs limits mktime info).step dp (.next wanted) =
      ((fatfs.fReaddir dp).1, .failed .enoent, some .ended) := by
    change ((fatfs.fReaddir dp).1,
      ListingReply.ofNext (dirnext fatfs.recorded limits mktime info (dp, []) wanted).2,
      sourced [.read (fatfs.fReaddir dp).2.2 (fatfs.fReaddir dp).2.1]) = _
    rw [hret, hok, sourced, if_neg (by simp), if_pos hname]
    rfl
  rw [hstep]
  rw [hd.same] at hend
  have hlast : ∀ k ∈ place, k = entries.length := by
    intro k hk
    obtain ⟨hplace, hle⟩ := hd.place k hk
    omega
  refine ⟨place, if_pos ⟨hlast, rfl⟩, (hdoc.same dp).1.trans hd.same, ?_⟩
  intro k hk
  exact ⟨hstay.trans (hd.place k hk).1, (hd.place k hk).2⟩

theorem dirnext_failed (hdoc : fatfs.Documented limits entriesOf view)
    (hd : OnEntries view entries dp place) (wanted : Wanted)
    (hfail : (fatfs.fReaddir dp).2.2 ≠ .ok) :
    (dirListing mktime info entries).Follows (OnEntries view entries) place (.next wanted)
      ((recordedDir fatfs limits mktime info).step dp (.next wanted)) := by
  have hret : ∃ errno, (dirnext fatfs.recorded limits mktime info (dp, []) wanted).2 =
      .error errno ∧ frToErrno (fatfs.fReaddir dp).2.2 = some errno ∧ errno ≠ .enoent := by
    unfold dirnext
    simp only [DirCalls.recorded, hfail, false_and, if_false]
    obtain ⟨errno, hret, herr, hne⟩ := setErrno_failed
      { filename := if wanted.filename then some (filenameCopy limits
          (fatfs.fReaddir dp).2.1.fname) else none
        stat := if wanted.stat then some (setStat mktime info (fatfs.fReaddir dp).2.1) else none :
        DirEntry } hfail
    exact ⟨errno, hret, herr, hne (hdoc.readdir_fails dp)⟩
  obtain ⟨errno, hret, herr, hne⟩ := hret
  have hstep : (recordedDir fatfs limits mktime info).step dp (.next wanted) =
      ((fatfs.fReaddir dp).1, .failed errno, some (.failed (fatfs.fReaddir dp).2.2)) := by
    change ((fatfs.fReaddir dp).1,
      ListingReply.ofNext (dirnext fatfs.recorded limits mktime info (dp, []) wanted).2,
      sourced [.read (fatfs.fReaddir dp).2.2 (fatfs.fReaddir dp).2.1]) = _
    rw [hret, sourced, if_pos hfail]
    rfl
  rw [hstep]
  exact ⟨none, if_pos ⟨herr, hne⟩, .lost ((hdoc.same dp).1.trans hd.same)⟩

theorem dirreset_follows (hdoc : fatfs.Documented limits entriesOf view)
    (hd : OnEntries view entries dp place) :
    (dirListing mktime info entries).Follows (OnEntries view entries) place .rewind
      ((recordedDir fatfs limits mktime info).step dp .rewind) := by
  have hkept : (view (fatfs.fRewinddir dp).1).entries = entries :=
    (hdoc.same dp).2.trans hd.same
  have hstep : (recordedDir fatfs limits mktime info).step dp .rewind =
      ((fatfs.fRewinddir dp).1, .ofRewind (setErrno (fatfs.fRewinddir dp).2 ()),
        sourced [.rewound (fatfs.fRewinddir dp).2]) := rfl
  rw [hstep, sourced]
  by_cases hok : (fatfs.fRewinddir dp).2 = .ok
  · rw [setErrno_ok.mpr ⟨hok, rfl⟩, if_neg (by simpa using hok)]
    exact ⟨some 0, rfl, .at hkept (hdoc.rewinddir dp hok) (Nat.zero_le _)⟩
  · obtain ⟨errno, hret, herr, -⟩ := setErrno_failed () hok
    rw [hret, if_pos hok]
    exact ⟨none, if_pos herr, .lost hkept⟩

theorem dirCall_follows (hdoc : fatfs.Documented limits entriesOf view)
    (hmax : limits.lfnBuf ≤ limits.nameMax) (hinfo : info.Proper)
    (hd : OnEntries view entries dp place) (call : ListingCall Wanted) :
    (dirListing mktime info entries).Follows (OnEntries view entries) place call
      ((recordedDir fatfs limits mktime info).step dp call) := by
  cases call with
  | rewind => exact dirreset_follows hdoc hd
  | next wanted =>
      by_cases hok : (fatfs.fReaddir dp).2.2 = .ok
      · cases hview : (view dp).entries[(view dp).place]? with
        | some fno => exact dirnext_item hdoc hmax hinfo hd wanted hok hview
        | none => exact dirnext_ended hdoc hd wanted hok (List.getElem?_eq_none_iff.mp hview)
      · exact dirnext_failed hdoc hd wanted hok

/-- Whatever calls are made on an open directory: from its opening, and from each rewind that
succeeds, its entries follow in order with their names and attributes until FatFs fails; a
call fails with the error of FatFs, or with `ENOENT` where FatFs is at the end. -/
theorem directory_listed (hdoc : fatfs.Documented limits entriesOf view)
    (hmax : limits.lfnBuf ≤ limits.nameMax) (hinfo : info.Proper) (vol : ν) (path : Name)
    (hopen : (diropen fatfs vol path).2 = .ok dp) (calls : List (ListingCall Wanted)) :
    let answered := (recordedDir fatfs limits mktime info).history dp calls
    answered.map (fun e => (e.1, e.2.1)) =
        (openedDir fatfs limits mktime info).history dp calls ∧
      (dirListing mktime info (entriesOf vol (stripDevice path))).Explains (some 0) answered := by
  obtain ⟨hok, rfl⟩ := setErrno_ok.mp hopen
  obtain ⟨hentries, hplace⟩ := hdoc.opendir vol (stripDevice path) hok
  have hstart : OnEntries view (entriesOf vol (stripDevice path))
      (fatfs.fOpendir vol (stripDevice path)).2.1 (some 0) := .at hentries hplace (Nat.zero_le _)
  refine ⟨Machine.history_forget _ _ (fun dp call => by cases call <;> rfl) _ calls, ?_⟩
  obtain ⟨place, hafter, -⟩ := (recordedDir fatfs limits mktime info).history_after
    (dirListing mktime info (entriesOf vol (stripDevice path))) (fun _ _ => True)
    (OnEntries view (entriesOf vol (stripDevice path)))
    (fun _ _ call hd _ => dirCall_follows hdoc hmax hinfo hd call) hstart
    (Machine.throughout_of_forall _ (fun _ _ => trivial) _ calls)
  exact Option.isSome_iff_exists.mpr ⟨place, hafter⟩

end Follows

/-! ## A directory in memory -/

/-- What `f_readdir` fills in at the end of a directory. -/
def endInfo : FileInfo := ⟨⟨0, 0, 0, 0, 0, 0⟩, [], 0, 0, 0⟩

abbrev MemoryEntries (limits : NameLimits) := { entries : List FileInfo //
  ∀ fno ∈ entries, fno.Proper limits }

def memoryDir (limits : NameLimits) : DirCalls (MemoryEntries limits) (DirView limits) where
  fOpendir vol _ := (vol, ⟨vol.1, 0, vol.2⟩, .ok)
  fReaddir dp :=
    match dp.entries[dp.place]? with
    | some fno => ({ dp with place := dp.place + 1 }, fno, .ok)
    | none => (dp, endInfo, .ok)
  fRewinddir dp := ({ dp with place := 0 }, .ok)

theorem memoryDir_documented (limits : NameLimits) :
    (memoryDir limits).Documented limits (fun vol _ => vol.1) id where
  opendir _ _ _ := ⟨rfl, rfl⟩
  same dp := by
    refine ⟨?_, rfl⟩
    change ((memoryDir limits).fReaddir dp).1.entries = dp.entries
    unfold memoryDir
    simp only
    split <;> rfl
  readdir dp fno h _ := by
    change dp.entries[dp.place]? = some fno at h
    simp [memoryDir, h]
  readdir_end dp h _ := by
    have hnone : dp.entries[dp.place]? = none := List.getElem?_eq_none_iff.mpr h
    simp [memoryDir, hnone, endInfo]
  readdir_fails dp := by
    have hok : ((memoryDir limits).fReaddir dp).2.2 = .ok := by
      unfold memoryDir
      simp only
      split <;> rfl
    rw [hok]
    exact ⟨by decide, by decide⟩
  rewinddir _ _ := rfl

def sampleEntries : MemoryEntries ⟨255, 255⟩ :=
  ⟨[⟨⟨0x5a21, 0, 0x5a21, 0, 0x5a21, 0⟩, [0x41], 7, amDir, 0⟩,
    ⟨⟨0x5a21, 0, 0x5a21, 0, 0x5a21, 0⟩, [0x62, 0x63], 9, amRdo, 5000⟩], by
    rintro fno hfno
    simp only [List.mem_cons, List.not_mem_nil, or_false] at hfno
    rcases hfno with rfl | rfl
    · exact ⟨by decide, by decide, by decide⟩
    · exact ⟨by decide, by decide, by decide⟩⟩

theorem directory_listed_sample :
    (dirListing (fun _ => 0) ⟨1, 8, 512⟩ sampleEntries.1).Explains (some 0)
      ((recordedDir (memoryDir ⟨255, 255⟩) ⟨255, 255⟩ (fun _ => 0) ⟨1, 8, 512⟩).history
        ⟨sampleEntries.1, 0, sampleEntries.2⟩
        [.next ⟨true, true⟩, .rewind, .next ⟨true, false⟩, .next ⟨true, true⟩,
          .next ⟨true, true⟩]) :=
  (directory_listed (memoryDir_documented _) (by decide) ⟨⟨12, by decide, by decide, by decide⟩⟩
    sampleEntries [] rfl _).2

end LibDvm.Fat
