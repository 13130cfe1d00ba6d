import LibDvm.Ext.Model
import LibDvm.Lib.Explained
import Mathlib.Tactic.Common

/-! # Directories of ext volumes

The directory calls of `ext4_driver.c`. Each entry is completed from its inode; one whose
inode cannot be read fails on its own, and the listing goes on behind it. The calls are run
on a lwext4 that takes down its answers, so that each error is held against the inode that
could not be read.
-/

namespace LibDvm.Ext

/-! ## The calls -/

/-- `ext4_direntry`, its name as long as `name_length` says. -/
structure DirEntry where
  inode : Nat
  name : Name
deriving DecidableEq

/-- What the driver reads of an `ext4_inode`. -/
structure Inode where
  mode : Nat
  linksCnt : Nat
  uid : Nat
  gid : Nat
  size : Nat
  accessTime : Nat
  modifTime : Nat
  changeInodeTime : Nat
  blocksCount : Nat

/-- What the driver calls on directories; `δ` is an `ext4_dir` with its mount point. -/
structure DirCalls (μ δ : Type) where
  dirOpen : μ → (path : Name) → μ × δ × Nat
  dirEntryRewind : δ → δ
  dirEntryNext : δ → δ × Option DirEntry
  rawInodeFill2 : δ → (inode : Nat) → δ × Inode × Nat

/-- What the attributes of a file take from its volume: the type of the disc, the block size,
and `EXT4_INODE_BLOCK_SIZE`, the unit in which an inode counts. -/
structure VolumeInfo where
  ioType : Nat
  blockSize : Nat
  inodeBlockSize : Nat

structure Stat where
  dev : Nat
  ino : Nat
  mode : Nat
  nlink : Nat
  uid : Nat
  gid : Nat
  rdev : Nat
  size : Nat
  atime : Nat
  mtime : Nat
  ctime : Nat
  blksize : Nat
  blocks : Nat
deriving DecidableEq

/-- `S_BLKSIZE`. -/
def sBlksize : Nat := 512

/-- `_ext4_set_stat`. -/
def setStat (info : VolumeInfo) (ino : Nat) (inode : Inode) : Stat where
  dev := info.ioType
  ino := ino
  mode := inode.mode
  nlink := inode.linksCnt
  uid := inode.uid
  gid := inode.gid
  rdev := info.ioType
  size := inode.size
  atime := inode.accessTime
  mtime := inode.modifTime
  ctime := inode.changeInodeTime
  blksize := info.blockSize
  blocks := (inode.blocksCount * info.inodeBlockSize + sBlksize - 1) / sBlksize

/-- Which of the two buffers of `_ext4_dirnext_r` is not null. -/
structure Wanted where
  filename : Bool
  stat : Bool

structure Filled where
  filename : Option (List UInt8)
  stat : Option Stat
deriving DecidableEq

abbrev enoent : Nat := 2

/-- The bytes put into `filename_buf`: the name as far as there is room, and a zero. -/
def filenameCopy (nameMax : Nat) (name : Name) : List UInt8 :=
  name.take (if nameMax < name.length then nameMax else name.length) ++ [0]

section Calls

variable {μ δ : Type} (lw : DirCalls μ δ) (nameMax : Nat) (info : VolumeInfo)

/-- `_ext4_diropen_r`. -/
def diropen (mp : μ) (path : Name) : μ × Except Nat δ :=
  let r := lw.dirOpen mp (stripDevice path)
  (r.1, result r.2.2 r.2.1)

/-- `_ext4_dirreset_r`. -/
def dirreset (dir : δ) : δ × Except Nat Unit := (lw.dirEntryRewind dir, .ok ())

/-- `_ext4_dirnext_r`. -/
def dirnext (dir : δ) (wanted : Wanted) : δ × Except Nat Filled :=
  let r := lw.dirEntryNext dir
  match r.2 with
  | none => (r.1, .error enoent)
  | some de =>
      let filled := lw.rawInodeFill2 r.1 de.inode
      (filled.1, result filled.2.2
        { filename := if wanted.filename then some (filenameCopy nameMax de.name) else none
          stat := if wanted.stat then some (setStat info de.inode filled.2.1) else none })

def dirCall (dir : δ) : ListingCall Wanted → δ × ListingReply Filled Nat
  | .next wanted =>
      let r := dirnext lw nameMax info dir wanted
      (r.1, .ofNext r.2)
  | .rewind =>
      let r := dirreset lw dir
      (r.1, .ofRewind r.2)

def openedDir : Machine δ (ListingCall Wanted) (ListingReply Filled Nat) :=
  ⟨dirCall lw nameMax info⟩

end Calls

/-! ## What lwext4 says on the way -/

inductive DirAnswer where
  | entry (de : Option DirEntry)
  | inode (ino rc : Nat)
  | rewound

def DirCalls.recorded {μ δ : Type} (lw : DirCalls μ δ) : DirCalls μ (δ × List DirAnswer) where
  dirOpen mp path :=
    let r := lw.dirOpen mp path
    (r.1, (r.2.1, []), r.2.2)
  dirEntryRewind dir := (lw.dirEntryRewind dir.1, dir.2 ++ [.rewound])
  dirEntryNext dir :=
    let r := lw.dirEntryNext dir.1
    ((r.1, dir.2 ++ [.entry r.2]), r.2)
  rawInodeFill2 dir ino :=
    let r := lw.rawInodeFill2 dir.1 ino
    ((r.1, dir.2 ++ [.inode ino r.2.2]), r.2)

/-- What the answers of lwext4 to a call mean: an entry is broken when its own inode cannot be
read. -/
def sourced : List DirAnswer → Option (Sourced DirEntry Nat)
  | [.entry none] => some .ended
  | [.entry (some de), .inode ino rc] =>
      if ino = de.inode then some (if rc ≠ 0 then .broken de rc else .item de) else none
  | [.rewound] => some .rewound
  | _ => none

def recordedDir {μ δ : Type} (lw : DirCalls μ δ) (nameMax : Nat) (info : VolumeInfo) :
    Machine δ (ListingCall Wanted) (ListingReply Filled Nat × Option (Sourced DirEntry Nat)) where
  step dir c :=
    let r := dirCall lw.recorded nameMax info (dir, []) c
    (r.1.1, r.2, sourced r.1.2)

/-! ## What a listing has to show -/

/-- The attributes of an entry, with the blocks that its inode counts. -/
def entryStat (info : VolumeInfo) (ino : Nat) (inode : Inode) : Stat :=
  { setStat info ino inode with blocks := inode.blocksCount }

/-- An entry as asked for: its name, cut where the buffer ends, and the attributes of its
inode. -/
def shownEntry (nameMax : Nat) (info : VolumeInfo) (inodes : Nat → Inode) (wanted : Wanted)
    (de : DirEntry) : Filled where
  filename := if wanted.filename then some (de.name.take nameMax ++ [0]) else none
  stat := if wanted.stat then some (entryStat info de.inode (inodes de.inode)) else none

def dirListing (nameMax : Nat) (info : VolumeInfo) (inodes : Nat → Inode)
    (entries : List DirEntry) :
    Spec (Option Nat) (ListingCall Wanted)
      (ListingReply Filled Nat × Option (Sourced DirEntry Nat)) :=
  listing entries (shownEntry nameMax info inodes) enoent some

/-! ## lwext4 as documented -/

structure DirView where
  entries : List DirEntry
  place : Nat

/-- An inode that is asked for by its number is never a missing file. -/
structure DirCalls.Documented {μ δ : Type} (lw : DirCalls μ δ)
    (entries : μ → Name → List DirEntry) (inodes : Nat → Inode) (view : δ → DirView) : Prop where
  opened : ∀ mp path, (lw.dirOpen mp path).2.2 = 0 →
    view (lw.dirOpen mp path).2.1 = ⟨entries mp path, 0⟩
  rewound : ∀ dir, view (lw.dirEntryRewind dir) = ⟨(view dir).entries, 0⟩
  next : ∀ dir de, (view dir).entries[(view dir).place]? = some de →
    (lw.dirEntryNext dir).2 = some de ∧
      view (lw.dirEntryNext dir).1 = ⟨(view dir).entries, (view dir).place + 1⟩
  atEnd : ∀ dir, (view dir).entries.length ≤ (view dir).place →
    (lw.dirEntryNext dir).2 = none ∧ view (lw.dirEntryNext dir).1 = view dir
  filled : ∀ dir ino, (lw.rawInodeFill2 dir ino).2.2 = 0 →
    (lw.rawInodeFill2 dir ino).2.1 = inodes ino
  fill_stays : ∀ dir ino, view (lw.rawInodeFill2 dir ino).1 = view dir
  fill_fails : ∀ dir ino, (lw.rawInodeFill2 dir ino).2.2 ≠ enoent

/-! ## Following the directory -/

theorem filenameCopy_eq (nameMax : Nat) (name : Name) :
    filenameCopy nameMax name = name.take nameMax ++ [0] := by
  unfold filenameCopy
  split
  · rfl
  · rw [List.take_length, List.take_of_length_le (by omega)]

theorem setStat_eq {info : VolumeInfo} (hblock : info.inodeBlockSize = sBlksize) (ino : Nat)
    (inode : Inode) : setStat info ino inode = entryStat info ino inode := by
  have hblocks : (inode.blocksCount * info.inodeBlockSize + sBlksize - 1) / sBlksize =
      inode.blocksCount := by
    rw [hblock, sBlksize]
    omega
  unfold entryStat
  conv_lhs => rw [setStat, hblocks]
  rfl

section Follows

variable {μ δ : Type} {lw : DirCalls μ δ} {nameMax : Nat} {info : VolumeInfo}
  {entriesOf : μ → Name → List DirEntry} {inodes : Nat → Inode} {view : δ → DirView}
  {entries : List DirEntry} {dir : δ} {place : Option Nat}

/-- The directory has these entries, and the next one is at this place. -/
def OnEntries (view : δ → DirView) (entries : List DirEntry) (dir : δ) (place : Option Nat) :
    Prop :=
  ∃ k, place = some k ∧ view dir = ⟨entries, k⟩ ∧ k ≤ entries.length

theorem recordedDir_step (dir : δ) (c : ListingCall Wanted) :
    (openedDir lw nameMax info).step dir c =
      (((recordedDir lw nameMax info).step dir c).1,
        ((recordedDir lw nameMax info).step dir c).2.1) := by
  cases c with
  | rewind => rfl
  | next wanted =>
      simp only [openedDir, recordedDir, dirCall, dirnext, DirCalls.recorded]
      cases (lw.dirEntryNext dir).2 with
      | none => rfl
      | some de => rfl

theorem dirnext_ended (hdoc : lw.Documented entriesOf inodes view) {k : Nat}
    (hview : view dir = ⟨entries, k⟩) (hle : k ≤ entries.length) (hentry : entries[k]? = none)
    (wanted : Wanted) :
    (dirListing nameMax info inodes entries).Follows (OnEntries view entries) (some k)
      (.next wanted) ((recordedDir lw nameMax info).step dir (.next wanted)) := by
  have hend : entries.length ≤ k := List.getElem?_eq_none_iff.mp hentry
  obtain ⟨hnone, hstay⟩ := hdoc.atEnd dir (by rw [hview]; exact hend)
  have hret : dirnext lw.recorded nameMax info (dir, []) wanted =
      (((lw.dirEntryNext dir).1, [.entry none]), .error enoent) := by
    simp only [dirnext, DirCalls.recorded, hnone, List.nil_append]
  have hstep : (recordedDir lw nameMax info).step dir (.next wanted) =
      ((lw.dirEntryNext dir).1, .failed enoent, some .ended) := by
    simp only [recordedDir, dirCall, hret]
    rfl
  have hlast : ∀ j ∈ some k, j = entries.length := by
    rintro j hj
    cases hj
    omega
  rw [hstep]
  exact ⟨some k, if_pos ⟨hlast, rfl⟩, k, rfl, hstay.trans hview, hle⟩

theorem dirnext_entry (hdoc : lw.Documented entriesOf inodes view)
    (hblock : info.inodeBlockSize = sBlksize) {k : Nat} (hview : view dir = ⟨entries, k⟩)
    {de : DirEntry} (hentry : entries[k]? = some de) (wanted : Wanted) :
    (dirListing nameMax info inodes entries).Follows (OnEntries view entries) (some k)
      (.next wanted) ((recordedDir lw nameMax info).step dir (.next wanted)) := by
  have hlt : k < entries.length := (List.getElem?_eq_some_iff.mp hentry).1
  obtain ⟨hsome, hnext⟩ := hdoc.next dir de (by rw [hview]; exact hentry)
  have hstay := hdoc.fill_stays (lw.dirEntryNext dir).1 de.inode
  have hret : dirnext lw.recorded nameMax info (dir, []) wanted =
      (((lw.rawInodeFill2 (lw.dirEntryNext dir).1 de.inode).1,
        [.entry (some de), .inode de.inode
          (lw.rawInodeFill2 (lw.dirEntryNext dir).1 de.inode).2.2]),
        result (lw.rawInodeFill2 (lw.dirEntryNext dir).1 de.inode).2.2
          { filename := if wanted.filename then some (filenameCopy nameMax de.name) else none
            stat := if wanted.stat then some (setStat info de.inode
              (lw.rawInodeFill2 (lw.dirEntryNext dir).1 de.inode).2.1) else none }) := by
    simp only [dirnext, DirCalls.recorded, hsome, List.nil_append, List.singleton_append]
  have hplace : OnEntries view entries (lw.rawInodeFill2 (lw.dirEntryNext dir).1 de.inode).1
      (some (k + 1)) := by
    refine ⟨k + 1, rfl, ?_, hlt⟩
    rw [hstay, hnext, hview]
  by_cases hok : (lw.rawInodeFill2 (lw.dirEntryNext dir).1 de.inode).2.2 = 0
  · have hstep : (recordedDir lw nameMax info).step dir (.next wanted) =
        ((lw.rawInodeFill2 (lw.dirEntryNext dir).1 de.inode).1,
          .item (shownEntry nameMax info inodes wanted de), some (.item de)) := by
      simp only [recordedDir, dirCall, hret]
      have hsourced : sourced [.entry (some de), .inode de.inode
          (lw.rawInodeFill2 (lw.dirEntryNext dir).1 de.inode).2.2] = some (.item de) := by
        simp [sourced, hok]
      rw [hsourced, hdoc.filled _ _ hok, filenameCopy_eq, setStat_eq hblock, result, if_pos hok]
      rfl
    rw [hstep]
    exact ⟨some (k + 1), if_pos ⟨hentry, rfl⟩, hplace⟩
  · have hstep : (recordedDir lw nameMax info).step dir (.next wanted) =
        ((lw.rawInodeFill2 (lw.dirEntryNext dir).1 de.inode).1,
          .failed (lw.rawInodeFill2 (lw.dirEntryNext dir).1 de.inode).2.2,
          some (.broken de (lw.rawInodeFill2 (lw.dirEntryNext dir).1 de.inode).2.2)) := by
      simp only [recordedDir, dirCall, hret]
      rw [result, if_neg hok, sourced, if_pos rfl, if_pos hok]
      rfl
    rw [hstep]
    exact ⟨some (k + 1), if_pos ⟨hentry, rfl, hdoc.fill_fails _ _⟩, hplace⟩

theorem dirreset_follows (hdoc : lw.Documented entriesOf inodes view)
    (hd : OnEntries view entries dir place) :
    (dirListing nameMax info inodes entries).Follows (OnEntries view entries) place .rewind
      ((recordedDir lw nameMax info).step dir .rewind) := by
  obtain ⟨k, rfl, hview, -⟩ := hd
  refine ⟨some 0, rfl, 0, rfl, ?_, Nat.zero_le _⟩
  change view (lw.dirEntryRewind dir) = _
  rw [hdoc.rewound, hview]

end Follows

/-! ## A directory in memory -/

/-- Directories in which inode 13 cannot be read. -/
def memoryDir (inodes : Nat → Inode) : DirCalls (List DirEntry) DirView where
  dirOpen mp _ := (mp, ⟨mp, 0⟩, 0)
  dirEntryRewind dir := ⟨dir.entries, 0⟩
  dirEntryNext dir :=
    match dir.entries[dir.place]? with
    | some de => (⟨dir.entries, dir.place + 1⟩, some de)
    | none => (dir, none)
  rawInodeFill2 dir ino := (dir, inodes ino, if ino = 13 then 5 else 0)

theorem memoryDir_documented (inodes : Nat → Inode) :
    (memoryDir inodes).Documented (fun mp _ => mp) inodes id where
  opened _ _ _ := rfl
  rewound _ := rfl
  next dir de h := by
    change dir.entries[dir.place]? = some de at h
    simp [memoryDir, h]
  atEnd dir h := by
    have hnone : dir.entries[dir.place]? = none := List.getElem?_eq_none_iff.mpr h
    simp [memoryDir, hnone]
  filled _ _ _ := rfl
  fill_stays _ _ := rfl
  fill_fails dir ino := by
    change (if ino = 13 then 5 else 0) ≠ enoent
    split <;> decide

def sampleInodes (ino : Nat) : Inode := ⟨0o100644, 1, 0, 0, 100 * ino, 1, 2, 3, 8⟩

end LibDvm.Ext
