import LibDvm.Disc.Model
import LibDvm.Lib.Pull
import Mathlib.Algebra.Order.Ring.Int

/-! # The Nitro ROM file system

`nitrofs.c` under its own names. The ROM library it sits on is a parameter. The
descriptors the C library hands over are state passed in and out; `_nitroFS_cwd` is
an argument of the calls that read it.
-/

namespace LibDvm.NitroFs

abbrev Name := List UInt8

/-! ## The ROM library -/

structure NitroRomIterEntry where
  id : Nat
  name : Name
deriving DecidableEq

/-- What `nitrofs.c` calls; `ι` is the type of its iterators. -/
structure NitroRom (ι : Type) where
  /-- `NITROROM_ROOT_DIR`. -/
  rootDir : Nat
  resolvePath : (cwd : Nat) → (path : Name) → Int
  getFileSize : (id : Nat) → Nat
  readFile : (id pos len : Nat) → Option (List UInt8)
  getParentDir : (id : Nat) → Nat
  openIter : (id : Nat) → ι
  rewindIter : ι → ι
  readIter : ι → ι × Except Unit NitroRomIterEntry

/-! ## Errors and file attributes -/

inductive Errno where
  | erofs
  | enoent
  | eio
  | einval
  | enotdir
deriving DecidableEq

/-- `struct stat`, as far as `_nitroFS_set_stat` fills it in. -/
structure Stat where
  ino : Nat
  mode : Nat
  nlink : Nat
  uid : Nat
  gid : Nat
  size : Nat
deriving DecidableEq

/-- `S_IRUSR | S_IRGRP | S_IROTH`. -/
def readModes : Nat := 0o444

/-- `S_IFDIR | S_IRWXU | S_IRWXG | S_IRWXO`. -/
def dirModes : Nat := 0o40777

/-- `S_IFREG`. -/
def regMode : Nat := 0o100000

/-- `_nitroFS_file`. -/
structure NitroFile where
  pos : Nat
  fileId : Nat
deriving DecidableEq

/-- `_nitroFS_dir` without its entry buffer. -/
structure NitroDir (ι : Type) where
  it : ι
  dirId : Nat
  itPos : Nat

variable {ι : Type}

/-- `_nitroFS_strip_device`. -/
def stripDevice (path : Name) : Name :=
  if 0x3a ∈ path then (path.dropWhile (· ≠ 0x3a)).tail else path

def setStat (nr : NitroRom ι) (id : Nat) : Stat :=
  if id ≥ nr.rootDir then ⟨id, readModes ||| dirModes, 1, 1, 2, 0⟩
  else ⟨id, readModes ||| regMode, 1, 1, 2, nr.getFileSize id⟩

/-! ## Files -/

/-- `_nitroFS_open_r`. -/
def openFile (nr : NitroRom ι) (cwd : Nat) (path : Name) (flags : Nat) :
    Except Errno NitroFile :=
  if flags &&& 3 ≠ 0 then .error .erofs
  else
    let fileId := nr.resolvePath cwd (stripDevice path)
    if fileId < 0 then .error .enoent
    else .ok ⟨0, u16 fileId.toNat⟩

/-- `_nitroFS_read_r`: the bytes read, of which it returns the number. From 2^31 bytes on
that is negative as an `ssize_t`; the bytes are read all the same. -/
def read (nr : NitroRom ι) (fil : NitroFile) (len : Nat) :
    NitroFile × Except Errno (List UInt8) :=
  let maxRead := secSub (nr.getFileSize fil.fileId) fil.pos
  let len := if len < maxRead then len else maxRead
  if len = 0 then (fil, .ok [])
  else match nr.readFile fil.fileId fil.pos len with
    | none => (fil, .error .eio)
    | some bytes => ({ fil with pos := secWrap (fil.pos + len) }, .ok bytes)

/-- The `whence` of a seek; any other value is rejected. -/
inductive Whence where
  | set
  | cur
  | end
  | other
deriving DecidableEq

/-- `-offset` in 64 bits. The overflow at the least offset is undefined in C; that it wraps
is what the code does unoptimised. -/
def negOff (offset : Int) : Int := if offset = -2 ^ 63 then offset else -offset

/-- `pos += offset` in `u32`. -/
def addOff (pos : Nat) (offset : Int) : Nat := ((pos + offset) % 2 ^ 32).toNat

/-- `_nitroFS_seek_r`. -/
def seek (nr : NitroRom ι) (fil : NitroFile) (offset : Int) (whence : Whence) :
    NitroFile × Except Errno Nat :=
  let filSz := nr.getFileSize fil.fileId
  let start : Option Nat :=
    match whence with
    | .other => none
    | .set => some 0
    | .cur => some fil.pos
    | .end => some filSz
  match start with
  | none => (fil, .error .einval)
  | some pos =>
      if offset ≥ 0 ∨ (pos : Int) ≥ negOff offset then
        let pos := addOff pos offset
        let pos := if pos < filSz then pos else filSz
        ({ fil with pos := pos }, .ok pos)
      else (fil, .error .einval)

/-- `_nitroFS_fstat_r`. -/
def fstat (nr : NitroRom ι) (fil : NitroFile) : Stat := setStat nr fil.fileId

/-- `_nitroFS_stat_r`. -/
def stat (nr : NitroRom ι) (cwd : Nat) (path : Name) : Except Errno Stat :=
  let fileId := nr.resolvePath cwd (stripDevice path)
  if fileId < 0 then .error .enoent else .ok (setStat nr (u16 fileId.toNat))

/-! ## Directories -/

/-- The directory a path names, for `_nitroFS_chdir_r` and `_nitroFS_diropen_r`. -/
def resolveDir (nr : NitroRom ι) (cwd : Nat) (path : Name) : Except Errno Nat :=
  let dirId := nr.resolvePath cwd (stripDevice path)
  if dirId < nr.rootDir then .error (if dirId ≥ 0 then .enotdir else .enoent)
  else .ok dirId.toNat

/-- `_nitroFS_chdir_r`: the new `_nitroFS_cwd`. -/
def chdir (nr : NitroRom ι) (cwd : Nat) (path : Name) : Except Errno Nat :=
  (resolveDir nr cwd path).map u16

/-- `_nitroFS_diropen_r`. -/
def diropen (nr : NitroRom ι) (cwd : Nat) (path : Name) : Except Errno (NitroDir ι) :=
  (resolveDir nr cwd path).map fun dirId => ⟨nr.openIter dirId, 0, 0⟩

/-- `_nitroFS_dirreset_r`. -/
def dirreset (nr : NitroRom ι) (d : NitroDir ι) : NitroDir ι :=
  { d with it := nr.rewindIter d.it, itPos := 0 }

def dot : Name := [0x2e]

def dotDot : Name := [0x2e, 0x2e]

/-- `_nitroFS_dirnext_r`: the name and the attributes of the next entry. -/
def dirnext (nr : NitroRom ι) (d : NitroDir ι) : NitroDir ι × Except Errno (Name × Stat) :=
  if d.itPos = 0 then
    ({ d with itPos := if d.dirId > nr.rootDir then 1 else 2 }, .ok (dot, setStat nr d.dirId))
  else if d.itPos = 1 then
    ({ d with itPos := 2 }, .ok (dotDot, setStat nr (nr.getParentDir d.dirId)))
  else
    let r := nr.readIter d.it
    match r.2 with
    | .ok ent => ({ d with it := r.1 }, .ok (ent.name, setStat nr ent.id))
    | .error _ => ({ d with it := r.1 }, .error .enoent)

end LibDvm.NitroFs
