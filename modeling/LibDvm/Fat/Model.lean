import Mathlib.Algebra.Order.Ring.Int

/-! # Files on FAT volumes

The open, seek and truncate calls of `fat_driver.c` under their own names. FatFs is a
parameter: its calls on an open file object, and `f_open` on a volume. `off_t` and
`FSIZE_t` are 64 bits wide.
-/

namespace LibDvm.Fat

abbrev Name := List UInt8

/-! ## Results of FatFs and their error numbers -/

/-- `FRESULT`; `other` is a code behind the last one. -/
inductive FResult where
  | ok
  | diskErr
  | intErr
  | notReady
  | noFile
  | noPath
  | invalidName
  | denied
  | exist
  | invalidObject
  | writeProtected
  | invalidDrive
  | notEnabled
  | noFilesystem
  | mkfsAborted
  | timeout
  | locked
  | notEnoughCore
  | tooManyOpenFiles
  | invalidParameter
  | other (code : Nat)
deriving DecidableEq

inductive Errno where
  | eio
  | einval
  | enoent
  | eacces
  | eexist
  | efault
  | erofs
  | enodev
  | enoexec
  | enfile
  | eagain
  | ebusy
  | enomem
  | emfile
deriving DecidableEq

/-- `fr_to_errno`, 0 being `none`. -/
def frToErrno : FResult → Option Errno
  | .ok => none
  | .diskErr => some .eio
  | .intErr => some .einval
  | .notReady => some .eio
  | .noFile => some .enoent
  | .noPath => some .enoent
  | .invalidName => some .einval
  | .denied => some .eacces
  | .exist => some .eexist
  | .invalidObject => some .efault
  | .writeProtected => some .erofs
  | .invalidDrive => some .enodev
  | .notEnabled => some .enoexec
  | .noFilesystem => some .enfile
  | .mkfsAborted => some .enoexec
  | .timeout => some .eagain
  | .locked => some .ebusy
  | .notEnoughCore => some .enomem
  | .tooManyOpenFiles => some .emfile
  | .invalidParameter => some .einval
  | .other _ => some .einval

/-- `_FAT_set_errno(fr, &r->_errno) ? ret : -1`. -/
def setErrno {ρ : Type} (fr : FResult) (ret : ρ) : Except Errno ρ :=
  match frToErrno fr with
  | none => .ok ret
  | some errno => .error errno

/-! ## FatFs -/

/-- What the driver calls on an open file; `φ` is FatFs's state, `fp` and its volume. -/
structure FileCalls (φ : Type) where
  fTell : φ → Nat
  fSize : φ → Nat
  fLseek : φ → Nat → φ × FResult
  fTruncate : φ → φ × FResult
  /-- `f_expand` with `opt` 1. -/
  fExpand : φ → Nat → φ × FResult

/-- `f_open` on a volume. -/
structure VolumeCalls (ν : Type) where
  fOpen : ν → (path : Name) → (mode : Nat) → ν × FResult

/-! ## Opening -/

/-- `_FAT_strip_device`. -/
def stripDevice (path : Name) : Name :=
  if 0x3a ∈ path then (path.dropWhile (· ≠ 0x3a)).tail else path

abbrev oAccmode : Nat := 3
abbrev oAppend : Nat := 0x0008
abbrev oCreat : Nat := 0x0200
abbrev oTrunc : Nat := 0x0400
abbrev oExcl : Nat := 0x0800

abbrev faRead : Nat := 0x01
abbrev faWrite : Nat := 0x02
abbrev faCreateNew : Nat := 0x04
abbrev faCreateAlways : Nat := 0x08
abbrev faOpenAlways : Nat := 0x10
abbrev faOpenAppend : Nat := 0x30

/-- The access mode, or `none` for a combination `_FAT_open_r` rejects. -/
def accessMode (flags : Nat) : Option Nat :=
  match flags &&& oAccmode with
  | 0 => if flags &&& oAppend ≠ 0 then none else some faRead
  | 1 => some faWrite
  | 2 => some (faRead ||| faWrite)
  | _ => none

/-- `if (flags & flag) ffmode |= mode;` -/
def addMode (flags flag mode ffmode : Nat) : Nat :=
  if flags &&& flag ≠ 0 then ffmode ||| mode else ffmode

/-- `O_TRUNC|O_CREAT` becomes `O_TRUNC`. -/
def normalizeMode (ffmode : Nat) : Nat :=
  if ffmode &&& (faCreateAlways ||| faOpenAlways) = faCreateAlways ||| faOpenAlways then
    ffmode &&& (0xff ^^^ faOpenAlways)
  else ffmode

/-- The mode `_FAT_open_r` passes to `f_open`. -/
def openMode (flags : Nat) : Option Nat :=
  (accessMode flags).map fun ffmode =>
    let ffmode := addMode flags oCreat faOpenAlways ffmode
    let ffmode := addMode flags oExcl faCreateNew ffmode
    let ffmode := addMode flags oTrunc faCreateAlways ffmode
    let ffmode := addMode flags oAppend faOpenAppend ffmode
    normalizeMode ffmode

/-- `_FAT_open_r`. -/
def openFile {ν : Type} (fatfs : VolumeCalls ν) (vol : ν) (path : Name) (flags : Nat) :
    ν × Except Errno Unit :=
  match openMode flags with
  | none => (vol, .error .einval)
  | some ffmode =>
      let r := fatfs.fOpen vol (stripDevice path) ffmode
      (r.1, setErrno r.2 ())

/-! ## Seeking -/

/-- The `whence` of a seek; any other value is rejected. -/
inductive Whence where
  | set
  | cur
  | end
  | other
deriving DecidableEq

section Files

variable {φ : Type} (fatfs : FileCalls φ)

/-- Conversion to `FSIZE_t`. -/
def fsize (n : Int) : Nat := (n % 2 ^ 64).toNat

/-- Conversion of an `FSIZE_t` to `off_t`. -/
def toOff (n : Nat) : Int := if n < 2 ^ 63 then n else n - 2 ^ 64

def seekBase (fp : φ) : Whence → Option Nat
  | .other => none
  | .set => some 0
  | .cur => some (fatfs.fTell fp)
  | .end => some (fatfs.fSize fp)

/-- `_FAT_seek_r`. The comparison with `-offset` is one of `FSIZE_t` numbers. -/
def seek (fp : φ) (offset : Int) (whence : Whence) : φ × Except Errno Int :=
  match seekBase fatfs fp whence with
  | none => (fp, .error .einval)
  | some pos =>
      if offset ≥ 0 ∨ pos ≥ fsize (-offset) then
        let pos := fsize (pos + offset)
        let r := if pos ≠ fatfs.fTell fp then fatfs.fLseek fp pos else (fp, .ok)
        (r.1, setErrno r.2 (toOff pos))
      else (fp, setErrno .invalidParameter (toOff pos))

/-! ## Truncating -/

/-- `_FAT_ftruncate_r` after `f_expand`, up to `f_truncate`. -/
def cutAt (fp : φ) (size : Nat) : φ × FResult :=
  let r := if fatfs.fTell fp ≠ size then fatfs.fLseek fp size else (fp, .ok)
  if r.2 = .ok then fatfs.fTruncate r.1 else r

/-- `_FAT_ftruncate_r` up to `f_truncate`, with `fr` and `pos_backup`. -/
def ftruncateCut (fp : φ) (size : Int) : φ × FResult × Nat :=
  if size ≥ 0 then
    let fp := (fatfs.fExpand fp (fsize size)).1
    let posBackup := fatfs.fTell fp
    let posBackup := if posBackup > fsize size then fsize size else posBackup
    let r := cutAt fatfs fp (fsize size)
    (r.1, r.2, posBackup)
  else (fp, .invalidParameter, 0)

/-- `_FAT_ftruncate_r`. -/
def ftruncate (fp : φ) (size : Int) : φ × Except Errno Unit :=
  let cut := ftruncateCut fatfs fp size
  let r := if cut.2.1 = .ok ∧ fatfs.fTell cut.1 ≠ cut.2.2 then fatfs.fLseek cut.1 cut.2.2
    else (cut.1, cut.2.1)
  (r.1, setErrno r.2 ())

end Files

end LibDvm.Fat
