import LibDvm.Lib.Machine
import Mathlib.Logic.Function.Basic
import Mathlib.Algebra.Order.Ring.Int

/-! # Files on ext volumes

The open, close, write and utimes calls of `ext4_driver.c` under their own names, and the
session they make up on a mounted volume. lwext4 is a parameter; its calls return an error
number, 0 being `EOK`.
-/

namespace LibDvm.Ext

abbrev Name := List UInt8

/-! ## lwext4 -/

/-- What the driver calls; `μ` is the state of a mount point, `φ` an `ext4_file`. -/
structure Lwext4 (μ φ : Type) where
  fopen2 : μ → (path : Name) → (flags : Nat) → μ × φ × Nat
  fclose : μ → φ → μ × Nat
  /-- The number of bytes written comes last. -/
  fwrite : μ → φ → List UInt8 → μ × φ × Nat × Nat
  atimeSet : μ → (path : Name) → (atime : Nat) → μ × Nat
  mtimeSet : μ → (path : Name) → (mtime : Nat) → μ × Nat
  cacheWriteBack : μ → (on : Bool) → μ × Nat

/-- `_ext4_strip_device`. -/
def stripDevice (path : Name) : Name :=
  if 0x3a ∈ path then (path.dropWhile (· ≠ 0x3a)).tail else path

/-- `r->_errno == EOK ? ret : -1`. -/
def result {ρ : Type} (errno : Nat) (ret : ρ) : Except Nat ρ :=
  if errno = 0 then .ok ret else .error errno

section Calls

variable {μ φ : Type} (lw : Lwext4 μ φ)

/-- `_ext4_open_r`. The file object is filled in whatever is returned. -/
def openFile (mp : μ) (path : Name) (flags : Nat) : μ × φ × Except Nat Unit :=
  let opened := lw.fopen2 mp (stripDevice path) flags
  let r := if opened.2.2 = 0 then lw.cacheWriteBack opened.1 true else (opened.1, opened.2.2)
  (r.1, opened.2.1, result r.2 ())

/-- `_ext4_close_r`. -/
def close (mp : μ) (fil : φ) : μ × Except Nat Unit :=
  let r := lw.fclose (lw.cacheWriteBack mp false).1 fil
  (r.1, result r.2 ())

/-- `_ext4_write_r`. -/
def write (mp : μ) (fil : φ) (buf : List UInt8) : μ × φ × Except Nat Nat :=
  let r := lw.fwrite mp fil buf
  (r.1, r.2.1, result r.2.2.1 r.2.2.2)

/-- Conversion to `uint32_t`. -/
def u32 (t : Int) : Nat := (t % 2 ^ 32).toNat

/-- `_ext4_utimes_r` up to the lowering; `now` is `time(NULL)`. -/
def utimesSet (mp : μ) (path : Name) (times : Option (Int × Int)) (now : Int) : μ × Nat :=
  let stamps := times.getD (now, now)
  let r := lw.cacheWriteBack mp true
  let r := if r.2 = 0 then lw.atimeSet r.1 (stripDevice path) (u32 stamps.1) else r
  if r.2 = 0 then lw.mtimeSet r.1 (stripDevice path) (u32 stamps.2) else r

/-- `_ext4_utimes_r`. -/
def utimes (mp : μ) (path : Name) (times : Option (Int × Int)) (now : Int) :
    μ × Except Nat Unit :=
  let r := utimesSet lw mp path times now
  ((lw.cacheWriteBack r.1 false).1, result r.2 ())

end Calls

/-! ## The session as a machine -/

/-- The mount point, and the files behind the descriptors the C library has handed out. -/
structure Session (μ φ : Type) where
  mp : μ
  files : Nat → Option φ

/-- Calls through the device table; `fd` names a descriptor. -/
inductive Call where
  | openFile (fd : Nat) (path : Name) (flags : Nat)
  | write (fd : Nat) (buf : List UInt8)
  | utimes (path : Name) (times : Option (Int × Int)) (now : Int)
  | close (fd : Nat)

/-- What a call returns; a call on a descriptor that is not open never reaches the device. -/
inductive Reply where
  | notOpen
  | done (ret : Except Nat Unit)
  | count (ret : Except Nat Nat)

/-- One call. The C library keeps the descriptor of an open that succeeds, and gives up the
one of a close whatever that returns. -/
def call {μ φ : Type} (lw : Lwext4 μ φ) (s : Session μ φ) : Call → Session μ φ × Reply
  | .openFile fd path flags =>
      let r := openFile lw s.mp path flags
      match r.2.2 with
      | .ok _ => (⟨r.1, Function.update s.files fd (some r.2.1)⟩, .done (.ok ()))
      | .error e => ({ s with mp := r.1 }, .done (.error e))
  | .write fd buf =>
      match s.files fd with
      | none => (s, .notOpen)
      | some fil =>
          let r := write lw s.mp fil buf
          (⟨r.1, Function.update s.files fd (some r.2.1)⟩, .count r.2.2)
  | .utimes path times now =>
      let r := utimes lw s.mp path times now
      ({ s with mp := r.1 }, .done r.2)
  | .close fd =>
      match s.files fd with
      | none => (s, .notOpen)
      | some fil =>
          let r := close lw s.mp fil
          (⟨r.1, Function.update s.files fd none⟩, .done r.2)

def session {μ φ : Type} (lw : Lwext4 μ φ) : Machine (Session μ φ) Call Reply := ⟨call lw⟩

end LibDvm.Ext
