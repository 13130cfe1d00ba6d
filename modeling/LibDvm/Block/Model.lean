import LibDvm.Cache.Atomic
import LibDvm.Lib.Window

/-! # Block devices

How a mounted volume reaches its disc: the `disk_*` functions that `fat_driver.c` gives
to FatFs and the `_ext4_dev_*` callbacks that `ext4_driver.c` gives to lwext4, under
their own names. The disc is whatever answers the calls of its function table `vt`.
-/

namespace LibDvm.Block

open Cache

/-! ## Volumes -/

/-- The disc range of a `FatVolume`. -/
structure FatVolume where
  startSector : Nat
  numSectors : Nat
  startSector_lt : startSector < 2 ^ 32
  numSectors_lt : numSectors < 2 ^ 32

/-- The `ext4_blockdev` of an `Ext4Volume`, with `ph_bsize` and `ph_bbuf` of its interface.
The partition is counted in bytes. -/
structure Ext4Blockdev where
  phBsize : Nat
  phBbuf : Nat
  partOffset : Nat
  partSize : Nat

/-- What the two drivers return: `DRESULT`, and an error number of lwext4. -/
inductive Code where
  | resOk
  | resError
  | resParerr
  | eok
  | eio
deriving DecidableEq

/-- `FEATURE_MEDIUM_CANWRITE` among the features of a disc; its bit comes from the platform. -/
def canWrite (mediumCanwrite : Nat) (disc : DvmDisc) : Bool :=
  disc.features &&& mediumCanwrite != 0

inductive IoctlCmd where
  | ctrlSync
  | getSectorCount
  | getSectorSize
  | getBlockSize
  | other
deriving DecidableEq

section Calls

variable {σ α : Type} (vt : Machine σ (Call α) (Reply α))

/-! ## FAT -/

/-- `vol->start_sector + (sec_t)sector_`. -/
def FatVolume.sector (vol : FatVolume) (sector : Nat) : Nat :=
  secWrap (vol.startSector + secWrap sector)

/-- `disk_read`, with the caller's sectors afterwards. `opt` is the flag for a partial read. -/
def diskRead (disc : σ) (vol : FatVolume) (address : Nat) (buff : Nat → α)
    (sector count : Nat) (opt : Bool) : σ × Code × List α :=
  let r := vt.step disc (.read address buff (vol.sector sector) count opt)
  (r.1, if r.2.ok then .resOk else .resError, r.2.data)

def diskWrite (disc : σ) (vol : FatVolume) (address : Nat) (buff : Nat → α)
    (sector count : Nat) (opt : Bool) : σ × Code × List α :=
  let r := vt.step disc (.write address buff (vol.sector sector) count opt)
  (r.1, if r.2.ok then .resOk else .resError, r.2.data)

/-- `disk_ioctl`, with what it stores for the caller. -/
def diskIoctl (base : σ → DvmDisc) (disc : σ) (vol : FatVolume) :
    IoctlCmd → σ × Code × Option Nat
  | .other => (disc, .resParerr, none)
  | .ctrlSync =>
      let r := vt.step disc .flush
      (r.1, if r.2.ok then .resOk else .resError, none)
  | .getSectorCount =>
      (disc, if secNot vol.numSectors ≠ 0 then .resOk else .resError, some vol.numSectors)
  | .getSectorSize => (disc, .resOk, some (base disc).sectorSz)
  | .getBlockSize => (disc, .resOk, some (base disc).blockSz)

/-! ## ext -/

/-- `_ext4_dev_bread`. Only the transfers of lwext4's own buffer are partial. -/
def devBread (disc : σ) (bdev : Ext4Blockdev) (address : Nat) (buf : Nat → α)
    (blkId blkCnt : Nat) : σ × Code × List α :=
  let r := vt.step disc (.read address buf (secWrap blkId) blkCnt (bdev.phBbuf == address))
  (r.1, if r.2.ok then .eok else .eio, r.2.data)

/-- `_ext4_dev_bwrite`. -/
def devBwrite (disc : σ) (bdev : Ext4Blockdev) (address : Nat) (buf : Nat → α)
    (blkId blkCnt : Nat) : σ × Code × List α :=
  let r := vt.step disc (.write address buf (secWrap blkId) blkCnt (bdev.phBbuf == address))
  (r.1, if r.2.ok then .eok else .eio, r.2.data)

/-- `_ext4_dev_flush`. -/
def devFlush (disc : σ) : σ × Code :=
  let r := vt.step disc .flush
  (r.1, if r.2.ok then .eok else .eio)

end Calls

/-! ## Volumes of either kind -/

inductive BlockVolume where
  | fat (vol : FatVolume)
  | ext (bdev : Ext4Blockdev)

/-- What a file system asks of its volume. FatFs counts the sectors of the volume, lwext4
those of the disc. -/
inductive BlockCall (α : Type) where
  | read (address : Nat) (buffer : Nat → α) (sector count : Nat) (opt : Bool)
  | write (address : Nat) (buffer : Nat → α) (sector count : Nat) (opt : Bool)
  | sync

structure BlockReply (α : Type) where
  code : Code
  data : List α

namespace BlockVolume

def window : BlockVolume → Window
  | .fat vol => ⟨vol.startSector, vol.numSectors⟩
  | .ext bdev => ⟨bdev.partOffset / bdev.phBsize, bdev.partSize / bdev.phBsize⟩

/-- The number by which the file system calls the first sector of the volume. -/
def origin (vol : BlockVolume) : Nat :=
  match vol with
  | .fat _ => 0
  | .ext _ => vol.window.start

def call {σ α : Type} (vt : Machine σ (Call α) (Reply α)) (base : σ → DvmDisc) (disc : σ) :
    BlockVolume → BlockCall α → σ × BlockReply α
  | .fat vol, .read address buffer sector count opt =>
      let r := diskRead vt disc vol address buffer sector count opt
      (r.1, ⟨r.2.1, r.2.2⟩)
  | .fat vol, .write address buffer sector count opt =>
      let r := diskWrite vt disc vol address buffer sector count opt
      (r.1, ⟨r.2.1, r.2.2⟩)
  | .fat vol, .sync =>
      let r := diskIoctl vt base disc vol .ctrlSync
      (r.1, ⟨r.2.1, []⟩)
  | .ext bdev, .read address buffer sector count _ =>
      let r := devBread vt disc bdev address buffer sector count
      (r.1, ⟨r.2.1, r.2.2⟩)
  | .ext bdev, .write address buffer sector count _ =>
      let r := devBwrite vt disc bdev address buffer sector count
      (r.1, ⟨r.2.1, r.2.2⟩)
  | .ext _, .sync =>
      let r := devFlush vt disc
      (r.1, ⟨r.2, []⟩)

end BlockVolume

/-- Any number of volumes on one disc. Each answer is marked with the volume it is for. -/
def volumes {σ α κ : Type} (vt : Machine σ (Call α) (Reply α)) (base : σ → DvmDisc)
    (vols : κ → BlockVolume) : Machine σ (κ × BlockCall α) (κ × BlockReply α) where
  step disc i :=
    let r := (vols i.1).call vt base disc i.2
    (r.1, (i.1, r.2))

end LibDvm.Block
