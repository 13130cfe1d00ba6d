import LibDvm.Fat.Time
import LibDvm.Lib.Align
import Mathlib.Tactic.Common

/-! # Attributes of files on FAT volumes

The `struct stat` of a directory entry and of an open file. Both fill in the blocks of a
file as the sectors of whole clusters, rounded up with a mask. `ino_t` holds a cluster
number, `dev_t` the type of a disc.
-/

namespace LibDvm.Fat

open Calendar

/-! ## `struct stat` -/

structure Stat where
  dev : Nat
  ino : Nat
  mode : Nat
  nlink : Nat
  uid : Nat
  gid : Nat
  rdev : Nat
  size : Int
  atime : Int
  mtime : Int
  ctime : Int
  blksize : Nat
  blocks : Int
deriving DecidableEq

/-- What the attributes of a file take from its volume: the type of the disc, sectors to a
cluster, bytes to a sector. -/
structure VolumeInfo where
  ioType : Nat
  csize : Nat
  ssize : Nat

/-- `S_IRUSR | S_IRGRP | S_IROTH`. -/
def readModes : Nat := 0o444

/-- `S_IWUSR | S_IWGRP | S_IWOTH`. -/
def writeModes : Nat := 0o222

/-- `S_IFDIR | S_IRWXU | S_IRWXG | S_IRWXO`. -/
def dirModes : Nat := 0o40777

/-- `S_IFREG`. -/
def regMode : Nat := 0o100000

/-- `S_BLKSIZE`. -/
def sBlksize : Int := 512

/-- `((size + blksize - 1) & ~((off_t)blksize - 1)) / S_BLKSIZE`, in 64 bits. -/
def stBlocks (size : Int) (blksize : Nat) : Int :=
  (toOff (fsize (size + blksize - 1) &&& (2 ^ 64 - 1 - (blksize - 1)))).tdiv sBlksize

/-! ## Directory entries -/

/-- `FILINFO`. -/
structure FileInfo extends FilInfo where
  fname : Name
  fclust : Nat
  fattrib : Nat
  fsize : Nat
deriving DecidableEq

abbrev amRdo : Nat := 0x01
abbrev amDir : Nat := 0x10

/-- `_FAT_set_stat`. -/
def setStat (mktime : Tm → Int) (vol : VolumeInfo) (fno : FileInfo) : Stat :=
  let mode := readModes
  let mode := if fno.fattrib &&& amRdo = 0 then mode ||| writeModes else mode
  let mode := if fno.fattrib &&& amDir ≠ 0 then mode ||| dirModes else mode ||| regMode
  let blksize := vol.csize * vol.ssize
  { dev := vol.ioType
    ino := fno.fclust
    mode := mode
    nlink := 1
    uid := 1
    gid := 2
    rdev := vol.ioType
    size := toOff fno.fsize
    atime := makeTime mktime fno.acdate fno.actime
    mtime := makeTime mktime fno.fdate fno.ftime
    ctime := makeTime mktime fno.crdate fno.crtime
    blksize := blksize
    blocks := stBlocks (toOff fno.fsize) blksize }

/-! ## Open files -/

/-- The fields of an open file that `_FAT_fstat_r` reads. -/
structure ObjectFields where
  sclust : Nat
  flag : Nat
  objsize : Nat

/-- `_FAT_fstat_r`. -/
def fstat (vol : VolumeInfo) (fp : ObjectFields) : Stat :=
  let mode := readModes ||| regMode
  let mode := if fp.flag &&& faWrite ≠ 0 then mode ||| writeModes else mode
  let size := if fp.sclust ≠ 0 then toOff fp.objsize else 0
  let blksize := vol.csize * vol.ssize
  { dev := vol.ioType
    ino := fp.sclust
    mode := mode
    nlink := 1
    uid := 1
    gid := 2
    rdev := vol.ioType
    size := size
    atime := 0
    mtime := 0
    ctime := 0
    blksize := blksize
    blocks := stBlocks size blksize }

/-! ## Attributes in terms of the file -/

/-- Clusters of a power of two bytes, of at least a sector of 512 bytes and at most 1 GiB. -/
structure VolumeInfo.Proper (vol : VolumeInfo) : Prop where
  cluster : ∃ k, 9 ≤ k ∧ k ≤ 30 ∧ vol.csize * vol.ssize = 2 ^ k

/-- The blocks of 512 bytes in the clusters that `size` bytes take up. -/
def clusterBlocks (vol : VolumeInfo) (size : Nat) : Nat :=
  (size + vol.csize * vol.ssize - 1) / (vol.csize * vol.ssize) * (vol.csize * vol.ssize / 512)

theorem toOff_of_lt {n : Nat} (h : n < 2 ^ 63) : toOff n = n := if_pos h

theorem stBlocks_eq {vol : VolumeInfo} (hvol : vol.Proper) {size : Nat} (hsize : size < 2 ^ 62) :
    stBlocks size (vol.csize * vol.ssize) = clusterBlocks vol size := by
  obtain ⟨k, hlow, hhigh, hk⟩ := hvol.cluster
  unfold stBlocks clusterBlocks
  rw [hk]
  have hpow : (2 : Nat) ^ k ≤ 2 ^ 30 := Nat.pow_le_pow_right (by decide) hhigh
  have hpos : 0 < (2 : Nat) ^ k := Nat.two_pow_pos k
  have hsum : fsize ((size : Int) + (2 ^ k : Nat) - 1) = size + 2 ^ k - 1 := by
    unfold fsize
    omega
  have hblk : (2 : Nat) ^ k = 512 * (2 ^ k / 512) := by
    have h512 : (512 : Nat) ∣ 2 ^ k := (Nat.pow_dvd_pow 2 hlow : (2 : Nat) ^ 9 ∣ 2 ^ k)
    exact (Nat.mul_div_cancel' h512).symm
  have hdown : Align.down (2 ^ k) (size + 2 ^ k - 1) =
      (size + 2 ^ k - 1) / 2 ^ k * (2 ^ k / 512) * 512 := by
    have hdiv := Nat.div_add_mod (size + 2 ^ k - 1) (2 ^ k)
    have hmul : (size + 2 ^ k - 1) / 2 ^ k * (2 ^ k / 512) * 512 =
        2 ^ k * ((size + 2 ^ k - 1) / 2 ^ k) := by
      rw [Nat.mul_assoc, Nat.mul_comm (2 ^ k / 512), ← hblk, Nat.mul_comm]
    rw [Align.down, hmul]
    omega
  rw [hsum, Align.and_high_mask (by omega) (by omega), toOff_of_lt, hdown]
  · have hne : sBlksize ≠ 0 := by decide
    rw [Nat.cast_mul]
    exact Int.mul_tdiv_cancel _ hne
  · have := Align.down_le (2 ^ k) (size + 2 ^ k - 1)
    omega

theorem setStat_mode (mktime : Tm → Int) (vol : VolumeInfo) (fno : FileInfo) :
    (setStat mktime vol fno).mode =
      if fno.fattrib &&& amDir ≠ 0 then 0o40777
      else if fno.fattrib &&& amRdo = 0 then 0o100666 else 0o100444 := by
  unfold setStat
  by_cases hrdo : fno.fattrib &&& amRdo = 0 <;> by_cases hdir : fno.fattrib &&& amDir ≠ 0 <;>
    simp only [hrdo, hdir, if_true, if_false] <;> rfl

end LibDvm.Fat
