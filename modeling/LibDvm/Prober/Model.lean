import LibDvm.Disc.Model
import LibDvm.Lib.Store
import LibDvm.Lib.Words

/-! # The partition prober

`dvm_prober.c` under its own names: the classification of a boot sector and the
reading of a partition table. Buffers are byte stores; the byte order of the host is
a parameter. The pointers a caller passes are taken to be valid.
-/

namespace LibDvm.Prober

open Words Store

/-! ## Data model -/

/-- `DvmPartInfo`. -/
structure DvmPartInfo where
  index : Nat
  type : Nat
  fstype : Option String
  startSector : Nat
  numSectors : Nat
deriving DecidableEq

/-- `DvmMbrPartEntry` without its padding, the two `_le` fields decoded. -/
structure DvmMbrPartEntry where
  status : Nat
  type : Nat
  startLba : Nat
  numSectors : Nat

/-- A disc as the prober sees it: a read of `count` sectors, the `call`-th one made,
delivers bytes or fails. It may depend on the size the disc claims at that moment. -/
structure ProbeDisc where
  disc : DvmDisc
  readSectors : (call numSectors first count : Nat) → Option (Nat → UInt8)

/-! ## Fields of a sector -/

def dvmIsPo2 (x : Nat) : Bool := x &&& (x - 1) == 0

def dvmRead8 (buf : Nat → UInt8) (offset : Nat) : Nat := byte buf offset

def dvmRead16 (order : ByteOrder) (buf : Nat → UInt8) (offset : Nat) : Nat :=
  le16 order (load16 order buf offset)

def dvmRead32 (order : ByteOrder) (buf : Nat → UInt8) (offset : Nat) : Nat :=
  le32 order (load32 order buf offset)

/-- `memcmp(buf + offset, text, strlen(text)) == 0`. -/
def hasText (buf : Nat → UInt8) (offset : Nat) (text : String) : Bool :=
  text.toList.zipIdx.all fun (c, i) => byte buf (offset + i) == c.toNat

/-! ## Classification -/

/-- The FAT12/FAT16 test of `_dvmIdentMbrVbr`. -/
def isFat12Or16 (order : ByteOrder) (buf : Nat → UInt8) : Bool :=
  let bytesPerSector := dvmRead16 order buf 0x00b
  let sectorsPerCluster := dvmRead8 buf 0x00d
  let numRsvdSectors := dvmRead16 order buf 0x00e
  let numFats := dvmRead8 buf 0x010
  let numRootEntries := dvmRead16 order buf 0x011
  let totalSectors16 := dvmRead16 order buf 0x013
  let sectorsPerFat := dvmRead16 order buf 0x016
  let totalSectors32 := dvmRead32 order buf 0x020
  dvmIsPo2 bytesPerSector && dvmIsPo2 sectorsPerCluster && decide (numRsvdSectors > 0) &&
    (numFats == 1 || numFats == 2) && decide (numRootEntries > 0) &&
    (decide (totalSectors16 ≥ 0x40) || decide (totalSectors32 ≥ 0x10000)) &&
    decide (sectorsPerFat > 0)

/-- `_dvmIdentMbrVbr`: a file system, the empty text for an MBR, or nothing. -/
def dvmIdentMbrVbr (order : ByteOrder) (buf : Nat → UInt8) : Option String :=
  let jmp := dvmRead8 buf 0
  let hasSignature := dvmRead16 order buf 0x1fe == 0xaa55
  let isVbr := hasSignature && (jmp == 0xeb || jmp == 0xe9 || jmp == 0xe8)
  if isVbr && hasText buf 3 "NTFS    " then some "ntfs"
  else if isVbr && hasText buf 3 "EXFAT   " then some "exfat"
  else if isVbr && hasText buf 0x052 "FAT32   " then some "vfat"
  else if isVbr && isFat12Or16 order buf then some "vfat"
  else if hasSignature then some ""
  else if dvmRead16 order buf 0x438 == 0xef53 then some "ext2"
  else none

/-! ## The partition table -/

def mbrPart (order : ByteOrder) (buf : Nat → UInt8) (i : Nat) : DvmMbrPartEntry :=
  let entry := 0x1be + 16 * i
  ⟨dvmRead8 buf entry, dvmRead8 buf (entry + 4), dvmRead32 order buf (entry + 8),
    dvmRead32 order buf (entry + 12)⟩

namespace DvmMbrPartEntry

def malformed (e : DvmMbrPartEntry) : Bool := e.status != 0x80 && e.status != 0x00

/-- Not an unpopulated or an extended partition. -/
def populated (e : DvmMbrPartEntry) : Bool :=
  !(e.type == 0x00 || e.type == 0x05 || e.type == 0x0f)

/-- `part_end`, as the code adds it. -/
def partEnd (e : DvmMbrPartEntry) : Nat := secWrap (e.startLba + e.numSectors)

def info (e : DvmMbrPartEntry) (i : Nat) : DvmPartInfo :=
  ⟨i + 1, e.type, none, e.startLba, e.numSectors⟩

end DvmMbrPartEntry

/-- What the entry loop has found: whether it met a malformed entry, the end of the
last used sector, and the records written. -/
structure PartScan where
  malformed : Bool
  totalUsedSectors : Nat
  out : List DvmPartInfo

/-- The entry loop over the slots still to visit. -/
def partLoop (entry : Nat → DvmMbrPartEntry) (maxPartitions : Nat) :
    List Nat → Nat → List DvmPartInfo → PartScan
  | [], total, out => ⟨false, total, out⟩
  | i :: rest, total, out =>
      if out.length < maxPartitions then
        let e := entry i
        if e.malformed then ⟨true, total, out⟩
        else if !e.populated then partLoop entry maxPartitions rest total out
        else partLoop entry maxPartitions rest (if e.partEnd > total then e.partEnd else total)
          (out ++ [e.info i])
      else ⟨false, total, out⟩

/-- One read of the prober into its buffer. The bytes past the whole sectors stay. -/
def readInto (d : ProbeDisc) (buf : Nat → UInt8) (bufSz call numSectors first : Nat) :
    Option (Nat → UInt8) :=
  (d.readSectors call numSectors first (bufSz / d.disc.sectorSz)).map fun data =>
    blit buf 0 data 0 (bufSz / d.disc.sectorSz * d.disc.sectorSz)

/-- The identify loop; the flag tells whether every read succeeded. -/
def identLoop (order : ByteOrder) (d : ProbeDisc) (bufSz numSectors : Nat) :
    List DvmPartInfo → (Nat → UInt8) → Nat → List DvmPartInfo × Bool
  | [], _, _ => ([], true)
  | part :: rest, buf, call =>
      match readInto d buf bufSz call numSectors part.startSector with
      | none => (part :: rest, false)
      | some buf =>
          let ident := dvmIdentMbrVbr order buf
          let part := match ident with
            | some text => if text ≠ "" then { part with fstype := some text } else part
            | none => part
          let done := identLoop order d bufSz numSectors rest buf (call + 1)
          (part :: done.1, done.2)

/-- `DVM_IDENT_FSTYPE`. -/
def dvmIdentFstype : Nat := 1

/-- The number returned, the records in `out` and the size left on the disc. -/
structure ProbeResult where
  ret : Nat
  out : List DvmPartInfo
  numSectors : Nat
deriving DecidableEq

/-- The part of `_dvmReadPartitionTable` from the MBR on. -/
def readMbr (order : ByteOrder) (d : ProbeDisc) (maxPartitions flags : Nat)
    (buf : Nat → UInt8) (bufSz : Nat) : ProbeResult :=
  let scan := partLoop (mbrPart order buf) maxPartitions [0, 1, 2, 3] 0 []
  if scan.malformed then ⟨0, scan.out, d.disc.numSectors⟩
  else
    let unknown := secNot d.disc.numSectors == 0
    let numSectors := if unknown then scan.totalUsedSectors else d.disc.numSectors
    if !unknown && decide (scan.totalUsedSectors > d.disc.numSectors) then
      ⟨0, scan.out, numSectors⟩
    else if flags &&& dvmIdentFstype ≠ 0 then
      let done := identLoop order d bufSz numSectors scan.out buf 1
      ⟨if done.2 then scan.out.length else 0, done.1, numSectors⟩
    else ⟨scan.out.length, scan.out, numSectors⟩

/-- `_dvmReadPartitionTable`, with the buffer it is given. -/
def dvmReadPartitionTableBuf (order : ByteOrder) (d : ProbeDisc) (maxPartitions flags : Nat)
    (buf : Nat → UInt8) (bufSz : Nat) : ProbeResult :=
  match readInto d buf bufSz 0 d.disc.numSectors 0 with
  | none => ⟨0, [], d.disc.numSectors⟩
  | some buf =>
      match dvmIdentMbrVbr order buf with
      | none => ⟨0, [], d.disc.numSectors⟩
      | some text =>
          if text ≠ "" then
            ⟨1, [⟨0, 0, some text, 0, d.disc.numSectors⟩], d.disc.numSectors⟩
          else readMbr order d maxPartitions flags buf bufSz

/-- Size of the buffer: `MIN_BUF_SZ` or one sector. -/
def bufferSize (d : ProbeDisc) : Nat :=
  if d.disc.sectorSz < 2048 then 2048 else d.disc.sectorSz

/-- `dvmReadPartitionTable`. `allocated` is the buffer `aligned_alloc` returns, if any. -/
def dvmReadPartitionTable (order : ByteOrder) (d : ProbeDisc) (maxPartitions flags : Nat)
    (allocated : Option (Nat → UInt8)) : ProbeResult :=
  if maxPartitions = 0 then ⟨0, [], d.disc.numSectors⟩
  else match allocated with
    | none => ⟨0, [], d.disc.numSectors⟩
    | some buf => dvmReadPartitionTableBuf order d maxPartitions flags buf (bufferSize d)

end LibDvm.Prober
