import LibDvm.Prober.Table

/-! # What the classifier accepts

`_dvmIdentMbrVbr` answers "vfat" for a boot record with the FAT32 type string or with
the geometry of a FAT12/16 volume, and "ext2" only in the absence of the signature. Its
power-of-two test also lets a zero through.
-/

namespace LibDvm.Prober

open Words

variable (order : ByteOrder) (buf : Nat → UInt8)

/-! ## The tests -/

def HasSignature : Prop := dvmRead16 order buf 0x1fe = 0xaa55

def HasJump : Prop := dvmRead8 buf 0 = 0xeb ∨ dvmRead8 buf 0 = 0xe9 ∨ dvmRead8 buf 0 = 0xe8

instance : Decidable (HasSignature order buf) := inferInstanceAs (Decidable (_ = _))

instance : Decidable (HasJump buf) := inferInstanceAs (Decidable (_ ∨ _))

structure OtherBootRecord : Prop where
  signature : HasSignature order buf
  jump : HasJump buf
  notNtfs : hasText buf 3 "NTFS    " = false
  notExfat : hasText buf 3 "EXFAT   " = false

structure FatLayout : Prop where
  reserved : 0 < dvmRead16 order buf 0x00e
  fats : dvmRead8 buf 0x010 = 1 ∨ dvmRead8 buf 0x010 = 2
  rootEntries : 0 < dvmRead16 order buf 0x011
  totalSectors : 0x40 ≤ dvmRead16 order buf 0x013 ∨ 0x10000 ≤ dvmRead32 order buf 0x020
  sectorsPerFat : 0 < dvmRead16 order buf 0x016

/-- A boot record of a FAT volume: the FAT32 type string, or a valid FAT12/16 geometry. -/
def IsFatRecord : Prop :=
  OtherBootRecord order buf ∧
    (hasText buf 0x052 "FAT32   " = true ∨
      (dvmRead16 order buf 0x00b).isPowerOfTwo ∧ (dvmRead8 buf 0x00d).isPowerOfTwo ∧
        FatLayout order buf)

/-- A sector judged by its geometry in which a zero stands for a power of two, all else
being in order. -/
structure ZeroGeometry : Prop where
  record : OtherBootRecord order buf
  notFat32 : hasText buf 0x052 "FAT32   " = false
  layout : FatLayout order buf
  bytesPerSector : dvmRead16 order buf 0x00b = 0 ∨ (dvmRead16 order buf 0x00b).isPowerOfTwo
  sectorsPerCluster : dvmRead8 buf 0x00d = 0 ∨ (dvmRead8 buf 0x00d).isPowerOfTwo
  zero : dvmRead16 order buf 0x00b = 0 ∨ dvmRead8 buf 0x00d = 0

/-! ## The power-of-two test -/

theorem dvmIsPo2_iff (x : Nat) : dvmIsPo2 x = true ↔ x = 0 ∨ x.isPowerOfTwo := by
  unfold dvmIsPo2
  rw [beq_iff_eq, and_pred_eq_zero_iff]

theorem not_isPowerOfTwo_zero : ¬ (0 : Nat).isPowerOfTwo := by
  rintro ⟨k, hk⟩
  have := Nat.two_pow_pos k
  omega

theorem isFat12Or16_iff :
    isFat12Or16 order buf = true ↔
      (dvmRead16 order buf 0x00b = 0 ∨ (dvmRead16 order buf 0x00b).isPowerOfTwo) ∧
        (dvmRead8 buf 0x00d = 0 ∨ (dvmRead8 buf 0x00d).isPowerOfTwo) ∧
        FatLayout order buf := by
  simp only [isFat12Or16, Bool.and_eq_true, Bool.or_eq_true, decide_eq_true_eq, beq_iff_eq,
    dvmIsPo2_iff]
  constructor
  · rintro ⟨⟨⟨⟨⟨⟨hbytes, hcluster⟩, hreserved⟩, hfats⟩, hroot⟩, htotal⟩, hperFat⟩
    exact ⟨hbytes, hcluster, hreserved, hfats, hroot, htotal, hperFat⟩
  · rintro ⟨hbytes, hcluster, hreserved, hfats, hroot, htotal, hperFat⟩
    exact ⟨⟨⟨⟨⟨⟨hbytes, hcluster⟩, hreserved⟩, hfats⟩, hroot⟩, htotal⟩, hperFat⟩

/-! ## The answers -/

theorem hasJump_iff :
    (dvmRead8 buf 0 == 0xeb || dvmRead8 buf 0 == 0xe9 || dvmRead8 buf 0 == 0xe8) = true ↔
      HasJump buf := by
  simp only [Bool.or_eq_true, beq_iff_eq, HasJump, or_assoc]

theorem isVbr_iff :
    (dvmRead16 order buf 0x1fe == 0xaa55 &&
        (dvmRead8 buf 0 == 0xeb || dvmRead8 buf 0 == 0xe9 || dvmRead8 buf 0 == 0xe8)) = true ↔
      HasSignature order buf ∧ HasJump buf := by
  rw [Bool.and_eq_true, hasJump_iff, beq_iff_eq, HasSignature]

theorem OtherBootRecord.ident (h : OtherBootRecord order buf) :
    dvmIdentMbrVbr order buf =
      if hasText buf 0x052 "FAT32   " || isFat12Or16 order buf then some "vfat" else some "" := by
  have hjump := (hasJump_iff buf).mpr h.jump
  have hsig : (dvmRead16 order buf 0x1fe == 0xaa55) = true := beq_iff_eq.mpr h.signature
  simp only [dvmIdentMbrVbr, hjump, hsig, h.notNtfs, h.notExfat]
  cases hasText buf 0x052 "FAT32   " <;> cases isFat12Or16 order buf <;> rfl

theorem otherBootRecord_of_vfat (h : dvmIdentMbrVbr order buf = some "vfat") :
    OtherBootRecord order buf := by
  have hvbr : HasSignature order buf ∧ HasJump buf := by
    by_contra hno
    rw [← isVbr_iff, Bool.not_eq_true] at hno
    simp only [dvmIdentMbrVbr, hno, Bool.false_and, Bool.false_eq_true, if_false] at h
    split_ifs at h <;> simp at h
  refine ⟨hvbr.1, hvbr.2, ?_, ?_⟩
  · by_contra hntfs
    simp [dvmIdentMbrVbr, (isVbr_iff order buf).mpr hvbr, Bool.eq_true_of_not_eq_false hntfs] at h
  · by_contra hexfat
    simp only [dvmIdentMbrVbr, (isVbr_iff order buf).mpr hvbr, Bool.true_and,
      Bool.eq_true_of_not_eq_false hexfat, if_true] at h
    split_ifs at h <;> simp at h

theorem dvmIdentMbrVbr_vfat_iff :
    dvmIdentMbrVbr order buf = some "vfat" ↔
      IsFatRecord order buf ∨ ZeroGeometry order buf := by
  constructor
  · intro h
    have hrecord := otherBootRecord_of_vfat order buf h
    rw [hrecord.ident] at h
    cases hfat32 : hasText buf 0x052 "FAT32   " with
    | true => exact .inl ⟨hrecord, .inl hfat32⟩
    | false =>
        have hgeometry : isFat12Or16 order buf = true := by
          by_contra hno
          simp [hfat32, hno] at h
        obtain ⟨hbytes, hcluster, hlayout⟩ := (isFat12Or16_iff order buf).mp hgeometry
        by_cases hzero : dvmRead16 order buf 0x00b = 0 ∨ dvmRead8 buf 0x00d = 0
        · exact .inr ⟨hrecord, hfat32, hlayout, hbytes, hcluster, hzero⟩
        · rw [not_or] at hzero
          exact .inl ⟨hrecord, .inr
            ⟨hbytes.resolve_left hzero.1, hcluster.resolve_left hzero.2, hlayout⟩⟩
  · rintro (⟨hrecord, hfat32 | ⟨hbytes, hcluster, hlayout⟩⟩ | hzero)
    · rw [hrecord.ident, hfat32]
      rfl
    · have hgeometry := (isFat12Or16_iff order buf).mpr ⟨.inr hbytes, .inr hcluster, hlayout⟩
      rw [hrecord.ident, hgeometry, Bool.or_true, if_pos rfl]
    · have hgeometry := (isFat12Or16_iff order buf).mpr
        ⟨hzero.bytesPerSector, hzero.sectorsPerCluster, hzero.layout⟩
      rw [hzero.record.ident, hgeometry, Bool.or_true, if_pos rfl]

theorem ZeroGeometry.not_fat (h : ZeroGeometry order buf) : ¬ IsFatRecord order buf := by
  rintro ⟨-, hfat32 | ⟨hbytes, hcluster, -⟩⟩
  · rw [h.notFat32] at hfat32
    cases hfat32
  · rcases h.zero with hzero | hzero
    · rw [hzero] at hbytes
      exact not_isPowerOfTwo_zero hbytes
    · rw [hzero] at hcluster
      exact not_isPowerOfTwo_zero hcluster

/-- A sector is taken for a FAT volume exactly when it is one, unless its geometry has a
zero for a power of two. -/
theorem vfat_exactly_fat_records :
    (dvmIdentMbrVbr order buf = some "vfat" ↔ IsFatRecord order buf) ↔
      ¬ ZeroGeometry order buf := by
  rw [dvmIdentMbrVbr_vfat_iff]
  constructor
  · intro hexact hzero
    exact hzero.not_fat order buf (hexact.mp (.inr hzero))
  · intro hzero
    exact ⟨fun h => h.resolve_right hzero, .inl⟩

/-- A boot record with the geometry of a small FAT volume, but for the two powers of two. -/
def bootSector (bytesPerSector sectorsPerCluster : Nat) (k : Nat) : UInt8 :=
  if k = 0x000 then 0xeb else if k = 0x00b then UInt8.ofNat bytesPerSector
  else if k = 0x00c then UInt8.ofNat (bytesPerSector / 2 ^ 8)
  else if k = 0x00d then UInt8.ofNat sectorsPerCluster
  else if k = 0x00e then 1 else if k = 0x010 then 2 else if k = 0x012 then 2
  else if k = 0x013 then 0x40 else if k = 0x016 then 1
  else if k = 0x1fe then 0x55 else if k = 0x1ff then 0xaa else 0

/-- Sectors of 0 bytes, clusters of 0 sectors: taken for FAT all the same. -/
theorem zero_geometry_taken_for_fat :
    dvmIdentMbrVbr .little (bootSector 0 0) = some "vfat" ∧
      ¬ IsFatRecord .little (bootSector 0 0) := by
  constructor
  · decide +kernel
  · rintro ⟨-, hfat32 | ⟨hbytes, -, -⟩⟩
    · revert hfat32
      decide +kernel
    · have hzero : dvmRead16 .little (bootSector 0 0) 0x00b = 0 := by decide +kernel
      rw [hzero] at hbytes
      exact not_isPowerOfTwo_zero hbytes

theorem dvmIdentMbrVbr_ext2_iff :
    dvmIdentMbrVbr order buf = some "ext2" ↔
      ¬ HasSignature order buf ∧ dvmRead16 order buf 0x438 = 0xef53 := by
  unfold dvmIdentMbrVbr HasSignature
  by_cases hsig : dvmRead16 order buf 0x1fe = 0xaa55
  · simp only [hsig, beq_self_eq_true, Bool.true_and, not_true, false_and, iff_false]
    split_ifs <;> simp
  · simp [hsig]

/-! ## The bytes that matter -/

section Congruence

variable {buf} {buf' : Nat → UInt8}

theorem hasText_congr {bound offset : Nat} {text : String}
    (h : ∀ i < bound, buf i = buf' i) (hin : offset + text.toList.length ≤ bound) :
    hasText buf offset text = hasText buf' offset text := by
  unfold hasText
  apply Bool.eq_iff_iff.mpr
  simp only [List.all_eq_true]
  refine forall_congr' fun pair => forall_congr' fun hpair => ?_
  have hlt : offset + pair.2 < bound := by
    have := (List.mem_zipIdx' hpair).1
    omega
  rw [byte, byte, h _ hlt]

theorem dvmRead8_congr {bound offset : Nat} (h : ∀ i < bound, buf i = buf' i)
    (hin : offset < bound) : dvmRead8 buf offset = dvmRead8 buf' offset := by
  rw [dvmRead8, dvmRead8, byte, byte, h _ hin]

theorem dvmRead16_congr {bound offset : Nat} (h : ∀ i < bound, buf i = buf' i)
    (hin : offset + 1 < bound) : dvmRead16 order buf offset = dvmRead16 order buf' offset := by
  rw [dvmRead16_eq, dvmRead16_eq, byte, byte, byte, byte, h _ hin, h offset (by omega)]

theorem dvmRead32_congr {bound offset : Nat} (h : ∀ i < bound, buf i = buf' i)
    (hin : offset + 3 < bound) : dvmRead32 order buf offset = dvmRead32 order buf' offset := by
  simp only [dvmRead32_eq, byte]
  rw [h offset (by omega), h (offset + 1) (by omega), h (offset + 2) (by omega),
    h (offset + 3) hin]

theorem dvmIdentMbrVbr_congr (h : ∀ i < 2048, buf i = buf' i) :
    dvmIdentMbrVbr order buf = dvmIdentMbrVbr order buf' := by
  have h8 (offset : Nat) (hin : offset < 2048) := dvmRead8_congr h hin
  have h16 (offset : Nat) (hin : offset + 1 < 2048) := dvmRead16_congr order h hin
  have h32 (offset : Nat) (hin : offset + 3 < 2048) := dvmRead32_congr order h hin
  have hntfs : hasText buf 3 "NTFS    " = hasText buf' 3 "NTFS    " :=
    hasText_congr h (by decide)
  have hexfat : hasText buf 3 "EXFAT   " = hasText buf' 3 "EXFAT   " :=
    hasText_congr h (by decide)
  have hfat32 : hasText buf 0x052 "FAT32   " = hasText buf' 0x052 "FAT32   " :=
    hasText_congr h (by decide)
  have hfat : isFat12Or16 order buf = isFat12Or16 order buf' := by
    unfold isFat12Or16
    rw [h16 0x00b (by decide), h8 0x00d (by decide), h16 0x00e (by decide), h8 0x010 (by decide),
      h16 0x011 (by decide), h16 0x013 (by decide), h16 0x016 (by decide), h32 0x020 (by decide)]
  unfold dvmIdentMbrVbr
  rw [h8 0 (by decide), h16 0x1fe (by decide), h16 0x438 (by decide), hntfs, hexfat, hfat32, hfat]

theorem mbrPart_congr (h : ∀ i < 512, buf i = buf' i) {slot : Nat} (hslot : slot < 4) :
    mbrPart order buf slot = mbrPart order buf' slot := by
  unfold mbrPart
  dsimp only
  rw [dvmRead8_congr h (by omega), dvmRead8_congr h (by omega),
    dvmRead32_congr order h (by omega), dvmRead32_congr order h (by omega)]

end Congruence

end LibDvm.Prober
