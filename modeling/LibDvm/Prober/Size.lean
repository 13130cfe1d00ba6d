import LibDvm.Prober.Table

/-! # Partitions and the size of the disc

On a disc of known size the ends of the recorded partitions are checked against it;
on a disc of unknown size they become its size. Both use the ends as the entry loop
added them up.
-/

namespace LibDvm.Prober

open Words Store

variable (order : ByteOrder) (d : ProbeDisc) (maxPartitions flags : Nat)
  (allocated : Option (Nat → UInt8))

/-! ## The MBR path -/

def tableSlots : List Nat := [0, 1, 2, 3]

/-- The buffer after the read of sector 0, if it is allocated and read. -/
def sectorZero : Option (Nat → UInt8) :=
  allocated.bind fun buf => readInto d buf (bufferSize d) 0 d.disc.numSectors 0

def DvmMbrPartEntry.exactEnd (e : DvmMbrPartEntry) : Nat := e.startLba + e.numSectors

theorem partEnd_eq_exact {e : DvmMbrPartEntry} (h : e.exactEnd < 2 ^ 32) :
    e.partEnd = e.exactEnd := secWrap_of_lt h

theorem partEnd_le_exact (e : DvmMbrPartEntry) : e.partEnd ≤ e.exactEnd := Nat.mod_le _ _

theorem readPartitionTable_unread (hread : sectorZero d allocated = none) :
    dvmReadPartitionTable order d maxPartitions flags allocated = ⟨0, [], d.disc.numSectors⟩ := by
  cases allocated with
  | none => simp [dvmReadPartitionTable]
  | some buf =>
      have hnone : readInto d buf (bufferSize d) 0 d.disc.numSectors 0 = none := hread
      simp [dvmReadPartitionTable, dvmReadPartitionTableBuf, hnone]

theorem readPartitionTable_sector {buf : Nat → UInt8} (hmax : 0 < maxPartitions)
    (hread : sectorZero d allocated = some buf) :
    dvmReadPartitionTable order d maxPartitions flags allocated =
      match dvmIdentMbrVbr order buf with
      | none => ⟨0, [], d.disc.numSectors⟩
      | some text =>
          if text ≠ "" then
            ⟨1, [⟨0, 0, some text, 0, d.disc.numSectors⟩], d.disc.numSectors⟩
          else readMbr order d maxPartitions flags buf (bufferSize d) := by
  have hne : maxPartitions ≠ 0 := by omega
  cases allocated with
  | none => contradiction
  | some start =>
      have hsome : readInto d start (bufferSize d) 0 d.disc.numSectors 0 = some buf := hread
      cases hident : dvmIdentMbrVbr order buf <;>
        simp [dvmReadPartitionTable, dvmReadPartitionTableBuf, hsome, hne, hident]

theorem readPartitionTable_mbr {buf : Nat → UInt8} (hmax : 0 < maxPartitions)
    (hread : sectorZero d allocated = some buf) (hmbr : dvmIdentMbrVbr order buf = some "") :
    dvmReadPartitionTable order d maxPartitions flags allocated =
      readMbr order d maxPartitions flags buf (bufferSize d) := by
  rw [readPartitionTable_sector order d maxPartitions flags allocated hmax hread, hmbr]
  rfl

/-- The records of the entries that `readMbr` has found. -/
def mbrRecords (buf : Nat → UInt8) : List DvmPartInfo :=
  (recordedSlots (mbrPart order buf) maxPartitions tableSlots).map
    fun i => (mbrPart order buf i).info i

/-- The end of the last used sector that `readMbr` has found. -/
def mbrUsed (buf : Nat → UInt8) : Nat :=
  usedSectors (mbrPart order buf) 0 (recordedSlots (mbrPart order buf) maxPartitions tableSlots)

def MeetsMalformed (buf : Nat → UInt8) : Prop :=
  ∃ i ∈ visitedSlots (mbrPart order buf) maxPartitions tableSlots,
    (mbrPart order buf i).malformed

theorem scan_of_clean {buf : Nat → UInt8} (h : ¬ MeetsMalformed order maxPartitions buf) :
    partLoop (mbrPart order buf) maxPartitions tableSlots 0 [] =
      ⟨false, mbrUsed order maxPartitions buf, mbrRecords order maxPartitions buf⟩ := by
  have hclean : ∀ i ∈ visitedSlots (mbrPart order buf) maxPartitions tableSlots,
      (mbrPart order buf i).malformed = false := by
    intro i hi
    by_contra hbad
    exact h ⟨i, hi, by simpa using hbad⟩
  exact partLoop_wellFormed (mbrPart order buf) maxPartitions tableSlots 0 [] hclean

theorem scan_malformed {buf : Nat → UInt8} (h : MeetsMalformed order maxPartitions buf) :
    (partLoop (mbrPart order buf) maxPartitions tableSlots 0 []).malformed = true :=
  partLoop_malformed (mbrPart order buf) maxPartitions tableSlots 0 [] h

/-! ## The three ways out of `readMbr` -/

theorem readMbr_malformed {buf : Nat → UInt8} (bufSz : Nat)
    (h : MeetsMalformed order maxPartitions buf) :
    (readMbr order d maxPartitions flags buf bufSz).ret = 0 ∧
      (readMbr order d maxPartitions flags buf bufSz).numSectors = d.disc.numSectors := by
  have hscan := scan_malformed order maxPartitions h
  rw [tableSlots] at hscan
  simp [readMbr, hscan]

theorem readMbr_outOfBounds {buf : Nat → UInt8} (bufSz : Nat)
    (hclean : ¬ MeetsMalformed order maxPartitions buf) (hknown : secNot d.disc.numSectors ≠ 0)
    (hout : d.disc.numSectors < mbrUsed order maxPartitions buf) :
    (readMbr order d maxPartitions flags buf bufSz).ret = 0 ∧
      (readMbr order d maxPartitions flags buf bufSz).numSectors = d.disc.numSectors := by
  have hscan := scan_of_clean order maxPartitions hclean
  rw [tableSlots] at hscan
  simp [readMbr, hscan, hknown, hout]

theorem count_of_pos {c : Prop} [Decidable c] {n : Nat} (h : 0 < if c then n else 0) :
    (if c then n else 0) = n := by
  by_cases hc : c
  · exact if_pos hc
  · simp [hc] at h

/-- The size that the prober leaves on the disc once it has accepted the table. -/
def sizeLeft (buf : Nat → UInt8) : Nat :=
  if secNot d.disc.numSectors = 0 then mbrUsed order maxPartitions buf else d.disc.numSectors

theorem readMbr_clean {buf : Nat → UInt8} (bufSz : Nat)
    (hclean : ¬ MeetsMalformed order maxPartitions buf)
    (hin : secNot d.disc.numSectors ≠ 0 → mbrUsed order maxPartitions buf ≤ d.disc.numSectors) :
    readMbr order d maxPartitions flags buf bufSz =
      if flags &&& dvmIdentFstype = 0 then
        ⟨(mbrRecords order maxPartitions buf).length, mbrRecords order maxPartitions buf,
          sizeLeft order d maxPartitions buf⟩
      else
        let done := identLoop order d bufSz (sizeLeft order d maxPartitions buf)
          (mbrRecords order maxPartitions buf) buf 1
        ⟨if done.2 then (mbrRecords order maxPartitions buf).length else 0, done.1,
          sizeLeft order d maxPartitions buf⟩ := by
  have hscan := scan_of_clean order maxPartitions hclean
  rw [tableSlots] at hscan
  have hcheck : (!(secNot d.disc.numSectors == 0) &&
      decide (mbrUsed order maxPartitions buf > d.disc.numSectors)) = false := by
    by_cases hsize : secNot d.disc.numSectors = 0
    · simp [hsize]
    · simp [hsize, hin hsize]
  by_cases hflag : flags &&& dvmIdentFstype = 0
  · simp [readMbr, hscan, hcheck, hflag, sizeLeft]
  · simp only [readMbr, hscan, hcheck, hflag, beq_iff_eq, Bool.false_eq_true, if_false, ne_eq,
      not_false_eq_true, if_true]
    rfl

theorem readMbr_accepted {buf : Nat → UInt8} (bufSz : Nat)
    (hclean : ¬ MeetsMalformed order maxPartitions buf)
    (hin : secNot d.disc.numSectors ≠ 0 → mbrUsed order maxPartitions buf ≤ d.disc.numSectors) :
    let r := readMbr order d maxPartitions flags buf bufSz
    (0 < r.ret → r.ret = r.out.length) ∧
      r.out.map DvmPartInfo.span =
        (mbrRecords order maxPartitions buf).map DvmPartInfo.span ∧
      r.numSectors = if secNot d.disc.numSectors = 0 then mbrUsed order maxPartitions buf
        else d.disc.numSectors := by
  have hspans := identLoop_spans order d bufSz (sizeLeft order d maxPartitions buf)
    (mbrRecords order maxPartitions buf) buf 1
  have hlength := congrArg List.length hspans
  simp only [List.length_map] at hlength
  rw [readMbr_clean order d maxPartitions flags bufSz hclean hin]
  by_cases hflag : flags &&& dvmIdentFstype = 0
  · rw [if_pos hflag]
    exact ⟨fun _ => rfl, rfl, rfl⟩
  · rw [if_neg hflag]
    refine ⟨?_, hspans, rfl⟩
    intro hret
    dsimp only
    rw [hlength]
    exact count_of_pos hret

theorem readMbr_pos {buf : Nat → UInt8} {bufSz : Nat}
    (hret : 0 < (readMbr order d maxPartitions flags buf bufSz).ret) :
    ¬ MeetsMalformed order maxPartitions buf ∧
      (secNot d.disc.numSectors ≠ 0 → mbrUsed order maxPartitions buf ≤ d.disc.numSectors) := by
  have hclean : ¬ MeetsMalformed order maxPartitions buf := by
    intro hbad
    have := (readMbr_malformed order d maxPartitions flags bufSz hbad).1
    omega
  refine ⟨hclean, ?_⟩
  intro hknown
  by_contra hout
  have := (readMbr_outOfBounds order d maxPartitions flags bufSz hclean hknown (by omega)).1
  omega

theorem readPartitionTable_ret_le :
    (dvmReadPartitionTable order d maxPartitions flags allocated).ret ≤ maxPartitions := by
  rcases Nat.eq_zero_or_pos maxPartitions with h0 | hmax
  · simp [dvmReadPartitionTable, h0]
  cases hread : sectorZero d allocated with
  | none =>
      rw [readPartitionTable_unread order d maxPartitions flags allocated hread]
      exact Nat.zero_le _
  | some buf =>
      cases hident : dvmIdentMbrVbr order buf with
      | none =>
          rw [readPartitionTable_sector order d maxPartitions flags allocated hmax hread]
          simp [hident]
      | some text =>
          by_cases htext : text = ""
          · subst htext
            rw [readPartitionTable_mbr order d maxPartitions flags allocated hmax hread hident]
            rcases Nat.eq_zero_or_pos (readMbr order d maxPartitions flags buf (bufferSize d)).ret
              with hzero | hpos
            · omega
            · obtain ⟨hclean, hin⟩ := readMbr_pos order d maxPartitions flags hpos
              obtain ⟨hcount, hspans, -⟩ :=
                readMbr_accepted order d maxPartitions flags (bufferSize d) hclean hin
              have hlen := congrArg List.length hspans
              simp only [List.length_map, mbrRecords, recordedSlots, List.length_take] at hlen
              rw [hcount hpos]
              omega
          · rw [readPartitionTable_sector order d maxPartitions flags allocated hmax hread]
            simp only [hident, htext, ne_eq, not_false_eq_true, if_true]
            exact hmax

/-! ## Known size -/

theorem readMbr_known {buf : Nat → UInt8} (bufSz : Nat) (hknown : secNot d.disc.numSectors ≠ 0) :
    (readMbr order d maxPartitions flags buf bufSz).numSectors = d.disc.numSectors := by
  have hcheck : (secNot d.disc.numSectors == 0) = false := by simpa using hknown
  unfold readMbr
  simp only [hcheck, Bool.false_eq_true, if_false]
  split_ifs <;> rfl

theorem readPartitionTable_known (hknown : secNot d.disc.numSectors ≠ 0) :
    (dvmReadPartitionTable order d maxPartitions flags allocated).numSectors =
      d.disc.numSectors := by
  rcases Nat.eq_zero_or_pos maxPartitions with h0 | hmax
  · simp [dvmReadPartitionTable, h0]
  cases hread : sectorZero d allocated with
  | none => rw [readPartitionTable_unread order d maxPartitions flags allocated hread]
  | some buf =>
      rw [readPartitionTable_sector order d maxPartitions flags allocated hmax hread]
      cases dvmIdentMbrVbr order buf with
      | none => rfl
      | some text =>
          dsimp only
          split_ifs
          · rfl
          · exact readMbr_known order d maxPartitions flags _ hknown

theorem span_forall_iff {xs ys : List DvmPartInfo} {bound : Nat}
    (h : xs.map DvmPartInfo.span = ys.map DvmPartInfo.span) :
    (∀ part ∈ xs, part.startSector + part.numSectors ≤ bound) ↔
      ∀ part ∈ ys, part.startSector + part.numSectors ≤ bound := by
  have hmap (zs : List DvmPartInfo) :
      (∀ part ∈ zs, part.startSector + part.numSectors ≤ bound) ↔
        ∀ s ∈ zs.map DvmPartInfo.span, s.1 + s.2 ≤ bound := by
    simp [DvmPartInfo.span]
  rw [hmap xs, hmap ys, h]

def tableSector (parts : List DvmMbrPartEntry) (k : Nat) : UInt8 :=
  if k = 0x1fe then 0x55 else if k = 0x1ff then 0xaa
  else if k < 0x1be then 0
  else match parts[(k - 0x1be) / 16]? with
    | none => 0
    | some e =>
        let at_ := (k - 0x1be) % 16
        if at_ = 0 then UInt8.ofNat e.status
        else if at_ = 4 then UInt8.ofNat e.type
        else if at_ < 8 then 0
        else if at_ < 12 then UInt8.ofNat (e.startLba / 2 ^ (8 * (at_ - 8)))
        else UInt8.ofNat (e.numSectors / 2 ^ (8 * (at_ - 12)))

/-- A disc of 512-byte sectors that delivers the given table for every read. -/
def tableDisc (parts : List DvmMbrPartEntry) (numSectors : Nat) (h : numSectors < 2 ^ 32) :
    ProbeDisc where
  disc := plainBase numSectors h
  readSectors _ _ _ _ := some (tableSector parts)

/-- The records of the MBR path lie on a disc of known size exactly when the end of
every recorded entry fits the 32 bits it is added in. -/
theorem returned_partitions_on_disc (buf : Nat → UInt8)
    (hsize : secNot d.disc.numSectors ≠ 0)
    (hread : sectorZero d allocated = some buf) (hmbr : dvmIdentMbrVbr order buf = some "")
    (hret : 0 < (dvmReadPartitionTable order d maxPartitions flags allocated).ret) :
    (∀ part ∈ (dvmReadPartitionTable order d maxPartitions flags allocated).out.take
        (dvmReadPartitionTable order d maxPartitions flags allocated).ret,
      part.startSector + part.numSectors ≤ d.disc.numSectors) ↔
    ∀ i ∈ recordedSlots (mbrPart order buf) maxPartitions tableSlots,
      (mbrPart order buf i).startLba + (mbrPart order buf i).numSectors < 2 ^ 32 := by
  have hmax : 0 < maxPartitions := by
    rcases Nat.eq_zero_or_pos maxPartitions with h0 | hpos
    · simp [dvmReadPartitionTable, h0] at hret
    · exact hpos
  rw [readPartitionTable_mbr order d maxPartitions flags allocated hmax hread hmbr] at hret ⊢
  obtain ⟨hclean, hin⟩ := readMbr_pos order d maxPartitions flags hret
  obtain ⟨hcount, hspans, -⟩ :=
    readMbr_accepted order d maxPartitions flags (bufferSize d) hclean hin
  rw [hcount hret, List.take_length, span_forall_iff hspans]
  simp only [mbrRecords, List.forall_mem_map]
  constructor
  · intro hfit i hi
    have := d.disc.numSectors_lt
    have := hfit i hi
    simp only [DvmMbrPartEntry.info] at this
    omega
  · intro hends i hi
    have hle := partEnd_le_used (mbrPart order buf) 0 hi
    rw [partEnd_eq_exact (hends i hi)] at hle
    exact Nat.le_trans hle (hin hsize)

def smallDisc : ProbeDisc := tableDisc [⟨0x80, 0x0c, 8, 20⟩] 64 (by decide)

theorem returned_partitions_on_disc_sample :
    (dvmReadPartitionTable .little smallDisc 4 0 (some fun _ => 0)).ret = 1 ∧
      ∀ part ∈ (dvmReadPartitionTable .little smallDisc 4 0 (some fun _ => 0)).out.take
          (dvmReadPartitionTable .little smallDisc 4 0 (some fun _ => 0)).ret,
        part.startSector + part.numSectors ≤ 64 :=
  ⟨by decide +kernel,
    (returned_partitions_on_disc .little smallDisc 4 0 (some fun _ => 0)
      (blit (fun _ => 0) 0 (tableSector [⟨0x80, 0x0c, 8, 20⟩]) 0 2048)
      (by decide) rfl (by decide +kernel) (by decide +kernel)).mpr (by decide +kernel)⟩

/-- The protective entry of a GPT disc: its end wraps to zero and passes the check. -/
def protectiveDisc : ProbeDisc := tableDisc [⟨0x00, 0xee, 1, 0xffffffff⟩] 64 (by decide)

theorem protective_partition_off_disc :
    let r := dvmReadPartitionTable .little protectiveDisc 4 0 (some fun _ => 0)
    (sectorZero protectiveDisc (some fun _ => 0)).bind (dvmIdentMbrVbr .little) = some "" ∧
      r = ⟨1, [⟨1, 0xee, none, 1, 0xffffffff⟩], 64⟩ ∧
      ¬ ∀ part ∈ r.out.take r.ret,
        part.startSector + part.numSectors ≤ protectiveDisc.disc.numSectors := by
  decide +kernel

/-! ## Unknown size -/

theorem mbrPart_lt (buf : Nat → UInt8) (i : Nat) :
    (mbrPart order buf i).startLba < 2 ^ 32 ∧ (mbrPart order buf i).numSectors < 2 ^ 32 :=
  ⟨le32_load32_lt order buf _, le32_load32_lt order buf _⟩

def tableEnd (entry : Nat → DvmMbrPartEntry) : Nat :=
  ((Finset.range 4).filter fun i => (entry i).populated).sup fun i => (entry i).exactEnd

/-- The size left on the disc is still unknown, or it is the end of the last partition
of the table on sector 0 and takes in every partition of it. -/
def SizeCoversTable : Prop :=
  let size := (dvmReadPartitionTable order d maxPartitions flags allocated).numSectors
  secNot size = 0 ∨
    ∃ buf, sectorZero d allocated = some buf ∧ size = tableEnd (mbrPart order buf) ∧
      ∀ i < 4, (mbrPart order buf i).populated → (mbrPart order buf i).exactEnd ≤ size

/-- Every populated entry of the table ends within 32 bits, and no later than some
recorded one. -/
def RecordedReachEnd (buf : Nat → UInt8) : Prop :=
  ∀ i < 4, (mbrPart order buf i).populated →
    (mbrPart order buf i).exactEnd < 2 ^ 32 ∧
      ∃ r ∈ recordedSlots (mbrPart order buf) maxPartitions tableSlots,
        (mbrPart order buf i).exactEnd ≤ (mbrPart order buf r).exactEnd

def EndsAtUnknown (buf : Nat → UInt8) : Prop :=
  ∃ r ∈ recordedSlots (mbrPart order buf) maxPartitions tableSlots,
    (mbrPart order buf r).exactEnd = 2 ^ 32 - 1

theorem tableEnd_le_iff (entry : Nat → DvmMbrPartEntry) (bound : Nat) :
    tableEnd entry ≤ bound ↔ ∀ i < 4, (entry i).populated → (entry i).exactEnd ≤ bound := by
  simp only [tableEnd, Finset.sup_le_iff, Finset.mem_filter, Finset.mem_range, and_imp]

theorem exactEnd_le_tableEnd {entry : Nat → DvmMbrPartEntry} {i : Nat} (hi : i < 4)
    (hpop : (entry i).populated) : (entry i).exactEnd ≤ tableEnd entry := by
  exact (tableEnd_le_iff entry _).mp (Nat.le_refl _) i hi hpop

theorem mem_tableSlots (i : Nat) : i ∈ tableSlots ↔ i < 4 := by
  simp only [tableSlots, List.mem_cons, List.not_mem_nil, or_false]
  omega

theorem recorded_populated {buf : Nat → UInt8} {r : Nat}
    (hr : r ∈ recordedSlots (mbrPart order buf) maxPartitions tableSlots) :
    r < 4 ∧ (mbrPart order buf r).populated := by
  obtain ⟨hslot, hpop⟩ := recorded_mem (mbrPart order buf) hr
  exact ⟨(mem_tableSlots r).mp hslot, hpop⟩

theorem used_le_tableEnd (buf : Nat → UInt8) :
    mbrUsed order maxPartitions buf ≤ tableEnd (mbrPart order buf) := by
  rw [mbrUsed, usedSectors_le_iff]
  refine ⟨Nat.zero_le _, ?_⟩
  intro r hr
  obtain ⟨hslot, hpop⟩ := recorded_populated order maxPartitions hr
  exact Nat.le_trans (partEnd_le_exact _) (exactEnd_le_tableEnd hslot hpop)

/-- The running maximum is the end of the table exactly when the recorded entries
reach it without a wrap. -/
theorem used_eq_tableEnd_iff (hmax : 0 < maxPartitions) (buf : Nat → UInt8) :
    mbrUsed order maxPartitions buf = tableEnd (mbrPart order buf) ↔
      RecordedReachEnd order maxPartitions buf := by
  constructor
  · intro heq i hi hpop
    have hlt := usedSectors_lt (mbrPart order buf)
      (recordedSlots (mbrPart order buf) maxPartitions tableSlots)
    have hend := exactEnd_le_tableEnd hi hpop
    rw [← heq] at hend
    refine ⟨Nat.lt_of_le_of_lt hend hlt, ?_⟩
    rcases Nat.eq_zero_or_pos (mbrPart order buf i).exactEnd with hzero | hpos
    · obtain ⟨r, hr⟩ := recorded_nonempty (mbrPart order buf) hmax ((mem_tableSlots i).mpr hi) hpop
      exact ⟨r, hr, by omega⟩
    · have hbelow : (mbrPart order buf i).exactEnd - 1 < mbrUsed order maxPartitions buf := by
        omega
      obtain ⟨r, hr, hlast⟩ := (lt_used_iff (mbrPart order buf) _ _).mp hbelow
      have := partEnd_le_exact (mbrPart order buf r)
      exact ⟨r, hr, by omega⟩
  · intro hreach
    apply Nat.le_antisymm (used_le_tableEnd order maxPartitions buf)
    rw [tableEnd_le_iff]
    intro i hi hpop
    obtain ⟨-, r, hr, hle⟩ := hreach i hi hpop
    obtain ⟨hslot, hrpop⟩ := recorded_populated order maxPartitions hr
    have hfit := (hreach r hslot hrpop).1
    calc (mbrPart order buf i).exactEnd
        ≤ (mbrPart order buf r).exactEnd := hle
      _ = (mbrPart order buf r).partEnd := (partEnd_eq_exact hfit).symm
      _ ≤ mbrUsed order maxPartitions buf := partEnd_le_used (mbrPart order buf) 0 hr

theorem used_unknown_iff (buf : Nat → UInt8) :
    secNot (mbrUsed order maxPartitions buf) = 0 ↔ EndsAtUnknown order maxPartitions buf := by
  have hlt := usedSectors_lt (mbrPart order buf)
    (recordedSlots (mbrPart order buf) maxPartitions tableSlots)
  have htop (r : Nat) : 2 ^ 32 - 2 < (mbrPart order buf r).partEnd ↔
      (mbrPart order buf r).exactEnd = 2 ^ 32 - 1 := by
    have hb := mbrPart_lt order buf r
    unfold DvmMbrPartEntry.partEnd DvmMbrPartEntry.exactEnd secWrap
    omega
  calc secNot (mbrUsed order maxPartitions buf) = 0
      ↔ 2 ^ 32 - 2 < mbrUsed order maxPartitions buf := by
        unfold secNot
        unfold mbrUsed
        omega
    _ ↔ ∃ r ∈ recordedSlots (mbrPart order buf) maxPartitions tableSlots,
        2 ^ 32 - 2 < (mbrPart order buf r).partEnd := lt_used_iff (mbrPart order buf) _ _
    _ ↔ EndsAtUnknown order maxPartitions buf := by simp only [htop, EndsAtUnknown]

/-- The size inferred for a disc of unknown size covers the table exactly when nothing
is read or the table is rejected, or the recorded entries reach its end. -/
theorem inferred_size_covers_table (hmax : 0 < maxPartitions)
    (hunknown : secNot d.disc.numSectors = 0)
    (hmbr : ∀ buf, sectorZero d allocated = some buf → dvmIdentMbrVbr order buf = some "") :
    SizeCoversTable order d maxPartitions flags allocated ↔
      ∀ buf, sectorZero d allocated = some buf →
        MeetsMalformed order maxPartitions buf ∨ EndsAtUnknown order maxPartitions buf ∨
          RecordedReachEnd order maxPartitions buf := by
  cases hread : sectorZero d allocated with
  | none =>
      have hcall := readPartitionTable_unread order d maxPartitions flags allocated hread
      simp [SizeCoversTable, hcall, hunknown]
  | some buf =>
      have hcall := readPartitionTable_mbr order d maxPartitions flags allocated hmax hread
        (hmbr buf hread)
      simp only [Option.some.injEq, forall_eq', SizeCoversTable, hcall, hread, exists_eq_left']
      by_cases hbad : MeetsMalformed order maxPartitions buf
      · have hsize := (readMbr_malformed order d maxPartitions flags (bufferSize d) hbad).2
        simp [hsize, hunknown, hbad]
      · obtain ⟨-, -, hsize⟩ := readMbr_accepted order d maxPartitions flags (bufferSize d) hbad
          (fun hknown => absurd hunknown hknown)
        rw [if_pos hunknown] at hsize
        rw [hsize, used_unknown_iff, ← used_eq_tableEnd_iff order maxPartitions hmax buf]
        have hall (heq : mbrUsed order maxPartitions buf = tableEnd (mbrPart order buf)) :
            ∀ i < 4, (mbrPart order buf i).populated →
              (mbrPart order buf i).exactEnd ≤ mbrUsed order maxPartitions buf := by
          intro i hi hpop
          rw [heq]
          exact exactEnd_le_tableEnd hi hpop
        constructor
        · rintro (hend | ⟨heq, -⟩)
          · exact Or.inr (Or.inl hend)
          · exact Or.inr (Or.inr heq)
        · rintro (hmal | hend | heq)
          · exact absurd hmal hbad
          · exact Or.inl hend
          · exact Or.inr ⟨heq, hall heq⟩

def unsizedDisc : ProbeDisc :=
  tableDisc [⟨0x80, 0x0c, 1, 1⟩, ⟨0x00, 0x0c, 2, 2⟩] (2 ^ 32 - 1) (by decide)

theorem inferred_size_covers_table_sample :
    SizeCoversTable .little unsizedDisc 4 0 (some fun _ => 0) := by
  refine (inferred_size_covers_table .little unsizedDisc 4 0 (some fun _ => 0) (by decide)
    (by decide) ?_).mpr ?_
  · intro buf hbuf
    cases hbuf
    decide +kernel
  · intro buf hbuf
    cases hbuf
    refine Or.inr (Or.inr ?_)
    unfold RecordedReachEnd
    decide +kernel

/-- With room for one record the size ends at the first partition; with the protective
entry of a GPT disc it wraps to zero. -/
theorem inferred_size_misses_table :
    ¬ SizeCoversTable .little unsizedDisc 1 0 (some fun _ => 0) ∧
      ¬ SizeCoversTable .little
        (tableDisc [⟨0x00, 0xee, 1, 0xffffffff⟩] (2 ^ 32 - 1) (by decide)) 4 0
        (some fun _ => 0) := by
  constructor
  · rintro (hunknown | ⟨buf, hbuf, hsize, -⟩)
    · revert hunknown
      decide +kernel
    · cases hbuf
      revert hsize
      decide +kernel
  · rintro (hunknown | ⟨buf, hbuf, hsize, -⟩)
    · revert hunknown
      decide +kernel
    · cases hbuf
      revert hsize
      decide +kernel

end LibDvm.Prober
