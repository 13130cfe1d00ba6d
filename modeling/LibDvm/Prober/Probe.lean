import LibDvm.Prober.Classify
import LibDvm.Prober.Size

/-! # Probing a disc that can be read

The prober reads four sectors of 512 bytes at a time: those from sector 0 on, and those
from the start of each recorded partition on. On a disc that delivers its contents this
decides which partitions are found and what they are identified as.
-/

namespace LibDvm.Prober

open Words Store

variable (order : ByteOrder) {d : ProbeDisc} (maxPartitions flags : Nat)
  {allocated : Option (Nat → UInt8)} {contents : Nat → UInt8}

/-! ## Contents -/

def Delivers (d : ProbeDisc) (contents : Nat → UInt8) : Prop :=
  ∀ call numSectors first count data, d.readSectors call numSectors first count = some data →
    ∀ i < count * d.disc.sectorSz, data i = contents (first * d.disc.sectorSz + i)

def ServesInside (d : ProbeDisc) : Prop :=
  ∀ call numSectors first count,
    (d.readSectors call numSectors first count).isSome = true ↔ first + count ≤ d.disc.numSectors

def sectorAt (contents : Nat → UInt8) (first : Nat) (i : Nat) : UInt8 := contents (first * 512 + i)

@[simp] theorem sectorAt_zero (contents : Nat → UInt8) : sectorAt contents 0 = contents := by
  funext i
  simp [sectorAt]

theorem bufferSize_eq (hsector : d.disc.sectorSz = 512) : bufferSize d = 2048 := by
  simp [bufferSize, hsector]

theorem readInto_isSome (hsector : d.disc.sectorSz = 512) (buf : Nat → UInt8)
    (call numSectors first : Nat) :
    (readInto d buf 2048 call numSectors first).isSome =
      (d.readSectors call numSectors first 4).isSome := by
  rw [readInto, hsector, Option.isSome_map]

theorem readInto_contents (hsector : d.disc.sectorSz = 512) (hdelivers : Delivers d contents)
    {buf data : Nat → UInt8} {call numSectors first : Nat}
    (hread : readInto d buf 2048 call numSectors first = some data) :
    ∀ i < 2048, data i = sectorAt contents first i := by
  rw [readInto, hsector, Option.map_eq_some_iff] at hread
  obtain ⟨delivered, hserved, rfl⟩ := hread
  intro i hi
  rw [blit_inside (Nat.zero_le i) (by omega)]
  have hbyte := hdelivers call numSectors first 4 delivered hserved i (by rw [hsector]; exact hi)
  rw [hsector] at hbyte
  simpa [sectorAt] using hbyte

/-! ## The identify loop -/

/-- The reads at the starts of the records are served, the first as read `call`. -/
def ReadsStarts (d : ProbeDisc) (numSectors call : Nat) (parts : List DvmPartInfo) : Prop :=
  ∀ k part, parts[k]? = some part →
    (d.readSectors (call + k) numSectors part.startSector 4).isSome = true

/-- A record with the file system its first sectors are identified as, if any. -/
def identified (contents : Nat → UInt8) (part : DvmPartInfo) : DvmPartInfo :=
  match dvmIdentMbrVbr order (sectorAt contents part.startSector) with
  | some text => if text ≠ "" then { part with fstype := some text } else part
  | none => part

theorem readsStarts_cons {numSectors call : Nat} {part : DvmPartInfo} {rest : List DvmPartInfo} :
    ReadsStarts d numSectors call (part :: rest) ↔
      (d.readSectors call numSectors part.startSector 4).isSome = true ∧
        ReadsStarts d numSectors (call + 1) rest := by
  constructor
  · intro h
    refine ⟨h 0 part rfl, fun k p hk => ?_⟩
    have hnext := h (k + 1) p hk
    rwa [show call + (k + 1) = call + 1 + k by omega] at hnext
  · rintro ⟨hfirst, hrest⟩ k p hk
    cases k with
    | zero =>
        obtain rfl : part = p := by simpa using hk
        exact hfirst
    | succ k =>
        have hnext := hrest k p hk
        rwa [show call + 1 + k = call + (k + 1) by omega] at hnext

/-- The loop goes through exactly when all of its reads are served, and then it has
identified every record from the contents. -/
theorem identLoop_spec (hsector : d.disc.sectorSz = 512) (hdelivers : Delivers d contents)
    (numSectors : Nat) (parts : List DvmPartInfo) (buf : Nat → UInt8) (call : Nat) :
    ((identLoop order d 2048 numSectors parts buf call).2 = true ↔
        ReadsStarts d numSectors call parts) ∧
      ((identLoop order d 2048 numSectors parts buf call).2 = true →
        (identLoop order d 2048 numSectors parts buf call).1 =
          parts.map (identified order contents)) := by
  induction parts generalizing buf call with
  | nil => simp [identLoop, ReadsStarts]
  | cons part rest ih =>
      have hserved := readInto_isSome hsector buf call numSectors part.startSector
      rw [readsStarts_cons]
      cases hread : readInto d buf 2048 call numSectors part.startSector with
      | none =>
          rw [hread] at hserved
          simp [identLoop, hread, ← hserved]
      | some data =>
          rw [hread] at hserved
          have hident : dvmIdentMbrVbr order data =
              dvmIdentMbrVbr order (sectorAt contents part.startSector) :=
            dvmIdentMbrVbr_congr order (readInto_contents hsector hdelivers hread)
          obtain ⟨hall, hparts⟩ := ih data (call + 1)
          simp only [identLoop, hread, hident, ← hserved, hall, Option.isSome_some, true_and,
            List.map_cons]
          exact fun hrest => List.cons_eq_cons.mpr ⟨rfl, hparts (hall.mpr hrest)⟩

/-! ## A sound table -/

/-- Sector 0 holds a well-formed MBR whose partitions lie on the disc. -/
structure SoundTable (d : ProbeDisc) (contents : Nat → UInt8) : Prop where
  mbr : dvmIdentMbrVbr order contents = some ""
  statuses : ∀ i < 4, (mbrPart order contents i).malformed = false
  inside : secNot d.disc.numSectors ≠ 0 → ∀ i < 4, (mbrPart order contents i).populated →
    (mbrPart order contents i).exactEnd ≤ d.disc.numSectors

section Table

variable {order} {buf : Nat → UInt8}

theorem sectorZero_contents (hsector : d.disc.sectorSz = 512) (hdelivers : Delivers d contents)
    (hread : sectorZero d allocated = some buf) : ∀ i < 2048, buf i = contents i := by
  rw [sectorZero, bufferSize_eq hsector, Option.bind_eq_some_iff] at hread
  obtain ⟨start, -, hstart⟩ := hread
  have hbytes := readInto_contents hsector hdelivers hstart
  rwa [sectorAt_zero] at hbytes

theorem recordedSlots_congr {entry entry' : Nat → DvmMbrPartEntry}
    (h : ∀ i < 4, entry i = entry' i) (room : Nat) :
    recordedSlots entry room tableSlots = recordedSlots entry' room tableSlots := by
  unfold recordedSlots
  congr 1
  exact List.filter_congr fun i hi => by rw [h i ((mem_tableSlots i).mp hi)]

theorem mbrRecords_congr (h : ∀ i < 4, mbrPart order buf i = mbrPart order contents i) :
    mbrRecords order maxPartitions buf = mbrRecords order maxPartitions contents := by
  rw [mbrRecords, mbrRecords, recordedSlots_congr h]
  refine List.map_congr_left fun i hi => ?_
  rw [h i (recorded_populated order maxPartitions hi).1]

theorem mbrUsed_congr (h : ∀ i < 4, mbrPart order buf i = mbrPart order contents i) :
    mbrUsed order maxPartitions buf = mbrUsed order maxPartitions contents := by
  rw [mbrUsed, mbrUsed, recordedSlots_congr h, usedSectors, usedSectors]
  refine List.foldl_ext _ _ _ fun total i hi => ?_
  rw [h i (recorded_populated order maxPartitions hi).1]

theorem visited_mem {entry : Nat → DvmMbrPartEntry} {room i : Nat} {slots : List Nat}
    (h : i ∈ visitedSlots entry room slots) : i ∈ slots := by
  induction slots generalizing room with
  | nil => simp [visitedSlots] at h
  | cons j rest ih =>
      cases room with
      | zero => simp [visitedSlots] at h
      | succ room =>
          rcases List.mem_cons.mp h with rfl | hrest
          · exact List.mem_cons_self
          · exact List.mem_cons_of_mem j (ih hrest)

/-- The prober accepts a sound table, and identifies its records if asked to. -/
theorem SoundTable.probe (h : SoundTable order d contents) (hsector : d.disc.sectorSz = 512)
    (hdelivers : Delivers d contents) (hread : sectorZero d allocated = some buf)
    (hmax : 0 < maxPartitions) :
    dvmReadPartitionTable order d maxPartitions flags allocated =
      if flags &&& dvmIdentFstype = 0 then
        ⟨(mbrRecords order maxPartitions contents).length, mbrRecords order maxPartitions contents,
          sizeLeft order d maxPartitions contents⟩
      else
        let done := identLoop order d 2048 (sizeLeft order d maxPartitions contents)
          (mbrRecords order maxPartitions contents) buf 1
        ⟨if done.2 then (mbrRecords order maxPartitions contents).length else 0, done.1,
          sizeLeft order d maxPartitions contents⟩ := by
  have hbytes := sectorZero_contents hsector hdelivers hread
  have hident := dvmIdentMbrVbr_congr order hbytes
  have hparts (i : Nat) (hi : i < 4) : mbrPart order buf i = mbrPart order contents i :=
    mbrPart_congr order (fun k hk => hbytes k (by omega)) hi
  have hclean : ¬ MeetsMalformed order maxPartitions buf := by
    rintro ⟨i, hi, hbad⟩
    have hslot := (mem_tableSlots i).mp (visited_mem hi)
    rw [hparts i hslot, h.statuses i hslot] at hbad
    cases hbad
  have hin : secNot d.disc.numSectors ≠ 0 →
      mbrUsed order maxPartitions buf ≤ d.disc.numSectors := by
    intro hknown
    rw [mbrUsed_congr maxPartitions hparts, mbrUsed, usedSectors_le_iff]
    refine ⟨Nat.zero_le _, fun i hi => ?_⟩
    obtain ⟨hslot, hpop⟩ := recorded_populated order maxPartitions hi
    exact Nat.le_trans (partEnd_le_exact _) (h.inside hknown i hslot hpop)
  rw [readPartitionTable_mbr order d maxPartitions flags allocated hmax hread
      (hident.trans h.mbr), readMbr_clean order d maxPartitions flags _ hclean hin,
    bufferSize_eq hsector, mbrRecords_congr maxPartitions hparts, sizeLeft, sizeLeft,
    mbrUsed_congr maxPartitions hparts]

/-- The reads that the prober still makes once it has accepted the table are served. -/
def StartsServed (order : ByteOrder) (d : ProbeDisc) (maxPartitions flags : Nat)
    (contents : Nat → UInt8) : Prop :=
  flags &&& dvmIdentFstype ≠ 0 →
    ReadsStarts d (sizeLeft order d maxPartitions contents) 1
      (mbrRecords order maxPartitions contents)

theorem SoundTable.probe_served (h : SoundTable order d contents)
    (hsector : d.disc.sectorSz = 512) (hdelivers : Delivers d contents)
    (hread : sectorZero d allocated = some buf) (hmax : 0 < maxPartitions)
    (hserved : StartsServed order d maxPartitions flags contents) :
    (dvmReadPartitionTable order d maxPartitions flags allocated).ret =
        (mbrRecords order maxPartitions contents).length ∧
      (dvmReadPartitionTable order d maxPartitions flags allocated).out =
        if flags &&& dvmIdentFstype = 0 then mbrRecords order maxPartitions contents
        else (mbrRecords order maxPartitions contents).map (identified order contents) := by
  rw [h.probe maxPartitions flags hsector hdelivers hread hmax]
  by_cases hflag : flags &&& dvmIdentFstype = 0
  · simp only [hflag, if_true]
    trivial
  · obtain ⟨hall, hparts⟩ := identLoop_spec order hsector hdelivers
      (sizeLeft order d maxPartitions contents) (mbrRecords order maxPartitions contents) buf 1
    have hdone := hall.mpr (hserved hflag)
    simp only [hflag, if_false, hdone, if_true, hparts hdone]
    trivial

theorem SoundTable.probe_unserved (h : SoundTable order d contents)
    (hsector : d.disc.sectorSz = 512) (hdelivers : Delivers d contents)
    (hread : sectorZero d allocated = some buf) (hmax : 0 < maxPartitions)
    (hunserved : ¬ StartsServed order d maxPartitions flags contents) :
    (dvmReadPartitionTable order d maxPartitions flags allocated).ret = 0 := by
  obtain ⟨hflag, hstarts⟩ := Classical.not_imp.mp hunserved
  rw [h.probe maxPartitions flags hsector hdelivers hread hmax, if_neg hflag]
  have hall := (identLoop_spec order hsector hdelivers
    (sizeLeft order d maxPartitions contents) (mbrRecords order maxPartitions contents) buf 1).1
  exact if_neg fun hdone => hstarts (hall.mp hdone)

end Table

/-! ## Finding every partition -/

/-- The entry of a slot, its two numbers read from the lowest byte up. -/
def tableEntry (contents : Nat → UInt8) (slot : Nat) : DvmMbrPartEntry :=
  let entry := 0x1be + 16 * slot
  let number := fun offset => byte contents offset + byte contents (offset + 1) * 2 ^ 8 +
    byte contents (offset + 2) * 2 ^ 16 + byte contents (offset + 3) * 2 ^ 24
  ⟨byte contents entry, byte contents (entry + 4), number (entry + 8), number (entry + 12)⟩

theorem mbrPart_eq (contents : Nat → UInt8) : mbrPart order contents = tableEntry contents := by
  funext slot
  simp only [mbrPart, dvmRead8, dvmRead32_eq, tableEntry]

/-- The slots of the populated entries that are not extended partitions. -/
def populatedSlots (contents : Nat → UInt8) : List Nat :=
  tableSlots.filter fun slot => (tableEntry contents slot).populated

/-- The records hold the populated entries in table order, as many as there is room for. -/
structure FindsPartitions (contents : Nat → UInt8) (maxPartitions : Nat) (r : ProbeResult) :
    Prop where
  ret : r.ret = min maxPartitions (populatedSlots contents).length
  out : r.out.map (fun part => (part.index, part.type, part.startSector, part.numSectors)) =
    ((populatedSlots contents).take maxPartitions).map fun slot =>
      (slot + 1, (tableEntry contents slot).type, (tableEntry contents slot).startLba,
        (tableEntry contents slot).numSectors)

theorem recordedSlots_eq (contents : Nat → UInt8) :
    recordedSlots (mbrPart order contents) maxPartitions tableSlots =
      (populatedSlots contents).take maxPartitions := by
  rw [recordedSlots, mbrPart_eq, populatedSlots]

theorem identified_place (contents : Nat → UInt8) (part : DvmPartInfo) :
    (identified order contents part).index = part.index ∧
      (identified order contents part).type = part.type ∧
      (identified order contents part).startSector = part.startSector ∧
      (identified order contents part).numSectors = part.numSectors := by
  unfold identified
  split
  · split <;> exact ⟨rfl, rfl, rfl, rfl⟩
  · exact ⟨rfl, rfl, rfl, rfl⟩

theorem startsServed_iff (hserves : ServesInside d) :
    StartsServed order d maxPartitions flags contents ↔
      (flags &&& dvmIdentFstype ≠ 0 → ∀ slot ∈ (populatedSlots contents).take maxPartitions,
        (tableEntry contents slot).startLba + 4 ≤ d.disc.numSectors) := by
  refine imp_congr_right fun _ => ?_
  unfold ReadsStarts
  simp only [hserves _ _ _ _]
  rw [mbrRecords, recordedSlots_eq, mbrPart_eq]
  constructor
  · intro h slot hslot
    obtain ⟨k, hk⟩ := List.mem_iff_getElem?.mp hslot
    exact h k ((tableEntry contents slot).info slot) (by rw [List.getElem?_map, hk]; rfl)
  · intro h k part hk
    obtain ⟨slot, hslot, rfl⟩ := List.mem_map.mp (List.mem_of_getElem? hk)
    exact h slot hslot

theorem sectorZero_isSome (hsector : d.disc.sectorSz = 512) (hserves : ServesInside d) :
    (sectorZero d allocated).isSome = true ↔
      allocated.isSome = true ∧ 4 ≤ d.disc.numSectors := by
  rw [sectorZero, bufferSize_eq hsector]
  cases allocated with
  | none => simp
  | some buf =>
      rw [Option.bind_some, readInto_isSome hsector, hserves]
      simp

theorem records_place (parts : List DvmPartInfo)
    (hparts : parts = mbrRecords order maxPartitions contents ∨
      parts = (mbrRecords order maxPartitions contents).map (identified order contents)) :
    parts.map (fun part => (part.index, part.type, part.startSector, part.numSectors)) =
      ((populatedSlots contents).take maxPartitions).map fun slot =>
        (slot + 1, (tableEntry contents slot).type, (tableEntry contents slot).startLba,
          (tableEntry contents slot).numSectors) := by
  rcases hparts with rfl | rfl
  · rw [mbrRecords, recordedSlots_eq, mbrPart_eq, List.map_map]
    rfl
  · rw [List.map_map, mbrRecords, recordedSlots_eq, mbrPart_eq, List.map_map]
    refine List.map_congr_left fun slot _ => ?_
    obtain ⟨hindex, htype, hstart, hnum⟩ :=
      identified_place order contents ((tableEntry contents slot).info slot)
    simp only [Function.comp_apply, hindex, htype, hstart, hnum]
    rfl

theorem soundTable_of_entries (hmbr : dvmIdentMbrVbr order contents = some "")
    (hstatus : ∀ slot < 4, (tableEntry contents slot).status = 0x80 ∨
      (tableEntry contents slot).status = 0x00)
    (hinside : ∀ slot ∈ populatedSlots contents,
      (tableEntry contents slot).startLba + (tableEntry contents slot).numSectors ≤
        d.disc.numSectors) : SoundTable order d contents where
  mbr := hmbr
  statuses := by
    intro slot hslot
    rw [mbrPart_eq]
    rcases hstatus slot hslot with heq | heq <;> simp [DvmMbrPartEntry.malformed, heq]
  inside := by
    intro _ slot hslot hpop
    rw [mbrPart_eq] at hpop ⊢
    exact hinside slot (List.mem_filter.mpr ⟨(mem_tableSlots slot).mpr hslot, hpop⟩)

theorem mbrRecords_length :
    (mbrRecords order maxPartitions contents).length =
      min maxPartitions (populatedSlots contents).length := by
  rw [mbrRecords, recordedSlots_eq, List.length_map, List.length_take]

theorem FindsPartitions.nothing {maxPartitions : Nat} {r : ProbeResult}
    (hfinds : FindsPartitions contents maxPartitions r) (hmax : 0 < maxPartitions)
    (hr : r.ret = 0) : populatedSlots contents = [] := by
  have hcount := hfinds.ret
  rw [hr] at hcount
  exact List.eq_nil_of_length_eq_zero (by omega)

/-- On a readable disc of known size with a sound table the prober finds every partition
there is room for, exactly when the four-sector reads it makes stay on the disc. -/
theorem probe_finds_partitions (hsector : d.disc.sectorSz = 512)
    (hdelivers : Delivers d contents) (hserves : ServesInside d)
    (hmbr : dvmIdentMbrVbr order contents = some "")
    (hstatus : ∀ slot < 4, (tableEntry contents slot).status = 0x80 ∨
      (tableEntry contents slot).status = 0x00)
    (hinside : ∀ slot ∈ populatedSlots contents,
      (tableEntry contents slot).startLba + (tableEntry contents slot).numSectors ≤
        d.disc.numSectors)
    (hmax : 0 < maxPartitions) :
    FindsPartitions contents maxPartitions
        (dvmReadPartitionTable order d maxPartitions flags allocated) ↔
      populatedSlots contents = [] ∨
        allocated.isSome = true ∧ 4 ≤ d.disc.numSectors ∧
          (flags &&& dvmIdentFstype ≠ 0 → ∀ slot ∈ (populatedSlots contents).take maxPartitions,
            (tableEntry contents slot).startLba + 4 ≤ d.disc.numSectors) := by
  have hsound : SoundTable order d contents := soundTable_of_entries order hmbr hstatus hinside
  rw [← startsServed_iff order maxPartitions flags hserves, ← and_assoc,
    ← sectorZero_isSome hsector hserves]
  cases hread : sectorZero d allocated with
  | none =>
      rw [readPartitionTable_unread order d maxPartitions flags allocated hread]
      constructor
      · exact fun hfinds => .inl (hfinds.nothing hmax rfl)
      · rintro (hnil | ⟨hsome, -⟩)
        · exact ⟨by simp [hnil], by simp [hnil]⟩
        · cases hsome
  | some buf =>
      by_cases hserved : StartsServed order d maxPartitions flags contents
      · obtain ⟨hret, hout⟩ :=
          hsound.probe_served maxPartitions flags hsector hdelivers hread hmax hserved
        refine ⟨fun _ => .inr ⟨rfl, hserved⟩, fun _ => ⟨?_, ?_⟩⟩
        · exact hret.trans (mbrRecords_length order maxPartitions)
        · rw [hout]
          refine records_place order maxPartitions _ ?_
          by_cases hflag : flags &&& dvmIdentFstype = 0
          · exact .inl (if_pos hflag)
          · exact .inr (if_neg hflag)
      · have hret :=
          hsound.probe_unserved maxPartitions flags hsector hdelivers hread hmax hserved
        constructor
        · exact fun hfinds => .inl (hfinds.nothing hmax hret)
        · rintro (hnil | ⟨-, hserved'⟩)
          · -- no record, no read at its start
            refine absurd (fun _ k part hk => ?_) hserved
            rw [mbrRecords, recordedSlots_eq, hnil] at hk
            simp at hk
          · exact absurd hserved' hserved

/-- A disc of 512-byte sectors that serves exactly the reads inside it. -/
def exactDisc (contents : Nat → UInt8) (numSectors : Nat) (h : numSectors < 2 ^ 32) :
    ProbeDisc where
  disc := plainBase numSectors h
  readSectors _ _ first count :=
    if first + count ≤ numSectors then some (sectorAt contents first) else none

theorem exactDisc_delivers (contents : Nat → UInt8) (numSectors : Nat) (h : numSectors < 2 ^ 32) :
    Delivers (exactDisc contents numSectors h) contents := by
  intro call n first count data hread i _
  obtain ⟨-, hdata⟩ := Option.ite_none_right_eq_some.mp hread
  obtain rfl := Option.some.inj hdata
  rfl

theorem exactDisc_serves (contents : Nat → UInt8) (numSectors : Nat) (h : numSectors < 2 ^ 32) :
    ServesInside (exactDisc contents numSectors h) := by
  intro call n first count
  show (if first + count ≤ numSectors then some (sectorAt contents first) else none).isSome = true ↔
    first + count ≤ numSectors
  split
  · next hin => simp [hin]
  · next hout => simp [hout]

theorem probe_finds_partitions_sample :
    FindsPartitions (tableSector [⟨0x80, 0x83, 8, 20⟩]) 4
      (dvmReadPartitionTable .big (exactDisc (tableSector [⟨0x80, 0x83, 8, 20⟩]) 32 (by decide))
        4 dvmIdentFstype (some fun _ => 0)) :=
  (probe_finds_partitions .big 4 dvmIdentFstype rfl (exactDisc_delivers _ 32 (by decide))
    (exactDisc_serves _ 32 (by decide)) (by decide +kernel) (by decide +kernel)
    (by decide +kernel) (by decide)).mpr (.inr ⟨rfl, by decide, fun _ => by decide +kernel⟩)

/-- A partition of the last two sectors of a disc of 16 is found, but not when its file
system is asked for as well. -/
theorem last_partition_lost :
    (dvmReadPartitionTable .little (exactDisc (tableSector [⟨0x80, 0x83, 14, 2⟩]) 16 (by decide))
        4 0 (some fun _ => 0)).ret = 1 ∧
      (dvmReadPartitionTable .little
        (exactDisc (tableSector [⟨0x80, 0x83, 14, 2⟩]) 16 (by decide)) 4 dvmIdentFstype
        (some fun _ => 0)).ret = 0 ∧
      populatedSlots (tableSector [⟨0x80, 0x83, 14, 2⟩]) = [0] ∧
      ¬ FindsPartitions (tableSector [⟨0x80, 0x83, 14, 2⟩]) 4
        (dvmReadPartitionTable .little
          (exactDisc (tableSector [⟨0x80, 0x83, 14, 2⟩]) 16 (by decide)) 4 dvmIdentFstype
          (some fun _ => 0)) := by
  have hlost : (dvmReadPartitionTable .little
      (exactDisc (tableSector [⟨0x80, 0x83, 14, 2⟩]) 16 (by decide)) 4 dvmIdentFstype
      (some fun _ => 0)).ret = 0 := by decide +kernel
  have hslots : populatedSlots (tableSector [⟨0x80, 0x83, 14, 2⟩]) = [0] := by decide +kernel
  refine ⟨by decide +kernel, hlost, hslots, fun hfinds => ?_⟩
  have hcount := hfinds.ret
  rw [hlost, hslots] at hcount
  cases hcount

/-! ## Identifying ext partitions -/

theorem identified_ext2 (contents : Nat → UInt8) {part : DvmPartInfo} (hnone : part.fstype = none) :
    (identified order contents part).fstype = some "ext2" ↔
      dvmIdentMbrVbr order (sectorAt contents part.startSector) = some "ext2" := by
  unfold identified
  cases dvmIdentMbrVbr order (sectorAt contents part.startSector) with
  | none => simp [hnone]
  | some text =>
      by_cases htext : text = ""
      · simp [htext, hnone]
      · simp [htext]

def ReportsExt2 (slot : Nat) (r : ProbeResult) : Prop :=
  ∃ part ∈ r.out.take r.ret, part.index = slot + 1 ∧ part.fstype = some "ext2"

theorem reportsExt2_iff {r : ProbeResult}
    (hall : r.out.take r.ret = (mbrRecords order maxPartitions contents).map
      (identified order contents)) (slot : Nat) :
    ReportsExt2 slot r ↔
      slot ∈ recordedSlots (mbrPart order contents) maxPartitions tableSlots ∧
        dvmIdentMbrVbr order (sectorAt contents (mbrPart order contents slot).startLba) =
          some "ext2" := by
  have hident (i : Nat) : (identified order contents ((mbrPart order contents i).info i)).fstype =
      some "ext2" ↔ dvmIdentMbrVbr order
        (sectorAt contents (mbrPart order contents i).startLba) = some "ext2" :=
    identified_ext2 order contents rfl
  have hindex (i : Nat) :
      (identified order contents ((mbrPart order contents i).info i)).index = i + 1 :=
    (identified_place order contents _).1
  simp only [ReportsExt2, hall, mbrRecords, List.map_map, List.mem_map, Function.comp_apply]
  constructor
  · rintro ⟨part, ⟨i, hi, rfl⟩, hslot, hext⟩
    obtain rfl : i = slot := by
      rw [hindex] at hslot
      omega
    exact ⟨hi, (hident i).mp hext⟩
  · rintro ⟨hi, hext⟩
    exact ⟨_, ⟨slot, hi, rfl⟩, hindex slot, (hident slot).mpr hext⟩

/-- On a readable disc with a sound table a partition with the ext magic in its third
sector is reported as ext2, if there is room for it, exactly when its first sector lacks
the signature. -/
theorem ext_partition_reported (hsector : d.disc.sectorSz = 512) (hdelivers : Delivers d contents)
    (hsound : SoundTable order d contents) (hread : (sectorZero d allocated).isSome = true)
    (hflag : flags &&& dvmIdentFstype ≠ 0) {slot : Nat}
    (hmagic : dvmRead16 order
      (sectorAt contents (mbrPart order contents slot).startLba) 0x438 = 0xef53) :
    ReportsExt2 slot (dvmReadPartitionTable order d maxPartitions flags allocated) ↔
      (slot ∈ recordedSlots (mbrPart order contents) maxPartitions tableSlots ∧
        ReadsStarts d (sizeLeft order d maxPartitions contents) 1
          (mbrRecords order maxPartitions contents)) ∧
        ¬ HasSignature order (sectorAt contents (mbrPart order contents slot).startLba) := by
  rcases Nat.eq_zero_or_pos maxPartitions with rfl | hmax
  · simp [ReportsExt2, dvmReadPartitionTable, recordedSlots]
  obtain ⟨buf, hbuf⟩ := Option.isSome_iff_exists.mp hread
  by_cases hserved : StartsServed order d maxPartitions flags contents
  · obtain ⟨hret, hout⟩ :=
      hsound.probe_served maxPartitions flags hsector hdelivers hbuf hmax hserved
    rw [if_neg hflag] at hout
    have hall : (dvmReadPartitionTable order d maxPartitions flags allocated).out.take
        (dvmReadPartitionTable order d maxPartitions flags allocated).ret =
        (mbrRecords order maxPartitions contents).map (identified order contents) := by
      rw [hret, hout, List.take_of_length_le (by rw [List.length_map])]
    rw [reportsExt2_iff order maxPartitions hall slot, dvmIdentMbrVbr_ext2_iff]
    simp only [hmagic, and_true, hserved hflag]
  · have hret := hsound.probe_unserved maxPartitions flags hsector hdelivers hbuf hmax hserved
    have hstarts : ¬ ReadsStarts d (sizeLeft order d maxPartitions contents) 1
        (mbrRecords order maxPartitions contents) := fun h => hserved fun _ => h
    simp [ReportsExt2, hret, hstarts]

/-- A disc of 32 sectors with one partition, whose boot block may end in the signature. -/
def extContents (signature : Bool) (i : Nat) : UInt8 :=
  if i < 512 then tableSector [⟨0x80, 0x83, 8, 20⟩] i
  else if i = 8 * 512 + 0x1fe then (if signature then 0x55 else 0)
  else if i = 8 * 512 + 0x1ff then (if signature then 0xaa else 0)
  else if i = 8 * 512 + 0x438 then 0x53
  else if i = 8 * 512 + 0x439 then 0xef
  else 0

def extDisc (signature : Bool) : ProbeDisc := exactDisc (extContents signature) 32 (by decide)

theorem ext_partition_reported_sample :
    ReportsExt2 0 (dvmReadPartitionTable .little (extDisc false) 4 dvmIdentFstype
      (some fun _ => 0)) := by
  have hsound : SoundTable .little (extDisc false) (extContents false) :=
    ⟨by decide +kernel, by decide +kernel, fun _ => by decide +kernel⟩
  have hstarts : StartsServed .little (extDisc false) 4 dvmIdentFstype (extContents false) :=
    (startsServed_iff .little 4 dvmIdentFstype (exactDisc_serves _ 32 (by decide))).mpr
      fun _ => by decide +kernel
  exact (ext_partition_reported .little 4 dvmIdentFstype rfl
    (exactDisc_delivers _ 32 (by decide)) hsound (by decide +kernel) (by decide)
    (by decide +kernel)).mpr
    ⟨⟨by decide +kernel, hstarts (by decide)⟩, by decide +kernel⟩

/-- With a boot loader that ends in the signature the ext partition is not recognised. -/
theorem ext_behind_signature_missed :
    dvmReadPartitionTable .little (extDisc true) 4 dvmIdentFstype (some fun _ => 0) =
        ⟨1, [⟨1, 0x83, none, 8, 20⟩], 32⟩ ∧
      dvmRead16 .little (sectorAt (extContents true) 8) 0x438 = 0xef53 ∧
      dvmIdentMbrVbr .little (sectorAt (extContents true) 8) = some "" ∧
      ¬ ReportsExt2 0 (dvmReadPartitionTable .little (extDisc true) 4 dvmIdentFstype
        (some fun _ => 0)) := by
  have hprobe : dvmReadPartitionTable .little (extDisc true) 4 dvmIdentFstype (some fun _ => 0) =
      ⟨1, [⟨1, 0x83, none, 8, 20⟩], 32⟩ := by decide +kernel
  refine ⟨hprobe, by decide +kernel, by decide +kernel, ?_⟩
  rw [hprobe]
  simp [ReportsExt2]

end LibDvm.Prober
