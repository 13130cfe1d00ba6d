import LibDvm.Mount.Model
import LibDvm.Block.Isolation
import LibDvm.Prober.Size

/-! # The volumes of a partition table

The drivers turn the records of a probe into volumes. Those of an accepted table tile the
disc, as the isolation of volumes needs it, unless two entries overlap or the end of one
does not fit the 32 bits in which the prober adds it up.
-/

namespace LibDvm.Mount

open Prober Block Words

def mountedVolume (base : DvmDisc) (part : DvmPartInfo) : BlockVolume :=
  if part.fstype = some "ext2" then .ext (ext4Blockdev base part) else .fat (fatVolume part)

def recordWindow (part : DvmPartInfo) : Window := ⟨part.startSector, part.numSectors⟩

theorem mountedVolume_window {base : DvmDisc} (hsector : 0 < base.sectorSz) {part : DvmPartInfo}
    (hstart : part.startSector < 2 ^ 32) (hnum : part.numSectors < 2 ^ 32) :
    (mountedVolume base part).window = recordWindow part := by
  unfold mountedVolume
  split
  · -- counted in bytes, a partition takes 48 bits at most
    have hsz := base.sectorSz_lt
    have hbytes : ∀ n < 2 ^ 32, n * base.sectorSz % 2 ^ 64 / base.sectorSz = n := by
      intro n hn
      have hfits : n * base.sectorSz < 2 ^ 32 * 2 ^ 16 :=
        Nat.mul_lt_mul_of_lt_of_le hn (Nat.le_of_lt hsz) (by decide)
      rw [Nat.mod_eq_of_lt (Nat.lt_trans hfits (by decide)), Nat.mul_div_cancel n hsector]
    simp only [BlockVolume.window, ext4Blockdev, secWrap_of_lt hstart, secWrap_of_lt hnum,
      hbytes _ hstart, hbytes _ hnum, recordWindow]
  · simp only [BlockVolume.window, fatVolume, secWrap_of_lt hstart, secWrap_of_lt hnum,
      recordWindow]

section Table

variable (order : ByteOrder) (d : ProbeDisc) (maxPartitions flags : Nat)
  (allocated : Option (Nat → UInt8))

structure Checked (size : Nat) (part : DvmPartInfo) : Prop where
  start : part.startSector < 2 ^ 32
  num : part.numSectors < 2 ^ 32
  inside : secWrap (part.startSector + part.numSectors) ≤ size
  size : size < 2 ^ 32

theorem readMbr_checked {buf : Nat → UInt8} {bufSz : Nat} :
    let r := readMbr order d maxPartitions flags buf bufSz
    ∀ part ∈ r.out.take r.ret, Checked r.numSectors part := by
  intro r part hpart
  rcases Nat.eq_zero_or_pos r.ret with hzero | hpos
  · rw [hzero] at hpart
    simp at hpart
  · obtain ⟨hclean, hin⟩ := readMbr_pos order d maxPartitions flags hpos
    obtain ⟨-, hspans, hsize⟩ := readMbr_accepted order d maxPartitions flags bufSz hclean hin
    have hspan : part.span ∈ (mbrRecords order maxPartitions buf).map DvmPartInfo.span := by
      rw [← hspans]
      exact List.mem_map_of_mem (List.mem_of_mem_take hpart)
    obtain ⟨entry, hentry, hsame⟩ := List.mem_map.mp hspan
    obtain ⟨slot, hslot, rfl⟩ := List.mem_map.mp hentry
    have hused := partEnd_le_used (mbrPart order buf) 0 hslot
    have hbits := mbrPart_lt order buf slot
    obtain ⟨hstart, hnum⟩ := Prod.mk.inj hsame
    have hleft : mbrUsed order maxPartitions buf ≤ r.numSectors ∧ r.numSectors < 2 ^ 32 := by
      rw [hsize]
      split
      · exact ⟨Nat.le_refl _, usedSectors_lt _ _⟩
      · next hknown => exact ⟨hin hknown, d.disc.numSectors_lt⟩
    refine ⟨hstart ▸ hbits.1, hnum ▸ hbits.2, ?_, hleft.2⟩
    rw [← hstart, ← hnum]
    exact Nat.le_trans hused hleft.1

theorem readPartitionTable_checked :
    let r := dvmReadPartitionTable order d maxPartitions flags allocated
    ∀ part ∈ r.out.take r.ret, Checked r.numSectors part := by
  rcases Nat.eq_zero_or_pos maxPartitions with h0 | hmax
  · simp [dvmReadPartitionTable, h0]
  · cases hread : sectorZero d allocated with
    | none =>
        rw [readPartitionTable_unread order d maxPartitions flags allocated hread]
        simp
    | some buf =>
        rw [readPartitionTable_sector order d maxPartitions flags allocated hmax hread]
        cases dvmIdentMbrVbr order buf with
        | none => simp
        | some text =>
            by_cases htext : text = ""
            · simp only [htext, ne_eq, not_true_eq_false, if_false]
              exact readMbr_checked order d maxPartitions flags
            · simp only [htext, ne_eq, not_false_eq_true, if_true]
              intro part hpart
              obtain rfl : part = _ := by simpa using hpart
              have hbound := d.disc.numSectors_lt
              exact ⟨by simp, hbound, by rw [Nat.zero_add, secWrap_of_lt hbound], hbound⟩

end Table

/-- Whatever is on the disc: the volumes that the drivers make of the records of a probe
lie on the disc and apart from each other exactly when the records are apart and each of
them ends within 32 bits. -/
theorem probed_volumes_tiled (order : ByteOrder) (d : ProbeDisc) (maxPartitions flags : Nat)
    (allocated : Option (Nat → UInt8)) (hsector : 0 < d.disc.sectorSz) :
    let r := dvmReadPartitionTable order d maxPartitions flags allocated
    let parts := r.out.take r.ret
    let base := setNumSectors r.numSectors d.disc
    Tiled r.numSectors (fun i : Fin parts.length => mountedVolume base (parts.get i)) ↔
      (∀ i : Fin parts.length,
        (parts.get i).startSector + (parts.get i).numSectors < 2 ^ 32) ∧
      ∀ i j : Fin parts.length, i ≠ j →
        (recordWindow (parts.get i)).Apart (recordWindow (parts.get j)) := by
  intro r parts base
  have hchecked : ∀ i : Fin parts.length, Checked r.numSectors (parts.get i) := fun i =>
    readPartitionTable_checked order d maxPartitions flags allocated _ (List.get_mem _ _)
  have hwindow : ∀ i : Fin parts.length,
      (mountedVolume base (parts.get i)).window = recordWindow (parts.get i) := fun i =>
    mountedVolume_window hsector (hchecked i).start (hchecked i).num
  constructor
  · intro htiled
    refine ⟨fun i => ?_, fun i j hij => ?_⟩
    · have hin := htiled.onDisc i
      rw [hwindow] at hin
      exact Nat.lt_of_le_of_lt hin (hchecked i).size
    · have := htiled.apart i j hij
      rwa [hwindow, hwindow] at this
  · rintro ⟨hends, hapart⟩
    refine ⟨fun i j hij => ?_, fun i => ?_⟩
    · rw [hwindow, hwindow]
      exact hapart i j hij
    · rw [hwindow]
      have := (hchecked i).inside
      rwa [secWrap_of_lt (hends i)] at this

def sampleTableDisc : ProbeDisc :=
  tableDisc [⟨0x80, 0x0c, 8, 20⟩, ⟨0x00, 0x83, 28, 36⟩] 100 (by decide)

theorem probed_volumes_tiled_sample :
    let r := dvmReadPartitionTable .little sampleTableDisc 4 0 (some fun _ => 0)
    Tiled r.numSectors fun i : Fin (r.out.take r.ret).length =>
      mountedVolume (setNumSectors r.numSectors sampleTableDisc.disc)
        ((r.out.take r.ret).get i) :=
  (probed_volumes_tiled .little sampleTableDisc 4 0 (some fun _ => 0) (by decide)).mpr
    ⟨by decide +kernel, by decide +kernel⟩

end LibDvm.Mount
