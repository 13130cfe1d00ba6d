import LibDvm.Volume.Model
import LibDvm.Prober.Size

/-! # Who owns a disc

Between calls a disc is there exactly while a volume is mounted on it, with one user
for each volume; a cache is the one user of its wrapper. During a mount attempt the
disc of the attempt is there as well. Each operation keeps this as long as the first
partition that the driver can mount also gets a place in the device table.
-/

namespace LibDvm.Volume

open DiscHeap Prober

/-! ## The invariant -/

/-- The number of volumes mounted on disc `d`. -/
def volumesOn (devices : List DvmVolume) (d : Nat) : Nat :=
  devices.countP fun vol => vol.disc = d

/-- Every disc has its owners; `busy` is the disc of the attempt in progress. -/
structure Held (s : System) (busy : Option Nat) : Prop where
  log : LogOk s.heap
  shape : Shape s.heap
  volumes : ∀ vol ∈ s.devices, Top s.heap vol.disc
  held : ∀ d, Top s.heap d → 0 < volumesOn s.devices d ∨ busy = some d →
    Owned s.heap d (volumesOn s.devices d)
  gone : ∀ d, Top s.heap d → volumesOn s.devices d = 0 → busy ≠ some d → Gone s.heap d

theorem volumesOn_erase {devices : List DvmVolume} {vol : DvmVolume} (hvol : vol ∈ devices)
    (d : Nat) :
    volumesOn devices d = volumesOn (devices.erase vol) d + if vol.disc = d then 1 else 0 := by
  have hperm := (List.perm_cons_erase hvol).countP_eq fun v : DvmVolume => decide (v.disc = d)
  simpa [volumesOn, List.countP_cons] using hperm

theorem volumesOn_pos {devices : List DvmVolume} {d : Nat} :
    0 < volumesOn devices d ↔ ∃ vol ∈ devices, vol.disc = d := by
  simp [volumesOn, List.countP_pos_iff]

/-! ## Operations on one disc -/

theorem Held.update {s s' : System} {busy busy' : Option Nat} {d : Nat} (hs : Held s busy)
    (htop : Top s.heap d) (honly : Only d s.heap s'.heap) (hlog : LogOk s'.heap)
    (hdev : ∀ vol ∈ s'.devices, vol ∈ s.devices ∨ vol.disc = d)
    (hcount : ∀ c, c ≠ d → volumesOn s'.devices c = volumesOn s.devices c)
    (hbusy : ∀ c, c ≠ d → (busy' = some c ↔ busy = some c))
    (hheld : 0 < volumesOn s'.devices d ∨ busy' = some d →
      Owned s'.heap d (volumesOn s'.devices d))
    (hgone : volumesOn s'.devices d = 0 → busy' ≠ some d → Gone s'.heap d) : Held s' busy' := by
  refine ⟨hlog, hs.shape.only honly, ?_, ?_, ?_⟩
  · intro vol hvol
    rw [top_only honly]
    rcases hdev vol hvol with hold | hd
    · exact hs.volumes vol hold
    · rwa [hd]
  · intro c hc hown
    by_cases hcd : c = d
    · subst hcd
      exact hheld hown
    · rw [top_only honly] at hc
      rw [hcount c hcd, hbusy c hcd] at hown
      rw [hcount c hcd]
      exact (hs.held c hc hown).frame hs.shape hc htop hcd honly
  · intro c hc hzero hfree
    by_cases hcd : c = d
    · subst hcd
      exact hgone hzero hfree
    · rw [top_only honly] at hc
      rw [hcount c hcd] at hzero
      rw [ne_eq, hbusy c hcd] at hfree
      exact (hs.gone c hc hzero hfree).frame hs.shape hc htop hcd honly

theorem Held.setHeap {s : System} {busy busy' : Option Nat} {d : Nat} {h : DiscHeap}
    (hs : Held s busy) (htop : Top s.heap d) (honly : Only d s.heap h) (hlog : LogOk h)
    (hbusy : ∀ c, c ≠ d → (busy' = some c ↔ busy = some c))
    (hheld : 0 < volumesOn s.devices d ∨ busy' = some d → Owned h d (volumesOn s.devices d))
    (hgone : volumesOn s.devices d = 0 → busy' ≠ some d → Gone h d) :
    Held { s with heap := h } busy' :=
  hs.update htop honly hlog (fun _ hvol => Or.inl hvol) (fun _ _ => rfl) hbusy hheld hgone

theorem Held.record {s : System} {busy : Option Nat} (hs : Held s busy) {e : DiscEvent}
    (he : Safe e) (hd : destroyedDisc e = none) :
    Held { s with heap := s.heap.record e } busy where
  log := hs.log.record he hd
  shape := ⟨hs.shape.fresh, hs.shape.under, hs.shape.unique⟩
  volumes := hs.volumes
  held c hc hown := (hs.held c hc hown).congr rfl rfl
  gone c hc hzero hfree := ⟨(hs.gone c hc hzero hfree).dead, (hs.gone c hc hzero hfree).inner⟩

/-! ## One partition -/

/-- The driver mounts the partition, so that it comes to `AddDevice`. -/
def reachesAddDevice (drvTable : List (Option DvmFsDriver)) (part : DvmPartInfo)
    (o : MountOutcome) : Bool :=
  (part.fstype.bind fun fstype => findDriver fstype drvTable).isSome && o.volAllocated &&
    o.mounted

theorem dvmMountPartition_ret (s : System) (name : Name) (d : Nat) (part : DvmPartInfo)
    (o : MountOutcome) :
    (dvmMountPartition s name d part o).2 =
      (reachesAddDevice s.drvTable part o && o.addDevice.isSome) := by
  have hbody : (mountPartition s name d part o).2 =
      (reachesAddDevice s.drvTable part o && o.addDevice.isSome) := by
    unfold mountPartition reachesAddDevice driverMount
    cases part.fstype.bind fun fstype => findDriver fstype s.drvTable with
    | none => rfl
    | some fsdrv =>
        cases o.volAllocated <;> cases o.mounted <;> cases o.addDevice <;> rfl
  rw [← hbody]
  unfold dvmMountPartition
  cases hret : (mountPartition s name d part o).2 <;> simp [hret]

theorem driverMount_owned {heap : DiscHeap} {d n : Nat} (hl : LogOk heap) (ho : Owned heap d n)
    (hn : n + 1 < 2 ^ 16) (mounted : Bool) :
    let r := driverMount heap d mounted
    LogOk r.1 ∧ Owned r.1 d (n + mounted.toNat) ∧ Only d heap r.1 ∧ r.2 = mounted := by
  cases mounted with
  | false => exact ⟨hl.access ho, ho.access, only_access heap d, rfl⟩
  | true =>
      obtain ⟨hlog, hown, hadd⟩ := addUser_owned (hl.access ho) ho.access hn
      exact ⟨hlog, hown, (only_access heap d).trans hadd, rfl⟩

theorem driverUmount_keeps {heap : DiscHeap} {d n : Nat} (hl : LogOk heap)
    (ho : Owned heap d (n + 2)) :
    LogOk (driverUmount heap d) ∧ Owned (driverUmount heap d) d (n + 1) ∧
      Only d heap (driverUmount heap d) := by
  obtain ⟨hlog, hown, honly⟩ := removeUser_keeps (hl.access ho) ho.access
  exact ⟨hlog, hown, (only_access heap d).trans honly⟩

theorem driverUmount_last {heap : DiscHeap} {d : Nat} (hl : LogOk heap) (ho : Owned heap d 1) :
    LogOk (driverUmount heap d) ∧ Gone (driverUmount heap d) d ∧
      Only d heap (driverUmount heap d) := by
  obtain ⟨hlog, hgone, honly⟩ := removeUser_last (hl.access ho) ho.access
  exact ⟨hlog, hgone, (only_access heap d).trans honly⟩

/-- One partition: on success the disc gains a user and a volume, on failure neither. -/
theorem mountPartition_owned {s : System} {d n : Nat} (name : Name) (part : DvmPartInfo)
    (o : MountOutcome) (hl : LogOk s.heap) (ho : Owned s.heap d n) (hn : n + 1 < 2 ^ 16)
    (hok : 0 < n ∨ (reachesAddDevice s.drvTable part o = true → o.addDevice ≠ none)) :
    let r := mountPartition s name d part o
    LogOk r.1.heap ∧ Owned r.1.heap d (n + r.2.toNat) ∧ Only d s.heap r.1.heap ∧
      r.1.drvTable = s.drvTable ∧
      ∃ new : List DvmVolume, r.1.devices = s.devices ++ new ∧ (∀ vol ∈ new, vol.disc = d) ∧
        new.length = r.2.toNat := by
  have hsame : LogOk s.heap ∧ Owned s.heap d (n + false.toNat) ∧ Only d s.heap s.heap ∧
      (s.drvTable = s.drvTable) ∧
      ∃ new : List DvmVolume, s.devices = s.devices ++ new ∧ (∀ vol ∈ new, vol.disc = d) ∧
        new.length = false.toNat :=
    ⟨hl, ho, Only.refl d s.heap, rfl, [], by simp, by simp, rfl⟩
  obtain ⟨hlog, hown, honly, hret⟩ := driverMount_owned hl ho hn o.mounted
  unfold mountPartition
  cases hdrv : part.fstype.bind fun fstype => findDriver fstype s.drvTable with
  | none => exact hsame
  | some fsdrv =>
      cases hvol : o.volAllocated with
      | false => exact hsame
      | true =>
          cases hmount : o.mounted with
          | false =>
              rw [hmount] at hlog hown honly hret
              simp only [hret, Bool.not_true, Bool.not_false, Bool.false_eq_true, if_false,
                if_true, true_and]
              exact ⟨hlog, hown, honly, [], by simp, by simp, rfl⟩
          | true =>
              rw [hmount] at hlog hown honly hret
              simp only [hret, Bool.not_true, Bool.false_eq_true, if_false]
              cases hadd : o.addDevice with
              | some devid =>
                  exact ⟨hlog, hown, honly, rfl, [⟨devid, fsdrv, namebuf name, d⟩], rfl,
                    by simp, rfl⟩
              | none =>
                  -- the driver gives its user back; another volume keeps the disc
                  have hreach : reachesAddDevice s.drvTable part o = true := by
                    simp [reachesAddDevice, hdrv, hvol, hmount]
                  have hpos : 0 < n := by
                    rcases hok with hpos | hsafe
                    · exact hpos
                    · exact absurd hadd (hsafe hreach)
                  obtain ⟨m, rfl⟩ : ∃ m, n = m + 1 := ⟨n - 1, by omega⟩
                  obtain ⟨hlog', hown', honly'⟩ := driverUmount_keeps hlog hown
                  exact ⟨hlog', hown', honly.trans honly', rfl, [], by simp, by simp, rfl⟩

theorem mountPartition_held {s : System} {d : Nat} (name : Name) (part : DvmPartInfo)
    (o : MountOutcome) (hs : Held s (some d)) (htop : Top s.heap d)
    (hn : volumesOn s.devices d + 1 < 2 ^ 16)
    (hok : 0 < volumesOn s.devices d ∨
      (reachesAddDevice s.drvTable part o = true → o.addDevice ≠ none)) :
    let r := mountPartition s name d part o
    Held r.1 (some d) ∧ Top r.1.heap d ∧ r.1.drvTable = s.drvTable ∧
      volumesOn r.1.devices d = volumesOn s.devices d + r.2.toNat := by
  obtain ⟨hlog, hown, honly, htable, new, hdev, hdisc, hlen⟩ :=
    mountPartition_owned name part o hs.log (hs.held d htop (Or.inr rfl)) hn hok
  have hnew (c : Nat) : volumesOn new c = if c = d then new.length else 0 := by
    unfold volumesOn
    split
    · next hcd =>
        subst hcd
        rw [List.countP_eq_length]
        simpa using hdisc
    · next hcd =>
        rw [List.countP_eq_zero]
        intro vol hvol
        have := hdisc vol hvol
        simp only [decide_eq_true_eq]
        omega
  have hvols (c : Nat) : volumesOn (mountPartition s name d part o).1.devices c =
      volumesOn s.devices c + if c = d then (mountPartition s name d part o).2.toNat else 0 := by
    rw [hdev, ← hlen, ← hnew]
    simp [volumesOn, List.countP_append]
  refine ⟨?_, (top_only honly d).mpr htop, htable, by rw [hvols, if_pos rfl]⟩
  apply hs.update htop honly hlog
  · intro vol hvol
    rw [hdev, List.mem_append] at hvol
    exact hvol.imp_right (hdisc vol)
  · intro c hc
    rw [hvols, if_neg hc]
    rfl
  · intro c _
    exact Iff.rfl
  · intro _
    rw [hvols, if_pos rfl]
    exact hown
  · intro _ hfree
    contradiction

theorem dvmMountPartition_held {s : System} {d : Nat} (name : Name) (part : DvmPartInfo)
    (o : MountOutcome) (hs : Held s (some d)) (htop : Top s.heap d)
    (hn : volumesOn s.devices d + 1 < 2 ^ 16)
    (hok : 0 < volumesOn s.devices d ∨
      (reachesAddDevice s.drvTable part o = true → o.addDevice ≠ none)) :
    let r := dvmMountPartition s name d part o
    Held r.1 (some d) ∧ Top r.1.heap d ∧ r.1.drvTable = s.drvTable ∧
      volumesOn r.1.devices d = volumesOn s.devices d + r.2.toNat := by
  obtain ⟨hheld, htop', htable, hcount⟩ := mountPartition_held name part o hs htop hn hok
  cases hret : (mountPartition s name d part o).2 with
  | true =>
      have heq : dvmMountPartition s name d part o = mountPartition s name d part o := if_pos hret
      rw [heq]
      exact ⟨hheld, htop', htable, hcount⟩
  | false =>
      have heq : dvmMountPartition s name d part o =
          ({ (mountPartition s name d part o).1 with
            heap := (mountPartition s name d part o).1.heap.record
              (.mountFailed d ((mountPartition s name d part o).1.heap.objs d).alive
                (s.heap.objs d).base.numUsers
                ((mountPartition s name d part o).1.heap.objs d).base.numUsers) }, false) :=
        if_neg (by simp [hret])
      rw [hret] at hcount
      have hbefore := hs.held d htop (Or.inr rfl)
      have hafter := hheld.held d htop' (Or.inr rfl)
      have hsafe : Safe (.mountFailed d ((mountPartition s name d part o).1.heap.objs d).alive
          (s.heap.objs d).base.numUsers
          ((mountPartition s name d part o).1.heap.objs d).base.numUsers) := by
        refine ⟨hafter.alive, ?_⟩
        rw [hafter.users, hbefore.users]
        exact hcount.symm
      rw [heq]
      exact ⟨hheld.record hsafe rfl, htop', htable, hcount⟩

theorem Held.alive {s : System} {d : Nat} (hs : Held s (some d)) (htop : Top s.heap d) :
    (s.heap.objs d).alive = true := (hs.held d htop (Or.inr rfl)).alive

theorem dvmMountVolume_held {s : System} {d : Nat} (name : Name) (startSector : Nat)
    (fstype : String) (o : MountOutcome) (hs : Held s (some d)) (htop : Top s.heap d)
    (hzero : volumesOn s.devices d = 0)
    (hok : reachesAddDevice s.drvTable (volumePart (s.heap.objs d).base startSector fstype) o =
      true → o.addDevice ≠ none) :
    let r := dvmMountVolume s name d startSector fstype o
    Held r.1 (some d) ∧ Top r.1.heap d ∧ volumesOn r.1.devices d = r.2.toNat := by
  have hone : volumesOn s.devices d + 1 < 2 ^ 16 := by omega
  unfold dvmMountVolume
  by_cases hstart : startSector ≠ 0
  · simp only [hstart, ne_eq, not_false_eq_true, if_true]
    obtain ⟨hheld, htop', -, hcount⟩ :=
      dvmMountPartition_held name (volumePart (s.heap.objs d).base startSector fstype) o hs htop
        hone (Or.inr hok)
    exact ⟨hheld, htop', by rw [hcount, hzero, Nat.zero_add]⟩
  · simp only [hstart, if_false]
    have hused : Held { s with heap := s.heap.use d } (some d) := hs.record (hs.alive htop) rfl
    obtain ⟨hheld, htop', -, hcount⟩ :=
      dvmMountPartition_held name (volumePart (s.heap.objs d).base startSector fstype) o hused
        htop hone (Or.inr hok)
    refine ⟨hheld, htop', hcount.trans ?_⟩
    rw [hzero, Nat.zero_add]
    rfl

/-! ## One attempt -/

/-- Of the partitions from the `i`-th on, the first one that the driver mounts gets no
place in the device table. -/
def firstUnregistered (drvTable : List (Option DvmFsDriver)) (mounts : Nat → MountOutcome) :
    List DvmPartInfo → Nat → Bool
  | [], _ => false
  | part :: rest, i =>
      if reachesAddDevice drvTable part (mounts i) then (mounts i).addDevice.isNone
      else firstUnregistered drvTable mounts rest (i + 1)

theorem mountLoop_held {d : Nat} (basename : Name) (mounts : Nat → MountOutcome)
    (parts : List DvmPartInfo) (i numMounted : Nat) (s : System) (hs : Held s (some d))
    (htop : Top s.heap d) (hn : volumesOn s.devices d + parts.length < 2 ^ 16)
    (hnum : numMounted = volumesOn s.devices d)
    (hok : 0 < volumesOn s.devices d ∨ firstUnregistered s.drvTable mounts parts i = false) :
    let r := mountLoop basename d mounts parts i numMounted s
    Held r.1 (some d) ∧ Top r.1.heap d ∧ r.2 = volumesOn r.1.devices d := by
  induction parts generalizing i numMounted s with
  | nil => exact ⟨hs, htop, hnum⟩
  | cons part rest ih =>
      simp only [List.length_cons] at hn
      by_cases hnone : part.fstype.isNone
      · have hskip : reachesAddDevice s.drvTable part (mounts i) = false := by
          simp only [Option.isNone_iff_eq_none] at hnone
          simp [reachesAddDevice, hnone]
        simp only [mountLoop, hnone, if_true]
        apply ih (i + 1) numMounted s hs htop (by omega) hnum
        simpa [firstUnregistered, hskip] using hok
      · have hstep : 0 < volumesOn s.devices d ∨
            (reachesAddDevice s.drvTable part (mounts i) = true → (mounts i).addDevice ≠ none) := by
          refine hok.imp_right ?_
          intro hfirst hreach hfail
          simp [firstUnregistered, hreach, hfail] at hfirst
        obtain ⟨hheld, htop', htable, hcount⟩ :=
          dvmMountPartition_held (volname basename part.index) part (mounts i) hs htop (by omega)
            hstep
        simp only [mountLoop, hnone]
        have hle := Bool.toNat_le
          (dvmMountPartition s (volname basename part.index) d part (mounts i)).2
        apply ih (i + 1) _ _ hheld htop' (by omega)
        · rw [hcount, hnum]
          cases (dvmMountPartition s (volname basename part.index) d part (mounts i)).2 <;> rfl
        · rw [htable]
          cases hret : (dvmMountPartition s (volname basename part.index) d part (mounts i)).2 with
          | true =>
              left
              rw [hcount, hret, Bool.toNat_true]
              omega
          | false =>
              rw [hcount, hret, Bool.toNat_false, Nat.add_zero]
              refine hok.imp_right ?_
              intro hfirst
              rw [dvmMountPartition_ret] at hret
              by_cases hreach : reachesAddDevice s.drvTable part (mounts i)
              · simp only [firstUnregistered, hreach, if_true] at hfirst
                rw [hreach, Bool.true_and, ← Option.not_isNone, hfirst] at hret
                contradiction
              · simpa [firstUnregistered, hreach] using hfirst

/-- The partitions `dvmProbeMountDisc` tries on a disc. -/
def probedParts (order : Words.ByteOrder) (base : DvmDisc) (ans : Answers) : List DvmPartInfo :=
  let found := probeTable order base ans
  if found.ret = 0 then [volumePart (setNumSectors found.numSectors base) 0 "exfat"]
  else found.out.take found.ret

theorem firstUnregistered_single (drvTable : List (Option DvmFsDriver))
    (mounts : Nat → MountOutcome) (part : DvmPartInfo) :
    firstUnregistered drvTable mounts [part] 0 = true ↔
      reachesAddDevice drvTable part (mounts 0) = true ∧ (mounts 0).addDevice = none := by
  simp [firstUnregistered]

theorem registered_of_single {drvTable : List (Option DvmFsDriver)}
    {mounts : Nat → MountOutcome} {part : DvmPartInfo}
    (h : firstUnregistered drvTable mounts [part] 0 = false) :
    reachesAddDevice drvTable part (mounts 0) = true → (mounts 0).addDevice ≠ none := by
  intro hreach hnone
  rw [(firstUnregistered_single drvTable mounts part).mpr ⟨hreach, hnone⟩] at h
  contradiction

theorem Held.probed {s : System} {d : Nat} (hs : Held s (some d)) (htop : Top s.heap d)
    (numSectors : Nat) :
    Held { s with heap := (s.heap.access d).modify d (setNumSectors numSectors) } (some d) ∧
      Top ((s.heap.access d).modify d (setNumSectors numSectors)) d := by
  have hown := hs.held d htop (Or.inr rfl)
  have honly : Only d s.heap ((s.heap.access d).modify d (setNumSectors numSectors)) :=
    (only_access s.heap d).trans (only_modify _ (Or.inl rfl))
  refine ⟨?_, (top_only honly d).mpr htop⟩
  apply hs.setHeap htop honly ((hs.log.access hown).modify d _)
  · intro c _
    exact Iff.rfl
  · intro _
    exact hown.access.modify _ hown.access.users
  · intro _ hfree
    contradiction

theorem dvmProbeMountDisc_held {s : System} {d : Nat} (platform : Platform) (basename : Name)
    (ans : Answers) (hs : Held s (some d)) (htop : Top s.heap d)
    (hzero : volumesOn s.devices d = 0)
    (hok : firstUnregistered s.drvTable ans.mounts
      (probedParts platform.order (s.heap.objs d).base ans) 0 = false) :
    let r := dvmProbeMountDisc platform s basename d ans
    Held r.1 (some d) ∧ Top r.1.heap d ∧ r.2 = volumesOn r.1.devices d := by
  have hfour : (probeTable platform.order (s.heap.objs d).base ans).ret ≤ 4 :=
    readPartitionTable_ret_le _ _ _ _ _
  unfold dvmProbeMountDisc
  simp only [probedParts] at hok
  generalize probeTable platform.order (s.heap.objs d).base ans = found at hok hfour ⊢
  obtain ⟨hsized, htop'⟩ := hs.probed htop found.numSectors
  by_cases hret : found.ret = 0
  · rw [if_pos hret] at hok
    simp only [hret, if_true]
    have hbase : (((s.heap.access d).modify d (setNumSectors found.numSectors)).objs d).base =
        setNumSectors found.numSectors (s.heap.objs d).base := by
      rw [modify_self, access_objs]
    obtain ⟨hheld, htop'', hcount⟩ := dvmMountVolume_held basename 0 "exfat" (ans.mounts 0)
      hsized htop' hzero (by rw [hbase]; exact registered_of_single hok)
    refine ⟨hheld, htop'', Eq.trans ?_ hcount.symm⟩
    split
    · next htrue => rw [htrue, Bool.toNat_true]
    · next hfalse => rw [Bool.eq_false_iff.mpr hfalse, Bool.toNat_false]
  · rw [if_neg hret] at hok
    simp only [hret, if_false]
    have hlen : (found.out.take found.ret).length ≤ 4 := by
      rw [List.length_take]
      omega
    apply mountLoop_held basename ans.mounts (found.out.take found.ret) 0 0 _ hsized htop'
    · show volumesOn s.devices d + _ < _
      omega
    · exact hzero.symm
    · exact Or.inr hok

/-! ## Beginning and end of an attempt -/

theorem volumesOn_fresh {s : System} {busy : Option Nat} (hs : Held s busy) {d : Nat}
    (hd : s.heap.next ≤ d) : volumesOn s.devices d = 0 := by
  by_contra hpos
  obtain ⟨vol, hvol, rfl⟩ := volumesOn_pos.mp (Nat.pos_of_ne_zero hpos)
  have := (hs.volumes vol hvol).1
  omega

/-- The invariant after the creation of a disc on top of `inner`, whose heap `h` has
changed only there. -/
theorem Held.create {s : System} {busy : Option Nat} (hs : Held s busy) {h : DiscHeap}
    {base : DvmDisc} {inner : Option Nat} (hbase : base.numUsers = 0) (hbusy : busy = inner)
    (hlog : LogOk h) (hshape : Shape h) (htops : ∀ c, Top h c ↔ Top s.heap c)
    (howned : ∀ c n, Top s.heap c → inner ≠ some c → Owned s.heap c n → Owned h c n)
    (hgone : ∀ c, Top s.heap c → inner ≠ some c → Gone s.heap c → Gone h c)
    (hnext : h.next = s.heap.next)
    (hinner : ∀ i, inner = some i → Top h i ∧ (h.objs i).inner = none ∧
      volumesOn s.devices i = 0 ∧ (h.objs i).alive = true ∧ (h.objs i).base.numUsers = 1) :
    Held { s with heap := h.create base inner } (some h.next) ∧
      Top (h.create base inner) h.next := by
  have htop := top_create hshape base fun i hi => (hinner i hi).1
  refine ⟨⟨hlog.create base inner, ?_, ?_, ?_, ?_⟩, (htop _).mpr (Or.inl rfl)⟩
  · exact hshape.create base fun i hi => ⟨(hinner i hi).1, (hinner i hi).2.1⟩
  · intro vol hvol
    refine (htop _).mpr (Or.inr ⟨(htops _).mpr (hs.volumes vol hvol), ?_⟩)
    intro hi
    have hzero := (hinner _ hi).2.2.1
    have hpos : 0 < volumesOn s.devices vol.disc := volumesOn_pos.mpr ⟨vol, hvol, rfl⟩
    omega
  · intro d hd hheld
    rcases (htop d).mp hd with rfl | ⟨hold, hne⟩
    · have hzero := volumesOn_fresh hs (Nat.le_of_eq hnext.symm)
      refine ⟨hd.1, ?_, ?_, ?_⟩
      · simp
      · simp only [create_new]
        omega
      · intro i hi
        simp only [create_new] at hi
        obtain ⟨htopi, -, -, ha, hu⟩ := hinner i hi
        have hlt := htopi.1
        have hself : (h.create base inner).objs i = h.objs i :=
          create_other h base inner (by omega)
        refine ⟨?_, by omega, ?_, ?_⟩
        · show i < h.next + 1
          omega
        · show ((h.create base inner).objs i).alive = true
          rw [hself]
          exact ha
        · show ((h.create base inner).objs i).base.numUsers = 1
          rw [hself]
          exact hu
    · have hlt := hold.1
      have hsys := (htops d).mp hold
      have hpos : 0 < volumesOn s.devices d := by
        rcases hheld with hpos | hbusy'
        · exact hpos
        · have := Option.some.inj hbusy'
          omega
      exact (howned d _ hsys hne (hs.held d hsys (Or.inl hpos))).create base inner
  · intro d hd hzero hfree
    rcases (htop d).mp hd with rfl | ⟨hold, hne⟩
    · exact absurd rfl hfree
    · have hsys := (htops d).mp hold
      exact (hgone d hsys hne (hs.gone d hsys hzero (by rwa [hbusy]))).create hshape hold.1
        base inner

/-- An attempt that has mounted nothing destroys its disc. -/
theorem Held.abandon {s : System} {d : Nat} (hs : Held s (some d)) (htop : Top s.heap d)
    (hzero : volumesOn s.devices d = 0) : Held { s with heap := s.heap.destroy d } none := by
  obtain ⟨hlog, hgone, honly⟩ := destroy_gone hs.log (hs.held d htop (Or.inr rfl))
  apply hs.setHeap htop honly hlog
  · intro c hc
    simp [Ne.symm hc]
  · rintro (hpos | hbusy)
    · exact absurd hzero (Nat.ne_of_gt hpos)
    · contradiction
  · intro _ _
    exact hgone

/-- An attempt that has mounted a volume leaves the disc to its volumes. -/
theorem Held.release {s : System} {d : Nat} (hs : Held s (some d)) (htop : Top s.heap d)
    (hpos : 0 < volumesOn s.devices d) : Held s none := by
  apply hs.setHeap htop (Only.refl d s.heap) hs.log
  · intro c hc
    simp [Ne.symm hc]
  · intro _
    exact hs.held d htop (Or.inr rfl)
  · intro hzero
    omega

theorem createWrap_held {s : System} (hs : Held s none) {base : DvmDisc}
    (hbase : base.numUsers = 0) :
    Held { s with heap := s.heap.create base none } (some s.heap.next) ∧
      Top (s.heap.create base none) s.heap.next :=
  hs.create hbase rfl hs.log hs.shape (fun _ => Iff.rfl) (fun _ _ _ _ ho => ho)
    (fun _ _ _ hg => hg) rfl (by simp)

theorem createCache_held {s : System} {d : Nat} (cachePages sectorsPerPage : Nat)
    (ans : Answers) (hs : Held s (some d)) (htop : Top s.heap d)
    (hwrap : (s.heap.objs d).inner = none) (hzero : volumesOn s.devices d = 0) :
    let r := createCache s.heap d cachePages sectorsPerPage ans
    Held { s with heap := r.1 } (some r.2) ∧ Top r.1 r.2 ∧ volumesOn s.devices r.2 = 0 := by
  have hown := hs.held d htop (Or.inr rfl)
  rw [hzero] at hown
  have hused : Held { s with heap := s.heap.use d } (some d) := hs.record (hs.alive htop) rfl
  unfold createCache
  simp only [use_objs]
  cases hcache : Cache.dvmDiscCacheCreate (bareDisc (s.heap.objs d).base) cachePages
      sectorsPerPage ans.cacheAllocated
      (ans.dataAddress.map fun address => (address, fun _ => ())) with
  | inl _ => exact ⟨hused, htop, hzero⟩
  | inr cache =>
      have husers := Cache.dvmDiscCacheCreate_numUsers hcache
      have hownUsed : Owned (s.heap.use d) d 0 := hown.congr rfl rfl
      obtain ⟨hlog, hone, hadd⟩ := addUser_owned hused.log hownUsed (by omega)
      have honly : Only d s.heap ((s.heap.use d).addUser d) := (only_use d d).trans hadd
      obtain ⟨hheld, htop'⟩ := hs.create husers rfl hlog (hs.shape.only honly)
        (top_only honly)
        (fun c n hc hne ho => ho.frame hs.shape hc htop (by simpa using Ne.symm hne) honly)
        (fun c hc hne hg => hg.frame hs.shape hc htop (by simpa using Ne.symm hne) honly)
        honly.next (fun i hi => by
          obtain rfl : d = i := Option.some.inj hi
          refine ⟨(top_only honly d).mpr htop, ?_, hzero, hone.alive, hone.users⟩
          rw [honly.inner]
          exact hwrap)
      exact ⟨hheld, htop', volumesOn_fresh hs (Nat.le_of_eq honly.next.symm)⟩

theorem createDisc_held {s : System} (platform : Platform) (iface : Option DiscInterface)
    (cachePages sectorsPerPage : Nat) (ans : Answers) (hs : Held s none) :
    let r := createDisc platform s.heap iface cachePages sectorsPerPage ans
    match r.2 with
    | none => r.1 = s.heap
    | some d => Held { s with heap := r.1 } (some d) ∧ Top r.1 d ∧ volumesOn s.devices d = 0 := by
  unfold createDisc
  cases hbase : iface.bind fun iface =>
      (dvmDiscCreate platform.build iface ans.discAllocated).1 with
  | none => rfl
  | some base =>
      have husers : base.numUsers = 0 := by
        obtain ⟨i, -, hi⟩ := Option.bind_eq_some_iff.mp hbase
        exact dvmDiscCreate_numUsers hi
      obtain ⟨hheld, htop⟩ := createWrap_held hs husers
      have hzero := volumesOn_fresh hs (Nat.le_refl s.heap.next)
      by_cases hpages : cachePages = 0
      · simp only [hpages, ne_eq, not_true_eq_false, if_false]
        exact ⟨hheld, htop, hzero⟩
      · simp only [hpages, ne_eq, not_false_eq_true, if_true]
        exact createCache_held cachePages sectorsPerPage ans hheld htop (by simp) hzero

/-! ## Calls -/

/-- The attempt gets a disc, and the first partition that the driver mounts on it gets
no place in the device table: `umount` then takes the only user of the disc away. -/
def orphanedProbe (platform : Platform) (s : System) (iface : Option DiscInterface)
    (cachePages sectorsPerPage : Nat) (ans : Answers) : Bool :=
  let created := createDisc platform s.heap iface cachePages sectorsPerPage ans
  match created.2 with
  | none => false
  | some d =>
      firstUnregistered s.drvTable ans.mounts
        (probedParts platform.order (created.1.objs d).base ans) 0

/-- The same for the one partition of `fatMount` and `ext2Mount`. -/
def orphanedMount (fsdrv : DvmFsDriver) (fstype : String) (platform : Platform) (s : System)
    (iface : Option DiscInterface) (startSector cachePages sectorsPerPage : Nat)
    (ans : Answers) : Bool :=
  let created := createDisc platform s.heap iface cachePages sectorsPerPage ans
  match created.2 with
  | none => false
  | some d =>
      let registered := dvmRegisterFsDriver s.drvTable (some fsdrv)
      registered.2 && firstUnregistered registered.1 ans.mounts
        [volumePart (created.1.objs d).base startSector fstype] 0

def Call.orphaned (platform : Platform) (s : System) : Call → Bool
  | .probeMount _ iface cachePages sectorsPerPage ans =>
      orphanedProbe platform s iface cachePages sectorsPerPage ans
  | .fatMount _ iface startSector cachePages sectorsPerPage ans =>
      orphanedMount vfatFsDriver "vfat" platform s iface startSector cachePages sectorsPerPage ans
  | .ext2Mount _ iface startSector cachePages sectorsPerPage ans =>
      orphanedMount ext2FsDriver "ext2" platform s iface startSector cachePages sectorsPerPage ans
  | .unmount _ => false

theorem dvmProbeMountDiscIface_held {s : System} (platform : Platform) (basename : Name)
    (iface : Option DiscInterface) (cachePages sectorsPerPage : Nat) (ans : Answers)
    (hs : Held s none)
    (hok : orphanedProbe platform s iface cachePages sectorsPerPage ans = false) :
    Held (dvmProbeMountDiscIface platform s basename iface cachePages sectorsPerPage ans).1
      none := by
  have hcreated := createDisc_held platform iface cachePages sectorsPerPage ans hs
  unfold dvmProbeMountDiscIface
  unfold orphanedProbe at hok
  simp only at hcreated hok ⊢
  cases hdisc : (createDisc platform s.heap iface cachePages sectorsPerPage ans).2 with
  | none =>
      simp only [hdisc] at hcreated ⊢
      rw [hcreated]
      exact hs
  | some d =>
      simp only [hdisc] at hcreated hok ⊢
      obtain ⟨hheld, htop, hzero⟩ := hcreated
      obtain ⟨hheld', htop', hcount⟩ :=
        dvmProbeMountDisc_held platform basename ans hheld htop hzero hok
      split
      · next hnone => exact hheld'.abandon htop' (hcount.symm.trans hnone)
      · next hsome => exact hheld'.release htop' (by omega)

theorem driverMountIface_held {s : System} (fsdrv : DvmFsDriver) (fstype : String)
    (platform : Platform) (name : Name) (iface : Option DiscInterface)
    (startSector cachePages sectorsPerPage : Nat) (ans : Answers) (hs : Held s none)
    (hok : orphanedMount fsdrv fstype platform s iface startSector cachePages sectorsPerPage ans =
      false) :
    Held (driverMountIface fsdrv fstype platform s name iface startSector cachePages
      sectorsPerPage ans).1 none := by
  have hcreated := createDisc_held platform iface cachePages sectorsPerPage ans hs
  unfold driverMountIface
  unfold orphanedMount at hok
  simp only at hcreated hok ⊢
  cases hdisc : (createDisc platform s.heap iface cachePages sectorsPerPage ans).2 with
  | none =>
      simp only [hdisc] at hcreated ⊢
      rw [hcreated]
      exact hs
  | some d =>
      simp only [hdisc] at hcreated hok ⊢
      obtain ⟨hheld, htop, hzero⟩ := hcreated
      have htable : ∀ table, Held { s with
          drvTable := table
          heap := (createDisc platform s.heap iface cachePages sectorsPerPage ans).1 } (some d) :=
        fun _ => ⟨hheld.log, hheld.shape, hheld.volumes, hheld.held, hheld.gone⟩
      cases hreg : (dvmRegisterFsDriver s.drvTable (some fsdrv)).2 with
      | false =>
          simp only [Bool.false_eq_true, if_false]
          exact (htable _).abandon htop hzero
      | true =>
          rw [hreg, Bool.true_and] at hok
          obtain ⟨hheld', htop', hcount⟩ := dvmMountVolume_held name startSector fstype
            (ans.mounts 0) (htable _) htop hzero (registered_of_single hok)
          simp only [if_true]
          split
          · next hret =>
              rw [hret, Bool.toNat_true] at hcount
              exact hheld'.release htop' (by omega)
          · next hret =>
              rw [Bool.eq_false_iff.mpr hret, Bool.toNat_false] at hcount
              exact hheld'.abandon htop' hcount

theorem Held.unmount {s : System} (hs : Held s none) {vol : DvmVolume} (hvol : vol ∈ s.devices) :
    Held { s with
      devices := s.devices.erase vol
      heap := driverUmount s.heap vol.disc } none := by
  have htop := hs.volumes vol hvol
  have hpos : 0 < volumesOn s.devices vol.disc := volumesOn_pos.mpr ⟨vol, hvol, rfl⟩
  have hown := hs.held vol.disc htop (Or.inl hpos)
  have hself := volumesOn_erase hvol vol.disc
  rw [if_pos rfl] at hself
  have hsub : ∀ v ∈ s.devices.erase vol, v ∈ s.devices ∨ v.disc = vol.disc :=
    fun v hv => Or.inl (List.mem_of_mem_erase hv)
  have hcount : ∀ c, c ≠ vol.disc →
      volumesOn (s.devices.erase vol) c = volumesOn s.devices c := by
    intro c hc
    have := volumesOn_erase hvol c
    rw [if_neg (Ne.symm hc)] at this
    exact this.symm
  cases hrest : volumesOn (s.devices.erase vol) vol.disc with
  | zero =>
      rw [hself, hrest] at hown
      obtain ⟨hlog, hgone, honly⟩ := driverUmount_last hs.log hown
      apply hs.update htop honly hlog hsub hcount (fun _ _ => Iff.rfl)
      · rintro (hmore | hbusy)
        · exact absurd hrest (Nat.ne_of_gt hmore)
        · contradiction
      · intro _ _
        exact hgone
  | succ n =>
      rw [hself, hrest] at hown
      obtain ⟨hlog, hown', honly⟩ := driverUmount_keeps hs.log hown
      apply hs.update htop honly hlog hsub hcount (fun _ _ => Iff.rfl)
      · intro _
        rw [hrest]
        exact hown'
      · intro hzero
        rw [hrest] at hzero
        contradiction

theorem dvmUnmountVolume_held {s : System} (platform : Platform) (name : Option Name)
    (hs : Held s none) : Held (dvmUnmountVolume platform s name).1 none := by
  cases name with
  | none => exact hs
  | some name =>
      simp only [dvmUnmountVolume]
      cases platform.getDeviceOpTab s.devices (lookupName name) with
      | none => exact hs
      | some vol =>
          by_cases hvol : vol ∈ s.devices
          · simp only [hvol, if_true]
            exact hs.unmount hvol
          · simp only [hvol, if_false]
            exact hs

theorem call_held (platform : Platform) (s : System) (c : Call) (hs : Held s none)
    (hok : c.orphaned platform s = false) : Held ((machine platform).step s c).1 none := by
  cases c with
  | probeMount basename iface cachePages sectorsPerPage ans =>
      exact dvmProbeMountDiscIface_held platform basename iface cachePages sectorsPerPage ans hs hok
  | fatMount name iface startSector cachePages sectorsPerPage ans =>
      exact driverMountIface_held vfatFsDriver "vfat" platform name iface startSector cachePages
        sectorsPerPage ans hs hok
  | ext2Mount name iface startSector cachePages sectorsPerPage ans =>
      exact driverMountIface_held ext2FsDriver "ext2" platform name iface startSector cachePages
        sectorsPerPage ans hs hok
  | unmount name => exact dvmUnmountVolume_held platform name hs

theorem boot_held (drvTable : List (Option DvmFsDriver)) : Held (boot drvTable) none := by
  refine ⟨⟨?_, ?_, ?_⟩, ⟨?_, ?_, ?_⟩, ?_, ?_, ?_⟩
  · simp [boot]
  · simp [boot, destroyedDiscs]
  · simp [boot, destroyedDiscs]
  · intro d _
    rfl
  · intro d i hi
    contradiction
  · intro c d i hc _
    contradiction
  · simp [boot]
  · intro d hd _
    exact absurd hd.1 (Nat.not_lt_zero d)
  · intro d hd _ _
    exact absurd hd.1 (Nat.not_lt_zero d)

/-! ## Ownership of discs over whole runs -/

/-- No function of a disc runs after its destruction, no disc is destroyed twice, the
discs destroyed are those that carry no volume, and a failed mount has left its disc
there with the users it had. -/
structure DiscsOwned (s : System) : Prop where
  used : ∀ d alive, .used d alive ∈ s.heap.log → alive = true
  once : s.heap.destroyedDiscs.Nodup
  destroyed : ∀ d < s.heap.next,
    d ∈ s.heap.destroyedDiscs ↔ ¬ ∃ vol ∈ s.devices, s.heap.Under vol.disc d
  failed : ∀ d alive before after, .mountFailed d alive before after ∈ s.heap.log →
    alive = true ∧ before = after

theorem top_or_under {s : System} {busy : Option Nat} (hs : Held s busy) {d : Nat}
    (hd : d < s.heap.next) :
    Top s.heap d ∨ ∃ c, Top s.heap c ∧ (s.heap.objs c).inner = some d := by
  by_cases hcache : ∃ c, (s.heap.objs c).inner = some d
  · obtain ⟨c, hc⟩ := hcache
    refine Or.inr ⟨c, ⟨?_, ?_⟩, hc⟩
    · by_contra hfresh
      have := hs.shape.fresh c (by omega)
      rw [hc] at this
      contradiction
    · intro e he
      have := (hs.shape.under e c he).2
      rw [hc] at this
      contradiction
  · exact Or.inl ⟨hd, fun c hc => hcache ⟨c, hc⟩⟩

/-- Between calls the disc on top, and with it the disc under it, is gone exactly when no
volume is mounted on it. -/
theorem dead_iff {s : System} (hs : Held s none) {c d : Nat} (hc : Top s.heap c)
    (hd : s.heap.Under c d) :
    (s.heap.objs d).alive = false ↔ ¬ ∃ vol ∈ s.devices, vol.disc = c := by
  rw [← volumesOn_pos]
  rcases Nat.eq_zero_or_pos (volumesOn s.devices c) with hzero | hpos
  · have hgone := hs.gone c hc hzero (by simp)
    have hdead : (s.heap.objs d).alive = false := by
      rcases hd with rfl | hinner
      · exact hgone.dead
      · exact hgone.inner d hinner
    simp [hdead, hzero]
  · have hown := hs.held c hc (Or.inl hpos)
    have halive : (s.heap.objs d).alive = true := by
      rcases hd with rfl | hinner
      · exact hown.alive
      · exact (hown.inner d hinner).2.2.1
    simp [halive, hpos]

theorem Held.owned {s : System} (hs : Held s none) : DiscsOwned s := by
  refine ⟨?_, hs.log.once, ?_, ?_⟩
  · intro d alive hmem
    exact hs.log.safe _ hmem
  · intro d hd
    rw [hs.log.dead]
    obtain ⟨c, hc, hunder⟩ : ∃ c, Top s.heap c ∧ s.heap.Under c d := by
      rcases top_or_under hs hd with htop | ⟨c, hc, hinner⟩
      · exact ⟨d, htop, Or.inl rfl⟩
      · exact ⟨c, hc, Or.inr hinner⟩
    -- the volumes over `d` are those on `c`
    have hsame : (∃ vol ∈ s.devices, s.heap.Under vol.disc d) ↔
        ∃ vol ∈ s.devices, vol.disc = c := by
      constructor
      · rintro ⟨vol, hvol, hover⟩
        refine ⟨vol, hvol, ?_⟩
        by_contra hne
        exact hs.shape.apart (hs.volumes vol hvol) hc hne hover hunder
      · rintro ⟨vol, hvol, rfl⟩
        exact ⟨vol, hvol, hunder⟩
    rw [hsame, ← dead_iff hs hc hunder]
    simp [hd]
  · intro d alive before after hmem
    exact hs.log.safe _ hmem

end LibDvm.Volume
