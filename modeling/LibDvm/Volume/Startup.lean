import LibDvm.Volume.Naming
import LibDvm.Volume.Orphaned

/-! # What `dvmInit` mounts

The start-up of libogc2 and libgba probes a fixed list of drives. The names a probe
registers are its base name and that name with a digit, at most one volume each, so that
no two volumes of a start-up share a name, and each is found again under its own.
-/

namespace LibDvm.Volume

open Words Prober DiscHeap

/-! ## The start-up -/

def ascii (text : String) : Name := text.toList.map fun c => UInt8.ofNat c.toNat

inductive Console where
  | wii
  | gamecube

/-- The build of the library that defines `dvmInit`. -/
inductive Port where
  | libogc2 (console : Console)
  | libgba

def exfatFsDriver : DvmFsDriver := ⟨1, "exfat"⟩

/-- The drivers `dvmInit` registers, in its order; a weak symbol that is not linked in is
null. -/
def Port.drivers (linked : DvmFsDriver → Bool) : Port → List (Option DvmFsDriver)
  | .libogc2 _ => [vfatFsDriver, exfatFsDriver, ext2FsDriver].map fun fsdrv =>
      if linked fsdrv then some fsdrv else none
  | .libgba => []

/-- The drives `dvmInit` tries, in its order. -/
def Port.drives : Port → List Name
  | .libogc2 .wii => [ascii "sd", ascii "usb", ascii "carda", ascii "cardb"]
  | .libogc2 .gamecube => [ascii "carda", ascii "cardb", ascii "sd", ascii "dvd", ascii "ram"]
  | .libgba => [ascii "fat"]

/-- A drive of the console: its interface, and what the outside does while it is probed. -/
structure Drive where
  iface : Option DiscInterface
  ans : Answers

/-- The calls of `dvmProbeMountDiscIface`, adding up `num_mounted`. -/
def probeDrives (platform : Platform) (drive : Name → Drive) (cachePages sectorsPerPage : Nat) :
    List Name → System → Nat → System × Nat
  | [], s, numMounted => (s, numMounted)
  | name :: rest, s, numMounted =>
      let r := dvmProbeMountDiscIface platform s name (drive name).iface cachePages sectorsPerPage
        (drive name).ans
      probeDrives platform drive cachePages sectorsPerPage rest r.1 (numMounted + r.2)

/-- The calls of `dvmRegisterFsDriver`. -/
def registerDrivers (fsdrvs : List (Option DvmFsDriver)) (table : List (Option DvmFsDriver)) :
    List (Option DvmFsDriver) :=
  fsdrvs.foldl (fun table fsdrv => (dvmRegisterFsDriver table fsdrv).1) table

/-- `dvmInit` without the working directory. -/
def dvmInit (platform : Platform) (port : Port) (linked : DvmFsDriver → Bool)
    (drive : Name → Drive) (cachePages sectorsPerPage : Nat) (s : System) : System × Bool :=
  let s := { s with drvTable := registerDrivers (port.drivers linked) s.drvTable }
  let r := probeDrives platform drive cachePages sectorsPerPage port.drives s 0
  (r.1, r.2 != 0)

def Port.calls (port : Port) (drive : Name → Drive) (cachePages sectorsPerPage : Nat) :
    List Call :=
  port.drives.map fun name =>
    .probeMount name (drive name).iface cachePages sectorsPerPage (drive name).ans

theorem dvmInit_run (platform : Platform) (port : Port) (linked : DvmFsDriver → Bool)
    (drive : Name → Drive) (cachePages sectorsPerPage : Nat)
    (drvTable : List (Option DvmFsDriver)) :
    (dvmInit platform port linked drive cachePages sectorsPerPage (boot drvTable)).1 =
      (machine platform).run (boot (registerDrivers (port.drivers linked) drvTable))
        (port.calls drive cachePages sectorsPerPage) := by
  have hloop : ∀ (drives : List Name) (s : System) (numMounted : Nat),
      (probeDrives platform drive cachePages sectorsPerPage drives s numMounted).1 =
        (machine platform).run s (drives.map fun name =>
          .probeMount name (drive name).iface cachePages sectorsPerPage (drive name).ans) := by
    intro drives
    induction drives with
    | nil => exact fun _ _ => rfl
    | cons name rest ih => exact fun s numMounted => ih _ _
  exact hloop port.drives _ 0

/-! ## The records of one probe -/

section Records

variable (entry : Nat → DvmMbrPartEntry)

theorem partLoop_indices (maxPartitions : Nat) (slots : List Nat) (total : Nat)
    (out : List DvmPartInfo) :
    ((partLoop entry maxPartitions slots total out).out.map DvmPartInfo.index).Sublist
      (out.map DvmPartInfo.index ++ slots.map (· + 1)) := by
  induction slots generalizing total out with
  | nil => simp [partLoop]
  | cons i rest ih =>
      have hstop : (out.map DvmPartInfo.index).Sublist
          (out.map DvmPartInfo.index ++ (i :: rest).map (· + 1)) := List.sublist_append_left _ _
      have hskip : (out.map DvmPartInfo.index ++ rest.map (· + 1)).Sublist
          (out.map DvmPartInfo.index ++ (i :: rest).map (· + 1)) :=
        (List.Sublist.refl _).append (List.sublist_cons_self _ _)
      simp only [partLoop]
      split
      · split
        · exact hstop
        · split
          · exact (ih total out).trans hskip
          · have hrecord := ih (if (entry i).partEnd > total then (entry i).partEnd else total)
              (out ++ [(entry i).info i])
            simpa [DvmMbrPartEntry.info] using hrecord
      · exact hstop

theorem identLoop_indices (order : ByteOrder) (d : ProbeDisc) (bufSz numSectors : Nat)
    (parts : List DvmPartInfo) (buf : Nat → UInt8) (call : Nat) :
    (identLoop order d bufSz numSectors parts buf call).1.map DvmPartInfo.index =
      parts.map DvmPartInfo.index := by
  induction parts generalizing buf call with
  | nil => rfl
  | cons part rest ih =>
      unfold identLoop
      cases readInto d buf bufSz call numSectors part.startSector with
      | none => rfl
      | some data =>
          simp only [List.map_cons, ih]
          congr 1
          cases dvmIdentMbrVbr order data with
          | none => rfl
          | some text =>
              simp only
              split <;> rfl

theorem readMbr_indices (order : ByteOrder) (d : ProbeDisc) (maxPartitions flags : Nat)
    (buf : Nat → UInt8) (bufSz : Nat) :
    ((readMbr order d maxPartitions flags buf bufSz).out.map DvmPartInfo.index).Sublist
      [1, 2, 3, 4] := by
  have hscan := partLoop_indices (mbrPart order buf) maxPartitions [0, 1, 2, 3] 0 []
  unfold readMbr
  simp only
  split
  · exact hscan
  · split
    · exact hscan
    · split
      · rw [identLoop_indices]
        exact hscan
      · exact hscan

/-- A table holds one record of the whole disc, or records of slots in the order of these. -/
theorem readPartitionTable_indices (order : ByteOrder) (d : ProbeDisc)
    (maxPartitions flags : Nat) (allocated : Option (Nat → UInt8)) :
    let out := (dvmReadPartitionTable order d maxPartitions flags allocated).out
    out.map DvmPartInfo.index = [0] ∨ (out.map DvmPartInfo.index).Sublist [1, 2, 3, 4] := by
  unfold dvmReadPartitionTable
  split
  · exact Or.inr (List.nil_sublist _)
  · cases allocated with
    | none => exact Or.inr (List.nil_sublist _)
    | some buf =>
        simp only [dvmReadPartitionTableBuf]
        cases readInto d buf (bufferSize d) 0 d.disc.numSectors 0 with
        | none => exact Or.inr (List.nil_sublist _)
        | some data =>
            simp only
            cases dvmIdentMbrVbr order data with
            | none => exact Or.inr (List.nil_sublist _)
            | some text =>
                simp only
                split
                · exact Or.inl rfl
                · exact Or.inr (readMbr_indices order d maxPartitions flags data (bufferSize d))

end Records

/-! ## Names registered -/

/-- The mounts between `s` and `s'` have registered `count` volumes, under a selection of
the names allowed, in order. -/
def Adds (s s' : System) (allowed : List Name) (count : Nat) : Prop :=
  ∃ names : List Name, names.Sublist allowed ∧ names.length = count ∧
    s'.devices.map DvmVolume.namebuf = s.devices.map DvmVolume.namebuf ++ names.map namebuf

namespace Adds

variable {s s' s'' : System} {allowed more : List Name} {count rest : Nat}

theorem unchanged (h : s'.devices = s.devices) : Adds s s' allowed 0 :=
  ⟨[], List.nil_sublist _, rfl, by simp [h]⟩

theorem append (h : Adds s s' allowed count) (h' : Adds s' s'' more rest) :
    Adds s s'' (allowed ++ more) (count + rest) := by
  obtain ⟨names, hsub, hcount, hdevices⟩ := h
  obtain ⟨names', hsub', hcount', hdevices'⟩ := h'
  exact ⟨names ++ names', hsub.append hsub', by simp [hcount, hcount'],
    by simp [hdevices, hdevices']⟩

theorem mono (h : Adds s s' allowed count) (hsub : allowed.Sublist more) :
    Adds s s' more count := by
  obtain ⟨names, hnames, hrest⟩ := h
  exact ⟨names, hnames.trans hsub, hrest⟩

end Adds

theorem mountPartition_adds (s : System) (name : Name) (disc : Nat) (part : DvmPartInfo)
    (o : MountOutcome) :
    let r := mountPartition s name disc part o
    Adds s r.1 [name] r.2.toNat := by
  unfold mountPartition
  split
  · exact .unchanged rfl
  · next fsdrv _ =>
      cases o.volAllocated with
      | false => exact .unchanged rfl
      | true =>
          cases o.mounted with
          | false => exact .unchanged rfl
          | true =>
              cases o.addDevice with
              | none => exact .unchanged rfl
              | some devid => exact ⟨[name], List.Sublist.refl _, rfl, by simp [driverMount]⟩

theorem dvmMountPartition_adds (s : System) (name : Name) (disc : Nat) (part : DvmPartInfo)
    (o : MountOutcome) :
    let r := dvmMountPartition s name disc part o
    Adds s r.1 [name] r.2.toNat := by
  have hbody := mountPartition_adds s name disc part o
  unfold dvmMountPartition
  simp only at hbody ⊢
  split
  · exact hbody
  · next hfail =>
      rw [Bool.eq_false_iff.mpr hfail] at hbody
      exact hbody

theorem mountLoop_adds (basename : Name) (disc : Nat) (mounts : Nat → MountOutcome)
    (parts : List DvmPartInfo) (i numMounted : Nat) (s : System) :
    let r := mountLoop basename disc mounts parts i numMounted s
    ∃ count, r.2 = numMounted + count ∧
      Adds s r.1 ((parts.map DvmPartInfo.index).map (volname basename)) count := by
  induction parts generalizing i numMounted s with
  | nil => exact ⟨0, rfl, .unchanged rfl⟩
  | cons part rest ih =>
      simp only [mountLoop]
      split
      · obtain ⟨count, hret, hadds⟩ := ih (i + 1) numMounted s
        exact ⟨count, hret, hadds.mono (List.sublist_cons_self _ _)⟩
      · have hfirst := dvmMountPartition_adds s (volname basename part.index) disc part (mounts i)
        obtain ⟨count, hret, hadds⟩ := ih (i + 1)
          (if (dvmMountPartition s (volname basename part.index) disc part (mounts i)).2 then
            numMounted + 1 else numMounted)
          (dvmMountPartition s (volname basename part.index) disc part (mounts i)).1
        refine ⟨_, ?_, hfirst.append hadds⟩
        rw [hret]
        cases (dvmMountPartition s (volname basename part.index) disc part (mounts i)).2 with
        | true => simp only [if_true, Bool.toNat_true]; omega
        | false => simp

/-- The names a probe may register: the base name, and that name with a digit. -/
def probeNames (basename : Name) : List Name := [1, 2, 3, 4].map (volname basename)

theorem volname_first {basename : Name} (hlen : basename.length ≤ 14) :
    volname basename 1 = basename := by
  simp [volname, List.take_of_length_le hlen]

theorem dvmMountVolume_adds (s : System) (name : Name) (disc startSector : Nat)
    (fstype : String) (o : MountOutcome) :
    let r := dvmMountVolume s name disc startSector fstype o
    Adds s r.1 [name] r.2.toNat :=
  dvmMountPartition_adds { s with heap := _ } name disc _ o

theorem dvmProbeMountDisc_adds {basename : Name} (hlen : basename.length ≤ 14)
    (platform : Platform) (s : System) (disc : Nat) (ans : Answers) :
    let r := dvmProbeMountDisc platform s basename disc ans
    Adds s r.1 (probeNames basename) r.2 := by
  have hindices : let out := (probeTable platform.order (s.heap.objs disc).base ans).out
      out.map DvmPartInfo.index = [0] ∨ (out.map DvmPartInfo.index).Sublist [1, 2, 3, 4] :=
    readPartitionTable_indices platform.order _ 4 dvmIdentFstype ans.probeBuffer
  have hfirst : [basename].Sublist (probeNames basename) := by
    rw [probeNames, List.map_cons, volname_first hlen]
    simp
  unfold dvmProbeMountDisc
  generalize probeTable platform.order (s.heap.objs disc).base ans = found at hindices ⊢
  simp only at hindices ⊢
  -- the table is not touched before the first mount
  let sized : System :=
    { s with heap := (s.heap.access disc).modify disc (setNumSectors found.numSectors) }
  change Adds sized (if found.ret = 0 then _ else _ : System × Nat).1 _ _
  split
  · have hone := (dvmMountVolume_adds sized basename disc 0 "exfat" (ans.mounts 0)).mono hfirst
    change Adds sized (dvmMountVolume sized basename disc 0 "exfat" (ans.mounts 0)).1 _
      (if (dvmMountVolume sized basename disc 0 "exfat" (ans.mounts 0)).2 then 1 else 0)
    cases hret : (dvmMountVolume sized basename disc 0 "exfat" (ans.mounts 0)).2 with
    | true =>
        rw [hret] at hone
        exact hone
    | false =>
        rw [hret] at hone
        exact hone
  · obtain ⟨count, hret, hadds⟩ :=
      mountLoop_adds basename disc ans.mounts (found.out.take found.ret) 0 0 sized
    have htaken : ((found.out.take found.ret).map DvmPartInfo.index).Sublist
        (found.out.map DvmPartInfo.index) := (List.take_sublist _ _).map _
    rw [Nat.zero_add] at hret
    change Adds sized (mountLoop basename disc ans.mounts (found.out.take found.ret) 0 0 sized).1 _
      (mountLoop basename disc ans.mounts (found.out.take found.ret) 0 0 sized).2
    rw [hret]
    refine hadds.mono ?_
    rcases hindices with hwhole | hslots
    · -- a file system without a partition table goes by the base name
      rw [hwhole] at htaken
      have hzero : volname basename 0 = basename := volname_first hlen
      have hnames := htaken.map (volname basename)
      rw [List.map_cons, List.map_nil, hzero] at hnames
      exact hnames.trans hfirst
    · exact (htaken.trans hslots).map (volname basename)

theorem dvmProbeMountDiscIface_adds {basename : Name} (hlen : basename.length ≤ 14)
    (platform : Platform) (s : System) (iface : Option DiscInterface)
    (cachePages sectorsPerPage : Nat) (ans : Answers) :
    let r := dvmProbeMountDiscIface platform s basename iface cachePages sectorsPerPage ans
    Adds s r.1 (probeNames basename) r.2 := by
  unfold dvmProbeMountDiscIface
  simp only
  cases (createDisc platform s.heap iface cachePages sectorsPerPage ans).2 with
  | none => exact .unchanged rfl
  | some disc =>
      have hprobe := dvmProbeMountDisc_adds hlen platform
        { s with heap := (createDisc platform s.heap iface cachePages sectorsPerPage ans).1 }
        disc ans
      simp only at hprobe ⊢
      split
      · next hnone =>
          rw [hnone] at hprobe
          exact hprobe
      · exact hprobe

theorem probeDrives_adds (platform : Platform) (drive : Name → Drive)
    (cachePages sectorsPerPage : Nat) {drives : List Name} (hlen : ∀ b ∈ drives, b.length ≤ 14)
    (s : System) (numMounted : Nat) :
    let r := probeDrives platform drive cachePages sectorsPerPage drives s numMounted
    ∃ count, r.2 = numMounted + count ∧ Adds s r.1 (drives.flatMap probeNames) count := by
  induction drives generalizing s numMounted with
  | nil => exact ⟨0, rfl, .unchanged rfl⟩
  | cons name rest ih =>
      have hfirst := dvmProbeMountDiscIface_adds (hlen name List.mem_cons_self) platform s
        (drive name).iface cachePages sectorsPerPage (drive name).ans
      obtain ⟨count, hret, hadds⟩ := ih (fun b hb => hlen b (List.mem_cons_of_mem name hb))
        (dvmProbeMountDiscIface platform s name (drive name).iface cachePages sectorsPerPage
          (drive name).ans).1
        (numMounted + (dvmProbeMountDiscIface platform s name (drive name).iface cachePages
          sectorsPerPage (drive name).ans).2)
      refine ⟨_, ?_, hfirst.append hadds⟩
      rw [← Nat.add_assoc]
      exact hret

/-! ## The names of a start-up -/

/-- A name that `dvmUnmountVolume` looks up as it stands. -/
structure Plain (name : Name) : Prop where
  nonempty : name ≠ []
  noColon : 0x3a ∉ name
  noNul : 0 ∉ name
  length : name.length ≤ 30

instance (name : Name) : Decidable (Plain name) :=
  decidable_of_iff (name ≠ [] ∧ 0x3a ∉ name ∧ 0 ∉ name ∧ name.length ≤ 30)
    ⟨fun h => ⟨h.1, h.2.1, h.2.2.1, h.2.2.2⟩, fun h => ⟨h.nonempty, h.noColon, h.noNul, h.length⟩⟩

def Port.names (port : Port) : List Name := port.drives.flatMap probeNames

theorem Port.names_nodup (port : Port) : port.names.Nodup := by
  cases port with
  | libogc2 console => cases console <;> decide +kernel
  | libgba => decide +kernel

theorem Port.names_plain (port : Port) : ∀ name ∈ port.names, Plain name := by
  cases port with
  | libogc2 console => cases console <;> decide +kernel
  | libgba => decide +kernel

theorem Port.drives_short (port : Port) : ∀ b ∈ port.drives, b.length ≤ 14 := by
  cases port with
  | libogc2 console => cases console <;> decide
  | libgba => decide

theorem Plain.deviceName {name : Name} (h : Plain name) (after : DvmVolume → List UInt8)
    {vol : DvmVolume} (hbuf : vol.namebuf = namebuf name) : deviceName after vol = name := by
  rw [Volume.deviceName, hbuf, cString_namebuf h.noNul (Nat.le_succ_of_le h.length)]

theorem OnlyBearer.found {platform : Platform} {after : DvmVolume → List UInt8}
    {others : List Name} (hlookup : ExactLookup platform after others) {s : System}
    {vol : DvmVolume} (hvol : OnlyBearer after others s vol)
    (hname : Volume.deviceName after vol ≠ [] ∧ 0x3a ∉ Volume.deviceName after vol)
    (hlen : (Volume.deviceName after vol).length ≤ 30) :
    platform.getDeviceOpTab s.devices (lookupName (Volume.deviceName after vol)) = some vol := by
  have htext : deviceText (lookupName (Volume.deviceName after vol)) =
      Volume.deviceName after vol := by
    rw [deviceText_lookupName hname.1 hname.2, List.take_of_length_le hlen]
  refine hlookup.finds (colon_mem_lookupName hname.1 hname.2) hvol.registered htext.symm ?_ ?_
  · rw [htext]
    exact hvol.others
  · rw [htext]
    exact hvol.unique

theorem read_names (after : DvmVolume → List UInt8) {devices : List DvmVolume}
    {names : List Name} (hplain : ∀ name ∈ names, Plain name)
    (h : devices.map DvmVolume.namebuf = names.map namebuf) :
    devices.map (deviceName after) = names ∧
      ∀ vol ∈ devices, vol.namebuf = namebuf (deviceName after vol) := by
  induction devices generalizing names with
  | nil =>
      cases names with
      | nil => simp
      | cons name rest => cases h
  | cons vol devices ih =>
      cases names with
      | nil => cases h
      | cons name rest =>
          obtain ⟨hbuf, htail⟩ := List.cons.inj h
          obtain ⟨hread, hbufs⟩ := ih (fun n hn => hplain n (List.mem_cons_of_mem name hn)) htail
          have hname := (hplain name List.mem_cons_self).deviceName after hbuf
          refine ⟨by rw [List.map_cons, hname, hread], fun other hother => ?_⟩
          rcases List.mem_cons.mp hother with rfl | hmem
          · rw [hname, hbuf]
          · exact hbufs other hmem

theorem Adds.read {s s' : System} {allowed : List Name} {count : Nat}
    (h : Adds s s' allowed count) (hs : s.devices = []) (after : DvmVolume → List UInt8)
    (hplain : ∀ name ∈ allowed, Plain name) :
    (s'.devices.map (deviceName after)).Sublist allowed ∧
      (∀ vol ∈ s'.devices, vol.namebuf = namebuf (deviceName after vol)) ∧
      s'.devices.length = count := by
  obtain ⟨names, hsub, hcount, hdevices⟩ := h
  rw [hs, List.map_nil, List.nil_append] at hdevices
  obtain ⟨hread, hbufs⟩ :=
    read_names after (fun name hname => hplain name (hsub.subset hname)) hdevices
  refine ⟨?_, hbufs, ?_⟩
  · rw [hread]
    exact hsub
  · rw [← hcount, ← hread, List.length_map]

theorem dvmInit_names (platform : Platform) (after : DvmVolume → List UInt8) (port : Port)
    (linked : DvmFsDriver → Bool) (drive : Name → Drive) (cachePages sectorsPerPage : Nat)
    (drvTable : List (Option DvmFsDriver)) :
    let r := dvmInit platform port linked drive cachePages sectorsPerPage (boot drvTable)
    (r.1.devices.map (deviceName after)).Sublist port.names ∧
      (∀ vol ∈ r.1.devices, vol.namebuf = namebuf (deviceName after vol)) ∧
      (r.2 = true ↔ r.1.devices ≠ []) := by
  intro r
  obtain ⟨count, hret, hadds⟩ :=
    probeDrives_adds platform drive cachePages sectorsPerPage port.drives_short
      (boot (registerDrivers (port.drivers linked) drvTable)) 0
  obtain ⟨hsub, hbufs, (hlen : r.1.devices.length = count)⟩ :=
    hadds.read rfl after port.names_plain
  refine ⟨hsub, hbufs, ?_⟩
  have hbool : r.2 = (count != 0) := by
    rw [Nat.zero_add] at hret
    exact congrArg (· != 0) hret
  rw [hbool, ← hlen]
  simp

theorem names_unmount {platform : Platform} {after : DvmVolume → List UInt8}
    {others names : List Name} (hlookup : ExactLookup platform after others)
    (hothers : ∀ name ∈ names, name ∉ others) (hnames : names.Nodup)
    (hplain : ∀ name ∈ names, Plain name) {s : System}
    (hsub : (s.devices.map (deviceName after)).Sublist names)
    (hbufs : ∀ vol ∈ s.devices, vol.namebuf = namebuf (deviceName after vol)) :
    (s.devices.map (deviceName after)).Nodup ∧
      ∀ vol ∈ s.devices, Unmounts platform s (deviceName after vol) vol := by
  have hnodup : (s.devices.map (deviceName after)).Nodup := hnames.sublist hsub
  refine ⟨hnodup, fun vol hvol => ?_⟩
  have hmem : deviceName after vol ∈ names := hsub.subset (List.mem_map_of_mem hvol)
  have hbearer : OnlyBearer after others s vol := by
    refine ⟨hvol, hothers _ hmem, fun other hother hsame => ?_⟩
    exact List.inj_on_of_nodup_map hnodup hother hvol hsame
  have hname := hplain _ hmem
  have hfound := hbearer.found hlookup ⟨hname.nonempty, hname.noColon⟩ hname.length
  refine ⟨?_, hfound, dvmUnmountVolume_found hfound hvol⟩
  rw [hbufs vol hvol]
  exact (namebuf_terminated hname.noNul).mpr (Nat.le_succ_of_le hname.length)

def sampleDrive (name : Name) : Drive :=
  ⟨if name = ascii "sd" then some sampleIface else none, sampleAnswers (some 3)⟩

def sampleStartup : System × Bool :=
  dvmInit namedPlatform (.libogc2 .wii) (fun _ => true) sampleDrive 2 8 (boot sampleTable)

end LibDvm.Volume
