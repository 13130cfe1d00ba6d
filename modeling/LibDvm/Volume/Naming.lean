import LibDvm.Volume.Model

/-! # Names of mounted volumes

`dvmMountPartition` keeps the first 32 bytes of a name, and stores a NUL only where the
name leaves room for one; `dvmUnmountVolume` looks up its first 30 bytes. How the platform
finds a device by its name is an assumption, and so is what lies in memory behind a
`namebuf`.
-/

namespace LibDvm.Volume

open Prober

/-! ## How the device table finds a name -/

def cString (bytes : List UInt8) : Name := bytes.takeWhile (· ≠ 0)

def deviceText (path : Name) : Name := path.takeWhile (· ≠ 0x3a)

/-- The name the table reads at `dotab.name`; `after` is the memory behind the buffer. -/
def deviceName (after : DvmVolume → List UInt8) (vol : DvmVolume) : Name :=
  cString (vol.namebuf ++ after vol)

/-- `GetDeviceOpTab` on a path with a device: an exact match of its text, among the volumes
and the other devices. -/
structure ExactLookup (platform : Platform) (after : DvmVolume → List UInt8)
    (others : List Name) : Prop where
  exact : ∀ {devices path vol}, 0x3a ∈ path → vol ∈ devices →
    platform.getDeviceOpTab devices path = some vol → deviceName after vol = deviceText path
  finds : ∀ {devices path vol}, 0x3a ∈ path → vol ∈ devices →
    deviceName after vol = deviceText path → deviceText path ∉ others →
    (∀ other ∈ devices, deviceName after other = deviceText path → other = vol) →
    platform.getDeviceOpTab devices path = some vol

def exactLookup (after : DvmVolume → List UInt8) (others : List Name)
    (devices : List DvmVolume) (path : Name) : Option DvmVolume :=
  if deviceText path ∈ others then none
  else devices.find? fun vol => deviceName after vol = deviceText path

def exactPlatform (after : DvmVolume → List UInt8) (others : List Name) : Platform :=
  ⟨.other, .little, exactLookup after others⟩

theorem exactPlatform_exact (after : DvmVolume → List UInt8) (others : List Name) :
    ExactLookup (exactPlatform after others) after others := by
  constructor
  · intro devices path vol _ _ hfound
    simp only [exactPlatform, exactLookup] at hfound
    split at hfound
    · cases hfound
    · simpa using List.find?_some hfound
  · intro devices path vol _ hreg hmatch hothers hunique
    simp only [exactPlatform, exactLookup, if_neg hothers]
    cases hfind : devices.find? fun vol => deviceName after vol = deviceText path with
    | none => exact absurd hmatch (by simpa using List.find?_eq_none.mp hfind vol hreg)
    | some found =>
        rw [hunique found (List.mem_of_find?_eq_some hfind) (by simpa using List.find?_some hfind)]

structure OnlyBearer (after : DvmVolume → List UInt8) (others : List Name) (s : System)
    (vol : DvmVolume) : Prop where
  registered : vol ∈ s.devices
  others : deviceName after vol ∉ others
  unique : ∀ other ∈ s.devices, deviceName after other = deviceName after vol → other = vol

structure Unmounts (platform : Platform) (s : System) (name : Name) (vol : DvmVolume) :
    Prop where
  terminated : 0 ∈ vol.namebuf
  resolves : platform.getDeviceOpTab s.devices (lookupName name) = some vol
  unmounts : dvmUnmountVolume platform s (some name) =
    ({ s with devices := s.devices.erase vol, heap := driverUmount s.heap vol.disc }, true)

/-! ## The two buffers -/

section Buffers

variable {name : Name}

theorem cString_append_nul (hstr : 0 ∉ name) (rest : List UInt8) :
    cString (name ++ 0 :: rest) = name := by
  have hall : ∀ b ∈ name, (decide (b ≠ 0)) = true := by
    intro b hb
    simp only [decide_eq_true_eq]
    rintro rfl
    exact hstr hb
  rw [cString, List.takeWhile_append_of_pos hall, List.takeWhile_cons_of_neg (by simp),
    List.append_nil]

theorem cString_namebuf (hstr : 0 ∉ name) (hlen : name.length ≤ 31) (after : List UInt8) :
    cString (namebuf name ++ after) = name := by
  have hpad : List.replicate (32 - name.length) (0 : UInt8) =
      0 :: List.replicate (31 - name.length) 0 := by
    rw [← List.replicate_succ]
    congr 1
    omega
  rw [namebuf, List.take_of_length_le (by omega), hpad, List.append_assoc, List.cons_append,
    cString_append_nul hstr]

theorem namebuf_terminated (hstr : 0 ∉ name) : 0 ∈ namebuf name ↔ name.length ≤ 31 := by
  unfold namebuf
  constructor
  · intro h
    rcases List.mem_append.mp h with htaken | hpad
    · exact absurd (List.mem_of_mem_take htaken) hstr
    · have := (List.mem_replicate.mp hpad).1
      omega
  · intro h
    exact List.mem_append_right _ (List.mem_replicate.mpr ⟨by omega, rfl⟩)

theorem colon_mem_lookupName (hname : name ≠ []) (hcolon : 0x3a ∉ name) :
    0x3a ∈ lookupName name := by
  rw [lookupName, if_pos ⟨hname, hcolon⟩]
  simp

theorem deviceText_lookupName (hname : name ≠ []) (hcolon : 0x3a ∉ name) :
    deviceText (lookupName name) = name.take 30 := by
  have hall : ∀ b ∈ name.take 30, (decide (b ≠ 0x3a)) = true := by
    intro b hb
    simp only [decide_eq_true_eq]
    rintro rfl
    exact hcolon (List.mem_of_mem_take hb)
  rw [lookupName, if_pos ⟨hname, hcolon⟩, deviceText, List.takeWhile_append_of_pos hall,
    List.takeWhile_cons_of_neg (by simp), List.append_nil]

end Buffers

/-! ## Mounting and unmounting by name -/

theorem dvmMountPartition_registers {s : System} {name : Name} {disc : Nat}
    {part : DvmPartInfo} {o : MountOutcome} (h : (dvmMountPartition s name disc part o).2 = true) :
    ∃ vol, vol.namebuf = namebuf name ∧
      (dvmMountPartition s name disc part o).1.devices = s.devices ++ [vol] := by
  have hret : (mountPartition s name disc part o).2 = true := by
    by_contra hfail
    simp [dvmMountPartition, hfail] at h
  rw [dvmMountPartition, if_pos hret]
  unfold mountPartition at hret ⊢
  split at hret
  · cases hret
  · next fsdrv _ =>
      cases hvol : o.volAllocated with
      | false => simp [hvol] at hret
      | true =>
          cases hmounted : o.mounted with
          | false => simp [hvol, driverMount, hmounted] at hret
          | true =>
              cases hdev : o.addDevice with
              | none => simp [hvol, driverMount, hmounted, hdev] at hret
              | some devid => exact ⟨⟨devid, fsdrv, namebuf name, disc⟩, rfl, by simp [driverMount]⟩

theorem dvmUnmountVolume_found {platform : Platform} {s : System} {name : Name} {vol : DvmVolume}
    (hfound : platform.getDeviceOpTab s.devices (lookupName name) = some vol)
    (hreg : vol ∈ s.devices) : dvmUnmountVolume platform s (some name) =
      ({ s with devices := s.devices.erase vol, heap := driverUmount s.heap vol.disc }, true) := by
  simp only [dvmUnmountVolume, hfound, if_pos hreg]

/-- Whatever has happened since, as long as the volume is registered and alone in its name,
the name it was mounted under unmounts it exactly when that has at most 30 bytes. -/
theorem mounted_name_unmounts {platform : Platform} {after : DvmVolume → List UInt8}
    {others : List Name} (hlookup : ExactLookup platform after others) {s : System} {name : Name}
    (hname : name ≠ []) (hcolon : 0x3a ∉ name) (hstr : 0 ∉ name) {disc : Nat}
    {part : DvmPartInfo} {o : MountOutcome}
    (hmount : (dvmMountPartition s name disc part o).2 = true) :
    ∃ vol, (dvmMountPartition s name disc part o).1.devices = s.devices ++ [vol] ∧
      ∀ later, OnlyBearer after others later vol →
        (Unmounts platform later name vol ↔ name.length ≤ 30) := by
  obtain ⟨vol, hbuf, hdevices⟩ := dvmMountPartition_registers hmount
  refine ⟨vol, hdevices, fun later hvol => ?_⟩
  have hcolon' := colon_mem_lookupName hname hcolon
  have htext := deviceText_lookupName hname hcolon
  constructor
  · intro h
    have hterm : name.length ≤ 31 := (namebuf_terminated hstr).mp (hbuf ▸ h.terminated)
    have hread : deviceName after vol = name := by
      rw [deviceName, hbuf, cString_namebuf hstr hterm]
    have hmatch : name = name.take 30 := by
      rw [← htext, ← hlookup.exact hcolon' hvol.registered h.resolves, hread]
    have := congrArg List.length hmatch
    rw [List.length_take] at this
    omega
  · intro hlen
    have htake : name.take 30 = name := List.take_of_length_le hlen
    have hread : deviceName after vol = name := by
      rw [deviceName, hbuf, cString_namebuf hstr (by omega)]
    have hmatch : deviceName after vol = deviceText (lookupName name) := by
      rw [htext, htake, hread]
    have hfound : platform.getDeviceOpTab later.devices (lookupName name) = some vol := by
      refine hlookup.finds hcolon' hvol.registered hmatch ?_ ?_
      · rw [← hmatch]
        exact hvol.others
      · rw [← hmatch]
        exact hvol.unique
    refine ⟨?_, hfound, dvmUnmountVolume_found hfound hvol.registered⟩
    rw [hbuf]
    exact (namebuf_terminated hstr).mpr (by omega)

def otherDevices : List Name := [[0x73, 0x74, 0x64, 0x6e, 0x75, 0x6c, 0x6c]]

/-- Padding that `memset` has cleared. -/
def padding (_ : DvmVolume) : List UInt8 := [0]

def namedPlatform : Platform := exactPlatform padding otherDevices

def mountUnder (name : Name) : System × Bool :=
  dvmMountPartition (boot [some vfatFsDriver]) name 0 ⟨1, 12, some "vfat", 63, 1000⟩
    ⟨true, true, some 3⟩

def longName : Name := List.replicate 30 0x61

theorem mounted_name_unmounts_sample :
    ∃ vol, (mountUnder longName).1.devices = [] ++ [vol] ∧
      ∀ later, OnlyBearer padding otherDevices later vol →
        (Unmounts namedPlatform later longName vol ↔ longName.length ≤ 30) :=
  mounted_name_unmounts (exactPlatform_exact _ _) (by decide) (by decide) (by decide)
    (by decide +kernel)

/-- A name of 31 bytes is registered in full and looked up without its last byte. -/
theorem mounted_name_not_found :
    (mountUnder (longName ++ [0x62])).2 = true ∧
      (dvmUnmountVolume namedPlatform (mountUnder (longName ++ [0x62])).1
        (some (longName ++ [0x62]))).2 = false ∧
      ∃ vol, (mountUnder (longName ++ [0x62])).1.devices = [vol] ∧
        OnlyBearer padding otherDevices (mountUnder (longName ++ [0x62])).1 vol ∧
        ¬ Unmounts namedPlatform (mountUnder (longName ++ [0x62])).1 (longName ++ [0x62]) vol := by
  have hfails : (dvmUnmountVolume namedPlatform (mountUnder (longName ++ [0x62])).1
      (some (longName ++ [0x62]))).2 = false := by
    decide +kernel
  have hdevices : (mountUnder (longName ++ [0x62])).1.devices =
      [⟨3, vfatFsDriver, namebuf (longName ++ [0x62]), 0⟩] := by
    decide +kernel
  refine ⟨by decide +kernel, hfails, _, hdevices, ⟨?_, by decide +kernel, ?_⟩, ?_⟩
  · rw [hdevices]
    exact List.mem_singleton_self _
  · intro other hother _
    rw [hdevices] at hother
    exact List.mem_singleton.mp hother
  · intro h
    rw [h.unmounts] at hfails
    cases hfails

end LibDvm.Volume
