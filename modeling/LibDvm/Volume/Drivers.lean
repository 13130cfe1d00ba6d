import LibDvm.Lib.Registry
import LibDvm.Volume.Model

/-! # The table of file-system drivers

The slots of `s_dvmFsDrvTable` are a registry of drivers by their `fstype`: a driver is
known by its address, and what it says of itself stays as it is. `dvmRegisterFsDriver`
is the registration and the loop in `dvmMountPartition` the lookup.
-/

namespace LibDvm.Volume

/-- The driver at an address, where `fstype` tells what the drivers go by. -/
def driverAt (fstype : Nat → String) (addr : Nat) : DvmFsDriver := ⟨addr, fstype addr⟩

/-- Calls of `dvmRegisterFsDriver`, each with an address or a null pointer. -/
def registration (fstype : Nat → String) :
    Machine (List (Option DvmFsDriver)) (Option Nat) Bool :=
  ⟨fun table addr => dvmRegisterFsDriver table (addr.map (driverAt fstype))⟩

/-- `s_dvmFsDrvTable` before the first call. -/
def emptyTable : List (Option DvmFsDriver) := List.replicate maxDrivers none

variable {fstype : Nat → String} {room : Nat}

/-- The slots that hold the given drivers, the free ones behind. -/
def slots (fstype : Nat → String) (room : Nat) (addrs : List Nat) : List (Option DvmFsDriver) :=
  addrs.map (fun addr => some (driverAt fstype addr)) ++ List.replicate (room - addrs.length) none

theorem slots_cons (addr : Nat) (addrs : List Nat) :
    slots fstype (room + 1) (addr :: addrs) =
      some (driverAt fstype addr) :: slots fstype room addrs := by
  simp [slots]

theorem mem_slots {addr : Nat} {addrs : List Nat} :
    some (driverAt fstype addr) ∈ slots fstype room addrs ↔ addr ∈ addrs := by
  simp only [slots, List.mem_append, List.mem_map, List.mem_replicate, Option.some.injEq,
    reduceCtorEq, and_false, or_false]
  constructor
  · rintro ⟨other, hmem, heq⟩
    obtain rfl : other = addr := congrArg DvmFsDriver.addr heq
    exact hmem
  · exact fun hmem => ⟨addr, hmem, rfl⟩

theorem registerLoop_slots {addrs : List Nat} (hdistinct : (addrs.map fstype).Nodup)
    (hroom : addrs.length ≤ room) (addr : Nat) :
    registerLoop (driverAt fstype addr) (slots fstype room addrs) =
      if addr ∈ addrs then (slots fstype room addrs, true)
      else if fstype addr ∈ addrs.map fstype then (slots fstype room addrs, false)
      else if addrs.length < room then (slots fstype room (addrs ++ [addr]), true)
      else (slots fstype room addrs, false) := by
  induction addrs generalizing room with
  | nil =>
      cases room with
      | zero => rfl
      | succ room => rfl
  | cons first rest ih =>
      obtain ⟨room, rfl⟩ : ∃ n, room = n + 1 := ⟨room - 1, by simp at hroom; omega⟩
      obtain ⟨hnew, hrest⟩ := List.nodup_cons.mp hdistinct
      have hloop := ih hrest (by simpa using hroom)
      rw [slots_cons, registerLoop]
      by_cases hself : first = addr
      · subst hself
        simp [driverAt]
      · by_cases htype : fstype first = fstype addr
        · have hmem : addr ∉ first :: rest := by
            rw [List.mem_cons, not_or]
            refine ⟨fun heq => hself heq.symm, fun hin => hnew ?_⟩
            rw [htype]
            exact List.mem_map_of_mem hin
          rw [if_neg (by exact hself), if_pos (by exact htype), if_neg hmem,
            if_pos (by rw [List.map_cons, htype]; exact List.mem_cons_self)]
        · rw [if_neg (by exact hself), if_neg (by exact htype), hloop]
          have hmem : addr ∈ first :: rest ↔ addr ∈ rest := by
            rw [List.mem_cons, or_iff_right fun heq => hself heq.symm]
          have hkey : fstype addr ∈ (first :: rest).map fstype ↔
              fstype addr ∈ rest.map fstype := by
            rw [List.map_cons, List.mem_cons, or_iff_right fun heq => htype heq.symm]
          simp only [hmem, hkey, List.length_cons, Nat.add_lt_add_iff_right]
          split_ifs <;> simp [slots_cons]

theorem findDriver_slots (name : String) (addrs : List Nat) :
    findDriver name (slots fstype room addrs) =
      (addrs.find? fun addr => fstype addr = name).map (driverAt fstype) := by
  unfold slots
  generalize room - addrs.length = free
  induction addrs with
  | nil => cases free <;> rfl
  | cons first rest ih =>
      rw [List.map_cons, List.cons_append, findDriver, ih, List.find?_cons]
      by_cases hname : fstype first = name
      · simp [driverAt, hname]
      · simp [driverAt, hname]

/-! ## The table as a registry -/

def tableOf (r : Registry fstype maxDrivers) : List (Option DvmFsDriver) :=
  slots fstype maxDrivers r.items

/-- Step lemma: a call is a registration. -/
theorem register_step (r : Registry fstype maxDrivers) (addr : Option Nat) :
    (registration fstype).step (tableOf r) addr =
      (tableOf ((Registry.machine fstype maxDrivers).step r addr).1,
        ((Registry.machine fstype maxDrivers).step r addr).2) := by
  cases addr with
  | none => rfl
  | some addr =>
      show registerLoop (driverAt fstype addr) (slots fstype maxDrivers r.items) = _
      rw [registerLoop_slots r.distinct r.bounded addr]
      show _ = (tableOf (r.register addr).1, (r.register addr).2)
      unfold Registry.register
      split_ifs <;> rfl

/-- Run lemma: the calls fill the table as the registry is filled, with the same answers. -/
theorem register_run (r : Registry fstype maxDrivers) (calls : List (Option Nat)) :
    (registration fstype).run (tableOf r) calls =
        tableOf ((Registry.machine fstype maxDrivers).run r calls) ∧
      (registration fstype).answers (tableOf r) calls =
        (Registry.machine fstype maxDrivers).answers r calls := by
  induction calls generalizing r with
  | nil => exact ⟨rfl, rfl⟩
  | cons addr calls ih =>
      have hrest := ih ((Registry.machine fstype maxDrivers).step r addr).1
      rw [Machine.run_cons, Machine.answers_cons, register_step]
      exact ⟨hrest.1, congrArg (_ :: ·) hrest.2⟩

theorem tableOf_eq (r : Registry fstype maxDrivers) :
    tableOf r = (r.items.map (driverAt fstype)).map some ++
      List.replicate (maxDrivers - (r.items.map (driverAt fstype)).length) none := by
  rw [tableOf, slots, List.map_map, List.length_map]
  rfl

theorem mem_tableOf {r : Registry fstype maxDrivers} {addr : Nat} :
    some (driverAt fstype addr) ∈ tableOf r ↔ addr ∈ r.items := mem_slots

theorem findDriver_tableOf (r : Registry fstype maxDrivers) (name : String) (drv : DvmFsDriver) :
    findDriver name (tableOf r) = some drv ↔
      drv = driverAt fstype drv.addr ∧ drv.fstype = name ∧ drv.addr ∈ r.items := by
  have hlookup : findDriver name (tableOf r) = (r.lookup name).map (driverAt fstype) :=
    findDriver_slots name r.items
  rw [hlookup, Option.map_eq_some_iff]
  constructor
  · rintro ⟨addr, haddr, rfl⟩
    obtain ⟨hmem, hname⟩ := (r.lookup_eq_some name addr).mp haddr
    exact ⟨rfl, hname, hmem⟩
  · rintro ⟨hdrv, hname, hmem⟩
    refine ⟨drv.addr, (r.lookup_eq_some name drv.addr).mpr ⟨hmem, ?_⟩, hdrv.symm⟩
    rw [hdrv] at hname
    exact hname

theorem none_mem_slots {addrs : List Nat} :
    none ∈ slots fstype room addrs ↔ addrs.length < room := by
  simp only [slots, List.mem_append, List.mem_map, reduceCtorEq, and_false, exists_false, false_or,
    List.mem_replicate, and_true]
  omega

/-- While a slot is free, a driver of a new `fstype` gets it, and is found from then on. -/
theorem new_driver_granted (fstype : Nat → String) (calls : List (Option Nat)) (addr : Nat)
    (hfree : none ∈ (registration fstype).run emptyTable calls)
    (hnew : ∀ drv, some drv ∈ (registration fstype).run emptyTable calls →
      drv.fstype ≠ fstype addr) :
    let r := (registration fstype).step ((registration fstype).run emptyTable calls) (some addr)
    r.2 = true ∧ findDriver (fstype addr) r.1 = some (driverAt fstype addr) := by
  obtain ⟨hrun, -⟩ := register_run (Registry.empty : Registry fstype maxDrivers) calls
  change (registration fstype).run emptyTable calls = _ at hrun
  generalize (Registry.machine fstype maxDrivers).run Registry.empty calls = r at hrun
  rw [hrun] at hfree hnew ⊢
  have hkey : fstype addr ∉ r.items.map fstype := by
    intro hmem
    obtain ⟨other, hother, hsame⟩ := List.mem_map.mp hmem
    exact hnew _ (mem_tableOf.mpr hother) hsame
  have haddr : addr ∉ r.items := fun hmem => hkey (List.mem_map_of_mem hmem)
  have hstep : (registration fstype).step (tableOf r) (some addr) =
      (slots fstype maxDrivers (r.items ++ [addr]), true) := by
    refine (registerLoop_slots r.distinct r.bounded addr).trans ?_
    rw [if_neg haddr, if_neg hkey, if_pos (none_mem_slots.mp hfree)]
  rw [hstep]
  refine ⟨rfl, ?_⟩
  have hfirst : ∀ other ∈ r.items, ¬ fstype other = fstype addr := fun other hother hsame =>
    hkey (List.mem_map.mpr ⟨other, hother, hsame⟩)
  rw [findDriver_slots, List.find?_append, List.find?_eq_none.mpr (by simpa using hfirst)]
  simp

/-- In every run of registrations the filled slots are a prefix with pairwise different
`fstype`s to which a call adds at most at the end; a call succeeds exactly when its
driver is in the table afterwards; and the lookup finds the driver of an `fstype` whose
registration has succeeded. -/
theorem driver_table_is_map (fstype : Nat → String) (calls : List (Option Nat))
    (call : Option Nat) :
    let m := registration fstype
    let table := m.run emptyTable calls
    let table' := (m.step table call).1
    (∃ drvs drvs' : List DvmFsDriver,
      table = drvs.map some ++ List.replicate (maxDrivers - drvs.length) none ∧
      table' = drvs'.map some ++ List.replicate (maxDrivers - drvs'.length) none ∧
      drvs <+: drvs' ∧ drvs'.length ≤ maxDrivers ∧ (drvs'.map DvmFsDriver.fstype).Nodup) ∧
    ((m.step table call).2 = true ↔
      ∃ addr, call = some addr ∧ some (driverAt fstype addr) ∈ table') ∧
    ∀ (name : String) (drv : DvmFsDriver), findDriver name table' = some drv ↔
      drv = driverAt fstype drv.addr ∧ drv.fstype = name ∧
        Registry.Granted (calls ++ [call]) (m.answers emptyTable (calls ++ [call])) drv.addr := by
  intro m table table'
  let start : Registry fstype maxDrivers := Registry.empty
  let r := (Registry.machine fstype maxDrivers).run start calls
  let r' := ((Registry.machine fstype maxDrivers).step r call).1
  obtain ⟨hrun, -⟩ := register_run start calls
  obtain ⟨-, hanswers⟩ := register_run start (calls ++ [call])
  have htable : table = tableOf r := hrun
  have hstep : m.step table call =
      (tableOf r', ((Registry.machine fstype maxDrivers).step r call).2) := by
    rw [htable]
    exact register_step r call
  have htable' : table' = tableOf r' := congrArg Prod.fst hstep
  have hitems : r' = (Registry.machine fstype maxDrivers).run start (calls ++ [call]) := by
    rw [Machine.run_append]
    rfl
  refine ⟨⟨r.items.map (driverAt fstype), r'.items.map (driverAt fstype),
    htable.trans (tableOf_eq r), htable'.trans (tableOf_eq r'), ?_, ?_, ?_⟩, ?_, ?_⟩
  · exact (Registry.items_prefix_step r call).map _
  · rw [List.length_map]
    exact r'.bounded
  · rw [List.map_map]
    exact r'.distinct
  · rw [htable', hstep, Registry.step_answer r call]
    exact exists_congr fun addr => and_congr_right fun _ => mem_tableOf.symm
  · intro name drv
    rw [htable', findDriver_tableOf, hitems, Registry.run_mem]
    have hanswers' : m.answers emptyTable (calls ++ [call]) =
        (Registry.machine fstype maxDrivers).answers start (calls ++ [call]) := hanswers
    rw [hanswers']
    simp [start, Registry.empty]

end LibDvm.Volume
