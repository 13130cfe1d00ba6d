import LibDvm.Mount.Model

/-! # Which volumes the libraries use

Every registered volume is mounted in its library, and no library knows any other. In
particular the memory of a volume is only freed when no library uses it any more. What
FatFs and lwext4 do to their own tables is an assumption.
-/

namespace LibDvm.Mount

open Prober Volume Block
open Fat (FResult)

/-! ## The libraries as documented -/

/-- What the libraries hold at an address: a file system object registered in FatFs, a
mount point of lwext4, its journal, and the lock of the ext driver. -/
structure Use where
  fatfs : Bool
  mountPoint : Bool
  journal : Bool
  lock : Bool
deriving DecidableEq

def Use.none : Use := ⟨false, false, false, false⟩

def Use.mounted (fsdrv : DvmFsDriver) : Use :=
  if fsdrv = vfatFsDriver ∨ fsdrv = exfatFsDriver then ⟨true, false, false, false⟩
  else ⟨false, true, true, true⟩

/-- `f_mount` registers the object, also when it then fails, or not; it returns success only
for a registered object. `f_umount` takes the object out, and `f_mkfs` registers nothing. No
call touches the objects of other volumes. -/
structure FatFsMount.Documented {φ : Type} (fatfs : FatFsMount φ)
    (registered : φ → Nat → Bool) : Prop where
  mount : ∀ w vol ipart, (fatfs.fMount w vol ipart).2 = .ok →
    registered (fatfs.fMount w vol ipart).1 vol.addr = true
  mount_other : ∀ w vol ipart a, a ≠ vol.addr →
    registered (fatfs.fMount w vol ipart).1 a = registered w a
  umount : ∀ w addr, registered (fatfs.fUmount w addr).1 addr = false
  umount_other : ∀ w addr a, a ≠ addr →
    registered (fatfs.fUmount w addr).1 a = registered w a
  mkfs : ∀ w vol ipart opt a,
    registered (fatfs.fMkfs w vol ipart opt).1 a = registered w a

/-- Mount points and journals of lwext4: `ext4_mount` makes a mount point exactly when it
succeeds, `ext4_journal_start` a journal, and the calls that end them always do. -/
structure Lwext4Mount.Documented {μ : Type} (lw : Lwext4Mount μ)
    (point journal : μ → Nat → Bool) : Prop where
  mount : ∀ w vol readOnly a, point (lw.ext4Mount w vol readOnly).1 a =
    if a = vol.addr then decide ((lw.ext4Mount w vol readOnly).2 = 0) || point w a else point w a
  mount_journal : ∀ w vol readOnly, journal (lw.ext4Mount w vol readOnly).1 = journal w
  recover : ∀ w addr, point (lw.ext4Recover w addr).1 = point w ∧
    journal (lw.ext4Recover w addr).1 = journal w
  start : ∀ w addr a, journal (lw.ext4JournalStart w addr).1 a =
    if a = addr then decide ((lw.ext4JournalStart w addr).2 = 0) || journal w a else journal w a
  start_point : ∀ w addr, point (lw.ext4JournalStart w addr).1 = point w
  stop : ∀ w addr a, journal (lw.ext4JournalStop w addr).1 a =
    if a = addr then false else journal w a
  stop_point : ∀ w addr, point (lw.ext4JournalStop w addr).1 = point w
  umount : ∀ w addr a, point (lw.ext4Umount w addr).1 a = if a = addr then false else point w a
  umount_journal : ∀ w addr, journal (lw.ext4Umount w addr).1 = journal w

/-! ## What a driver owes the volume layer -/

/-- `use` tells what the libraries hold at an address. A mount of an unused volume leaves it
mounted or unused, as it returns; an unmount leaves it unused; and neither has anything to
do with other volumes. -/
structure Driver.Sound {ω : Type} (d : Driver ω) (use : ω → Nat → Use) (mounted : Use) :
    Prop where
  mount : ∀ w addr disc base part, use w addr = Use.none →
    (d.mount w addr disc base part).2 = true → use (d.mount w addr disc base part).1 addr = mounted
  mount_fails : ∀ w addr disc base part, use w addr = Use.none →
    (d.mount w addr disc base part).2 = false →
    use (d.mount w addr disc base part).1 addr = Use.none
  mount_other : ∀ w addr disc base part a, a ≠ addr →
    use (d.mount w addr disc base part).1 a = use w a
  umount : ∀ w addr, use w addr = mounted → use (d.umount w addr) addr = Use.none
  umount_other : ∀ w addr a, a ≠ addr → use (d.umount w addr) a = use w a

section Drivers

variable {φ μ : Type} {fatfs : FatFsMount φ} {lw : Lwext4Mount μ} {numbers : Numbers}
  {registered : φ → Nat → Bool} {point journal : μ → Nat → Bool}

def Libraries.use (registered : φ → Nat → Bool) (point journal : μ → Nat → Bool)
    (w : Libraries φ μ) (a : Nat) : Use :=
  ⟨registered w.fatfs a, point w.lwext4 a, journal w.lwext4 a, w.locks a⟩

theorem fatFormat_other (hfat : fatfs.Documented registered) (w : φ) (vol : FatVolumeAt)
    (ipart : Nat) (opt : MkfsParm) {a : Nat} (ha : a ≠ vol.addr) :
    registered (fatFormat fatfs w vol ipart opt).1 a = registered w a := by
  unfold fatFormat
  simp only
  split
  · rw [hfat.mount_other _ _ _ _ ha, hfat.mkfs, hfat.umount_other _ _ _ ha]
  · rw [hfat.mkfs, hfat.umount_other _ _ _ ha]

theorem fatFormat_ok (hfat : fatfs.Documented registered) {w : φ} {vol : FatVolumeAt}
    {ipart : Nat} {opt : MkfsParm} (hok : (fatFormat fatfs w vol ipart opt).2 = .ok) :
    registered (fatFormat fatfs w vol ipart opt).1 vol.addr = true := by
  unfold fatFormat at hok ⊢
  simp only at hok ⊢
  split at hok
  · next hmkfs =>
      rw [if_pos hmkfs]
      exact hfat.mount _ _ _ hok
  · next hmkfs => exact absurd hok hmkfs

variable (numbers) in
theorem fatMountAs_spec (hfat : fatfs.Documented registered) (opt : MkfsParm) (w : φ)
    (addr disc : Nat) (base : DvmDisc) (part : DvmPartInfo) :
    let r := fatMountAs fatfs numbers opt w addr disc base part
    registered r.1 addr = r.2 ∧ ∀ a, a ≠ addr → registered r.1 a = registered w a := by
  unfold fatMountAs
  simp only
  generalize hipart : (if (fatVolume part).startSector ≠ 0 then 0 else part.index) = ipart
  generalize hvol : (⟨addr, disc, fatVolume part⟩ : FatVolumeAt) = vol
  have haddr : vol.addr = addr := by rw [← hvol]
  generalize hr : (if (fatfs.fMount w vol ipart).2 = .noFilesystem ∧ canFormat numbers base then
    fatFormat fatfs (fatfs.fMount w vol ipart).1 vol ipart opt else fatfs.fMount w vol ipart) = r
  have hother : ∀ a, a ≠ addr → registered r.1 a = registered w a := by
    intro a ha
    rw [← haddr] at ha
    rw [← hr]
    split
    · rw [fatFormat_other hfat _ _ _ _ ha, hfat.mount_other _ _ _ _ ha]
    · exact hfat.mount_other _ _ _ _ ha
  split
  · refine ⟨hfat.umount _ _, fun a ha => ?_⟩
    rw [hfat.umount_other _ _ _ ha, hother a ha]
  · next hok =>
      rw [not_not] at hok
      refine ⟨?_, hother⟩
      rw [← haddr]
      rw [← hr] at hok ⊢
      split at hok
      · next hformat =>
          rw [if_pos hformat]
          exact fatFormat_ok hfat hok
      · next hformat =>
          rw [if_neg hformat]
          exact hfat.mount _ _ _ hok

theorem fatDriver_sound (hfat : fatfs.Documented registered) (opt : MkfsParm) :
    (fatDriver (μ := μ) fatfs (fatMountAs fatfs numbers opt)).Sound
      (Libraries.use registered point journal) ⟨true, false, false, false⟩ where
  mount w addr disc base part hnone hret := by
    have hself := (fatMountAs_spec numbers hfat opt w.fatfs addr disc base part).1
    simp only [Libraries.use, Use.none, Use.mk.injEq] at hnone
    obtain ⟨-, hpoint, hjournal, hlock⟩ := hnone
    simp only [fatDriver] at hret
    simp only [fatDriver, Libraries.use, hself, hret, hpoint, hjournal, hlock]
  mount_fails w addr disc base part hnone hret := by
    have hself := (fatMountAs_spec numbers hfat opt w.fatfs addr disc base part).1
    simp only [Libraries.use, Use.none, Use.mk.injEq] at hnone
    obtain ⟨-, hpoint, hjournal, hlock⟩ := hnone
    simp only [fatDriver] at hret
    simp only [fatDriver, Libraries.use, hself, hret, hpoint, hjournal, hlock, Use.none]
  mount_other w addr disc base part a ha := by
    obtain ⟨-, hother⟩ := fatMountAs_spec numbers hfat opt w.fatfs addr disc base part
    simp only [fatDriver, Libraries.use, hother a ha]
  umount w addr hmounted := by
    simp only [Libraries.use, Use.mk.injEq] at hmounted
    obtain ⟨-, hpoint, hjournal, hlock⟩ := hmounted
    simp only [fatDriver, fatUmount, Libraries.use, hfat.umount, hpoint, hjournal, hlock, Use.none]
  umount_other w addr a ha := by
    simp only [fatDriver, fatUmount, Libraries.use, hfat.umount_other _ _ _ ha]

variable (numbers) in
theorem ext4Mount_spec (hlw : lw.Documented point journal) (w : μ × (Nat → Bool))
    (addr disc : Nat) (base : DvmDisc) (part : DvmPartInfo) :
    let r := ext4Mount lw numbers w addr disc base part
    (point w.1 addr = false → journal w.1 addr = false → w.2 addr = false →
      point r.1.1 addr = r.2 ∧ journal r.1.1 addr = r.2 ∧ r.1.2 addr = r.2) ∧
      ∀ a, a ≠ addr → point r.1.1 a = point w.1 a ∧ journal r.1.1 a = journal w.1 a ∧
        r.1.2 a = w.2 a := by
  unfold ext4Mount
  simp only
  generalize hvol : (⟨addr, disc, base.numSectors, ext4Blockdev base part⟩ : Ext4VolumeAt) = vol
  have haddr : vol.addr = addr := by rw [← hvol]
  generalize (!canWrite numbers.mediumCanwrite base) = readOnly
  have hmount := hlw.mount w.1 vol readOnly
  have hmountj := hlw.mount_journal w.1 vol readOnly
  rw [haddr] at hmount
  generalize lw.ext4Mount w.1 vol readOnly = mounted at hmount hmountj ⊢
  split
  · next hfail =>
      refine ⟨fun hpoint hjournal hlock => ⟨?_, ?_, hlock⟩, fun a ha => ⟨?_, by rw [hmountj], rfl⟩⟩
      · simp [hmount, hfail, hpoint]
      · rw [hmountj, hjournal]
      · rw [hmount, if_neg ha]
  · obtain ⟨hrecover, hrecoverj⟩ := hlw.recover mounted.1 addr
    generalize lw.ext4Recover mounted.1 addr = recovered at hrecover hrecoverj ⊢
    split
    · refine ⟨fun _ hjournal hlock => ⟨?_, ?_, hlock⟩, fun a ha => ⟨?_, ?_, rfl⟩⟩
      · rw [hlw.umount, if_pos rfl]
      · rw [hlw.umount_journal, hrecoverj, hmountj, hjournal]
      · rw [hlw.umount, if_neg ha, hrecover, hmount, if_neg ha]
      · rw [hlw.umount_journal, hrecoverj, hmountj]
    · have hstart := hlw.start recovered.1 addr
      have hstartp := hlw.start_point recovered.1 addr
      generalize lw.ext4JournalStart recovered.1 addr = started at hstart hstartp ⊢
      split
      · next hfail =>
          refine ⟨fun _ hjournal hlock => ⟨?_, ?_, hlock⟩, fun a ha => ⟨?_, ?_, rfl⟩⟩
          · rw [hlw.umount, if_pos rfl]
          · simp [hlw.umount_journal, hstart, hfail, hrecoverj, hmountj, hjournal]
          · rw [hlw.umount, if_neg ha, hstartp, hrecover, hmount, if_neg ha]
          · rw [hlw.umount_journal, hstart, if_neg ha, hrecoverj, hmountj]
      · next hmounted _ hstarted =>
          refine ⟨fun _ _ _ => ⟨?_, ?_, by simp⟩, fun a ha =>
            ⟨?_, ?_, Function.update_of_ne ha _ _⟩⟩
          · simp only [ne_eq, not_not] at hmounted
            simp [hstartp, hrecover, hmount, hmounted]
          · simp only [ne_eq, not_not] at hstarted
            simp [hstart, hstarted]
          · rw [hstartp, hrecover, hmount, if_neg ha]
          · rw [hstart, if_neg ha, hrecoverj, hmountj]

theorem ext4Driver_sound (hlw : lw.Documented point journal) :
    (ext4Driver (φ := φ) lw numbers).Sound (Libraries.use registered point journal)
      ⟨false, true, true, true⟩ where
  mount w addr disc base part hnone hret := by
    simp only [Libraries.use, Use.none, Use.mk.injEq] at hnone
    obtain ⟨hfat, hpoint, hjournal, hlock⟩ := hnone
    obtain ⟨hp, hj, hl⟩ := (ext4Mount_spec numbers hlw (w.lwext4, w.locks) addr disc base
      part).1 hpoint hjournal hlock
    simp only [ext4Driver] at hret
    simp only [ext4Driver, Libraries.use, hfat, hp, hj, hl, hret]
  mount_fails w addr disc base part hnone hret := by
    simp only [Libraries.use, Use.none, Use.mk.injEq] at hnone
    obtain ⟨hfat, hpoint, hjournal, hlock⟩ := hnone
    obtain ⟨hp, hj, hl⟩ := (ext4Mount_spec numbers hlw (w.lwext4, w.locks) addr disc base
      part).1 hpoint hjournal hlock
    simp only [ext4Driver] at hret
    simp only [ext4Driver, Libraries.use, hfat, hp, hj, hl, hret, Use.none]
  mount_other w addr disc base part a ha := by
    obtain ⟨-, hother⟩ := ext4Mount_spec numbers hlw (w.lwext4, w.locks) addr disc
      base part
    obtain ⟨hp, hj, hl⟩ := hother a ha
    simp only [ext4Driver, Libraries.use, hp, hj, hl]
  umount w addr hmounted := by
    simp only [Libraries.use, Use.mk.injEq] at hmounted
    simp only [ext4Driver, ext4Umount, Libraries.use, hmounted.1, hlw.umount, hlw.umount_journal,
      hlw.stop, if_true, Function.update_self, Use.none]
  umount_other w addr a ha := by
    simp only [ext4Driver, ext4Umount, Libraries.use, hlw.umount, hlw.umount_journal, hlw.stop,
      hlw.stop_point, if_neg ha, Function.update_of_ne ha]

theorem driver_sound (hfat : fatfs.Documented registered) (hlw : lw.Documented point journal)
    (fsdrv : DvmFsDriver) :
    (driver fatfs lw numbers fsdrv).Sound (Libraries.use registered point journal)
      (Use.mounted fsdrv) := by
  unfold driver Use.mounted
  by_cases hvfat : fsdrv = vfatFsDriver
  · rw [if_pos hvfat, if_pos (Or.inl hvfat)]
    exact fatDriver_sound hfat _
  · by_cases hexfat : fsdrv = exfatFsDriver
    · rw [if_neg hvfat, if_pos hexfat, if_pos (Or.inr hexfat)]
      exact fatDriver_sound hfat _
    · rw [if_neg hvfat, if_neg hexfat, if_neg (by simp [hvfat, hexfat])]
      exact ext4Driver_sound hlw

end Drivers

/-! ## One call of the volume layer -/

section Layer

variable {ω : Type} {drivers : DvmFsDriver → Driver ω} {use : ω → Nat → Use} {l : Layer ω}

/-- The libraries hold what the registered volumes need, and nothing else. -/
structure Agrees (use : ω → Nat → Use) (l : Layer ω) : Prop where
  devices : l.sys.devices = l.vols.map Prod.snd
  addrs : (l.vols.map Prod.fst).Nodup
  inUse : ∀ p ∈ l.vols, use l.libs p.1 = Use.mounted p.2.fsdrv
  unused : ∀ a, a ∉ l.vols.map Prod.fst → use l.libs a = Use.none

/-- `malloc` gives out no memory of a registered volume. -/
def Action.Fresh (l : Layer ω) : Action → Prop
  | .mount _ _ _ (some addr) _ => addr ∉ l.vols.map Prod.fst
  | _ => True

instance (l : Layer ω) (a : Action) : Decidable (a.Fresh l) :=
  match a with
  | .mount _ _ _ (some _) _ => inferInstanceAs (Decidable (_ ∉ _))
  | .mount _ _ _ none _ => isTrue trivial
  | .unmount _ => isTrue trivial

def Outcome.Safe (use : ω → Nat → Use) (o : Outcome ω) : Prop :=
  ∀ p, o.freed = some p → use p.2 p.1 = Use.none

theorem Agrees.libs (h : Agrees use l) {sys : System} {libs : ω} {addr : Nat}
    (hdevices : sys.devices = l.sys.devices) (hnew : addr ∉ l.vols.map Prod.fst)
    (hself : use libs addr = Use.none) (hother : ∀ a, a ≠ addr → use libs a = use l.libs a) :
    Agrees use ⟨sys, l.vols, libs⟩ where
  devices := hdevices.trans h.devices
  addrs := h.addrs
  inUse p hp := by
    have hne : p.1 ≠ addr := fun heq => hnew (heq ▸ List.mem_map_of_mem hp)
    rw [← h.inUse p hp]
    exact hother p.1 hne
  unused a ha := by
    by_cases heq : a = addr
    · rw [heq]
      exact hself
    · rw [← h.unused a ha]
      exact hother a heq

theorem dvmMountPartition_devices {s : System} (name : Name) (disc : Nat) {part : DvmPartInfo}
    {fsdrv : DvmFsDriver}
    (hdrv : (part.fstype.bind fun fstype => findDriver fstype s.drvTable) = some fsdrv)
    (mounted : Bool) (addDevice : Option Nat) :
    (dvmMountPartition s name disc part ⟨true, mounted, addDevice⟩).1.devices =
      match mounted, addDevice with
      | true, some devid => s.devices ++ [⟨devid, fsdrv, namebuf name, disc⟩]
      | _, _ => s.devices := by
  cases mounted with
  | false => simp [dvmMountPartition, Volume.mountPartition, hdrv, driverMount]
  | true =>
      cases addDevice with
      | none => simp [dvmMountPartition, Volume.mountPartition, hdrv, driverMount]
      | some devid => simp [dvmMountPartition, Volume.mountPartition, hdrv, driverMount]

theorem dvmMountPartition_unmounted (s : System) (name : Name) (disc : Nat) (part : DvmPartInfo)
    (volAllocated : Bool) (addDevice : Option Nat) :
    (dvmMountPartition s name disc part ⟨volAllocated, false, addDevice⟩).1.devices =
      s.devices := by
  cases hdrv : part.fstype.bind fun fstype => findDriver fstype s.drvTable with
  | none => simp [dvmMountPartition, Volume.mountPartition, hdrv]
  | some fsdrv =>
      cases volAllocated <;> simp [dvmMountPartition, Volume.mountPartition, hdrv, driverMount]

theorem Agrees.register (h : Agrees use l) {sys : System} {libs : ω} {addr : Nat}
    {vol : DvmVolume} (hdevices : sys.devices = l.sys.devices ++ [vol])
    (hnew : addr ∉ l.vols.map Prod.fst) (hself : use libs addr = Use.mounted vol.fsdrv)
    (hother : ∀ a, a ≠ addr → use libs a = use l.libs a) :
    Agrees use ⟨sys, l.vols ++ [(addr, vol)], libs⟩ where
  devices := by simp [hdevices, h.devices]
  addrs := by
    rw [List.map_append, List.map_cons, List.map_nil]
    refine List.nodup_append.mpr ⟨h.addrs, List.nodup_singleton _, fun a ha b hb heq => ?_⟩
    subst heq
    have haddr : a = addr := List.mem_singleton.mp hb
    exact hnew (haddr ▸ ha)
  inUse p hp := by
    rcases List.mem_append.mp hp with hold | hlast
    · have hne : p.1 ≠ addr := fun heq => hnew (heq ▸ List.mem_map_of_mem hold)
      rw [← h.inUse p hold]
      exact hother p.1 hne
    · rw [List.mem_singleton.mp hlast]
      exact hself
  unused a ha := by
    simp only [List.map_append, List.map_cons, List.map_nil, List.mem_append,
      List.mem_singleton, not_or] at ha
    rw [← h.unused a ha.1]
    exact hother a ha.2

theorem mountPartition_agrees (hsound : ∀ fsdrv, (drivers fsdrv).Sound use (Use.mounted fsdrv))
    (h : Agrees use l) (name : Name) (disc : Nat) (part : DvmPartInfo)
    {malloc addDevice : Option Nat}
    (hfresh : (Action.mount name disc part malloc addDevice).Fresh l) :
    let r := mountPartition drivers l name disc part malloc addDevice
    Agrees use r.1 ∧ r.2.Safe use := by
  unfold mountPartition
  split
  · next fsdrv addr hdrv =>
      have hd := hsound fsdrv
      have hother := hd.mount_other l.libs addr disc (l.sys.heap.objs disc).base part
      have hok := hd.mount l.libs addr disc (l.sys.heap.objs disc).base part (h.unused addr hfresh)
      have hfails := hd.mount_fails l.libs addr disc (l.sys.heap.objs disc).base part
        (h.unused addr hfresh)
      have hdevices := fun mounted =>
        dvmMountPartition_devices name disc hdrv mounted addDevice
      generalize (drivers fsdrv).mount l.libs addr disc (l.sys.heap.objs disc).base part = mount
        at hother hok hfails ⊢
      obtain ⟨libs, mounted⟩ := mount
      cases mounted with
      | false =>
          refine ⟨h.libs (hdevices false) hfresh (hfails rfl) hother, ?_⟩
          rintro p hp
          obtain rfl := Option.some.inj hp
          exact hfails rfl
      | true =>
          cases addDevice with
          | none =>
              have hnone := hd.umount libs addr (hok rfl)
              refine ⟨h.libs (hdevices true) hfresh hnone fun a ha => ?_, ?_⟩
              · exact (hd.umount_other libs addr a ha).trans (hother a ha)
              · rintro p hp
                obtain rfl := Option.some.inj hp
                exact hnone
          | some devid =>
              exact ⟨h.register (hdevices true) hfresh (hok rfl) hother, fun p hp => by cases hp⟩
  · refine ⟨⟨?_, h.addrs, h.inUse, h.unused⟩, fun p hp => by cases hp⟩
    exact (dvmMountPartition_unmounted _ _ _ _ _ _).trans h.devices

theorem erase_entry {vols : List (Nat × DvmVolume)} {vol : DvmVolume} {p : Nat × DvmVolume}
    (hfind : (vols.find? fun p => p.2 = vol) = some p) :
    (vols.map Prod.snd).erase vol = (vols.erase p).map Prod.snd := by
  induction vols with
  | nil => cases hfind
  | cons q rest ih =>
      by_cases hq : q.2 = vol
      · have hhead : q = p := by simpa [List.find?_cons_of_pos, hq] using hfind
        subst hhead
        rw [List.map_cons, hq, List.erase_cons_head, List.erase_cons_head]
      · have htail : (rest.find? fun p => p.2 = vol) = some p := by
          rwa [List.find?_cons_of_neg (by simpa using hq)] at hfind
        have hne : q ≠ p := by
          intro heq
          exact hq (heq ▸ (by simpa using List.find?_some htail))
        rw [List.map_cons, List.erase_cons_tail (by simpa using hq),
          List.erase_cons_tail (by simpa using hne), List.map_cons, ih htail]

theorem unmountVolume_agrees (hsound : ∀ fsdrv, (drivers fsdrv).Sound use (Use.mounted fsdrv))
    (h : Agrees use l) (platform : Platform) (name : Option Name) :
    let r := unmountVolume drivers platform l name
    Agrees use r.1 ∧ r.2.Safe use := by
  unfold unmountVolume
  cases name with
  | none => exact ⟨h, fun p hp => by cases hp⟩
  | some text =>
      simp only
      split
      · exact ⟨h, fun p hp => by cases hp⟩
      · next p hfound =>
          obtain ⟨vol, hlookup, hfind⟩ := Option.bind_eq_some_iff.mp hfound
          have hmem := List.mem_of_find?_eq_some hfind
          have hvol : p.2 = vol := by simpa using List.find?_some hfind
          have hreg : vol ∈ l.sys.devices := by
            rw [h.devices, ← hvol]
            exact List.mem_map_of_mem hmem
          have hd := hsound p.2.fsdrv
          have hnone := hd.umount l.libs p.1 (h.inUse p hmem)
          have hsub : (l.vols.erase p).Sublist l.vols := List.erase_sublist
          -- no other volume is at its address
          have hgone : p.1 ∉ (l.vols.erase p).map Prod.fst := by
            intro hin
            obtain ⟨q, hq, hsame⟩ := List.mem_map.mp hin
            have heq : q = p := List.inj_on_of_nodup_map h.addrs (hsub.subset hq) hmem hsame
            exact (List.Nodup.of_map _ h.addrs).not_mem_erase (heq ▸ hq)
          refine ⟨⟨?_, h.addrs.sublist (hsub.map _), fun q hq => ?_, fun a ha => ?_⟩, ?_⟩
          · rw [dvmUnmountVolume_found hlookup hreg]
            show l.sys.devices.erase vol = _
            rw [h.devices]
            exact erase_entry hfind
          · have hne : q.1 ≠ p.1 := fun heq => hgone (heq ▸ List.mem_map_of_mem hq)
            rw [← h.inUse q (hsub.subset hq)]
            exact hd.umount_other l.libs p.1 q.1 hne
          · by_cases heq : a = p.1
            · rw [heq]
              exact hnone
            · refine (hd.umount_other l.libs p.1 a heq).trans (h.unused a fun hin => ?_)
              obtain ⟨q, hq, rfl⟩ := List.mem_map.mp hin
              refine ha (List.mem_map_of_mem ((List.mem_erase_of_ne ?_).mpr hq))
              intro hqp
              exact heq (congrArg Prod.fst hqp)
          · intro o ho
            obtain rfl := Option.some.inj ho
            exact hnone

/-! ## Runs -/

theorem Agrees.step (hsound : ∀ fsdrv, (drivers fsdrv).Sound use (Use.mounted fsdrv))
    (h : Agrees use l) (platform : Platform) {a : Action} (hfresh : a.Fresh l) :
    Agrees use ((layer drivers platform).step l a).1 ∧
      ((layer drivers platform).step l a).2.Safe use := by
  cases a with
  | mount name disc part malloc addDevice =>
      exact mountPartition_agrees hsound h name disc part hfresh
  | unmount name => exact unmountVolume_agrees hsound h platform name

theorem Agrees.run (hsound : ∀ fsdrv, (drivers fsdrv).Sound use (Use.mounted fsdrv))
    (h : Agrees use l) (platform : Platform) {actions : List Action}
    (hfresh : (layer drivers platform).Throughout (fun l a => a.Fresh l) l actions) :
    Agrees use ((layer drivers platform).run l actions) ∧
      ∀ o ∈ (layer drivers platform).answers l actions, o.Safe use := by
  induction actions generalizing l with
  | nil => exact ⟨h, by simp⟩
  | cons a rest ih =>
      obtain ⟨hnext, hsafe⟩ := h.step hsound platform hfresh.1
      obtain ⟨hrun, hrest⟩ := ih hnext hfresh.2
      refine ⟨hrun, fun o ho => ?_⟩
      rcases List.mem_cons.mp ho with rfl | hin
      · exact hsafe
      · exact hrest o hin

/-- A call of the layer is one of the volume layer, where the driver says whether the mount
succeeds. -/
theorem Agrees.refines (h : Agrees use l) (platform : Platform) (a : Action) :
    let r := (layer drivers platform).step l a
    match a with
    | .mount name disc part malloc addDevice => ∃ mounted,
        (r.1.sys, r.2.ret) =
          dvmMountPartition l.sys name disc part ⟨malloc.isSome, mounted, addDevice⟩
    | .unmount name => (r.1.sys, r.2.ret) = dvmUnmountVolume platform l.sys name := by
  cases a with
  | mount name disc part malloc addDevice =>
      simp only [layer, mountPartition]
      split
      · next fsdrv addr hdrv =>
          refine ⟨((drivers fsdrv).mount l.libs addr disc (l.sys.heap.objs disc).base part).2, ?_⟩
          generalize (drivers fsdrv).mount l.libs addr disc (l.sys.heap.objs disc).base part = mount
          obtain ⟨libs, mounted⟩ := mount
          cases mounted with
          | false => simp [dvmMountPartition, Volume.mountPartition, hdrv, driverMount]
          | true =>
              cases addDevice <;>
                simp [dvmMountPartition, Volume.mountPartition, hdrv, driverMount]
      · refine ⟨false, Prod.ext rfl ?_⟩
        rw [dvmMountPartition_ret]
        simp [reachesAddDevice]
  | unmount name =>
      simp only [layer, unmountVolume]
      cases name with
      | none => rfl
      | some text =>
          simp only [dvmUnmountVolume]
          cases hlookup : platform.getDeviceOpTab l.sys.devices (lookupName text) with
          | none => rfl
          | some vol =>
              rw [Option.bind_some]
              cases hfind : l.vols.find? fun p => p.2 = vol with
              | none =>
                  have hout : vol ∉ l.sys.devices := by
                    rw [h.devices]
                    intro hin
                    obtain ⟨q, hq, heq⟩ := List.mem_map.mp hin
                    exact absurd (List.find?_eq_none.mp hfind q hq) (by simp [heq])
                  simp only [if_neg hout]
              | some p =>
                  have hvol : p.2 = vol := by simpa using List.find?_some hfind
                  have hreg : vol ∈ l.sys.devices := by
                    rw [h.devices, ← hvol]
                    exact List.mem_map_of_mem (List.mem_of_find?_eq_some hfind)
                  simp only [if_pos hreg]

end Layer

/-- In every run of mounts and unmounts, whatever fails: a library holds exactly what the
volumes then registered need, and the memory of a volume is never freed while a library
still uses it. -/
theorem libraries_follow_volumes {φ μ : Type} {fatfs : FatFsMount φ} {lw : Lwext4Mount μ}
    {registered : φ → Nat → Bool} {point journal : μ → Nat → Bool}
    (hfat : fatfs.Documented registered) (hlw : lw.Documented point journal)
    (numbers : Numbers) (platform : Platform) (sys : System) (hsys : sys.devices = [])
    (libs : Libraries φ μ) (hlibs : ∀ a, libs.use registered point journal a = Use.none)
    (actions : List Action)
    (hfresh : (layer (driver fatfs lw numbers) platform).Throughout (fun l a => a.Fresh l)
      ⟨sys, [], libs⟩ actions) :
    let m := layer (driver fatfs lw numbers) platform
    let l := m.run ⟨sys, [], libs⟩ actions
    (l.sys.devices = l.vols.map Prod.snd ∧
      (∀ p ∈ l.vols, l.libs.use registered point journal p.1 = Use.mounted p.2.fsdrv) ∧
      ∀ a, a ∉ l.vols.map Prod.fst → l.libs.use registered point journal a = Use.none) ∧
      ∀ o ∈ m.answers ⟨sys, [], libs⟩ actions, ∀ p, o.freed = some p →
        p.2.use registered point journal p.1 = Use.none := by
  have hstart : Agrees (Libraries.use registered point journal) ⟨sys, [], libs⟩ :=
    ⟨hsys, List.nodup_nil, fun p hp => absurd hp List.not_mem_nil, fun a _ => hlibs a⟩
  obtain ⟨hrun, hsafe⟩ := hstart.run (driver_sound hfat hlw) platform hfresh
  exact ⟨⟨hrun.devices, hrun.inUse, hrun.unused⟩, hsafe⟩

def tableFatFs : FatFsMount (Nat → Bool) where
  fMount w vol _ := (Function.update w vol.addr true, .ok)
  fUmount w addr := (Function.update w addr false, .ok)
  fMkfs w _ _ _ := (w, .ok)

def tableLwext4 : Lwext4Mount ((Nat → Bool) × (Nat → Bool)) where
  ext4Mount w vol _ := ((Function.update w.1 vol.addr true, w.2), 0)
  ext4Recover w _ := (w, 0)
  ext4JournalStart w addr := ((w.1, Function.update w.2 addr true), 0)
  ext4JournalStop w addr := ((w.1, Function.update w.2 addr false), 0)
  ext4Umount w addr := ((Function.update w.1 addr false, w.2), 0)

theorem tableFatFs_documented : tableFatFs.Documented fun w => w where
  mount _ _ _ _ := Function.update_self _ _ _
  mount_other _ _ _ _ ha := Function.update_of_ne ha _ _
  umount _ _ := Function.update_self _ _ _
  umount_other _ _ _ ha := Function.update_of_ne ha _ _
  mkfs _ _ _ _ _ := rfl

theorem tableLwext4_documented : tableLwext4.Documented Prod.fst Prod.snd where
  mount w vol _ a := by
    by_cases ha : a = vol.addr <;> simp [tableLwext4, ha]
  mount_journal _ _ _ := rfl
  recover _ _ := ⟨rfl, rfl⟩
  start w addr a := by
    by_cases ha : a = addr <;> simp [tableLwext4, ha]
  start_point _ _ := rfl
  stop w addr a := by
    by_cases ha : a = addr <;> simp [tableLwext4, ha]
  stop_point _ _ := rfl
  umount w addr a := by
    by_cases ha : a = addr <;> simp [tableLwext4, ha]
  umount_journal _ _ := rfl

def sampleNumbers : Numbers := ⟨2, some 4, 95⟩

def sampleLibraries : Libraries (Nat → Bool) ((Nat → Bool) × (Nat → Bool)) :=
  ⟨fun _ => false, (fun _ => false, fun _ => false), fun _ => false⟩

def sampleActions : List Action :=
  [.mount [0x61] 0 ⟨1, 12, some "vfat", 63, 1000⟩ (some 100) (some 3),
    .mount [0x62] 0 ⟨2, 0x83, some "ext2", 2048, 1000⟩ (some 200) (some 4),
    .unmount (some [0x61])]

def sampleLayer : Layer (Libraries (Nat → Bool) ((Nat → Bool) × (Nat → Bool))) :=
  (layer (driver tableFatFs tableLwext4 sampleNumbers) namedPlatform).run
    ⟨boot [some vfatFsDriver, some ext2FsDriver], [], sampleLibraries⟩ sampleActions

theorem libraries_follow_volumes_sample :
    sampleLayer.vols.map Prod.fst = [200] ∧
      sampleLayer.libs.use (fun w => w) Prod.fst Prod.snd 100 = Use.none := by
  have hvols : sampleLayer.vols.map Prod.fst = [200] := by decide +kernel
  have h := libraries_follow_volumes tableFatFs_documented tableLwext4_documented sampleNumbers
    namedPlatform (boot [some vfatFsDriver, some ext2FsDriver]) rfl sampleLibraries
    (fun _ => rfl) sampleActions
    ⟨by decide, by decide +kernel, by decide +kernel, trivial⟩
  refine ⟨hvols, h.1.2.2 100 ?_⟩
  change 100 ∉ sampleLayer.vols.map Prod.fst
  rw [hvols]
  decide

end LibDvm.Mount
