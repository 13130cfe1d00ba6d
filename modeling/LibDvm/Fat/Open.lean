import LibDvm.Fat.Model
import Mathlib.Logic.Function.Basic

/-! # Opening files

`_FAT_open_r` turns the flags of open(2) into mode bits of `f_open`. Each bit that creates a
missing file is set by a flag of its own, so that `O_TRUNC` and `O_APPEND` create files too.
-/

namespace LibDvm.Fat

/-! ## `f_open` as documented -/

def creates (mode : Nat) : Bool :=
  mode &&& (faCreateNew ||| faCreateAlways ||| faOpenAlways) != 0

def exclusive (mode : Nat) : Bool := mode &&& faCreateNew != 0

def truncates (mode : Nat) : Bool := mode &&& faCreateAlways != 0

abbrev Files (ρ : Type) := ρ → Option (List UInt8)

/-- The files of a volume, by the places that paths lead to (in whatever case they are
written), and what keeps `f_open` from doing what its mode says: a disc error, a directory
of that name, a file that is locked or read-only, and the like. -/
structure VolumeView (ν ρ : Type) where
  place : Name → ρ
  files : ν → Files ρ
  fault : ν → Name → (mode : Nat) → Option FResult

structure VolumeCalls.Documented {ν ρ : Type} [DecidableEq ρ] (fatfs : VolumeCalls ν)
    (view : VolumeView ν ρ) : Prop where
  fails : ∀ vol path mode fr, view.fault vol path mode = some fr →
    (fatfs.fOpen vol path mode).2 = fr ∧ view.files (fatfs.fOpen vol path mode).1 = view.files vol
  missing : ∀ vol path mode, view.fault vol path mode = none →
    view.files vol (view.place path) = none →
    if creates mode then
      (fatfs.fOpen vol path mode).2 = .ok ∧
        view.files (fatfs.fOpen vol path mode).1 =
          Function.update (view.files vol) (view.place path) (some [])
    else (fatfs.fOpen vol path mode).2 = .noFile ∧
      view.files (fatfs.fOpen vol path mode).1 = view.files vol
  existing : ∀ vol path mode data, view.fault vol path mode = none →
    view.files vol (view.place path) = some data →
    if exclusive mode then
      (fatfs.fOpen vol path mode).2 = .exist ∧
        view.files (fatfs.fOpen vol path mode).1 = view.files vol
    else (fatfs.fOpen vol path mode).2 = .ok ∧
      view.files (fatfs.fOpen vol path mode).1 =
        Function.update (view.files vol) (view.place path)
          (some (if truncates mode then [] else data))

def memoryVolume : VolumeCalls (Files Name) where
  fOpen files path mode :=
    match files path with
    | none => if creates mode then (Function.update files path (some []), .ok) else (files, .noFile)
    | some data =>
        if exclusive mode then (files, .exist)
        else (Function.update files path (some (if truncates mode then [] else data)), .ok)

def memoryView : VolumeView (Files Name) Name := ⟨id, id, fun _ _ _ => none⟩

theorem memoryVolume_documented : memoryVolume.Documented memoryView where
  fails vol path mode fr h := by cases h
  missing vol path mode _ h := by
    have hmissing : vol path = none := h
    cases hc : creates mode <;> simp [memoryVolume, memoryView, hmissing, hc]
  existing vol path mode data _ h := by
    have hthere : vol path = some data := h
    cases he : exclusive mode <;> simp [memoryVolume, memoryView, hthere, he]

/-! ## From flags to mode bits -/

def hasFlag (flags flag : Nat) : Bool := decide (flags &&& flag ≠ 0)

theorem addMode_eq (flags flag mode ffmode : Nat) :
    addMode flags flag mode ffmode = bif hasFlag flags flag then ffmode ||| mode else ffmode := by
  by_cases h : flags &&& flag ≠ 0 <;> simp [addMode, hasFlag, h]

theorem accessMode_mem {flags ffmode : Nat} (h : accessMode flags = some ffmode) :
    ffmode ∈ [faRead, faWrite, faRead ||| faWrite] := by
  unfold accessMode at h
  split at h
  · split at h
    · cases h
    · obtain rfl := Option.some.inj h
      decide
  · obtain rfl := Option.some.inj h
    decide
  · obtain rfl := Option.some.inj h
    decide
  · cases h

theorem modeBits : ∀ ffmode ∈ [faRead, faWrite, faRead ||| faWrite],
    ∀ creat excl trunc append : Bool,
      let mode := bif creat then ffmode ||| faOpenAlways else ffmode
      let mode := bif excl then mode ||| faCreateNew else mode
      let mode := bif trunc then mode ||| faCreateAlways else mode
      let mode := bif append then mode ||| faOpenAppend else mode
      creates (normalizeMode mode) = (creat || excl || trunc || append) ∧
        exclusive (normalizeMode mode) = excl ∧ truncates (normalizeMode mode) = trunc := by
  decide

theorem openMode_bits {flags mode : Nat} (h : openMode flags = some mode) :
    creates mode = (hasFlag flags oCreat || hasFlag flags oExcl || hasFlag flags oTrunc ||
        hasFlag flags oAppend) ∧
      exclusive mode = hasFlag flags oExcl ∧ truncates mode = hasFlag flags oTrunc := by
  obtain ⟨ffmode, haccess, rfl⟩ := Option.map_eq_some_iff.mp h
  simp only [addMode_eq]
  exact modeBits ffmode (accessMode_mem haccess) _ _ _ _

/-! ## The law of open(2) -/

/-- What opening the file at `place` makes of the files, where FatFs itself meets `fault`. -/
structure OpenLaw {ρ : Type} [DecidableEq ρ] (fault : Option FResult) (was now : Files ρ)
    (place : ρ) (creat excl trunc : Bool) (ret : Except Errno Unit) : Prop where
  failed : ∀ fr, fault = some fr → ret = setErrno fr () ∧ now = was
  created : fault = none → was place = none → creat = true →
    ret = .ok () ∧ now = Function.update was place (some [])
  missing : fault = none → was place = none → creat = false →
    ret = .error .enoent ∧ now = was
  exists_iff : ∀ data, fault = none → was place = some data →
    (ret = .error .eexist ↔ creat = true ∧ excl = true)
  content : ∀ data, fault = none → was place = some data → ret = .ok () →
    now = Function.update was place (some (if trunc then [] else data))

section Law

variable {ν ρ : Type} [DecidableEq ρ] {fatfs : VolumeCalls ν} {view : VolumeView ν ρ} {vol : ν}
  {path : Name} {flags mode : Nat}

theorem openFile_mode (hmode : openMode flags = some mode) :
    openFile fatfs vol path flags =
      ((fatfs.fOpen vol (stripDevice path) mode).1,
        setErrno (fatfs.fOpen vol (stripDevice path) mode).2 ()) := by
  simp only [openFile, hmode]

theorem law_of_fault {fr : FResult} {was : Files ρ} {place : ρ} {creat excl trunc : Bool} :
    OpenLaw (some fr) was was place creat excl trunc (setErrno fr ()) where
  failed fr' h := by
    obtain rfl := Option.some.inj h
    exact ⟨rfl, rfl⟩
  created h := nomatch h
  missing h := nomatch h
  exists_iff _ h := nomatch h
  content _ h := nomatch h

theorem law_of_existing (hdoc : fatfs.Documented view)
    (hfault : view.fault vol path mode = none) {data : List UInt8}
    (hthere : view.files vol (view.place path) = some data) {creat : Bool}
    (hexcl : exclusive mode = true → creat = true) :
    OpenLaw none (view.files vol) (view.files (fatfs.fOpen vol path mode).1) (view.place path)
      creat (exclusive mode) (truncates mode) (setErrno (fatfs.fOpen vol path mode).2 ()) := by
  have hopen := hdoc.existing _ _ _ _ hfault hthere
  have hsome : view.files vol (view.place path) ≠ none := by simp [hthere]
  constructor
  case failed => exact fun _ h => nomatch h
  case created => exact fun _ hmissing => absurd hmissing hsome
  case missing => exact fun _ hmissing => absurd hmissing hsome
  case exists_iff =>
    intro _ _ _
    cases he : exclusive mode with
    | true =>
        rw [he, if_pos rfl] at hopen
        rw [hopen.1]
        exact ⟨fun _ => ⟨hexcl he, rfl⟩, fun _ => rfl⟩
    | false =>
        rw [he, if_neg (by simp)] at hopen
        rw [hopen.1]
        exact ⟨fun h => (nomatch h), fun h => (nomatch h.2)⟩
  case content =>
    intro data' _ hdata hret
    obtain rfl : data = data' := Option.some.inj (hthere.symm.trans hdata)
    cases he : exclusive mode with
    | true =>
        rw [he, if_pos rfl] at hopen
        rw [hopen.1] at hret
        cases hret
    | false =>
        rw [he, if_neg (by simp)] at hopen
        exact hopen.2

/-- A missing file is treated as the law says exactly when it is created because of
`O_CREAT` or not at all. -/
theorem law_of_missing_iff (hdoc : fatfs.Documented view)
    (hfault : view.fault vol path mode = none) (hmissing : view.files vol (view.place path) = none)
    {creat excl trunc : Bool} :
    OpenLaw none (view.files vol) (view.files (fatfs.fOpen vol path mode).1) (view.place path)
      creat excl trunc (setErrno (fatfs.fOpen vol path mode).2 ()) ↔ creates mode = creat := by
  have hopen := hdoc.missing _ _ _ hfault hmissing
  have hnone : ∀ {data}, view.files vol (view.place path) ≠ some data := by
    intro data hdata
    rw [hmissing] at hdata
    cases hdata
  cases hc : creates mode with
  | true =>
      rw [hc, if_pos rfl] at hopen
      rw [hopen.1, hopen.2]
      constructor
      · intro h
        by_contra hcreat
        have hret := (h.missing rfl hmissing (by simpa using Ne.symm hcreat)).1
        cases hret
      · rintro rfl
        exact ⟨fun _ h => (nomatch h), fun _ _ _ => ⟨rfl, rfl⟩, fun _ _ h => (nomatch h),
          fun _ _ h => absurd h hnone, fun _ _ h => absurd h hnone⟩
  | false =>
      rw [hc, if_neg (by simp)] at hopen
      rw [hopen.1, hopen.2]
      constructor
      · intro h
        by_contra hcreat
        have hret := (h.created rfl hmissing (by simpa using Ne.symm hcreat)).1
        cases hret
      · rintro rfl
        exact ⟨fun _ h => (nomatch h), fun _ _ h => (nomatch h), fun _ _ _ => ⟨rfl, rfl⟩,
          fun _ _ h => absurd h hnone, fun _ _ h => absurd h hnone⟩

/-- For flags it does not reject, `_FAT_open_r` keeps the law exactly when the file exists,
when it is to be created, or when neither `O_TRUNC` nor `O_APPEND` is set (or FatFs itself
fails). -/
theorem open_follows_law (hdoc : fatfs.Documented view) (vol : ν) (path : Name)
    (hmode : openMode flags = some mode)
    (hexcl : hasFlag flags oExcl = true → hasFlag flags oCreat = true) :
    OpenLaw (view.fault vol (stripDevice path) mode) (view.files vol)
        (view.files (openFile fatfs vol path flags).1) (view.place (stripDevice path))
        (hasFlag flags oCreat) (hasFlag flags oExcl) (hasFlag flags oTrunc)
        (openFile fatfs vol path flags).2 ↔
      view.fault vol (stripDevice path) mode ≠ none ∨
        view.files vol (view.place (stripDevice path)) ≠ none ∨ hasFlag flags oCreat = true ∨
        hasFlag flags oTrunc = false ∧ hasFlag flags oAppend = false := by
  obtain ⟨hcreates, hexclusive, htruncates⟩ := openMode_bits hmode
  rw [openFile_mode hmode]
  cases hfault : view.fault vol (stripDevice path) mode with
  | some fr =>
      obtain ⟨hfr, hfiles⟩ := hdoc.fails _ _ _ _ hfault
      rw [hfr, hfiles]
      exact ⟨fun _ => Or.inl (by simp), fun _ => law_of_fault⟩
  | none =>
      cases hthere : view.files vol (view.place (stripDevice path)) with
      | some data =>
          have hlaw := law_of_existing hdoc hfault hthere (hexclusive ▸ hexcl)
          rw [hexclusive, htruncates] at hlaw
          exact ⟨fun _ => Or.inr (Or.inl (by simp)), fun _ => hlaw⟩
      | none =>
          rw [law_of_missing_iff hdoc hfault hthere, hcreates]
          cases hcreat : hasFlag flags oCreat with
          | true => simp
          | false =>
              have hnotExcl : hasFlag flags oExcl = false := by
                by_contra hset
                rw [hcreat] at hexcl
                cases hexcl (by simpa using hset)
              simp [hnotExcl]

end Law

theorem open_follows_law_sample :
    OpenLaw none (fun _ => none) (openFile memoryVolume (fun _ => none) [0x61] 0x200).1 [0x61]
        true false false (openFile memoryVolume (fun _ => none) [0x61] 0x200).2 ↔
      (none : Option FResult) ≠ none ∨ (none : Option (List UInt8)) ≠ none ∨ true = true ∨
        false = false ∧ false = false :=
  open_follows_law memoryVolume_documented (fun _ => none) [0x61]
    (show openMode 0x200 = some 0x11 by decide) (by decide)

/-- `O_WRONLY | O_TRUNC` without `O_CREAT` creates a missing file, and so does
`O_WRONLY | O_APPEND`. -/
theorem missing_file_created :
    (openFile memoryVolume (fun _ => none) [0x61] 0x401).2 = .ok () ∧
      (openFile memoryVolume (fun _ => none) [0x61] 0x401).1 [0x61] = some [] ∧
      (openFile memoryVolume (fun _ => none) [0x61] 0x009).1 [0x61] = some [] ∧
      ¬ OpenLaw none (fun _ => none) (openFile memoryVolume (fun _ => none) [0x61] 0x401).1
        [0x61] false false true (openFile memoryVolume (fun _ => none) [0x61] 0x401).2 := by
  refine ⟨by rfl, by rfl, by rfl, ?_⟩
  intro h
  have hret := (h.missing rfl rfl rfl).1
  cases hret

end LibDvm.Fat
