import LibDvm.Ext.Model

/-! # Delayed writes

Writes to an ext volume stay in lwext4's cache while a write-back section is open, and the
call that lowers the depth to zero writes them out. Both callers of
`ext4_cache_write_back(mp, false)` drop its result, so an error gets out only when another
step of the same call fails.
-/

namespace LibDvm.Ext

/-! ## Write-back sections as documented -/

/-- What is visible of a mount point: how many sections are open, and the blocks whose write
is outstanding. -/
structure MountView (μ : Type) where
  depth : μ → Nat
  delayed : μ → List Nat

structure Lwext4.Documented {μ φ : Type} (lw : Lwext4 μ φ) (view : MountView μ) : Prop where
  raise : ∀ mp, (lw.cacheWriteBack mp true).2 = 0 →
    view.depth (lw.cacheWriteBack mp true).1 = view.depth mp + 1
  raise_fails : ∀ mp, (lw.cacheWriteBack mp true).2 ≠ 0 →
    view.depth (lw.cacheWriteBack mp true).1 = view.depth mp
  lower : ∀ mp, view.depth (lw.cacheWriteBack mp false).1 = view.depth mp - 1
  lower_writes : ∀ mp, view.depth mp ≤ 1 →
    ((lw.cacheWriteBack mp false).2 = 0 ↔ view.delayed (lw.cacheWriteBack mp false).1 = [])
  atimeSet : ∀ mp path t, view.depth (lw.atimeSet mp path t).1 = view.depth mp
  mtimeSet : ∀ mp path t, view.depth (lw.mtimeSet mp path t).1 = view.depth mp

/-! ## An lwext4 in memory -/

/-- A mount whose cache holds one block per write; writing a bad block out fails. -/
structure MemoryMount where
  depth : Nat
  delayed : List Nat
  bad : Nat → Bool

def memoryLower (mp : MemoryMount) : MemoryMount × Nat :=
  if mp.depth - 1 = 0 then
    let left := mp.delayed.filter mp.bad
    ({ mp with depth := mp.depth - 1, delayed := left }, if left = [] then 0 else 5)
  else ({ mp with depth := mp.depth - 1 }, 0)

def memoryLwext4 : Lwext4 MemoryMount Unit where
  fopen2 mp _ _ := (mp, (), 0)
  fclose mp _ := (mp, 0)
  fwrite mp fil buf :=
    (if mp.depth = 0 then mp else { mp with delayed := mp.delayed ++ [mp.delayed.length] }, fil, 0,
      buf.length)
  atimeSet mp _ _ := (mp, 0)
  mtimeSet mp _ _ := (mp, 0)
  cacheWriteBack mp on := if on then ({ mp with depth := mp.depth + 1 }, 0) else memoryLower mp

def memoryView : MountView MemoryMount := ⟨MemoryMount.depth, MemoryMount.delayed⟩

theorem memoryLwext4_documented : memoryLwext4.Documented memoryView where
  raise _ _ := rfl
  raise_fails _ h := absurd rfl h
  lower mp := by
    simp only [memoryLwext4, memoryView, memoryLower, Bool.false_eq_true, if_false]
    split <;> rfl
  lower_writes mp h := by
    have hzero : mp.depth - 1 = 0 := by
      have hle : mp.depth ≤ 1 := h
      omega
    simp only [memoryLwext4, memoryView, memoryLower, hzero, Bool.false_eq_true, if_false, if_true]
    by_cases hleft : mp.delayed.filter mp.bad = [] <;> simp [hleft]
  atimeSet _ _ _ := rfl
  mtimeSet _ _ _ := rfl

/-! ## Failed writes and what a call returns -/

section Session

variable {μ φ : Type}

def lowered (lw : Lwext4 μ φ) (s : Session μ φ) : Call → Option μ
  | .close fd => (s.files fd).map fun _ => (lw.cacheWriteBack s.mp false).1
  | .utimes path times now =>
      some (lw.cacheWriteBack (utimesSet lw s.mp path times now).1 false).1
  | _ => none

/-- The call ends the last section, and a delayed block is not written. -/
def LosesBlock (lw : Lwext4 μ φ) (view : MountView μ) (s : Session μ φ) (c : Call) : Prop :=
  ∃ mp, lowered lw s c = some mp ∧ view.depth mp = 0 ∧ view.delayed mp ≠ []

/-- A call during which a delayed block is not written returns -1 with an error number. -/
def Reports (lw : Lwext4 μ φ) (view : MountView μ) (s : Session μ φ) (c : Call) : Prop :=
  LosesBlock lw view s c → ∃ errno, errno ≠ 0 ∧ (call lw s c).2 = .done (.error errno)

/-- Nothing is there to be lost by the call: a section stays open, lwext4 writes every block
out, or another step of the call fails. -/
def Call.Sound (lw : Lwext4 μ φ) (view : MountView μ) (s : Session μ φ) : Call → Prop
  | .close fd => ∀ fil, s.files fd = some fil →
      1 < view.depth s.mp ∨ (lw.cacheWriteBack s.mp false).2 = 0 ∨
        (lw.fclose (lw.cacheWriteBack s.mp false).1 fil).2 ≠ 0
  | .utimes path times now =>
      0 < view.depth s.mp ∨ (utimesSet lw s.mp path times now).2 ≠ 0 ∨
        (lw.cacheWriteBack (utimesSet lw s.mp path times now).1 false).2 = 0
  | _ => True

/-! ## One call -/

variable {lw : Lwext4 μ φ} {view : MountView μ}

theorem result_error {ρ : Type} {errno : Nat} (ret : ρ) :
    (∃ e, e ≠ 0 ∧ result errno ret = .error e) ↔ errno ≠ 0 := by
  unfold result
  by_cases h : errno = 0
  · simp [h]
  · simp [h]

theorem losesBlock_iff (hdoc : lw.Documented view) {s : Session μ φ} {c : Call} {mp : μ}
    (hlow : lowered lw s c = some (lw.cacheWriteBack mp false).1) :
    LosesBlock lw view s c ↔ view.depth mp ≤ 1 ∧ (lw.cacheWriteBack mp false).2 ≠ 0 := by
  have hdepth := hdoc.lower mp
  constructor
  · rintro ⟨after, hafter, hzero, hleft⟩
    obtain rfl := Option.some.inj (hlow.symm.trans hafter)
    have hlast : view.depth mp ≤ 1 := by omega
    exact ⟨hlast, fun hrc => hleft ((hdoc.lower_writes mp hlast).mp hrc)⟩
  · rintro ⟨hlast, hrc⟩
    exact ⟨_, hlow, by omega, fun hleft => hrc ((hdoc.lower_writes mp hlast).mpr hleft)⟩

theorem not_losesBlock {s : Session μ φ} {c : Call} (hlow : lowered lw s c = none) :
    ¬ LosesBlock lw view s c := by
  rintro ⟨mp, hmp, -⟩
  rw [hlow] at hmp
  cases hmp

theorem utimesSet_kept {β : Type} (f : μ → β)
    (hatime : ∀ mp path t, f (lw.atimeSet mp path t).1 = f mp)
    (hmtime : ∀ mp path t, f (lw.mtimeSet mp path t).1 = f mp) (mp : μ) (path : Name)
    (times : Option (Int × Int)) (now : Int) :
    f (utimesSet lw mp path times now).1 = f (lw.cacheWriteBack mp true).1 := by
  unfold utimesSet
  simp only
  by_cases hraise : (lw.cacheWriteBack mp true).2 = 0
  · simp only [hraise, if_true]
    split
    · rw [hmtime, hatime]
    · rw [hatime]
  · simp only [hraise, if_false]

theorem utimesSet_raised {mp : μ} {path : Name} {times : Option (Int × Int)} {now : Int}
    (hok : (utimesSet lw mp path times now).2 = 0) : (lw.cacheWriteBack mp true).2 = 0 := by
  by_contra hraise
  simp only [utimesSet, hraise, if_false] at hok

theorem utimesSet_depth (hdoc : lw.Documented view) {mp : μ} {path : Name}
    {times : Option (Int × Int)} {now : Int} (hok : (utimesSet lw mp path times now).2 = 0) :
    view.depth (utimesSet lw mp path times now).1 = view.depth mp + 1 := by
  rw [utimesSet_kept view.depth hdoc.atimeSet hdoc.mtimeSet, hdoc.raise mp (utimesSet_raised hok)]

theorem utimes_reports_iff (hdoc : lw.Documented view) (s : Session μ φ) (path : Name)
    (times : Option (Int × Int)) (now : Int) :
    Reports lw view s (.utimes path times now) ↔
      (Call.utimes path times now).Sound lw view s := by
  have hloses := losesBlock_iff hdoc (s := s) (c := .utimes path times now) rfl
  have hreply : (∃ errno, errno ≠ 0 ∧
      (call lw s (.utimes path times now)).2 = .done (.error errno)) ↔
      (utimesSet lw s.mp path times now).2 ≠ 0 := by
    simp only [call, utimes, Reply.done.injEq]
    exact result_error ()
  rw [Reports, hloses, hreply, Call.Sound]
  by_cases hset : (utimesSet lw s.mp path times now).2 = 0
  · rw [utimesSet_depth hdoc hset]
    constructor
    · intro h
      by_cases hopen : 0 < view.depth s.mp
      · exact Or.inl hopen
      · exact Or.inr (Or.inr (by_contra fun hrc => h ⟨by omega, hrc⟩ hset))
    · rintro (hopen | hfail | hrc) ⟨hlast, hlost⟩
      · omega
      · exact hfail
      · exact absurd hrc hlost
  · exact ⟨fun _ => Or.inr (Or.inl hset), fun _ _ => hset⟩

theorem close_reports_iff (hdoc : lw.Documented view) (s : Session μ φ) (fd : Nat) :
    Reports lw view s (.close fd) ↔ (Call.close fd).Sound lw view s := by
  cases hfd : s.files fd with
  | none =>
      refine ⟨fun _ fil hfil => ?_, fun _ hl => absurd hl (not_losesBlock ?_)⟩
      · rw [hfd] at hfil
        cases hfil
      · simp only [lowered, hfd, Option.map_none]
  | some fil =>
      have hlow : lowered lw s (.close fd) = some (lw.cacheWriteBack s.mp false).1 := by
        simp only [lowered, hfd, Option.map_some]
      have hreply : (∃ errno, errno ≠ 0 ∧
          (call lw s (.close fd)).2 = .done (.error errno)) ↔
          (lw.fclose (lw.cacheWriteBack s.mp false).1 fil).2 ≠ 0 := by
        simp only [call, hfd, close, Reply.done.injEq]
        exact result_error ()
      rw [Reports, losesBlock_iff hdoc hlow, hreply]
      constructor
      · intro h fil' hfil'
        obtain rfl := Option.some.inj (hfd.symm.trans hfil')
        by_cases hopen : 1 < view.depth s.mp
        · exact Or.inl hopen
        · by_cases hrc : (lw.cacheWriteBack s.mp false).2 = 0
          · exact Or.inr (Or.inl hrc)
          · exact Or.inr (Or.inr (h ⟨by omega, hrc⟩))
      · intro h hlost
        rcases h fil hfd with hopen | hrc | hfail
        · omega
        · exact absurd hrc hlost.2
        · exact hfail

/-- Step lemma: a call reports the blocks it loses exactly when there is nothing to lose. -/
theorem reports_iff_sound (hdoc : lw.Documented view) (s : Session μ φ) (c : Call) :
    Reports lw view s c ↔ c.Sound lw view s := by
  cases c with
  | openFile fd path flags =>
      exact ⟨fun _ => trivial, fun _ hl => absurd hl (not_losesBlock rfl)⟩
  | write fd buf => exact ⟨fun _ => trivial, fun _ hl => absurd hl (not_losesBlock rfl)⟩
  | utimes path times now => exact utimes_reports_iff hdoc s path times now
  | close fd => exact close_reports_iff hdoc s fd

/-- In any session every call reports the blocks it loses exactly when no call has any to
lose without an error of its own. -/
theorem session_reports_failed_writes (hdoc : lw.Documented view) (s : Session μ φ)
    (calls : List Call) :
    (session lw).Throughout (Reports lw view) s calls ↔
      (session lw).Throughout (fun s c => c.Sound lw view s) s calls :=
  (session lw).throughout_congr (reports_iff_sound hdoc) calls

end Session

def mountedOn (bad : Bool) : Session MemoryMount Unit := ⟨⟨0, [], fun _ => bad⟩, fun _ => none⟩

theorem session_reports_failed_writes_sample :
    (session memoryLwext4).Throughout (Reports memoryLwext4 memoryView) (mountedOn false)
        [.openFile 3 [0x61] 2, .write 3 [1], .close 3] ↔
      (session memoryLwext4).Throughout (fun s c => c.Sound memoryLwext4 memoryView s)
        (mountedOn false) [.openFile 3 [0x61] 2, .write 3 [1], .close 3] :=
  session_reports_failed_writes memoryLwext4_documented _ _

/-- The close of a written file returns 0 although its one block was not written. -/
theorem failed_write_swallowed :
    (session memoryLwext4).answers (mountedOn true)
        [.openFile 3 [0x61] 2, .write 3 [1], .close 3] =
        [.done (.ok ()), .count (.ok 1), .done (.ok ())] ∧
      ((session memoryLwext4).run (mountedOn true)
        [.openFile 3 [0x61] 2, .write 3 [1], .close 3]).mp.delayed = [0] ∧
      ¬ (session memoryLwext4).Throughout (Reports memoryLwext4 memoryView) (mountedOn true)
        [.openFile 3 [0x61] 2, .write 3 [1], .close 3] := by
  refine ⟨by rfl, by rfl, ?_⟩
  rintro ⟨-, -, hclose, -⟩
  obtain ⟨errno, -, hret⟩ := hclose ⟨_, rfl, by decide, by decide⟩
  cases hret

end LibDvm.Ext
