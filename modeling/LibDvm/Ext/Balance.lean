import LibDvm.Ext.WriteBack

/-! # Balanced write-back sections

Every file open in lwext4 holds one write-back section, and a utimes call holds one for its own
length. An open whose section cannot be started leaves its file open in lwext4 without a
descriptor, and a utimes that could not start its section ends one all the same.
-/

namespace LibDvm.Ext

section

variable {μ φ : Type}

/-- The write-back depth of a mount point as a counter. No other call moves it. -/
structure Lwext4.CountsSections (lw : Lwext4 μ φ) (depth : μ → Nat) : Prop where
  raise : ∀ mp, (lw.cacheWriteBack mp true).2 = 0 →
    depth (lw.cacheWriteBack mp true).1 = depth mp + 1
  raise_fails : ∀ mp, (lw.cacheWriteBack mp true).2 ≠ 0 →
    depth (lw.cacheWriteBack mp true).1 = depth mp
  lower : ∀ mp, depth (lw.cacheWriteBack mp false).1 = depth mp - 1
  fopen2 : ∀ mp path flags, depth (lw.fopen2 mp path flags).1 = depth mp
  fclose : ∀ mp fil, depth (lw.fclose mp fil).1 = depth mp
  fwrite : ∀ mp fil buf, depth (lw.fwrite mp fil buf).1 = depth mp
  atimeSet : ∀ mp path t, depth (lw.atimeSet mp path t).1 = depth mp
  mtimeSet : ∀ mp path t, depth (lw.mtimeSet mp path t).1 = depth mp

/-! ## Files open in lwext4 -/

/-- A session, and one entry for each file that `ext4_fopen2` has opened and `ext4_fclose` has
not closed: its descriptor, or `none` if no descriptor stands for it. -/
structure Ledger (μ φ : Type) where
  session : Session μ φ
  opened : List (Option Nat)

/-- The entries after a call. `keeps` says whether an `ext4_fclose` that fails leaves its file
open; the descriptor is gone in any case. -/
def Ledger.enter (lw : Lwext4 μ φ) (keeps : Bool) (s : Ledger μ φ) : Call → List (Option Nat)
  | .openFile fd path flags =>
      if (lw.fopen2 s.session.mp (stripDevice path) flags).2.2 = 0 then
        match (openFile lw s.session.mp path flags).2.2 with
        | .ok _ => some fd :: s.opened
        | .error _ => none :: s.opened
      else s.opened
  | .close fd =>
      match s.session.files fd with
      | none => s.opened
      | some fil =>
          let left := s.opened.erase (some fd)
          if keeps ∧ (lw.fclose (lw.cacheWriteBack s.session.mp false).1 fil).2 ≠ 0 then
            none :: left
          else left
  | .write _ _ => s.opened
  | .utimes _ _ _ => s.opened

def ledger (lw : Lwext4 μ φ) (keeps : Bool) : Machine (Ledger μ φ) Call Reply :=
  ⟨fun s c => (⟨(call lw s.session c).1, s.enter lw keeps c⟩, (call lw s.session c).2)⟩

def Ledger.Balanced (depth : μ → Nat) (s : Ledger μ φ) : Prop :=
  depth s.session.mp = s.opened.length

/-- The call ends with the sections balanced, and an open that returns -1 opens no file. -/
def StaysBalanced (lw : Lwext4 μ φ) (keeps : Bool) (depth : μ → Nat) (s : Ledger μ φ)
    (c : Call) : Prop :=
  ((ledger lw keeps).step s c).1.Balanced depth ∧
    ∀ fd path flags errno, c = .openFile fd path flags →
      ((ledger lw keeps).step s c).2 = .done (.error errno) →
      ((ledger lw keeps).step s c).1.opened = s.opened

/-- The lwext4 calls that must not fail: the raise after an `ext4_fopen2` that succeeded, the
raise of a utimes while a section is open, and an `ext4_fclose` that leaves its file open. -/
def Call.Paired (lw : Lwext4 μ φ) (keeps : Bool) (depth : μ → Nat) (s : Ledger μ φ) :
    Call → Prop
  | .openFile _ path flags =>
      (lw.fopen2 s.session.mp (stripDevice path) flags).2.2 = 0 →
        (lw.cacheWriteBack (lw.fopen2 s.session.mp (stripDevice path) flags).1 true).2 = 0
  | .utimes _ _ _ =>
      depth s.session.mp = 0 ∨ (lw.cacheWriteBack s.session.mp true).2 = 0
  | .close fd => ∀ fil, s.session.files fd = some fil → keeps →
      (lw.fclose (lw.cacheWriteBack s.session.mp false).1 fil).2 = 0
  | .write _ _ => True

def Ledger.Entered (s : Ledger μ φ) : Prop :=
  ∀ fd, s.session.files fd ≠ none → some fd ∈ s.opened

/-! ## One call -/

variable {lw : Lwext4 μ φ} {keeps : Bool} {depth : μ → Nat}

theorem openFile_refused {mp : μ} {path : Name} {flags : Nat}
    (h : (lw.fopen2 mp (stripDevice path) flags).2.2 ≠ 0) :
    openFile lw mp path flags =
      ((lw.fopen2 mp (stripDevice path) flags).1, (lw.fopen2 mp (stripDevice path) flags).2.1,
        .error (lw.fopen2 mp (stripDevice path) flags).2.2) := by
  simp only [openFile, result, h, if_false]

theorem openFile_opened {mp : μ} {path : Name} {flags : Nat}
    (h : (lw.fopen2 mp (stripDevice path) flags).2.2 = 0) :
    openFile lw mp path flags =
      ((lw.cacheWriteBack (lw.fopen2 mp (stripDevice path) flags).1 true).1,
        (lw.fopen2 mp (stripDevice path) flags).2.1,
        result (lw.cacheWriteBack (lw.fopen2 mp (stripDevice path) flags).1 true).2 ()) := by
  simp only [openFile, h, if_true]

theorem utimes_depth (hlw : lw.CountsSections depth) (mp : μ) (path : Name)
    (times : Option (Int × Int)) (now : Int) :
    depth (utimes lw mp path times now).1 =
      if (lw.cacheWriteBack mp true).2 = 0 then depth mp else depth mp - 1 := by
  have hset := utimesSet_kept depth hlw.atimeSet hlw.mtimeSet mp path times now
  have hlower : depth (utimes lw mp path times now).1 =
      depth (utimesSet lw mp path times now).1 - 1 := hlw.lower _
  rw [hlower, hset]
  by_cases hraise : (lw.cacheWriteBack mp true).2 = 0
  · rw [if_pos hraise, hlw.raise mp hraise, Nat.add_sub_cancel]
  · rw [if_neg hraise, hlw.raise_fails mp hraise]

theorem step_openFile (lw : Lwext4 μ φ) (keeps : Bool) (s : Ledger μ φ) (fd : Nat)
    (path : Name) (flags : Nat) :
    let r := lw.fopen2 s.session.mp (stripDevice path) flags
    (r.2.2 ≠ 0 ∧ (ledger lw keeps).step s (.openFile fd path flags) =
      (⟨{ s.session with mp := r.1 }, s.opened⟩, .done (.error r.2.2))) ∨
    (r.2.2 = 0 ∧ (lw.cacheWriteBack r.1 true).2 ≠ 0 ∧
      (ledger lw keeps).step s (.openFile fd path flags) =
        (⟨{ s.session with mp := (lw.cacheWriteBack r.1 true).1 }, none :: s.opened⟩,
          .done (.error (lw.cacheWriteBack r.1 true).2))) ∨
    (r.2.2 = 0 ∧ (lw.cacheWriteBack r.1 true).2 = 0 ∧
      (ledger lw keeps).step s (.openFile fd path flags) =
        (⟨⟨(lw.cacheWriteBack r.1 true).1, Function.update s.session.files fd (some r.2.1)⟩,
          some fd :: s.opened⟩, .done (.ok ()))) := by
  intro r
  by_cases hopen : r.2.2 = 0
  · by_cases hraise : (lw.cacheWriteBack r.1 true).2 = 0
    · right
      right
      simp only [ledger, Ledger.enter, call, openFile_opened hopen, r, hopen, hraise, result,
        if_true, and_self]
    · right
      left
      simp only [ledger, Ledger.enter, call, openFile_opened hopen, r, hopen, hraise, result,
        if_true, if_false, ne_eq, not_false_eq_true, and_self]
  · left
    simp only [ledger, Ledger.enter, call, openFile_refused hopen, r, hopen, if_false, ne_eq,
      not_false_eq_true, and_self]

theorem entered_update {s : Ledger μ φ} (h : s.Entered) {mp : μ} {fd : Nat} {fil : φ}
    {opened : List (Option Nat)} (hmem : some fd ∈ opened) (hsub : s.opened ⊆ opened) :
    Ledger.Entered ⟨⟨mp, Function.update s.session.files fd (some fil)⟩, opened⟩ := by
  intro fd' hfd
  by_cases hsame : fd' = fd
  · rw [hsame]
    exact hmem
  · have hfiles : s.session.files fd' ≠ none := by
      simpa only [Function.update_of_ne hsame] using hfd
    exact hsub (h fd' hfiles)

theorem Ledger.Entered.step {s : Ledger μ φ} (h : s.Entered) (c : Call) :
    ((ledger lw keeps).step s c).1.Entered := by
  cases c with
  | openFile fd path flags =>
      rcases step_openFile lw keeps s fd path flags with
        ⟨-, hstep⟩ | ⟨-, -, hstep⟩ | ⟨-, -, hstep⟩
      · rw [hstep]
        exact h
      · rw [hstep]
        exact fun fd' hfd => List.mem_cons_of_mem _ (h fd' hfd)
      · rw [hstep]
        exact entered_update h List.mem_cons_self (List.subset_cons_self _ _)
  | utimes path times now => exact h
  | write fd buf =>
      cases hfil : s.session.files fd with
      | none =>
          simp only [ledger, call, Ledger.enter, hfil]
          exact h
      | some fil =>
          have hmem : some fd ∈ s.opened :=
            h fd (by rw [hfil]; exact Option.some_ne_none fil)
          simp only [ledger, call, Ledger.enter, hfil]
          exact entered_update h hmem (List.Subset.refl _)
  | close fd =>
      intro fd' hfd
      cases hfil : s.session.files fd with
      | none =>
          simp only [ledger, call, Ledger.enter, hfil] at hfd ⊢
          exact h fd' hfd
      | some fil =>
          simp only [ledger, call, Ledger.enter, hfil] at hfd ⊢
          have hother : fd' ≠ fd := by
            rintro rfl
            exact hfd (Function.update_self _ _ _)
          rw [Function.update_of_ne hother] at hfd
          have hmem : some fd' ∈ s.opened.erase (some fd) :=
            (List.mem_erase_of_ne (fun heq => hother (Option.some.inj heq))).mpr (h fd' hfd)
          split
          · exact List.mem_cons_of_mem _ hmem
          · exact hmem

theorem staysBalanced_openFile (hlw : lw.CountsSections depth) {s : Ledger μ φ}
    (hbal : s.Balanced depth) (fd : Nat) (path : Name) (flags : Nat) :
    StaysBalanced lw keeps depth s (.openFile fd path flags) ↔
      (Call.openFile fd path flags).Paired lw keeps depth s := by
  unfold Ledger.Balanced at hbal
  have hfopen := hlw.fopen2 s.session.mp (stripDevice path) flags
  rcases step_openFile lw keeps s fd path flags with
    ⟨hopen, hstep⟩ | ⟨hopen, hraise, hstep⟩ | ⟨hopen, hraise, hstep⟩
  · refine ⟨fun _ hok => absurd hok hopen, fun _ => ⟨?_, fun _ _ _ _ _ _ => ?_⟩⟩
    · rw [hstep, Ledger.Balanced, hfopen, hbal]
    · rw [hstep]
  · -- the file is open, without a section and without a descriptor
    constructor
    · intro h
      have hfiles := h.2 fd path flags _ rfl (by rw [hstep])
      rw [hstep] at hfiles
      exact absurd hfiles (List.cons_ne_self _ _)
    · intro h
      exact absurd (h hopen) hraise
  · refine ⟨fun _ _ => hraise, fun _ => ⟨?_, fun _ _ _ _ _ hret => ?_⟩⟩
    · rw [hstep, Ledger.Balanced, hlw.raise _ hraise, hfopen, hbal, List.length_cons]
    · rw [hstep] at hret
      cases hret

theorem staysBalanced_iff_balanced {s : Ledger μ φ} {c : Call}
    (hc : ∀ fd path flags, c ≠ .openFile fd path flags) :
    StaysBalanced lw keeps depth s c ↔ ((ledger lw keeps).step s c).1.Balanced depth :=
  and_iff_left fun fd path flags _ heq => absurd heq (hc fd path flags)

theorem close_balanced_iff (hlw : lw.CountsSections depth) {s : Ledger μ φ}
    (hbal : s.Balanced depth) (hent : s.Entered) (fd : Nat) :
    ((ledger lw keeps).step s (.close fd)).1.Balanced depth ↔
      (Call.close fd).Paired lw keeps depth s := by
  unfold Ledger.Balanced at hbal
  cases hfil : s.session.files fd with
  | none =>
      simp only [ledger, call, Ledger.enter, Ledger.Balanced, Call.Paired, hfil, hbal,
        reduceCtorEq, false_implies, implies_true]
  | some fil =>
      have hmem : some fd ∈ s.opened :=
        hent fd (by rw [hfil]; exact Option.some_ne_none fil)
      have hpos : 0 < s.opened.length := List.length_pos_of_mem hmem
      simp only [ledger, call, Ledger.enter, Ledger.Balanced, Call.Paired, hfil, close,
        hlw.fclose, hlw.lower, hbal, Option.some.injEq, forall_eq']
      split
      · next hfail =>
          rw [List.length_cons, List.length_erase_of_mem hmem]
          constructor
          · intro h
            omega
          · intro h
            exact absurd (h hfail.1) hfail.2
      · next hdone =>
          rw [List.length_erase_of_mem hmem]
          exact ⟨fun _ hkeeps => by_contra fun hfail => hdone ⟨hkeeps, hfail⟩, fun _ => rfl⟩

/-- Step lemma: a balanced session stays balanced exactly under a paired call. -/
theorem staysBalanced_iff (hlw : lw.CountsSections depth) {s : Ledger μ φ}
    (hbal : s.Balanced depth) (hent : s.Entered) (c : Call) :
    StaysBalanced lw keeps depth s c ↔ c.Paired lw keeps depth s := by
  cases c with
  | openFile fd path flags => exact staysBalanced_openFile hlw hbal fd path flags
  | utimes path times now =>
      have hafter : ((ledger lw keeps).step s (.utimes path times now)).1.Balanced depth ↔
          depth (utimes lw s.session.mp path times now).1 = s.opened.length := Iff.rfl
      unfold Ledger.Balanced at hbal
      rw [staysBalanced_iff_balanced (c := .utimes path times now) (by simp), hafter,
        utimes_depth hlw, Call.Paired]
      by_cases hraise : (lw.cacheWriteBack s.session.mp true).2 = 0
      · simp only [hraise, if_true, hbal, or_true]
      · simp only [hraise, if_false, or_false]
        omega
  | write fd buf =>
      unfold Ledger.Balanced at hbal
      rw [staysBalanced_iff_balanced (c := .write fd buf) (by simp), Call.Paired, iff_true]
      cases hfil : s.session.files fd with
      | none =>
          simp only [ledger, call, Ledger.enter, Ledger.Balanced, hfil]
          exact hbal
      | some fil =>
          simp only [ledger, call, Ledger.enter, Ledger.Balanced, hfil, write]
          rw [hlw.fwrite, hbal]
  | close fd =>
      rw [staysBalanced_iff_balanced (c := .close fd) (by simp)]
      exact close_balanced_iff hlw hbal hent fd

/-- From a balanced session on, every call leaves the sections balanced exactly when every call
is paired. -/
theorem session_sections_balanced (hlw : lw.CountsSections depth) {s : Ledger μ φ}
    (hbal : s.Balanced depth) (hent : s.Entered) (calls : List Call) :
    (ledger lw keeps).Throughout (StaysBalanced lw keeps depth) s calls ↔
      (ledger lw keeps).Throughout (fun s c => c.Paired lw keeps depth s) s calls :=
  (ledger lw keeps).throughout_iff (fun s => s.Balanced depth ∧ s.Entered)
    (fun _ c hs => staysBalanced_iff hlw hs.1 hs.2 c)
    (fun _ c hs hstays => ⟨hstays.1, hs.2.step c⟩) calls ⟨hbal, hent⟩

end

/-! ## An lwext4 with a limited number of sections -/

/-- `memoryLwext4`, but ENOMEM answers the start of a section while `limit` are open. -/
def limitedLwext4 (limit : Nat) : Lwext4 MemoryMount Unit :=
  { memoryLwext4 with
    cacheWriteBack := fun mp on =>
      if on ∧ limit ≤ mp.depth then (mp, 12) else memoryLwext4.cacheWriteBack mp on }

theorem limitedLwext4_countsSections (limit : Nat) :
    (limitedLwext4 limit).CountsSections MemoryMount.depth where
  raise mp h := by
    by_cases hfull : limit ≤ mp.depth
    · simp only [limitedLwext4, hfull, and_self, if_true] at h
      cases h
    · simp only [limitedLwext4, hfull, and_false, if_false]
      rfl
  raise_fails mp h := by
    by_cases hfull : limit ≤ mp.depth
    · simp only [limitedLwext4, hfull, and_self, if_true]
    · simp only [limitedLwext4, hfull, and_false, if_false] at h
      exact absurd rfl h
  lower mp := by
    simp only [limitedLwext4, Bool.false_eq_true, false_and, if_false]
    exact memoryLwext4_documented.lower mp
  fopen2 _ _ _ := rfl
  fclose _ _ := rfl
  fwrite mp _ _ := by
    simp only [limitedLwext4, memoryLwext4]
    split <;> rfl
  atimeSet _ _ _ := rfl
  mtimeSet _ _ _ := rfl

def freshLedger : Ledger MemoryMount Unit := ⟨mountedOn false, []⟩

theorem session_sections_balanced_sample :
    (ledger (limitedLwext4 2) true).Throughout
        (StaysBalanced (limitedLwext4 2) true MemoryMount.depth) freshLedger
        [.openFile 3 [0x61] 2, .write 3 [1], .utimes [0x61] none 7, .close 3] ↔
      (ledger (limitedLwext4 2) true).Throughout
        (fun s c => c.Paired (limitedLwext4 2) true MemoryMount.depth s) freshLedger
        [.openFile 3 [0x61] 2, .write 3 [1], .utimes [0x61] none 7, .close 3] :=
  session_sections_balanced (s := freshLedger) (limitedLwext4_countsSections 2) rfl
    (fun _ h => absurd rfl h) _

/-- With room for one section, a second open returns -1 and leaves its file open, and a utimes
ends the section of the first. -/
theorem failed_raise_unbalances :
    (limitedLwext4 1).CountsSections MemoryMount.depth ∧
      (ledger (limitedLwext4 1) false).answers freshLedger
        [.openFile 3 [0x61] 2, .openFile 4 [0x62] 2] = [.done (.ok ()), .done (.error 12)] ∧
      ((ledger (limitedLwext4 1) false).run freshLedger
        [.openFile 3 [0x61] 2, .openFile 4 [0x62] 2]).opened = [none, some 3] ∧
      ((ledger (limitedLwext4 1) false).run freshLedger
        [.openFile 3 [0x61] 2, .openFile 4 [0x62] 2]).session.mp.depth = 1 ∧
      ((ledger (limitedLwext4 1) false).run freshLedger
        [.openFile 3 [0x61] 2, .utimes [0x61] none 7]).opened = [some 3] ∧
      ((ledger (limitedLwext4 1) false).run freshLedger
        [.openFile 3 [0x61] 2, .utimes [0x61] none 7]).session.mp.depth = 0 ∧
      ¬ (ledger (limitedLwext4 1) false).Throughout
        (StaysBalanced (limitedLwext4 1) false MemoryMount.depth) freshLedger
        [.openFile 3 [0x61] 2, .openFile 4 [0x62] 2] ∧
      ¬ (ledger (limitedLwext4 1) false).Throughout
        (StaysBalanced (limitedLwext4 1) false MemoryMount.depth) freshLedger
        [.openFile 3 [0x61] 2, .utimes [0x61] none 7] := by
  refine ⟨limitedLwext4_countsSections 1, rfl, rfl, rfl, rfl, rfl, ?_, ?_⟩
  · rintro ⟨-, hsecond, -⟩
    have hdepth : (1 : Nat) = 2 := hsecond.1
    cases hdepth
  · rintro ⟨-, hutimes, -⟩
    have hdepth : (0 : Nat) = 1 := hutimes.1
    cases hdepth

end LibDvm.Ext
