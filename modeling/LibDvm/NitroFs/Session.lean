import LibDvm.NitroFs.Reading

/-! # Sessions

The mounted file system with its current directory and its open descriptors. Every call
is recorded with the ids it hands to `nitroromGetFileSize` and `nitroromReadFile`, and
every file opened with the id its path resolved to. Files and directories share one
number space; only the kind checks of the single calls keep them apart, and
`_nitroFS_open_r` makes none.
-/

namespace LibDvm.NitroFs

variable {ι : Type}

/-! ## The ids a call asks the library about -/

def setStatAsks (nr : NitroRom ι) (id : Nat) : List Nat := if id ≥ nr.rootDir then [] else [id]

def readAsks (nr : NitroRom ι) (fil : NitroFile) (len : Nat) : List Nat :=
  let maxRead := secSub (nr.getFileSize fil.fileId) fil.pos
  fil.fileId :: if (if len < maxRead then len else maxRead) = 0 then [] else [fil.fileId]

def seekAsks (fil : NitroFile) : List Nat := [fil.fileId]

def statAsks (nr : NitroRom ι) (cwd : Nat) (path : Name) : List Nat :=
  let fileId := nr.resolvePath cwd (stripDevice path)
  if fileId < 0 then [] else setStatAsks nr (u16 fileId.toNat)

def dirnextAsks (nr : NitroRom ι) (d : NitroDir ι) : List Nat :=
  if d.itPos = 0 then setStatAsks nr d.dirId
  else if d.itPos = 1 then setStatAsks nr (nr.getParentDir d.dirId)
  else match (nr.readIter d.it).2 with
    | .ok ent => setStatAsks nr ent.id
    | .error _ => []

/-! ## The session as a machine -/

inductive RomEvent where
  | asked (id : Nat)
  | opened (id : Int)
deriving DecidableEq

/-- `_nitroFS_cwd`, and the descriptors the C library has handed out. -/
structure Session (ι : Type) where
  cwd : Nat
  files : Nat → Option NitroFile
  dirs : Nat → Option (NitroDir ι)
  log : List RomEvent

/-- Calls through the device table; `fd` and `dd` name file and directory descriptors. -/
inductive Call where
  | chdir (path : Name)
  | openFile (fd : Nat) (path : Name) (flags : Nat)
  | read (fd len : Nat)
  | seek (fd : Nat) (offset : Int) (whence : Whence)
  | fstat (fd : Nat)
  | stat (path : Name)
  | diropen (dd : Nat) (path : Name)
  | dirreset (dd : Nat)
  | dirnext (dd : Nat)

/-- What a call returns; a call on a descriptor that is not open never reaches the device. -/
inductive Reply where
  | notOpen
  | done (ret : Except Errno Unit)
  | data (ret : Except Errno (List UInt8))
  | position (ret : Except Errno Nat)
  | attributes (ret : Except Errno Stat)
  | entry (ret : Except Errno (Name × Stat))

namespace Session

def record (s : Session ι) (events : List RomEvent) : Session ι := { s with log := s.log ++ events }

def setFile (s : Session ι) (fd : Nat) (fil : NitroFile) : Session ι :=
  { s with files := Function.update s.files fd (some fil) }

def setDir (s : Session ι) (dd : Nat) (d : NitroDir ι) : Session ι :=
  { s with dirs := Function.update s.dirs dd (some d) }

end Session

def asks (nr : NitroRom ι) (s : Session ι) : Call → List Nat
  | .read fd len => (s.files fd).elim [] fun fil => readAsks nr fil len
  | .seek fd _ _ => (s.files fd).elim [] seekAsks
  | .fstat fd => (s.files fd).elim [] fun fil => setStatAsks nr fil.fileId
  | .stat path => statAsks nr s.cwd path
  | .dirnext dd => (s.dirs dd).elim [] (dirnextAsks nr)
  | .chdir _ | .openFile _ _ _ | .diropen _ _ | .dirreset _ => []

def answer (nr : NitroRom ι) (s : Session ι) : Call → Session ι × Reply
  | .chdir path =>
      match chdir nr s.cwd path with
      | .ok cwd => ({ s with cwd := cwd }, .done (.ok ()))
      | .error e => (s, .done (.error e))
  | .openFile fd path flags =>
      match openFile nr s.cwd path flags with
      | .ok fil =>
          ((s.setFile fd fil).record [.opened (nr.resolvePath s.cwd (stripDevice path))],
            .done (.ok ()))
      | .error e => (s, .done (.error e))
  | .read fd len =>
      match s.files fd with
      | some fil =>
          let r := read nr fil len
          (s.setFile fd r.1, .data r.2)
      | none => (s, .notOpen)
  | .seek fd offset whence =>
      match s.files fd with
      | some fil =>
          let r := seek nr fil offset whence
          (s.setFile fd r.1, .position r.2)
      | none => (s, .notOpen)
  | .fstat fd =>
      match s.files fd with
      | some fil => (s, .attributes (.ok (fstat nr fil)))
      | none => (s, .notOpen)
  | .stat path => (s, .attributes (stat nr s.cwd path))
  | .diropen dd path =>
      match diropen nr s.cwd path with
      | .ok d => (s.setDir dd d, .done (.ok ()))
      | .error e => (s, .done (.error e))
  | .dirreset dd =>
      match s.dirs dd with
      | some d => (s.setDir dd (dirreset nr d), .done (.ok ()))
      | none => (s, .notOpen)
  | .dirnext dd =>
      match s.dirs dd with
      | some d =>
          let r := dirnext nr d
          (s.setDir dd r.1, .entry r.2)
      | none => (s, .notOpen)

def session (nr : NitroRom ι) : Machine (Session ι) Call Reply where
  step s c :=
    let r := answer nr s c
    (r.1.record ((asks nr s c).map .asked), r.2)

/-- After `nitroFSMount`. -/
def mounted (nr : NitroRom ι) : Session ι := ⟨nr.rootDir, fun _ => none, fun _ => none, []⟩

/-! ## What a call does to the session -/

section OneCall

variable {nr : NitroRom ι} {s : Session ι} {c : Call}

theorem read_moves (nr : NitroRom ι) (fil : NitroFile) (len : Nat) :
    ∃ pos ret, read nr fil len = ({ fil with pos := pos }, ret) := by
  unfold read
  simp only
  generalize (if len < secSub (nr.getFileSize fil.fileId) fil.pos then len
    else secSub (nr.getFileSize fil.fileId) fil.pos) = n
  split
  · exact ⟨fil.pos, _, rfl⟩
  · split
    · exact ⟨fil.pos, _, rfl⟩
    · exact ⟨_, _, rfl⟩

theorem read_fileId (nr : NitroRom ι) (fil : NitroFile) (len : Nat) :
    (read nr fil len).1.fileId = fil.fileId := by
  obtain ⟨pos, ret, heq⟩ := read_moves nr fil len
  rw [heq]

theorem seek_fileId (nr : NitroRom ι) (fil : NitroFile) (offset : Int) (whence : Whence) :
    (seek nr fil offset whence).1.fileId = fil.fileId := by
  rcases seek_cases nr fil offset whence with ⟨pos, _, heq⟩ | heq <;> rw [heq]

theorem openFile_ok {cwd : Nat} {path : Name} {flags : Nat} {fil : NitroFile} :
    openFile nr cwd path flags = .ok fil ↔ flags &&& 3 = 0 ∧
      0 ≤ nr.resolvePath cwd (stripDevice path) ∧
      fil = ⟨0, u16 (nr.resolvePath cwd (stripDevice path)).toNat⟩ := by
  unfold openFile
  by_cases hmode : flags &&& 3 = 0
  · by_cases hneg : nr.resolvePath cwd (stripDevice path) < 0
    · simp [hmode, hneg]
    · simp only [hmode, hneg, ne_eq, not_true_eq_false, if_false, Except.ok.injEq, true_and]
      constructor
      · intro h
        exact ⟨by omega, h.symm⟩
      · intro h
        exact h.2.symm
  · simp [hmode]

theorem answer_files {fd : Nat} {fil : NitroFile}
    (h : (answer nr s c).1.files fd = some fil) :
    (∃ was, s.files fd = some was ∧ fil.fileId = was.fileId) ∨
      ∃ path flags, c = .openFile fd path flags ∧ openFile nr s.cwd path flags = .ok fil := by
  have hkept : ∀ {fil}, s.files fd = some fil →
      ∃ was, s.files fd = some was ∧ fil.fileId = was.fileId := fun h => ⟨_, h, rfl⟩
  have hset : ∀ {fd' was now}, s.files fd' = some was → now.fileId = was.fileId →
      (s.setFile fd' now).files fd = some fil →
      ∃ was, s.files fd = some was ∧ fil.fileId = was.fileId := by
    intro fd' was now hwas hid hnow
    by_cases hfd : fd = fd'
    · subst hfd
      simp only [Session.setFile, Function.update_self, Option.some.injEq] at hnow
      exact ⟨was, hwas, by rw [← hnow, hid]⟩
    · simp only [Session.setFile, Function.update_of_ne hfd] at hnow
      exact hkept hnow
  cases c with
  | chdir path =>
      simp only [answer] at h
      split at h <;> exact Or.inl (hkept h)
  | openFile fd' path flags =>
      simp only [answer] at h
      split at h
      · next now hopen =>
          by_cases hfd : fd = fd'
          · subst hfd
            simp only [Session.setFile, Session.record, Function.update_self,
              Option.some.injEq] at h
            rw [h] at hopen
            exact Or.inr ⟨path, flags, rfl, hopen⟩
          · simp only [Session.setFile, Session.record, Function.update_of_ne hfd] at h
            exact Or.inl (hkept h)
      · exact Or.inl (hkept h)
  | read fd' len =>
      simp only [answer] at h
      split at h
      · next was hwas => exact Or.inl (hset hwas (read_fileId nr was len) h)
      · exact Or.inl (hkept h)
  | seek fd' offset whence =>
      simp only [answer] at h
      split at h
      · next was hwas => exact Or.inl (hset hwas (seek_fileId nr was offset whence) h)
      · exact Or.inl (hkept h)
  | fstat fd' =>
      simp only [answer] at h
      split at h <;> exact Or.inl (hkept h)
  | stat path => exact Or.inl (hkept h)
  | diropen dd path =>
      simp only [answer] at h
      split at h <;> exact Or.inl (hkept h)
  | dirreset dd =>
      simp only [answer] at h
      split at h <;> exact Or.inl (hkept h)
  | dirnext dd =>
      simp only [answer] at h
      split at h <;> exact Or.inl (hkept h)

theorem answer_log (nr : NitroRom ι) (s : Session ι) (c : Call) :
    (answer nr s c).1.log = s.log ∨
      ∃ fd path flags fil, c = .openFile fd path flags ∧
        openFile nr s.cwd path flags = .ok fil ∧
        (answer nr s c).1.log = s.log ++ [.opened (nr.resolvePath s.cwd (stripDevice path))] := by
  cases c with
  | openFile fd path flags =>
      cases hopen : openFile nr s.cwd path flags with
      | ok fil => exact Or.inr ⟨fd, path, flags, fil, rfl, hopen, by simp [answer, hopen]; rfl⟩
      | error e => exact Or.inl (by simp [answer, hopen])
  | stat path => exact Or.inl rfl
  | _ =>
      left
      simp only [answer]
      split <;> rfl

theorem step_log : ((session nr).step s c).1.log =
    (answer nr s c).1.log ++ (asks nr s c).map .asked := rfl

theorem step_files : ((session nr).step s c).1.files = (answer nr s c).1.files := rfl

theorem log_step {e : RomEvent} (he : e ∈ s.log) : e ∈ ((session nr).step s c).1.log := by
  rw [step_log, List.mem_append]
  left
  rcases answer_log nr s c with heq | ⟨_, _, _, _, _, _, heq⟩
  · rwa [heq]
  · rw [heq, List.mem_append]
    exact Or.inl he

theorem log_run {e : RomEvent} (calls : List Call) (he : e ∈ s.log) :
    e ∈ ((session nr).run s calls).log :=
  (session nr).run_invariant (e ∈ ·.log) (fun _ _ => log_step) calls he

end OneCall

/-! ## The record is complete -/

def NitroRom.withFiles (nr : NitroRom ι) (getFileSize : Nat → Nat)
    (readFile : Nat → Nat → Nat → Option (List UInt8)) : NitroRom ι :=
  { nr with getFileSize := getFileSize, readFile := readFile }

section Congruence

variable {nr : NitroRom ι} {getFileSize : Nat → Nat}
  {readFile : Nat → Nat → Nat → Option (List UInt8)}

theorem setStat_withFiles (readFile : Nat → Nat → Nat → Option (List UInt8)) (id : Nat)
    (h : ∀ i ∈ setStatAsks nr id, getFileSize i = nr.getFileSize i) :
    setStat (nr.withFiles getFileSize readFile) id = setStat nr id := by
  unfold setStat
  by_cases hdir : id ≥ nr.rootDir
  · rw [if_pos hdir]
    exact if_pos hdir
  · have hsize : getFileSize id = nr.getFileSize id := h id (by simp [setStatAsks, hdir])
    rw [if_neg hdir, ← hsize]
    exact if_neg hdir

theorem read_withFiles {fil : NitroFile} {len : Nat}
    (hsize : getFileSize fil.fileId = nr.getFileSize fil.fileId)
    (hread : readFile fil.fileId = nr.readFile fil.fileId) :
    read (nr.withFiles getFileSize readFile) fil len = read nr fil len := by
  simp only [read, NitroRom.withFiles, hsize, hread]

theorem seek_withFiles {fil : NitroFile} {offset : Int} {whence : Whence}
    (hsize : getFileSize fil.fileId = nr.getFileSize fil.fileId) :
    seek (nr.withFiles getFileSize readFile) fil offset whence = seek nr fil offset whence := by
  simp only [seek, NitroRom.withFiles, hsize]

theorem dirnext_withFiles (readFile : Nat → Nat → Nat → Option (List UInt8)) (d : NitroDir ι)
    (h : ∀ i ∈ dirnextAsks nr d, getFileSize i = nr.getFileSize i) :
    dirnext (nr.withFiles getFileSize readFile) d = dirnext nr d := by
  by_cases hdot : d.itPos = 0
  · have hset := setStat_withFiles readFile d.dirId
      fun i hi => h i (by simpa [dirnextAsks, hdot] using hi)
    simp only [dirnext, hdot, if_true, hset]
    rfl
  · by_cases hparent : d.itPos = 1
    · have hset := setStat_withFiles readFile (nr.getParentDir d.dirId)
        fun i hi => h i (by simpa [dirnextAsks, hparent] using hi)
      simp only [dirnext, hparent, Nat.one_ne_zero, if_false, if_true]
      exact Prod.ext rfl (congrArg (fun st => Except.ok (dotDot, st)) hset)
    · cases hit : (nr.readIter d.it).2 with
      | error e => simp only [dirnext, hdot, hparent, if_false, NitroRom.withFiles, hit]
      | ok ent =>
          have hset := setStat_withFiles readFile ent.id
            fun i hi => h i (by simpa [dirnextAsks, hdot, hparent, hit] using hi)
          simp only [dirnext, hdot, hparent, if_false, NitroRom.withFiles, hit]
          exact Prod.ext rfl (congrArg (fun st => Except.ok (ent.name, st)) hset)

theorem stat_withFiles (readFile : Nat → Nat → Nat → Option (List UInt8)) (cwd : Nat) (path : Name)
    (h : ∀ i ∈ statAsks nr cwd path, getFileSize i = nr.getFileSize i) :
    stat (nr.withFiles getFileSize readFile) cwd path = stat nr cwd path := by
  rw [stat, stat]
  by_cases hneg : nr.resolvePath cwd (stripDevice path) < 0
  · exact (if_pos hneg).trans (if_pos hneg).symm
  · have hset := setStat_withFiles readFile (u16 (nr.resolvePath cwd (stripDevice path)).toNat)
      fun i hi => h i (by simpa [statAsks, hneg] using hi)
    exact (if_neg hneg).trans ((congrArg Except.ok hset).trans (if_neg hneg).symm)

theorem step_withFiles {s : Session ι} {c : Call}
    (h : ∀ id ∈ asks nr s c, getFileSize id = nr.getFileSize id ∧ readFile id = nr.readFile id) :
    (session (nr.withFiles getFileSize readFile)).step s c = (session nr).step s c := by
  cases c with
  | chdir path => rfl
  | openFile fd path flags => rfl
  | diropen dd path => rfl
  | dirreset dd => rfl
  | read fd len =>
      cases hfd : s.files fd with
      | none => simp [session, answer, asks, hfd]
      | some fil =>
          have hfil := h fil.fileId (by simp [asks, hfd, readAsks])
          have hans : answer (nr.withFiles getFileSize readFile) s (.read fd len) =
              answer nr s (.read fd len) := by
            simp only [answer, hfd]
            rw [read_withFiles hfil.1 hfil.2]
          have hasks : asks (nr.withFiles getFileSize readFile) s (.read fd len) =
              asks nr s (.read fd len) := by
            simp only [asks, hfd, Option.elim_some, readAsks, NitroRom.withFiles, hfil.1]
          simp only [session, hans, hasks]
  | seek fd offset whence =>
      cases hfd : s.files fd with
      | none => simp [session, answer, asks, hfd]
      | some fil =>
          have hfil := h fil.fileId (by simp [asks, hfd, seekAsks])
          have hans : answer (nr.withFiles getFileSize readFile) s (.seek fd offset whence) =
              answer nr s (.seek fd offset whence) := by
            simp only [answer, hfd]
            rw [seek_withFiles hfil.1]
          simp only [session, hans, asks, hfd]
  | fstat fd =>
      cases hfd : s.files fd with
      | none => simp [session, answer, asks, hfd]
      | some fil =>
          have hstat : setStat (nr.withFiles getFileSize readFile) fil.fileId =
              setStat nr fil.fileId :=
            setStat_withFiles readFile _ fun i hi => (h i (by simpa [asks, hfd] using hi)).1
          simp only [session, answer, hfd, fstat, hstat]
          rfl
  | stat path =>
      have hstat := stat_withFiles readFile s.cwd path fun i hi => (h i hi).1
      simp only [session, answer, hstat]
      rfl
  | dirnext dd =>
      cases hdd : s.dirs dd with
      | none => simp [session, answer, asks, hdd]
      | some d =>
          have hnext := dirnext_withFiles readFile d
            fun i hi => (h i (by simpa [asks, hdd] using hi)).1
          simp only [session, answer, hdd, hnext]
          rfl

/-- A session is the same over any two ROMs that agree on the ids it asks about. -/
theorem run_withFiles {s : Session ι} {calls : List Call}
    (h : ∀ id, .asked id ∈ ((session nr).run s calls).log →
      getFileSize id = nr.getFileSize id ∧ readFile id = nr.readFile id) :
    (session (nr.withFiles getFileSize readFile)).run s calls = (session nr).run s calls ∧
      (session (nr.withFiles getFileSize readFile)).answers s calls =
        (session nr).answers s calls := by
  induction calls generalizing s with
  | nil => simp only [Machine.run_nil, Machine.answers_nil, and_self]
  | cons c calls ih =>
      have hfirst : (session (nr.withFiles getFileSize readFile)).step s c =
          (session nr).step s c := by
        refine step_withFiles fun id hid => h id (log_run calls ?_)
        rw [step_log, List.mem_append]
        exact Or.inr (List.mem_map_of_mem hid)
      obtain ⟨hrun, hanswers⟩ := ih (s := ((session nr).step s c).1) h
      constructor
      · rw [Machine.run_cons, Machine.run_cons, hfirst, hrun]
      · rw [Machine.answers_cons, Machine.answers_cons, hfirst, hanswers]

end Congruence

/-! ## Files only -/

structure FilesOnly (nr : NitroRom ι) (s : Session ι) : Prop where
  asked : ∀ id, .asked id ∈ s.log → id < nr.rootDir
  opened : ∀ id : Int, .opened id ∈ s.log → id < nr.rootDir

def Call.opensDirectory (nr : NitroRom ι) (s : Session ι) : Call → Bool
  | .openFile _ path flags =>
      flags &&& 3 == 0 && decide ((nr.rootDir : Int) ≤ nr.resolvePath s.cwd (stripDevice path))
  | _ => false

/-- All descriptors are open on files, and so far nothing else has been touched. -/
structure FileSession (nr : NitroRom ι) (s : Session ι) : Prop where
  only : FilesOnly nr s
  files : ∀ fd fil, s.files fd = some fil → fil.fileId < nr.rootDir

def DirectoryOpened (nr : NitroRom ι) (s : Session ι) : Prop :=
  ∃ id, .opened id ∈ s.log ∧ (nr.rootDir : Int) ≤ id

theorem setStatAsks_below {nr : NitroRom ι} {file id : Nat} (h : id ∈ setStatAsks nr file) :
    id < nr.rootDir := by
  unfold setStatAsks at h
  split at h
  · cases h
  · rw [List.mem_singleton] at h
    omega

theorem readAsks_eq {nr : NitroRom ι} {fil : NitroFile} {len id : Nat}
    (h : id ∈ readAsks nr fil len) : id = fil.fileId := by
  rw [readAsks, List.mem_cons] at h
  rcases h with heq | h
  · exact heq
  · generalize (if len < secSub (nr.getFileSize fil.fileId) fil.pos then len
      else secSub (nr.getFileSize fil.fileId) fil.pos) = n at h
    split at h
    · cases h
    · exact List.mem_singleton.mp h

theorem dirnextAsks_below {nr : NitroRom ι} {d : NitroDir ι} {id : Nat}
    (h : id ∈ dirnextAsks nr d) : id < nr.rootDir := by
  unfold dirnextAsks at h
  split at h
  · exact setStatAsks_below h
  · split at h
    · exact setStatAsks_below h
    · split at h
      · exact setStatAsks_below h
      · cases h

theorem asks_below {nr : NitroRom ι} {s : Session ι}
    (hfiles : ∀ fd fil, s.files fd = some fil → fil.fileId < nr.rootDir) (c : Call) {id : Nat}
    (h : id ∈ asks nr s c) : id < nr.rootDir := by
  cases c with
  | chdir path => cases h
  | openFile fd path flags => cases h
  | diropen dd path => cases h
  | dirreset dd => cases h
  | read fd len =>
      cases hfd : s.files fd with
      | none => simp [asks, hfd] at h
      | some fil =>
          simp only [asks, hfd, Option.elim_some] at h
          rw [readAsks_eq h]
          exact hfiles fd fil hfd
  | seek fd offset whence =>
      cases hfd : s.files fd with
      | none => simp [asks, hfd] at h
      | some fil =>
          simp only [asks, hfd, Option.elim_some, seekAsks, List.mem_singleton] at h
          rw [h]
          exact hfiles fd fil hfd
  | fstat fd =>
      cases hfd : s.files fd with
      | none => simp [asks, hfd] at h
      | some fil =>
          simp only [asks, hfd, Option.elim_some] at h
          exact setStatAsks_below h
  | stat path =>
      simp only [asks, statAsks] at h
      split at h
      · cases h
      · exact setStatAsks_below h
  | dirnext dd =>
      cases hdd : s.dirs dd with
      | none => simp [asks, hdd] at h
      | some d =>
          simp only [asks, hdd, Option.elim_some] at h
          exact dirnextAsks_below h

theorem not_opensDirectory {nr : NitroRom ι} {s : Session ι} {fd : Nat} {path : Name}
    {flags : Nat} {fil : NitroFile} (hopen : openFile nr s.cwd path flags = .ok fil) :
    (Call.openFile fd path flags).opensDirectory nr s = false ↔
      nr.resolvePath s.cwd (stripDevice path) < nr.rootDir := by
  simp [Call.opensDirectory, (openFile_ok.mp hopen).1]

theorem FileSession.step {nr : NitroRom ι} {s : Session ι} (c : Call) (h : FileSession nr s)
    (hc : c.opensDirectory nr s = false) : FileSession nr ((session nr).step s c).1 := by
  refine ⟨⟨?_, ?_⟩, ?_⟩
  · intro id hid
    rw [step_log, List.mem_append] at hid
    rcases hid with hid | hid
    · rcases answer_log nr s c with heq | ⟨_, _, _, _, _, _, heq⟩
      · rw [heq] at hid
        exact h.only.asked id hid
      · rw [heq] at hid
        exact h.only.asked id (by simpa using hid)
    · exact asks_below h.files c (by simpa using hid)
  · intro id hid
    rw [step_log, List.mem_append] at hid
    rcases hid with hid | hid
    · rcases answer_log nr s c with
        heq | ⟨fd, path, flags, fil, rfl, hopen, heq⟩
      · rw [heq] at hid
        exact h.only.opened id hid
      · rw [heq, List.mem_append, List.mem_singleton] at hid
        rcases hid with hid | hid
        · exact h.only.opened id hid
        · rw [RomEvent.opened.inj hid]
          exact (not_opensDirectory hopen).mp hc
    · simp at hid
  · intro fd fil hfil
    rw [step_files] at hfil
    rcases answer_files hfil with ⟨was, hwas, hid⟩ | ⟨path, flags, rfl, hopen⟩
    · rw [hid]
      exact h.files fd was hwas
    · have hlt := (not_opensDirectory hopen).mp hc
      obtain ⟨-, hnonneg, rfl⟩ := openFile_ok.mp hopen
      have hle : u16 (nr.resolvePath s.cwd (stripDevice path)).toNat ≤
          (nr.resolvePath s.cwd (stripDevice path)).toNat := Nat.mod_le _ _
      show u16 (nr.resolvePath s.cwd (stripDevice path)).toNat < nr.rootDir
      omega

theorem directoryOpened_step {nr : NitroRom ι} {s : Session ι} {c : Call}
    (hc : c.opensDirectory nr s = true) : DirectoryOpened nr ((session nr).step s c).1 := by
  cases c with
  | openFile fd path flags =>
      simp only [Call.opensDirectory, Bool.and_eq_true, beq_iff_eq, decide_eq_true_eq] at hc
      obtain ⟨hmode, hdir⟩ := hc
      have hopen : openFile nr s.cwd path flags =
          .ok ⟨0, u16 (nr.resolvePath s.cwd (stripDevice path)).toNat⟩ :=
        openFile_ok.mpr ⟨hmode, by omega, rfl⟩
      refine ⟨nr.resolvePath s.cwd (stripDevice path), ?_, hdir⟩
      rw [step_log, List.mem_append]
      left
      simp [answer, hopen, Session.record]
  | _ => contradiction

/-- A session hands the library ids of files only, and opens files only, exactly when no
path that leads to a directory is opened as a file. -/
theorem session_files_only (nr : NitroRom ι) (calls : List Call) :
    FilesOnly nr ((session nr).run (mounted nr) calls) ↔
      (session nr).Throughout (fun s c => c.opensDirectory nr s = false) (mounted nr) calls := by
  refine (session nr).run_iff_throughout _ (FileSession nr) (DirectoryOpened nr) (FilesOnly nr)
    (fun _ c h hc => h.step c hc) ?_ ?_ (fun _ h => h.only) ?_ calls ?_
  · intro s c _ hc
    exact directoryOpened_step (by simpa using hc)
  · rintro s c ⟨id, hid, hdir⟩
    exact ⟨id, log_step hid, hdir⟩
  · rintro s ⟨id, hid, hdir⟩ honly
    have := honly.opened id hid
    omega
  · refine ⟨⟨?_, ?_⟩, ?_⟩
    · intro id hid
      cases hid
    · intro id hid
      cases hid
    · intro fd fil hfil
      cases hfil

/-- A session on files only is the same whatever the library would say about directories. -/
theorem FilesOnly.run_withFiles {nr : NitroRom ι} {getFileSize : Nat → Nat}
    {readFile : Nat → Nat → Nat → Option (List UInt8)} {calls : List Call}
    (h : FilesOnly nr ((session nr).run (mounted nr) calls))
    (hagree : ∀ id < nr.rootDir, getFileSize id = nr.getFileSize id ∧
      readFile id = nr.readFile id) :
    (session (nr.withFiles getFileSize readFile)).run (mounted nr) calls =
        (session nr).run (mounted nr) calls ∧
      (session (nr.withFiles getFileSize readFile)).answers (mounted nr) calls =
        (session nr).answers (mounted nr) calls :=
  NitroFs.run_withFiles fun id hid => hagree id (h.asked id hid)

/-- The directory "d" of the sample opens as a file, and a read asks for its size. -/
theorem directory_opened_as_file :
    ((session sampleRom).run (mounted sampleRom) [.openFile 0 [0x64] 0, .read 0 4]).log =
        [.opened 0xf001, .asked 0xf001, .asked 0xf001] ∧
      ¬ FilesOnly sampleRom
        ((session sampleRom).run (mounted sampleRom) [.openFile 0 [0x64] 0, .read 0 4]) := by
  have hlog :
      ((session sampleRom).run (mounted sampleRom) [.openFile 0 [0x64] 0, .read 0 4]).log =
        [.opened 0xf001, .asked 0xf001, .asked 0xf001] := by
    decide +kernel
  refine ⟨hlog, ?_⟩
  intro honly
  have := honly.asked 0xf001 (by rw [hlog]; simp)
  revert this
  decide

end LibDvm.NitroFs
