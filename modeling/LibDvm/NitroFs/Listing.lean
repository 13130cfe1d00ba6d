import LibDvm.NitroFs.Model
import Mathlib.Tactic.Common

/-! # Directory listings

What a caller gets who opens a directory and asks for its next entry until there is
none, also after a reset at any point. The open call never records which directory it
has opened, so that every listing begins with the attributes of the file with id 0.
-/

namespace LibDvm.NitroFs

variable {ι : Type} (nr : NitroRom ι) (children : Nat → List NitroRomIterEntry)

/-! ## The iterator of the ROM library -/

/-- An iterator opened on directory `id`, at any point of its life. -/
inductive IterOf (id : Nat) : ι → Prop where
  | opened : IterOf id (nr.openIter id)
  | read {it : ι} (h : IterOf id it) : IterOf id (nr.readIter it).1
  | rewound {it : ι} (h : IterOf id it) : IterOf id (nr.rewindIter it)

/-- The iterator hands out every child of a directory once, again after a rewind. -/
structure Iterates : Prop where
  opened : ∀ id, nr.rootDir ≤ id → Pulls nr.readIter (nr.openIter id) (children id) ()
  rewound : ∀ id it, nr.rootDir ≤ id → IterOf nr id it →
    Pulls nr.readIter (nr.rewindIter it) (children id) ()

/-! ## What a listing has to be -/

def childEntries (id : Nat) : List (Name × Stat) :=
  (children id).map fun ent => (ent.name, setStat nr ent.id)

def expectedListing (id : Nat) : List (Name × Stat) :=
  (dot, setStat nr id) ::
    ((if id ≠ nr.rootDir then [(dotDot, setStat nr (nr.getParentDir id))] else []) ++
      childEntries nr children id)

/-- From `d` on, and again after a reset at any point, exactly these entries follow. -/
structure Lists (d : NitroDir ι) (entries : List (Name × Stat)) : Prop where
  listing : Pulls (dirnext nr) d entries .enoent
  again : ∀ n ≤ entries.length,
    Pulls (dirnext nr) (dirreset nr (pulled (dirnext nr) n d)) entries .enoent

/-! ## What the code lists -/

/-- A directory descriptor as `_nitroFS_diropen_r` leaves it and the other calls keep it. -/
structure OpenOn (id : Nat) (d : NitroDir ι) : Prop where
  iter : IterOf nr id d.it
  dirId : d.dirId = 0
  itPos : d.itPos = 0 ∨ d.itPos = 2

theorem diropen_open {cwd : Nat} {path : Name} {d : NitroDir ι}
    (h : diropen nr cwd path = .ok d) :
    ∃ id, resolveDir nr cwd path = .ok id ∧ nr.rootDir ≤ id ∧ d = ⟨nr.openIter id, 0, 0⟩ := by
  unfold diropen at h
  cases hdir : resolveDir nr cwd path with
  | error e =>
      rw [hdir] at h
      contradiction
  | ok id =>
      rw [hdir] at h
      cases h
      refine ⟨id, rfl, ?_, rfl⟩
      unfold resolveDir at hdir
      simp only at hdir
      split at hdir
      · contradiction
      · cases hdir
        omega

theorem dirnext_open {id : Nat} {d : NitroDir ι} (hd : OpenOn nr id d) :
    OpenOn nr id (dirnext nr d).1 := by
  have hnot : ¬ d.dirId > nr.rootDir := by
    rw [hd.dirId]
    omega
  unfold dirnext
  rcases hd.itPos with hzero | htwo
  · rw [if_pos hzero, if_neg hnot]
    exact ⟨hd.iter, hd.dirId, Or.inr rfl⟩
  · rw [if_neg (by omega), if_neg (by omega)]
    simp only
    split
    · exact ⟨hd.iter.read, hd.dirId, Or.inr htwo⟩
    · exact ⟨hd.iter.read, hd.dirId, Or.inr htwo⟩

theorem pulled_open {id : Nat} (n : Nat) {d : NitroDir ι} (hd : OpenOn nr id d) :
    OpenOn nr id (pulled (dirnext nr) n d) := by
  induction n generalizing d with
  | zero => exact hd
  | succ n ih => exact ih (dirnext_open nr hd)

theorem children_listed {id : Nat} {d : NitroDir ι} (hpos : d.itPos = 2)
    (hiter : Pulls nr.readIter d.it (children id) ()) :
    Pulls (dirnext nr) d (childEntries nr children id) .enoent := by
  refine hiter.simulates (fun it (d : NitroDir ι) => d.it = it ∧ d.itPos = 2)
    (fun ent => (ent.name, setStat nr ent.id)) (fun _ => Errno.enoent) ?_ ?_ ⟨rfl, hpos⟩
  · rintro it d ent ⟨rfl, htwo⟩ hok
    simp [dirnext, htwo, hok]
  · rintro it d e ⟨rfl, htwo⟩ hend
    simp [dirnext, htwo, hend]

/-- The listing of a freshly opened or reset descriptor: one fake entry, with the
attributes of id 0, and the children. -/
theorem fresh_listed {id : Nat} {d : NitroDir ι} (hid : d.dirId = 0) (hpos : d.itPos = 0)
    (hiter : Pulls nr.readIter d.it (children id) ()) :
    Pulls (dirnext nr) d ((dot, setStat nr 0) :: childEntries nr children id) .enoent := by
  have hnext : dirnext nr d = ({ d with itPos := 2 }, .ok (dot, setStat nr 0)) := by
    simp [dirnext, hpos, hid]
  apply Pulls.item
  · rw [hnext]
  · rw [hnext]
    exact children_listed nr children rfl hiter

/-- What `_nitroFS_diropen_r` and `_nitroFS_dirnext_r` list for every directory. -/
theorem diropen_lists (hrom : Iterates nr children) {cwd : Nat} {path : Name} {d : NitroDir ι}
    (h : diropen nr cwd path = .ok d) :
    ∃ id, resolveDir nr cwd path = .ok id ∧
      Lists nr d ((dot, setStat nr 0) :: childEntries nr children id) := by
  obtain ⟨id, hdir, hroot, rfl⟩ := diropen_open nr h
  refine ⟨id, hdir, ?_, ?_⟩
  · exact fresh_listed nr children rfl rfl (hrom.opened id hroot)
  · intro n _
    have hopen : OpenOn nr id (pulled (dirnext nr) n ⟨nr.openIter id, 0, 0⟩) :=
      pulled_open nr n ⟨.opened, rfl, Or.inl rfl⟩
    exact fresh_listed nr children (d := dirreset nr _) hopen.dirId rfl
      (hrom.rewound id _ hroot hopen.iter)

/-! ## The listing is wrong for every directory -/

theorem setStat_ino (id : Nat) : (setStat nr id).ino = id := by
  unfold setStat
  split <;> rfl

/-- No directory is listed as it has to be: its first entry carries id 0, which is not
the id of a directory. -/
theorem directory_never_listed (hroot : 0 < nr.rootDir) (cwd : Nat) (path : Name)
    (d : NitroDir ι) (id : Nat) (hopen : diropen nr cwd path = .ok d)
    (hid : resolveDir nr cwd path = .ok id) :
    ¬ Lists nr d (expectedListing nr children id) := by
  intro hlists
  obtain ⟨id', hdir, hle, rfl⟩ := diropen_open nr hopen
  obtain rfl : id' = id := by
    rw [hdir] at hid
    exact Except.ok.inj hid
  have hfirst := hlists.listing
  cases hfirst with
  | item hok _ =>
      have hstat : setStat nr 0 = setStat nr id' := by
        simpa [dirnext] using hok
      have hino := congrArg Stat.ino hstat
      rw [setStat_ino, setStat_ino] at hino
      omega

def sampleChildren (id : Nat) : List NitroRomIterEntry :=
  if id = 0xf000 then [⟨0, [0x61]⟩, ⟨0xf001, [0x64]⟩] else if id = 0xf001 then [⟨1, [0x62]⟩] else []

def sampleRom : NitroRom (Nat × List NitroRomIterEntry) where
  rootDir := 0xf000
  resolvePath cwd path :=
    if path = [] then cwd
    else match (sampleChildren cwd).find? fun ent => ent.name = path with
      | some ent => ent.id
      | none => -1
  getFileSize _ := 5
  readFile _ _ len := some (List.replicate len 0)
  getParentDir _ := 0xf000
  openIter id := (id, sampleChildren id)
  rewindIter it := (it.1, sampleChildren it.1)
  readIter it :=
    match it.2 with
    | [] => (it, .error ())
    | ent :: rest => ((it.1, rest), .ok ent)

theorem sampleRom_pulls (id : Nat) (rest : List NitroRomIterEntry) :
    Pulls sampleRom.readIter (id, rest) rest () := by
  induction rest with
  | nil => exact .stop rfl
  | cons ent rest ih => exact .item rfl ih

theorem sampleRom_iterOf {id : Nat} {it : Nat × List NitroRomIterEntry}
    (h : IterOf sampleRom id it) : it.1 = id := by
  induction h with
  | opened => rfl
  | @read it _ ih =>
      rw [← ih]
      rcases it with ⟨dir, _ | ⟨ent, rest⟩⟩ <;> rfl
  | rewound _ ih => exact ih

theorem sampleRom_iterates : Iterates sampleRom sampleChildren where
  opened id _ := sampleRom_pulls id (sampleChildren id)
  rewound id it _ h := by
    obtain rfl := sampleRom_iterOf h
    exact sampleRom_pulls it.1 (sampleChildren it.1)

theorem directory_never_listed_sample :
    ¬ Lists sampleRom ⟨(0xf001, sampleChildren 0xf001), 0, 0⟩
      (expectedListing sampleRom sampleChildren 0xf001) :=
  directory_never_listed sampleRom sampleChildren (by decide) 0xf000 [0x64] _ 0xf001 rfl rfl

/-- The directory "d" of the sample: its listing begins with a regular file of id 0 and
has no "..", where a directory with its own id and then its parent have to come. -/
theorem subdirectory_listed_wrong :
    diropen sampleRom 0xf000 [0x64] = .ok ⟨(0xf001, [⟨1, [0x62]⟩]), 0, 0⟩ ∧
      Lists sampleRom ⟨(0xf001, [⟨1, [0x62]⟩]), 0, 0⟩
        [(dot, ⟨0, 0o100444, 1, 1, 2, 5⟩), ([0x62], ⟨1, 0o100444, 1, 1, 2, 5⟩)] ∧
      expectedListing sampleRom sampleChildren 0xf001 =
        [(dot, ⟨0xf001, 0o40777, 1, 1, 2, 0⟩), (dotDot, ⟨0xf000, 0o40777, 1, 1, 2, 0⟩),
          ([0x62], ⟨1, 0o100444, 1, 1, 2, 5⟩)] ∧
      ¬ Lists sampleRom ⟨(0xf001, [⟨1, [0x62]⟩]), 0, 0⟩
        (expectedListing sampleRom sampleChildren 0xf001) := by
  refine ⟨rfl, ?_, by decide, ?_⟩
  · obtain ⟨id, hid, hlists⟩ := diropen_lists sampleRom sampleChildren sampleRom_iterates
      (show diropen sampleRom 0xf000 [0x64] = .ok ⟨(0xf001, [⟨1, [0x62]⟩]), 0, 0⟩ from rfl)
    cases hid
    exact hlists
  · intro hlists
    cases hlists.listing with
    | item hok _ =>
        have hstat := congrArg Stat.ino (congrArg Prod.snd (Except.ok.inj hok))
        revert hstat
        decide

end LibDvm.NitroFs
