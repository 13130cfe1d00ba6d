import LibDvm.Cache.Rep

/-! # The operations one by one

Each operation of the cache is inverted once into what it can do: the flush of an
entry, the load of a page, the fill of a victim and the hit. From these follow the
fields it leaves alone and what it does to the representation invariant, whatever
the inner disc answers.
-/

namespace LibDvm.Cache

open NodeList Store

variable {α : Type} {c : DvmDiscCache α} {A U : List Nat}

/-! ## What never changes -/

/-- The fields no call changes: geometry, buffers, and the verdicts to come. -/
structure Same (c c' : DvmDiscCache α) : Prop where
  base : c'.base = c.base
  shift : c'.pageShift = c.pageShift
  pages : c'.numPages = c.numPages
  data : c'.data = c.data
  dataSz : c'.dataSz = c.dataSz
  readFault : c'.inner.readFault = c.inner.readFault
  writeFault : c'.inner.writeFault = c.inner.writeFault
  flushFault : c'.inner.flushFault = c.inner.flushFault

theorem Same.refl (c : DvmDiscCache α) : Same c c := ⟨rfl, rfl, rfl, rfl, rfl, rfl, rfl, rfl⟩

theorem Same.trans {c₁ c₂ c₃ : DvmDiscCache α} (h₁ : Same c₁ c₂) (h₂ : Same c₂ c₃) :
    Same c₁ c₃ where
  base := h₂.base.trans h₁.base
  shift := h₂.shift.trans h₁.shift
  pages := h₂.pages.trans h₁.pages
  data := h₂.data.trans h₁.data
  dataSz := h₂.dataSz.trans h₁.dataSz
  readFault := h₂.readFault.trans h₁.readFault
  writeFault := h₂.writeFault.trans h₁.writeFault
  flushFault := h₂.flushFault.trans h₁.flushFault

theorem Same.symm {c₁ c₂ : DvmDiscCache α} (h : Same c₁ c₂) : Same c₂ c₁ where
  base := h.base.symm
  shift := h.shift.symm
  pages := h.pages.symm
  data := h.data.symm
  dataSz := h.dataSz.symm
  readFault := h.readFault.symm
  writeFault := h.writeFault.symm
  flushFault := h.flushFault.symm

theorem Same.pageSz {c c' : DvmDiscCache α} (h : Same c c') : c'.pageSz = c.pageSz := by
  rw [DvmDiscCache.pageSz, DvmDiscCache.pageSz, h.shift]

theorem Rep.frame {c' : DvmDiscCache α} (h : Rep c A U) (hs : Same c c')
    (hlinks : c'.links = c.links) (hentries : c'.entries = c.entries) : Rep c' A U where
  linked := by rw [hlinks]; exact h.linked
  visits := by rw [hs.pages]; exact h.visits
  allocated := by rw [hs.pageSz, hs.base, hentries]; exact h.allocated
  free := by rw [hs.pageSz, hentries]; exact h.free
  page_le := by rw [hs.pageSz]; exact h.page_le
  pos := by rw [hs.pages]; exact h.pos

/-! ## Inner transfers -/

section Transfers

variable (d : InnerDisc α) (mem : Nat → α) (off first count : Nat)

theorem dvmDiscWriteSectors_faults :
    (dvmDiscWriteSectors d mem off first count).1.readFault = d.readFault ∧
      (dvmDiscWriteSectors d mem off first count).1.writeFault = d.writeFault ∧
      (dvmDiscWriteSectors d mem off first count).1.flushFault = d.flushFault := by
  unfold dvmDiscWriteSectors
  cases d.writeFault d.calls <;> exact ⟨rfl, rfl, rfl⟩

theorem dvmDiscReadSectors_inner :
    (dvmDiscReadSectors d mem off first count).1 = { d with calls := d.calls + 1 } := by
  unfold dvmDiscReadSectors
  cases d.readFault d.calls <;> rfl

theorem dvmDiscReadSectors_faults :
    (dvmDiscReadSectors d mem off first count).1.readFault = d.readFault ∧
      (dvmDiscReadSectors d mem off first count).1.writeFault = d.writeFault ∧
      (dvmDiscReadSectors d mem off first count).1.flushFault = d.flushFault := by
  rw [dvmDiscReadSectors_inner]
  exact ⟨rfl, rfl, rfl⟩

variable {d mem off first count}

theorem dvmDiscWriteSectors_outside {s : Nat} (hs : s < first ∨ first + count ≤ s) :
    (dvmDiscWriteSectors d mem off first count).1.sectors s = d.sectors s := by
  unfold dvmDiscWriteSectors
  cases d.writeFault d.calls <;> exact blit_outside hs

theorem dvmDiscWriteSectors_blit (hok : (dvmDiscWriteSectors d mem off first count).2 = true) :
    (dvmDiscWriteSectors d mem off first count).1.sectors = blit d.sectors first mem off count := by
  unfold dvmDiscWriteSectors at hok ⊢
  cases hf : d.writeFault d.calls with
  | none => rfl
  | some junk => simp [hf] at hok

theorem dvmDiscWriteSectors_inside (hok : (dvmDiscWriteSectors d mem off first count).2 = true)
    {s : Nat} (hs : first ≤ s ∧ s < first + count) :
    (dvmDiscWriteSectors d mem off first count).1.sectors s = mem (off + (s - first)) := by
  rw [dvmDiscWriteSectors_blit hok, blit_inside hs.1 hs.2]

theorem dvmDiscReadSectors_outside {i : Nat} (hi : i < off ∨ off + count ≤ i) :
    (dvmDiscReadSectors d mem off first count).2.1 i = mem i := by
  unfold dvmDiscReadSectors
  cases d.readFault d.calls <;> exact blit_outside hi

theorem dvmDiscReadSectors_blit (hok : (dvmDiscReadSectors d mem off first count).2.2 = true) :
    (dvmDiscReadSectors d mem off first count).2.1 = blit mem off d.sectors first count := by
  unfold dvmDiscReadSectors at hok ⊢
  cases hf : d.readFault d.calls with
  | none => rfl
  | some junk => simp [hf] at hok

theorem dvmDiscReadSectors_inside (hok : (dvmDiscReadSectors d mem off first count).2.2 = true)
    {i : Nat} (hi : off ≤ i ∧ i < off + count) :
    (dvmDiscReadSectors d mem off first count).2.1 i = d.sectors (first + (i - off)) := by
  rw [dvmDiscReadSectors_blit hok, blit_inside hi.1 hi.2]

end Transfers

/-! ## Flushing one entry -/

def flushWrite (c : DvmDiscCache α) (p : Nat) : InnerDisc α × Bool :=
  dvmDiscWriteSectors c.inner c.cells (entryCell c p + (c.entries p).dirtyStart)
    (secWrap ((c.entries p).baseSector + (c.entries p).dirtyStart))
    ((c.entries p).dirtyEnd - (c.entries p).dirtyStart)

def flushAccess (c : DvmDiscCache α) (p : Nat) : Access :=
  .transfer true
    (.slot p (dvmDiscCacheEntryGetData c p + (c.entries p).dirtyStart * c.base.sectorSz))
    (secWrap ((c.entries p).baseSector + (c.entries p).dirtyStart))
    ((c.entries p).dirtyEnd - (c.entries p).dirtyStart)

theorem dvmDiscCacheEntryFlush_cases (c : DvmDiscCache α) (p : Nat) :
    ((c.entries p).dirtyEnd ≤ (c.entries p).dirtyStart ∧
        dvmDiscCacheEntryFlush c p = (c, true)) ∨
      ((c.entries p).dirtyStart < (c.entries p).dirtyEnd ∧ (flushWrite c p).2 = true ∧
        dvmDiscCacheEntryFlush c p =
          (({ c with inner := (flushWrite c p).1 }.logged (flushAccess c p)).setDirty p
            c.pageSz 0, true)) ∨
      ((c.entries p).dirtyStart < (c.entries p).dirtyEnd ∧ (flushWrite c p).2 = false ∧
        dvmDiscCacheEntryFlush c p =
          ({ c with inner := (flushWrite c p).1 }.logged (flushAccess c p), false)) := by
  unfold dvmDiscCacheEntryFlush
  by_cases hclean : (c.entries p).dirtyStart ≥ (c.entries p).dirtyEnd
  · exact .inl ⟨hclean, if_pos hclean⟩
  · right
    have hlt : (c.entries p).dirtyStart < (c.entries p).dirtyEnd := Nat.lt_of_not_le hclean
    rw [if_neg hclean]
    cases hok : (flushWrite c p).2 with
    | true => exact .inl ⟨hlt, rfl, if_pos hok⟩
    | false => exact .inr ⟨hlt, rfl, if_neg (show ¬ (flushWrite c p).2 = true by simp [hok])⟩

theorem flush_same (c : DvmDiscCache α) (p : Nat) :
    Same c (dvmDiscCacheEntryFlush c p).1 := by
  have hf := dvmDiscWriteSectors_faults c.inner c.cells
    (entryCell c p + (c.entries p).dirtyStart)
    (secWrap ((c.entries p).baseSector + (c.entries p).dirtyStart))
    ((c.entries p).dirtyEnd - (c.entries p).dirtyStart)
  rcases dvmDiscCacheEntryFlush_cases c p with ⟨_, h⟩ | ⟨_, _, h⟩ | ⟨_, _, h⟩
  · rw [h]
    exact Same.refl c
  · rw [h]
    exact ⟨rfl, rfl, rfl, rfl, rfl, hf.1, hf.2.1, hf.2.2⟩
  · rw [h]
    exact ⟨rfl, rfl, rfl, rfl, rfl, hf.1, hf.2.1, hf.2.2⟩

theorem flush_links (c : DvmDiscCache α) (p : Nat) :
    (dvmDiscCacheEntryFlush c p).1.links = c.links := by
  rcases dvmDiscCacheEntryFlush_cases c p with ⟨_, h⟩ | ⟨_, _, h⟩ | ⟨_, _, h⟩ <;> rw [h] <;> rfl

theorem flush_cells (c : DvmDiscCache α) (p : Nat) :
    (dvmDiscCacheEntryFlush c p).1.cells = c.cells := by
  rcases dvmDiscCacheEntryFlush_cases c p with ⟨_, h⟩ | ⟨_, _, h⟩ | ⟨_, _, h⟩ <;> rw [h] <;> rfl

theorem flush_base (c : DvmDiscCache α) (p q : Nat) :
    ((dvmDiscCacheEntryFlush c p).1.entries q).baseSector = (c.entries q).baseSector := by
  rcases dvmDiscCacheEntryFlush_cases c p with ⟨_, h⟩ | ⟨_, _, h⟩ | ⟨_, _, h⟩
  · rw [h]
  · rw [h]
    simp only [DvmDiscCache.setDirty, setEntry_entries]
    split
    · next heq => rw [heq]; rfl
    · rfl
  · rw [h]
    rfl

theorem flush_other {p q : Nat} (hq : q ≠ p) :
    (dvmDiscCacheEntryFlush c p).1.entries q = c.entries q := by
  rcases dvmDiscCacheEntryFlush_cases c p with ⟨_, h⟩ | ⟨_, _, h⟩ | ⟨_, _, h⟩
  · rw [h]
  · rw [h]
    exact if_neg hq
  · rw [h]
    rfl

theorem flush_failed {p : Nat} (hfail : (dvmDiscCacheEntryFlush c p).2 = false) :
    (dvmDiscCacheEntryFlush c p).1.entries = c.entries := by
  rcases dvmDiscCacheEntryFlush_cases c p with ⟨_, h⟩ | ⟨_, _, h⟩ | ⟨_, _, h⟩
  · simp [h] at hfail
  · simp [h] at hfail
  · rw [h]
    rfl

theorem Rep.flush_clean (h : Rep c A U) {p : Nat} (hp : p < c.numPages)
    (hok : (dvmDiscCacheEntryFlush c p).2 = true) :
    Clean c.pageSz ((dvmDiscCacheEntryFlush c p).1.entries p) := by
  rcases dvmDiscCacheEntryFlush_cases c p with ⟨hclean, heq⟩ | ⟨_, _, heq⟩ | ⟨_, _, heq⟩
  · rw [heq]
    rcases h.dirty hp with hc | hA
    · exact hc
    · rcases (h.allocated p hA).dirty with hc | hd
      · exact hc
      · omega
  · rw [heq]
    have hpage : u16 c.pageSz = c.pageSz := u16_of_lt (Nat.lt_of_le_of_lt h.page_le (by decide))
    have hentry : ((({ c with inner := (flushWrite c p).1 }.logged
        (flushAccess c p)).setDirty p c.pageSz 0).entries p) =
        ⟨(c.entries p).baseSector, u16 c.pageSz, u16 0⟩ := if_pos rfl
    rw [hentry, hpage]
    exact ⟨rfl, rfl⟩
  · rw [heq] at hok
    cases hok

theorem Rep.flush (h : Rep c A U) {p : Nat} (hp : p < c.numPages) :
    Rep (dvmDiscCacheEntryFlush c p).1 A U := by
  have hs := flush_same c p
  cases hok : (dvmDiscCacheEntryFlush c p).2 with
  | false => exact h.frame hs (flush_links c p) (flush_failed hok)
  | true =>
      have hclean := h.flush_clean hp hok
      refine ⟨?_, ?_, ?_, ?_, ?_, ?_⟩
      · rw [flush_links]
        exact h.linked
      · rw [hs.pages]
        exact h.visits
      · intro q hq
        rw [hs.pageSz, hs.base]
        by_cases hqp : q = p
        · subst hqp
          have hold := h.allocated q hq
          exact ⟨by rw [flush_base]; exact hold.aligned, by rw [flush_base]; exact hold.inside,
            .inl hclean⟩
        · rw [flush_other hqp]
          exact h.allocated q hq
      · intro q hq
        rw [hs.pageSz]
        by_cases hqp : q = p
        · subst hqp
          exact ⟨by rw [flush_base]; exact (h.free q hq).empty, hclean⟩
        · rw [flush_other hqp]
          exact h.free q hq
      · rw [hs.pageSz]
        exact h.page_le
      · rw [hs.pages]
        exact h.pos

/-! ## Filling a victim -/

def pageExtent (c : DvmDiscCache α) (page : Nat) : Nat :=
  min c.pageSz (c.base.numSectors - page)

/-- The inner read that fills the slot of `p` with a page. -/
def pageRead (c : DvmDiscCache α) (p page : Nat) : InnerDisc α × (Nat → α) × Bool :=
  dvmDiscReadSectors c.inner c.cells (entryCell c p) page (pageExtent c page)

def pageLoaded (c : DvmDiscCache α) (p page : Nat) : DvmDiscCache α :=
  { c with inner := (pageRead c p page).1, cells := (pageRead c p page).2.1 }.logged
    (.transfer false (.slot p (dvmDiscCacheEntryGetData c p)) page (pageExtent c page))

/-- The load asks for the part of the page that is on the disc, and an entry whose
load fails is given back. -/
theorem load_cases {page : Nat} (hpage : page < c.base.numSectors) (p : Nat) :
    ((pageRead c p page).2.2 = true ∧ RwState.load c p page = (pageLoaded c p page, true)) ∨
      ((pageRead c p page).2.2 = false ∧
        RwState.load c p page = ((pageLoaded c p page).setBase p emptyPage, false)) := by
  have hmax : secSub c.base.numSectors page = c.base.numSectors - page :=
    secSub_of_le (Nat.le_of_lt hpage) c.base.numSectors_lt
  have hsz : (if c.pageSz < c.base.numSectors - page then c.pageSz
      else c.base.numSectors - page) = pageExtent c page := by
    unfold pageExtent
    split <;> omega
  unfold RwState.load
  simp only [hmax, hsz]
  cases hok : (pageRead c p page).2.2 with
  | true => exact .inl ⟨rfl, if_pos hok⟩
  | false => exact .inr ⟨rfl, if_neg (show ¬ (pageRead c p page).2.2 = true by simp [hok])⟩

theorem pageLoaded_same (c : DvmDiscCache α) (p page : Nat) : Same c (pageLoaded c p page) := by
  have hread : (pageRead c p page).1 = { c.inner with calls := c.inner.calls + 1 } :=
    dvmDiscReadSectors_inner c.inner c.cells (entryCell c p) page (pageExtent c page)
  have hinner : (pageLoaded c p page).inner = { c.inner with calls := c.inner.calls + 1 } := hread
  exact ⟨rfl, rfl, rfl, rfl, rfl, by rw [hinner], by rw [hinner], by rw [hinner]⟩

theorem setEntry_same (c : DvmDiscCache α) (p : Nat) (e : DvmDiscCacheEntry) :
    Same c (c.setEntry p e) := ⟨rfl, rfl, rfl, rfl, rfl, rfl, rfl, rfl⟩

/-- The victim `p` flushed and given the page, before any load. -/
def retagged (c : DvmDiscCache α) (p page : Nat) : DvmDiscCache α :=
  (dvmDiscCacheEntryFlush c p).1.setBase p page

/-- The four outcomes of a fill: the flush fails, the page is not loaded because all
of it will be written, the load succeeds, the load fails. -/
theorem fill_cases (rq : Request) {page : Nat} (hpage : page < c.base.numSectors) (p : Nat)
    (whole : Bool) :
    ((dvmDiscCacheEntryFlush c p).2 = false ∧
        RwState.fill rq c p page whole = ((dvmDiscCacheEntryFlush c p).1, false)) ∨
      ((dvmDiscCacheEntryFlush c p).2 = true ∧ rq.isWrite = true ∧ whole = true ∧
        RwState.fill rq c p page whole = (retagged c p page, true)) ∨
      ((dvmDiscCacheEntryFlush c p).2 = true ∧ (pageRead (retagged c p page) p page).2.2 = true ∧
        RwState.fill rq c p page whole = (pageLoaded (retagged c p page) p page, true)) ∨
      ((dvmDiscCacheEntryFlush c p).2 = true ∧ (pageRead (retagged c p page) p page).2.2 = false ∧
        RwState.fill rq c p page whole =
          ((pageLoaded (retagged c p page) p page).setBase p emptyPage, false)) := by
  have hpage' : page < (retagged c p page).base.numSectors := by
    rw [retagged, DvmDiscCache.setBase, (setEntry_same _ p _).base, (flush_same c p).base]
    exact hpage
  have hfill : RwState.fill rq c p page whole =
      if (dvmDiscCacheEntryFlush c p).2 = true then
        if (!rq.isWrite || !whole) = true then RwState.load (retagged c p page) p page
        else (retagged c p page, true)
      else dvmDiscCacheEntryFlush c p := rfl
  rw [hfill]
  cases hok : (dvmDiscCacheEntryFlush c p).2 with
  | false => exact .inl ⟨rfl, Prod.ext rfl hok⟩
  | true =>
      right
      simp only [if_true, true_and]
      by_cases hskip : rq.isWrite = true ∧ whole = true
      · exact .inl ⟨hskip.1, hskip.2, by simp [hskip.1, hskip.2]⟩
      · right
        have hload : (!rq.isWrite || !whole) = true := by
          cases hw : rq.isWrite <;> cases hh : whole <;> simp_all
        rw [if_pos hload]
        exact load_cases hpage' p

theorem retagged_same (c : DvmDiscCache α) (p page : Nat) : Same c (retagged c p page) :=
  (flush_same c p).trans (setEntry_same _ p _)

theorem fill_same (rq : Request) {page : Nat} (hpage : page < c.base.numSectors) (p : Nat)
    (whole : Bool) : Same c (RwState.fill rq c p page whole).1 := by
  have hretag := retagged_same c p page
  have hload := hretag.trans (pageLoaded_same (retagged c p page) p page)
  rcases fill_cases rq hpage p whole with ⟨_, heq⟩ | ⟨_, _, _, heq⟩ | ⟨_, _, heq⟩ | ⟨_, _, heq⟩
  · rw [heq]
    exact flush_same c p
  · rw [heq]
    exact hretag
  · rw [heq]
    exact hload
  · rw [heq]
    exact hload.trans (setEntry_same _ p _)

/-! ### The invariant across a fill -/

section Fill

variable {A' U' : List Nat} {p page : Nat}

theorem Rep.retagged (h : Rep c A U) (hv : VictimAt A U A' p U')
    (haligned : c.pageSz ∣ page) (hpage : page < c.base.numSectors)
    (hok : (dvmDiscCacheEntryFlush c p).2 = true) :
    Rep (retagged c p page) (A' ++ [p]) U' := by
  have hp : p < c.numPages := by
    apply (h.mem_iff p).mp
    rcases hv with ⟨rfl, _, _⟩ | ⟨_, rfl⟩ <;> simp
  have hs := flush_same c p
  apply ((h.flush hp).at_victim hv).allocate
  refine ⟨?_, ?_, .inl ?_⟩
  · rw [hs.pageSz]
    exact haligned
  · rw [hs.base]
    exact hpage
  · rw [hs.pageSz]
    exact h.flush_clean hp hok

theorem retagged_entry (c : DvmDiscCache α) (p page : Nat) :
    (retagged c p page).entries p =
      { (dvmDiscCacheEntryFlush c p).1.entries p with baseSector := page } := if_pos rfl

theorem retagged_other {q : Nat} (hq : q ≠ p) :
    (retagged c p page).entries q = c.entries q := by
  rw [← flush_other (c := c) hq]
  exact if_neg hq

theorem Rep.fill_ok (h : Rep c A U) (hv : VictimAt A U A' p U') (haligned : c.pageSz ∣ page)
    (hpage : page < c.base.numSectors) {rq : Request} {whole : Bool}
    (hok : (RwState.fill rq c p page whole).2 = true) :
    Rep (RwState.fill rq c p page whole).1 (A' ++ [p]) U' ∧
      (RwState.fill rq c p page whole).1.entries = (LibDvm.Cache.retagged c p page).entries := by
  rcases fill_cases rq hpage p whole with
    ⟨_, heq⟩ | ⟨hf, _, _, heq⟩ | ⟨hf, _, heq⟩ | ⟨_, _, heq⟩
  · simp [heq] at hok
  · rw [heq]
    exact ⟨h.retagged hv haligned hpage hf, rfl⟩
  · rw [heq]
    exact ⟨(h.retagged hv haligned hpage hf).frame (pageLoaded_same _ p page) rfl rfl, rfl⟩
  · simp [heq] at hok

theorem Rep.fill_failed (h : Rep c A U) (hv : VictimAt A U A' p U') (haligned : c.pageSz ∣ page)
    (hpage : page < c.base.numSectors) {rq : Request} {whole : Bool}
    (hfail : (RwState.fill rq c p page whole).2 = false) :
    ∃ A'' U'', Rep (RwState.fill rq c p page whole).1 A'' U'' := by
  have hp : p < c.numPages := by
    apply (h.mem_iff p).mp
    rcases hv with ⟨rfl, _, _⟩ | ⟨_, rfl⟩ <;> simp
  rcases fill_cases rq hpage p whole with
    ⟨_, heq⟩ | ⟨_, _, _, heq⟩ | ⟨_, _, heq⟩ | ⟨hf, _, heq⟩
  · rw [heq]
    exact ⟨A, U, h.flush hp⟩
  · simp [heq] at hfail
  · simp [heq] at hfail
  · rw [heq]
    have hloaded := (h.retagged hv haligned hpage hf).frame
      (pageLoaded_same (LibDvm.Cache.retagged c p page) p page) rfl rfl
    refine ⟨A', p :: U', hloaded.at_last.release ⟨rfl, ?_⟩⟩
    have hclean := h.flush_clean hp hf
    have hsz : (pageLoaded (LibDvm.Cache.retagged c p page) p page).pageSz = c.pageSz :=
      ((retagged_same c p page).trans (pageLoaded_same _ p page)).pageSz
    have hentry : (pageLoaded (LibDvm.Cache.retagged c p page) p page).entries p =
        { (dvmDiscCacheEntryFlush c p).1.entries p with baseSector := page } :=
      retagged_entry c p page
    rw [hsz, hentry]
    exact hclean

end Fill

/-! ## Hitting an entry -/

/-- The entry after a hit: a write widens the dirty range to the hull. -/
def hitEntry (rq : Request) (e : DvmDiscCacheEntry) (off cur : Nat) : DvmDiscCacheEntry :=
  if rq.isWrite then
    { e with
      dirtyStart := u16 (if off < e.dirtyStart then off else e.dirtyStart)
      dirtyEnd := u16 (if off + cur > e.dirtyEnd then off + cur else e.dirtyEnd) }
  else e

theorem makeMru_eq (c : DvmDiscCache α) (p : Nat) (whole : Bool) :
    c.makeMru p whole =
      { c with links :=
          if whole = false ∧ c.links.list.next ≠ some p then c.links.moveToFront p
          else c.links } := by
  unfold DvmDiscCache.makeMru
  by_cases hhead : c.links.list.next = some p <;> cases whole <;> simp [hhead]

section Hit

variable (rq : Request) (st : RwState α) (p off cur : Nat) (whole : Bool)

theorem hit_loop :
    (st.cacheHit rq p off cur whole).offset = st.offset ∧
      (st.cacheHit rq p off cur whole).firstSector = st.firstSector ∧
      (st.cacheHit rq p off cur whole).numSectors = st.numSectors ∧
      (st.cacheHit rq p off cur whole).p = st.p ∧
      (st.cacheHit rq p off cur whole).searchBase = st.searchBase := by
  unfold RwState.cacheHit
  split <;> exact ⟨rfl, rfl, rfl, rfl, rfl⟩

theorem hit_same : Same st.self (st.cacheHit rq p off cur whole).self := by
  unfold RwState.cacheHit
  split <;> dsimp only <;> rw [makeMru_eq] <;> exact ⟨rfl, rfl, rfl, rfl, rfl, rfl, rfl, rfl⟩

theorem hit_inner : (st.cacheHit rq p off cur whole).self.inner = st.self.inner := by
  unfold RwState.cacheHit
  split <;> dsimp only <;> rw [makeMru_eq] <;> rfl

theorem hit_entries (q : Nat) :
    (st.cacheHit rq p off cur whole).self.entries q =
      if q = p then hitEntry rq (st.self.entries p) off cur else st.self.entries q := by
  unfold RwState.cacheHit hitEntry
  split
  · dsimp only
    rw [makeMru_eq]
    rfl
  · dsimp only
    rw [makeMru_eq]
    by_cases hq : q = p
    · rw [hq, if_pos rfl]
      rfl
    · rw [if_neg hq]
      rfl

theorem hit_cells :
    (st.cacheHit rq p off cur whole).self.cells =
      if rq.isWrite then
        blit st.self.cells (entryCell st.self p + off) st.buffer st.offset cur
      else st.self.cells := by
  unfold RwState.cacheHit
  split <;> dsimp only <;> rw [makeMru_eq] <;> rfl

theorem hit_buffer :
    (st.cacheHit rq p off cur whole).buffer =
      if rq.isWrite then st.buffer
      else blit st.buffer st.offset st.self.cells (entryCell st.self p + off) cur := by
  unfold RwState.cacheHit
  split <;> rfl

theorem hit_links :
    (st.cacheHit rq p off cur whole).self.links =
      if whole = false ∧ st.self.links.list.next ≠ some p then st.self.links.moveToFront p
      else st.self.links := by
  unfold RwState.cacheHit
  split <;> dsimp only <;> rw [makeMru_eq] <;> rfl

theorem hit_log :
    (st.cacheHit rq p off cur whole).self.log = st.self.log ++
      [.copy rq.isWrite
        (.slot p (dvmDiscCacheEntryGetData st.self p + off * st.self.base.sectorSz))
        (st.callerPlace rq) st.firstSector cur] := by
  unfold RwState.cacheHit
  split <;> dsimp only <;> rw [makeMru_eq] <;> rfl

end Hit

theorem hitEntry_write {rq : Request} (hw : rq.isWrite = true) {e : DvmDiscCacheEntry}
    {page sectors off cur : Nat} (he : EntryOk page sectors e) (hpage : page ≤ 2 ^ 15)
    (hoff : off + cur ≤ page) :
    hitEntry rq e off cur =
      ⟨e.baseSector, min off e.dirtyStart, max e.dirtyEnd (off + cur)⟩ := by
  have hstart : e.dirtyStart ≤ page := by
    rcases he.dirty with hc | hd
    · exact Nat.le_of_eq hc.1
    · omega
  have hend : e.dirtyEnd ≤ page := by
    rcases he.dirty with hc | hd
    · rw [hc.2]; omega
    · exact hd.2.1
  rw [hitEntry, if_pos hw, u16_of_lt (by split <;> omega), u16_of_lt (by split <;> omega)]
  congr 1
  · split <;> omega
  · split <;> omega

theorem hitEntry_read {rq : Request} (hr : rq.isWrite = false) (e : DvmDiscCacheEntry)
    (off cur : Nat) : hitEntry rq e off cur = e := if_neg (by simp [hr])

theorem hitEntry_base (rq : Request) (e : DvmDiscCacheEntry) (off cur : Nat) :
    (hitEntry rq e off cur).baseSector = e.baseSector := by
  unfold hitEntry
  split <;> rfl

theorem hit_base (rq : Request) (st : RwState α) (p off cur : Nat) (whole : Bool) (q : Nat) :
    ((st.cacheHit rq p off cur whole).self.entries q).baseSector =
      (st.self.entries q).baseSector := by
  rw [hit_entries]
  split
  · next heq => rw [hitEntry_base, heq]
  · rfl

theorem EntryOk.hit (rq : Request) {e : DvmDiscCacheEntry} {page sectors off cur : Nat}
    (he : EntryOk page sectors e) (hpage : page ≤ 2 ^ 15) (hcur : 0 < cur)
    (hoff : off + cur ≤ page) (hin : e.baseSector + off + cur ≤ sectors) :
    EntryOk page sectors (hitEntry rq e off cur) := by
  refine ⟨by rw [hitEntry_base]; exact he.aligned, by rw [hitEntry_base]; exact he.inside, ?_⟩
  cases hw : rq.isWrite with
  | false =>
      rw [hitEntry_read hw]
      exact he.dirty
  | true =>
      right
      rw [hitEntry_write hw he hpage hoff]
      rcases he.dirty with hc | hd
      · rw [hc.1, hc.2]
        dsimp only
        omega
      · dsimp only
        omega

/-- The allocated entries in list order after a hit: a partial one moves `p` up. -/
def touched (A : List Nat) (p : Nat) (whole : Bool) : List Nat :=
  if whole then A else p :: A.erase p

theorem Rep.hit (rq : Request) (whole : Bool) {st : RwState α} {p off cur : Nat}
    (h : Rep st.self A U) (hp : p ∈ A) (hcur : 0 < cur) (hoff : off + cur ≤ st.self.pageSz)
    (hin : (st.self.entries p).baseSector + off + cur ≤ st.self.base.numSectors) :
    Rep (st.cacheHit rq p off cur whole).self (touched A p whole) U := by
  have hs := hit_same rq st p off cur whole
  have hentry := (h.allocated p hp).hit rq h.page_le hcur hoff hin
  have hset := h.setEntry hp hentry
  have hentries : (st.cacheHit rq p off cur whole).self.entries =
      (st.self.setEntry p (hitEntry rq (st.self.entries p) off cur)).entries :=
    funext fun q => hit_entries rq st p off cur whole q
  have hlinks := hit_links rq st p off cur whole
  by_cases hmove : whole = false ∧ st.self.links.list.next ≠ some p
  · rw [if_pos hmove] at hlinks
    rw [touched, if_neg (by simp [hmove.1])]
    exact (hset.touch hp hmove.2).frame
      ⟨hs.1, hs.2, hs.3, hs.4, hs.5, hs.6, hs.7, hs.8⟩ hlinks hentries
  · rw [if_neg hmove] at hlinks
    have hA : touched A p whole = A := by
      unfold touched
      cases whole with
      | true => rfl
      | false =>
          have hhead : st.self.links.list.next = some p := by simpa using hmove
          exact h.erase_head hp hhead
    rw [hA]
    exact hset.frame ⟨hs.1, hs.2, hs.3, hs.4, hs.5, hs.6, hs.7, hs.8⟩ hlinks hentries

end LibDvm.Cache
