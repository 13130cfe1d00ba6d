import LibDvm.Cache.Logical

/-! # One access through the cache

What the fill of a victim, the hit and the direct transfer do to coherence and to
the logical content. `Served` sums up a stretch of a request that moved its sectors;
a request that stays inside one page and goes through the cache is served as a whole
or changes nothing.
-/

namespace LibDvm.Cache

open NodeList Store RwState

variable {α : Type} {c : DvmDiscCache α} {A U : List Nat} {rq : Request} {st : RwState α}

/-! ## Giving an entry another page -/

theorem held_eq {c' : DvmDiscCache α} (hs : Same c c') {q s : Nat}
    (hentry : c'.entries q = c.entries q)
    (hcells : ∀ off < c.pageSz,
      c'.cells (Align.cell c.pageSz q off) = c.cells (Align.cell c.pageSz q off))
    (hcov : c.covers q s = true) : c'.held q s = c.held q s := by
  rw [covers_iff] at hcov
  unfold DvmDiscCache.held
  rw [entryCell_add, entryCell_add, hentry, hs.pageSz]
  exact hcells _ (by omega)

/-- A clean entry `p` may change its page and its slot, as long as no other entry holds
the page and, off `X`, the slot has what the inner disc has. -/
theorem coherent_refit {c' : DvmDiscCache α} {X : Nat → Prop} {p : Nat} (hc : c.Coherent)
    (hs : Same c c') (hclean : ∀ s, ¬ c.dirtyAt p s)
    (hentries : ∀ q, q ≠ p → c'.entries q = c.entries q)
    (hcells : ∀ q, q ≠ p → ∀ off < c.pageSz,
      c'.cells (Align.cell c.pageSz q off) = c.cells (Align.cell c.pageSz q off))
    (hsectors : c'.inner.sectors = c.inner.sectors)
    (hfree : ∀ q < c.numPages, q ≠ p → ∀ s, c'.covers p s = true → c.covers q s = false)
    (hfill : ∀ s, c'.covers p s = true → ¬ X s → c'.held p s = c.inner.sectors s) :
    c'.writeBack.Coherent X ∧ ∀ s, ¬ X s → c'.logical s = c.logical s := by
  apply WriteBack.Coherent.replace hc p
  · show List.range _ = List.range _
    rw [hs.pages]
  · intro q _ hq
    exact covers_eq hs (by rw [hentries q hq])
  · intro q _ hq
    show c'.dirtyAt q = c.dirtyAt q
    unfold DvmDiscCache.dirtyAt
    rw [hentries q hq]
  · intro q _ hq s hcov
    exact held_eq hs (hentries q hq) (hcells q hq) hcov
  · exact hsectors
  · exact fun s _ => hclean s
  · exact fun q hmem hq s hcov => hfree q (List.mem_range.mp hmem) hq s hcov
  · exact hfill

theorem flush_not_dirty {p : Nat} (hok : (dvmDiscCacheEntryFlush c p).2 = true) (s : Nat) :
    ¬ (dvmDiscCacheEntryFlush c p).1.dirtyAt p s := by
  have hclean := flush_clean hok
  intro hdirty
  obtain ⟨h1, h2⟩ := hdirty
  omega

/-! ## The fill -/

/-- No entry but `p` holds the page. -/
def SoleHolder (c : DvmDiscCache α) (p page : Nat) : Prop :=
  ∀ q < c.numPages, q ≠ p → (c.entries q).baseSector ≠ page

theorem SoleHolder.uncovered {p page : Nat} (h : SoleHolder c p page) (hsound : c.Sound)
    (haligned : c.pageSz ∣ page) {q : Nat} (hq : q < c.numPages) (hqp : q ≠ p) {s : Nat}
    (hs : page ≤ s ∧ s < page + c.pageSz) : c.covers q s = false := by
  by_contra hcov
  rw [Bool.not_eq_false, covers_iff] at hcov
  rcases hsound q hq with ⟨hempty, _⟩ | ⟨hdvd, _⟩
  · exact hcov.1 hempty
  · exact h q hq hqp (Align.eq_of_overlap hdvd haligned ⟨hcov.2.1, hcov.2.2.1⟩ hs)

theorem dvmDiscReadSectors_sectors (d : InnerDisc α) (mem : Nat → α) (off first count : Nat) :
    (dvmDiscReadSectors d mem off first count).1.sectors = d.sectors := by
  rw [dvmDiscReadSectors_inner]

theorem pageLoaded_sectors (c : DvmDiscCache α) (p page : Nat) :
    (pageLoaded c p page).inner.sectors = c.inner.sectors :=
  dvmDiscReadSectors_sectors _ _ _ _ _

theorem pageLoaded_cells {p q page off : Nat} (hq : q ≠ p) (hoff : off < c.pageSz) :
    (pageLoaded c p page).cells (Align.cell c.pageSz q off) =
      c.cells (Align.cell c.pageSz q off) := by
  apply dvmDiscReadSectors_outside
  have hextent : 0 + pageExtent c page ≤ c.pageSz := by
    rw [pageExtent]
    omega
  have hcell := Align.cell_outside hextent hoff hq.symm
  rw [← entryCell_add c p 0] at hcell
  exact hcell

theorem pageLoaded_slot {p page k : Nat} (hok : (pageRead c p page).2.2 = true)
    (hk : k < pageExtent c page) :
    (pageLoaded c p page).cells (entryCell c p + k) = c.inner.sectors (page + k) := by
  have hcell := dvmDiscReadSectors_inside hok (i := entryCell c p + k) (by omega)
  rw [Nat.add_sub_cancel_left] at hcell
  exact hcell

section Fill

variable {c' : DvmDiscCache α} {X : Nat → Prop} {p page : Nat}

theorem coherent_refit_flushed (hsound : c.Sound) (hc : c.Coherent) (hp : p < c.numPages)
    (haligned : c.pageSz ∣ page) (hsole : SoleHolder c p page)
    (hok : (dvmDiscCacheEntryFlush c p).2 = true) (hs : Same c c')
    (hentries : ∀ q, q ≠ p → c'.entries q = c.entries q)
    (hcells : ∀ q, q ≠ p → ∀ off < c.pageSz,
      c'.cells (Align.cell c.pageSz q off) = c.cells (Align.cell c.pageSz q off))
    (hsectors : c'.inner.sectors = (dvmDiscCacheEntryFlush c p).1.inner.sectors)
    (hrange : ∀ s, c'.covers p s = true → page ≤ s ∧ s < page + c.pageSz)
    (hfill : ∀ s, c'.covers p s = true → ¬ X s →
      c'.held p s = (dvmDiscCacheEntryFlush c p).1.inner.sectors s) :
    c'.writeBack.Coherent X ∧ ∀ s, ¬ X s → c'.logical s = c.logical s := by
  obtain ⟨hcoh, hlog⟩ := flush_coherent hsound hc hp
  have hsame := flush_same c p
  have hrefit := coherent_refit (X := X) hcoh (hsame.symm.trans hs) (flush_not_dirty hok)
    (fun q hq => (hentries q hq).trans (flush_other hq).symm)
    (by rw [hsame.pageSz, flush_cells]; exact hcells) hsectors
    (by
      intro q hq hqp s hcov
      rw [hsame.pages] at hq
      rw [flush_covers]
      exact hsole.uncovered hsound haligned hq hqp (hrange s hcov)) hfill
  exact ⟨hrefit.1, fun s hx => (hrefit.2 s hx).trans (hlog s)⟩

theorem retagged_range (hs : Same c c')
    (hbase : (c'.entries p).baseSector = page) {s : Nat} (hcov : c'.covers p s = true) :
    page ≤ s ∧ s < page + c.pageSz ∧ s < c.base.numSectors := by
  rw [covers_iff, hbase, hs.pageSz, hs.base] at hcov
  exact ⟨hcov.2.1, hcov.2.2.1, hcov.2.2.2⟩

theorem retagged_base (c : DvmDiscCache α) (p page : Nat) :
    ((retagged c p page).entries p).baseSector = page := by
  rw [retagged_entry]

def Overwritten (c : DvmDiscCache α) (rq : Request) (whole : Bool) (page s : Nat) : Prop :=
  rq.isWrite = true ∧ whole = true ∧ page ≤ s ∧ s < page + c.pageSz

theorem fill_coherent (hsound : c.Sound) (hc : c.Coherent) (hp : p < c.numPages)
    (haligned : c.pageSz ∣ page) (hpage : page < c.base.numSectors)
    (hsole : SoleHolder c p page) {whole : Bool}
    (hok : (RwState.fill rq c p page whole).2 = true) :
    (RwState.fill rq c p page whole).1.writeBack.Coherent (Overwritten c rq whole page) ∧
      ∀ s, ¬ Overwritten c rq whole page s →
        (RwState.fill rq c p page whole).1.logical s = c.logical s := by
  have hretag := retagged_same c p page
  have hloaded := hretag.trans (pageLoaded_same (retagged c p page) p page)
  rcases fill_cases rq hpage p whole with
    ⟨_, heq⟩ | ⟨hf, hw, hh, heq⟩ | ⟨hf, hr, heq⟩ | ⟨_, _, heq⟩
  · simp [heq] at hok
  · rw [heq]
    have hrange := fun s => retagged_range (s := s) hretag (retagged_base c p page)
    apply coherent_refit_flushed hsound hc hp haligned hsole hf hretag
      (fun q hq => retagged_other hq)
    · intro q _ off _
      rw [← flush_cells c p]
      rfl
    · rfl
    · exact fun s hcov => ⟨(hrange s hcov).1, (hrange s hcov).2.1⟩
    · exact fun s hcov hx => absurd ⟨hw, hh, (hrange s hcov).1, (hrange s hcov).2.1⟩ hx
  · rw [heq]
    have hrange := fun s => retagged_range (s := s) hloaded (retagged_base c p page)
    apply coherent_refit_flushed hsound hc hp haligned hsole hf hloaded
      (fun q hq => retagged_other hq)
    · intro q hq off hoff
      rw [← flush_cells c p, ← hretag.pageSz]
      exact pageLoaded_cells hq (by rw [hretag.pageSz]; exact hoff)
    · exact pageLoaded_sectors _ p page
    · exact fun s hcov => ⟨(hrange s hcov).1, (hrange s hcov).2.1⟩
    · intro s hcov _
      obtain ⟨h1, h2, h3⟩ := hrange s hcov
      have hbase : ((pageLoaded (retagged c p page) p page).entries p).baseSector = page :=
        retagged_base c p page
      have hslot := pageLoaded_slot (k := s - page) hr (by
        rw [pageExtent, hretag.pageSz, hretag.base]
        omega)
      rw [Nat.add_sub_of_le h1] at hslot
      rw [DvmDiscCache.held, hbase]
      exact hslot
  · simp [heq] at hok

theorem fill_failed_coherent (hsound : c.Sound) (hc : c.Coherent) (hp : p < c.numPages)
    (haligned : c.pageSz ∣ page) (hpage : page < c.base.numSectors)
    (hsole : SoleHolder c p page) {whole : Bool}
    (hfail : (RwState.fill rq c p page whole).2 = false) :
    (RwState.fill rq c p page whole).1.Coherent ∧
      ∀ s, (RwState.fill rq c p page whole).1.logical s = c.logical s := by
  have hretag := retagged_same c p page
  have hloaded := hretag.trans (pageLoaded_same (retagged c p page) p page)
  rcases fill_cases rq hpage p whole with
    ⟨_, heq⟩ | ⟨_, _, _, heq⟩ | ⟨_, _, heq⟩ | ⟨hf, _, heq⟩
  · rw [heq]
    exact flush_coherent hsound hc hp
  · simp [heq] at hfail
  · simp [heq] at hfail
  · rw [heq]
    have hempty : ∀ s, ((pageLoaded (retagged c p page) p page).setBase p
        emptyPage).covers p s = false := by
      intro s
      rw [not_covers_iff]
      left
      rw [DvmDiscCache.setBase, setEntry_entries, if_pos rfl]
    have hrefit := coherent_refit_flushed (X := fun _ => False) hsound hc hp haligned hsole hf
      (hloaded.trans (setEntry_same _ p
        { (pageLoaded (retagged c p page) p page).entries p with baseSector := emptyPage }))
      (fun q hq => (if_neg hq).trans (retagged_other hq))
      (fun q hq off hoff => by
        rw [← flush_cells c p, ← hretag.pageSz]
        exact pageLoaded_cells hq (by rw [hretag.pageSz]; exact hoff))
      (pageLoaded_sectors _ p page)
      (fun s hcov => by
        have hnone := hempty s
        rw [DvmDiscCache.setBase, hcov] at hnone
        cases hnone)
      (fun s hcov _ => by
        have hnone := hempty s
        rw [DvmDiscCache.setBase, hcov] at hnone
        cases hnone)
    exact ⟨hrefit.1, fun s => hrefit.2 s not_false⟩

end Fill

/-! ## The hit -/

section Hit

variable {X : Nat → Prop} {p off cur : Nat}

theorem hit_covers (rq : Request) (st : RwState α) (p off cur : Nat) (whole : Bool) :
    (st.cacheHit rq p off cur whole).self.covers = st.self.covers := by
  funext q
  apply covers_eq (hit_same rq st p off cur whole)
  rw [hit_entries]
  split
  · next heq => rw [hitEntry_base, heq]
  · rfl

theorem hit_held_outside (hw : rq.isWrite = true) (hoff : off + cur ≤ st.self.pageSz)
    (whole : Bool) {q s : Nat} (hcov : st.self.covers q s = true)
    (hs : ¬ ((st.self.entries p).baseSector + off ≤ s ∧
      s < (st.self.entries p).baseSector + off + cur)) :
    (st.cacheHit rq p off cur whole).self.held q s = st.self.held q s := by
  have hcells := hit_cells rq st p off cur whole
  rw [if_pos hw] at hcells
  rw [covers_iff] at hcov
  unfold DvmDiscCache.held
  rw [hcells, hit_base, entryCell_add, entryCell_add, entryCell_add,
    (hit_same rq st p off cur whole).pageSz]
  apply blit_outside
  by_cases hq : q = p
  · subst hq
    unfold Align.cell
    omega
  · exact Align.cell_outside hoff (by omega) (Ne.symm hq)

theorem hit_held_inside (hw : rq.isWrite = true) (whole : Bool) {k : Nat} (hk : k < cur) :
    (st.cacheHit rq p off cur whole).self.held p ((st.self.entries p).baseSector + off + k) =
      st.buffer (st.offset + k) := by
  have hcells := hit_cells rq st p off cur whole
  rw [if_pos hw] at hcells
  unfold DvmDiscCache.held
  rw [hcells, hit_base, entryCell_add, entryCell_add,
    (hit_same rq st p off cur whole).pageSz]
  have hcell : Align.cell st.self.pageSz p
      ((st.self.entries p).baseSector + off + k - (st.self.entries p).baseSector) =
      Align.cell st.self.pageSz p off + k := by
    unfold Align.cell
    omega
  rw [hcell, blit_offset _ _ _ _ hk]

theorem hit_write_dirty (h : Rep st.self A U) (hp : p ∈ A) (hw : rq.isWrite = true)
    (hoff : off + cur ≤ st.self.pageSz) (whole : Bool) :
    (∀ q s, st.self.dirtyAt q s → (st.cacheHit rq p off cur whole).self.dirtyAt q s) ∧
      ∀ s, (st.self.entries p).baseSector + off ≤ s →
        s < (st.self.entries p).baseSector + off + cur →
        (st.cacheHit rq p off cur whole).self.dirtyAt p s := by
  have hentry : (st.cacheHit rq p off cur whole).self.entries p =
      ⟨(st.self.entries p).baseSector, min off (st.self.entries p).dirtyStart,
        max (st.self.entries p).dirtyEnd (off + cur)⟩ := by
    rw [hit_entries, if_pos rfl, hitEntry_write hw (h.allocated p hp) h.page_le hoff]
  unfold DvmDiscCache.dirtyAt
  constructor
  · rintro q s ⟨h1, h2⟩
    by_cases hq : q = p
    · rw [hq] at h1 h2 ⊢
      rw [hentry]
      dsimp only
      omega
    · rw [hit_entries, if_neg hq]
      exact ⟨h1, h2⟩
  · intro s h1 h2
    rw [hentry]
    dsimp only
    omega

/-- A write that hits changes the logical content on its range, and there only. `X` may
hold sectors whose slot was not loaded because the hit overwrites them. -/
theorem hit_write_coherent (h : Rep st.self A U) (hp : p ∈ A)
    (hc : st.self.writeBack.Coherent X)
    (hX : ∀ s, X s → (st.self.entries p).baseSector + off ≤ s ∧
      s < (st.self.entries p).baseSector + off + cur)
    (hw : rq.isWrite = true) (hoff : off + cur ≤ st.self.pageSz)
    (hin : (st.self.entries p).baseSector + off + cur ≤ st.self.base.numSectors)
    (whole : Bool) :
    (st.cacheHit rq p off cur whole).self.Coherent ∧
      ∀ s, (st.cacheHit rq p off cur whole).self.logical s =
        blit st.self.logical ((st.self.entries p).baseSector + off) st.buffer st.offset cur s := by
  obtain ⟨hkept, hadded⟩ := hit_write_dirty h hp hw hoff whole
  have hwindows : (st.cacheHit rq p off cur whole).self.writeBack.windows =
      st.self.writeBack.windows :=
    congrArg List.range (hit_same rq st p off cur whole).pages
  have hback : (st.cacheHit rq p off cur whole).self.writeBack.back = st.self.writeBack.back :=
    congrArg InnerDisc.sectors (hit_inner rq st p off cur whole)
  have hstored : ∀ s, (st.self.entries p).baseSector + off ≤ s ∧
      s < (st.self.entries p).baseSector + off + cur →
      st.self.writeBack.covers p s = true ∧
        (st.cacheHit rq p off cur whole).self.writeBack.dirty p s :=
    fun s hs => ⟨covers_iff.mpr ⟨h.base_ne hp, by omega, by omega, by omega⟩,
      hadded s hs.1 hs.2⟩
  have hstore := (hc.mono hX).store (st.cacheHit rq p off cur whole).self.writeBack
    (List.mem_range.mpr (h.lt_of_mem hp)) hwindows (hit_covers rq st p off cur whole) hback
    (fun _ _ _ hcov hs => hit_held_outside hw hoff whole hcov hs)
    (fun q _ s hd => hkept q s hd) hstored
  refine ⟨hstore.1, congrFun (eq_blit ?_ ?_)⟩
  · intro k hk
    exact ((hstore.2 _).1 ⟨by omega, by omega⟩).trans (hit_held_inside hw whole hk)
  · intro s hs
    exact (hstore.2 s).2 (by omega)

theorem hit_read_coherent (h : Rep st.self A U) (hp : p ∈ A) (hc : st.self.writeBack.Coherent X)
    (hr : rq.isWrite = false) (hoff : off + cur ≤ st.self.pageSz)
    (hin : (st.self.entries p).baseSector + off + cur ≤ st.self.base.numSectors)
    (whole : Bool) :
    (st.cacheHit rq p off cur whole).self.writeBack = st.self.writeBack ∧
      (st.cacheHit rq p off cur whole).buffer =
        blit st.buffer st.offset st.self.logical ((st.self.entries p).baseSector + off) cur := by
  have hcells := hit_cells rq st p off cur whole
  have hbuffer := hit_buffer rq st p off cur whole
  rw [if_neg (by simp [hr])] at hcells hbuffer
  refine ⟨writeBack_eq (hit_same rq st p off cur whole) ?_ hcells ?_, ?_⟩
  · funext q
    rw [hit_entries, hitEntry_read hr]
    split
    · next heq => rw [heq]
    · rfl
  · rw [hit_inner]
  · rw [hbuffer]
    funext i
    by_cases hi : st.offset ≤ i ∧ i < st.offset + cur
    · rw [blit_inside hi.1 hi.2, blit_inside hi.1 hi.2]
      have hcov : st.self.covers p ((st.self.entries p).baseSector + off + (i - st.offset)) =
          true := covers_iff.mpr ⟨h.base_ne hp, by omega, by omega, by omega⟩
      have hview := hc.view_covered (List.mem_range.mpr (h.lt_of_mem hp)) hcov
      refine Eq.trans ?_ hview.symm
      show _ = DvmDiscCache.held _ p _
      unfold DvmDiscCache.held
      congr 1
      omega
    · rw [blit_outside (by omega), blit_outside (by omega)]

end Hit

/-! ## A turn that goes through the cache -/

/-- `n` sectors moved between `st` and `st'`: what a write leaves in the logical content,
what a read leaves in the buffer, and where the request then stands. -/
structure Served (rq : Request) (st st' : RwState α) (n : Nat) : Prop where
  coherent : st'.self.Coherent
  content : st'.self.logical =
    if rq.isWrite then blit st.self.logical st.firstSector st.buffer st.offset n
    else st.self.logical
  buffer : st'.buffer =
    if rq.isWrite then st.buffer
    else blit st.buffer st.offset st.self.logical st.firstSector n
  advanced : Advanced st st' n

theorem Served.refl (rq : Request) (hc : st.self.Coherent) : Served rq st st 0 := by
  refine ⟨hc, ?_, ?_, rfl, rfl, rfl⟩ <;> simp

theorem Served.trans {st₁ st₂ st₃ : RwState α} {m n : Nat} (h₁ : Served rq st₁ st₂ m)
    (h₂ : Served rq st₂ st₃ n) : Served rq st₁ st₃ (m + n) := by
  have hadv := h₁.advanced
  refine ⟨h₂.coherent, ?_, ?_, hadv.trans h₂.advanced⟩
  · rw [h₂.content, h₁.content, h₁.buffer, hadv.first, hadv.offset]
    split
    · exact blit_append _ _ _ _ _ _
    · rfl
  · rw [h₂.buffer, h₁.content, h₁.buffer, hadv.first, hadv.offset]
    split
    · rfl
    · exact blit_append _ _ _ _ _ _

theorem LoopOk.hitFrom_served (h : LoopOk rq st) (hnum : 0 < st.numSectors) {from_ : RwState α}
    {p : Nat} (hrep : Rep from_.self A U) (hs : Same st.self from_.self)
    (hbuffer : from_.buffer = st.buffer) (hoffset : from_.offset = st.offset)
    (hfirst : from_.firstSector = st.firstSector) (hnums : from_.numSectors = st.numSectors)
    (hheld : ∀ q, from_.p = some q → q < st.self.numPages) (hp : p ∈ A)
    (hbase : (from_.self.entries p).baseSector = st.curPageSector)
    (hc : from_.self.writeBack.Coherent (Overwritten st.self rq st.isWhole st.curPageSector))
    (hlog : ∀ s, ¬ Overwritten st.self rq st.isWhole st.curPageSector s →
      from_.self.logical s = st.self.logical s) :
    Served rq st (LibDvm.Cache.hitFrom rq st from_ p) st.curSectors := by
  have hpart := h.pagePart hnum
  have hin := h.inside
  have hsplit := hpart.split
  have hle := hpart.le
  have hlt := st.self.base.numSectors_lt
  have hoff : st.curPageOffset + st.curSectors ≤ from_.self.pageSz := by
    rw [hs.pageSz]
    exact hpart.fits
  have hdisc : (from_.self.entries p).baseSector + st.curPageOffset + st.curSectors ≤
      from_.self.base.numSectors := by
    rw [hbase, hs.base]
    omega
  have hstart : (from_.self.entries p).baseSector + st.curPageOffset = st.firstSector := by
    rw [hbase, hsplit]
  have hover : ∀ s, Overwritten st.self rq st.isWhole st.curPageSector s →
      st.firstSector ≤ s ∧ s < st.firstSector + st.curSectors := by
    intro s hx
    obtain ⟨_, hwhole, h1, h2⟩ := hx
    obtain ⟨hzero, hall⟩ := hpart.whole.mp hwhole
    omega
  have hadv := (h.hitFrom hnum hrep hs hfirst hnums hoffset hheld hp hbase).2
  cases hw : rq.isWrite with
  | true =>
      obtain ⟨hcoh, hcontent⟩ := hit_write_coherent hrep hp hc
        (fun s hx => by rw [hstart]; exact hover s hx) hw hoff hdisc st.isWhole
      refine ⟨hcoh, ?_, ?_, hadv⟩
      · funext s
        refine (hcontent s).trans ?_
        rw [hstart, hbuffer, hoffset, if_pos hw]
        by_cases hs' : st.firstSector ≤ s ∧ s < st.firstSector + st.curSectors
        · rw [blit_inside hs'.1 hs'.2, blit_inside hs'.1 hs'.2]
        · rw [blit_outside (by omega), blit_outside (by omega)]
          exact hlog s fun hx => hs' (hover s hx)
      · rw [if_pos hw, ← hbuffer]
        have hkept := hit_buffer rq from_ p st.curPageOffset st.curSectors st.isWhole
        rw [if_pos hw] at hkept
        exact hkept
  | false =>
      have hnone : ∀ s, ¬ Overwritten st.self rq st.isWhole st.curPageSector s := by
        intro s hx
        rw [hx.1] at hw
        cases hw
      have hlogical : from_.self.logical = st.self.logical :=
        funext fun s => hlog s (hnone s)
      obtain ⟨hsame, hread⟩ := hit_read_coherent hrep hp hc hw hoff hdisc st.isWhole
      have hwb : (LibDvm.Cache.hitFrom rq st from_ p).self.writeBack = from_.self.writeBack :=
        hsame
      refine ⟨?_, ?_, ?_, hadv⟩
      · rw [DvmDiscCache.Coherent, hwb]
        exact ⟨hc.disjoint, fun q hq s hcov hd _ => hc.clean q hq s hcov hd (hnone s)⟩
      · rw [if_neg (by simp [hw]), DvmDiscCache.logical, hwb]
        exact hlogical
      · rw [if_neg (by simp [hw]), ← hlogical, ← hbuffer, ← hoffset, ← hstart]
        exact hread

/-- A turn that goes through the cache serves its part of the request, or fails and
changes nothing, provided the page it fills is held by no other entry. -/
theorem LoopOk.cached_turn (h : LoopOk rq st) (hnum : 0 < st.numSectors)
    (hcached : rq.cached = true) (hc : st.self.Coherent)
    (hsole : (st.search st.curPageSector).cacheHit? st.curPageSector = none →
      ∀ p, victim st.self = some p → SoleHolder st.self p st.curPageSector) :
    ((RwState.turn rq st).2 = true → Served rq st (RwState.turn rq st).1 st.curSectors) ∧
      ((RwState.turn rq st).2 = false → (RwState.turn rq st).1.self.Coherent ∧
        ∀ s, (RwState.turn rq st).1.self.logical s = st.self.logical s) := by
  obtain ⟨A, U, hrep⟩ := h.rep
  obtain ⟨hself, hbuffer, hoffset, hfirst, hnums⟩ := search_fields st st.curPageSector
  have hpart := h.pagePart hnum
  have hpage := h.page_lt hnum
  cases turn_cases rq hrep with
  | hit p held base eq =>
      have hp := h.hit_mem hnum hrep (h.search_held _ held) base
      rw [eq]
      refine ⟨fun _ => ?_, fun hno => by cases hno⟩
      apply h.hitFrom_served hnum (hself ▸ hrep) (hself ▸ Same.refl st.self) hbuffer hoffset
        hfirst hnums (fun q hq => h.search_held _ hq) hp (hself ▸ base)
      · rw [hself]
        exact WriteBack.Coherent.mono hc fun _ hf => hf.elim
      · intro s _
        rw [hself]
  | filled p miss _ victim ok eq =>
      obtain ⟨A', U', hrep', hp, hpn, hbase⟩ := h.fill_ok hnum victim ok
      obtain ⟨hb, ho, hf, hn⟩ := filled_fields rq st p
      obtain ⟨hcoh, hlog⟩ := fill_coherent hrep.sound hc hpn hpart.aligned hpage
        (hsole miss p victim) ok
      rw [eq]
      refine ⟨fun _ => ?_, fun hno => by cases hno⟩
      exact h.hitFrom_served hnum hrep' (fill_same rq hpage p st.isWhole) hb ho hf hn
        (fun q hq => by obtain rfl : p = q := Option.some.inj hq; exact hpn) hp hbase hcoh hlog
  | fillFailed p miss _ victim failed eq =>
      have hpn := (h.fill_failed hnum victim failed).2
      rw [eq]
      refine ⟨fun hyes => (by cases hyes), fun _ => ?_⟩
      exact fill_failed_coherent hrep.sound hc hpn hpart.aligned hpage
        (hsole miss p victim) failed
  | direct _ streaming _ _ =>
      rw [hcached] at streaming
      cases streaming
  | directFailed _ streaming _ _ =>
      rw [hcached] at streaming
      cases streaming

/-! ## An inner disc without failures -/

def Faultless (c : DvmDiscCache α) : Prop :=
  (∀ n, c.inner.readFault n = none) ∧ ∀ n, c.inner.writeFault n = none

theorem Faultless.of_same {c' : DvmDiscCache α} (h : Faultless c) (hs : Same c c') :
    Faultless c' := by
  unfold Faultless
  rw [hs.readFault, hs.writeFault]
  exact h

theorem Faultless.read (h : Faultless c) (mem : Nat → α) (off first count : Nat) :
    (dvmDiscReadSectors c.inner mem off first count).2.2 = true := by
  unfold dvmDiscReadSectors
  rw [h.1]

theorem Faultless.write (h : Faultless c) (mem : Nat → α) (off first count : Nat) :
    (dvmDiscWriteSectors c.inner mem off first count).2 = true := by
  unfold dvmDiscWriteSectors
  rw [h.2]

theorem Faultless.fill (h : Faultless c) (rq : Request) {page : Nat}
    (hpage : page < c.base.numSectors) (p : Nat) (whole : Bool) :
    (RwState.fill rq c p page whole).2 = true := by
  rcases fill_cases rq hpage p whole with ⟨hf, _⟩ | ⟨_, _, _, heq⟩ | ⟨_, _, heq⟩ | ⟨_, hr, _⟩
  · rw [(flush_verdict c p).1, h.2] at hf
    simp at hf
  · rw [heq]
  · rw [heq]
  · have hread := (h.of_same (retagged_same c p page)).read
      (retagged c p page).cells (entryCell (retagged c p page) p) page
      (pageExtent (retagged c p page) page)
    exact absurd (hread.symm.trans hr) (by decide)

theorem Faultless.direct (h : Faultless st.self) (rq : Request) :
    (st.direct rq).2 = true := by
  cases hw : rq.isWrite with
  | true =>
      rw [direct_write hw]
      exact h.write _ _ _ _
  | false =>
      rw [direct_read hw]
      exact h.read _ _ _ _

theorem LoopOk.turn_ok (h : LoopOk rq st) (hnum : 0 < st.numSectors)
    (hfine : Faultless st.self) : (RwState.turn rq st).2 = true := by
  obtain ⟨A, U, hrep⟩ := h.rep
  have hself := search_self st st.curPageSector
  cases turn_cases rq hrep with
  | hit p _ _ eq => rw [eq]
  | filled p _ _ _ _ eq => rw [eq]
  | fillFailed p _ _ _ failed _ =>
      rw [hfine.fill rq (h.page_lt hnum)] at failed
      cases failed
  | direct _ _ _ eq => rw [eq]
  | directFailed _ _ failed _ =>
      rw [Faultless.direct (by rw [hself]; exact hfine)] at failed
      cases failed

/-! ## Requests inside one page -/

theorem LoopOk.fresh_miss (h : LoopOk rq st) (hnum : 0 < st.numSectors)
    (hbase : st.searchBase ≤ st.curPageSector)
    (hmiss : (st.search st.curPageSector).cacheHit? st.curPageSector = none) {q : Nat}
    (hq : q < st.self.numPages) : (st.self.entries q).baseSector ≠ st.curPageSector := by
  intro heq
  obtain ⟨A, U, hrep⟩ := h.rep
  have hA : q ∈ A := hrep.mem_allocated hq (by rw [heq]; exact h.page_ne_empty hnum)
  have hp : ∀ p, dvmDiscCacheSearch st.self st.curPageSector = some p →
      (st.search st.curPageSector).p = some p := by
    intro p hs
    unfold search
    rw [if_pos hbase, hs]
  rcases hrep.search_cases st.curPageSector with
    ⟨p, _, hs, hbaseP⟩ | ⟨p, hpA, hs, hgt, hmin⟩ | ⟨_, hnone⟩
  · have hno := cacheHit?_eq_none.mp hmiss p (hp p hs)
    rw [search_self] at hno
    exact hno hbaseP
  · have hq' := hmin q hA
    omega
  · have hq' := hnone q hA
    omega

theorem logical_kept (hc : c.Coherent) (s : Nat) :
    (∃ p < c.numPages, c.covers p s = true ∧ c.dirtyAt p s ∧ c.held p s = c.logical s) ∨
      c.inner.sectors s = c.logical s := by
  by_cases hd : ∃ p < c.numPages, c.covers p s = true ∧ c.dirtyAt p s
  · obtain ⟨p, hp, hcov, hdirty⟩ := hd
    exact .inl ⟨p, hp, hcov, hdirty, (hc.view_covered (List.mem_range.mpr hp) hcov).symm⟩
  · right
    symm
    apply hc.view_clean not_false
    intro p hp hcov hdirty
    exact hd ⟨p, List.mem_range.mp hp, hcov, hdirty⟩

/-- A request inside one page that goes through the cache, under any inner failures: if it
fails the logical content is as before and nothing that only the cache had is lost; if
it succeeds the content changes exactly on the range written. -/
theorem cached_access_lossless (h : Rep c A U)
    (hdistinct : ∀ p < c.numPages, ∀ q < c.numPages, (c.entries p).baseSector ≠ emptyPage →
      (c.entries p).baseSector = (c.entries q).baseSector → p = q)
    (hclean : ∀ p < c.numPages, ∀ s, c.covers p s = true → ¬ c.dirtyAt p s →
      c.held p s = c.inner.sectors s)
    (isAligned : Bool) (address : Nat) (buffer : Nat → α) {first num : Nat}
    (isPartial isWrite : Bool) (hin : first + num ≤ c.base.numSectors)
    (hpage : first % c.pageSz + num ≤ c.pageSz)
    (hcached : isPartial = true ∨ isAligned = false ∨ num < c.pageSz) :
    let r := dvmDiscCacheReadWrite isAligned c address buffer first num isPartial isWrite
    (r.ret = some false ∨ r.ret = some true) ∧
      (r.ret = some false → (∀ s, r.self.logical s = c.logical s) ∧
        ∀ s, (∃ p < r.self.numPages, r.self.covers p s = true ∧ r.self.dirtyAt p s ∧
            r.self.held p s = c.logical s) ∨ r.self.inner.sectors s = c.logical s) ∧
      (r.ret = some true → ∀ s, r.self.logical s =
        if isWrite = true ∧ first ≤ s ∧ s < first + num then buffer (s - first)
        else c.logical s) := by
  have hc : c.Coherent := ⟨h.sound.disjoint hdistinct,
    fun p hp s hcov hd _ => hclean p (List.mem_range.mp hp) s hcov hd⟩
  have hidle : (∀ s, c.logical s = c.logical s) ∧
      ∀ s, (∃ p < c.numPages, c.covers p s = true ∧ c.dirtyAt p s ∧
        c.held p s = c.logical s) ∨ c.inner.sectors s = c.logical s :=
    ⟨fun _ => rfl, logical_kept hc⟩
  unfold dvmDiscCacheReadWrite
  rcases rwStart_cases isAligned c address buffer first num isPartial isWrite with
    ⟨_, heq⟩ | ⟨hfirst, _, heq⟩
  · rw [heq]
    exact ⟨.inl rfl, fun _ => hidle, fun hno => by cases hno⟩
  · rw [heq]
    cases num with
    | zero =>
        refine ⟨.inr rfl, fun hno => (by cases hno), fun _ s => ?_⟩
        rw [if_neg (by omega)]
        rfl
    | succ n =>
        have hloop := h.loopOk isAligned address buffer isPartial isWrite hin
        have hcur := rwInit_single (hloop.pagePart (Nat.succ_pos n)) hpage
        have hcachedRq :
            (rwRequest isAligned c address (n + 1) isPartial isWrite).cached = true :=
          (rwRequest_cached_iff isWrite).mpr hcached
        have hturn := hloop.cached_turn (Nat.succ_pos n) hcachedRq hc
          fun hmiss _ _ _ hq _ => hloop.fresh_miss (Nat.succ_pos n) (Nat.zero_le _) hmiss hq
        rw [hcur] at hturn
        have hsingle := loop_single (rwRequest isAligned c address (n + 1) isPartial isWrite)
          (rwInit c buffer first (n + 1)) rfl (by
            intro hgo
            have hnum : _ + (n + 1) = n + 1 := (hturn.1 hgo).advanced.num
            omega)
        dsimp only
        rw [hsingle]
        generalize RwState.turn _ _ = result at hturn
        dsimp only
        refine ⟨?_, fun hret => ?_, fun hret s => ?_⟩
        · cases result.2 <;> simp
        · obtain ⟨hcoh, hlog⟩ := hturn.2 (Option.some.inj hret)
          have hsame : ∀ s, result.1.self.logical s = c.logical s := hlog
          refine ⟨hsame, fun s => ?_⟩
          rw [← hsame s]
          exact logical_kept hcoh s
        · have hcontent : result.1.self.logical =
              if isWrite = true then blit c.logical first buffer 0 (n + 1) else c.logical :=
            (hturn.1 (Option.some.inj hret)).content
          rw [hcontent]
          cases isWrite with
          | true => simp [blit]
          | false => simp

theorem cached_access_lossless_sample :
    (dvmDiscCacheReadWrite true dirtySample 64 (fun _ => 5) 1 1 true true).self.logical 1 = 5 := by
  have h := cached_access_lossless dirtySample_rep (by decide) dirtySample_clean true 64
    (fun _ => 5) true true (show 1 + 1 ≤ dirtySample.base.numSectors by decide)
    (show 1 % dirtySample.pageSz + 1 ≤ dirtySample.pageSz by decide) (.inl rfl)
  exact h.2.2 (by decide) 1

end LibDvm.Cache
