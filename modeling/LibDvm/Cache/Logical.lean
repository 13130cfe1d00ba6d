import LibDvm.Cache.Invariant
import LibDvm.Lib.WriteBack

/-! # Logical content

The entries of a cache are windows over the inner disc, and what the disc reads as
through them is its logical content. Coherence says that no sector is held twice and
that clean sectors equal the inner disc. This file shows what the operations do to
both, and that a flush of the whole cache is durable and loses nothing.
-/

namespace LibDvm.Cache

open NodeList Store

variable {α : Type} {c : DvmDiscCache α} {A U : List Nat}

/-! ## Entries as windows -/

namespace DvmDiscCache

/-- Entry `p` is allocated to a page and `s` is a sector of it on the disc. -/
def covers (c : DvmDiscCache α) (p s : Nat) : Bool :=
  decide ((c.entries p).baseSector ≠ emptyPage ∧ (c.entries p).baseSector ≤ s ∧
    s < (c.entries p).baseSector + c.pageSz ∧ s < c.base.numSectors)

def dirtyAt (c : DvmDiscCache α) (p s : Nat) : Prop :=
  (c.entries p).baseSector + (c.entries p).dirtyStart ≤ s ∧
    s < (c.entries p).baseSector + (c.entries p).dirtyEnd

/-- What the slot of `p` holds for sector `s`. -/
def held (c : DvmDiscCache α) (p s : Nat) : α :=
  c.cells (entryCell c p + (s - (c.entries p).baseSector))

def writeBack (c : DvmDiscCache α) : WriteBack Nat Nat α where
  windows := List.range c.numPages
  covers := c.covers
  dirty := c.dirtyAt
  content := c.held
  back := c.inner.sectors

/-- The inner disc overlaid with the resident pages. -/
def logical (c : DvmDiscCache α) : Nat → α := c.writeBack.view

/-- No sector is held twice, and clean sectors equal the inner disc. -/
def Coherent (c : DvmDiscCache α) : Prop := c.writeBack.Coherent fun _ => False

/-- An unallocated entry is clean, an allocated one holds a page of the disc and its
dirty range lies inside the page and the disc. -/
def Sound (c : DvmDiscCache α) : Prop :=
  ∀ p < c.numPages,
    ((c.entries p).baseSector = emptyPage ∧
      (c.entries p).dirtyEnd ≤ (c.entries p).dirtyStart) ∨
    (c.pageSz ∣ (c.entries p).baseSector ∧ (c.entries p).baseSector < c.base.numSectors ∧
      ((c.entries p).dirtyEnd ≤ (c.entries p).dirtyStart ∨
        (c.entries p).dirtyEnd ≤ c.pageSz ∧
          (c.entries p).baseSector + (c.entries p).dirtyEnd ≤ c.base.numSectors))

end DvmDiscCache

theorem covers_iff {p s : Nat} :
    c.covers p s = true ↔ (c.entries p).baseSector ≠ emptyPage ∧
      (c.entries p).baseSector ≤ s ∧ s < (c.entries p).baseSector + c.pageSz ∧
      s < c.base.numSectors := by
  simp [DvmDiscCache.covers]

theorem not_covers_iff {p s : Nat} :
    c.covers p s = false ↔ (c.entries p).baseSector = emptyPage ∨
      s < (c.entries p).baseSector ∨ (c.entries p).baseSector + c.pageSz ≤ s ∨
      c.base.numSectors ≤ s := by
  rw [← Bool.not_eq_true, covers_iff]
  omega

theorem writeBack_eq {c' : DvmDiscCache α} (hs : Same c c') (hentries : c'.entries = c.entries)
    (hcells : c'.cells = c.cells) (hsectors : c'.inner.sectors = c.inner.sectors) :
    c'.writeBack = c.writeBack := by
  unfold DvmDiscCache.writeBack DvmDiscCache.covers DvmDiscCache.dirtyAt DvmDiscCache.held
    entryCell
  rw [hs.pages, hs.pageSz, hs.base, hs.shift, hentries, hcells, hsectors]

theorem covers_eq {c' : DvmDiscCache α} (hs : Same c c') {p : Nat}
    (hbase : (c'.entries p).baseSector = (c.entries p).baseSector) : c'.covers p = c.covers p := by
  funext s
  unfold DvmDiscCache.covers
  rw [hs.pageSz, hs.base, hbase]

theorem Rep.sound (h : Rep c A U) : c.Sound := by
  intro p hp
  rcases List.mem_append.mp ((h.mem_iff p).mpr hp) with hA | hU
  · have hok := h.allocated p hA
    refine .inr ⟨hok.aligned, hok.inside, ?_⟩
    rcases hok.dirty with hclean | ⟨_, hpage, hdisc⟩
    · rw [hclean.2]
      exact .inl (Nat.zero_le _)
    · exact .inr ⟨hpage, hdisc⟩
  · have hfree := h.free p hU
    rw [hfree.empty, hfree.clean.2]
    exact .inl ⟨rfl, Nat.zero_le _⟩

theorem DvmDiscCache.Sound.disjoint (h : c.Sound)
    (hdistinct : ∀ p < c.numPages, ∀ q < c.numPages,
      (c.entries p).baseSector ≠ emptyPage →
        (c.entries p).baseSector = (c.entries q).baseSector → p = q) :
    ∀ p ∈ List.range c.numPages, ∀ q ∈ List.range c.numPages, ∀ s,
      c.covers p s = true → c.covers q s = true → p = q := by
  intro p hp q hq s hcp hcq
  rw [List.mem_range] at hp hq
  rw [covers_iff] at hcp hcq
  have haligned : ∀ r < c.numPages, (c.entries r).baseSector ≠ emptyPage →
      c.pageSz ∣ (c.entries r).baseSector := by
    intro r hr hne
    rcases h r hr with ⟨hempty, _⟩ | ⟨hdvd, _⟩
    · exact absurd hempty hne
    · exact hdvd
  apply hdistinct p hp q hq hcp.1
  exact Align.eq_of_overlap (haligned p hp hcp.1) (haligned q hq hcq.1)
    ⟨hcp.2.1, hcp.2.2.1⟩ ⟨hcq.2.1, hcq.2.2.1⟩

/-! ## Flushing one entry -/

theorem DvmDiscCache.Sound.dirty_covered (h : c.Sound) {p : Nat} (hp : p < c.numPages)
    (hlt : (c.entries p).dirtyStart < (c.entries p).dirtyEnd) :
    secWrap ((c.entries p).baseSector + (c.entries p).dirtyStart) =
        (c.entries p).baseSector + (c.entries p).dirtyStart ∧
      ∀ s, c.dirtyAt p s → c.covers p s = true := by
  have hN := c.base.numSectors_lt
  rcases h p hp with ⟨_, hclean⟩ | ⟨_, hin, hclean | ⟨hpage, hdisc⟩⟩
  · omega
  · omega
  · refine ⟨secWrap_of_lt (by omega), fun s hs => ?_⟩
    obtain ⟨h1, h2⟩ := hs
    rw [covers_iff]
    simp only [emptyPage]
    omega

theorem flush_covers (c : DvmDiscCache α) (p : Nat) :
    (dvmDiscCacheEntryFlush c p).1.covers = c.covers :=
  funext fun q => covers_eq (flush_same c p) (flush_base c p q)

theorem flush_held (c : DvmDiscCache α) (p : Nat) :
    (dvmDiscCacheEntryFlush c p).1.held = c.held := by
  funext q s
  unfold DvmDiscCache.held entryCell
  rw [flush_base, flush_cells, (flush_same c p).shift]

theorem flush_dirtyAt {p q : Nat} (hq : q ≠ p) :
    (dvmDiscCacheEntryFlush c p).1.dirtyAt q = c.dirtyAt q := by
  unfold DvmDiscCache.dirtyAt
  rw [flush_other hq]

theorem flush_clean {p : Nat} (hok : (dvmDiscCacheEntryFlush c p).2 = true) :
    ((dvmDiscCacheEntryFlush c p).1.entries p).dirtyEnd ≤
      ((dvmDiscCacheEntryFlush c p).1.entries p).dirtyStart := by
  rcases dvmDiscCacheEntryFlush_cases c p with ⟨hclean, heq⟩ | ⟨_, _, heq⟩ | ⟨_, _, heq⟩
  · rw [heq]
    exact hclean
  · rw [heq]
    have hentry : ((({ c with inner := (flushWrite c p).1 }.logged
        (flushAccess c p)).setDirty p c.pageSz 0).entries p) =
        ⟨(c.entries p).baseSector, u16 c.pageSz, u16 0⟩ := if_pos rfl
    rw [hentry]
    exact Nat.zero_le _
  · rw [heq] at hok
    cases hok

theorem flush_sectors (h : c.Sound) {p : Nat} (hp : p < c.numPages) (s : Nat) :
    (¬ c.dirtyAt p s →
      (dvmDiscCacheEntryFlush c p).1.inner.sectors s = c.inner.sectors s) ∧
    (c.dirtyAt p s → (dvmDiscCacheEntryFlush c p).2 = true →
      (dvmDiscCacheEntryFlush c p).1.inner.sectors s = c.held p s) := by
  have hwrite : (c.entries p).dirtyStart < (c.entries p).dirtyEnd →
      (¬ c.dirtyAt p s → (flushWrite c p).1.sectors s = c.inner.sectors s) ∧
      (c.dirtyAt p s → (flushWrite c p).2 = true →
        (flushWrite c p).1.sectors s = c.held p s) := by
    intro hlt
    obtain ⟨hwrap, _⟩ := h.dirty_covered hp hlt
    unfold flushWrite
    rw [hwrap]
    refine ⟨fun hs => dvmDiscWriteSectors_outside ?_, fun hs hok => ?_⟩
    · unfold DvmDiscCache.dirtyAt at hs
      omega
    · obtain ⟨h1, h2⟩ := hs
      rw [dvmDiscWriteSectors_inside hok ⟨h1, by omega⟩, DvmDiscCache.held]
      congr 1
      omega
  rcases dvmDiscCacheEntryFlush_cases c p with ⟨hclean, heq⟩ | ⟨hlt, hok, heq⟩ | ⟨hlt, _, heq⟩
  · rw [heq]
    refine ⟨fun _ => rfl, fun hs => ?_⟩
    obtain ⟨h1, h2⟩ := hs
    omega
  · rw [heq]
    exact ⟨(hwrite hlt).1, fun hs _ => (hwrite hlt).2 hs hok⟩
  · rw [heq]
    exact ⟨(hwrite hlt).1, fun _ hok => by cases hok⟩

theorem flush_sound (h : c.Sound) {p : Nat} :
    (dvmDiscCacheEntryFlush c p).1.Sound := by
  have hs := flush_same c p
  intro q hq
  rw [hs.pages] at hq
  rw [hs.pageSz, hs.base, flush_base]
  by_cases hqp : q = p
  · subst hqp
    cases hok : (dvmDiscCacheEntryFlush c q).2 with
    | false =>
        rw [flush_failed hok]
        exact h q hq
    | true =>
        have hclean := flush_clean hok
        rcases h q hq with ⟨hempty, _⟩ | ⟨hdvd, hin, _⟩
        · exact .inl ⟨hempty, hclean⟩
        · exact .inr ⟨hdvd, hin, .inl hclean⟩
  · rw [flush_other hqp]
    exact h q hq

/-- Whatever the inner write does, the flush of an entry keeps the cache coherent and
its logical content as it is. -/
theorem flush_coherent (h : c.Sound) {X : Nat → Prop} (hc : c.writeBack.Coherent X) {p : Nat}
    (hp : p < c.numPages) :
    (dvmDiscCacheEntryFlush c p).1.writeBack.Coherent X ∧
      ∀ s, (dvmDiscCacheEntryFlush c p).1.logical s = c.logical s := by
  have hpages := (flush_same c p).pages
  have hsame : ∀ q s, q ≠ p ∨ (dvmDiscCacheEntryFlush c p).2 = false →
      (dvmDiscCacheEntryFlush c p).1.dirtyAt q s = c.dirtyAt q s := by
    intro q s hor
    rcases hor with hq | hfail
    · rw [flush_dirtyAt hq]
    · unfold DvmDiscCache.dirtyAt
      rw [flush_failed hfail]
  apply hc.write_back
  · show List.range _ = List.range _
    rw [hpages]
  · exact flush_covers c p
  · exact flush_held c p
  · intro s
    obtain ⟨hout, hin⟩ := flush_sectors h hp s
    by_cases hs : c.dirtyAt p s
    · obtain ⟨h1, h2⟩ := hs
      refine .inr ⟨p, List.mem_range.mpr hp, (h.dirty_covered hp (by omega)).2 s ⟨h1, h2⟩, ?_⟩
      cases hok : (dvmDiscCacheEntryFlush c p).2 with
      | true => exact .inr (hin ⟨h1, h2⟩ hok)
      | false =>
          left
          show (dvmDiscCacheEntryFlush c p).1.dirtyAt p s
          rw [hsame p s (.inr hok)]
          exact ⟨h1, h2⟩
    · exact .inl (hout hs)
  · intro q _ s _ hclean
    have hclean' : ¬ (dvmDiscCacheEntryFlush c p).1.dirtyAt q s := hclean
    by_cases hs : c.dirtyAt q s
    · right
      cases hok : (dvmDiscCacheEntryFlush c p).2 with
      | false =>
          rw [hsame q s (.inr hok)] at hclean'
          exact absurd hs hclean'
      | true =>
          by_cases hqp : q = p
          · subst hqp
            exact (flush_sectors h hp s).2 hs hok
          · rw [hsame q s (.inl hqp)] at hclean'
            exact absurd hs hclean'
    · exact .inl hs

/-! ## Flushing the cache -/

namespace DvmDiscCache

def isDirty (c : DvmDiscCache α) (p : Nat) : Bool :=
  decide ((c.entries p).dirtyStart < (c.entries p).dirtyEnd)

/-- The number of the inner call that writes `p` back when a flush walks over `xs`. -/
def writeCall (c : DvmDiscCache α) (xs : List Nat) (p : Nat) : Nat :=
  c.inner.calls + (xs.takeWhile (· != p)).countP c.isDirty

/-- A flush that walks over `xs` has to write `p` back, and that write fails. -/
def writeFails (c : DvmDiscCache α) (xs : List Nat) (p : Nat) : Bool :=
  c.isDirty p && (c.inner.writeFault (c.writeCall xs p)).isSome

end DvmDiscCache

theorem dvmDiscWriteSectors_ok (d : InnerDisc α) (mem : Nat → α) (off first count : Nat) :
    (dvmDiscWriteSectors d mem off first count).2 = (d.writeFault d.calls).isNone ∧
      (dvmDiscWriteSectors d mem off first count).1.calls = d.calls + 1 := by
  unfold dvmDiscWriteSectors
  cases d.writeFault d.calls <;> exact ⟨rfl, rfl⟩

theorem flush_verdict (c : DvmDiscCache α) (p : Nat) :
    (dvmDiscCacheEntryFlush c p).2 =
        !(c.isDirty p && (c.inner.writeFault c.inner.calls).isSome) ∧
      (dvmDiscCacheEntryFlush c p).1.inner.calls =
        c.inner.calls + if c.isDirty p = true then 1 else 0 := by
  have hwrite := dvmDiscWriteSectors_ok c.inner c.cells
    (entryCell c p + (c.entries p).dirtyStart)
    (secWrap ((c.entries p).baseSector + (c.entries p).dirtyStart))
    ((c.entries p).dirtyEnd - (c.entries p).dirtyStart)
  have hcalls : (flushWrite c p).1.calls = c.inner.calls + 1 := hwrite.2
  rcases dvmDiscCacheEntryFlush_cases c p with ⟨hclean, heq⟩ | ⟨hlt, hok, heq⟩ | ⟨hlt, hok, heq⟩
  · have hdirty : c.isDirty p = false := decide_eq_false (by omega)
    simp [heq, hdirty]
  · have hdirty : c.isDirty p = true := decide_eq_true hlt
    have hnone : c.inner.writeFault c.inner.calls = none := by
      rw [flushWrite, hwrite.1] at hok
      simpa using hok
    rw [heq]
    simp only [hdirty, hnone]
    exact ⟨rfl, hcalls⟩
  · have hdirty : c.isDirty p = true := decide_eq_true hlt
    have hsome : (c.inner.writeFault c.inner.calls).isSome = true := by
      rw [flushWrite, hwrite.1] at hok
      simpa [Option.isSome_iff_ne_none] using hok
    rw [heq]
    simp only [hdirty, hsome]
    exact ⟨rfl, hcalls⟩

theorem flush_isDirty {p q : Nat} (hq : q ≠ p) :
    (dvmDiscCacheEntryFlush c p).1.isDirty q = c.isDirty q := by
  rw [DvmDiscCache.isDirty, flush_other hq]
  rfl

theorem flush_countP_dirty {p : Nat} {xs : List Nat} (hp : p ∉ xs) :
    xs.countP (dvmDiscCacheEntryFlush c p).1.isDirty = xs.countP c.isDirty := by
  apply List.countP_congr
  intro q hq
  have hqp : q ≠ p := fun heq => hp (heq ▸ hq)
  rw [flush_isDirty hqp]

theorem writeFails_head (c : DvmDiscCache α) (p : Nat) (xs : List Nat) :
    c.writeFails (p :: xs) p = !(dvmDiscCacheEntryFlush c p).2 := by
  rw [(flush_verdict c p).1, Bool.not_not, DvmDiscCache.writeFails, DvmDiscCache.writeCall]
  simp

theorem writeFails_tail {p q : Nat} {xs : List Nat} (hp : p ∉ xs) (hq : q ∈ xs) :
    c.writeFails (p :: xs) q = (dvmDiscCacheEntryFlush c p).1.writeFails xs q := by
  have hqp : q ≠ p := fun heq => hp (heq ▸ hq)
  have hcount := flush_countP_dirty (c := c) (p := p)
    (fun hmem : p ∈ xs.takeWhile (· != q) => hp ((List.takeWhile_sublist _).mem hmem))
  have hcall : c.writeCall (p :: xs) q = (dvmDiscCacheEntryFlush c p).1.writeCall xs q := by
    have hne : (p != q) = true := by simpa using hqp.symm
    rw [DvmDiscCache.writeCall, DvmDiscCache.writeCall, hcount, (flush_verdict c p).2,
      show (p :: xs).takeWhile (· != q) = p :: xs.takeWhile (· != q) from
        List.takeWhile_cons_of_pos hne, List.countP_cons]
    omega
  rw [DvmDiscCache.writeFails, DvmDiscCache.writeFails, hcall, flush_isDirty hqp,
    (flush_same c p).writeFault]

/-- What the walk of a flush leaves behind when it started from `c` over `xs`. -/
structure Flushed (c c' : DvmDiscCache α) (xs : List Nat) : Prop where
  same : Same c c'
  cells : c'.cells = c.cells
  links : c'.links = c.links
  sound : c'.Sound
  coherent : c'.Coherent
  logical : ∀ s, c'.logical s = c.logical s
  base : ∀ q, (c'.entries q).baseSector = (c.entries q).baseSector
  other : ∀ q, q ∉ xs → c'.entries q = c.entries q
  kept : ∀ p ∈ xs, c.writeFails xs p = true → c'.entries p = c.entries p
  clean : ∀ p ∈ xs, c.writeFails xs p = false →
    (c'.entries p).dirtyEnd ≤ (c'.entries p).dirtyStart

theorem Flushed.cons {c' : DvmDiscCache α} {p : Nat} {xs : List Nat} (hsound : c.Sound)
    (hc : c.Coherent) (hp : p < c.numPages) (hpxs : p ∉ xs)
    (hrest : Flushed (dvmDiscCacheEntryFlush c p).1 c' xs) : Flushed c c' (p :: xs) := by
  have hlog := (flush_coherent hsound hc hp).2
  refine ⟨(flush_same c p).trans hrest.same, hrest.cells.trans (flush_cells c p),
    hrest.links.trans (flush_links c p), hrest.sound, hrest.coherent, ?_, ?_, ?_, ?_, ?_⟩
  · intro s
    rw [hrest.logical, hlog]
  · intro q
    rw [hrest.base, flush_base]
  · intro q hq
    rw [List.mem_cons, not_or] at hq
    rw [hrest.other q hq.2, flush_other hq.1]
  · intro q hq hfail
    rcases List.mem_cons.mp hq with rfl | hq
    · rw [writeFails_head, Bool.not_eq_true'] at hfail
      rw [hrest.other q hpxs, flush_failed hfail]
    · have hqp : q ≠ p := fun heq => hpxs (heq ▸ hq)
      rw [writeFails_tail hpxs hq] at hfail
      rw [hrest.kept q hq hfail, flush_other hqp]
  · intro q hq hfine
    rcases List.mem_cons.mp hq with rfl | hq
    · rw [writeFails_head, Bool.not_eq_false'] at hfine
      rw [hrest.other q hpxs]
      exact flush_clean hfine
    · rw [writeFails_tail hpxs hq] at hfine
      exact hrest.clean q hq hfine

/-- The walk over the allocated entries `xs`, which stops at the first entry of `U`. -/
theorem flushLoop_spec (ret : Bool) {xs : List Nat} (hnodup : (xs ++ U).Nodup)
    (hlt : ∀ p ∈ xs ++ U, p < c.numPages)
    (halloc : ∀ p ∈ xs, (c.entries p).baseSector ≠ emptyPage)
    (hfree : ∀ p ∈ U, (c.entries p).baseSector = emptyPage)
    (hsound : c.Sound) (hc : c.Coherent) :
    Flushed c (dvmDiscCacheFlushLoop c ret (xs ++ U)).1 xs ∧
      (dvmDiscCacheFlushLoop c ret (xs ++ U)).1.inner.calls =
        c.inner.calls + xs.countP c.isDirty ∧
      (dvmDiscCacheFlushLoop c ret (xs ++ U)).2 =
        (ret && xs.all fun p => !c.writeFails xs p) := by
  induction xs generalizing c ret with
  | nil =>
      have hstop : dvmDiscCacheFlushLoop c ret ([] ++ U) = (c, ret) := by
        cases U with
        | nil => rfl
        | cons u U => simp [dvmDiscCacheFlushLoop, DvmDiscCache.unallocated, hfree u (by simp)]
      rw [hstop]
      refine ⟨⟨Same.refl c, rfl, rfl, hsound, hc, fun _ => rfl, fun _ => rfl,
        fun _ _ => rfl, by simp, by simp⟩, rfl, by simp⟩
  | cons p xs ih =>
      rw [List.cons_append, List.nodup_cons] at hnodup
      have hpxs : p ∉ xs := fun hmem => hnodup.1 (List.mem_append_left U hmem)
      have hp : p < c.numPages := hlt p (by simp)
      have hcoh := (flush_coherent hsound hc hp).1
      have hstep : dvmDiscCacheFlushLoop c ret (p :: xs ++ U) =
          dvmDiscCacheFlushLoop (dvmDiscCacheEntryFlush c p).1
            (ret && (dvmDiscCacheEntryFlush c p).2) (xs ++ U) := by
        have hp' : ¬ c.unallocated p = true := by
          simpa [DvmDiscCache.unallocated] using halloc p (by simp)
        rw [List.cons_append, dvmDiscCacheFlushLoop, if_neg hp']
      obtain ⟨hrest, hnum, hret⟩ := ih (c := (dvmDiscCacheEntryFlush c p).1)
        (ret && (dvmDiscCacheEntryFlush c p).2) hnodup.2
        (by rw [(flush_same c p).pages]; exact fun q hq => hlt q (List.mem_cons_of_mem p hq))
        (fun q hq => by rw [flush_base]; exact halloc q (List.mem_cons_of_mem p hq))
        (fun q hq => by rw [flush_base]; exact hfree q hq) (flush_sound hsound) hcoh
      rw [hstep]
      refine ⟨hrest.cons hsound hc hp hpxs, ?_, ?_⟩
      · rw [hnum, (flush_verdict c p).2, flush_countP_dirty hpxs, List.countP_cons]
        omega
      · have htail : (xs.all fun q => !(dvmDiscCacheEntryFlush c p).1.writeFails xs q) =
            xs.all fun q => !c.writeFails (p :: xs) q := by
          rw [Bool.eq_iff_iff, List.all_eq_true, List.all_eq_true]
          refine forall₂_congr fun q hq => ?_
          rw [writeFails_tail hpxs hq]
        rw [hret, htail, List.all_cons, writeFails_head, Bool.not_not, Bool.and_assoc]

theorem flushLoop_idle (ret : Bool) (xs : List Nat)
    (hclean : ∀ p ∈ xs, (c.entries p).dirtyEnd ≤ (c.entries p).dirtyStart) :
    dvmDiscCacheFlushLoop c ret xs = (c, ret) := by
  induction xs with
  | nil => rfl
  | cons p xs ih =>
      have hflush : dvmDiscCacheEntryFlush c p = (c, true) := if_pos (hclean p (by simp))
      rw [dvmDiscCacheFlushLoop, hflush]
      split
      · rfl
      · dsimp only
        rw [Bool.and_true]
        exact ih fun q hq => hclean q (List.mem_cons_of_mem p hq)

theorem logical_eq_inner (hc : c.Coherent)
    (hclean : ∀ p < c.numPages, (c.entries p).dirtyEnd ≤ (c.entries p).dirtyStart) (s : Nat) :
    c.logical s = c.inner.sectors s := by
  apply hc.view_clean not_false
  intro p hp _ hdirty
  have hp' := hclean p (List.mem_range.mp hp)
  obtain ⟨h1, h2⟩ : c.dirtyAt p s := hdirty
  omega

/-- A cache state a flush can start from: every entry listed once, the unallocated ones
last, everything sound and coherent. -/
structure Flushable (c : DvmDiscCache α) (A U : List Nat) : Prop where
  linked : c.links.Linked (A ++ U)
  visits : (A ++ U).Perm (List.range c.numPages)
  allocated : ∀ p ∈ A, (c.entries p).baseSector ≠ emptyPage
  free : ∀ p ∈ U, (c.entries p).baseSector = emptyPage
  sound : c.Sound
  coherent : c.Coherent

theorem Rep.flushable (h : Rep c A U) (hc : c.Coherent) : Flushable c A U where
  linked := h.linked
  visits := h.visits
  allocated := fun _ hp => h.base_ne hp
  free := fun p hp => (h.free p hp).empty
  sound := h.sound
  coherent := hc

theorem Flushable.mem_iff (h : Flushable c A U) (p : Nat) : p ∈ A ++ U ↔ p < c.numPages :=
  mem_of_visits h.visits p

theorem Flushable.order_eq (h : Flushable c A U) : c.order = A ++ U :=
  order_of_visits h.linked h.visits

theorem Flushable.unlisted_clean (h : Flushable c A U) {p : Nat} (hp : p < c.numPages)
    (hA : p ∉ A) : c.isDirty p = false := by
  have hU : p ∈ U := (List.mem_append.mp ((h.mem_iff p).mpr hp)).resolve_left hA
  have hN := c.base.numSectors_lt
  have hempty := h.free p hU
  rcases h.sound p hp with ⟨_, hd⟩ | ⟨_, hin, _⟩
  · exact decide_eq_false (by omega)
  · rw [hempty] at hin
    simp only [emptyPage] at hin
    omega

theorem Flushed.finish {c' : DvmDiscCache α} {xs : List Nat} (h : Flushed c c' xs) :
    Flushed c { c' with inner := (dvmDiscFlush c'.inner).1 } xs := by
  have hs := dvmDiscFlush_same c'
  have hstate : ({ c' with inner := (dvmDiscFlush c'.inner).1 } : DvmDiscCache α).writeBack =
      c'.writeBack := writeBack_eq hs rfl rfl rfl
  refine ⟨h.same.trans hs, h.cells, h.links, h.sound, ?_, fun s => ?_, h.base, h.other, h.kept,
    h.clean⟩
  · rw [DvmDiscCache.Coherent, hstate]
    exact h.coherent
  · rw [DvmDiscCache.logical, hstate]
    exact h.logical s

theorem Flushable.flush (h : Flushable c A U) :
    Flushed c (dvmDiscCacheFlush c).1 A ∧
      (dvmDiscCacheFlush c).2 = ((A.all fun p => !c.writeFails A p) &&
        !c.inner.flushFault (c.inner.calls + A.countP c.isDirty)) := by
  obtain ⟨hflushed, hcalls, hret⟩ := flushLoop_spec true h.linked.nodup
    (fun p hp => (h.mem_iff p).mp hp) h.allocated h.free h.sound h.coherent
  rw [dvmDiscCacheFlush, h.order_eq]
  refine ⟨hflushed.finish, ?_⟩
  dsimp only
  rw [dvmDiscFlush, hret, hcalls, hflushed.same.flushFault, Bool.true_and]

theorem Flushable.flush_ok (h : Flushable c A U) :
    (dvmDiscCacheFlush c).2 = true ↔ (∀ p < c.numPages, c.writeFails A p = false) ∧
      c.inner.flushFault (c.inner.calls + A.countP c.isDirty) = false := by
  rw [h.flush.2, Bool.and_eq_true, List.all_eq_true]
  simp only [Bool.not_eq_true']
  refine and_congr_left fun _ => ⟨fun hall p hp => ?_, fun hall p hp => ?_⟩
  · by_cases hA : p ∈ A
    · exact hall p hA
    · rw [DvmDiscCache.writeFails, h.unlisted_clean hp hA]
      rfl
  · exact hall p ((h.mem_iff p).mp (List.mem_append_left U hp))

theorem Flushable.flush_clean (h : Flushable c A U) {p : Nat} (hp : p < c.numPages)
    (hfine : c.writeFails A p = false) :
    ((dvmDiscCacheFlush c).1.entries p).dirtyEnd ≤
      ((dvmDiscCacheFlush c).1.entries p).dirtyStart := by
  by_cases hA : p ∈ A
  · exact h.flush.1.clean p hA hfine
  · rw [h.flush.1.other p hA]
    have hd := of_decide_eq_false (h.unlisted_clean hp hA)
    omega

theorem Flushable.flush_idle (h : Flushable c A U) (hok : (dvmDiscCacheFlush c).2 = true) :
    (∀ s, (dvmDiscCacheFlush c).1.inner.sectors s = c.logical s) ∧
      (dvmDiscCacheFlush (dvmDiscCacheFlush c).1).1.log = (dvmDiscCacheFlush c).1.log := by
  have hflushed := h.flush.1
  have hall : ∀ p < (dvmDiscCacheFlush c).1.numPages,
      ((dvmDiscCacheFlush c).1.entries p).dirtyEnd ≤
        ((dvmDiscCacheFlush c).1.entries p).dirtyStart := by
    intro p hp
    rw [hflushed.same.pages] at hp
    exact h.flush_clean hp ((h.flush_ok.mp hok).1 p hp)
  refine ⟨fun s => ?_, ?_⟩
  · rw [← logical_eq_inner hflushed.coherent hall s]
    exact hflushed.logical s
  · have horder : (dvmDiscCacheFlush c).1.order = A ++ U := by
      rw [DvmDiscCache.order, hflushed.links, hflushed.same.pages]
      exact h.order_eq
    have hidle := flushLoop_idle (c := (dvmDiscCacheFlush c).1) true
      (dvmDiscCacheFlush c).1.order (by
        intro p hp
        rw [horder, h.mem_iff] at hp
        exact hall p (by rw [hflushed.same.pages]; exact hp))
    rw [dvmDiscCacheFlush, hidle]

/-- A flush under any pattern of inner failures: the logical content stays, exactly the
entries whose write failed stay dirty, and success means that the inner disc has
everything and a further flush writes nothing. -/
theorem flush_durable (hlist : c.links.Linked (A ++ U))
    (hvisits : (A ++ U).Perm (List.range c.numPages))
    (halloc : ∀ p ∈ A, (c.entries p).baseSector ≠ emptyPage)
    (hfree : ∀ p ∈ U, (c.entries p).baseSector = emptyPage) (hsound : c.Sound)
    (hdistinct : ∀ p < c.numPages, ∀ q < c.numPages, (c.entries p).baseSector ≠ emptyPage →
      (c.entries p).baseSector = (c.entries q).baseSector → p = q)
    (hclean : ∀ p < c.numPages, ∀ s, c.covers p s = true → ¬ c.dirtyAt p s →
      c.held p s = c.inner.sectors s) :
    let c' := (dvmDiscCacheFlush c).1
    (∀ s, c'.logical s = c.logical s) ∧
      c'.cells = c.cells ∧
      (∀ p < c.numPages, c.writeFails A p = true → c'.entries p = c.entries p) ∧
      (∀ p < c.numPages, c.writeFails A p = false →
        (c'.entries p).baseSector = (c.entries p).baseSector ∧
          (c'.entries p).dirtyEnd ≤ (c'.entries p).dirtyStart) ∧
      ((dvmDiscCacheFlush c).2 = true ↔ (∀ p < c.numPages, c.writeFails A p = false) ∧
        c.inner.flushFault (c.inner.calls + A.countP c.isDirty) = false) ∧
      ((dvmDiscCacheFlush c).2 = true → (∀ s, c'.inner.sectors s = c.logical s) ∧
        (dvmDiscCacheFlush c').1.log = c'.log) := by
  have hcoherent : c.Coherent := ⟨hsound.disjoint hdistinct,
    fun p hp s hcov hd _ => hclean p (List.mem_range.mp hp) s hcov hd⟩
  have h : Flushable c A U := ⟨hlist, hvisits, halloc, hfree, hsound, hcoherent⟩
  have hflushed := h.flush.1
  refine ⟨hflushed.logical, hflushed.cells, ?_, ?_, h.flush_ok, h.flush_idle⟩
  · intro p _ hfail
    by_cases hA : p ∈ A
    · exact hflushed.kept p hA hfail
    · exact hflushed.other p hA
  · exact fun p hp hfine => ⟨hflushed.base p, h.flush_clean hp hfine⟩

/-- The sample cache with sector 1 dirty in entry 0, on a disc whose first write fails. -/
def dirtySample : DvmDiscCache Nat :=
  { sampleCache with
    inner := { sampleCache.inner with
      writeFault := fun n => if n = 0 then some fun _ => 9 else none }
    cells := fun i => if i = 0 then 7 else 0
    entries := fun p => if p = 0 then ⟨1, 0, 1⟩ else ⟨emptyPage, 1, 0⟩ }

theorem dirtySample_rep : Rep dirtySample [0] [1, 2] where
  linked := initialLinks_linked (by decide)
  visits := List.Perm.refl _
  allocated := by
    intro p hp
    rw [List.mem_singleton] at hp
    subst hp
    exact ⟨by decide, by decide, .inr (by decide)⟩
  free := by
    intro p hp
    have hne : p ≠ 0 := by
      intro heq
      subst heq
      simp at hp
    have hentry : dirtySample.entries p = ⟨emptyPage, 1, 0⟩ := if_neg hne
    rw [hentry]
    exact ⟨rfl, rfl, rfl⟩
  page_le := by decide
  pos := by decide

theorem dirtySample_clean : ∀ p < dirtySample.numPages, ∀ s, dirtySample.covers p s = true →
    ¬ dirtySample.dirtyAt p s → dirtySample.held p s = dirtySample.inner.sectors s := by
  intro p hp s hcov hd
  have hrep := dirtySample_rep
  rw [covers_iff] at hcov
  have hA := hrep.mem_allocated hp hcov.1
  rw [List.mem_singleton] at hA
  subst hA
  have hpage : dirtySample.pageSz = 1 := rfl
  have hentry : dirtySample.entries 0 = ⟨1, 0, 1⟩ := rfl
  rw [hpage, hentry] at hcov
  rw [DvmDiscCache.dirtyAt, hentry] at hd
  dsimp only at hcov hd
  omega

theorem flush_durable_sample : (dvmDiscCacheFlush dirtySample).1.logical 1 = 7 := by
  have h := flush_durable dirtySample_rep.linked dirtySample_rep.visits (by decide) (by decide)
    dirtySample_rep.sound (by decide) dirtySample_clean
  rw [h.1 1]
  rfl

end LibDvm.Cache
