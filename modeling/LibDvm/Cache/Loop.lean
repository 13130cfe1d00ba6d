import LibDvm.Cache.Ops

/-! # The request loop

One turn of the loop is inverted into its outcomes: a hit, a fill followed by the
hit, a fill that fails, a direct transfer. `LoopOk` is what every turn preserves
whatever the inner disc answers, and as each turn that goes on moves at least one
sector the loop always returns.
-/

namespace LibDvm.Cache

open NodeList Store RwState

variable {α : Type} {rq : Request} {st : RwState α}

/-! ## The page of a turn -/

structure PagePart (st : RwState α) : Prop where
  aligned : st.self.pageSz ∣ st.curPageSector
  split : st.curPageSector + st.curPageOffset = st.firstSector
  fits : st.curPageOffset + st.curSectors ≤ st.self.pageSz
  pos : 0 < st.curSectors
  le : st.curSectors ≤ st.numSectors
  whole : st.isWhole = true ↔ st.curPageOffset = 0 ∧ st.curSectors = st.self.pageSz
  rest : st.curSectors < st.numSectors → st.curPageOffset + st.curSectors = st.self.pageSz
  down : st.curPageSector = Align.down st.self.pageSz st.firstSector

theorem pagePart_of_shift (hshift : st.self.pageShift < 32) (hfirst : st.firstSector < 2 ^ 32)
    (hnum : 0 < st.numSectors) : PagePart st := by
  have hpos := pageSz_pos st.self
  have hoff : st.curPageOffset = st.firstSector % st.self.pageSz := by
    rw [curPageOffset, pageSz_eq]
    exact Align.and_low_mask st.firstSector st.self.pageShift
  have hdown : st.curPageSector = Align.down st.self.pageSz st.firstSector := by
    rw [curPageSector, secNot, pageSz_eq]
    exact Align.and_high_mask hfirst (by omega)
  have hlt : st.firstSector % st.self.pageSz < st.self.pageSz := Nat.mod_lt _ hpos
  have hcur : st.curSectors = min st.numSectors (st.self.pageSz - st.curPageOffset) := by
    unfold curSectors
    dsimp only
    split <;> omega
  refine ⟨?_, ?_, ?_, ?_, ?_, ?_, ?_, hdown⟩
  · rw [hdown]
    exact Align.dvd_down _ _
  · rw [hdown, hoff]
    exact Align.down_add_mod _ _
  · omega
  · omega
  · omega
  · simp [isWhole]
  · omega

theorem pagePart (hpage : st.self.pageSz ≤ 2 ^ 15) (hfirst : st.firstSector < 2 ^ 32)
    (hnum : 0 < st.numSectors) : PagePart st :=
  pagePart_of_shift (Nat.lt_of_le_of_lt (pageShift_le hpage) (by decide)) hfirst hnum

/-! ## One turn -/

theorem search_fields (st : RwState α) (page : Nat) :
    (st.search page).self = st.self ∧ (st.search page).buffer = st.buffer ∧
      (st.search page).offset = st.offset ∧
      (st.search page).firstSector = st.firstSector ∧
      (st.search page).numSectors = st.numSectors := by
  unfold search
  split
  · split <;> exact ⟨rfl, rfl, rfl, rfl, rfl⟩
  · exact ⟨rfl, rfl, rfl, rfl, rfl⟩

@[simp] theorem advance_self (st : RwState α) (n : Nat) : (st.advance n).self = st.self := rfl

@[simp] theorem advance_buffer (st : RwState α) (n : Nat) :
    (st.advance n).buffer = st.buffer := rfl

@[simp] theorem advance_p (st : RwState α) (n : Nat) : (st.advance n).p = st.p := rfl

@[simp] theorem advance_searchBase (st : RwState α) (n : Nat) :
    (st.advance n).searchBase = st.searchBase := rfl

@[simp] theorem search_self (st : RwState α) (page : Nat) : (st.search page).self = st.self :=
  (search_fields st page).1

theorem cacheHit?_eq_some {page p : Nat} :
    st.cacheHit? page = some p ↔ st.p = some p ∧ (st.self.entries p).baseSector = page := by
  simp [cacheHit?, Option.filter_eq_some_iff]

theorem cacheHit?_eq_none {page : Nat} :
    st.cacheHit? page = none ↔ ∀ p, st.p = some p → (st.self.entries p).baseSector ≠ page := by
  simp [cacheHit?, Option.filter_eq_none_iff]

def Request.cached (rq : Request) : Bool := rq.isPartial || !rq.isAligned

/-- The loop's state once the victim `p` has been filled. -/
def filled (rq : Request) (st : RwState α) (p : Nat) : RwState α :=
  { st.search st.curPageSector with
    self := (fill rq st.self p st.curPageSector st.isWhole).1
    p := some p }

/-- The state after a turn that ends in `_cacheHit`, entered from `from_`. -/
def hitFrom (rq : Request) (st from_ : RwState α) (p : Nat) : RwState α :=
  (from_.cacheHit rq p st.curPageOffset st.curSectors st.isWhole).advance st.curSectors

inductive TurnCase (rq : Request) (st : RwState α) : Prop where
  | hit (p : Nat) (held : (st.search st.curPageSector).p = some p)
      (base : (st.self.entries p).baseSector = st.curPageSector)
      (eq : turn rq st = (hitFrom rq st (st.search st.curPageSector) p, true))
  | filled (p : Nat) (miss : (st.search st.curPageSector).cacheHit? st.curPageSector = none)
      (cached : rq.cached = true) (victim : victim st.self = some p)
      (ok : (fill rq st.self p st.curPageSector st.isWhole).2 = true)
      (eq : turn rq st = (hitFrom rq st (filled rq st p) p, true))
  | fillFailed (p : Nat) (miss : (st.search st.curPageSector).cacheHit? st.curPageSector = none)
      (cached : rq.cached = true) (victim : victim st.self = some p)
      (failed : (fill rq st.self p st.curPageSector st.isWhole).2 = false)
      (eq : turn rq st = (filled rq st p, false))
  | direct (miss : (st.search st.curPageSector).cacheHit? st.curPageSector = none)
      (streaming : rq.cached = false)
      (ok : ((st.search st.curPageSector).direct rq).2 = true)
      (eq : turn rq st = (((st.search st.curPageSector).direct rq).1.advance
        (st.search st.curPageSector).directSectors, true))
  | directFailed (miss : (st.search st.curPageSector).cacheHit? st.curPageSector = none)
      (streaming : rq.cached = false)
      (failed : ((st.search st.curPageSector).direct rq).2 = false)
      (eq : turn rq st = (((st.search st.curPageSector).direct rq).1, false))

theorem turn_cases_of_victim (rq : Request) {p : Nat} (hvictim : victim st.self = some p) :
    TurnCase rq st := by
  have hs := search_self st st.curPageSector
  cases hhit : (st.search st.curPageSector).cacheHit? st.curPageSector with
  | some p =>
      obtain ⟨hp, hbase⟩ := cacheHit?_eq_some.mp hhit
      rw [hs] at hbase
      refine .hit p hp hbase ?_
      simp only [turn, hhit]
      rfl
  | none =>
      cases hcached : rq.cached with
      | true =>
          have hcond : (rq.isPartial || !rq.isAligned) = true := hcached
          cases hok : (fill rq st.self p st.curPageSector st.isWhole).2 with
          | true =>
              refine .filled p hhit hcached hvictim hok ?_
              simp only [turn, hhit, hcond, hs, hvictim, hok, if_true]
              rfl
          | false =>
              refine .fillFailed p hhit hcached hvictim hok ?_
              simp only [turn, hhit, hcond, hs, hvictim, hok, if_true]
              rfl
      | false =>
          have hcond : ¬ (rq.isPartial || !rq.isAligned) = true := by
            rw [show (rq.isPartial || !rq.isAligned) = false from hcached]
            decide
          cases hok : ((st.search st.curPageSector).direct rq).2 with
          | true =>
              refine .direct hhit hcached hok ?_
              simp only [turn, hhit, if_neg hcond, hok, if_true]
          | false =>
              refine .directFailed hhit hcached hok ?_
              simp only [turn, hhit, if_neg hcond, hok]
              rfl

theorem turn_cases (rq : Request) {A U : List Nat} (h : Rep st.self A U) : TurnCase rq st := by
  obtain ⟨_, p, _, hvictim, _⟩ := h.victim_spec
  exact turn_cases_of_victim rq hvictim

/-! ## What every turn preserves -/

/-- The loop invariant: the representation, the rest of the request inside the disc,
the remembered entry, and the caller's buffer of the right length. -/
structure LoopOk (rq : Request) (st : RwState α) : Prop where
  rep : ∃ A U, Rep st.self A U
  inside : st.firstSector + st.numSectors ≤ st.self.base.numSectors
  held : ∀ p, st.p = some p → p < st.self.numPages
  length : rq.length = (st.offset + st.numSectors) * st.self.base.sectorSz

theorem LoopOk.page_le (h : LoopOk rq st) : st.self.pageSz ≤ 2 ^ 15 := by
  obtain ⟨A, U, hrep⟩ := h.rep
  exact hrep.page_le

theorem LoopOk.first_lt (h : LoopOk rq st) : st.firstSector < 2 ^ 32 :=
  Nat.lt_of_le_of_lt (Nat.le_trans (Nat.le_add_right _ _) h.inside) st.self.base.numSectors_lt

theorem LoopOk.pagePart (h : LoopOk rq st) (hnum : 0 < st.numSectors) : PagePart st :=
  LibDvm.Cache.pagePart h.page_le h.first_lt hnum

theorem LoopOk.search_held (h : LoopOk rq st) (page : Nat) {p : Nat}
    (hp : (st.search page).p = some p) : p < st.self.numPages := by
  obtain ⟨A, U, hrep⟩ := h.rep
  unfold search at hp
  split at hp
  · rcases hrep.search_cases page with ⟨q, hq, heq, _⟩ | ⟨q, hq, heq, _, _⟩ | ⟨heq, _⟩
    · rw [heq] at hp
      obtain rfl : q = p := by simpa using hp
      exact hrep.lt_of_mem hq
    · rw [heq] at hp
      obtain rfl : q = p := by simpa using hp
      exact hrep.lt_of_mem hq
    · rw [heq] at hp
      simp at hp
  · exact h.held p hp

/-- `st'` stands `n` sectors further in the request than `st`. -/
structure Advanced (st st' : RwState α) (n : Nat) : Prop where
  offset : st'.offset = st.offset + n
  first : st'.firstSector = st.firstSector + n
  num : st'.numSectors + n = st.numSectors

theorem Advanced.trans {st₁ st₂ st₃ : RwState α} {m n : Nat} (h₁ : Advanced st₁ st₂ m)
    (h₂ : Advanced st₂ st₃ n) : Advanced st₁ st₃ (m + n) := by
  obtain ⟨ho₁, hf₁, hn₁⟩ := h₁
  obtain ⟨ho₂, hf₂, hn₂⟩ := h₂
  exact ⟨by omega, by omega, by omega⟩

structure Level (st st' : RwState α) : Prop where
  offset : st'.offset = st.offset
  first : st'.firstSector = st.firstSector
  num : st'.numSectors = st.numSectors

theorem Level.advanced {st₁ st₂ st₃ : RwState α} {n : Nat} (hl : Level st₁ st₂)
    (ha : Advanced st₂ st₃ n) : Advanced st₁ st₃ n := by
  obtain ⟨ho, hf, hn⟩ := hl
  obtain ⟨ho', hf', hn'⟩ := ha
  exact ⟨by omega, by omega, by omega⟩

theorem LoopOk.refit (h : LoopOk rq st) {st' : RwState α} (hl : Level st st')
    (hs : Same st.self st'.self) (hrep : ∃ A U, Rep st'.self A U)
    (hheld : ∀ p, st'.p = some p → p < st.self.numPages) : LoopOk rq st' := by
  refine ⟨hrep, ?_, ?_, ?_⟩
  · rw [hl.first, hl.num, hs.base]
    exact h.inside
  · rw [hs.pages]
    exact hheld
  · rw [hl.offset, hl.num, hs.base]
    exact h.length

theorem LoopOk.advance (h : LoopOk rq st) (n : Nat) (hn : n ≤ st.numSectors) :
    LoopOk rq (st.advance n) ∧ Advanced st (st.advance n) n := by
  have hlt := st.self.base.numSectors_lt
  have hin := h.inside
  have hfirst : (st.advance n).firstSector = st.firstSector + n :=
    secWrap_of_lt (by omega)
  have hnum : (st.advance n).numSectors = st.numSectors - n := secSub_of_le hn (by omega)
  refine ⟨⟨h.rep, ?_, h.held, ?_⟩, ⟨rfl, hfirst, by omega⟩⟩
  · rw [hfirst, hnum]
    show st.firstSector + n + (st.numSectors - n) ≤ st.self.base.numSectors
    omega
  · rw [hnum, h.length]
    show _ = (st.offset + n + (st.numSectors - n)) * st.self.base.sectorSz
    congr 1
    omega

theorem LoopOk.page_lt (h : LoopOk rq st) (hnum : 0 < st.numSectors) :
    st.curPageSector < st.self.base.numSectors := by
  have hin := h.inside
  have hsplit := (h.pagePart hnum).split
  omega

theorem LoopOk.page_ne_empty (h : LoopOk rq st) (hnum : 0 < st.numSectors) :
    st.curPageSector ≠ emptyPage := by
  have hlt := h.page_lt hnum
  have hN := st.self.base.numSectors_lt
  simp only [emptyPage]
  omega

theorem LoopOk.hit_mem (h : LoopOk rq st) (hnum : 0 < st.numSectors) {A U : List Nat}
    (hrep : Rep st.self A U) {p : Nat} (hp : p < st.self.numPages)
    (hbase : (st.self.entries p).baseSector = st.curPageSector) : p ∈ A := by
  apply hrep.mem_allocated hp
  rw [hbase]
  exact h.page_ne_empty hnum

theorem LoopOk.hitFrom (h : LoopOk rq st) (hnum : 0 < st.numSectors) {from_ : RwState α}
    {A U : List Nat} {p : Nat} (hrep : Rep from_.self A U) (hs : Same st.self from_.self)
    (hfirst : from_.firstSector = st.firstSector) (hnums : from_.numSectors = st.numSectors)
    (hoffset : from_.offset = st.offset)
    (hheld : ∀ q, from_.p = some q → q < st.self.numPages) (hp : p ∈ A)
    (hbase : (from_.self.entries p).baseSector = st.curPageSector) :
    LoopOk rq (LibDvm.Cache.hitFrom rq st from_ p) ∧
      Advanced st (LibDvm.Cache.hitFrom rq st from_ p) st.curSectors := by
  have hpart := h.pagePart hnum
  have hin := h.inside
  have hsplit := hpart.split
  have hle := hpart.le
  have hhit := hit_same rq from_ p st.curPageOffset st.curSectors st.isWhole
  obtain ⟨ho, hf, hn, hpp, _⟩ := hit_loop rq from_ p st.curPageOffset st.curSectors st.isWhole
  have hrep' := hrep.hit rq st.isWhole hp hpart.pos
    (by rw [hs.pageSz]; exact hpart.fits) (by rw [hbase, hs.base]; omega)
  have hlevel : Level st (from_.cacheHit rq p st.curPageOffset st.curSectors st.isWhole) :=
    ⟨ho.trans hoffset, hf.trans hfirst, hn.trans hnums⟩
  have hhit' := h.refit hlevel (hs.trans hhit) ⟨_, U, hrep'⟩ (by rw [hpp]; exact hheld)
  obtain ⟨hok, hadv⟩ := hhit'.advance st.curSectors (by rw [hlevel.num]; exact hle)
  exact ⟨hok, hlevel.advanced hadv⟩

theorem filled_fields (rq : Request) (st : RwState α) (p : Nat) :
    (filled rq st p).buffer = st.buffer ∧ (filled rq st p).offset = st.offset ∧
      (filled rq st p).firstSector = st.firstSector ∧
      (filled rq st p).numSectors = st.numSectors :=
  (search_fields st st.curPageSector).2

theorem LoopOk.fill_ok (h : LoopOk rq st) (hnum : 0 < st.numSectors) {p : Nat}
    (hvictim : victim st.self = some p)
    (hok : (fill rq st.self p st.curPageSector st.isWhole).2 = true) :
    ∃ A U, Rep (filled rq st p).self A U ∧ p ∈ A ∧ p < st.self.numPages ∧
      ((filled rq st p).self.entries p).baseSector = st.curPageSector := by
  obtain ⟨A, U, hrep⟩ := h.rep
  obtain ⟨A', v, U', hv, hat⟩ := hrep.victim_spec
  obtain rfl : v = p := by rw [hvictim] at hv; exact (Option.some.inj hv).symm
  obtain ⟨hrep', hentries⟩ := hrep.fill_ok hat (h.pagePart hnum).aligned (h.page_lt hnum) hok
  have hmem : v ∈ A' ++ [v] := by simp
  have hpages := (fill_same rq (h.page_lt hnum) v st.isWhole).pages
  refine ⟨A' ++ [v], U', hrep', hmem, ?_, ?_⟩
  · rw [← hpages]
    exact hrep'.lt_of_mem hmem
  · show ((fill rq st.self v st.curPageSector st.isWhole).1.entries v).baseSector = _
    rw [hentries, retagged_entry]

theorem LoopOk.fill_failed (h : LoopOk rq st) (hnum : 0 < st.numSectors) {p : Nat}
    (hvictim : victim st.self = some p)
    (hfail : (fill rq st.self p st.curPageSector st.isWhole).2 = false) :
    (∃ A U, Rep (filled rq st p).self A U) ∧ p < st.self.numPages := by
  obtain ⟨A, U, hrep⟩ := h.rep
  obtain ⟨A', v, U', hv, hat⟩ := hrep.victim_spec
  obtain rfl : v = p := by rw [hvictim] at hv; exact (Option.some.inj hv).symm
  refine ⟨hrep.fill_failed hat (h.pagePart hnum).aligned (h.page_lt hnum) hfail, ?_⟩
  apply (hrep.mem_iff v).mp
  rcases hat with ⟨rfl, _, _⟩ | ⟨_, rfl⟩ <;> simp

theorem LoopOk.directLimit_ne (h : LoopOk rq st) (hnum : 0 < st.numSectors)
    (hmiss : (st.search st.curPageSector).cacheHit? st.curPageSector = none) :
    (st.search st.curPageSector).directLimit < 2 ^ 32 ∧
      (st.search st.curPageSector).directLimit ≠ st.firstSector := by
  obtain ⟨A, U, hrep⟩ := h.rep
  have hin := h.inside
  have hlt := st.self.base.numSectors_lt
  unfold directLimit
  rw [search_self]
  cases hp : (st.search st.curPageSector).p with
  | none => exact ⟨hlt, by dsimp only; omega⟩
  | some p =>
      have hne := cacheHit?_eq_none.mp hmiss p hp
      rw [search_self] at hne
      dsimp only
      rcases List.mem_append.mp ((hrep.mem_iff p).mpr (h.search_held _ hp)) with hA | hU
      · have hpA := hrep.allocated p hA
        refine ⟨Nat.lt_trans hpA.inside hlt, fun heq => hne ?_⟩
        rw [(h.pagePart hnum).down, ← heq, Align.down_eq_self (pageSz_pos st.self) hpA.aligned]
      · rw [(hrep.free p hU).empty]
        simp only [emptyPage]
        omega

theorem LoopOk.direct_pos (h : LoopOk rq st) (hnum : 0 < st.numSectors)
    (hmiss : (st.search st.curPageSector).cacheHit? st.curPageSector = none) :
    0 < (st.search st.curPageSector).directSectors ∧
      (st.search st.curPageSector).directSectors ≤ st.numSectors := by
  obtain ⟨hlt, hne⟩ := h.directLimit_ne hnum hmiss
  obtain ⟨_, _, _, hfirst, hnums⟩ := search_fields st st.curPageSector
  have hpos := secSub_pos hlt h.first_lt hne
  unfold directSectors
  rw [hfirst, hnums]
  dsimp only
  split <;> omega

def directAccess (rq : Request) (st : RwState α) : Access :=
  .transfer rq.isWrite (st.callerPlace rq) st.firstSector st.directSectors

theorem direct_write (hw : rq.isWrite = true) (st : RwState α) :
    st.direct rq =
      let w := dvmDiscWriteSectors st.self.inner st.buffer st.offset st.firstSector
        st.directSectors
      ({ st with self := { st.self.logged (directAccess rq st) with inner := w.1 } }, w.2) := by
  simp only [direct, directAccess, if_pos hw]
  rfl

theorem direct_read (hr : rq.isWrite = false) (st : RwState α) :
    st.direct rq =
      let r := dvmDiscReadSectors st.self.inner st.buffer st.offset st.firstSector
        st.directSectors
      ({ st with
          self := { st.self.logged (directAccess rq st) with inner := r.1 }
          buffer := r.2.1 }, r.2.2) := by
  simp only [direct, directAccess, hr]
  rfl

theorem direct_same (rq : Request) (st : RwState α) : Same st.self (st.direct rq).1.self := by
  cases hw : rq.isWrite with
  | true =>
      have hf := dvmDiscWriteSectors_faults st.self.inner st.buffer st.offset st.firstSector
        st.directSectors
      rw [direct_write hw]
      exact ⟨rfl, rfl, rfl, rfl, rfl, hf.1, hf.2.1, hf.2.2⟩
  | false =>
      have hr := dvmDiscReadSectors_faults st.self.inner st.buffer st.offset st.firstSector
        st.directSectors
      rw [direct_read hw]
      exact ⟨rfl, rfl, rfl, rfl, rfl, hr.1, hr.2.1, hr.2.2⟩

theorem direct_fields (rq : Request) (st : RwState α) :
    (st.direct rq).1.self.links = st.self.links ∧
      (st.direct rq).1.self.entries = st.self.entries ∧
      (st.direct rq).1.self.cells = st.self.cells ∧
      (st.direct rq).1.offset = st.offset ∧
      (st.direct rq).1.firstSector = st.firstSector ∧
      (st.direct rq).1.numSectors = st.numSectors ∧ (st.direct rq).1.p = st.p ∧
      (st.direct rq).1.searchBase = st.searchBase := by
  cases hw : rq.isWrite with
  | true =>
      rw [direct_write hw]
      exact ⟨rfl, rfl, rfl, rfl, rfl, rfl, rfl, rfl⟩
  | false =>
      rw [direct_read hw]
      exact ⟨rfl, rfl, rfl, rfl, rfl, rfl, rfl, rfl⟩

theorem direct_log (rq : Request) (st : RwState α) :
    (st.direct rq).1.self.log = st.self.log ++ [directAccess rq st] := by
  cases hw : rq.isWrite with
  | true =>
      rw [direct_write hw]
      rfl
  | false =>
      rw [direct_read hw]
      rfl

theorem search_level (st : RwState α) (page : Nat) : Level st (st.search page) := by
  obtain ⟨_, _, hoffset, hfirst, hnums⟩ := search_fields st page
  exact ⟨hoffset, hfirst, hnums⟩

theorem direct_level (rq : Request) (st : RwState α) (page : Nat) :
    Level st ((st.search page).direct rq).1 := by
  obtain ⟨_, _, _, hoff, hf, hn, _, _⟩ := direct_fields rq (st.search page)
  obtain ⟨hoffset, hfirst, hnums⟩ := search_level st page
  exact ⟨hoff.trans hoffset, hf.trans hfirst, hn.trans hnums⟩

theorem LoopOk.direct_kept (h : LoopOk rq st) :
    LoopOk rq ((st.search st.curPageSector).direct rq).1 := by
  obtain ⟨A, U, hrep⟩ := h.rep
  obtain ⟨hlinks, hentries, _, _, _, _, hp, _⟩ := direct_fields rq (st.search st.curPageSector)
  have hsame := direct_same rq (st.search st.curPageSector)
  rw [search_self] at hlinks hentries hsame
  apply h.refit (direct_level rq st st.curPageSector) hsame
    ⟨A, U, hrep.frame hsame hlinks hentries⟩
  rw [hp]
  exact fun q => h.search_held st.curPageSector

theorem LoopOk.direct_turn (h : LoopOk rq st) (hnum : 0 < st.numSectors)
    (hmiss : (st.search st.curPageSector).cacheHit? st.curPageSector = none) :
    LoopOk rq (((st.search st.curPageSector).direct rq).1.advance
        (st.search st.curPageSector).directSectors) ∧
      Advanced st (((st.search st.curPageSector).direct rq).1.advance
        (st.search st.curPageSector).directSectors)
        (st.search st.curPageSector).directSectors := by
  have hlevel := direct_level rq st st.curPageSector
  obtain ⟨hok, hadv⟩ := h.direct_kept.advance (st.search st.curPageSector).directSectors (by
    rw [hlevel.num]
    exact (h.direct_pos hnum hmiss).2)
  exact ⟨hok, hlevel.advanced hadv⟩

/-- Step lemma of the loop: whatever the inner disc answers, a turn keeps the loop
invariant, and a turn that goes on has moved at least one sector. -/
theorem LoopOk.turn (h : LoopOk rq st) (hnum : 0 < st.numSectors) :
    LoopOk rq (turn rq st).1 ∧ Same st.self (turn rq st).1.self ∧
      ((turn rq st).2 = true → ∃ n, 0 < n ∧ Advanced st (turn rq st).1 n ∧
        (rq.cached = true → n = st.curSectors)) := by
  obtain ⟨A, U, hrep⟩ := h.rep
  obtain ⟨hself, _, hoffset, hfirst, hnums⟩ := search_fields st st.curPageSector
  have hpart := h.pagePart hnum
  have hpos := hpart.pos
  cases turn_cases rq hrep with
  | hit p held base eq =>
      have hp := h.hit_mem hnum hrep (h.search_held _ held) base
      have hhit := h.hitFrom hnum (hself ▸ hrep) (hself ▸ Same.refl st.self) hfirst hnums hoffset
        (fun q hq => h.search_held _ hq) hp (hself ▸ base)
      rw [eq]
      refine ⟨hhit.1, ?_, fun _ => ⟨_, hpos, hhit.2, fun _ => rfl⟩⟩
      · exact (hself ▸ Same.refl st.self : Same st.self (st.search st.curPageSector).self).trans
          (hit_same rq _ p st.curPageOffset st.curSectors st.isWhole)
  | filled p miss cached victim ok eq =>
      obtain ⟨A', U', hrep', hp, hpn, hbase⟩ := h.fill_ok hnum victim ok
      have hsame : Same st.self (LibDvm.Cache.filled rq st p).self :=
        fill_same rq (h.page_lt hnum) p st.isWhole
      have hhit := h.hitFrom hnum hrep' hsame hfirst hnums hoffset
        (fun q hq => by obtain rfl : p = q := Option.some.inj hq; exact hpn) hp hbase
      rw [eq]
      refine ⟨hhit.1, ?_, fun _ => ⟨_, hpos, hhit.2, fun _ => rfl⟩⟩
      exact hsame.trans (hit_same rq _ p st.curPageOffset st.curSectors st.isWhole)
  | fillFailed p miss cached victim failed eq =>
      obtain ⟨hrep', hpn⟩ := h.fill_failed hnum victim failed
      have hsame : Same st.self (LibDvm.Cache.filled rq st p).self :=
        fill_same rq (h.page_lt hnum) p st.isWhole
      obtain ⟨_, ho, hf, hn⟩ := filled_fields rq st p
      rw [eq]
      refine ⟨h.refit ⟨ho, hf, hn⟩ hsame hrep' ?_, hsame, by simp⟩
      intro q hq
      obtain rfl : p = q := Option.some.inj hq
      exact hpn
  | direct miss streaming ok eq =>
      obtain ⟨hrest, hadv⟩ := h.direct_turn hnum miss
      obtain ⟨hdirect, _⟩ := h.direct_pos hnum miss
      have hsame := direct_same rq (st.search st.curPageSector)
      rw [hself] at hsame
      rw [eq]
      refine ⟨hrest, ?_, fun _ => ⟨_, hdirect, hadv, fun hcached => ?_⟩⟩
      · rw [advance_self]
        exact hsame
      · rw [streaming] at hcached
        cases hcached
  | directFailed miss streaming failed eq =>
      have hsame := direct_same rq (st.search st.curPageSector)
      rw [hself] at hsame
      rw [eq]
      exact ⟨h.direct_kept, hsame, by simp⟩

/-- Run lemma of the loop: it keeps the invariant and, given a turn for each sector,
returns. -/
theorem LoopOk.loop (fuel : Nat) (h : LoopOk rq st) :
    LoopOk rq (loop rq fuel st).1 ∧ Same st.self (loop rq fuel st).1.self ∧
      (st.numSectors ≤ fuel → (loop rq fuel st).2.isSome = true) := by
  induction fuel generalizing st with
  | zero =>
      refine ⟨h, Same.refl _, fun hle => ?_⟩
      have hzero : st.numSectors = 0 := by omega
      simp [RwState.loop, hzero]
  | succ fuel ih =>
      unfold RwState.loop
      by_cases hzero : st.numSectors = 0
      · rw [if_pos hzero]
        exact ⟨h, Same.refl _, fun _ => rfl⟩
      · rw [if_neg hzero]
        obtain ⟨hturn, hsame, hless⟩ := h.turn (Nat.pos_of_ne_zero hzero)
        by_cases hgo : (RwState.turn rq st).2 = true
        · rw [if_pos hgo]
          obtain ⟨hrest, hsame', hdone⟩ := ih hturn
          obtain ⟨n, hpos, hadv, _⟩ := hless hgo
          have hmoved := hadv.num
          exact ⟨hrest, hsame.trans hsame', fun hle => hdone (by omega)⟩
        · rw [if_neg hgo]
          exact ⟨hturn, hsame, fun _ => rfl⟩

theorem loop_single (rq : Request) (st : RwState α) {n : Nat} (hnum : st.numSectors = n + 1)
    (hdone : (RwState.turn rq st).2 = true → (RwState.turn rq st).1.numSectors = 0) :
    RwState.loop rq (n + 1) st = ((RwState.turn rq st).1, some (RwState.turn rq st).2) := by
  rw [RwState.loop, if_neg (by omega)]
  cases hgo : (RwState.turn rq st).2 with
  | true =>
      rw [if_pos rfl]
      have hzero := hdone hgo
      cases n with
      | zero => rw [RwState.loop, if_pos hzero]
      | succ n => rw [RwState.loop, if_pos hzero]
  | false => rw [if_neg (by simp)]

end LibDvm.Cache
