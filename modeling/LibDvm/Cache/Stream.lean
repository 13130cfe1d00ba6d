import LibDvm.Cache.Access

/-! # Streaming requests

Aligned requests of a page or more go straight between the inner disc and the
caller's buffer, except for the pages that are resident. The search result is
remembered from turn to turn; `SearchOk` says what it is still worth, and from it
no direct transfer reaches a resident page. The moves of a whole request are then
one for each sector, in order.
-/

namespace LibDvm.Cache

open NodeList Store RwState

variable {α : Type} {c : DvmDiscCache α} {A U : List Nat} {rq : Request} {st : RwState α}

/-! ## The remembered search result -/

/-- The remembered entry is the nearest resident page from `page` on; no entry
remembered means that there is none. -/
structure Remembered (st : RwState α) (page : Nat) : Prop where
  next : ∀ p, st.p = some p → p < st.self.numPages ∧
    st.self.pageSz ∣ (st.self.entries p).baseSector ∧
    page ≤ (st.self.entries p).baseSector ∧
    st.searchBase = (st.self.entries p).baseSector + 1
  nearest : ∀ q < st.self.numPages, (st.self.entries q).baseSector ≠ emptyPage →
    page ≤ (st.self.entries q).baseSector →
      ∃ p, st.p = some p ∧ (st.self.entries p).baseSector ≤ (st.self.entries q).baseSector

/-- Until the request reaches `searchBase` it can rely on the remembered entry. -/
def SearchOk (st : RwState α) : Prop :=
  st.curPageSector < st.searchBase → Remembered st st.curPageSector

theorem SearchOk.search (h : Rep st.self A U) (hs : SearchOk st) :
    Remembered (st.search st.curPageSector) st.curPageSector := by
  by_cases hsearch : st.curPageSector ≥ st.searchBase
  · have hfound : ∀ p ∈ A, dvmDiscCacheSearch st.self st.curPageSector = some p →
        st.curPageSector ≤ (st.self.entries p).baseSector →
        (∀ q ∈ A, (st.self.entries q).baseSector < st.curPageSector ∨
          (st.self.entries p).baseSector ≤ (st.self.entries q).baseSector) →
        Remembered (st.search st.curPageSector) st.curPageSector := by
      intro p hp heq hge hmin
      have hin := (h.allocated p hp).inside
      have hN := st.self.base.numSectors_lt
      have hstate : st.search st.curPageSector =
          { st with p := some p, searchBase := secWrap ((st.self.entries p).baseSector + 1) } := by
        unfold RwState.search
        rw [if_pos hsearch, heq]
      rw [hstate]
      constructor
      · intro q hq
        obtain rfl : p = q := Option.some.inj hq
        exact ⟨h.lt_of_mem hp, (h.allocated p hp).aligned, hge, secWrap_of_lt (by omega)⟩
      · intro q hq hne hpage
        rcases hmin q (h.mem_allocated hq hne) with hlt | hle
        · exact absurd hlt (Nat.not_lt.mpr hpage)
        · exact ⟨p, rfl, hle⟩
    rcases h.search_cases st.curPageSector with
      ⟨p, hp, heq, hbase⟩ | ⟨p, hp, heq, hgt, hmin⟩ | ⟨heq, hnone⟩
    · apply hfound p hp heq (Nat.le_of_eq hbase.symm)
      intro q _
      omega
    · exact hfound p hp heq (Nat.le_of_lt hgt) hmin
    · have hstate : st.search st.curPageSector =
          { st with p := none, searchBase := emptyPage } := by
        unfold RwState.search
        rw [if_pos hsearch, heq]
      rw [hstate]
      refine ⟨fun q hq => (by cases hq), fun q hq hne hpage => ?_⟩
      have hlt := hnone q (h.mem_allocated hq hne)
      exact absurd hlt (Nat.not_lt.mpr hpage)
  · have hstate : st.search st.curPageSector = st := by
      unfold RwState.search
      rw [if_neg hsearch]
    rw [hstate]
    exact hs (Nat.lt_of_not_le hsearch)

/-! ## Direct transfers -/

theorem LoopOk.direct_extent (h : LoopOk rq st) (hnum : 0 < st.numSectors)
    (hrem : Remembered (st.search st.curPageSector) st.curPageSector)
    (hmiss : (st.search st.curPageSector).cacheHit? st.curPageSector = none) :
    (∃ p, (st.search st.curPageSector).p = some p ∧
        st.firstSector < (st.self.entries p).baseSector ∧
        (st.search st.curPageSector).directSectors =
          min st.numSectors ((st.self.entries p).baseSector - st.firstSector)) ∨
      (st.search st.curPageSector).p = none ∧
        (st.search st.curPageSector).directSectors = st.numSectors := by
  obtain ⟨hself, _, _, hfirst, hnums⟩ := search_fields st st.curPageSector
  have hpart := h.pagePart hnum
  have hsplit := hpart.split
  have hfits := hpart.fits
  have hpos := hpart.pos
  have hin := h.inside
  have hlt := (h.directLimit_ne hnum hmiss).1
  unfold directLimit at hlt
  unfold directSectors directLimit
  rw [hfirst, hnums]
  cases hp : (st.search st.curPageSector).p with
  | none =>
      right
      refine ⟨rfl, ?_⟩
      dsimp only
      rw [hself, secSub_of_le (by omega) st.self.base.numSectors_lt]
      split <;> omega
  | some p =>
      left
      obtain ⟨_, haligned, hge, _⟩ := hrem.next p hp
      have hne := cacheHit?_eq_none.mp hmiss p hp
      rw [hself] at haligned hge hne hlt
      rw [hp] at hlt
      dsimp only at hlt
      have hnext := Align.add_le_of_lt hpart.aligned haligned (by omega)
      have hgt : st.firstSector < (st.self.entries p).baseSector := by omega
      refine ⟨p, rfl, hgt, ?_⟩
      dsimp only
      rw [hself, secSub_of_le (Nat.le_of_lt hgt) hlt]
      split <;> omega

theorem LoopOk.direct_uncovered (h : LoopOk rq st) (hnum : 0 < st.numSectors)
    (hrem : Remembered (st.search st.curPageSector) st.curPageSector)
    (hmiss : (st.search st.curPageSector).cacheHit? st.curPageSector = none) {s q : Nat}
    (hs : st.firstSector ≤ s ∧
      s < st.firstSector + (st.search st.curPageSector).directSectors)
    (hq : q < st.self.numPages) : st.self.covers q s = false := by
  by_contra hcov
  rw [Bool.not_eq_false, covers_iff] at hcov
  obtain ⟨A, U, hrep⟩ := h.rep
  have hself := search_self st st.curPageSector
  have hpart := h.pagePart hnum
  have hsplit := hpart.split
  have hq' := hrep.allocated q (hrep.mem_allocated hq hcov.1)
  by_cases hbefore : (st.self.entries q).baseSector < st.curPageSector
  · have hend := Align.add_le_of_lt hq'.aligned hpart.aligned hbefore
    omega
  · obtain ⟨p, hp, hle⟩ := hrem.nearest q (by rw [hself]; exact hq) (by rw [hself]; exact hcov.1)
      (by rw [hself]; exact Nat.le_of_not_lt hbefore)
    rw [hself] at hle
    rcases h.direct_extent hnum hrem hmiss with ⟨p', hp', hgt, hlen⟩ | ⟨hnone, _⟩
    · obtain rfl : p = p' := Option.some.inj (hp.symm.trans hp')
      omega
    · rw [hnone] at hp
      cases hp

/-! ## A turn of a streaming request -/

theorem hitFrom_search (rq : Request) (st from_ : RwState α) (p : Nat) :
    (hitFrom rq st from_ p).p = from_.p ∧
      (hitFrom rq st from_ p).searchBase = from_.searchBase :=
  (hit_loop rq from_ p st.curPageOffset st.curSectors st.isWhole).2.2.2

inductive StreamCase (rq : Request) (st : RwState α) : Prop where
  | hit (p : Nat) (held : (st.search st.curPageSector).p = some p) (lt : p < st.self.numPages)
      (base : (st.self.entries p).baseSector = st.curPageSector)
      (eq : turn rq st = (hitFrom rq st (st.search st.curPageSector) p, true))
  | direct (miss : (st.search st.curPageSector).cacheHit? st.curPageSector = none)
      (eq : turn rq st = (((st.search st.curPageSector).direct rq).1.advance
        (st.search st.curPageSector).directSectors, true))

theorem LoopOk.stream_cases (h : LoopOk rq st) (hstream : rq.cached = false)
    (hok : (RwState.turn rq st).2 = true) : StreamCase rq st := by
  obtain ⟨A, U, hrep⟩ := h.rep
  cases turn_cases rq hrep with
  | hit p held base eq => exact .hit p held (h.search_held _ held) base eq
  | filled p miss cached _ _ _ =>
      rw [hstream] at cached
      cases cached
  | fillFailed p miss cached _ _ _ =>
      rw [hstream] at cached
      cases cached
  | direct miss _ _ eq => exact .direct miss eq
  | directFailed _ _ _ eq =>
      rw [eq] at hok
      cases hok

theorem LoopOk.stream_base (h : LoopOk rq st) (hstream : rq.cached = false) (q : Nat) :
    ((RwState.turn rq st).1.self.entries q).baseSector = (st.self.entries q).baseSector := by
  obtain ⟨A, U, hrep⟩ := h.rep
  have hself := search_self st st.curPageSector
  cases turn_cases rq hrep with
  | hit p _ _ eq =>
      rw [eq]
      refine (hit_base rq _ p st.curPageOffset st.curSectors st.isWhole q).trans ?_
      rw [hself]
  | filled p _ cached _ _ _ =>
      rw [hstream] at cached
      cases cached
  | fillFailed p _ cached _ _ _ =>
      rw [hstream] at cached
      cases cached
  | direct _ _ _ eq =>
      rw [eq, advance_self, (direct_fields rq _).2.1, hself]
  | directFailed _ _ _ eq =>
      rw [eq]
      show (((st.search st.curPageSector).direct rq).1.self.entries q).baseSector = _
      rw [(direct_fields rq _).2.1, hself]

/-- The remembered entry stays good: a hit moves past it, a direct run stops at it. -/
theorem LoopOk.stream_search (h : LoopOk rq st) (hnum : 0 < st.numSectors)
    (hstream : rq.cached = false) (hs : SearchOk st) (hok : (RwState.turn rq st).2 = true)
    (hmore : 0 < (RwState.turn rq st).1.numSectors) : SearchOk (RwState.turn rq st).1 := by
  obtain ⟨A, U, hrep⟩ := h.rep
  obtain ⟨hself, _, hoffset, hfirst, hnums⟩ := search_fields st st.curPageSector
  have hrem := hs.search hrep
  have hpart := h.pagePart hnum
  have hsplit := hpart.split
  obtain ⟨hnext, hsame, _⟩ := h.turn hnum
  have hpage := (hnext.pagePart hmore).down
  rw [hsame.pageSz] at hpage
  cases h.stream_cases hstream hok with
  | hit p held lt base eq =>
      have hp := h.hit_mem hnum hrep lt base
      obtain ⟨_, hadv⟩ := h.hitFrom hnum (hself ▸ hrep) (hself ▸ Same.refl st.self) hfirst
        hnums hoffset (fun q hq => h.search_held _ hq) hp (hself ▸ base)
      have hbase := (hitFrom_search rq st (st.search st.curPageSector) p).2
      have hnextBase := (hrem.next p held).2.2.2
      rw [eq] at hpage hmore ⊢
      have hmoved := hadv.num
      have hrest := hpart.rest (by dsimp only at hmore; omega)
      have hend : (LibDvm.Cache.hitFrom rq st (st.search st.curPageSector) p).firstSector =
          Align.down st.self.pageSz st.firstSector + st.self.pageSz := by
        rw [hadv.first, ← hpart.down]
        omega
      dsimp only at hpage
      rw [hend, Align.down_add_self (pageSz_pos st.self), ← hpart.down] at hpage
      intro hlt
      rw [hself, base] at hnextBase
      have hpos := pageSz_pos st.self
      dsimp only at hlt
      omega
  | direct miss eq =>
      obtain ⟨_, hadv⟩ := h.direct_turn hnum miss
      obtain ⟨_, hentries, _, _, _, _, hp', hbase'⟩ :=
        direct_fields rq (st.search st.curPageSector)
      have hmoved := hadv.num
      have hreach := hadv.first
      rw [eq] at hpage hmore ⊢
      dsimp only at hpage hmore ⊢
      rcases h.direct_extent hnum hrem miss with ⟨p, hp, hgt, hlen⟩ | ⟨_, hlen⟩
      · obtain ⟨hlt, haligned, _, hsearch⟩ := hrem.next p hp
        rw [hself] at hlt haligned hsearch hentries
        generalize (st.search st.curPageSector).directSectors = n at *
        have hstop : st.firstSector + n = (st.self.entries p).baseSector := by omega
        rw [hreach, hstop, Align.down_eq_self (pageSz_pos st.self) haligned] at hpage
        intro _
        have hsame' := direct_same rq (st.search st.curPageSector)
        rw [hself] at hsame'
        generalize ((st.search st.curPageSector).direct rq).1 = moved at *
        have hbases : ∀ q, (moved.self.entries q).baseSector = (st.self.entries q).baseSector :=
          fun q => by rw [hentries]
        rw [hpage]
        constructor
        · intro q hq
          obtain rfl : q = p := by
            rw [advance_p, hp', hp] at hq
            exact (Option.some.inj hq).symm
          rw [advance_self, advance_searchBase, hsame'.pages, hsame'.pageSz, hbases, hbase']
          exact ⟨hlt, haligned, Nat.le_refl _, hsearch⟩
        · intro q _ _ hge
          rw [advance_self, hbases] at hge
          refine ⟨p, by rw [advance_p, hp', hp], ?_⟩
          rw [advance_self, hbases, hbases]
          exact hge
      · omega

/-! ## Moves -/

/-- One sector carried for the caller: its number, its byte offset in the caller's buffer,
and the entry and the byte of the cache data when it went through the cache. -/
structure Move where
  isWrite : Bool
  sector : Nat
  offset : Nat
  slot : Option (Nat × Nat)
deriving DecidableEq

def Access.moves (sectorSz : Nat) : Access → List Move
  | .transfer isWrite (.caller _ _ offset) first count =>
      (List.range count).map fun k => ⟨isWrite, first + k, offset + k * sectorSz, none⟩
  | .copy isWrite (.slot p data) (.caller _ _ offset) first count =>
      (List.range count).map fun k =>
        ⟨isWrite, first + k, offset + k * sectorSz, some (p, data + k * sectorSz)⟩
  | _ => []

def slotOf (c : DvmDiscCache α) (s : Nat) : Option (Nat × Nat) :=
  ((List.range c.numPages).find? fun p => c.covers p s).map fun p =>
    (p, dvmDiscCacheEntryGetData c p + (s - (c.entries p).baseSector) * c.base.sectorSz)

/-- The moves of `n` sectors from `first` on, the first of them at byte `offset`. -/
def splitMoves (isWrite : Bool) (c : DvmDiscCache α) (first offset n : Nat) : List Move :=
  (List.range n).map fun k =>
    ⟨isWrite, first + k, offset + k * c.base.sectorSz, slotOf c (first + k)⟩

/-- An access of a streaming request: a copy, or a transfer straight from or to the caller
that covers no sector of a resident page. -/
def Access.Streams (c : DvmDiscCache α) : Access → Prop
  | .transfer _ (.slot _ _) _ _ => False
  | .transfer _ (.caller _ _ _) first count =>
      ∀ s, first ≤ s → s < first + count → ∀ p < c.numPages, c.covers p s = false
  | .copy _ _ _ _ _ => True

theorem slotOf_eq_none {s : Nat} (h : ∀ p < c.numPages, c.covers p s = false) :
    slotOf c s = none := by
  have hfind : (List.range c.numPages).find? (fun p => c.covers p s) = none :=
    List.find?_eq_none.mpr fun p hp => by simp [h p (List.mem_range.mp hp)]
  rw [slotOf, hfind]
  rfl

theorem slotOf_eq_some {p s : Nat} (hp : p < c.numPages) (hcov : c.covers p s = true)
    (honly : ∀ q < c.numPages, c.covers q s = true → q = p) :
    slotOf c s = some (p, dvmDiscCacheEntryGetData c p +
      (s - (c.entries p).baseSector) * c.base.sectorSz) := by
  cases hfind : (List.range c.numPages).find? (fun p => c.covers p s) with
  | none =>
      rw [List.find?_eq_none] at hfind
      exact absurd hcov (hfind p (List.mem_range.mpr hp))
  | some q =>
      have hq : c.covers q s = true := by simpa using List.find?_some hfind
      rw [slotOf, hfind, honly q (List.mem_range.mp (List.mem_of_find?_eq_some hfind)) hq]
      rfl

theorem slotOf_eq {c' : DvmDiscCache α} (hs : Same c c')
    (hbase : ∀ q, (c'.entries q).baseSector = (c.entries q).baseSector) :
    slotOf c' = slotOf c := by
  have hcovers : ∀ q, c'.covers q = c.covers q := fun q => covers_eq hs (hbase q)
  funext s
  unfold slotOf dvmDiscCacheEntryGetData entryCell
  simp only [hs.pages, hs.base, hs.shift, hcovers, hbase]

theorem splitMoves_append (isWrite : Bool) (c : DvmDiscCache α) (first offset m n : Nat) :
    splitMoves isWrite c first offset m ++
        splitMoves isWrite c (first + m) (offset + m * c.base.sectorSz) n =
      splitMoves isWrite c first offset (m + n) := by
  unfold splitMoves
  rw [List.range_add, List.map_append, List.map_map]
  congr 1
  apply List.map_congr_left
  intro k _
  simp only [Function.comp, Nat.add_mul, Nat.add_assoc]

/-! ## Streaming requests split exactly -/

def Disjoint (c : DvmDiscCache α) : Prop :=
  ∀ p ∈ List.range c.numPages, ∀ q ∈ List.range c.numPages, ∀ s,
    c.covers p s = true → c.covers q s = true → p = q

theorem Disjoint.of_same {c' : DvmDiscCache α} (h : Disjoint c) (hs : Same c c')
    (hbase : ∀ q, (c'.entries q).baseSector = (c.entries q).baseSector) : Disjoint c' := by
  have hcovers : ∀ q, c'.covers q = c.covers q := fun q => covers_eq hs (hbase q)
  intro p hp q hq s hcp hcq
  rw [hs.pages] at hp hq
  rw [hcovers] at hcp hcq
  exact h p hp q hq s hcp hcq

/-- A stretch of a streaming request that has moved `n` sectors. -/
structure Streamed (rq : Request) (st st' : RwState α) (n : Nat) : Prop where
  advanced : Advanced st st' n
  same : Same st.self st'.self
  base : ∀ q, (st'.self.entries q).baseSector = (st.self.entries q).baseSector
  log : ∃ added, st'.self.log = st.self.log ++ added ∧
    added.flatMap (Access.moves st.self.base.sectorSz) =
      splitMoves rq.isWrite st.self st.firstSector (st.offset * st.self.base.sectorSz) n ∧
    ∀ a ∈ added, a.Streams st.self

theorem Streamed.refl (rq : Request) (st : RwState α) : Streamed rq st st 0 :=
  ⟨⟨rfl, rfl, rfl⟩, Same.refl _, fun _ => rfl, [], by simp, rfl, by simp⟩

theorem Access.Streams.of_same {c' : DvmDiscCache α} {a : Access} (hs : Same c c')
    (hbase : ∀ q, (c'.entries q).baseSector = (c.entries q).baseSector)
    (h : a.Streams c') : a.Streams c := by
  have hcovers : ∀ q, c'.covers q = c.covers q := fun q => covers_eq hs (hbase q)
  cases a with
  | transfer isWrite place first count =>
      cases place with
      | slot p offset => exact h
      | caller address length offset =>
          intro s hge hlt p hp
          rw [← hcovers]
          exact h s hge hlt p (by rw [hs.pages]; exact hp)
  | copy isWrite cache buffer first count => trivial

theorem Streamed.trans {st₁ st₂ st₃ : RwState α} {m n : Nat} (h₁ : Streamed rq st₁ st₂ m)
    (h₂ : Streamed rq st₂ st₃ n) : Streamed rq st₁ st₃ (m + n) := by
  obtain ⟨added₁, hlog₁, hmoves₁, hall₁⟩ := h₁.log
  obtain ⟨added₂, hlog₂, hmoves₂, hall₂⟩ := h₂.log
  refine ⟨h₁.advanced.trans h₂.advanced, h₁.same.trans h₂.same,
    fun q => (h₂.base q).trans (h₁.base q), added₁ ++ added₂, ?_, ?_, ?_⟩
  · rw [hlog₂, hlog₁, List.append_assoc]
  · have hsz : st₂.self.base.sectorSz = st₁.self.base.sectorSz := by rw [h₁.same.base]
    have hsplit : splitMoves rq.isWrite st₂.self st₂.firstSector
        (st₂.offset * st₂.self.base.sectorSz) n =
          splitMoves rq.isWrite st₁.self (st₁.firstSector + m)
            (st₁.offset * st₁.self.base.sectorSz + m * st₁.self.base.sectorSz) n := by
      unfold splitMoves
      rw [slotOf_eq h₁.same h₁.base, hsz, h₁.advanced.first, h₁.advanced.offset, Nat.add_mul]
    rw [List.flatMap_append, hmoves₁, ← hsz, hmoves₂, hsplit, hsz, splitMoves_append]
  · intro a ha
    rcases List.mem_append.mp ha with h | h
    · exact hall₁ a h
    · exact (hall₂ a h).of_same h₁.same h₁.base

/-- Step lemma: a streaming turn that goes on moves its sectors one by one. -/
theorem LoopOk.stream_turn (h : LoopOk rq st) (hnum : 0 < st.numSectors)
    (hstream : rq.cached = false) (hs : SearchOk st) (hd : Disjoint st.self)
    (hok : (RwState.turn rq st).2 = true) :
    ∃ n, 0 < n ∧ Streamed rq st (RwState.turn rq st).1 n := by
  obtain ⟨A, U, hrep⟩ := h.rep
  obtain ⟨hself, _, hoffset, hfirst, hnums⟩ := search_fields st st.curPageSector
  have hrem := hs.search hrep
  have hpart := h.pagePart hnum
  have hsplit := hpart.split
  have hin := h.inside
  obtain ⟨_, hsame, _⟩ := h.turn hnum
  have hbase := h.stream_base hstream
  cases h.stream_cases hstream hok with
  | hit p held lt base eq =>
      have hp := h.hit_mem hnum hrep lt base
      obtain ⟨_, hadv⟩ := h.hitFrom hnum (hself ▸ hrep) (hself ▸ Same.refl st.self) hfirst
        hnums hoffset (fun q hq => h.search_held _ hq) hp (hself ▸ base)
      have hlog := hit_log rq (st.search st.curPageSector) p st.curPageOffset st.curSectors
        st.isWhole
      rw [hself, hfirst] at hlog
      rw [eq] at hsame hbase ⊢
      refine ⟨st.curSectors, hpart.pos, hadv, hsame, hbase, _, hlog, ?_, by simp [Access.Streams]⟩
      simp only [List.flatMap_cons, List.flatMap_nil, List.append_nil, callerPlace, Access.moves,
        hself, hoffset, splitMoves]
      apply List.map_congr_left
      intro k hk
      rw [List.mem_range] at hk
      have hle := hpart.le
      have hfits := hpart.fits
      have hcov : st.self.covers p (st.firstSector + k) = true := by
        rw [covers_iff]
        exact ⟨hrep.base_ne hp, by omega, by omega, by omega⟩
      rw [slotOf_eq_some lt hcov fun q hq hcq => hd q (List.mem_range.mpr hq) p
        (List.mem_range.mpr lt) _ hcq hcov]
      have hoff : st.firstSector + k - (st.self.entries p).baseSector = st.curPageOffset + k := by
        omega
      rw [hoff, Nat.add_mul, Nat.add_assoc]
  | direct miss eq =>
      obtain ⟨hpos, _⟩ := h.direct_pos hnum miss
      obtain ⟨_, hadv⟩ := h.direct_turn hnum miss
      have hlog := direct_log rq (st.search st.curPageSector)
      have hfree : ∀ s, st.firstSector ≤ s →
          s < st.firstSector + (st.search st.curPageSector).directSectors →
          ∀ p < st.self.numPages, st.self.covers p s = false :=
        fun s hge hlt p hp => h.direct_uncovered hnum hrem miss ⟨hge, hlt⟩ hp
      rw [hself] at hlog
      rw [eq] at hsame hbase ⊢
      refine ⟨_, hpos, hadv, hsame, hbase, _, by rw [advance_self]; exact hlog, ?_, ?_⟩
      · simp only [List.flatMap_cons, List.flatMap_nil, List.append_nil, directAccess, callerPlace,
          Access.moves, hself, hoffset, hfirst, splitMoves]
        apply List.map_congr_left
        intro k hk
        rw [List.mem_range] at hk
        rw [slotOf_eq_none fun p hp => hfree _ (by omega) (by omega) p hp]
      · intro a ha
        rw [List.mem_singleton] at ha
        rw [ha, directAccess, callerPlace, hfirst]
        exact hfree

/-- Run lemma: a streaming loop that returns true has moved every sector. -/
theorem LoopOk.stream_loop (fuel : Nat) (h : LoopOk rq st) (hstream : rq.cached = false)
    (hs : 0 < st.numSectors → SearchOk st) (hd : Disjoint st.self) :
    (∀ q, ((RwState.loop rq fuel st).1.self.entries q).baseSector =
        (st.self.entries q).baseSector) ∧
      ((RwState.loop rq fuel st).2 = some true →
        Streamed rq st (RwState.loop rq fuel st).1 st.numSectors) := by
  induction fuel generalizing st with
  | zero =>
      refine ⟨fun _ => rfl, fun hret => ?_⟩
      rw [RwState.loop] at hret ⊢
      by_cases hzero : st.numSectors = 0
      · rw [hzero]
        exact Streamed.refl rq st
      · rw [if_neg hzero] at hret
        cases hret
  | succ fuel ih =>
      rw [RwState.loop]
      by_cases hzero : st.numSectors = 0
      · rw [if_pos hzero, hzero]
        exact ⟨fun _ => rfl, fun _ => Streamed.refl rq st⟩
      · rw [if_neg hzero]
        have hnum := Nat.pos_of_ne_zero hzero
        by_cases hgo : (RwState.turn rq st).2 = true
        · rw [if_pos hgo]
          obtain ⟨n, _, hturn⟩ := h.stream_turn hnum hstream (hs hnum) hd hgo
          obtain ⟨hbase, hrest⟩ := ih (h.turn hnum).1
            (h.stream_search hnum hstream (hs hnum) hgo) (hd.of_same hturn.same hturn.base)
          refine ⟨fun q => (hbase q).trans (hturn.base q), fun hret => ?_⟩
          have hsum := hturn.advanced.num
          have hall := hturn.trans (hrest hret)
          rw [show n + (RwState.turn rq st).1.numSectors = st.numSectors by omega] at hall
          exact hall
        · rw [if_neg hgo]
          exact ⟨h.stream_base hstream, fun hret => by cases hret⟩

theorem LoopOk.loop_ok (fuel : Nat) (h : LoopOk rq st) (hfine : Faultless st.self)
    (hfuel : st.numSectors ≤ fuel) : (RwState.loop rq fuel st).2 = some true := by
  induction fuel generalizing st with
  | zero =>
      have hzero : st.numSectors = 0 := by omega
      rw [RwState.loop, if_pos hzero]
  | succ fuel ih =>
      rw [RwState.loop]
      by_cases hzero : st.numSectors = 0
      · rw [if_pos hzero]
      · have hnum := Nat.pos_of_ne_zero hzero
        have hgo := h.turn_ok hnum hfine
        obtain ⟨hnext, hsame, hless⟩ := h.turn hnum
        obtain ⟨n, hpos, hadv, _⟩ := hless hgo
        have hmoved := hadv.num
        rw [if_neg hzero, if_pos hgo]
        exact ih hnext (hfine.of_same hsame) (by omega)

/-- An aligned request of a page or more, from any state with the representation invariant
and no page held twice: no entry changes its page; if the inner transfers succeed the
request returns true; and then each sector of it was moved once and in order, through
the entry of its page when that is resident and otherwise by a direct transfer, none of
which covers a sector of a resident page. -/
theorem streaming_split (h : Rep c A U)
    (hdistinct : ∀ p < c.numPages, ∀ q < c.numPages, (c.entries p).baseSector ≠ emptyPage →
      (c.entries p).baseSector = (c.entries q).baseSector → p = q)
    (address : Nat) (buffer : Nat → α) {first num : Nat} (isWrite : Bool)
    (hin : first + num ≤ c.base.numSectors) (hlong : c.pageSz ≤ num) :
    let r := dvmDiscCacheReadWrite true c address buffer first num false isWrite
    (∀ q, (r.self.entries q).baseSector = (c.entries q).baseSector) ∧
      (Faultless c → r.ret = some true) ∧
      (r.ret = some true → ∃ added, r.self.log = c.log ++ added ∧
        added.flatMap (Access.moves c.base.sectorSz) =
          ((List.range num).map fun k =>
            ⟨isWrite, first + k, k * c.base.sectorSz, slotOf c (first + k)⟩) ∧
        ∀ a ∈ added, a.Streams c) := by
  have hpos := pageSz_pos c
  have hd : Disjoint c := h.sound.disjoint hdistinct
  have hloop := h.loopOk true address buffer false isWrite hin
  have hstream : (rwRequest true c address num false isWrite).cached = false := by
    simp [Request.cached, rwRequest, Nat.not_lt.mpr hlong]
  have hsearch : SearchOk (rwInit c buffer first num) :=
    fun hlt => absurd hlt (Nat.not_lt_zero _)
  unfold dvmDiscCacheReadWrite
  rcases rwStart_cases true c address buffer first num false isWrite with
    ⟨hout, _⟩ | ⟨_, _, heq⟩
  · omega
  · rw [heq]
    obtain ⟨hbase, hmoved⟩ := hloop.stream_loop num hstream (fun _ => hsearch) hd
    refine ⟨hbase, fun hfine => hloop.loop_ok num hfine (Nat.le_refl num), fun hret => ?_⟩
    obtain ⟨added, hlog, hmoves, hall⟩ := (hmoved hret).log
    refine ⟨added, hlog, hmoves.trans ?_, hall⟩
    simp [splitMoves, rwInit, rwRequest]

theorem streaming_split_sample :
    ∃ added : List Access,
      (dvmDiscCacheReadWrite true dirtySample 64 (fun _ => 0) 0 3 false false).self.log = added ∧
        added.flatMap (Access.moves 512) =
          [⟨false, 0, 0, none⟩, ⟨false, 1, 512, some (0, 0)⟩, ⟨false, 2, 1024, none⟩] := by
  obtain ⟨_, _, hsplit⟩ := streaming_split dirtySample_rep (by decide) 64 (fun _ => 0) false
    (show 0 + 3 ≤ dirtySample.base.numSectors by decide)
    (show dirtySample.pageSz ≤ 3 by decide)
  obtain ⟨added, hlog, hmoves, _⟩ := hsplit (by decide)
  exact ⟨added, hlog, hmoves.trans (by decide)⟩

end LibDvm.Cache
