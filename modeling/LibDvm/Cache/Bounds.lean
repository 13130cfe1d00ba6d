import LibDvm.Cache.Invariant

/-! # Where the bytes go

The access log records every inner transfer and every copy. `Grows P c c'` says
that `c'` has logged more than `c` and that all of it meets `P`; each operation is
shown to log well-formed accesses only, and so does every call of every run.
-/

namespace LibDvm.Cache

open NodeList Store RwState

variable {α : Type} {c : DvmDiscCache α} {A U : List Nat} {rq : Request} {st : RwState α}

/-! ## Well-formed accesses -/

/-- A block of `bytes` bytes at a place: in the data slot of the one entry named, or
in the caller's buffer, given by its address and length. -/
def Place.Holds (c : DvmDiscCache α) (caller : Option (Nat × Nat)) (bytes : Nat) :
    Place → Prop
  | .slot p offset =>
      p < c.numPages ∧ c.base.sectorSz ∣ offset ∧
        p * c.pageSz * c.base.sectorSz ≤ offset ∧
        offset + bytes ≤ (p + 1) * c.pageSz * c.base.sectorSz
  | .caller address length offset =>
      caller = some (address, length) ∧ c.base.sectorSz ∣ offset ∧ offset + bytes ≤ length

/-- A transfer straight from or to the caller's buffer needs an aligned buffer. -/
def Place.Direct (aligned : Nat → Bool → Bool) (isWrite : Bool) : Place → Prop
  | .slot _ _ => True
  | .caller address _ _ => aligned address isWrite = true

def Access.WellFormed (c : DvmDiscCache α) (aligned : Nat → Bool → Bool)
    (caller : Option (Nat × Nat)) : Access → Prop
  | .transfer isWrite place first count =>
      0 < count ∧ first + count ≤ c.base.numSectors ∧
        place.Holds c caller (count * c.base.sectorSz) ∧ place.Direct aligned isWrite
  | .copy _ cache buffer _ count =>
      cache.Holds c none (count * c.base.sectorSz) ∧
        buffer.Holds c caller (count * c.base.sectorSz) ∧
        ∃ address length offset, buffer = .caller address length offset

/-- The buffer a call hands over: its address and its length in bytes. -/
def Call.caller (sectorSz : Nat) : Call α → Option (Nat × Nat)
  | .read address _ _ num _ => some (address, num * sectorSz)
  | .write address _ _ num _ => some (address, num * sectorSz)
  | .flush => none

theorem Access.WellFormed.of_same {c' : DvmDiscCache α} {aligned : Nat → Bool → Bool}
    {caller : Option (Nat × Nat)} {a : Access} (hs : Same c c')
    (h : a.WellFormed c' aligned caller) : a.WellFormed c aligned caller := by
  have hplace : ∀ (who : Option (Nat × Nat)) (n : Nat) (place : Place),
      place.Holds c' who n → place.Holds c who n := by
    intro who n place hp
    cases place with
    | slot p offset =>
        rw [Place.Holds, hs.pages, hs.base, hs.pageSz] at hp
        exact hp
    | caller address length offset =>
        rw [Place.Holds, hs.base] at hp
        exact hp
  cases a with
  | transfer isWrite place first count =>
      obtain ⟨hpos, hin, hholds, hdirect⟩ := h
      rw [hs.base] at hin hholds
      exact ⟨hpos, hin, hplace _ _ _ hholds, hdirect⟩
  | copy isWrite cache buffer first count =>
      obtain ⟨hcache, hbuffer, hcaller⟩ := h
      rw [hs.base] at hcache hbuffer
      exact ⟨hplace _ _ _ hcache, hplace _ _ _ hbuffer, hcaller⟩

theorem slot_holds (off : Nat) {p count : Nat} (hp : p < c.numPages) (hoff : off + count ≤ c.pageSz)
    (caller : Option (Nat × Nat)) :
    (Place.slot p (dvmDiscCacheEntryGetData c p + off * c.base.sectorSz)).Holds c caller
      (count * c.base.sectorSz) := by
  have hdata : dvmDiscCacheEntryGetData c p = p * c.pageSz * c.base.sectorSz := by
    rw [dvmDiscCacheEntryGetData, entryCell, Nat.shiftLeft_eq, pageSz_eq]
  have hmul := Nat.mul_le_mul_right c.base.sectorSz hoff
  rw [Nat.add_mul] at hmul
  refine ⟨hp, ?_, ?_, ?_⟩
  · rw [hdata]
    exact Nat.dvd_add (Nat.dvd_mul_left _ _) (Nat.dvd_mul_left _ _)
  · omega
  · rw [hdata, Nat.add_one_mul, Nat.add_mul]
    omega

/-! ## Growing logs -/

def Grows (P : Access → Prop) (c c' : DvmDiscCache α) : Prop :=
  ∃ added, c'.log = c.log ++ added ∧ ∀ a ∈ added, P a

section Grows

variable {P Q : Access → Prop} {c₁ c₂ c₃ : DvmDiscCache α}

theorem Grows.of_eq (h : c₂.log = c₁.log) : Grows P c₁ c₂ := ⟨[], by simp [h], by simp⟩

theorem Grows.one {a : Access} (h : c₂.log = c₁.log ++ [a]) (ha : P a) : Grows P c₁ c₂ :=
  ⟨[a], h, by simpa using ha⟩

theorem Grows.trans (h₁ : Grows P c₁ c₂) (h₂ : Grows P c₂ c₃) : Grows P c₁ c₃ := by
  obtain ⟨l₁, heq₁, hp₁⟩ := h₁
  obtain ⟨l₂, heq₂, hp₂⟩ := h₂
  refine ⟨l₁ ++ l₂, by rw [heq₂, heq₁, List.append_assoc], fun a ha => ?_⟩
  rcases List.mem_append.mp ha with h | h
  · exact hp₁ a h
  · exact hp₂ a h

theorem Grows.imp (h : Grows P c₁ c₂) (himp : ∀ a, P a → Q a) : Grows Q c₁ c₂ := by
  obtain ⟨l, heq, hp⟩ := h
  exact ⟨l, heq, fun a ha => himp a (hp a ha)⟩

end Grows

/-! ## What each operation logs -/

section Operations

variable {aligned : Nat → Bool → Bool} {caller : Option (Nat × Nat)}

theorem Rep.flush_grows (h : Rep c A U) {p : Nat} (hp : p < c.numPages) :
    Grows (Access.WellFormed c aligned caller) c (dvmDiscCacheEntryFlush c p).1 := by
  have hbound : (c.entries p).dirtyStart < (c.entries p).dirtyEnd →
      (flushAccess c p).WellFormed c aligned caller := by
    intro hlt
    rcases h.dirty_range hp with hclean | ⟨_, hmin⟩
    · omega
    · have hend : (c.entries p).dirtyEnd ≤ c.pageSz := by omega
      have hdisc : (c.entries p).baseSector + (c.entries p).dirtyEnd ≤ c.base.numSectors := by
        omega
      have hN := c.base.numSectors_lt
      refine ⟨by omega, ?_, slot_holds _ hp (by omega) caller, trivial⟩
      rw [secWrap_of_lt (by omega)]
      omega
  rcases dvmDiscCacheEntryFlush_cases c p with ⟨_, heq⟩ | ⟨hlt, _, heq⟩ | ⟨hlt, _, heq⟩
  · rw [heq]
    exact Grows.of_eq rfl
  · rw [heq]
    exact Grows.one rfl (hbound hlt)
  · rw [heq]
    exact Grows.one rfl (hbound hlt)

theorem pageLoaded_grows {p page : Nat} (hp : p < c.numPages) (hpage : page < c.base.numSectors) :
    Grows (Access.WellFormed c aligned caller) c (pageLoaded c p page) := by
  have hpos := pageSz_pos c
  apply Grows.one rfl
  refine ⟨?_, ?_, ?_, trivial⟩
  · rw [pageExtent]
    omega
  · rw [pageExtent]
    omega
  · have hholds := slot_holds 0 hp
      (show 0 + pageExtent c page ≤ c.pageSz by rw [pageExtent]; omega) caller
    simpa using hholds

theorem Rep.fill_grows (h : Rep c A U) (rq : Request) (whole : Bool) {p page : Nat}
    (hp : p < c.numPages) (hpage : page < c.base.numSectors) :
    Grows (Access.WellFormed c aligned caller) c (RwState.fill rq c p page whole).1 := by
  have hflush : Grows (Access.WellFormed c aligned caller) c (LibDvm.Cache.retagged c p page) :=
    h.flush_grows hp
  have hsame := retagged_same c p page
  have hload : Grows (Access.WellFormed c aligned caller) c
      (pageLoaded (LibDvm.Cache.retagged c p page) p page) := by
    apply hflush.trans
    have hgrow : Grows (Access.WellFormed (LibDvm.Cache.retagged c p page) aligned caller)
        (LibDvm.Cache.retagged c p page) (pageLoaded (LibDvm.Cache.retagged c p page) p page) :=
      pageLoaded_grows (by rw [hsame.pages]; exact hp) (by rw [hsame.base]; exact hpage)
    exact hgrow.imp fun a ha => ha.of_same hsame
  rcases fill_cases rq hpage p whole with ⟨_, heq⟩ | ⟨_, _, _, heq⟩ | ⟨_, _, heq⟩ | ⟨_, _, heq⟩
  · rw [heq]
    exact h.flush_grows hp
  · rw [heq]
    exact hflush
  · rw [heq]
    exact hload
  · rw [heq]
    exact hload

theorem hit_grows {from_ : RwState α} {p off cur : Nat} {whole : Bool}
    (hp : p < from_.self.numPages) (hoff : off + cur ≤ from_.self.pageSz)
    (hlength : (from_.offset + cur) * from_.self.base.sectorSz ≤ rq.length) :
    Grows (Access.WellFormed from_.self aligned (some (rq.address, rq.length))) from_.self
      (from_.cacheHit rq p off cur whole).self := by
  apply Grows.one (hit_log rq from_ p off cur whole)
  refine ⟨slot_holds off hp hoff none, ⟨rfl, Nat.dvd_mul_left _ _, ?_⟩, ⟨_, _, _, rfl⟩⟩
  rw [← Nat.add_mul]
  exact hlength

end Operations

/-! ## Turns, calls and runs -/

abbrev TurnOk (aligned : Nat → Bool → Bool) (rq : Request) (c : DvmDiscCache α) :
    Access → Prop :=
  Access.WellFormed c aligned (some (rq.address, rq.length))

theorem LoopOk.buffer_le (h : LoopOk rq st) {n : Nat} (hn : n ≤ st.numSectors) :
    (st.offset + n) * st.self.base.sectorSz ≤ rq.length := by
  rw [h.length]
  exact Nat.mul_le_mul_right _ (Nat.add_le_add_left hn _)

theorem LoopOk.hitFrom_grows (h : LoopOk rq st) (hnum : 0 < st.numSectors)
    {aligned : Nat → Bool → Bool} {from_ : RwState α} {p : Nat} (hs : Same st.self from_.self)
    (hoffset : from_.offset = st.offset) (hp : p < st.self.numPages) :
    Grows (TurnOk aligned rq st.self) from_.self (LibDvm.Cache.hitFrom rq st from_ p).self := by
  have hpart := h.pagePart hnum
  have hgrow : Grows (TurnOk aligned rq from_.self) from_.self
      (from_.cacheHit rq p st.curPageOffset st.curSectors st.isWhole).self :=
    hit_grows (by rw [hs.pages]; exact hp) (by rw [hs.pageSz]; exact hpart.fits)
      (by rw [hoffset, hs.base]; exact h.buffer_le hpart.le)
  exact hgrow.imp fun a ha => ha.of_same hs

theorem LoopOk.directAccess_ok (h : LoopOk rq st) (hnum : 0 < st.numSectors)
    {aligned : Nat → Bool → Bool} (haligned : rq.isAligned = aligned rq.address rq.isWrite)
    (hmiss : (st.search st.curPageSector).cacheHit? st.curPageSector = none)
    (hstream : rq.cached = false) :
    TurnOk aligned rq st.self (directAccess rq (st.search st.curPageSector)) := by
  obtain ⟨hself, _, hoffset, hfirst, _⟩ := search_fields st st.curPageSector
  obtain ⟨hpos, hle⟩ := h.direct_pos hnum hmiss
  have hin := h.inside
  refine ⟨hpos, ?_, ⟨rfl, ?_, ?_⟩, ?_⟩
  · rw [hfirst]
    omega
  · rw [hself]
    exact Nat.dvd_mul_left _ _
  · rw [hself, hoffset, ← Nat.add_mul]
    exact h.buffer_le hle
  · show aligned rq.address rq.isWrite = true
    rw [← haligned]
    simp only [Request.cached, Bool.or_eq_false_iff, Bool.not_eq_false'] at hstream
    exact hstream.2

/-- Step lemma: a turn logs well-formed accesses only. -/
theorem LoopOk.turn_grows (h : LoopOk rq st) (hnum : 0 < st.numSectors)
    {aligned : Nat → Bool → Bool} (haligned : rq.isAligned = aligned rq.address rq.isWrite) :
    Grows (TurnOk aligned rq st.self) st.self (RwState.turn rq st).1.self := by
  obtain ⟨A, U, hrep⟩ := h.rep
  obtain ⟨hself, _, hoffset, _, _⟩ := search_fields st st.curPageSector
  have hsame : Same st.self (st.search st.curPageSector).self := hself ▸ Same.refl st.self
  have hfill : ∀ p, p < st.self.numPages →
      Grows (TurnOk aligned rq st.self) st.self (LibDvm.Cache.filled rq st p).self :=
    fun p hp => hrep.fill_grows rq st.isWhole hp (h.page_lt hnum)
  have hdirect : (st.search st.curPageSector).cacheHit? st.curPageSector = none →
      rq.cached = false → Grows (TurnOk aligned rq st.self) st.self
        ((st.search st.curPageSector).direct rq).1.self := by
    intro hmiss hstream
    apply Grows.one _ (h.directAccess_ok hnum haligned hmiss hstream)
    rw [direct_log, hself]
  cases turn_cases rq hrep with
  | hit p held base eq =>
      rw [eq]
      have hgrow : Grows (TurnOk aligned rq st.self) (st.search st.curPageSector).self _ :=
        h.hitFrom_grows hnum hsame hoffset (h.search_held _ held)
      rw [hself] at hgrow
      exact hgrow
  | filled p miss cached victim ok eq =>
      obtain ⟨_, _, _, _, hpn, _⟩ := h.fill_ok hnum victim ok
      rw [eq]
      have hfilled : Same st.self (LibDvm.Cache.filled rq st p).self :=
        fill_same rq (h.page_lt hnum) p st.isWhole
      exact (hfill p hpn).trans
        (h.hitFrom_grows hnum hfilled (filled_fields rq st p).2.1 hpn)
  | fillFailed p miss cached victim failed eq =>
      rw [eq]
      exact hfill p (h.fill_failed hnum victim failed).2
  | direct miss streaming ok eq =>
      rw [eq, advance_self]
      exact hdirect miss streaming
  | directFailed miss streaming failed eq =>
      rw [eq]
      exact hdirect miss streaming

theorem LoopOk.loop_grows (fuel : Nat) (h : LoopOk rq st) {aligned : Nat → Bool → Bool}
    (haligned : rq.isAligned = aligned rq.address rq.isWrite) :
    Grows (TurnOk aligned rq st.self) st.self (RwState.loop rq fuel st).1.self := by
  induction fuel generalizing st with
  | zero => exact Grows.of_eq rfl
  | succ fuel ih =>
      unfold RwState.loop
      by_cases hzero : st.numSectors = 0
      · rw [if_pos hzero]
        exact Grows.of_eq rfl
      · rw [if_neg hzero]
        have hnum := Nat.pos_of_ne_zero hzero
        obtain ⟨hturn, hsame, _⟩ := h.turn hnum
        have hgrow := h.turn_grows hnum haligned
        by_cases hgo : (RwState.turn rq st).2 = true
        · rw [if_pos hgo]
          exact hgrow.trans ((ih hturn).imp fun a ha => ha.of_same hsame)
        · rw [if_neg hgo]
          exact hgrow

theorem Rep.flushLoop_grows (ret : Bool) (xs : List Nat) (h : Rep c A U)
    (hxs : ∀ p ∈ xs, p < c.numPages) (aligned : Nat → Bool → Bool)
    (caller : Option (Nat × Nat)) :
    Grows (Access.WellFormed c aligned caller) c (dvmDiscCacheFlushLoop c ret xs).1 := by
  induction xs generalizing c ret with
  | nil => exact Grows.of_eq rfl
  | cons p rest ih =>
      rw [dvmDiscCacheFlushLoop]
      by_cases hfree : c.unallocated p = true
      · rw [if_pos hfree]
        exact Grows.of_eq rfl
      · rw [if_neg hfree]
        have hsame := flush_same c p
        have hp := hxs p (by simp)
        apply (h.flush_grows hp).trans
        have hrest := ih (ret && (dvmDiscCacheEntryFlush c p).2) (h.flush hp)
          (by rw [hsame.pages]; exact fun q hq => hxs q (List.mem_cons_of_mem p hq))
        exact hrest.imp fun a ha => ha.of_same hsame

theorem Rep.readWrite_grows (h : Rep c A U) (aligned : Nat → Bool → Bool) (address : Nat)
    (buffer : Nat → α) (first num : Nat) (isPartial isWrite : Bool) :
    Grows (Access.WellFormed c aligned (some (address, num * c.base.sectorSz))) c
      (dvmDiscCacheReadWrite (aligned address isWrite) c address buffer first num isPartial
        isWrite).self := by
  unfold dvmDiscCacheReadWrite
  rcases rwStart_cases (aligned address isWrite) c address buffer first num isPartial isWrite
    with ⟨_, heq⟩ | ⟨_, hin, heq⟩
  · rw [heq]
    exact Grows.of_eq rfl
  · rw [heq]
    have hstart := h.loopOk (aligned address isWrite) address buffer isPartial isWrite hin
    exact hstart.loop_grows num rfl

theorem Rep.call_grows (h : Rep c A U) (aligned : Nat → Bool → Bool) (r : Call α) :
    Grows (Access.WellFormed c aligned (r.caller c.base.sectorSz)) c
      (LibDvm.Cache.call aligned c r).1 := by
  cases r with
  | read address buffer first num isPartial =>
      exact h.readWrite_grows aligned address buffer first num isPartial false
  | write address buffer first num isPartial =>
      exact h.readWrite_grows aligned address buffer first num isPartial true
  | flush => exact h.flushLoop_grows true c.order (fun p hp => h.order_lt hp) aligned none

/-! ## Alignment -/

def Place.addr (c : DvmDiscCache α) : Place → Nat
  | .slot _ offset => c.data + offset
  | .caller address _ offset => address + offset

theorem dvmIsAlignedAccess_iff (k addr : Nat) (isWrite : Bool) :
    dvmIsAlignedAccess (2 ^ k) addr isWrite = true ↔ 2 ^ k ∣ addr := by
  rw [dvmIsAlignedAccess, Align.and_low_mask, beq_iff_eq, Nat.dvd_iff_mod_eq_zero]

theorem Access.WellFormed.addr_aligned {k : Nat} {caller : Option (Nat × Nat)} {isWrite : Bool}
    {place : Place} {first count : Nat}
    (h : (Access.transfer isWrite place first count).WellFormed c
      (dvmIsAlignedAccess (2 ^ k)) caller)
    (hsector : 2 ^ k ∣ c.base.sectorSz) (hdata : 2 ^ k ∣ c.data) :
    dvmIsAlignedAccess (2 ^ k) (place.addr c) isWrite = true := by
  obtain ⟨_, _, hholds, hdirect⟩ := h
  rw [dvmIsAlignedAccess_iff]
  cases place with
  | slot p offset => exact Nat.dvd_add hdata (Nat.dvd_trans hsector hholds.2.1)
  | caller address length offset =>
      have haddress := (dvmIsAlignedAccess_iff k address isWrite).mp hdirect
      exact Nat.dvd_add haddress (Nat.dvd_trans hsector hholds.2.1)

/-! ## Runs -/

/-- In every run, under any inner failures, each access a call makes is well formed,
every data slot lies in the data buffer, and under the default alignment rule the
memory address of every inner transfer is aligned. -/
theorem run_access_wellFormed {inner : InnerDisc α} {cachePages sectorsPerPage : Nat}
    {mallocOk : Bool} {allocated : Option (Nat × (Nat → α))}
    (hcreate : dvmDiscCacheCreate inner cachePages sectorsPerPage mallocOk allocated = .inr c)
    (hpage : effectivePage inner.disc sectorsPerPage ≤ 32768)
    (hdata : cachePages * c.pageSz * c.base.sectorSz ≤ c.dataSz)
    (aligned : Nat → Bool → Bool) (calls : List (Call α)) (r : Call α) :
    let c' := (machine α aligned).run c calls
    (∀ p < c'.numPages, (p + 1) * c'.pageSz * c'.base.sectorSz ≤ c'.dataSz) ∧
      ∃ added : List Access,
        (call aligned c' r).1.log = c'.log ++ added ∧
        (∀ a ∈ added, a.WellFormed c' aligned (r.caller c'.base.sectorSz)) ∧
        ∀ k : Nat, aligned = dvmIsAlignedAccess (2 ^ k) → 2 ^ k ∣ c.base.sectorSz →
          2 ^ k ∣ c.data → ∀ isWrite place first count,
            Access.transfer isWrite place first count ∈ added →
              dvmIsAlignedAccess (2 ^ k) (place.addr c') isWrite = true := by
  have hnew := dvmDiscCacheCreate_created hcreate hpage
  obtain ⟨⟨A, U, hrep⟩, hsame⟩ := hnew.rep.run aligned calls
  obtain ⟨added, hlog, hok⟩ := hrep.call_grows aligned r
  refine ⟨?_, added, hlog, hok, ?_⟩
  · intro p hp
    rw [hsame.pageSz, hsame.base, hsame.dataSz]
    rw [hsame.pages, hnew.pages] at hp
    exact Nat.le_trans (Nat.mul_le_mul_right _ (Nat.mul_le_mul_right _ hp)) hdata
  · intro k heq hsector hdataAligned isWrite place first count hmem
    subst heq
    apply (hok _ hmem).addr_aligned
    · rw [hsame.base]
      exact hsector
    · rw [hsame.data]
      exact hdataAligned

theorem run_access_wellFormed_sample :
    ∃ added : List Access,
      (call (dvmIsAlignedAccess (2 ^ 5)) ((machine Nat (dvmIsAlignedAccess (2 ^ 5))).run
        sampleCache [.write 32 (fun _ => 7) 1 1 true]) .flush).1.log =
          ((machine Nat (dvmIsAlignedAccess (2 ^ 5))).run
            sampleCache [.write 32 (fun _ => 7) 1 1 true]).log ++ added ∧
        ∀ isWrite place first count, Access.transfer isWrite place first count ∈ added →
          dvmIsAlignedAccess (2 ^ 5) (place.addr ((machine Nat (dvmIsAlignedAccess (2 ^ 5))).run
            sampleCache [.write 32 (fun _ => 7) 1 1 true])) isWrite = true := by
  obtain ⟨_, added, hlog, _, haddr⟩ := run_access_wellFormed sampleCache_created (by decide)
    (by decide) (dvmIsAlignedAccess (2 ^ 5)) [.write 32 (fun _ => 7) 1 1 true] .flush
  exact ⟨added, hlog, haddr 5 rfl (by decide) (by decide)⟩

end LibDvm.Cache
