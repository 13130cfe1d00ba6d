import LibDvm.Disc.Model
import LibDvm.Lib.Machine
import LibDvm.Lib.NodeList
import LibDvm.Lib.Store

/-! # The sector cache

`dvm_cache.c` under its own names. Memory is counted in sector-sized cells, each
holding one value of `α`; byte offsets are computed as the code computes them and
kept, with every transfer and copy, in the access log of the cache. The entries'
`link` members form the `Links` of a node list whose header is `self->list`. Here a call
runs to its end; the lock around each call, and the threads it holds back, are the
subject of `Cache.Threads`.
-/

namespace LibDvm.Cache

open NodeList Store

variable {α : Type}

/-- `LIBDVM_EMPTY_PAGE`, all ones. -/
abbrev emptyPage : Nat := 2 ^ 32 - 1

/-! ## Data model -/

/-- `DvmDiscCacheEntry` without its `link`. -/
structure DvmDiscCacheEntry where
  baseSector : Nat
  dirtyStart : Nat
  dirtyEnd : Nat

/-- Where in memory a block starts: `offset` bytes into the cache data on behalf of
an entry, or into the caller's buffer of `length` bytes at `address`. -/
inductive Place where
  | slot (entry offset : Nat)
  | caller (address length offset : Nat)
deriving DecidableEq

/-- One block moved, `count` sectors from `first` on: a transfer of the inner disc
to or from a place in memory, or a copy between the cache and the caller. -/
inductive Access where
  | transfer (isWrite : Bool) (place : Place) (first count : Nat)
  | copy (isWrite : Bool) (cache caller : Place) (first count : Nat)
deriving DecidableEq

/-- `DvmDiscCache`. `numPages` is the length of `entries[]`, `dataSz` the number of
bytes requested for the buffer at address `data`, whose cells are `cells`. -/
structure DvmDiscCache (α : Type) where
  base : DvmDisc
  inner : InnerDisc α
  data : Nat
  dataSz : Nat
  cells : Nat → α
  pageShift : Nat
  links : Links Nat
  entries : Nat → DvmDiscCacheEntry
  numPages : Nat
  log : List Access

namespace DvmDiscCache

/-- `1U << self->page_shift`. -/
def pageSz (self : DvmDiscCache α) : Nat := 1 <<< self.pageShift

def order (self : DvmDiscCache α) : List Nat := self.links.forward self.numPages

def unallocated (self : DvmDiscCache α) (p : Nat) : Bool :=
  (self.entries p).baseSector == emptyPage

def setEntry (self : DvmDiscCache α) (p : Nat) (e : DvmDiscCacheEntry) : DvmDiscCache α :=
  { self with entries := fun i => if i = p then e else self.entries i }

def setBase (self : DvmDiscCache α) (p sector : Nat) : DvmDiscCache α :=
  self.setEntry p { self.entries p with baseSector := sector }

def setDirty (self : DvmDiscCache α) (p start stop : Nat) : DvmDiscCache α :=
  self.setEntry p { self.entries p with dirtyStart := u16 start, dirtyEnd := u16 stop }

/-- Update the dirty range of an entry to take in the sectors `[start, stop)`. -/
def widenDirty (self : DvmDiscCache α) (p start stop : Nat) : DvmDiscCache α :=
  let e := self.entries p
  self.setDirty p (if start < e.dirtyStart then start else e.dirtyStart)
    (if stop > e.dirtyEnd then stop else e.dirtyEnd)

/-- Make this the MRU, unless it is already or its whole page was accessed. -/
def makeMru (self : DvmDiscCache α) (p : Nat) (isWhole : Bool) : DvmDiscCache α :=
  if !isWhole && self.links.list.next != some p then
    { self with links := self.links.moveToFront p }
  else self

def logged (self : DvmDiscCache α) (a : Access) : DvmDiscCache α :=
  { self with log := self.log ++ [a] }

end DvmDiscCache

/-! ## The inner disc -/

/-- `dvmDiscWriteSectors` on the inner disc, from cell `off` of `mem`. -/
def dvmDiscWriteSectors (d : InnerDisc α) (mem : Nat → α) (off first count : Nat) :
    InnerDisc α × Bool :=
  match d.writeFault d.calls with
  | none =>
      ({ d with sectors := blit d.sectors first mem off count, calls := d.calls + 1 }, true)
  | some junk =>
      ({ d with sectors := blit d.sectors first junk first count, calls := d.calls + 1 }, false)

/-- `dvmDiscReadSectors` on the inner disc, to cell `off` of `mem`. -/
def dvmDiscReadSectors (d : InnerDisc α) (mem : Nat → α) (off first count : Nat) :
    InnerDisc α × (Nat → α) × Bool :=
  match d.readFault d.calls with
  | none => ({ d with calls := d.calls + 1 }, blit mem off d.sectors first count, true)
  | some junk => ({ d with calls := d.calls + 1 }, blit mem off junk off count, false)

/-- `dvmDiscFlush` on the inner disc. -/
def dvmDiscFlush (d : InnerDisc α) : InnerDisc α × Bool :=
  ({ d with calls := d.calls + 1 }, !d.flushFault d.calls)

/-! ## Search -/

/-- The loop of `_dvmDiscCacheSearch` over the entries still to visit. -/
def dvmDiscCacheSearchLoop (self : DvmDiscCache α) (pageSector : Nat) :
    List Nat → Nat → Option Nat → Option Nat
  | [], _, ret => ret
  | p :: rest, minSec, ret =>
      let base := (self.entries p).baseSector
      if base = emptyPage then ret
      else if base = pageSector then some p
      else if base > pageSector ∧ base < minSec then
        dvmDiscCacheSearchLoop self pageSector rest base (some p)
      else dvmDiscCacheSearchLoop self pageSector rest minSec ret

def dvmDiscCacheSearch (self : DvmDiscCache α) (pageSector : Nat) : Option Nat :=
  dvmDiscCacheSearchLoop self pageSector self.order emptyPage none

/-! ## Flush -/

def entryCell (self : DvmDiscCache α) (p : Nat) : Nat := p <<< self.pageShift

/-- `_dvmDiscCacheEntryGetData`, in bytes from `self->data`. -/
def dvmDiscCacheEntryGetData (self : DvmDiscCache α) (p : Nat) : Nat :=
  entryCell self p * self.base.sectorSz

def dvmDiscCacheEntryFlush (self : DvmDiscCache α) (p : Nat) : DvmDiscCache α × Bool :=
  let e := self.entries p
  if e.dirtyStart ≥ e.dirtyEnd then (self, true)
  else
    let data := dvmDiscCacheEntryGetData self p + e.dirtyStart * self.base.sectorSz
    let sector := secWrap (e.baseSector + e.dirtyStart)
    let sz := e.dirtyEnd - e.dirtyStart
    let (inner, ret) :=
      dvmDiscWriteSectors self.inner self.cells (entryCell self p + e.dirtyStart) sector sz
    let self := { self with inner }.logged (.transfer true (.slot p data) sector sz)
    if ret then (self.setDirty p self.pageSz 0, true) else (self, false)

/-- The loop of `_dvmDiscCacheFlush`, with `ret` so far. -/
def dvmDiscCacheFlushLoop (self : DvmDiscCache α) (ret : Bool) :
    List Nat → DvmDiscCache α × Bool
  | [] => (self, ret)
  | p :: rest =>
      if self.unallocated p then (self, ret)
      else
        let flushed := dvmDiscCacheEntryFlush self p
        dvmDiscCacheFlushLoop flushed.1 (ret && flushed.2) rest

def dvmDiscCacheFlush (self : DvmDiscCache α) : DvmDiscCache α × Bool :=
  let walked := dvmDiscCacheFlushLoop self true self.order
  let (inner, ok) := dvmDiscFlush walked.1.inner
  ({ walked.1 with inner }, walked.2 && ok)

/-! ## Read and write -/

/-- What a request fixes for its whole loop. `address` and `length` are the caller's
buffer in bytes; `isPartial` is the flag after `is_partial |= num_sectors < page_sz`. -/
structure Request where
  isWrite : Bool
  isPartial : Bool
  isAligned : Bool
  address : Nat
  length : Nat

/-- The variables of the request loop. `buffer` is the caller's memory and `offset`
how many sectors the `buffer` pointer has advanced. -/
structure RwState (α : Type) where
  self : DvmDiscCache α
  buffer : Nat → α
  offset : Nat
  firstSector : Nat
  numSectors : Nat
  p : Option Nat
  searchBase : Nat

namespace RwState

def callerPlace (rq : Request) (st : RwState α) : Place :=
  .caller rq.address rq.length (st.offset * st.self.base.sectorSz)

/-- Search the cache for the page, unless an earlier search already covers it. -/
def search (st : RwState α) (curPageSector : Nat) : RwState α :=
  if curPageSector ≥ st.searchBase then
    match dvmDiscCacheSearch st.self curPageSector with
    | some p =>
        { st with
          p := some p
          searchBase := secWrap ((st.self.entries p).baseSector + 1) }
    | none => { st with p := none, searchBase := emptyPage }
  else st

/-- `p && p->base_sector == cur_page_sector`. -/
def cacheHit? (st : RwState α) (curPageSector : Nat) : Option Nat :=
  st.p.filter fun p => (st.self.entries p).baseSector == curPageSector

/-- The code under `_cacheHit`. -/
def cacheHit (rq : Request) (st : RwState α) (p curPageOffset curSectors : Nat)
    (isWhole : Bool) : RwState α :=
  let cell := entryCell st.self p + curPageOffset
  let data := dvmDiscCacheEntryGetData st.self p + curPageOffset * st.self.base.sectorSz
  let self := st.self.logged
    (.copy rq.isWrite (.slot p data) (st.callerPlace rq) st.firstSector curSectors)
  if rq.isWrite then
    let self := { self with cells := blit self.cells cell st.buffer st.offset curSectors }
    let self := self.widenDirty p curPageOffset (curPageOffset + curSectors)
    { st with self := self.makeMru p isWhole }
  else
    { st with
      self := self.makeMru p isWhole
      buffer := blit st.buffer st.offset self.cells cell curSectors }

/-- The backward scan for the entry to reuse: the first unallocated one, else the
tail. `fuel` bounds the number of `prev` links followed. -/
def victimLoop (self : DvmDiscCache α) : Nat → Nat → Nat
  | 0, p => p
  | fuel + 1, p =>
      match (self.links.link p).prev with
      | some q => if self.unallocated p && self.unallocated q then victimLoop self fuel q else p
      | none => p

def victim (self : DvmDiscCache α) : Option Nat :=
  self.links.list.prev.map (victimLoop self self.numPages)

/-- Read the page now held by `p` into its slot. -/
def load (self : DvmDiscCache α) (p curPageSector : Nat) : DvmDiscCache α × Bool :=
  let maxSz := secSub self.base.numSectors curPageSector
  let sz := if self.pageSz < maxSz then self.pageSz else maxSz
  let (inner, cells, ok) :=
    dvmDiscReadSectors self.inner self.cells (entryCell self p) curPageSector sz
  let self := { self with inner, cells }.logged
    (.transfer false (.slot p (dvmDiscCacheEntryGetData self p)) curPageSector sz)
  if ok then (self, true) else (self.setBase p emptyPage, false)

/-- Partial or misaligned access to an absent page: flush the victim, give it the
page, and load the page unless all of it is about to be written. -/
def fill (rq : Request) (self : DvmDiscCache α) (p curPageSector : Nat) (isWhole : Bool) :
    DvmDiscCache α × Bool :=
  let flushed := dvmDiscCacheEntryFlush self p
  if flushed.2 then
    let self := flushed.1.setBase p curPageSector
    if !rq.isWrite || !isWhole then load self p curPageSector else (self, true)
  else flushed

/-- Where a direct transfer has to stop: the next cached page, or the disc end. -/
def directLimit (st : RwState α) : Nat :=
  match st.p with
  | some p => (st.self.entries p).baseSector
  | none => st.self.base.numSectors

def directSectors (st : RwState α) : Nat :=
  let maxCurSectors := secSub st.directLimit st.firstSector
  if st.numSectors < maxCurSectors then st.numSectors else maxCurSectors

/-- Direct access, straight into the caller's buffer. -/
def direct (rq : Request) (st : RwState α) : RwState α × Bool :=
  let cur := st.directSectors
  let self := st.self.logged (.transfer rq.isWrite (st.callerPlace rq) st.firstSector cur)
  if rq.isWrite then
    let (inner, ok) := dvmDiscWriteSectors self.inner st.buffer st.offset st.firstSector cur
    ({ st with self := { self with inner } }, ok)
  else
    let (inner, buffer, ok) :=
      dvmDiscReadSectors self.inner st.buffer st.offset st.firstSector cur
    ({ st with self := { self with inner }, buffer }, ok)

def advance (st : RwState α) (curSectors : Nat) : RwState α :=
  { st with
    offset := st.offset + curSectors
    firstSector := secWrap (st.firstSector + curSectors)
    numSectors := secSub st.numSectors curSectors }

/-- `cur_page_sector`, `first_sector & ~(sec_t)page_mask`. -/
def curPageSector (st : RwState α) : Nat := st.firstSector &&& secNot (st.self.pageSz - 1)

/-- `cur_page_offset`, `first_sector & page_mask`. -/
def curPageOffset (st : RwState α) : Nat := st.firstSector &&& (st.self.pageSz - 1)

/-- `cur_sectors`, as first computed: the part of the request inside this page. -/
def curSectors (st : RwState α) : Nat :=
  let maxCurSectors := st.self.pageSz - st.curPageOffset
  if st.numSectors < maxCurSectors then st.numSectors else maxCurSectors

def isWhole (st : RwState α) : Bool :=
  st.curPageOffset == 0 && st.curSectors == st.self.pageSz

/-- One turn of the request loop; the flag tells whether the loop goes on. -/
def turn (rq : Request) (st₀ : RwState α) : RwState α × Bool :=
  let page := st₀.curPageSector
  let off := st₀.curPageOffset
  let cur := st₀.curSectors
  let whole := st₀.isWhole
  let st := st₀.search page
  match st.cacheHit? page with
  | some p => ((st.cacheHit rq p off cur whole).advance cur, true)
  | none =>
      if rq.isPartial || !rq.isAligned then
        match victim st.self with
        | some p =>
            let filled := fill rq st.self p page whole
            let st := { st with self := filled.1, p := some p }
            if filled.2 then ((st.cacheHit rq p off cur whole).advance cur, true) else (st, false)
        | none => (st, false)
      else
        let moved := st.direct rq
        if moved.2 then (moved.1.advance st.directSectors, true) else (moved.1, false)

/-- `while (num_sectors)`. The answer `none` means that `fuel` turns were not enough. -/
def loop (rq : Request) : Nat → RwState α → RwState α × Option Bool
  | 0, st => (st, if st.numSectors = 0 then some true else none)
  | fuel + 1, st =>
      if st.numSectors = 0 then (st, some true)
      else if (turn rq st).2 then loop rq fuel (turn rq st).1
      else ((turn rq st).1, some false)

end RwState

/-- `_dvmDiscCacheReadWrite` up to its loop: the range checks and the loop's start,
`none` when a check fails. -/
def rwStart (isAligned : Bool) (self : DvmDiscCache α) (address : Nat) (buffer : Nat → α)
    (firstSector numSectors : Nat) (isPartial isWrite : Bool) :
    Option (Request × RwState α) :=
  if firstSector ≥ self.base.numSectors then none
  else if numSectors > secSub self.base.numSectors firstSector then none
  else some
    (⟨isWrite, isPartial || decide (numSectors < self.pageSz), isAligned, address,
      numSectors * self.base.sectorSz⟩,
    ⟨self, buffer, 0, firstSector, numSectors, none, 0⟩)

/-- The answer of a request: the caller's buffer and the value returned, `none` for
a loop that has not returned. -/
structure RwResult (α : Type) where
  self : DvmDiscCache α
  buffer : Nat → α
  ret : Option Bool

def dvmDiscCacheReadWrite (isAligned : Bool) (self : DvmDiscCache α) (address : Nat)
    (buffer : Nat → α) (firstSector numSectors : Nat) (isPartial isWrite : Bool) : RwResult α :=
  match rwStart isAligned self address buffer firstSector numSectors isPartial isWrite with
  | none => ⟨self, buffer, some false⟩
  | some (rq, st) =>
      let done := RwState.loop rq numSectors st
      ⟨done.1.self, done.1.buffer, done.2⟩

/-! ## The cached disc as a machine -/

/-- The default `_dvmIsAlignedAccess`; the other builds supply their own. -/
def dvmIsAlignedAccess (bufferAlign : Nat) (addr : Nat) (_isWrite : Bool) : Bool :=
  addr &&& (bufferAlign - 1) == 0

/-- A call through the function table, with the caller's buffer where it has one. -/
inductive Call (α : Type) where
  | read (address : Nat) (buffer : Nat → α) (firstSector numSectors : Nat) (isPartial : Bool)
  | write (address : Nat) (buffer : Nat → α) (firstSector numSectors : Nat) (isPartial : Bool)
  | flush

/-- What a call returns and, for a read, the sectors left in the caller's buffer. -/
structure Reply (α : Type) where
  ret : Option Bool
  data : List α

/-- `_dvmDiscCacheReadSectors`, `_dvmDiscCacheWriteSectors` and `_dvmDiscCacheFlush`. -/
def call (aligned : Nat → Bool → Bool) (self : DvmDiscCache α) :
    Call α → DvmDiscCache α × Reply α
  | .read address buffer first num isPartial =>
      let r := dvmDiscCacheReadWrite (aligned address false) self address buffer first num
        isPartial false
      (r.self, ⟨r.ret, (List.range num).map r.buffer⟩)
  | .write address buffer first num isPartial =>
      let r := dvmDiscCacheReadWrite (aligned address true) self address buffer first num
        isPartial true
      (r.self, ⟨r.ret, []⟩)
  | .flush =>
      let r := dvmDiscCacheFlush self
      (r.1, ⟨some r.2, []⟩)

def machine (α : Type) (aligned : Nat → Bool → Bool) :
    Machine (DvmDiscCache α) (Call α) (Reply α) := ⟨call aligned⟩

/-! ## Creation -/

/-- `while ((1U << disc->page_shift) != sectors_per_page) disc->page_shift ++;` -/
def pageShiftLoop (sectorsPerPage : Nat) : Nat → Nat → Nat
  | 0, shift => shift
  | fuel + 1, shift =>
      if 1 <<< shift = sectorsPerPage then shift
      else pageShiftLoop sectorsPerPage fuel (shift + 1)

/-- Page size in sectors of the inner disc, before validation. -/
def effectivePage (inner : DvmDisc) (sectorsPerPage : Nat) : Nat :=
  let scaled := secWrap (sectorsPerPage * 512) / inner.sectorSz
  if scaled < inner.blockSz then inner.blockSz else scaled

/-- The links `dvmDiscCacheCreate` gives to `pages` entries. -/
def initialLinks (pages : Nat) : Links Nat :=
  { list := ⟨some 0, some (pages - 1)⟩
    link := fun i =>
      ⟨if i + 1 < pages then some (i + 1) else none, if i = 0 then none else some (i - 1)⟩ }

/-- The cache `dvmDiscCacheCreate` builds once its checks and allocations pass. -/
def initialCache (inner : InnerDisc α) (pages page data : Nat) (memory : Nat → α) :
    DvmDiscCache α :=
  { base :=
      { inner.disc with
        numUsers := 0
        blockSz := u16 page
        numUsers_lt := zero_lt_u16
        blockSz_lt := u16_lt _ }
    inner := { inner with disc := dvmDiscAddUser inner.disc }
    data := data
    dataSz := secWrap (pages * page * inner.disc.sectorSz)
    cells := memory
    pageShift := pageShiftLoop page 32 0
    links := initialLinks pages
    entries := fun _ => ⟨emptyPage, u16 page, 0⟩
    numPages := pages
    log := [] }

/-- `dvmDiscCacheCreate`: the inner disc itself, or a cache on it. `mallocOk` and
`allocated` are the outcomes of `malloc` and `aligned_alloc`, the latter an address
and what the memory there happens to hold. -/
def dvmDiscCacheCreate (inner : InnerDisc α) (cachePages sectorsPerPage : Nat)
    (mallocOk : Bool) (allocated : Option (Nat × (Nat → α))) : InnerDisc α ⊕ DvmDiscCache α :=
  let page := effectivePage inner.disc sectorsPerPage
  if cachePages = 0 ∨ page = 0 ∨ page &&& (page - 1) ≠ 0 then .inl inner
  else if !mallocOk then .inl inner
  else match allocated with
    | none => .inl inner
    | some (data, memory) => .inr (initialCache inner cachePages page data memory)

theorem dvmDiscCacheCreate_numUsers {inner : InnerDisc α} {cachePages sectorsPerPage : Nat}
    {mallocOk : Bool} {allocated : Option (Nat × (Nat → α))} {cache : DvmDiscCache α}
    (h : dvmDiscCacheCreate inner cachePages sectorsPerPage mallocOk allocated = .inr cache) :
    cache.base.numUsers = 0 := by
  unfold dvmDiscCacheCreate at h
  simp only at h
  split_ifs at h
  cases allocated with
  | none => contradiction
  | some place =>
      cases h
      rfl

end LibDvm.Cache
