import LibDvm.Block.Model
import LibDvm.Cache.Threads

/-! # Volumes do not see each other

Volumes whose ranges do not overlap share one cached disc. As long as each file system
stays inside its volume, every volume is served as a private array of sectors would serve
it, in whatever order the calls of the volumes, and of the threads that make them, come.
-/

namespace LibDvm.Block

open Cache Store Monitor

variable {α κ τ : Type}

/-! ## A volume of its own -/

namespace BlockVolume

def code (vol : BlockVolume) (ok : Bool) : Code :=
  match vol with
  | .fat _ => if ok then .resOk else .resError
  | .ext _ => if ok then .eok else .eio

def onDisc (vol : BlockVolume) (sector : Nat) : Nat :=
  match vol with
  | .fat vol => vol.sector sector
  | .ext _ => secWrap sector

def isPartial (vol : BlockVolume) (address : Nat) (opt : Bool) : Bool :=
  match vol with
  | .fat _ => opt
  | .ext bdev => bdev.phBbuf == address

def request (vol : BlockVolume) : BlockCall α → Call α
  | .read address buffer sector count opt =>
      .read address buffer (vol.onDisc sector) count (vol.isPartial address opt)
  | .write address buffer sector count opt =>
      .write address buffer (vol.onDisc sector) count (vol.isPartial address opt)
  | .sync => .flush

def reply (vol : BlockVolume) (b : BlockCall α) (r : Reply α) : BlockReply α :=
  ⟨vol.code r.ok, match b with
    | .sync => []
    | _ => r.data⟩

def Inside (vol : BlockVolume) : BlockCall α → Prop
  | .read _ _ sector count _ => vol.origin ≤ sector ∧ sector - vol.origin < vol.window.size ∧
      sector - vol.origin + count ≤ vol.window.size
  | .write _ _ sector count _ => vol.origin ≤ sector ∧ sector - vol.origin < vol.window.size ∧
      sector - vol.origin + count ≤ vol.window.size
  | .sync => True

instance (vol : BlockVolume) (b : BlockCall α) : Decidable (vol.Inside b) := by
  cases b <;> unfold Inside <;> infer_instance

def device (α : Type) (vol : BlockVolume) :
    Machine (Nat → α) (BlockCall α) (BlockReply α) where
  step m := fun
    | .read _ _ sector count _ =>
        (m, ⟨vol.code true, (List.range count).map fun k => m (sector - vol.origin + k)⟩)
    | .write _ buffer sector count _ =>
        (blit m (sector - vol.origin) buffer 0 count, ⟨vol.code true, []⟩)
    | .sync => (m, ⟨vol.code true, []⟩)

end BlockVolume

theorem BlockVolume.call_eq {σ : Type} (vt : Machine σ (Call α) (Reply α)) (base : σ → DvmDisc)
    (disc : σ) (vol : BlockVolume) (b : BlockCall α) :
    vol.call vt base disc b = ((vt.step disc (vol.request b)).1,
      vol.reply b (vt.step disc (vol.request b)).2) := by
  cases vol <;> cases b <;> rfl

def volumeReply (vols : κ → BlockVolume) (i : κ × BlockCall α) (r : Reply α) :
    κ × BlockReply α := (i.1, (vols i.1).reply i.2 r)

/-- The ranges of the volumes lie on the disc and do not overlap. -/
structure Tiled (sectors : Nat) (vols : κ → BlockVolume) : Prop where
  apart : ∀ i j, i ≠ j → (vols i).window.Apart (vols j).window
  onDisc : ∀ i, (vols i).window.start + (vols i).window.size ≤ sectors

theorem BlockVolume.onDisc_eq {vol : BlockVolume} {sectors sector : Nat}
    (hvol : vol.window.start + vol.window.size ≤ sectors) (hsectors : sectors < 2 ^ 32)
    (horigin : vol.origin ≤ sector) (hin : sector - vol.origin < vol.window.size) :
    vol.onDisc sector = vol.window.start + (sector - vol.origin) := by
  cases vol with
  | fat vol =>
      simp only [window, origin] at hvol hin ⊢
      rw [onDisc, FatVolume.sector, secWrap_of_lt (n := sector) (by omega),
        secWrap_of_lt (by omega), Nat.sub_zero]
  | ext bdev =>
      simp only [origin] at horigin hin ⊢
      rw [onDisc, secWrap_of_lt (by omega)]
      omega

/-! ## One call -/

variable {c : DvmDiscCache α} {m m₀ : Nat → α} {vols : κ → BlockVolume} {arrays : κ → Nat → α}

/-- The disc content `m` is made of the arrays of the volumes, and elsewhere of `m₀`. -/
structure MadeOf (vols : κ → BlockVolume) (m₀ : Nat → α) (arrays : κ → Nat → α)
    (m : Nat → α) : Prop where
  shows : ∀ v, (vols v).window.Shows m (arrays v)
  rest : ∀ s, (∀ v, s < (vols v).window.start ∨
    (vols v).window.start + (vols v).window.size ≤ s) → m s = m₀ s

def Holds (vols : κ → BlockVolume) (m₀ : Nat → α) (c : DvmDiscCache α) (arrays : κ → Nat → α) :
    Prop := ∃ m, Represents c m ∧ MadeOf vols m₀ arrays m

def BlockVolume.content (vol : BlockVolume) (sectors : Nat → α) : Nat → α :=
  fun k => sectors (vol.window.start + k)

theorem Created.holds {inner : InnerDisc α} {cachePages sectorsPerPage : Nat}
    (h : Created inner cachePages sectorsPerPage c) (hread : ∀ n, inner.readFault n = none)
    (hwrite : ∀ n, inner.writeFault n = none) (vols : κ → BlockVolume) :
    Holds vols inner.sectors c fun v => (vols v).content inner.sectors :=
  ⟨inner.sectors, h.represents hread hwrite, ⟨fun _ _ _ => rfl, fun _ _ => rfl⟩⟩

theorem Holds.synced (h : Holds vols m₀ c arrays) (hsync : Syncing c) :
    (∀ v, (vols v).window.Shows (dvmDiscCacheFlush c).1.inner.sectors (arrays v)) ∧
      ∀ s, (∀ v, s < (vols v).window.start ∨
        (vols v).window.start + (vols v).window.size ≤ s) →
          (dvmDiscCacheFlush c).1.inner.sectors s = m₀ s := by
  obtain ⟨m, hrep, hmade⟩ := h
  rw [hrep.flushed_sectors (hrep.flush_ok hsync)]
  exact ⟨hmade.shows, hmade.rest⟩

variable [DecidableEq κ]

theorem MadeOf.step (h : MadeOf vols m₀ arrays m) {sectors : Nat} (htiled : Tiled sectors vols)
    (hsectors : sectors < 2 ^ 32) {v : κ} {b : BlockCall α} (hin : (vols v).Inside b) :
    let plain := (plainDisc α sectors).step m ((vols v).request b)
    let own := ((vols v).device α).step (arrays v) b
    MadeOf vols m₀ (Function.update arrays v own.1) plain.1 ∧
      (vols v).reply b plain.2 = own.2 := by
  have hvol := htiled.onDisc v
  cases b with
  | read address buffer sector count opt =>
      obtain ⟨horigin, hstart, hend⟩ := hin
      dsimp only [BlockVolume.request, plainDisc, BlockVolume.device]
      rw [BlockVolume.onDisc_eq hvol hsectors horigin hstart, if_pos (by omega),
        Function.update_eq_self]
      refine ⟨h, ?_⟩
      dsimp only [BlockVolume.reply]
      rw [(h.shows v).read hend]
      rfl
  | write address buffer sector count opt =>
      obtain ⟨horigin, hstart, hend⟩ := hin
      dsimp only [BlockVolume.request, plainDisc, BlockVolume.device]
      rw [BlockVolume.onDisc_eq hvol hsectors horigin hstart, if_pos (by omega)]
      refine ⟨⟨fun u => ?_, fun s hs => ?_⟩, rfl⟩
      · exact Window.shows_update htiled.apart h.shows v hend buffer 0 u
      · have hout := hs v
        dsimp only
        rw [blit_outside (by omega)]
        exact h.rest s hs
  | sync =>
      dsimp only [BlockVolume.request, plainDisc, BlockVolume.device]
      rw [Function.update_eq_self]
      exact ⟨h, rfl⟩

/-- Step lemma: a call of one volume is a call of its own array. -/
theorem Holds.call (h : Holds vols m₀ c arrays) (htiled : Tiled c.base.numSectors vols)
    (hsync : Syncing c) (aligned : Nat → Bool → Bool) (base : DvmDiscCache α → DvmDisc)
    {i : κ × BlockCall α} (hin : (vols i.1).Inside i.2)
    (hreg : ((vols i.1).request i.2).regular aligned c.pageSz = true) :
    let out := (volumes (machine α aligned) base vols).step c i
    let own := (Machine.family fun v => (vols v).device α).step arrays i
    Holds vols m₀ out.1 own.1 ∧ Same c out.1 ∧ out.2 = own.2 := by
  obtain ⟨m, hrep, hmade⟩ := h
  obtain ⟨hnext, hsame⟩ := hrep.regular_call aligned hreg
  have hanswer := hrep.regular_answer hsync aligned hreg
  obtain ⟨hmade', hreply⟩ := hmade.step htiled c.base.numSectors_lt hin
  dsimp only [volumes, Machine.family]
  rw [BlockVolume.call_eq]
  refine ⟨⟨_, hnext, hmade'⟩, hsame, ?_⟩
  rw [← hreply, ← hanswer]
  rfl

/-! ## Runs -/

/-- A call that keeps to its volume, and is one the cache serves in one step. -/
def Proper (vols : κ → BlockVolume) (aligned : Nat → Bool → Bool) (pageSz : Nat)
    (i : κ × BlockCall α) : Prop :=
  (vols i.1).Inside i.2 ∧ ((vols i.1).request i.2).regular aligned pageSz = true

instance (vols : κ → BlockVolume) (aligned : Nat → Bool → Bool) (pageSz : Nat)
    (i : κ × BlockCall α) : Decidable (Proper vols aligned pageSz i) :=
  inferInstanceAs (Decidable (_ ∧ _))

/-- Run lemma: proper calls run as a family of arrays, one for each volume. -/
theorem Holds.run (h : Holds vols m₀ c arrays) (htiled : Tiled c.base.numSectors vols)
    (hsync : Syncing c) (aligned : Nat → Bool → Bool) (base : DvmDiscCache α → DvmDisc)
    {calls : List (κ × BlockCall α)} (hcalls : ∀ i ∈ calls, Proper vols aligned c.pageSz i) :
    let vm := volumes (machine α aligned) base vols
    let own := Machine.family fun v => (vols v).device α
    (Holds vols m₀ (vm.run c calls) (own.run arrays calls) ∧ Same c (vm.run c calls)) ∧
      vm.answers c calls = own.answers arrays calls := by
  refine Machine.run_refines _ _ (Proper vols aligned c.pageSz)
    (fun c' arrays' => Holds vols m₀ c' arrays' ∧ Same c c') ?_ ⟨h, Same.refl c⟩ hcalls
  intro c' arrays' i hrel hproper
  obtain ⟨hholds, hsame⟩ := hrel
  have hsync' : Syncing c' := by
    unfold Syncing
    rw [hsame.flushFault]
    exact hsync
  obtain ⟨hnext, hsame', hanswer⟩ := hholds.call (by rw [hsame.numSectors]; exact htiled) hsync'
    aligned base hproper.1 (by rw [hsame.pageSz]; exact hproper.2)
  exact ⟨⟨hnext, hsame.trans hsame'⟩, hanswer⟩

theorem Created.runs {inner : InnerDisc α} {cachePages sectorsPerPage : Nat}
    (hnew : Created inner cachePages sectorsPerPage c) (hread : ∀ n, inner.readFault n = none)
    (hwrite : ∀ n, inner.writeFault n = none) (hflush : ∀ n, inner.flushFault n = false)
    (aligned : Nat → Bool → Bool) (htiled : Tiled inner.disc.numSectors vols)
    {calls : List (κ × BlockCall α)} (hcalls : ∀ i ∈ calls, Proper vols aligned c.pageSz i) :
    let vm := volumes (machine α aligned) DvmDiscCache.base vols
    vm.answers c calls = (Machine.family fun v => (vols v).device α).answers
        (fun v => (vols v).content inner.sectors) calls ∧
      ∀ v, (vols v).window.Shows (vm.run c calls).logical
        (((vols v).device α).run ((vols v).content inner.sectors) (Machine.ofKey v calls)) := by
  have hsync : Syncing c := by
    unfold Syncing
    rw [hnew.inner]
    exact hflush
  rw [← hnew.sectors] at htiled
  obtain ⟨⟨hholds, _⟩, hanswers⟩ := (Created.holds hnew hread hwrite vols).run htiled hsync
    aligned DvmDiscCache.base hcalls
  refine ⟨hanswers, fun v => ?_⟩
  obtain ⟨m, hrep, hmade⟩ := hholds
  have hapart := (Machine.family_apart (fun v => (vols v).device α)
    (fun v => (vols v).content inner.sectors) calls v).1
  rw [hrep.logical, ← hapart]
  exact hmade.shows v

/-- Volumes that tile a cached disc without failures, each called inside its range: every
volume is answered as its private array would answer it, by its own calls alone; and a
sync of any volume leaves on the inner disc what all of them have written, in their
ranges, and nothing else. -/
theorem volumes_isolated {inner : InnerDisc α} {cachePages sectorsPerPage : Nat}
    {mallocOk : Bool} {allocated : Option (Nat × (Nat → α))}
    (hcreate : dvmDiscCacheCreate inner cachePages sectorsPerPage mallocOk allocated = .inr c)
    (hpage : effectivePage inner.disc sectorsPerPage ≤ 32768)
    (hread : ∀ n, inner.readFault n = none) (hwrite : ∀ n, inner.writeFault n = none)
    (hflush : ∀ n, inner.flushFault n = false) (aligned : Nat → Bool → Bool)
    (base : DvmDiscCache α → DvmDisc) (htiled : Tiled inner.disc.numSectors vols)
    {calls : List (κ × BlockCall α)}
    (hcalls : ∀ i ∈ calls, Proper vols aligned (effectivePage inner.disc sectorsPerPage) i)
    (u : κ) :
    let vm := volumes (machine α aligned) base vols
    let synced := (vm.step (vm.run c calls) (u, .sync)).1.inner.sectors
    (∀ v, Machine.ofKey v (vm.answers c calls) =
        ((vols v).device α).answers ((vols v).content inner.sectors) (Machine.ofKey v calls)) ∧
      (∀ v, (vols v).window.Shows synced
        (((vols v).device α).run ((vols v).content inner.sectors) (Machine.ofKey v calls))) ∧
      ∀ s, (∀ v, s < (vols v).window.start ∨
        (vols v).window.start + (vols v).window.size ≤ s) → synced s = inner.sectors s := by
  have hnew := dvmDiscCacheCreate_created hcreate hpage
  rw [← hnew.sectors] at htiled
  rw [← hnew.page] at hcalls
  have hsync : Syncing c := by
    unfold Syncing
    rw [hnew.inner]
    exact hflush
  obtain ⟨⟨hholds, hsame⟩, hanswers⟩ :=
    (Created.holds hnew hread hwrite vols).run htiled hsync aligned base hcalls
  have hsync' : Syncing ((volumes (machine α aligned) base vols).run c calls) := by
    unfold Syncing
    rw [hsame.flushFault]
    exact hsync
  have hapart := Machine.family_apart (fun v => (vols v).device α)
    (fun v => (vols v).content inner.sectors) calls
  obtain ⟨hshows, hrest⟩ := hholds.synced hsync'
  dsimp only [volumes]
  rw [BlockVolume.call_eq]
  refine ⟨fun v => ?_, fun v => ?_, hrest⟩
  · rw [← (hapart v).2, ← hanswers]
    rfl
  · rw [← (hapart v).1]
    exact hshows v

/-! ## A disc with two volumes -/

def sampleVolumes : Bool → BlockVolume
  | true => .fat ⟨1, 2, by decide, by decide⟩
  | false => .ext ⟨512, 0, 2048, 1024⟩

theorem sampleVolumes_tiled : Tiled 8 sampleVolumes where
  apart := by decide
  onDisc := by decide

def sampleCalls : List (Bool × BlockCall Nat) :=
  [(true, .write 0 (fun _ => 7) 1 1 true), (false, .write 64 (fun _ => 9) 4 1 false),
    (true, .read 0 (fun _ => 0) 1 1 true)]

theorem sampleCalls_proper : ∀ i ∈ sampleCalls,
    Proper sampleVolumes (fun _ _ => true) (effectivePage sampleDisc.disc 1) i := by
  intro i hi
  simp only [sampleCalls, List.mem_cons, List.not_mem_nil, or_false] at hi
  rcases hi with rfl | rfl | rfl <;> decide

theorem volumes_isolated_sample :
    Machine.ofKey true ((volumes (machine Nat fun _ _ => true) DvmDiscCache.base
      sampleVolumes).answers sampleCache sampleCalls) = [⟨.resOk, []⟩, ⟨.resOk, [7]⟩] :=
  (volumes_isolated sampleCache_created (by decide) (fun _ => rfl) (fun _ => rfl)
    (fun _ => rfl) (fun _ _ => true) DvmDiscCache.base sampleVolumes_tiled sampleCalls_proper
    true).1 true

/-! ## Threads -/

variable [DecidableEq τ]

def volumeMonitor (α : Type) (aligned : Nat → Bool → Bool) (vols : κ → BlockVolume) :
    Monitor (DvmDiscCache α) (κ × BlockCall α) ((κ × BlockCall α) × Body α)
      (κ × BlockReply α) :=
  (monitor α aligned).adapt (fun i => (vols i.1).request i.2) (volumeReply vols)

/-- The threads of `τ` on the volumes. -/
def volumesUnderLock (aligned : Nat → Bool → Bool) (vols : κ → BlockVolume)
    (c : DvmDiscCache α) (schedule : List (Event τ (κ × BlockCall α))) :
    State (DvmDiscCache α) (κ × BlockCall α) ((κ × BlockCall α) × Body α)
      (κ × BlockReply α) τ :=
  ((volumeMonitor α aligned vols).threads τ).run (State.init τ _ c) schedule

omit [DecidableEq κ] in
theorem volumes_finishes {A U : List Nat} (h : Rep c A U) (aligned : Nat → Bool → Bool)
    (base : DvmDiscCache α → DvmDisc) (vols : κ → BlockVolume) (i : κ × BlockCall α) :
    (volumeMonitor α aligned vols).Finishes c ((volumeMonitor α aligned vols).enter c i)
      ((volumes (machine α aligned) base vols).step c i) := by
  have hbody := (h.finishes aligned ((vols i.1).request i.2)).adapt
    (fun i => (vols i.1).request i.2) (volumeReply vols) i
  dsimp only [volumes]
  rw [BlockVolume.call_eq]
  exact hbody

omit [DecidableEq κ] in
theorem volumes_keep {A U : List Nat} (h : Rep c A U) (aligned : Nat → Bool → Bool)
    (base : DvmDiscCache α → DvmDisc) (vols : κ → BlockVolume) (i : κ × BlockCall α) :
    ∃ A U, Rep ((volumes (machine α aligned) base vols).step c i).1 A U := by
  dsimp only [volumes]
  rw [BlockVolume.call_eq]
  exact (h.call aligned _).1

omit [DecidableEq κ] in
theorem volumes_serial {A U : List Nat} (h : Rep c A U) (aligned : Nat → Bool → Bool)
    (base : DvmDiscCache α → DvmDisc) (vols : κ → BlockVolume)
    (schedule : List (Event τ (κ × BlockCall α))) :
    Serial (volumeMonitor α aligned vols) (volumes (machine α aligned) base vols) c
      (volumesUnderLock aligned vols c schedule) := by
  refine (Serial.init _ _ c).run (fun c => ∃ A U, Rep c A U) ?_ ?_ ⟨A, U, h⟩ schedule
  · intro c' i hrep
    obtain ⟨A', U', hrep⟩ := hrep
    exact volumes_finishes hrep aligned base vols i
  · intro c' i hrep
    obtain ⟨A', U', hrep⟩ := hrep
    exact volumes_keep hrep aligned base vols i

/-- The same volumes called by any number of threads under any schedule: at every moment,
each volume has been answered as its private array answers the calls made on it, in the
order in which their bodies ended, and while the lock is free it reads as that array. -/
theorem threads_keep_volumes_apart {inner : InnerDisc α} {cachePages sectorsPerPage : Nat}
    {mallocOk : Bool} {allocated : Option (Nat × (Nat → α))}
    (hcreate : dvmDiscCacheCreate inner cachePages sectorsPerPage mallocOk allocated = .inr c)
    (hpage : effectivePage inner.disc sectorsPerPage ≤ 32768)
    (hread : ∀ n, inner.readFault n = none) (hwrite : ∀ n, inner.writeFault n = none)
    (hflush : ∀ n, inner.flushFault n = false) (aligned : Nat → Bool → Bool)
    (htiled : Tiled inner.disc.numSectors vols)
    (schedule : List (Event τ (κ × BlockCall α)))
    (hcalls : ∀ t i, .call t i ∈ schedule →
      Proper vols aligned (effectivePage inner.disc sectorsPerPage) i) :
    let g := volumesUnderLock aligned vols c schedule
    (∀ t, (g.of t).map (·.input) ++ (g.phase t).pending = g.calls t ∧
      (g.of t).map (·.answer) = g.returns t ++ (g.phase t).answer) ∧
    ∀ v, Machine.ofKey v (g.history.map (·.answer)) =
        ((vols v).device α).answers ((vols v).content inner.sectors)
          (Machine.ofKey v g.inputs) ∧
      (g.holder = none → (vols v).window.Shows g.shared.logical
        (((vols v).device α).run ((vols v).content inner.sectors)
          (Machine.ofKey v g.inputs))) := by
  have hnew := dvmDiscCacheCreate_created hcreate hpage
  have h := volumes_serial hnew.rep aligned DvmDiscCache.base vols schedule
  have hproper : ∀ i ∈ (volumesUnderLock aligned vols c schedule).inputs,
      Proper vols aligned c.pageSz i := by
    intro i hi
    rw [hnew.page]
    obtain ⟨t, ht⟩ := h.input_called hi
    rcases run_calls _ _ schedule ht with hnone | hmem
    · cases hnone
    · exact hcalls t i hmem
  obtain ⟨hanswers, hshows⟩ := Created.runs hnew hread hwrite hflush aligned htiled hproper
  refine ⟨fun t => ⟨h.calls t, h.returns t⟩, fun v => ⟨?_, fun hfree => ?_⟩⟩
  · rw [h.answers, hanswers]
    exact (Machine.family_apart _ _ _ v).2
  · rw [h.free hfree]
    exact hshows v

def sampleThreads : List (Event Bool (Bool × BlockCall Nat)) :=
  [.call true (true, .write 0 (fun _ => 7) 1 1 true), .acquire true,
    .call false (false, .write 64 (fun _ => 9) 4 1 false), .acquire false, .work true,
    .work true, .release true, .acquire false, .work false, .work false]

theorem threads_keep_volumes_apart_sample :
    Machine.ofKey false ((volumesUnderLock (fun _ _ => true) sampleVolumes sampleCache
      sampleThreads).history.map (·.answer)) = [⟨.eok, []⟩] := by
  have hcalls : ∀ t i, .call t i ∈ sampleThreads →
      Proper sampleVolumes (fun _ _ => true) (effectivePage sampleDisc.disc 1) i := by
    intro t i hmem
    simp only [sampleThreads, List.mem_cons, Event.call.injEq, reduceCtorEq, false_or,
      List.not_mem_nil, or_false] at hmem
    rcases hmem with ⟨_, rfl⟩ | ⟨_, rfl⟩ <;> decide
  exact ((threads_keep_volumes_apart sampleCache_created (by decide) (fun _ => rfl)
    (fun _ => rfl) (fun _ => rfl) (fun _ _ => true) sampleVolumes_tiled sampleThreads
    hcalls).2 false).1

end LibDvm.Block
