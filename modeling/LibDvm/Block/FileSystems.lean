import LibDvm.Block.Isolation
import LibDvm.Lib.Layers

/-! # File systems under their locks

The file-system libraries take `vol->lock` around each of their operations: FatFs through
`ff_mutex_take` and `ff_mutex_give`, lwext4 through `_ext4_lock` and `_ext4_unlock`. Inside
an operation they call the disc, whose cache has a lock of its own. A library is the
program of each of its operations, from what it has in memory about its volume.
-/

namespace LibDvm.Block

open Cache Store Monitor Program
open Machine (ofKey)
open Layers (Served Sound)

variable {α κ τ φ ω ρ : Type} [DecidableEq κ] [DecidableEq τ] {c : DvmDiscCache α}
  {vols : κ → BlockVolume}

/-- The threads of `τ` on the libraries of the volumes, with both locks. -/
def fileSystems (aligned : Nat → Bool → Bool) (vols : κ → BlockVolume)
    (code : κ → φ → ω → Program (BlockCall α) (BlockReply α) (φ × ρ)) (c : DvmDiscCache α)
    (memory : κ → φ) (schedule : List (Layers.Event τ κ ω)) :
    Layers.State (DvmDiscCache α) (BlockCall α) ((κ × BlockCall α) × Body α) (BlockReply α)
      φ ω ρ τ κ :=
  (Layers.threads (volumeMonitor α aligned vols) code τ).run
    (Layers.State.init _ _ _ ω ρ τ c memory) schedule

def aloneOn (vol : BlockVolume) (code : φ → ω → Program (BlockCall α) (BlockReply α) (φ × ρ)) :
    Machine (φ × (Nat → α)) ω ρ := operations code (vol.device α)

omit [DecidableEq τ] in
theorem Created.served {inner : InnerDisc α} {cachePages sectorsPerPage : Nat}
    (hnew : Created inner cachePages sectorsPerPage c) (hread : ∀ n, inner.readFault n = none)
    (hwrite : ∀ n, inner.writeFault n = none) (hflush : ∀ n, inner.flushFault n = false)
    (aligned : Nat → Bool → Bool) (htiled : Tiled inner.disc.numSectors vols) :
    Served (volumeMonitor α aligned vols) (volumes (machine α aligned) DvmDiscCache.base vols)
      (fun c => ∃ A U, Rep c A U) c (fun v => (vols v).device α)
      (fun v => (vols v).content inner.sectors) (Proper vols aligned c.pageSz) where
  start := ⟨_, _, hnew.rep⟩
  keeps := by
    rintro c' i ⟨A, U, hrep⟩
    exact volumes_keep hrep aligned DvmDiscCache.base vols i
  finishes := by
    rintro c' i ⟨A, U, hrep⟩
    exact volumes_finishes hrep aligned DvmDiscCache.base vols i
  answers is his := (Created.runs hnew hread hwrite hflush aligned htiled his).1

/-- Run lemma: under every schedule each library is alone on the array of its volume. -/
theorem Created.alone {inner : InnerDisc α} {cachePages sectorsPerPage : Nat}
    (hnew : Created inner cachePages sectorsPerPage c) (hread : ∀ n, inner.readFault n = none)
    (hwrite : ∀ n, inner.writeFault n = none) (hflush : ∀ n, inner.flushFault n = false)
    (htiled : Tiled inner.disc.numSectors vols) {aligned : Nat → Bool → Bool}
    {code : κ → φ → ω → Program (BlockCall α) (BlockReply α) (φ × ρ)} {memory : κ → φ}
    (hcode : ∀ v ops op,
      let s := (aloneOn (vols v) (code v)).run (memory v, (vols v).content inner.sectors) ops
      (code v s.1 op).Asks ((vols v).device α)
        (fun b => Proper vols aligned (effectivePage inner.disc sectorsPerPage) (v, b)) s.2)
    (schedule : List (Layers.Event τ κ ω)) :
    Sound (volumeMonitor α aligned vols) (volumes (machine α aligned) DvmDiscCache.base vols) c
      code (fun v => (vols v).device α) memory (fun v => (vols v).content inner.sectors)
      (Proper vols aligned c.pageSz) (fileSystems aligned vols code c memory schedule) := by
  rw [← hnew.page] at hcode
  exact Sound.init.run hcode (Created.served hnew hread hwrite hflush aligned htiled) schedule

/-- Libraries that ask proper calls when they are alone on their volumes, called by any
number of threads under any schedule of both kinds of locks: whoever is in an operation has
the lock of its volume; each thread is told its answers in order; the operations of a
volume answer as those of its library alone on a private array, in the order in which they
ended; while the lock of the volume is free its library and, when the cache is free too,
its part of the disc are as these operations leave them; and whoever has the lock of a
volume can get to its release. -/
theorem file_systems_serialised {inner : InnerDisc α} {cachePages sectorsPerPage : Nat}
    {mallocOk : Bool} {allocated : Option (Nat × (Nat → α))}
    (hcreate : dvmDiscCacheCreate inner cachePages sectorsPerPage mallocOk allocated = .inr c)
    (hpage : effectivePage inner.disc sectorsPerPage ≤ 32768)
    (hread : ∀ n, inner.readFault n = none) (hwrite : ∀ n, inner.writeFault n = none)
    (hflush : ∀ n, inner.flushFault n = false) (aligned : Nat → Bool → Bool)
    (htiled : Tiled inner.disc.numSectors vols)
    (code : κ → φ → ω → Program (BlockCall α) (BlockReply α) (φ × ρ)) (memory : κ → φ)
    (hcode : ∀ v ops op,
      let s := (aloneOn (vols v) (code v)).run (memory v, (vols v).content inner.sectors) ops
      (code v s.1 op).Asks ((vols v).device α)
        (fun b => Proper vols aligned (effectivePage inner.disc sectorsPerPage) (v, b)) s.2)
    (schedule : List (Layers.Event τ κ ω)) :
    let g := fileSystems aligned vols code c memory schedule
    (∀ v t, ((∃ op p, g.stage t = .inside v op p) ∨ ∃ r, g.stage t = .leaving v r) →
      g.holder v = some t) ∧
    (∀ v t, ((ofKey v g.history).filter (·.thread = t)).map (·.input) <+: ofKey v (g.calls t) ∧
      ofKey v (g.returns t) <+: ((ofKey v g.history).filter (·.thread = t)).map (·.answer)) ∧
    ∀ v, let ops := (ofKey v g.history).map (·.input)
      let s := (aloneOn (vols v) (code v)).run (memory v, (vols v).content inner.sectors) ops
      (ofKey v g.history).map (·.answer) =
          (aloneOn (vols v) (code v)).answers (memory v, (vols v).content inner.sectors) ops ∧
        (g.holder v = none → g.memory v = s.1 ∧
          (g.inner.holder = none → (vols v).window.Shows g.inner.shared.logical s.2)) ∧
        ∀ t, g.holder v = some t →
          ∃ more, (fileSystems aligned vols code c memory (schedule ++ more)).holder v = none := by
  intro g
  have hnew := dvmDiscCacheCreate_created hcreate hpage
  have h := Created.alone hnew hread hwrite hflush htiled hcode schedule
  change Sound _ _ c code _ memory _ _ g at h
  refine ⟨fun v t hin => ?_, fun v t => ⟨?_, ?_⟩, fun v => ⟨?_, fun hfree => ?_, fun t ht => ?_⟩⟩
  · refine ((h.serial v).holder t).mp ?_
    rcases hin with ⟨op, p, hstage⟩ | ⟨r, hstage⟩ <;>
      simp [Layers.State.view, hstage, Phase.holds]
  · exact ⟨_, (h.serial v).calls t⟩
  · exact ⟨_, ((h.serial v).returns t).symm⟩
  · exact (h.serial v).answers
  · have hshared := (h.serial v).free hfree
    refine ⟨congrArg Prod.fst hshared, fun hidle => ?_⟩
    have hshows := (Created.runs hnew hread hwrite hflush aligned htiled h.proper).2 v
    rw [h.inner.free hidle]
    exact (congrArg Prod.snd hshared) ▸ hshows
  · rw [← hnew.page] at hcode
    obtain ⟨more, hmore⟩ := h.unlocks hcode
      (Created.served hnew hread hwrite hflush aligned htiled) ht
    refine ⟨more, ?_⟩
    rw [fileSystems, Machine.run_append]
    exact hmore

/-! ## Two threads that count -/

/-- A library that counts up in the first sector of its volume, and remembers how often. -/
def countUp (v : Bool) (count : Nat) (_ : Unit) :
    Program (BlockCall Nat) (BlockReply Nat) (Nat × Nat) :=
  let sector := if v then 0 else 4
  .ask (.read 0 (fun _ => 0) sector 1 true) fun r =>
    .ask (.write 0 (fun _ => r.data.headD 0 + 1) sector 1 true) fun _ =>
      .ask .sync fun _ => .done (count + 1, r.data.headD 0)

theorem countUp_asks (v : Bool) (count : Nat) (m : Nat → Nat) :
    (countUp v count ()).Asks ((sampleVolumes v).device Nat)
      (fun b => Proper sampleVolumes (fun _ _ => true) (effectivePage sampleDisc.disc 1) (v, b))
      m := by
  have hpage : effectivePage sampleDisc.disc 1 = 1 := by decide
  rw [hpage]
  cases v with
  | true =>
      have hin : 0 ≤ 0 ∧ 0 - 0 < 2 ∧ 0 - 0 + 1 ≤ 2 := by decide
      have hreg : regularRange 1 1 1 true true = true := by decide
      exact ⟨⟨hin, hreg⟩, ⟨hin, hreg⟩, ⟨trivial, rfl⟩, trivial⟩
  | false =>
      have hin : 4 ≤ 4 ∧ 4 - 4 < 2 ∧ 4 - 4 + 1 ≤ 2 := by decide
      have hreg : regularRange 1 4 1 true true = true := by decide
      exact ⟨⟨hin, hreg⟩, ⟨hin, hreg⟩, ⟨trivial, rfl⟩, trivial⟩

def sampleTurns (t : Bool) : List (Layers.Event Bool Bool Unit) :=
  [.ask t, .acquire t, .work t, .work t, .work t, .work t, .answer t]

def sampleOperations : List (Layers.Event Bool Bool Unit) :=
  [.call true true (), .lock true] ++ sampleTurns true ++ [.call false true (), .lock false] ++
    sampleTurns true ++ sampleTurns true ++ [.finish true, .unlock true, .lock false] ++
    sampleTurns false ++ sampleTurns false ++ sampleTurns false ++ [.finish false, .unlock false]

theorem file_systems_serialised_sample :
    (ofKey true (fileSystems (fun _ _ => true) sampleVolumes countUp sampleCache (fun _ => 0)
      sampleOperations).history).map (·.answer) = [101, 102] :=
  ((file_systems_serialised sampleCache_created (by decide) (fun _ => rfl) (fun _ => rfl)
    (fun _ => rfl) (fun _ _ => true) sampleVolumes_tiled countUp (fun _ => 0)
    (fun v _ _ => countUp_asks v _ _) sampleOperations).2.2 true).1

end LibDvm.Block
