import LibDvm.Block.FileSystems
import LibDvm.Cache.PowerCut

/-! # What a power cut leaves of the volumes

Threads are in operations of several file systems when the power goes. Nothing outside of
the volumes is touched; in every sector of a volume is what the volume has had there since
the latest sync; and a volume that nobody is in, and whose library asked for a sync last,
is on the disc as its operations left it.
-/

namespace LibDvm.Block

open Cache Store Monitor Program
open Machine (ofKey)
open Layers (Sound)

variable {α κ τ φ ω ρ : Type} [DecidableEq κ] {c : DvmDiscCache α} {vols : κ → BlockVolume}
  {m m₀ : Nat → α} {arrays : κ → Nat → α} {aligned : Nat → Bool → Bool}

/-! ## Requests of the volumes -/

omit [DecidableEq κ] in
theorem volumes_run (base : DvmDiscCache α → DvmDisc) (c : DvmDiscCache α)
    (calls : List (κ × BlockCall α)) :
    (volumes (machine α aligned) base vols).run c calls =
      (machine α aligned).run c (calls.map fun i => (vols i.1).request i.2) := by
  induction calls generalizing c with
  | nil => rfl
  | cons i calls ih =>
      rw [List.map_cons, Machine.run_cons, Machine.run_cons, ih]
      dsimp only [volumes]
      rw [BlockVolume.call_eq]

theorem MadeOf.run (h : MadeOf vols m₀ arrays m) {sectors : Nat} (htiled : Tiled sectors vols)
    (hsectors : sectors < 2 ^ 32) {calls : List (κ × BlockCall α)}
    (hin : ∀ i ∈ calls, (vols i.1).Inside i.2) :
    MadeOf vols m₀ ((Machine.family fun v => (vols v).device α).run arrays calls)
      ((plainDisc α sectors).run m (calls.map fun i => (vols i.1).request i.2)) := by
  induction calls generalizing m arrays with
  | nil => exact h
  | cons i calls ih =>
      have hstep := (h.step htiled hsectors (hin i List.mem_cons_self)).1
      exact ih hstep fun j hj => hin j (List.mem_cons_of_mem i hj)

/-- The first `n` of the bodies are all on the inner disc: there are none, or the last of
them is a sync. -/
def SyncedAt (calls : List (κ × BlockCall α)) : Nat → Prop
  | 0 => True
  | n + 1 => ∃ v, calls[n]? = some (v, .sync)

section Threads

variable [DecidableEq τ] {inner : InnerDisc α} {cachePages sectorsPerPage : Nat}

omit [DecidableEq κ] in
theorem Created.volumes_cut (hnew : Created inner cachePages sectorsPerPage c)
    (hread : ∀ n, inner.readFault n = none) (hwrite : ∀ n, inner.writeFault n = none)
    (hflush : ∀ n, inner.flushFault n = false)
    {g : State (DvmDiscCache α) (κ × BlockCall α) ((κ × BlockCall α) × Body α)
      (κ × BlockReply α) τ}
    (h : Serial (volumeMonitor α aligned vols)
      (volumes (machine α aligned) DvmDiscCache.base vols) c g)
    (hproper : ∀ i ∈ g.inputs ++ g.current, Proper vols aligned c.pageSz i) {n : Nat}
    (hn : n ≤ g.inputs.length) (hsynced : SyncedAt g.inputs n) (s : Nat) :
    ∃ j, n ≤ j ∧ j ≤ (g.inputs ++ g.current).length ∧ g.shared.inner.sectors s =
      (plainDisc α inner.disc.numSectors).run inner.sectors
        (((g.inputs ++ g.current).take j).map fun i => (vols i.1).request i.2) s := by
  let request : κ × BlockCall α → Call α := fun i => (vols i.1).request i.2
  have hregular : ∀ r ∈ g.inputs.map request ++ g.current.map request,
      r.regular aligned c.pageSz = true := by
    rw [← List.map_append]
    intro r hr
    obtain ⟨i, hi, rfl⟩ := List.mem_map.mp hr
    exact (hproper i hi).2
  have hat : let c₁ := (machine α aligned).run c ((g.inputs.map request).take n)
      let m := (plainDisc α inner.disc.numSectors).run inner.sectors
        ((g.inputs.map request).take n)
      Represents c₁ m ∧ c₁.inner.sectors = m ∧ Same c c₁ := by
    cases n with
    | zero => exact hnew.unflushed hread hwrite
    | succ n =>
        obtain ⟨v, hv⟩ := hsynced
        have hflushed : (g.inputs.map request)[n]? = some .flush := by
          rw [List.getElem?_map, hv]
          rfl
        have hbefore : ∀ r ∈ (g.inputs.map request).take n, r.regular aligned c.pageSz = true :=
          fun r hr => hregular r (List.mem_append_left _ (List.mem_of_mem_take hr))
        dsimp only
        rw [List.take_add_one, hflushed, Option.toList_some]
        exact hnew.flushed hread hwrite hbefore (hnew.sync_ok hread hwrite hflush hbefore)
  have hmoment : (g.current.map request = [] ∧
        g.shared = (machine α aligned).run c (g.inputs.map request)) ∨
      ∃ r turns, g.current.map request = [r] ∧
        g.shared = interrupted aligned ((machine α aligned).run c (g.inputs.map request))
          turns r := by
    rw [← volumes_run DvmDiscCache.base]
    rcases h.moment with ⟨hnone, heq⟩ | ⟨t, i, k, -, hr, hreach⟩
    · exact .inl ⟨by rw [hnone]; rfl, heq⟩
    · obtain ⟨turns, heq⟩ := reaches_interrupted hreach.of_adapt
      exact .inr ⟨request i, turns, by rw [hr]; rfl, heq⟩
  obtain ⟨j, hnj, hj, heq⟩ :=
    Represents.cut_since (by simpa using hn) hnew.sectors hat hregular hmoment s
  refine ⟨j, hnj, by simpa using hj, ?_⟩
  rw [heq, ← List.map_append, List.map_take]

/-- Under any schedule of threads on the file systems, and at any moment of it: the inner
disc is as it has always been outside of the volumes; in each sector of a volume it has
what the volume's array has had there since the latest sync of any volume, the call under
way being the last; and a volume that nobody is in, and whose library has asked for a sync
last, is there as its operations leave it alone. -/
theorem power_cut_keeps_volumes {mallocOk : Bool} {allocated : Option (Nat × (Nat → α))}
    (hcreate : dvmDiscCacheCreate inner cachePages sectorsPerPage mallocOk allocated = .inr c)
    (hpage : effectivePage inner.disc sectorsPerPage ≤ 32768)
    (hread : ∀ n, inner.readFault n = none) (hwrite : ∀ n, inner.writeFault n = none)
    (hflush : ∀ n, inner.flushFault n = false) (aligned : Nat → Bool → Bool)
    (htiled : Tiled inner.disc.numSectors vols)
    (code : κ → φ → ω → Program (BlockCall α) (BlockReply α) (φ × ρ)) (memory : κ → φ)
    (hcode : ∀ v ops op,
      let s := (aloneOn (vols v) (code v)).run (memory v, (vols v).content inner.sectors) ops
      (code v s.1 op).Asks ((vols v).device α)
        (fun b => Proper vols aligned (effectivePage inner.disc sectorsPerPage) (v, b)) s.2)
    (schedule : List (Layers.Event τ κ ω)) :
    let g := fileSystems aligned vols code c memory schedule
    let calls := g.inner.inputs ++ g.inner.current
    let left := g.inner.shared.inner.sectors
    (∀ s, (∀ v, s < (vols v).window.start ∨
      (vols v).window.start + (vols v).window.size ≤ s) → left s = inner.sectors s) ∧
    (∀ n ≤ g.inner.inputs.length, SyncedAt g.inner.inputs n →
      ∀ v, ∀ k < (vols v).window.size, ∃ j, n ≤ j ∧ j ≤ calls.length ∧
        left ((vols v).window.start + k) =
          ((vols v).device α).run ((vols v).content inner.sectors) (ofKey v (calls.take j)) k) ∧
    ∀ v, g.holder v = none → (ofKey v g.inner.inputs).getLast? = some .sync →
      (vols v).window.Shows left ((aloneOn (vols v) (code v)).run
        (memory v, (vols v).content inner.sectors) ((ofKey v g.history).map (·.input))).2 := by
  intro g calls left
  have hnew := dvmDiscCacheCreate_created hcreate hpage
  have h := Created.alone hnew hread hwrite hflush htiled hcode schedule
  change Sound _ _ c code _ memory _ _ g at h
  have hproper : ∀ i ∈ calls, Proper vols aligned c.pageSz i := by
    intro i hi
    rcases List.mem_append.mp hi with hended | hnow
    · exact h.proper i hended
    · exact (h.current hnow).1
  -- what `j` of the calls leave on the plain disc
  have hmade : ∀ j, MadeOf vols inner.sectors
      ((Machine.family fun v => (vols v).device α).run
        (fun v => (vols v).content inner.sectors) (calls.take j))
      ((plainDisc α inner.disc.numSectors).run inner.sectors
        ((calls.take j).map fun i => (vols i.1).request i.2)) := by
    intro j
    refine MadeOf.run ⟨fun _ _ _ => rfl, fun _ _ => rfl⟩ htiled inner.disc.numSectors_lt ?_
    exact fun i hi => (hproper i (List.mem_of_mem_take hi)).1
  have hcut : ∀ n ≤ g.inner.inputs.length, SyncedAt g.inner.inputs n →
      ∀ v, ∀ k < (vols v).window.size, ∃ j, n ≤ j ∧ j ≤ calls.length ∧
        left ((vols v).window.start + k) =
          ((vols v).device α).run ((vols v).content inner.sectors)
            (ofKey v (calls.take j)) k := by
    intro n hn hsynced v k hk
    obtain ⟨j, hnj, hj, heq⟩ := Created.volumes_cut hnew hread hwrite hflush h.inner hproper hn
      hsynced ((vols v).window.start + k)
    refine ⟨j, hnj, hj, heq.trans ?_⟩
    rw [(hmade j).shows v k hk, (Machine.family_apart _ _ _ v).1]
  refine ⟨fun s hs => ?_, hcut, fun v hfree hlast => ?_⟩
  · obtain ⟨j, -, -, heq⟩ := Created.volumes_cut hnew hread hwrite hflush h.inner hproper
      (Nat.zero_le _) trivial s
    exact heq.trans ((hmade j).rest s hs)
  · obtain ⟨before, after, hinputs, hafter⟩ := Machine.ofKey_getLast? hlast
    have hcurrent : ofKey v g.inner.current = [] := by
      refine Machine.ofKey_eq_nil fun i hi hv => ?_
      obtain ⟨t, ht⟩ := (h.current hi).2
      rw [hv, hfree] at ht
      cases ht
    intro k hk
    obtain ⟨j, hnj, -, heq⟩ := hcut (before.length + 1) (by simp [hinputs])
      ⟨v, by simp [hinputs]⟩ v k hk
    have hcalls : ofKey v (calls.take j) = ofKey v g.inner.inputs := by
      obtain ⟨i, rfl⟩ := Nat.exists_eq_add_of_le hnj
      have hsplit : calls = (before ++ [(v, .sync)]) ++ (after ++ g.inner.current) := by
        simp [calls, hinputs]
      have hrest : ofKey v (after ++ g.inner.current) = [] := by
        rw [Machine.ofKey_append, hafter, hcurrent]
        rfl
      have hfirst : (before ++ [((v, .sync) : κ × BlockCall α)]).length = before.length + 1 := by
        simp
      rw [hsplit, ← hfirst, List.take_length_add_append, Machine.ofKey_append,
        Machine.ofKey_take_nil hrest, hinputs]
      simp [Machine.ofKey_append, ofKey, hafter]
    rw [heq, hcalls]
    exact congrFun (congrArg Prod.snd ((h.serial v).free hfree)) k

end Threads

def sampleCut : List (Layers.Event Bool Bool Unit) :=
  [.call true true (), .lock true] ++ sampleTurns true ++ sampleTurns true ++
    sampleTurns true ++ [.finish true, .unlock true, .call false false (), .lock false] ++
    sampleTurns false ++ [.ask false, .acquire false, .work false]

theorem power_cut_keeps_volumes_sample :
    (fileSystems (fun _ _ => true) sampleVolumes countUp sampleCache (fun _ => 0)
      sampleCut).inner.shared.inner.sectors 1 = 102 :=
  (power_cut_keeps_volumes sampleCache_created (by decide) (fun _ => rfl) (fun _ => rfl)
    (fun _ => rfl) (fun _ _ => true) sampleVolumes_tiled countUp (fun _ => 0)
    (fun v _ _ => countUp_asks v _ _) sampleCut).2.2 true (by decide) (by rfl) 0 (by decide)

end LibDvm.Block
