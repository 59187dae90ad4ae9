import V8Malloc.Api.Ring

/-!
# Bounded bins

Every way in which the bins of a thread change: the public calls with their
inlined ways, the dispatcher called directly, ticks of the capacity controller
with whatever capacities it comes to, and drains. The list of a bin is as long
as its count says and never longer than the largest capacity, so a drain, which
goes by the count, ends and gives back every slot.
-/
namespace V8Malloc

open ByteMemory LinkedList StackLedger

variable {w w' : ApiWorld} {L : Stack → List ℕ} {blk : Blocks} {held : Set ℕ} {s : Sys} {t cls : ℕ}
variable {cache cache' : ThreadCache}

/-! ### Ticks of the controller -/

/-- The controller has run: the bins are the same, the capacities are in its range, and its own
numbers may be any. -/
structure Retuned (cache cache' : ThreadCache) : Prop where
  heads : cache'.binHeads = cache.binHeads
  count : cache'.binCount = cache.binCount
  medium : cache'.mediumBinHeads = cache.mediumBinHeads
  capacity : ∀ c, binCapacityMin ≤ cache'.binCapacity c ∧ cache'.binCapacity c ≤ binCapacityMax

theorem tickCapacity_bounds (nodeOverloaded : Bool) (ema : ℕ) :
    binCapacityMin ≤ tickCapacity nodeOverloaded ema ∧
      tickCapacity nodeOverloaded ema ≤ binCapacityMax := by
  have hrange : binCapacityMin ≤ binCapacityMax := by decide
  exact ⟨le_min (le_max_right _ _) hrange, min_le_right _ _⟩

theorem threadCacheGcTick_retuned (nodeOverloaded : Bool) (cache : ThreadCache) :
    Retuned cache (threadCacheGcTick nodeOverloaded cache) :=
  ⟨rfl, rfl, rfl, fun _ => tickCapacity_bounds _ _⟩

theorem SysInv.retune (hs : SysInv s L blk held) (hr : Retuned (s.caches t) cache') :
    SysInv (s.setCache t cache') L blk held := by
  have htop : (s.setCache t cache').top = s.top := by
    funext k
    cases k with
    | bin t' c =>
      by_cases ht : t' = t
      · subst ht
        simp [Sys.top, Sys.setCache, hr.heads]
      · simp [Sys.top, Sys.setCache, ht]
    | core cpu c => rfl
    | medium t' i =>
      by_cases ht : t' = t
      · subst ht
        simp [Sys.top, Sys.setCache, hr.medium]
      · simp [Sys.top, Sys.setCache, ht]
  have hacc := hs.account
  rw [← htop] at hacc
  refine ⟨hacc, fun t' c => ?_, fun t' c => ?_⟩
  · by_cases ht : t' = t
    · subst ht
      rw [Sys.caches_setCache, hr.count]
      exact hs.tally.count t' c
    · simpa [Sys.setCache, ht] using hs.tally.count t' c
  · by_cases ht : t' = t
    · subst ht
      rw [Sys.caches_setCache]
      exact (hr.capacity c).2
    · simpa [Sys.setCache, ht] using hs.tally.capacity t' c

/-! ### Runs -/

/-- One operation. -/
inductive BinStep (w : ApiWorld) : ApiWorld → Prop
  | api {e : ApiEvent} {w' : ApiWorld} : ApiStep w e w' → BinStep w w'
  | dispatchAlloc {call : Call} {size ptr : ℕ} {s' : Sys} : Legal call w.api.sys.heap →
      dispatchAlloc call w.api.sys size = .ok (ptr, s') →
      BinStep w (w.answer (w.api.setSys s') ptr size)
  | dispatchFree {call : Call} {ptr : ℕ} {s' : Sys} : Legal call w.api.sys.heap →
      w.held ptr ≠ none → dispatchFree call w.api.sys ptr = .ok s' →
      BinStep w { w with api := w.api.setSys s', held := Function.update w.held ptr none }
  | gcTick {t : ℕ} {cache' : ThreadCache} : Retuned (w.api.sys.caches t) cache' →
      BinStep w (w.setApi (w.api.setSys (w.api.sys.setCache t cache')))
  | drainAll {call : Call} {out : ℕ × Sys} : dispatchDrainAll call w.api.sys = .ok out →
      BinStep w (w.setApi (w.api.setSys out.2))

inductive BinRun : ApiWorld → Prop
  | load (p : BuddyPool) {bootstrapBuffer signalSafeBuffer : ℕ} :
      0 < bootstrapBuffer → 0 < signalSafeBuffer →
      bootstrapBuffer + bootstrapSize ≤ signalSafeBuffer ∨
        signalSafeBuffer + signalSafeSize ≤ bootstrapBuffer →
      BinRun ⟨Api.load p bootstrapBuffer signalSafeBuffer, fun _ => none, fun _ => none, ∅⟩
  | step {w w' : ApiWorld} : BinRun w → BinStep w w' → w'.api.Apart → BinRun w'

theorem ApiInv.binStep (hw : ApiInv w L blk) (hstep : BinStep w w') (hapart : w'.api.Apart) :
    ∃ L' blk', ApiInv w' L' blk' := by
  cases hstep with
  | api hstep => exact hw.step hstep hapart
  | @dispatchAlloc call size ptr s' hlegal hok =>
    have hanswer := (dispatchAlloc_spec hw.inv.inv hw.inv.calm hlegal size).of_ok hok
    rw [api_answer] at hapart
    obtain ⟨hworld, hbumps⟩ := answer_block w (hapart.served hanswer.served rfl) size
    obtain ⟨L', blk', hinv⟩ := hw.inv.answer hanswer.served hanswer.covers
    change WorldInv Covers (w.world.answer (w.api.setSys s').sys ptr size) L' blk' at hinv
    rw [← hworld] at hinv
    refine ⟨L', blk', hw.of_world hinv ?_ ?_ fun p n hp => by rwa [hbumps] at hp⟩
    · rw [api_answer]
      rfl
    · rwa [api_answer]
  | dispatchFree hlegal hheld hok =>
    have hfreed := (dispatchFree_spec hw.inv.inv hw.inv.calm hlegal.owns hheld).of_ok hok
    obtain ⟨L', blk', hinv⟩ := hw.inv.release hfreed
    exact ⟨L', blk', hw.of_world hinv rfl hapart fun _ _ hp => hp⟩
  | gcTick hr =>
    have hinv : WorldInv Covers ⟨w.api.sys.setCache _ _, w.held⟩ L blk :=
      ⟨hw.inv.inv.retune hr, hw.inv.calm, hw.inv.covers⟩
    exact ⟨L, blk, hw.of_world hinv rfl hapart fun _ _ hp => hp⟩
  | @drainAll call out hok =>
    have hdrained := (dispatchDrainAll_spec hw.inv.inv call hw.inv.calm.lt).of_ok hok
    obtain ⟨L', blk', hinv⟩ := hw.inv.drained hdrained
    exact ⟨L', blk', hw.of_world hinv rfl hapart fun _ _ hp => hp⟩

theorem BinRun.apiInv (hrun : BinRun w) : ∃ L blk, ApiInv w L blk := by
  induction hrun with
  | load p hboot hsafe hapart =>
    have hload : ApiRun (fun _ _ => True) _ := .load p hboot hsafe hapart
    exact hload.apiInv
  | step _ hstep hapart ih =>
    obtain ⟨L, blk, hinv⟩ := ih
    exact hinv.binStep hstep hapart

theorem ApiRun.binRun {ok : ApiWorld → ApiEvent → Prop} (hrun : ApiRun ok w) : BinRun w := by
  induction hrun with
  | load p hboot hsafe hapart => exact .load p hboot hsafe hapart
  | step _ _ hstep hapart ih => exact .step ih (.api hstep) hapart

/-! ### The result -/

/-- The bins of a thread and what a drain of them does. -/
structure BinsBounded (s : Sys) (t : ℕ) : Prop where
  list : ∀ c, ∃ slots, Chain 0 (load64 s.heap.mem) ((s.caches t).binHeads c) slots ∧
    slots.length = (s.caches t).binCount c ∧ slots.length ≤ binCapacityMax
  drains : ∀ call : Call, ∃ total cache' h',
    threadCacheDrainAll call.uafActive (s.caches t) s.heap arenaDefault = .ok (total, cache', h') ∧
    total = ∑ c ∈ Finset.range mediumFirstClass, (s.caches t).binCount c ∧
    ∀ c < mediumFirstClass, cache'.binHeads c = 0 ∧ cache'.binCount c = 0

theorem SysInv.binsBounded (hs : SysInv s L blk held) (hc : Calm L) (t : ℕ) : BinsBounded s t where
  list := fun c =>
    ⟨L (.bin t c), hs.account.ledger.chain (.bin t c), (hs.tally.count t c).symm, (hc t c).le⟩
  drains := by
    intro call
    obtain ⟨⟨total, cache', h'⟩, blk', hfold, htotal, hs', -⟩ := drainBins_spec hs call t (hc.lt t)
      (le_refl mediumFirstClass)
    refine ⟨total, cache', h', hfold, ?_, fun c hlt => ?_⟩
    · exact htotal.trans (Finset.sum_congr rfl fun c _ => (hs.tally.count t c).symm)
    · have hempty : binsEmptied L t mediumFirstClass (.bin t c) = [] := by simp [binsEmptied, hlt]
      have hchain := hs'.account.ledger.chain (.bin t c)
      have hcount := hs'.tally.count t c
      rw [Sys.caches_setCache, hempty] at hcount
      rw [hempty] at hchain
      have hhead := hchain.nil_iff.2 rfl
      simp only [Sys.top, Sys.caches_setCache] at hhead
      exact ⟨hhead, hcount⟩

/-- In every run the bins of every thread are bounded, and drains of them end. -/
theorem bins_bounded_and_drain (hrun : BinRun w) (t : ℕ) : BinsBounded w.api.sys t := by
  obtain ⟨L, blk, hw⟩ := hrun.apiInv
  exact hw.inv.inv.binsBounded hw.inv.calm t

/-- After a first request its bin holds the rest of the refill. -/
theorem bins_bounded_and_drain_first : BinRun firstWorld ∧ BinsBounded firstWorld.api.sys 0 := by
  have hready : ApiRun (fun _ _ => True) readyWorld := readyWorld_run trivial
  have hrun := (firstWorld_run hready trivial).binRun
  exact ⟨hrun, bins_bounded_and_drain hrun 0⟩

end V8Malloc
