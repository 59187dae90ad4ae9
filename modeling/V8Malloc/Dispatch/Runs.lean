import V8Malloc.Dispatch.Background

/-!
# Runs of the dispatcher

Whole calls of any threads in any order, with the drains and the background
work, the program's writes into the blocks it holds, and whatever the rest of
the system does elsewhere. The program never puts the page magic at a page
base. Every state reached keeps the account of the blocks.
-/
namespace V8Malloc

open ByteMemory LinkedList StackLedger Function

/-- The dispatcher between calls, with a note on each pointer held, such as the size asked for. -/
structure World where
  sys : Sys
  held : ℕ → Option ℕ

namespace World

def pointers (w : World) : Set ℕ := {p | w.held p ≠ none}

/-- A call answered `ptr`. -/
def answer (w : World) (s' : Sys) (ptr note : ℕ) : World :=
  ⟨s', if ptr = 0 then w.held else update w.held ptr (some note)⟩

def release (w : World) (s' : Sys) (ptr : ℕ) : World := ⟨s', update w.held ptr none⟩

/-- The program writes inside blocks it holds and stores no magic word at a page base. -/
structure Writes (w : World) (m' : Mem) : Prop where
  inside : ∀ x, m' x ≠ w.sys.heap.mem x →
    ∃ p ∈ w.pointers, p ≤ x ∧ x < p + dispatchUsableSize w.sys.heap p
  plain : ∀ b, pageSize ∣ b → load64 m' b = pageMagic → load64 w.sys.heap.mem b = pageMagic

end World

/-- The state that `v8m_dispatch_init` leaves. -/
def Sys.init (p : BuddyPool) : Sys where
  heap :=
    { mem := p.mem
      heads := fun _ => none
      pools := fun _ => ⟨fun _ => ⟨0, []⟩, []⟩
      arenas := (buddyPoolInit p).arenas
      largeCache := [] }
  caches := fun _ => .fresh
  core := .fresh
  refill := refillControllerInit

inductive Reachable : World → Prop
  | init (p : BuddyPool) : Reachable ⟨Sys.init p, fun _ => none⟩
  | alloc {w : World} {call : Call} {size ptr : ℕ} {s' : Sys} : Reachable w →
      Legal call w.sys.heap → dispatchAlloc call w.sys size = .ok (ptr, s') →
      Reachable (w.answer s' ptr size)
  | allocAligned {w : World} {call : Call} {size alignment ptr : ℕ} {s' : Sys} : Reachable w →
      Legal call w.sys.heap → dispatchAllocAligned call w.sys size alignment = .ok (ptr, s') →
      Reachable (w.answer s' ptr size)
  | free {w : World} {call : Call} {ptr : ℕ} {s' : Sys} : Reachable w → Legal call w.sys.heap →
      ptr ∈ w.pointers → dispatchFree call w.sys ptr = .ok s' → Reachable (w.release s' ptr)
  | drainAll {w : World} {call : Call} {out : ℕ × Sys} : Reachable w →
      dispatchDrainAll call w.sys = .ok out → Reachable ⟨out.2, w.held⟩
  | drainLocalL2 {w : World} {call : Call} {out : ℕ × Sys} : Reachable w →
      dispatchDrainLocalL2 call w.sys = .ok out → Reachable ⟨out.2, w.held⟩
  | drainMedium {w : World} {call : Call} {out : ℕ × Sys} : Reachable w →
      dispatchDrainMedium call w.sys = .ok out → Reachable ⟨out.2, w.held⟩
  | bgTick {w : World} : Reachable w → Reachable ⟨dispatchBgTick w.sys, w.held⟩
  | purgeDrained {w : World} : Reachable w → Reachable ⟨dispatchPurgeDrained w.sys, w.held⟩
  | write {w : World} {m' : Mem} : Reachable w → w.Writes m' → Reachable ⟨w.sys.setMem m', w.held⟩
  | elsewhere {w : World} {m' : Mem} : Reachable w →
      (∀ x, w.sys.heap.Taken x → m' x = w.sys.heap.mem x) → Reachable ⟨w.sys.setMem m', w.held⟩

/-- The account of a state, with a block behind each pointer that its note fits. -/
structure WorldInv (fits : ℕ → Grant → Prop) (w : World) (L : Stack → List ℕ) (blk : Blocks) :
    Prop where
  inv : SysInv w.sys L blk w.pointers
  calm : Calm L
  covers : ∀ p note g, w.held p = some note → blk p = some g → fits note g

/-- The block covers a request for `size` bytes. -/
def Covers (size : ℕ) (g : Grant) : Prop := max size 1 ≤ g.bytes

variable {w : World} {L : Stack → List ℕ} {blk : Blocks} {call : Call} {note ptr p : ℕ}
variable {s' : Sys} {m' : Mem} {g : Grant} {fits fits' : ℕ → Grant → Prop}

/-! ### Steps -/

theorem unused_init (p : BuddyPool) (i : ℕ) : ¬ (Sys.init p).heap.buddyPool.Used i :=
  fun hu => absurd hu.2 (by simp [Sys.init, Heap.buddyPool, buddyPoolInit])

theorem region_init (p : BuddyPool) (k : RegionKind) (b n : ℕ) :
    ¬ (Sys.init p).heap.Region k b n := by
  intro hr
  cases hr with
  | slab hhead => cases hhead
  | parked _ hmem => cases hmem
  | large hhead => cases hhead
  | cached hmem => cases hmem
  | arena hu => exact unused_init p _ hu

theorem sysInv_init (p : BuddyPool) : SysInv (Sys.init p) (fun _ => []) (fun _ => none) ∅ := by
  refine ⟨⟨⟨?_, fun b header hhead => ?_, ⟨∅, poolInv_init p, fun a g _ => ?_⟩,
    fun i hu => absurd hu (unused_init p i), fun arena _ cls _ => ?_⟩, ?_⟩, fun _ _ => rfl, fun _ _ => ?_⟩
  · exact ⟨fun k b n hr => absurd hr (region_init p k b n),
      fun k b n _ _ _ hr => absurd hr (region_init p k b n), fun _ _ => List.nodup_nil, List.nodup_nil⟩
  · cases hhead
  · simp
  · exact ⟨fun hne => absurd rfl hne, fun b hb => absurd hb List.not_mem_nil, List.nodup_nil,
      List.not_mem_nil⟩
  · refine ⟨fun k => ?_, fun a => by simp, fun a ha => absurd ha (Set.notMem_empty a),
      fun a k k' ha => absurd ha List.not_mem_nil, fun k a ha => absurd ha List.not_mem_nil⟩
    have htop : (Sys.init p).top k = 0 := by
      cases k <;> simp [Sys.top, Sys.init, ThreadCache.fresh, CoreCaches.fresh, tagptrPtr]
    rw [htop]
    exact .nil
  · show binCapacityDefault ≤ binCapacityMax
    decide

theorem worldInv_init (fits : ℕ → Grant → Prop) (p : BuddyPool) :
    WorldInv fits ⟨Sys.init p, fun _ => none⟩ (fun _ => []) fun _ => none := by
  refine ⟨?_, fun _ _ => by decide, fun _ _ _ hheld => by cases hheld⟩
  have hpointers : World.pointers ⟨Sys.init p, fun _ => none⟩ = ∅ := by
    ext q
    simp [World.pointers]
  rw [hpointers]
  exact sysInv_init p

theorem World.mem_pointers (hheld : w.held p = some note) : p ∈ w.pointers := by
  simp [World.pointers, hheld]

theorem pointers_answer (w : World) (s' : Sys) (ptr note : ℕ) :
    (w.answer s' ptr note).pointers = Account.heldAfter w.pointers ptr := by
  ext q
  unfold World.answer World.pointers Account.heldAfter
  by_cases hzero : ptr = 0
  · simp [hzero]
  · by_cases hq : q = ptr <;> simp [hzero, hq]

theorem pointers_release (w : World) (s' : Sys) (ptr : ℕ) :
    (w.release s' ptr).pointers = w.pointers \ {ptr} := by
  ext q
  by_cases hq : q = ptr <;> simp [World.release, World.pointers, hq]

theorem WorldInv.mono (hw : WorldInv fits w L blk) (hfits : ∀ note g, fits note g → fits' note g) :
    WorldInv fits' w L blk :=
  ⟨hw.inv, hw.calm, fun p note g hheld hg => hfits note g (hw.covers p note g hheld hg)⟩

/-- What is still held after a step that carried it keeps its block. -/
theorem WorldInv.covers_carried {stay : Set ℕ} {blk' : Blocks} {m m' : Mem}
    (hw : WorldInv fits w L blk) (hc : Carried stay blk m blk' m') (hstay : p ∈ stay)
    (hheld : w.held p = some note) (hg : blk' p = some g) : fits note g := by
  obtain ⟨g', hg'⟩ := hw.inv.account.grant_of_held (World.mem_pointers hheld)
  have hsame := (hc p hstay g' hg').1
  rw [hg] at hsame
  cases hsame
  exact hw.covers p note g hheld hg'

theorem WorldInv.answer (hw : WorldInv fits w L blk)
    (hserved : Served w.sys blk w.pointers g ptr s') (hnote : ptr ≠ 0 → fits note g) :
    ∃ L' blk', WorldInv fits (w.answer s' ptr note) L' blk' := by
  obtain ⟨⟨L', blk', hs', hcalm, hcarried, hgrant⟩, hfresh⟩ := hserved
  refine ⟨L', blk', ?_, hcalm, fun q n g' hheld hg' => ?_⟩
  · rw [pointers_answer]
    exact hs'
  · dsimp only [World.answer] at hheld
    split_ifs at hheld with hzero
    · exact hw.covers_carried hcarried (World.mem_pointers hheld) hheld hg'
    · by_cases hq : q = ptr
      · subst hq
        rw [update_self] at hheld
        cases hheld
        rw [hgrant hzero] at hg'
        cases hg'
        exact hnote hzero
      · rw [update_of_ne hq] at hheld
        exact hw.covers_carried hcarried (World.mem_pointers hheld) hheld hg'

theorem WorldInv.release (hw : WorldInv fits w L blk) (hf : Freed w.sys blk w.pointers ptr s') :
    ∃ L' blk', WorldInv fits (w.release s' ptr) L' blk' := by
  obtain ⟨L', blk', hs', hcalm, hcarried⟩ := hf
  refine ⟨L', blk', ?_, hcalm, fun q n g' hheld hg' => ?_⟩
  · rw [pointers_release]
    exact hs'
  · have hq : q ≠ ptr := by
      rintro rfl
      simp [World.release] at hheld
    have hold : w.held q = some n := by simpa [World.release, hq] using hheld
    exact hw.covers_carried hcarried ⟨World.mem_pointers hold, hq⟩ hold hg'

theorem WorldInv.drained (hw : WorldInv fits w L blk) (hd : Drained w.sys L blk w.pointers s') :
    ∃ L' blk', WorldInv fits ⟨s', w.held⟩ L' blk' := by
  obtain ⟨L', blk', hs', hcarried, hle⟩ := hd
  exact ⟨L', blk', hs', hw.calm.mono hle, fun q n g' hheld hg' =>
    hw.covers_carried hcarried (World.mem_pointers hheld) hheld hg'⟩

theorem WorldInv.write (hw : WorldInv fits w L blk) (hm : w.Writes m') :
    WorldInv fits ⟨w.sys.setMem m', w.held⟩ L blk := by
  have honly : Account.OnlyIn blk w.pointers w.sys.heap.mem m' := by
    intro x hout
    by_contra hne
    obtain ⟨q, hq, hlo, hhi⟩ := hm.inside x hne
    obtain ⟨g, hg⟩ := hw.inv.account.grant_of_held hq
    rw [hw.inv.account.inv.dispatchUsableSize_eq hg] at hhi
    have := hout q hq g hg
    omega
  have hclean : Clean { w.sys.heap with mem := m' } := fun i hu b hb hin hmagic =>
    hw.inv.account.inv.clean i hu b hb hin (hm.plain b hb hmagic)
  obtain ⟨hacc, -⟩ := hw.inv.account.write Set.Subset.rfl honly hclean
  exact ⟨⟨hacc, hw.inv.tally⟩, hw.calm, hw.covers⟩

theorem WorldInv.elsewhere (hw : WorldInv fits w L blk)
    (hm : ∀ x, w.sys.heap.Taken x → m' x = w.sys.heap.mem x) :
    WorldInv fits ⟨w.sys.setMem m', w.held⟩ L blk := by
  have hinv := hw.inv.account.inv.elsewhere hm
  refine ⟨⟨⟨hinv, hw.inv.account.ledger.congr fun k y hy => ?_⟩, hw.inv.tally⟩, hw.calm, hw.covers⟩
  obtain ⟨g, hg, -⟩ := hw.inv.account.grant_of_mem hy
  refine hw.inv.account.load64_kept hg fun x hlo hhi => hm x ?_
  obtain ⟨k', b, n, hr, hlo', hhi', -⟩ := (hw.inv.account.inv.blockKind hg).region
  exact ⟨k', b, n, hr, by omega, by omega⟩

/-- Every reachable state keeps the account. -/
theorem Reachable.worldInv (hw : Reachable w) : ∃ L blk, WorldInv Covers w L blk := by
  induction hw with
  | init p => exact ⟨_, _, worldInv_init _ p⟩
  | alloc _ hlegal hok ih =>
    obtain ⟨L, blk, hinv⟩ := ih
    have hout := (dispatchAlloc_spec hinv.inv hinv.calm hlegal _).of_ok hok
    exact hinv.answer hout.served hout.covers
  | allocAligned _ hlegal hok ih =>
    obtain ⟨L, blk, hinv⟩ := ih
    have hout := (dispatchAllocAligned_spec hinv.inv hinv.calm hlegal _ _).of_ok hok
    exact hinv.answer hout.served hout.covers
  | free _ hlegal hheld hok ih =>
    obtain ⟨L, blk, hinv⟩ := ih
    exact hinv.release ((dispatchFree_spec hinv.inv hinv.calm hlegal.owns hheld).of_ok hok)
  | @drainAll _ call _ _ hok ih =>
    obtain ⟨L, blk, hinv⟩ := ih
    exact hinv.drained ((dispatchDrainAll_spec hinv.inv call hinv.calm.lt).of_ok hok)
  | @drainLocalL2 _ call _ _ hok ih =>
    obtain ⟨L, blk, hinv⟩ := ih
    exact hinv.drained ((dispatchDrainLocalL2_spec hinv.inv call).of_ok hok)
  | @drainMedium _ call _ _ hok ih =>
    obtain ⟨L, blk, hinv⟩ := ih
    exact hinv.drained ((dispatchDrainMedium_spec hinv.inv call).of_ok hok)
  | bgTick _ ih =>
    obtain ⟨L, blk, hinv⟩ := ih
    exact hinv.drained (dispatchBgTick_spec hinv.inv)
  | purgeDrained _ ih =>
    obtain ⟨L, blk, hinv⟩ := ih
    exact hinv.drained (dispatchPurgeDrained_spec hinv.inv)
  | write _ hm ih =>
    obtain ⟨L, blk, hinv⟩ := ih
    exact ⟨L, blk, hinv.write hm⟩
  | elsewhere _ hm ih =>
    obtain ⟨L, blk, hinv⟩ := ih
    exact ⟨L, blk, hinv.elsewhere hm⟩

/-! ### A first call -/

/-- A call by the first thread with its cache on, no debugging, and one page to be had. -/
def firstCall : Call where
  thread := 0
  useTlc := true
  cacheReady := true
  lifetimeTracking := false
  lifetime := .unknown
  softLimitActive := false
  uafActive := false
  debug := false
  deferredCoalesce := false
  hugePages := false
  mprotectOk := true
  nodeOverloaded := false
  tsc := 0
  ticksPerMicro := 1
  currentCpu := 0
  stackCpu := 0
  pushCpu := 0
  ownerCpu := 0
  pages := [pageSize]
  arena := 0
  regions := fun _ => 0
  owns := fun _ => true

theorem not_taken_init (p : BuddyPool) (x : ℕ) : ¬ (Sys.init p).heap.Taken x := by
  rintro ⟨k, b, n, hr, -⟩
  exact region_init p k b n hr

theorem legal_firstCall : Legal firstCall (Sys.init emptyPool).heap where
  pages := by
    refine ⟨fun p hp _ => ?_, by decide⟩
    obtain rfl : p = pageSize := by simpa [firstCall] using hp
    exact ⟨dvd_rfl, dvd_rfl, by decide, by decide, by decide, fun x _ _ => not_taken_init _ x⟩
  arena := fun hne => absurd rfl hne
  regions := fun _ hne => absurd rfl hne
  owns := fun _ _ => rfl

theorem answer_of_map {σ : Type} {x : Except Stop (ℕ × σ)}
    (hx : x.toOption.map Prod.fst = some ptr) : ∃ s', x = .ok (ptr, s') := by
  cases x with
  | error stop => cases hx
  | ok out =>
    cases hx
    exact ⟨out.2, rfl⟩

theorem answers_first : ∃ s', dispatchAlloc firstCall (Sys.init emptyPool) 24 = .ok (67752, s') :=
  answer_of_map (by decide +kernel)

end V8Malloc
