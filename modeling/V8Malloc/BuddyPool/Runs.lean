import V8Malloc.BuddyPool.Drain

/-!
# Runs of the buddy pool

Allocations, frees of live blocks, idle sweeps and writes of the program, with
the coalescing option switched at will. A run names the frees it allows, so
that one relation serves all runs and the runs that never lose a block.
-/
namespace V8Malloc

open ByteMemory

variable {p p' : BuddyPool} {live live' : Set (ℕ × ℕ)} {h' : BuddyHeap} {i j a base : ℕ}

/-- Debugging is off; deferred coalescing is as given. -/
def debugOff (deferred : Bool) : PoolOptions := ⟨false, false, deferred⟩

inductive PoolRun (allow : Bool → BuddyPool → Set (ℕ × ℕ) → ℕ × ℕ → Prop) :
    BuddyPool → Set (ℕ × ℕ) → Prop
  | init (p : BuddyPool) : PoolRun allow (buddyPoolInit p) ∅
  | alloc {p p' : BuddyPool} {live : Set (ℕ × ℕ)} (deferred : Bool) (arena size ptr : ℕ) :
      PoolRun allow p live → LegalArena p arena →
      buddyPoolAlloc (debugOff deferred) arena p size = .ok (ptr, p') →
      PoolRun allow p' (liveAfter live ptr size)
  | free {p : BuddyPool} {live : Set (ℕ × ℕ)} (deferred : Bool) (q : ℕ × ℕ) :
      PoolRun allow p live → q ∈ live → allow deferred p live q →
      PoolRun allow (buddyPoolFree (debugOff deferred) p q.1).2 (live \ {q})
  | sweepIdle {p : BuddyPool} {live : Set (ℕ × ℕ)} (maxIdleTicks : ℕ) : PoolRun allow p live →
      PoolRun allow (buddyPoolSweepIdle p maxIdleTicks) live
  | write {p : BuddyPool} {live : Set (ℕ × ℕ)} (m' : Mem) : PoolRun allow p live →
      (∀ i a, p.Used i → inArenaAt (p.base i) a →
        (∀ q ∈ live, a < q.1 ∨ q.1 + blockSize q.2 ≤ a) → m' a = p.mem a) →
      PoolRun allow { p with mem := m' } live

/-- The free loses no block: it leaves live blocks in the arena, or the block is the whole
arena, or it is merged at once and no two halves of one block are free. -/
def DrainSafe (deferred : Bool) (p : BuddyPool) (live : Set (ℕ × ℕ)) (q : ℕ × ℕ) : Prop :=
  ∀ i, p.Used i → inArenaAt (p.base i) q.1 → liveAt (p.base i) live = {q} →
    blockSize q.2 = buddyMaxBlock ∨ deferred = false ∧ FullyMerged (p.arenas i).buddy none₂

/-! ### The free step -/

theorem ArenaInv.live_empty_iff {h : BuddyHeap} (harena : ArenaInv base h live) :
    live = ∅ ↔ ∀ l i, ¬ h.buddy.allocAt l i := by
  constructor
  · rintro rfl l i ha
    obtain ⟨q, hq, -⟩ := harena.bits.owner l i ha
    exact hq
  · intro hnone
    rw [Set.eq_empty_iff_forall_notMem]
    intro q hq
    obtain ⟨k, -, ha⟩ := harena.bits.block q hq
    exact hnone _ _ ha

theorem FreedSlot.sdiff_iff {opts : PoolOptions} {q : ℕ × ℕ} (hq : q ∈ live)
    (hf : FreedSlot opts p live q i h') :
    liveAt (p.base i) live \ {q} = ∅ ↔ liveAt (p.base i) live = {q} := by
  rw [Set.sdiff_eq_empty]
  constructor
  · intro hsub
    exact Set.Subset.antisymm hsub (Set.singleton_subset_iff.2 ⟨hq, hf.inside⟩)
  · exact fun heq => heq.subset

/-- A change of slot `i` to a heap over the buddy of `h'`. -/
theorem FreedSlot.slotStep {opts : PoolOptions} {q : ℕ × ℕ} (hp : PoolInv p live)
    (hf : FreedSlot opts p live q i h') (hothers : ∀ j, j ≠ i → p'.arenas j = p.arenas j)
    (hused : (p'.arenas i).inUse = true)
    (hframe : ∀ a, ¬ inArenaAt (p.base i) a → p'.mem a = h'.mem a)
    (hbuddy : (p'.heap i).buddy = h'.buddy) (hinv : BuddyInv (p'.heap i) none₂)
    (hidle : (p'.arenas i).drained = true → liveAt (p.base i) live \ {q} = ∅) :
    SlotStep p live i (p.base i) p' (live \ {q}) := by
  apply slotStep_of_heap hp hf.used hothers hused
  · exact fun a ha => (hframe a ha).trans (hf.frame a ha)
  · intro x hx
    constructor
    · exact fun hmem => hmem.1
    · intro hmem
      refine ⟨hmem, ?_⟩
      rintro rfl
      exact hx hf.inside
  · rw [liveAt_sdiff]
    exact ⟨by rw [hbuddy]; exact hf.arena.base_eq, hinv, by rw [hbuddy]; exact hf.arena.bits⟩
  · rw [liveAt_sdiff]
    exact hidle

theorem blockSize_eq_max_iff (size : ℕ) :
    blockSize size = buddyMaxBlock ↔ sizeToLevel size = buddyTop := by
  constructor
  · intro heq
    have hpow : 2 ^ (buddyMinShift + sizeToLevel size) = 2 ^ (buddyMinShift + buddyTop) := heq
    have := Nat.pow_right_injective (le_refl 2) hpow
    omega
  · intro heq
    unfold blockSize
    rw [heq]
    rfl

theorem FreedSlot.base_eq {opts : PoolOptions} {q : ℕ × ℕ} (hf : FreedSlot opts p live q i h') :
    (p.setHeap i h').base i = p.base i := by
  rw [← hf.arena.base_eq]
  simp [BuddyPool.base, BuddyPool.setHeap]

/-- The free leaves live blocks in the arena. -/
theorem FreedSlot.setHeap_slotStep {opts : PoolOptions} {q : ℕ × ℕ} (hp : PoolInv p live)
    (hf : FreedSlot opts p live q i h') :
    SlotStep p live i (p.base i) (p.setHeap i h') (live \ {q}) := by
  apply hf.slotStep hp
  · intro j hj
    simp [BuddyPool.setHeap, hj]
  · simp only [BuddyPool.setHeap, Function.update_self]
    exact hf.used.2
  · exact fun _ _ => rfl
  · rw [setHeap_heap]
  · rw [setHeap_heap]
    exact hf.arena.inv
  · simp only [BuddyPool.setHeap, Function.update_self]
    intro hdrained
    rw [hp.idle i hf.used hdrained, Set.empty_sdiff]

/-- The free gives back the last block of the arena. -/
theorem FreedSlot.drain_slotStep {opts : PoolOptions} {q : ℕ × ℕ} (hp : PoolInv p live)
    (hf : FreedSlot opts p live q i h') (hlast : liveAt (p.base i) live \ {q} = ∅) :
    SlotStep p live i (p.base i) ((p.setHeap i h').drain opts i) (live \ {q}) := by
  have hheap := drain_heap (p := p.setHeap i h') (i := i) opts
  rw [setHeap_heap] at hheap
  apply hf.slotStep hp
  · intro j hj
    simp [BuddyPool.drain, BuddyPool.setHeap, hj]
  · simp only [BuddyPool.drain, BuddyPool.setHeap, Function.update_self]
    exact hf.used.2
  · intro a ha
    rw [drain_frame _ (by rwa [hf.base_eq])]
    rfl
  · rw [hheap]
  · rw [hheap]
    by_cases hdebug : opts.debug = true
    · -- with debugging on the pages are kept
      simp only [BuddyPool.drain, hdebug, if_true]
      exact hf.arena.inv
    · have hpos : 0 < (p.setHeap i h').base i := by
        rw [hf.base_eq]
        exact (hp.arena i hf.used).inv.arena.pos
      have hzero := drain_zeroed opts (by simpa using hdebug) hpos
      rw [setHeap_heap] at hzero
      exact hf.arena.inv.zeroed hzero
  · exact fun _ => hlast

theorem FreedSlot.empty_iff {opts : PoolOptions} {q : ℕ × ℕ} (hf : FreedSlot opts p live q i h') :
    liveAt (p.base i) live \ {q} = ∅ ↔ buddyIsEmpty h'.buddy = true :=
  hf.arena.live_empty_iff.trans (buddyIsEmpty_iff hf.arena.inv).symm

theorem drain_plain (opts : PoolOptions) (halign : buddyMaxBlock ∣ p.base i) :
    Plain p.mem (p.drain opts i).mem := by
  simp only [BuddyPool.drain, adviseDontNeed]
  split_ifs
  · exact Plain.refl _
  · exact Plain.refl _
  · exact plain_fill (Or.inl rfl) (dvd_trans (by decide) halign) (by decide) (Or.inl rfl)

/-- A free takes its block from the live ones and leaves the others alone. -/
theorem buddyPoolFree_spec (opts : PoolOptions) (hp : PoolInv p live) {q : ℕ × ℕ} (hq : q ∈ live) :
    PoolInv (buddyPoolFree opts p q.1).2 (live \ {q}) ∧
      PoolFrame p (live \ {q}) 0 (buddyPoolFree opts p q.1).2 := by
  obtain ⟨i, h', hf⟩ := hp.freedSlot opts hq
  have heq := hp.buddyPoolFree_eq opts hf.used hq hf.inside
  rw [← hf.heap_eq] at heq
  rw [heq]
  by_cases hlast : liveAt (p.base i) live \ {q} = ∅
  · rw [if_pos (hf.empty_iff.1 hlast)]
    have hstep := hf.drain_slotStep hp hlast
    refine ⟨hstep.inv hp, hstep.poolFrame hp (Or.inl hf.used) ?_ Set.sdiff_subset ?_⟩
    · refine hf.plain.trans (drain_plain (p := p.setHeap i h') opts ?_)
      rw [hf.base_eq]
      exact hp.aligned hf.used
    · rintro q' ⟨hq', hne⟩ hin'
      exact absurd ⟨⟨hq', hin'⟩, hne⟩ (Set.eq_empty_iff_forall_notMem.1 hlast q')
  · rw [if_neg (mt hf.empty_iff.2 hlast)]
    have hstep := hf.setHeap_slotStep hp
    exact ⟨hstep.inv hp, hstep.poolFrame hp (Or.inl hf.used) hf.plain Set.sdiff_subset hf.kept⟩

/-- The free of the last block of an arena. -/
theorem drain_step (deferred : Bool) (hp : PoolInv p live) {q : ℕ × ℕ} (hq : q ∈ live)
    (hf : FreedSlot (debugOff deferred) p live q i h') (hlast : liveAt (p.base i) live = {q})
    (hsafe : DrainSafe deferred p live q ↔ (liveAt (p.base i) live = {q} →
      blockSize q.2 = buddyMaxBlock ∨
        deferred = false ∧ FullyMerged (p.arenas i).buddy none₂)) (hc : PoolComplete p) :
    PoolComplete ((p.setHeap i h').drain (debugOff deferred) i) ↔ DrainSafe deferred p live q := by
  have hpos : 0 < (p.setHeap i h').base i := by
    rw [hf.base_eq]
    exact (hp.arena i hf.used).inv.arena.pos
  have hzero := drain_zeroed (debugOff deferred) rfl hpos
  have hheap := drain_heap (p := p.setHeap i h') (i := i) (debugOff deferred)
  rw [setHeap_heap] at hzero hheap
  have hnone := hf.arena.live_empty_iff.1 ((hf.sdiff_iff hq).2 hlast)
  have hstep := hf.drain_slotStep hp ((hf.sdiff_iff hq).2 hlast)
  have hlists := hf.complete (hc i hf.used)
  have hall : PoolComplete ((p.setHeap i h').drain (debugOff deferred) i) ↔
      ListsComplete (((p.setHeap i h').drain (debugOff deferred) i).heap i) none₂ := by
    constructor
    · exact fun hpc => hpc i ⟨hstep.slot_lt, hstep.used⟩
    · exact fun hi => hstep.complete hp (fun j _ hu => hc j hu) hi
  obtain ⟨k, hk, ha⟩ := (hp.arena i hf.used).bits.block q ⟨hq, hf.inside⟩
  have hq' : q = (indexToNode (p.heap i).buddy k (sizeToLevel q.2), q.2) := Prod.ext hk rfl
  have hunsplit := freedHeap_unsplit_iff (debugOff deferred) (hp.arena i hf.used)
    (by rw [← hq']; exact ⟨hq, hf.inside⟩) ha (by rw [← hq']; exact hlast)
  rw [← hk, ← hf.heap_eq] at hunsplit
  rw [hall, hheap, hf.arena.inv.zeroed_complete_iff hlists hzero,
    hf.arena.inv.subsingleton_iff hnone, hunsplit, hsafe, forall_prop_of_true hlast,
    blockSize_eq_max_iff]
  exact Iff.rfl

/-- With complete lists before a free, they are complete after it exactly when it is safe. -/
theorem buddyPoolFree_complete_iff (deferred : Bool) (hp : PoolInv p live) {q : ℕ × ℕ}
    (hq : q ∈ live) (hc : PoolComplete p) :
    PoolComplete (buddyPoolFree (debugOff deferred) p q.1).2 ↔ DrainSafe deferred p live q := by
  obtain ⟨i, h', hf⟩ := hp.freedSlot (debugOff deferred) hq
  have heq := hp.buddyPoolFree_eq (debugOff deferred) hf.used hq hf.inside
  rw [← hf.heap_eq] at heq
  -- only slot `i` can hold the block
  have hsafe : DrainSafe deferred p live q ↔ (liveAt (p.base i) live = {q} →
      blockSize q.2 = buddyMaxBlock ∨
        deferred = false ∧ FullyMerged (p.arenas i).buddy none₂) := by
    constructor
    · exact fun hs => hs i hf.used hf.inside
    · intro hs j hu hin
      have hji := hp.apart j i hu hf.used
        (inArenaAt_unique (hp.aligned hu) (hp.aligned hf.used) hin hf.inside)
      subst hji
      exact hs
  by_cases hlast : liveAt (p.base i) live = {q}
  · rw [heq, if_pos (hf.empty_iff.1 ((hf.sdiff_iff hq).2 hlast))]
    exact drain_step deferred hp hq hf hlast hsafe hc
  · rw [heq, if_neg (mt hf.empty_iff.2 (mt (hf.sdiff_iff hq).1 hlast))]
    refine iff_of_true ?_ (hsafe.2 fun h => absurd h hlast)
    apply (hf.setHeap_slotStep hp).complete hp fun j _ hu => hc j hu
    rw [setHeap_heap]
    exact hf.complete (hc i hf.used)

/-! ### The other steps -/

theorem poolInv_init (p : BuddyPool) : PoolInv (buddyPoolInit p) ∅ := by
  have hnone : ∀ i, ¬ (buddyPoolInit p).Used i := fun i hu => absurd hu.2 (by simp [buddyPoolInit])
  exact ⟨fun i hu => absurd hu (hnone i), fun i _ hu => absurd hu (hnone i),
    fun q hq => hq.elim, fun i hu => absurd hu (hnone i)⟩

theorem tick_cases (slot : PoolArena) (n : ℕ) :
    (slot.tick n).buddy = slot.buddy ∧ ((slot.tick n).inUse = true →
      slot.inUse = true ∧ (slot.tick n).drained = slot.drained) ∧
    (slot.inUse = true → (slot.tick n).inUse = false → slot.drained = true) := by
  simp only [PoolArena.tick]
  split_ifs <;> simp_all

theorem sweepIdle_used (n : ℕ) (hi : (buddyPoolSweepIdle p n).Used i) :
    p.Used i ∧ (buddyPoolSweepIdle p n).base i = p.base i ∧
      (buddyPoolSweepIdle p n).heap i = p.heap i ∧
      ((buddyPoolSweepIdle p n).arenas i).drained = (p.arenas i).drained := by
  obtain ⟨hlt, hused⟩ := hi
  obtain ⟨hbuddy, hkeep, -⟩ := tick_cases (p.arenas i) n
  simp only [buddyPoolSweepIdle, hlt, if_true] at hused
  obtain ⟨hold, hdrained⟩ := hkeep hused
  simp only [BuddyPool.base, BuddyPool.heap, buddyPoolSweepIdle, hlt, if_true, hbuddy, hdrained]
  exact ⟨⟨hlt, hold⟩, trivial, trivial, trivial⟩

/-- Only arenas without live blocks are released. -/
theorem sweepIdle_step (n : ℕ) (hp : PoolInv p live) :
    PoolInv (buddyPoolSweepIdle p n) live ∧
      (PoolComplete p → PoolComplete (buddyPoolSweepIdle p n)) := by
  refine ⟨⟨?_, ?_, ?_, ?_⟩, ?_⟩
  · intro i hi
    obtain ⟨hu, hbase, hheap, -⟩ := sweepIdle_used n hi
    rw [hbase, hheap]
    exact hp.arena i hu
  · intro i j hi hj heq
    obtain ⟨hu, hbase, -, -⟩ := sweepIdle_used n hi
    obtain ⟨hu', hbase', -, -⟩ := sweepIdle_used n hj
    rw [hbase, hbase'] at heq
    exact hp.apart i j hu hu' heq
  · intro q hq
    obtain ⟨i, hu, hin⟩ := hp.owned q hq
    have hstay : (buddyPoolSweepIdle p n).Used i := by
      refine ⟨hu.1, ?_⟩
      by_contra hgone
      simp only [buddyPoolSweepIdle, hu.1, if_true, Bool.not_eq_true] at hgone
      have hidle := hp.idle i hu ((tick_cases (p.arenas i) n).2.2 hu.2 hgone)
      exact (Set.eq_empty_iff_forall_notMem.1 hidle) q ⟨hq, hin⟩
    exact ⟨i, hstay, by rwa [(sweepIdle_used n hstay).2.1]⟩
  · intro i hi hdrained
    obtain ⟨hu, hbase, -, hflag⟩ := sweepIdle_used n hi
    rw [hbase]
    exact hp.idle i hu (hflag ▸ hdrained)
  · intro hc i hi
    obtain ⟨hu, -, hheap, -⟩ := sweepIdle_used n hi
    rw [hheap]
    exact hc i hu

/-- Writes into live blocks, and anywhere outside the arenas. -/
theorem write_step (hp : PoolInv p live) {m' : Mem}
    (hm : ∀ i a, p.Used i → inArenaAt (p.base i) a →
      (∀ q ∈ live, a < q.1 ∨ q.1 + blockSize q.2 ≤ a) → m' a = p.mem a) :
    PoolInv { p with mem := m' } live ∧ (PoolComplete p → PoolComplete { p with mem := m' }) := by
  have hslot : ∀ i, p.Used i →
      ArenaInv (p.base i) ⟨(p.heap i).buddy, m'⟩ (liveAt (p.base i) live) ∧
        (ListsComplete (p.heap i) none₂ → ListsComplete ⟨(p.heap i).buddy, m'⟩ none₂) := by
    intro i hu
    apply (hp.arena i hu).write
    intro a hlo hhi hown
    refine hm i a hu ⟨hlo, hhi⟩ fun q hq => ?_
    by_cases hin : inArenaAt (p.base i) q.1
    · exact hown q ⟨hq, hin⟩
    · -- a block of another arena ends inside that arena
      obtain ⟨j, huj, hinj⟩ := hp.owned q hq
      obtain ⟨-, hend⟩ := (hp.arena j huj).block_end ⟨hq, hinj⟩
      by_contra hcover
      have hinj' : inArenaAt (p.base j) a := by
        unfold inArenaAt at hinj ⊢
        omega
      have heq := inArenaAt_unique (hp.aligned huj) (hp.aligned hu) hinj' ⟨hlo, hhi⟩
      exact hin (heq ▸ hinj)
  exact ⟨⟨fun i hu => (hslot i hu).1, hp.apart, hp.owned, hp.idle⟩,
    fun hc i hu => (hslot i hu).2 (hc i hu)⟩

/-! ### Whole runs -/

theorem PoolRun.inv {allow : Bool → BuddyPool → Set (ℕ × ℕ) → ℕ × ℕ → Prop}
    (run : PoolRun allow p live) : PoolInv p live := by
  induction run with
  | init p => exact poolInv_init p
  | alloc deferred arena size ptr _ hlegal hout ih =>
    exact ((buddyPoolAlloc_spec (debugOff deferred) ih hlegal size).of_ok hout).inv
  | free deferred q _ hq _ ih => exact (buddyPoolFree_spec (debugOff deferred) ih hq).1
  | sweepIdle n _ ih => exact (sweepIdle_step n ih).1
  | write m' _ hm ih => exact (write_step ih hm).1

theorem PoolRun.complete (run : PoolRun DrainSafe p live) : PoolComplete p := by
  induction run with
  | init p => exact fun i hu => absurd hu.2 (by simp [buddyPoolInit])
  | alloc deferred arena size ptr run hlegal hout ih =>
    exact ((buddyPoolAlloc_spec (debugOff deferred) run.inv hlegal size).of_ok hout).complete ih
  | free deferred q run hq hsafe ih =>
    exact (buddyPoolFree_complete_iff deferred run.inv hq ih).2 hsafe
  | sweepIdle n run ih => exact (sweepIdle_step n run.inv).2 ih
  | write m' run hm ih => exact (write_step run.inv hm).2 ih

/-- The bookkeeping of every arena in use is intact. -/
def PoolIntact (p : BuddyPool) : Prop :=
  ∀ i, p.Used i → FreeListed (p.heap i) ∧ ArenaTiled (p.heap i)

theorem PoolInv.intact_iff (hp : PoolInv p live) : PoolIntact p ↔ PoolComplete p := by
  apply forall₂_congr
  intro i hu
  rw [(hp.arena i hu).inv.freeListed_iff, (hp.arena i hu).tiled_iff, and_self]

/-- A pool that was just set up, over memory that reads as zero. -/
def emptyPool : BuddyPool :=
  buddyPoolInit ⟨fun _ => ⟨bareBuddy 0, false, false, 0⟩, fun _ => 0⟩

theorem legalArena_emptyPool : LegalArena emptyPool 262144 :=
  Or.inr ⟨by decide, by decide, fun i hu => absurd hu.2 (by simp [emptyPool, buddyPoolInit])⟩

/-- The first request goes to a fresh arena in the first slot. -/
theorem emptyPool_alloc (deferred : Bool) (size : ℕ) {obj : ℕ} (hpos : 0 < size)
    (hmax : size ≤ buddyMaxBlock) (hne : obj ≠ 0)
    (hout : buddyAlloc false (buddyInit false (fun _ => 0) 262144) size = .ok (obj, h')) :
    buddyPoolAlloc (debugOff deferred) 262144 emptyPool size =
      .ok (obj, emptyPool.install 0 h') := by
  have hunused : ∀ i, (emptyPool.arenas i).inUse = false := fun i => rfl
  have htry : tryExistingArenas false size poolSlots emptyPool = .ok (0, emptyPool) := by
    rcases tryExistingArenas_cases false size poolSlots (poolInv_init _).scanned with
      ⟨hnull, -⟩ | ⟨i, -, hused, -⟩
    · exact hnull
    · exact absurd (hused.symm.trans (hunused i)) (by decide)
  have hslot : poolSlots.find? (fun i => !(emptyPool.arenas i).inUse) = some 0 := by
    unfold poolSlots buddyPoolMaxArenas
    rw [List.range_succ_eq_map]
    rfl
  have hfresh : acquireFreshArena false size 262144 emptyPool =
      .ok (obj, emptyPool.install 0 h') := by
    have hmem : emptyPool.mem = fun _ => 0 := rfl
    unfold acquireFreshArena
    rw [hslot]
    simp only [OfNat.ofNat_ne_zero, if_false, hmem, hout, hne, ne_eq, not_false_eq_true,
      decide_true]
    rfl
  have hsize : ¬(size = 0 ∨ size > buddyMaxBlock) := by omega
  simp only [buddyPoolAlloc, debugOff, if_neg hsize, htry, hfresh, ne_eq, not_true_eq_false,
    if_false, hne, false_and]

/-- Runs of safe frees keep the bookkeeping intact, and a further free keeps it
intact exactly when it is safe. -/
theorem drain_keeps_bookkeeping (run : PoolRun DrainSafe p live) :
    PoolIntact p ∧ ∀ deferred, ∀ q ∈ live,
      (PoolIntact (buddyPoolFree (debugOff deferred) p q.1).2 ↔ DrainSafe deferred p live q) := by
  refine ⟨run.inv.intact_iff.2 run.complete, fun deferred q hq => ?_⟩
  have hinv := (buddyPoolFree_spec (debugOff deferred) run.inv hq).1
  rw [hinv.intact_iff, buddyPoolFree_complete_iff deferred run.inv hq run.complete]

/-- A whole arena taken and given back with deferred coalescing on. -/
theorem drain_keeps_bookkeeping_wholeArena : ∃ p,
    buddyPoolAlloc (debugOff true) 262144 emptyPool 262144 = .ok (262144, p) ∧
      PoolIntact (buddyPoolFree (debugOff true) p 262144).2 := by
  obtain ⟨p, hout⟩ : ∃ p,
      buddyPoolAlloc (debugOff true) 262144 emptyPool 262144 = .ok (262144, p) :=
    ⟨_, emptyPool_alloc true 262144 (by decide) (by decide) (by decide) rfl⟩
  refine ⟨p, hout, ?_⟩
  have run : PoolRun DrainSafe p (liveAfter ∅ 262144 262144) :=
    .alloc true 262144 262144 262144 (.init _) legalArena_emptyPool hout
  exact ((drain_keeps_bookkeeping run).2 true (262144, 262144) (Or.inl rfl)).2
    fun _ _ _ _ => Or.inl rfl

/-- One page taken and given back with deferred coalescing on: its twin is behind it on
the list, and the link to it is gone with the frames. -/
theorem drain_loses_twin : ∃ p,
    buddyPoolAlloc (debugOff true) 262144 emptyPool 4096 = .ok (262144, p) ∧
      PoolRun (fun _ _ _ _ => True) (buddyPoolFree (debugOff true) p 262144).2
        (liveAfter ∅ 262144 4096 \ {(262144, 4096)}) ∧
      ¬ PoolIntact (buddyPoolFree (debugOff true) p 262144).2 := by
  obtain ⟨p, hout⟩ : ∃ p, buddyPoolAlloc (debugOff true) 262144 emptyPool 4096 = .ok (262144, p) :=
    ⟨_, emptyPool_alloc true 4096 (by decide) (by decide) (by decide) rfl⟩
  refine ⟨p, hout, ?_, ?_⟩
  · exact .free true (262144, 4096)
      (.alloc true 262144 4096 262144 (.init _) legalArena_emptyPool hout) (Or.inl rfl) trivial
  · have run : PoolRun DrainSafe p (liveAfter ∅ 262144 4096) :=
      .alloc true 262144 4096 262144 (.init _) legalArena_emptyPool hout
    have hq : (262144, 4096) ∈ liveAfter ∅ 262144 4096 := Or.inl rfl
    have hinv := (buddyPoolFree_spec (debugOff true) run.inv hq).1
    intro hintact
    have hsafe := (buddyPoolFree_complete_iff true run.inv hq run.complete).1
      (hinv.intact_iff.1 hintact)
    obtain ⟨i, hu, hin⟩ := run.inv.owned _ hq
    have hlast : liveAt (p.base i) (liveAfter ∅ 262144 4096) = {(262144, 4096)} := by
      refine Set.Subset.antisymm ?_ (Set.singleton_subset_iff.2 ⟨hq, hin⟩)
      rintro q ⟨rfl | hmem, -⟩
      · exact rfl
      · exact hmem.elim
    rcases hsafe i hu hin hlast with hwhole | ⟨hoff, -⟩
    · exact absurd hwhole (by decide)
    · exact absurd hoff (by decide)

end V8Malloc
