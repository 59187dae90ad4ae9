import V8Malloc.BuddyPool.Calls

/-!
# Idle arenas

The drained flag says that an arena has no live block: a free that empties the
arena sets it and the next block served from the arena clears it. A sweep counts
one tick for each drained arena and returns those that were idle long enough.
-/
namespace V8Malloc

open ByteMemory

variable {p p' : BuddyPool} {live live' : Set (ℕ × ℕ)} {i j k n base : ℕ}
variable {ok : PoolOptions → Prop}

/-! ### The drained flag -/

/-- An arena that is not drained has a live block. -/
def Occupied (p : BuddyPool) (live : Set (ℕ × ℕ)) : Prop :=
  ∀ i, p.Used i → (p.arenas i).drained = false → (liveAt (p.base i) live).Nonempty

theorem SlotStep.occupied (hs : SlotStep p live i base p' live') (hp : PoolInv p live)
    (ho : Occupied p live) (hi : (p'.arenas i).drained = false → (liveAt base live').Nonempty) :
    Occupied p' live' := by
  intro j hu hdrained
  by_cases hj : j = i
  · subst hj
    rw [hs.base_eq]
    exact hi hdrained
  · have hu' := (hs.used_iff hj).1 hu
    rw [hs.base_other hj, hs.liveAt_other hp hj hu']
    rw [hs.others j hj] at hdrained
    exact ho j hu' hdrained

/-- A free empties its arena and sets the flag, or leaves a block in it. -/
theorem buddyPoolFree_occupied (opts : PoolOptions) (hp : PoolInv p live) {q : ℕ × ℕ}
    (hq : q ∈ live) (ho : Occupied p live) :
    Occupied (buddyPoolFree opts p q.1).2 (live \ {q}) := by
  obtain ⟨i, hu, hin, hs, hlast, -⟩ := buddyPoolFree_slot opts hp hq
  apply hs.occupied hp ho
  intro hdrained
  rw [liveAt_sdiff, Set.nonempty_iff_ne_empty]
  intro hempty
  have hone : liveAt (p.base i) live = {q} :=
    Set.Subset.antisymm (Set.sdiff_eq_empty.1 hempty) (Set.singleton_subset_iff.2 ⟨hq, hin⟩)
  rw [(hlast hone).1] at hdrained
  cases hdrained

theorem PoolCalls.occupied (run : PoolCalls ok p live)
    (himm : ∀ opts, ok opts → opts.deferredCoalesce = false) : Occupied p live := by
  induction run with
  | init p => exact fun i hu => absurd hu.2 (by simp [buddyPoolInit])
  | alloc opts arena size ptr run hok hlegal hout ih =>
    rcases buddyPoolAlloc_immediate (himm opts hok) run.inv hlegal hout with
      ⟨rfl, rfl⟩ | ⟨hne, i, base, hs, hin, -, -⟩
    · simpa [liveAfter] using ih
    · rw [liveAfter, if_neg hne]
      exact hs.occupied run.inv ih fun _ => ⟨(ptr, size), Or.inl rfl, hin⟩
  | free opts q run hok hq ih => exact buddyPoolFree_occupied opts run.inv hq ih
  | sweepIdle n run ih =>
    intro i hu hdrained
    obtain ⟨hu', hbase, -, hflag⟩ := sweepIdle_used n hu
    rw [hbase]
    exact ih i hu' (hflag.symm.trans hdrained)
  | write m' run hm ih => exact ih

theorem PoolInv.drained_iff (hp : PoolInv p live) (ho : Occupied p live) (hu : p.Used i) :
    (p.arenas i).drained = true ↔ liveAt (p.base i) live = ∅ := by
  constructor
  · exact hp.idle i hu
  · intro hempty
    by_contra hflag
    have hsome := ho i hu (Bool.eq_false_iff.2 hflag)
    rw [hempty] at hsome
    exact Set.not_nonempty_empty hsome

/-! ### A sweep -/

/-- The counter after one more tick; it stops at the largest value it can hold. -/
def PoolArena.nextTick (slot : PoolArena) : ℕ :=
  if slot.idleTicks < idleTicksMax then slot.idleTicks + 1 else slot.idleTicks

/-- The next sweep returns the arena of the slot. -/
def PoolArena.expires (slot : PoolArena) (maxIdleTicks : ℕ) : Bool :=
  slot.inUse && slot.drained && decide (maxIdleTicks ≤ slot.nextTick)

/-- The ranges a sweep hands to the page heap, in order. -/
def sweepIdleReturns (p : BuddyPool) (maxIdleTicks : ℕ) : List (ℕ × ℕ) :=
  (poolSlots.filter fun i => (p.arenas i).expires maxIdleTicks).map fun i =>
    (p.base i, buddyMaxBlock)

theorem PoolArena.expires_iff (slot : PoolArena) (n : ℕ) :
    slot.expires n = true ↔ (slot.inUse = true ∧ slot.drained = true) ∧ n ≤ slot.nextTick := by
  simp [PoolArena.expires]

/-- A slot that does not expire stays in use, with the next tick when it is drained. -/
theorem tick_of_not_expires {slot : PoolArena} (hused : slot.inUse = true)
    (hstay : slot.expires n = false) :
    (slot.tick n).inUse = true ∧ (slot.tick n).drained = slot.drained ∧
      (slot.drained = true → (slot.tick n).idleTicks = slot.nextTick) := by
  cases hdrained : slot.drained with
  | false => simp [PoolArena.tick, hused, hdrained]
  | true =>
    have hearly : ¬ n ≤ slot.nextTick := by
      intro hle
      rw [(slot.expires_iff n).2 ⟨⟨hused, hdrained⟩, hle⟩] at hstay
      cases hstay
    simp only [PoolArena.tick, hused, hdrained, and_self, if_true]
    rw [PoolArena.nextTick] at hearly
    rw [if_neg hearly]
    exact ⟨rfl, rfl, fun _ => rfl⟩

theorem tick_of_expires {slot : PoolArena} (hgone : slot.expires n = true) :
    (slot.tick n).inUse = false := by
  obtain ⟨hidle, hle⟩ := (slot.expires_iff n).1 hgone
  rw [PoolArena.nextTick] at hle
  simp only [PoolArena.tick, hidle, and_self, if_true]
  rw [if_pos hle]

theorem sweepIdle_arenas (hi : i < buddyPoolMaxArenas) :
    (buddyPoolSweepIdle p n).arenas i = (p.arenas i).tick n := by
  simp [buddyPoolSweepIdle, hi]

theorem mem_sweepIdleReturns {r : ℕ × ℕ} : r ∈ sweepIdleReturns p n ↔
    ∃ i, p.Used i ∧ (p.arenas i).expires n = true ∧ r = (p.base i, buddyMaxBlock) := by
  simp only [sweepIdleReturns, List.mem_map, List.mem_filter, poolSlots, List.mem_range]
  constructor
  · rintro ⟨i, ⟨hi, hexp⟩, rfl⟩
    exact ⟨i, ⟨hi, (((p.arenas i).expires_iff n).1 hexp).1.1⟩, hexp, rfl⟩
  · rintro ⟨i, hu, hexp, rfl⟩
    exact ⟨i, ⟨hu.1, hexp⟩, rfl⟩

theorem PoolInv.mem_sweepIdleReturns_iff (hp : PoolInv p live) (hu : p.Used i) :
    (p.base i, buddyMaxBlock) ∈ sweepIdleReturns p n ↔ (p.arenas i).expires n = true := by
  rw [mem_sweepIdleReturns]
  constructor
  · rintro ⟨j, hu', hexp, heq⟩
    rw [hp.apart i j hu hu' (congrArg Prod.fst heq)]
    exact hexp
  · exact fun hexp => ⟨i, hu, hexp, rfl⟩

/-- Slots in use have arenas of their own, so nothing is returned twice. -/
theorem PoolInv.sweepIdleReturns_nodup (hp : PoolInv p live) : (sweepIdleReturns p n).Nodup := by
  apply List.Nodup.map_on
  · intro i hi j hj heq
    simp only [List.mem_filter, poolSlots, List.mem_range, PoolArena.expires_iff] at hi hj
    exact hp.apart i j ⟨hi.1, hi.2.1.1⟩ ⟨hj.1, hj.2.1.1⟩ (congrArg Prod.fst heq)
  · exact List.nodup_range.filter _

/-- What a sweep returns: whole arenas without live blocks, which then leave the pool. -/
theorem PoolInv.sweepIdleReturns_spec (hp : PoolInv p live) {r : ℕ × ℕ}
    (hr : r ∈ sweepIdleReturns p n) : r.2 = buddyMaxBlock ∧ ∃ i, p.Used i ∧ p.base i = r.1 ∧
      liveAt r.1 live = ∅ ∧ ¬ (buddyPoolSweepIdle p n).Used i := by
  obtain ⟨i, hu, hexp, rfl⟩ := mem_sweepIdleReturns.1 hr
  have hidle := ((p.arenas i).expires_iff n).1 hexp
  refine ⟨rfl, i, hu, rfl, hp.idle i hu hidle.1.2, fun hu' => ?_⟩
  have hused := hu'.2
  rw [sweepIdle_arenas hu.1, tick_of_expires hexp] at hused
  cases hused

/-- Every other arena stays in the pool. -/
theorem PoolInv.sweepIdle_keeps (hp : PoolInv p live) (hu : p.Used i)
    (hr : (p.base i, buddyMaxBlock) ∉ sweepIdleReturns p n) : (buddyPoolSweepIdle p n).Used i := by
  rw [hp.mem_sweepIdleReturns_iff hu, Bool.not_eq_true] at hr
  refine ⟨hu.1, ?_⟩
  rw [sweepIdle_arenas hu.1]
  exact (tick_of_not_expires hu.2 hr).1

/-! ### From the emptying free to the return -/

/-- Calls after `p₀`, none of which takes a block of the arena at `base`, with `k` sweeps
of limit `n` among them. -/
inductive IdleSpan (n base : ℕ) (p₀ : BuddyPool) (live₀ : Set (ℕ × ℕ)) :
    ℕ → BuddyPool → Set (ℕ × ℕ) → Prop
  | start : IdleSpan n base p₀ live₀ 0 p₀ live₀
  | alloc {k : ℕ} {p p' : BuddyPool} {live : Set (ℕ × ℕ)} (opts : PoolOptions)
      (arena size ptr : ℕ) : IdleSpan n base p₀ live₀ k p live →
      opts.deferredCoalesce = false → LegalArena p arena →
      buddyPoolAlloc opts arena p size = .ok (ptr, p') → ¬ inArenaAt base ptr →
      IdleSpan n base p₀ live₀ k p' (liveAfter live ptr size)
  | free {k : ℕ} {p : BuddyPool} {live : Set (ℕ × ℕ)} (opts : PoolOptions) (q : ℕ × ℕ) :
      IdleSpan n base p₀ live₀ k p live → opts.deferredCoalesce = false → q ∈ live →
      IdleSpan n base p₀ live₀ k (buddyPoolFree opts p q.1).2 (live \ {q})
  | sweepIdle {k : ℕ} {p : BuddyPool} {live : Set (ℕ × ℕ)} :
      IdleSpan n base p₀ live₀ k p live →
      IdleSpan n base p₀ live₀ (k + 1) (buddyPoolSweepIdle p n) live
  | write {k : ℕ} {p : BuddyPool} {live : Set (ℕ × ℕ)} (m' : Mem) :
      IdleSpan n base p₀ live₀ k p live →
      (∀ i a, p.Used i → inArenaAt (p.base i) a →
        (∀ q ∈ live, a < q.1 ∨ q.1 + blockSize q.2 ≤ a) → m' a = p.mem a) →
      IdleSpan n base p₀ live₀ k { p with mem := m' } live

/-- Slot `i` holds the idle arena at `base` for `k` ticks. -/
structure IdleSlot (p : BuddyPool) (live : Set (ℕ × ℕ)) (i base k : ℕ) : Prop where
  inv : PoolInv p live
  used : p.Used i
  base_eq : p.base i = base
  drained : (p.arenas i).drained = true
  ticks : (p.arenas i).idleTicks = k

/-- A step on another arena leaves the idle slot alone. -/
theorem IdleSlot.other {base' : ℕ} (hi : IdleSlot p live i base k)
    (hs : SlotStep p live j base' p' live') (hne : j ≠ i) : IdleSlot p' live' i base k where
  inv := hs.inv hi.inv
  used := (hs.used_iff hne.symm).2 hi.used
  base_eq := (hs.base_other hne.symm).trans hi.base_eq
  drained := by rw [hs.others i hne.symm, hi.drained]
  ticks := by rw [hs.others i hne.symm, hi.ticks]

theorem IdleSlot.nextTick (hi : IdleSlot p live i base k) (hk : k < idleTicksMax) :
    (p.arenas i).nextTick = k + 1 := by
  rw [PoolArena.nextTick, hi.ticks, if_pos hk]

theorem IdleSlot.expires_iff (hi : IdleSlot p live i base k) (hk : k < idleTicksMax) :
    (p.arenas i).expires n = true ↔ n ≤ k + 1 := by
  rw [PoolArena.expires_iff, hi.nextTick hk]
  exact and_iff_right ⟨hi.used.2, hi.drained⟩

/-- A sweep below the limit adds one tick. -/
theorem IdleSlot.sweepIdle (hi : IdleSlot p live i base k) (hk : k + 1 < n) (hn : n < 2 ^ 32) :
    IdleSlot (buddyPoolSweepIdle p n) live i base (k + 1) := by
  have hmax : k < idleTicksMax := by
    unfold idleTicksMax
    omega
  have hstay : (p.arenas i).expires n = false := by
    rw [← Bool.not_eq_true, hi.expires_iff hmax]
    omega
  obtain ⟨hused, hflag, hticks⟩ := tick_of_not_expires hi.used.2 hstay
  have hu : (buddyPoolSweepIdle p n).Used i := ⟨hi.used.1, by rw [sweepIdle_arenas hi.used.1, hused]⟩
  constructor
  · exact (sweepIdle_step n hi.inv).1
  · exact hu
  · exact (sweepIdle_used n hu).2.1.trans hi.base_eq
  · rw [sweepIdle_arenas hi.used.1, hflag, hi.drained]
  · rw [sweepIdle_arenas hi.used.1, hticks hi.drained, hi.nextTick hmax]

/-- The slot stays idle along the span, with a tick for each sweep. -/
theorem IdleSpan.idleSlot {p₀ : BuddyPool} {live₀ : Set (ℕ × ℕ)}
    (span : IdleSpan n base p₀ live₀ k p live) (h₀ : IdleSlot p₀ live₀ i base 0)
    (hn : n < 2 ^ 32) (hk : k < n) : IdleSlot p live i base k := by
  induction span with
  | start => exact h₀
  | alloc opts arena size ptr span himm hlegal hout hout' ih =>
    have hi := ih hk
    rcases buddyPoolAlloc_immediate himm hi.inv hlegal hout with
      ⟨rfl, rfl⟩ | ⟨hne, j, base', hs, hin, -, -⟩
    · simpa [liveAfter] using hi
    · rw [liveAfter, if_neg hne]
      apply hi.other hs
      rintro rfl
      rw [← hs.old_base hi.used, hi.base_eq] at hin
      exact hout' hin
  | free opts q span himm hq ih =>
    have hi := ih hk
    obtain ⟨j, hu, hin, hs, -, -⟩ := buddyPoolFree_slot opts hi.inv hq
    apply hi.other hs
    rintro rfl
    -- the arena has no block to free
    have hempty := hi.inv.idle j hu hi.drained
    exact Set.eq_empty_iff_forall_notMem.1 hempty q ⟨hq, hin⟩
  | sweepIdle span ih => exact (ih (by omega)).sweepIdle hk hn
  | write m' span hm ih =>
    have hi := ih hk
    exact ⟨(write_step hi.inv hm).1, hi.used, hi.base_eq, hi.drained, hi.ticks⟩

/-- The free of the last block of an arena makes its slot idle. -/
theorem idleSlot_of_free (opts : PoolOptions) (hp : PoolInv p live) (hu : p.Used i) {q : ℕ × ℕ}
    (hone : liveAt (p.base i) live = {q}) :
    IdleSlot (buddyPoolFree opts p q.1).2 (live \ {q}) i (p.base i) 0 := by
  have hq : q ∈ liveAt (p.base i) live := hone ▸ Set.mem_singleton q
  obtain ⟨j, huj, hinj, hs, hlast, -⟩ := buddyPoolFree_slot opts hp hq.1
  have hji : j = i := hp.apart j i huj hu
    (inArenaAt_unique (hp.aligned huj) (hp.aligned hu) hinj hq.2)
  subst hji
  obtain ⟨hflag, hticks⟩ := hlast hone
  exact ⟨hs.inv hp, ⟨hs.slot_lt, hs.used⟩, hs.base_eq, hflag, hticks⟩

/-- Idle sweeps: the flag marks the arenas without live blocks, a sweep returns such arenas
only, whole and once each, and an arena that stays empty goes with exactly the `n`-th sweep. -/
theorem idle_sweep_exact (run : PoolCalls (fun opts => opts.deferredCoalesce = false) p live) :
    (∀ i, p.Used i → ((p.arenas i).drained = true ↔ liveAt (p.base i) live = ∅)) ∧
    (∀ n, (sweepIdleReturns p n).Nodup ∧
      (∀ r ∈ sweepIdleReturns p n, r.2 = buddyMaxBlock ∧ ∃ i, p.Used i ∧ p.base i = r.1 ∧
        liveAt r.1 live = ∅ ∧ ¬ (buddyPoolSweepIdle p n).Used i) ∧
      ∀ i, p.Used i → (p.base i, buddyMaxBlock) ∉ sweepIdleReturns p n →
        (buddyPoolSweepIdle p n).Used i) ∧
    ∀ opts, opts.deferredCoalesce = false → ∀ i, p.Used i → ∀ q, liveAt (p.base i) live = {q} →
      ∀ n, 1 ≤ n → n < 2 ^ 32 → ∀ k p₁ live₁,
        IdleSpan n (p.base i) (buddyPoolFree opts p q.1).2 (live \ {q}) k p₁ live₁ → k < n →
          ((p.base i, buddyMaxBlock) ∈ sweepIdleReturns p₁ n ↔ k + 1 = n) := by
  have hp := run.inv
  refine ⟨fun i hu => ?_, fun n => ⟨hp.sweepIdleReturns_nodup, ?_, ?_⟩, ?_⟩
  · exact hp.drained_iff (run.occupied fun _ h => h) hu
  · exact fun r hr => hp.sweepIdleReturns_spec hr
  · exact fun i hu hr => hp.sweepIdle_keeps hu hr
  · intro opts _ i hu q hone n _ hn k p₁ live₁ span hk
    have hidle := span.idleSlot (idleSlot_of_free opts hp hu hone) hn hk
    have hmax : k < idleTicksMax := by
      unfold idleTicksMax
      omega
    have hmem := hidle.inv.mem_sweepIdleReturns_iff (n := n) hidle.used
    rw [hidle.base_eq] at hmem
    rw [hmem, hidle.expires_iff hmax]
    omega

/-- A page taken and given back: the second sweep of limit two returns its arena. -/
theorem idle_sweep_exact_onePage : ∃ p i, p.Used i ∧
    PoolCalls (fun opts => opts.deferredCoalesce = false) p {(262144, 4096)} ∧
    (p.base i, buddyMaxBlock) ∉ sweepIdleReturns (buddyPoolFree (debugOff false) p 262144).2 2 ∧
    (p.base i, buddyMaxBlock) ∈
      sweepIdleReturns (buddyPoolSweepIdle (buddyPoolFree (debugOff false) p 262144).2 2) 2 := by
  have hout : buddyPoolAlloc (debugOff false) 262144 emptyPool 4096 =
      .ok (262144, emptyPool.install 0 pageTaken) :=
    emptyPool_alloc false 4096 (by decide) (by decide) (by decide) rfl
  have run : PoolCalls (fun opts => opts.deferredCoalesce = false) _ (liveAfter ∅ 262144 4096) :=
    .alloc (debugOff false) 262144 4096 262144 (.init _) rfl legalArena_emptyPool hout
  have hlive : liveAfter ∅ 262144 4096 = {(262144, 4096)} := by simp [liveAfter]
  rw [hlive] at run
  obtain ⟨i, hu, hin⟩ := run.inv.owned _ rfl
  have hone : liveAt ((emptyPool.install 0 pageTaken).base i) {(262144, 4096)} =
      {(262144, 4096)} := by
    ext q
    constructor
    · exact fun hq => hq.1
    · rintro rfl
      exact ⟨rfl, hin⟩
  have hexact := (idle_sweep_exact run).2.2 (debugOff false) rfl i hu _ hone 2 (by decide)
    (by decide)
  refine ⟨_, i, hu, run, ?_, ?_⟩
  · exact fun hmem => absurd ((hexact 0 _ _ .start (by decide)).1 hmem) (by decide)
  · exact (hexact 1 _ _ (.sweepIdle .start) (by decide)).2 rfl

end V8Malloc
