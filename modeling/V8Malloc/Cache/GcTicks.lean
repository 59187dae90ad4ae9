import V8Malloc.Cache.Thread

/-!
# Ticks of the capacity controller

The countdown and the counters of a thread cache against the operations it has
made. Whatever else happens to the bins, each pop and each push is counted once,
and every `tlcGcInterval` of them the controller runs on exact numbers.
-/
namespace V8Malloc

open ByteMemory Function

/-- A pop or a push that succeeded. -/
inductive BinOp
  | pop (cls : ℕ)
  | push (cls : ℕ)
  deriving DecidableEq, Repr

def BinOp.cls : BinOp → ℕ
  | .pop cls => cls
  | .push cls => cls

variable {cache cache' : ThreadCache} {log : List BinOp}

/-! ### What the controller should know -/

/-- The operations after the last tick; the newest stands first. -/
def sinceTick (log : List BinOp) : List BinOp := log.take (log.length % tlcGcInterval)

def netDemand (ops : List BinOp) (cls : ℕ) : ℕ := ops.count (.pop cls) - ops.count (.push cls)

/-- The average after the ticks of a history, each over the `tlcGcInterval` operations before it. -/
def emaAfter (cls : ℕ) : List BinOp → ℕ
  | [] => 0
  | op :: log =>
    if (log.length + 1) % tlcGcInterval = 0 then
      tickEma (emaAfter cls log) (netDemand ((op :: log).take tlcGcInterval) cls)
    else emaAfter cls log

structure GcExact (cache : ThreadCache) (log : List BinOp) : Prop where
  classes : ∀ op ∈ log, op.cls < mediumFirstClass
  countdown : cache.gcCountdown + log.length % tlcGcInterval = tlcGcInterval
  generation : cache.gcGeneration = log.length / tlcGcInterval % 2 ^ 32
  allocs : ∀ c, cache.allocCountPerClass c = (sinceTick log).count (.pop c)
  frees : ∀ c, cache.freeCountPerClass c = (sinceTick log).count (.push c)
  ema : ∀ c, cache.emaDemand c = emaAfter c log
  capacity : ∀ c, binCapacityMin ≤ cache.binCapacity c ∧ cache.binCapacity c ≤ binCapacityMax

theorem length_sinceTick (log : List BinOp) :
    (sinceTick log).length = log.length % tlcGcInterval := by
  rw [sinceTick, List.length_take]
  exact min_eq_left (Nat.mod_le _ _)

theorem sinceTick_cons_of_tick (op : BinOp) (h : (log.length + 1) % tlcGcInterval = 0) :
    sinceTick (op :: log) = [] ∧ (op :: log).take tlcGcInterval = op :: sinceTick log := by
  have hlast : log.length % tlcGcInterval + 1 = tlcGcInterval := by
    unfold tlcGcInterval at h ⊢
    omega
  constructor
  · simp [sinceTick, h]
  · rw [← hlast, List.take_succ_cons]
    rfl

theorem sinceTick_cons (op : BinOp) (h : (log.length + 1) % tlcGcInterval ≠ 0) :
    sinceTick (op :: log) = op :: sinceTick log := by
  have hnext : (log.length + 1) % tlcGcInterval = log.length % tlcGcInterval + 1 := by
    unfold tlcGcInterval at h ⊢
    omega
  rw [sinceTick, List.length_cons, hnext, List.take_succ_cons]
  rfl

/-- All classes together count every operation once. -/
theorem sum_counts {ops : List BinOp} {n : ℕ} (h : ∀ op ∈ ops, op.cls < n) :
    ∑ c ∈ Finset.range n, (ops.count (.pop c) + ops.count (.push c)) = ops.length := by
  induction ops with
  | nil => simp
  | cons op ops ih =>
    have hcls := h op List.mem_cons_self
    have hone : ∑ c ∈ Finset.range n, (if c = op.cls then 1 else 0) = 1 := by
      simp [hcls]
    rw [List.length_cons, ← ih fun o ho => h o (List.mem_cons_of_mem _ ho), ← hone,
      ← Finset.sum_add_distrib]
    apply Finset.sum_congr rfl
    intro c _
    cases op with
    | pop cls =>
      by_cases hc : c = cls
      · simp [BinOp.cls, hc]
        omega
      · simp [BinOp.cls, hc, Ne.symm hc]
    | push cls =>
      by_cases hc : c = cls
      · simp [BinOp.cls, hc, add_assoc]
      · simp [BinOp.cls, hc, Ne.symm hc]

/-! ### One operation -/

/-- The numbers of the controller. -/
def ThreadCache.controller (cache : ThreadCache) :=
  (cache.gcCountdown, cache.gcGeneration, cache.allocCountPerClass, cache.freeCountPerClass,
    cache.emaDemand, cache.binCapacity)

theorem GcExact.congr (h : GcExact cache log) (hsame : cache'.controller = cache.controller) :
    GcExact cache' log := by
  simp only [ThreadCache.controller, Prod.mk.injEq] at hsame
  obtain ⟨h₁, h₂, h₃, h₄, h₅, h₆⟩ := hsame
  constructor
  · exact h.classes
  all_goals simp only [h₁, h₂, h₃, h₄, h₅, h₆]
  exacts [h.countdown, h.generation, h.allocs, h.frees, h.ema, h.capacity]

/-- The increment that an operation makes before the countdown. -/
def ThreadCache.counted (cache : ThreadCache) : BinOp → ThreadCache
  | .pop cls => { cache with
      allocCountPerClass := update cache.allocCountPerClass cls
        (increment 16 (cache.allocCountPerClass cls)) }
  | .push cls => { cache with
      freeCountPerClass := update cache.freeCountPerClass cls
        (increment 16 (cache.freeCountPerClass cls)) }

theorem GcExact.counted (h : GcExact cache log) (op : BinOp) (c : ℕ) :
    (cache.counted op).allocCountPerClass c = (op :: sinceTick log).count (.pop c) ∧
      (cache.counted op).freeCountPerClass c = (op :: sinceTick log).count (.push c) := by
  have hlen := length_sinceTick log
  have hlt : log.length % tlcGcInterval < 1024 := Nat.mod_lt _ (by decide)
  -- no counter of the interval can wrap
  have hinc : ∀ o : BinOp, increment 16 ((sinceTick log).count o) = (sinceTick log).count o + 1 := by
    intro o
    have hle : (sinceTick log).count o ≤ _ := List.count_le_length
    unfold increment
    omega
  cases op with
  | pop cls =>
    by_cases hc : c = cls
    · subst hc
      simp [ThreadCache.counted, h.allocs, h.frees, hinc]
    · simp [ThreadCache.counted, h.allocs, h.frees, hc, Ne.symm hc]
  | push cls =>
    by_cases hc : c = cls
    · subst hc
      simp [ThreadCache.counted, h.allocs, h.frees, hinc]
    · simp [ThreadCache.counted, h.allocs, h.frees, hc, Ne.symm hc]

theorem controller_counted (cache : ThreadCache) (op : BinOp) :
    (cache.counted op).gcCountdown = cache.gcCountdown ∧
      (cache.counted op).gcGeneration = cache.gcGeneration ∧
      (cache.counted op).emaDemand = cache.emaDemand ∧
      (cache.counted op).binCapacity = cache.binCapacity := by
  cases op <;> exact ⟨rfl, rfl, rfl, rfl⟩

/-- The operation that ends an interval runs the controller on the counts of the interval, any
other one is added to them. -/
theorem GcExact.tick (h : GcExact cache log) (nodeOverloaded : Bool) (op : BinOp)
    (hcls : op.cls < mediumFirstClass) :
    GcExact (tlcTickGc nodeOverloaded (cache.counted op)) (op :: log) := by
  obtain ⟨hdown, hgen, hema, hcap⟩ := controller_counted cache op
  have hcount := h.counted op
  have hclasses : ∀ o ∈ op :: log, o.cls < mediumFirstClass :=
    List.forall_mem_cons.2 ⟨hcls, h.classes⟩
  have hcountdown := h.countdown
  have hgeneration := h.generation
  have hstep : decrement 32 cache.gcCountdown = cache.gcCountdown - 1 := by
    unfold decrement
    unfold tlcGcInterval at hcountdown
    omega
  unfold tlcTickGc
  simp only [hdown, hstep]
  by_cases htick : (log.length + 1) % tlcGcInterval = 0
  · obtain ⟨hnil, htake⟩ := sinceTick_cons_of_tick op htick
    have hzero : cache.gcCountdown - 1 = 0 := by
      unfold tlcGcInterval at hcountdown htick
      omega
    rw [if_pos hzero]
    refine ⟨hclasses, ?_, ?_, fun c => ?_, fun c => ?_, fun c => ?_, fun c => ?_⟩
    · simp [threadCacheGcTick, htick]
    · simp only [threadCacheGcTick, hgen, hgeneration, increment, List.length_cons]
      unfold tlcGcInterval at htick ⊢
      omega
    · simp [threadCacheGcTick, hnil]
    · simp [threadCacheGcTick, hnil]
    · simp only [threadCacheGcTick, emaAfter, if_pos htick, hema, h.ema, htake, (hcount c).1,
        (hcount c).2, tickDemand, netDemand]
      split_ifs with hmore
      · rfl
      · rw [Nat.sub_eq_zero_of_le (Nat.le_of_not_lt hmore)]
    · have hrange : binCapacityMin ≤ binCapacityMax := by decide
      exact ⟨le_min (le_max_right _ _) hrange, min_le_right _ _⟩
  · have hsince := sinceTick_cons op htick
    have hmore : cache.gcCountdown - 1 ≠ 0 := by
      unfold tlcGcInterval at hcountdown htick
      omega
    rw [if_neg hmore]
    refine ⟨hclasses, ?_, ?_, fun c => ?_, fun c => ?_, fun c => ?_, fun c => ?_⟩
    · simp only [List.length_cons]
      unfold tlcGcInterval at hcountdown htick ⊢
      omega
    · simp only [hgen, hgeneration, List.length_cons]
      unfold tlcGcInterval at htick ⊢
      omega
    · rw [hsince]
      exact (hcount c).1
    · rw [hsince]
      exact (hcount c).2
    · simp only [emaAfter, if_neg htick, hema]
      exact h.ema c
    · simp only [hcap]
      exact h.capacity c

/-! ### Runs -/

/-- `v8m_thread_cache_drain_remote` on a chain that `v8m_mpsc_drain` returned; `left` bounds its
length. -/
def drainRemoteLoop (nodeOverloaded : Bool) :
    ℕ → ℕ → ℕ → ThreadCache → Heap → Except Stop (ℕ × ThreadCache × Heap)
  | 0, node, count, cache, h => if node = 0 then .ok (count, cache, h) else .error .diverge
  | left + 1, node, count, cache, h =>
    if node = 0 then .ok (count, cache, h)
    else
      let next := load64 h.mem node
      match h.headerAt (ptrToMeta node) with
      | some (.slab page) =>
        let out := threadCacheFree nodeOverloaded cache h.mem page.sizeClass node
        drainRemoteLoop nodeOverloaded left next (count + 1) out.2.1 { h with mem := out.2.2 }
      | _ => drainRemoteLoop nodeOverloaded left next (count + 1) cache h

/-- A cache from its creation on, with its successful pops and pushes. Each call sees the memory
and the load of the node as they are then. The inlined forms in `v8m_thread_cache.h` are the same
code. -/
inductive TickRun : ThreadCache → List BinOp → Prop
  | fresh : TickRun .fresh []
  | alloc {cache : ThreadCache} {log : List BinOp} (nodeOverloaded : Bool) (m : Mem) (cls : ℕ) :
      TickRun cache log → TickRun (threadCacheAlloc nodeOverloaded cache m cls).2
        (if (threadCacheAlloc nodeOverloaded cache m cls).1 = 0 then log else .pop cls :: log)
  | free {cache : ThreadCache} {log : List BinOp} (nodeOverloaded : Bool) (m : Mem) (cls obj : ℕ) :
      TickRun cache log → TickRun (threadCacheFree nodeOverloaded cache m cls obj).2.1
        (if cls ≥ mediumFirstClass ∨ obj = 0 then log else .push cls :: log)
  | installChain {cache : ThreadCache} {log : List BinOp} (m : Mem) (cls : ℕ) (batch : Batch) :
      TickRun cache log → TickRun (threadCacheInstallChain cache m cls batch).1 log
  | flushHalf {cache : ThreadCache} {log : List BinOp} (uafActive : Bool) (h : Heap)
      (arena cls : ℕ) : TickRun cache log →
      TickRun (threadCacheFlushHalf uafActive cache h arena cls).2.1 log
  | mediumAlloc {cache : ThreadCache} {log : List BinOp} (m : Mem) (cls : ℕ) :
      TickRun cache log → TickRun (threadCacheMediumAlloc cache m cls).2 log
  | mediumFree {cache : ThreadCache} {log : List BinOp} (m : Mem) (cls obj : ℕ) :
      TickRun cache log → TickRun (threadCacheMediumFree cache m cls obj).2.1 log

theorem controller_flushHalfLoop (uafActive : Bool) (arena cls left : ℕ) :
    ∀ (freed : ℕ) (cache : ThreadCache) (h : Heap),
      (flushHalfLoop uafActive arena cls left freed cache h).2.1.controller = cache.controller := by
  induction left with
  | zero => exact fun _ _ _ => rfl
  | succ left ih =>
    intro freed cache h
    unfold flushHalfLoop
    dsimp only
    split_ifs
    · rfl
    · exact ih _ _ _

theorem threadCacheAlloc_cases (nodeOverloaded : Bool) (cache : ThreadCache) (m : Mem) (cls : ℕ) :
    threadCacheAlloc nodeOverloaded cache m cls = (0, cache) ∨
      cls < mediumFirstClass ∧ cache.binHeads cls ≠ 0 ∧
        threadCacheAlloc nodeOverloaded cache m cls = (cache.binHeads cls, tlcTickGc nodeOverloaded
          ((cache.unlink m cls (cache.binHeads cls)).counted (.pop cls))) := by
  unfold threadCacheAlloc
  by_cases hcls : cls ≥ mediumFirstClass
  · exact Or.inl (if_pos hcls)
  by_cases hhead : cache.binHeads cls = 0
  · exact Or.inl ((if_neg hcls).trans (if_pos hhead))
  · exact Or.inr ⟨Nat.lt_of_not_le hcls, hhead, (if_neg hcls).trans (if_neg hhead)⟩

def ThreadCache.linked (cache : ThreadCache) (cls obj : ℕ) : ThreadCache :=
  { cache with
    binHeads := update cache.binHeads cls obj
    binCount := update cache.binCount cls (increment 16 (cache.binCount cls)) }

theorem threadCacheFree_push (nodeOverloaded : Bool) (cache : ThreadCache) (m : Mem) {cls obj : ℕ}
    (h : ¬ (cls ≥ mediumFirstClass ∨ obj = 0)) :
    (threadCacheFree nodeOverloaded cache m cls obj).2.1 =
      tlcTickGc nodeOverloaded ((cache.linked cls obj).counted (.push cls)) := by
  simp only [threadCacheFree, if_neg h, ThreadCache.linked, ThreadCache.counted]

theorem TickRun.gcExact (hrun : TickRun cache log) : GcExact cache log := by
  induction hrun with
  | fresh =>
    have hdefault : binCapacityMin ≤ binCapacityDefault ∧ binCapacityDefault ≤ binCapacityMax := by
      decide
    exact ⟨nofun, rfl, rfl, fun _ => rfl, fun _ => rfl, fun _ => rfl, fun _ => hdefault⟩
  | @alloc cache log nodeOverloaded m cls _ ih =>
    rcases threadCacheAlloc_cases nodeOverloaded cache m cls with hnone | ⟨hcls, hhead, hpop⟩
    · rw [hnone]
      exact ih
    · have hunlink : GcExact (cache.unlink m cls (cache.binHeads cls)) log := ih.congr rfl
      simp only [hpop, if_neg hhead]
      exact hunlink.tick nodeOverloaded (.pop cls) hcls
  | @free cache log nodeOverloaded m cls obj _ ih =>
    split_ifs with hnone
    · rw [threadCacheFree, if_pos hnone]
      exact ih
    · rw [threadCacheFree_push nodeOverloaded cache m hnone]
      have hlink : GcExact (cache.linked cls obj) log := ih.congr rfl
      exact hlink.tick nodeOverloaded (.push cls) (show cls < mediumFirstClass by omega)
  | installChain m cls batch _ ih =>
    unfold threadCacheInstallChain
    split_ifs <;> exact ih.congr rfl
  | flushHalf uafActive h arena cls _ ih =>
    unfold threadCacheFlushHalf
    split_ifs
    · exact ih
    · exact ih.congr (controller_flushHalfLoop _ _ _ _ _ _ _)
  | mediumAlloc m cls _ ih =>
    unfold threadCacheMediumAlloc
    dsimp only
    split_ifs <;> exact ih.congr rfl
  | mediumFree m cls obj _ ih =>
    unfold threadCacheMediumFree
    dsimp only
    split_ifs <;> exact ih.congr rfl

/-- The pops of a drained chain are pops like any other. -/
theorem TickRun.drainChainLoop {nodeOverloaded : Bool} {cls left : ℕ} :
    ∀ {batch : Batch} {cache : ThreadCache} {m : Mem} {log : List BinOp}, TickRun cache log →
      ∃ log', TickRun (drainChainLoop nodeOverloaded cls left batch cache m).2.1 (log' ++ log) := by
  induction left with
  | zero => exact fun hrun => ⟨[], hrun⟩
  | succ left ih =>
    intro batch cache m log hrun
    have hnext := hrun.alloc nodeOverloaded m cls
    unfold V8Malloc.drainChainLoop
    dsimp only
    split_ifs with h0
    · exact ⟨[], by simpa [h0] using hnext⟩
    · rw [if_neg h0] at hnext
      obtain ⟨log', hlog⟩ := ih hnext
      exact ⟨log' ++ [.pop cls], by simpa using hlog⟩

theorem TickRun.drainRemoteLoop {nodeOverloaded : Bool} {left : ℕ} :
    ∀ {node count : ℕ} {cache : ThreadCache} {h : Heap} {log : List BinOp}
      {out : ℕ × ThreadCache × Heap}, TickRun cache log →
      drainRemoteLoop nodeOverloaded left node count cache h = .ok out →
      ∃ log', TickRun out.2.1 (log' ++ log) := by
  induction left with
  | zero =>
    intro node count cache h log out hrun hok
    unfold V8Malloc.drainRemoteLoop at hok
    split_ifs at hok
    cases hok
    exact ⟨[], hrun⟩
  | succ left ih =>
    intro node count cache h log out hrun hok
    unfold V8Malloc.drainRemoteLoop at hok
    split_ifs at hok
    · cases hok
      exact ⟨[], hrun⟩
    · dsimp only at hok
      split at hok
      · next page _ =>
        obtain ⟨log', hlog⟩ := ih (hrun.free nodeOverloaded h.mem page.sizeClass node) hok
        split_ifs at hlog
        · exact ⟨log', hlog⟩
        · exact ⟨log' ++ [.push page.sizeClass], by simpa using hlog⟩
      · exact ih hrun hok

/-- The counters and the countdown always add up to one interval; the controller runs at the end
of every interval, on the exact demand of the interval; capacities stay in range. -/
theorem gc_ticks_exact (hrun : TickRun cache log) :
    (∑ c ∈ Finset.range mediumFirstClass,
        (cache.allocCountPerClass c + cache.freeCountPerClass c)) + cache.gcCountdown =
      tlcGcInterval ∧
    1 ≤ cache.gcCountdown ∧ cache.gcCountdown ≤ tlcGcInterval ∧
    (∀ c, cache.allocCountPerClass c = (sinceTick log).count (.pop c) ∧
      cache.freeCountPerClass c = (sinceTick log).count (.push c) ∧
      cache.emaDemand c = emaAfter c log) ∧
    cache.gcGeneration = log.length / tlcGcInterval % 2 ^ 32 ∧
    ∀ c, binCapacityMin ≤ cache.binCapacity c ∧ cache.binCapacity c ≤ binCapacityMax := by
  have h := hrun.gcExact
  have hdown := h.countdown
  have hlt : log.length % tlcGcInterval < tlcGcInterval := Nat.mod_lt _ (by decide)
  refine ⟨?_, by omega, by omega, fun c => ⟨h.allocs c, h.frees c, h.ema c⟩, h.generation,
    h.capacity⟩
  have hsince : ∀ op ∈ sinceTick log, op.cls < mediumFirstClass :=
    fun op hop => h.classes op (List.mem_of_mem_take hop)
  simp only [h.allocs, h.frees, sum_counts hsince, length_sinceTick]
  omega

/-- A slot pushed and popped again, `n` times. -/
def cycleLog : ℕ → List BinOp
  | 0 => []
  | n + 1 => .pop 3 :: .push 3 :: cycleLog n

theorem length_cycleLog (n : ℕ) : (cycleLog n).length = 2 * n := by
  induction n with
  | zero => rfl
  | succ n ih =>
    simp only [cycleLog, List.length_cons, ih]
    omega

theorem binHeads_tlcTickGc (nodeOverloaded : Bool) (cache : ThreadCache) :
    (tlcTickGc nodeOverloaded cache).binHeads = cache.binHeads := by
  simp only [tlcTickGc]
  -- the borrow of the countdown is kept out of sight of the case split
  generalize decrement 32 cache.gcCountdown = countdown
  split_ifs <;> rfl

theorem binHeads_threadCacheFree (nodeOverloaded : Bool) (cache : ThreadCache) (m : Mem)
    {cls obj : ℕ} (hguard : ¬(cls ≥ mediumFirstClass ∨ obj = 0)) :
    (threadCacheFree nodeOverloaded cache m cls obj).2.1.binHeads cls = obj := by
  simp only [threadCacheFree, if_neg hguard, binHeads_tlcTickGc, update_self]

theorem TickRun.cycle (hrun : TickRun cache log) :
    ∃ cache', TickRun cache' (.pop 3 :: .push 3 :: log) := by
  have hguard : ¬(3 ≥ mediumFirstClass ∨ 64 = 0) := by decide
  have hpush := hrun.free false (fun _ => 0) 3 64
  have hhead := binHeads_threadCacheFree false cache (fun _ => 0) hguard
  rw [if_neg hguard] at hpush
  generalize (threadCacheFree false cache (fun _ => 0) 3 64).2.1 = pushed at hpush hhead
  have hne : (threadCacheAlloc false pushed (fun _ => 0) 3).1 ≠ 0 := by
    simp [threadCacheAlloc, hhead, mediumFirstClass]
  have hpop := hpush.alloc false (fun _ => 0) 3
  rw [if_neg hne] at hpop
  exact ⟨_, hpop⟩

theorem cycleLog_run (n : ℕ) : ∃ cache, TickRun cache (cycleLog n) := by
  induction n with
  | zero => exact ⟨_, .fresh⟩
  | succ n ih =>
    obtain ⟨cache, hrun⟩ := ih
    exact hrun.cycle

/-- One interval and two operations more: the controller has run once and counts from there. -/
theorem gc_ticks_exact_cycled : ∃ cache, TickRun cache (cycleLog 513) ∧ cache.gcGeneration = 1 ∧
    cache.allocCountPerClass 3 = 1 ∧ cache.freeCountPerClass 3 = 1 := by
  obtain ⟨cache, hrun⟩ := cycleLog_run 513
  have hlength := length_cycleLog 513
  have hsince : sinceTick (cycleLog 513) = [.pop 3, .push 3] := by
    rw [sinceTick, hlength, cycleLog]
    norm_num [tlcGcInterval]
  obtain ⟨-, -, -, hcounts, hgeneration, -⟩ := gc_ticks_exact hrun
  obtain ⟨hallocs, hfrees, -⟩ := hcounts 3
  rw [hsince] at hallocs hfrees
  rw [hlength] at hgeneration
  exact ⟨cache, hrun, hgeneration, hallocs, hfrees⟩

end V8Malloc
