import V8Malloc.Buddy.Sweep
import V8Malloc.BuddyPool.Runs

/-!
# Calls of the buddy pool under any options

A run may change every option between two calls. Two questions about such runs:
which pointers a free accepts, and when an allocation may fail.
-/
namespace V8Malloc

open ByteMemory BlockTree BitWord

variable {p p' : BuddyPool} {live : Set (ℕ × ℕ)} {h h' : BuddyHeap} {uafActive : Bool}
variable {i base ptr size arena : ℕ} {opts : PoolOptions} {ok : PoolOptions → Prop}

/-- Runs of the pool in which every call sees options that `ok` allows. -/
inductive PoolCalls (ok : PoolOptions → Prop) : BuddyPool → Set (ℕ × ℕ) → Prop
  | init (p : BuddyPool) : PoolCalls ok (buddyPoolInit p) ∅
  | alloc {p p' : BuddyPool} {live : Set (ℕ × ℕ)} (opts : PoolOptions) (arena size ptr : ℕ) :
      PoolCalls ok p live → ok opts → LegalArena p arena →
      buddyPoolAlloc opts arena p size = .ok (ptr, p') →
      PoolCalls ok p' (liveAfter live ptr size)
  | free {p : BuddyPool} {live : Set (ℕ × ℕ)} (opts : PoolOptions) (q : ℕ × ℕ) :
      PoolCalls ok p live → ok opts → q ∈ live →
      PoolCalls ok (buddyPoolFree opts p q.1).2 (live \ {q})
  | sweepIdle {p : BuddyPool} {live : Set (ℕ × ℕ)} (maxIdleTicks : ℕ) : PoolCalls ok p live →
      PoolCalls ok (buddyPoolSweepIdle p maxIdleTicks) live
  | write {p : BuddyPool} {live : Set (ℕ × ℕ)} (m' : Mem) : PoolCalls ok p live →
      (∀ i a, p.Used i → inArenaAt (p.base i) a →
        (∀ q ∈ live, a < q.1 ∨ q.1 + blockSize q.2 ≤ a) → m' a = p.mem a) →
      PoolCalls ok { p with mem := m' } live

theorem PoolCalls.inv (run : PoolCalls ok p live) : PoolInv p live := by
  induction run with
  | init p => exact poolInv_init p
  | alloc opts arena size ptr _ _ hlegal hout ih =>
    exact ((buddyPoolAlloc_spec opts ih hlegal size).of_ok hout).inv
  | free opts q _ _ hq ih => exact (buddyPoolFree_spec opts ih hq).1
  | sweepIdle n _ ih => exact (sweepIdle_step n ih).1
  | write m' _ hm ih => exact (write_step ih hm).1

/-! ### The pointers a free accepts -/

/-- The scan finds a size when some level has the bit of the truncated offset. -/
theorem blockSizeFrom_ne_zero_iff (b : Buddy) (offset left : ℕ) : ∀ level,
    blockSizeFrom b offset left level ≠ 0 ↔ ∃ l, level ≤ l ∧ l < level + left ∧
      b.allocAt l (offset >>> (buddyMinShift + l)) := by
  induction left with
  | zero =>
    intro level
    simp only [blockSizeFrom, ne_eq, not_true_eq_false, false_iff]
    rintro ⟨l, hlo, hhi, -⟩
    omega
  | succ left ih =>
    intro level
    unfold blockSizeFrom
    by_cases hbit : b.allocAt level (offset >>> (buddyMinShift + level))
    · rw [if_pos (testBit_allocBitmap.2 hbit)]
      exact iff_of_true (levelToSize_pos level).ne' ⟨level, le_rfl, by omega, hbit⟩
    · rw [if_neg (mt testBit_allocBitmap.1 hbit), ih]
      constructor
      · rintro ⟨l, hlo, hhi, ha⟩
        exact ⟨l, by omega, by omega, ha⟩
      · rintro ⟨l, hlo, hhi, ha⟩
        have hne : l ≠ level := by
          rintro rfl
          exact hbit ha
        exact ⟨l, by omega, by omega, ha⟩

/-- The query answers for every address of a live block, not for its start alone. -/
theorem ArenaInv.buddyBlockSize_ne_zero_iff (harena : ArenaInv base h live)
    (hin : inArenaAt base ptr) :
    buddyBlockSize h.buddy ptr ≠ 0 ↔ ∃ q ∈ live, q.1 ≤ ptr ∧ ptr < q.1 + blockSize q.2 := by
  have hpos := harena.inv.arena.pos
  have hsize := harena.inv.arena.size
  unfold inArenaAt at hin
  rw [← harena.base_eq] at hin
  unfold buddyBlockSize
  rw [if_neg (by omega), if_neg (by rw [hsize]; omega), blockSizeFrom_ne_zero_iff]
  constructor
  · rintro ⟨l, -, -, ha⟩
    obtain ⟨q, hq, hstart, rfl⟩ := harena.bits.owner l _ ha
    have hblock : InBlock h.buddy (sizeToLevel q.2)
        ((ptr - h.buddy.arenaBase) >>> (buddyMinShift + sizeToLevel q.2)) ptr :=
      ⟨hin.1, by rw [Nat.shiftRight_eq_div_pow]⟩
    rw [inBlock_iff, ← hstart] at hblock
    exact ⟨q, hq, hblock⟩
  · rintro ⟨q, hq, hlo, hhi⟩
    obtain ⟨k, hk, ha⟩ := harena.bits.block q hq
    have hblock : InBlock h.buddy (sizeToLevel q.2) k ptr := by
      rw [inBlock_iff, ← hk]
      exact ⟨hlo, hhi⟩
    have hlevel := (harena.inv.alloc_leaf _ _ ha).1.level_le
    refine ⟨sizeToLevel q.2, Nat.zero_le _, ?_, ?_⟩
    · unfold buddyTop at hlevel
      unfold buddyLevels
      omega
    · rwa [Nat.shiftRight_eq_div_pow, hblock.2]

theorem PoolInv.buddyPoolBlockSize_ne_zero_iff (hp : PoolInv p live) :
    buddyPoolBlockSize p ptr ≠ 0 ↔ ∃ q ∈ live, q.1 ≤ ptr ∧ ptr < q.1 + blockSize q.2 := by
  -- a live block with the address keeps it inside one arena
  have howner : ∀ q ∈ live, q.1 ≤ ptr → ptr < q.1 + blockSize q.2 →
      ∃ i, p.Used i ∧ inArenaAt (p.base i) q.1 ∧ inArenaAt (p.base i) ptr := by
    intro q hq hlo hhi
    obtain ⟨i, hu, hin⟩ := hp.owned q hq
    have hend := ((hp.arena i hu).block_end ⟨hq, hin⟩).2
    refine ⟨i, hu, hin, ?_⟩
    unfold inArenaAt at hin ⊢
    omega
  by_cases hfound : ∃ i, p.Used i ∧ inArenaAt (p.base i) ptr
  · obtain ⟨i, hu, hin⟩ := hfound
    have hpos : 0 < p.base i := (hp.arena i hu).inv.arena.pos
    have hne : ptr ≠ 0 := by
      have := hin.1
      omega
    have hsize := (hp.arena i hu).buddyBlockSize_ne_zero_iff hin
    unfold buddyPoolBlockSize
    rw [if_neg hne, hp.findOwningArena_eq hu hin]
    refine hsize.trans ⟨?_, ?_⟩
    · rintro ⟨q, hq, hrange⟩
      exact ⟨q, hq.1, hrange⟩
    · rintro ⟨q, hq, hlo, hhi⟩
      obtain ⟨j, huj, hinq, hinp⟩ := howner q hq hlo hhi
      have hbase := inArenaAt_unique (hp.aligned huj) (hp.aligned hu) hinp hin
      rw [hbase] at hinq
      exact ⟨q, ⟨hq, hinq⟩, hlo, hhi⟩
  · have hnone : findOwningArena p ptr = none := by
      unfold findOwningArena
      rw [List.find?_eq_none]
      intro i hi hhit
      exact hfound ⟨i, (hp.contains_iff (List.mem_range.1 hi)).1 hhit⟩
    refine iff_of_false ?_ ?_
    · simp [buddyPoolBlockSize, hnone]
    · rintro ⟨q, hq, hlo, hhi⟩
      obtain ⟨i, hu, -, hin⟩ := howner q hq hlo hhi
      exact hfound ⟨i, hu, hin⟩

/-- A free answers what the size query found, and refuses without a trace. -/
theorem buddyPoolFree_answer (opts : PoolOptions) (p : BuddyPool) (ptr : ℕ) :
    (buddyPoolBlockSize p ptr = 0 → buddyPoolFree opts p ptr = (false, p)) ∧
      (buddyPoolBlockSize p ptr ≠ 0 → (buddyPoolFree opts p ptr).1 = true) := by
  unfold buddyPoolBlockSize buddyPoolFree
  by_cases h0 : ptr = 0
  · simp [h0]
  · simp only [if_neg h0]
    cases findOwningArena p ptr with
    | none => simp
    | some i => by_cases hsize : buddyBlockSize (p.arenas i).buddy ptr = 0 <;> simp [hsize]

/-- A pointer that starts no live block is refused exactly when no live block has it
inside: the query drops the low bits of the offset. -/
theorem bad_free_refused_iff (run : PoolCalls (fun _ => True) p live)
    (hstart : ∀ q ∈ live, q.1 ≠ ptr) :
    (buddyPoolBlockSize p ptr = 0 ∧ ∀ opts, buddyPoolFree opts p ptr = (false, p)) ↔
      ∀ q ∈ live, ¬(q.1 < ptr ∧ ptr < q.1 + blockSize q.2) := by
  have hsize : buddyPoolBlockSize p ptr ≠ 0 ↔ _ := run.inv.buddyPoolBlockSize_ne_zero_iff
  constructor
  · rintro ⟨hzero, -⟩ q hq ⟨hlo, hhi⟩
    exact hsize.2 ⟨q, hq, hlo.le, hhi⟩ hzero
  · intro hout
    have hzero : buddyPoolBlockSize p ptr = 0 := by
      by_contra hne
      obtain ⟨q, hq, hlo, hhi⟩ := hsize.1 hne
      exact hout q hq ⟨lt_of_le_of_ne hlo (hstart q hq), hhi⟩
    exact ⟨hzero, fun opts => (buddyPoolFree_answer opts p ptr).1 hzero⟩

/-- One page of the first arena in the hands of the program. -/
theorem onePage_call : ∃ p, PoolCalls (fun _ => True) p (liveAfter ∅ 262144 4096) ∧
    buddyPoolAlloc (debugOff false) 262144 emptyPool 4096 = .ok (262144, p) := by
  have hpage : 262144 ≠ 0 := by decide
  have hout := emptyPool_alloc false 4096 (by decide) (by decide) hpage rfl
  exact ⟨_, .alloc _ 262144 4096 262144 (.init _) trivial legalArena_emptyPool hout, hout⟩

/-- An address in another block of the arena is refused. -/
theorem bad_free_refused_iff_nextPage : ∃ p, PoolCalls (fun _ => True) p {(262144, 4096)} ∧
    buddyPoolBlockSize p 270336 = 0 := by
  obtain ⟨p, run, -⟩ := onePage_call
  have hlive : liveAfter ∅ 262144 4096 = {(262144, 4096)} := by simp [liveAfter]
  rw [hlive] at run
  refine ⟨p, run, ((bad_free_refused_iff run ?_).2 ?_).1⟩
  · rintro q rfl
    decide
  · rintro q rfl
    decide

/-- The second byte of a live page has a size, and its free is carried out. -/
theorem bad_free_accepted : ∃ p, PoolCalls (fun _ => True) p {(262144, 4096)} ∧
    buddyPoolBlockSize p 262145 ≠ 0 ∧ ∀ opts, (buddyPoolFree opts p 262145).1 = true := by
  obtain ⟨p, run, -⟩ := onePage_call
  have hlive : liveAfter ∅ 262144 4096 = {(262144, 4096)} := by simp [liveAfter]
  rw [hlive] at run
  have hsize : buddyPoolBlockSize p 262145 ≠ 0 :=
    run.inv.buddyPoolBlockSize_ne_zero_iff.2 ⟨_, rfl, by decide, by decide⟩
  exact ⟨p, run, hsize, fun opts => (buddyPoolFree_answer opts p 262145).2 hsize⟩

/-! ### Runs without deferred frees -/

/-- No arena in use has two free halves of one block. -/
def PoolMerged (p : BuddyPool) : Prop := ∀ i, p.Used i → FullyMerged (p.arenas i).buddy none₂

/-- An allocation that merges nothing: no change, or one arena serves the request. -/
theorem buddyPoolAlloc_immediate (hopts : opts.deferredCoalesce = false) (hp : PoolInv p live)
    (hlegal : LegalArena p arena) (hout : buddyPoolAlloc opts arena p size = .ok (ptr, p')) :
    ptr = 0 ∧ p' = p ∨ ptr ≠ 0 ∧ ∃ i base, SlotStep p live i base p' (insert (ptr, size) live) ∧
      inArenaAt base ptr ∧ (p'.arenas i).drained = false ∧
      (PoolMerged p → FullyMerged (p'.arenas i).buddy none₂) := by
  by_cases hsize : size = 0 ∨ size > buddyMaxBlock
  · simp only [buddyPoolAlloc, if_pos hsize] at hout
    cases hout
    exact Or.inl ⟨rfl, rfl⟩
  have hpos : 0 < size := by omega
  have hmax : size ≤ buddyMaxBlock := by omega
  rw [buddyPoolAlloc_eq opts arena hpos hmax] at hout
  simp only [hopts, Bool.false_eq_true, and_false, if_false] at hout
  rcases tryExistingArenas_cases opts.uafActive size poolSlots hp.scanned with
    ⟨hnull, -⟩ | ⟨i, hi, hused, k, h', hg, hok | ⟨-, habort⟩⟩
  · rw [hnull] at hout
    simp only [bind, Except.bind, ne_eq, not_true_eq_false, if_false] at hout
    rcases acquireFreshArena_cases opts.uafActive hlegal hpos hmax with
      ⟨hnone, -⟩ | ⟨i, hi, hfree, hpos', halign, hfits, hfresh, k, h', hg, hok | ⟨-, habort⟩⟩
    · rw [hnone] at hout
      cases hout
      exact Or.inl ⟨rfl, rfl⟩
    · rw [hok] at hout
      cases hout
      have hrun := runInv_init opts.uafActive p.mem hpos' halign hfits
      have hin := ((hrun.grant hg).block_end (Or.inl rfl)).1
      have hstep := install_slotStep hp hi hfree hpos' halign hfits hfresh hg
      have hbase := hrun.inv.arena.pos
      refine Or.inr ⟨?_, i, arena, hstep, hin, ?_, fun _ => ?_⟩
      · unfold indexToNode
        omega
      · simp [BuddyPool.install]
      · have hbuddy : ((p.install i h').arenas i).buddy = h'.buddy := by simp [BuddyPool.install]
        rw [hbuddy]
        exact hg.merged (buddyInit_merged opts.uafActive p.mem arena)
    · rw [habort] at hout
      cases hout
  · have hu : p.Used i := ⟨List.mem_range.1 hi, hused⟩
    have hpos' := (hp.arena i hu).inv.arena.pos
    have hne : indexToNode (p.heap i).buddy k (sizeToLevel size) ≠ 0 := by
      unfold indexToNode
      omega
    rw [hok] at hout
    simp only [bind, Except.bind, hne, ne_eq, not_false_eq_true, if_true] at hout
    cases hout
    have hin := (((hp.arena i hu).grant hg).block_end (Or.inl rfl)).1
    refine Or.inr ⟨hne, i, p.base i, serve_slotStep hp hu hg, hin, ?_, fun hm => ?_⟩
    · simp [BuddyPool.serve, BuddyPool.setSlot, PoolArena.revive]
    · have hbuddy : ((p.serve i h').arenas i).buddy = h'.buddy := congrArg BuddyHeap.buddy serve_heap
      rw [hbuddy]
      exact hg.merged (hm i hu)
  · rw [habort] at hout
    cases hout

/-- The slot a free works on, and its flag afterwards. -/
theorem buddyPoolFree_slot (opts : PoolOptions) (hp : PoolInv p live) {q : ℕ × ℕ} (hq : q ∈ live) :
    ∃ i, p.Used i ∧ inArenaAt (p.base i) q.1 ∧
      SlotStep p live i (p.base i) (buddyPoolFree opts p q.1).2 (live \ {q}) ∧
      (liveAt (p.base i) live = {q} → ((buddyPoolFree opts p q.1).2.arenas i).drained = true ∧
        ((buddyPoolFree opts p q.1).2.arenas i).idleTicks = 0) ∧
      (opts.deferredCoalesce = false → FullyMerged (p.arenas i).buddy none₂ →
        FullyMerged ((buddyPoolFree opts p q.1).2.arenas i).buddy none₂) := by
  obtain ⟨i, h', hf⟩ := hp.freedSlot opts hq
  have heq := hp.buddyPoolFree_eq opts hf.used hq hf.inside
  rw [← hf.heap_eq] at heq
  have hmerged : opts.deferredCoalesce = false → FullyMerged (p.arenas i).buddy none₂ →
      FullyMerged h'.buddy none₂ := by
    intro hopts hm
    obtain ⟨k, hk, ha⟩ := (hp.arena i hf.used).bits.block q ⟨hq, hf.inside⟩
    have hrel := (buddyFree_released opts.uafActive (hp.arena i hf.used).inv ha).2 hm
    rw [hf.heap_eq, hk]
    simpa only [freedHeap, hopts, Bool.false_eq_true, if_false] using hrel
  refine ⟨i, hf.used, hf.inside, ?_⟩
  rw [heq]
  by_cases hlast : liveAt (p.base i) live \ {q} = ∅
  · rw [if_pos (hf.empty_iff.1 hlast)]
    refine ⟨hf.drain_slotStep hp hlast, fun _ => ?_, ?_⟩
    · simp [BuddyPool.drain]
    · simpa [BuddyPool.drain, BuddyPool.setHeap] using hmerged
  · rw [if_neg (mt hf.empty_iff.2 hlast)]
    refine ⟨hf.setHeap_slotStep hp, fun hone => ?_, ?_⟩
    · exact absurd ((hf.sdiff_iff hq).2 hone) hlast
    · simpa [BuddyPool.setHeap] using hmerged

/-- A step on one arena keeps the pool merged when that arena is. -/
theorem SlotStep.poolMerged {live' : Set (ℕ × ℕ)} (hs : SlotStep p live i base p' live')
    (hm : PoolMerged p) (hi : FullyMerged (p'.arenas i).buddy none₂) : PoolMerged p' := by
  intro j hu
  by_cases hj : j = i
  · rw [hj]
    exact hi
  · rw [hs.others j hj]
    exact hm j ((hs.used_iff hj).1 hu)

/-- Immediate coalescing keeps every arena merged. -/
theorem PoolCalls.merged (run : PoolCalls ok p live)
    (himm : ∀ opts, ok opts → opts.deferredCoalesce = false) : PoolMerged p := by
  induction run with
  | init p => exact fun i hu => absurd hu.2 (by simp [buddyPoolInit])
  | alloc opts arena size ptr run hok hlegal hout ih =>
    rcases buddyPoolAlloc_immediate (himm opts hok) run.inv hlegal hout with
      ⟨-, rfl⟩ | ⟨-, i, base, hs, -, -, hmerged⟩
    · exact ih
    · exact hs.poolMerged ih (hmerged ih)
  | free opts q run hok hq ih =>
    obtain ⟨i, hu, -, hs, -, hmerged⟩ := buddyPoolFree_slot opts run.inv hq
    exact hs.poolMerged ih (hmerged (himm opts hok) (ih i hu))
  | sweepIdle n run ih =>
    intro i hu
    obtain ⟨hu', -, hheap, -⟩ := sweepIdle_used n hu
    have hbuddy := congrArg BuddyHeap.buddy hheap
    simp only [BuddyPool.heap] at hbuddy
    rw [hbuddy]
    exact ih i hu'
  | write m' run hm ih => exact ih

/-! ### Failures -/

/-- Every block that could serve the request meets a live block. -/
def NoRoom (p : BuddyPool) (live : Set (ℕ × ℕ)) (size : ℕ) : Prop :=
  ∀ i, p.Used i → ∀ k < 2 ^ (buddyTop - sizeToLevel size),
    ¬ Clear (p.base i) live (sizeToLevel size) k

/-- With the frames kept, a free keeps the lists complete. -/
theorem buddyPoolFree_complete (hdebug : opts.debug = true) (hp : PoolInv p live) {q : ℕ × ℕ}
    (hq : q ∈ live) (hc : PoolComplete p) : PoolComplete (buddyPoolFree opts p q.1).2 := by
  obtain ⟨i, h', hf⟩ := hp.freedSlot opts hq
  have heq := hp.buddyPoolFree_eq opts hf.used hq hf.inside
  rw [← hf.heap_eq] at heq
  have hlists := hf.complete (hc i hf.used)
  rw [heq]
  by_cases hlast : liveAt (p.base i) live \ {q} = ∅
  · rw [if_pos (hf.empty_iff.1 hlast)]
    apply (hf.drain_slotStep hp hlast).complete hp fun j _ hu => hc j hu
    rw [drain_heap, setHeap_heap]
    simp only [BuddyPool.drain, hdebug, if_true]
    exact hlists
  · rw [if_neg (mt hf.empty_iff.2 hlast)]
    apply (hf.setHeap_slotStep hp).complete hp fun j _ hu => hc j hu
    rw [setHeap_heap]
    exact hlists

theorem PoolCalls.complete (run : PoolCalls (fun opts => opts.debug = true) p live) :
    PoolComplete p := by
  induction run with
  | init p => exact fun i hu => absurd hu.2 (by simp [buddyPoolInit])
  | alloc opts arena size ptr run _ hlegal hout ih =>
    exact ((buddyPoolAlloc_spec opts run.inv hlegal size).of_ok hout).complete ih
  | free opts q run hdebug hq ih => exact buddyPoolFree_complete hdebug run.inv hq ih
  | sweepIdle n run ih => exact (sweepIdle_step n run.inv).2 ih
  | write m' run hm ih => exact (write_step run.inv hm).2 ih

/-- Exhausted lists of merged arenas leave no room. -/
theorem PoolInv.noRoom (hp : PoolInv p live) (hc : PoolComplete p) (hm : PoolMerged p)
    (hpos : 1 ≤ size) (hmax : size ≤ buddyMaxBlock)
    (hex : ∀ i, p.Used i → Exhausted (p.heap i).buddy size) : NoRoom p live size := by
  intro i hu k hk hclear
  have hr : RunInv (p.base i) (p.heap i) (liveAt (p.base i) live) := ⟨hp.arena i hu, hc i hu⟩
  apply (hr.exhausted_iff (hm i hu) hpos hmax).1 (hex i hu) k hk
  exact hr.quiet_iff.2 fun q hq => hclear q hq.1

/-- The sweep of the slots: where it has been, the arenas are merged. Without a merge
they were merged before. -/
structure SlotsMerged (slots : List ℕ) (p : BuddyPool) (live : Set (ℕ × ℕ)) (anyMerge : Bool)
    (p' : BuddyPool) : Prop where
  inv : PoolInv p' live
  complete : PoolComplete p'
  used_iff : ∀ i, p'.Used i ↔ p.Used i
  base_eq : ∀ i, p'.base i = p.base i
  others : ∀ i, i ∉ slots → p'.arenas i = p.arenas i
  merged : ∀ i ∈ slots, p.Used i → FullyMerged (p'.arenas i).buddy none₂
  still : anyMerge = false → ∀ i ∈ slots, p.Used i → FullyMerged (p.arenas i).buddy none₂

theorem slotsMerged_skip {rest : List ℕ} {anyMerge : Bool} (hi : ¬ p.Used i)
    (hrest : SlotsMerged rest p live anyMerge p') : SlotsMerged (i :: rest) p live anyMerge p' where
  inv := hrest.inv
  complete := hrest.complete
  used_iff := hrest.used_iff
  base_eq := hrest.base_eq
  others := fun j hj => hrest.others j fun hmem => hj (List.mem_cons_of_mem i hmem)
  merged := by
    intro j hj hu
    rcases List.mem_cons.1 hj with rfl | hj
    · exact absurd hu hi
    · exact hrest.merged j hj hu
  still := by
    intro hnone j hj hu
    rcases List.mem_cons.1 hj with rfl | hj
    · exact absurd hu hi
    · exact hrest.still hnone j hj hu

/-- A sweep without a climb found nothing to merge. -/
theorem Gathered.merged_of_zero {merges : ℕ} (hg : Gathered h 0 merges h')
    (hm : FullyMerged h'.buddy none₂) : FullyMerged h.buddy none₂ := by
  have hpairs := hg.pairs
  rw [Nat.add_zero] at hpairs
  unfold FullyMerged at hm ⊢
  rw [busy_none₂, ← pairSet_eq_empty_iff, ← Finset.card_eq_zero] at hm ⊢
  exact hpairs.symm.trans hm

theorem slotsMerged_cons {rest : List ℕ} {climbs merges : ℕ} {anyMerge : Bool}
    (hp : PoolInv p live) (hu : p.Used i) (hg : Gathered (p.heap i) climbs merges h')
    (hm : FullyMerged h'.buddy none₂) (hrest : SlotsMerged rest (p.setHeap i h') live anyMerge p') :
    SlotsMerged (i :: rest) p live (decide (climbs > 0) || anyMerge) p' := by
  have hstep := setHeap_slotStep hp hu hg.step
  have hused : ∀ j, (p.setHeap i h').Used j ↔ p.Used j := by
    intro j
    by_cases hj : j = i
    · subst hj
      exact iff_of_true ⟨hstep.slot_lt, hstep.used⟩ hu
    · exact hstep.used_iff hj
  have hother : ∀ j, j ≠ i → (p.setHeap i h').arenas j = p.arenas j := hstep.others
  have hself : ((p.setHeap i h').arenas i).buddy = h'.buddy := by simp [BuddyPool.setHeap]
  constructor
  · exact hrest.inv
  · exact hrest.complete
  · exact fun j => (hrest.used_iff j).trans (hused j)
  · intro j
    rw [hrest.base_eq j]
    by_cases hj : j = i
    · rw [hj, hstep.base_eq]
    · exact hstep.base_other hj
  · intro j hj
    obtain ⟨hne, hmem⟩ := not_or.1 (mt List.mem_cons.2 hj)
    rw [hrest.others j hmem, hother j hne]
  · intro j hj huj
    by_cases hmem : j ∈ rest
    · exact hrest.merged j hmem ((hused j).2 huj)
    · obtain rfl := (List.mem_cons.1 hj).resolve_right hmem
      rw [hrest.others j hmem, hself]
      exact hm
  · intro hnone j hj huj
    rw [Bool.or_eq_false_iff, decide_eq_false_iff_not, Nat.not_lt, Nat.le_zero] at hnone
    obtain ⟨rfl, hlater⟩ := hnone
    by_cases hji : j = i
    · subst hji
      exact hg.merged_of_zero hm
    · have hmem := (List.mem_cons.1 hj).resolve_left hji
      rw [← hother j hji]
      exact hrest.still hlater j hmem ((hused j).2 huj)

theorem coalesceArenas_merged (uafActive : Bool) (slots : List ℕ) : ∀ {p : BuddyPool},
    (∀ i ∈ slots, i < buddyPoolMaxArenas) → PoolInv p live → PoolComplete p →
      ∃ anyMerge p', coalesceArenas uafActive slots p = .ok (anyMerge, p') ∧
        SlotsMerged slots p live anyMerge p' := by
  induction slots with
  | nil =>
    intro p _ hp hc
    have hnone : ∀ i ∈ ([] : List ℕ), p.Used i → FullyMerged (p.arenas i).buddy none₂ :=
      fun i hi => absurd hi List.not_mem_nil
    exact ⟨false, p, rfl, hp, hc, fun _ => Iff.rfl, fun _ => rfl, fun _ _ => rfl, hnone,
      fun _ => hnone⟩
  | cons i rest ih =>
    intro p hslots hp hc
    have hlt : ∀ j ∈ rest, j < buddyPoolMaxArenas :=
      fun j hj => hslots j (List.mem_cons_of_mem i hj)
    by_cases hused : (p.arenas i).inUse = true
    · have hu : p.Used i := ⟨hslots i List.mem_cons_self, hused⟩
      obtain ⟨climbs, merges, h', hout, hg, hm⟩ :=
        buddyCoalesceAll_gathers uafActive (hp.arena i hu).inv (hc i hu)
      have hstep := setHeap_slotStep hp hu hg.step
      have hc' : PoolComplete (p.setHeap i h') := by
        apply hstep.complete hp fun j _ huj => hc j huj
        rw [setHeap_heap]
        exact hg.step.complete (hc i hu)
      obtain ⟨anyMerge, p', hrest, hs⟩ := ih hlt (hstep.inv hp) hc'
      refine ⟨_, p', ?_, slotsMerged_cons hp hu hg hm hs⟩
      simp only [coalesceArenas, hused, if_true, hout, hrest]
    · obtain ⟨anyMerge, p', hrest, hs⟩ := ih hlt hp hc
      refine ⟨anyMerge, p', ?_, slotsMerged_skip (fun hu => hused hu.2) hs⟩
      simp only [coalesceArenas, hused]
      exact hrest

/-- A scan that answers the null pointer found every arena exhausted. -/
theorem tryExistingArenas_null (hp : PoolInv p live)
    (hout : tryExistingArenas uafActive size poolSlots p = .ok (0, p')) :
    p' = p ∧ ∀ i, p.Used i → Exhausted (p.heap i).buddy size := by
  rcases tryExistingArenas_cases uafActive size poolSlots hp.scanned with
    ⟨hnull, hall⟩ | ⟨i, hi, hused, k, h', -, hok | ⟨-, habort⟩⟩
  · rw [hnull] at hout
    cases hout
    exact ⟨rfl, fun i hu => hall i (List.mem_range.2 hu.1) hu.2⟩
  · rw [hok] at hout
    have hzero := congrArg Prod.fst (Except.ok.inj hout)
    have hpos := (hp.arena i ⟨List.mem_range.1 hi, hused⟩).inv.arena.pos
    simp only [indexToNode] at hzero
    omega
  · rw [habort] at hout
    cases hout

theorem acquireFreshArena_null (hlegal : LegalArena p arena) (hpos : 0 < size)
    (hmax : size ≤ buddyMaxBlock)
    (hout : acquireFreshArena uafActive size arena p = .ok (0, p')) :
    p' = p ∧ NoFreshArena p arena := by
  rcases acquireFreshArena_cases uafActive hlegal hpos hmax with
    ⟨hnull, hnone⟩ | ⟨i, -, -, hpos', halign, hfits, -, k, h', -, hok | ⟨-, habort⟩⟩
  · rw [hnull] at hout
    cases hout
    exact ⟨rfl, hnone⟩
  · rw [hok] at hout
    have hzero := congrArg Prod.fst (Except.ok.inj hout)
    have hbase := (runInv_init uafActive p.mem hpos' halign hfits).inv.arena.pos
    simp only [indexToNode] at hzero
    omega
  · rw [habort] at hout
    cases hout

/-- The retry fails only when merging leaves no room. -/
theorem coalesceAndRetry_null (hp : PoolInv p live) (hc : PoolComplete p) (hpos : 1 ≤ size)
    (hmax : size ≤ buddyMaxBlock) (hex : ∀ i, p.Used i → Exhausted (p.heap i).buddy size)
    (hout : coalesceAndRetry uafActive size p = .ok (0, p')) : NoRoom p live size := by
  obtain ⟨anyMerge, p₁, hsweep, hs⟩ :=
    coalesceArenas_merged uafActive poolSlots (fun i hi => List.mem_range.1 hi) hp hc
  simp only [coalesceAndRetry, hsweep] at hout
  cases anyMerge with
  | false =>
    have hm : PoolMerged p := fun i hu => hs.still rfl i (List.mem_range.2 hu.1) hu
    exact hp.noRoom hc hm hpos hmax hex
  | true =>
    obtain ⟨-, hex₁⟩ := tryExistingArenas_null hs.inv hout
    have hm : PoolMerged p₁ := fun i hu =>
      hs.merged i (List.mem_range.2 hu.1) ((hs.used_iff i).1 hu)
    have hroom := hs.inv.noRoom hs.complete hm hpos hmax hex₁
    intro i hu
    rw [← hs.base_eq i]
    exact hroom i ((hs.used_iff i).2 hu)

/-- A call that merges on demand, or starts from merged arenas, answers the null pointer
only when no block has room and no fresh arena can be had. -/
theorem null_only_when_full (run : PoolCalls (fun opts => opts.debug = true) p live)
    (opts : PoolOptions) (hmerged : opts.deferredCoalesce = false → PoolMerged p)
    (hlegal : LegalArena p arena) (hpos : 1 ≤ size) (hmax : size ≤ buddyMaxBlock)
    (hout : buddyPoolAlloc opts arena p size = .ok (0, p')) :
    NoRoom p live size ∧ NoFreshArena p arena := by
  rw [buddyPoolAlloc_eq opts arena hpos hmax, bind_ok_iff] at hout
  obtain ⟨⟨obj, p₁⟩, htry, hout⟩ := hout
  by_cases hobj : obj = 0
  · subst hobj
    obtain ⟨rfl, hex⟩ := tryExistingArenas_null run.inv htry
    simp only [ne_eq, not_true_eq_false, if_false] at hout
    rw [bind_ok_iff] at hout
    obtain ⟨⟨obj, p₂⟩, hacquire, hout⟩ := hout
    by_cases hobj : obj = 0
    · subst hobj
      obtain ⟨rfl, hnone⟩ := acquireFreshArena_null hlegal hpos hmax hacquire
      refine ⟨?_, hnone⟩
      cases hdef : opts.deferredCoalesce with
      | false => exact run.inv.noRoom run.complete (hmerged hdef) hpos hmax hex
      | true =>
        simp only [hdef, and_self, if_true] at hout
        exact coalesceAndRetry_null run.inv run.complete hpos hmax hex hout
    · simp only [hobj, false_and, if_false] at hout
      exact absurd (congrArg Prod.fst (Except.ok.inj hout)) hobj
  · simp only [hobj, ne_eq, not_false_eq_true, if_true] at hout
    exact absurd (congrArg Prod.fst (Except.ok.inj hout)) hobj

/-- Giving frames back is off; deferred coalescing is as given. -/
def framesKept (deferred : Bool) : PoolOptions := ⟨false, true, deferred⟩

/-- An allocation does not read the debug option. -/
theorem framesKept_alloc (deferred : Bool) (arena : ℕ) (p : BuddyPool) (size : ℕ) :
    buddyPoolAlloc (framesKept deferred) arena p size =
      buddyPoolAlloc (debugOff deferred) arena p size := rfl

def wholeTaken : BuddyHeap :=
  match buddyAlloc false (buddyInit false (fun _ => 0) 262144) 262144 with
  | .ok out => out.2
  | .error _ => buddyInit false (fun _ => 0) 262144

theorem alloc_null_of_fst {arena : ℕ}
    (h : (buddyPoolAlloc opts arena p size).toOption.map Prod.fst = some 0) :
    ∃ p', buddyPoolAlloc opts arena p size = .ok (0, p') := by
  cases hout : buddyPoolAlloc opts arena p size with
  | error stop =>
    rw [hout] at h
    cases h
  | ok out =>
    rw [hout] at h
    exact ⟨out.2, congrArg Except.ok (Prod.ext (Option.some_inj.1 h) rfl)⟩

/-- The only arena is one live block and the page heap has no other. -/
theorem null_only_when_full_wholeArena : ∃ p',
    buddyPoolAlloc (framesKept false) 0 (emptyPool.install 0 wholeTaken) 4096 = .ok (0, p') ∧
      NoRoom (emptyPool.install 0 wholeTaken) (liveAfter ∅ 262144 262144) 4096 ∧
      NoFreshArena (emptyPool.install 0 wholeTaken) 0 := by
  have hout : buddyPoolAlloc (framesKept false) 262144 emptyPool 262144 =
      .ok (262144, emptyPool.install 0 wholeTaken) := by
    rw [framesKept_alloc]
    exact emptyPool_alloc false 262144 (by decide) (by decide) (by decide) rfl
  have run : ∀ ok : PoolOptions → Prop, ok (framesKept false) →
      PoolCalls ok (emptyPool.install 0 wholeTaken) (liveAfter ∅ 262144 262144) :=
    fun ok hok => .alloc (framesKept false) 262144 262144 262144 (.init _) hok
      legalArena_emptyPool hout
  have hmerged := (run (fun opts => opts.deferredCoalesce = false) rfl).merged fun _ h => h
  have hnull : (buddyPoolAlloc (framesKept false) 0 (emptyPool.install 0 wholeTaken)
      4096).toOption.map Prod.fst = some 0 := by decide +kernel
  obtain ⟨p', hfail⟩ := alloc_null_of_fst hnull
  exact ⟨p', hfail, null_only_when_full (run _ rfl) (framesKept false) (fun _ => hmerged)
    (Or.inl rfl) (by decide) (by decide) hfail⟩

/-- The pool after its first page was given back with deferred coalescing on. -/
def pagePool : BuddyPool :=
  (buddyPoolFree (framesKept true) (emptyPool.install 0 pageTaken) 262144).2

theorem pagePool_run : PoolCalls (fun opts => opts.debug = true) pagePool
    (liveAfter ∅ 262144 4096 \ {(262144, 4096)}) := by
  have hout : buddyPoolAlloc (framesKept true) 262144 emptyPool 4096 =
      .ok (262144, emptyPool.install 0 pageTaken) := by
    rw [framesKept_alloc]
    exact emptyPool_alloc true 4096 (by decide) (by decide) (by decide) rfl
  exact .free (framesKept true) (262144, 4096)
    (.alloc (framesKept true) 262144 4096 262144 (.init _) rfl legalArena_emptyPool hout) rfl
    (Or.inl rfl)

/-- With deferred coalescing switched off again the same pool cannot serve its arena,
though nothing in it is live. -/
theorem null_with_empty_arena : ∃ live p', live = ∅ ∧
    PoolCalls (fun opts => opts.debug = true) pagePool live ∧
    buddyPoolAlloc (framesKept false) 0 pagePool 262144 = .ok (0, p') ∧
    pagePool.Used 0 ∧ ¬ NoRoom pagePool live 262144 := by
  have hnull : (buddyPoolAlloc (framesKept false) 0 pagePool 262144).toOption.map Prod.fst =
      some 0 := by decide +kernel
  have hused : pagePool.Used 0 := ⟨by decide, by decide +kernel⟩
  have hlive : liveAfter ∅ 262144 4096 \ {(262144, 4096)} = ∅ := by simp [liveAfter]
  obtain ⟨p', hout⟩ := alloc_null_of_fst hnull
  refine ⟨_, p', hlive, pagePool_run, hout, hused, fun hroom => ?_⟩
  refine hroom 0 hused 0 (by positivity) ?_
  rw [hlive]
  exact fun q hq => hq.elim

end V8Malloc
