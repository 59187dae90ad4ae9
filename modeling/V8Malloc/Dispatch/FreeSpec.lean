import V8Malloc.Dispatch.AllocSpec

/-!
# Free by the dispatcher

The header at a page base names the backend of every block on the page, so a
free of a block the program holds goes back to the backend that issued it. The
block moves to a bin, to the stack of a CPU or to its backend, and everything
else the program holds keeps its bytes.
-/
namespace V8Malloc

open ByteMemory LinkedList StackLedger Function

variable {s : Sys} {L : Stack → List ℕ} {blk : Blocks} {held : Set ℕ} {g : Grant} {h : Heap}
variable {x cls a n ptr : ℕ} {call : Call}

/-! ### The header of a block -/

/-- The page base of a buddy block lies in the arena of the block, where no magic word is. -/
theorem HeapInv.headerAt_buddy (hh : HeapInv h blk) (ha : blk a = some ⟨n, .buddy⟩) :
    h.headerAt (ptrToMeta a) = none := by
  obtain ⟨live, hpart⟩ := hh.buddy
  obtain ⟨hhead, size, hq, -⟩ := hh.buddy_live hpart ha
  obtain ⟨i, hu, hin⟩ := hpart.1.owned _ hq
  have hbase : inArenaAt (h.buddyPool.base i) (ptrToMeta a) := by
    obtain ⟨c, hc⟩ := hpart.1.aligned hu
    unfold inArenaAt buddyMaxBlock ptrToMeta pageSize at *
    dsimp only at hin
    omega
  have hclean := hh.clean i hu _ (ptrToMeta_dvd a) hbase
  simp [Heap.headerAt, hhead, hclean]

theorem HeapInv.headerAt_slab {arena : ℕ} (hh : HeapInv h blk)
    (ha : blk a = some ⟨n, .slab cls arena⟩) :
    ∃ page, h.headerAt (ptrToMeta a) = some (.slab page) ∧ page.sizeClass = cls ∧
      page.arenaId = arena ∧ page.objectSize = n := by
  obtain ⟨page, hhead, hrest⟩ := hh.slab_header ha
  exact ⟨page, by simp [Heap.headerAt, hhead], hrest⟩

theorem HeapInv.headerAt_large (hh : HeapInv h blk) (ha : blk a = some ⟨n, .large⟩) :
    ∃ block, h.headerAt (ptrToMeta a) = some (.large block) := by
  obtain ⟨block, -, hhead, -⟩ := hh.large_block ha
  exact ⟨block, by simp [Heap.headerAt, hhead]⟩

/-- The usable size of a block is what was granted. -/
theorem HeapInv.dispatchUsableSize_eq (hh : HeapInv h blk) (ha : blk a = some g) :
    dispatchUsableSize h a = g.bytes := by
  obtain ⟨n, backend⟩ := g
  unfold dispatchUsableSize
  rw [if_neg (hh.block_bounds ha).1]
  cases backend with
  | slab cls arena =>
    obtain ⟨page, hheader, -, -, hsize⟩ := hh.headerAt_slab ha
    simp [hheader, hsize]
  | buddy => simp [hh.headerAt_buddy ha, hh.buddyPoolBlockSize_eq ha]
  | large =>
    obtain ⟨block, hheader⟩ := hh.headerAt_large ha
    simp [hheader, hh.largeUsableSize_eq ha]

theorem HeapInv.taken (hh : HeapInv h blk) (ha : blk a = some g) : h.Taken a := by
  obtain ⟨k, b, n, hr, hlo, hhi, -⟩ := (hh.blockKind ha).region
  have hsize := (hh.block_bounds ha).2.1
  unfold linkBytes at hsize
  exact ⟨k, b, n, hr, hlo, by omega⟩

/-! ### Slots -/

/-- The block left the program's hand and nothing else did. -/
def Freed (s : Sys) (blk : Blocks) (held : Set ℕ) (ptr : ℕ) (s' : Sys) : Prop :=
  ∃ L' blk', SysInv s' L' blk' (held \ {ptr}) ∧ Calm L' ∧
    Carried (held \ {ptr}) blk s.heap.mem blk' s'.heap.mem

theorem increment_length (hlt : n + 1 < 2 ^ 16) : increment 16 n = n + 1 := Nat.mod_eq_of_lt hlt

theorem threadCacheFree_top (nodeOverloaded : Bool) (cache : ThreadCache) (m : Mem)
    (hcls : cls < mediumFirstClass) (hx : x ≠ 0) :
    ∃ cache', threadCacheFree nodeOverloaded cache m cls x =
        (decide (cache'.binCount cls ≥ cache'.binCapacity cls), cache',
          store64 m x (cache.binHeads cls)) ∧
      BinChanged cache cls x (increment 16 (cache.binCount cls)) cache' := by
  have hguard : ¬(cls ≥ mediumFirstClass ∨ x = 0) := not_or.2 ⟨Nat.not_le.2 hcls, hx⟩
  simp only [threadCacheFree, if_neg hguard]
  exact ⟨_, rfl, BinChanged.tick ⟨rfl, rfl, rfl, fun hcap => hcap⟩⟩

/-- The slot becomes the top of the bin; a bin that is not reported full has room. -/
theorem SysInv.cacheFree (hs : SysInv s L blk held) (call : Call) (hcls : cls < mediumFirstClass)
    (hc : Calm L) (hx : x ∈ held) (hg : blk x = some (slabGrant cls arenaDefault)) :
    ∃ full s', s.cacheFree call cls x = (full, s') ∧
      SysInv s' (update L (.bin call.thread cls) (x :: L (.bin call.thread cls))) blk
        (held \ {x}) ∧
      Carried (held \ {x}) blk s.heap.mem blk s'.heap.mem ∧
      (full = false → (x :: L (.bin call.thread cls)).length < binCapacityMax) := by
  have hfits : Stack.fits (.bin call.thread cls) (slabGrant cls arenaDefault) := ⟨hcls, rfl⟩
  obtain ⟨hacc, hcarried⟩ := hs.account.push (k := .bin call.thread cls) hx fun g hg' => by
    rw [hg] at hg'
    cases hg'
    exact hfits
  have hlen : increment 16 ((s.caches call.thread).binCount cls) =
      (x :: L (.bin call.thread cls)).length := by
    have hlt := hc call.thread cls
    rw [hs.tally.count, increment_length (by unfold binCapacityMax at hlt; omega),
      List.length_cons]
  obtain ⟨cache', hfree, hb⟩ := threadCacheFree_top call.nodeOverloaded
    (s.caches call.thread) s.heap.mem hcls (hs.account.ne_zero hx)
  rw [hlen] at hb
  simp only [Sys.cacheFree, hfree]
  refine ⟨_, _, rfl, sysInv_setBin hs.tally hb hacc, hcarried, fun hroom => ?_⟩
  have hcount := congrFun hb.count cls
  rw [update_self] at hcount
  have hlt := Nat.not_le.1 (of_decide_eq_false hroom)
  rw [hcount] at hlt
  exact hlt.trans_le (hb.capacity (hs.tally.capacity call.thread) cls)

/-- A full bin sheds a chain, so it ends below the largest capacity again. -/
theorem slabOverflowToL2OrSlab_spec {rest : List ℕ} (hs : SysInv s L blk held)
    (hcls : cls < mediumFirstClass) (hL : L (.bin call.thread cls) = x :: rest)
    (hc : Calm (update L (.bin call.thread cls) rest)) :
    ∃ s' L' blk', slabOverflowToL2OrSlab call s cls = .ok s' ∧ SysInv s' L' blk' held ∧ Calm L' ∧
      Carried held blk s.heap.mem blk' s'.heap.mem := by
  have hrest := hc call.thread cls
  rw [update_self] at hrest
  have hbatch : (s.computeBatch call cls).1 ≠ 0 := by
    have hmin := (computeBatch_bounds s call cls).1
    unfold refillBatchMin at hmin
    omega
  have hlen : (L (.bin call.thread cls)).length < 2 ^ 16 := by
    rw [hL, List.length_cons]
    unfold binCapacityMax at hrest
    omega
  obtain ⟨batch, s₁, hdrain, xs, rest', hxs, hsplit, hh, hcarried⟩ :=
    (hs.computeBatch call cls).drainChain call hcls hbatch hlen (by rw [hL]; exact List.cons_ne_nil _ _)
  -- the chain is not empty, so what stays is no longer than what the bin held before the push
  have hcalm : Calm (update L (.bin call.thread cls) rest') := by
    have hle : rest'.length ≤ rest.length := by
      have heq := congrArg List.length (hL.symm.trans hsplit)
      have hpos := List.length_pos_iff.2 hxs
      rw [List.length_cons, List.length_append] at heq
      omega
    have hcalm' := hc.update call.thread cls (hle.trans_lt hrest)
    rwa [update_idem] at hcalm'
  have hcount : batch.count ≠ 0 := mt hh.chain.count_zero_iff.1 hxs
  simp only [slabOverflowToL2OrSlab, hdrain, if_neg hcount]
  cases overflowStack call s₁.heap batch.head with
  | some cpu =>
    obtain ⟨hpush, hcarried'⟩ := hh.pushBatch call cpu hcls hxs
    refine ⟨_, _, blk, rfl, hpush, ?_, hcarried.trans hcarried'⟩
    exact hcalm.mono fun t c => by simp
  | none =>
    obtain ⟨s', blk', -, hfree, hs', hcarried'⟩ := hh.freeNodes call
    exact ⟨s', _, blk', hfree, hs', hcalm, hcarried.trans hcarried'⟩

theorem slabPoolForArena_eq {arena : ℕ} (harena : arena < arenaCount) :
    slabPoolForArena arena = arena := by
  unfold slabPoolForArena
  split_ifs with hcond
  · rcases hcond with rfl | hge
    · rfl
    · exact absurd harena (Nat.not_lt.2 hge)
  · rfl

theorem freeSlab_spec {page : PageMeta} (call : Call) (hs : SysInv s L blk held) (hc : Calm L)
    (hx : x ∈ held) (hcls : page.sizeClass < mediumFirstClass)
    (harena : page.arenaId < arenaCount)
    (hg : blk x = some (slabGrant page.sizeClass page.arenaId)) :
    ∃ s', freeSlab call s page x = .ok s' ∧ Freed s blk held x s' := by
  unfold freeSlab
  by_cases hcache : call.useTlc ∧ page.arenaId = arenaDefault ∧ call.cacheReady
  · rw [hcache.2.1] at hg
    obtain ⟨full, s₁, hfree, hs₁, hcarried, hroom⟩ := hs.cacheFree call hcls hc hx hg
    simp only [if_pos hcache, hfree]
    cases full with
    | false => exact ⟨s₁, rfl, _, blk, hs₁, hc.update _ _ (hroom rfl), hcarried⟩
    | true =>
      have hcalm : Calm (update (update L (.bin call.thread page.sizeClass)
          (x :: L (.bin call.thread page.sizeClass))) (.bin call.thread page.sizeClass)
          (L (.bin call.thread page.sizeClass))) := by
        rw [update_idem, update_eq_self]
        exact hc
      obtain ⟨s', L', blk', hover, hs', hcalm', hcarried'⟩ :=
        slabOverflowToL2OrSlab_spec hs₁ hcls (update_self _ _ _) hcalm
      exact ⟨s', hover, L', blk', hs', hcalm', hcarried.trans hcarried'⟩
  · obtain ⟨hs', hcarried⟩ := hs.slabFree call hx hg
    rw [if_neg hcache, slabPoolForArena_eq harena]
    exact ⟨_, rfl, L, _, hs', hc, hcarried⟩

/-! ### Buddy blocks -/

/-- A medium bin takes the block or leaves everything as it is. -/
theorem SysInv.mediumFree (hs : SysInv s L blk held) (call : Call) (hc : Calm L) (hx : x ∈ held)
    (hlo : mediumTlcFirstClass ≤ cls) (hhi : cls ≤ mediumTlcLastClass)
    (hg : blk x = some ⟨sizeClassSize cls, .buddy⟩) :
    s.mediumFree call cls x = (true, s) ∨
      ∃ s', s.mediumFree call cls x = (false, s') ∧ Freed s blk held x s' := by
  have hrange : ¬(cls < mediumTlcFirstClass ∨ cls > mediumTlcLastClass) := by omega
  have hidx : mediumTlcFirstClass + (cls - mediumTlcFirstClass) = cls := by omega
  simp only [Sys.mediumFree, threadCacheMediumFree, if_neg (hs.account.ne_zero hx), if_neg hrange]
  by_cases hfull : (s.caches call.thread).mediumBinCount (cls - mediumTlcFirstClass) ≥
      mediumBinCaps.getD (cls - mediumTlcFirstClass) 0
  · left
    rw [if_pos hfull]
    simp [Sys.setMem_self, Sys.setCache_self]
  · right
    have hfits : Stack.fits (.medium call.thread (cls - mediumTlcFirstClass))
        ⟨sizeClassSize cls, .buddy⟩ := by
      refine ⟨hidx.le.trans hhi, ?_⟩
      rw [hidx]
    obtain ⟨hacc, hcarried⟩ := hs.account.push
      (k := .medium call.thread (cls - mediumTlcFirstClass)) hx fun g hg' => by
        rw [hg] at hg'
        cases hg'
        exact hfits
    rw [if_neg hfull]
    refine ⟨_, rfl, _, blk, sysInv_setMedium hs.tally rfl rfl rfl rfl hacc, ?_, hcarried⟩
    exact hc.mono fun t c => by simp

/-- A buddy block whose class has a medium bin is as long as the class. -/
theorem medium_class_size {l : ℕ} (hl : l ≤ buddyTop)
    (hlo : mediumTlcFirstClass ≤ sizeClass (levelToSize l)) :
    sizeClassSize (sizeClass (levelToSize l)) = levelToSize l := by
  unfold buddyTop at hl
  interval_cases l
  · exact absurd hlo (by decide)
  all_goals decide

theorem freeBuddy_spec (hs : SysInv s L blk held) (hc : Calm L) (hx : x ∈ held)
    (hg : blk x = some ⟨n, .buddy⟩) : Freed s blk held x (freeBuddy call s x) := by
  let p := (buddyPoolFree call.poolOptions s.heap.buddyPool x).2
  have hback : Freed s blk held x { s with heap := s.heap.setBuddy p } := by
    obtain ⟨hinv, hpres⟩ := buddyPoolFree_released call.poolOptions hs.account.inv hg
    obtain ⟨hacc, hcarried⟩ := hs.account.release hx hinv hpres
    exact ⟨L, _, ⟨hacc, hs.tally⟩, hc, hcarried⟩
  unfold freeBuddy
  cases hbin : mediumBinClass call s x with
  | none => exact hback
  | some cls =>
    obtain ⟨l, hl, rfl, -⟩ := hs.account.inv.buddy_shape hg
    simp only [mediumBinClass, hs.account.inv.buddyPoolBlockSize_eq hg] at hbin
    split_ifs at hbin with hcond
    cases hbin
    obtain ⟨-, -, -, -, hlo, hhi⟩ := hcond
    have hg' := hg
    rw [← medium_class_size hl hlo] at hg'
    rcases hs.mediumFree call hc hx hlo hhi hg' with hfull | ⟨s', hfree, hfreed⟩
    · simp only [hfull, if_true]
      exact hback
    · simpa only [hfree, Bool.false_eq_true, if_false] using hfreed

/-! ### Every block -/

/-- A free of a block the program holds takes the block and nothing else. -/
theorem dispatchFree_spec (hs : SysInv s L blk held) (hc : Calm L)
    (howns : ∀ y, s.heap.Taken y → call.owns y = true) (hx : ptr ∈ held) :
    Returns (∃ block, s.heap.headerAt (ptrToMeta ptr) = some (.large block) ∧ block.guardBytes ≠ 0)
      (dispatchFree call s ptr) (Freed s blk held ptr) := by
  obtain ⟨⟨n, backend⟩, hg⟩ := hs.account.grant_of_held hx
  have hinv := hs.account.inv
  unfold dispatchFree freeRoute
  rw [if_neg (hs.account.ne_zero hx), howns _ (hinv.taken hg)]
  simp only [Bool.not_true, Bool.false_eq_true, if_false]
  cases backend with
  | slab cls arena =>
    obtain ⟨page, hheader, rfl, rfl, rfl⟩ := hinv.headerAt_slab hg
    obtain ⟨hcls, harena, hsize⟩ := hinv.slab_bounds hg
    rw [hheader]
    rw [hsize] at hg
    obtain ⟨s', hfree, hfreed⟩ := freeSlab_spec call hs hc hx hcls harena hg
    exact Or.inl ⟨s', hfree, hfreed⟩
  | buddy =>
    rw [hinv.headerAt_buddy hg]
    exact returns_ok (freeBuddy_spec hs hc hx hg)
  | large =>
    obtain ⟨block, hheader⟩ := hinv.headerAt_large hg
    have hlarge := largeFree_spec hinv hg
    rw [hheader] at hlarge ⊢
    apply hlarge.bind
    rintro h' ⟨hinv', hpres⟩
    obtain ⟨hacc, hcarried⟩ := hs.account.release hx hinv' hpres
    exact returns_ok ⟨L, _, ⟨hacc, hs.tally⟩, hc, hcarried⟩

end V8Malloc
