import V8Malloc.Slab.Drained

/-!
# Ages of parked pages

Runs of one slab pool with the arrays of its drained cache and a log of what
happened to them. A page is taken back last in, first out; a page that is not
taken again is released by the sweep that its age says.
-/
namespace V8Malloc

open Aging ByteMemory

variable {n arena cls cpu obj page : ℕ} {h h' : Heap} {blk : Blocks} {uafActive : Bool}
variable {c : DrainedCache} {log : List (Aging.Event ℕ)} {src : List ℕ} {entries : List (ℕ × ℕ)}

/-! ### What the calls do to the cache -/

/-- The current page and the partial pages of the class do not serve the request. -/
def requestsFreshPage (uafActive : Bool) (h : Heap) (arena cls : ℕ) : Bool :=
  if cls ≥ mediumFirstClass then false
  else match tryCurrent uafActive h arena cls with
    | .error _ => false
    | .ok out =>
      if out.1 ≠ 0 then false
      else match tryPartials uafActive arena cls (out.2.slabClass arena cls).partials.length out.2 with
        | .error _ => false
        | .ok out => out.1 == 0

/-- The free leaves the page without a used slot. -/
def emptiesPage (uafActive : Bool) (h : Heap) (page obj : ℕ) : Bool :=
  let out := slabFreeDispatch uafActive h.mem page (h.pageAt page) obj
  decide (out.2.1.sizeClass < mediumFirstClass) && out.1

/-- The cache after a request, and the page it took from there. -/
def DrainedCache.request (c : DrainedCache) (fresh : Bool) : DrainedCache × List (Aging.Event ℕ) :=
  if fresh then
    let (page, c) := drainedPop c
    (c, if page = 0 then [] else [.take page])
  else (c, [])

/-- The cache after a free, and the page it parked there. -/
def DrainedCache.release (c : DrainedCache) (emptied : Bool) (page : ℕ) :
    DrainedCache × List (Aging.Event ℕ) :=
  if emptied then
    let (parked, c) := drainedPush c page
    (c, if parked then [.park page] else [])
  else (c, [])

/-- The pool `arena` with the arrays of its drained cache and the log, last event first. -/
inductive DrainedRun (n arena : ℕ) : Heap → Blocks → DrainedCache → List (Aging.Event ℕ) → Prop
  | init (p : BuddyPool) : DrainedRun n arena (Sys.init p).heap (fun _ => none) .init []
  | alloc {h h' : Heap} {blk : Blocks} {c : DrainedCache} {log : List (Aging.Event ℕ)}
      {used rest : List ℕ} {uafActive : Bool} {cpu cls obj : ℕ} : DrainedRun n arena h blk c log →
      LegalPages h (used ++ rest) →
      slabPoolAllocArena uafActive cpu h arena cls (used ++ rest) = .ok (obj, h', rest) →
      DrainedRun n arena h' (grantAfter blk obj (slabGrant cls arena))
        (c.request (requestsFreshPage uafActive h arena cls)).1
        ((c.request (requestsFreshPage uafActive h arena cls)).2 ++ log)
  | free {h : Heap} {blk : Blocks} {c : DrainedCache} {log : List (Aging.Event ℕ)} {cls obj : ℕ}
      (uafActive : Bool) : DrainedRun n arena h blk c log → blk obj = some (slabGrant cls arena) →
      DrainedRun n arena (slabPoolFree uafActive h arena (ptrToMeta obj) obj).2
        (Function.update blk obj none)
        (c.release (emptiesPage uafActive h (ptrToMeta obj) obj) (ptrToMeta obj)).1
        ((c.release (emptiesPage uafActive h (ptrToMeta obj) obj) (ptrToMeta obj)).2 ++ log)
  | sweep {h : Heap} {blk : Blocks} {c : DrainedCache} {log : List (Aging.Event ℕ)} :
      DrainedRun n arena h blk c log →
      DrainedRun n arena (slabPoolSweepIdle h arena n) blk (sweepIdle n c).1
        (.sweep (sweepIdle n c).2 :: log)
  | write {h : Heap} {blk : Blocks} {c : DrainedCache} {log : List (Aging.Event ℕ)} {m' : Mem} :
      DrainedRun n arena h blk c log → Untouched blk h.mem m' →
      DrainedRun n arena { h with mem := m' } blk c log

/-- Without the cache and the log it is a run of the pool. -/
theorem DrainedRun.slabRun (hrun : DrainedRun n arena h blk c log) :
    ∃ taken gone, SlabRun arena h blk taken gone := by
  induction hrun with
  | init p => exact ⟨[], [], .init p⟩
  | alloc _ hlegal hok ih =>
    obtain ⟨taken, gone, hpool⟩ := ih
    exact ⟨_, gone, .allocArena hpool hlegal hok⟩
  | free uafActive _ hlive ih =>
    obtain ⟨taken, gone, hpool⟩ := ih
    exact ⟨taken, _, .free uafActive hpool hlive⟩
  | sweep _ ih =>
    obtain ⟨taken, gone, hpool⟩ := ih
    exact ⟨taken, _, .sweepIdle n hpool⟩
  | write _ hm ih =>
    obtain ⟨taken, gone, hpool⟩ := ih
    exact ⟨taken, gone, .write hpool hm⟩

theorem DrainedRun.inv (hrun : DrainedRun n arena h blk c log) (harena : arena < arenaCount) :
    HeapInv h blk := by
  obtain ⟨taken, gone, hpool⟩ := hrun.slabRun
  exact (hpool.inv harena).inv

/-! ### The list of the heap -/

/-- A fresh page comes from the top of the list if there is one. -/
theorem acquireFreshPage_drained {out : ℕ × Heap × List ℕ}
    (hok : acquireFreshPage uafActive cpu h arena cls src = .ok out) :
    (out.2.1.pools arena).drained = (h.pools arena).drained.tail ∧
      ∀ entry entries, (h.pools arena).drained = entry :: entries → entry.1 ≠ 0 →
        (out.2.1.slabClass arena cls).current = entry.1 ∧ out.2.2 = src := by
  have htail : ((acquireSlabPage h arena src).2.1.pools arena).drained =
      (h.pools arena).drained.tail := by
    unfold acquireSlabPage
    cases hdrained : (h.pools arena).drained with
    | nil => simp [hdrained]
    | cons entry rest => simp [Heap.setDrained]
  have htop : ∀ entry entries, (h.pools arena).drained = entry :: entries →
      (acquireSlabPage h arena src).1 = entry.1 ∧ (acquireSlabPage h arena src).2.2 = src := by
    intro entry entries hdrained
    simp [acquireSlabPage, hdrained]
  simp only [acquireFreshPage] at hok
  generalize acquireSlabPage h arena src = acquired at *
  split_ifs at hok with h0
  · cases hok
    exact ⟨htail, fun entry entries hdrained hne => absurd ((htop entry entries hdrained).1 ▸ h0) hne⟩
  · obtain ⟨alloc, -, hok⟩ := bind_ok_iff.1 hok
    cases hok
    refine ⟨?_, fun entry entries hdrained hne => ?_⟩
    · rw [← htail]
      exact setClass_drained arena
    · obtain ⟨hpage, hsrc⟩ := htop entry entries hdrained
      refine ⟨?_, hsrc⟩
      rw [← hpage]
      exact congrArg SlabClass.current ((setClass_slabClass arena cls).trans (if_pos ⟨rfl, rfl⟩))

/-- A request takes the top entry if it needs a fresh page, and none otherwise. -/
theorem slabPoolAllocArena_drained {out : ℕ × Heap × List ℕ} (hh : HeapInv h blk)
    (harena : arena < arenaCount)
    (hok : slabPoolAllocArena uafActive cpu h arena cls src = .ok out) :
    (requestsFreshPage uafActive h arena cls = false →
      (out.2.1.pools arena).drained = (h.pools arena).drained) ∧
    (requestsFreshPage uafActive h arena cls = true →
      (out.2.1.pools arena).drained = (h.pools arena).drained.tail ∧
      ∀ entry entries, (h.pools arena).drained = entry :: entries → entry.1 ≠ 0 →
        (out.2.1.slabClass arena cls).current = entry.1 ∧ out.2.2 = src) := by
  unfold slabPoolAllocArena at hok
  unfold requestsFreshPage
  split_ifs at hok ⊢ with hbig
  · cases hok
    simp
  · unfold slabPoolDraw at hok
    obtain ⟨out₁, hcurrent, hok⟩ := bind_ok_iff.1 hok
    obtain ⟨hdrawn, hsteady₁, -⟩ :=
      (tryCurrent_spec uafActive hh harena (Nat.lt_of_not_le hbig)).of_ok hcurrent
    simp only [hcurrent]
    split_ifs at hok ⊢ with h0
    · cases hok
      simpa using hsteady₁.drained arena
    · obtain ⟨out₂, hpartials, hok⟩ := bind_ok_iff.1 hok
      have hinv := hdrawn.inv
      rw [not_not.1 h0, grantAfter, if_pos rfl] at hinv
      obtain ⟨-, hsteady₂, -⟩ :=
        (tryPartials_spec uafActive hinv harena (Nat.lt_of_not_le hbig)).of_ok hpartials
      have hdrained₂ := (hsteady₁.trans hsteady₂).drained arena
      simp only [hpartials]
      split_ifs at hok with h0'
      · cases hok
        simpa [h0'] using hdrained₂
      · rw [not_not] at h0'
        have hfresh := acquireFreshPage_drained hok
        rw [hdrained₂] at hfresh
        simpa [h0'] using hfresh

theorem releaseSlabPage_drained : ((releaseSlabPage h arena page).pools arena).drained =
    if (h.pools arena).drained.length < slabDrainedCap then (page, 0) :: (h.pools arena).drained
    else (h.pools arena).drained := by
  simp only [releaseSlabPage]
  split_ifs with hroom
  · simp [Heap.setDrained]
  · rfl

/-- A free parks the page it empties if there is room. -/
theorem slabPoolFree_drained (uafActive : Bool) (h : Heap) (arena page obj : ℕ) :
    ((slabPoolFree uafActive h arena page obj).2.pools arena).drained =
      if emptiesPage uafActive h page obj = true ∧
        (h.pools arena).drained.length < slabDrainedCap
      then (page, 0) :: (h.pools arena).drained else (h.pools arena).drained := by
  simp only [slabPoolFree, emptiesPage]
  by_cases hbig : (slabFreeDispatch uafActive h.mem page (h.pageAt page) obj).2.1.sizeClass ≥
      mediumFirstClass
  · simp [hbig, setPage_pools]
  · by_cases hempty : (slabFreeDispatch uafActive h.mem page (h.pageAt page) obj).1 = true
    · simp [hbig, Nat.not_le.1 hbig, hempty, releaseSlabPage_drained, setClass_drained,
        setPage_pools]
    · simp only [hbig, if_false, hempty, Bool.and_false, Bool.false_eq_true, false_and]
      split_ifs
      · rw [setClass_drained, setPage_pools]
      · rw [setPage_pools]

/-! ### The invariant of a run -/

structure DrainedInv (n arena : ℕ) (h : Heap) (c : DrainedCache) (log : List (Aging.Event ℕ)) :
    Prop where
  holds : Holds c (h.pools arena).drained
  log_eq : (h.pools arena).drained = waiting log
  bound : (waiting log).length ≤ slabDrainedCap
  young : ∀ entry ∈ waiting log, entry.2 < n
  lawful : Lawful n log

/-- Parked pages are distinct and none of them is null. -/
theorem HeapInv.drained_ne_zero {entry : ℕ × ℕ} (hh : HeapInv h blk) (harena : arena < arenaCount)
    (hentry : entry ∈ (h.pools arena).drained) : entry.1 ≠ 0 := by
  have hpos := (hh.layout.fits _ _ _ (.parked harena hentry)).2.2.1
  exact Nat.pos_iff_ne_zero.1 hpos

theorem drainedInv_init (p : BuddyPool) : DrainedInv n arena (Sys.init p).heap .init [] :=
  ⟨holds_init, rfl, Nat.zero_le _, nofun, lawful_nil n⟩

theorem DrainedInv.alloc {out : ℕ × Heap × List ℕ} (hi : DrainedInv n arena h c log)
    (hh : HeapInv h blk) (harena : arena < arenaCount)
    (hok : slabPoolAllocArena uafActive cpu h arena cls src = .ok out) :
    DrainedInv n arena out.2.1 (c.request (requestsFreshPage uafActive h arena cls)).1
      ((c.request (requestsFreshPage uafActive h arena cls)).2 ++ log) := by
  obtain ⟨hserved, hfresh⟩ := slabPoolAllocArena_drained hh harena hok
  unfold DrainedCache.request
  split_ifs with hrequest
  · obtain ⟨htail, -⟩ := hfresh hrequest
    have hholds := hi.holds
    have hlog := hi.log_eq
    have hnodup := hh.layout.drained arena harena
    cases hdrained : (h.pools arena).drained with
    | nil =>
      rw [hdrained] at htail hholds hlog
      rw [hholds.pop_nil]
      exact ⟨htail.symm ▸ hholds, htail.trans hlog, hi.bound, hi.young, hi.lawful⟩
    | cons entry entries =>
      have hne := hh.drained_ne_zero harena (hdrained ▸ List.mem_cons_self : entry ∈ _)
      rw [hdrained] at htail hholds hlog hnodup
      obtain ⟨hpage, hholds'⟩ := hholds.pop
      have hwaiting : waiting (.take entry.1 :: log) = entries := by
        simp only [waiting, ← hlog]
        exact filter_ne_head hnodup
      simp only [hpage, if_neg hne, List.singleton_append]
      refine ⟨htail.symm ▸ hholds', htail.trans hwaiting.symm, ?_, ?_, ?_⟩
      · have hbound := hi.bound
        rw [← hlog, List.length_cons] at hbound
        rw [hwaiting]
        omega
      · rw [hwaiting]
        exact fun e he => hi.young e (hlog ▸ List.mem_cons_of_mem entry he)
      · apply hi.lawful.cons
        · rw [hwaiting]
          exact (List.nodup_cons.1 hnodup).2
        · intro item hitem
          cases hitem
          exact ⟨entry.2, by rw [← hlog]; rfl⟩
        · intro items hitems
          cases hitems
  · have hsame := hserved (by simpa using hrequest)
    exact ⟨hsame.symm ▸ hi.holds, hsame.trans hi.log_eq, hi.bound, hi.young, hi.lawful⟩

theorem DrainedInv.free (hi : DrainedInv n arena h c log) (hn : 1 ≤ n)
    (hh : HeapInv (slabPoolFree uafActive h arena page obj).2 blk) (harena : arena < arenaCount) :
    DrainedInv n arena (slabPoolFree uafActive h arena page obj).2
      (c.release (emptiesPage uafActive h page obj) page).1
      ((c.release (emptiesPage uafActive h page obj) page).2 ++ log) := by
  have hnodup := hh.layout.drained arena harena
  have hdrained := slabPoolFree_drained uafActive h arena page obj
  unfold DrainedCache.release
  by_cases hempty : emptiesPage uafActive h page obj = true
  · by_cases hroom : (h.pools arena).drained.length < slabDrainedCap
    · rw [if_pos ⟨hempty, hroom⟩] at hdrained
      rw [hdrained] at hnodup
      obtain ⟨hparked, hholds⟩ := hi.holds.push hroom page
      have hpushed := congrArg Prod.fst hparked
      dsimp only at hpushed
      simp only [if_pos hempty, hpushed, if_true, List.singleton_append]
      rw [hi.log_eq] at hroom
      refine ⟨hdrained.symm ▸ hholds, by rw [hdrained, hi.log_eq]; rfl, hroom, ?_, ?_⟩
      · intro entry hentry
        rcases List.mem_cons.1 hentry with rfl | hentry
        · exact hn
        · exact hi.young entry hentry
      · apply hi.lawful.cons
        · rw [hi.log_eq] at hnodup
          exact hnodup
        · intro item hitem
          cases hitem
        · intro items hitems
          cases hitems
    · rw [if_neg fun hboth => hroom hboth.2] at hdrained
      simp only [if_pos hempty, hi.holds.push_full hroom, Bool.false_eq_true, if_false,
        List.nil_append]
      exact ⟨hdrained.symm ▸ hi.holds, hdrained.trans hi.log_eq, hi.bound, hi.young, hi.lawful⟩
  · rw [if_neg fun hboth => hempty hboth.1] at hdrained
    rw [if_neg hempty]
    exact ⟨hdrained.symm ▸ hi.holds, hdrained.trans hi.log_eq, hi.bound, hi.young, hi.lawful⟩

/-- Below the limit of the counter a tick is a step of age. -/
theorem drainedTick_eq {entry : ℕ × ℕ} (hage : entry.2 < idleTicksMax) :
    drainedTick n entry = mature n entry := by
  simp only [drainedTick, mature, if_pos hage]

theorem DrainedInv.sweep (hi : DrainedInv n arena h c log) (hn : n ≤ idleTicksMax)
    (hh : HeapInv h blk) (harena : arena < arenaCount) :
    DrainedInv n arena (slabPoolSweepIdle h arena n) (sweepIdle n c).1
      (.sweep (sweepIdle n c).2 :: log) := by
  obtain ⟨hholds, hreleased⟩ := hi.holds.sweep n
  have hnodup := hh.layout.drained arena harena
  rw [hi.log_eq] at hholds hreleased hnodup
  have htick : ∀ entry ∈ waiting log, drainedTick n entry = mature n entry :=
    fun entry hentry => drainedTick_eq ((hi.young entry hentry).trans_le hn)
  have hfilter : (waiting log).filter (fun entry => (drainedTick n entry).isNone) =
      (waiting log).filter fun entry => (mature n entry).isNone :=
    List.filter_congr fun entry hentry => by rw [htick entry hentry]
  rw [hfilter] at hreleased
  rw [List.filterMap_congr htick] at hholds
  have hmem : ∀ entry ∈ waiting log, entry.1 ∈ (sweepIdle n c).2 ↔ n ≤ entry.2 + 1 := by
    intro entry hentry
    rw [hreleased, List.mem_reverse]
    exact mem_matured hnodup hentry
  have hwaiting : waiting (.sweep (sweepIdle n c).2 :: log) = (waiting log).filterMap (mature n) :=
    map_filter_eq_filterMap hmem
  have hdrained : ((slabPoolSweepIdle h arena n).pools arena).drained =
      (waiting log).filterMap (mature n) := by
    rw [slabPoolSweepIdle, setDrained_drained, if_pos rfl, hi.log_eq, List.filterMap_congr htick]
  refine ⟨hdrained.symm ▸ hholds, hdrained.trans hwaiting.symm, ?_, ?_, ?_⟩
  · rw [hwaiting]
    exact (List.length_filterMap_le _ _).trans hi.bound
  · rw [hwaiting]
    intro entry hentry
    obtain ⟨old, -, hold⟩ := List.mem_filterMap.1 hentry
    unfold mature at hold
    split_ifs at hold with hle
    cases hold
    omega
  · apply hi.lawful.cons
    · have hpages : (waiting (.sweep (sweepIdle n c).2 :: log)).map Prod.fst =
          ((waiting log).filter fun entry => entry.1 ∉ (sweepIdle n c).2).map Prod.fst := by
        simp [waiting, Function.comp_def]
      rw [hpages]
      exact (List.filter_sublist.map Prod.fst).nodup hnodup
    · intro item hitem
      cases hitem
    · intro items hitems item
      cases hitems
      constructor
      · intro hin
        have hentry := hin
        rw [hreleased, List.mem_reverse, List.mem_map] at hentry
        obtain ⟨entry, hentry, rfl⟩ := hentry
        have hwaits := (List.mem_filter.1 hentry).1
        have hle := (hmem entry hwaits).1 hin
        have hlt := hi.young entry hwaits
        exact ⟨entry.2, hwaits, by omega⟩
      · rintro ⟨age, hwaits, rfl⟩
        exact (hmem (item, age) hwaits).2 le_rfl

theorem DrainedRun.drainedInv (hrun : DrainedRun n arena h blk c log) (harena : arena < arenaCount)
    (hn : 1 ≤ n) (hmax : n ≤ idleTicksMax) : DrainedInv n arena h c log := by
  induction hrun with
  | init p => exact drainedInv_init p
  | alloc hprev _ hok ih => exact ih.alloc (hprev.inv harena) harena hok
  | free uafActive hprev hlive ih =>
    exact ih.free hn ((hprev.free uafActive hlive).inv harena) harena
  | sweep hprev ih => exact ih.sweep hmax (hprev.inv harena) harena
  | write _ _ ih => exact ⟨ih.holds, ih.log_eq, ih.bound, ih.young, ih.lawful⟩

/-! ### Refills -/

/-- The rounds of a refill are requests, each followed by a write into the object it gave. -/
theorem DrainedRun.batchLoop (harena : arena < arenaCount) (hcls : cls < mediumFirstClass)
    (left : ℕ) : ∀ {h h' : Heap} {blk : Blocks} {c : DrainedCache} {log : List (Aging.Event ℕ)}
      {src rest : List ℕ} {batch batch' : Batch}, DrainedRun n arena h blk c log →
      LegalPages h src →
      slabPoolBatchLoop uafActive cpu arena cls left batch h src = .ok (batch', h', rest) →
      ∃ blk' c' log', DrainedRun n arena h' blk' c' log' := by
  induction left with
  | zero =>
    intro h h' blk c log src rest batch batch' hrun _ hok
    cases hok
    exact ⟨blk, c, log, hrun⟩
  | succ left ih =>
    intro h h' blk c log src rest batch batch' hrun hlegal hok
    simp only [slabPoolBatchLoop, bind_ok_iff] at hok
    obtain ⟨out, hdraw, hok⟩ := hok
    obtain ⟨taken, gone, hpool⟩ := hrun.slabRun
    have hinv := hpool.inv harena
    have hdrawn := (slabPoolDraw_spec uafActive cpu hinv.inv harena hcls hlegal).of_ok hdraw
    obtain ⟨used, rfl, -⟩ := hdrawn.drew.grown
    have halloc : slabPoolAllocArena uafActive cpu h arena cls (used ++ out.2.2) = .ok out := by
      rw [slabPoolAllocArena, if_neg (Nat.not_le.2 hcls)]
      exact hdraw
    have hrun' := hrun.alloc hlegal halloc
    by_cases h0 : out.1 = 0
    · rw [if_pos h0] at hok
      cases hok
      exact ⟨_, _, _, hrun'⟩
    · rw [if_neg h0] at hok
      have hlink : Untouched (grantAfter blk out.1 (slabGrant cls arena)) out.2.1.mem
          (store64 out.2.1.mem out.1 batch.head) := by
        intro x hx
        have hlive : grantAfter blk out.1 (slabGrant cls arena) out.1 =
            some (slabGrant cls arena) := by
          rw [grantAfter, if_neg h0]
          exact Function.update_self _ _ _
        have hout := hx out.1 _ hlive
        have hsize := (hdrawn.inv.block_bounds hlive).2.1
        unfold linkBytes at hsize
        exact sameOutside_store64 _ _ _ x (by omega)
      exact ih (hrun'.write hlink) (hdrawn.drew.legal.mono fun _ hx => taken_setMem _ _ hx) hok

theorem DrainedRun.allocBatch {max : ℕ} {batch : Batch} {rest : List ℕ} (harena : arena < arenaCount)
    (hrun : DrainedRun n arena h blk c log) (hlegal : LegalPages h src)
    (hok : slabPoolAllocBatch uafActive cpu h arena cls max src = .ok (batch, h', rest)) :
    ∃ blk' c' log', DrainedRun n arena h' blk' c' log' := by
  unfold slabPoolAllocBatch at hok
  split_ifs at hok with hnone
  · cases hok
    exact ⟨blk, c, log, hrun⟩
  · exact DrainedRun.batchLoop harena (by omega) max hrun hlegal hok

/-! ### The result -/

/-- What holds of the arrays, given the log. -/
structure DrainedAges (n arena : ℕ) (h : Heap) (c : DrainedCache) (log : List (Aging.Event ℕ)) :
    Prop where
  bound : c.drainedCount ≤ slabDrainedCap
  nonnull : ∀ i < c.drainedCount, c.drained i ≠ 0
  distinct : ∀ i < c.drainedCount, ∀ j < c.drainedCount, c.drained i = c.drained j → i = j
  order : (List.range c.drainedCount).map c.drained = ((waiting log).map Prod.fst).reverse
  null : ∀ i, c.drainedCount ≤ i → c.drained i = 0
  fresh : ∀ uafActive cpu cls src out,
    slabPoolAllocArena uafActive cpu h arena cls src = .ok out →
    requestsFreshPage uafActive h arena cls = true → 0 < c.drainedCount →
    (out.2.1.slabClass arena cls).current = c.drained (c.drainedCount - 1) ∧ out.2.2 = src
  taken : ∀ later page earlier, log = later ++ .take page :: earlier →
    ∃ age, (waiting earlier).head? = some (page, age)
  released : ∀ later pages between page earlier,
    log = later ++ .sweep pages :: (between ++ .park page :: earlier) →
    .park page ∉ between → .take page ∉ between →
    (page ∈ pages ↔ between.countP Aging.Event.isSweep + 1 = n)
  released_parked : ∀ later pages earlier, log = later ++ .sweep pages :: earlier →
    ∀ page ∈ pages, ∃ age, (page, age) ∈ waiting earlier

theorem Holds.drained_eq (hc : Holds c entries) (i : ℕ) :
    c.drained i = (entries.reverse.getD i (0, 0)).1 := congrArg Prod.fst (hc.cells i)

theorem Holds.drained_getElem (hc : Holds c entries) {i : ℕ} (hi : i < entries.reverse.length) :
    c.drained i = (entries.reverse[i]).1 := by
  rw [hc.drained_eq, List.getD_eq_getElem _ _ hi]

/-- In every run the parked pages stand in the order in which they were parked, the page parked
last is taken first, and a page that is not taken again is released by its `n`-th sweep. -/
theorem drained_pages_age (hn : 1 ≤ n) (hmax : n ≤ idleTicksMax) (harena : arena < arenaCount)
    (hrun : DrainedRun n arena h blk c log) : DrainedAges n arena h c log := by
  have hh := hrun.inv harena
  have hi := hrun.drainedInv harena hn hmax
  have hlen : ∀ {i}, i < c.drainedCount → i < (h.pools arena).drained.reverse.length := by
    intro i hlt
    rw [hi.holds.count] at hlt
    simpa using hlt
  refine ⟨?_, ?_, ?_, ?_, ?_, ?_, hi.lawful.taken, ?_, ?_⟩
  · rw [hi.holds.count, hi.log_eq]
    exact hi.bound
  · intro i hlt
    rw [hi.holds.drained_getElem (hlen hlt)]
    exact hh.drained_ne_zero harena (List.mem_reverse.1 (List.getElem_mem _))
  · intro i hi' j hj heq
    rw [hi.holds.drained_getElem (hlen hi'), hi.holds.drained_getElem (hlen hj)] at heq
    have hnodup : ((h.pools arena).drained.reverse.map Prod.fst).Nodup := by
      rw [List.map_reverse, List.nodup_reverse]
      exact hh.layout.drained arena harena
    apply (List.getElem?_inj (by simpa using hlen hi') hnodup).1
    rw [List.getElem?_map, List.getElem?_map, List.getElem?_eq_getElem (hlen hi'),
      List.getElem?_eq_getElem (hlen hj), Option.map_some, Option.map_some, heq]
  · rw [← List.map_reverse, ← hi.log_eq, ← hi.holds.span_eq]
    simp [DrainedCache.span, List.range_eq_range', DrainedCache.cell]
  · intro i hle
    rw [hi.holds.drained_eq, List.getD_eq_default _ _ (by rw [hi.holds.count] at hle; simpa using hle)]
  · intro uafActive cpu cls src out hok hrequest hpos
    obtain ⟨-, htop⟩ := (slabPoolAllocArena_drained hh harena hok).2 hrequest
    have hholds := hi.holds
    cases hdrained : (h.pools arena).drained with
    | nil =>
      rw [hdrained] at hholds
      exact absurd hholds.count hpos.ne'
    | cons entry entries =>
      have hne := hh.drained_ne_zero harena (hdrained ▸ List.mem_cons_self : entry ∈ _)
      rw [hdrained] at hholds
      have hpop := hholds.pop.1
      simp only [drainedPop, if_neg hpos.ne'] at hpop
      rw [hpop]
      exact htop entry entries hdrained hne
  · intro later pages between page earlier hlog hpark htake
    subst hlog
    exact hi.lawful.released_iff hn hpark htake
  · intro later pages earlier hlog page hpage
    obtain ⟨age, hage, -⟩ := (hi.lawful.released later pages earlier hlog page).1 hpage
    exact ⟨age, hage⟩

/-- One page is taken from the page source, emptied and parked, and released by the second sweep. -/
theorem parkedPage_run : ∃ h blk c, DrainedRun 2 arenaDefault h blk c
    [.sweep [pageSize], .sweep [], .park pageSize] := by
  have hanswer : (slabPoolAllocArena false 0 (Sys.init emptyPool).heap arenaDefault 2
      ([pageSize] ++ [])).toOption.map (fun out =>
        (out.1, out.2.2, emptiesPage false out.2.1 pageSize 67584)) =
      some (67584, [], true) := by
    decide +kernel
  have hrequest : requestsFreshPage false (Sys.init emptyPool).heap arenaDefault 2 = true := by
    decide +kernel
  cases hok : slabPoolAllocArena false 0 (Sys.init emptyPool).heap arenaDefault 2
      ([pageSize] ++ []) with
  | error stop =>
    rw [hok] at hanswer
    cases hanswer
  | ok out =>
    obtain ⟨obj, h, rest⟩ := out
    rw [hok] at hanswer
    obtain ⟨rfl, rfl, hempty⟩ : obj = 67584 ∧ rest = [] ∧
        emptiesPage false h pageSize 67584 = true := by
      simpa [Except.toOption] using hanswer
    have hlegal : LegalPages (Sys.init emptyPool).heap ([pageSize] ++ []) :=
      legal_firstCall.pages
    have halloc := (DrainedRun.init emptyPool : DrainedRun 2 arenaDefault _ _ _ _).alloc hlegal hok
    rw [hrequest] at halloc
    have hlive : grantAfter (fun _ => none) 67584 (slabGrant 2 arenaDefault) 67584 =
        some (slabGrant 2 arenaDefault) := by simp [grantAfter]
    have hpage : ptrToMeta 67584 = pageSize := by decide
    have hfree := halloc.free false hlive
    rw [hpage, hempty] at hfree
    have hrun := hfree.sweep.sweep
    exact ⟨_, _, _, hrun⟩

theorem drained_pages_age_first : ∃ h c, DrainedAges 2 arenaDefault h c
    [.sweep [pageSize], .sweep [], .park pageSize] := by
  obtain ⟨h, blk, c, hrun⟩ := parkedPage_run
  exact ⟨h, c, drained_pages_age (by decide) (by decide) (by decide) hrun⟩

end V8Malloc
