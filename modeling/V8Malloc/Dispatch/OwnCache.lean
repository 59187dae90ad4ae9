import V8Malloc.Dispatch.Background

/-!
# What a call leaves alone

Whatever is given back, no large header is new. A free works on the cache of its
own thread only, and a thread without a cache leaves all of them alone.
-/
namespace V8Malloc

open ByteMemory Function

variable {s s' s'' : Sys} {h h' : Heap} {call : Call} {uafActive : Bool}
variable {ptr cls arena obj left : ℕ}

/-- No large header is new, and the caches of the other threads are as they were. -/
structure Confined (call : Call) (s s' : Sys) : Prop where
  large : LargeKept s.heap s'.heap
  own : OwnOnly call s s'

namespace Confined

theorem of_eq (hkept : LargeKept s.heap s'.heap) (heq : s'.caches = s.caches) :
    Confined call s s' := ⟨hkept, .of_eq heq⟩

theorem refl (call : Call) (s : Sys) : Confined call s s := of_eq (.refl _) rfl

theorem trans (h : Confined call s s') (h' : Confined call s' s'') : Confined call s s'' :=
  ⟨h.large.trans h'.large, h.own.trans h'.own⟩

end Confined

/-! ### The slab pool -/

theorem releaseSlabPage_kept (h : Heap) (arena page : ℕ) :
    LargeKept h (releaseSlabPage h arena page) := by
  unfold releaseSlabPage
  dsimp only
  split_ifs
  · exact .of_update rfl (by simp)
  · exact .of_update rfl (by simp)

theorem slabPoolFree_kept (uafActive : Bool) (h : Heap) (arena page obj : ℕ) :
    LargeKept h (slabPoolFree uafActive h arena page obj).2 := by
  unfold slabPoolFree
  dsimp only
  have hset := LargeKept.setPage h page
    (slabFreeDispatch uafActive h.mem page (h.pageAt page) obj).2.1
    (slabFreeDispatch uafActive h.mem page (h.pageAt page) obj).2.2
  split_ifs
  · exact hset
  · exact (hset.trans (.of_heads rfl)).trans (releaseSlabPage_kept _ arena page)
  · exact hset.trans (.of_heads rfl)
  · exact hset

/-! ### The caches -/

theorem flushHalfLoop_kept : ∀ {freed : ℕ} {cache : ThreadCache} {h : Heap},
    LargeKept h (flushHalfLoop uafActive arena cls left freed cache h).2.2 := by
  induction left with
  | zero => exact fun {_ _ h} => .refl h
  | succ left ih =>
    intro freed cache h
    unfold flushHalfLoop
    dsimp only
    split_ifs
    · exact .refl h
    · exact (slabPoolFree_kept uafActive h arena _ _).trans ih

theorem threadCacheFlushHalf_kept (uafActive : Bool) (cache : ThreadCache) (h : Heap)
    (arena cls : ℕ) : LargeKept h (threadCacheFlushHalf uafActive cache h arena cls).2.2 := by
  unfold threadCacheFlushHalf
  split_ifs
  · exact .refl h
  · exact flushHalfLoop_kept

theorem drainBinLoop_kept {out : ℕ × ThreadCache × Heap} :
    ∀ {total : ℕ} {cache : ThreadCache} {h : Heap},
      drainBinLoop uafActive arena cls left total cache h = .ok out → LargeKept h out.2.2 := by
  induction left with
  | zero =>
    intro total cache h hok
    unfold drainBinLoop at hok
    split_ifs at hok
    cases hok
    exact .refl h
  | succ left ih =>
    intro total cache h hok
    unfold drainBinLoop at hok
    split_ifs at hok
    · cases hok
      exact .refl h
    · exact (threadCacheFlushHalf_kept uafActive cache h arena cls).trans (ih hok)

/-- A fold in which every round keeps the large headers. -/
theorem foldlM_kept {α β : Type} {f : β → α → Except Stop β} (heap : β → Heap)
    (hstep : ∀ b x b', f b x = .ok b' → LargeKept (heap b) (heap b')) (xs : List α) :
    ∀ {b b' : β}, xs.foldlM f b = .ok b' → LargeKept (heap b) (heap b') := by
  induction xs with
  | nil =>
    intro b b' hok
    cases hok
    exact .refl _
  | cons x xs ih =>
    intro b b' hok
    rw [List.foldlM_cons, bind_ok_iff] at hok
    obtain ⟨b₁, hfirst, hrest⟩ := hok
    exact (hstep b x b₁ hfirst).trans (ih hrest)

theorem freeMediumChain_kept {opts : PoolOptions} {out : ℕ × Heap} :
    ∀ {total : ℕ} {h : Heap} {head : ℕ},
      freeMediumChain opts left total h head = .ok out → LargeKept h out.2 := by
  induction left with
  | zero => exact fun hok => nomatch hok
  | succ left ih =>
    intro total h head hok
    unfold freeMediumChain at hok
    dsimp only at hok
    split_ifs at hok
    · cases hok
      exact .refl h
    · have hrest := ih hok
      exact hrest

theorem slabPoolsSweepIdle_still (h : Heap) (maxIdleTicks : ℕ) :
    Still h (slabPoolsSweepIdle h maxIdleTicks) := by
  unfold slabPoolsSweepIdle
  induction List.range arenaCount generalizing h with
  | nil => exact .refl h
  | cons arena arenas ih =>
    have hsweep : Still h (slabPoolSweepIdle h arena maxIdleTicks) := by
      refine ⟨rfl, ?_, .of_heads rfl⟩
      rintro x ⟨k, b, n, hr, hin⟩
      refine ⟨k, b, n, hr.setDrained fun e he => ?_, hin⟩
      obtain ⟨e', he', htick⟩ := List.mem_filterMap.1 he
      exact ⟨e'.2, by rw [drainedTick_fst htick]; exact he'⟩
    exact hsweep.trans (ih _)

theorem dispatchBgTick_kept (s : Sys) : LargeKept s.heap (dispatchBgTick s).heap :=
  (slabPoolsSweepIdle_still _ _).large

theorem dispatchPurgeDrained_still (s : Sys) : Still s.heap (dispatchPurgeDrained s).heap := by
  have hframe : PoolFrame s.heap.buddyPool ∅ 0 (buddyPoolSweepIdle s.heap.buddyPool 0) :=
    sweepIdle_frame 0 ∅
  have hbuddy : Still s.heap (s.heap.setBuddy (buddyPoolSweepIdle s.heap.buddyPool 0)) :=
    ⟨rfl, fun x hx => (hframe.within.taken x hx).resolve_right fun hnew => hnew.1 rfl,
      hframe.within.large⟩
  exact (hbuddy.trans (slabPoolsSweepIdle_still _ 0)).trans
    (still_setCache fun _ he => absurd he List.not_mem_nil)

theorem largeFree_kept (hok : largeFree h obj = .ok h') : LargeKept h h' := by
  rw [largeFree_eq] at hok
  dsimp only at hok
  split_ifs at hok
  · cases hok
    exact .refl h
  · rw [bind_ok_iff] at hok
    obtain ⟨-, -, hok⟩ := hok
    cases hok
    exact .of_update rfl (by simp)
  · cases hok
    exact .of_update rfl (by simp)
  · cases hok
    exact .of_update rfl (by simp)

/-! ### Free -/

theorem confined_freeChain {left : ℕ} : ∀ {s : Sys} {node : ℕ},
    freeChain call left s node = .ok s' → LargeKept s.heap s'.heap ∧ s'.caches = s.caches := by
  induction left with
  | zero =>
    intro s node hok
    unfold freeChain at hok
    split_ifs at hok
    cases hok
    exact ⟨.refl _, rfl⟩
  | succ left ih =>
    intro s node hok
    unfold freeChain at hok
    dsimp only at hok
    split_ifs at hok
    · cases hok
      exact ⟨.refl _, rfl⟩
    · obtain ⟨hkept, hsame⟩ := ih hok
      exact ⟨(slabPoolFree_kept _ _ _ _ _).trans hkept, hsame⟩
    · exact ih hok

theorem confined_slabOverflow (hok : slabOverflowToL2OrSlab call s cls = .ok s') :
    Confined call s s' := by
  unfold slabOverflowToL2OrSlab at hok
  dsimp only at hok
  have hdrain : Confined call s ((s.computeBatch call cls).2.drainChain call cls
      (s.computeBatch call cls).1).2 := ⟨.of_heads rfl, _, rfl⟩
  split_ifs at hok
  · cases hok
    exact hdrain.trans ⟨threadCacheFlushHalf_kept _ _ _ _ _, _, rfl⟩
  · split at hok
    · cases hok
      exact hdrain.trans (.of_eq (.of_heads rfl) rfl)
    · obtain ⟨hkept, hsame⟩ := confined_freeChain hok
      exact hdrain.trans (.of_eq hkept hsame)

theorem confined_freeSlab {page : PageMeta} (hok : freeSlab call s page ptr = .ok s') :
    Confined call s s' ∧ (call.cacheReady = false → s'.caches = s.caches) := by
  unfold freeSlab at hok
  by_cases hbin : call.useTlc ∧ page.arenaId = arenaDefault ∧ call.cacheReady
  · have hready : call.cacheReady ≠ false := by simp [hbin.2.2]
    rw [if_pos hbin] at hok
    have hfree : Confined call s (s.cacheFree call page.sizeClass ptr).2 := ⟨.of_heads rfl, _, rfl⟩
    dsimp only at hok
    split_ifs at hok
    · exact ⟨hfree.trans (confined_slabOverflow hok), fun hnone => absurd hnone hready⟩
    · cases hok
      exact ⟨hfree, fun hnone => absurd hnone hready⟩
  · rw [if_neg hbin] at hok
    cases hok
    exact ⟨.of_eq (slabPoolFree_kept _ _ _ _ _) rfl, fun _ => rfl⟩

theorem confined_freeBuddy (call : Call) (s : Sys) (ptr : ℕ) :
    Confined call s (freeBuddy call s ptr) ∧
      (call.cacheReady = false → (freeBuddy call s ptr).caches = s.caches) := by
  unfold freeBuddy
  cases hbin : mediumBinClass call s ptr with
  | none => exact ⟨.of_eq (.of_heads rfl) rfl, fun _ => rfl⟩
  | some cls =>
    have hready : call.cacheReady ≠ false := by
      intro hnone
      simp [mediumBinClass, hnone] at hbin
    dsimp only
    split_ifs <;> exact ⟨⟨.of_heads rfl, _, rfl⟩, fun hnone => absurd hnone hready⟩

theorem confined_dispatchFree (hok : dispatchFree call s ptr = .ok s') :
    Confined call s s' ∧ (call.cacheReady = false → s'.caches = s.caches) := by
  unfold dispatchFree at hok
  split at hok
  · cases hok
    exact ⟨.refl call s, fun _ => rfl⟩
  · cases hok
    exact ⟨.refl call s, fun _ => rfl⟩
  · exact confined_freeSlab hok
  · rw [bind_ok_iff] at hok
    obtain ⟨h, hfree, hok⟩ := hok
    cases hok
    exact ⟨.of_eq (largeFree_kept hfree) rfl, fun _ => rfl⟩
  · cases hok
    exact confined_freeBuddy call s ptr

/-! ### Drains -/

theorem confined_dispatchDrainAll {out : ℕ × Sys} (hok : dispatchDrainAll call s = .ok out) :
    Confined call s out.2 := by
  unfold dispatchDrainAll threadCacheDrainAll at hok
  rw [bind_ok_iff] at hok
  obtain ⟨v, hfold, hok⟩ := hok
  cases hok
  refine ⟨?_, _, rfl⟩
  exact foldlM_kept (fun out => out.2.2) (fun _ _ _ hstep => drainBinLoop_kept hstep) _ hfold

theorem confined_dispatchDrainMedium {out : ℕ × Sys}
    (hok : dispatchDrainMedium call s = .ok out) : Confined call s out.2 := by
  unfold dispatchDrainMedium threadCacheDrainMedium at hok
  rw [bind_ok_iff] at hok
  obtain ⟨v, hfold, hok⟩ := hok
  cases hok
  refine ⟨foldlM_kept (fun out : ℕ × ThreadCache × Heap => out.2.2) ?_ _ hfold, _, rfl⟩
  intro b idx b' hstep
  rw [bind_ok_iff] at hstep
  obtain ⟨freed, hfreed, hstep⟩ := hstep
  cases hstep
  exact freeMediumChain_kept hfreed

theorem confined_retireCache (hok : retireCache call s = .ok s') : Confined call s s' := by
  unfold retireCache at hok
  rw [bind_ok_iff] at hok
  obtain ⟨all, hall, hok⟩ := hok
  rw [bind_ok_iff] at hok
  obtain ⟨medium, hmedium, hok⟩ := hok
  cases hok
  exact ((confined_dispatchDrainAll hall).trans (confined_dispatchDrainMedium hmedium)).trans
    ⟨.refl _, _, rfl⟩

theorem confined_freeStackNodes (call : Call) (left : ℕ) : ∀ (s : Sys) (node : ℕ),
    LargeKept s.heap (freeStackNodes call left s node).heap ∧
      (freeStackNodes call left s node).caches = s.caches := by
  induction left with
  | zero => exact fun s _ => ⟨.refl s.heap, rfl⟩
  | succ left ih =>
    intro s node
    obtain ⟨hkept, hsame⟩ := ih (s.slabFree call arenaDefault node) (load64 s.heap.mem node)
    exact ⟨(slabPoolFree_kept _ _ _ _ _).trans hkept, hsame⟩

theorem confined_drainStackLoop {cpu left : ℕ} {out : ℕ × Sys} : ∀ {total : ℕ} {s : Sys},
    drainStackLoop call cpu cls left total s = .ok out →
      LargeKept s.heap out.2.heap ∧ out.2.caches = s.caches := by
  induction left with
  | zero => exact fun hok => nomatch hok
  | succ left ih =>
    intro total s hok
    unfold drainStackLoop at hok
    dsimp only at hok
    split_ifs at hok
    · cases hok
      exact ⟨.of_heads rfl, rfl⟩
    · obtain ⟨hkept, hsame⟩ := ih hok
      obtain ⟨hnodes, hcaches⟩ := confined_freeStackNodes call
        (s.popBatch cpu cls dispatchL2Batch).1.count (s.popBatch cpu cls dispatchL2Batch).2
        (s.popBatch cpu cls dispatchL2Batch).1.head
      exact ⟨hnodes.trans hkept, hsame.trans hcaches⟩

theorem confined_dispatchDrainLocalL2 {out : ℕ × Sys}
    (hok : dispatchDrainLocalL2 call s = .ok out) :
    LargeKept s.heap out.2.heap ∧ out.2.caches = s.caches := by
  unfold dispatchDrainLocalL2 at hok
  split at hok
  · cases hok
    exact ⟨.refl s.heap, rfl⟩
  · let kept : ℕ × Sys → Prop := fun out => LargeKept s.heap out.2.heap ∧ out.2.caches = s.caches
    refine foldlM_keeps (P := kept) ?_ _ hok ⟨.refl s.heap, rfl⟩
    intro b cls b' hround hb
    obtain ⟨hkept, hsame⟩ := confined_drainStackLoop hround
    exact ⟨hb.1.trans hkept, hsame.trans hb.2⟩

end V8Malloc
