import V8Malloc.Dispatch.FreeSpec

/-!
# Medium drains and background work

The drain of the medium bins gives buddy blocks back; the ticks and the purge
let go of parked pages, idle arenas and cached regions. None of them touches
what the program holds.
-/
namespace V8Malloc

open ByteMemory LinkedList StackLedger Function

variable {s : Sys} {L : Stack → List ℕ} {blk : Blocks} {held : Set ℕ} {h : Heap}
variable {x t idx : ℕ} {call : Call}

/-! ### Medium bins -/

/-- The bin `idx` of thread `t` starts at `head`. -/
def Sys.setMedium (s : Sys) (t idx head : ℕ) : Sys :=
  s.setCache t { s.caches t with
    mediumBinHeads := update (s.caches t).mediumBinHeads idx head }

theorem Sys.setMedium_self (s : Sys) (t idx : ℕ) :
    s.setMedium t idx ((s.caches t).mediumBinHeads idx) = s := by
  simp [Sys.setMedium, Sys.setCache]

theorem top_setMedium (s : Sys) (t idx head : ℕ) :
    (s.setMedium t idx head).top = update s.top (.medium t idx) head :=
  top_setCache_medium rfl rfl

theorem Tally.ofMedium (ht : Tally (s.setMedium t idx x).caches L) : Tally s.caches L := by
  refine ⟨fun t' c => ?_, fun t' c => ?_⟩
  · by_cases heq : t' = t
    · subst heq
      simpa [Sys.setMedium, Sys.setCache] using ht.count t' c
    · simpa [Sys.setMedium, Sys.setCache, heq] using ht.count t' c
  · by_cases heq : t' = t
    · subst heq
      simpa [Sys.setMedium, Sys.setCache] using ht.capacity t' c
    · simpa [Sys.setMedium, Sys.setCache, heq] using ht.capacity t' c

/-- The top of the walk goes back to the buddy pool and its successor becomes the top. -/
theorem SysInv.freeMedium (hs : SysInv (s.setMedium t idx x) L blk held) (opts : PoolOptions)
    (hx : x ≠ 0) :
    ∃ rest blk', L (.medium t idx) = x :: rest ∧
      SysInv ({ s with heap := s.heap.setBuddy (buddyPoolFree opts s.heap.buddyPool x).2 }.setMedium
        t idx (load64 s.heap.mem x)) (update L (.medium t idx) rest) blk' held ∧
      Carried held blk s.heap.mem blk' (buddyPoolFree opts s.heap.buddyPool x).2.mem := by
  have htop : (s.setMedium t idx x).top (.medium t idx) = x := by
    rw [top_setMedium, update_self]
  obtain ⟨rest, hL, hnot, ⟨g, hg, -, hgrant⟩, hacc⟩ :=
    hs.account.pop (k := .medium t idx) (by rwa [htop])
  rw [htop] at hL hnot hg hacc
  subst hgrant
  obtain ⟨hinv, hpres⟩ := buddyPoolFree_released opts hs.account.inv hg
  obtain ⟨hacc', hcarried⟩ := hacc.release (Set.mem_insert x held) hinv hpres
  rw [Set.insert_sdiff_self_of_notMem hnot] at hacc' hcarried
  rw [top_setMedium, update_idem] at hacc'
  exact ⟨rest, _, hL, sysInv_setMedium hs.tally.ofMedium rfl rfl rfl rfl hacc', hcarried⟩

theorem freeMediumChain_spec (opts : PoolOptions) (t idx left : ℕ) :
    ∀ {s : Sys} {L : Stack → List ℕ} {blk : Blocks} (total head : ℕ),
      SysInv (s.setMedium t idx head) L blk held → (L (.medium t idx)).length < left →
      ∃ out, freeMediumChain opts left total s.heap head = .ok out ∧ ∃ blk',
        SysInv ({ s with heap := out.2 }.setMedium t idx 0)
          (update L (.medium t idx) []) blk' held ∧
        Carried held blk s.heap.mem blk' out.2.mem := by
  induction left with
  | zero => exact fun _ _ _ hlt => absurd hlt (Nat.not_lt_zero _)
  | succ left ih =>
    intro s L blk total head hs hlt
    by_cases hzero : head = 0
    · subst hzero
      have hempty : L (.medium t idx) = [] := by
        have hchain := hs.account.ledger.chain (.medium t idx)
        rw [top_setMedium, update_self] at hchain
        exact hchain.nil_iff.1 rfl
      refine ⟨(total, s.heap), by simp [freeMediumChain], blk, ?_, Carried.refl _ _ _⟩
      rw [← hempty, update_eq_self]
      exact hs
    · obtain ⟨rest, blk', hL, hs', hcarried⟩ := hs.freeMedium opts hzero
      have hshort : (update L (.medium t idx) rest (.medium t idx)).length < left := by
        rw [hL, List.length_cons] at hlt
        rw [update_self]
        omega
      obtain ⟨out, hout, blk'', hfin, hcarried'⟩ := ih (total + 1) _ hs' hshort
      rw [update_idem] at hfin
      refine ⟨out, ?_, blk'', hfin, hcarried.trans hcarried'⟩
      simp only [freeMediumChain, if_neg hzero]
      exact hout

theorem SysInv.clearMedium (hs : SysInv (s.setMedium t idx 0) L blk held) :
    SysInv (s.setCache t ((s.caches t).clearMedium idx)) L blk held := by
  have hacc := hs.account
  rw [top_setMedium, ← update_eq_self (Stack.medium t idx) L] at hacc
  rw [← update_eq_self (Stack.medium t idx) L]
  exact sysInv_setMedium hs.tally.ofMedium rfl rfl rfl rfl hacc

theorem dispatchDrainMedium_spec (hs : SysInv s L blk held) (call : Call) :
    Returns False (dispatchDrainMedium call s) fun out => Drained s L blk held out.2 := by
  have hfold : Returns False (threadCacheDrainMedium call.poolOptions (s.caches call.thread) s.heap)
      fun out => Drained s L blk held ({ s with heap := out.2.2 }.setCache call.thread out.2.1) := by
    apply Returns.foldlM
    · rintro ⟨total, cache, h⟩ ⟨L', blk', hs', hcarried, hle⟩ idx -
      -- the walk runs on the heap while the bin still shows its old top
      have hself := Sys.setMedium_self ({ s with heap := h }.setCache call.thread cache)
        call.thread idx
      rw [Sys.caches_setCache] at hself
      have hstart := hs'
      rw [← hself] at hstart
      obtain ⟨out, hout, blk'', hs'', hcarried'⟩ := freeMediumChain_spec call.poolOptions
        call.thread idx (2 ^ tagptrPtrBits + 1) total _ hstart
        (Nat.lt_succ_of_le (hs'.stack_length _))
      have hclear := hs''.clearMedium
      refine Or.inl ⟨(out.1, cache.clearMedium idx, out.2), ?_,
        update L' (.medium call.thread idx) [], blk'', ?_, hcarried.trans hcarried', ?_⟩
      · change (freeMediumChain _ _ total h _ >>= _) = _
        rw [show freeMediumChain call.poolOptions (2 ^ tagptrPtrBits + 1) total h
          (cache.mediumBinHeads idx) = .ok out from hout]
        rfl
      · simpa [Sys.setCache] using hclear
      · exact fun t c => by simpa using hle t c
    · refine ⟨L, blk, ?_, Carried.refl _ _ _, fun _ _ => le_rfl⟩
      simpa [Sys.setCache_self] using hs
  apply hfold.bind
  intro out hout
  exact returns_ok hout

/-! ### Retiring a cache -/

/-- The drain hook, and the cleared struct that the thread gets next. -/
def retireCache (call : Call) (s : Sys) : Except Stop Sys := do
  let all ← dispatchDrainAll call s
  let medium ← dispatchDrainMedium call all.2
  pure (medium.2.setCache call.thread .fresh)

theorem flushHalfLoop_heads (uafActive : Bool) (arena cls left : ℕ) :
    ∀ (freed : ℕ) (cache : ThreadCache) (h : Heap),
      (∀ c ≠ cls, (flushHalfLoop uafActive arena cls left freed cache h).2.1.binHeads c =
        cache.binHeads c) ∧
      (flushHalfLoop uafActive arena cls left freed cache h).2.1.mediumBinHeads =
        cache.mediumBinHeads := by
  induction left with
  | zero => exact fun _ _ _ => ⟨fun _ _ => rfl, rfl⟩
  | succ left ih =>
    intro freed cache h
    simp only [flushHalfLoop]
    by_cases hempty : cache.binHeads cls = 0
    · rw [if_pos hempty]
      exact ⟨fun _ _ => rfl, rfl⟩
    · rw [if_neg hempty]
      obtain ⟨hheads, hmedium⟩ := ih (freed + 1) (cache.unlink h.mem cls (cache.binHeads cls))
        (slabPoolFree uafActive h arena (ptrToMeta (cache.binHeads cls)) (cache.binHeads cls)).2
      exact ⟨fun c hc => by rw [hheads c hc]; simp [ThreadCache.unlink, hc], hmedium⟩

theorem threadCacheFlushHalf_heads (uafActive : Bool) (cache : ThreadCache) (h : Heap)
    (arena cls : ℕ) :
    (∀ c ≠ cls, (threadCacheFlushHalf uafActive cache h arena cls).2.1.binHeads c =
      cache.binHeads c) ∧
    (threadCacheFlushHalf uafActive cache h arena cls).2.1.mediumBinHeads =
      cache.mediumBinHeads := by
  unfold threadCacheFlushHalf
  split_ifs
  · exact ⟨fun _ _ => rfl, rfl⟩
  · exact flushHalfLoop_heads _ _ _ _ _ _ _

/-- A drain that ends has emptied its bin and left the others alone. -/
theorem drainBinLoop_heads (uafActive : Bool) (arena cls left : ℕ) :
    ∀ {total : ℕ} {cache : ThreadCache} {h : Heap} {out : ℕ × ThreadCache × Heap},
      drainBinLoop uafActive arena cls left total cache h = .ok out →
      out.2.1.binHeads cls = 0 ∧ (∀ c ≠ cls, out.2.1.binHeads c = cache.binHeads c) ∧
        out.2.1.mediumBinHeads = cache.mediumBinHeads := by
  induction left with
  | zero =>
    intro total cache h out hok
    unfold drainBinLoop at hok
    split_ifs at hok with hempty
    cases hok
    exact ⟨hempty, fun _ _ => rfl, rfl⟩
  | succ left ih =>
    intro total cache h out hok
    unfold drainBinLoop at hok
    split_ifs at hok with hempty
    · cases hok
      exact ⟨hempty, fun _ _ => rfl, rfl⟩
    · obtain ⟨hzero, hothers, hmedium⟩ := ih hok
      obtain ⟨hheads, hmedium'⟩ := threadCacheFlushHalf_heads uafActive cache h arena cls
      exact ⟨hzero, fun c hc => (hothers c hc).trans (hheads c hc), hmedium.trans hmedium'⟩

/-- What every round of a fold keeps holds at its end. -/
theorem foldlM_keeps {α β : Type} {f : β → α → Except Stop β} {P : β → Prop}
    (hstep : ∀ b x b', f b x = .ok b' → P b → P b') (xs : List α) :
    ∀ {b b' : β}, xs.foldlM f b = .ok b' → P b → P b' := by
  induction xs with
  | nil =>
    intro b b' hok hb
    cases hok
    exact hb
  | cons x xs ih =>
    intro b b' hok hb
    rw [List.foldlM_cons, bind_ok_iff] at hok
    obtain ⟨b₁, hfirst, hrest⟩ := hok
    exact ih hrest (hstep b x b₁ hfirst hb)

/-- Rounds that each settle their own element and unsettle none settle the whole list. -/
theorem foldlM_settles {α β : Type} {f : β → α → Except Stop β} {Q : β → α → Prop}
    (hstep : ∀ b x b', f b x = .ok b' → Q b' x ∧ ∀ y, Q b y → Q b' y) (xs : List α) :
    ∀ {b b' : β}, xs.foldlM f b = .ok b' → ∀ y ∈ xs, Q b' y := by
  induction xs with
  | nil => exact fun _ y hy => absurd hy List.not_mem_nil
  | cons x xs ih =>
    intro b b' hok
    rw [List.foldlM_cons, bind_ok_iff] at hok
    obtain ⟨b₁, hfirst, hrest⟩ := hok
    have hx := (hstep b x b₁ hfirst).1
    rw [List.forall_mem_cons]
    exact ⟨foldlM_keeps (fun c z c' hc hq => (hstep c z c' hc).2 x hq) xs hrest hx, ih hrest⟩

theorem threadCacheDrainAll_empty {uafActive : Bool} {cache : ThreadCache} {arena : ℕ}
    {out : ℕ × ThreadCache × Heap} (hok : threadCacheDrainAll uafActive cache h arena = .ok out) :
    ∀ cls < mediumFirstClass, out.2.1.binHeads cls = 0 := by
  intro cls hcls
  refine (foldlM_settles (Q := fun out c => out.2.1.binHeads c = 0) ?_ _ hok) cls
    (List.mem_range.2 hcls)
  intro b c b' hround
  obtain ⟨hzero, hothers, -⟩ := drainBinLoop_heads _ _ _ _ hround
  refine ⟨hzero, fun y hy => ?_⟩
  by_cases hyc : y = c
  · rw [hyc, hzero]
  · rw [hothers y hyc, hy]

theorem threadCacheDrainMedium_empty {opts : PoolOptions} {cache : ThreadCache}
    {out : ℕ × ThreadCache × Heap} (hok : threadCacheDrainMedium opts cache h = .ok out) :
    (∀ idx < mediumBinCaps.length, out.2.1.mediumBinHeads idx = 0) ∧
      ∀ cls, cache.binHeads cls = 0 → out.2.1.binHeads cls = 0 := by
  have hround : ∀ (b : ℕ × ThreadCache × Heap) (idx : ℕ) (b' : ℕ × ThreadCache × Heap),
      (do
        let freed ← freeMediumChain opts (2 ^ tagptrPtrBits + 1) b.1 b.2.2
          (b.2.1.mediumBinHeads idx)
        pure (freed.1, b.2.1.clearMedium idx, freed.2)) = .ok b' →
      b'.2.1 = b.2.1.clearMedium idx := by
    intro b idx b' hround
    rw [bind_ok_iff] at hround
    obtain ⟨freed, -, hround⟩ := hround
    cases hround
    rfl
  constructor
  · intro idx hidx
    refine (foldlM_settles (Q := fun out i => out.2.1.mediumBinHeads i = 0) ?_ _ hok) idx
      (List.mem_range.2 hidx)
    intro b i b' hb
    rw [hround b i b' hb]
    refine ⟨by simp [ThreadCache.clearMedium], fun y hy => ?_⟩
    by_cases hyi : y = i <;> simp [ThreadCache.clearMedium, hyi, hy]
  · intro cls hcls
    refine foldlM_keeps (P := fun out => out.2.1.binHeads cls = 0) ?_ _ hok hcls
    intro b i b' hb hzero
    rw [hround b i b' hb]
    exact hzero

/-- A cache with empty bins may be replaced by a cleared one. -/
theorem SysInv.renew (hs : SysInv s L blk held)
    (hbins : ∀ cls < mediumFirstClass, (s.caches t).binHeads cls = 0)
    (hmedium : ∀ idx < mediumBinCaps.length, (s.caches t).mediumBinHeads idx = 0) :
    SysInv (s.setCache t .fresh) L blk held := by
  have hnil : ∀ k, s.top k = 0 ↔ L k = [] := fun k => (hs.account.ledger.chain k).nil_iff
  have hbin : ∀ cls, L (.bin t cls) = [] := by
    intro cls
    by_cases hcls : cls < mediumFirstClass
    · exact (hnil _).1 (hbins cls hcls)
    · refine List.eq_nil_iff_forall_not_mem.2 fun x hx => hcls ?_
      obtain ⟨g, -, hfits⟩ := hs.account.grant_of_mem hx
      exact hfits.1
  have hmed : ∀ idx, L (.medium t idx) = [] := by
    intro idx
    by_cases hidx : idx < mediumBinCaps.length
    · exact (hnil _).1 (hmedium idx hidx)
    · refine List.eq_nil_iff_forall_not_mem.2 fun x hx => hidx ?_
      obtain ⟨g, -, hfits⟩ := hs.account.grant_of_mem hx
      have hle := hfits.1
      simp only [mediumTlcFirstClass, mediumTlcLastClass, mediumBinCaps, List.length_cons,
        List.length_nil] at hle ⊢
      omega
  have htop : (s.setCache t .fresh).top = s.top := by
    funext k
    cases k with
    | bin t' cls =>
      by_cases ht : t' = t
      · subst ht
        rw [(hnil _).2 (hbin cls)]
        simp [Sys.top, Sys.setCache, ThreadCache.fresh]
      · simp [Sys.top, Sys.setCache, ht]
    | core cpu cls => rfl
    | medium t' idx =>
      by_cases ht : t' = t
      · subst ht
        rw [(hnil _).2 (hmed idx)]
        simp [Sys.top, Sys.setCache, ThreadCache.fresh]
      · simp [Sys.top, Sys.setCache, ht]
  refine ⟨?_, fun t' c => ?_, fun t' c => ?_⟩
  · rw [htop]
    exact hs.account
  · by_cases ht : t' = t
    · subst ht
      simp [Sys.setCache, ThreadCache.fresh, hbin]
    · simpa [Sys.setCache, ht] using hs.tally.count t' c
  · by_cases ht : t' = t
    · subst ht
      simp [Sys.setCache, ThreadCache.fresh, binCapacityDefault, binCapacityMax]
    · simpa [Sys.setCache, ht] using hs.tally.capacity t' c

/-- The cache of a thread is drained and replaced. -/
theorem retireCache_drained {s' : Sys} (hs : SysInv s L blk held)
    (hlen : ∀ t c, (L (.bin t c)).length < 2 ^ 16) (hok : retireCache call s = .ok s') :
    Drained s L blk held s' ∧ s'.caches call.thread = .fresh := by
  unfold retireCache at hok
  rw [bind_ok_iff] at hok
  obtain ⟨all, hall, hok⟩ := hok
  rw [bind_ok_iff] at hok
  obtain ⟨medium, hmedium, hok⟩ := hok
  cases hok
  obtain ⟨L₁, blk₁, hs₁, hcarried₁, hle₁⟩ := (dispatchDrainAll_spec hs call hlen).of_ok hall
  obtain ⟨L₂, blk₂, hs₂, hcarried₂, hle₂⟩ := (dispatchDrainMedium_spec hs₁ call).of_ok hmedium
  unfold dispatchDrainAll at hall
  rw [bind_ok_iff] at hall
  obtain ⟨out₁, hbins, hall⟩ := hall
  cases hall
  unfold dispatchDrainMedium at hmedium
  rw [bind_ok_iff] at hmedium
  obtain ⟨out₂, hheads, hmedium⟩ := hmedium
  cases hmedium
  rw [Sys.caches_setCache] at hheads
  have hempty := threadCacheDrainMedium_empty hheads
  refine ⟨⟨L₂, blk₂, hs₂.renew ?_ ?_, hcarried₁.trans hcarried₂, hle₁.trans hle₂⟩,
    Sys.caches_setCache _ _ _⟩
  · intro cls hcls
    rw [Sys.caches_setCache]
    exact hempty.2 cls (threadCacheDrainAll_empty hbins cls hcls)
  · rw [Sys.caches_setCache]
    exact hempty.1

/-! ### Sweeps -/

theorem filterMap_fst_sublist {f : ℕ × ℕ → Option (ℕ × ℕ)} (hf : ∀ e e', f e = some e' → e'.1 = e.1)
    (entries : List (ℕ × ℕ)) :
    ((entries.filterMap f).map Prod.fst).Sublist (entries.map Prod.fst) := by
  induction entries with
  | nil => simp
  | cons e entries ih =>
    cases he : f e with
    | none => simpa [List.filterMap_cons, he] using ih.cons e.1
    | some e' => simpa [List.filterMap_cons, he, hf e e' he] using ih.cons_cons e.1

/-- A tick lets parked pages go and touches nothing else. -/
theorem slabPoolSweepIdle_kept (arena maxIdleTicks : ℕ) (hh : HeapInv h blk) :
    HeapInv (slabPoolSweepIdle h arena maxIdleTicks) blk := by
  have hfst : ∀ e e', drainedTick maxIdleTicks e = some e' → e'.1 = e.1 := fun _ _ => drainedTick_fst
  have hlayout : Layout (slabPoolSweepIdle h arena maxIdleTicks) := by
    apply hh.layout.mono
    · intro k b n hr
      refine Heap.Region.setDrained (fun e he => ?_) hr
      obtain ⟨⟨b', idle⟩, hmem, htick⟩ := List.mem_filterMap.1 he
      exact ⟨idle, by rwa [hfst _ _ htick]⟩
    · intro arena' harena
      rw [slabPoolSweepIdle, setDrained_drained]
      split_ifs with heq
      · subst heq
        exact (filterMap_fst_sublist hfst _).nodup (hh.layout.drained _ harena)
      · exact hh.layout.drained _ harena
    · exact hh.layout.cached
  refine ⟨hlayout, hh.headers, hh.buddy, hh.clean, fun arena' ha cls hcls => ?_⟩
  rw [slabPoolSweepIdle, setDrained_slabClass]
  exact (hh.lists arena' ha cls hcls).congr fun _ _ => rfl

theorem slabPoolsSweepIdle_kept (maxIdleTicks : ℕ) (hh : HeapInv h blk) :
    HeapInv (slabPoolsSweepIdle h maxIdleTicks) blk ∧
      (slabPoolsSweepIdle h maxIdleTicks).mem = h.mem := by
  unfold slabPoolsSweepIdle
  induction List.range arenaCount generalizing h with
  | nil => exact ⟨hh, rfl⟩
  | cons arena arenas ih => exact ih (slabPoolSweepIdle_kept arena maxIdleTicks hh)

theorem SysInv.setHeap {h' : Heap} (hs : SysInv s L blk held) (hinv : HeapInv h' blk)
    (hmem : h'.mem = s.heap.mem) : Drained s L blk held { s with heap := h' } := by
  have hcarried : Carried held blk s.heap.mem blk h'.mem := by
    rw [hmem]
    exact Carried.refl _ _ _
  refine ⟨L, blk, ⟨⟨hinv, ?_⟩, hs.tally⟩, hcarried, fun _ _ => le_rfl⟩
  rw [show ({ s with heap := h' } : Sys).heap.mem = s.heap.mem from hmem]
  exact hs.account.ledger

theorem dispatchBgTick_spec (hs : SysInv s L blk held) :
    Drained s L blk held (dispatchBgTick s) := by
  have hbuddy := buddyPoolSweepIdle_kept dispatchBuddyIdleTicks hs.account.inv
  obtain ⟨hslabs, hmem⟩ := slabPoolsSweepIdle_kept dispatchSlabIdleTicks hbuddy
  exact hs.setHeap hslabs hmem

theorem dispatchPurgeDrained_spec (hs : SysInv s L blk held) :
    Drained s L blk held (dispatchPurgeDrained s) := by
  have hbuddy := buddyPoolSweepIdle_kept 0 hs.account.inv
  obtain ⟨hslabs, hmem⟩ := slabPoolsSweepIdle_kept 0 hbuddy
  exact hs.setHeap (hslabs.setCache (fun _ he => absurd he List.not_mem_nil) List.nodup_nil) hmem

end V8Malloc
