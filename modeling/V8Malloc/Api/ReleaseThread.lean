import V8Malloc.Api.Totals

/-!
# Releasing a thread

`v8m_release_thread` drains the cache of the thread, takes it off the registry
and frees its struct. That free is one of a medium block: unless a soft limit
is set it asks for the cache of the thread, so a new cache is created on the
way out and the old struct is parked in its bin.
-/
namespace V8Malloc

open ByteMemory

variable {b b₁ b' : Books} {t ptr fresh : ℕ} {env : Env} {asks : Bool}

/-- The thread has no cache, and nothing is cached on its behalf. -/
structure ThreadReleased (b : Books) (t : ℕ) : Prop where
  slot : b.slot t = 0
  bins : ∀ cls, (b.api.sys.caches t).binHeads cls = 0
  medium : ∀ idx, (b.api.sys.caches t).mediumBinHeads idx = 0

theorem BookInv.released_iff (hb : BookInv b) : ThreadReleased b t ↔ b.slot t = 0 := by
  refine ⟨ThreadReleased.slot, fun hslot => ?_⟩
  have hbare := hb.bare t hslot
  exact ⟨hslot, fun cls => by rw [hbare]; rfl, fun idx => by rw [hbare]; rfl⟩

/-- The slot of a caller without a cache after it was looked for. -/
theorem Opens.slot_eq (hopens : Opens t asks b fresh b₁) (hb : BookInv b) (hslot : b.slot t = 0)
    (hrunning : (b.caches.tls t).inDestructor = false) :
    b₁.slot t = if asks then fresh else 0 := by
  rcases hopens.slots (hb.caches.idle t) with ⟨heq, hsame⟩ | ⟨heq, hasks, -, -⟩
  · have hzero : b₁.slot t = 0 := by rw [Books.slot, heq]; exact hslot
    rcases hsame with hasks | h | h | h
    · simp [hzero, hasks]
    · exact absurd hslot h
    · simp [hrunning] at h
    · rw [hzero, h, ite_self]
  · rw [Books.slot, heq, if_pos hasks]
    simp [Caches.created]

theorem BookInv.buddyGrant (hb : BookInv b) (hp : b.world.HoldsBuddy ptr) :
    ∃ blk n, HeapInv b.api.sys.heap blk ∧ blk ptr = some ⟨n, .buddy⟩ := by
  obtain ⟨L, blk, hw⟩ := hb.api
  obtain ⟨⟨n, backend⟩, hg⟩ := hw.inv.inv.account.grant_of_held hp.1
  have hinv := hw.inv.inv.account.inv
  obtain rfl : backend = .buddy := (hinv.heads_none_iff hg).1 hp.2
  exact ⟨blk, n, hinv, hg⟩

/-- A free of a struct goes to the buddy pool. -/
theorem BookInv.freeRoute_struct {call : Call} (hb : BookInv b) (hp : b.world.HoldsBuddy ptr)
    (howns : call.owns ptr = true) : freeRoute call b.api.sys.heap ptr = .buddy := by
  obtain ⟨blk, n, hinv, hg⟩ := hb.buddyGrant hp
  have hheader := hinv.headerAt_buddy hg
  rw [freeRoute, if_neg (hb.held_ne_zero hp.1), howns, hheader]
  rfl

theorem BookInv.freeAsks_struct {call : Call} (hb : BookInv b) (hp : b.world.HoldsBuddy ptr)
    (htlc : call.useTlc = true) (howns : call.owns ptr = true) :
    freeAsks call b.api.sys.heap ptr = !call.softLimitActive := by
  rw [freeAsks, hb.freeRoute_struct hp howns, htlc]
  rfl

/-- The ownership check is right about the blocks in use. -/
theorem BookInv.owns (hb : BookInv b) (hheld : b.world.held ptr ≠ none)
    (hknows : env.Knows b.api.sys.heap ptr) : env.call.owns ptr = true := by
  obtain ⟨L, blk, hw⟩ := hb.api
  obtain ⟨g, hg⟩ := hw.inv.inv.account.grant_of_held hheld
  exact hknows.owns ptr (hw.inv.inv.account.inv.taken hg)

/-- Unless there is a soft limit, the free of a struct looks for the cache of the thread. -/
theorem Frees.slot_eq (hfrees : Frees t env ptr fresh b b') (hb : BookInv b)
    (hp : b.world.HoldsBuddy ptr) (hslot : b.slot t = 0)
    (hrunning : (b.caches.tls t).inDestructor = false) :
    b'.slot t = if b.api.softLimit = 0 then fresh else 0 := by
  cases hfrees with
  | @mk b₁ a' hheld hopens hby hknows _ _ =>
    have hrecorded := hb.recordFree t
    have htls : (b.recordFree t).caches.tls t = b.caches.tls t := tls_recordFreeCache _ _ _
    obtain ⟨hb₁, hstay⟩ := hrecorded.opens hopens
    have howns : (b.api.call env).owns ptr = true := hb₁.owns (hstay ptr hheld).1 hknows
    have hasks := hb.freeAsks_struct hp (show (b.api.call env).useTlc = true from hby.tlc) howns
    have hopened := hopens.slot_eq hrecorded (by rw [Books.slot, htls]; exact hslot)
      (by rw [htls]; exact hrunning)
    change b₁.slot t = _
    rw [hopened, hasks]
    simp [Api.call]

/-- A release leaves the thread without a cache exactly when it had none, a soft limit is set or
there is no memory for another cache. -/
theorem releaseThread_releases_iff (hrun : BookRun (fun _ _ => True) b)
    (hstep : BookStep b (.releaseThread t fresh) b') :
    ThreadReleased b' t ↔ b.slot t = 0 ∨ b.api.softLimit ≠ 0 ∨ fresh = 0 := by
  have hb := hrun.bookInv
  rw [(hb.step hstep).released_iff]
  cases hstep with
  | @release _ _ call env all l2 s _ ht hslot hthread hall hl2 hretire hapart hfrees =>
    have hretired := hb.retireRelease ht hthread hslot hall hl2 hretire hapart
    have htls : (b.retire s t { b.caches.tls t with cache := 0 }).caches.tls t =
        { b.caches.tls t with cache := 0 } := by
      change (b.caches.detached t _).tls t = _
      rw [Caches.tls_detached hslot, Function.update_self]
    have hstruct : b.slot t ∈
        (b.retire s t { b.caches.tls t with cache := 0 }).caches.structs := by
      change _ ∈ (b.caches.detached t _).structs
      rw [Caches.structs_detached hslot]
      exact hb.caches.live t hslot
    rw [hfrees.slot_eq hretired (hretired.structs _ hstruct) (by rw [Books.slot, htls])
      (by rw [htls]; exact hb.running t ht)]
    change (if b.api.softLimit = 0 then fresh else 0) = 0 ↔ _
    split_ifs with hlimit <;> simp [hslot, hlimit]
  | releaseNone _ hslot _ _ _ => exact ⟨fun _ => Or.inl hslot, fun _ => hslot⟩

/-! ### Drains with nothing to drain -/

section Empty

variable {s : Sys} {call : Call} {cache : ThreadCache} {h : Heap}

theorem drainBinLoop_of_empty {cls : ℕ} (hempty : cache.binHeads cls = 0) (uafActive : Bool)
    (arena left total : ℕ) :
    drainBinLoop uafActive arena cls left total cache h = .ok (total, cache, h) := by
  cases left <;> simp [drainBinLoop, hempty]

/-- A fold in which no round changes anything. -/
theorem foldlM_idle {α β : Type} {f : β → α → Except Stop β} {b : β} (xs : List α)
    (hround : ∀ x ∈ xs, f b x = .ok b) : xs.foldlM f b = .ok b := by
  induction xs with
  | nil => rfl
  | cons x xs ih =>
    rw [List.forall_mem_cons] at hround
    rw [List.foldlM_cons, hround.1]
    exact ih hround.2

theorem dispatchDrainAll_of_empty
    (hbins : ∀ cls < mediumFirstClass, (s.caches call.thread).binHeads cls = 0) :
    dispatchDrainAll call s = .ok (0, s) := by
  have hfold : threadCacheDrainAll call.uafActive (s.caches call.thread) s.heap arenaDefault =
      .ok (0, s.caches call.thread, s.heap) := by
    apply foldlM_idle
    intro cls hcls
    exact drainBinLoop_of_empty (hbins cls (List.mem_range.1 hcls)) _ _ _ _
  rw [dispatchDrainAll, hfold]
  simp [bind, Except.bind, pure, Except.pure, Sys.setCache_self]

theorem popBatch_of_empty {cpu cls : ℕ} (htop : tagptrPtr (s.core.stackWords cpu cls) = 0)
    (max : ℕ) : s.popBatch cpu cls max = (⟨0, 0, 0⟩, s) := by
  have hpop : coreCachePop s.core s.heap.mem cpu cls = (0, s.core) := by
    simp [coreCachePop, htop]
  have hloop : coreCachePopLoop cpu cls max ⟨0, 0, 0⟩ s.core s.heap.mem =
      (⟨0, 0, 0⟩, s.core, s.heap.mem) := by
    cases max <;> simp [coreCachePopLoop, hpop]
  have hbatch : coreCachePopBatch s.core s.heap.mem cpu cls max =
      (⟨0, 0, 0⟩, s.core, s.heap.mem) := by
    simp [coreCachePopBatch, hloop]
  simp [Sys.popBatch, hbatch, Sys.setMem]

theorem dispatchDrainLocalL2_of_empty {cpu : ℕ} (hcpu : coreCacheForCpu call.stackCpu = some cpu)
    (htops : ∀ cls < mediumFirstClass, tagptrPtr (s.core.stackWords cpu cls) = 0) :
    dispatchDrainLocalL2 call s = .ok (0, s) := by
  rw [dispatchDrainLocalL2, hcpu]
  apply foldlM_idle
  intro cls hcls
  rw [drainStackLoop, popBatch_of_empty (htops cls (List.mem_range.1 hcls)), if_pos rfl]

theorem threadCacheDrainMedium_of_empty (opts : PoolOptions)
    (hmedium : ∀ idx < mediumBinCaps.length, cache.mediumBinHeads idx = 0) :
    Returns False (threadCacheDrainMedium opts cache h) fun out => out.2.2 = h ∧
      ∀ idx < mediumBinCaps.length, out.2.1.mediumBinHeads idx = 0 := by
  apply Returns.foldlM
  · rintro ⟨total, cache, h'⟩ ⟨rfl, hempty⟩ idx hidx
    have hhead : cache.mediumBinHeads idx = 0 := hempty idx (List.mem_range.1 hidx)
    refine Or.inl ⟨(total, cache.clearMedium idx, h'), ?_, rfl, fun i hi => ?_⟩
    · simp only [freeMediumChain, hhead, if_true]
      rfl
    · by_cases hii : i = idx
      · simp [ThreadCache.clearMedium, hii]
      · simpa [ThreadCache.clearMedium, hii] using hempty i hi
  · exact ⟨rfl, hmedium⟩

theorem retireCache_of_empty
    (hbins : ∀ cls < mediumFirstClass, (s.caches call.thread).binHeads cls = 0)
    (hmedium : ∀ idx < mediumBinCaps.length, (s.caches call.thread).mediumBinHeads idx = 0) :
    retireCache call s = .ok (s.setCache call.thread .fresh) := by
  obtain ⟨out, hout, hheap, -⟩ | ⟨hfalse, -⟩ :=
    threadCacheDrainMedium_of_empty (h := s.heap) call.poolOptions hmedium
  · rw [retireCache, dispatchDrainAll_of_empty hbins]
    change (dispatchDrainMedium call s >>= _) = _
    rw [dispatchDrainMedium, hout]
    change Except.ok _ = _
    simp [Sys.setCache, hheap]
  · exact hfalse.elim

end Empty

/-! ### A release that creates a cache -/

/-- The dispatcher after the thread's first request, for a medium block. -/
@[irreducible] def mediumState : Sys :=
  stateAfter (dispatchAlloc laterCall cachedState 8192) cachedState

/-- What is left when the cache of the thread is drained. -/
def retiredState : Sys := mediumState.setCache 0 .fresh

/-- A call of a thread that has no cache. -/
def bareCall : Call := { laterCall with cacheReady := false }

/-- The second struct is there, the first not yet given back. -/
@[irreducible] def againState : Sys :=
  stateAfter (dispatchAllocAligned bareCall retiredState cacheStructSize 64) retiredState

/-- The two answers. In between nothing is cached for the thread, nor on its CPU; afterwards the
bin of the first struct has room for it. -/
theorem medium_answers :
    ((dispatchAlloc laterCall cachedState 8192).toOption.map Prod.fst = some 270336 ∧
      (dispatchAllocAligned bareCall retiredState cacheStructSize 64).toOption.map Prod.fst =
        some 278528) ∧
    ((∀ cls < mediumFirstClass, (mediumState.caches 0).binHeads cls = 0) ∧
      (∀ idx < mediumBinCaps.length, (mediumState.caches 0).mediumBinHeads idx = 0) ∧
      ∀ cls < mediumFirstClass, tagptrPtr (mediumState.core.stackWords 0 cls) = 0) ∧
    mediumBinClass laterCall againState 262144 = some 32 ∧
      (againState.mediumFree laterCall 32 262144).1 = false ∧
      ((againState.mediumFree laterCall 32 262144).2.caches 0).mediumBinHeads 0 = 262144 := by
  decide +kernel

theorem mediumState_eq : dispatchAlloc laterCall cachedState 8192 = .ok (270336, mediumState) := by
  obtain ⟨s', hok⟩ := answer_of_map medium_answers.1.1
  unfold mediumState
  exact stateAfter_eq hok _

theorem againState_eq :
    dispatchAllocAligned bareCall retiredState cacheStructSize 64 = .ok (278528, againState) := by
  obtain ⟨s', hok⟩ := answer_of_map medium_answers.1.2
  unfold againState
  exact stateAfter_eq hok _

theorem retire_medium :
    retireCache laterCall ((0, mediumState) : ℕ × Sys).2 = .ok retiredState :=
  retireCache_of_empty medium_answers.2.1.1 medium_answers.2.1.2.1

def mediumBooks : Books := cachedBooks.give 0 true (readyWorld.api.setSys mediumState) 270336 8192

theorem api_mediumBooks : mediumBooks.api = readyWorld.api.setSys mediumState :=
  api_answer _ _ _ _

theorem mediumBooks_run : BookRun (fun _ _ => True) mediumBooks := by
  have hby : (slowEnv laterCall).By 0 (.init readyWorld.api) cachedBooks :=
    ⟨rfl, rfl, rfl, by decide⟩
  have hlegal : (slowEnv laterCall).Legal cachedBooks.api 8192 :=
    ⟨legal_laterCall _, fun x hx => absurd hx (not_offers_laterCall x)⟩
  have hserve : v8mMalloc (slowEnv laterCall) cachedBooks.api 8192 =
      .ok (270336, readyWorld.api.setSys mediumState) := by
    rw [api_cachedBooks, v8mMalloc, if_neg (fun h => absurd h.1 (by decide)), doMallocPc,
      if_neg (by decide)]
    exact gatedAlloc_plain rfl rfl (by norm_num) mediumState_eq
  have hmiss : fastHit (slowEnv laterCall) cachedBooks.api 8192 = false := by
    simp [fastHit, slowEnv]
  have hstep := BookStep.malloc (by decide) cachedBooks_opens hby hlegal hserve
  rw [hmiss] at hstep
  exact .step initBooks_run trivial hstep

/-- The books while the old struct is being freed. -/
def retiredBooks : Books :=
  mediumBooks.retire retiredState 0 { mediumBooks.caches.tls 0 with cache := 0 }

def againBooks : Books :=
  (retiredBooks.recordFree 0).opened 0 (readyWorld.api.setSys againState) 278528

theorem api_retiredBooks : retiredBooks.api = readyWorld.api.setSys retiredState := by
  change mediumBooks.api.setSys retiredState = _
  rw [api_mediumBooks]
  rfl

theorem api_againBooks : againBooks.api = readyWorld.api.setSys againState := api_answer _ _ _ _

theorem apart_retired : (mediumBooks.api.setSys retiredState).Apart := by
  obtain ⟨L, blk, hw⟩ := mediumBooks_run.bookInv.api
  exact fun x hx => by
    rw [api_mediumBooks] at hx ⊢
    exact hw.apart x (by rw [show mediumBooks.world.api = _ from api_mediumBooks]; exact hx)

theorem drain_medium : dispatchDrainAll laterCall mediumBooks.api.sys = .ok (0, mediumState) := by
  rw [api_mediumBooks]
  exact dispatchDrainAll_of_empty medium_answers.2.1.1

theorem drainL2_medium :
    dispatchDrainLocalL2 laterCall ((0, mediumState) : ℕ × Sys).2 = .ok (0, mediumState) :=
  dispatchDrainLocalL2_of_empty (by decide) medium_answers.2.1.2.2

theorem slot_mediumBooks : mediumBooks.slot 0 = 262144 := by decide

theorem retiredBooks_inv : BookInv retiredBooks := by
  have hslot : mediumBooks.slot 0 ≠ 0 := by
    rw [slot_mediumBooks]
    norm_num
  exact mediumBooks_run.bookInv.retireRelease (by decide) rfl hslot drain_medium drainL2_medium
    retire_medium apart_retired

theorem legal_bareCall (h : Heap) : Legal bareCall h where
  pages := ⟨fun _ hp => absurd hp List.not_mem_nil, List.nodup_nil⟩
  arena := fun hne => absurd rfl hne
  regions := fun _ hne => absurd rfl hne
  owns := fun _ _ => rfl

theorem again_struct : v8mAlignedAlloc (slowEnv bareCall) (readyWorld.api.setSys retiredState) 64
    cacheStructSize = .ok (278528, readyWorld.api.setSys againState) := by
  have hpow : (!isPow2 64) = false := by decide
  rw [v8mAlignedAlloc, hpow, if_neg Bool.false_ne_true, if_neg (by decide)]
  exact gatedAlloc_plain rfl rfl (by norm_num) againState_eq

theorem againBooks_opens : Opens 0 true (retiredBooks.recordFree 0) 278528 againBooks := by
  have hapi : (retiredBooks.recordFree 0).api = readyWorld.api.setSys retiredState :=
    api_retiredBooks
  have hlegal : (slowEnv bareCall).Legal (retiredBooks.recordFree 0).api cacheStructSize :=
    ⟨legal_bareCall _, fun x hx => absurd hx (not_offers_laterCall x)⟩
  refine .create rfl (by decide) (by decide) rfl rfl rfl hlegal ?_
  rw [hapi]
  exact again_struct

theorem againBooks_inv : BookInv againBooks :=
  ((retiredBooks_inv.recordFree 0).opens againBooks_opens).1

theorem apart_againBooks : againBooks.api.Apart := by
  obtain ⟨L, blk, hw⟩ := againBooks_inv.api
  exact hw.apart

/-- The old struct goes into the medium bin of the new cache. -/
theorem free_struct : dispatchFree laterCall againState 262144 =
    .ok (againState.mediumFree laterCall 32 262144).2 := by
  obtain ⟨hclass, hkept, -⟩ := medium_answers.2.2
  have howns : laterCall.owns 262144 = true := rfl
  have hroute := againBooks_inv.freeRoute_struct (againBooks_inv.structs _ (by decide)) howns
  rw [api_againBooks] at hroute
  rw [dispatchFree, show freeRoute laterCall againState.heap 262144 = .buddy from hroute]
  simp only [freeBuddy, hclass, hkept, Bool.false_eq_true, if_false]

theorem free_struct_api : v8mFree (slowEnv laterCall) againBooks.api 262144 =
    .ok (againBooks.api.setSys (againState.mediumFree laterCall 32 262144).2) := by
  have hout : (readyWorld.api.setSys againState).inBuffers 262144 = false :=
    inBuffers_low (by norm_num)
  rw [api_againBooks, v8mFree_of_slow (by norm_num) (freeFastClass_slowEnv _ _ _),
    v8mFreeSlow_ready (by norm_num) hout rfl, noteFree, if_neg (by decide)]
  change (dispatchFree laterCall againState 262144 >>= _) = _
  rw [free_struct]
  rfl

def releasedBooks : Books :=
  againBooks.take (slowEnv laterCall)
    (againBooks.api.setSys (againState.mediumFree laterCall 32 262144).2) 262144

theorem releasedBooks_step : BookStep mediumBooks (.releaseThread 0 278528) releasedBooks := by
  have hslot : mediumBooks.slot 0 ≠ 0 := by
    rw [slot_mediumBooks]
    norm_num
  have hby : (slowEnv laterCall).By 0 retiredBooks againBooks := ⟨rfl, rfl, by decide, by decide⟩
  have howns : (retiredBooks.api.call (slowEnv laterCall)).owns 262144 = true := rfl
  have hasks := retiredBooks_inv.freeAsks_struct (retiredBooks_inv.structs _ (by decide)) rfl howns
  have hlimit : (retiredBooks.api.call (slowEnv laterCall)).softLimitActive = false := by
    rw [api_retiredBooks]
    rfl
  have hapart : (againBooks.api.setSys (againState.mediumFree laterCall 32 262144).2).Apart := by
    intro x hx
    apply apart_againBooks x
    rw [api_againBooks]
    exact taken_setMem againState.heap _ hx
  have hfrees : Frees 0 (slowEnv laterCall) (mediumBooks.slot 0) 278528 retiredBooks
      releasedBooks := by
    rw [slot_mediumBooks]
    refine .mk (by decide) ?_ hby (knows_slowEnv (fun _ => rfl) _ _) free_struct_api hapart
    rw [hasks, hlimit]
    exact againBooks_opens
  exact .release (by decide) hslot rfl drain_medium drainL2_medium retire_medium apart_retired
    hfrees

theorem api_releasedBooks : releasedBooks.api =
    againBooks.api.setSys (againState.mediumFree laterCall 32 262144).2 := api_release _ _ _ _

/-- The release returns, the thread has a cache again, and the old struct is in its bin. -/
theorem releaseThread_recreates : ∃ b b', BookRun (fun _ _ => True) b ∧
    BookStep b (.releaseThread 0 278528) b' ∧ b.api.softLimit = 0 ∧ b'.slot 0 = 278528 ∧
    (b'.api.sys.caches 0).mediumBinHeads 0 = 262144 := by
  refine ⟨mediumBooks, releasedBooks, mediumBooks_run, releasedBooks_step, ?_, by decide, ?_⟩
  · rw [api_mediumBooks]
    rfl
  · rw [api_releasedBooks]
    exact medium_answers.2.2.2.2

/-! ### A release under a soft limit -/

theorem taken_buddyPoolFree {h : Heap} {blk : Blocks} {a n x : ℕ} (opts : PoolOptions)
    (hh : HeapInv h blk) (ha : blk a = some ⟨n, .buddy⟩)
    (hx : (h.setBuddy (buddyPoolFree opts h.buddyPool a).2).Taken x) : h.Taken x := by
  obtain ⟨live, hpart⟩ := hh.buddy
  obtain ⟨-, size, hq, -⟩ := hh.buddy_live hpart ha
  rcases (buddyPoolFree_spec opts hpart.1 hq).2.within.taken x hx with h | ⟨hne, -⟩
  · exact h
  · exact absurd rfl hne

/-- The same thread after the program has set a soft limit. -/
def limitedBooks : Books :=
  (mediumBooks.setApi { mediumBooks.api with softLimit := 2 ^ 30 }).setCaches
    { mediumBooks.caches with softLimit := 2 ^ 30 }

theorem limitedBooks_run : BookRun (fun _ _ => True) limitedBooks :=
  mediumBooks_run.step trivial (.setSoftLimit (2 ^ 30))

def limitedRetired : Books :=
  limitedBooks.retire retiredState 0 { limitedBooks.caches.tls 0 with cache := 0 }

def limitedCall : Call := { bareCall with softLimitActive := true }

/-- The dispatcher after the struct went back to the pool. -/
def limitedState : Sys := freeBuddy limitedCall retiredState 262144

/-- The free of the struct looks for no cache, so the offered answer is not taken. -/
def limitedReleased : Books :=
  (limitedRetired.recordFree 0).take (slowEnv bareCall) (limitedRetired.api.setSys limitedState)
    262144

theorem limitedRetired_inv : BookInv limitedRetired :=
  limitedBooks_run.bookInv.retireRelease (by decide) rfl
    (show limitedBooks.slot 0 ≠ 0 by decide) drain_medium drainL2_medium retire_medium apart_retired

theorem api_limitedRetired :
    limitedRetired.api = { readyWorld.api.setSys retiredState with softLimit := 2 ^ 30 } := by
  change ({ mediumBooks.api with softLimit := 2 ^ 30 } : Api).setSys retiredState = _
  rw [api_mediumBooks]
  rfl

theorem call_limitedRetired : limitedRetired.api.call (slowEnv bareCall) = limitedCall := by
  rw [api_limitedRetired]
  rfl

theorem limitedRetired_struct : limitedRetired.world.HoldsBuddy 262144 :=
  limitedRetired_inv.structs _ (by decide)

theorem free_limited : v8mFree (slowEnv bareCall) limitedRetired.api 262144 =
    .ok (limitedRetired.api.setSys limitedState) := by
  have hout : limitedRetired.api.inBuffers 262144 = false := by
    rw [api_limitedRetired]
    exact inBuffers_low (by norm_num)
  have hnote : noteFree (slowEnv bareCall) limitedRetired.api 262144 = .ok limitedRetired.api := by
    rw [api_limitedRetired]
    exact if_neg (by decide)
  have howns : limitedCall.owns 262144 = true := rfl
  have hroute := limitedRetired_inv.freeRoute_struct limitedRetired_struct howns
  rw [v8mFree_of_slow (by norm_num) (freeFastClass_slowEnv _ _ _),
    v8mFreeSlow_ready (by norm_num) hout limitedRetired_inv.ready, hnote]
  change (dispatchFree (limitedRetired.api.call (slowEnv bareCall)) limitedRetired.api.sys 262144
    >>= _) = _
  rw [call_limitedRetired, dispatchFree, hroute]
  rfl

theorem apart_limited : (limitedRetired.api.setSys limitedState).Apart := by
  obtain ⟨L, _, hw⟩ := limitedRetired_inv.api
  obtain ⟨blk, n, hinv, hg⟩ := limitedRetired_inv.buddyGrant limitedRetired_struct
  have hnone : mediumBinClass limitedCall retiredState 262144 = none := by
    simp [mediumBinClass, limitedCall]
  have hstate : limitedState.heap = retiredState.heap.setBuddy
      (buddyPoolFree limitedCall.poolOptions retiredState.heap.buddyPool 262144).2 := by
    simp [limitedState, freeBuddy, hnone]
  intro x hx
  change limitedState.heap.Taken x at hx
  rw [hstate] at hx
  exact hw.apart x (taken_buddyPoolFree limitedCall.poolOptions hinv hg hx)

theorem limitedReleased_step : BookStep limitedBooks (.releaseThread 0 278528) limitedReleased := by
  have howns : limitedCall.owns 262144 = true := rfl
  have hasks := limitedRetired_inv.freeAsks_struct limitedRetired_struct rfl howns
  have hskip : Opens 0 (freeAsks (limitedRetired.api.call (slowEnv bareCall))
      limitedRetired.api.sys.heap 262144) (limitedRetired.recordFree 0) 278528
      (limitedRetired.recordFree 0) := by
    rw [call_limitedRetired, hasks]
    exact .skip nofun
  exact .release (by decide) (by decide) rfl drain_medium drainL2_medium retire_medium
    apart_retired (.mk (by decide) hskip ⟨rfl, rfl, by decide, by decide⟩
      (knows_slowEnv (fun _ => rfl) _ _) free_limited apart_limited)

/-- A thread with a cache releases it for good under a soft limit, with memory at hand. -/
theorem releaseThread_releases_iff_limited : limitedBooks.slot 0 = 262144 ∧
    ThreadReleased limitedReleased 0 :=
  ⟨by decide, (releaseThread_releases_iff limitedBooks_run limitedReleased_step).2
    (Or.inr (Or.inl (by decide)))⟩

end V8Malloc
