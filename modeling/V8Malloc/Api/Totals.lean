import V8Malloc.Api.BookRuns
import V8Malloc.Api.Ring

/-!
# Allocation and free totals

The library counts allocations after it has served them and frees on entry.
The inlined way of `v8m_malloc` returns a slot without counting it, while the
free of that slot is counted. As long as no request takes that way, the two
totals differ by the number of blocks in use.
-/
namespace V8Malloc

open ByteMemory

variable {b b₁ b' : Books} {t ptr size fresh due : ℕ} {env : Env} {a' : Api} {asks : Bool}

/-- `due` frees are counted whose blocks are still in use. -/
structure Balanced (due : ℕ) (b : Books) : Prop where
  finite : b.world.world.pointers.Finite
  allocTotal : b.caches.totalAllocCount = BitVec.ofNat 64 b.allocs
  freeTotal : b.caches.totalFreeCount = BitVec.ofNat 64 b.frees
  balance : b.allocs + due = b.frees + b.world.world.pointers.ncard

theorem ofNat_succ (n : ℕ) : BitVec.ofNat 64 (n + 1) = BitVec.ofNat 64 n + 1 :=
  BitVec.ofNat_add n 1

/-! ### Blocks in use -/

theorem Answers.pointers {w : ApiWorld} (h : Answers w a' ptr size) :
    (w.answer a' ptr size).world.pointers =
      if ptr = 0 then w.world.pointers else insert ptr w.world.pointers := by
  rw [h.world_eq]
  ext q
  by_cases hzero : ptr = 0
  · simp [hzero, ApiWorld.world, World.pointers]
  · by_cases hq : q = ptr <;> simp [hzero, hq, ApiWorld.world, World.pointers]

/-- A new block in use. -/
theorem Answers.ncard {w : ApiWorld} (h : Answers w a' ptr size) (hne : ptr ≠ 0)
    (hfinite : w.world.pointers.Finite) :
    (w.answer a' ptr size).world.pointers.Finite ∧
      (w.answer a' ptr size).world.pointers.ncard = w.world.pointers.ncard + 1 := by
  have hnew : ptr ∉ w.world.pointers := fun hmem => hmem (h.fresh hne)
  rw [h.pointers, if_neg hne]
  exact ⟨hfinite.insert ptr, Set.ncard_insert_of_notMem hnew hfinite⟩

theorem Balanced.give (hbal : Balanced due b) (hb : BookInv b)
    (hanswer : Answers b.world a' ptr size) (t : ℕ) :
    Balanced due (b.give t true a' ptr size) := by
  by_cases hzero : ptr = 0
  · have hpointers : (b.give t true a' ptr size).world.world.pointers =
        b.world.world.pointers := by
      change (b.world.answer a' ptr size).world.pointers = _
      rw [hanswer.pointers, if_pos hzero]
    have hcaches : (b.give t true a' ptr size).caches = b.caches := by
      simp [Books.give, Books.caches, hzero]
    have hallocs : (b.give t true a' ptr size).allocs = b.allocs := by simp [Books.give, hzero]
    exact ⟨hpointers ▸ hbal.finite, by rw [hcaches, hallocs, hbal.allocTotal],
      by rw [hcaches, hbal.freeTotal]; rfl, by rw [hpointers, hallocs]; exact hbal.balance⟩
  · obtain ⟨hfinite, hcard⟩ := hanswer.ncard hzero hbal.finite
    obtain ⟨hallocs, hfrees⟩ := totals_recordAlloc hb.caches t
    have hcount : (b.give t true a' ptr size).allocs = b.allocs + 1 := by
      simp [Books.give, hzero]
    refine ⟨hfinite, ?_, ?_, ?_⟩
    · rw [caches_give b t a' hzero, hallocs, hbal.allocTotal, hcount, ofNat_succ]
    · rw [caches_give b t a' hzero, hfrees, hbal.freeTotal]
      rfl
    · change _ = b.frees + (b.world.answer a' ptr size).world.pointers.ncard
      have hbalance := hbal.balance
      omega

theorem Balanced.opens (hbal : Balanced due b) (hb : BookInv b)
    (hopens : Opens t asks b fresh b₁) : Balanced due b₁ := by
  cases hopens with
  | skip => exact hbal
  | @create env a' _ hslot hdead _ _ _ hlegal hok =>
    obtain ⟨L, blk, hw⟩ := hb.api
    have hanswer := (v8mAlignedAlloc_given hw.inv.inv hw.inv.calm hlegal hok).answers hw hb.ready
      hlegal.outside
    have hcaches : (b.opened t a' fresh).caches = (b.caches.getOrCreate t fresh).2 := rfl
    rcases b.caches.getOrCreate_cases t fresh (hb.caches.idle t) with
      ⟨heq, hsame⟩ | ⟨heq, -, -, hne⟩ <;> rw [heq] at hcaches
    · have hzero : fresh = 0 := by
        rcases hsame with h | h | h
        · exact absurd hslot h
        · simp [hdead] at h
        · exact h
      have hpointers : (b.opened t a' fresh).world.world.pointers = b.world.world.pointers := by
        change (b.world.answer a' fresh cacheStructSize).world.pointers = _
        rw [hanswer.pointers, if_pos hzero]
      have hallocs : (b.opened t a' fresh).allocs = b.allocs := by simp [Books.opened, hzero]
      exact ⟨hpointers ▸ hbal.finite, by rw [hcaches, hallocs, hbal.allocTotal],
        by rw [hcaches, hbal.freeTotal]; rfl, by rw [hpointers, hallocs]; exact hbal.balance⟩
    · have hnew : fresh ∉ b.caches.structs := fun hmem =>
        (hb.structs fresh hmem).1 (hanswer.fresh hne)
      obtain ⟨hfinite, hcard⟩ := hanswer.ncard hne hbal.finite
      obtain ⟨htotal, hfrees⟩ := totals_created (t := t) hb.caches hne hnew
      have hallocs : (b.opened t a' fresh).allocs = b.allocs + 1 := by simp [Books.opened, hne]
      refine ⟨hfinite, ?_, ?_, ?_⟩
      · rw [hcaches, htotal, hbal.allocTotal, hallocs, ofNat_succ]
      · rw [hcaches, hfrees, hbal.freeTotal]
        rfl
      · change _ = b.frees + (b.world.answer a' fresh cacheStructSize).world.pointers.ncard
        have hbalance := hbal.balance
        omega

theorem Balanced.recordFree (hbal : Balanced due b) (hb : BookInv b) (t : ℕ) :
    Balanced (due + 1) (b.recordFree t) := by
  obtain ⟨hallocs, hfrees⟩ := totals_recordFree hb.caches t
  have hbalance := hbal.balance
  refine ⟨hbal.finite, hallocs.trans hbal.allocTotal, ?_, ?_⟩
  · change (b.caches.recordFreeCache (b.caches.tls t).cache).totalFreeCount =
      BitVec.ofNat 64 (b.frees + 1)
    rw [hfrees, hbal.freeTotal, ofNat_succ]
  · change b.allocs + (due + 1) = b.frees + 1 + b.world.world.pointers.ncard
    omega

theorem Balanced.take (hbal : Balanced (due + 1) b) (hb : BookInv b)
    (hheld : b.world.held ptr ≠ none) (env : Env) (a' : Api) :
    Balanced due (b.take env a' ptr) := by
  obtain ⟨L, blk, hw⟩ := hb.api
  have hpointers : (b.take env a' ptr).world.world.pointers = b.world.world.pointers \ {ptr} := by
    change (b.world.release env a' ptr).world.pointers = _
    rw [release_ready hw hb.ready hheld]
    exact pointers_release b.world.world a'.sys ptr
  have hcard := Set.ncard_sdiff_singleton_add_one (a := ptr) hheld hbal.finite
  have hbalance := hbal.balance
  refine ⟨by rw [hpointers]; exact hbal.finite.sdiff, hbal.allocTotal, hbal.freeTotal, ?_⟩
  rw [hpointers]
  change b.allocs + due = b.frees + _
  change _ = b.frees + b.world.world.pointers.ncard at hbalance
  omega

theorem Balanced.frees (hbal : Balanced 0 b) (hb : BookInv b)
    (hfrees : Frees t env ptr fresh b b') : Balanced 0 b' := by
  cases hfrees with
  | @mk b₁ a' hheld hopens _ _ _ _ =>
    have hrecorded := hb.recordFree t
    have hopened := (hbal.recordFree hb t).opens hrecorded hopens
    obtain ⟨hb₁, hstay⟩ := hrecorded.opens hopens
    exact hopened.take hb₁ (hstay ptr hheld).1 env a'

/-- A retired cache hands its counts over. -/
theorem Balanced.retire (hbal : Balanced due b) (hb : BookInv b) (hslot : b.slot t ≠ 0) (s : Sys)
    (v : Tls) : Balanced due (b.retire s t v) := by
  obtain ⟨hallocs, hfrees⟩ := totals_detached hb.caches hslot v
  exact ⟨hbal.finite, hallocs.trans hbal.allocTotal, hfrees.trans hbal.freeTotal, hbal.balance⟩

theorem Balanced.exit (hbal : Balanced due b) (t : ℕ) : Balanced due (b.exit t) :=
  ⟨hbal.finite, hbal.allocTotal, hbal.freeTotal, hbal.balance⟩

theorem Balanced.setApi (hbal : Balanced due b) (a : Api) : Balanced due (b.setApi a) :=
  ⟨hbal.finite, hbal.allocTotal, hbal.freeTotal, hbal.balance⟩

/-! ### Runs -/

/-- No request is served by the inlined way of `v8m_malloc`. -/
def Uninlined (b : Books) : BookEvent → Prop
  | .malloc env size => fastHit env b.api size = false
  | _ => True

/-- A thread that comes to create its cache has no bins for the inlined way. -/
theorem fastHit_opens (hopens : Opens t asks b fresh b₁) (hby : env.By t b b₁)
    (hmiss : fastHit env b.api size = false) : fastHit env b₁.api size = false := by
  cases hopens with
  | skip => exact hmiss
  | create _ hslot _ _ _ _ _ _ =>
    have hpeek : env.peek = false := by simp [hby.peek, hslot]
    simp [fastHit, hpeek]

theorem Balanced.step {e : BookEvent} (hbal : Balanced 0 b) (hb : BookInv b)
    (hok : Uninlined b e) (hstep : BookStep b e b') : Balanced 0 b' := by
  cases hstep with
  | malloc _ hopens hby hlegal hmalloc =>
    obtain ⟨hanswer, hb₁, -⟩ :=
      hb.given hopens hby hlegal true fun hs hc => v8mMalloc_given hs hc hlegal hmalloc
    rw [fastHit_opens hopens hby hok]
    exact (hbal.opens hb hopens).give hb₁ hanswer _
  | calloc _ hopens hby hlegal hcalloc =>
    obtain ⟨hanswer, hb₁, -⟩ := hb.v8mCalloc hopens hby hlegal hcalloc true
    exact (hbal.opens hb hopens).give hb₁ hanswer _
  | alignedAlloc _ hopens hby hlegal halloc =>
    obtain ⟨hanswer, hb₁, -⟩ :=
      hb.given hopens hby hlegal true fun hs hc => v8mAlignedAlloc_given hs hc hlegal halloc
    exact (hbal.opens hb hopens).give hb₁ hanswer _
  | free _ _ hfrees => exact hbal.frees hb hfrees
  | freeNull => exact hbal
  | reallocNull _ hopens hby hlegal hmalloc =>
    obtain ⟨hanswer, hb₁, -⟩ := hb.doMallocPc hopens hby hlegal hmalloc true
    exact (hbal.opens hb hopens).give hb₁ hanswer _
  | reallocZero _ _ hfrees => exact hbal.frees hb hfrees
  | @reallocKeep ptr size hheld _ hsize hkeep =>
    obtain ⟨hworld, -⟩ := hb.renote hheld hsize hkeep
    have hpointers : (b.world.renote ptr size).world.pointers = b.world.world.pointers := by
      rw [hworld]
      ext q
      by_cases hq : q = ptr
      · subst hq
        simpa [ApiWorld.world, World.pointers] using hheld
      · simp [ApiWorld.world, World.pointers, hq]
    exact ⟨hpointers ▸ hbal.finite, hbal.allocTotal, hbal.freeTotal, by
      change b.allocs + 0 = b.frees + (b.world.renote ptr size).world.pointers.ncard
      rw [hpointers]
      exact hbal.balance⟩
  | reallocFail _ _ _ hopens hby hlegal hmalloc =>
    obtain ⟨hanswer, hb₁, -⟩ := hb.doMallocPc hopens hby hlegal hmalloc true
    exact (hbal.opens hb hopens).give hb₁ hanswer _
  | @reallocMove t ptr size new fresh freshFree env envFree mid filled b₁ _ _ hptr hheld hsize
      hmove hopens hby hlegal hmalloc hne hfill hplain hfrees =>
    obtain ⟨hanswer, hb₁, hgive⟩ := hb.doMallocPc hopens hby hlegal hmalloc true
    have hfilled := hgive.fill hanswer hne hfill hplain
    have hgiven := (hbal.opens hb hopens).give hb₁ hanswer t
    exact (hgiven.setApi filled).frees hfilled hfrees
  | initThread _ hopens => exact hbal.opens hb hopens
  | release ht hslot hthread hall hl2 hretire hapart hfrees =>
    have hretired := hb.retireRelease ht hthread hslot hall hl2 hretire hapart
    exact (hbal.retire hb hslot _ _).frees hretired hfrees
  | exit _ _ hslot hthread hretire hapart hfrees =>
    have hretired := hb.retireExit hthread hslot hretire hapart
    exact ((hbal.retire hb hslot _ _).exit _).frees hretired hfrees
  | exitNone => exact hbal.exit _
  | setSoftLimit =>
    exact ⟨hbal.finite, hbal.allocTotal, hbal.freeTotal, hbal.balance⟩
  | releaseNone | setDebug | purgeThread | drainL2 | bgTick | purgeDrained | write | elsewhere =>
    exact hbal.setApi _

theorem balanced_init (a : Api) : Balanced 0 (.init a) := by
  have hnone : (Books.init a).world.world.pointers = ∅ := by
    ext q
    simp [Books.init, ApiWorld.world, World.pointers]
  refine ⟨?_, rfl, rfl, ?_⟩
  · rw [hnone]
    exact Set.finite_empty
  · rw [hnone, Set.ncard_empty]
    rfl

theorem BookRun.balanced (hrun : BookRun Uninlined b) : Balanced 0 b := by
  induction hrun with
  | init p _ _ _ => exact balanced_init _
  | step hrun hok hstep ih => exact ih.step hrun.bookInv hok hstep

/-- The totals differ by the number of blocks in use. Before the counters wrap, that is so for
their values as numbers. -/
theorem totals_differ_by_held (hrun : BookRun Uninlined b) : b.world.world.pointers.Finite ∧
    b.caches.totalAllocCount - b.caches.totalFreeCount =
      BitVec.ofNat 64 b.world.world.pointers.ncard ∧
    (b.allocs < 2 ^ 64 → b.caches.totalAllocCount.toNat =
      b.caches.totalFreeCount.toNat + b.world.world.pointers.ncard) := by
  obtain ⟨hfinite, hallocs, hfrees, hbalance⟩ := hrun.balanced
  refine ⟨hfinite, ?_, fun hlt => ?_⟩
  · rw [hallocs, hfrees, show b.allocs = b.frees + b.world.world.pointers.ncard by omega,
      BitVec.ofNat_add, add_sub_cancel_left]
  · rw [hallocs, hfrees, BitVec.toNat_ofNat, BitVec.toNat_ofNat, Nat.mod_eq_of_lt hlt,
      Nat.mod_eq_of_lt (by omega)]
    omega

/-! ### A request that is not counted -/

/-- The call that asks for the struct of the first cache, with an arena at hand. -/
def createCall : Call := { laterCall with cacheReady := false, arena := 262144 }

theorem answers_create : ∃ s', dispatchAllocAligned createCall (Sys.init emptyPool) cacheStructSize 64 =
    .ok (262144, s') :=
  answer_of_map (by decide +kernel)

/-- The dispatcher after that. -/
@[irreducible] def cachedState : Sys :=
  stateAfter (dispatchAllocAligned createCall (Sys.init emptyPool) cacheStructSize 64) (Sys.init emptyPool)

theorem cachedState_eq :
    dispatchAllocAligned createCall (Sys.init emptyPool) cacheStructSize 64 = .ok (262144, cachedState) := by
  obtain ⟨s', hok⟩ := answers_create
  unfold cachedState
  exact stateAfter_eq hok _

theorem answers_served : ∃ s', dispatchAlloc firstCall cachedState 24 = .ok (67752, s') :=
  answer_of_map (by decide +kernel)

/-- And after the first request of the thread, which has filled its bin. -/
@[irreducible] def servedState : Sys :=
  stateAfter (dispatchAlloc firstCall cachedState 24) cachedState

theorem servedState_eq : dispatchAlloc firstCall cachedState 24 = .ok (67752, servedState) := by
  obtain ⟨s', hok⟩ := answers_served
  unfold servedState
  exact stateAfter_eq hok _

/-- A request in service that the gate lets through, outside DEBUG. -/
theorem gatedAlloc_plain {a : Api} {s' : Sys} {ask : Call → Sys → Except Stop (ℕ × Sys)}
    (hlimit : a.softLimit = 0) (hdebug : a.debug = false) (hne : ptr ≠ 0)
    (hask : ask (a.call env) a.sys = .ok (ptr, s')) :
    gatedAlloc env a size ask = .ok (ptr, a.setSys s') := by
  have hgate : overSoftLimit env a size = (false, a) := by rw [overSoftLimit, if_pos hlimit]
  rw [gatedAlloc, hgate]
  dsimp only
  rw [if_neg Bool.false_ne_true, bind_ok_iff]
  refine ⟨(ptr, s'), hask, ?_⟩
  dsimp only
  rw [if_neg hne, postAllocRecord_off hdebug]
  rfl

theorem create_struct : v8mAlignedAlloc (slowEnv createCall) readyWorld.api 64 cacheStructSize =
    .ok (262144, readyWorld.api.setSys cachedState) := by
  have hpow : (!isPow2 64) = false := by decide
  rw [v8mAlignedAlloc, hpow, if_neg Bool.false_ne_true, if_neg (by decide)]
  exact gatedAlloc_plain rfl rfl (by norm_num) cachedState_eq

theorem serve_first : v8mMalloc (slowEnv firstCall) (readyWorld.api.setSys cachedState) 24 =
    .ok (67752, readyWorld.api.setSys servedState) := by
  rw [v8mMalloc, if_neg (fun h => absurd h.1 (by decide)), doMallocPc, if_neg (by decide)]
  exact gatedAlloc_plain rfl rfl (by norm_num) servedState_eq

theorem serve_second : v8mMalloc fastEnv (readyWorld.api.setSys servedState) 24 =
    .ok (67728, readyWorld.api.setSys (servedState.cacheAlloc laterCall 2).2) := by
  have hserved : (servedState.cacheAlloc laterCall 2).1 = 67728 := by decide +kernel
  have hcall : (readyWorld.api.setSys servedState).sys.cacheAlloc
      ((readyWorld.api.setSys servedState).call fastEnv) (sizeClass 24) =
      servedState.cacheAlloc laterCall 2 := by
    rw [show sizeClass 24 = 2 by decide]
    rfl
  rw [v8mMalloc, if_pos ⟨rfl, by decide, rfl⟩]
  dsimp only
  rw [hcall, hserved, if_pos (by norm_num)]
  rfl

theorem offers_createCall {x : ℕ} (hx : createCall.Offers x) :
    262144 ≤ x ∧ x < 262144 + buddyMaxBlock := by
  rcases hx with ⟨p, hp, -⟩ | ⟨-, hin⟩ | ⟨n, hne, -⟩
  · exact absurd hp List.not_mem_nil
  · exact hin
  · exact absurd rfl hne

/-- Where the page heap maps in these runs is away from the buffers. -/
theorem inBuffers_low {x : ℕ} (hx : x < 2 ^ 20) : readyWorld.api.inBuffers x = false := by
  rw [← Bool.not_eq_true, Api.inBuffers, Bool.or_eq_true, bumpOwns_iff, bumpOwns_iff]
  simp only [readyWorld, Api.load]
  omega

theorem legal_createCall : Legal createCall (Sys.init emptyPool).heap where
  pages := ⟨fun _ hp => absurd hp List.not_mem_nil, List.nodup_nil⟩
  arena := fun _ => ⟨⟨by decide, by decide, by decide, by decide, by decide,
    fun x _ _ => not_taken_init _ x⟩, by decide, fun _ _ => rfl⟩
  regions := fun _ hne => absurd rfl hne
  owns := fun _ _ => rfl

/-- The arena of the struct is all that is taken. -/
theorem taken_cachedState {x : ℕ} (hx : cachedState.heap.Taken x) : 262144 ≤ x := by
  have hout := (dispatchAllocAligned_spec (sysInv_init emptyPool) (fun _ _ => by decide)
    legal_createCall cacheStructSize 64).of_ok cachedState_eq
  rcases hout.footprint.taken x hx with h | h
  · exact absurd h (not_taken_init _ x)
  · exact (offers_createCall h).1

theorem legal_first_cached : Legal firstCall cachedState.heap where
  pages := by
    refine ⟨fun p hp _ => ?_, by decide⟩
    obtain rfl : p = pageSize := by simpa [firstCall] using hp
    refine ⟨dvd_rfl, dvd_rfl, by decide, by decide, by decide, fun x _ hhi htaken => ?_⟩
    have hlow := taken_cachedState htaken
    unfold pageSize at hhi
    omega
  arena := fun hne => absurd rfl hne
  regions := fun _ hne => absurd rfl hne
  owns := fun _ _ => rfl

def cachedBooks : Books :=
  (Books.init readyWorld.api).opened 0 (readyWorld.api.setSys cachedState) 262144

/-- A thread has got its cache in its first request. -/
def servedBooks : Books := cachedBooks.give 0 true (readyWorld.api.setSys servedState) 67752 24

theorem api_cachedBooks : cachedBooks.api = readyWorld.api.setSys cachedState :=
  api_answer _ _ _ _

theorem api_servedBooks : servedBooks.api = readyWorld.api.setSys servedState :=
  api_answer _ _ _ _

theorem initBooks_run {ok : Books → BookEvent → Prop} : BookRun ok (.init readyWorld.api) :=
  .init emptyPool (by norm_num) (by norm_num) (Or.inl (by decide))

/-- The first call of a thread that looks for its cache. -/
theorem cachedBooks_opens : Opens 0 true (.init readyWorld.api) 262144 cachedBooks :=
  .create rfl rfl rfl rfl rfl rfl ⟨legal_createCall, fun x hx => inBuffers_low (by
    have hin := offers_createCall hx
    unfold buddyMaxBlock at hin
    omega)⟩ create_struct

theorem servedBooks_run {ok : Books → BookEvent → Prop}
    (hok : ok (.init readyWorld.api) (.malloc (slowEnv firstCall) 24)) :
    BookRun ok servedBooks := by
  have hby : (slowEnv firstCall).By 0 (.init readyWorld.api) cachedBooks :=
    ⟨rfl, rfl, rfl, by decide⟩
  have hlegal : (slowEnv firstCall).Legal cachedBooks.api 24 := by
    rw [api_cachedBooks]
    refine ⟨legal_first_cached, fun x hx => inBuffers_low ?_⟩
    have hin := offers_firstCall hx
    unfold pageSize at hin
    omega
  have hserve : v8mMalloc (slowEnv firstCall) cachedBooks.api 24 =
      .ok (67752, readyWorld.api.setSys servedState) := by
    rw [api_cachedBooks]
    exact serve_first
  have hmiss : fastHit (slowEnv firstCall) cachedBooks.api 24 = false := by simp [fastHit, slowEnv]
  have hstep := BookStep.malloc (by decide) cachedBooks_opens hby hlegal hserve
  rw [hmiss] at hstep
  exact .step initBooks_run hok hstep

theorem totals_differ_by_held_served : servedBooks.caches.totalAllocCount.toNat =
    servedBooks.caches.totalFreeCount.toNat + servedBooks.world.world.pointers.ncard :=
  (totals_differ_by_held (servedBooks_run (by simp [Uninlined, fastHit, slowEnv]))).2.2 (by decide)

/-- A slot from the inlined way puts balanced books out of balance. -/
theorem unbalanced_of_hit (hbal : Balanced 0 b) (hanswer : Answers b.world a' ptr size)
    (hne : ptr ≠ 0) (t : ℕ) :
    (b.give t false a' ptr size).caches.totalAllocCount -
      (b.give t false a' ptr size).caches.totalFreeCount ≠
    BitVec.ofNat 64 (b.give t false a' ptr size).world.world.pointers.ncard := by
  obtain ⟨-, hcard⟩ := hanswer.ncard hne hbal.finite
  have hcaches : (b.give t false a' ptr size).caches = b.caches := by
    simp [Books.give, Books.caches]
  have hbalance := hbal.balance
  rw [hcaches, hbal.allocTotal, hbal.freeTotal,
    show (b.give t false a' ptr size).world.world.pointers.ncard =
      b.world.world.pointers.ncard + 1 from hcard,
    show b.allocs = b.frees + b.world.world.pointers.ncard by omega, BitVec.ofNat_add,
    add_sub_cancel_left, ofNat_succ]
  intro heq
  have hone : (1 : BitVec 64) = 0 := by simpa using heq.symm
  exact absurd hone (by decide)

/-- The second request of the thread comes from its bin and is not counted. -/
theorem malloc_hit_uncounted : ∃ b, BookRun (fun _ _ => True) b ∧
    b.caches.totalAllocCount - b.caches.totalFreeCount ≠
      BitVec.ofNat 64 b.world.world.pointers.ncard := by
  have hrun : BookRun (fun _ _ => True) servedBooks := servedBooks_run trivial
  have hby : fastEnv.By 0 servedBooks servedBooks := ⟨rfl, rfl, by decide, by decide⟩
  have hlegal : fastEnv.Legal servedBooks.api 24 :=
    ⟨legal_laterCall _, fun x hx => absurd hx (not_offers_laterCall x)⟩
  have hserve : v8mMalloc fastEnv servedBooks.api 24 =
      .ok (67728, readyWorld.api.setSys (servedState.cacheAlloc laterCall 2).2) := by
    rw [api_servedBooks]
    exact serve_second
  have hhit : fastHit fastEnv servedBooks.api 24 = true := by
    have hbin : (servedState.caches 0).binHeads 2 ≠ 0 := by decide +kernel
    rw [api_servedBooks]
    simp only [fastHit, show sizeClass 24 = 2 by decide, Bool.and_eq_true, decide_eq_true_eq]
    exact ⟨⟨⟨rfl, by decide⟩, rfl⟩, hbin⟩
  have hopens := Opens.of_slot (mallocAsks fastEnv servedBooks.api 24) 0
    (show servedBooks.slot 0 ≠ 0 by decide)
  have hstep := BookStep.malloc (by decide) hopens hby hlegal hserve
  rw [hhit] at hstep
  obtain ⟨hanswer, -, -⟩ :=
    hrun.bookInv.given hopens hby hlegal true fun hs hc => v8mMalloc_given hs hc hlegal hserve
  exact ⟨_, hrun.step trivial hstep, unbalanced_of_hit
    (servedBooks_run (by simp [Uninlined, fastHit, slowEnv])).balanced hanswer (by norm_num) 0⟩

end V8Malloc
