import V8Malloc.Api.Ring

/-!
# The inlined paths

`v8m_malloc` and `v8m_free` serve the common case themselves: a pop from a bin
of the thread, or a push that leaves room. The ways they pass by decide the
same questions with other code. As long as the capacity controller does not run
in the middle, both ways end in the same state.
-/
namespace V8Malloc

open ByteMemory

variable {env : Env} {a a' : Api} {w : ApiWorld} {size ptr cls : ℕ}
variable {ok : ApiWorld → ApiEvent → Prop}

/-- `v8m_malloc` answers without `do_malloc_pc`. -/
def mallocInlined (env : Env) (a : Api) (size : ℕ) : Bool :=
  env.peek && decide (size ≤ smallMaxSize) && a.fastPathOk env &&
    (a.sys.cacheAlloc (a.call env) (sizeClass size)).1 != 0

/-- `v8m_free` answers without `v8m_free_slow`. -/
def freeInlined (env : Env) (a : Api) (ptr : ℕ) : Bool := (freeFastClass env a ptr).isSome

/-- The next operation on the cache of the thread runs the capacity controller. -/
def ticksGc (env : Env) (a : Api) : Bool :=
  decrement 32 (a.sys.caches env.call.thread).gcCountdown = 0

/-- The library is ready, the options that keep it off the inlined paths are off, it uses thread
caches, and a thread that has a cache gets that one. -/
structure FastConfig (env : Env) (a : Api) : Prop where
  ready : a.dispatchReady = true
  debug : a.debug = false
  lifetime : env.call.lifetimeTracking = false
  limit : a.softLimit = 0
  tlc : env.call.useTlc = true
  cache : env.peek = true → env.call.cacheReady = true

/-! ### Allocation -/

theorem mallocInlined_agrees (hp : FastConfig env a) (hinline : mallocInlined env a size = true) :
    v8mMalloc env a size = .ok ((a.sys.cacheAlloc (a.call env) (sizeClass size)).1,
        a.setSys (a.sys.cacheAlloc (a.call env) (sizeClass size)).2) ∧
      doMallocPc env a size = v8mMalloc env a size := by
  simp only [mallocInlined, Bool.and_eq_true, decide_eq_true_eq, bne_iff_ne, ne_eq] at hinline
  obtain ⟨⟨⟨hpeek, hsize⟩, hfast⟩, hhit⟩ := hinline
  have hmalloc : v8mMalloc env a size =
      .ok ((a.sys.cacheAlloc (a.call env) (sizeClass size)).1,
        a.setSys (a.sys.cacheAlloc (a.call env) (sizeClass size)).2) := by
    rw [v8mMalloc, if_pos ⟨hpeek, hsize, hfast⟩]
    dsimp only
    rw [if_pos hhit]
  have hgate : overSoftLimit env a size = (false, a) := if_pos hp.limit
  have halloc : dispatchAlloc (a.call env) a.sys size =
      .ok (a.sys.cacheAlloc (a.call env) (sizeClass size)) :=
    dispatchAlloc_hit hp.tlc (hp.cache hpeek) hp.lifetime hsize hhit
  refine ⟨hmalloc, ?_⟩
  rw [hmalloc, doMallocPc, if_neg (by simp [hp.ready]), gatedAlloc, hgate]
  dsimp only
  rw [if_neg Bool.false_ne_true, halloc]
  simp only [bind, Except.bind, if_neg hhit, postAllocRecord_off hp.debug]
  rfl

/-! ### Free -/

/-- A push that leaves room leaves room after it. -/
theorem cacheFree_room {call : Call} {s : Sys}
    (hroom : (s.caches call.thread).binCount cls + 1 < (s.caches call.thread).binCapacity cls)
    (hquiet : decrement 32 (s.caches call.thread).gcCountdown ≠ 0) :
    (s.cacheFree call cls ptr).1 = false := by
  simp only [Sys.cacheFree, threadCacheFree]
  split_ifs
  · rfl
  · have hcount : increment 16 ((s.caches call.thread).binCount cls) ≤
        (s.caches call.thread).binCount cls + 1 := Nat.mod_le _ _
    simp only [tlcTickGc, if_neg hquiet, Function.update_self, decide_eq_false_iff_not]
    omega

theorem freeInlined_agrees (hp : FastConfig env a) (hne : ptr ≠ 0)
    (hout : a.inBuffers ptr = false) (howns : env.call.owns ptr = true)
    (hquiet : ticksGc env a = false) (hinline : freeInlined env a ptr = true) :
    ∃ a', v8mFree env a ptr = .ok a' ∧ v8mFreeSlow env a ptr = .ok a' := by
  have hquiet : decrement 32 (a.sys.caches env.call.thread).gcCountdown ≠ 0 := by
    simpa [ticksGc] using hquiet
  obtain ⟨cls, hcls⟩ := Option.isSome_iff_exists.1 hinline
  have hfree : v8mFree env a ptr = .ok (a.setSys (a.sys.cacheFree (a.call env) cls ptr).2) := by
    rw [v8mFree, if_neg hne, hcls]
  refine ⟨_, hfree, ?_⟩
  unfold freeFastClass at hcls
  split_ifs at hcls with hfast
  cases hheader : a.sys.heap.headerAt (ptrToMeta ptr) with
  | none =>
    rw [hheader] at hcls
    cases hcls
  | some header =>
    cases header with
    | large block =>
      rw [hheader] at hcls
      cases hcls
    | slab page =>
      rw [hheader] at hcls
      dsimp only at hcls
      split_ifs at hcls with hroom
      cases hcls
      have hpush : dispatchFree (a.call env) a.sys ptr =
          .ok (a.sys.cacheFree (a.call env) page.sizeClass ptr).2 :=
        dispatchFree_bin hne howns hheader ⟨hp.tlc, hroom.1, hp.cache hfast.1⟩
          (cacheFree_room hroom.2 hquiet)
      have hnote : noteFree env a ptr = .ok a := by simp [noteFree, hp.debug]
      rw [v8mFreeSlow_ready hne hout hp.ready, hnote]
      simp only [bind, Except.bind, hpush]
      rfl

/-! ### The result -/

/-- Whatever the inlined paths answer, the others would have answered, and left the same state. -/
theorem inlined_paths_agree (hrun : ApiRun ok w) (hp : FastConfig env w.api)
    (hquiet : ticksGc env w.api = false) :
    (∀ size, mallocInlined env w.api size = true →
      ∃ out, v8mMalloc env w.api size = .ok out ∧ doMallocPc env w.api size = .ok out) ∧
    ∀ ptr, env.Knows w.api.sys.heap ptr → freeInlined env w.api ptr = true →
      ∃ a', v8mFree env w.api ptr = .ok a' ∧ v8mFreeSlow env w.api ptr = .ok a' := by
  refine ⟨fun size hinline => ?_, fun ptr hknows hinline => ?_⟩
  · obtain ⟨hmalloc, hsame⟩ := mallocInlined_agrees hp hinline
    exact ⟨_, hmalloc, hsame.trans hmalloc⟩
  · obtain ⟨L, blk, hw⟩ := hrun.apiInv
    -- the quick ownership check has found the pointer in a region
    have htaken : w.api.sys.heap.Taken ptr := by
      apply hknows.ownsFast
      unfold freeInlined freeFastClass at hinline
      split_ifs at hinline with hfast
      · exact hfast.2.1
      · cases hinline
    have hout := hw.apart ptr htaken
    have hne : ptr ≠ 0 := by
      obtain ⟨k, b, n, hr, hlo, -⟩ := htaken
      have hpos := (hw.inv.inv.account.inv.layout.fits _ _ _ hr).2.2.1
      omega
    exact freeInlined_agrees hp hne hout (hknows.owns ptr htaken) hquiet hinline

/-- The call of a thread that has its cache, about a pointer of the page heap. -/
def inlineEnv : Env := { slowEnv laterCall with peek := true, ownsFast := true }

/-- After a first request of 24 bytes: one more, and the free of the first. -/
theorem inlined_paths_agree_first :
    (∃ out, v8mMalloc inlineEnv firstWorld.api 24 = .ok out ∧
      doMallocPc inlineEnv firstWorld.api 24 = .ok out) ∧
    ∃ a', v8mFree inlineEnv firstWorld.api 67752 = .ok a' ∧
      v8mFreeSlow inlineEnv firstWorld.api 67752 = .ok a' := by
  have hready : ApiRun (fun _ _ => True) readyWorld := readyWorld_run trivial
  have hrun := firstWorld_run hready trivial
  have hconfig : FastConfig inlineEnv firstWorld.api := ⟨rfl, rfl, rfl, rfl, rfl, fun _ => rfl⟩
  have hquiet : ticksGc inlineEnv firstWorld.api = false := by decide +kernel
  have hknows : inlineEnv.Knows firstWorld.api.sys.heap 67752 := by
    obtain ⟨L, blk, hw⟩ := hrun.apiInv
    have hheld : firstWorld.world.held 67752 = some 24 := by simp [ApiWorld.world, firstWorld]
    obtain ⟨g, hg⟩ := hw.inv.inv.account.grant_of_held (World.mem_pointers hheld)
    exact ⟨fun _ _ => rfl, fun _ => hw.inv.inv.account.inv.taken hg⟩
  have hmalloc : mallocInlined inlineEnv firstWorld.api 24 = true := by decide +kernel
  have hfree : freeInlined inlineEnv firstWorld.api 67752 = true := by decide +kernel
  exact ⟨(inlined_paths_agree hrun hconfig hquiet).1 24 hmalloc,
    (inlined_paths_agree hrun hconfig hquiet).2 67752 hknows hfree⟩

end V8Malloc
