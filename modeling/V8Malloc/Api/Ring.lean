import V8Malloc.Api.Runs

/-!
# The double-free ring

With DEBUG on a freed pointer enters the ring and the next allocation that
answers it takes it out again. An allocation made with DEBUG off leaves the
record behind, and the next checked free of the pointer aborts the process.
When every allocation either runs with DEBUG on or finds an empty ring, no
pointer of the program is ever in the ring.
-/
namespace V8Malloc

open ByteMemory
open Function (update update_of_ne update_self)

variable {a a' : Api} {w w' : ApiWorld} {L : Stack → List ℕ} {blk : Blocks} {held : Set ℕ}
variable {env : Env} {size ptr new p : ℕ} {e : ApiEvent}

/-! ### The ring as a set of pointers -/

theorem ringHolds_iff {ring : ℕ → ℕ} :
    ringHolds ring ptr = true ↔ ∃ i < doubleFreeRingSize, ring i = ptr := by
  simp [ringHolds]

def RingEmpty (ring : ℕ → ℕ) : Prop := ∀ i < doubleFreeRingSize, ring i = 0

/-- Every pointer is in the ring at most once. -/
def RingDistinct (ring : ℕ → ℕ) : Prop :=
  ∀ i < doubleFreeRingSize, ∀ j < doubleFreeRingSize, ring i ≠ 0 → ring i = ring j → i = j

/-- Clearing a record leaves the other ones. -/
theorem debugClear_ring (hd : RingDistinct a.ring) (hptr : ptr ≠ 0) :
    RingDistinct (debugClearDoubleFreeRecord a ptr).ring ∧
      ∀ i < doubleFreeRingSize, (debugClearDoubleFreeRecord a ptr).ring i ≠ 0 →
        (debugClearDoubleFreeRecord a ptr).ring i = a.ring i ∧ a.ring i ≠ ptr := by
  unfold debugClearDoubleFreeRecord
  rw [if_neg hptr]
  cases hfind : (List.range doubleFreeRingSize).find? fun i => a.ring i = ptr with
  | none =>
    refine ⟨hd, fun i hi _ => ⟨rfl, fun heq => ?_⟩⟩
    have hno := List.find?_eq_none.1 hfind i (List.mem_range.2 hi)
    exact hno (by simpa using heq)
  | some k =>
    have hk : a.ring k = ptr := by simpa using List.find?_some hfind
    have hlt := List.mem_range.1 (List.mem_of_find?_eq_some hfind)
    have hkeep : ∀ i < doubleFreeRingSize, update a.ring k 0 i ≠ 0 →
        update a.ring k 0 i = a.ring i ∧ a.ring i ≠ ptr := by
      intro i hi hne
      have hik : i ≠ k := by
        intro heq
        rw [heq, update_self] at hne
        exact hne rfl
      refine ⟨update_of_ne hik _ _, fun heq => hik ?_⟩
      exact hd i hi k hlt (heq ▸ hptr) (heq.trans hk.symm)
    refine ⟨fun i hi j hj hne heq => ?_, hkeep⟩
    dsimp only at hne heq
    have hi' := hkeep i hi hne
    have hj' := hkeep j hj (heq ▸ hne)
    exact hd i hi j hj (hi'.1 ▸ hne) (by rw [← hi'.1, ← hj'.1, heq])

/-- After the record of an allocation its pointer is not in the ring. -/
theorem postAllocRecord_ring (hd : RingDistinct a.ring) (hptr : ptr ≠ 0)
    (hrec : a.debug = true ∨ RingEmpty a.ring) :
    RingDistinct (postAllocRecord a ptr).ring ∧
      ∀ i < doubleFreeRingSize, (postAllocRecord a ptr).ring i ≠ 0 →
        (postAllocRecord a ptr).ring i = a.ring i ∧ a.ring i ≠ ptr := by
  unfold postAllocRecord
  by_cases hdebug : a.debug = true
  · rw [if_pos hdebug]
    exact debugClear_ring hd hptr
  · rw [if_neg hdebug]
    exact ⟨hd, fun i hi hne => absurd (hrec.resolve_left hdebug i hi) hne⟩

/-! ### The invariant -/

/-- The ring holds no pointer that the program has. -/
structure RingInv (w : ApiWorld) : Prop where
  distinct : RingDistinct w.api.ring
  free : ∀ i < doubleFreeRingSize, w.api.ring i ≠ 0 → w.held (w.api.ring i) = none
  outside : ∀ i < doubleFreeRingSize, w.api.ring i ≠ 0 → w.api.inBuffers (w.api.ring i) = false

/-- The ring and the buffers are as they were and the program has nothing new. -/
theorem RingInv.of_same (hr : RingInv w) (hring : w'.api.ring = w.api.ring)
    (hplaces : w'.api.places = w.api.places)
    (hheld : ∀ p, w.held p = none → w'.held p = none) : RingInv w' := by
  refine ⟨by rw [hring]; exact hr.distinct, fun i hi hne => ?_, fun i hi hne => ?_⟩
  · rw [hring] at hne ⊢
    exact hheld _ (hr.free i hi hne)
  · rw [hring] at hne ⊢
    rw [inBuffers_congr hplaces]
    exact hr.outside i hi hne

/-- A pointer of the program is not in the ring. -/
theorem RingInv.not_holds (hr : RingInv w) (hw : ApiInv w L blk) (howns : w.Owns ptr) :
    ringHolds w.api.ring ptr = false := by
  rw [← Bool.not_eq_true, ringHolds_iff]
  rintro ⟨i, hi, rfl⟩
  have hne := hw.owns_ne_zero howns
  exact hw.held_of_owns howns (hr.outside i hi hne) (hr.free i hi hne)

/-- The step makes the dispatcher or the bootstrap buffer answer a request. -/
def Allocates (w : ApiWorld) : ApiEvent → Prop
  | .malloc _ | .calloc _ _ | .alignedAlloc _ _ => True
  | .realloc ptr size => ptr = 0 ∨ size ≠ 0 ∧ reallocInPlace w.api ptr size = false
  | _ => False

/-- Allocations are made with DEBUG on, or while no record is in the ring. -/
def Recorded (w : ApiWorld) (e : ApiEvent) : Prop :=
  Allocates w e → w.api.debug = true ∨ RingEmpty w.api.ring

/-- What an allocation answered leaves the ring. -/
theorem RingInv.answer (hr : RingInv w) (hw : ApiInv w L blk)
    (hgiven : Given env w.api blk w.world.pointers size ptr a')
    (hrec : w.api.debug = true ∨ RingEmpty w.api.ring) : RingInv (w.answer a' ptr size) := by
  cases hgiven with
  | @block s' g hanswer hfoot hissued hown heq =>
    obtain ⟨ring, hring⟩ := postAllocRecord_eq (w.api.setSys s') ptr
    have hplaces : a'.places = w.api.places := by rw [heq, hring]; rfl
    by_cases hzero : ptr = 0
    · rw [ApiWorld.answer, if_pos hzero]
      rw [hzero, postAllocRecord_null] at heq
      exact hr.of_same (by rw [heq]; rfl) hplaces fun _ hp => hp
    -- the records left are those of pointers that are still free
    have hrest : RingDistinct a'.ring ∧ ∀ i < doubleFreeRingSize, a'.ring i ≠ 0 →
        a'.ring i = w.api.ring i ∧ w.api.ring i ≠ ptr := by
      rw [heq]
      exact postAllocRecord_ring hr.distinct hzero hrec
    obtain ⟨hdistinct, hrest⟩ := hrest
    refine ⟨by rwa [api_answer], fun i hi hne => ?_, fun i hi hne => ?_⟩
    · rw [api_answer] at hne ⊢
      obtain ⟨hsame, hother⟩ := hrest i hi hne
      rw [hsame] at hne ⊢
      have hfree := hr.free i hi hne
      unfold ApiWorld.answer
      rw [if_neg hzero]
      split_ifs
      · exact hfree
      · exact (update_of_ne hother _ _).trans hfree
    · rw [api_answer] at hne ⊢
      obtain ⟨hsame, -⟩ := hrest i hi hne
      rw [inBuffers_congr hplaces, hsame]
      rw [hsame] at hne
      exact hr.outside i hi hne
  | piece hready hok =>
    obtain ⟨hplaces, -, hring, hne, -⟩ := bootstrapAlloc_piece hw.buffers hok
    rw [answer_piece w hne (bootstrapAlloc_owns hw.buffers hok).2]
    exact hr.of_same hring hplaces fun _ hp => hp

/-- A checked free puts a pointer that was not in the ring into one slot. -/
theorem noteFree_ring {a₁ : Api} (hd : RingDistinct a.ring) (hok : noteFree env a ptr = .ok a₁) :
    RingDistinct a₁.ring ∧ ∀ i < doubleFreeRingSize, a₁.ring i = a.ring i ∨ a₁.ring i = ptr := by
  unfold noteFree at hok
  split_ifs at hok
  · unfold debugCheckDoubleFree at hok
    split_ifs at hok with hholds
    cases hok
    have hnot : ∀ i < doubleFreeRingSize, a.ring i ≠ ptr := by
      intro i hi heq
      exact hholds (ringHolds_iff.2 ⟨i, hi, heq⟩)
    refine ⟨fun i hi j hj hne heq => ?_, fun i hi => ?_⟩
    · dsimp only at hne heq
      by_cases his : i = a.ringIdx % doubleFreeRingSize
      · by_cases hjs : j = a.ringIdx % doubleFreeRingSize
        · rw [his, hjs]
        · rw [his, update_self, update_of_ne hjs] at heq
          exact absurd heq.symm (hnot j hj)
      · by_cases hjs : j = a.ringIdx % doubleFreeRingSize
        · rw [hjs, update_self, update_of_ne his] at heq
          exact absurd heq (hnot i hi)
        · rw [update_of_ne his, update_of_ne hjs] at heq
          rw [update_of_ne his] at hne
          exact hd i hi j hj hne heq
    · dsimp only
      by_cases his : i = a.ringIdx % doubleFreeRingSize
      · rw [his, update_self]
        exact Or.inr rfl
      · exact Or.inl (update_of_ne his _ _)
  · cases hok
    exact ⟨hd, fun _ _ => Or.inl rfl⟩

theorem RingInv.release (hr : RingInv w) (hw : ApiInv w L blk)
    (hknows : env.Knows w.api.sys.heap ptr) (howns : w.Owns ptr)
    (hok : v8mFree env w.api ptr = .ok a') : RingInv (w.release env a' ptr) := by
  have hnone : ∀ {held : ℕ → Option ℕ} (p : ℕ), held p = none →
      update held ptr none p = none := by
    intro held p hp
    by_cases heq : p = ptr
    · rw [heq, update_self]
    · rwa [update_of_ne heq]
  rcases howns with ⟨hheld, -⟩ | hbump
  · have hout := hw.held_outside hheld
    cases hw.returned hknows hheld hok with
    | @bin s' hfast hfreed heq =>
      rw [release_block hout (Or.inl hfast)]
      subst heq
      exact hr.of_same rfl rfl hnone
    | @block a₁ s' hfast hready hnote hfreed heq =>
      rw [release_block hout (Or.inr hready)]
      obtain ⟨ring, ringIdx, ha₁⟩ := noteFree_eq hnote
      have hplaces : a'.places = w.api.places := by rw [heq, ha₁]; rfl
      obtain ⟨hdistinct, hslots⟩ := noteFree_ring hr.distinct hnote
      have hring : a'.ring = a₁.ring := by rw [heq]; rfl
      refine ⟨by rwa [hring], fun i hi hne => ?_, fun i hi hne => ?_⟩
      · dsimp only at hne ⊢
        rw [hring] at hne ⊢
        rcases hslots i hi with hsame | hptr
        · rw [hsame] at hne ⊢
          exact hnone _ (hr.free i hi hne)
        · rw [hptr, update_self]
      · dsimp only at hne ⊢
        rw [hring] at hne ⊢
        rw [inBuffers_congr hplaces]
        rcases hslots i hi with hsame | hptr
        · rw [hsame] at hne ⊢
          exact hr.outside i hi hne
        · rwa [hptr]
    | dropped hfast hready heq =>
      rw [release_dropped hout hfast hready]
      subst heq
      exact hr.of_same rfl rfl fun _ hp => hp
  · obtain ⟨n, hn⟩ := Option.ne_none_iff_exists'.1 hbump
    have hin := (hw.bumps ptr n hn).1
    have heq := v8mFree_buffer hw.apart hknows hin hok
    rw [release_piece hin]
    subst heq
    exact hr.of_same rfl rfl fun _ hp => hp

/-! ### Runs -/

theorem RingInv.calloc {nmemb : ℕ} (hr : RingInv w) (hw : ApiInv w L blk)
    (hlegal : env.Legal w.api (nmemb * size))
    (hok : v8mCalloc env w.api nmemb size = .ok (ptr, a'))
    (hrec : w.api.debug = true ∨ RingEmpty w.api.ring) :
    RingInv (w.answer a' ptr (nmemb * size)) := by
  rcases v8mCalloc_cases hok with ⟨rfl, rfl⟩ | ⟨a₁, hmalloc, rfl | ⟨hne, rfl⟩⟩
  · exact hr.answer hw (given_null env hw.inv.inv hw.inv.calm _) hrec
  · exact hr.answer hw (doMallocPc_given hw.inv.inv hw.inv.calm hlegal hmalloc) hrec
  · rw [answer_setApi w (places_setMem a₁ _)]
    have hr₁ := hr.answer hw (doMallocPc_given hw.inv.inv hw.inv.calm hlegal hmalloc) hrec
    refine hr₁.of_same ?_ ?_ fun _ hp => hp
    · rw [api_answer]
      rfl
    · rw [api_answer]
      rfl

/-- The ring while a block is moved: the new block is there, the old one not yet given back. -/
theorem RingInv.moved {mid filled : Api} {oldUsable : ℕ} (hr : RingInv w) (hw : ApiInv w L blk)
    (hlegal : env.Legal w.api size) (hok : doMallocPc env w.api size = .ok (new, mid))
    (hrec : w.api.debug = true ∨ RingEmpty w.api.ring)
    (hfill : reallocFill env mid oldUsable new ptr size = filled) :
    RingInv (w.answer filled new size) := by
  have hr₁ := hr.answer hw (doMallocPc_given hw.inv.inv hw.inv.calm hlegal hok) hrec
  obtain ⟨m', hm'⟩ := reallocFill_eq env mid oldUsable new ptr size
  rw [← hfill, hm', answer_setApi w (places_setMem mid m')]
  refine hr₁.of_same ?_ ?_ fun _ hp => hp
  · rw [api_answer]
    rfl
  · rw [api_answer]
    rfl

theorem RingInv.step (hr : RingInv w) (hw : ApiInv w L blk) (hstep : ApiStep w e w')
    (hrec : Recorded w e) : RingInv w' := by
  have hs := hw.inv.inv
  have hc := hw.inv.calm
  cases hstep with
  | malloc hlegal hok => exact hr.answer hw (v8mMalloc_given hs hc hlegal hok) (hrec trivial)
  | calloc hlegal hok => exact hr.calloc hw hlegal hok (hrec trivial)
  | alignedAlloc hlegal hok =>
    exact hr.answer hw (v8mAlignedAlloc_given hs hc hlegal hok) (hrec trivial)
  | signalSafeAlloc size =>
    obtain ⟨hplaces, -, hring, hin⟩ := signalSafeAlloc_piece hw.buffers size
    apply hr.of_same
    · rw [api_answer]
      exact hring
    · rw [api_answer]
      exact hplaces
    · intro p hp
      unfold ApiWorld.answer
      rw [inBuffers_congr hplaces]
      split_ifs with hzero hbuf
      · exact hp
      · exact hp
      · exact absurd (by rw [Api.inBuffers, hin hzero, Bool.or_true]) hbuf
  | free hknows howns hok => exact hr.release hw hknows howns hok
  | freeNull => exact hr
  | reallocNull hlegal hok =>
    exact hr.answer hw (doMallocPc_given hs hc hlegal hok) (hrec (Or.inl rfl))
  | reallocZero hknows howns hok => exact hr.release hw hknows howns hok
  | @reallocKeep ptr size howns hsize hkeep =>
    unfold ApiWorld.renote
    split_ifs with hin
    · exact hr.of_same rfl rfl fun _ hp => hp
    · refine hr.of_same rfl rfl fun p hp => ?_
      have hne : p ≠ ptr := by
        rintro rfl
        exact hw.held_of_owns howns (by simpa using hin) hp
      exact (update_of_ne hne _ _).trans hp
  | reallocFail howns hsize hmove hlegal hok =>
    have hanswer := hr.answer hw (doMallocPc_given hs hc hlegal hok) (hrec (Or.inr ⟨hsize, hmove⟩))
    rwa [ApiWorld.answer, if_pos rfl] at hanswer
  | reallocMove howns hsize hmove hlegal hok hne hfill hplain hknows hfree =>
    obtain ⟨⟨L', blk', hfilled⟩, -, hkeep⟩ := hw.moving hlegal hok hne hfill hplain
    have hr₁ := hr.moved hw hlegal hok (hrec (Or.inr ⟨hsize, hmove⟩)) hfill
    exact hr₁.release hfilled (hkeep hknows) (owns_answer howns _ _ _) (by rwa [api_answer])
  | setDebug on => exact hr.of_same rfl rfl fun _ hp => hp
  | setSoftLimit limit => exact hr.of_same rfl rfl fun _ hp => hp
  | lifecycle state => exact hr.of_same rfl rfl fun _ hp => hp
  | upkeep hup => exact hr.of_same rfl rfl fun _ hp => hp
  | write hm => exact hr.of_same rfl rfl fun _ hp => hp
  | elsewhere hm => exact hr.of_same rfl rfl fun _ hp => hp

theorem ApiRun.ringInv (hrun : ApiRun Recorded w) : RingInv w := by
  induction hrun with
  | load p hboot hsafe hapart =>
    exact ⟨fun i _ j _ hne => absurd rfl hne, fun i _ hne => absurd rfl hne,
      fun i _ hne => absurd rfl hne⟩
  | step hrun hrec hstep hapart ih =>
    obtain ⟨L, blk, hw⟩ := hrun.apiInv
    exact ih.step hw hstep hrec

theorem debugCheckDoubleFree_of_not_holds (hnot : ringHolds a.ring ptr = false) :
    ∃ a', debugCheckDoubleFree a ptr = .ok a' := by
  unfold debugCheckDoubleFree
  rw [hnot, if_neg Bool.false_ne_true]
  exact ⟨_, rfl⟩

/-- A pointer of the program passes the check, in a free and in the free of a moving resize. -/
theorem debugCheckDoubleFree_passes (hrun : ApiRun Recorded w) (howns : w.Owns ptr) :
    (∃ a', debugCheckDoubleFree w.api ptr = .ok a') ∧
      ∀ (env : Env) (size new : ℕ) (mid : Api), env.Legal w.api size → size ≠ 0 →
        reallocInPlace w.api ptr size = false → Recorded w (.realloc ptr size) →
        doMallocPc env w.api size = .ok (new, mid) →
        ∃ a', debugCheckDoubleFree
          (reallocFill env mid (reallocOldUsable w.api ptr) new ptr size) ptr = .ok a' := by
  obtain ⟨L, blk, hw⟩ := hrun.apiInv
  have hr := hrun.ringInv
  refine ⟨debugCheckDoubleFree_of_not_holds (hr.not_holds hw howns), ?_⟩
  intro env size new mid hlegal hsize hmove hrec hok
  have hgiven := doMallocPc_given hw.inv.inv hw.inv.calm hlegal hok
  obtain ⟨⟨L', blk', hinv⟩, -⟩ := hw.answer hgiven hlegal.outside
  have hr₁ := hr.answer hw hgiven (hrec (Or.inr ⟨hsize, hmove⟩))
  have hnot := hr₁.not_holds hinv (owns_answer howns _ _ _)
  rw [api_answer] at hnot
  obtain ⟨m', hm'⟩ := reallocFill_eq env mid (reallocOldUsable w.api ptr) new ptr size
  apply debugCheckDoubleFree_of_not_holds
  rw [hm']
  exact hnot

/-! ### A record left behind -/

/-- The state a call leaves, if it returns. -/
def stateAfter (out : Except Stop (ℕ × Sys)) (s : Sys) : Sys :=
  match out with
  | .ok out => out.2
  | .error _ => s

theorem stateAfter_eq {out : Except Stop (ℕ × Sys)} {s' : Sys} (hok : out = .ok (ptr, s'))
    (s : Sys) : out = .ok (ptr, stateAfter out s) := by
  subst hok
  rfl

/-- The state after a first request. -/
@[irreducible] def firstState : Sys :=
  stateAfter (dispatchAlloc firstCall (Sys.init emptyPool) 24) (Sys.init emptyPool)

theorem firstState_eq :
    dispatchAlloc firstCall (Sys.init emptyPool) 24 = .ok (67752, firstState) := by
  obtain ⟨s', hok⟩ := answers_first
  unfold firstState
  exact stateAfter_eq hok _

/-- The environment of a call without the inlined ways. -/
def slowEnv (call : Call) : Env where
  call := call
  peek := false
  ownsFast := false
  live := 0
  livePurged := 0
  noise := fun _ => 0

/-- A later call of the first thread; the page heap offers it nothing. -/
def laterCall : Call := { firstCall with pages := [] }

theorem legal_laterCall (h : Heap) : Legal laterCall h where
  pages := ⟨fun _ hp => absurd hp List.not_mem_nil, List.nodup_nil⟩
  arena := fun hne => absurd rfl hne
  regions := fun _ hne => absurd rfl hne
  owns := fun _ _ => rfl

theorem not_offers_laterCall (x : ℕ) : ¬ laterCall.Offers x := by
  rintro (⟨p, hp, -⟩ | ⟨hne, -⟩ | ⟨n, hne, -⟩)
  · exact absurd hp List.not_mem_nil
  · exact hne rfl
  · exact hne rfl

theorem offers_firstCall {x : ℕ} (hx : firstCall.Offers x) :
    pageSize ≤ x ∧ x < 2 * pageSize := by
  rcases hx with ⟨p, hp, -, hin⟩ | ⟨hne, -⟩ | ⟨n, hne, -⟩
  · obtain rfl : p = pageSize := by simpa [firstCall] using hp
    omega
  · exact absurd rfl hne
  · exact absurd rfl hne

/-- The library in service, its buffers away from where the page heap maps. -/
def readyWorld : ApiWorld :=
  ⟨{ Api.load emptyPool (2 ^ 20) (2 ^ 21) with initState := .ready }, fun _ => none,
    fun _ => none, ∅⟩

theorem readyWorld_run {ok : ApiWorld → ApiEvent → Prop}
    (hok : ok ⟨Api.load emptyPool (2 ^ 20) (2 ^ 21), fun _ => none, fun _ => none, ∅⟩
      (.lifecycle .ready)) : ApiRun ok readyWorld :=
  (ApiRun.load emptyPool (by norm_num) (by norm_num) (Or.inl (by decide))).lifecycle .ready hok

/-- A first request of the program, served from a fresh page. -/
def firstWorld : ApiWorld :=
  { readyWorld with
    api := readyWorld.api.setSys firstState
    held := update readyWorld.held 67752 (some 24) }

theorem doMallocPc_first (hsys : a.sys = Sys.init emptyPool) (hready : a.dispatchReady = true)
    (hdebug : a.debug = false) (hlimit : a.softLimit = 0) :
    doMallocPc (slowEnv firstCall) a 24 = .ok (67752, a.setSys firstState) := by
  have hgate : overSoftLimit (slowEnv firstCall) a 24 = (false, a) := if_pos hlimit
  have hcall : a.call (slowEnv firstCall) = firstCall := by
    simp [Api.call, slowEnv, hdebug, hlimit, firstCall]
  rw [doMallocPc, if_neg (by simp [hready]), gatedAlloc, hgate]
  dsimp only
  rw [if_neg Bool.false_ne_true, hcall, hsys, bind_ok_iff]
  refine ⟨(67752, firstState), firstState_eq, ?_⟩
  dsimp only
  rw [if_neg (by norm_num), postAllocRecord_off hdebug]
  rfl

theorem first_malloc : v8mMalloc (slowEnv firstCall) readyWorld.api 24 =
    .ok (67752, readyWorld.api.setSys firstState) := by
  have hfast : ¬((slowEnv firstCall).peek = true ∧ 24 ≤ smallMaxSize ∧
      readyWorld.api.fastPathOk (slowEnv firstCall) = true) := fun h => absurd h.1 (by decide)
  rw [v8mMalloc, if_neg hfast]
  exact doMallocPc_first rfl rfl rfl rfl

theorem legal_slowEnv_first (hplaces : a.places = readyWorld.api.places)
    (hsys : a.sys = Sys.init emptyPool) (hlimit : a.softLimit = 0) :
    (slowEnv firstCall).Legal a 24 := by
  constructor
  · rw [show overSoftLimit (slowEnv firstCall) a 24 = (false, a) from if_pos hlimit, hsys]
    exact legal_firstCall
  · intro x hx
    have hin := offers_firstCall hx
    rw [inBuffers_congr hplaces, ← Bool.not_eq_true, Api.inBuffers, Bool.or_eq_true, bumpOwns_iff,
      bumpOwns_iff]
    unfold pageSize at hin
    simp only [readyWorld, Api.load, bootstrapSize, signalSafeSize, pageSize]
    omega

theorem firstWorld_eq :
    readyWorld.answer (readyWorld.api.setSys firstState) 67752 24 = firstWorld := by
  have hout : (readyWorld.api.setSys firstState).inBuffers 67752 = false := by decide
  rw [ApiWorld.answer, if_neg (by norm_num), hout, if_neg Bool.false_ne_true]
  rfl

theorem firstWorld_run {ok : ApiWorld → ApiEvent → Prop} (hrun : ApiRun ok readyWorld)
    (hok : ok readyWorld (.malloc 24)) : ApiRun ok firstWorld := by
  rw [← firstWorld_eq]
  exact hrun.malloc hok (legal_slowEnv_first rfl rfl rfl) first_malloc

theorem firstWorld_owns : firstWorld.Owns 67752 := Or.inl ⟨by simp [firstWorld], id⟩

/-- The block of the first request is a slot of its class. -/
theorem first_grant : ∃ blk, HeapInv firstState.heap blk ∧
    blk 67752 = some ⟨24, .slab 2 arenaDefault⟩ := by
  have hout := (dispatchAlloc_spec (sysInv_init emptyPool) (fun _ _ => by decide) legal_firstCall
    24).of_ok firstState_eq
  have hgrant : requestGrant firstCall (max 24 1) = ⟨24, .slab 2 arenaDefault⟩ := by decide
  exact hgrant ▸ hout.served.grant_inv (by norm_num)

theorem first_header : ∃ page, firstState.heap.headerAt (ptrToMeta 67752) = some (.slab page) ∧
    page.sizeClass = 2 ∧ page.arenaId = arenaDefault := by
  obtain ⟨blk', hinv, hg⟩ := first_grant
  obtain ⟨page, hheader, hcls, harena, -⟩ := hinv.headerAt_slab hg
  exact ⟨page, hheader, hcls, harena⟩

/-- The bin of the thread takes the block back. -/
@[irreducible] def freedState : Sys := (firstState.cacheFree firstCall 2 67752).2

/-- The dispatcher takes a slot of the bin of the thread first. -/
theorem dispatchAlloc_hit {call : Call} {s : Sys} (htlc : call.useTlc = true)
    (hcache : call.cacheReady = true) (hlife : call.lifetimeTracking = false)
    (hsize : size ≤ smallMaxSize) (hhit : (s.cacheAlloc call (sizeClass size)).1 ≠ 0) :
    dispatchAlloc call s size = .ok (s.cacheAlloc call (sizeClass size)) := by
  have hcls := (sizeClass_covers hsize).1
  have harena : call.arenaForCaller = arenaDefault := by simp [Call.arenaForCaller, hlife]
  have hserved : serveFromTlc call s (sizeClass size) =
      .ok ((s.cacheAlloc call (sizeClass size)).1, (s.cacheAlloc call (sizeClass size)).2,
        call.pages) := by
    simp [serveFromTlc, htlc, tryTlcFastPaths, hcache, hhit]
  simp only [dispatchAlloc, coerced_size, sizeClass_coerced, if_pos hcls, harena, if_true, hserved]
  simp only [bind, Except.bind, if_pos hhit]
  rfl

/-- A free of a slot whose bin has room is a push on the bin. -/
theorem dispatchFree_bin {call : Call} {s : Sys} {page : PageMeta} (hne : ptr ≠ 0)
    (howns : call.owns ptr = true)
    (hheader : s.heap.headerAt (ptrToMeta ptr) = some (.slab page))
    (hcache : call.useTlc ∧ page.arenaId = arenaDefault ∧ call.cacheReady)
    (hroom : (s.cacheFree call page.sizeClass ptr).1 = false) :
    dispatchFree call s ptr = .ok (s.cacheFree call page.sizeClass ptr).2 := by
  have hroute : freeRoute call s.heap ptr = .slab page := by
    rw [freeRoute, if_neg hne, howns, hheader]
    rfl
  rw [dispatchFree, hroute]
  dsimp only
  rw [freeSlab, if_pos hcache]
  dsimp only
  rw [hroom, if_neg Bool.false_ne_true]

/-- A call of the first thread with DEBUG on. -/
def checkedCall : Call := { laterCall with debug := true }

theorem first_free : dispatchFree checkedCall firstState 67752 = .ok freedState := by
  obtain ⟨page, hheader, hcls, harena⟩ := first_header
  have hsame : firstState.cacheFree checkedCall 2 67752 = firstState.cacheFree firstCall 2 67752 := by
    simp only [Sys.cacheFree, checkedCall, laterCall]
  have hroom : (firstState.cacheFree firstCall 2 67752).1 = false := by decide +kernel
  have howns : checkedCall.owns 67752 = true := rfl
  have hfree := dispatchFree_bin (by norm_num) howns hheader ⟨rfl, harena, rfl⟩
    (by rw [hcls, hsame]; exact hroom)
  rw [hfree, hcls, hsame, freedState]

/-- The program turns DEBUG on and gives the block back. -/
def checkedWorld : ApiWorld := firstWorld.setApi { firstWorld.api with debug := true }

/-- The free is noted in the ring. -/
def Api.noted (a : Api) (ptr : ℕ) : Api :=
  { a with
    ring := update a.ring (a.ringIdx % doubleFreeRingSize) ptr
    ringIdx := (a.ringIdx + 1) % 2 ^ 64 }

theorem freeFastClass_slowEnv (call : Call) (a : Api) (ptr : ℕ) :
    freeFastClass (slowEnv call) a ptr = none := by
  rw [freeFastClass, if_neg (by simp [slowEnv])]

theorem knows_slowEnv {call : Call} (howns : ∀ x, call.owns x = true) (h : Heap) (ptr : ℕ) :
    (slowEnv call).Knows h ptr :=
  ⟨fun x _ => howns x, fun hfast => absurd hfast Bool.false_ne_true⟩

/-- A checked free of a block the ring does not hold. -/
theorem v8mFree_noted {s' : Sys} (hne : ptr ≠ 0) (hfast : freeFastClass env a ptr = none)
    (hout : a.inBuffers ptr = false) (hready : a.dispatchReady = true)
    (hdebug : (a.debug && env.call.owns ptr) = true) (hempty : ringHolds a.ring ptr = false)
    (hfree : dispatchFree (a.call env) a.sys ptr = .ok s') :
    v8mFree env a ptr = .ok ((a.noted ptr).setSys s') := by
  have hnote : noteFree env a ptr = .ok (a.noted ptr) := by
    rw [noteFree, if_pos hdebug, debugCheckDoubleFree, hempty, if_neg Bool.false_ne_true]
    rfl
  rw [v8mFree_of_slow hne hfast, v8mFreeSlow_ready hne hout hready, hnote, bind_ok_iff]
  refine ⟨a.noted ptr, rfl, ?_⟩
  rw [bind_ok_iff]
  exact ⟨s', hfree, rfl⟩

theorem apart_cacheFree (hapart : a.Apart) (call : Call) (cls obj : ℕ) :
    ((a.noted ptr).setSys (a.sys.cacheFree call cls obj).2).Apart :=
  fun x hx => hapart x (taken_setMem a.sys.heap _ hx)

def notedApi : Api := (checkedWorld.api.noted 67752).setSys freedState

theorem checked_free : v8mFree (slowEnv laterCall) checkedWorld.api 67752 = .ok notedApi := by
  have hempty : ringHolds checkedWorld.api.ring 67752 = false := by
    have hring : checkedWorld.api.ring = fun _ => 0 := rfl
    rw [hring, ← Bool.not_eq_true, ringHolds_iff]
    rintro ⟨i, -, heq⟩
    exact absurd heq (by norm_num)
  exact v8mFree_noted (by norm_num) (freeFastClass_slowEnv _ _ _) (by decide) (by decide) rfl hempty
    first_free

/-- The record is in the ring. -/
def notedWorld : ApiWorld :=
  { firstWorld with api := notedApi, held := update firstWorld.held 67752 none }

theorem checkedWorld_free : ApiStep checkedWorld (.free 67752) notedWorld ∧ notedApi.Apart := by
  have hrun : ApiRun (fun _ _ => True) checkedWorld :=
    (firstWorld_run (readyWorld_run trivial) trivial).setDebug true trivial
  obtain ⟨L, blk, hw⟩ := hrun.apiInv
  have hknows : (slowEnv laterCall).Knows checkedWorld.api.sys.heap 67752 :=
    knows_slowEnv (fun _ => rfl) _ _
  have hstep := ApiStep.free hknows firstWorld_owns checked_free
  rw [release_block (by decide) (Or.inr (by decide))] at hstep
  refine ⟨hstep, ?_⟩
  rw [notedApi, freedState]
  exact apart_cacheFree hw.apart firstCall 2 67752

theorem notedWorld_run {ok : ApiWorld → ApiEvent → Prop} (hfirst : ApiRun ok firstWorld)
    (hdebug : ok firstWorld (.setDebug true)) (hfree : ok checkedWorld (.free 67752)) :
    ApiRun ok notedWorld :=
  (hfirst.setDebug true hdebug).step hfree checkedWorld_free.1 checkedWorld_free.2

/-- The bin has the block at its top. -/
theorem freedState_top : (freedState.cacheAlloc firstCall 2).1 = 67752 := by decide +kernel

theorem debugClearDoubleFreeRecord_head (hne : ptr ≠ 0) (hhead : a.ring 0 = ptr) :
    debugClearDoubleFreeRecord a ptr = { a with ring := update a.ring 0 0 } := by
  have hfind : (List.range doubleFreeRingSize).find? (fun i => a.ring i = ptr) = some 0 := by
    rw [doubleFreeRingSize, List.range_succ_eq_map, List.find?_cons_of_pos (by simp [hhead])]
  simp only [debugClearDoubleFreeRecord, if_neg hne, hfind]

/-- The block is answered again with DEBUG on, which clears the record. -/
def reissuedApi : Api :=
  { notedApi with
    sys := (freedState.cacheAlloc firstCall 2).2
    ring := update notedApi.ring 0 0 }

def reissuedWorld : ApiWorld :=
  { notedWorld with api := reissuedApi, held := update notedWorld.held 67752 (some 24) }

theorem checked_malloc : v8mMalloc (slowEnv laterCall) notedApi 24 = .ok (67752, reissuedApi) := by
  have hfast : ¬((slowEnv laterCall).peek = true ∧ 24 ≤ smallMaxSize ∧
      notedApi.fastPathOk (slowEnv laterCall) = true) := fun h => absurd h.1 (by decide)
  have hgate : overSoftLimit (slowEnv laterCall) notedApi 24 = (false, notedApi) := rfl
  have hsame : freedState.cacheAlloc checkedCall (sizeClass 24) =
      freedState.cacheAlloc firstCall 2 := by
    rw [show sizeClass 24 = 2 by decide]
    rfl
  have hserved : dispatchAlloc checkedCall freedState 24 =
      .ok (freedState.cacheAlloc firstCall 2) := by
    rw [← hsame]
    refine dispatchAlloc_hit rfl rfl rfl (by decide) ?_
    rw [hsame, freedState_top]
    norm_num
  have hclear : postAllocRecord (notedApi.setSys (freedState.cacheAlloc firstCall 2).2) 67752 =
      reissuedApi := by
    have hdebug : (notedApi.setSys (freedState.cacheAlloc firstCall 2).2).debug = true := rfl
    rw [postAllocRecord, if_pos hdebug]
    exact debugClearDoubleFreeRecord_head (by norm_num) rfl
  rw [v8mMalloc, if_neg hfast, doMallocPc, if_neg (by decide), gatedAlloc, hgate]
  dsimp only
  rw [if_neg Bool.false_ne_true, bind_ok_iff]
  refine ⟨_, hserved, ?_⟩
  rw [freedState_top, if_neg (by norm_num), hclear]
  rfl

/-- A checked free, a checked request that is answered with the same block, and the block can be
given back again. -/
theorem debugCheckDoubleFree_passes_reissued :
    ringHolds notedWorld.api.ring 67752 = true ∧ ApiStep notedWorld (.malloc 24) reissuedWorld ∧
      reissuedWorld.api.debug = true ∧ reissuedWorld.Owns 67752 ∧
      ∃ a', debugCheckDoubleFree reissuedWorld.api 67752 = .ok a' := by
  have hfirst : ApiRun Recorded firstWorld :=
    firstWorld_run (readyWorld_run nofun) fun _ => Or.inr fun _ _ => rfl
  have hrun : ApiRun Recorded notedWorld := notedWorld_run hfirst (fun h => h.elim) fun h => h.elim
  have hlegal : (slowEnv laterCall).Legal notedApi 24 :=
    ⟨legal_laterCall _, fun x hx => absurd hx (not_offers_laterCall x)⟩
  have hstep : ApiStep notedWorld (.malloc 24) _ := .malloc hlegal checked_malloc
  have hreissued := hrun.malloc (fun _ => Or.inl rfl) hlegal checked_malloc
  have hout : reissuedApi.inBuffers 67752 = false := by decide
  rw [ApiWorld.answer, if_neg (by norm_num), hout, if_neg Bool.false_ne_true] at hstep hreissued
  have howns : reissuedWorld.Owns 67752 := Or.inl ⟨by simp [reissuedWorld], id⟩
  exact ⟨ringHolds_iff.2 ⟨0, by decide, rfl⟩, hstep, rfl, howns,
    (debugCheckDoubleFree_passes hreissued howns).1⟩

/-- The call whose peek at the thread's cache finds it. -/
def fastEnv : Env := { slowEnv laterCall with peek := true }

/-- The record is in the ring and the program has the block again. -/
def staleWorld : ApiWorld :=
  { notedWorld with
    api := { notedApi with sys := (freedState.cacheAlloc firstCall 2).2, debug := true }
    held := update notedWorld.held 67752 (some 24) }

def uncheckedApi : Api := { notedApi with debug := false }

theorem unchecked_malloc : v8mMalloc fastEnv uncheckedApi 24 =
    .ok (67752, uncheckedApi.setSys (freedState.cacheAlloc firstCall 2).2) := by
  have hsame : uncheckedApi.sys.cacheAlloc (uncheckedApi.call fastEnv) (sizeClass 24) =
      freedState.cacheAlloc firstCall 2 := by
    rw [show sizeClass 24 = 2 by decide]
    rfl
  have hfast : fastEnv.peek = true ∧ 24 ≤ smallMaxSize ∧ uncheckedApi.fastPathOk fastEnv = true :=
    ⟨rfl, by decide, rfl⟩
  rw [v8mMalloc, if_pos hfast]
  dsimp only
  rw [hsame, freedState_top, if_pos (by norm_num)]

theorem staleWorld_run : ApiRun (fun _ _ => True) staleWorld := by
  have hfirst : ApiRun (fun _ _ => True) firstWorld :=
    firstWorld_run (readyWorld_run trivial) trivial
  have hoff := (notedWorld_run hfirst trivial trivial).setDebug false trivial
  have hlegal : fastEnv.Legal uncheckedApi 24 :=
    ⟨legal_laterCall _, fun x hx => absurd hx (not_offers_laterCall x)⟩
  have hserved := hoff.malloc trivial hlegal unchecked_malloc
  have hout : (uncheckedApi.setSys (freedState.cacheAlloc firstCall 2).2).inBuffers 67752 = false := by
    decide
  rw [ApiWorld.answer, if_neg (by norm_num), hout, if_neg Bool.false_ne_true] at hserved
  exact hserved.setDebug true trivial

theorem v8mFree_stale_record : ∃ w env, ApiRun (fun _ _ => True) w ∧ w.Owns 67752 ∧
    env.Knows w.api.sys.heap 67752 ∧ v8mFree env w.api 67752 = .error .abort := by
  refine ⟨staleWorld, slowEnv laterCall, staleWorld_run, Or.inl ⟨by simp [staleWorld], id⟩,
    knows_slowEnv (fun _ => rfl) _ _, ?_⟩
  have hholds : ringHolds staleWorld.api.ring 67752 = true := ringHolds_iff.2 ⟨0, by decide, rfl⟩
  have hdebug : (staleWorld.api.debug && (slowEnv laterCall).call.owns 67752) = true := rfl
  rw [v8mFree_of_slow (by norm_num) (freeFastClass_slowEnv _ _ _),
    v8mFreeSlow_ready (by norm_num) (by decide) (by decide), noteFree, if_pos hdebug,
    debugCheckDoubleFree, hholds, if_pos rfl]
  rfl

end V8Malloc
