import V8Malloc.Api.ReallocCopy

/-!
# When a resize keeps the contents

Where nobody knows the size of the old block nothing is copied: a signal-safe
allocation at any time, a block of the dispatcher out of service. The contents
are then kept only if no new block can be had, or if the new block happens to
hold them as it is found. A piece of the bootstrap buffer has a size at all
times, but out of service the copy must not reach the new piece.
-/
namespace V8Malloc

open ByteMemory LinkedList StackLedger Function

variable {a a' mid : Api} {w : ApiWorld} {L : Stack → List ℕ} {blk : Blocks}
variable {env envFree : Env} {p q old n x : ℕ} {g : Grant}

/-- No block of `n` bytes can be had, or each that can be had holds the contents already. -/
def FoundThere (w : ApiWorld) (p old n : ℕ) : Prop :=
  ∀ (env : Env) (new : ℕ) (mid : Api), env.Legal w.api n →
    doMallocPc env w.api n = .ok (new, mid) → new ≠ 0 →
    ∀ i < min old n, mid.sys.heap.mem (new + i) = w.api.sys.heap.mem (p + i)

/-- The same of the bootstrap buffer, where the next piece is known: the buffer is used up, or the
bytes at its cursor are those of the block. -/
def FoundAtCursor (w : ApiWorld) (p old n : ℕ) : Prop :=
  bootstrapSize < w.api.bootstrap.offset + roundedSize n ∨
    ∀ i < min old n,
      w.api.sys.heap.mem (w.api.bootstrap.buffer + w.api.bootstrap.offset + i) =
        w.api.sys.heap.mem (p + i)

/-- The condition on the call, by the origin of the pointer. -/
def ContentsKept (w : ApiWorld) (p old n : ℕ) : Origin → Prop
  | .block => w.api.dispatchReady = true ∨ FoundAtCursor w p old n
  | .bootstrap below => w.api.dispatchReady = true ∨ below = true ∨
      bootstrapSize < w.api.bootstrap.offset + roundedSize n
  | .signalSafe =>
    if w.api.dispatchReady = true then FoundThere w p old n else FoundAtCursor w p old n

/-! ### Nothing is copied -/

theorem reallocFill_zero (env : Env) (mid : Api) (q p n : ℕ) :
    reallocFill env mid 0 q p n = mid := by
  simp only [reallocFill]
  exact if_neg (by split_ifs <;> omega)

/-- A resize that takes the old block to have no bytes copies nothing. -/
theorem v8mRealloc_lost (hp : p ≠ 0) (hn : n ≠ 0) (hzero : reallocOldUsable a p = 0)
    (hnew : doMallocPc env a n = .ok (q, mid)) (hq : q ≠ 0)
    (hfree : v8mFree envFree mid p = .ok mid) :
    v8mRealloc env envFree a p n = .ok (q, mid) := by
  have hmove : ¬ reallocInPlace a p n = true := by
    simp only [reallocInPlace, hzero, Bool.and_eq_true, decide_eq_true_eq, not_and]
    omega
  rw [v8mRealloc, if_neg hp, if_neg hn, if_neg hmove, bind_ok_iff]
  refine ⟨(q, mid), hnew, ?_⟩
  dsimp only
  rw [if_neg hq, hzero, reallocFill_zero, bind_ok_iff]
  exact ⟨mid, hfree, rfl⟩

theorem resizeLegal_lost (hzero : reallocOldUsable a p = 0) (hlegal : env.Legal a n) :
    ResizeLegal env (slowEnv laterCall) a p n := by
  refine ⟨hlegal, fun new mid _ => knows_slowEnv (fun _ => rfl) _ _, fun new mid _ => ?_⟩
  rw [hzero, reallocFill_zero]
  exact fun b _ hload => hload

/-- Pointers into the buffers, and all pointers out of service, are not taken back. -/
theorem Given.dispatchReady {held : Set ℕ} (hgiven : Given env a blk held n q a') :
    a'.dispatchReady = a.dispatchReady := by
  cases hgiven with
  | @block s' g hanswer hfoot hissued hown heq =>
    obtain ⟨ring, hring⟩ := postAllocRecord_eq (a.setSys s') q
    rw [heq, hring]
    rfl
  | piece hready hok =>
    unfold bootstrapAlloc at hok
    dsimp only at hok
    split_ifs at hok
    cases hok
    rfl

/-- Out of service a free writes to the freed block at most. -/
theorem v8mFree_outOfService (hh : HeapInv a.sys.heap blk) (hg : blk p = some g)
    (hready : a.dispatchReady = false) (hok : v8mFree env a p = .ok a') (hx : ¬ a.sys.heap.Taken x) :
    a'.sys.heap.mem x = a.sys.heap.mem x := by
  cases v8mFree_way hok with
  | ignored _ heq => rw [heq]
  | @bin cls _ heq =>
    rw [heq]
    change (threadCacheFree _ _ _ cls p).2.2 x = _
    unfold threadCacheFree
    split_ifs
    · rfl
    · exact hh.link_inside hg _ hx
  | dispatch _ _ hready' =>
    rw [hready] at hready'
    cases hready'

/-- Without a copy the new block is left as the allocation answers it, provided the free at the
end leaves it alone. -/
theorem reallocKeeps_iff_foundThere (hw : ApiInv w L blk) (hp : p ≠ 0) (hn : n ≠ 0)
    (hzero : reallocOldUsable w.api p = 0)
    (hnot : w.api.inBuffers p = true ∨ w.api.dispatchReady = false)
    (hleft : ∀ (env envFree : Env) (q : ℕ) (mid a' : Api), env.Legal w.api n →
      doMallocPc env w.api n = .ok (q, mid) → envFree.Knows mid.sys.heap p →
      v8mFree envFree mid p = .ok a' → ∀ i < n, a'.sys.heap.mem (q + i) = mid.sys.heap.mem (q + i)) :
    ReallocKeeps w p old n ↔ FoundThere w p old n := by
  constructor
  · intro hkeeps env q mid hlegal hmalloc hq i hi
    have hgiven := doMallocPc_given hw.inv.inv hw.inv.calm hlegal hmalloc
    rw [← inBuffers_congr (hgiven.places hw.buffers), ← hgiven.dispatchReady] at hnot
    have hok := v8mRealloc_lost hp hn hzero hmalloc hq (v8mFree_ignored hp (freeFastClass_slowEnv laterCall _ p) hnot)
    exact hkeeps _ _ _ _ (resizeLegal_lost hzero hlegal) hok hq i hi
  · intro hfound env envFree q a' hlegal hok hq i hi
    rcases v8mRealloc_cases hp hn hok hq with ⟨hkeep, -⟩ | ⟨mid, -, hmalloc, hfree⟩
    · simp only [reallocInPlace, hzero, Bool.and_eq_true, decide_eq_true_eq] at hkeep
      omega
    · rw [hzero, reallocFill_zero] at hfree
      rw [hleft env envFree q mid a' hlegal.legal hmalloc (hlegal.knows q mid hmalloc) hfree i
        (by omega)]
      exact hfound env q mid hlegal.legal hmalloc hq i hi

theorem foundThere_iff_cursor (hw : ApiInv w L blk) (hn : n ≠ 0)
    (hready : w.api.dispatchReady = false) :
    FoundThere w p old n ↔ FoundAtCursor w p old n := by
  constructor
  · intro hfound
    by_contra hnot
    simp only [FoundAtCursor, not_or, not_lt] at hnot
    obtain ⟨mid, hmalloc⟩ :=
      (doMallocPc_cursor (slowEnv laterCall) hw.buffers hready hn).2 ⟨hnot.1, rfl⟩
    have hsame := hfound _ _ mid (legal_slowEnv_later _ _) hmalloc
    rw [doMallocPc_bootstrap hready hn] at hmalloc
    obtain ⟨-, hsys, -, hne, -⟩ := bootstrapAlloc_piece hw.buffers hmalloc
    rw [hsys] at hsame
    exact hnot.2 (hsame hne)
  · intro hcursor env q mid hlegal hmalloc hq i hi
    obtain ⟨hroom, rfl⟩ := (doMallocPc_cursor _ hw.buffers hready hn).1 ⟨mid, hmalloc⟩
    rw [doMallocPc_bootstrap hready hn] at hmalloc
    obtain ⟨-, hsys, -⟩ := bootstrapAlloc_piece hw.buffers hmalloc
    rw [hsys]
    exact (hcursor.resolve_left (by omega)) i hi

theorem reallocKeeps_signalSafe_iff (hw : ApiInv w L blk) (hbump : w.bumps p = some old)
    (hsafe : bumpOwns w.api.signalSafe p = true) (hn : n ≠ 0)
    (hplain : load64 w.api.sys.heap.mem (ptrToMeta p) ≠ pageMagic) :
    ReallocKeeps w p old n ↔ FoundThere w p old n := by
  have hin := (hw.bumps p old hbump).1
  have hp : p ≠ 0 := by
    rw [bumpOwns_iff] at hsafe
    omega
  refine reallocKeeps_iff_foundThere hw hp hn (hw.reallocOldUsable_signalSafe hsafe hplain)
    (Or.inl hin) fun env envFree q mid a' hlegal hmalloc hknows hfree i _ => ?_
  have hgiven := doMallocPc_given hw.inv.inv hw.inv.calm hlegal hmalloc
  rw [← inBuffers_congr (hgiven.places hw.buffers)] at hin
  rw [v8mFree_buffer (hgiven.apart hlegal.outside hw.buffers hw.apart) hknows hin hfree]

theorem reallocKeeps_block_iff (hw : ApiInv w L blk) (hheld : w.held p = some old) (hn : n ≠ 0)
    (hready : w.api.dispatchReady = false) :
    ReallocKeeps w p old n ↔ FoundAtCursor w p old n := by
  have hmem : p ∈ w.world.pointers := World.mem_pointers hheld
  obtain ⟨g, hg⟩ := hw.inv.inv.account.grant_of_held hmem
  rw [← foundThere_iff_cursor hw hn hready]
  refine reallocKeeps_iff_foundThere hw (hw.inv.inv.account.ne_zero hmem) hn
    (hw.reallocOldUsable_outOfService hmem hready) (Or.inr hready)
    fun env envFree q mid a' hlegal hmalloc hknows hfree i hi => ?_
  have hgiven := doMallocPc_given hw.inv.inv hw.inv.calm hlegal hmalloc
  rw [doMallocPc_bootstrap hready hn] at hmalloc
  obtain ⟨-, hsys, -, -, hq, hfit⟩ := bootstrapAlloc_piece hw.buffers hmalloc
  have hinv : HeapInv mid.sys.heap blk := hsys ▸ hw.inv.inv.account.inv
  -- the new piece lies in the buffer, where nothing of the dispatcher is
  refine v8mFree_outOfService hinv hg (hgiven.dispatchReady.trans hready) hfree ?_
  rw [hsys]
  exact hw.apart.not_taken (hw.buffers.inBuffers (by omega) (by omega))

/-! ### Copies that overlap -/

/-- A copy that reads the piece it writes may leave anything there. -/
theorem realloc_past_loses (hw : ApiInv w L blk) (hbelow : PiecesBelow w)
    (hboot : bumpOwns w.api.bootstrap p = true) (hbump : w.bumps p = some old) (hn : n ≠ 0)
    (hold : old ≠ 0) (hready : w.api.dispatchReady = false)
    (hpast : w.api.bootstrap.buffer + w.api.bootstrap.offset < p + n)
    (hroom : w.api.bootstrap.offset + roundedSize n ≤ bootstrapSize) : ¬ ReallocKeeps w p old n := by
  obtain ⟨c, hc, hdiffers⟩ : ∃ c : UInt8, c.toNat < 2 ∧ c ≠ w.api.sys.heap.mem p := by
    by_cases hzero : w.api.sys.heap.mem p = 0
    · exact ⟨1, by decide, by rw [hzero]; decide⟩
    · exact ⟨0, by decide, Ne.symm hzero⟩
  have hp : p ≠ 0 := by
    rw [bumpOwns_iff] at hboot
    omega
  have hlt := hbelow p old hbump hboot
  generalize henv : ({ slowEnv laterCall with noise := fun _ => c } : Env) = env
  have hlegal : env.Legal w.api n := by
    rw [← henv]
    exact ⟨legal_laterCall _, fun x hx => absurd hx (not_offers_laterCall x)⟩
  have hfill : ∀ m : Mem, memcpy env.noise m (w.api.bootstrap.buffer + w.api.bootstrap.offset) p n =
      fill m (w.api.bootstrap.buffer + w.api.bootstrap.offset) n c := by
    intro m
    rw [memcpy, if_neg (by omega), ← henv]
    rfl
  have hcopy := reallocMemcpy_cursor env hw hbelow hboot hbump hn hready hroom
  obtain ⟨mid, hmalloc, hrealloc⟩ := v8mRealloc_memcpy (slowEnv laterCall) hcopy
  obtain ⟨-, hdst, -, -, hk, -⟩ := reallocMemcpy_eq_some.1 hcopy
  have hgiven := doMallocPc_given hw.inv.inv hw.inv.calm hlegal hmalloc
  have hnot : (mid.setMem (fill mid.sys.heap.mem
      (w.api.bootstrap.buffer + w.api.bootstrap.offset) n c)).dispatchReady = false :=
    hgiven.dispatchReady.trans hready
  rw [hfill, v8mFree_ignored hp (freeFastClass_slowEnv ..) (Or.inr hnot)] at hrealloc
  have hresize : ResizeLegal env (slowEnv laterCall) w.api p n := by
    refine ⟨hlegal, fun _ _ _ => knows_slowEnv (fun _ => rfl) _ _, fun new mid' hmalloc' => ?_⟩
    obtain ⟨-, rfl⟩ := (doMallocPc_cursor _ hw.buffers hready hn).1 ⟨mid', hmalloc'⟩
    rw [reallocFill_copy env mid' (by omega), ← hk, hfill]
    exact plainChange_fill _ _ _ hc
  intro hkeeps
  have hkept := hkeeps env _ _ _ hresize hrealloc hdst 0 (by omega)
  exact hdiffers ((if_pos (by omega)).symm.trans hkept)

/-! ### Every call -/

theorem reallocKeeps_bootstrap_iff (hw : ApiInv w L blk) (hbelow : PiecesBelow w)
    (hboot : bumpOwns w.api.bootstrap p = true) (hbump : w.bumps p = some old) (hn : n ≠ 0)
    (hold : old ≠ 0) (hready : w.api.dispatchReady = false) : ReallocKeeps w p old n ↔
      p + n ≤ w.api.bootstrap.buffer + w.api.bootstrap.offset ∨
        bootstrapSize < w.api.bootstrap.offset + roundedSize n := by
  constructor
  · intro hkeeps
    by_contra hover
    rw [not_or] at hover
    exact realloc_past_loses hw hbelow hboot hbump hn hold hready (by omega) (by omega) hkeeps
  · rintro (hcursor | hfull)
    · exact realloc_below_keeps hw hboot hbump hn hready hcursor
    · intro env envFree q a' hlegal hok hq
      obtain ⟨mid, hmalloc, -⟩ := realloc_piece_cases hw hboot hn hlegal hok hq
      obtain ⟨hroom, -⟩ := (doMallocPc_cursor _ hw.buffers hready hn).1 ⟨mid, hmalloc⟩
      omega

/-- A resize keeps the first `min old n` bytes, whatever the system answers, exactly if there are
none, the dispatcher in service knows the block, the copy stays below the cursor, or no block is
had that does not hold them already. -/
theorem realloc_keeps_iff {ok : ApiWorld → ApiEvent → Prop} (w : ApiWorld) (p old n : ℕ)
    (o : Origin) (hrun : ApiRun ok w) (hhas : w.Has p old n o) (hn : n ≠ 0)
    (hplain : o = .signalSafe → load64 w.api.sys.heap.mem (ptrToMeta p) ≠ pageMagic) :
    ReallocKeeps w p old n ↔ old = 0 ∨ ContentsKept w p old n o := by
  obtain ⟨L, blk, hw⟩ := hrun.apiInv
  by_cases hold : old = 0
  · refine iff_of_true (fun env envFree q a' _ _ _ i hi => ?_) (Or.inl hold)
    omega
  rw [or_iff_right hold]
  cases o with
  | block =>
    cases hready : w.api.dispatchReady with
    | true => exact iff_of_true (realloc_block_keeps hw hhas.1 hn hready) (Or.inl hready)
    | false => simp [ContentsKept, hready, reallocKeeps_block_iff hw hhas.1 hn hready]
  | bootstrap below =>
    obtain ⟨hbump, hboot, rfl⟩ := hhas
    cases hready : w.api.dispatchReady with
    | true => exact iff_of_true (realloc_bootstrap_keeps hw hboot hbump hn hready) (Or.inl hready)
    | false =>
      rw [reallocKeeps_bootstrap_iff hw hrun.piecesBelow hboot hbump hn hold hready]
      simp [ContentsKept, hready]
  | signalSafe =>
    rw [reallocKeeps_signalSafe_iff hw hhas.1 hhas.2 hn (hplain rfl)]
    cases hready : w.api.dispatchReady with
    | true => simp [ContentsKept, hready]
    | false => simp [ContentsKept, hready, foundThere_iff_cursor hw hn hready]

/-! ### A library in service -/

/-- A piece of the signal-safe buffer in a library that is in service. -/
def safeWorld : ApiWorld :=
  { readyWorld with
    api := (V8Malloc.signalSafeAlloc readyWorld.api 16).2
    bumps := update readyWorld.bumps (2 ^ 21) (some 16) }

theorem safeWorld_run : ApiRun (fun _ _ => True) safeWorld := by
  have hrun : ApiRun (fun _ _ => True) readyWorld := readyWorld_run trivial
  obtain ⟨L, blk, hw⟩ := hrun.apiInv
  have hsafe := hrun.step trivial (.signalSafeAlloc 16) (hw.signalSafeAlloc 16).apart
  have hptr : (V8Malloc.signalSafeAlloc readyWorld.api 16).1 = 2 ^ 21 := by decide
  have hin : (V8Malloc.signalSafeAlloc readyWorld.api 16).2.inBuffers (2 ^ 21) = true := by decide
  rw [hptr, ApiWorld.answer, if_neg (by norm_num), if_pos hin] at hsafe
  exact hsafe

theorem safeWorld_usable : reallocOldUsable safeWorld.api (2 ^ 21) = 0 := by
  obtain ⟨L, blk, hw⟩ := safeWorld_run.apiInv
  exact hw.reallocOldUsable_signalSafe (by decide) (by decide)

/-- The contents of a signal-safe allocation are lost by a library in service: the new block still
has the link word of the chain it came from. -/
theorem realloc_loses_signalSafe : ∃ w env envFree q a', ApiRun (fun _ _ => True) w ∧
    w.api.dispatchReady = true ∧ w.Has (2 ^ 21) 16 24 .signalSafe ∧
    ResizeLegal env envFree w.api (2 ^ 21) 24 ∧
    v8mRealloc env envFree w.api (2 ^ 21) 24 = .ok (q, a') ∧ q ≠ 0 ∧
    a'.sys.heap.mem q ≠ w.api.sys.heap.mem (2 ^ 21) := by
  have hne : firstState.heap.mem 67752 ≠ (Sys.init emptyPool).heap.mem (2 ^ 21) := by decide +kernel
  refine ⟨safeWorld, slowEnv firstCall, slowEnv laterCall, 67752, safeWorld.api.setSys firstState,
    safeWorld_run, by decide, ⟨by simp [safeWorld], by decide⟩, ?_, ?_, by norm_num, hne⟩
  · exact resizeLegal_lost safeWorld_usable (legal_slowEnv_first rfl rfl rfl)
  · exact v8mRealloc_lost (by norm_num) (by norm_num) safeWorld_usable
      (doMallocPc_first rfl rfl rfl rfl) (by norm_num)
      (v8mFree_ignored (by norm_num) (freeFastClass_slowEnv ..) (Or.inl (by decide)))

/-- The contents of a piece from before the library was in service move to a block of the
dispatcher, and those of a block to any block. -/
theorem realloc_keeps_ready :
    (∃ a', ResizeLegal (slowEnv firstCall) (slowEnv laterCall) earlyReadyWorld.api (2 ^ 20) 24 ∧
      v8mRealloc (slowEnv firstCall) (slowEnv laterCall) earlyReadyWorld.api (2 ^ 20) 24 =
        .ok (67752, a')) ∧
      ReallocKeeps earlyReadyWorld (2 ^ 20) 16 24 ∧
      ∀ n, n ≠ 0 → ReallocKeeps firstWorld 67752 24 n := by
  have husable : reallocOldUsable earlyReadyWorld.api (2 ^ 20) = bootstrapSize := by decide
  have hmalloc : doMallocPc (slowEnv firstCall) earlyReadyWorld.api 24 =
      .ok (67752, earlyReadyWorld.api.setSys firstState) := doMallocPc_first rfl rfl rfl rfl
  refine ⟨?_, ?_, fun n hn => ?_⟩
  · have hcopy : reallocMemcpy (slowEnv firstCall) earlyReadyWorld.api (2 ^ 20) 24 =
        some (67752, 2 ^ 20, 24) :=
      reallocMemcpy_eq_some.2 ⟨⟨by norm_num, by norm_num, by decide⟩, by norm_num, ⟨_, hmalloc⟩, rfl,
        by rw [husable]; decide, by norm_num⟩
    obtain ⟨mid, hmid, hrealloc⟩ := v8mRealloc_memcpy (slowEnv laterCall) hcopy
    cases hmalloc.symm.trans hmid
    rw [v8mFree_ignored (by norm_num) (freeFastClass_slowEnv ..) (Or.inl (by decide))] at hrealloc
    refine ⟨_, ⟨legal_slowEnv_first rfl rfl rfl, fun _ _ _ => knows_slowEnv (fun _ => rfl) _ _,
      fun new mid hok => ?_⟩, hrealloc⟩
    cases hmalloc.symm.trans hok
    rw [husable, reallocFill_copy _ _ (by decide)]
    intro b hb hload
    -- the copy writes no byte of a word at a page base
    refine Eq.trans (load_congr fun x hlo hhi => (sameOutside_memcpy _ _ _ _ _ x ?_).symm) hload
    unfold pageSize bootstrapSize at *
    omega
  · exact (realloc_keeps_iff _ _ _ _ (.bootstrap false) earlyReadyWorld_run
      ⟨by simp [earlyReadyWorld, earlyBootWorld, ApiWorld.setApi], by decide, by decide⟩
      (by norm_num) (by simp)).2 (Or.inr (Or.inl rfl))
  · have hrun : ApiRun (fun _ _ => True) firstWorld :=
      firstWorld_run (readyWorld_run trivial) trivial
    exact (realloc_keeps_iff _ _ _ _ .block hrun ⟨by simp [firstWorld], id⟩ hn (by simp)).2
      (Or.inr (Or.inl rfl))

end V8Malloc
