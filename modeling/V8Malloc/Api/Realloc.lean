import V8Malloc.Api.Ring

/-!
# Contents of a resized block

`v8m_realloc` copies as many bytes as it takes the old block to have. It learns
that number from the dispatcher, which answers for its own blocks and only while
it is ready, or from the end of the bootstrap buffer. In service the contents of
both reach the new block; out of service those of a piece do if the new piece
starts behind them.
-/
namespace V8Malloc

open ByteMemory LinkedList StackLedger Function

variable {a a' mid : Api} {w : ApiWorld} {L : Stack → List ℕ} {blk : Blocks}
variable {env envFree : Env} {p q old n new i : ℕ}

/-- Where a pointer comes from. A piece of the bootstrap buffer is told apart by whether the new
size, counted from it, ends below the cursor of the buffer. -/
inductive Origin where
  | block
  | bootstrap (below : Bool)
  | signalSafe
  deriving DecidableEq, Repr

/-- The program has `old` bytes at `p` and asks for `n`. -/
def ApiWorld.Has (w : ApiWorld) (p old n : ℕ) : Origin → Prop
  | .block => w.held p = some old ∧ p ∉ w.dropped
  | .bootstrap below => w.bumps p = some old ∧ bumpOwns w.api.bootstrap p = true ∧
      decide (p + n ≤ w.api.bootstrap.buffer + w.api.bootstrap.offset) = below
  | .signalSafe => w.bumps p = some old ∧ bumpOwns w.api.signalSafe p = true

/-- The answers of the system to the allocation and the free inside a resize. -/
structure ResizeLegal (env envFree : Env) (a : Api) (p n : ℕ) : Prop where
  legal : env.Legal a n
  knows : ∀ new mid, doMallocPc env a n = .ok (new, mid) → envFree.Knows mid.sys.heap p
  plain : ∀ new mid, doMallocPc env a n = .ok (new, mid) → PlainChange mid.sys.heap.mem
    (reallocFill env mid (reallocOldUsable a p) new p n).sys.heap.mem

/-- Whatever the system answers, a resize that succeeds keeps the contents. -/
def ReallocKeeps (w : ApiWorld) (p old n : ℕ) : Prop :=
  ∀ (env envFree : Env) (q : ℕ) (a' : Api), ResizeLegal env envFree w.api p n →
    v8mRealloc env envFree w.api p n = .ok (q, a') → q ≠ 0 →
    ∀ i < min old n, a'.sys.heap.mem (q + i) = w.api.sys.heap.mem (p + i)

/-! ### The copy -/

theorem v8mRealloc_cases (hp : p ≠ 0) (hn : n ≠ 0)
    (hok : v8mRealloc env envFree a p n = .ok (q, a')) (hq : q ≠ 0) :
    reallocInPlace a p n = true ∧ q = p ∧ a' = a ∨
      ∃ mid, reallocInPlace a p n = false ∧ doMallocPc env a n = .ok (q, mid) ∧
        v8mFree envFree (reallocFill env mid (reallocOldUsable a p) q p n) p = .ok a' := by
  unfold v8mRealloc at hok
  rw [if_neg hp, if_neg hn] at hok
  by_cases hkeep : reallocInPlace a p n = true
  · rw [if_pos hkeep] at hok
    cases hok
    exact Or.inl ⟨hkeep, rfl, rfl⟩
  · rw [if_neg hkeep, bind_ok_iff] at hok
    obtain ⟨⟨new, mid⟩, hmalloc, hok⟩ := hok
    dsimp only at hok
    by_cases hnew : new = 0
    · rw [if_pos hnew] at hok
      cases hok
      exact absurd hnew hq
    · rw [if_neg hnew, bind_ok_iff] at hok
      obtain ⟨a₁, hfree, hok⟩ := hok
      cases hok
      exact Or.inr ⟨mid, by simpa using hkeep, hmalloc, hfree⟩

theorem reallocFill_copy {oldUsable : ℕ} (env : Env) (mid : Api) (hpos : 0 < min oldUsable n) :
    reallocFill env mid oldUsable new p n =
      mid.setMem (memcpy env.noise mid.sys.heap.mem new p (min oldUsable n)) := by
  have hcopied : (if oldUsable < n then oldUsable else n) = min oldUsable n := by
    split_ifs <;> omega
  simp only [reallocFill, hcopied]
  exact if_pos hpos

/-- Bytes of a copy between ranges that do not meet. -/
theorem reallocFill_bytes {oldUsable : ℕ} (env : Env) (mid : Api)
    (hapart : new + min oldUsable n ≤ p ∨ p + min oldUsable n ≤ new)
    (hi : i < min oldUsable n) :
    (reallocFill env mid oldUsable new p n).sys.heap.mem (new + i) = mid.sys.heap.mem (p + i) := by
  rw [reallocFill_copy env mid (by omega)]
  simp only [Api.setMem, Api.setSys, Sys.setMem, memcpy, if_pos hapart, copy]
  rw [if_pos (by omega), Nat.add_sub_cancel_left]

/-- Two ranges without a common byte. -/
theorem ranges_apart {k : ℕ} (hne : ∀ x, p ≤ x → x < p + k → ¬ (q ≤ x ∧ x < q + k)) :
    q + k ≤ p ∨ p + k ≤ q := by
  by_contra hov
  rcases Nat.le_total p q with hle | hle
  · exact hne q hle (by omega) ⟨le_rfl, by omega⟩
  · exact hne p le_rfl (by omega) ⟨hle, by omega⟩

/-! ### Blocks of the dispatcher -/

/-- The number of bytes copied from a block of a dispatcher in service. -/
theorem ApiInv.reallocOldUsable_block {g : Grant} (hw : ApiInv w L blk)
    (hready : w.api.dispatchReady = true) (hg : blk p = some g) (hheld : w.held p = some old) :
    reallocOldUsable w.api p = g.bytes := by
  have hout := hw.held_outside (World.mem_pointers hheld)
  simp only [Api.inBuffers, Bool.or_eq_false_iff] at hout
  have hne := hw.inv.inv.account.ne_zero (World.mem_pointers hheld)
  have husable := hw.inv.inv.account.inv.dispatchUsableSize_eq hg
  simp only [reallocOldUsable, hout.1, v8mMallocUsableSize, if_neg hne, hready, Bool.not_true,
    Bool.false_eq_true, if_false]
  exact husable

/-- A free leaves the other blocks of the program alone. -/
theorem ApiInv.free_keeps (hw : ApiInv w L blk) (hknows : env.Knows w.api.sys.heap p)
    (hheld : w.held p ≠ none) (hok : v8mFree env w.api p = .ok a') (hq : w.held q = some n)
    (hne : q ≠ p) (hi : i < n) : a'.sys.heap.mem (q + i) = w.api.sys.heap.mem (q + i) := by
  have hmem : q ∈ w.world.pointers := World.mem_pointers hq
  obtain ⟨g, hg⟩ := hw.inv.inv.account.grant_of_held hmem
  have hcovers : max n 1 ≤ g.bytes := hw.inv.covers q n g hq hg
  cases hw.returned hknows hheld hok with
  | bin hfast hfreed heq =>
    obtain ⟨L', blk', -, -, hcarried⟩ := hfreed
    rw [heq]
    exact (hcarried q ⟨hmem, hne⟩ g hg).2 (q + i) (by omega) (by omega)
  | block hfast hready hnote hfreed heq =>
    obtain ⟨L', blk', -, -, hcarried⟩ := hfreed
    rw [heq]
    exact (hcarried q ⟨hmem, hne⟩ g hg).2 (q + i) (by omega) (by omega)
  | dropped hfast hready heq => rw [heq]

/-- What a dispatcher in service answers for a resize: a block apart from the old one, which
still has its bytes. -/
theorem ApiInv.malloc_ready (hw : ApiInv w L blk) (hready : w.api.dispatchReady = true)
    (hlegal : env.Legal w.api n) (hok : doMallocPc env w.api n = .ok (q, mid)) (hq : q ≠ 0) :
    mid.places = w.api.places ∧
      (∀ x, q ≤ x → x < q + n → mid.sys.heap.Taken x) ∧
      Footprint env.call.Offers w.api.sys.heap mid.sys.heap ∧
      ∀ p g, p ∈ w.world.pointers → blk p = some g →
        (q + n ≤ p ∨ p + g.bytes ≤ q) ∧ q ≠ p ∧
          ∀ x, p ≤ x → x < p + g.bytes → mid.sys.heap.mem x = w.api.sys.heap.mem x := by
  cases doMallocPc_given hw.inv.inv hw.inv.calm hlegal hok with
  | @block s' g' hanswer hfoot hissued hown heq =>
    obtain ⟨⟨L₁, blk₁, hs₁, -, hcarried, hgrant⟩, hfresh⟩ := hanswer.served
    have hcovers := hanswer.covers hq
    obtain ⟨ring, hring⟩ := postAllocRecord_eq (w.api.setSys s') q
    have hsys : mid.sys = s' := by rw [heq, hring]; rfl
    have hplaces : mid.places = w.api.places := by rw [heq, hring]; rfl
    rw [hsys]
    refine ⟨hplaces, fun x hlo hhi => ?_, hfoot, fun p g hmem hg => ?_⟩
    · exact hs₁.account.inv.taken_byte (hgrant hq) hlo (by omega)
    · obtain ⟨hg₁, hbytes⟩ := hcarried p hmem g hg
      have hne : q ≠ p := fun heq => hfresh hq (heq ▸ hmem)
      have happ := hs₁.account.inv.blocks_apart (hgrant hq) hg₁ hne
      exact ⟨by omega, hne, hbytes⟩
  | piece hnot => exact absurd hready (by simp [hnot])

theorem realloc_block_keeps (hw : ApiInv w L blk) (hheld : w.held p = some old) (hn : n ≠ 0)
    (hready : w.api.dispatchReady = true) : ReallocKeeps w p old n := by
  intro env envFree q a' hlegal hok hq i hi
  have hmem : p ∈ w.world.pointers := World.mem_pointers hheld
  obtain ⟨g, hg⟩ := hw.inv.inv.account.grant_of_held hmem
  have hcovers : max old 1 ≤ g.bytes := hw.inv.covers p old g hheld hg
  rcases v8mRealloc_cases (hw.inv.inv.account.ne_zero hmem) hn hok hq with
    ⟨-, rfl, rfl⟩ | ⟨mid, hmove, hmalloc, hfree⟩
  · rfl
  obtain ⟨hplaces, htaken, -, hblocks⟩ := hw.malloc_ready hready hlegal.legal hmalloc hq
  obtain ⟨happ, hne, hbytes⟩ := hblocks p g hmem hg
  have hgiven := doMallocPc_given hw.inv.inv hw.inv.calm hlegal.legal hmalloc
  obtain ⟨⟨L', blk', hfilled⟩, hplaces', hkeep⟩ :=
    hw.moving hlegal.legal hmalloc hq rfl (hlegal.plain q mid hmalloc)
  generalize hfill : reallocFill env mid (reallocOldUsable w.api p) q p n = filled at *
  -- the new block is in the books before the old one is given back
  have hout : filled.inBuffers q = false := by
    rw [inBuffers_congr hplaces']
    exact hgiven.apart hlegal.legal.outside hw.buffers hw.apart q (htaken q le_rfl (by omega))
  have hanswer : w.answer filled q n =
      { w with api := filled, held := update w.held q (some n) } := by
    rw [ApiWorld.answer, if_neg hq, hout, if_neg Bool.false_ne_true]
  rw [hanswer] at hfilled hkeep
  have hkept : a'.sys.heap.mem (q + i) = filled.sys.heap.mem (q + i) := hfilled.free_keeps
    (hkeep (hlegal.knows q mid hmalloc))
    (by simp [update_of_ne hne.symm, hheld]) hfree
    (update_self _ _ _) hne (by omega)
  rw [hkept, ← hfill, hw.reallocOldUsable_block hready hg hheld,
    reallocFill_bytes env mid (by omega) (by omega)]
  exact hbytes (p + i) (by omega) (by omega)

/-! ### Pieces of the bootstrap buffer -/

theorem ApiInv.reallocOldUsable_bootstrap (hw : ApiInv w L blk)
    (hboot : bumpOwns w.api.bootstrap p = true) (hbump : w.bumps p = some old) :
    old ≤ reallocOldUsable w.api p ∧
      p + reallocOldUsable w.api p = w.api.bootstrap.buffer + bootstrapSize := by
  have hend := (hw.bumps p old hbump).2 hboot
  have hsize := hw.buffers.bootstrap.2.1
  rw [reallocOldUsable, if_pos hboot, bumpRemaining, if_pos hboot]
  rw [bumpOwns_iff] at hboot
  omega

/-- A piece is never kept in place, and its free does nothing. -/
theorem realloc_piece_cases (hw : ApiInv w L blk) (hboot : bumpOwns w.api.bootstrap p = true)
    (hn : n ≠ 0) (hlegal : ResizeLegal env envFree w.api p n)
    (hok : v8mRealloc env envFree w.api p n = .ok (q, a')) (hq : q ≠ 0) :
    ∃ mid, doMallocPc env w.api n = .ok (q, mid) ∧
      a' = reallocFill env mid (reallocOldUsable w.api p) q p n := by
  have hp : p ≠ 0 := by
    rw [bumpOwns_iff] at hboot
    omega
  have hin : w.api.inBuffers p = true := by rw [Api.inBuffers, hboot, Bool.true_or]
  rcases v8mRealloc_cases hp hn hok hq with ⟨hkeep, -⟩ | ⟨mid, -, hmalloc, hfree⟩
  · rw [reallocInPlace_iff, hboot] at hkeep
    exact absurd hkeep.1 (by simp)
  · have hgiven := doMallocPc_given hw.inv.inv hw.inv.calm hlegal.legal hmalloc
    obtain ⟨⟨L', blk', hfilled⟩, hplaces', hkeep⟩ :=
      hw.moving hlegal.legal hmalloc hq rfl (hlegal.plain q mid hmalloc)
    have hapart := hfilled.apart
    have hknows := hkeep (hlegal.knows q mid hmalloc)
    rw [api_answer] at hapart hknows
    refine ⟨mid, hmalloc, v8mFree_buffer hapart hknows ?_ hfree⟩
    · rwa [inBuffers_congr hplaces', inBuffers_congr (hgiven.places hw.buffers)]

/-- From the piece on, all bytes the library takes it to have lie in the buffer. -/
theorem ApiInv.piece_inBuffers (hw : ApiInv w L blk) (hboot : bumpOwns w.api.bootstrap p = true)
    (hbump : w.bumps p = some old) {x : ℕ} (hlo : p ≤ x)
    (hhi : x < p + reallocOldUsable w.api p) : w.api.inBuffers x = true := by
  have hend := (hw.reallocOldUsable_bootstrap hboot hbump).2
  rw [bumpOwns_iff] at hboot
  exact hw.buffers.inBuffers (by omega) (by omega)

/-- A dispatcher in service answers from elsewhere. -/
theorem ApiInv.piece_apart (hw : ApiInv w L blk) (hboot : bumpOwns w.api.bootstrap p = true)
    (hbump : w.bumps p = some old) (hready : w.api.dispatchReady = true)
    (hlegal : env.Legal w.api n) (hmalloc : doMallocPc env w.api n = .ok (q, mid)) (hq : q ≠ 0) :
    q + min (reallocOldUsable w.api p) n ≤ p ∨ p + min (reallocOldUsable w.api p) n ≤ q := by
  obtain ⟨hplaces, htaken, -⟩ := hw.malloc_ready hready hlegal hmalloc hq
  have hgiven := doMallocPc_given hw.inv.inv hw.inv.calm hlegal hmalloc
  apply ranges_apart
  intro x hlo hhi hnew
  have hout := hgiven.apart hlegal.outside hw.buffers hw.apart x (htaken x hnew.1 (by omega))
  rw [inBuffers_congr hplaces, hw.piece_inBuffers hboot hbump hlo (by omega)] at hout
  cases hout

theorem realloc_bootstrap_keeps (hw : ApiInv w L blk) (hboot : bumpOwns w.api.bootstrap p = true)
    (hbump : w.bumps p = some old) (hn : n ≠ 0) (hready : w.api.dispatchReady = true) :
    ReallocKeeps w p old n := by
  intro env envFree q a' hlegal hok hq i hi
  obtain ⟨mid, hmalloc, rfl⟩ := realloc_piece_cases hw hboot hn hlegal hok hq
  have hold := (hw.reallocOldUsable_bootstrap hboot hbump).1
  obtain ⟨-, -, hfoot, -⟩ := hw.malloc_ready hready hlegal.legal hmalloc hq
  rw [reallocFill_bytes env mid (hw.piece_apart hboot hbump hready hlegal.legal hmalloc hq)
    (by omega)]
  have hbuffer : w.api.inBuffers (p + i) = true :=
    hw.piece_inBuffers hboot hbump (by omega) (by omega)
  apply hfoot.bytes
  · exact hw.apart.not_taken hbuffer
  · intro hoffers
    rw [hlegal.legal.outside _ hoffers] at hbuffer
    cases hbuffer

/-- Before and after service the new piece lies at the cursor of the same buffer. -/
theorem realloc_below_keeps (hw : ApiInv w L blk) (hboot : bumpOwns w.api.bootstrap p = true)
    (hbump : w.bumps p = some old) (hn : n ≠ 0) (hready : w.api.dispatchReady = false)
    (hbelow : p + n ≤ w.api.bootstrap.buffer + w.api.bootstrap.offset) : ReallocKeeps w p old n := by
  intro env envFree q a' hlegal hok hq i hi
  obtain ⟨mid, hmalloc, rfl⟩ := realloc_piece_cases hw hboot hn hlegal hok hq
  obtain ⟨hold, -⟩ := hw.reallocOldUsable_bootstrap hboot hbump
  rw [doMallocPc, if_pos (by simp [hready])] at hmalloc
  obtain ⟨-, hsys, -, -, hptr, -⟩ := bootstrapAlloc_piece hw.buffers hmalloc
  rw [reallocFill_bytes env mid (by omega) (by omega), hsys]

/-! ### Calls out of service -/

/-- A resize out of service is answered from the cursor of the bootstrap buffer. -/
theorem doMallocPc_bootstrap (hready : a.dispatchReady = false) (hn : n ≠ 0) :
    doMallocPc env a n = bootstrapAlloc a n := by
  rw [doMallocPc, if_pos (by simp [hready]), if_pos (by omega)]

theorem legal_slowEnv_later (a : Api) (n : ℕ) : (slowEnv laterCall).Legal a n :=
  ⟨legal_laterCall _, fun x hx => absurd hx (not_offers_laterCall x)⟩

/-- The library as loaded. -/
def loadedWorld : ApiWorld :=
  ⟨Api.load emptyPool (2 ^ 20) (2 ^ 21), fun _ => none, fun _ => none, ∅⟩

/-- Its first answer, a piece of the bootstrap buffer. -/
def earlyBootWorld : ApiWorld :=
  { loadedWorld with
    api := { loadedWorld.api with bootstrap := ⟨2 ^ 20, bootstrapSize, bumpAlign, 16⟩ }
    bumps := update loadedWorld.bumps (2 ^ 20) (some 16) }

theorem loadedWorld_run : ApiRun (fun _ _ => True) loadedWorld :=
  ApiRun.load emptyPool (by norm_num) (by norm_num) (Or.inl (by decide))

theorem earlyBootWorld_run : ApiRun (fun _ _ => True) earlyBootWorld := by
  have hboot := loadedWorld_run.malloc trivial (legal_slowEnv_later _ 16)
    (show v8mMalloc (slowEnv laterCall) loadedWorld.api 16 = .ok (2 ^ 20, earlyBootWorld.api) from rfl)
  have hin : earlyBootWorld.api.inBuffers (2 ^ 20) = true := by decide
  rw [ApiWorld.answer, if_neg (by norm_num), if_pos hin] at hboot
  exact hboot

/-- The library has come into service since. -/
def earlyReadyWorld : ApiWorld :=
  earlyBootWorld.setApi { earlyBootWorld.api with initState := .ready }

theorem earlyReadyWorld_run : ApiRun (fun _ _ => True) earlyReadyWorld :=
  earlyBootWorld_run.lifecycle .ready trivial

end V8Malloc
