import V8Malloc.Api.Emergency
import V8Malloc.Api.Realloc

/-!
# The ranges a resize copies between

`memcpy` must not be called on overlapping ranges. A block of the dispatcher
never meets the new block. A piece of the bootstrap buffer is taken to reach to
the end of the buffer, and out of service the new piece is cut from the same
buffer, at its cursor.
-/
namespace V8Malloc

open ByteMemory

variable {a a' mid : Api} {w : ApiWorld} {L : Stack → List ℕ} {blk : Blocks} {h : Heap}
variable {env envFree : Env} {p q old n new : ℕ}

/-- The arguments of the `memcpy` in `v8m_realloc`, if the call gets there. -/
def reallocMemcpy (env : Env) (a : Api) (ptr size : ℕ) : Option (ℕ × ℕ × ℕ) :=
  if ptr = 0 ∨ size = 0 ∨ reallocInPlace a ptr size = true then none
  else
    match doMallocPc env a size with
    | .error _ => none
    | .ok (new, _) =>
      let oldUsable := reallocOldUsable a ptr
      let copied := if oldUsable < size then oldUsable else size
      if new ≠ 0 ∧ copied > 0 then some (new, ptr, copied) else none

theorem reallocMemcpy_eq_some {dst src k : ℕ} :
    reallocMemcpy env a p n = some (dst, src, k) ↔
      (p ≠ 0 ∧ n ≠ 0 ∧ reallocInPlace a p n = false) ∧ dst ≠ 0 ∧
        (∃ mid, doMallocPc env a n = .ok (dst, mid)) ∧
        src = p ∧ k = min (reallocOldUsable a p) n ∧ 0 < k := by
  have hmin : (if reallocOldUsable a p < n then reallocOldUsable a p else n) =
      min (reallocOldUsable a p) n := by
    split_ifs <;> omega
  unfold reallocMemcpy
  simp only [hmin]
  by_cases hskip : p = 0 ∨ n = 0 ∨ reallocInPlace a p n = true
  · rw [if_pos hskip]
    simp only [reduceCtorEq, false_iff, not_and]
    intro hgo
    rcases hskip with hp | hn | hkeep
    · exact absurd hp hgo.1
    · exact absurd hn hgo.2.1
    · simp [hkeep] at hgo
  · rw [if_neg hskip]
    simp only [not_or, Bool.not_eq_true] at hskip
    cases hmalloc : doMallocPc env a n with
    | error stop => simp
    | ok out =>
      obtain ⟨new, mid⟩ := out
      dsimp only
      split_ifs with hgo
      · simp only [Option.some.injEq, Prod.mk.injEq, Except.ok.injEq]
        constructor
        · rintro ⟨rfl, rfl, rfl⟩
          exact ⟨hskip, hgo.1, ⟨mid, rfl, rfl⟩, rfl, rfl, hgo.2⟩
        · rintro ⟨-, -, ⟨_, rfl, -⟩, rfl, rfl, -⟩
          exact ⟨rfl, rfl, rfl⟩
      · simp only [Except.ok.injEq, Prod.mk.injEq, false_iff]
        rintro ⟨-, hdst, ⟨_, rfl, -⟩, -, rfl, hpos⟩
        exact hgo ⟨hdst, hpos⟩

/-- These are the arguments with which the model copies. -/
theorem v8mRealloc_memcpy {dst src k : ℕ} (envFree : Env)
    (hcopy : reallocMemcpy env a p n = some (dst, src, k)) :
    ∃ mid, doMallocPc env a n = .ok (dst, mid) ∧ v8mRealloc env envFree a p n = (do
      let a ← v8mFree envFree (mid.setMem (memcpy env.noise mid.sys.heap.mem dst src k)) p
      pure (dst, a)) := by
  obtain ⟨⟨hp, hn, hmove⟩, hdst, ⟨mid, hmalloc⟩, rfl, rfl, hpos⟩ := reallocMemcpy_eq_some.1 hcopy
  refine ⟨mid, hmalloc, ?_⟩
  rw [v8mRealloc, if_neg hp, if_neg hn, if_neg (by simp [hmove]), hmalloc]
  change (if dst = 0 then _ else _) = _
  rw [if_neg hdst]
  dsimp only
  rw [reallocFill_copy env mid hpos]

/-- Whatever the system answers, the two ranges of the copy have no byte in common. -/
def CopiesApart (w : ApiWorld) (p n : ℕ) : Prop :=
  ∀ (env : Env) (dst src k : ℕ), env.Legal w.api n →
    reallocMemcpy env w.api p n = some (dst, src, k) → dst + k ≤ src ∨ src + k ≤ dst

/-! ### Pointers of each origin -/

/-- An address of no region has no usable size, unless a page magic is forged below it. -/
theorem HeapInv.dispatchUsableSize_outside (hh : HeapInv h blk) (hout : ¬h.Taken p)
    (hplain : load64 h.mem (ptrToMeta p) ≠ pageMagic) : dispatchUsableSize h p = 0 := by
  have hbase := ptrToMeta_le p
  have hhead : h.heads (ptrToMeta p) = none := by
    by_contra hsome
    obtain ⟨header, hheader⟩ := Option.ne_none_iff_exists'.1 hsome
    obtain ⟨k, size, hr, -, -, hsize⟩ := hh.layout.header_page hheader
    exact hout ⟨k, _, size, hr, hbase.1, by omega⟩
  have hfind : findOwningArena h.buddyPool p = none := by
    obtain ⟨live, hbuddy⟩ := hh.buddy
    unfold findOwningArena
    rw [List.find?_eq_none]
    intro i hi hcontains
    obtain ⟨hused, hin⟩ := (hbuddy.1.contains_iff (List.mem_range.1 hi)).1 hcontains
    exact hout ⟨_, _, _, .arena hused, hin.1, hin.2⟩
  simp [dispatchUsableSize, Heap.headerAt, hhead, hplain, buddyPoolBlockSize, hfind]

theorem ApiInv.signalSafe_not_bootstrap (hw : ApiInv w L blk)
    (hsafe : bumpOwns w.api.signalSafe p = true) : bumpOwns w.api.bootstrap p = false := by
  have hapart := hw.buffers.apart
  rw [← Bool.not_eq_true, bumpOwns_iff]
  rw [bumpOwns_iff] at hsafe
  omega

/-- Nobody knows the size of a signal-safe allocation. -/
theorem ApiInv.reallocOldUsable_signalSafe (hw : ApiInv w L blk)
    (hsafe : bumpOwns w.api.signalSafe p = true)
    (hplain : load64 w.api.sys.heap.mem (ptrToMeta p) ≠ pageMagic) :
    reallocOldUsable w.api p = 0 := by
  have hout : ¬w.api.sys.heap.Taken p := by
    intro htaken
    have hin := hw.apart p htaken
    simp [Api.inBuffers, hsafe] at hin
  have hzero := hw.inv.inv.account.inv.dispatchUsableSize_outside hout hplain
  simp only [reallocOldUsable, hw.signalSafe_not_bootstrap hsafe, v8mMallocUsableSize]
  simp [show dispatchUsableSize w.api.sys.heap p = 0 from hzero]

/-- Out of service nobody knows the size of a block either. -/
theorem ApiInv.reallocOldUsable_outOfService (hw : ApiInv w L blk) (hheld : w.held p ≠ none)
    (hready : w.api.dispatchReady = false) : reallocOldUsable w.api p = 0 := by
  have hout := hw.held_outside (show p ∈ w.world.pointers from hheld)
  simp only [Api.inBuffers, Bool.or_eq_false_iff] at hout
  simp [reallocOldUsable, hout.1, v8mMallocUsableSize, hready]

theorem copiesApart_block (hw : ApiInv w L blk) (hheld : w.held p = some old) :
    CopiesApart w p n := by
  intro env dst src k hlegal hcopy
  obtain ⟨-, hdst, ⟨mid, hmalloc⟩, rfl, rfl, hpos⟩ := reallocMemcpy_eq_some.1 hcopy
  have hmem : src ∈ w.world.pointers := World.mem_pointers hheld
  obtain ⟨g, hg⟩ := hw.inv.inv.account.grant_of_held hmem
  cases hready : w.api.dispatchReady with
  | true =>
    obtain ⟨-, -, -, hblocks⟩ := hw.malloc_ready hready hlegal hmalloc hdst
    obtain ⟨happ, -⟩ := hblocks src g hmem hg
    rw [hw.reallocOldUsable_block hready hg hheld]
    omega
  | false =>
    rw [hw.reallocOldUsable_outOfService (by simp [hheld]) hready] at hpos
    omega

theorem copiesApart_signalSafe (hw : ApiInv w L blk) (hsafe : bumpOwns w.api.signalSafe p = true)
    (hplain : load64 w.api.sys.heap.mem (ptrToMeta p) ≠ pageMagic) : CopiesApart w p n := by
  intro env dst src k hlegal hcopy
  obtain ⟨-, -, -, rfl, rfl, hpos⟩ := reallocMemcpy_eq_some.1 hcopy
  rw [hw.reallocOldUsable_signalSafe hsafe hplain] at hpos
  omega

/-! ### The cursor of the bootstrap buffer -/

theorem bootstrapAlloc_ok (hb : BuffersOk a) : (∃ a', bootstrapAlloc a n = .ok (q, a')) ↔
    a.bootstrap.offset + roundedSize n ≤ bootstrapSize ∧
      q = a.bootstrap.buffer + a.bootstrap.offset := by
  obtain ⟨hbuffer, hsize, halign⟩ := hb.bootstrap
  have hzero := bumpAlloc_eq_zero (n := n) hbuffer halign (by rw [hsize]; decide)
  rw [hsize] at hzero
  constructor
  · rintro ⟨a', hok⟩
    obtain ⟨-, -, -, -, hq, -⟩ := bootstrapAlloc_piece hb hok
    refine ⟨?_, hq⟩
    by_contra hfull
    rw [bootstrapAlloc, if_pos (hzero.2 (by omega))] at hok
    cases hok
  · rintro ⟨hfit, rfl⟩
    have hne : (bumpAlloc a.bootstrap n).1 ≠ 0 := fun h0 => by
      have := hzero.1 h0
      omega
    have hpiece := bumpAlloc_piece a.bootstrap n (by rw [halign]; decide)
      (by rw [hsize, halign]; decide) hne
    exact ⟨_, by rw [bootstrapAlloc, if_neg hne, hpiece.2.1]⟩

theorem bootstrapAlloc_cursor (hb : BuffersOk a) (hok : bootstrapAlloc a n = .ok (q, a')) :
    a'.bootstrap.buffer = a.bootstrap.buffer ∧
      a'.bootstrap.offset = a.bootstrap.offset + roundedSize n := by
  obtain ⟨hbuffer, hsize, halign⟩ := hb.bootstrap
  have hfit := ((bootstrapAlloc_ok hb).1 ⟨a', hok⟩).1
  have hoffset := bumpAlloc_offset (n := n) hbuffer halign (by rw [hsize]; decide)
  have hplace := bumpAlloc_place a.bootstrap n
  have hround := le_roundedSize n
  have hend : bootstrapSize = 262144 := rfl
  unfold bootstrapAlloc at hok
  dsimp only at hok
  split_ifs at hok
  obtain ⟨-, rfl⟩ := Prod.mk.inj (Except.ok.inj hok)
  refine ⟨congrArg Prod.fst hplace, ?_⟩
  rw [hsize, if_neg (by omega), Nat.mod_eq_of_lt (by omega)] at hoffset
  exact hoffset

/-- Every piece of the bootstrap buffer starts below the cursor. -/
def PiecesBelow (w : ApiWorld) : Prop :=
  ∀ p n, w.bumps p = some n → bumpOwns w.api.bootstrap p = true →
    p < w.api.bootstrap.buffer + w.api.bootstrap.offset

theorem PiecesBelow.keep (hbelow : PiecesBelow w) {w' : ApiWorld}
    (hboot : w'.api.bootstrap = w.api.bootstrap)
    (hbumps : ∀ p, w'.bumps p ≠ none → w.bumps p ≠ none) : PiecesBelow w' := by
  intro p n hp howns
  rw [hboot] at howns ⊢
  obtain ⟨m, hm⟩ := Option.ne_none_iff_exists'.1 (hbumps p (by simp [hp]))
  exact hbelow p m hm howns

theorem PiecesBelow.answer {size ptr note : ℕ} (hbelow : PiecesBelow w) (hw : ApiInv w L blk)
    (hgiven : Given env w.api blk w.world.pointers size ptr a')
    (hout : ∀ x, env.call.Offers x → w.api.inBuffers x = false) :
    PiecesBelow (w.answer a' ptr note) := by
  have hapart := hgiven.apart hout hw.buffers hw.apart
  cases hgiven with
  | @block s' g hanswer hfoot hissued hown heq =>
    obtain ⟨ring, hring⟩ := postAllocRecord_eq (w.api.setSys s') ptr
    rw [hring] at heq
    have hsys : a'.sys = s' := by
      rw [heq]
      rfl
    apply hbelow.keep
    · rw [api_answer, heq]
      rfl
    · intro p hp
      rwa [(answer_block w (hapart.served hanswer.served hsys) note).2] at hp
  | piece hready hok =>
    obtain ⟨hplaces, -, -, hne, hptr, -⟩ := bootstrapAlloc_piece hw.buffers hok
    obtain ⟨hbuffer, hoffset⟩ := bootstrapAlloc_cursor hw.buffers hok
    have hpos : 0 < roundedSize (max size 1) := lt_of_lt_of_le (by omega) (le_roundedSize _)
    intro p n hp howns
    rw [api_answer] at howns ⊢
    rw [bumpOwns_congr (Prod.mk.inj hplaces).1] at howns
    rw [hbuffer, hoffset]
    by_cases heq : p = ptr
    · omega
    · rw [answer_piece w hne (bootstrapAlloc_owns hw.buffers hok).2] at hp
      have hlt := hbelow p n (by simpa [Function.update_of_ne heq] using hp) howns
      omega

theorem PiecesBelow.release {ptr : ℕ} (hbelow : PiecesBelow w)
    (hok : v8mFree env w.api ptr = .ok a') : PiecesBelow (w.release env a' ptr) := by
  apply hbelow.keep
  · rw [api_release]
    obtain ⟨s', ring, ringIdx, rfl⟩ := v8mFree_eq hok
    rfl
  · intro p hp
    unfold ApiWorld.release at hp
    split_ifs at hp
    · obtain ⟨n, hn⟩ := Option.ne_none_iff_exists'.1 hp
      simp [bumps_update_none hn]
    · exact hp
    · exact hp

theorem PiecesBelow.signalSafeAlloc (hbelow : PiecesBelow w) (hw : ApiInv w L blk) (size : ℕ) :
    PiecesBelow (w.answer (V8Malloc.signalSafeAlloc w.api size).2
      (V8Malloc.signalSafeAlloc w.api size).1 size) := by
  obtain ⟨hplaces, -, -, hin⟩ := signalSafeAlloc_piece hw.buffers size
  by_cases hzero : (V8Malloc.signalSafeAlloc w.api size).1 = 0
  · rw [ApiWorld.answer, if_pos hzero]
    exact hbelow.keep rfl fun _ hp => hp
  · have hsafe := hin hzero
    rw [answer_piece w hzero (by rw [inBuffers_congr hplaces, Api.inBuffers, hsafe, Bool.or_true])]
    intro p n hp howns
    by_cases heq : p = (V8Malloc.signalSafeAlloc w.api size).1
    · have hapart := hw.buffers.apart
      change bumpOwns w.api.bootstrap p = true at howns
      rw [← heq, bumpOwns_iff] at hsafe
      rw [bumpOwns_iff] at howns
      omega
    · exact hbelow p n (by simpa [Function.update_of_ne heq] using hp) howns

theorem PiecesBelow.renote {ptr size : ℕ} (hbelow : PiecesBelow w) (hw : ApiInv w L blk)
    (howns : w.Owns ptr) : PiecesBelow (w.renote ptr size) := by
  unfold ApiWorld.renote
  split_ifs with hin
  · have hbump : w.bumps ptr ≠ none := by
      rcases howns with ⟨hheld, -⟩ | hbump
      · have hout := hw.held_outside (show ptr ∈ w.world.pointers from hheld)
        simp [hin] at hout
      · exact hbump
    apply PiecesBelow.keep hbelow
    · rfl
    · intro p hp
      by_cases heq : p = ptr
      · rwa [heq]
      · simpa [Function.update_of_ne heq] using hp
  · exact hbelow.keep rfl fun _ hp => hp

theorem PiecesBelow.step {w' : ApiWorld} {e : ApiEvent} (hbelow : PiecesBelow w)
    (hw : ApiInv w L blk) (hstep : ApiStep w e w') : PiecesBelow w' := by
  have hs := hw.inv.inv
  have hc := hw.inv.calm
  cases hstep with
  | malloc hlegal hok => exact hbelow.answer hw (v8mMalloc_given hs hc hlegal hok) hlegal.outside
  | calloc hlegal hok =>
    rcases v8mCalloc_cases hok with ⟨rfl, rfl⟩ | ⟨a₁, hmalloc, rfl | ⟨hne, rfl⟩⟩
    · exact hbelow.answer hw (given_null _ hs hc 0) hlegal.outside
    · exact hbelow.answer hw (doMallocPc_given hs hc hlegal hmalloc) hlegal.outside
    · rw [answer_setApi w (places_setMem a₁ _)]
      have hgiven := doMallocPc_given hs hc hlegal hmalloc
      refine (hbelow.answer hw hgiven hlegal.outside).keep ?_ fun _ hp => hp
      rw [api_answer]
      rfl
  | alignedAlloc hlegal hok =>
    exact hbelow.answer hw (v8mAlignedAlloc_given hs hc hlegal hok) hlegal.outside
  | signalSafeAlloc size => exact hbelow.signalSafeAlloc hw size
  | free hknows howns hok => exact hbelow.release hok
  | freeNull => exact hbelow
  | reallocNull hlegal hok =>
    exact hbelow.answer hw (doMallocPc_given hs hc hlegal hok) hlegal.outside
  | reallocZero hknows howns hok => exact hbelow.release hok
  | reallocKeep howns hsize hkeep => exact hbelow.renote hw howns
  | reallocFail howns hsize hmove hlegal hok =>
    have hanswer : PiecesBelow (w.answer _ 0 0) :=
      hbelow.answer hw (doMallocPc_given hs hc hlegal hok) hlegal.outside
    rwa [ApiWorld.answer, if_pos rfl] at hanswer
  | @reallocMove env envFree ptr size new mid filled a' howns hsize hmove hlegal hok hne hfill hplain
      hknows hfree =>
    obtain ⟨m', hmem⟩ := reallocFill_eq env mid (reallocOldUsable w.api ptr) new ptr size
    have hfilled : filled = mid.setMem m' := hfill.symm.trans hmem
    have hanswer : PiecesBelow (w.answer mid new size) :=
      hbelow.answer hw (doMallocPc_given hs hc hlegal hok) hlegal.outside
    apply PiecesBelow.release
    · rw [hfilled, answer_setApi w (places_setMem mid m')]
      refine hanswer.keep ?_ fun _ hp => hp
      rw [api_answer]
      rfl
    · rwa [api_answer]
  | setDebug on => exact hbelow.keep rfl fun _ hp => hp
  | setSoftLimit limit => exact hbelow.keep rfl fun _ hp => hp
  | lifecycle state => exact hbelow.keep rfl fun _ hp => hp
  | upkeep hup => exact hbelow.keep rfl fun _ hp => hp
  | write hm => exact hbelow.keep rfl fun _ hp => hp
  | elsewhere hm => exact hbelow.keep rfl fun _ hp => hp

theorem ApiRun.piecesBelow {ok : ApiWorld → ApiEvent → Prop} (hrun : ApiRun ok w) :
    PiecesBelow w := by
  induction hrun with
  | load p hboot hsafe hapart =>
    intro p n hp
    cases hp
  | step hrun hok hstep hapart ih =>
    obtain ⟨L, blk, hw⟩ := hrun.apiInv
    exact ih.step hw hstep

/-! ### Every call -/

/-- Out of service the answer is the cursor, while the buffer has room. -/
theorem doMallocPc_cursor (env : Env) (hb : BuffersOk a) (hready : a.dispatchReady = false) (hn : n ≠ 0) :
    (∃ mid, doMallocPc env a n = .ok (q, mid)) ↔
      a.bootstrap.offset + roundedSize n ≤ bootstrapSize ∧
        q = a.bootstrap.buffer + a.bootstrap.offset := by
  rw [← bootstrapAlloc_ok hb, doMallocPc_bootstrap hready hn]

/-- A piece that is resized out of service is copied to the cursor, above it. -/
theorem reallocMemcpy_cursor (env : Env) (hw : ApiInv w L blk) (hbelow : PiecesBelow w)
    (hboot : bumpOwns w.api.bootstrap p = true) (hbump : w.bumps p = some old) (hn : n ≠ 0)
    (hready : w.api.dispatchReady = false)
    (hroom : w.api.bootstrap.offset + roundedSize n ≤ bootstrapSize) :
    reallocMemcpy env w.api p n = some (w.api.bootstrap.buffer + w.api.bootstrap.offset, p, n) := by
  have hlt := hbelow p old hbump hboot
  have hend := (hw.reallocOldUsable_bootstrap hboot hbump).2
  have hround := le_roundedSize n
  rw [reallocMemcpy_eq_some, doMallocPc_cursor env hw.buffers hready hn]
  refine ⟨⟨?_, hn, by simp [reallocInPlace, hboot]⟩, by omega, ⟨hroom, rfl⟩, rfl, by omega, by omega⟩
  rw [bumpOwns_iff] at hboot
  omega

/-- Out of service the new piece starts at the cursor, above the old one. -/
theorem copiesApart_bootstrap_iff (hw : ApiInv w L blk) (hbelow : PiecesBelow w)
    (hboot : bumpOwns w.api.bootstrap p = true) (hbump : w.bumps p = some old) (hn : n ≠ 0)
    (hready : w.api.dispatchReady = false) : CopiesApart w p n ↔
      p + n ≤ w.api.bootstrap.buffer + w.api.bootstrap.offset ∨
        bootstrapSize < w.api.bootstrap.offset + roundedSize n := by
  have hlt := hbelow p old hbump hboot
  constructor
  · intro hapart
    by_contra hover
    rw [not_or] at hover
    have hcopy := reallocMemcpy_cursor (slowEnv laterCall) hw hbelow hboot hbump hn hready (by omega)
    have hdisjoint := hapart _ _ _ _ (legal_slowEnv_later _ _) hcopy
    omega
  · intro hcond env dst src k hlegal hcopy
    obtain ⟨-, -, hok, rfl, rfl, -⟩ := reallocMemcpy_eq_some.1 hcopy
    obtain ⟨hfit, rfl⟩ := (doMallocPc_cursor env hw.buffers hready hn).1 hok
    omega

/-- The copy of a resize never overlaps, except between two pieces of the bootstrap buffer when
the new size, counted from the old piece, passes the cursor. -/
theorem realloc_copies_apart_iff {ok : ApiWorld → ApiEvent → Prop} (w : ApiWorld) (p old n : ℕ)
    (o : Origin) (hrun : ApiRun ok w) (hhas : w.Has p old n o) (hn : n ≠ 0)
    (hplain : o = .signalSafe → load64 w.api.sys.heap.mem (ptrToMeta p) ≠ pageMagic) :
    CopiesApart w p n ↔
      w.api.dispatchReady = true ∨ bumpOwns w.api.bootstrap p = false ∨
        p + n ≤ w.api.bootstrap.buffer + w.api.bootstrap.offset ∨
        bootstrapSize < w.api.bootstrap.offset + roundedSize n := by
  obtain ⟨L, blk, hw⟩ := hrun.apiInv
  cases o with
  | block =>
    have hout := hw.held_outside (World.mem_pointers hhas.1)
    simp only [Api.inBuffers, Bool.or_eq_false_iff] at hout
    exact iff_of_true (copiesApart_block hw hhas.1) (Or.inr (Or.inl hout.1))
  | signalSafe =>
    obtain ⟨hbump, hsafe⟩ := hhas
    exact iff_of_true (copiesApart_signalSafe hw hsafe (hplain rfl))
      (Or.inr (Or.inl (hw.signalSafe_not_bootstrap hsafe)))
  | bootstrap below =>
    obtain ⟨hbump, hboot, -⟩ := hhas
    cases hready : w.api.dispatchReady with
    | true =>
      refine iff_of_true ?_ (Or.inl rfl)
      intro env dst src k hlegal hcopy
      obtain ⟨-, hdst, ⟨mid, hmalloc⟩, rfl, rfl, -⟩ := reallocMemcpy_eq_some.1 hcopy
      exact hw.piece_apart hboot hbump hready hlegal hmalloc hdst
    | false =>
      rw [copiesApart_bootstrap_iff hw hrun.piecesBelow hboot hbump hn hready]
      simp [hboot]

/-- A piece of 16 bytes is resized to 16 before the library is in service: it is copied up to the
cursor. -/
theorem realloc_copies_apart_early :
    ApiRun (fun _ _ => True) earlyBootWorld ∧
      (CopiesApart earlyBootWorld (2 ^ 20) 16 ↔
        earlyBootWorld.api.dispatchReady = true ∨
          bumpOwns earlyBootWorld.api.bootstrap (2 ^ 20) = false ∨
          2 ^ 20 + 16 ≤ earlyBootWorld.api.bootstrap.buffer + earlyBootWorld.api.bootstrap.offset ∨
          bootstrapSize < earlyBootWorld.api.bootstrap.offset + roundedSize 16) :=
  ⟨earlyBootWorld_run, realloc_copies_apart_iff earlyBootWorld (2 ^ 20) 16 16 (.bootstrap true)
    earlyBootWorld_run ⟨by simp [earlyBootWorld], by decide, by decide⟩ (by norm_num) nofun⟩

/-- `memcpy(2^20 + 16, 2^20, 32)`. -/
theorem realloc_copies_overlap :
    ApiRun (fun _ _ => True) earlyBootWorld ∧ earlyBootWorld.bumps (2 ^ 20) = some 16 ∧
      (slowEnv laterCall).Legal earlyBootWorld.api 32 ∧
      reallocMemcpy (slowEnv laterCall) earlyBootWorld.api (2 ^ 20) 32 =
        some (2 ^ 20 + 16, 2 ^ 20, 32) ∧
      ¬(2 ^ 20 + 16 + 32 ≤ 2 ^ 20 ∨ 2 ^ 20 + 32 ≤ 2 ^ 20 + 16) := by
  refine ⟨earlyBootWorld_run, by simp [earlyBootWorld], legal_slowEnv_later _ _, ?_, by norm_num⟩
  refine reallocMemcpy_eq_some.2 ⟨⟨by norm_num, by norm_num, by decide⟩, by norm_num, ?_, rfl, ?_,
    by norm_num⟩
  · exact ⟨_, doMallocPc_bootstrap (by decide) (by norm_num)⟩
  · decide

end V8Malloc
