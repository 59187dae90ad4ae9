import V8Malloc.Api.Ring

/-!
# The red zone of guarded blocks

A large block that is allocated with DEBUG on has its size in the header and
canary bytes behind it, and its free checks them. A resize in place grants more
bytes without moving the canary, so the check is sound as long as no block is
grown into its own red zone.
-/
namespace V8Malloc

open ByteMemory LinkedList StackLedger
open Function (update update_of_ne update_self)

variable {a a' : Api} {w w' : ApiWorld} {L L' : Stack → List ℕ} {blk blk' : Blocks} {h h' : Heap}
variable {env : Env} {size ptr new p n : ℕ} {s' : Sys} {m' : Mem} {e : ApiEvent} {g : Grant}
variable {block : LargeMeta}

/-! ### Headers of large blocks in a call -/

theorem Upkeep.kept {s : Sys} (hup : Upkeep s s') : LargeKept s.heap s'.heap := by
  cases hup with
  | drainAll hok => exact (confined_dispatchDrainAll hok).large
  | drainLocalL2 hok => exact (confined_dispatchDrainLocalL2 hok).1
  | drainMedium hok => exact (confined_dispatchDrainMedium hok).large
  | bgTick => exact dispatchBgTick_kept s
  | purgeDrained => exact (dispatchPurgeDrained_still s).large

/-! ### Guarded blocks -/

/-- A guarded block at `p` was asked for with at least `n` bytes, and its red zone is whole. -/
def Guarded (h : Heap) (p n : ℕ) : Prop :=
  ∀ block, h.heads (ptrToMeta p) = some (.large block) → block.guardBytes ≠ 0 →
    n ≤ block.requestedSize ∧ allBytes h.mem (p + block.requestedSize)
      (largeRedzoneSpan block (largeHeaderOffset p)) largeRedzoneByte = true

/-- The block behind a large header, with its place and the room in it. -/
theorem HeapInv.large_header (hh : HeapInv h blk) (hg : blk p = some g)
    (hhead : h.heads (ptrToMeta p) = some (.large block)) :
    p = ptrToMeta p + largeHeaderOffset p ∧
      largeRedzoneSpan block (largeHeaderOffset p) ≤ g.bytes - block.requestedSize := by
  obtain ⟨off, hoff, hiff⟩ := hh.headers _ _ hhead
  obtain ⟨haddr, rfl⟩ := (hiff p g rfl).1 hg
  have hfit := (hh.layout.fits _ _ _ (.large hhead)).2.2.2.2
  have hroom := hoff.room
  unfold addressSpace at hfit
  rw [largeHeaderOffset_eq haddr]
  refine ⟨haddr, ?_⟩
  simp only [largeRedzoneSpan, LargeMeta.grant]
  rw [sub64_eq (show off ≤ block.mmapSize by omega) (by omega), sub64_eq (by omega) (by omega)]
  split_ifs <;> omega

/-- The header is the old one and no byte behind the first `n` has changed. -/
theorem Guarded.carried (hguard : Guarded h p n) (hh : HeapInv h blk) (hg : blk p = some g)
    (hkept : ∀ block, h'.heads (ptrToMeta p) = some (.large block) →
      h.heads (ptrToMeta p) = some (.large block))
    (hsame : ∀ x, p + n ≤ x → x < p + g.bytes → h'.mem x = h.mem x) : Guarded h' p n := by
  intro block hhead hne
  have hold := hkept block hhead
  obtain ⟨hle, hall⟩ := hguard block hold hne
  have hspan := (hh.large_header hg hold).2
  exact ⟨hle, (allBytes_congr fun x hlo hhi => hsame x (by omega) (by omega)).trans hall⟩

/-- Every block the program has is guarded with the size it was last granted. -/
def GuardInv (w : ApiWorld) : Prop := ∀ p n, w.held p = some n → Guarded w.api.sys.heap p n

/-- The state has changed and blocks were at most given up. -/
theorem GuardInv.carried (hguard : GuardInv w) (hw : ApiInv w L blk)
    (hkept : LargeKept w.api.sys.heap w'.api.sys.heap)
    (hheld : ∀ p n, w'.held p = some n → w.held p = some n)
    (hsame : ∀ p n g, w'.held p = some n → blk p = some g → ∀ x, p + n ≤ x → x < p + g.bytes →
      w'.api.sys.heap.mem x = w.api.sys.heap.mem x) : GuardInv w' := by
  intro p n hp
  obtain ⟨g, hg⟩ := hw.inv.inv.account.grant_of_held (World.mem_pointers (hheld p n hp))
  exact (hguard p n (hheld p n hp)).carried hw.inv.inv.account.inv hg (hkept _)
    (hsame p n g hp hg)

/-- Large blocks are on no stack. -/
theorem SysInv.large_held {s : Sys} {held : Set ℕ} (hs : SysInv s L blk held)
    (hg : blk p = some g) (hlarge : g.backend = .large) : p ∈ held := by
  rcases (hs.account.ledger.allocated p).1 (by rw [hg]; nofun) with hheld | ⟨k, hk⟩
  · exact hheld
  · have hfits := hs.account.ledger.sorted k p hk g hg
    cases k with
    | bin t cls =>
      rw [hfits.2] at hlarge
      cases hlarge
    | core cpu cls =>
      rw [hfits.2] at hlarge
      cases hlarge
    | medium t idx =>
      rw [hfits.2] at hlarge
      cases hlarge

/-- The page of a large header has one block. -/
theorem HeapInv.large_unique {q : ℕ} {g' : Grant} (hh : HeapInv h blk)
    (hhead : h.heads (ptrToMeta p) = some (.large block)) (hbase : ptrToMeta q = ptrToMeta p)
    (hp : blk p = some g) (hq : blk q = some g') : q = p := by
  obtain ⟨off, -, hiff⟩ := hh.headers _ _ hhead
  exact ((hiff q g' hbase).1 hq).1.trans ((hiff p g rfl).1 hp).1.symm

/-- The block of an old large header is in hand before and after a call. -/
theorem SysInv.large_carried {s : Sys} {held held' : Set ℕ} (hs : SysInv s L blk held)
    (hs' : SysInv s' L' blk' held') (hcarried : Carried held blk s.heap.mem blk' s'.heap.mem)
    (hhead : s.heap.heads (ptrToMeta p) = some (.large block))
    (hhead' : s'.heap.heads (ptrToMeta p) = some (.large block)) (hp : blk' p = some g) :
    p ∈ held := by
  obtain ⟨off, hoff, hiff⟩ := hs.account.inv.headers _ _ hhead
  have hbase : ptrToMeta (ptrToMeta p + off) = ptrToMeta p :=
    ptrToMeta_eq (ptrToMeta_dvd p) (by omega) (by have := hoff.off_lt; omega)
  have hold : blk (ptrToMeta p + off) = some (block.grant off) := (hiff _ _ hbase).2 ⟨rfl, rfl⟩
  have hin := hs.large_held hold rfl
  have heq := hs'.account.inv.large_unique hhead' hbase hp (hcarried _ hin _ hold).1
  rwa [heq] at hin

theorem GuardInv.answer (hguard : GuardInv w) (hw : ApiInv w L blk)
    (hgiven : Given env w.api blk w.world.pointers size ptr a') :
    GuardInv (w.answer a' ptr size) := by
  cases hgiven with
  | @block s' g hanswer hfoot hissued hown heq =>
    obtain ⟨ring, hring⟩ := postAllocRecord_eq (w.api.setSys s') ptr
    have hsys : a'.sys = s' := by rw [heq, hring]; rfl
    obtain ⟨⟨L', blk', hs', -, hcarried, hgrant⟩, hfresh⟩ := hanswer.served
    have hnew : ptr ≠ 0 → Guarded s'.heap ptr size := by
      intro hne block hhead hmark
      rcases hissued _ _ hhead with hold | ⟨off, -, hptr, hzone⟩
      · exact absurd (hw.inv.inv.large_carried hs' hcarried hold hhead (hgrant hne)) (hfresh hne)
      · obtain ⟨hreq, hall⟩ := hzone hmark
        rw [hreq, largeHeaderOffset_eq hptr]
        exact ⟨le_max_left _ _, hall⟩
    have hrest : ∀ q n, w.held q = some n → q ≠ ptr → Guarded s'.heap q n := by
      intro q n hq hne
      have hmem : q ∈ w.world.pointers := World.mem_pointers hq
      obtain ⟨g', hg'⟩ := hw.inv.inv.account.grant_of_held hmem
      obtain ⟨hg'', hbytes⟩ := hcarried q hmem g' hg'
      refine (hguard q n hq).carried hw.inv.inv.account.inv hg' (fun block hhead => ?_)
        fun x hlo hhi => hbytes x (by omega) hhi
      rcases hissued _ _ hhead with hold | ⟨off, hoff, hptr, -⟩
      · exact hold
      · -- the new header would be that of the page of `q`
        have hpos := (hs'.account.inv.layout.fits _ _ _ (.large hhead)).2.2.1
        have hbase : ptrToMeta ptr = ptrToMeta q :=
          ptrToMeta_eq (ptrToMeta_dvd q) (by omega) (by omega)
        have heq := hs'.account.inv.large_unique hhead hbase hg'' (hgrant (by omega))
        exact absurd heq.symm hne
    intro q n hq
    rw [api_answer, hsys]
    unfold ApiWorld.answer at hq
    split_ifs at hq with hzero hin
    · by_cases hqp : q = ptr
      · have hmem : q ∈ w.world.pointers := World.mem_pointers hq
        exact absurd (hqp.trans hzero) (hw.inv.inv.account.ne_zero hmem)
      · exact hrest q n hq hqp
    · by_cases hqp : q = ptr
      · exact absurd (World.mem_pointers (w := w.world) hq) (hqp ▸ hfresh hzero)
      · exact hrest q n hq hqp
    · dsimp only at hq
      by_cases hqp : q = ptr
      · rw [hqp, update_self] at hq
        cases hq
        rw [hqp]
        exact hnew hzero
      · rw [update_of_ne hqp] at hq
        exact hrest q n hq hqp
  | piece hready hok =>
    obtain ⟨-, hsys, -, hne, -⟩ := bootstrapAlloc_piece hw.buffers hok
    rw [answer_piece w hne (bootstrapAlloc_owns hw.buffers hok).2]
    intro q n hq
    rw [hsys]
    exact hguard q n hq

/-- Bytes change only where some block was granted them. -/
theorem GuardInv.granted (hguard : GuardInv w) (hw : ApiInv w L blk)
    (hm : ∀ x, m' x ≠ w.api.sys.heap.mem x → w.api.sys.heap.Taken x →
      ∃ p n, w.held p = some n ∧ p ≤ x ∧ x < p + n) :
    GuardInv (w.setApi (w.api.setMem m')) := by
  have hinv := hw.inv.inv.account.inv
  refine hguard.carried hw (.of_heads rfl) (fun _ _ hp => hp) fun p n g hp hg x hlo hhi => ?_
  by_contra hne
  obtain ⟨q, k, hq, hqlo, hqhi⟩ := hm x hne (hinv.taken_byte hg (by omega) hhi)
  obtain ⟨g', hg'⟩ := hw.inv.inv.account.grant_of_held (World.mem_pointers hq)
  have hcovers : max k 1 ≤ g'.bytes := hw.inv.covers q k g' hq hg'
  by_cases heq : q = p
  · subst heq
    have hsize := hq.symm.trans hp
    cases hsize
    omega
  · have happ := hinv.blocks_apart hg hg' (Ne.symm heq)
    omega

/-- The library writes into a block or piece it has just answered. -/
theorem GuardInv.store (hguard : GuardInv w) (hw : ApiInv w L blk) (m' : Mem)
    (hnoted : w.Noted p n) (hsame : SameOutside p n w.api.sys.heap.mem m') :
    GuardInv (w.setApi (w.api.setMem m')) := by
  refine hguard.granted hw fun x hne htaken => ?_
  have hin : p ≤ x ∧ x < p + n := by
    by_contra hout
    exact hne (hsame x (by omega))
  rcases hnoted with hheld | ⟨hbump, hboot⟩
  · exact ⟨p, n, hheld, hin⟩
  · exact absurd htaken (hw.piece_not_taken hbump hboot hin)

theorem GuardInv.release (hguard : GuardInv w) (hw : ApiInv w L blk)
    (hknows : env.Knows w.api.sys.heap ptr) (howns : w.Owns ptr)
    (hok : v8mFree env w.api ptr = .ok a') : GuardInv (w.release env a' ptr) := by
  have hfreed : ∀ {s' : Sys}, Freed w.api.sys blk w.world.pointers ptr s' → a'.sys = s' →
      GuardInv { w with api := a', held := update w.held ptr none } := by
    rintro s' ⟨L', blk', -, -, hcarried⟩ hsys
    refine hguard.carried hw (v8mFree_kept hok).1 (fun _ _ hp => bumps_update_none hp)
      fun p n g hp hg x hlo hhi => ?_
    have hne : p ≠ ptr := by
      rintro rfl
      dsimp only at hp
      rw [update_self] at hp
      cases hp
    have hmem : p ∈ w.world.pointers := World.mem_pointers (bumps_update_none hp)
    rw [hsys]
    exact (hcarried p ⟨hmem, hne⟩ g hg).2 x (by omega) hhi
  rcases howns with ⟨hheld, -⟩ | hbump
  · have hout := hw.held_outside hheld
    cases hw.returned hknows hheld hok with
    | bin hfast hfree heq =>
      rw [release_block hout (Or.inl hfast)]
      exact hfreed hfree (by rw [heq]; rfl)
    | block hfast hready hnote hfree heq =>
      rw [release_block hout (Or.inr hready)]
      exact hfreed hfree (by rw [heq]; rfl)
    | dropped hfast hready heq =>
      rw [release_dropped hout hfast hready, heq]
      exact hguard
  · obtain ⟨n, hn⟩ := Option.ne_none_iff_exists'.1 hbump
    have hin := (hw.bumps ptr n hn).1
    rw [release_piece hin, v8mFree_buffer hw.apart hknows hin hok]
    exact hguard

/-! ### Runs -/

/-- The program writes only bytes that it was last granted. -/
def WritesGranted (w : ApiWorld) : ApiEvent → Prop
  | .write m' => ∀ x, m' x ≠ w.api.sys.heap.mem x → ∃ p n, w.held p = some n ∧ p ≤ x ∧ x < p + n
  | _ => True

/-- No resize in place grants a guarded block more bytes than were first asked for. -/
def KeepsRedZone (w : ApiWorld) : ApiEvent → Prop
  | .realloc ptr size => reallocInPlace w.api ptr size = true →
      ∀ block, w.api.sys.heap.heads (ptrToMeta ptr) = some (.large block) →
        block.guardBytes ≠ 0 → size ≤ block.requestedSize
  | _ => True

theorem GuardInv.calloc {nmemb : ℕ} (hguard : GuardInv w) (hw : ApiInv w L blk)
    (hlegal : env.Legal w.api (nmemb * size))
    (hok : v8mCalloc env w.api nmemb size = .ok (ptr, a')) :
    GuardInv (w.answer a' ptr (nmemb * size)) := by
  rcases v8mCalloc_cases hok with ⟨rfl, rfl⟩ | ⟨a₁, hmalloc, rfl | ⟨hne, rfl⟩⟩
  · rw [ApiWorld.answer, if_pos rfl]
    exact hguard
  · exact hguard.answer hw (doMallocPc_given hw.inv.inv hw.inv.calm hlegal hmalloc)
  · have hgiven := doMallocPc_given hw.inv.inv hw.inv.calm hlegal hmalloc
    obtain ⟨⟨L', blk', hinv⟩, hnoted⟩ := hw.answer hgiven hlegal.outside
    rw [answer_setApi w (places_setMem a₁ _)]
    have hstore := (hguard.answer hw hgiven).store hinv
      (fill a₁.sys.heap.mem ptr (nmemb * size) 0) (hnoted hne)
    rw [api_answer] at hstore
    exact hstore (sameOutside_fill _ _ _ _)

/-- A block is being moved: the new one has the old contents, the old one is still there. -/
theorem GuardInv.moved {mid filled : Api} {oldUsable : ℕ} (hguard : GuardInv w)
    (hw : ApiInv w L blk) (hlegal : env.Legal w.api size)
    (hok : doMallocPc env w.api size = .ok (new, mid)) (hne : new ≠ 0)
    (hfill : reallocFill env mid oldUsable new ptr size = filled) :
    GuardInv (w.answer filled new size) := by
  have hgiven := doMallocPc_given hw.inv.inv hw.inv.calm hlegal hok
  obtain ⟨⟨L', blk', hinv⟩, hnoted⟩ := hw.answer hgiven hlegal.outside
  have hanswer := hguard.answer hw hgiven
  unfold reallocFill at hfill
  dsimp only at hfill
  by_cases hcopied : (if oldUsable < size then oldUsable else size) > 0
  · rw [if_pos hcopied] at hfill
    subst hfill
    rw [answer_setApi w (places_setMem mid _)]
    have hstore := hanswer.store hinv (memcpy env.noise mid.sys.heap.mem new ptr
      (if oldUsable < size then oldUsable else size)) (hnoted hne)
    rw [api_answer] at hstore
    exact hstore ((sameOutside_memcpy _ _ _ _ _).mono le_rfl (by split_ifs <;> omega))
  · rw [if_neg hcopied] at hfill
    subst hfill
    exact hanswer

theorem GuardInv.renote (hguard : GuardInv w) (hkeep : ∀ block,
      w.api.sys.heap.heads (ptrToMeta ptr) = some (.large block) → block.guardBytes ≠ 0 →
        size ≤ block.requestedSize) (howns : w.Owns ptr) (hw : ApiInv w L blk) :
    GuardInv (w.renote ptr size) := by
  unfold ApiWorld.renote
  split_ifs with hin
  · exact hguard
  · intro q n hq
    dsimp only at hq ⊢
    by_cases hqp : q = ptr
    · subst hqp
      rw [update_self] at hq
      cases hq
      intro block hhead hmark
      refine ⟨hkeep block hhead hmark, ?_⟩
      rcases howns with ⟨hheld, -⟩ | hbump
      · obtain ⟨k, hk⟩ := Option.ne_none_iff_exists'.1 hheld
        exact (hguard q k hk block hhead hmark).2
      · obtain ⟨k, hk⟩ := Option.ne_none_iff_exists'.1 hbump
        exact absurd (hw.bumps q k hk).1 hin
    · rw [update_of_ne hqp] at hq
      exact hguard q n hq

theorem GuardInv.step (hguard : GuardInv w) (hw : ApiInv w L blk) (hstep : ApiStep w e w')
    (hwrites : WritesGranted w e) (hkeeps : KeepsRedZone w e) : GuardInv w' := by
  have hs := hw.inv.inv
  have hc := hw.inv.calm
  cases hstep with
  | malloc hlegal hok =>
    exact hguard.answer hw (v8mMalloc_given hs hc hlegal hok)
  | calloc hlegal hok => exact hguard.calloc hw hlegal hok
  | alignedAlloc hlegal hok =>
    exact hguard.answer hw (v8mAlignedAlloc_given hs hc hlegal hok)
  | signalSafeAlloc size =>
    obtain ⟨hplaces, hsys, -, hin⟩ := signalSafeAlloc_piece hw.buffers size
    unfold ApiWorld.answer
    rw [inBuffers_congr hplaces]
    split_ifs with hzero hbuf
    · exact hguard
    · exact hguard
    · exact absurd (by rw [Api.inBuffers, hin hzero, Bool.or_true]) hbuf
  | free hknows howns hok => exact hguard.release hw hknows howns hok
  | freeNull => exact hguard
  | reallocNull hlegal hok =>
    exact hguard.answer hw (doMallocPc_given hs hc hlegal hok)
  | reallocZero hknows howns hok => exact hguard.release hw hknows howns hok
  | reallocKeep howns hsize hkeep => exact hguard.renote (hkeeps hkeep) howns hw
  | reallocFail howns hsize hmove hlegal hok =>
    have hanswer := hguard.answer hw (doMallocPc_given hs hc hlegal hok)
    rwa [ApiWorld.answer, if_pos rfl] at hanswer
  | reallocMove howns hsize hmove hlegal hok hne hfill hplain hknows hfree =>
    obtain ⟨⟨L', blk', hfilled⟩, -, hkeep⟩ := hw.moving hlegal hok hne hfill hplain
    exact (hguard.moved hw hlegal hok hne hfill).release hfilled (hkeep hknows)
      (owns_answer howns _ _ _) (by rwa [api_answer])
  | setDebug on => exact hguard
  | setSoftLimit limit => exact hguard
  | lifecycle state => exact hguard
  | upkeep hup =>
    obtain ⟨L', blk', -, hcarried, -⟩ := hup.drained hs hc
    exact hguard.carried hw hup.kept (fun _ _ hp => hp) fun p n g hp hg x hlo hhi =>
      (hcarried p (World.mem_pointers hp) g hg).2 x (by omega) hhi
  | write hm => exact hguard.granted hw fun x hne _ => hwrites x hne
  | elsewhere hm => exact hguard.granted hw fun x hne htaken => absurd (hm x htaken) hne

theorem ApiRun.guardInv (hrun : ApiRun (fun w e => WritesGranted w e ∧ KeepsRedZone w e) w) :
    GuardInv w := by
  induction hrun with
  | load p hboot hsafe hapart => exact fun _ _ hp => nomatch hp
  | step hrun hok hstep hapart ih =>
    obtain ⟨L, blk, hw⟩ := hrun.apiInv
    exact ih.step hw hstep hok.1 hok.2

/-- The check of a block the program has finds the canary. -/
theorem GuardInv.check (hguard : GuardInv w) (hw : ApiInv w L blk) (hheld : w.held ptr ≠ none)
    (hheader : w.api.sys.heap.headerAt (ptrToMeta ptr) = some (.large block))
    (hmark : block.guardBytes ≠ 0) :
    largeCheckRedzone w.api.sys.heap.mem ptr block (largeHeaderOffset ptr) = .ok () := by
  obtain ⟨n, hn⟩ := Option.ne_none_iff_exists'.1 hheld
  obtain ⟨⟨bytes, backend⟩, hg⟩ :=
    hw.inv.inv.account.grant_of_held (show ptr ∈ w.world.pointers from hheld)
  have hinv : HeapInv w.api.sys.heap blk := hw.inv.inv.account.inv
  cases backend with
  | slab cls arena =>
    obtain ⟨page, hslab, -⟩ := hinv.headerAt_slab hg
    rw [hslab] at hheader
    cases hheader
  | buddy =>
    rw [hinv.headerAt_buddy hg] at hheader
    cases hheader
  | large =>
    obtain ⟨block', off, hhead, -⟩ := hinv.large_block hg
    have hat : w.api.sys.heap.headerAt (ptrToMeta ptr) = some (.large block') := by
      simp only [Heap.headerAt, hhead]
    rw [hheader] at hat
    cases hat
    rw [largeCheckRedzone, if_pos (hguard ptr n hn block hhead hmark).2]

/-- The red zone of a block the program has is whole, in a free and in the free of a moving
resize. -/
theorem largeCheckRedzone_passes
    (hrun : ApiRun (fun w e => WritesGranted w e ∧ KeepsRedZone w e) w)
    (hheld : w.held ptr ≠ none) :
    (∀ block, w.api.sys.heap.headerAt (ptrToMeta ptr) = some (.large block) →
      block.guardBytes ≠ 0 →
      largeCheckRedzone w.api.sys.heap.mem ptr block (largeHeaderOffset ptr) = .ok ()) ∧
    ∀ (env : Env) (size new : ℕ) (mid filled : Api), env.Legal w.api size →
      doMallocPc env w.api size = .ok (new, mid) → new ≠ 0 →
      reallocFill env mid (reallocOldUsable w.api ptr) new ptr size = filled →
      PlainChange mid.sys.heap.mem filled.sys.heap.mem →
      ∀ block, filled.sys.heap.headerAt (ptrToMeta ptr) = some (.large block) →
        block.guardBytes ≠ 0 →
        largeCheckRedzone filled.sys.heap.mem ptr block (largeHeaderOffset ptr) = .ok () := by
  obtain ⟨L, blk, hw⟩ := hrun.apiInv
  have hguard := hrun.guardInv
  refine ⟨fun block hheader hmark => hguard.check hw hheld hheader hmark, ?_⟩
  intro env size new mid filled hlegal hok hne hfill hplain block hheader hmark
  obtain ⟨⟨L', blk', hfilled⟩, -⟩ := hw.moving hlegal hok hne hfill hplain
  have hmoved := hguard.moved hw hlegal hok hne hfill
  have hheld' : (w.answer filled new size).held ptr ≠ none := by
    unfold ApiWorld.answer
    split_ifs
    · exact hheld
    · exact hheld
    · dsimp only
      by_cases heq : ptr = new
      · rw [heq, update_self]
        nofun
      · rwa [update_of_ne heq]
  have hcheck := hmoved.check hfilled hheld' (by rwa [api_answer]) hmark
  rwa [api_answer] at hcheck

/-! ### A block grown into its red zone -/

/-- The page heap has one region, for a block of 300000 bytes with its guard. -/
def regionCall : Call :=
  { laterCall with regions := fun n => if n = 393216 then 2 ^ 24 else 0 }

theorem legal_regionCall : Legal regionCall (Sys.init emptyPool).heap where
  pages := ⟨fun _ hp => absurd hp List.not_mem_nil, List.nodup_nil⟩
  arena := fun hne => absurd rfl hne
  regions := by
    intro n hne
    simp only [regionCall] at hne ⊢
    split_ifs at hne ⊢ with hn
    · subst hn
      exact ⟨by decide, by decide, by decide, by decide, by decide, fun x _ _ => not_taken_init _ x⟩
    · exact absurd rfl hne
  owns := fun _ _ => rfl

theorem offers_regionCall {x : ℕ} (hx : regionCall.Offers x) : 2 ^ 24 ≤ x := by
  rcases hx with ⟨p, hp, -⟩ | ⟨hne, -⟩ | ⟨n, hne, hle, -⟩
  · exact absurd hp List.not_mem_nil
  · exact absurd rfl hne
  · simp only [regionCall] at hne hle
    split_ifs at hne hle with hn
    · exact hle
    · exact absurd rfl hne

/-- DEBUG is on, nothing is allocated. -/
def debugWorld : ApiWorld := readyWorld.setApi { readyWorld.api with debug := true }

def guardedMeta : LargeMeta := ⟨largeSizeClassTag 300000, 393216, pageSize, 300000⟩

/-- An empty ring has no record to clear. -/
theorem postAllocRecord_empty (hempty : RingEmpty a.ring) (hne : ptr ≠ 0) :
    postAllocRecord a ptr = a := by
  have hnone : ((List.range doubleFreeRingSize).find? fun i => a.ring i = ptr) = none := by
    simp only [List.find?_eq_none, List.mem_range, decide_eq_true_eq]
    intro i hi heq
    exact hne (heq.symm.trans (hempty i hi))
  rw [postAllocRecord, debugClearDoubleFreeRecord, if_neg hne, hnone, ite_self]

/-- The region with its header and its red zone. -/
def guardedState : Sys :=
  { Sys.init emptyPool with
    heap := (largeInstall true (Sys.init emptyPool).heap 300000 slabHeaderSize (2 ^ 24) 393216
      pageSize).2 }

/-- With DEBUG on the region is always a new one. -/
theorem largeAllocWithOffset_debug {opts : LargeOptions} {pheapAlloc : ℕ → ℕ}
    {off align guardBytes : ℕ} (hdebug : opts.debug = true) (hprotect : opts.mprotectOk = true)
    (hmap : largeMapping true size off align = some (n, guardBytes)) (hne : pheapAlloc n ≠ 0) :
    largeAllocWithOffset opts h size off align pheapAlloc =
      largeInstall true h size off (pheapAlloc n) n guardBytes := by
  rw [largeAllocWithOffset, onHeap_allocWithOffset]
  simp [LargeState.of, hdebug, hprotect, hmap, hne]

theorem guarded_alloc : dispatchAlloc { regionCall with debug := true } (Sys.init emptyPool) 300000 =
    .ok (2 ^ 24 + slabHeaderSize, guardedState) := by
  have hmap : largeMapping true 300000 slabHeaderSize pageSize =
      some (393216, pageSize) := by decide
  have hregion : regionCall.regions 393216 = 2 ^ 24 := by decide
  have hlarge : largeAlloc ⟨true, false, true⟩ (Sys.init emptyPool).heap 300000 regionCall.regions =
      largeInstall true (Sys.init emptyPool).heap 300000 slabHeaderSize (2 ^ 24) 393216
        pageSize := by
    rw [largeAlloc_eq, if_neg (by decide), largePheapAlignment, if_neg Bool.false_ne_true,
      largeAllocWithOffset_debug rfl rfl hmap (by decide), hregion]
  have hopts : Call.largeOptions { regionCall with debug := true } = ⟨true, false, true⟩ := rfl
  simp only [dispatchAlloc, coerced_size, show max 300000 1 = 300000 by norm_num]
  rw [if_neg (by decide), if_neg (by decide), hopts, hlarge]
  rfl

theorem guarded_malloc : v8mMalloc (slowEnv regionCall) debugWorld.api 300000 =
    .ok (2 ^ 24 + slabHeaderSize, debugWorld.api.setSys guardedState) := by
  have hgate : overSoftLimit (slowEnv regionCall) debugWorld.api 300000 =
    (false, debugWorld.api) := rfl
  have hcall : debugWorld.api.call (slowEnv regionCall) = { regionCall with debug := true } := rfl
  have hfast : ¬((slowEnv regionCall).peek = true ∧ 300000 ≤ smallMaxSize ∧
      debugWorld.api.fastPathOk (slowEnv regionCall) = true) := fun h => absurd h.1 (by decide)
  have hrecord : postAllocRecord (debugWorld.api.setSys guardedState) (2 ^ 24 + slabHeaderSize) =
      debugWorld.api.setSys guardedState := postAllocRecord_empty (fun _ _ => rfl) (by decide)
  rw [v8mMalloc, if_neg hfast, doMallocPc, if_neg (by decide), gatedAlloc, hgate]
  dsimp only
  rw [if_neg Bool.false_ne_true, hcall, bind_ok_iff]
  refine ⟨_, guarded_alloc, ?_⟩
  dsimp only
  rw [if_neg (by decide), hrecord]
  rfl

def guardedWorld : ApiWorld :=
  { debugWorld with
    api := debugWorld.api.setSys guardedState
    held := update debugWorld.held (2 ^ 24 + slabHeaderSize) (some 300000) }

theorem guardedWorld_run {ok : ApiWorld → ApiEvent → Prop} (hrun : ApiRun ok debugWorld)
    (hok : ok debugWorld (.malloc 300000)) : ApiRun ok guardedWorld := by
  have hlegal : (slowEnv regionCall).Legal debugWorld.api 300000 := by
    refine ⟨legal_regionCall, fun x hx => ?_⟩
    have hin := offers_regionCall hx
    rw [← Bool.not_eq_true, Api.inBuffers, Bool.or_eq_true, bumpOwns_iff, bumpOwns_iff]
    simp only [debugWorld, ApiWorld.setApi, readyWorld, Api.load, bootstrapSize, signalSafeSize,
      pageSize]
    omega
  have hmalloc := hrun.malloc hok hlegal guarded_malloc
  have hout : (debugWorld.api.setSys guardedState).inBuffers (2 ^ 24 + slabHeaderSize) = false := by
    decide
  rwa [ApiWorld.answer, if_neg (by decide), hout, if_neg Bool.false_ne_true] at hmalloc

theorem guardedWorld_header :
    guardedState.heap.headerAt (ptrToMeta (2 ^ 24 + slabHeaderSize)) = some (.large guardedMeta) := by
  have hbase : ptrToMeta (2 ^ 24 + slabHeaderSize) = 2 ^ 24 := by decide
  rw [hbase]
  simp [Heap.headerAt, guardedState, largeInstall, guardedMeta]

theorem largeCheckRedzone_passes_guarded : guardedWorld.held (2 ^ 24 + slabHeaderSize) ≠ none ∧
    largeCheckRedzone guardedWorld.api.sys.heap.mem (2 ^ 24 + slabHeaderSize) guardedMeta
      (largeHeaderOffset (2 ^ 24 + slabHeaderSize)) = .ok () := by
  have hheld : guardedWorld.held (2 ^ 24 + slabHeaderSize) ≠ none := by simp [guardedWorld]
  refine ⟨hheld, (largeCheckRedzone_passes (guardedWorld_run ?_ ⟨trivial, trivial⟩) hheld).1 _
    guardedWorld_header (by decide)⟩
  exact (readyWorld_run ⟨trivial, trivial⟩).setDebug true ⟨trivial, trivial⟩

/-- One more byte is granted in place, and the program writes it. -/
def grownWorld : ApiWorld :=
  { guardedWorld with
    held := update guardedWorld.held (2 ^ 24 + slabHeaderSize) (some 300001) }

def grownMem : Mem := update guardedState.heap.mem (2 ^ 24 + slabHeaderSize + 300000) 0

theorem grownWorld_run : ApiRun WritesGranted grownWorld := by
  have hrun : ApiRun WritesGranted guardedWorld :=
    guardedWorld_run ((readyWorld_run trivial).setDebug true trivial) trivial
  obtain ⟨L, blk, hw⟩ := hrun.apiInv
  have howns : guardedWorld.Owns (2 ^ 24 + slabHeaderSize) := Or.inl ⟨by simp [guardedWorld], id⟩
  have hkeep : reallocInPlace guardedWorld.api (2 ^ 24 + slabHeaderSize) 300001 = true := by
    decide +kernel
  have hout : guardedWorld.api.inBuffers (2 ^ 24 + slabHeaderSize) = false := by decide
  have hok : WritesGranted guardedWorld (.realloc (2 ^ 24 + slabHeaderSize) 300001) := trivial
  have hgrown := hrun.step hok (.reallocKeep howns (by norm_num) hkeep)
  rw [ApiWorld.renote, hout, if_neg Bool.false_ne_true] at hgrown
  exact hgrown hw.apart

theorem grownWorld_writes : grownWorld.world.Writes grownMem where
  inside := by
    intro x hx
    have hat : x = 2 ^ 24 + slabHeaderSize + 300000 := by
      by_contra hne
      exact hx (update_of_ne hne _ _)
    have husable : 300001 ≤ dispatchUsableSize guardedState.heap (2 ^ 24 + slabHeaderSize) := by
      decide +kernel
    refine ⟨2 ^ 24 + slabHeaderSize, by simp [World.pointers, ApiWorld.world, grownWorld], by omega,
      ?_⟩
    change x < _ + dispatchUsableSize guardedState.heap _
    omega
  plain := by
    intro b hb hload
    have hsame : load64 grownMem b = load64 guardedState.heap.mem b := by
      apply load_congr
      intro x hlo hhi
      apply update_of_ne
      unfold pageSize slabHeaderSize at *
      omega
    have hmem : grownWorld.world.sys.heap.mem = guardedState.heap.mem := rfl
    rw [hmem, ← hsame]
    exact hload

theorem largeCheckRedzone_grown : ∃ w ptr block, ApiRun WritesGranted w ∧ w.Owns ptr ∧
    w.api.sys.heap.headerAt (ptrToMeta ptr) = some (.large block) ∧ block.guardBytes ≠ 0 ∧
    largeCheckRedzone w.api.sys.heap.mem ptr block (largeHeaderOffset ptr) = .error .abort := by
  obtain ⟨L, blk, hw⟩ := grownWorld_run.apiInv
  have hgranted : WritesGranted grownWorld (.write grownMem) := by
    intro x hx
    have hat : x = 2 ^ 24 + slabHeaderSize + 300000 := by
      by_contra hne
      exact hx (update_of_ne hne _ _)
    exact ⟨2 ^ 24 + slabHeaderSize, 300001, by simp [grownWorld], by omega, by omega⟩
  refine ⟨_, 2 ^ 24 + slabHeaderSize, guardedMeta,
    grownWorld_run.step hgranted (.write grownWorld_writes) (apart_setMem hw.apart grownMem),
    Or.inl ⟨by simp [grownWorld, ApiWorld.setApi], id⟩, ?_, by decide, ?_⟩
  · have hbase : ptrToMeta (2 ^ 24 + slabHeaderSize) = 2 ^ 24 := by decide
    rw [hbase]
    simp [Heap.headerAt, ApiWorld.setApi, Api.setMem, Api.setSys, Sys.setMem, grownWorld, guardedWorld,
      guardedState, largeInstall, guardedMeta]
  · have hspan : largeRedzoneSpan guardedMeta (largeHeaderOffset (2 ^ 24 + slabHeaderSize)) = 64 := by
      decide
    have hbroken : ¬ allBytes grownMem (2 ^ 24 + slabHeaderSize + 300000) 64 largeRedzoneByte = true := by
      intro hall
      simp only [allBytes, List.all_eq_true, List.mem_range] at hall
      have hfirst := hall 0 (by norm_num)
      rw [grownMem, Nat.add_zero, update_self] at hfirst
      exact absurd hfirst (by decide)
    rw [largeCheckRedzone, hspan]
    exact if_neg hbroken

end V8Malloc
