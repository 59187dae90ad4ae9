import V8Malloc.Api.Spec

/-!
# Runs of the public interface

Every step of a history keeps the account of the dispatcher, with the blocks
the program has as the blocks in hand.
-/
namespace V8Malloc

open ByteMemory LinkedList StackLedger
open Function (update update_of_ne update_self)

variable {a a' : Api} {w w' : ApiWorld} {L : Stack → List ℕ} {blk : Blocks}
variable {env envFree : Env} {size ptr new p n : ℕ} {s' : Sys} {m' : Mem} {e : ApiEvent}
variable {ok : ApiWorld → ApiEvent → Prop}

/-! ### Giving back -/

theorem release_block (hout : w.api.inBuffers ptr = false)
    (htaken : (freeFastClass env w.api ptr).isSome = true ∨ w.api.dispatchReady = true)
    (a' : Api) : w.release env a' ptr =
      { w with api := a', held := update w.held ptr none } := by
  rw [ApiWorld.release, hout, if_neg Bool.false_ne_true, if_pos (by simpa using htaken)]

theorem release_dropped (hout : w.api.inBuffers ptr = false)
    (hfast : (freeFastClass env w.api ptr).isSome = false) (hready : w.api.dispatchReady = false)
    (a' : Api) : w.release env a' ptr =
      { w with api := a', dropped := insert ptr w.dropped } := by
  rw [ApiWorld.release, hout, if_neg Bool.false_ne_true, if_neg (by simp [hfast, hready])]

theorem release_piece (hin : w.api.inBuffers ptr = true) (a' : Api) : w.release env a' ptr =
    { w with api := a', bumps := update w.bumps ptr none } := by
  rw [ApiWorld.release, if_pos hin]

theorem api_release (w : ApiWorld) (env : Env) (a : Api) (ptr : ℕ) :
    (w.release env a ptr).api = a := by
  unfold ApiWorld.release
  split_ifs <;> rfl

/-- Pieces that are still there after one was given up. -/
theorem bumps_update_none {bumps : ℕ → Option ℕ}
    (hp : update bumps ptr none p = some n) : bumps p = some n := by
  by_cases heq : p = ptr
  · subst heq
    rw [update_self] at hp
    cases hp
  · rwa [update_of_ne heq] at hp

/-- A block of the dispatcher that the program still has, with what a free of it does. -/
theorem ApiInv.returned (hw : ApiInv w L blk) (hknows : env.Knows w.api.sys.heap ptr)
    (hheld : w.held ptr ≠ none) (hok : v8mFree env w.api ptr = .ok a') :
    Returned env w.api blk w.world.pointers ptr a' :=
  v8mFree_returned hw.inv.inv hw.inv.calm hknows hheld (hw.held_outside hheld) hok

theorem ApiInv.release (hw : ApiInv w L blk) (hknows : env.Knows w.api.sys.heap ptr)
    (howns : w.Owns ptr) (hok : v8mFree env w.api ptr = .ok a') (hapart : a'.Apart) :
    ∃ L' blk', ApiInv (w.release env a' ptr) L' blk' := by
  rcases howns with ⟨hheld, -⟩ | hbump
  · have hout := hw.held_outside hheld
    cases hw.returned hknows hheld hok with
    | @bin s' hfast hfreed heq =>
      obtain ⟨L', blk', hinv⟩ := hw.inv.release hfreed
      rw [release_block hout (Or.inl hfast)]
      subst heq
      exact ⟨L', blk', hw.of_world hinv rfl hapart fun _ _ hp => hp⟩
    | @block a₁ s' hfast hready hnote hfreed heq =>
      obtain ⟨ring, ringIdx, ha₁⟩ := noteFree_eq hnote
      obtain ⟨L', blk', hinv⟩ := hw.inv.release hfreed
      rw [release_block hout (Or.inr hready)]
      subst heq ha₁
      exact ⟨L', blk', hw.of_world hinv rfl hapart fun _ _ hp => hp⟩
    | dropped hfast hready heq =>
      rw [release_dropped hout hfast hready]
      subst heq
      exact ⟨L, blk, hw.of_world hw.inv rfl hapart fun _ _ hp => hp⟩
  · obtain ⟨n, hn⟩ := Option.ne_none_iff_exists'.1 hbump
    have hin := (hw.bumps ptr n hn).1
    have heq := v8mFree_buffer hw.apart hknows hin hok
    rw [release_piece hin]
    subst heq
    exact ⟨L, blk, hw.of_world hw.inv rfl hapart fun _ _ hp => bumps_update_none hp⟩

/-! ### Clearing and resizing -/

theorem places_setMem (a : Api) (m' : Mem) : (a.setMem m').places = a.places := rfl

/-- The block is there and its bytes are cleared. -/
theorem v8mCalloc_cases {nmemb : ℕ} (hok : v8mCalloc env a nmemb size = .ok (ptr, a')) :
    ptr = 0 ∧ a' = a ∨ ∃ a₁, doMallocPc env a (nmemb * size) = .ok (ptr, a₁) ∧
      (a' = a₁ ∨ ptr ≠ 0 ∧ a' = a₁.setMem (fill a₁.sys.heap.mem ptr (nmemb * size) 0)) := by
  unfold v8mCalloc at hok
  by_cases hbig : nmemb * size ≥ 2 ^ 64
  · rw [if_pos hbig] at hok
    obtain ⟨rfl, rfl⟩ := Prod.mk.inj (Except.ok.inj hok)
    exact Or.inl ⟨rfl, rfl⟩
  · rw [if_neg hbig, bind_ok_iff] at hok
    obtain ⟨out, hout, hok⟩ := hok
    right
    by_cases hfill : out.1 ≠ 0 ∧ nmemb * size > 0
    · rw [if_pos hfill] at hok
      obtain ⟨rfl, rfl⟩ := Prod.mk.inj (Except.ok.inj hok)
      exact ⟨out.2, hout, Or.inr ⟨hfill.1, rfl⟩⟩
    · rw [if_neg hfill] at hok
      obtain rfl := Except.ok.inj hok
      exact ⟨a', hout, Or.inl rfl⟩

theorem ApiInv.calloc {nmemb : ℕ} (hw : ApiInv w L blk) (hlegal : env.Legal w.api (nmemb * size))
    (hok : v8mCalloc env w.api nmemb size = .ok (ptr, a')) :
    ∃ L' blk', ApiInv (w.answer a' ptr (nmemb * size)) L' blk' := by
  rcases v8mCalloc_cases hok with ⟨rfl, rfl⟩ | ⟨a₁, hmalloc, rfl | ⟨hne, rfl⟩⟩
  · exact (hw.answer (given_null env hw.inv.inv hw.inv.calm _) hlegal.outside).1
  · exact (hw.answer (doMallocPc_given hw.inv.inv hw.inv.calm hlegal hmalloc) hlegal.outside).1
  · obtain ⟨⟨L', blk', hinv⟩, hnoted⟩ :=
      hw.answer (doMallocPc_given hw.inv.inv hw.inv.calm hlegal hmalloc) hlegal.outside
    refine ⟨L', blk', ?_⟩
    rw [answer_setApi w (places_setMem a₁ _)]
    have hstore := hinv.store (fill a₁.sys.heap.mem ptr (nmemb * size) 0) (hnoted hne)
    rw [api_answer] at hstore
    exact hstore (sameOutside_fill _ _ _ _) (plainChange_fill _ _ _ (by decide))

/-- Filling the new block changes the memory only. -/
theorem reallocFill_eq (env : Env) (a : Api) (oldUsable new ptr size : ℕ) :
    ∃ m', reallocFill env a oldUsable new ptr size = a.setMem m' := by
  unfold reallocFill
  dsimp only
  by_cases hcopied : (if oldUsable < size then oldUsable else size) > 0
  · rw [if_pos hcopied]
    exact ⟨_, rfl⟩
  · rw [if_neg hcopied]
    exact ⟨a.sys.heap.mem, rfl⟩

/-- The new block with the old contents, before the old one is given back. -/
theorem ApiInv.fill {oldUsable : ℕ} {mid filled : Api} {L' : Stack → List ℕ} {blk' : Blocks}
    (hw : ApiInv (w.answer mid new size) L' blk') (hnoted : (w.answer mid new size).Noted new size)
    (hfill : reallocFill env mid oldUsable new ptr size = filled)
    (hplain : PlainChange mid.sys.heap.mem filled.sys.heap.mem) :
    ApiInv (w.answer filled new size) L' blk' ∧ filled.places = mid.places ∧
      ∀ x, filled.sys.heap.Taken x ↔ mid.sys.heap.Taken x := by
  unfold reallocFill at hfill
  dsimp only at hfill
  by_cases hcopied : (if oldUsable < size then oldUsable else size) > 0
  · rw [if_pos hcopied] at hfill
    subst hfill
    refine ⟨?_, rfl, fun x => ⟨fun hx => taken_setMem mid.sys.heap _ hx,
      fun hx => taken_setMem (mid.setMem _).sys.heap mid.sys.heap.mem hx⟩⟩
    rw [answer_setApi w (places_setMem mid _)]
    have hstore := hw.store (memcpy env.noise mid.sys.heap.mem new ptr
      (if oldUsable < size then oldUsable else size)) hnoted
    rw [api_answer] at hstore
    apply hstore _ hplain
    exact (sameOutside_memcpy _ _ _ _ _).mono le_rfl (by split_ifs <;> omega)
  · rw [if_neg hcopied] at hfill
    subst hfill
    exact ⟨hw, rfl, fun _ => Iff.rfl⟩

theorem Env.Knows.congr {h h' : Heap} (hknows : env.Knows h ptr)
    (htaken : ∀ x, h'.Taken x ↔ h.Taken x) : env.Knows h' ptr :=
  ⟨fun x hx => hknows.owns x ((htaken x).1 hx), fun hfast => (htaken ptr).2 (hknows.ownsFast hfast)⟩

/-- A resize between its copy and the free of the old block. -/
theorem ApiInv.moving {oldUsable : ℕ} {mid filled : Api} (hw : ApiInv w L blk)
    (hlegal : env.Legal w.api size) (hok : doMallocPc env w.api size = .ok (new, mid))
    (hne : new ≠ 0) (hfill : reallocFill env mid oldUsable new ptr size = filled)
    (hplain : PlainChange mid.sys.heap.mem filled.sys.heap.mem) :
    (∃ L' blk', ApiInv (w.answer filled new size) L' blk') ∧ filled.places = mid.places ∧
      ∀ {envFree : Env}, envFree.Knows mid.sys.heap ptr →
        envFree.Knows (w.answer filled new size).api.sys.heap ptr := by
  obtain ⟨⟨L', blk', hinv⟩, hnoted⟩ :=
    hw.answer (doMallocPc_given hw.inv.inv hw.inv.calm hlegal hok) hlegal.outside
  obtain ⟨hfilled, hplaces, htaken⟩ := hinv.fill (hnoted hne) hfill hplain
  refine ⟨⟨L', blk', hfilled⟩, hplaces, fun hknows => ?_⟩
  rw [api_answer]
  exact hknows.congr htaken

theorem reallocInPlace_iff : reallocInPlace a ptr size = true ↔
    bumpOwns a.bootstrap ptr = false ∧ size ≤ v8mMallocUsableSize a ptr := by
  unfold reallocInPlace reallocOldUsable
  cases bumpOwns a.bootstrap ptr <;> simp

/-- A block kept in place covers its new size. -/
theorem ApiInv.renote (hw : ApiInv w L blk) (howns : w.Owns ptr) (hsize : size ≠ 0)
    (hkeep : reallocInPlace w.api ptr size = true) : ApiInv (w.renote ptr size) L blk := by
  obtain ⟨hboot, hroom⟩ := reallocInPlace_iff.1 hkeep
  unfold ApiWorld.renote
  by_cases hin : w.api.inBuffers ptr = true
  · rw [if_pos hin]
    refine ⟨hw.inv, hw.apart, hw.buffers, fun p n hp => ?_⟩
    dsimp only at hp ⊢
    by_cases hp' : p = ptr
    · subst hp'
      exact ⟨hin, fun hown => absurd hown (by simp [hboot])⟩
    · rw [update_of_ne hp'] at hp
      exact hw.bumps p n hp
  · rw [if_neg hin]
    have hheld : w.held ptr ≠ none := hw.held_of_owns howns (by simpa using hin)
    obtain ⟨g, hg⟩ := hw.inv.inv.account.grant_of_held (show ptr ∈ w.world.pointers from hheld)
    have husable : size ≤ g.bytes := by
      rw [← hw.inv.inv.account.inv.dispatchUsableSize_eq hg]
      unfold v8mMallocUsableSize at hroom
      split_ifs at hroom <;> first | exact hroom | omega
    have hpointers : World.pointers ⟨w.api.sys, update w.held ptr (some size)⟩ =
        w.world.pointers := by
      ext q
      by_cases hq : q = ptr
      · subst hq
        simpa [World.pointers, ApiWorld.world] using hheld
      · simp [World.pointers, ApiWorld.world, hq]
    refine hw.of_world ⟨?_, hw.inv.calm, fun p n g' hp hg' => ?_⟩ rfl hw.apart fun _ _ hp => hp
    · simp only [ApiWorld.world] at hpointers ⊢
      rw [hpointers]
      exact hw.inv.inv
    · simp only [ApiWorld.world] at hp
      by_cases hp' : p = ptr
      · subst hp'
        rw [update_self] at hp
        cases hp
        rw [hg] at hg'
        cases hg'
        unfold Covers
        omega
      · rw [update_of_ne hp'] at hp
        exact hw.inv.covers p n g' hp hg'

/-! ### Steps and runs -/

theorem Upkeep.drained {s : Sys} {held : Set ℕ} (hup : Upkeep s s') (hs : SysInv s L blk held)
    (hc : Calm L) : Drained s L blk held s' := by
  cases hup with
  | @drainAll call out hok => exact (dispatchDrainAll_spec hs call hc.lt).of_ok hok
  | @drainLocalL2 call out hok => exact (dispatchDrainLocalL2_spec hs call).of_ok hok
  | @drainMedium call out hok => exact (dispatchDrainMedium_spec hs call).of_ok hok
  | bgTick => exact dispatchBgTick_spec hs
  | purgeDrained => exact dispatchPurgeDrained_spec hs

/-- The pointer is still the program's after a new block was answered. -/
theorem owns_answer (howns : w.Owns ptr) (a : Api) (new note : ℕ) :
    (w.answer a new note).Owns ptr := by
  unfold ApiWorld.answer ApiWorld.Owns at *
  by_cases hq : ptr = new
  · subst hq
    split_ifs
    · exact howns
    · exact Or.inr (by simp)
    · simp only [update_self]
      exact howns.imp (fun h => ⟨by simp, h.2⟩) id
  · split_ifs
    · exact howns
    · simpa only [update_of_ne hq] using howns
    · simpa only [update_of_ne hq] using howns

theorem ApiInv.step (hw : ApiInv w L blk) (hstep : ApiStep w e w') (hapart : w'.api.Apart) :
    ∃ L' blk', ApiInv w' L' blk' := by
  have hs := hw.inv.inv
  have hc := hw.inv.calm
  cases hstep with
  | malloc hlegal hok => exact (hw.answer (v8mMalloc_given hs hc hlegal hok) hlegal.outside).1
  | calloc hlegal hok => exact hw.calloc hlegal hok
  | alignedAlloc hlegal hok =>
    exact (hw.answer (v8mAlignedAlloc_given hs hc hlegal hok) hlegal.outside).1
  | signalSafeAlloc size => exact ⟨L, blk, hw.signalSafeAlloc size⟩
  | free hknows howns hok =>
    rw [api_release] at hapart
    exact hw.release hknows howns hok hapart
  | freeNull => exact ⟨L, blk, hw⟩
  | reallocNull hlegal hok =>
    exact (hw.answer (doMallocPc_given hs hc hlegal hok) hlegal.outside).1
  | reallocZero hknows howns hok =>
    rw [api_release] at hapart
    exact hw.release hknows howns hok hapart
  | reallocKeep howns hsize hkeep => exact ⟨L, blk, hw.renote howns hsize hkeep⟩
  | reallocFail howns hsize hmove hlegal hok =>
    have hanswer := (hw.answer (doMallocPc_given hs hc hlegal hok) hlegal.outside).1
    rwa [ApiWorld.answer, if_pos rfl] at hanswer
  | reallocMove howns hsize hmove hlegal hok hne hfill hplain hknows hfree =>
    obtain ⟨⟨L', blk', hfilled⟩, -, hkeep⟩ := hw.moving hlegal hok hne hfill hplain
    rw [api_release] at hapart
    exact hfilled.release (hkeep hknows) (owns_answer howns _ _ _) (by rwa [api_answer]) hapart
  | setDebug on => exact ⟨L, blk, hw.of_world hw.inv rfl hapart fun _ _ hp => hp⟩
  | setSoftLimit limit => exact ⟨L, blk, hw.of_world hw.inv rfl hapart fun _ _ hp => hp⟩
  | lifecycle state => exact ⟨L, blk, hw.of_world hw.inv rfl hapart fun _ _ hp => hp⟩
  | upkeep hup =>
    obtain ⟨L', blk', hinv⟩ := hw.inv.drained (hup.drained hs hc)
    exact ⟨L', blk', hw.of_world hinv rfl hapart fun _ _ hp => hp⟩
  | write hm => exact ⟨L, blk, hw.write hm⟩
  | elsewhere hm => exact ⟨L, blk, hw.elsewhere hm⟩

theorem ApiRun.apiInv (hrun : ApiRun ok w) : ∃ L blk, ApiInv w L blk := by
  induction hrun with
  | load p hboot hsafe hapart =>
    exact ⟨_, _, worldInv_init _ p, fun x hx => absurd hx (not_taken_init p x),
      ⟨⟨hboot, rfl, rfl⟩, ⟨hsafe, rfl, rfl⟩, hapart⟩, fun _ _ hp => by cases hp⟩
  | step _ _ hstep hapart ih =>
    obtain ⟨L, blk, hinv⟩ := ih
    exact hinv.step hstep hapart

/-- The kernel keeps to its promise in an allocation. -/
theorem ApiRun.malloc (hrun : ApiRun ok w) (hok : ok w (.malloc size))
    (hlegal : env.Legal w.api size) (hmalloc : v8mMalloc env w.api size = .ok (ptr, a')) :
    ApiRun ok (w.answer a' ptr size) := by
  obtain ⟨L, blk, hw⟩ := hrun.apiInv
  have hgiven := v8mMalloc_given hw.inv.inv hw.inv.calm hlegal hmalloc
  refine hrun.step hok (.malloc hlegal hmalloc) ?_
  rw [api_answer]
  exact hgiven.apart hlegal.outside hw.buffers hw.apart

theorem ApiRun.setDebug (hrun : ApiRun ok w) (on : Bool) (hok : ok w (.setDebug on)) :
    ApiRun ok (w.setApi { w.api with debug := on }) := by
  obtain ⟨L, blk, hw⟩ := hrun.apiInv
  exact hrun.step hok (.setDebug on) hw.apart

theorem ApiRun.lifecycle (hrun : ApiRun ok w) (state : InitState)
    (hok : ok w (.lifecycle state)) : ApiRun ok (w.setApi { w.api with initState := state }) := by
  obtain ⟨L, blk, hw⟩ := hrun.apiInv
  exact hrun.step hok (.lifecycle state) hw.apart

end V8Malloc
