import V8Malloc.Api.RedZone

/-!
# Which double frees are caught

The record of a free stays in the ring until an allocation answers the pointer
or 4096 further frees have been noted. A second free looks at the ring only
while the page heap owns the pointer: a guarded large region is unmapped by its
first free, and then the second one is handed to the system's allocator.
-/
namespace V8Malloc

open ByteMemory
open Function (update update_eq_self update_idem update_of_ne update_self)

variable {a a' : Api} {w w' w₁ : ApiWorld} {L : Stack → List ℕ} {blk : Blocks} {held : Set ℕ}
variable {env : Env} {size ptr new p slot n : ℕ} {e : ApiEvent}

/-- The step gives a block back to the dispatcher: `v8m_free`, or the one inside
`v8m_realloc`. -/
def GivesBack (w w' : ApiWorld) : Prop := ∃ q, w.held q ≠ none ∧ w'.held q = none

/-- From `w` on with DEBUG on and the dispatcher ready, `n` blocks given back and no allocation
that answered `p`, which the program would then hold. -/
inductive Meanwhile (p : ℕ) (w : ApiWorld) : ℕ → ApiWorld → Prop
  | start : Meanwhile p w 0 w
  | other {n : ℕ} {w₁ w₂ : ApiWorld} {e : ApiEvent} : Meanwhile p w n w₁ → ApiStep w₁ e w₂ →
      w₂.api.Apart → w₂.api.debug = true → w₂.api.dispatchReady = true → w₂.held p = none →
      ¬ GivesBack w₁ w₂ → Meanwhile p w n w₂
  | back {n : ℕ} {w₁ w₂ : ApiWorld} {e : ApiEvent} : Meanwhile p w n w₁ → ApiStep w₁ e w₂ →
      w₂.api.Apart → w₂.api.debug = true → w₂.api.dispatchReady = true → w₂.held p = none →
      GivesBack w₁ w₂ → Meanwhile p w (n + 1) w₂

/-! ### The buffers stay where they are -/

/-- A free touches the dispatcher and the ring only. -/
theorem ApiInv.free_eq (hw : ApiInv w L blk) (hknows : env.Knows w.api.sys.heap ptr)
    (howns : w.Owns ptr) (hok : v8mFree env w.api ptr = .ok a') :
    ∃ s ring ringIdx, a' = { w.api with sys := s, ring := ring, ringIdx := ringIdx } := by
  rcases howns with ⟨hheld, -⟩ | hbump
  · cases hw.returned hknows hheld hok with
    | bin hfast hfreed heq => exact ⟨_, _, _, heq⟩
    | block hfast hready hnote hfreed heq =>
      obtain ⟨ring, ringIdx, ha₁⟩ := noteFree_eq hnote
      rw [ha₁] at heq
      exact ⟨_, _, _, heq⟩
    | dropped hfast hready heq => exact ⟨_, _, _, heq⟩
  · obtain ⟨m, hm⟩ := Option.ne_none_iff_exists'.1 hbump
    exact ⟨_, _, _, v8mFree_buffer hw.apart hknows (hw.bumps ptr m hm).1 hok⟩

theorem ApiInv.places_free (hw : ApiInv w L blk) (hknows : env.Knows w.api.sys.heap ptr)
    (howns : w.Owns ptr) (hok : v8mFree env w.api ptr = .ok a') : a'.places = w.api.places := by
  obtain ⟨s, ring, ringIdx, rfl⟩ := hw.free_eq hknows howns hok
  rfl

theorem ApiInv.places_step (hw : ApiInv w L blk) (hstep : ApiStep w e w') :
    w'.api.places = w.api.places := by
  have hs := hw.inv.inv
  have hc := hw.inv.calm
  cases hstep with
  | malloc hlegal hok =>
    rw [api_answer]
    exact (v8mMalloc_given hs hc hlegal hok).places hw.buffers
  | calloc hlegal hok =>
    rw [api_answer]
    rcases v8mCalloc_cases hok with ⟨-, rfl⟩ | ⟨a₁, hmalloc, rfl | ⟨-, rfl⟩⟩
    · rfl
    · exact (doMallocPc_given hs hc hlegal hmalloc).places hw.buffers
    · exact (doMallocPc_given hs hc hlegal hmalloc).places hw.buffers
  | alignedAlloc hlegal hok =>
    rw [api_answer]
    exact (v8mAlignedAlloc_given hs hc hlegal hok).places hw.buffers
  | signalSafeAlloc size =>
    rw [api_answer]
    exact (signalSafeAlloc_piece hw.buffers size).1
  | free hknows howns hok =>
    rw [api_release]
    exact hw.places_free hknows howns hok
  | reallocNull hlegal hok =>
    rw [api_answer]
    exact (doMallocPc_given hs hc hlegal hok).places hw.buffers
  | reallocZero hknows howns hok =>
    rw [api_release]
    exact hw.places_free hknows howns hok
  | reallocKeep howns hsize hkeep =>
    unfold ApiWorld.renote
    split_ifs <;> rfl
  | reallocFail howns hsize hmove hlegal hok =>
    exact (doMallocPc_given hs hc hlegal hok).places hw.buffers
  | reallocMove howns hsize hmove hlegal hok hne hfill hplain hknows hfreed =>
    obtain ⟨⟨L', blk', hfilled⟩, hplaces, hkeep⟩ := hw.moving hlegal hok hne hfill hplain
    have hfree := hfilled.places_free (hkeep hknows) (owns_answer howns _ _ _) (by rwa [api_answer])
    rw [api_release, hfree, api_answer, hplaces]
    exact (doMallocPc_given hs hc hlegal hok).places hw.buffers
  | _ => rfl

/-! ### The record in its slot -/

/-- `p` is in the slot, and at most `n` frees were noted after it. -/
structure RecordKept (p slot n : ℕ) (a : Api) : Prop where
  lt : slot < doubleFreeRingSize
  here : a.ring slot = p
  behind : ∃ m ≤ n, a.ringIdx % doubleFreeRingSize = (slot + 1 + m) % doubleFreeRingSize

theorem RecordKept.holds (hk : RecordKept p slot n a) : ringHolds a.ring p = true :=
  ringHolds_iff.2 ⟨slot, hk.lt, hk.here⟩

theorem RecordKept.mono {n' : ℕ} (hk : RecordKept p slot n a) (hle : n ≤ n') : RecordKept p slot n' a := by
  obtain ⟨m, hm, hidx⟩ := hk.behind
  exact ⟨hk.lt, hk.here, m, hm.trans hle, hidx⟩

theorem RecordKept.of_same (hk : RecordKept p slot n a) (hring : a'.ring = a.ring)
    (hidx : a'.ringIdx = a.ringIdx) : RecordKept p slot n a' :=
  ⟨hk.lt, by rw [hring]; exact hk.here, by rw [hidx]; exact hk.behind⟩

/-- The round-robin index comes back to the slot after a whole round only. -/
theorem RecordKept.noted (hk : RecordKept p slot n a) (hn : n + 1 < doubleFreeRingSize) (ptr : ℕ) :
    RecordKept p slot (n + 1) (a.noted ptr) := by
  obtain ⟨m, hm, hidx⟩ := hk.behind
  have hlt := hk.lt
  unfold doubleFreeRingSize at hn hlt hidx
  have hslot : slot ≠ a.ringIdx % doubleFreeRingSize := by
    unfold doubleFreeRingSize
    omega
  refine ⟨hk.lt, (update_of_ne hslot _ _).trans hk.here, m + 1, by omega, ?_⟩
  simp only [Api.noted, doubleFreeRingSize]
  omega

/-- The slot that a free has just written. -/
theorem kept_noted (a : Api) (p : ℕ) :
    RecordKept p (a.ringIdx % doubleFreeRingSize) 0 (a.noted p) := by
  refine ⟨Nat.mod_lt _ (by decide), update_self _ _ _, 0, le_rfl, ?_⟩
  simp only [Api.noted, doubleFreeRingSize]
  omega

theorem noteFree_cases {a₁ : Api} (hok : noteFree env a ptr = .ok a₁) :
    a₁ = a.noted ptr ∨ a₁ = a := by
  unfold noteFree debugCheckDoubleFree at hok
  split_ifs at hok
  · exact Or.inl (Except.ok.inj hok).symm
  · exact Or.inr (Except.ok.inj hok).symm

/-- Only records of the pointer that was answered are cleared. -/
theorem RecordKept.clear (hk : RecordKept p slot n a) (hne : ptr ≠ p) :
    RecordKept p slot n (debugClearDoubleFreeRecord a ptr) := by
  unfold debugClearDoubleFreeRecord
  split_ifs with hzero
  · exact hk
  cases hfind : (List.range doubleFreeRingSize).find? fun i => a.ring i = ptr with
  | none => exact hk
  | some i =>
    have hi : a.ring i = ptr := by simpa using List.find?_some hfind
    have hslot : slot ≠ i := by
      rintro rfl
      exact hne (hi.symm.trans hk.here)
    exact ⟨hk.lt, (update_of_ne hslot _ _).trans hk.here, hk.behind⟩

theorem RecordKept.record (hk : RecordKept p slot n a) (hne : ptr ≠ p) :
    RecordKept p slot n (postAllocRecord a ptr) := by
  unfold postAllocRecord
  split_ifs
  · exact hk.clear hne
  · exact hk

/-! ### The record along a history -/

/-- The freed pointer was a block's, and its record is in the ring. -/
structure Watched (p slot n : ℕ) (w : ApiWorld) : Prop where
  kept : RecordKept p slot n w.api
  outside : w.api.inBuffers p = false
  free : w.held p = none

theorem answer_ne (hout : a'.inBuffers p = false) (hp : p ≠ 0)
    (hfree : (w.answer a' ptr size).held p = none) : ptr ≠ p := by
  rintro rfl
  rw [ApiWorld.answer, if_neg hp, hout, if_neg Bool.false_ne_true] at hfree
  simp at hfree

theorem Watched.answer (hk : Watched p slot n w) (hw : ApiInv w L blk) (hp : p ≠ 0)
    (hready : w.api.dispatchReady = true)
    (hgiven : Given env w.api blk w.world.pointers size ptr a')
    (hfree : (w.answer a' ptr size).held p = none) : RecordKept p slot n a' := by
  have hout : a'.inBuffers p = false := by
    rw [inBuffers_congr (hgiven.places hw.buffers)]
    exact hk.outside
  have hne := answer_ne hout hp hfree
  cases hgiven with
  | @block s' g hanswer hfoot hissued hown heq =>
    rw [heq]
    have hsys : RecordKept p slot n (w.api.setSys s') := hk.kept.of_same rfl rfl
    exact hsys.record hne
  | piece hboot hok =>
    rw [hready] at hboot
    cases hboot

/-- A correct program has nothing at the freed pointer. -/
theorem Watched.not_owns (hk : Watched p slot n w) (hw : ApiInv w L blk) : ¬ w.Owns p := by
  intro howns
  exact hw.held_of_owns howns hk.outside hk.free

/-- A free notes its pointer when it is a block's, which then is given back. -/
theorem Watched.release (hk : Watched p slot n w) (hw : ApiInv w L blk)
    (hknows : env.Knows w.api.sys.heap ptr) (howns : w.Owns ptr)
    (hok : v8mFree env w.api ptr = .ok a') :
    RecordKept p slot n a' ∨ w.held ptr ≠ none ∧ (w.release env a' ptr).held ptr = none ∧
      (n + 1 < doubleFreeRingSize → RecordKept p slot (n + 1) a') := by
  rcases howns with ⟨hheld, -⟩ | hbump
  · have hout := hw.held_outside hheld
    cases hw.returned hknows hheld hok with
    | bin hfast hfreed heq =>
      rw [heq]
      exact Or.inl (hk.kept.of_same rfl rfl)
    | @block a₁ s' hfast hready hnote hfreed heq =>
      rcases noteFree_cases hnote with rfl | rfl
      · refine Or.inr ⟨hheld, ?_, fun hn => ?_⟩
        · rw [release_block hout (Or.inr hready)]
          exact update_self _ _ _
        · rw [heq]
          exact (hk.kept.noted hn ptr).of_same rfl rfl
      · rw [heq]
        exact Or.inl (hk.kept.of_same rfl rfl)
    | dropped hfast hready heq =>
      rw [heq]
      exact Or.inl hk.kept
  · obtain ⟨m, hm⟩ := Option.ne_none_iff_exists'.1 hbump
    rw [v8mFree_buffer hw.apart hknows (hw.bumps ptr m hm).1 hok]
    exact Or.inl hk.kept

theorem Watched.calloc {nmemb : ℕ} (hk : Watched p slot n w) (hw : ApiInv w L blk) (hp : p ≠ 0)
    (hready : w.api.dispatchReady = true) (hlegal : env.Legal w.api (nmemb * size))
    (hok : v8mCalloc env w.api nmemb size = .ok (ptr, a'))
    (hfree : (w.answer a' ptr (nmemb * size)).held p = none) : RecordKept p slot n a' := by
  have hs := hw.inv.inv
  have hc := hw.inv.calm
  rcases v8mCalloc_cases hok with ⟨rfl, rfl⟩ | ⟨a₁, hmalloc, rfl | ⟨hne, rfl⟩⟩
  · exact hk.kept
  · exact hk.answer hw hp hready (doMallocPc_given hs hc hlegal hmalloc) hfree
  · rw [answer_setApi w (places_setMem a₁ _)] at hfree
    exact (hk.answer hw hp hready (doMallocPc_given hs hc hlegal hmalloc) hfree).of_same rfl rfl

theorem held_of_release (hne : p ≠ ptr) (hfree : (w.release env a' ptr).held p = none) :
    w.held p = none := by
  unfold ApiWorld.release at hfree
  split_ifs at hfree
  · exact hfree
  · exact (update_of_ne hne _ _).symm.trans hfree
  · exact hfree

/-- While a block is moved the old one is still there when the new one is answered. -/
theorem Watched.move {envFree : Env} {mid filled : Api} (hk : Watched p slot n w)
    (hw : ApiInv w L blk) (hp : p ≠ 0) (hready : w.api.dispatchReady = true)
    (howns : w.Owns ptr) (hlegal : env.Legal w.api size)
    (hok : doMallocPc env w.api size = .ok (new, mid)) (hne : new ≠ 0)
    (hfill : reallocFill env mid (reallocOldUsable w.api ptr) new ptr size = filled)
    (hplain : PlainChange mid.sys.heap.mem filled.sys.heap.mem)
    (hknows : envFree.Knows mid.sys.heap ptr) (hfreed : v8mFree envFree filled ptr = .ok a')
    (hfree : ((w.answer filled new size).release envFree a' ptr).held p = none) :
    RecordKept p slot n a' ∨ w.held ptr ≠ none ∧
      ((w.answer filled new size).release envFree a' ptr).held ptr = none ∧
      (n + 1 < doubleFreeRingSize → RecordKept p slot (n + 1) a') := by
  have hgiven := doMallocPc_given hw.inv.inv hw.inv.calm hlegal hok
  obtain ⟨⟨L', blk', hfilled⟩, hplaces, hkeep⟩ := hw.moving hlegal hok hne hfill hplain
  obtain ⟨m', hm'⟩ := reallocFill_eq env mid (reallocOldUsable w.api ptr) new ptr size
  rw [hfill] at hm'
  have hother : p ≠ ptr := by
    rintro rfl
    exact hk.not_owns hw howns
  have hfree' := held_of_release hother hfree
  have hmid : (w.answer mid new size).held p = none := by
    rw [answer_setApi w hplaces] at hfree'
    exact hfree'
  have hplaces' : filled.places = w.api.places := hplaces.trans (hgiven.places hw.buffers)
  have hwatched : Watched p slot n (w.answer filled new size) := by
    refine ⟨?_, ?_, hfree'⟩
    · rw [api_answer, hm']
      exact (hk.answer hw hp hready hgiven hmid).of_same rfl rfl
    · rw [api_answer, inBuffers_congr hplaces']
      exact hk.outside
  have hout := hwatched.release hfilled (hkeep hknows) (owns_answer howns _ _ _)
    (by rwa [api_answer])
  refine hout.imp_right fun ⟨hheld, hgone⟩ => ⟨hw.held_of_owns howns ?_, hgone⟩
  have hout := hfilled.held_outside hheld
  rwa [api_answer, inBuffers_congr hplaces'] at hout

/-- One step of the history leaves the record, and makes it one free older at most when a block
is given back. -/
theorem Watched.step (hk : Watched p slot n w) (hw : ApiInv w L blk) (hp : p ≠ 0)
    (hready : w.api.dispatchReady = true) (hstep : ApiStep w e w') (hfree : w'.held p = none) :
    RecordKept p slot n w'.api ∨ GivesBack w w' ∧
      (n + 1 < doubleFreeRingSize → RecordKept p slot (n + 1) w'.api) := by
  have hs := hw.inv.inv
  have hc := hw.inv.calm
  cases hstep with
  | malloc hlegal hok =>
    rw [api_answer]
    exact Or.inl (hk.answer hw hp hready (v8mMalloc_given hs hc hlegal hok) hfree)
  | calloc hlegal hok =>
    rw [api_answer]
    exact Or.inl (hk.calloc hw hp hready hlegal hok hfree)
  | alignedAlloc hlegal hok =>
    rw [api_answer]
    exact Or.inl (hk.answer hw hp hready (v8mAlignedAlloc_given hs hc hlegal hok) hfree)
  | signalSafeAlloc size =>
    rw [api_answer]
    exact Or.inl (hk.kept.of_same rfl rfl)
  | @free env ptr a' hknows howns hok =>
    rw [api_release]
    exact (hk.release hw hknows howns hok).imp_right fun h => ⟨⟨ptr, h.1, h.2.1⟩, h.2.2⟩
  | freeNull => exact Or.inl hk.kept
  | reallocNull hlegal hok =>
    rw [api_answer]
    exact Or.inl (hk.answer hw hp hready (doMallocPc_given hs hc hlegal hok) hfree)
  | @reallocZero env ptr a' hknows howns hok =>
    rw [api_release]
    exact (hk.release hw hknows howns hok).imp_right fun h => ⟨⟨ptr, h.1, h.2.1⟩, h.2.2⟩
  | reallocKeep howns hsize hkeep =>
    unfold ApiWorld.renote
    split_ifs <;> exact Or.inl hk.kept
  | @reallocFail env ptr size a' howns hsize hmove hlegal hok =>
    have hgiven := doMallocPc_given hs hc hlegal hok
    refine Or.inl (hk.answer hw hp hready hgiven ?_)
    rw [ApiWorld.answer, if_pos rfl]
    exact hfree
  | @reallocMove env envFree ptr size new mid filled a' howns hsize hmove hlegal hok hne hfill
      hplain hknows hfreed =>
    rw [api_release]
    exact (hk.move hw hp hready howns hlegal hok hne hfill hplain hknows hfreed hfree).imp_right
      fun h => ⟨⟨ptr, h.1, h.2.1⟩, h.2.2⟩
  | setDebug on => exact Or.inl (hk.kept.of_same rfl rfl)
  | setSoftLimit limit => exact Or.inl (hk.kept.of_same rfl rfl)
  | lifecycle state => exact Or.inl (hk.kept.of_same rfl rfl)
  | upkeep hup => exact Or.inl (hk.kept.of_same rfl rfl)
  | write hm => exact Or.inl (hk.kept.of_same rfl rfl)
  | elsewhere hm => exact Or.inl (hk.kept.of_same rfl rfl)

theorem Meanwhile.run (hrun : ApiRun (fun _ _ => True) w) (hpath : Meanwhile p w n w') :
    ApiRun (fun _ _ => True) w' := by
  induction hpath with
  | start => exact hrun
  | other _ hstep hapart _ _ _ _ ih => exact ih.step trivial hstep hapart
  | back _ hstep hapart _ _ _ _ ih => exact ih.step trivial hstep hapart

theorem Meanwhile.places (hrun : ApiRun (fun _ _ => True) w) (hpath : Meanwhile p w n w') :
    w'.api.places = w.api.places := by
  induction hpath with
  | start => rfl
  | other hpath hstep _ _ _ _ _ ih =>
    obtain ⟨L, blk, hw⟩ := (hpath.run hrun).apiInv
    exact (hw.places_step hstep).trans ih
  | back hpath hstep _ _ _ _ _ ih =>
    obtain ⟨L, blk, hw⟩ := (hpath.run hrun).apiInv
    exact (hw.places_step hstep).trans ih

theorem Meanwhile.ready (hpath : Meanwhile p w n w') (hready : w.api.dispatchReady = true) :
    w'.api.dispatchReady = true := by
  cases hpath <;> assumption

theorem Meanwhile.debug (hpath : Meanwhile p w n w') (hdebug : w.api.debug = true) :
    w'.api.debug = true := by
  cases hpath <;> assumption

/-- Fewer than 4096 frees leave the record where it is. -/
theorem Meanwhile.watched (hpath : Meanwhile p w n w') (hrun : ApiRun (fun _ _ => True) w)
    (hp : p ≠ 0) (hready : w.api.dispatchReady = true) (hk : Watched p slot 0 w)
    (hn : n < doubleFreeRingSize) : Watched p slot n w' := by
  induction hpath with
  | start => exact hk
  | other hpath hstep _ _ _ hfree hback ih =>
    have hk₁ := ih hn
    obtain ⟨L, blk, hw⟩ := (hpath.run hrun).apiInv
    have hkept := hk₁.step hw hp (hpath.ready hready) hstep hfree
    refine ⟨hkept.resolve_right fun h => hback h.1, ?_, hfree⟩
    rw [inBuffers_congr (hw.places_step hstep)]
    exact hk₁.outside
  | back hpath hstep _ _ _ hfree hback ih =>
    have hk₁ := ih (by omega)
    obtain ⟨L, blk, hw⟩ := (hpath.run hrun).apiInv
    have hkept := hk₁.step hw hp (hpath.ready hready) hstep hfree
    refine ⟨hkept.elim (fun h => h.mono (by omega)) fun h => h.2 hn, ?_, hfree⟩
    rw [inBuffers_congr (hw.places_step hstep)]
    exact hk₁.outside

/-! ### The second free -/

/-- With DEBUG on no free takes the inlined way. -/
theorem freeFastClass_debug (hdebug : a.debug = true) (env : Env) (ptr : ℕ) :
    freeFastClass env a ptr = none := by
  simp [freeFastClass, Api.fastPathOk, hdebug]

/-- A pointer of the ring reaches the check only when the page heap owns it. -/
theorem v8mFree_again (hdebug : a.debug = true) (hready : a.dispatchReady = true) (hne : p ≠ 0)
    (hout : a.inBuffers p = false) (hholds : ringHolds a.ring p = true) :
    v8mFree env a p = if env.call.owns p then .error .abort else .ok a := by
  rw [v8mFree_of_slow hne (freeFastClass_debug hdebug env p), v8mFreeSlow_ready hne hout hready,
    noteFree, hdebug, Bool.true_and]
  by_cases howns : env.call.owns p = true
  · rw [if_pos howns, if_pos howns, debugCheckDoubleFree, if_pos hholds]
    rfl
  · have hforeign : dispatchFree (a.call env) a.sys p = .ok a.sys := by
      rw [dispatchFree, freeRoute, if_neg hne]
      simp only [Api.call, howns, Bool.not_false, if_true]
    rw [if_neg howns, if_neg howns]
    show (dispatchFree (a.call env) a.sys p >>= fun s => pure (a.setSys s)) = .ok a
    rw [hforeign]
    rfl

/-- What a first free of a block leaves. -/
theorem ApiInv.first_free (hw : ApiInv w L blk) (hdebug : w.api.debug = true)
    (hready : w.api.dispatchReady = true) (hknows : env.Knows w.api.sys.heap p)
    (hheld : w.held p ≠ none) (hok : v8mFree env w.api p = .ok a') :
    ∃ slot, Watched p slot 0 (w.release env a' p) := by
  have hout := hw.held_outside hheld
  have hne : p ≠ 0 := hw.inv.inv.account.ne_zero hheld
  have howns : env.call.owns p = true := by
    obtain ⟨g, hg⟩ := hw.inv.inv.account.grant_of_held (show p ∈ w.world.pointers from hheld)
    exact hknows.owns p (hw.inv.inv.account.inv.taken hg)
  cases hw.returned hknows hheld hok with
  | bin hfast =>
    rw [freeFastClass_debug hdebug] at hfast
    cases hfast
  | @block a₁ s' hfast _ hnote hfreed heq =>
    have hnoted : a₁ = w.api.noted p := by
      rw [noteFree, hdebug, howns, Bool.true_and, if_pos rfl, debugCheckDoubleFree] at hnote
      split_ifs at hnote
      exact (Except.ok.inj hnote).symm
    rw [hnoted] at heq
    refine ⟨w.api.ringIdx % doubleFreeRingSize, ?_⟩
    rw [release_block hout (Or.inr hready), heq]
    exact ⟨(kept_noted w.api p).of_same rfl rfl, hout, update_self _ _ _⟩
  | dropped _ hnot =>
    rw [hready] at hnot
    cases hnot

/-- A second free of a pointer is caught exactly when the page heap still owns it and it is no
piece of a buffer, whatever fewer than 4096 frees and other calls did in between. -/
theorem double_free_caught_iff (hrun : ApiRun (fun _ _ => True) w) (hdebug : w.api.debug = true)
    (hready : w.api.dispatchReady = true) (howns : w.Owns p) (hfree : ApiStep w (.free p) w₁)
    (hapart : w₁.api.Apart) (hpath : Meanwhile p w₁ n w') (hn : n < doubleFreeRingSize)
    (env : Env) : v8mFree env w'.api p = .error .abort ↔
      w.api.inBuffers p = false ∧ env.call.owns p = true := by
  obtain ⟨L, blk, hw⟩ := hrun.apiInv
  have hne := hw.owns_ne_zero howns
  have hrun₁ := hrun.step trivial hfree hapart
  have hplaces : w'.api.places = w.api.places := (hpath.places hrun₁).trans (hw.places_step hfree)
  cases hfree with
  | freeNull => exact absurd rfl hne
  | @free env₁ _ a' hknows _ hok =>
    obtain ⟨s, ring, ringIdx, ha'⟩ := hw.free_eq hknows howns hok
    have hdebug' : w'.api.debug = true := hpath.debug (by rw [api_release, ha']; exact hdebug)
    have hready₁ : (w.release env₁ a' p).api.dispatchReady = true := by
      rw [api_release, ha']
      exact hready
    by_cases hin : w.api.inBuffers p = true
    · have hpiece : v8mFree env w'.api p = .ok w'.api :=
        v8mFree_ignored hne (freeFastClass_debug hdebug' env p)
          (Or.inl ((inBuffers_congr hplaces p).trans hin))
      simp [hpiece, hin]
    have hout : w.api.inBuffers p = false := by simpa using hin
    obtain ⟨slot, hk⟩ := hw.first_free hdebug hready hknows (hw.held_of_owns howns hout) hok
    have hwatched := hpath.watched hrun₁ hne hready₁ hk hn
    rw [v8mFree_again hdebug' (hpath.ready hready₁) hne hwatched.outside hwatched.kept.holds]
    by_cases hheap : env.call.owns p = true
    · simp [hheap, hout]
    · simp [hheap]

theorem double_free_caught_first : ApiStep checkedWorld (.free 67752) notedWorld ∧
    v8mFree (slowEnv laterCall) notedWorld.api 67752 = .error .abort := by
  have hrun : ApiRun (fun _ _ => True) checkedWorld :=
    (firstWorld_run (readyWorld_run trivial) trivial).setDebug true trivial
  have howns : checkedWorld.Owns 67752 := firstWorld_owns
  obtain ⟨hfree, hapart⟩ := checkedWorld_free
  exact ⟨hfree, (double_free_caught_iff hrun rfl rfl howns hfree hapart .start (by decide) _).2
    ⟨by decide, rfl⟩⟩

/-! ### A guarded region freed twice -/

/-- The region is unmapped; nothing else is. -/
def unmappedState : Sys :=
  (Sys.init emptyPool).setMem (store64 guardedState.heap.mem (2 ^ 24) 0)

theorem not_taken_unmapped (x : ℕ) : ¬ unmappedState.heap.Taken x :=
  fun hx => not_taken_init emptyPool x (taken_setMem _ _ hx)

theorem guarded_check : largeCheckRedzone guardedState.heap.mem (2 ^ 24 + slabHeaderSize) guardedMeta
    (largeHeaderOffset (2 ^ 24 + slabHeaderSize)) = .ok () := by
  have hrun : ApiRun (fun w e => WritesGranted w e ∧ KeepsRedZone w e) guardedWorld :=
    guardedWorld_run ((readyWorld_run ⟨trivial, trivial⟩).setDebug true ⟨trivial, trivial⟩)
      ⟨trivial, trivial⟩
  obtain ⟨L, blk, hw⟩ := hrun.apiInv
  exact hrun.guardInv.check hw (by simp [guardedWorld]) guardedWorld_header (by decide)

/-- The free of a guarded region leaves no trace of it. -/
theorem guarded_free : dispatchFree checkedCall guardedState (2 ^ 24 + slabHeaderSize) =
    .ok unmappedState := by
  have hbase : ptrToMeta (2 ^ 24 + slabHeaderSize) = 2 ^ 24 := by decide
  have hblock : guardedState.heap.largeAt (2 ^ 24) = guardedMeta := by
    simp [Heap.largeAt, guardedState, largeInstall, guardedMeta]
  have hheads : update guardedState.heap.heads (2 ^ 24) none =
      (Sys.init emptyPool).heap.heads := by
    simp only [guardedState, largeInstall, update_idem]
    exact update_eq_self (2 ^ 24) fun _ => none
  have hroute : freeRoute checkedCall guardedState.heap (2 ^ 24 + slabHeaderSize) = .large := by
    rw [freeRoute, if_neg (by decide), guardedWorld_header]
    rfl
  rw [dispatchFree, hroute, largeFree_eq, if_neg (by decide), hbase]
  dsimp only
  rw [hblock, if_pos (by decide), guarded_check, hheads]
  rfl

/-- The page heap has given the region back to the system and knows none of its addresses. -/
def unmappedCall : Call := { laterCall with owns := fun _ => false }

theorem double_free_missed : ∃ w w₁ env ptr, ApiRun (fun _ _ => True) w ∧ w.api.debug = true ∧
    w.api.dispatchReady = true ∧ w.Owns ptr ∧ ApiStep w (.free ptr) w₁ ∧ w₁.api.Apart ∧
    env.Knows w₁.api.sys.heap ptr ∧ v8mFree env w₁.api ptr = .ok w₁.api := by
  have hrun : ApiRun (fun _ _ => True) guardedWorld :=
    guardedWorld_run ((readyWorld_run trivial).setDebug true trivial) trivial
  have howns : guardedWorld.Owns (2 ^ 24 + slabHeaderSize) := Or.inl ⟨by simp [guardedWorld], id⟩
  have hknows : (slowEnv laterCall).Knows guardedWorld.api.sys.heap (2 ^ 24 + slabHeaderSize) :=
    ⟨fun _ _ => rfl, fun hfast => absurd hfast Bool.false_ne_true⟩
  have hempty : ringHolds guardedWorld.api.ring (2 ^ 24 + slabHeaderSize) = false := by
    have hring : guardedWorld.api.ring = fun _ => 0 := rfl
    rw [hring, ← Bool.not_eq_true, ringHolds_iff]
    rintro ⟨i, -, heq⟩
    exact absurd heq (by decide)
  have hok : v8mFree (slowEnv laterCall) guardedWorld.api (2 ^ 24 + slabHeaderSize) =
      .ok ((guardedWorld.api.noted (2 ^ 24 + slabHeaderSize)).setSys unmappedState) :=
    v8mFree_noted (by decide) (freeFastClass_slowEnv _ _ _) (by decide) (by decide) rfl hempty
      guarded_free
  refine ⟨guardedWorld, _, slowEnv unmappedCall, 2 ^ 24 + slabHeaderSize, hrun, rfl, rfl, howns,
    .free hknows howns hok, ?_, ?_, ?_⟩
  · rw [api_release]
    exact fun x hx => absurd hx (not_taken_unmapped x)
  · rw [api_release]
    exact ⟨fun x hx => absurd hx (not_taken_unmapped x), fun hfast => absurd hfast Bool.false_ne_true⟩
  · rw [api_release]
    have hholds : ringHolds ((guardedWorld.api.noted (2 ^ 24 + slabHeaderSize)).setSys
        unmappedState).ring (2 ^ 24 + slabHeaderSize) = true := ringHolds_iff.2 ⟨0, by decide, rfl⟩
    rw [v8mFree_again rfl rfl (by decide) (by decide) hholds]
    rfl

end V8Malloc
