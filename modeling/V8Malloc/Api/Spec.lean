import V8Malloc.Api.World
import V8Malloc.Dispatch.OwnCache

/-!
# What the public calls do

An allocation entry answers a block of the dispatcher or a piece of the
bootstrap buffer; a free takes the block back, leaves it where it is, or does
nothing for a buffer. A world keeps the account of the dispatcher through every
step, and the pieces the program has lie inside the buffers.
-/
namespace V8Malloc

open ByteMemory LinkedList StackLedger Function

variable {a a' : Api} {w w' : ApiWorld} {L : Stack → List ℕ} {blk : Blocks} {held : Set ℕ}
variable {env envFree : Env} {size ptr p n : ℕ} {s' : Sys} {g : Grant} {bump : Bump} {m' : Mem}

/-! ### The buffers -/

/-- The part of a buffer that never changes. -/
def Bump.place (bump : Bump) : ℕ × ℕ × ℕ := (bump.buffer, bump.size, bump.align)

def Api.places (a : Api) : (ℕ × ℕ × ℕ) × (ℕ × ℕ × ℕ) := (a.bootstrap.place, a.signalSafe.place)

theorem bumpOwns_congr {bump' : Bump} (hplace : bump'.place = bump.place) (x : ℕ) :
    bumpOwns bump' x = bumpOwns bump x := by
  obtain ⟨hbuffer, hrest⟩ := Prod.mk.inj hplace
  obtain ⟨hsize, -⟩ := Prod.mk.inj hrest
  simp [bumpOwns, hbuffer, hsize]

theorem inBuffers_congr (hplaces : a'.places = a.places) (x : ℕ) :
    a'.inBuffers x = a.inBuffers x := by
  obtain ⟨hboot, hsafe⟩ := Prod.mk.inj hplaces
  simp [Api.inBuffers, bumpOwns_congr hboot, bumpOwns_congr hsafe]

theorem bumpOwns_iff : bumpOwns bump p = true ↔
    bump.buffer ≠ 0 ∧ bump.buffer ≤ p ∧ p < bump.buffer + bump.size := by
  simp [bumpOwns, and_assoc]

theorem bumpAlloc_place (bump : Bump) (request : ℕ) :
    (bumpAlloc bump request).2.place = bump.place := by
  unfold bumpAlloc
  dsimp only
  split_ifs <;> rfl

/-- A piece starts at the offset and ends inside the buffer. -/
theorem bumpAlloc_piece (bump : Bump) (request : ℕ) (hpos : 0 < bump.align)
    (hfit : bump.size + bump.align < 2 ^ 64) (hne : (bumpAlloc bump request).1 ≠ 0) :
    bump.buffer ≠ 0 ∧ (bumpAlloc bump request).1 = bump.buffer + bump.offset ∧
      bump.offset + max request 1 ≤ bump.size := by
  unfold bumpAlloc at hne ⊢
  dsimp only at hne ⊢
  split_ifs at hne ⊢ with hnull hbig hfull
  · exact absurd rfl hne
  · exact absurd rfl hne
  · exact absurd rfl hne
  · have hstep : max request 1 ≤ bump.step request := by
      have hround := (roundUpPow2_spec (a := request) hpos (by omega)).1
      unfold Bump.step
      dsimp only
      split_ifs <;> omega
    refine ⟨by omega, rfl, by omega⟩

/-- The two buffers as they are loaded. -/
structure BuffersOk (a : Api) : Prop where
  bootstrap : 0 < a.bootstrap.buffer ∧ a.bootstrap.size = bootstrapSize ∧
    a.bootstrap.align = bumpAlign
  signalSafe : 0 < a.signalSafe.buffer ∧ a.signalSafe.size = signalSafeSize ∧
    a.signalSafe.align = bumpAlign
  apart : a.bootstrap.buffer + a.bootstrap.size ≤ a.signalSafe.buffer ∨
    a.signalSafe.buffer + a.signalSafe.size ≤ a.bootstrap.buffer

theorem BuffersOk.congr (hb : BuffersOk a) (hplaces : a'.places = a.places) : BuffersOk a' := by
  obtain ⟨hboot, hsafe⟩ := Prod.mk.inj hplaces
  obtain ⟨hboot₁, hrest⟩ := Prod.mk.inj hboot
  obtain ⟨hboot₂, hboot₃⟩ := Prod.mk.inj hrest
  obtain ⟨hsafe₁, hrest⟩ := Prod.mk.inj hsafe
  obtain ⟨hsafe₂, hsafe₃⟩ := Prod.mk.inj hrest
  constructor
  · rw [hboot₁, hboot₂, hboot₃]
    exact hb.bootstrap
  · rw [hsafe₁, hsafe₂, hsafe₃]
    exact hb.signalSafe
  · rw [hboot₁, hboot₂, hsafe₁, hsafe₂]
    exact hb.apart

/-- The pointer starts a piece of the bootstrap buffer. -/
theorem bootstrapAlloc_piece (hb : BuffersOk a) (hok : bootstrapAlloc a size = .ok (ptr, a')) :
    a'.places = a.places ∧ a'.sys = a.sys ∧ a'.ring = a.ring ∧ ptr ≠ 0 ∧
      ptr = a.bootstrap.buffer + a.bootstrap.offset ∧
      a.bootstrap.offset + max size 1 ≤ bootstrapSize := by
  obtain ⟨-, hsize, halign⟩ := hb.bootstrap
  unfold bootstrapAlloc at hok
  dsimp only at hok
  split_ifs at hok with hzero
  obtain ⟨rfl, rfl⟩ := Prod.mk.inj (Except.ok.inj hok)
  have hpiece := bumpAlloc_piece a.bootstrap size (by rw [halign]; decide) (by rw [hsize, halign]; decide) hzero
  refine ⟨?_, rfl, rfl, hzero, hpiece.2.1, hsize ▸ hpiece.2.2⟩
  simp [Api.places, bumpAlloc_place]

theorem BuffersOk.inBuffers (hb : BuffersOk a) (hlo : a.bootstrap.buffer ≤ p)
    (hhi : p < a.bootstrap.buffer + bootstrapSize) : a.inBuffers p = true := by
  obtain ⟨hpos, hsize, -⟩ := hb.bootstrap
  rw [Api.inBuffers, bumpOwns_iff.2 ⟨hpos.ne', hlo, hsize ▸ hhi⟩, Bool.true_or]

theorem bootstrapAlloc_owns (hb : BuffersOk a) (hok : bootstrapAlloc a size = .ok (ptr, a')) :
    bumpOwns a'.bootstrap ptr = true ∧ a'.inBuffers ptr = true := by
  obtain ⟨hplaces, -, -, -, hptr, hfit⟩ := bootstrapAlloc_piece hb hok
  have hin : bumpOwns a'.bootstrap ptr = true := by
    obtain ⟨hpos, hsize, -⟩ := hb.bootstrap
    rw [bumpOwns_congr (Prod.mk.inj hplaces).1, bumpOwns_iff, hsize]
    omega
  exact ⟨hin, by rw [Api.inBuffers, hin, Bool.true_or]⟩

theorem Api.Apart.not_taken (hapart : a.Apart) (hin : a.inBuffers p = true) :
    ¬ a.sys.heap.Taken p := fun hx => by
  rw [hapart p hx] at hin
  cases hin

theorem Api.Apart.served {s : Sys} (hapart : a.Apart) (hserved : Served s blk held g ptr s')
    (hsys : a.sys = s') (hne : ptr ≠ 0) : a.inBuffers ptr = false := by
  obtain ⟨blk', hinv, hg⟩ := hserved.grant_inv hne
  exact hapart ptr (hsys ▸ hinv.taken hg)

theorem signalSafeAlloc_piece (hb : BuffersOk a) (size : ℕ) :
    (signalSafeAlloc a size).2.places = a.places ∧ (signalSafeAlloc a size).2.sys = a.sys ∧
      (signalSafeAlloc a size).2.ring = a.ring ∧
      ((signalSafeAlloc a size).1 ≠ 0 → bumpOwns a.signalSafe (signalSafeAlloc a size).1 = true) := by
  obtain ⟨-, hsize, halign⟩ := hb.signalSafe
  refine ⟨by simp [signalSafeAlloc, Api.places, bumpAlloc_place], rfl, rfl, fun hne => ?_⟩
  have hpiece := bumpAlloc_piece a.signalSafe size (by rw [halign]; decide) (by rw [hsize, halign]; decide) hne
  obtain ⟨hbuffer, heq, hfit⟩ := hpiece
  simp only [signalSafeAlloc, bumpOwns_iff, heq]
  omega

/-! ### Allocation entries -/

theorem debugClearDoubleFreeRecord_eq (a : Api) (ptr : ℕ) :
    ∃ ring, debugClearDoubleFreeRecord a ptr = { a with ring := ring } := by
  unfold debugClearDoubleFreeRecord
  split_ifs
  · exact ⟨a.ring, rfl⟩
  · cases (List.range doubleFreeRingSize).find? fun i => a.ring i = ptr with
    | none => exact ⟨a.ring, rfl⟩
    | some i => exact ⟨_, rfl⟩

/-- The record of an allocation touches the ring only. -/
theorem postAllocRecord_eq (a : Api) (ptr : ℕ) :
    ∃ ring, postAllocRecord a ptr = { a with ring := ring } := by
  unfold postAllocRecord
  split_ifs
  · exact debugClearDoubleFreeRecord_eq a ptr
  · exact ⟨a.ring, rfl⟩

theorem postAllocRecord_sys (a : Api) (ptr : ℕ) : (postAllocRecord a ptr).sys = a.sys := by
  obtain ⟨ring, hring⟩ := postAllocRecord_eq a ptr
  rw [hring]

theorem postAllocRecord_null (a : Api) : postAllocRecord a 0 = a := by
  have hclear : debugClearDoubleFreeRecord a 0 = a := if_pos rfl
  rw [postAllocRecord, hclear, ite_self]

theorem postAllocRecord_off (hdebug : a.debug = false) (s' : Sys) (ptr : ℕ) :
    postAllocRecord (a.setSys s') ptr = a.setSys s' := by
  rw [postAllocRecord, if_neg (by simp [Api.setSys, hdebug])]

/-- The call works on the cache of its thread, and on none if the thread has none. -/
def OwnCache (env : Env) (s s' : Sys) : Prop :=
  OwnOnly env.call s s' ∧ (env.peek = false → env.call.cacheReady = false → s'.caches = s.caches)

theorem OwnCache.of_eq {s s' : Sys} (heq : s'.caches = s.caches) : OwnCache env s s' :=
  ⟨.of_eq heq, fun _ _ => heq⟩

/-- What an allocation entry answers: a block of the dispatcher or a piece of the buffer. -/
inductive Given (env : Env) (a : Api) (blk : Blocks) (held : Set ℕ) (size ptr : ℕ) (a' : Api) :
    Prop
  | block {s' : Sys} {g : Grant} : Answered a.sys blk held size g ptr s' →
      Footprint env.call.Offers a.sys.heap s'.heap →
      LargeIssued (max size 1) ptr a.sys.heap s'.heap → OwnCache env a.sys s' →
      a' = postAllocRecord (a.setSys s') ptr → Given env a blk held size ptr a'
  | piece : a.dispatchReady = false → bootstrapAlloc a (max size 1) = .ok (ptr, a') →
      Given env a blk held size ptr a'

theorem given_null (env : Env) (hs : SysInv a.sys L blk held) (hc : Calm L) (size : ℕ) :
    Given env a blk held size 0 a :=
  .block ⟨served_null hs hc ⟨0, .buddy⟩, fun hne => absurd rfl hne⟩ (.refl _ _)
    ((LargeKept.refl _).issued _ _) (.of_eq rfl) (postAllocRecord_null a).symm

/-- The gate leaves the blocks of the program alone. -/
theorem overSoftLimit_drained (env : Env) (hs : SysInv a.sys L blk held) (size : ℕ) :
    ∃ s₁, (overSoftLimit env a size).2 = a.setSys s₁ ∧ Drained a.sys L blk held s₁ ∧
      Footprint env.call.Offers a.sys.heap s₁.heap ∧ LargeKept a.sys.heap s₁.heap ∧
      s₁.caches = a.sys.caches := by
  have hself : Drained a.sys L blk held a.sys :=
    ⟨L, blk, hs, Carried.refl _ _ _, fun _ _ => le_rfl⟩
  unfold overSoftLimit
  split_ifs
  · exact ⟨a.sys, rfl, hself, .refl _ _, .refl _, rfl⟩
  · exact ⟨a.sys, rfl, hself, .refl _ _, .refl _, rfl⟩
  · have hstill := dispatchPurgeDrained_still a.sys
    exact ⟨_, rfl, dispatchPurgeDrained_spec hs, (hstill.within _).toFootprint, hstill.large, rfl⟩

theorem Answered.of_carried {s s₁ : Sys} {blk₁ : Blocks} (h : Answered s₁ blk₁ held size g ptr s')
    (hcarried : Carried held blk s.heap.mem blk₁ s₁.heap.mem) :
    Answered s blk held size g ptr s' := ⟨h.served.of_carried hcarried, h.covers⟩

theorem gatedAlloc_given {ask : Call → Sys → Except Stop (ℕ × Sys)} (hs : SysInv a.sys L blk held)
    (hc : Calm L) (hlegal : env.Legal a size)
    (hask : ∀ {call : Call} {s : Sys} {L : Stack → List ℕ} {blk : Blocks} {out : ℕ × Sys},
      SysInv s L blk held → Calm L → V8Malloc.Legal call s.heap → ask call s = .ok out →
      ∃ g, Dispatched call s blk held size g out.1 out.2)
    (hok : gatedAlloc env a size ask = .ok (ptr, a')) : Given env a blk held size ptr a' := by
  obtain ⟨s₁, hgate, ⟨L₁, blk₁, hs₁, hcarried, hle⟩, hpurge, hkept, hsame⟩ :=
    overSoftLimit_drained env hs size
  have hanswers := hlegal.answers
  unfold gatedAlloc at hok
  dsimp only at hok
  rw [hgate] at hanswers hok
  by_cases hover : (overSoftLimit env a size).1 = true
  · rw [if_pos hover] at hok
    obtain ⟨rfl, rfl⟩ := Prod.mk.inj (Except.ok.inj hok)
    have hanswer : Answered a.sys blk held size ⟨0, .buddy⟩ 0 s₁ :=
      ⟨(served_null hs₁ (hc.mono hle) _).of_carried hcarried, fun hne => absurd rfl hne⟩
    exact .block hanswer hpurge (hkept.issued _ _) (.of_eq hsame) (postAllocRecord_null _).symm
  · rw [if_neg hover] at hok
    rw [bind_ok_iff] at hok
    obtain ⟨out, hout, hok⟩ := hok
    have hcall : V8Malloc.Legal ((a.setSys s₁).call env) s₁.heap :=
      ⟨hanswers.pages, hanswers.arena, hanswers.regions, hanswers.owns⟩
    obtain ⟨g, hanswer, hissued, hfoot⟩ := hask hs₁ (hc.mono hle) hcall hout
    obtain ⟨rfl, rfl⟩ := Prod.mk.inj (Except.ok.inj hok)
    have hown : OwnCache env a.sys out.2 := by
      obtain ⟨cache, hcache⟩ := hissued.own
      rw [hsame] at hcache
      exact ⟨⟨cache, hcache⟩, fun _ hnone => (hissued.without hnone).trans hsame⟩
    refine .block (hanswer.of_carried hcarried) (hpurge.trans hfoot)
      (hkept.trans_issued hissued.large) hown ?_
    by_cases hzero : out.1 = 0
    · rw [if_pos hzero, hzero, postAllocRecord_null]
      rfl
    · rw [if_neg hzero]
      rfl

theorem doMallocPc_given (hs : SysInv a.sys L blk held) (hc : Calm L) (hlegal : env.Legal a size)
    (hok : doMallocPc env a size = .ok (ptr, a')) : Given env a blk held size ptr a' := by
  unfold doMallocPc at hok
  by_cases hready : a.dispatchReady = true
  · rw [if_neg (by simp [hready])] at hok
    apply gatedAlloc_given hs hc hlegal _ hok
    intro call s L blk out hs hc hlegal hout
    exact ⟨_, (dispatchAlloc_spec hs hc hlegal size).of_ok hout⟩
  · rw [if_pos (by simp [hready])] at hok
    refine .piece (by simpa using hready) ?_
    rwa [show (if size > 0 then size else 1) = max size 1 by split_ifs <;> omega] at hok

theorem v8mAlignedAlloc_given {alignment : ℕ} (hs : SysInv a.sys L blk held) (hc : Calm L)
    (hlegal : env.Legal a size) (hok : v8mAlignedAlloc env a alignment size = .ok (ptr, a')) :
    Given env a blk held size ptr a' := by
  have hnull : .ok (0, a) = (.ok (ptr, a') : Except Stop (ℕ × Api)) →
      Given env a blk held size ptr a' := by
    intro heq
    obtain ⟨rfl, rfl⟩ := Prod.mk.inj (Except.ok.inj heq)
    exact given_null env hs hc size
  unfold v8mAlignedAlloc at hok
  split_ifs at hok with hpow hready hnatural hpos
  · exact hnull hok
  · exact .piece (by simpa using hready) (by rwa [max_eq_left (by omega)])
  · exact .piece (by simpa using hready) (by rwa [max_eq_right (by omega)])
  · exact hnull hok
  · apply gatedAlloc_given hs hc hlegal _ hok
    intro call s L blk out hs hc hlegal hout
    exact ⟨_, (dispatchAllocAligned_spec hs hc hlegal size alignment).of_ok hout⟩

/-- The class of the inlined way covers the request. -/
theorem sizeClass_covers (hmax : size ≤ smallMaxSize) :
    sizeClass size < mediumFirstClass ∧ max size 1 ≤ sizeClassSize (sizeClass size) := by
  rcases Nat.eq_zero_or_pos size with rfl | hpos
  · decide
  · obtain ⟨hcls, hcovers, -⟩ := sizeClass_small hpos hmax
    rw [max_eq_left hpos]
    exact ⟨hcls, hcovers⟩

theorem v8mMalloc_given (hs : SysInv a.sys L blk held) (hc : Calm L) (hlegal : env.Legal a size)
    (hok : v8mMalloc env a size = .ok (ptr, a')) : Given env a blk held size ptr a' := by
  unfold v8mMalloc at hok
  by_cases hfast : env.peek ∧ size ≤ smallMaxSize ∧ a.fastPathOk env
  · rw [if_pos hfast] at hok
    dsimp only at hok
    obtain ⟨hcls, hcovers⟩ := sizeClass_covers hfast.2.1
    rcases hs.cacheAlloc (a.call env) hcls hc with ⟨-, hempty⟩ | ⟨hne, -, hserved⟩
    · rw [hempty, if_neg (by simp)] at hok
      exact doMallocPc_given hs hc hlegal hok
    · rw [if_pos hne] at hok
      obtain ⟨rfl, rfl⟩ := Prod.mk.inj (Except.ok.inj hok)
      refine .block ⟨hserved, fun _ => hcovers⟩ (.refl _ _) ((LargeKept.of_heads rfl).issued _ _)
        ⟨⟨_, rfl⟩, fun hpeek => absurd hfast.1 (by simp [hpeek])⟩ ?_
      have hdebug : a.debug = false := by
        have hok := hfast.2.2
        simp only [Api.fastPathOk, Bool.and_eq_true, Bool.not_eq_true'] at hok
        exact hok.1
      exact (postAllocRecord_off hdebug _ _).symm
  · rw [if_neg hfast] at hok
    exact doMallocPc_given hs hc hlegal hok

/-! ### Free -/

theorem noteFree_eq {a₁ : Api} (hok : noteFree env a ptr = .ok a₁) :
    ∃ ring ringIdx, a₁ = { a with ring := ring, ringIdx := ringIdx } := by
  unfold noteFree debugCheckDoubleFree at hok
  split_ifs at hok
  · cases hok
    exact ⟨_, _, rfl⟩
  · cases hok
    exact ⟨a.ring, a.ringIdx, rfl⟩

theorem v8mFree_of_slow (hne : ptr ≠ 0) (hfast : freeFastClass env a ptr = none) :
    v8mFree env a ptr = v8mFreeSlow env a ptr := by
  rw [v8mFree, if_neg hne, hfast]

/-- The slow way of a block of the dispatcher: the check, then the free. -/
theorem v8mFreeSlow_ready (hne : ptr ≠ 0) (hout : a.inBuffers ptr = false)
    (hready : a.dispatchReady = true) :
    v8mFreeSlow env a ptr = noteFree env a ptr >>= fun a =>
      dispatchFree (a.call env) a.sys ptr >>= fun s => pure (a.setSys s) := by
  simp only [Api.inBuffers, Bool.or_eq_false_iff] at hout
  simp only [v8mFreeSlow, if_neg hne, hout.1, hout.2, hready, Bool.not_true, Bool.false_eq_true,
    if_false]

/-- Pointers into the buffers, and all while the dispatcher is out of service, are left alone. -/
theorem v8mFree_ignored (hne : ptr ≠ 0) (hfast : freeFastClass env a ptr = none)
    (hnot : a.inBuffers ptr = true ∨ a.dispatchReady = false) : v8mFree env a ptr = .ok a := by
  rw [v8mFree_of_slow hne hfast, v8mFreeSlow, if_neg hne]
  split_ifs with hboot hsafe hready
  · rfl
  · rfl
  · rfl
  · simp only [Api.inBuffers, Bool.or_eq_true] at hnot
    simp only [Bool.not_eq_true', Bool.not_eq_false] at hready
    exact absurd hnot (by simp [hboot, hsafe, hready])

/-- The ways of `v8m_free`. -/
inductive FreeWay (env : Env) (a : Api) (ptr : ℕ) (a' : Api) : Prop
  | ignored : ptr = 0 ∨ freeFastClass env a ptr = none ∧
      (a.inBuffers ptr = true ∨ a.dispatchReady = false) → a' = a → FreeWay env a ptr a'
  | bin {cls : ℕ} : freeFastClass env a ptr = some cls →
      a' = a.setSys (a.sys.cacheFree (a.call env) cls ptr).2 → FreeWay env a ptr a'
  | dispatch {a₁ : Api} {s' : Sys} : freeFastClass env a ptr = none → a.inBuffers ptr = false →
      a.dispatchReady = true → noteFree env a ptr = .ok a₁ →
      dispatchFree (a₁.call env) a₁.sys ptr = .ok s' → a' = a₁.setSys s' → FreeWay env a ptr a'

theorem v8mFree_way (hok : v8mFree env a ptr = .ok a') : FreeWay env a ptr a' := by
  by_cases hne : ptr = 0
  · rw [v8mFree, if_pos hne] at hok
    cases hok
    exact .ignored (Or.inl hne) rfl
  cases hfast : freeFastClass env a ptr with
  | some cls =>
    rw [v8mFree, if_neg hne, hfast] at hok
    cases hok
    exact .bin hfast rfl
  | none =>
    by_cases hnot : a.inBuffers ptr = true ∨ a.dispatchReady = false
    · rw [v8mFree_ignored hne hfast hnot] at hok
      cases hok
      exact .ignored (Or.inr ⟨hfast, hnot⟩) rfl
    · simp only [not_or, Bool.not_eq_true, Bool.not_eq_false] at hnot
      rw [v8mFree_of_slow hne hfast, v8mFreeSlow_ready hne hnot.1 hnot.2, bind_ok_iff] at hok
      obtain ⟨a₁, hnote, hok⟩ := hok
      rw [bind_ok_iff] at hok
      obtain ⟨s', hfree, hok⟩ := hok
      cases hok
      exact .dispatch hfast hnot.1 hnot.2 hnote hfree rfl

/-- What `v8m_free` does with a block of the dispatcher. -/
inductive Returned (env : Env) (a : Api) (blk : Blocks) (held : Set ℕ) (ptr : ℕ) (a' : Api) : Prop
  | bin {s' : Sys} : (freeFastClass env a ptr).isSome = true → Freed a.sys blk held ptr s' →
      a' = a.setSys s' → Returned env a blk held ptr a'
  | block {a₁ : Api} {s' : Sys} : (freeFastClass env a ptr).isSome = false →
      a.dispatchReady = true → noteFree env a ptr = .ok a₁ → Freed a.sys blk held ptr s' →
      a' = a₁.setSys s' → Returned env a blk held ptr a'
  | dropped : (freeFastClass env a ptr).isSome = false → a.dispatchReady = false → a' = a →
      Returned env a blk held ptr a'

/-- The push of the inlined way leaves the bin below its capacity. -/
theorem freeFast_freed {cls : ℕ} (hs : SysInv a.sys L blk held) (hc : Calm L) (hx : ptr ∈ held)
    (hfast : freeFastClass env a ptr = some cls) :
    Freed a.sys blk held ptr (a.sys.cacheFree (a.call env) cls ptr).2 := by
  obtain ⟨⟨bytes, backend⟩, hg⟩ := hs.account.grant_of_held hx
  have hinv := hs.account.inv
  unfold freeFastClass at hfast
  split_ifs at hfast with hcond
  cases backend with
  | buddy =>
    rw [hinv.headerAt_buddy hg] at hfast
    cases hfast
  | large =>
    obtain ⟨block, hheader⟩ := hinv.headerAt_large hg
    rw [hheader] at hfast
    cases hfast
  | slab c arena =>
    obtain ⟨page, hheader, rfl, rfl, rfl⟩ := hinv.headerAt_slab hg
    obtain ⟨hcls, -, hsize⟩ := hinv.slab_bounds hg
    rw [hheader] at hfast
    simp only [Option.ite_none_right_eq_some, Option.some.injEq] at hfast
    obtain ⟨⟨harena, hroom⟩, rfl⟩ := hfast
    rw [hsize, harena] at hg
    obtain ⟨full, s₁, hfree, hs₁, hcarried, -⟩ := hs.cacheFree (a.call env) hcls hc hx hg
    rw [hfree]
    refine ⟨_, blk, hs₁, hc.update _ _ ?_, hcarried⟩
    have hcount := hs.tally.count env.call.thread page.sizeClass
    have hcap := hs.tally.capacity env.call.thread page.sizeClass
    rw [List.length_cons]
    show (L (.bin env.call.thread page.sizeClass)).length + 1 < binCapacityMax
    omega

theorem v8mFree_returned (hs : SysInv a.sys L blk held) (hc : Calm L)
    (hknows : env.Knows a.sys.heap ptr) (hx : ptr ∈ held) (hout : a.inBuffers ptr = false)
    (hok : v8mFree env a ptr = .ok a') : Returned env a blk held ptr a' := by
  cases v8mFree_way hok with
  | ignored hwhy heq =>
    obtain ⟨hfast, hin | hready⟩ := hwhy.resolve_left (hs.account.ne_zero hx)
    · rw [hout] at hin
      cases hin
    · exact .dropped (by rw [hfast]; rfl) hready heq
  | bin hfast heq => exact .bin (by rw [hfast]; rfl) (freeFast_freed hs hc hx hfast) heq
  | @dispatch a₁ s' hfast _ hready hnote hfree heq =>
    obtain ⟨ring, ringIdx, ha₁⟩ := noteFree_eq hnote
    have hsys : a₁.sys = a.sys := by rw [ha₁]
    have howns : ∀ y, a.sys.heap.Taken y → (a₁.call env).owns y = true := hknows.owns
    rw [hsys] at hfree
    exact .block (by rw [hfast]; rfl) hready hnote
      ((dispatchFree_spec hs hc howns hx).of_ok hfree) heq

/-- Whatever is freed, no large header is new and the caches of other threads stay. -/
theorem v8mFree_kept (hok : v8mFree env a ptr = .ok a') :
    LargeKept a.sys.heap a'.sys.heap ∧ OwnCache env a.sys a'.sys := by
  cases v8mFree_way hok with
  | ignored _ heq =>
    rw [heq]
    exact ⟨.refl _, .of_eq rfl⟩
  | bin hfast heq =>
    rw [heq]
    refine ⟨.of_heads rfl, ⟨_, rfl⟩, fun hpeek => ?_⟩
    simp [freeFastClass, hpeek] at hfast
  | dispatch _ _ _ hnote hfree heq =>
    obtain ⟨ring, ringIdx, rfl⟩ := noteFree_eq hnote
    obtain ⟨hconfined, hoff⟩ := confined_dispatchFree hfree
    rw [heq]
    exact ⟨hconfined.large, hconfined.own, fun _ hnone => hoff hnone⟩

/-- Nothing but the dispatcher and the ring changes. -/
theorem v8mFree_eq (hok : v8mFree env a ptr = .ok a') :
    ∃ s' ring ringIdx, a' = { a with sys := s', ring := ring, ringIdx := ringIdx } := by
  cases v8mFree_way hok with
  | ignored _ heq => exact ⟨a.sys, a.ring, a.ringIdx, heq⟩
  | bin _ heq => exact ⟨_, a.ring, a.ringIdx, heq⟩
  | dispatch _ _ _ hnote _ heq =>
    obtain ⟨ring, ringIdx, rfl⟩ := noteFree_eq hnote
    exact ⟨_, ring, ringIdx, heq⟩

/-- A pointer into a buffer is left alone. -/
theorem v8mFree_buffer (hapart : a.Apart) (hknows : env.Knows a.sys.heap ptr)
    (hin : a.inBuffers ptr = true) (hok : v8mFree env a ptr = .ok a') : a' = a := by
  cases v8mFree_way hok with
  | ignored _ heq => exact heq
  | bin hfast =>
    unfold freeFastClass at hfast
    split_ifs at hfast with hcond
    have hout := hapart ptr (hknows.ownsFast hcond.2.1)
    rw [hin] at hout
    cases hout
  | dispatch _ hout =>
    rw [hin] at hout
    cases hout

/-! ### Worlds -/

/-- The account of the dispatcher, and where the pieces of the buffers lie. -/
structure ApiInv (w : ApiWorld) (L : Stack → List ℕ) (blk : Blocks) : Prop where
  inv : WorldInv Covers w.world L blk
  apart : w.api.Apart
  buffers : BuffersOk w.api
  bumps : ∀ p n, w.bumps p = some n → w.api.inBuffers p = true ∧
    (bumpOwns w.api.bootstrap p = true → p + n ≤ w.api.bootstrap.buffer + bootstrapSize)

/-- What the program still has of the dispatcher lies outside the buffers. -/
theorem ApiInv.held_outside (hw : ApiInv w L blk) (hheld : p ∈ w.world.pointers) :
    w.api.inBuffers p = false := by
  obtain ⟨g, hg⟩ := hw.inv.inv.account.grant_of_held hheld
  exact hw.apart p (hw.inv.inv.account.inv.taken hg)

theorem ApiInv.owns_ne_zero (hw : ApiInv w L blk) (howns : w.Owns p) : p ≠ 0 := by
  rcases howns with ⟨hheld, -⟩ | hbump
  · exact hw.inv.inv.account.ne_zero hheld
  · obtain ⟨m, hm⟩ := Option.ne_none_iff_exists'.1 hbump
    have hin := (hw.bumps p m hm).1
    have hboot := hw.buffers.bootstrap.1
    have hsafe := hw.buffers.signalSafe.1
    simp only [Api.inBuffers, Bool.or_eq_true, bumpOwns_iff] at hin
    omega

theorem ApiInv.held_of_owns (hw : ApiInv w L blk) (howns : w.Owns p)
    (hout : w.api.inBuffers p = false) : w.held p ≠ none := by
  rcases howns with ⟨hheld, -⟩ | hbump
  · exact hheld
  · obtain ⟨m, hm⟩ := Option.ne_none_iff_exists'.1 hbump
    have hin := (hw.bumps p m hm).1
    rw [hout] at hin
    cases hin

/-- The dispatcher has changed, the buffers have not, and pieces were at most given up. -/
theorem ApiInv.of_world {L' : Stack → List ℕ} {blk' : Blocks} (hw : ApiInv w L blk)
    (hinv : WorldInv Covers w'.world L' blk') (hplaces : w'.api.places = w.api.places)
    (hapart : w'.api.Apart) (hbumps : ∀ p n, w'.bumps p = some n → w.bumps p = some n) :
    ApiInv w' L' blk' := by
  obtain ⟨hboot, -⟩ := Prod.mk.inj hplaces
  have hbuffer : w'.api.bootstrap.buffer = w.api.bootstrap.buffer := (Prod.mk.inj hboot).1
  refine ⟨hinv, hapart, hw.buffers.congr hplaces, fun p n hp => ?_⟩
  rw [inBuffers_congr hplaces, bumpOwns_congr hboot, hbuffer]
  exact hw.bumps p n (hbumps p n hp)

theorem api_answer (w : ApiWorld) (a : Api) (ptr note : ℕ) : (w.answer a ptr note).api = a := by
  unfold ApiWorld.answer
  split_ifs <;> rfl

/-- The answer does not depend on the memory. -/
theorem answer_setApi (w : ApiWorld) (hplaces : a'.places = a.places) (ptr note : ℕ) :
    w.answer a' ptr note = (w.answer a ptr note).setApi a' := by
  unfold ApiWorld.answer
  rw [inBuffers_congr hplaces]
  split_ifs <;> rfl

theorem answer_block (w : ApiWorld) (hout : ptr ≠ 0 → a.inBuffers ptr = false) (note : ℕ) :
    (w.answer a ptr note).world = w.world.answer a.sys ptr note ∧
      (w.answer a ptr note).bumps = w.bumps := by
  unfold ApiWorld.answer World.answer ApiWorld.world
  by_cases hzero : ptr = 0
  · simp [hzero, ApiWorld.setApi]
  · simp [hzero, hout hzero]

theorem answer_piece (w : ApiWorld) (hne : ptr ≠ 0) (hin : a.inBuffers ptr = true) (note : ℕ) :
    w.answer a ptr note = { w with api := a, bumps := update w.bumps ptr (some note) } := by
  rw [ApiWorld.answer, if_neg hne, if_pos hin]

/-- The program has `n` bytes at `p`, and the library knows them. -/
def ApiWorld.Noted (w : ApiWorld) (p n : ℕ) : Prop :=
  w.held p = some n ∨ w.bumps p = some n ∧ bumpOwns w.api.bootstrap p = true

theorem Given.places (hgiven : Given env a blk held size ptr a') (hb : BuffersOk a) :
    a'.places = a.places := by
  cases hgiven with
  | @block s' g hanswer hfoot hissued hown heq =>
    obtain ⟨ring, hring⟩ := postAllocRecord_eq (a.setSys s') ptr
    rw [heq, hring]
    rfl
  | piece hready hok => exact (bootstrapAlloc_piece hb hok).1

/-- No allocation takes memory of the buffers. -/
theorem Given.apart (hgiven : Given env a blk held size ptr a')
    (hout : ∀ x, env.call.Offers x → a.inBuffers x = false) (hb : BuffersOk a) (hapart : a.Apart) :
    a'.Apart := by
  cases hgiven with
  | @block s' g hanswer hfoot hissued hown heq =>
    obtain ⟨ring, hring⟩ := postAllocRecord_eq (a.setSys s') ptr
    rw [heq, hring]
    exact fun x hx => (hfoot.taken x hx).elim (hapart x) (hout x)
  | piece hready hok =>
    obtain ⟨hplaces, hsys, -⟩ := bootstrapAlloc_piece hb hok
    intro x hx
    rw [inBuffers_congr hplaces]
    rw [hsys] at hx
    exact hapart x hx

theorem ApiInv.answer (hw : ApiInv w L blk)
    (hgiven : Given env w.api blk w.world.pointers size ptr a')
    (hout : ∀ x, env.call.Offers x → w.api.inBuffers x = false) :
    (∃ L' blk', ApiInv (w.answer a' ptr size) L' blk') ∧
      (ptr ≠ 0 → (w.answer a' ptr size).Noted ptr size) := by
  have hapart := hgiven.apart hout hw.buffers hw.apart
  cases hgiven with
  | @block s' g hanswer hfoot hissued hown heq =>
    obtain ⟨ring, hring⟩ := postAllocRecord_eq (w.api.setSys s') ptr
    rw [hring] at heq
    have hsys : a'.sys = s' := by rw [heq]; rfl
    obtain ⟨hworld, hbumps⟩ := answer_block w (hapart.served hanswer.served hsys) size
    obtain ⟨L', blk', hinv⟩ := hw.inv.answer hanswer.served hanswer.covers
    rw [← hsys, ← hworld] at hinv
    refine ⟨⟨L', blk', hw.of_world hinv ?_ ?_ fun p n hp => ?_⟩, fun hne => Or.inl ?_⟩
    · rw [api_answer, heq]
      rfl
    · rwa [api_answer]
    · rwa [hbumps] at hp
    · have hheld := congrArg World.held hworld
      simp only [ApiWorld.world, World.answer, if_neg hne] at hheld
      rw [hheld, update_self]
  | piece hready hok =>
    obtain ⟨hplaces, hsys, -, hne, hptr, hfit⟩ := bootstrapAlloc_piece hw.buffers hok
    obtain ⟨hboot, -⟩ := Prod.mk.inj hplaces
    have hbuffer : a'.bootstrap.buffer = w.api.bootstrap.buffer := (Prod.mk.inj hboot).1
    obtain ⟨hin, hin'⟩ := bootstrapAlloc_owns hw.buffers hok
    rw [answer_piece w hne hin']
    refine ⟨⟨L, blk, ?_, hapart, hw.buffers.congr hplaces, fun p n hp => ?_⟩,
      fun _ => Or.inr ⟨update_self _ _ _, hin⟩⟩
    · have hsame : ApiWorld.world
          { w with api := a', bumps := update w.bumps ptr (some size) } = w.world := by
        simp [ApiWorld.world, hsys]
      rw [hsame]
      exact hw.inv
    · dsimp only at hp ⊢
      by_cases hp' : p = ptr
      · subst hp'
        rw [update_self] at hp
        cases hp
        exact ⟨hin', fun _ => by omega⟩
      · rw [update_of_ne hp'] at hp
        rw [inBuffers_congr hplaces, bumpOwns_congr hboot, hbuffer]
        exact hw.bumps p n hp

theorem ApiInv.signalSafeAlloc (hw : ApiInv w L blk) (size : ℕ) :
    ApiInv (w.answer (V8Malloc.signalSafeAlloc w.api size).2
      (V8Malloc.signalSafeAlloc w.api size).1 size) L blk := by
  obtain ⟨hplaces, hsys, -, hin⟩ := signalSafeAlloc_piece hw.buffers size
  have hapart : (V8Malloc.signalSafeAlloc w.api size).2.Apart := fun x hx => by
    rw [inBuffers_congr hplaces]
    exact hw.apart x hx
  by_cases hzero : (V8Malloc.signalSafeAlloc w.api size).1 = 0
  · rw [ApiWorld.answer, if_pos hzero]
    exact hw.of_world hw.inv hplaces hapart fun p n hp => hp
  · have hsafe := hin hzero
    have hbuffers : w.api.inBuffers (V8Malloc.signalSafeAlloc w.api size).1 = true := by
      rw [Api.inBuffers, hsafe, Bool.or_true]
    rw [answer_piece w hzero (by rwa [inBuffers_congr hplaces])]
    refine ⟨hw.inv, hapart, hw.buffers.congr hplaces, fun p n hp => ?_⟩
    dsimp only at hp ⊢
    rw [inBuffers_congr hplaces]
    by_cases hp' : p = (V8Malloc.signalSafeAlloc w.api size).1
    · subst hp'
      refine ⟨hbuffers, fun hboot => ?_⟩
      -- the two buffers do not overlap
      have hapart' := hw.buffers.apart
      change bumpOwns w.api.bootstrap _ = true at hboot
      rw [bumpOwns_iff] at hsafe hboot
      omega
    · rw [update_of_ne hp'] at hp
      exact hw.bumps p n hp

/-! ### Changes of the memory -/

theorem apart_setMem (hapart : a.Apart) (m' : Mem) : (a.setMem m').Apart :=
  fun x hx => hapart x (taken_setMem a.sys.heap m' hx)

theorem ApiInv.write (hw : ApiInv w L blk) (hm : w.world.Writes m') :
    ApiInv (w.setApi (w.api.setMem m')) L blk :=
  hw.of_world (hw.inv.write hm) rfl (apart_setMem hw.apart m') fun _ _ hp => hp

theorem ApiInv.elsewhere (hw : ApiInv w L blk)
    (hm : ∀ x, w.api.sys.heap.Taken x → m' x = w.api.sys.heap.mem x) :
    ApiInv (w.setApi (w.api.setMem m')) L blk :=
  hw.of_world (hw.inv.elsewhere hm) rfl (apart_setMem hw.apart m') fun _ _ hp => hp

theorem ApiInv.piece_not_taken {x : ℕ} (hw : ApiInv w L blk) (hbump : w.bumps p = some n)
    (hboot : bumpOwns w.api.bootstrap p = true) (hx : p ≤ x ∧ x < p + n) :
    ¬ w.api.sys.heap.Taken x := by
  have hend := (hw.bumps p n hbump).2 hboot
  rw [bumpOwns_iff] at hboot
  exact hw.apart.not_taken (hw.buffers.inBuffers (by omega) (by omega))

/-- The library writes into a block or piece it has just answered. -/
theorem ApiInv.store (hw : ApiInv w L blk) (m' : Mem) (hnoted : w.Noted p n)
    (hsame : SameOutside p n w.api.sys.heap.mem m')
    (hplain : PlainChange w.api.sys.heap.mem m') :
    ApiInv (w.setApi (w.api.setMem m')) L blk := by
  rcases hnoted with hheld | ⟨hbump, hboot⟩
  · refine hw.write ⟨fun x hx => ⟨p, World.mem_pointers hheld, ?_⟩, hplain⟩
    obtain ⟨g, hg⟩ := hw.inv.inv.account.grant_of_held (World.mem_pointers hheld)
    have hcovers : max n 1 ≤ g.bytes := hw.inv.covers p n g hheld hg
    rw [hw.inv.inv.account.inv.dispatchUsableSize_eq hg]
    have hin := mt (hsame x) hx
    omega
  · refine hw.elsewhere fun x hx => hsame x ?_
    by_contra hin
    exact hw.piece_not_taken hbump hboot (by omega) hx

theorem sameOutside_memcpy (noise m : Mem) (dst src n : ℕ) :
    SameOutside dst n m (memcpy noise m dst src n) := by
  unfold memcpy
  split_ifs
  · exact sameOutside_copy m dst src n
  · exact fun x hx => if_neg (by omega)

/-- All bytes of the magic word are larger, so a range of such bytes does not make one. -/
theorem plainChange_fill (m : Mem) (p n : ℕ) {c : UInt8} (hc : c.toNat < 2) :
    PlainChange m (fill m p n c) := by
  intro b _ hmagic
  have hlarge : ∀ x, b ≤ x → x < b + 8 → fill m p n c x ≠ c := by
    intro x hlo hhi hx
    obtain ⟨k, rfl⟩ := Nat.exists_eq_add_of_le hlo
    have hk : k < 8 := by omega
    simp only [load64, load] at hmagic
    unfold pageMagic at hmagic
    have hb := fun i => (fill m p n c (b + i)).toNat_lt
    have h0 := hb 0
    have h1 := hb 1
    have h2 := hb 2
    have h3 := hb 3
    have h4 := hb 4
    have h5 := hb 5
    have h6 := hb 6
    have h7 := hb 7
    have hx' : (fill m p n c (b + k)).toNat < 2 := by rwa [hx]
    interval_cases k <;> simp only [Nat.add_assoc, Nat.reduceAdd, Nat.add_zero] at * <;> omega
  have hsame : ∀ x, b ≤ x → x < b + 8 → fill m p n c x = m x := by
    intro x hlo hhi
    refine if_neg fun hin => hlarge x hlo hhi ?_
    exact if_pos hin
  rw [← hmagic]
  exact (load_congr hsame).symm

end V8Malloc
