import V8Malloc.Api.Totals

/-!
# The request histogram

Embedding of `v8m_thread_cache_record_alloc` and of the places it is called
from. The dispatcher reports every request it gets; one report in
`histogramSampleRate` is added to the bucket of its class. Reports of a thread
go to its cache, those of a thread without one to the global buckets. The
entries are here once more with the histograms beside the state; their answers
are those of the entries without.
-/
namespace V8Malloc

open ByteMemory Function

def histogramSampleRate : ℕ := 64

/-- The counters of one cache, or the global ones. -/
structure Histogram where
  histogramTick : BitVec 64
  requestCount : ℕ → BitVec 64
  requestBytes : ℕ → BitVec 64
  hugeRequestCount : BitVec 64
  hugeRequestBytes : BitVec 64

namespace Histogram

/-- All counters at zero, as in a new cache. -/
def fresh : Histogram := ⟨0, fun _ => 0, fun _ => 0, 0, 0⟩

/-- One report: only a tick that is a multiple of the rate lands in a bucket. -/
def observe (h : Histogram) (cls requestSize : ℕ) : Histogram :=
  let h := { h with histogramTick := h.histogramTick + 1 }
  if h.histogramTick &&& BitVec.ofNat 64 (histogramSampleRate - 1) ≠ 0 then h
  else if cls < numSizeClasses then
    { h with
      requestCount := update h.requestCount cls (h.requestCount cls + 1)
      requestBytes := update h.requestBytes cls
        (h.requestBytes cls + BitVec.ofNat 64 requestSize) }
  else
    { h with
      hugeRequestCount := h.hugeRequestCount + 1
      hugeRequestBytes := h.hugeRequestBytes + BitVec.ofNat 64 requestSize }

/-- The requests counted so far, over all classes and the huge ones. -/
def total (h : Histogram) : ℕ :=
  ∑ cls ∈ Finset.range numSizeClasses, (h.requestCount cls).toNat + h.hugeRequestCount.toNat

end Histogram

/-- The histogram in the cache of one thread, and the global one. -/
structure Sampler where
  cache : Histogram
  global : Histogram

/-! ### Where requests are reported -/

section Reports

variable (env : Env) (a : Api) (r : Sampler)

def threadCacheRecordAlloc (cls requestSize : ℕ) : Sampler :=
  if env.peek then { r with cache := r.cache.observe cls requestSize }
  else { r with global := r.global.observe cls requestSize }

/-- What `v8m_dispatch_alloc` reports; a request for nothing is one for a byte. -/
def dispatchAllocReport (size : ℕ) : Sampler :=
  let size := if size = 0 then 1 else size
  threadCacheRecordAlloc env r (sizeClass size) size

def dispatchAllocAlignedReport (size alignment : ℕ) : Sampler :=
  let size := if size = 0 then 1 else size
  if alignment ≤ 16 then dispatchAllocReport env r size
  else threadCacheRecordAlloc env r (sizeClass size) size

/-- Both ways of an aligned request report it alike. -/
theorem dispatchAllocAlignedReport_eq (size alignment : ℕ) :
    dispatchAllocAlignedReport env r size alignment = dispatchAllocReport env r size := by
  unfold dispatchAllocAlignedReport dispatchAllocReport
  split_ifs <;> simp_all

/-- `report` is what the dispatcher makes of the histograms once it is asked. -/
def gatedAllocCounted (size : ℕ) (ask : Call → Sys → Except Stop (ℕ × Sys)) (report : Sampler) :
    Except Stop (ℕ × Api) × Sampler :=
  let gate := overSoftLimit env a size
  if gate.1 then (.ok (0, gate.2), r)
  else
    let answer := ask (gate.2.call env) gate.2.sys
    (answer.map fun out =>
      let a := gate.2.setSys out.2
      (out.1, if out.1 = 0 then a else postAllocRecord a out.1), report)

def doMallocPcCounted (size : ℕ) : Except Stop (ℕ × Api) × Sampler :=
  if !a.dispatchReady then (bootstrapAlloc a (if size > 0 then size else 1), r)
  else gatedAllocCounted env a r size (fun call s => dispatchAlloc call s size)
    (dispatchAllocReport env r size)

def doAlignedAllocPcCounted (alignment size : ℕ) : Except Stop (ℕ × Api) × Sampler :=
  gatedAllocCounted env a r size (fun call s => dispatchAllocAligned call s size alignment)
    (dispatchAllocAlignedReport env r size alignment)

/-- The inlined way ends before the dispatcher sees the request. -/
def v8mMallocCounted (size : ℕ) : Except Stop (ℕ × Api) × Sampler :=
  if env.peek ∧ size ≤ smallMaxSize ∧ a.fastPathOk env then
    let cached := a.sys.cacheAlloc (a.call env) (sizeClass size)
    if cached.1 ≠ 0 then (.ok (cached.1, a.setSys cached.2), r) else doMallocPcCounted env a r size
  else doMallocPcCounted env a r size

def v8mCallocCounted (nmemb size : ℕ) : Except Stop (ℕ × Api) × Sampler :=
  if nmemb * size ≥ 2 ^ 64 then (.ok (0, a), r)
  else
    let counted := doMallocPcCounted env a r (nmemb * size)
    (do
      let out ← counted.1
      if out.1 ≠ 0 ∧ nmemb * size > 0 then
        pure (out.1, out.2.setMem (fill out.2.sys.heap.mem out.1 (nmemb * size) 0))
      else pure out, counted.2)

def v8mAlignedAllocCounted (alignment size : ℕ) : Except Stop (ℕ × Api) × Sampler :=
  if !isPow2 alignment then (.ok (0, a), r)
  else if !a.dispatchReady then
    (if alignment ≤ 16 then bootstrapAlloc a (if size > 0 then size else 1) else .ok (0, a), r)
  else doAlignedAllocPcCounted env a r alignment size

theorem gatedAllocCounted_value (size : ℕ) (ask : Call → Sys → Except Stop (ℕ × Sys))
    (report : Sampler) :
    (gatedAllocCounted env a r size ask report).1 = gatedAlloc env a size ask := by
  unfold gatedAllocCounted gatedAlloc
  dsimp only
  split_ifs
  · rfl
  · cases ask ((overSoftLimit env a size).2.call env) (overSoftLimit env a size).2.sys <;> rfl

theorem doMallocPcCounted_value (size : ℕ) :
    (doMallocPcCounted env a r size).1 = doMallocPc env a size := by
  unfold doMallocPcCounted doMallocPc
  split_ifs
  · rfl
  · rfl
  · exact gatedAllocCounted_value env a r size _ _

theorem v8mMallocCounted_value (size : ℕ) :
    (v8mMallocCounted env a r size).1 = v8mMalloc env a size := by
  unfold v8mMallocCounted v8mMalloc
  dsimp only
  split_ifs
  · rfl
  · exact doMallocPcCounted_value env a r size
  · exact doMallocPcCounted_value env a r size

theorem v8mCallocCounted_value (nmemb size : ℕ) :
    (v8mCallocCounted env a r nmemb size).1 = v8mCalloc env a nmemb size := by
  unfold v8mCallocCounted v8mCalloc
  split_ifs
  · rfl
  · dsimp only
    rw [doMallocPcCounted_value]

theorem v8mAlignedAllocCounted_value (alignment size : ℕ) :
    (v8mAlignedAllocCounted env a r alignment size).1 = v8mAlignedAlloc env a alignment size := by
  unfold v8mAlignedAllocCounted v8mAlignedAlloc
  split_ifs
  all_goals first | rfl | exact gatedAllocCounted_value env a r size _ _

end Reports

/-! ### Sequences of calls of one thread -/

inductive SampleEvent where
  | malloc (env : Env) (size : ℕ)
  | calloc (env : Env) (nmemb size : ℕ)
  | alignedAlloc (env : Env) (alignment size : ℕ)
  | retry
  | free
  | others

/-- A call of thread `t`, which has its cache, with the options at their defaults. -/
structure PlainCall (t : ℕ) (env : Env) (a : Api) : Prop where
  thread : env.call.thread = t
  peek : env.peek = true
  tracking : env.call.lifetimeTracking = false
  debug : a.debug = false
  softLimit : a.softLimit = 0

/-- The thread has made `n` successful requests since `a₀` and `r₀`. An attempt that came back
with nothing and after which the OOM handler asks for another is a `retry`; other threads may do
anything to the state. -/
inductive SampleRun (ok : Api → SampleEvent → Prop) (t : ℕ) (a₀ : Api) (r₀ : Sampler) :
    ℕ → Api → Sampler → Prop
  | start : SampleRun ok t a₀ r₀ 0 a₀ r₀
  | malloc {n size ptr : ℕ} {env : Env} {a a' : Api} {r r' : Sampler} :
      SampleRun ok t a₀ r₀ n a r → ok a (.malloc env size) → PlainCall t env a →
      v8mMallocCounted env a r size = (.ok (ptr, a'), r') → ptr ≠ 0 →
      SampleRun ok t a₀ r₀ (n + 1) a' r'
  | calloc {n nmemb size ptr : ℕ} {env : Env} {a a' : Api} {r r' : Sampler} :
      SampleRun ok t a₀ r₀ n a r → ok a (.calloc env nmemb size) → PlainCall t env a →
      v8mCallocCounted env a r nmemb size = (.ok (ptr, a'), r') → ptr ≠ 0 →
      SampleRun ok t a₀ r₀ (n + 1) a' r'
  | alignedAlloc {n alignment size ptr : ℕ} {env : Env} {a a' : Api} {r r' : Sampler} :
      SampleRun ok t a₀ r₀ n a r → ok a (.alignedAlloc env alignment size) → PlainCall t env a →
      v8mAlignedAllocCounted env a r alignment size = (.ok (ptr, a'), r') → ptr ≠ 0 →
      SampleRun ok t a₀ r₀ (n + 1) a' r'
  | retry {n size : ℕ} {env : Env} {a a' : Api} {r r' : Sampler} : SampleRun ok t a₀ r₀ n a r →
      ok a .retry → PlainCall t env a → doMallocPcCounted env a r size = (.ok (0, a'), r') →
      SampleRun ok t a₀ r₀ n a' r'
  | retryAligned {n alignment size : ℕ} {env : Env} {a a' : Api} {r r' : Sampler} :
      SampleRun ok t a₀ r₀ n a r → ok a .retry → PlainCall t env a →
      doAlignedAllocPcCounted env a r alignment size = (.ok (0, a'), r') →
      SampleRun ok t a₀ r₀ n a' r'
  | free {n ptr : ℕ} {env : Env} {a a' : Api} {r : Sampler} : SampleRun ok t a₀ r₀ n a r →
      ok a .free → PlainCall t env a → v8mFree env a ptr = .ok a' → SampleRun ok t a₀ r₀ n a' r
  | others {n : ℕ} {a : Api} (a' : Api) {r : Sampler} : SampleRun ok t a₀ r₀ n a r →
      ok a .others → SampleRun ok t a₀ r₀ n a' r

/-- The library is in service, no request is served inlined and none is tried twice. -/
def Reported (a : Api) : SampleEvent → Prop
  | .malloc env size => a.dispatchReady = true ∧ fastHit env a size = false
  | .calloc _ _ _ | .alignedAlloc _ _ _ => a.dispatchReady = true
  | .retry => False
  | .free | .others => True

/-! ### The effect of one report -/

namespace Histogram

variable {h h₀ : Histogram} {n cls size : ℕ}

theorem lands_iff (tick : BitVec 64) :
    tick &&& BitVec.ofNat 64 (histogramSampleRate - 1) = 0 ↔ tick.toNat % 64 = 0 := by
  have hmask : (tick &&& BitVec.ofNat 64 (histogramSampleRate - 1)).toNat = tick.toNat % 64 := by
    rw [BitVec.toNat_and]
    exact Nat.and_two_pow_sub_one_eq_mod tick.toNat 6
  rw [← BitVec.toNat_inj, hmask]
  rfl

/-- A counter of 64 bits moves on by one, or to zero from its last value. -/
theorem toNat_succ_le (x : BitVec 64) :
    (x + 1).toNat ≤ x.toNat + 1 ∧ (x + 1).toNat ≡ x.toNat + 1 [MOD 2 ^ 64] := by
  have hsucc : (x + 1).toNat = (x.toNat + 1) % 2 ^ 64 := BitVec.toNat_add x 1
  rw [hsucc]
  exact ⟨Nat.mod_le _ _, Nat.mod_modEq _ _⟩

theorem observe_tick : (h.observe cls size).histogramTick = h.histogramTick + 1 := by
  unfold observe
  dsimp only
  split_ifs <;> rfl

theorem total_observe_skip (htick : (h.histogramTick + 1).toNat % 64 ≠ 0) :
    (h.observe cls size).total = h.total := by
  have hskip := (not_congr (lands_iff (h.histogramTick + 1))).2 htick
  rw [observe]
  dsimp only
  rw [if_pos hskip]
  rfl

theorem total_observe_land (htick : (h.histogramTick + 1).toNat % 64 = 0) :
    (h.observe cls size).total ≤ h.total + 1 ∧
      (h.observe cls size).total ≡ h.total + 1 [MOD 2 ^ 64] := by
  rw [← lands_iff] at htick
  rw [observe]
  dsimp only
  rw [if_neg (not_not.2 htick)]
  split_ifs with hcls
  · -- one bucket of the sum changes
    have hmem : cls ∈ Finset.range numSizeClasses := Finset.mem_range.2 hcls
    obtain ⟨hle, hmod⟩ := toNat_succ_le (h.requestCount cls)
    have hrest : ∑ c ∈ (Finset.range numSizeClasses).erase cls,
        (update h.requestCount cls (h.requestCount cls + 1) c).toNat =
        ∑ c ∈ (Finset.range numSizeClasses).erase cls, (h.requestCount c).toNat := by
      refine Finset.sum_congr rfl fun c hc => ?_
      rw [update_of_ne (Finset.ne_of_mem_erase hc)]
    unfold total
    dsimp only
    rw [← Finset.add_sum_erase _ _ hmem, ← Finset.add_sum_erase _ _ hmem, hrest,
      update_self]
    constructor
    · omega
    · have hsum := (hmod.add_right (∑ c ∈ (Finset.range numSizeClasses).erase cls,
        (h.requestCount c).toNat)).add_right h.hugeRequestCount.toNat
      convert hsum using 1
      omega
  · obtain ⟨hle, hmod⟩ := toNat_succ_le h.hugeRequestCount
    unfold total
    dsimp only
    rw [add_assoc]
    exact ⟨Nat.add_le_add_left hle _, hmod.add_left _⟩

/-- `n` reports have been made since `h₀`. -/
structure After (h₀ : Histogram) (n : ℕ) (h : Histogram) : Prop where
  tick : h.histogramTick = h₀.histogramTick + BitVec.ofNat 64 n
  le : h.total ≤ h₀.total + ((h₀.histogramTick.toNat + n) / 64 - h₀.histogramTick.toNat / 64)
  modEq : h.total ≡ h₀.total + ((h₀.histogramTick.toNat + n) / 64 -
    h₀.histogramTick.toNat / 64) [MOD 2 ^ 64]

theorem After.zero (h : Histogram) : After h 0 h := ⟨by simp, by simp, by simpa using Nat.ModEq.refl _⟩

theorem After.observe (hafter : After h₀ n h) (cls size : ℕ) :
    After h₀ (n + 1) (h.observe cls size) := by
  have htick : (h.histogramTick + 1).toNat % 64 = (h₀.histogramTick.toNat + n + 1) % 64 := by
    rw [hafter.tick, BitVec.toNat_add, BitVec.toNat_add, BitVec.toNat_ofNat,
      show (1 : BitVec 64).toNat = 1 by decide]
    omega
  have hnext : (h.observe cls size).histogramTick = h₀.histogramTick + BitVec.ofNat 64 (n + 1) := by
    rw [observe_tick, hafter.tick, ofNat_succ, add_assoc]
  obtain ⟨-, hle, hmod⟩ := hafter
  by_cases hland : (h.histogramTick + 1).toNat % 64 = 0
  · have hgrow : (h₀.histogramTick.toNat + (n + 1)) / 64 - h₀.histogramTick.toNat / 64 =
        (h₀.histogramTick.toNat + n) / 64 - h₀.histogramTick.toNat / 64 + 1 := by omega
    obtain ⟨hle', hmod'⟩ : (h.observe cls size).total ≤ h.total + 1 ∧
        (h.observe cls size).total ≡ h.total + 1 [MOD 2 ^ 64] := total_observe_land hland
    refine ⟨hnext, ?_, ?_⟩
    · rw [hgrow]
      omega
    · rw [hgrow, ← add_assoc]
      exact hmod'.trans (hmod.add_right 1)
  · have hgrow : (h₀.histogramTick.toNat + (n + 1)) / 64 - h₀.histogramTick.toNat / 64 =
        (h₀.histogramTick.toNat + n) / 64 - h₀.histogramTick.toNat / 64 := by omega
    refine ⟨hnext, ?_, ?_⟩ <;> rw [total_observe_skip hland, hgrow]
    · exact hle
    · exact hmod

/-- Where no counter can wrap, the growth is exact. -/
theorem After.total_eq (hafter : After h₀ n h)
    (hlt : h₀.total + ((h₀.histogramTick.toNat + n) / 64 - h₀.histogramTick.toNat / 64) < 2 ^ 64) :
    h.total = h₀.total + ((h₀.histogramTick.toNat + n) / 64 - h₀.histogramTick.toNat / 64) :=
  hafter.modEq.eq_of_lt_of_lt (hafter.le.trans_lt hlt) hlt

end Histogram

/-! ### What a sequence reports -/

section Sequences

variable {env : Env} {a a' a₀ : Api} {r r' r₀ : Sampler} {t n ptr size nmemb alignment : ℕ}

/-- The cache of the thread gets one report. -/
def ReportsOnce (r r' : Sampler) : Prop :=
  ∃ cls requestSize, r'.cache = r.cache.observe cls requestSize

theorem reportsOnce_dispatchAlloc (hcall : PlainCall t env a) (size : ℕ) :
    ReportsOnce r (dispatchAllocReport env r size) :=
  ⟨_, _, by rw [dispatchAllocReport, threadCacheRecordAlloc, if_pos hcall.peek]⟩

/-- Without a soft limit the dispatcher is asked. -/
theorem gatedAllocCounted_report (hcall : PlainCall t env a) (size : ℕ)
    (ask : Call → Sys → Except Stop (ℕ × Sys)) (report : Sampler) :
    (gatedAllocCounted env a r size ask report).2 = report := by
  have hgate : (overSoftLimit env a size).1 = false := by
    rw [overSoftLimit, if_pos hcall.softLimit]
  rw [gatedAllocCounted, hgate]
  rfl

theorem reportsOnce_doMallocPc (hcall : PlainCall t env a) (hready : a.dispatchReady = true)
    (size : ℕ) : ReportsOnce r (doMallocPcCounted env a r size).2 := by
  rw [doMallocPcCounted, hready, if_neg (by decide), gatedAllocCounted_report hcall]
  exact reportsOnce_dispatchAlloc hcall size

/-- A bin that is empty leaves the request to the dispatcher. -/
theorem v8mMallocCounted_of_miss (hmiss : fastHit env a size = false) :
    v8mMallocCounted env a r size = doMallocPcCounted env a r size := by
  unfold v8mMallocCounted
  split_ifs with hfast
  · have hhead : (a.sys.caches env.call.thread).binHeads (sizeClass size) = 0 := by
      simpa [fastHit, hfast] using hmiss
    have hnone : (a.sys.cacheAlloc (a.call env) (sizeClass size)).1 = 0 := by
      simp only [Sys.cacheAlloc, Api.call, threadCacheAlloc, hhead, if_true]
      split_ifs <;> rfl
    simp [hnone]
  · rfl

theorem reportsOnce_v8mCalloc (hcall : PlainCall t env a) (hready : a.dispatchReady = true)
    (hok : v8mCallocCounted env a r nmemb size = (.ok (ptr, a'), r')) (hne : ptr ≠ 0) :
    ReportsOnce r r' := by
  unfold v8mCallocCounted at hok
  split_ifs at hok
  · cases hok
    exact absurd rfl hne
  · obtain ⟨-, rfl⟩ := Prod.mk.inj hok
    exact reportsOnce_doMallocPc hcall hready _

theorem reportsOnce_v8mAlignedAlloc (hcall : PlainCall t env a) (hready : a.dispatchReady = true)
    (hok : v8mAlignedAllocCounted env a r alignment size = (.ok (ptr, a'), r')) (hne : ptr ≠ 0) :
    ReportsOnce r r' := by
  rw [v8mAlignedAllocCounted, hready, Bool.not_true, if_neg Bool.false_ne_true] at hok
  split_ifs at hok
  · cases hok
    exact absurd rfl hne
  · have hreport : (doAlignedAllocPcCounted env a r alignment size).2 = r' :=
      congrArg Prod.snd hok
    rw [doAlignedAllocPcCounted, gatedAllocCounted_report hcall,
      dispatchAllocAlignedReport_eq] at hreport
    rw [← hreport]
    exact reportsOnce_dispatchAlloc hcall size

theorem ReportsOnce.after (honce : ReportsOnce r r')
    (hafter : r₀.cache.After n r.cache) : r₀.cache.After (n + 1) r'.cache := by
  obtain ⟨cls, requestSize, heq⟩ := honce
  rw [heq]
  exact hafter.observe cls requestSize

theorem SampleRun.after (hrun : SampleRun Reported t a₀ r₀ n a r) :
    r₀.cache.After n r.cache := by
  induction hrun with
  | start => exact .zero _
  | malloc _ hok hcall hanswer _ ih =>
    rw [v8mMallocCounted_of_miss hok.2] at hanswer
    obtain rfl := (congrArg Prod.snd hanswer).symm
    exact (reportsOnce_doMallocPc hcall hok.1 _).after ih
  | calloc _ hok hcall hanswer hne ih =>
    exact (reportsOnce_v8mCalloc hcall hok hanswer hne).after ih
  | alignedAlloc _ hok hcall hanswer hne ih =>
    exact (reportsOnce_v8mAlignedAlloc hcall hok hanswer hne).after ih
  | retry _ hok => exact hok.elim
  | retryAligned _ hok => exact hok.elim
  | free _ _ _ _ ih => exact ih
  | others _ _ _ ih => exact ih

/-- Of the requests of a thread that all reach the dispatcher, one in 64 is counted. -/
theorem histogram_counts_requests (hrun : SampleRun Reported t a₀ r₀ n a r) :
    r.cache.total ≡ r₀.cache.total + ((r₀.cache.histogramTick.toNat + n) / 64 -
      r₀.cache.histogramTick.toNat / 64) [MOD 2 ^ 64] ∧
    (r₀.cache.total + ((r₀.cache.histogramTick.toNat + n) / 64 -
      r₀.cache.histogramTick.toNat / 64) < 2 ^ 64 →
      r.cache.total = r₀.cache.total + ((r₀.cache.histogramTick.toNat + n) / 64 -
        r₀.cache.histogramTick.toNat / 64)) :=
  ⟨hrun.after.modEq, hrun.after.total_eq⟩

end Sequences

/-! ### Requests from the bin -/

theorem answers_served_calloc : ∃ s', dispatchAlloc laterCall servedState 24 = .ok (67728, s') :=
  answer_of_map (by decide +kernel)

theorem Histogram.total_of_zero {h : Histogram} (hcount : h.requestCount = fun _ => 0)
    (hhuge : h.hugeRequestCount = 0) : h.total = 0 := by
  simp [Histogram.total, hcount, hhuge]

/-- A cache whose next report is its 64th. -/
def lateSampler : Sampler := ⟨{ Histogram.fresh with histogramTick := 63 }, .fresh⟩

theorem served_calloc : ∃ a', v8mCalloc fastEnv (readyWorld.api.setSys servedState) 1 24 =
    .ok (67728, a') := by
  obtain ⟨s', hserved⟩ := answers_served_calloc
  have hmalloc : doMallocPc fastEnv (readyWorld.api.setSys servedState) (1 * 24) =
      .ok (67728, (readyWorld.api.setSys servedState).setSys s') := by
    rw [doMallocPc, if_neg (by decide)]
    exact gatedAlloc_plain rfl rfl (by norm_num) hserved
  rw [v8mCalloc, if_neg (by norm_num), hmalloc]
  exact ⟨_, rfl⟩

theorem histogram_counts_requests_last :
    (v8mCallocCounted fastEnv (readyWorld.api.setSys servedState) lateSampler 1 24).2.cache.total =
      1 := by
  obtain ⟨a', hcalloc⟩ := served_calloc
  rw [← v8mCallocCounted_value _ _ lateSampler] at hcalloc
  have hrun : SampleRun Reported 0 (readyWorld.api.setSys servedState) lateSampler 1 a'
      (v8mCallocCounted fastEnv (readyWorld.api.setSys servedState) lateSampler 1 24).2 :=
    .calloc .start rfl ⟨rfl, rfl, rfl, rfl, rfl⟩ (Prod.ext hcalloc rfl) (by norm_num)
  have htotal : lateSampler.cache.total = 0 := Histogram.total_of_zero rfl rfl
  have hgrow : (lateSampler.cache.histogramTick.toNat + 1) / 64 -
      lateSampler.cache.histogramTick.toNat / 64 = 1 := by decide
  have hcount := (histogram_counts_requests hrun).2
  rw [htotal, hgrow] at hcount
  exact hcount (by norm_num)

/-- The inlined free of a slot of the class. -/
def fastFreeEnv : Env := { fastEnv with ownsFast := true }

/-- A request that the bin of the thread serves, and its free. -/
def hitAndFree (a : Api) : Option Api :=
  match v8mMalloc fastEnv a 24 with
  | .ok (p, a₁) =>
    if p ≠ 0 ∧ a.fastPathOk fastEnv = true ∧
        (a.sys.cacheAlloc (a.call fastEnv) (sizeClass 24)).1 ≠ 0 ∧ a.debug = false ∧
        a.softLimit = 0 ∧ a₁.debug = false ∧ a₁.softLimit = 0 then
      (v8mFree fastFreeEnv a₁ p).toOption
    else none
  | .error _ => none

def hitsAndFrees : ℕ → Api → Option Api
  | 0, a => some a
  | n + 1, a => (hitAndFree a).bind (hitsAndFrees n)

section Cycle

variable {ok : Api → SampleEvent → Prop} {a₀ a a' : Api} {r₀ r : Sampler} {n : ℕ}
variable (hmalloc : ∀ a env size, ok a (.malloc env size)) (hfree : ∀ a, ok a .free)

include hmalloc hfree

/-- Neither of the two calls is reported. -/
theorem SampleRun.hitAndFree (hrun : SampleRun ok 0 a₀ r₀ n a r) (heq : hitAndFree a = some a') :
    SampleRun ok 0 a₀ r₀ (n + 1) a' r := by
  unfold V8Malloc.hitAndFree at heq
  split at heq
  · rename_i p a₁ hserved
    split_ifs at heq with hhit
    obtain ⟨hne, hfast, hslot, hdebug, hlimit, hdebug₁, hlimit₁⟩ := hhit
    have hback : v8mFree fastFreeEnv a₁ p = .ok a' := by
      cases hfreed : v8mFree fastFreeEnv a₁ p <;> simp_all [Except.toOption]
    have hreport : (v8mMallocCounted fastEnv a r 24).2 = r := by
      have hsmall : fastEnv.peek = true ∧ 24 ≤ smallMaxSize ∧ a.fastPathOk fastEnv = true :=
        ⟨rfl, by decide, hfast⟩
      simp only [v8mMallocCounted, if_pos hsmall, if_pos hslot]
    rw [← v8mMallocCounted_value _ _ r] at hserved
    have hrequest := hrun.malloc (hmalloc _ _ _) ⟨rfl, rfl, rfl, hdebug, hlimit⟩
      (Prod.ext hserved hreport) hne
    exact hrequest.free (hfree _) ⟨rfl, rfl, rfl, hdebug₁, hlimit₁⟩ hback
  · cases heq

theorem SampleRun.hitsAndFrees (left : ℕ) (hrun : SampleRun ok 0 a₀ r₀ n a r)
    (hsome : (hitsAndFrees left a).isSome = true) : ∃ a', SampleRun ok 0 a₀ r₀ (n + left) a' r := by
  induction left generalizing a n with
  | zero => exact ⟨a, hrun⟩
  | succ left ih =>
    cases hfirst : V8Malloc.hitAndFree a with
    | none => simp [V8Malloc.hitsAndFrees, hfirst] at hsome
    | some a₁ =>
      simp only [V8Malloc.hitsAndFrees, hfirst, Option.bind_some] at hsome
      rw [show n + (left + 1) = n + 1 + left by omega]
      exact ih (hrun.hitAndFree hmalloc hfree hfirst) hsome

end Cycle

theorem hits_run : ∃ a, SampleRun (fun _ e => e ≠ .retry ∧ e ≠ .others) 0 servedBooks.api
    ⟨.fresh, .fresh⟩ 64 a ⟨.fresh, .fresh⟩ := by
  rw [api_servedBooks]
  exact SampleRun.start.hitsAndFrees (fun _ _ _ => ⟨nofun, nofun⟩) (fun _ => ⟨nofun, nofun⟩) 64
    (by decide +kernel)

/-- The first request of a thread has filled its bin and its cache is new. Then 64 requests, each
freed again, leave no trace in the histogram. -/
theorem hits_not_sampled : ∃ b a r, BookRun (fun _ _ => True) b ∧ b.slot 0 ≠ 0 ∧
    SampleRun (fun _ e => e ≠ .retry ∧ e ≠ .others) 0 b.api ⟨.fresh, .fresh⟩ 64 a r ∧
    r.cache.total ≠ Histogram.fresh.total + ((Histogram.fresh.histogramTick.toNat + 64) / 64 -
      Histogram.fresh.histogramTick.toNat / 64) := by
  obtain ⟨a, hrun⟩ := hits_run
  have hgrow : (Histogram.fresh.histogramTick.toNat + 64) / 64 -
      Histogram.fresh.histogramTick.toNat / 64 = 1 := by decide
  refine ⟨servedBooks, a, _, servedBooks_run trivial, by decide, hrun, ?_⟩
  rw [hgrow]
  exact Nat.ne_of_lt (Nat.lt_succ_self _)

end V8Malloc
