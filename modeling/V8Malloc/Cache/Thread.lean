import V8Malloc.Slab.Pool

/-!
# Thread caches

Embedding of the bins of `v8m_thread_cache.c`. A bin is a stack of free slots
linked through their first words, with a count next to it and a capacity that
is tuned every `tlcGcInterval` operations. The medium bins hold a few buddy
blocks of one class each. Arrays indexed by a class are functions.
-/
namespace V8Malloc

open ByteMemory Function

def binCapacityMin : ℕ := 16
def binCapacityDefault : ℕ := 64
def binCapacityMax : ℕ := 512
def tlcGcInterval : ℕ := 1024
def mediumTlcFirstClass : ℕ := 32
def mediumTlcLastClass : ℕ := 37

structure ThreadCache where
  binHeads : ℕ → ℕ
  binCount : ℕ → ℕ
  binCapacity : ℕ → ℕ
  allocCountPerClass : ℕ → ℕ
  freeCountPerClass : ℕ → ℕ
  emaDemand : ℕ → ℕ
  gcCountdown : ℕ
  gcGeneration : ℕ
  mediumBinHeads : ℕ → ℕ
  mediumBinCount : ℕ → ℕ

/-- A cache as `v8m_thread_cache_get_or_create` leaves it. -/
def ThreadCache.fresh : ThreadCache where
  binHeads := fun _ => 0
  binCount := fun _ => 0
  binCapacity := fun _ => binCapacityDefault
  allocCountPerClass := fun _ => 0
  freeCountPerClass := fun _ => 0
  emaDemand := fun _ => 0
  gcCountdown := tlcGcInterval
  gcGeneration := 0
  mediumBinHeads := fun _ => 0
  mediumBinCount := fun _ => 0

/-- `++` and `--` on an unsigned integer of `w` bits. -/
def increment (w n : ℕ) : ℕ := (n + 1) % 2 ^ w
def decrement (w n : ℕ) : ℕ := (n + 2 ^ w - 1) % 2 ^ w

/-! ### The capacity controller -/

def tickDemand (allocs frees : ℕ) : ℕ := if allocs > frees then allocs - frees else 0

def tickEma (ema demand : ℕ) : ℕ := min ((ema * 3 + demand) >>> 2) (2 ^ 16 - 1)

def tickCapacity (nodeOverloaded : Bool) (ema : ℕ) : ℕ :=
  let newCap := if nodeOverloaded then (ema * 2) >>> 1 else ema * 2
  min (max newCap binCapacityMin) binCapacityMax

def threadCacheGcTick (nodeOverloaded : Bool) (cache : ThreadCache) : ThreadCache :=
  let ema := fun cls => tickEma (cache.emaDemand cls)
    (tickDemand (cache.allocCountPerClass cls) (cache.freeCountPerClass cls))
  { cache with
    emaDemand := ema
    binCapacity := fun cls => tickCapacity nodeOverloaded (ema cls)
    allocCountPerClass := fun _ => 0
    freeCountPerClass := fun _ => 0
    gcGeneration := increment 32 cache.gcGeneration
    gcCountdown := tlcGcInterval }

def tlcTickGc (nodeOverloaded : Bool) (cache : ThreadCache) : ThreadCache :=
  let cache := { cache with gcCountdown := decrement 32 cache.gcCountdown }
  if cache.gcCountdown = 0 then threadCacheGcTick nodeOverloaded cache else cache

/-! ### Single slots -/

/-- The bin after `head` was unlinked; the counters of the controller are not touched. -/
def ThreadCache.unlink (cache : ThreadCache) (m : Mem) (cls head : ℕ) : ThreadCache :=
  { cache with
    binHeads := update cache.binHeads cls (load64 m head)
    binCount := update cache.binCount cls (decrement 16 (cache.binCount cls)) }

def threadCacheAlloc (nodeOverloaded : Bool) (cache : ThreadCache) (m : Mem) (cls : ℕ) :
    ℕ × ThreadCache :=
  if cls ≥ mediumFirstClass then (0, cache)
  else
    let head := cache.binHeads cls
    if head = 0 then (0, cache)
    else
      let cache := cache.unlink m cls head
      (head, tlcTickGc nodeOverloaded { cache with
        allocCountPerClass := update cache.allocCountPerClass cls
          (increment 16 (cache.allocCountPerClass cls)) })

/-- The answer says that the bin has overflowed. -/
def threadCacheFree (nodeOverloaded : Bool) (cache : ThreadCache) (m : Mem) (cls obj : ℕ) :
    Bool × ThreadCache × Mem :=
  if cls ≥ mediumFirstClass ∨ obj = 0 then (false, cache, m)
  else
    let m := store64 m obj (cache.binHeads cls)
    let cache := tlcTickGc nodeOverloaded { cache with
      binHeads := update cache.binHeads cls obj
      binCount := update cache.binCount cls (increment 16 (cache.binCount cls))
      freeCountPerClass := update cache.freeCountPerClass cls
        (increment 16 (cache.freeCountPerClass cls)) }
    (decide (cache.binCount cls ≥ cache.binCapacity cls), cache, m)

/-! ### Medium blocks -/

def mediumBinCaps : List ℕ := [4, 4, 2, 2, 1, 1]

def threadCacheMediumAlloc (cache : ThreadCache) (m : Mem) (cls : ℕ) : ℕ × ThreadCache :=
  if cls < mediumTlcFirstClass ∨ cls > mediumTlcLastClass then (0, cache)
  else
    let idx := cls - mediumTlcFirstClass
    let head := cache.mediumBinHeads idx
    if head = 0 then (0, cache)
    else (head, { cache with
      mediumBinHeads := update cache.mediumBinHeads idx (load64 m head)
      mediumBinCount := update cache.mediumBinCount idx
        (decrement 8 (cache.mediumBinCount idx)) })

/-- The answer says that the caller keeps the block. -/
def threadCacheMediumFree (cache : ThreadCache) (m : Mem) (cls obj : ℕ) :
    Bool × ThreadCache × Mem :=
  if obj = 0 then (true, cache, m)
  else if cls < mediumTlcFirstClass ∨ cls > mediumTlcLastClass then (true, cache, m)
  else
    let idx := cls - mediumTlcFirstClass
    if cache.mediumBinCount idx ≥ mediumBinCaps.getD idx 0 then (true, cache, m)
    else (false, { cache with
      mediumBinHeads := update cache.mediumBinHeads idx obj
      mediumBinCount := update cache.mediumBinCount idx
        (increment 8 (cache.mediumBinCount idx)) }, store64 m obj (cache.mediumBinHeads idx))

/-! ### Chains -/

/-- Appends up to `left` slots of the bin behind `batch.tail`. -/
def drainChainLoop (nodeOverloaded : Bool) (cls : ℕ) :
    ℕ → Batch → ThreadCache → Mem → Batch × ThreadCache × Mem
  | 0, batch, cache, m => (batch, cache, m)
  | left + 1, batch, cache, m =>
    let out := threadCacheAlloc nodeOverloaded cache m cls
    if out.1 = 0 then (batch, out.2, m)
    else drainChainLoop nodeOverloaded cls left ⟨batch.head, out.1, batch.count + 1⟩ out.2
      (store64 m batch.tail out.1)

def threadCacheDrainChain (nodeOverloaded : Bool) (cache : ThreadCache) (m : Mem)
    (cls count : ℕ) : Batch × ThreadCache × Mem :=
  if cls ≥ mediumFirstClass ∨ count = 0 then (⟨0, 0, 0⟩, cache, m)
  else
    let first := threadCacheAlloc nodeOverloaded cache m cls
    if first.1 = 0 then (⟨0, 0, 0⟩, first.2, m)
    else
      let out := drainChainLoop nodeOverloaded cls (count - 1) ⟨first.1, first.1, 1⟩ first.2 m
      (out.1, out.2.1, store64 out.2.2 out.1.tail 0)

def threadCacheInstallChain (cache : ThreadCache) (m : Mem) (cls : ℕ) (batch : Batch) :
    ThreadCache × Mem :=
  if batch.head = 0 ∨ batch.tail = 0 ∨ cls ≥ mediumFirstClass ∨ batch.count = 0 then (cache, m)
  else
    ({ cache with
      binHeads := update cache.binHeads cls batch.head
      binCount := update cache.binCount cls
        ((cache.binCount cls + batch.count) % 2 ^ 16) },
      store64 m batch.tail (cache.binHeads cls))

/-! ### Draining into the slab pool -/

def flushHalfLoop (uafActive : Bool) (arena cls : ℕ) :
    ℕ → ℕ → ThreadCache → Heap → ℕ × ThreadCache × Heap
  | 0, freed, cache, h => (freed, cache, h)
  | left + 1, freed, cache, h =>
    let obj := cache.binHeads cls
    if obj = 0 then (freed, cache, h)
    else
      flushHalfLoop uafActive arena cls left (freed + 1) (cache.unlink h.mem cls obj)
        (slabPoolFree uafActive h arena (ptrToMeta obj) obj).2

def threadCacheFlushHalf (uafActive : Bool) (cache : ThreadCache) (h : Heap) (arena cls : ℕ) :
    ℕ × ThreadCache × Heap :=
  if cls ≥ mediumFirstClass then (0, cache, h)
  else flushHalfLoop uafActive arena cls ((cache.binCount cls + 1) / 2 % 2 ^ 16) 0 cache h

/-- Every round lowers a count that is not zero, so a loop of `2 ^ 16` rounds never ends. -/
def drainBinLoop (uafActive : Bool) (arena cls : ℕ) :
    ℕ → ℕ → ThreadCache → Heap → Except Stop (ℕ × ThreadCache × Heap)
  | 0, total, cache, h => if cache.binHeads cls = 0 then .ok (total, cache, h) else .error .diverge
  | left + 1, total, cache, h =>
    if cache.binHeads cls = 0 then .ok (total, cache, h)
    else
      let out := threadCacheFlushHalf uafActive cache h arena cls
      drainBinLoop uafActive arena cls left (total + out.1) out.2.1 out.2.2

def threadCacheDrainAll (uafActive : Bool) (cache : ThreadCache) (h : Heap) (arena : ℕ) :
    Except Stop (ℕ × ThreadCache × Heap) :=
  (List.range mediumFirstClass).foldlM
    (fun out cls => drainBinLoop uafActive arena cls (2 ^ 16) out.1 out.2.1 out.2.2) (0, cache, h)

end V8Malloc
