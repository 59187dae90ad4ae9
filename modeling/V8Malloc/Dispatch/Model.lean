import V8Malloc.Cache.Core
import V8Malloc.Cache.Thread
import V8Malloc.Large

/-!
# The dispatcher

Embedding of `v8m_dispatch.c`. A request goes by its class to the thread cache
and the slab pools, to the medium bins and the buddy pool, or to the large
path; a free finds its way back by the header at the page base. A call carries
the calling thread, the options in force and the answers of the system.
-/
namespace V8Malloc

open ByteMemory

def dispatchL2Batch : ℕ := 32
def mallocNaturalAlign : ℕ := 16

inductive LifetimeClass where
  | unknown
  | ephemeral
  | short
  | long
  deriving DecidableEq, Repr

/-- `enum v8m_arena_id`. -/
def LifetimeClass.arena : LifetimeClass → ℕ
  | .unknown => arenaDefault
  | .ephemeral => 1
  | .short => 2
  | .long => 3

/-- What one call finds: the caller, the options, and what the rest of the system answers. -/
structure Call where
  thread : ℕ
  useTlc : Bool
  /-- `v8m_thread_cache_get_or_create` has a cache for the thread. -/
  cacheReady : Bool
  lifetimeTracking : Bool
  lifetime : LifetimeClass
  softLimitActive : Bool
  uafActive : Bool
  debug : Bool
  deferredCoalesce : Bool
  hugePages : Bool
  mprotectOk : Bool
  nodeOverloaded : Bool
  tsc : ℕ
  ticksPerMicro : ℕ
  /-- The CPU as read before a refill, for its stacks, after a push, and for a new page. -/
  currentCpu : ℕ
  stackCpu : ℕ
  pushCpu : ℕ
  ownerCpu : ℕ
  /-- Pages for the slab pools, an arena for the buddy pool, regions by their size. -/
  pages : List ℕ
  arena : ℕ
  regions : ℕ → ℕ
  owns : ℕ → Bool

namespace Call

def poolOptions (call : Call) : PoolOptions := ⟨call.uafActive, call.debug, call.deferredCoalesce⟩

def largeOptions (call : Call) : LargeOptions := ⟨call.debug, call.hugePages, call.mprotectOk⟩

def arenaForCaller (call : Call) : ℕ :=
  if !call.useTlc || !call.lifetimeTracking then arenaDefault else call.lifetime.arena

end Call

/-- The dispatcher with the caches of all threads and CPUs. -/
structure Sys where
  heap : Heap
  caches : ℕ → ThreadCache
  core : CoreCaches
  refill : RefillController

namespace Sys

def setMem (s : Sys) (m : Mem) : Sys := { s with heap := { s.heap with mem := m } }

def setCache (s : Sys) (thread : ℕ) (cache : ThreadCache) : Sys :=
  { s with caches := Function.update s.caches thread cache }

/-- Calls on the cache of the calling thread. -/
def cacheAlloc (s : Sys) (call : Call) (cls : ℕ) : ℕ × Sys :=
  let out := threadCacheAlloc call.nodeOverloaded (s.caches call.thread) s.heap.mem cls
  (out.1, s.setCache call.thread out.2)

def cacheFree (s : Sys) (call : Call) (cls obj : ℕ) : Bool × Sys :=
  let out := threadCacheFree call.nodeOverloaded (s.caches call.thread) s.heap.mem cls obj
  (out.1, (s.setMem out.2.2).setCache call.thread out.2.1)

def mediumAlloc (s : Sys) (call : Call) (cls : ℕ) : ℕ × Sys :=
  let out := threadCacheMediumAlloc (s.caches call.thread) s.heap.mem cls
  (out.1, s.setCache call.thread out.2)

def mediumFree (s : Sys) (call : Call) (cls obj : ℕ) : Bool × Sys :=
  let out := threadCacheMediumFree (s.caches call.thread) s.heap.mem cls obj
  (out.1, (s.setMem out.2.2).setCache call.thread out.2.1)

def installChain (s : Sys) (call : Call) (cls : ℕ) (batch : Batch) : Sys :=
  let out := threadCacheInstallChain (s.caches call.thread) s.heap.mem cls batch
  (s.setMem out.2).setCache call.thread out.1

def drainChain (s : Sys) (call : Call) (cls count : ℕ) : Batch × Sys :=
  let out := threadCacheDrainChain call.nodeOverloaded (s.caches call.thread) s.heap.mem cls count
  (out.1, (s.setMem out.2.2).setCache call.thread out.2.1)

def flushHalf (s : Sys) (call : Call) (cls : ℕ) : Sys :=
  let out := threadCacheFlushHalf call.uafActive (s.caches call.thread) s.heap arenaDefault cls
  { s with heap := out.2.2 }.setCache call.thread out.2.1

def computeBatch (s : Sys) (call : Call) (cls : ℕ) : ℕ × Sys :=
  let out := refillControllerComputeBatch call.tsc call.ticksPerMicro s.refill cls 1
  (out.1, { s with refill := out.2 })

def popBatch (s : Sys) (cpu cls max : ℕ) : Batch × Sys :=
  let out := coreCachePopBatch s.core s.heap.mem cpu cls max
  (out.1, { s with core := out.2.1 }.setMem out.2.2)

def stealBatch (s : Sys) (call : Call) (cls max : ℕ) : Batch × Sys :=
  let out := coreCacheStealBatch s.core s.heap.mem cls call.currentCpu max
  (out.1, { s with core := out.2.1 }.setMem out.2.2)

def pushBatch (s : Sys) (call : Call) (cpu cls : ℕ) (batch : Batch) : Sys :=
  let out := coreCachePushBatch s.core s.heap.mem call.thread call.pushCpu cpu cls batch.head
    batch.tail
  { s with core := out.1 }.setMem out.2

def slabFree (s : Sys) (call : Call) (arena obj : ℕ) : Sys :=
  { s with heap := (slabPoolFree call.uafActive s.heap arena (ptrToMeta obj) obj).2 }

end Sys

/-! ### Refill and overflow -/

/-- A chain from the stack of this CPU. -/
def popOwnBatch (call : Call) (s : Sys) (cls max : ℕ) : Batch × Sys :=
  match coreCacheForCpu call.stackCpu with
  | some cpu => s.popBatch cpu cls max
  | none => (⟨0, 0, 0⟩, s)

/-- The chain for an empty bin: from the stack of this CPU, from a donor, or from the pool. -/
def refillChain (call : Call) (s : Sys) (cls max : ℕ) : Except Stop (Batch × Sys × List ℕ) :=
  let own := popOwnBatch call s cls max
  if own.1.count ≠ 0 then .ok (own.1, own.2, call.pages)
  else
    let stolen := own.2.stealBatch call cls max
    if stolen.1.count ≠ 0 then .ok (stolen.1, stolen.2, call.pages)
    else do
      let out ← slabPoolAllocBatch call.uafActive call.ownerCpu stolen.2.heap arenaDefault cls max
        call.pages
      pure (out.1, { stolen.2 with heap := out.2.1 }, out.2.2)

/-- The queue of remote frees is always empty in this version, so its drain is left out. -/
def tryTlcFastPaths (call : Call) (s : Sys) (cls : ℕ) : Except Stop (ℕ × Sys × List ℕ) :=
  if !call.cacheReady then .ok (0, s, call.pages)
  else
    let cached := s.cacheAlloc call cls
    if cached.1 ≠ 0 then .ok (cached.1, cached.2, call.pages)
    else do
      let batch := cached.2.computeBatch call cls
      let out ← refillChain call batch.2 cls batch.1
      if out.1.count = 0 then pure (0, out.2.1, out.2.2)
      else
        let served := (out.2.1.installChain call cls out.1).cacheAlloc call cls
        pure (served.1, served.2, out.2.2)

/-- Frees the nodes of a chain whose page header is valid; a chain has at most `left` of them. -/
def freeChain (call : Call) : ℕ → Sys → ℕ → Except Stop Sys
  | 0, s, node => if node = 0 then .ok s else .error .diverge
  | left + 1, s, node =>
    if node = 0 then .ok s
    else
      let next := load64 s.heap.mem node
      if (s.heap.headerAt (ptrToMeta node)).isSome then
        freeChain call left (s.slabFree call arenaDefault node) next
      else freeChain call left s next

/-- The stack that takes an overflow: of the CPU that set up the page of the chain's head, or of
the current one. -/
def overflowStack (call : Call) (h : Heap) (node : ℕ) : Option ℕ :=
  let page := ptrToMeta node
  let owner :=
    if (h.headerAt page).isSome ∧ (h.pageAt page).ownerCpu ≠ 2 ^ 32 - 1 then
      coreCacheForCpu (h.pageAt page).ownerCpu
    else none
  owner.orElse fun _ => coreCacheForCpu call.stackCpu

def slabOverflowToL2OrSlab (call : Call) (s : Sys) (cls : ℕ) : Except Stop Sys :=
  let batch := s.computeBatch call cls
  let drained := batch.2.drainChain call cls batch.1
  if drained.1.count = 0 then .ok (drained.2.flushHalf call cls)
  else
    match overflowStack call drained.2.heap drained.1.head with
    | some cpu => .ok (drained.2.pushBatch call cpu cls drained.1)
    | none => freeChain call drained.1.count drained.2 drained.1.head

/-! ### Allocation -/

/-- The thread cache answers if the dispatcher opted in. -/
def serveFromTlc (call : Call) (s : Sys) (cls : ℕ) : Except Stop (ℕ × Sys × List ℕ) :=
  if call.useTlc then tryTlcFastPaths call s cls else .ok (0, s, call.pages)

def dispatchAlloc (call : Call) (s : Sys) (size : ℕ) : Except Stop (ℕ × Sys) :=
  let size := size + if size = 0 then 1 else 0
  let cls := sizeClass size
  if cls < mediumFirstClass then
    let arena := call.arenaForCaller
    if arena = arenaDefault then do
      let served ← serveFromTlc call s cls
      if served.1 ≠ 0 then pure (served.1, served.2.1)
      else
        let out ← slabPoolAlloc call.uafActive call.ownerCpu served.2.1.heap cls served.2.2
        pure (out.1, { served.2.1 with heap := out.2.1 })
    else do
      let out ← slabPoolAllocArena call.uafActive call.ownerCpu s.heap arena cls call.pages
      pure (out.1, { s with heap := out.2.1 })
  else if size ≤ buddyMaxBlock then
    let cached := if call.useTlc && call.cacheReady then s.mediumAlloc call cls else (0, s)
    if cached.1 ≠ 0 then .ok cached
    else do
      let out ← buddyPoolAlloc call.poolOptions call.arena cached.2.heap.buddyPool size
      pure (out.1, { cached.2 with heap := cached.2.heap.setBuddy out.2 })
  else
    let out := largeAlloc call.largeOptions s.heap size call.regions
    .ok (out.1, { s with heap := out.2 })

/-- The first of the `left` classes from `cls` on whose size is a multiple of the alignment. -/
def alignedClass (alignment : ℕ) : ℕ → ℕ → Option ℕ
  | 0, _ => none
  | left + 1, cls =>
    if sizeClassSize cls &&& (alignment - 1) = 0 then some cls
    else alignedClass alignment left (cls + 1)

/-- The slab class of an over-aligned request, if one serves it. -/
def alignedSlabClass (effective alignment : ℕ) : Option ℕ :=
  if alignment ≤ slabHeaderSize ∧ effective ≤ smallMaxSize then
    alignedClass alignment (mediumFirstClass - sizeClass effective) (sizeClass effective)
  else none

def dispatchAllocAligned (call : Call) (s : Sys) (size alignment : ℕ) :
    Except Stop (ℕ × Sys) :=
  let size := size + if size = 0 then 1 else 0
  if alignment ≤ mallocNaturalAlign then dispatchAlloc call s size
  else if alignment > buddyMaxBlock then .ok (0, s)
  else
    let effective := if size > alignment then size else alignment
    match alignedSlabClass effective alignment with
    | some cls => do
      let out ← slabPoolAlloc call.uafActive call.ownerCpu s.heap cls call.pages
      pure (out.1, { s with heap := out.2.1 })
    | none =>
      if effective ≤ buddyMaxBlock then do
        let out ← buddyPoolAlloc call.poolOptions call.arena s.heap.buddyPool effective
        pure (out.1, { s with heap := s.heap.setBuddy out.2 })
      else
        let out := largeAllocAligned call.largeOptions s.heap size alignment call.regions
        .ok (out.1, { s with heap := out.2 })

/-! ### Free -/

/-- Where a free goes. -/
inductive Route where
  | none
  | foreign
  | slab (page : PageMeta)
  | large
  | buddy

def freeRoute (call : Call) (h : Heap) (ptr : ℕ) : Route :=
  if ptr = 0 then .none
  else if !call.owns ptr then .foreign
  else match h.headerAt (ptrToMeta ptr) with
    | some (.slab page) => .slab page
    | some (.large _) => .large
    | Option.none => .buddy

def slabPoolForArena (arena : ℕ) : ℕ :=
  if arena = arenaDefault ∨ arena ≥ arenaCount then arenaDefault else arena

def freeSlab (call : Call) (s : Sys) (page : PageMeta) (ptr : ℕ) : Except Stop Sys :=
  if call.useTlc ∧ page.arenaId = arenaDefault ∧ call.cacheReady then
    let out := s.cacheFree call page.sizeClass ptr
    if out.1 then slabOverflowToL2OrSlab call out.2 page.sizeClass else .ok out.2
  else .ok (s.slabFree call (slabPoolForArena page.arenaId) ptr)

/-- The class of a medium bin that may take the block. -/
def mediumBinClass (call : Call) (s : Sys) (ptr : ℕ) : Option ℕ :=
  let blk := buddyPoolBlockSize s.heap.buddyPool ptr
  let cls := sizeClass blk
  if call.useTlc ∧ ¬call.softLimitActive ∧ call.cacheReady ∧ blk ≠ 0 ∧
      cls ≥ mediumTlcFirstClass ∧ cls ≤ mediumTlcLastClass then some cls
  else none

def freeBuddy (call : Call) (s : Sys) (ptr : ℕ) : Sys :=
  let out := match mediumBinClass call s ptr with
    | some cls => s.mediumFree call cls ptr
    | none => (true, s)
  if out.1 then
    let p := (buddyPoolFree call.poolOptions out.2.heap.buddyPool ptr).2
    { out.2 with heap := out.2.heap.setBuddy p }
  else out.2

/-- A pointer that is not ours goes to the C library, which does not touch this state. -/
def dispatchFree (call : Call) (s : Sys) (ptr : ℕ) : Except Stop Sys :=
  match freeRoute call s.heap ptr with
  | .none => .ok s
  | .foreign => .ok s
  | .slab page => freeSlab call s page ptr
  | .large => do
    let h ← largeFree s.heap ptr
    pure { s with heap := h }
  | .buddy => .ok (freeBuddy call s ptr)

def dispatchUsableSize (h : Heap) (ptr : ℕ) : ℕ :=
  if ptr = 0 then 0
  else match h.headerAt (ptrToMeta ptr) with
    | some (.slab page) => page.objectSize
    | some (.large _) => largeUsableSize h ptr
    | none => buddyPoolBlockSize h.buddyPool ptr

/-! ### Drains -/

def dispatchDrainAll (call : Call) (s : Sys) : Except Stop (ℕ × Sys) := do
  let out ← threadCacheDrainAll call.uafActive (s.caches call.thread) s.heap arenaDefault
  pure (out.1, { s with heap := out.2.2 }.setCache call.thread out.2.1)

/-- Frees `left` nodes of a chain, reading each link first. -/
def freeStackNodes (call : Call) : ℕ → Sys → ℕ → Sys
  | 0, s, _ => s
  | left + 1, s, node =>
    let next := load64 s.heap.mem node
    freeStackNodes call left (s.slabFree call arenaDefault node) next

/-- Every round takes a node off the stack, and a stack has fewer nodes than there are
addresses. -/
def drainStackLoop (call : Call) (cpu cls : ℕ) : ℕ → ℕ → Sys → Except Stop (ℕ × Sys)
  | 0, _, _ => .error .diverge
  | left + 1, total, s =>
    let out := s.popBatch cpu cls dispatchL2Batch
    if out.1.count = 0 then .ok (total, out.2)
    else drainStackLoop call cpu cls left (total + out.1.count)
      (freeStackNodes call out.1.count out.2 out.1.head)

def dispatchDrainLocalL2 (call : Call) (s : Sys) : Except Stop (ℕ × Sys) :=
  match coreCacheForCpu call.stackCpu with
  | none => .ok (0, s)
  | some cpu => (List.range mediumFirstClass).foldlM
      (fun out cls => drainStackLoop call cpu cls (2 ^ tagptrPtrBits + 1) out.1 out.2) (0, s)

/-- Frees the medium blocks linked from `head`; a list has fewer than there are addresses. -/
def freeMediumChain (opts : PoolOptions) : ℕ → ℕ → Heap → ℕ → Except Stop (ℕ × Heap)
  | 0, _, _, _ => .error .diverge
  | left + 1, total, h, head =>
    if head = 0 then .ok (total, h)
    else
      let next := load64 h.mem head
      freeMediumChain opts left (total + 1) (h.setBuddy (buddyPoolFree opts h.buddyPool head).2) next

def ThreadCache.clearMedium (cache : ThreadCache) (idx : ℕ) : ThreadCache :=
  { cache with
    mediumBinHeads := Function.update cache.mediumBinHeads idx 0
    mediumBinCount := Function.update cache.mediumBinCount idx 0 }

def threadCacheDrainMedium (opts : PoolOptions) (cache : ThreadCache) (h : Heap) :
    Except Stop (ℕ × ThreadCache × Heap) :=
  (List.range mediumBinCaps.length).foldlM (fun out idx => do
    let freed ← freeMediumChain opts (2 ^ tagptrPtrBits + 1) out.1 out.2.2
      (out.2.1.mediumBinHeads idx)
    pure (freed.1, out.2.1.clearMedium idx, freed.2)) (0, cache, h)

def dispatchDrainMedium (call : Call) (s : Sys) : Except Stop (ℕ × Sys) := do
  let out ← threadCacheDrainMedium call.poolOptions (s.caches call.thread) s.heap
  pure (out.1, { s with heap := out.2.2 }.setCache call.thread out.2.1)

/-! ### Background work -/

def dispatchBuddyIdleTicks : ℕ := 4
def dispatchSlabIdleTicks : ℕ := 4

def slabPoolsSweepIdle (h : Heap) (maxIdleTicks : ℕ) : Heap :=
  (List.range arenaCount).foldl (fun h arena => slabPoolSweepIdle h arena maxIdleTicks) h

/-- The rebalancing of the nodes and the huge page sweep do not touch this state. -/
def dispatchBgTick (s : Sys) : Sys :=
  let h := s.heap.setBuddy (buddyPoolSweepIdle s.heap.buddyPool dispatchBuddyIdleTicks)
  { s with heap := slabPoolsSweepIdle h dispatchSlabIdleTicks }

def dispatchPurgeDrained (s : Sys) : Sys :=
  let h := s.heap.setBuddy (buddyPoolSweepIdle s.heap.buddyPool 0)
  { s with heap := { slabPoolsSweepIdle h 0 with largeCache := [] } }

end V8Malloc
