import V8Malloc.Dispatch.Model

/-!
# The public entry points

Embedding of the allocation entries of `v8m_api.c` with the two bump buffers.
Small requests and frees take an inlined way through the bins of the thread;
everything else goes through the soft-limit gate and the dispatcher. Before and
after its READY phase the library serves from the bootstrap buffer. With DEBUG
on, freed pointers are noted in a ring and looked up by the next free.

An installed OOM handler is not a case of its own: what it does lies between a
call that failed and a second one. The prediction table, the lifetime samples
and the operation counts leave the blocks alone and are not part of this state.
-/
namespace V8Malloc

open ByteMemory

def bootstrapSize : ℕ := pageSize * 4
def signalSafeSize : ℕ := pageSize
def bumpAlign : ℕ := 16
def doubleFreeRingSize : ℕ := 4096

/-! ### Bump buffers -/

structure Bump where
  buffer : ℕ
  size : ℕ
  align : ℕ
  offset : ℕ
  deriving DecidableEq, Repr

/-- The bytes a request takes; `align` is a power of two. -/
def Bump.step (bump : Bump) (request : ℕ) : ℕ :=
  let aligned := roundUpPow2 request bump.align
  if aligned = 0 then bump.align else aligned

/-- The offset moves on even when the request does not fit. -/
def bumpAlloc (bump : Bump) (request : ℕ) : ℕ × Bump :=
  if bump.buffer = 0 ∨ bump.align = 0 then (0, bump)
  else if request > bump.size then (0, bump)
  else
    let aligned := bump.step request
    let off := bump.offset
    let bump := { bump with offset := (off + aligned) % 2 ^ 64 }
    if off > bump.size ∨ aligned > bump.size - off then (0, bump) else (bump.buffer + off, bump)

def bumpOwns (bump : Bump) (ptr : ℕ) : Bool :=
  bump.buffer ≠ 0 && bump.buffer ≤ ptr && ptr < bump.buffer + bump.size

def bumpRemaining (bump : Bump) (ptr : ℕ) : ℕ :=
  if bumpOwns bump ptr then bump.buffer + bump.size - ptr else 0

/-! ### The state -/

/-- `g_init_state`. -/
inductive InitState where
  | none
  | running
  | ready
  | tornDown
  deriving DecidableEq, Repr

structure Api where
  sys : Sys
  initState : InitState
  debug : Bool
  softLimit : ℕ
  ring : ℕ → ℕ
  ringIdx : ℕ
  bootstrap : Bump
  signalSafe : Bump

/-- What one public call finds. The byte counts are those of the page heap, read once before
and once after a purge; `noise` stands for what an undefined copy leaves. -/
structure Env where
  call : Call
  /-- `v8m_t_cache` is set. -/
  peek : Bool
  /-- The lock-free ownership check has answered yes. -/
  ownsFast : Bool
  live : ℕ
  livePurged : ℕ
  noise : Mem

namespace Api

def setSys (a : Api) (s : Sys) : Api := { a with sys := s }

def setMem (a : Api) (m : Mem) : Api := a.setSys (a.sys.setMem m)

def dispatchReady (a : Api) : Bool := a.initState = .ready

/-- The options as the dispatcher reads them during the call. -/
def call (a : Api) (env : Env) : Call :=
  { env.call with debug := a.debug, softLimitActive := decide (a.softLimit ≠ 0) }

def fastPathOk (a : Api) (env : Env) : Bool := !a.debug && !env.call.lifetimeTracking

end Api

/-! ### The soft limit -/

def overSoftLimit (env : Env) (a : Api) (size : ℕ) : Bool × Api :=
  if a.softLimit = 0 then (false, a)
  else if (env.live + size) % 2 ^ 64 ≤ a.softLimit then (false, a)
  else (decide ((env.livePurged + size) % 2 ^ 64 > a.softLimit),
    a.setSys (dispatchPurgeDrained a.sys))

/-! ### The double-free ring -/

def ringHolds (ring : ℕ → ℕ) (ptr : ℕ) : Bool :=
  (List.range doubleFreeRingSize).any fun i => ring i = ptr

def debugCheckDoubleFree (a : Api) (ptr : ℕ) : Except Stop Api :=
  if ringHolds a.ring ptr then .error .abort
  else
    let slot := a.ringIdx % doubleFreeRingSize
    .ok { a with
      ring := Function.update a.ring slot ptr
      ringIdx := (a.ringIdx + 1) % 2 ^ 64 }

/-- Clears the first entry with the pointer. -/
def debugClearDoubleFreeRecord (a : Api) (ptr : ℕ) : Api :=
  if ptr = 0 then a
  else
    match (List.range doubleFreeRingSize).find? fun i => a.ring i = ptr with
    | none => a
    | some i => { a with ring := Function.update a.ring i 0 }

def postAllocRecord (a : Api) (ptr : ℕ) : Api :=
  if a.debug then debugClearDoubleFreeRecord a ptr else a

/-! ### Allocation -/

/-- An exhausted buffer aborts the process. -/
def bootstrapAlloc (a : Api) (size : ℕ) : Except Stop (ℕ × Api) :=
  let out := bumpAlloc a.bootstrap size
  if out.1 = 0 then .error .abort else .ok (out.1, { a with bootstrap := out.2 })

def signalSafeAlloc (a : Api) (size : ℕ) : ℕ × Api :=
  let out := bumpAlloc a.signalSafe size
  (out.1, { a with signalSafe := out.2 })

/-- The gate, the dispatcher and the record, around one way of asking the dispatcher. -/
def gatedAlloc (env : Env) (a : Api) (size : ℕ)
    (ask : Call → Sys → Except Stop (ℕ × Sys)) : Except Stop (ℕ × Api) :=
  let gate := overSoftLimit env a size
  if gate.1 then .ok (0, gate.2)
  else do
    let out ← ask (gate.2.call env) gate.2.sys
    let a := gate.2.setSys out.2
    pure (out.1, if out.1 = 0 then a else postAllocRecord a out.1)

def doMallocPc (env : Env) (a : Api) (size : ℕ) : Except Stop (ℕ × Api) :=
  if !a.dispatchReady then bootstrapAlloc a (if size > 0 then size else 1)
  else gatedAlloc env a size fun call s => dispatchAlloc call s size

def doAlignedAllocPc (env : Env) (a : Api) (alignment size : ℕ) : Except Stop (ℕ × Api) :=
  gatedAlloc env a size fun call s => dispatchAllocAligned call s size alignment

def v8mMalloc (env : Env) (a : Api) (size : ℕ) : Except Stop (ℕ × Api) :=
  if env.peek ∧ size ≤ smallMaxSize ∧ a.fastPathOk env then
    let cached := a.sys.cacheAlloc (a.call env) (sizeClass size)
    if cached.1 ≠ 0 then .ok (cached.1, a.setSys cached.2) else doMallocPc env a size
  else doMallocPc env a size

def v8mCalloc (env : Env) (a : Api) (nmemb size : ℕ) : Except Stop (ℕ × Api) :=
  if nmemb * size ≥ 2 ^ 64 then .ok (0, a)
  else do
    let out ← doMallocPc env a (nmemb * size)
    if out.1 ≠ 0 ∧ nmemb * size > 0 then
      pure (out.1, out.2.setMem (fill out.2.sys.heap.mem out.1 (nmemb * size) 0))
    else pure out

def isPow2 (value : ℕ) : Bool := value ≠ 0 && (value &&& (value - 1)) = 0

def v8mAlignedAlloc (env : Env) (a : Api) (alignment size : ℕ) : Except Stop (ℕ × Api) :=
  if !isPow2 alignment then .ok (0, a)
  else if !a.dispatchReady then
    if alignment ≤ 16 then bootstrapAlloc a (if size > 0 then size else 1) else .ok (0, a)
  else doAlignedAllocPc env a alignment size

/-! ### Free -/

/-- The class of the bin that the inlined free may push to: one more object must not fill it. -/
def freeFastClass (env : Env) (a : Api) (ptr : ℕ) : Option ℕ :=
  if env.peek ∧ env.ownsFast ∧ a.fastPathOk env then
    match a.sys.heap.headerAt (ptrToMeta ptr) with
    | some (.slab page) =>
      let cache := a.sys.caches env.call.thread
      if page.arenaId = arenaDefault ∧
          cache.binCount page.sizeClass + 1 < cache.binCapacity page.sizeClass then
        some page.sizeClass
      else none
    | _ => none
  else none

/-- A pointer of another allocator is never noted. -/
def noteFree (env : Env) (a : Api) (ptr : ℕ) : Except Stop Api :=
  if a.debug && env.call.owns ptr then debugCheckDoubleFree a ptr else .ok a

def v8mFreeSlow (env : Env) (a : Api) (ptr : ℕ) : Except Stop Api :=
  if ptr = 0 then .ok a
  else if bumpOwns a.bootstrap ptr then .ok a
  else if bumpOwns a.signalSafe ptr then .ok a
  else if !a.dispatchReady then .ok a
  else do
    let a ← noteFree env a ptr
    let s ← dispatchFree (a.call env) a.sys ptr
    pure (a.setSys s)

def v8mFree (env : Env) (a : Api) (ptr : ℕ) : Except Stop Api :=
  if ptr = 0 then .ok a
  else match freeFastClass env a ptr with
    | some cls => .ok (a.setSys (a.sys.cacheFree (a.call env) cls ptr).2)
    | none => v8mFreeSlow env a ptr

/-! ### Usable size and resizing -/

def v8mMallocUsableSize (a : Api) (ptr : ℕ) : ℕ :=
  if ptr = 0 then 0
  else if bumpOwns a.bootstrap ptr then 0
  else if !a.dispatchReady then 0
  else dispatchUsableSize a.sys.heap ptr

/-- `memcpy`, which says nothing about the destination when the ranges overlap. -/
def memcpy (noise m : Mem) (dst src n : ℕ) : Mem :=
  if dst + n ≤ src ∨ src + n ≤ dst then copy m dst src n
  else fun x => if dst ≤ x ∧ x < dst + n then noise x else m x

/-- The size the old block is taken to have. -/
def reallocOldUsable (a : Api) (ptr : ℕ) : ℕ :=
  if bumpOwns a.bootstrap ptr then bumpRemaining a.bootstrap ptr else v8mMallocUsableSize a ptr

/-- Whether the block is kept where it is. -/
def reallocInPlace (a : Api) (ptr size : ℕ) : Bool :=
  !bumpOwns a.bootstrap ptr && reallocOldUsable a ptr ≥ size

/-- Copies what both blocks have room for into the new block. -/
def reallocFill (env : Env) (a : Api) (oldUsable new ptr size : ℕ) : Api :=
  let copied := if oldUsable < size then oldUsable else size
  if copied > 0 then a.setMem (memcpy env.noise a.sys.heap.mem new ptr copied) else a

/-- The environments are those of the allocation and of the free inside the call. -/
def v8mRealloc (env envFree : Env) (a : Api) (ptr size : ℕ) : Except Stop (ℕ × Api) :=
  if ptr = 0 then doMallocPc env a size
  else if size = 0 then do
    let a ← v8mFree envFree a ptr
    pure (0, a)
  else if reallocInPlace a ptr size then .ok (ptr, a)
  else do
    let oldUsable := reallocOldUsable a ptr
    let out ← doMallocPc env a size
    if out.1 = 0 then pure out
    else
      let a ← v8mFree envFree (reallocFill env out.2 oldUsable out.1 ptr size) ptr
      pure (out.1, a)

end V8Malloc
