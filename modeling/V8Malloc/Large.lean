import V8Malloc.Heap.State

/-!
# Large and huge blocks

Embedding of `v8m_large.c`: one region of the page heap a block, a header at
the region's base and the user pointer at a fixed offset behind it. Freed
regions wait in a small recycle cache for a request of the same mapped size.
The answers of the page heap come as a function of the mapped size, `0` for a
failure. The dispatcher sees the heap of a call only.
-/
namespace V8Malloc

open ByteMemory

def sizeMax : ℕ := 2 ^ 64 - 1
def largeRedzoneByte : UInt8 := 0xCD
def largeRedzoneMaxBytes : ℕ := 64
def largeHugeTag : ℕ := 65535
def largeHugeAlign : ℕ := 2 * 1024 * 1024
def largeGiganticAlign : ℕ := 1024 * 1024 * 1024
def largeCacheCap : ℕ := 8

/-- Subtraction of `size_t` values. -/
def sub64 (a b : ℕ) : ℕ := (a + 2 ^ 64 - b) % 2 ^ 64

/-- Masking off the low bits of the wrapped sum; `multiple` is a power of two. -/
def roundUpPow2 (value multiple : ℕ) : ℕ := (value + multiple - 1) % 2 ^ 64 / multiple * multiple

/-! ### The red zone -/

def largeRedzoneSpan (block : LargeMeta) (headerOffset : ℕ) : ℕ :=
  let accessible := sub64 (sub64 block.mmapSize headerOffset) block.guardBytes
  if block.requestedSize ≥ accessible then 0
  else min (accessible - block.requestedSize) largeRedzoneMaxBytes

def largeFillRedzone (m : Mem) (userPtr : ℕ) (block : LargeMeta) (headerOffset : ℕ) : Mem :=
  fill m (userPtr + block.requestedSize) (largeRedzoneSpan block headerOffset) largeRedzoneByte

def largeCheckRedzone (m : Mem) (userPtr : ℕ) (block : LargeMeta) (headerOffset : ℕ) :
    Except Stop Unit :=
  if allBytes m (userPtr + block.requestedSize) (largeRedzoneSpan block headerOffset)
      largeRedzoneByte then .ok ()
  else .error .abort

/-! ### The recycle cache -/

/-- The first region of the size; the last entry moves into its place. -/
def largeCacheTake (cache : List (ℕ × ℕ)) (mmapSize : ℕ) : ℕ × List (ℕ × ℕ) :=
  match cache.findIdx? fun entry => entry.2 == mmapSize with
  | none => (0, cache)
  | some i => ((cache.getD i (0, 0)).1, (cache.set i (cache.getLastD (0, 0))).dropLast)

/-- The evicted entry, if the cache was full, and the new cache. -/
def largeCachePut (cache : List (ℕ × ℕ)) (region mmapSize : ℕ) :
    Option (ℕ × ℕ) × List (ℕ × ℕ) :=
  if cache.length = largeCacheCap then (cache.head?, cache.tail ++ [(region, mmapSize)])
  else (none, cache ++ [(region, mmapSize)])

/-! ### One region a block -/

/-- The options and the answer of `mprotect` that the large path reads. -/
structure LargeOptions where
  debug : Bool
  hugePages : Bool
  mprotectOk : Bool
  deriving DecidableEq, Repr

def largeSizeClassTag (size : ℕ) : ℕ :=
  if sizeClass size = classHuge then largeHugeTag else sizeClass size

/-- The mapped size and the guard bytes; `none` when a sum would pass `SIZE_MAX`. -/
def largeMapping (debug : Bool) (size headerOffset pheapAlignment : ℕ) : Option (ℕ × ℕ) :=
  if size > sizeMax - headerOffset - pheapAlignment then none
  else
    let mmapSize := roundUpPow2 (headerOffset + size) pheapAlignment
    if debug then
      if mmapSize > sizeMax - pageSize then none
      else some (mmapSize + pageSize, pageSize)
    else some (mmapSize, 0)

/-- Writes the header of a region and the red zone behind the request. -/
def largeInstall (debug : Bool) (h : Heap) (size headerOffset region mmapSize guardBytes : ℕ) :
    ℕ × Heap :=
  let block : LargeMeta :=
    ⟨largeSizeClassTag size, mmapSize, guardBytes, if debug then size else 0⟩
  (region + headerOffset, { h with
    heads := Function.update h.heads region (some (.large block))
    mem := if debug then largeFillRedzone h.mem (region + headerOffset) block headerOffset
      else h.mem })

def largePheapAlignment (hugePages : Bool) (size : ℕ) : ℕ :=
  if hugePages then
    if size ≥ largeGiganticAlign then largeGiganticAlign
    else if size > largeMaxSize then largeHugeAlign
    else pageSize
  else pageSize

/-- The user pointer's offset from its page base. -/
def largeHeaderOffset (obj : ℕ) : ℕ := obj % pageSize

def largeUsableSize (h : Heap) (obj : ℕ) : ℕ :=
  if obj = 0 then 0
  else
    let block := h.largeAt (ptrToMeta obj)
    sub64 (sub64 block.mmapSize (largeHeaderOffset obj)) block.guardBytes

/-! ### The state of the large path -/

/-- The calls of the page heap are logged with base and size, the newest first. -/
structure LargeState where
  heap : Heap
  largeBytesInUse : ℕ
  hugeBytesInUse : ℕ
  obtained : List (ℕ × ℕ)
  returned : List (ℕ × ℕ)

namespace LargeState

def setCache (s : LargeState) (cache : List (ℕ × ℕ)) : LargeState :=
  { s with heap := { s.heap with largeCache := cache } }

/-- `v8m_page_heap_free` -/
def giveBack (s : LargeState) (region : ℕ × ℕ) : LargeState :=
  { s with returned := region :: s.returned }

def countAlloc (s : LargeState) (huge : Bool) (mmapSize : ℕ) : LargeState :=
  if huge then { s with hugeBytesInUse := (s.hugeBytesInUse + mmapSize) % 2 ^ 64 }
  else { s with largeBytesInUse := (s.largeBytesInUse + mmapSize) % 2 ^ 64 }

def countFree (s : LargeState) (huge : Bool) (mmapSize : ℕ) : LargeState :=
  if huge then { s with hugeBytesInUse := sub64 s.hugeBytesInUse mmapSize }
  else { s with largeBytesInUse := sub64 s.largeBytesInUse mmapSize }

/-- `large_alloc_with_offset` -/
def allocWithOffset (opts : LargeOptions) (s : LargeState)
    (size headerOffset pheapAlignment : ℕ) (pheapAlloc : ℕ → ℕ) : ℕ × LargeState :=
  match largeMapping opts.debug size headerOffset pheapAlignment with
  | none => (0, s)
  | some (mmapSize, guardBytes) =>
    let taken :=
      if opts.debug then (0, s.heap.largeCache) else largeCacheTake s.heap.largeCache mmapSize
    let s := s.setCache taken.2
    let region := if taken.1 = 0 then pheapAlloc mmapSize else taken.1
    if region = 0 then (0, s)
    else
      let s := if taken.1 = 0 then { s with obtained := (region, mmapSize) :: s.obtained } else s
      if opts.debug && !opts.mprotectOk then (0, s.giveBack (region, mmapSize))
      else
        let out := largeInstall opts.debug s.heap size headerOffset region mmapSize guardBytes
        (out.1, { s with heap := out.2 }.countAlloc (sizeClass size = classHuge) mmapSize)

/-- `v8m_large_alloc` -/
def alloc (opts : LargeOptions) (s : LargeState) (size : ℕ) (pheapAlloc : ℕ → ℕ) :
    ℕ × LargeState :=
  if size = 0 then (0, s)
  else allocWithOffset opts s size slabHeaderSize (largePheapAlignment opts.hugePages size)
    pheapAlloc

/-- `v8m_large_alloc_aligned` -/
def allocAligned (opts : LargeOptions) (s : LargeState) (size alignment : ℕ)
    (pheapAlloc : ℕ → ℕ) : ℕ × LargeState :=
  if size = 0 then (0, s)
  else if alignment = 0 ∨ alignment ≤ slabHeaderSize then
    allocWithOffset opts s size slabHeaderSize pageSize pheapAlloc
  else if alignment ≥ pageSize then (0, s)
  else allocWithOffset opts s size alignment pageSize pheapAlloc

/-- The region goes to the cache; an evicted one goes back to the page heap. -/
def cachePut (s : LargeState) (region mmapSize : ℕ) : LargeState :=
  let out := largeCachePut s.heap.largeCache region mmapSize
  let s := s.setCache out.2
  match out.1 with
  | none => s
  | some evicted => s.giveBack evicted

/-- `v8m_large_free` -/
def free (s : LargeState) (obj : ℕ) : Except Stop LargeState :=
  if obj = 0 then .ok s
  else
    let base := ptrToMeta obj
    let block := s.heap.largeAt base
    do
      if block.guardBytes ≠ 0 then
        largeCheckRedzone s.heap.mem obj block (largeHeaderOffset obj)
      let s := { s with heap := { s.heap with
        heads := Function.update s.heap.heads base none, mem := store64 s.heap.mem base 0 } }
      let s := s.countFree (block.sizeClass = largeHugeTag) block.mmapSize
      if block.guardBytes = 0 then pure (s.cachePut base block.mmapSize)
      else pure (s.giveBack (base, block.mmapSize))

/-- `v8m_large_cache_drain`: the number of regions and the state. -/
def cacheDrain (s : LargeState) : ℕ × LargeState :=
  (s.heap.largeCache.length, s.heap.largeCache.foldl giveBack (s.setCache []))

end LargeState

/-! ### The heap alone -/

/-- Neither the counters nor the log decide what a call answers. -/
def LargeState.of (h : Heap) : LargeState := ⟨h, 0, 0, [], []⟩

/-- What the dispatcher sees of a call. -/
def LargeState.onHeap (out : ℕ × LargeState) : ℕ × Heap := (out.1, out.2.heap)

def largeAllocWithOffset (opts : LargeOptions) (h : Heap)
    (size headerOffset pheapAlignment : ℕ) (pheapAlloc : ℕ → ℕ) : ℕ × Heap :=
  LargeState.onHeap
    ((LargeState.of h).allocWithOffset opts size headerOffset pheapAlignment pheapAlloc)

def largeAlloc (opts : LargeOptions) (h : Heap) (size : ℕ) (pheapAlloc : ℕ → ℕ) : ℕ × Heap :=
  LargeState.onHeap ((LargeState.of h).alloc opts size pheapAlloc)

def largeAllocAligned (opts : LargeOptions) (h : Heap) (size alignment : ℕ)
    (pheapAlloc : ℕ → ℕ) : ℕ × Heap :=
  LargeState.onHeap ((LargeState.of h).allocAligned opts size alignment pheapAlloc)

def largeFree (h : Heap) (obj : ℕ) : Except Stop Heap :=
  LargeState.heap <$> (LargeState.of h).free obj

end V8Malloc
