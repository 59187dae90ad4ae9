import V8Malloc.Lib.PartitionPoint
import V8Malloc.SizeClass

/-!
# The region map of the page heap

`v8m_page_heap.c` keeps every mapped region in a bounded array sorted by start
address. Insertion and removal shift the array tail; the ownership queries
search for the last region that starts at or below the address. Every change
adds two to the sequence counter that readers use for validation.
-/
namespace V8Malloc.PageHeap

open PartitionPoint

def addressSpace : ℕ := 2 ^ 64
def regionMapCapacity : ℕ := 4096
def regionNodeUnbound : ℕ := 65535

structure RegionEntry where
  start : ℕ
  /-- Exclusive. -/
  end_ : ℕ
  node : ℕ
  isAnchor : Bool
  promotedAtTsc : ℕ
  deriving DecidableEq, Repr

/-- The array `g_regions` with its fill count and the seqlock counter. -/
structure RegionMap where
  regions : ℕ → RegionEntry
  regionCount : ℕ
  regionSeq : ℕ

def RegionMap.empty : RegionMap := ⟨fun _ => ⟨0, 0, 0, false, 0⟩, 0, 0⟩

def RegionMap.bumpSeq (T : RegionMap) : RegionMap :=
  { T with regionSeq := (T.regionSeq + 1) % 2 ^ 64 }

/-- `memmove` on array cells. -/
def memmove {α : Type*} (cells : ℕ → α) (dst src n : ℕ) : ℕ → α :=
  fun i => if dst ≤ i ∧ i < dst + n then cells (src + (i - dst)) else cells i

def regionLowerBound (T : RegionMap) (start : ℕ) : ℕ :=
  search (fun mid => decide ((T.regions mid).start < start)) T.regionCount

def regionFindByStart (T : RegionMap) (start : ℕ) : Option ℕ :=
  let idx := regionLowerBound T start
  if idx < T.regionCount ∧ (T.regions idx).start = start then some idx else none

def regionRegisterWithFlags (T : RegionMap) (ptr bytes : ℕ) (isAnchor : Bool) :
    ℤ × RegionMap :=
  if T.regionCount ≥ regionMapCapacity then (-1, T)
  else
    let T := T.bumpSeq
    let idx := regionLowerBound T ptr
    let shifted :=
      if idx < T.regionCount then memmove T.regions (idx + 1) idx (T.regionCount - idx)
      else T.regions
    let entry : RegionEntry :=
      ⟨ptr, (ptr + bytes) % addressSpace, regionNodeUnbound, isAnchor, 0⟩
    (0, ({ T with
      regions := Function.update shifted idx entry
      regionCount := T.regionCount + 1 } : RegionMap).bumpSeq)

/-- Returns the recorded node and anchor flag of the removed region. -/
def regionUnregisterWithFlags (T : RegionMap) (ptr : ℕ) : (ℕ × Bool) × RegionMap :=
  match regionFindByStart T ptr with
  | none => ((regionNodeUnbound, false), T)
  | some idx =>
    let T := T.bumpSeq
    let node := (T.regions idx).node
    let isAnchor := (T.regions idx).isAnchor
    let tail := T.regionCount - idx - 1
    let regions := if tail > 0 then memmove T.regions idx (idx + 1) tail else T.regions
    ((node, isAnchor),
      ({ T with regions := regions, regionCount := T.regionCount - 1 } : RegionMap).bumpSeq)

/-- The search shared by both ownership queries: how many regions start at or below `addr`. -/
def regionsAtOrBelow (T : RegionMap) (addr : ℕ) : ℕ :=
  search (fun mid => decide ((T.regions mid).start ≤ addr)) T.regionCount

def pageHeapOwns (T : RegionMap) (ptr : ℕ) : Bool :=
  if ptr = 0 then false
  else
    let low := regionsAtOrBelow T ptr
    if low > 0 then decide (ptr < (T.regions (low - 1)).end_) else false

/-- The thread-local cache `v8m_owns_cache_*`. -/
structure OwnsCache where
  pageBase : ℕ
  seq : ℕ
  result : ℤ
  deriving DecidableEq, Repr

def OwnsCache.zero : OwnsCache := ⟨0, 0, 0⟩

def pageBaseOf (addr : ℕ) : ℕ := addr / pageSize * pageSize

/-- The seqlock rounds. Calls run whole here, so both counter reads of a round see one map. -/
def ownsFastRounds (T : RegionMap) (cache : OwnsCache) (addr : ℕ) : ℕ → ℤ × OwnsCache
  | 0 => (-1, cache)
  | retries + 1 =>
    let seq1 := T.regionSeq
    if seq1 % 2 ≠ 0 then ownsFastRounds T cache addr retries
    else
      let count := T.regionCount
      let low := regionsAtOrBelow T addr
      let owned :=
        if low > 0 ∧ low ≤ count then
          decide (addr ≥ (T.regions (low - 1)).start ∧ addr < (T.regions (low - 1)).end_)
        else false
      let seq2 := T.regionSeq
      if seq1 = seq2 then
        let result : ℤ := if owned then 1 else 0
        (result, ⟨pageBaseOf addr, seq2, result⟩)
      else ownsFastRounds T cache addr retries

def pageHeapOwnsFast (T : RegionMap) (cache : OwnsCache) (ptr : ℕ) : ℤ × OwnsCache :=
  if ptr = 0 then (0, cache)
  else if pageBaseOf ptr = cache.pageBase ∧ T.regionSeq = cache.seq ∧ T.regionSeq % 2 = 0 then
    (cache.result, cache)
  else ownsFastRounds T cache ptr 4

end V8Malloc.PageHeap
