import V8Malloc.Heap.State

/-!
# The slab pool

Embedding of `v8m_slab_pool.c`. A request is served from the current page of
its class, then from a partial page, then from a fresh one; a page that empties
is parked or given back. The pages that the page heap or the NUMA pool would
hand out come in as a list, with `0` for a failed request.
-/
namespace V8Malloc

open ByteMemory

def partialsScanBudget : ℕ := 4

/-! ### Sources of pages -/

/-- A parked page if there is one, else the next answer of the page source. -/
def acquireSlabPage (h : Heap) (arena : ℕ) (src : List ℕ) : ℕ × Heap × List ℕ :=
  match (h.pools arena).drained with
  | [] => (src.headD 0, h, src.tail)
  | (page, _) :: rest => (page, h.setDrained arena rest, src)

/-- Parks the page when there is room; otherwise its source gets it back. -/
def releaseSlabPage (h : Heap) (arena page : ℕ) : Heap :=
  let h := { h with heads := Function.update h.heads page none }
  let drained := (h.pools arena).drained
  if drained.length < slabDrainedCap then
    { h with mem := adviseDontNeed h.mem page pageSize }.setDrained arena ((page, 0) :: drained)
  else h

def drainedTick (maxIdleTicks : ℕ) (entry : ℕ × ℕ) : Option (ℕ × ℕ) :=
  let ticks := if entry.2 < idleTicksMax then entry.2 + 1 else entry.2
  if ticks ≥ maxIdleTicks then none else some (entry.1, ticks)

def slabPoolSweepIdle (h : Heap) (arena maxIdleTicks : ℕ) : Heap :=
  h.setDrained arena ((h.pools arena).drained.filterMap (drainedTick maxIdleTicks))

/-! ### Allocation -/

def tryCurrent (uafActive : Bool) (h : Heap) (arena cls : ℕ) : Except Stop (ℕ × Heap) :=
  let slab := h.slabClass arena cls
  if slab.current = 0 then .ok (0, h)
  else do
    let out ← slabAllocDispatch uafActive h.mem slab.current (h.pageAt slab.current)
    let h := h.setPage slab.current out.2.1 out.2.2
    if out.1 = 0 then pure (0, h.setClass arena cls { slab with current := 0 })
    else pure (out.1, h)

/-- Position of the fullest page, the last one among equals; `i` counts the links passed. -/
def bestLink (used : ℕ → ℕ) : List ℕ → ℕ → ℕ → ℕ → ℕ
  | [], _, best, _ => best
  | page :: rest, i, best, bestUsed =>
    if used page ≥ bestUsed then bestLink used rest (i + 1) i (used page)
    else bestLink used rest (i + 1) best bestUsed

def bestPartial (h : Heap) (partials : List ℕ) : ℕ :=
  bestLink (fun page => (h.pageAt page).usedCount) (partials.take partialsScanBudget) 0 0 0

/-- The loop over the partial pages; every round takes one of the `left` pages off the list. -/
def tryPartials (uafActive : Bool) (arena cls : ℕ) : ℕ → Heap → Except Stop (ℕ × Heap)
  | 0, h => .ok (0, h)
  | left + 1, h => do
    let partials := (h.slabClass arena cls).partials
    let best := bestPartial h partials
    let page := partials.getD best 0
    let rest := partials.eraseIdx best
    let out ← slabAllocDispatch uafActive h.mem page (h.pageAt page)
    let h := (h.setClass arena cls ⟨page, rest⟩).setPage page out.2.1 out.2.2
    if out.1 ≠ 0 then pure (out.1, h)
    else tryPartials uafActive arena cls left (h.setClass arena cls ⟨0, rest⟩)

def acquireFreshPage (uafActive : Bool) (cpu : ℕ) (h : Heap) (arena cls : ℕ) (src : List ℕ) :
    Except Stop (ℕ × Heap × List ℕ) :=
  let (page, h, src) := acquireSlabPage h arena src
  if page = 0 then .ok (0, h, src)
  else do
    let fresh := slabInitDispatch uafActive cpu h.mem page cls
    let fresh := ({ fresh.1 with arenaId := arena }, fresh.2)
    let h := h.setClass arena cls { h.slabClass arena cls with current := page }
    let out ← slabAllocDispatch uafActive fresh.2 page fresh.1
    pure (out.1, { h with
      heads := Function.update h.heads page (some (.slab out.2.1)), mem := out.2.2 }, src)

/-- The three sources of an object, in order. -/
def slabPoolDraw (uafActive : Bool) (cpu : ℕ) (h : Heap) (arena cls : ℕ) (src : List ℕ) :
    Except Stop (ℕ × Heap × List ℕ) := do
  let out ← tryCurrent uafActive h arena cls
  if out.1 ≠ 0 then pure (out.1, out.2, src)
  else
    let out ← tryPartials uafActive arena cls (out.2.slabClass arena cls).partials.length out.2
    if out.1 ≠ 0 then pure (out.1, out.2, src)
    else acquireFreshPage uafActive cpu out.2 arena cls src

def slabPoolAllocArena (uafActive : Bool) (cpu : ℕ) (h : Heap) (arena cls : ℕ) (src : List ℕ) :
    Except Stop (ℕ × Heap × List ℕ) :=
  if cls ≥ mediumFirstClass then .ok (0, h, src) else slabPoolDraw uafActive cpu h arena cls src

def slabPoolAlloc (uafActive : Bool) (cpu : ℕ) (h : Heap) (cls : ℕ) (src : List ℕ) :
    Except Stop (ℕ × Heap × List ℕ) := slabPoolAllocArena uafActive cpu h arenaDefault cls src

/-- A chain of objects linked through their first words. -/
structure Batch where
  head : ℕ
  tail : ℕ
  count : ℕ
  deriving DecidableEq, Repr

/-- The refill loop; `left` objects are still wanted. -/
def slabPoolBatchLoop (uafActive : Bool) (cpu arena cls : ℕ) :
    ℕ → Batch → Heap → List ℕ → Except Stop (Batch × Heap × List ℕ)
  | 0, batch, h, src => .ok (batch, h, src)
  | left + 1, batch, h, src => do
    let out ← slabPoolDraw uafActive cpu h arena cls src
    if out.1 = 0 then pure (batch, out.2.1, out.2.2)
    else
      let h := { out.2.1 with mem := store64 out.2.1.mem out.1 batch.head }
      let tail := if batch.tail = 0 then out.1 else batch.tail
      slabPoolBatchLoop uafActive cpu arena cls left ⟨out.1, tail, batch.count + 1⟩ h out.2.2

def slabPoolAllocBatch (uafActive : Bool) (cpu : ℕ) (h : Heap) (arena cls max : ℕ)
    (src : List ℕ) : Except Stop (Batch × Heap × List ℕ) :=
  if cls ≥ mediumFirstClass ∨ max = 0 then .ok (⟨0, 0, 0⟩, h, src)
  else slabPoolBatchLoop uafActive cpu arena cls max ⟨0, 0, 0⟩ h src

/-! ### Free -/

def unlinkFromClass (slab : SlabClass) (page : ℕ) : SlabClass :=
  if slab.current = page then { slab with current := 0 }
  else { slab with partials := slab.partials.erase page }

def slabPoolFree (uafActive : Bool) (h : Heap) (arena page obj : ℕ) : Bool × Heap :=
  let header := h.pageAt page
  let wasFull := slabIsFull header
  let out := slabFreeDispatch uafActive h.mem page header obj
  let h := h.setPage page out.2.1 out.2.2
  let cls := out.2.1.sizeClass
  let slab := h.slabClass arena cls
  if cls ≥ mediumFirstClass then (out.1, h)
  else if out.1 then
    (true, releaseSlabPage (h.setClass arena cls (unlinkFromClass slab page)) arena page)
  else if wasFull && slab.current != page then
    -- a full page is on no list unless it is still the current one
    (false, h.setClass arena cls { slab with partials := page :: slab.partials })
  else (false, h)

end V8Malloc
