import V8Malloc.Lib.StackLedger
import V8Malloc.PageHeap.Acquire

/-!
# Huge pages cut into slab pages

Embedding of `v8m_huge_slab.c` and `v8m_numa_pool.c`. A descriptor holds the base
of a huge page and a bitmap of the 64 KiB pages in use. Every NUMA node has two
lists of descriptors, those with pages in use and free ones, and those without a
free page; the descriptors are linked through a word of their own.

What the page heap and the kernel answer is a parameter of a call. The mapped
descriptors and the huge pages held are part of the state.
-/
namespace V8Malloc.NumaPool

open PageHeap LinkedList Function

/-- `V8M_HUGE_SLABS_PER_HUGE` -/
def hugeSlabsPerHuge : ℕ := hugePageSize / pageSize

structure HugeSlab where
  base : ℕ
  bitmap : BitVec 32
  numaNode : ℕ
  slabsPerHuge : ℕ
  deriving DecidableEq, Repr

def HugeSlab.validMask (slab : HugeSlab) : BitVec 32 :=
  if slab.slabsPerHuge = 0 then 0#32
  else if 32 ≤ slab.slabsPerHuge then BitVec.allOnes 32
  else (1#32 <<< slab.slabsPerHuge) - 1#32

def hugeSlabInit (base numaNode slabsPerHuge : ℕ) : HugeSlab :=
  let count := if slabsPerHuge = 0 then hugeSlabsPerHuge else slabsPerHuge
  { base := base
    bitmap := 0#32
    numaNode := numaNode
    slabsPerHuge := if hugeSlabsPerHuge < count then hugeSlabsPerHuge else count }

/-- `__builtin_ctz`: the lowest bit set. -/
def ctz (mask : BitVec 32) : ℕ :=
  ((List.range 32).find? fun i => mask.getLsbD i).getD 0

/-- The page carved and the descriptor after it. -/
def hugeSlabAlloc (slab : HugeSlab) : Option (ℕ × HugeSlab) :=
  let full := slab.validMask
  if slab.base = 0 ∨ slab.bitmap &&& full = full then none
  else
    let idx := ctz (~~~slab.bitmap &&& full)
    some (slab.base + idx * pageSize, { slab with bitmap := slab.bitmap ||| (1#32 <<< idx) })

/-- The descriptor after the release; `none` is the source's `false`. -/
def hugeSlabFree (slab : HugeSlab) (slot : ℕ) : Option HugeSlab :=
  if slab.base = 0 ∨ slot = 0 ∨ slot < slab.base then none
  else
    let offset := slot - slab.base
    let idx := offset / pageSize
    if offset % pageSize ≠ 0 then none
    else if slab.slabsPerHuge ≤ idx then none
    else if slab.bitmap &&& (1#32 <<< idx) = 0#32 then none
    else some { slab with bitmap := slab.bitmap &&& ~~~(1#32 <<< idx) }

def hugeSlabIsFull (slab : HugeSlab) : Bool :=
  slab.validMask ≠ 0#32 && slab.bitmap &&& slab.validMask = slab.validMask

def hugeSlabIsEmpty (slab : HugeSlab) : Bool :=
  slab.bitmap &&& slab.validMask = 0#32

/-- The two lists of a node. -/
inductive Kind
  | partials
  | fulls
  deriving DecidableEq, Repr

/-- `struct v8m_numa_pool_node` -/
structure PoolNode where
  head : Kind → ℕ
  hugePagesAlive : BitVec 64
  hugePagesAllocated : BitVec 64
  hugePagesReleased : BitVec 64
  slabCarveCalls : BitVec 64
  slabReleaseCalls : BitVec 64

/-- The nodes, the descriptors with their links, the mapped descriptors, and the huge pages
obtained from the page heap and not given back. -/
structure Pool where
  nodes : Fin numaMaxNodes → PoolNode
  desc : ℕ → HugeSlab
  next : ℕ → ℕ
  mapped : Finset ℕ
  pages : Finset ℕ

namespace Pool

def setNode (pool : Pool) (i : Fin numaMaxNodes) (node : PoolNode) : Pool :=
  { pool with nodes := update pool.nodes i node }

def setHead (pool : Pool) (i : Fin numaMaxNodes) (kind : Kind) (head : ℕ) : Pool :=
  pool.setNode i
    { pool.nodes i with head := update (pool.nodes i).head kind head }

def setDesc (pool : Pool) (d : ℕ) (slab : HugeSlab) : Pool :=
  { pool with desc := update pool.desc d slab }

/-- `slab->next = list; list = slab` -/
def link (pool : Pool) (i : Fin numaMaxNodes) (kind : Kind) (d : ℕ) : Pool :=
  { pool with next := update pool.next d ((pool.nodes i).head kind) }.setHead i kind d

/-- The walk ends after as many steps as there are descriptors. -/
def listUnlink (pool : Pool) (i : Fin numaMaxNodes) (kind : Kind) (d : ℕ) : Pool :=
  let out := cutOut 0 pool.next d pool.mapped.card ((pool.nodes i).head kind)
  { pool with next := out.2 }.setHead i kind out.1

def countCarve (pool : Pool) (i : Fin numaMaxNodes) : Pool :=
  pool.setNode i { pool.nodes i with slabCarveCalls := (pool.nodes i).slabCarveCalls + 1#64 }

def countRelease (pool : Pool) (i : Fin numaMaxNodes) : Pool :=
  pool.setNode i { pool.nodes i with slabReleaseCalls := (pool.nodes i).slabReleaseCalls + 1#64 }

def members (pool : Pool) (i : Fin numaMaxNodes) (kind : Kind) : List ℕ :=
  walk 0 pool.next pool.mapped.card ((pool.nodes i).head kind)

end Pool

/-- `v8m_numa_pool_init` -/
def Pool.init : Pool :=
  { nodes := fun _ => ⟨fun _ => 0, 0#64, 0#64, 0#64, 0#64, 0#64⟩
    desc := fun _ => ⟨0, 0#32, 0, 0⟩
    next := fun _ => 0
    mapped := ∅
    pages := ∅ }

/-- `page` and `descPage` are the answers of the page heap and of `mmap`. A huge page without
a descriptor goes straight back. -/
def addHugePage (pool : Pool) (i : Fin numaMaxNodes) (page descPage : Option ℕ) :
    Option (ℕ × Pool) :=
  match page, descPage with
  | none, _ => none
  | some _, none => none
  | some base, some d =>
    let pool := { pool with mapped := insert d pool.mapped, pages := insert base pool.pages }
    let pool := (pool.setDesc d (hugeSlabInit base i hugeSlabsPerHuge)).link i .partials d
    some (d, pool.setNode i { pool.nodes i with
      hugePagesAlive := (pool.nodes i).hugePagesAlive + 1#64
      hugePagesAllocated := (pool.nodes i).hugePagesAllocated + 1#64 })

/-- The carve from descriptor `d`, with its move to the full ones. -/
def carveFrom (pool : Pool) (i : Fin numaMaxNodes) (d : ℕ) : Option ℕ × Pool :=
  match hugeSlabAlloc (pool.desc d) with
  | none => (none, pool)
  | some (carved, slab) =>
    let pool := (pool.setDesc d slab).countCarve i
    (some carved,
      if hugeSlabIsFull slab then (pool.listUnlink i .partials d).link i .fulls d else pool)

def numaPoolCarveSlab (pool : Pool) (numaNode : ℕ) (page descPage : Option ℕ) :
    Option ℕ × Pool :=
  if hnode : numaNode < numaMaxNodes then
    let i : Fin numaMaxNodes := ⟨numaNode, hnode⟩
    let slab := (pool.nodes i).head .partials
    if slab = 0 then
      match addHugePage pool i page descPage with
      | none => (none, pool)
      | some (d, pool) => carveFrom pool i d
    else carveFrom pool i slab
  else (none, pool)

def findOwning (pool : Pool) (i : Fin numaMaxNodes) (slab : ℕ) : Option ℕ :=
  let hugeBase := slab / hugePageSize * hugePageSize
  (pool.members i .partials ++ pool.members i .fulls).find? fun d =>
    (pool.desc d).base = hugeBase

/-- A descriptor with no page in use goes, with its huge page. -/
def dropEmpty (pool : Pool) (i : Fin numaMaxNodes) (d : ℕ) : Pool :=
  let pool := pool.listUnlink i .partials d
  let pool := { pool with
    mapped := pool.mapped.erase d, pages := pool.pages.erase (pool.desc d).base }
  pool.setNode i { pool.nodes i with
    hugePagesAlive := (pool.nodes i).hugePagesAlive - 1#64
    hugePagesReleased := (pool.nodes i).hugePagesReleased + 1#64 }

/-- The release into descriptor `d` of node `i`. -/
def releaseInto (pool : Pool) (i : Fin numaMaxNodes) (d slab : ℕ) : Bool × Pool :=
  match hugeSlabFree (pool.desc d) slab with
  | none => (false, pool)
  | some after =>
    let wasFull := hugeSlabIsFull (pool.desc d)
    let pool := (pool.setDesc d after).countRelease i
    let pool := if wasFull then (pool.listUnlink i .fulls d).link i .partials d else pool
    (true, if hugeSlabIsEmpty after then dropEmpty pool i d else pool)

def releaseLoop (pool : Pool) (slab : ℕ) : List (Fin numaMaxNodes) → Bool × Pool
  | [] => (false, pool)
  | i :: rest =>
    match findOwning pool i slab with
    | none => releaseLoop pool slab rest
    | some d => releaseInto pool i d slab

def numaPoolReleaseSlab (pool : Pool) (slab : ℕ) : Bool × Pool :=
  if slab = 0 then (false, pool) else releaseLoop pool slab (List.finRange numaMaxNodes)

end V8Malloc.NumaPool
