import V8Malloc.BuddyPool.Model
import V8Malloc.Slab.Page

/-!
# The state behind a dispatcher

One memory, the headers at the bases of the 64 KiB pages, the slab pools of the
four arenas, the slots of the buddy pool and the recycle cache of the large
path. Headers the library wrote are typed values, since no write of the program
reaches them. A page base without one is judged by the bytes found there, which
is how the code would see a header that the program forged in its own memory.
-/
namespace V8Malloc

open ByteMemory Function

/-- `V8M_MAGIC`. -/
def pageMagic : ℕ := 0x76386D616C6C6F63
def arenaCount : ℕ := 4
def arenaDefault : ℕ := 0
def slabDrainedCap : ℕ := 8

/-- The fields of `struct v8m_large_page_meta` that are read back. -/
structure LargeMeta where
  sizeClass : ℕ
  mmapSize : ℕ
  guardBytes : ℕ
  requestedSize : ℕ
  deriving DecidableEq, Repr

/-- A header by its size class: below the medium classes a slab page, else a large block. -/
inductive Header where
  | slab (page : PageMeta)
  | large (block : LargeMeta)

/-- The pages of one class: the one in service, or `0`, and those with room. -/
structure SlabClass where
  current : ℕ
  partials : List ℕ
  deriving DecidableEq, Repr

/-- The parked pages carry their idle ticks, the last parked one first. -/
structure SlabPool where
  classes : ℕ → SlabClass
  drained : List (ℕ × ℕ)

structure Heap where
  mem : Mem
  heads : ℕ → Option Header
  pools : ℕ → SlabPool
  arenas : ℕ → PoolArena
  largeCache : List (ℕ × ℕ)

/-- The page base under a pointer, where its header would be. -/
def ptrToMeta (ptr : ℕ) : ℕ := ptr / pageSize * pageSize

/-! ### Headers in raw memory -/

/-- The bytes at `base` read as `struct v8m_tiny_page_meta`. -/
def decodePage (m : Mem) (base : ℕ) : PageMeta :=
  { sizeClass := load m (base + 8) 2
    objectSize := load m (base + 10) 2
    capacity := load m (base + 12) 4
    usedCount := load m (base + 16) 4
    freeListHead := load64 m (base + 32)
    arenaId := load m (base + 48) 1
    ownerCpu := load m (base + 52) 4
    searchHint := load64 m (base + 56)
    bitmap := fun word => BitVec.ofNat 64 (load64 m (base + 64 + 8 * word)) }

/-- The bytes at `base` read as `struct v8m_large_page_meta`. -/
def decodeLarge (m : Mem) (base : ℕ) : LargeMeta :=
  { sizeClass := load m (base + 8) 2
    mmapSize := load64 m (base + 48)
    guardBytes := load64 m (base + 56)
    requestedSize := load64 m (base + 64) }

/-- Writes back the fields that slab operations change. -/
def encodePage (m : Mem) (base : ℕ) (page : PageMeta) : Mem :=
  let m := store m (base + 16) 4 page.usedCount
  if page.sizeClass < smallFirstClass then
    (List.range bitmapWords).foldl
      (fun m word => store64 m (base + 64 + 8 * word) (page.bitmap word).toNat)
      (store64 m (base + 56) page.searchHint)
  else store64 m (base + 32) page.freeListHead

namespace Heap

/-- The header at `base` if the magic word is there. -/
def headerAt (h : Heap) (base : ℕ) : Option Header :=
  match h.heads base with
  | some header => some header
  | none =>
    if base ≠ 0 ∧ load64 h.mem base = pageMagic then
      if load h.mem (base + 8) 2 < mediumFirstClass then some (.slab (decodePage h.mem base))
      else some (.large (decodeLarge h.mem base))
    else none

/-- The slab header at `base`, read without looking at the magic word. -/
def pageAt (h : Heap) (base : ℕ) : PageMeta :=
  match h.heads base with
  | some (.slab page) => page
  | _ => decodePage h.mem base

/-- The heap after a slab operation on the page at `base`. -/
def setPage (h : Heap) (base : ℕ) (page : PageMeta) (m : Mem) : Heap :=
  match h.heads base with
  | some (.slab _) => { h with heads := update h.heads base (some (.slab page)), mem := m }
  | _ => { h with mem := encodePage m base page }

def largeAt (h : Heap) (base : ℕ) : LargeMeta :=
  match h.heads base with
  | some (.large block) => block
  | _ => decodeLarge h.mem base

def slabClass (h : Heap) (arena cls : ℕ) : SlabClass := (h.pools arena).classes cls

def setClass (h : Heap) (arena cls : ℕ) (slab : SlabClass) : Heap :=
  let pool := { h.pools arena with classes := update (h.pools arena).classes cls slab }
  { h with pools := update h.pools arena pool }

def setDrained (h : Heap) (arena : ℕ) (drained : List (ℕ × ℕ)) : Heap :=
  let pool := { h.pools arena with drained := drained }
  { h with pools := update h.pools arena pool }

def buddyPool (h : Heap) : BuddyPool := ⟨h.arenas, h.mem⟩

def setBuddy (h : Heap) (p : BuddyPool) : Heap := { h with arenas := p.arenas, mem := p.mem }

end Heap

end V8Malloc
