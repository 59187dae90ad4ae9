import V8Malloc.Debug
import V8Malloc.Lib.BitWord

/-!
# The buddy allocator

Embedding of `v8m_buddy.c`: one 256 KiB arena, seven levels of power-of-two
blocks, an alloc and a split bitmap per level, and one doubly linked free list
per level whose links live in the first 16 bytes of the free blocks.
-/
namespace V8Malloc

open ByteMemory BitWord Function

def buddyMinShift : ℕ := 12
def buddyLevels : ℕ := 7
def buddyMinBlock : ℕ := 4096
def buddyMaxBlock : ℕ := 262144
/-- `sizeof(struct v8m_buddy_node)`: a next and a prev pointer. -/
def nodeSize : ℕ := 16

structure Buddy where
  arenaBase : ℕ
  arenaSize : ℕ
  freeLists : ℕ → ℕ
  allocBitmap : ℕ → Word
  splitBitmap : ℕ → Word

/-- The control structure together with the memory that holds the list nodes. -/
structure BuddyHeap where
  buddy : Buddy
  mem : Mem

def sizeToLevel (size : ℕ) : ℕ :=
  if size ≤ buddyMinBlock then 0
  else
    let rounded := size - 1
    let msb := Nat.log2 rounded
    let shift := msb + 1
    if shift < buddyMinShift then 0 else shift - buddyMinShift

def levelToSize (level : ℕ) : ℕ := 2 ^ (buddyMinShift + level)

def addrToIndex (b : Buddy) (ptr level : ℕ) : ℕ :=
  (ptr - b.arenaBase) >>> (buddyMinShift + level)

def indexToNode (b : Buddy) (idx level : ℕ) : ℕ := b.arenaBase + idx * levelToSize level

def nodeNext (m : Mem) (node : ℕ) : ℕ := load64 m node
def nodePrev (m : Mem) (node : ℕ) : ℕ := load64 m (node + 8)
def setNext (m : Mem) (node value : ℕ) : Mem := store64 m node value
def setPrev (m : Mem) (node value : ℕ) : Mem := store64 m (node + 8) value

/-- Memory and list head after pushing. -/
def listPush (m : Mem) (head node : ℕ) : Mem × ℕ :=
  let m := setPrev m node 0
  let m := setNext m node head
  let m := if head ≠ 0 then setPrev m head node else m
  (m, node)

/-- The popped node, memory and list head. -/
def listPop (m : Mem) (head : ℕ) : ℕ × Mem × ℕ :=
  if head ≠ 0 then
    let newHead := nodeNext m head
    let m := if newHead ≠ 0 then setPrev m newHead 0 else m
    (head, m, newHead)
  else (0, m, head)

def listRemove (m : Mem) (head node : ℕ) : Mem × ℕ :=
  let prev := nodePrev m node
  let out := if prev ≠ 0 then (setNext m prev (nodeNext m node), head) else (m, nodeNext m node)
  let m := out.1
  let next := nodeNext m node
  let m := if next ≠ 0 then setPrev m next (nodePrev m node) else m
  (m, out.2)

/-! List operations on `&buddy->free_lists[level]`. -/

def BuddyHeap.push (h : BuddyHeap) (level node : ℕ) : BuddyHeap :=
  let out := listPush h.mem (h.buddy.freeLists level) node
  { buddy := { h.buddy with freeLists := update h.buddy.freeLists level out.2 }
    mem := out.1 }

def BuddyHeap.pop (h : BuddyHeap) (level : ℕ) : ℕ × BuddyHeap :=
  let out := listPop h.mem (h.buddy.freeLists level)
  (out.1,
    { buddy := { h.buddy with freeLists := update h.buddy.freeLists level out.2.2 }
      mem := out.2.1 })

def BuddyHeap.remove (h : BuddyHeap) (level node : ℕ) : BuddyHeap :=
  let out := listRemove h.mem (h.buddy.freeLists level) node
  { buddy := { h.buddy with freeLists := update h.buddy.freeLists level out.2 }
    mem := out.1 }

def BuddyHeap.setSplit (h : BuddyHeap) (level idx : ℕ) : BuddyHeap :=
  { h with buddy := { h.buddy with
      splitBitmap := update h.buddy.splitBitmap level
        (setBit (h.buddy.splitBitmap level) idx) } }

def BuddyHeap.clearSplit (h : BuddyHeap) (level idx : ℕ) : BuddyHeap :=
  { h with buddy := { h.buddy with
      splitBitmap := update h.buddy.splitBitmap level
        (clearBit (h.buddy.splitBitmap level) idx) } }

def BuddyHeap.setAlloc (h : BuddyHeap) (level idx : ℕ) : BuddyHeap :=
  { h with buddy := { h.buddy with
      allocBitmap := update h.buddy.allocBitmap level
        (setBit (h.buddy.allocBitmap level) idx) } }

def BuddyHeap.clearAlloc (h : BuddyHeap) (level idx : ℕ) : BuddyHeap :=
  { h with buddy := { h.buddy with
      allocBitmap := update h.buddy.allocBitmap level
        (clearBit (h.buddy.allocBitmap level) idx) } }

def BuddyHeap.poison (uafActive : Bool) (h : BuddyHeap) (ptr bytes : ℕ) : BuddyHeap :=
  { h with mem := debugUafPoison uafActive h.mem ptr bytes }

def buddyInit (uafActive : Bool) (m : Mem) (arena : ℕ) : BuddyHeap :=
  let b : Buddy :=
    { arenaBase := arena
      arenaSize := buddyMaxBlock
      freeLists := fun _ => 0
      allocBitmap := fun _ => 0#64
      splitBitmap := fun _ => 0#64 }
  let h := BuddyHeap.push ⟨b, m⟩ (buddyLevels - 1) arena
  h.poison uafActive (arena + nodeSize) (buddyMaxBlock - nodeSize)

/-- The scan for a nonempty list; `left` levels remain. -/
def findLevel (b : Buddy) : ℕ → ℕ → ℕ
  | 0, level => level
  | left + 1, level => if b.freeLists level = 0 then findLevel b left (level + 1) else level

/-- Splits `node` at `level` down by `steps` levels; the right halves go on the free lists. -/
def splitDown : ℕ → ℕ → ℕ → BuddyHeap → BuddyHeap
  | 0, _, _, h => h
  | steps + 1, level, node, h =>
    let parentIdx := addrToIndex h.buddy node level
    let h := h.setSplit level parentIdx
    let right := indexToNode h.buddy (parentIdx * 2 + 1) (level - 1)
    splitDown steps (level - 1) node (h.push (level - 1) right)

def buddyAlloc (uafActive : Bool) (h : BuddyHeap) (size : ℕ) : Except Stop (ℕ × BuddyHeap) :=
  if size = 0 then .ok (0, h)
  else
    let target := sizeToLevel size
    if target ≥ buddyLevels then .ok (0, h)
    else
      let level := findLevel h.buddy (buddyLevels - target) target
      if level ≥ buddyLevels then .ok (0, h)
      else
        let out := h.pop level
        let node := out.1
        let h := splitDown (level - target) level node out.2
        let h := h.setAlloc target (addrToIndex h.buddy node target)
        let targetSize := levelToSize target
        do
          if targetSize > nodeSize then
            debugUafVerify uafActive h.mem (node + nodeSize) (targetSize - nodeSize)
          pure (node, h)

/-- The merge loop: `left` levels remain above `level`. -/
def coalesceLoop : ℕ → ℕ → ℕ → ℕ → BuddyHeap → ℕ × ℕ × BuddyHeap
  | 0, current, level, _, h => (current, level, h)
  | left + 1, current, level, idx, h =>
    let buddyIdx := idx ^^^ 1
    if testBit (h.buddy.allocBitmap level) buddyIdx then (current, level, h)
    else if testBit (h.buddy.splitBitmap level) buddyIdx then (current, level, h)
    else
      let sibling := indexToNode h.buddy buddyIdx level
      let h := h.remove level sibling
      let current := if buddyIdx < idx then sibling else current
      let idx := idx >>> 1
      coalesceLoop left current (level + 1) idx (h.clearSplit (level + 1) idx)

def coalesceUpward (uafActive : Bool) (h : BuddyHeap) (startBlock startLevel : ℕ) :
    ℕ × BuddyHeap :=
  let idx := addrToIndex h.buddy startBlock startLevel
  let out := coalesceLoop (buddyLevels - 1 - startLevel) startBlock startLevel idx h
  let current := out.1
  let level := out.2.1
  let h := out.2.2.poison uafActive current (levelToSize level)
  (level, h.push level current)

def buddyFree (uafActive : Bool) (h : BuddyHeap) (ptr size : ℕ) : BuddyHeap :=
  if ptr = 0 then h
  else
    let level := sizeToLevel size
    if level ≥ buddyLevels then h
    else
      let h := h.clearAlloc level (addrToIndex h.buddy ptr level)
      (coalesceUpward uafActive h ptr level).2

def buddyFreeNoCoalesce (uafActive : Bool) (h : BuddyHeap) (ptr size : ℕ) : BuddyHeap :=
  if ptr = 0 then h
  else
    let level := sizeToLevel size
    if level ≥ buddyLevels then h
    else
      let h := h.clearAlloc level (addrToIndex h.buddy ptr level)
      (h.poison uafActive ptr (levelToSize level)).push level ptr

/-- The walk over one free list, restarted at the head after every merge. -/
def coalesceWalk (uafActive : Bool) (level : ℕ) :
    ℕ → ℕ → ℕ → BuddyHeap → Except Stop (ℕ × BuddyHeap)
  | 0, _, _, _ => .error .diverge
  | fuel + 1, node, merges, h =>
    if node = 0 then .ok (merges, h)
    else
      let next := nodeNext h.mem node
      let idx := addrToIndex h.buddy node level
      let buddyIdx := idx ^^^ 1
      if !testBit (h.buddy.allocBitmap level) buddyIdx &&
          !testBit (h.buddy.splitBitmap level) buddyIdx then
        let h := h.remove level node
        let h := (coalesceUpward uafActive h node level).2
        coalesceWalk uafActive level fuel (h.buddy.freeLists level) (merges + 1) h
      else coalesceWalk uafActive level fuel next merges h

/-- More rounds than any walk over at most 64 nodes with at most 63 merges takes. -/
def coalesceFuel : ℕ := 8192

/-- The levels from `level` on; `left` of them remain. -/
def coalesceLevels (uafActive : Bool) : ℕ → ℕ → ℕ → BuddyHeap → Except Stop (ℕ × BuddyHeap)
  | 0, _, merges, h => .ok (merges, h)
  | left + 1, level, merges, h => do
    let out ← coalesceWalk uafActive level coalesceFuel (h.buddy.freeLists level) merges h
    coalesceLevels uafActive left (level + 1) out.1 out.2

def buddyCoalesceAll (uafActive : Bool) (h : BuddyHeap) : Except Stop (ℕ × BuddyHeap) :=
  coalesceLevels uafActive (buddyLevels - 1) 0 0 h

/-- The levels from `level` on of the block size query; `left` of them remain. -/
def blockSizeFrom (b : Buddy) (offset : ℕ) : ℕ → ℕ → ℕ
  | 0, _ => 0
  | left + 1, level =>
    if testBit (b.allocBitmap level) (offset >>> (buddyMinShift + level)) then levelToSize level
    else blockSizeFrom b offset left (level + 1)

def buddyBlockSize (b : Buddy) (ptr : ℕ) : ℕ :=
  if ptr = 0 then 0
  else if ptr < b.arenaBase ∨ ptr ≥ b.arenaBase + b.arenaSize then 0
  else blockSizeFrom b (ptr - b.arenaBase) buddyLevels 0

def buddyIsEmpty (b : Buddy) : Bool :=
  (List.range buddyLevels).all fun i => b.allocBitmap i == 0#64

end V8Malloc
