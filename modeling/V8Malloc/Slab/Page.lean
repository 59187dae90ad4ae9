import V8Malloc.Debug
import V8Malloc.Lib.BitWord
import V8Malloc.SizeClass

/-!
# Slab pages

A slab page is 64 KiB: a header and an array of equal slots. Tiny pages mark
used slots in a bitmap; small pages link their free slots through the first
word of each slot. Headers are typed values beside the memory, since no write
of the program reaches them; the links of small pages lie in the memory.
-/
namespace V8Malloc

open ByteMemory BitWord

def slabHeaderSize : ℕ := 2048
def bitsPerWord : ℕ := 64
def bitmapWords : ℕ := 128
def bitmapCapacityBits : ℕ := bitmapWords * bitsPerWord
def linkBytes : ℕ := 8

/-- The header fields the slab and dispatch code reads. -/
structure PageMeta where
  sizeClass : ℕ
  objectSize : ℕ
  capacity : ℕ
  usedCount : ℕ
  freeListHead : ℕ
  arenaId : ℕ
  ownerCpu : ℕ
  searchHint : ℕ
  bitmap : ℕ → Word

def debugUafPoisonDataArea (uafActive : Bool) (m : Mem)
    (dataBase objectSize capacity link : ℕ) : Mem :=
  if capacity = 0 ∨ objectSize = 0 then m
  else if !uafActive then m
  else if link ≥ objectSize then m
  else (List.range capacity).foldl
    (fun m i => fill m (dataBase + i * objectSize + link) (objectSize - link) debugPoisonByte) m

/-! ### Tiny pages -/

def slabTinyCapacityFor (objectSize : ℕ) : ℕ :=
  if objectSize = 0 then 0
  else min ((pageSize - slabHeaderSize) / objectSize) bitmapCapacityBits

/-- The bitmap of a fresh page: slots beyond the capacity count as used. -/
def tinyFreshBitmap (capacity : ℕ) : ℕ → Word :=
  (List.range' capacity (bitmapCapacityBits - capacity)).foldl
    (fun bitmap slot => Function.update bitmap (slot / bitsPerWord)
      (setBit (bitmap (slot / bitsPerWord)) (slot % bitsPerWord)))
    fun _ => 0#64

def slabTinyInit (uafActive : Bool) (cpu : ℕ) (m : Mem) (base cls : ℕ) : PageMeta × Mem :=
  let objectSize := sizeClassSize cls
  let capacity := slabTinyCapacityFor objectSize
  ({ sizeClass := cls, objectSize, capacity, usedCount := 0, freeListHead := 0, arenaId := 0
     ownerCpu := cpu, searchHint := 0, bitmap := tinyFreshBitmap capacity },
    debugUafPoisonDataArea uafActive m (base + slabHeaderSize) objectSize capacity 0)

/-- The lowest clear bit of a word that is not all ones. -/
def lowestClear (w : Word) : Option ℕ := (List.range bitsPerWord).find? fun b => !testBit w b

/-- The first word with a clear bit, and that bit. -/
def scanWords (bitmap : ℕ → Word) : List ℕ → Option (ℕ × ℕ)
  | [] => none
  | word :: rest =>
    match lowestClear (bitmap word) with
    | some bit => some (word, bit)
    | none => scanWords bitmap rest

/-- From the hint to the end, then from the start to the hint. -/
def scanOrder (start : ℕ) : List ℕ :=
  List.range' start (bitmapWords - start) ++ List.range (min start bitmapWords)

/-- The header once the slot of `word` and `bit` is handed out. -/
def PageMeta.claim (tiny : PageMeta) (word bit : ℕ) : PageMeta :=
  { tiny with
    bitmap := Function.update tiny.bitmap word (setBit (tiny.bitmap word) bit)
    searchHint := word
    usedCount := tiny.usedCount + 1 }

def claimSlot (uafActive : Bool) (m : Mem) (base : ℕ) (tiny : PageMeta) (word bit : ℕ) :
    Except Stop (ℕ × PageMeta × Mem) :=
  let obj := base + slabHeaderSize + (word * bitsPerWord + bit) * tiny.objectSize
  match debugUafVerify uafActive m obj tiny.objectSize with
  | .error stop => .error stop
  | .ok () => .ok (obj, tiny.claim word bit, m)

def slabTinyAlloc (uafActive : Bool) (m : Mem) (base : ℕ) (tiny : PageMeta) :
    Except Stop (ℕ × PageMeta × Mem) :=
  match scanWords tiny.bitmap (scanOrder tiny.searchHint) with
  | some (word, bit) => claimSlot uafActive m base tiny word bit
  | none => .ok (0, tiny, m)

/-- The header once the slot of `word` and `bit` is given back. -/
def PageMeta.unclaim (tiny : PageMeta) (word bit : ℕ) : PageMeta :=
  { tiny with
    bitmap := Function.update tiny.bitmap word (clearBit (tiny.bitmap word) bit)
    searchHint := if word < tiny.searchHint then word else tiny.searchHint
    usedCount := tiny.usedCount - 1 }

def slabTinyFree (uafActive : Bool) (m : Mem) (base : ℕ) (tiny : PageMeta) (obj : ℕ) :
    Bool × PageMeta × Mem :=
  let slot := (obj - (base + slabHeaderSize)) / tiny.objectSize
  let word := slot / bitsPerWord
  let bit := slot % bitsPerWord
  (tiny.usedCount == 1, tiny.unclaim word bit, debugUafPoison uafActive m obj tiny.objectSize)

/-! ### Small pages -/

def slabSmallDataOffset (objectSize : ℕ) : ℕ :=
  if objectSize > slabHeaderSize then objectSize else slabHeaderSize

def slabSmallCapacityFor (objectSize : ℕ) : ℕ :=
  if objectSize < linkBytes then 0
  else
    let offset := slabSmallDataOffset objectSize
    if offset ≥ pageSize then 0 else (pageSize - offset) / objectSize

/-- The free list of a fresh page, built from the last slot down to the first. -/
def smallBuildList (data objectSize : ℕ) : ℕ → Mem → ℕ → Mem × ℕ
  | 0, m, head => (m, head)
  | slot + 1, m, head =>
    let obj := data + slot * objectSize
    smallBuildList data objectSize slot (store64 m obj head) obj

def slabSmallInit (uafActive : Bool) (cpu : ℕ) (m : Mem) (base cls : ℕ) : PageMeta × Mem :=
  let objectSize := sizeClassSize cls
  let capacity := slabSmallCapacityFor objectSize
  let data := base + slabSmallDataOffset objectSize
  let built := smallBuildList data objectSize capacity m 0
  ({ sizeClass := cls, objectSize, capacity, usedCount := 0, freeListHead := built.2, arenaId := 0
     ownerCpu := cpu, searchHint := 0, bitmap := fun _ => 0#64 },
    debugUafPoisonDataArea uafActive built.1 data objectSize capacity linkBytes)

def slabSmallAlloc (uafActive : Bool) (m : Mem) (page : PageMeta) :
    Except Stop (ℕ × PageMeta × Mem) :=
  let head := page.freeListHead
  if head = 0 then .ok (0, page, m)
  else
    match debugUafVerify uafActive m (head + linkBytes) (page.objectSize - linkBytes) with
    | .error stop => .error stop
    | .ok () => .ok (head,
        { page with freeListHead := load64 m head, usedCount := page.usedCount + 1 }, m)

def slabSmallFree (uafActive : Bool) (m : Mem) (page : PageMeta) (obj : ℕ) :
    Bool × PageMeta × Mem :=
  (page.usedCount == 1,
    { page with freeListHead := obj, usedCount := page.usedCount - 1 },
    debugUafPoison uafActive (store64 m obj page.freeListHead) (obj + linkBytes)
      (page.objectSize - linkBytes))

/-! ### Either kind -/

def slabAllocDispatch (uafActive : Bool) (m : Mem) (base : ℕ) (page : PageMeta) :
    Except Stop (ℕ × PageMeta × Mem) :=
  if page.sizeClass < smallFirstClass then slabTinyAlloc uafActive m base page
  else slabSmallAlloc uafActive m page

def slabFreeDispatch (uafActive : Bool) (m : Mem) (base : ℕ) (page : PageMeta) (obj : ℕ) :
    Bool × PageMeta × Mem :=
  if page.sizeClass < smallFirstClass then slabTinyFree uafActive m base page obj
  else slabSmallFree uafActive m page obj

def slabIsFull (page : PageMeta) : Bool := page.usedCount == page.capacity

def slabInitDispatch (uafActive : Bool) (cpu : ℕ) (m : Mem) (base cls : ℕ) : PageMeta × Mem :=
  if cls < smallFirstClass then slabTinyInit uafActive cpu m base cls
  else slabSmallInit uafActive cpu m base cls

/-! ### Slot geometry -/

/-- Offset of the first slot of a page of the class. -/
def dataOffset (cls : ℕ) : ℕ :=
  if cls < smallFirstClass then slabHeaderSize else slabSmallDataOffset (sizeClassSize cls)

def slotCapacity (cls : ℕ) : ℕ :=
  if cls < smallFirstClass then slabTinyCapacityFor (sizeClassSize cls)
  else slabSmallCapacityFor (sizeClassSize cls)

def slotAddr (base cls slot : ℕ) : ℕ := base + dataOffset cls + slot * sizeClassSize cls

variable {cls : ℕ}

/-- The slots of a class fit behind the header and inside the page. -/
theorem slots_fit (hcls : cls < mediumFirstClass) : 0 < slotCapacity cls ∧
    slabHeaderSize ≤ dataOffset cls ∧
      dataOffset cls + slotCapacity cls * sizeClassSize cls ≤ pageSize ∧
      slotCapacity cls ≤ bitmapCapacityBits ∧ linkBytes ≤ sizeClassSize cls := by
  have hall : ∀ c < mediumFirstClass, 0 < slotCapacity c ∧ slabHeaderSize ≤ dataOffset c ∧
      dataOffset c + slotCapacity c * sizeClassSize c ≤ pageSize ∧
      slotCapacity c ≤ bitmapCapacityBits ∧ linkBytes ≤ sizeClassSize c := by decide
  exact hall cls hcls

end V8Malloc
