import V8Malloc.Buddy.Runs

/-!
# The buddy pool

A fixed number of arena slots over one memory. Allocation tries the arenas in
use, then asks the page heap for a fresh one; a free that empties its arena
gives the frames of the arena back to the kernel and keeps the slot.

The answer of the page heap is an argument, with `0` for a failed request.
-/
namespace V8Malloc

open ByteMemory Function

def buddyPoolMaxArenas : ℕ := 256
def idleTicksMax : ℕ := 2 ^ 32 - 1

structure PoolArena where
  buddy : Buddy
  inUse : Bool
  drained : Bool
  idleTicks : ℕ

structure BuddyPool where
  arenas : ℕ → PoolArena
  mem : Mem

/-- The options the pool reads. Poisoning is latched on its own at first use. -/
structure PoolOptions where
  uafActive : Bool
  debug : Bool
  deferredCoalesce : Bool

namespace BuddyPool

def heap (p : BuddyPool) (i : ℕ) : BuddyHeap := ⟨(p.arenas i).buddy, p.mem⟩

def setSlot (p : BuddyPool) (i : ℕ) (slot : PoolArena) : BuddyPool :=
  { p with arenas := update p.arenas i slot }

/-- Slot `i` after an operation on its buddy. -/
def setHeap (p : BuddyPool) (i : ℕ) (h : BuddyHeap) : BuddyPool :=
  ⟨update p.arenas i { p.arenas i with buddy := h.buddy }, h.mem⟩

end BuddyPool

/-- The slots, in the order of every scan. -/
def poolSlots : List ℕ := List.range buddyPoolMaxArenas

def buddyPoolInit (p : BuddyPool) : BuddyPool :=
  { p with arenas := fun i =>
      { p.arenas i with inUse := false, drained := false, idleTicks := 0 } }

def PoolArena.contains (slot : PoolArena) (ptr : ℕ) : Bool :=
  slot.inUse && decide (slot.buddy.arenaBase ≤ ptr) &&
    decide (ptr < slot.buddy.arenaBase + slot.buddy.arenaSize)

def findOwningArena (p : BuddyPool) (ptr : ℕ) : Option ℕ :=
  poolSlots.find? fun i => (p.arenas i).contains ptr

def PoolArena.revive (slot : PoolArena) : PoolArena :=
  { slot with drained := false, idleTicks := 0 }

def tryExistingArenas (uafActive : Bool) (size : ℕ) :
    List ℕ → BuddyPool → Except Stop (ℕ × BuddyPool)
  | [], p => .ok (0, p)
  | i :: rest, p =>
    if (p.arenas i).inUse then
      match buddyAlloc uafActive (p.heap i) size with
      | .error stop => .error stop
      | .ok (obj, h) =>
        if obj ≠ 0 then .ok (obj, (p.setHeap i h).setSlot i ((p.setHeap i h).arenas i).revive)
        else tryExistingArenas uafActive size rest (p.setHeap i h)
    else tryExistingArenas uafActive size rest p

def acquireFreshArena (uafActive : Bool) (size arena : ℕ) (p : BuddyPool) :
    Except Stop (ℕ × BuddyPool) :=
  match poolSlots.find? fun i => !(p.arenas i).inUse with
  | none => .ok (0, p)
  | some i =>
    if arena = 0 then .ok (0, p)
    else
      let h := buddyInit uafActive p.mem arena
      match buddyAlloc uafActive h size with
      | .error stop => .error stop
      | .ok (obj, h') =>
        -- an arena that cannot serve the request goes back to the page heap
        .ok (obj, ⟨update p.arenas i
          { buddy := h'.buddy, inUse := decide (obj ≠ 0), drained := false, idleTicks := 0 },
          h'.mem⟩)

/-- The sweep over every arena in use, with the number of merges of each. -/
def coalesceArenas (uafActive : Bool) : List ℕ → BuddyPool → Except Stop (Bool × BuddyPool)
  | [], p => .ok (false, p)
  | i :: rest, p =>
    if (p.arenas i).inUse then
      match buddyCoalesceAll uafActive (p.heap i) with
      | .error stop => .error stop
      | .ok (merges, h) =>
        match coalesceArenas uafActive rest (p.setHeap i h) with
        | .error stop => .error stop
        | .ok (anyMerge, p') => .ok (decide (merges > 0) || anyMerge, p')
    else coalesceArenas uafActive rest p

/-- The retry after deferred frees left blocks that could still merge. -/
def coalesceAndRetry (uafActive : Bool) (size : ℕ) (p : BuddyPool) :
    Except Stop (ℕ × BuddyPool) :=
  match coalesceArenas uafActive poolSlots p with
  | .error stop => .error stop
  | .ok (anyMerge, p') =>
    if anyMerge then tryExistingArenas uafActive size poolSlots p' else .ok (0, p')

def buddyPoolAlloc (opts : PoolOptions) (arena : ℕ) (p : BuddyPool) (size : ℕ) :
    Except Stop (ℕ × BuddyPool) :=
  if size = 0 ∨ size > buddyMaxBlock then .ok (0, p)
  else
    match tryExistingArenas opts.uafActive size poolSlots p with
    | .error stop => .error stop
    | .ok (obj, p₁) =>
      if obj ≠ 0 then .ok (obj, p₁)
      else
        match acquireFreshArena opts.uafActive size arena p₁ with
        | .error stop => .error stop
        | .ok (obj, p₂) =>
          if obj = 0 ∧ opts.deferredCoalesce then coalesceAndRetry opts.uafActive size p₂
          else .ok (obj, p₂)

/-- The kernel drops the frames of the arena, which then reads as zero. -/
def adviseDontNeed (m : Mem) (ptr bytes : ℕ) : Mem :=
  if ptr = 0 ∨ bytes = 0 then m else fill m ptr bytes 0

def BuddyPool.drain (opts : PoolOptions) (p : BuddyPool) (i : ℕ) : BuddyPool :=
  let slot := { p.arenas i with drained := true, idleTicks := 0 }
  ⟨update p.arenas i slot,
    if opts.debug then p.mem else adviseDontNeed p.mem slot.buddy.arenaBase buddyMaxBlock⟩

def buddyPoolFree (opts : PoolOptions) (p : BuddyPool) (ptr : ℕ) : Bool × BuddyPool :=
  if ptr = 0 then (false, p)
  else
    match findOwningArena p ptr with
    | none => (false, p)
    | some i =>
      let size := buddyBlockSize (p.arenas i).buddy ptr
      if size = 0 then (false, p)
      else
        let h :=
          if opts.deferredCoalesce then buddyFreeNoCoalesce opts.uafActive (p.heap i) ptr size
          else buddyFree opts.uafActive (p.heap i) ptr size
        let p' := p.setHeap i h
        (true, if buddyIsEmpty h.buddy then p'.drain opts i else p')

def buddyPoolBlockSize (p : BuddyPool) (ptr : ℕ) : ℕ :=
  if ptr = 0 then 0
  else
    match findOwningArena p ptr with
    | none => 0
    | some i => buddyBlockSize (p.arenas i).buddy ptr

/-- One idle tick of a slot; the slot is released once it was idle long enough. -/
def PoolArena.tick (slot : PoolArena) (maxIdleTicks : ℕ) : PoolArena :=
  if slot.inUse ∧ slot.drained then
    let ticks := if slot.idleTicks < idleTicksMax then slot.idleTicks + 1 else slot.idleTicks
    if ticks ≥ maxIdleTicks then { slot with inUse := false, drained := false, idleTicks := 0 }
    else { slot with idleTicks := ticks }
  else slot

def buddyPoolSweepIdle (p : BuddyPool) (maxIdleTicks : ℕ) : BuddyPool :=
  { p with arenas := fun i =>
      if i < buddyPoolMaxArenas then (p.arenas i).tick maxIdleTicks else p.arenas i }

end V8Malloc
