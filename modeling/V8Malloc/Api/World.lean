import V8Malloc.Api.Model
import V8Malloc.Dispatch.Runs

/-!
# Histories of public calls

A world is the library between calls together with what the program has: blocks
of the dispatcher, pieces of the two bump buffers, and blocks it gave up while
the dispatcher was not taking them back. Each public call is a step, and so are
the upkeep of the library, option changes and the program's own writes.
-/
namespace V8Malloc

open ByteMemory LinkedList StackLedger
open Function (update)

/-- An address of one of the static buffers. -/
def Api.inBuffers (a : Api) (x : ℕ) : Bool := bumpOwns a.bootstrap x || bumpOwns a.signalSafe x

/-- The kernel maps nothing over the static buffers. -/
def Api.Apart (a : Api) : Prop := ∀ x, a.sys.heap.Taken x → a.inBuffers x = false

/-- `held` are the blocks of the dispatcher that were not given back to it, each with the size
last granted; the program has given up the `dropped` ones. -/
structure ApiWorld where
  api : Api
  held : ℕ → Option ℕ
  bumps : ℕ → Option ℕ
  dropped : Set ℕ

namespace ApiWorld

def world (w : ApiWorld) : World := ⟨w.api.sys, w.held⟩

/-- The pointers a correct program may still use. -/
def Owns (w : ApiWorld) (ptr : ℕ) : Prop :=
  w.held ptr ≠ none ∧ ptr ∉ w.dropped ∨ w.bumps ptr ≠ none

def setApi (w : ApiWorld) (a : Api) : ApiWorld := { w with api := a }

def answer (w : ApiWorld) (a : Api) (ptr size : ℕ) : ApiWorld :=
  if ptr = 0 then w.setApi a
  else if a.inBuffers ptr then { w with api := a, bumps := update w.bumps ptr (some size) }
  else { w with api := a, held := update w.held ptr (some size) }

/-- The world after `v8m_free`: the buffers take nothing back, and a dispatcher that is not
ready takes a block only through the bin of the thread. -/
def release (w : ApiWorld) (env : Env) (a : Api) (ptr : ℕ) : ApiWorld :=
  if w.api.inBuffers ptr then { w with api := a, bumps := update w.bumps ptr none }
  else if (freeFastClass env w.api ptr).isSome || w.api.dispatchReady then
    { w with api := a, held := update w.held ptr none }
  else { w with api := a, dropped := insert ptr w.dropped }

/-- The block stays and has a new size. -/
def renote (w : ApiWorld) (ptr size : ℕ) : ApiWorld :=
  if w.api.inBuffers ptr then { w with bumps := update w.bumps ptr (some size) }
  else { w with held := update w.held ptr (some size) }

end ApiWorld

/-- What the library does beside the calls of the program. -/
inductive Upkeep (s : Sys) : Sys → Prop
  | drainAll {call : Call} {out : ℕ × Sys} : dispatchDrainAll call s = .ok out → Upkeep s out.2
  | drainLocalL2 {call : Call} {out : ℕ × Sys} : dispatchDrainLocalL2 call s = .ok out →
      Upkeep s out.2
  | drainMedium {call : Call} {out : ℕ × Sys} : dispatchDrainMedium call s = .ok out →
      Upkeep s out.2
  | bgTick : Upkeep s (dispatchBgTick s)
  | purgeDrained : Upkeep s (dispatchPurgeDrained s)

inductive ApiEvent where
  | malloc (size : ℕ)
  | calloc (nmemb size : ℕ)
  | alignedAlloc (alignment size : ℕ)
  | realloc (ptr size : ℕ)
  | signalSafeAlloc (size : ℕ)
  | free (ptr : ℕ)
  | setDebug (on : Bool)
  | setSoftLimit (limit : ℕ)
  | lifecycle (state : InitState)
  | upkeep
  | write (m' : Mem)
  | elsewhere (m' : Mem)

/-- The answers of the system to an allocation of `size` bytes. -/
structure Env.Legal (env : Env) (a : Api) (size : ℕ) : Prop where
  answers : V8Malloc.Legal env.call (overSoftLimit env a size).2.sys.heap
  outside : ∀ x, env.call.Offers x → a.inBuffers x = false

/-- The ownership checks are right about the pointer. -/
structure Env.Knows (env : Env) (h : Heap) (ptr : ℕ) : Prop where
  owns : ∀ x, h.Taken x → env.call.owns x = true
  ownsFast : env.ownsFast = true → h.Taken ptr

/-- Copied data puts no page magic at a page base. -/
def PlainChange (m m' : Mem) : Prop :=
  ∀ b, pageSize ∣ b → load64 m' b = pageMagic → load64 m b = pageMagic

/-- One step of a history. What `v8m_realloc` does is one case for each way through it. -/
inductive ApiStep (w : ApiWorld) : ApiEvent → ApiWorld → Prop
  | malloc {env : Env} {size ptr : ℕ} {a' : Api} : env.Legal w.api size →
      v8mMalloc env w.api size = .ok (ptr, a') → ApiStep w (.malloc size) (w.answer a' ptr size)
  | calloc {env : Env} {nmemb size ptr : ℕ} {a' : Api} : env.Legal w.api (nmemb * size) →
      v8mCalloc env w.api nmemb size = .ok (ptr, a') →
      ApiStep w (.calloc nmemb size) (w.answer a' ptr (nmemb * size))
  | alignedAlloc {env : Env} {alignment size ptr : ℕ} {a' : Api} : env.Legal w.api size →
      v8mAlignedAlloc env w.api alignment size = .ok (ptr, a') →
      ApiStep w (.alignedAlloc alignment size) (w.answer a' ptr size)
  | signalSafeAlloc (size : ℕ) : ApiStep w (.signalSafeAlloc size)
      (w.answer (signalSafeAlloc w.api size).2 (signalSafeAlloc w.api size).1 size)
  | free {env : Env} {ptr : ℕ} {a' : Api} : env.Knows w.api.sys.heap ptr → w.Owns ptr →
      v8mFree env w.api ptr = .ok a' → ApiStep w (.free ptr) (w.release env a' ptr)
  | freeNull : ApiStep w (.free 0) w
  | reallocNull {env : Env} {size ptr : ℕ} {a' : Api} : env.Legal w.api size →
      doMallocPc env w.api size = .ok (ptr, a') →
      ApiStep w (.realloc 0 size) (w.answer a' ptr size)
  | reallocZero {env : Env} {ptr : ℕ} {a' : Api} : env.Knows w.api.sys.heap ptr → w.Owns ptr →
      v8mFree env w.api ptr = .ok a' → ApiStep w (.realloc ptr 0) (w.release env a' ptr)
  | reallocKeep {ptr size : ℕ} : w.Owns ptr → size ≠ 0 → reallocInPlace w.api ptr size = true →
      ApiStep w (.realloc ptr size) (w.renote ptr size)
  | reallocFail {env : Env} {ptr size : ℕ} {a' : Api} : w.Owns ptr → size ≠ 0 →
      reallocInPlace w.api ptr size = false → env.Legal w.api size →
      doMallocPc env w.api size = .ok (0, a') → ApiStep w (.realloc ptr size) (w.setApi a')
  | reallocMove {env envFree : Env} {ptr size new : ℕ} {mid filled a' : Api} : w.Owns ptr →
      size ≠ 0 → reallocInPlace w.api ptr size = false → env.Legal w.api size →
      doMallocPc env w.api size = .ok (new, mid) → new ≠ 0 →
      reallocFill env mid (reallocOldUsable w.api ptr) new ptr size = filled →
      PlainChange mid.sys.heap.mem filled.sys.heap.mem → envFree.Knows mid.sys.heap ptr →
      v8mFree envFree filled ptr = .ok a' →
      ApiStep w (.realloc ptr size) ((w.answer filled new size).release envFree a' ptr)
  | setDebug (on : Bool) : ApiStep w (.setDebug on) (w.setApi { w.api with debug := on })
  | setSoftLimit (limit : ℕ) :
      ApiStep w (.setSoftLimit limit) (w.setApi { w.api with softLimit := limit })
  | lifecycle (state : InitState) :
      ApiStep w (.lifecycle state) (w.setApi { w.api with initState := state })
  | upkeep {s' : Sys} : Upkeep w.api.sys s' → ApiStep w .upkeep (w.setApi (w.api.setSys s'))
  | write {m' : Mem} : w.world.Writes m' → ApiStep w (.write m') (w.setApi (w.api.setMem m'))
  | elsewhere {m' : Mem} : (∀ x, w.api.sys.heap.Taken x → m' x = w.api.sys.heap.mem x) →
      ApiStep w (.elsewhere m') (w.setApi (w.api.setMem m'))

/-- The library as it is loaded, with its two buffers at the given addresses. -/
def Api.load (p : BuddyPool) (bootstrapBuffer signalSafeBuffer : ℕ) : Api where
  sys := Sys.init p
  initState := .none
  debug := false
  softLimit := 0
  ring := fun _ => 0
  ringIdx := 0
  bootstrap := ⟨bootstrapBuffer, bootstrapSize, bumpAlign, 0⟩
  signalSafe := ⟨signalSafeBuffer, signalSafeSize, bumpAlign, 0⟩

/-- Worlds reached by steps that all meet `ok`. -/
inductive ApiRun (ok : ApiWorld → ApiEvent → Prop) : ApiWorld → Prop
  | load (p : BuddyPool) {bootstrapBuffer signalSafeBuffer : ℕ} :
      0 < bootstrapBuffer → 0 < signalSafeBuffer →
      bootstrapBuffer + bootstrapSize ≤ signalSafeBuffer ∨
        signalSafeBuffer + signalSafeSize ≤ bootstrapBuffer →
      ApiRun ok ⟨Api.load p bootstrapBuffer signalSafeBuffer, fun _ => none, fun _ => none, ∅⟩
  | step {w w' : ApiWorld} {e : ApiEvent} : ApiRun ok w → ok w e → ApiStep w e w' →
      w'.api.Apart → ApiRun ok w'

end V8Malloc
