import V8Malloc.Api.Runs
import V8Malloc.Cache.Lifecycle

/-!
# Public calls with their thread caches

A world of the library in service together with the life of the thread caches
and the operation counts. A call of a thread that looks for the cache of the
thread creates it if there is none; its struct is a block of the library's own,
and a release or an exit gives that block back. `allocs` and `frees` say how
many blocks were answered and how many were passed to `v8m_free` so far.
-/
namespace V8Malloc

open ByteMemory
open Function (update update_of_ne update_self)

/-- `sizeof(struct v8m_thread_cache)`, rounded up to whole cache lines. -/
def cacheStructSize : ℕ := 4864

structure Books where
  world : ApiWorld
  threads : Threads
  allocs : ℕ
  frees : ℕ

namespace Books

def api (b : Books) : Api := b.world.api

def caches (b : Books) : Caches := b.threads.caches

/-- The value of `t_cache`. -/
def slot (b : Books) (t : ℕ) : ℕ := (b.caches.tls t).cache

def setWorld (b : Books) (w : ApiWorld) : Books := { b with world := w }

def setApi (b : Books) (a : Api) : Books := b.setWorld (b.world.setApi a)

def setCaches (b : Books) (c : Caches) : Books := { b with threads := b.threads.setCaches c }

/-- A call of the thread was answered `ptr`. -/
def give (b : Books) (t : ℕ) (counted : Bool) (a' : Api) (ptr size : ℕ) : Books :=
  { b.setWorld (b.world.answer a' ptr size) with
    threads := if counted ∧ ptr ≠ 0 then b.threads.setCaches (b.caches.recordAlloc t) else b.threads
    allocs := if ptr = 0 then b.allocs else b.allocs + 1 }

/-- The struct of a new cache was asked for, and `aligned_alloc` has answered `fresh`. -/
def opened (b : Books) (t : ℕ) (a' : Api) (fresh : ℕ) : Books :=
  { b.setWorld (b.world.answer a' fresh cacheStructSize) with
    threads := b.threads.setCaches (b.caches.getOrCreate t fresh).2
    allocs := if fresh = 0 then b.allocs else b.allocs + 1 }

/-- The first thing `v8m_free` does. -/
def recordFree (b : Books) (t : ℕ) : Books :=
  { b.setCaches (b.caches.recordFreeCache (b.slot t)) with frees := b.frees + 1 }

/-- The block is back. -/
def take (b : Books) (env : Env) (a' : Api) (ptr : ℕ) : Books :=
  (b.setWorld (b.world.release env a' ptr)).setCaches
    { b.caches with structs := b.caches.structs.erase ptr }

/-- The drained cache of the thread is off the registry, its struct not yet freed. -/
def retire (b : Books) (s : Sys) (t : ℕ) (v : Tls) : Books :=
  (b.setApi (b.api.setSys s)).setCaches (b.caches.detached t v)

/-- The thread is gone. -/
def exit (b : Books) (t : ℕ) : Books :=
  { b with threads := ⟨b.caches, insert t b.threads.exited⟩ }

end Books

/-! ### Calls that look for the cache of the thread -/

/-- `v8m_dispatch_alloc` comes to `v8m_thread_cache_get_or_create`. -/
def allocAsks (call : Call) (size : ℕ) : Bool :=
  call.useTlc && if sizeClass size < mediumFirstClass then call.arenaForCaller = arenaDefault
    else max size 1 ≤ buddyMaxBlock

def mallocAsks (env : Env) (a : Api) (size : ℕ) : Bool :=
  !(overSoftLimit env a size).1 && allocAsks (a.call env) size

def callocAsks (env : Env) (a : Api) (nmemb size : ℕ) : Bool :=
  nmemb * size < 2 ^ 64 && mallocAsks env a (nmemb * size)

/-- Requests above the natural alignment go past the caches. -/
def alignedAsks (env : Env) (a : Api) (alignment size : ℕ) : Bool :=
  isPow2 alignment && alignment ≤ mallocNaturalAlign && mallocAsks env a size

/-- `v8m_dispatch_free` comes to it. -/
def freeAsks (call : Call) (h : Heap) (ptr : ℕ) : Bool :=
  call.useTlc && match freeRoute call h ptr with
    | .slab page => page.arenaId = arenaDefault
    | .buddy => !call.softLimitActive
    | _ => false

/-- A call of thread `t` that looks for the cache of the thread, if it `asks`. To a request for
the struct of a new one `aligned_alloc` answers `fresh`. -/
inductive Opens (t : ℕ) (asks : Bool) (b : Books) (fresh : ℕ) : Books → Prop
  | skip : (asks = true → b.slot t = 0 → (b.caches.tls t).inDestructor = true) →
      Opens t asks b fresh b
  | create {env : Env} {a' : Api} : asks = true → b.slot t = 0 →
      (b.caches.tls t).inDestructor = false → env.call.thread = t → env.peek = false →
      env.call.cacheReady = false → env.Legal b.api cacheStructSize →
      v8mAlignedAlloc env b.api 64 cacheStructSize = .ok (fresh, a') →
      Opens t asks b fresh (b.opened t a' fresh)

theorem Opens.of_slot {t : ℕ} {b : Books} (asks : Bool) (fresh : ℕ) (hslot : b.slot t ≠ 0) :
    Opens t asks b fresh b := .skip fun _ hzero => absurd hzero hslot

/-- The environment of a call of thread `t` that begins at `b` and has its cache at `b₁`. -/
structure Env.By (env : Env) (t : ℕ) (b b₁ : Books) : Prop where
  thread : env.call.thread = t
  tlc : env.call.useTlc = true
  peek : env.peek = decide (b.slot t ≠ 0)
  ready : env.call.cacheReady = decide (b₁.slot t ≠ 0)

/-- `v8m_free` of a block of the dispatcher by thread `t`. -/
inductive Frees (t : ℕ) (env : Env) (ptr fresh : ℕ) (b : Books) : Books → Prop
  | mk {b₁ : Books} {a' : Api} : b.world.held ptr ≠ none →
      Opens t (freeAsks (b.api.call env) b.api.sys.heap ptr) (b.recordFree t) fresh b₁ →
      env.By t b b₁ → env.Knows b₁.api.sys.heap ptr → v8mFree env b₁.api ptr = .ok a' →
      a'.Apart → Frees t env ptr fresh b (b₁.take env a' ptr)

/-- The inlined way of `v8m_malloc` finds a slot. -/
def fastHit (env : Env) (a : Api) (size : ℕ) : Bool :=
  env.peek && decide (size ≤ smallMaxSize) && a.fastPathOk env &&
    decide ((a.sys.caches env.call.thread).binHeads (sizeClass size) ≠ 0)

inductive BookEvent where
  | malloc (env : Env) (size : ℕ)
  | calloc (nmemb size : ℕ)
  | alignedAlloc (alignment size : ℕ)
  | realloc (ptr size : ℕ)
  | free (ptr : ℕ)
  | initThread (t fresh : ℕ)
  | releaseThread (t fresh : ℕ)
  | threadExit (t : ℕ)
  | setSoftLimit (limit : ℕ)
  | setDebug (on : Bool)
  | purgeThread (t : ℕ)
  | upkeep
  | write (m' : Mem)
  | elsewhere (m' : Mem)

/-- One call of a running thread. The program frees its own blocks and not those of the library.
A thread whose key is stale cannot exit properly, so an exit finds the cache under the key. -/
inductive BookStep (b : Books) : BookEvent → Books → Prop
  | malloc {t size ptr fresh : ℕ} {env : Env} {a' : Api} {b₁ : Books} : t ∉ b.threads.exited →
      Opens t (mallocAsks env b.api size) b fresh b₁ → env.By t b b₁ → env.Legal b₁.api size →
      v8mMalloc env b₁.api size = .ok (ptr, a') →
      BookStep b (.malloc env size) (b₁.give t (!fastHit env b₁.api size) a' ptr size)
  | calloc {t nmemb size ptr fresh : ℕ} {env : Env} {a' : Api} {b₁ : Books} :
      t ∉ b.threads.exited → Opens t (callocAsks env b.api nmemb size) b fresh b₁ →
      env.By t b b₁ → env.Legal b₁.api (nmemb * size) → v8mCalloc env b₁.api nmemb size = .ok (ptr, a') →
      BookStep b (.calloc nmemb size) (b₁.give t true a' ptr (nmemb * size))
  | alignedAlloc {t alignment size ptr fresh : ℕ} {env : Env} {a' : Api} {b₁ : Books} :
      t ∉ b.threads.exited → Opens t (alignedAsks env b.api alignment size) b fresh b₁ →
      env.By t b b₁ → env.Legal b₁.api size →
      v8mAlignedAlloc env b₁.api alignment size = .ok (ptr, a') →
      BookStep b (.alignedAlloc alignment size) (b₁.give t true a' ptr size)
  | free {t ptr fresh : ℕ} {env : Env} {b' : Books} : t ∉ b.threads.exited →
      ptr ∉ b.caches.structs → Frees t env ptr fresh b b' → BookStep b (.free ptr) b'
  | freeNull : BookStep b (.free 0) b
  | reallocNull {t size ptr fresh : ℕ} {env : Env} {a' : Api} {b₁ : Books} :
      t ∉ b.threads.exited → Opens t (mallocAsks env b.api size) b fresh b₁ → env.By t b b₁ →
      env.Legal b₁.api size → doMallocPc env b₁.api size = .ok (ptr, a') →
      BookStep b (.realloc 0 size) (b₁.give t true a' ptr size)
  | reallocZero {t ptr fresh : ℕ} {env : Env} {b' : Books} : t ∉ b.threads.exited →
      ptr ∉ b.caches.structs → Frees t env ptr fresh b b' → BookStep b (.realloc ptr 0) b'
  | reallocKeep {ptr size : ℕ} : b.world.held ptr ≠ none → ptr ∉ b.caches.structs → size ≠ 0 →
      reallocInPlace b.api ptr size = true →
      BookStep b (.realloc ptr size) (b.setWorld (b.world.renote ptr size))
  | reallocFail {t ptr size fresh : ℕ} {env : Env} {a' : Api} {b₁ : Books} :
      t ∉ b.threads.exited → size ≠ 0 → reallocInPlace b.api ptr size = false →
      Opens t (mallocAsks env b.api size) b fresh b₁ → env.By t b b₁ → env.Legal b₁.api size →
      doMallocPc env b₁.api size = .ok (0, a') →
      BookStep b (.realloc ptr size) (b₁.give t true a' 0 size)
  | reallocMove {t ptr size new fresh freshFree : ℕ} {env envFree : Env} {mid filled : Api}
      {b₁ b' : Books} : t ∉ b.threads.exited → ptr ∉ b.caches.structs →
      b.world.held ptr ≠ none → size ≠ 0 → reallocInPlace b.api ptr size = false →
      Opens t (mallocAsks env b.api size) b fresh b₁ → env.By t b b₁ → env.Legal b₁.api size →
      doMallocPc env b₁.api size = .ok (new, mid) → new ≠ 0 →
      reallocFill env mid (reallocOldUsable b.api ptr) new ptr size = filled →
      PlainChange mid.sys.heap.mem filled.sys.heap.mem →
      Frees t envFree ptr freshFree ((b₁.give t true mid new size).setApi filled) b' →
      BookStep b (.realloc ptr size) b'
  | initThread {t fresh : ℕ} {b₁ : Books} : t ∉ b.threads.exited → Opens t true b fresh b₁ →
      BookStep b (.initThread t fresh) b₁
  | release {t fresh : ℕ} {call : Call} {env : Env} {all l2 : ℕ × Sys} {s : Sys} {b' : Books} :
      t ∉ b.threads.exited → b.slot t ≠ 0 → call.thread = t →
      dispatchDrainAll call b.api.sys = .ok all → dispatchDrainLocalL2 call all.2 = .ok l2 →
      retireCache call l2.2 = .ok s → (b.api.setSys s).Apart →
      Frees t env (b.slot t) fresh (b.retire s t { b.caches.tls t with cache := 0 }) b' →
      BookStep b (.releaseThread t fresh) b'
  | releaseNone {t fresh : ℕ} {call : Call} {l2 : ℕ × Sys} : t ∉ b.threads.exited → b.slot t = 0 →
      call.thread = t → dispatchDrainLocalL2 call b.api.sys = .ok l2 →
      (b.api.setSys l2.2).Apart →
      BookStep b (.releaseThread t fresh) (b.setApi (b.api.setSys l2.2))
  | exit {t fresh : ℕ} {call : Call} {env : Env} {s : Sys} {b' : Books} : t ∉ b.threads.exited →
      (b.caches.tls t).key = b.slot t → b.slot t ≠ 0 → call.thread = t →
      retireCache call b.api.sys = .ok s → (b.api.setSys s).Apart →
      Frees t env (b.slot t) fresh ((b.retire s t ⟨0, 0, false, true⟩).exit t) b' →
      BookStep b (.threadExit t) b'
  | exitNone {t : ℕ} : t ∉ b.threads.exited → (b.caches.tls t).key = 0 → b.slot t = 0 →
      BookStep b (.threadExit t) (b.exit t)
  | setSoftLimit (limit : ℕ) : BookStep b (.setSoftLimit limit)
      ((b.setApi { b.api with softLimit := limit }).setCaches { b.caches with softLimit := limit })
  | setDebug (on : Bool) : BookStep b (.setDebug on) (b.setApi { b.api with debug := on })
  | purgeThread {t : ℕ} {call : Call} {all medium : ℕ × Sys} : t ∉ b.threads.exited →
      b.slot t ≠ 0 → call.thread = t → dispatchDrainAll call b.api.sys = .ok all →
      dispatchDrainMedium call all.2 = .ok medium → (b.api.setSys medium.2).Apart →
      BookStep b (.purgeThread t) (b.setApi (b.api.setSys medium.2))
  | drainL2 {call : Call} {l2 : ℕ × Sys} : dispatchDrainLocalL2 call b.api.sys = .ok l2 →
      (b.api.setSys l2.2).Apart → BookStep b .upkeep (b.setApi (b.api.setSys l2.2))
  | bgTick : (b.api.setSys (dispatchBgTick b.api.sys)).Apart →
      BookStep b .upkeep (b.setApi (b.api.setSys (dispatchBgTick b.api.sys)))
  | purgeDrained : (b.api.setSys (dispatchPurgeDrained b.api.sys)).Apart →
      BookStep b .upkeep (b.setApi (b.api.setSys (dispatchPurgeDrained b.api.sys)))
  | write {m' : Mem} : b.world.world.Writes m' →
      BookStep b (.write m') (b.setApi (b.api.setMem m'))
  | elsewhere {m' : Mem} : (∀ x, b.api.sys.heap.Taken x → m' x = b.api.sys.heap.mem x) →
      BookStep b (.elsewhere m') (b.setApi (b.api.setMem m'))

/-- The library in service, with no block handed out. -/
def Books.init (a : Api) : Books := ⟨⟨a, fun _ => none, fun _ => none, ∅⟩, .init, 0, 0⟩

/-- Books reached by calls that all meet `ok`. -/
inductive BookRun (ok : Books → BookEvent → Prop) : Books → Prop
  | init (p : BuddyPool) {bootstrapBuffer signalSafeBuffer : ℕ} :
      0 < bootstrapBuffer → 0 < signalSafeBuffer →
      bootstrapBuffer + bootstrapSize ≤ signalSafeBuffer ∨
        signalSafeBuffer + signalSafeSize ≤ bootstrapBuffer →
      BookRun ok (.init { Api.load p bootstrapBuffer signalSafeBuffer with initState := .ready })
  | step {b b' : Books} {e : BookEvent} : BookRun ok b → ok b e → BookStep b e b' → BookRun ok b'

/-! ### Totals -/

section Totals

variable {c : Caches} {t fresh p : ℕ}

/-- One more for a cache that is on the list once. -/
theorem sum_map_update {xs : List ℕ} (hnodup : xs.Nodup) (hp : p ∈ xs) (f : ℕ → BitVec 64)
    (v : BitVec 64) : (xs.map (update f p (f p + v))).sum = (xs.map f).sum + v := by
  have hrest : (xs.erase p).map (update f p (f p + v)) = (xs.erase p).map f := by
    apply List.map_congr_left
    intro q hq
    rw [update_of_ne (hnodup.mem_erase_iff.1 hq).1]
  have hnew := List.sum_map_erase (update f p (f p + v)) hp
  have hold := List.sum_map_erase f hp
  rw [← hnew, ← hold, hrest, update_self]
  ring

theorem sum_map_update_of_notMem {xs : List ℕ} (hp : p ∉ xs) (f : ℕ → BitVec 64) (v : BitVec 64) :
    (xs.map (update f p v)).sum = (xs.map f).sum := by
  congr 1
  apply List.map_congr_left
  intro q hq
  rw [update_of_ne]
  rintro rfl
  exact hp hq

theorem CacheInv.mem_registry (hc : CacheInv c) (h : (c.tls t).cache ≠ 0) :
    (c.tls t).cache ∈ c.registry := (hc.registered _).2 ⟨h, t, rfl⟩

theorem totals_recordAlloc (hc : CacheInv c) (t : ℕ) :
    (c.recordAlloc t).totalAllocCount = c.totalAllocCount + 1 ∧
      (c.recordAlloc t).totalFreeCount = c.totalFreeCount := by
  unfold Caches.recordAlloc
  by_cases hcache : (c.tls t).cache = 0
  · simp [hcache, Caches.totalAllocCount, Caches.totalFreeCount, add_assoc]
  · have hsum := sum_map_update hc.nodup (hc.mem_registry hcache) c.localAllocCount 1
    simp only [ne_eq, hcache, not_false_eq_true, if_true, Caches.totalAllocCount,
      Caches.totalFreeCount, hsum, and_true]
    ring

theorem totals_recordFree (hc : CacheInv c) (t : ℕ) :
    (c.recordFreeCache (c.tls t).cache).totalAllocCount = c.totalAllocCount ∧
      (c.recordFreeCache (c.tls t).cache).totalFreeCount = c.totalFreeCount + 1 := by
  unfold Caches.recordFreeCache
  by_cases hcache : (c.tls t).cache = 0
  · simp [hcache, Caches.totalAllocCount, Caches.totalFreeCount, add_assoc]
  · have hsum := sum_map_update hc.nodup (hc.mem_registry hcache) c.localFreeCount 1
    simp only [ne_eq, hcache, not_false_eq_true, if_true, Caches.totalAllocCount,
      Caches.totalFreeCount, hsum, true_and]
    ring

theorem totals_created (hc : CacheInv c) (hne : fresh ≠ 0) (hfresh : fresh ∉ c.structs) :
    (c.created t fresh).totalAllocCount = c.totalAllocCount + 1 ∧
      (c.created t fresh).totalFreeCount = c.totalFreeCount := by
  have hnew : fresh ∉ c.registry := by
    intro hmem
    obtain ⟨-, u, hu⟩ := (hc.registered fresh).1 hmem
    exact hfresh (hu ▸ hc.live u (hu ▸ hne))
  simp only [Caches.created, Caches.totalAllocCount, Caches.totalFreeCount, List.map_cons,
    List.sum_cons, update_self, sum_map_update_of_notMem hnew]
  constructor <;> ring

/-- The counts of a cache that leaves the registry are folded into the global ones. -/
theorem totals_detached (hc : CacheInv c) (hcache : (c.tls t).cache ≠ 0) (v : Tls) :
    (c.detached t v).totalAllocCount = c.totalAllocCount ∧
      (c.detached t v).totalFreeCount = c.totalFreeCount := by
  have hmem := hc.mem_registry hcache
  have hallocs := List.sum_map_erase c.localAllocCount hmem
  have hfrees := List.sum_map_erase c.localFreeCount hmem
  simp only [Caches.detached, Caches.registryUnregisterAndFold, if_neg hcache, Caches.setTls,
    Caches.foldAllocFree, Caches.totalAllocCount, Caches.totalFreeCount, ← hallocs, ← hfrees]
  constructor <;> ring

end Totals

/-! ### What a call leaves alone -/

section Calls

variable {a a' : Api} {env : Env} {size ptr : ℕ}

theorem caches_bootstrapAlloc (hok : bootstrapAlloc a size = .ok (ptr, a')) :
    a'.sys.caches = a.sys.caches := by
  unfold bootstrapAlloc at hok
  dsimp only at hok
  split_ifs at hok
  obtain ⟨-, rfl⟩ := Prod.mk.inj (Except.ok.inj hok)
  rfl

theorem Given.ownCache {blk : Blocks} {held : Set ℕ} (hgiven : Given env a blk held size ptr a') :
    OwnCache env a.sys a'.sys := by
  cases hgiven with
  | @block s' g hanswer hfoot hissued hown heq =>
    rw [heq, postAllocRecord_sys]
    exact hown
  | piece hready hok => exact .of_eq (caches_bootstrapAlloc hok)

end Calls

end V8Malloc
