import Mathlib.Data.Finset.Basic
import Mathlib.Data.List.Nodup
import Mathlib.Data.BitVec
import Mathlib.Tactic.Common

/-!
# The life of a thread cache

Embedding of the creation, release and destruction of caches in
`v8m_thread_cache.c`, with the operation counts that a dying cache hands over.
Every thread has a slot `t_cache`, two flags and a value under the key whose
destructor runs at thread exit; all caches are on one registry list. The struct
of a cache comes from `aligned_alloc` and goes back through `free`, and the free
of a buddy block looks for a cache of its own unless a soft limit is set.

The drains before a release touch the slots of the cache only, so they are not
part of this state.
-/
namespace V8Malloc

open Function

/-- The thread-local variables, with the thread's value under the destructor key. -/
structure Tls where
  cache : ℕ
  key : ℕ
  inCreate : Bool
  inDestructor : Bool
  deriving DecidableEq, Repr

/-- A second `free` of a struct, or a destructor run on a struct that was freed. -/
inductive Misuse where
  | freedTwice
  | destroyedFreed
  deriving DecidableEq, Repr

/-- `structs` are those that `aligned_alloc` has handed out and `free` has not taken back. -/
structure Caches where
  tls : ℕ → Tls
  registry : List ℕ
  structs : Finset ℕ
  softLimit : ℕ
  localAllocCount : ℕ → BitVec 64
  localFreeCount : ℕ → BitVec 64
  allocCount : BitVec 64
  freeCount : BitVec 64

namespace Caches

/-- As `v8m_thread_cache_module_init` finds them. -/
def init : Caches where
  tls := fun _ => ⟨0, 0, false, false⟩
  registry := []
  structs := ∅
  softLimit := 0
  localAllocCount := fun _ => 0
  localFreeCount := fun _ => 0
  allocCount := 0
  freeCount := 0

def setTls (c : Caches) (t : ℕ) (v : Tls) : Caches := { c with tls := update c.tls t v }

/-! ### Counts -/

def recordAlloc (c : Caches) (t : ℕ) : Caches :=
  let cache := (c.tls t).cache
  if cache ≠ 0 then
    { c with localAllocCount :=
        update c.localAllocCount cache (c.localAllocCount cache + 1) }
  else { c with allocCount := c.allocCount + 1 }

def recordFreeCache (c : Caches) (cache : ℕ) : Caches :=
  if cache ≠ 0 then
    { c with localFreeCount :=
        update c.localFreeCount cache (c.localFreeCount cache + 1) }
  else { c with freeCount := c.freeCount + 1 }

def foldAllocFree (c : Caches) (allocs frees : BitVec 64) : Caches :=
  { c with allocCount := c.allocCount + allocs, freeCount := c.freeCount + frees }

def totalAllocCount (c : Caches) : BitVec 64 :=
  (c.registry.map c.localAllocCount).sum + c.allocCount

def totalFreeCount (c : Caches) : BitVec 64 :=
  (c.registry.map c.localFreeCount).sum + c.freeCount

/-! ### Creation -/

/-- The nested `aligned_alloc`, which answers `fresh`. -/
def structAlloc (c : Caches) (t fresh : ℕ) : Caches :=
  if fresh = 0 then c else recordAlloc { c with structs := insert fresh c.structs } t

/-- The cleared struct becomes the cache of the thread. -/
def install (c : Caches) (t fresh : ℕ) : Caches :=
  { c with
    tls := update c.tls t { c.tls t with cache := fresh, key := fresh }
    registry := fresh :: c.registry
    localAllocCount := update c.localAllocCount fresh 0
    localFreeCount := update c.localFreeCount fresh 0 }

def getOrCreate (c : Caches) (t fresh : ℕ) : ℕ × Caches :=
  let tls := c.tls t
  if tls.cache ≠ 0 then (tls.cache, c)
  else if tls.inCreate || tls.inDestructor then (0, c)
  else
    let c := (c.setTls t { tls with inCreate := true }).structAlloc t fresh
    let c := c.setTls t { c.tls t with inCreate := false }
    if fresh = 0 then (0, c) else (fresh, c.install t fresh)

/-! ### Release and destruction -/

def registryUnregisterAndFold (c : Caches) (cache : ℕ) : Caches :=
  if cache = 0 then c
  else { c with registry := c.registry.erase cache }.foldAllocFree (c.localAllocCount cache)
    (c.localFreeCount cache)

/-- `free(cache)`. The struct is a buddy block, so without a soft limit the dispatcher first
asks for the cache of the thread; that cache may be created here. -/
def freeStruct (c : Caches) (t fresh cache : ℕ) : Except Misuse Caches :=
  if cache ∉ c.structs then .error .freedTwice
  else
    let c := c.recordFreeCache (c.tls t).cache
    let c := if c.softLimit = 0 then (c.getOrCreate t fresh).2 else c
    .ok { c with structs := c.structs.erase cache }

/-- The value under the key stays. -/
def releaseLocal (c : Caches) (t fresh : ℕ) : Except Misuse Caches :=
  let cache := (c.tls t).cache
  if cache = 0 then .ok c
  else
    let c := c.registryUnregisterAndFold cache
    (c.setTls t { c.tls t with cache := 0 }).freeStruct t fresh cache

def destroyCache (c : Caches) (t fresh cache : ℕ) : Except Misuse Caches :=
  if cache = 0 then .ok c
  else if cache ∉ c.structs then .error .destroyedFreed
  else
    let c := c.registryUnregisterAndFold cache
    (c.setTls t { c.tls t with cache := 0, inDestructor := true }).freeStruct t fresh cache

/-- The runtime resets the value under the key and runs the destructor on the old one. -/
def threadExit (c : Caches) (t fresh : ℕ) : Except Misuse Caches :=
  (c.setTls t { c.tls t with key := 0 }).destroyCache t fresh (c.tls t).key

end Caches

/-! ### Histories -/

/-- What concerns the caches in a call of a thread; `fresh` is what the `aligned_alloc` for a
new struct answers, if the call comes to it. -/
inductive CacheEvent where
  | getOrCreate (t fresh : ℕ)
  | releaseThread (t fresh : ℕ)
  | threadExit (t fresh : ℕ)
  | setSoftLimit (limit : ℕ)
  deriving DecidableEq, Repr

structure Threads where
  caches : Caches
  exited : Finset ℕ

namespace Threads

def init : Threads := ⟨.init, ∅⟩

def setCaches (x : Threads) (c : Caches) : Threads := { x with caches := c }

def step (x : Threads) : CacheEvent → Except Misuse Threads
  | .getOrCreate t fresh => .ok (x.setCaches (x.caches.getOrCreate t fresh).2)
  | .releaseThread t fresh => x.setCaches <$> x.caches.releaseLocal t fresh
  | .threadExit t fresh => (⟨·, insert t x.exited⟩) <$> x.caches.threadExit t fresh
  | .setSoftLimit limit => .ok (x.setCaches { x.caches with softLimit := limit })

/-- Only running threads call, and `aligned_alloc` answers no struct that is in use. -/
def Admits (x : Threads) : CacheEvent → Prop
  | .getOrCreate t fresh => t ∉ x.exited ∧ fresh ∉ x.caches.structs
  | .releaseThread t fresh => t ∉ x.exited ∧ fresh ∉ x.caches.structs
  | .threadExit t fresh => t ∉ x.exited ∧ fresh ∉ x.caches.structs
  | .setSoftLimit _ => True

instance (x : Threads) (e : CacheEvent) : Decidable (x.Admits e) := by
  cases e <;> unfold Admits <;> infer_instance

end Threads

/-- States reached by calls that all meet `ok`. -/
inductive CacheRun (ok : Threads → CacheEvent → Prop) : Threads → Prop
  | init : CacheRun ok .init
  | step {x x' : Threads} {e : CacheEvent} : CacheRun ok x → x.Admits e → ok x e →
      x.step e = .ok x' → CacheRun ok x'

/-! ### Slots and registry -/

/-- The slots of the threads and the registry agree. -/
structure CacheInv (c : Caches) : Prop where
  registered : ∀ p, p ∈ c.registry ↔ p ≠ 0 ∧ ∃ t, (c.tls t).cache = p
  nodup : c.registry.Nodup
  distinct : ∀ t u, (c.tls t).cache ≠ 0 → (c.tls t).cache = (c.tls u).cache → t = u
  live : ∀ t, (c.tls t).cache ≠ 0 → (c.tls t).cache ∈ c.structs
  idle : ∀ t, (c.tls t).inCreate = false

theorem cacheInv_init : CacheInv .init where
  registered := by simp [Caches.init, eq_comm]
  nodup := List.nodup_nil
  distinct := by simp [Caches.init]
  live := by simp [Caches.init]
  idle := by simp [Caches.init]

variable {c c' : Caches} {t u fresh p : ℕ}

namespace Caches

/-- The state after a struct was handed out and became the cache of the thread. -/
def created (c : Caches) (t fresh : ℕ) : Caches :=
  { c with
    tls := update c.tls t ⟨fresh, fresh, false, false⟩
    registry := fresh :: c.registry
    structs := insert fresh c.structs
    localAllocCount := update c.localAllocCount fresh 0
    localFreeCount := update c.localFreeCount fresh 0
    allocCount := c.allocCount + 1 }

theorem setTls_self (c : Caches) (t : ℕ) : c.setTls t (c.tls t) = c := by
  simp [setTls]

/-- A call that comes to the creation either installs the struct or changes nothing. -/
theorem getOrCreate_cases (c : Caches) (t fresh : ℕ) (hidle : (c.tls t).inCreate = false) :
    (c.getOrCreate t fresh).2 = c ∧
        ((c.tls t).cache ≠ 0 ∨ (c.tls t).inDestructor = true ∨ fresh = 0) ∨
      (c.getOrCreate t fresh).2 = c.created t fresh ∧
        (c.tls t).cache = 0 ∧ (c.tls t).inDestructor = false ∧ fresh ≠ 0 := by
  unfold getOrCreate
  by_cases hcache : (c.tls t).cache = 0
  · by_cases hdead : (c.tls t).inDestructor = true
    · simp [hcache, hdead]
    · by_cases hfresh : fresh = 0
      · have hsame : ({ c.tls t with inCreate := false } : Tls) = c.tls t := by rw [← hidle]
        have hupdate := setTls_self c t
        simp_all [structAlloc, setTls]
      · right
        simp [hcache, hdead, hidle, hfresh, structAlloc, setTls, recordAlloc, install, created]
  · simp [hcache]

end Caches

theorem CacheInv.created (hc : CacheInv c) (hcache : (c.tls t).cache = 0) (hne : fresh ≠ 0)
    (hfresh : fresh ∉ c.structs) : CacheInv (c.created t fresh) := by
  have hnew : ∀ u, (c.tls u).cache ≠ fresh := fun u heq =>
    hfresh (heq ▸ hc.live u (heq ▸ hne))
  constructor
  case registered =>
    intro p
    simp only [Caches.created, List.mem_cons, hc.registered]
    constructor
    · rintro (rfl | ⟨hp, u, hu⟩)
      · exact ⟨hne, t, by simp⟩
      · have hut : u ≠ t := fun h => hp (by rw [← hu, h, hcache])
        exact ⟨hp, u, by simpa [update_of_ne hut] using hu⟩
    · rintro ⟨hp, u, hu⟩
      by_cases hut : u = t
      · left
        simpa [hut] using hu.symm
      · right
        exact ⟨hp, u, by simpa [update_of_ne hut] using hu⟩
  case nodup =>
    apply List.nodup_cons.2
    refine ⟨fun hmem => ?_, hc.nodup⟩
    obtain ⟨-, u, hu⟩ := (hc.registered fresh).1 hmem
    exact hnew u hu
  case distinct =>
    intro u v hu huv
    by_cases hut : u = t <;> by_cases hvt : v = t
    · rw [hut, hvt]
    · have hv := hnew v
      simp_all [Caches.created]
    · have hu := hnew u
      simp_all [Caches.created]
    · exact hc.distinct u v (by simpa [Caches.created, hut] using hu)
        (by simpa [Caches.created, hut, hvt] using huv)
  case live =>
    intro u hu
    by_cases hut : u = t
    · simp [Caches.created, hut]
    · simp only [Caches.created, update_of_ne hut] at hu ⊢
      exact Finset.mem_insert_of_mem (hc.live u hu)
  case idle =>
    intro u
    by_cases hut : u = t
    · simp [Caches.created, hut]
    · simpa [Caches.created, hut] using hc.idle u

theorem CacheInv.getOrCreate (hc : CacheInv c) (hfresh : fresh ∉ c.structs) :
    CacheInv (c.getOrCreate t fresh).2 := by
  rcases c.getOrCreate_cases t fresh (hc.idle t) with ⟨heq, -⟩ | ⟨heq, hcache, -, hne⟩
  · rwa [heq]
  · rw [heq]
    exact hc.created hcache hne hfresh

/-- The slot of the thread is cleared and its cache leaves the registry. -/
def Caches.detached (c : Caches) (t : ℕ) (v : Tls) : Caches :=
  (c.registryUnregisterAndFold (c.tls t).cache).setTls t v

section Detached

variable (hcache : (c.tls t).cache ≠ 0) (v : Tls)
include hcache

theorem Caches.tls_detached : (c.detached t v).tls = update c.tls t v := by
  simp [detached, registryUnregisterAndFold, hcache, setTls, foldAllocFree]

theorem Caches.registry_detached :
    (c.detached t v).registry = c.registry.erase (c.tls t).cache := by
  simp [detached, registryUnregisterAndFold, hcache, setTls, foldAllocFree]

theorem Caches.structs_detached : (c.detached t v).structs = c.structs := by
  simp [detached, registryUnregisterAndFold, hcache, setTls, foldAllocFree]

end Detached

theorem CacheInv.detached (hc : CacheInv c) (hcache : (c.tls t).cache ≠ 0) {v : Tls}
    (hv : v.cache = 0) (hidle : v.inCreate = false) : CacheInv (c.detached t v) := by
  have htls := Caches.tls_detached hcache v
  have hreg := Caches.registry_detached hcache v
  have hstructs := Caches.structs_detached hcache v
  constructor
  case registered =>
    intro p
    rw [hreg, htls, hc.nodup.mem_erase_iff, hc.registered]
    constructor
    · rintro ⟨hne, hp, u, hu⟩
      have hut : u ≠ t := fun h => hne (by rw [← hu, h])
      exact ⟨hp, u, by rwa [update_of_ne hut]⟩
    · rintro ⟨hp, u, hu⟩
      have hut : u ≠ t := fun h => hp (by rw [← hu, h, update_self, hv])
      rw [update_of_ne hut] at hu
      exact ⟨fun h => hut (hc.distinct u t (hu ▸ hp) (hu.trans h)), hp, u, hu⟩
  case nodup =>
    rw [hreg]
    exact hc.nodup.erase _
  case distinct =>
    intro u w hu huw
    rw [htls] at hu huw
    by_cases hut : u = t
    · simp [hut, hv] at hu
    · by_cases hwt : w = t
      · simp_all
      · rw [update_of_ne hut] at hu huw
        rw [update_of_ne hwt] at huw
        exact hc.distinct u w hu huw
  case live =>
    intro u hu
    rw [htls] at hu ⊢
    rw [hstructs]
    by_cases hut : u = t
    · simp [hut, hv] at hu
    · rw [update_of_ne hut] at hu ⊢
      exact hc.live u hu
  case idle =>
    intro u
    rw [htls]
    by_cases hut : u = t
    · rw [hut, update_self, hidle]
    · rw [update_of_ne hut]
      exact hc.idle u

/-- The invariant reads the slots, the registry and the structs only. -/
theorem CacheInv.congr (hc : CacheInv c) (hcache : ∀ t, (c'.tls t).cache = (c.tls t).cache)
    (hidle : ∀ t, (c'.tls t).inCreate = (c.tls t).inCreate) (hreg : c'.registry = c.registry)
    (hlive : ∀ t, (c.tls t).cache ≠ 0 → (c.tls t).cache ∈ c'.structs) : CacheInv c' where
  registered := by simpa only [hcache, hreg] using hc.registered
  nodup := by rw [hreg]; exact hc.nodup
  distinct := by simpa only [hcache] using hc.distinct
  live := by simpa only [hcache] using hlive
  idle := by simpa only [hidle] using hc.idle

/-! ### Giving a struct back -/

namespace Caches

/-- Whether the free of a struct creates a cache for a thread that has none. -/
def Recreates (c : Caches) (t fresh : ℕ) : Prop :=
  c.softLimit = 0 ∧ (c.tls t).inDestructor = false ∧ fresh ≠ 0

instance (c : Caches) (t fresh : ℕ) : Decidable (c.Recreates t fresh) := by
  unfold Recreates
  infer_instance

/-- The free is counted outside any cache. -/
def recorded (c : Caches) : Caches := { c with freeCount := c.freeCount + 1 }

/-- The state in which the struct goes back to its pool. -/
def beforeErase (c : Caches) (t fresh : ℕ) : Caches :=
  if c.Recreates t fresh then c.recorded.created t fresh else c.recorded

theorem freeStruct_eq (hidle : (c.tls t).inCreate = false) (hcache : (c.tls t).cache = 0)
    (hp : p ∈ c.structs) : c.freeStruct t fresh p = .ok { c.beforeErase t fresh with
      structs := (c.beforeErase t fresh).structs.erase p } := by
  have hget : (if c.recorded.softLimit = 0 then (c.recorded.getOrCreate t fresh).2
      else c.recorded) = c.beforeErase t fresh := by
    unfold beforeErase
    rcases c.recorded.getOrCreate_cases t fresh hidle with
      ⟨heq, hsame⟩ | ⟨heq, -, hdead, hne⟩
    · rw [heq, ite_self, if_neg]
      rintro ⟨-, hdead, hne⟩
      rcases hsame with h | h | h
      · exact h hcache
      · exact Bool.false_ne_true (hdead.symm.trans h)
      · exact hne h
    · rw [heq]
      apply if_congr _ rfl rfl
      exact ⟨fun hlimit => ⟨hlimit, hdead, hne⟩, fun hnew => hnew.1⟩
  have hrecord : c.recordFreeCache (c.tls t).cache = c.recorded := by
    simp [recordFreeCache, hcache, recorded]
  simp only [freeStruct, hp, not_true_eq_false, if_false, hrecord, hget]

theorem beforeErase_tls_of_ne (h : u ≠ t) : (c.beforeErase t fresh).tls u = c.tls u := by
  unfold beforeErase
  split_ifs <;> simp [created, recorded, h]

theorem beforeErase_tls_self : (c.beforeErase t fresh).tls t =
    if c.Recreates t fresh then ⟨fresh, fresh, false, false⟩ else c.tls t := by
  unfold beforeErase
  split_ifs <;> simp [created, recorded]

end Caches

theorem CacheInv.beforeErase (hc : CacheInv c) (hcache : (c.tls t).cache = 0)
    (hfresh : fresh ∉ c.structs) : CacheInv (c.beforeErase t fresh) := by
  have hrecorded : CacheInv c.recorded := hc.congr (fun _ => rfl) (fun _ => rfl) rfl hc.live
  unfold Caches.beforeErase
  split_ifs with hnew
  · exact hrecorded.created hcache hnew.2.2 hfresh
  · exact hrecorded

/-- A struct that is no thread's cache can be given back. -/
theorem CacheInv.freeStruct (hc : CacheInv c) (hcache : (c.tls t).cache = 0)
    (hp : p ∈ c.structs) (hnone : ∀ u, (c.tls u).cache ≠ p) (hfresh : fresh ∉ c.structs) :
    ∃ c', c.freeStruct t fresh p = .ok c' ∧ CacheInv c' ∧
      c'.tls = (c.beforeErase t fresh).tls := by
  have hbefore := hc.beforeErase hcache hfresh
  refine ⟨_, Caches.freeStruct_eq (hc.idle t) hcache hp, ?_, rfl⟩
  refine hbefore.congr (fun _ => rfl) (fun _ => rfl) rfl fun u hu => ?_
  refine Finset.mem_erase.2 ⟨?_, hbefore.live u hu⟩
  by_cases hut : u = t
  · rw [hut, Caches.beforeErase_tls_self] at hu ⊢
    split_ifs with hnew
    · rintro rfl
      exact hfresh hp
    · exact hnone t
  · rw [Caches.beforeErase_tls_of_ne hut]
    exact hnone u

theorem CacheInv.detached_free (hc : CacheInv c) (hcache : (c.tls t).cache ≠ 0) {v : Tls}
    (hv : v.cache = 0) (hidle : v.inCreate = false) (hfresh : fresh ∉ c.structs) :
    ∃ c', (c.detached t v).freeStruct t fresh (c.tls t).cache = .ok c' ∧ CacheInv c' ∧
      c'.tls = ((c.detached t v).beforeErase t fresh).tls := by
  have hd := hc.detached hcache hv hidle
  have htls := Caches.tls_detached hcache v
  have hstructs := Caches.structs_detached hcache v
  refine hd.freeStruct (by rw [htls, update_self, hv]) ?_ (fun u hu => ?_) ?_
  · rw [hstructs]
    exact hc.live t hcache
  · have hmem := (hd.registered _).2 ⟨hcache, u, hu⟩
    rw [Caches.registry_detached hcache, hc.nodup.mem_erase_iff] at hmem
    exact hmem.1 rfl
  · rwa [hstructs]

/-! ### Runs -/

variable {x x' : Threads} {e : CacheEvent}

/-- A thread that has a cache releases it only while no soft limit is set, and the struct of the
cache that replaces it can be allocated. -/
def ReplacesCache (x : Threads) : CacheEvent → Prop
  | .releaseThread t fresh => (x.caches.tls t).cache ≠ 0 → x.caches.softLimit = 0 ∧ fresh ≠ 0
  | _ => True

/-- What is to hold between calls. -/
structure Paired (x : Threads) : Prop where
  key : ∀ t ∉ x.exited, (x.caches.tls t).key = (x.caches.tls t).cache
  registered : ∀ p, p ∈ x.caches.registry ↔ p ≠ 0 ∧ ∃ t, (x.caches.tls t).cache = p
  once : x.caches.registry.Nodup

/-- Running threads have not begun their destructors, and the key has the cache. -/
structure ThreadsInv (x : Threads) : Prop where
  caches : CacheInv x.caches
  key : ∀ t ∉ x.exited, (x.caches.tls t).key = (x.caches.tls t).cache
  running : ∀ t ∉ x.exited, (x.caches.tls t).inDestructor = false

theorem ThreadsInv.paired (hx : ThreadsInv x) : Paired x :=
  ⟨hx.key, hx.caches.registered, hx.caches.nodup⟩

theorem threadsInv_init : ThreadsInv .init where
  caches := cacheInv_init
  key := by simp [Threads.init, Caches.init]
  running := by simp [Threads.init, Caches.init]

theorem ThreadsInv.getOrCreate (hx : ThreadsInv x) (hfresh : fresh ∉ x.caches.structs) :
    ThreadsInv (x.setCaches (x.caches.getOrCreate t fresh).2) := by
  have hinv := hx.caches.getOrCreate (t := t) hfresh
  rcases x.caches.getOrCreate_cases t fresh (hx.caches.idle t) with ⟨heq, -⟩ | ⟨heq, -, -, -⟩
  · rw [heq]
    exact hx
  · rw [heq] at hinv ⊢
    refine ⟨hinv, fun u hu => ?_, fun u hu => ?_⟩ <;> by_cases hut : u = t
    · simp [Threads.setCaches, Caches.created, hut]
    · simpa [Threads.setCaches, Caches.created, hut] using hx.key u hu
    · simp [Threads.setCaches, Caches.created, hut]
    · simpa [Threads.setCaches, Caches.created, hut] using hx.running u hu

/-- A release never frees a struct twice, whatever the soft limit is. -/
theorem releaseLocal_ok (hx : ThreadsInv x) (ht : t ∉ x.exited)
    (hfresh : fresh ∉ x.caches.structs) : ∃ c', x.caches.releaseLocal t fresh = .ok c' ∧
      CacheInv c' ∧ (∀ u ≠ t, c'.tls u = x.caches.tls u) ∧
      ((x.caches.tls t).cache = 0 ∧ c' = x.caches ∨ (x.caches.tls t).cache ≠ 0 ∧
        c'.tls t = if x.caches.softLimit = 0 ∧ fresh ≠ 0 then ⟨fresh, fresh, false, false⟩
          else { x.caches.tls t with cache := 0 }) := by
  by_cases hcache : (x.caches.tls t).cache = 0
  · exact ⟨x.caches, by simp [Caches.releaseLocal, hcache], hx.caches, fun _ _ => rfl,
      Or.inl ⟨hcache, rfl⟩⟩
  · obtain ⟨c', hok, hinv, htls⟩ := hx.caches.detached_free hcache
      (v := { x.caches.tls t with cache := 0 }) rfl (hx.caches.idle t) hfresh
    have hdetached := Caches.tls_detached hcache { x.caches.tls t with cache := 0 }
    refine ⟨c', ?_, hinv, fun u hu => ?_, Or.inr ⟨hcache, ?_⟩⟩
    · rw [← hok]
      simp [Caches.releaseLocal, hcache, Caches.detached, Caches.registryUnregisterAndFold,
        Caches.foldAllocFree]
    · rw [htls, Caches.beforeErase_tls_of_ne hu, hdetached, update_of_ne hu]
    · rw [htls, Caches.beforeErase_tls_self, hdetached, update_self]
      apply if_congr _ rfl rfl
      simp [Caches.Recreates, hx.running t ht, Caches.detached,
        Caches.registryUnregisterAndFold, hcache, Caches.setTls, Caches.foldAllocFree]

theorem ThreadsInv.release (hx : ThreadsInv x) (ht : t ∉ x.exited)
    (hfresh : fresh ∉ x.caches.structs)
    (hok : (x.caches.tls t).cache ≠ 0 → x.caches.softLimit = 0 ∧ fresh ≠ 0)
    (hrelease : x.caches.releaseLocal t fresh = .ok c') : ThreadsInv (x.setCaches c') := by
  obtain ⟨c₁, hc₁, hinv, hothers, hself⟩ := releaseLocal_ok hx ht hfresh
  obtain rfl : c₁ = c' := Except.ok.inj (hc₁.symm.trans hrelease)
  rcases hself with ⟨-, rfl⟩ | ⟨hcache, hself⟩
  · exact hx
  · rw [if_pos (hok hcache)] at hself
    refine ⟨hinv, fun u hu => ?_, fun u hu => ?_⟩ <;> by_cases hut : u = t
    · simp [Threads.setCaches, hut, hself]
    · simpa [Threads.setCaches, hothers u hut] using hx.key u hu
    · simp [Threads.setCaches, hut, hself]
    · simpa [Threads.setCaches, hothers u hut] using hx.running u hu

/-- The destructor finds the struct of the thread's own cache, and latches the thread. -/
theorem threadExit_ok (hx : ThreadsInv x) (ht : t ∉ x.exited)
    (hfresh : fresh ∉ x.caches.structs) : ∃ c', x.caches.threadExit t fresh = .ok c' ∧
      CacheInv c' ∧ ∀ u ≠ t, c'.tls u = x.caches.tls u := by
  have hkey := hx.key t ht
  have hreset : CacheInv (x.caches.setTls t { x.caches.tls t with key := 0 }) := by
    refine hx.caches.congr (fun u => ?_) (fun u => ?_) rfl hx.caches.live <;>
      by_cases hut : u = t <;> simp [Caches.setTls, hut]
  by_cases hcache : (x.caches.tls t).cache = 0
  · refine ⟨_, by simp [Caches.threadExit, Caches.destroyCache, hkey, hcache], hreset, ?_⟩
    intro u hu
    simp [Caches.setTls, hu]
  · have hsame : ((x.caches.setTls t { x.caches.tls t with key := 0 }).tls t).cache =
        (x.caches.tls t).cache := by
      simp [Caches.setTls]
    obtain ⟨c', hok, hinv, htls⟩ := hreset.detached_free (t := t) (by rwa [hsame])
      (v := ⟨0, 0, false, true⟩) rfl rfl hfresh
    have hdetached := Caches.tls_detached (by rwa [hsame]) (⟨0, 0, false, true⟩ : Tls)
    refine ⟨c', ?_, hinv, fun u hu => ?_⟩
    · rw [← hok]
      have hlive := hx.caches.live t hcache
      have hidle := hx.caches.idle t
      simp [Caches.threadExit, Caches.destroyCache, hkey, hcache, Caches.detached,
        Caches.registryUnregisterAndFold, Caches.foldAllocFree, Caches.setTls, hlive, hidle]
    · rw [htls, Caches.beforeErase_tls_of_ne hu, hdetached, update_of_ne hu]
      simp [Caches.setTls, hu]

theorem ThreadsInv.exit (hx : ThreadsInv x) (ht : t ∉ x.exited)
    (hfresh : fresh ∉ x.caches.structs) (hexit : x.caches.threadExit t fresh = .ok c') :
    ThreadsInv ⟨c', insert t x.exited⟩ := by
  obtain ⟨c₁, hc₁, hinv, hothers⟩ := threadExit_ok hx ht hfresh
  obtain rfl : c₁ = c' := Except.ok.inj (hc₁.symm.trans hexit)
  refine ⟨hinv, fun u hu => ?_, fun u hu => ?_⟩ <;>
    rw [Finset.mem_insert, not_or] at hu <;> dsimp only <;> rw [hothers u hu.1]
  · exact hx.key u hu.2
  · exact hx.running u hu.2

theorem ThreadsInv.step (hx : ThreadsInv x) (hadmits : x.Admits e) (hok : ReplacesCache x e)
    (hstep : x.step e = .ok x') : ThreadsInv x' := by
  cases e with
  | getOrCreate t fresh =>
    obtain rfl := Except.ok.inj hstep
    exact hx.getOrCreate hadmits.2
  | releaseThread t fresh =>
    cases hrelease : x.caches.releaseLocal t fresh with
    | error m => simp [Threads.step, hrelease] at hstep
    | ok c' =>
      obtain rfl : x.setCaches c' = x' := by simpa [Threads.step, hrelease] using hstep
      exact hx.release hadmits.1 hadmits.2 hok hrelease
  | threadExit t fresh =>
    cases hexit : x.caches.threadExit t fresh with
    | error m => simp [Threads.step, hexit] at hstep
    | ok c' =>
      obtain rfl : ⟨c', insert t x.exited⟩ = x' := by simpa [Threads.step, hexit] using hstep
      exact hx.exit hadmits.1 hadmits.2 hexit
  | setSoftLimit limit =>
    obtain rfl := Except.ok.inj hstep
    exact ⟨hx.caches.congr (fun _ => rfl) (fun _ => rfl) rfl hx.caches.live, hx.key, hx.running⟩

theorem CacheRun.threadsInv (hrun : CacheRun ReplacesCache x) : ThreadsInv x := by
  induction hrun with
  | init => exact threadsInv_init
  | step _ hadmits hok hstep ih => exact ih.step hadmits hok hstep

/-- No call that is possible now frees a struct twice or destroys a freed one. -/
theorem ThreadsInv.step_ok (hx : ThreadsInv x) (hadmits : x.Admits e) :
    ∃ x', x.step e = .ok x' := by
  cases e with
  | getOrCreate t fresh => exact ⟨_, rfl⟩
  | releaseThread t fresh =>
    obtain ⟨c', hok, -⟩ := releaseLocal_ok hx hadmits.1 hadmits.2
    exact ⟨x.setCaches c', by simp [Threads.step, hok]⟩
  | threadExit t fresh =>
    obtain ⟨c', hok, -⟩ := threadExit_ok hx hadmits.1 hadmits.2
    exact ⟨⟨c', insert t x.exited⟩, by simp [Threads.step, hok]⟩
  | setSoftLimit limit => exact ⟨_, rfl⟩

/-- Without a cache to replace the released one, the key keeps the freed struct. -/
theorem replacesCache_of_paired (hx : ThreadsInv x) (hadmits : x.Admits e)
    (hstep : x.step e = .ok x') (hpaired : Paired x') : ReplacesCache x e := by
  cases e with
  | releaseThread t fresh =>
    intro hcache
    obtain ⟨c', hok, -, -, hself⟩ := releaseLocal_ok hx hadmits.1 hadmits.2
    obtain rfl : x.setCaches c' = x' := by simpa [Threads.step, hok] using hstep
    rcases hself with ⟨hnone, -⟩ | ⟨-, hself⟩
    · exact absurd hnone hcache
    · by_contra hbad
      rw [if_neg hbad] at hself
      have hkey := hpaired.key t hadmits.1
      simp only [Threads.setCaches, hself] at hkey
      exact hcache ((hx.key t hadmits.1).symm.trans hkey)
  | _ => trivial

/-- Between calls keys, slots and registry agree, no call misuses a struct, and a call keeps it
so exactly when a released cache is replaced. -/
theorem cacheRun_paired (hrun : CacheRun ReplacesCache x) : Paired x ∧
    ∀ e, x.Admits e → ∃ x', x.step e = .ok x' ∧ (Paired x' ↔ ReplacesCache x e) := by
  have hx := hrun.threadsInv
  refine ⟨hx.paired, fun e hadmits => ?_⟩
  obtain ⟨x', hstep⟩ := hx.step_ok hadmits
  exact ⟨x', hstep, replacesCache_of_paired hx hadmits hstep,
    fun hok => (hx.step hadmits hok hstep).paired⟩

/-- A thread that gets a cache and releases it for a second one can exit. -/
theorem cacheRun_paired_released : ∃ x x' : Threads, (x.caches.tls 0).cache = 128 ∧
    Paired x ∧ x.step (.threadExit 0 0) = .ok x' ∧ Paired x' := by
  have hget : CacheRun ReplacesCache _ :=
    .step .init (e := .getOrCreate 0 64) (by decide) trivial rfl
  have hrun : CacheRun ReplacesCache _ :=
    .step hget (e := .releaseThread 0 128) (by decide) (fun _ => by decide) rfl
  obtain ⟨hpaired, hnext⟩ := cacheRun_paired hrun
  obtain ⟨x', hstep, hiff⟩ := hnext (.threadExit 0 0) (by decide)
  exact ⟨_, x', rfl, hpaired, hstep, hiff.2 trivial⟩

/-- Under a soft limit the released struct stays under the key, and the destructor runs on it
when the thread exits. -/
theorem releaseThread_stale_key : ∃ x : Threads, CacheRun (fun _ _ => True) x ∧ 0 ∉ x.exited ∧
    x.caches.tls 0 = ⟨0, 64, false, false⟩ ∧ 64 ∉ x.caches.structs ∧
    x.step (.threadExit 0 0) = .error .destroyedFreed := by
  have hget : CacheRun (fun _ _ => True) _ :=
    .step .init (e := .getOrCreate 0 64) (by decide) trivial rfl
  have hlimit : CacheRun (fun _ _ => True) _ :=
    .step hget (e := .setSoftLimit 1) trivial trivial rfl
  have hrun : CacheRun (fun _ _ => True) _ :=
    .step hlimit (e := .releaseThread 0 128) (by decide) trivial rfl
  exact ⟨_, hrun, by decide, by decide, by decide, rfl⟩

end V8Malloc
