import V8Malloc.Dispatch.Model
import V8Malloc.Slab.Refill

/-!
# Invariant of the dispatcher

The stacks are the bins of the threads, the stacks of the CPUs and the medium
bins. Every allocated block is in hand or on exactly one of them; a bin or CPU
stack of a class holds slots of that class from the default arena, and a bin's
count is the length of its list.
-/
namespace V8Malloc

open ByteMemory LinkedList StackLedger Function

inductive Stack where
  | bin (thread cls : ℕ)
  | core (cpu cls : ℕ)
  | medium (thread idx : ℕ)
  deriving DecidableEq

def Stack.fits : Stack → Grant → Prop
  | .bin _ cls, g => cls < mediumFirstClass ∧ g = slabGrant cls arenaDefault
  | .core _ cls, g => cls < mediumFirstClass ∧ g = slabGrant cls arenaDefault
  | .medium _ idx, g => mediumTlcFirstClass + idx ≤ mediumTlcLastClass ∧
      g = ⟨sizeClassSize (mediumTlcFirstClass + idx), .buddy⟩

def Sys.top (s : Sys) : Stack → ℕ
  | .bin thread cls => (s.caches thread).binHeads cls
  | .core cpu cls => tagptrPtr (s.core.stackWords cpu cls)
  | .medium thread idx => (s.caches thread).mediumBinHeads idx

structure Tally (caches : ℕ → ThreadCache) (L : Stack → List ℕ) : Prop where
  count : ∀ t c, (caches t).binCount c = (L (.bin t c)).length
  capacity : ∀ t c, (caches t).binCapacity c ≤ binCapacityMax

structure SysInv (s : Sys) (L : Stack → List ℕ) (blk : Blocks) (held : Set ℕ) : Prop where
  account : Account Stack.fits s.heap s.top L blk held
  tally : Tally s.caches L

/-- The same with a chain in hand. -/
structure Holding (s : Sys) (L : Stack → List ℕ) (blk : Blocks) (held : Set ℕ) (g : Grant)
    (last : ℕ) (batch : Batch) (xs : List ℕ) : Prop where
  chain : InHand Stack.fits s.top L s.heap blk held g last batch xs
  tally : Tally s.caches L

variable {s : Sys} {L : Stack → List ℕ} {blk : Blocks} {held : Set ℕ} {g : Grant}
variable {last x t cls cpu idx v n : ℕ} {batch : Batch} {xs : List ℕ}
variable {cache cache' : ThreadCache} {m : Mem} {nodeOverloaded uafActive : Bool}

theorem SysInv.holding (hs : SysInv s L blk held) (g : Grant) (last : ℕ) :
    Holding s L blk held g last ⟨0, 0, 0⟩ [] := ⟨inHand_nil hs.account g last, hs.tally⟩

theorem Holding.sysInv (hh : Holding s L blk held g last batch []) : SysInv s L blk held := by
  refine ⟨?_, hh.tally⟩
  have hacc := hh.chain.account
  simpa using hacc

/-! ### Changes of a cache -/

/-- Only bin `cls` has changed, to `head` and `count`, and perhaps the controller's numbers. -/
structure BinChanged (cache : ThreadCache) (cls head count : ℕ) (cache' : ThreadCache) : Prop where
  heads : cache'.binHeads = update cache.binHeads cls head
  count : cache'.binCount = update cache.binCount cls count
  medium : cache'.mediumBinHeads = cache.mediumBinHeads
  capacity : (∀ c, cache.binCapacity c ≤ binCapacityMax) →
    ∀ c, cache'.binCapacity c ≤ binCapacityMax

theorem BinChanged.tick (hb : BinChanged cache cls v n cache') :
    BinChanged cache cls v n (tlcTickGc nodeOverloaded cache') := by
  simp only [tlcTickGc]
  split_ifs
  · exact ⟨hb.heads, hb.count, hb.medium, fun _ _ => min_le_right _ _⟩
  · exact ⟨hb.heads, hb.count, hb.medium, hb.capacity⟩

theorem unlink_binChanged (cache : ThreadCache) (m : Mem) (cls head : ℕ) :
    BinChanged cache cls (load64 m head) (decrement 16 (cache.binCount cls))
      (cache.unlink m cls head) := ⟨rfl, rfl, rfl, fun hc => hc⟩

theorem decrement_length (hlt : xs.length < 2 ^ 16) :
    decrement 16 (x :: xs).length = xs.length := by
  simp only [decrement, List.length_cons]
  omega

theorem top_setCache_bin (hb : BinChanged (s.caches t) cls v n cache') :
    (s.setCache t cache').top = update s.top (.bin t cls) v := by
  funext k
  cases k with
  | bin t' c =>
    by_cases ht : t' = t
    · subst ht
      by_cases hc : c = cls <;> simp [Sys.top, Sys.setCache, hb.heads, hc]
    · simp [Sys.top, Sys.setCache, ht]
  | core cpu c => simp [Sys.top, Sys.setCache]
  | medium t' i =>
    by_cases ht : t' = t
    · subst ht
      simp [Sys.top, Sys.setCache, hb.medium]
    · simp [Sys.top, Sys.setCache, ht]

theorem Tally.setBin (ht : Tally s.caches L) (hb : BinChanged (s.caches t) cls v xs.length cache') :
    Tally (s.setCache t cache').caches (update L (.bin t cls) xs) := by
  constructor
  · intro t' c
    by_cases htt : t' = t
    · subst htt
      by_cases hc : c = cls
      · subst hc
        simp [Sys.setCache, hb.count]
      · simp [Sys.setCache, hb.count, hc, ht.count]
    · simp [Sys.setCache, htt, ht.count]
  · intro t' c
    by_cases htt : t' = t
    · subst htt
      simpa [Sys.setCache] using hb.capacity (ht.capacity t') c
    · simpa [Sys.setCache, htt] using ht.capacity t' c

/-- A bin and the heap behind it have changed. -/
theorem sysInv_setBin {h' : Heap} {blk' : Blocks} {held' : Set ℕ} (ht : Tally s.caches L)
    (hb : BinChanged (s.caches t) cls v xs.length cache')
    (hacc : Account Stack.fits h' (update s.top (.bin t cls) v)
      (update L (.bin t cls) xs) blk' held') :
    SysInv ({ s with heap := h' }.setCache t cache') (update L (.bin t cls) xs) blk'
      held' := by
  have htop : ({ s with heap := h' }.setCache t cache').top =
      update s.top (.bin t cls) v := top_setCache_bin hb
  rw [← htop] at hacc
  exact ⟨hacc, ht.setBin hb⟩

/-- Changes that leave the bins alone. -/
theorem Tally.keep {L' : Stack → List ℕ} (ht : Tally s.caches L)
    (hbins : ∀ t c, L' (.bin t c) = L (.bin t c)) : Tally s.caches L' :=
  ⟨fun t c => by rw [hbins]; exact ht.count t c, ht.capacity⟩

/-! ### One slot from a bin -/

theorem threadCacheAlloc_empty (hempty : cache.binHeads cls = 0) :
    threadCacheAlloc nodeOverloaded cache m cls = (0, cache) := by
  simp [threadCacheAlloc, hempty]

theorem threadCacheAlloc_top (nodeOverloaded : Bool) (hcls : cls < mediumFirstClass)
    (hne : cache.binHeads cls ≠ 0) :
    ∃ cache', threadCacheAlloc nodeOverloaded cache m cls = (cache.binHeads cls, cache') ∧
      BinChanged cache cls (load64 m (cache.binHeads cls)) (decrement 16 (cache.binCount cls))
        cache' := by
  simp only [threadCacheAlloc, ge_iff_le, if_neg (Nat.not_le.2 hcls), if_neg hne]
  refine ⟨_, rfl, BinChanged.tick ?_⟩
  obtain ⟨hheads, hcount, hmedium, hcap⟩ :=
    unlink_binChanged cache m cls (cache.binHeads cls)
  exact ⟨hheads, hcount, hmedium, hcap⟩

/-- The top of a bin comes to hand. -/
theorem Holding.popBin (hh : Holding s L blk held g last batch xs)
    (hne : s.top (.bin t cls) ≠ 0) (hlen : (L (.bin t cls)).length < 2 ^ 16)
    (hb : BinChanged (s.caches t) cls (load64 s.heap.mem (s.top (.bin t cls)))
      (decrement 16 ((s.caches t).binCount cls)) cache') :
    ∃ rest, L (.bin t cls) = s.top (.bin t cls) :: rest ∧ s.top (.bin t cls) ∉ held ∧
      blk (s.top (.bin t cls)) = some (slabGrant cls arenaDefault) ∧
      Holding (s.setCache t cache') (update L (.bin t cls) rest) blk
        (insert (s.top (.bin t cls)) held) g last batch xs := by
  obtain ⟨rest, hL, hnot, ⟨g', hg', -, rfl⟩, hpop⟩ := hh.chain.pop hne
  refine ⟨rest, hL, hnot, hg', ?_, ?_⟩
  · rw [top_setCache_bin hb]
    exact hpop
  · have hcount : decrement 16 ((s.caches t).binCount cls) = rest.length := by
      rw [hL, List.length_cons] at hlen
      rw [hh.tally.count, hL]
      exact decrement_length (by omega)
    rw [hcount] at hb
    exact hh.tally.setBin hb

theorem Sys.setCache_self (s : Sys) (t : ℕ) : s.setCache t (s.caches t) = s := by
  simp [Sys.setCache]

/-- A call of `v8m_thread_cache_alloc`: the bin is empty, or its top comes to hand. -/
theorem Holding.binAlloc (nodeOverloaded : Bool) (t : ℕ)
    (hh : Holding s L blk held g last batch xs) (hcls : cls < mediumFirstClass)
    (hlen : (L (.bin t cls)).length < 2 ^ 16) :
    L (.bin t cls) = [] ∧
        threadCacheAlloc nodeOverloaded (s.caches t) s.heap.mem cls = (0, s.caches t) ∨
      ∃ y rest cache',
        threadCacheAlloc nodeOverloaded (s.caches t) s.heap.mem cls = (y, cache') ∧ y ≠ 0 ∧
        L (.bin t cls) = y :: rest ∧ y ∉ held ∧
        blk y = some (slabGrant cls arenaDefault) ∧
        Holding (s.setCache t cache') (update L (.bin t cls) rest) blk (insert y held) g
          last batch xs := by
  by_cases hne : s.top (.bin t cls) = 0
  · left
    exact ⟨((hh.chain.account.ledger.chain _).nil_iff).1 hne, threadCacheAlloc_empty hne⟩
  · right
    obtain ⟨cache', heq, hb⟩ := threadCacheAlloc_top nodeOverloaded hcls hne
    obtain ⟨rest, hL, hnot, hg, hh'⟩ := hh.popBin hne hlen hb
    exact ⟨_, rest, cache', heq, hne, hL, hnot, hg, hh'⟩

end V8Malloc
