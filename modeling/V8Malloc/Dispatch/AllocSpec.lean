import V8Malloc.Dispatch.Drains
import V8Malloc.Heap.BuddyBlocks
import V8Malloc.LargeSpec

/-!
# Allocation by the dispatcher

A pointer that a call answers was in nobody's hand, it starts a block that the
request alone determines, and what the program holds keeps its bytes. The bins
stay below their largest capacity. A call works on the cache of its own thread
only, and of the large headers only that of the block it hands out is new.
-/
namespace V8Malloc

open ByteMemory LinkedList StackLedger Function

variable {s s' s'' : Sys} {L : Stack → List ℕ} {blk : Blocks} {held : Set ℕ} {g : Grant}
variable {t cls cpu ptr size : ℕ} {call : Call} {src : List ℕ} {m : Mem}

/-- Every bin is shorter than the largest capacity. -/
def Calm (L : Stack → List ℕ) : Prop := ∀ t c, (L (.bin t c)).length < binCapacityMax

/-- What the page heap may answer while the heap is `h`. -/
structure Legal (call : Call) (h : Heap) : Prop where
  pages : LegalPages h call.pages
  arena : FreshArena h call.arena
  regions : LegalRegions h call.regions
  owns : ∀ x, h.Taken x → call.owns x = true

theorem Calm.lt (hc : Calm L) (t c : ℕ) : (L (.bin t c)).length < 2 ^ 16 :=
  (hc t c).trans (by decide)

theorem Calm.mono {L' : Stack → List ℕ} (hc : Calm L) (hle : NoLonger L L') : Calm L' :=
  fun t c => (hle t c).trans_lt (hc t c)

theorem Calm.update {xs : List ℕ} (hc : Calm L) (t cls : ℕ) (hlt : xs.length < binCapacityMax) :
    Calm (update L (.bin t cls) xs) := by
  intro t' c
  by_cases hk : Stack.bin t' c = .bin t cls
  · rw [hk, update_self]
    exact hlt
  · rw [update_of_ne hk]
    exact hc t' c

/-- A call answered `ptr`, the start of a block with grant `g`, or nothing. -/
structure Served (s : Sys) (blk : Blocks) (held : Set ℕ) (g : Grant) (ptr : ℕ) (s' : Sys) :
    Prop where
  inv : ∃ L' blk', SysInv s' L' blk' (Account.heldAfter held ptr) ∧ Calm L' ∧
    Carried held blk s.heap.mem blk' s'.heap.mem ∧ (ptr ≠ 0 → blk' ptr = some g)
  fresh : ptr ≠ 0 → ptr ∉ held

theorem served_null (hs : SysInv s L blk held) (hc : Calm L) (g : Grant) :
    Served s blk held g 0 s := by
  refine ⟨⟨L, blk, ?_, hc, Carried.refl _ _ _, fun hne => absurd rfl hne⟩,
    fun hne => absurd rfl hne⟩
  rw [Account.heldAfter, if_pos rfl]
  exact hs

theorem Served.of_carried {blk₁ : Blocks} {s₁ : Sys} (hserved : Served s₁ blk₁ held g ptr s')
    (hcarried : Carried held blk s.heap.mem blk₁ s₁.heap.mem) : Served s blk held g ptr s' := by
  obtain ⟨⟨L', blk', hs', hcalm, hcarried', hgrant⟩, hfresh⟩ := hserved
  exact ⟨⟨L', blk', hs', hcalm, hcarried.trans hcarried', hgrant⟩, hfresh⟩

/-! ### What a call leaves alone -/

/-- Memory the page heap offers to a call. -/
def Call.Offers (call : Call) (x : ℕ) : Prop :=
  InPages call.pages x ∨ (call.arena ≠ 0 ∧ inArenaAt call.arena x) ∨ InRegions call.regions x

/-- The caches of the other threads are as they were. -/
def OwnOnly (call : Call) (s s' : Sys) : Prop :=
  ∃ cache, s'.caches = update s.caches call.thread cache

namespace OwnOnly

theorem of_eq (heq : s'.caches = s.caches) : OwnOnly call s s' :=
  ⟨s.caches call.thread, by rw [heq, update_eq_self]⟩

theorem trans (h : OwnOnly call s s') (h' : OwnOnly call s' s'') : OwnOnly call s s'' := by
  obtain ⟨c, hc⟩ := h
  obtain ⟨c', hc'⟩ := h'
  exact ⟨c', by rw [hc', hc, update_idem]⟩

theorem other (h : OwnOnly call s s') {u : ℕ} (hu : u ≠ call.thread) :
    s'.caches u = s.caches u := by
  obtain ⟨c, hc⟩ := h
  rw [hc, update_of_ne hu]

end OwnOnly

/-- The call works on the cache of its thread, and on none if the thread has none. -/
structure OwnCaches (call : Call) (s s' : Sys) : Prop where
  own : OwnOnly call s s'
  without : call.cacheReady = false → s'.caches = s.caches

theorem OwnCaches.of_eq (heq : s'.caches = s.caches) : OwnCaches call s s' :=
  ⟨.of_eq heq, fun _ => heq⟩

theorem OwnOnly.caches (hown : OwnOnly call s s') (hready : call.cacheReady = true) :
    OwnCaches call s s' :=
  ⟨hown, fun hnone => absurd hready (by simp [hnone])⟩

/-- A request answered by `ptr`: the one large header that may be new is that of the block. -/
structure Issued (call : Call) (size ptr : ℕ) (s s' : Sys) : Prop extends OwnCaches call s s' where
  large : LargeIssued size ptr s.heap s'.heap

/-! ### The refill -/

theorem refillBatch_bounds (ticksPerMicro elapsed ema batchSize : ℕ) :
    refillBatchMin ≤ refillBatch ticksPerMicro elapsed ema batchSize ∧
      refillBatch ticksPerMicro elapsed ema batchSize ≤ refillBatchMax := by
  unfold refillBatch refillBatchMin refillBatchMax
  dsimp only
  omega

theorem computeBatch_bounds (s : Sys) (call : Call) (cls : ℕ) :
    refillBatchMin ≤ (s.computeBatch call cls).1 ∧
      (s.computeBatch call cls).1 ≤ refillBatchMax := by
  simp only [Sys.computeBatch, refillControllerComputeBatch]
  by_cases hcls : cls ≥ numSizeClasses
  · rw [if_pos hcls]
    exact ⟨le_rfl, show refillBatchMin ≤ refillBatchMax by decide⟩
  · rw [if_neg hcls]
    exact refillBatch_bounds _ _ _ _

theorem SysInv.computeBatch (hs : SysInv s L blk held) (call : Call) (cls : ℕ) :
    SysInv (s.computeBatch call cls).2 L blk held := ⟨hs.account, hs.tally⟩

/-- The chain of a refill comes from a stack or from new slots. -/
theorem refillChain_spec {max : ℕ} (hs : SysInv s L blk held) (hcls : cls < mediumFirstClass)
    (hlegal : LegalPages s.heap call.pages) :
    Returns (call.uafActive = true) (refillChain call s cls max) fun out =>
      ∃ L' blk' xs, Holding out.2.1 L' blk' held (slabGrant cls arenaDefault) 0 out.1 xs ∧
        (∀ t c, L' (.bin t c) = L (.bin t c)) ∧ out.1.count ≤ max ∧
        Carried held blk s.heap.mem blk' out.2.1.heap.mem ∧ out.2.1.caches = s.caches ∧
        Offered s.heap call.pages out.2.1.heap out.2.2 := by
  have hpopped := hs.popOwnBatch call max hcls
  simp only [refillChain]
  generalize popOwnBatch call s cls max = own at hpopped
  obtain ⟨xs, L₀, hown, hbins, hcount, hcarried, hcaches, hpages⟩ := hpopped
  have hoffered := hpages _ hlegal
  by_cases hzero : own.1.count = 0
  · rw [if_neg (by simp [hzero])]
    have hxs := hown.chain.count_zero_iff.1 hzero
    subst hxs
    -- the stack of a donor
    have hpopped := hown.sysInv.stealBatch call max hcls
    generalize own.2.stealBatch call cls max = stolen at hpopped
    obtain ⟨xs, L₁, hstolen, hbins₁, hcount₁, hcarried₁, hcaches₁, hpages₁⟩ := hpopped
    have hoffered₁ := hoffered.trans (hpages₁ _ hoffered.legal)
    have hbins' : ∀ t c, L₁ (.bin t c) = L (.bin t c) := fun t c => (hbins₁ t c).trans (hbins t c)
    by_cases hzero₁ : stolen.1.count = 0
    · rw [if_neg (by simp [hzero₁])]
      have hxs := hstolen.chain.count_zero_iff.1 hzero₁
      subst hxs
      apply (slabPoolAllocBatch_spec call.uafActive call.ownerCpu max hstolen.sysInv.account
        (by decide) hoffered₁.legal).bind
      rintro out ⟨hcount₂, hdrew, blk', xs, hi, hcarried₂⟩
      exact returns_ok ⟨L₁, blk', xs, ⟨hi, hstolen.tally⟩, hbins', hcount₂,
        (hcarried.trans hcarried₁).trans hcarried₂, hcaches₁.trans hcaches,
        hoffered₁.trans hdrew.toOffered⟩
    · rw [if_pos hzero₁]
      exact returns_ok ⟨L₁, blk, xs, hstolen, hbins', hcount₁, hcarried.trans hcarried₁,
        hcaches₁.trans hcaches, hoffered₁⟩
  · rw [if_pos hzero]
    exact returns_ok ⟨L₀, blk, xs, hown, hbins, hcount, hcarried, hcaches, hoffered⟩

/-- A slot from the bin of the calling thread. -/
theorem SysInv.cacheAlloc (hs : SysInv s L blk held) (call : Call) (hcls : cls < mediumFirstClass)
    (hc : Calm L) :
    L (.bin call.thread cls) = [] ∧ s.cacheAlloc call cls = (0, s) ∨
      (s.cacheAlloc call cls).1 ≠ 0 ∧ (s.cacheAlloc call cls).2.heap = s.heap ∧
        Served s blk held (slabGrant cls arenaDefault) (s.cacheAlloc call cls).1
          (s.cacheAlloc call cls).2 := by
  rcases (hs.holding (slabGrant cls arenaDefault) 0).binAlloc call.nodeOverloaded call.thread hcls
    (hc.lt _ _) with ⟨hempty, heq⟩ | ⟨y, rest, cache', heq, hy, hL, hnot, hg, hh⟩
  · left
    simp [Sys.cacheAlloc, heq, hempty, Sys.setCache_self]
  · right
    have hshort : rest.length < binCapacityMax := by
      have hlen := hc call.thread cls
      rw [hL, List.length_cons] at hlen
      omega
    simp only [Sys.cacheAlloc, heq]
    refine ⟨hy, rfl, ⟨_, blk, ?_, hc.update call.thread cls hshort, Carried.refl _ _ _, fun _ => hg⟩,
      fun _ => hnot⟩
    rw [Account.heldAfter, if_neg hy]
    exact hh.sysInv

/-- What the thread cache serves, and the pages still to come. -/
theorem tryTlcFastPaths_spec (hs : SysInv s L blk held) (hc : Calm L)
    (hcls : cls < mediumFirstClass) (hlegal : LegalPages s.heap call.pages) :
    Returns (call.uafActive = true) (tryTlcFastPaths call s cls) fun out =>
      Served s blk held (slabGrant cls arenaDefault) out.1 out.2.1 ∧
        Offered s.heap call.pages out.2.1.heap out.2.2 ∧ OwnCaches call s out.2.1 := by
  unfold tryTlcFastPaths
  by_cases hready : call.cacheReady = true
  · rw [if_neg (by simp [hready])]
    rcases hs.cacheAlloc call hcls hc with ⟨hempty, heq⟩ | ⟨hne, hheap, hserved⟩
    · simp only [heq, ne_eq, not_true, if_false]
      obtain ⟨-, hmax⟩ := computeBatch_bounds s call cls
      apply (refillChain_spec (hs.computeBatch call cls) hcls hlegal).bind
      rintro ⟨batch, s₁, src⟩ ⟨L₁, blk₁, xs, hh, hbins, hcount, hcarried, hcaches, hoffered⟩
      dsimp only at hh hcount hcarried hcaches hoffered ⊢
      have hcalm : Calm L₁ := fun t c => by
        rw [hbins]
        exact hc t c
      by_cases hzero : batch.count = 0
      · rw [if_pos hzero]
        have hxs := hh.chain.count_zero_iff.1 hzero
        subst hxs
        exact returns_ok ⟨(served_null hh.sysInv hcalm _).of_carried hcarried, hoffered,
          .of_eq hcaches⟩
      · rw [if_neg hzero]
        have hxs := mt hh.chain.count_zero_iff.2 hzero
        have hlen : xs.length < binCapacityMax := by
          rw [hh.chain.count_eq] at hcount
          unfold refillBatchMax at hmax
          unfold binCapacityMax
          omega
        have hbin : L₁ (.bin call.thread cls) = [] := (hbins _ _).trans hempty
        have hroom : (L₁ (.bin call.thread cls)).length + xs.length < 2 ^ 16 := by
          rw [hbin]
          unfold binCapacityMax at hlen
          simp
          omega
        obtain ⟨hs₂, hcarried₂, hinstall⟩ := hh.installChain call hcls hxs hroom
        have hcalm₂ := hcalm.update call.thread cls
          (show (xs ++ L₁ (.bin call.thread cls)).length < _ by rw [hbin]; simpa using hlen)
        rcases hs₂.cacheAlloc call hcls hcalm₂ with ⟨hnone, -⟩ | ⟨-, hheap, hserved⟩
        · rw [update_self] at hnone
          exact absurd (List.append_eq_nil_iff.1 hnone).1 hxs
        · have hown : OwnOnly call s₁ ((s₁.installChain call cls batch).cacheAlloc call cls).2 :=
            OwnOnly.trans ⟨_, rfl⟩ ⟨_, rfl⟩
          refine returns_ok ⟨hserved.of_carried (hcarried.trans hcarried₂), ?_,
            ((OwnOnly.of_eq (s := s) hcaches).trans hown).caches hready⟩
          dsimp only
          rw [hheap]
          exact hoffered.trans (hinstall _ hoffered.legal)
    · simp only [ne_eq, hne, not_false_iff, if_true]
      refine returns_ok ⟨hserved, ?_, OwnOnly.caches ⟨_, rfl⟩ hready⟩
      rw [hheap]
      exact hlegal.offered (.refl _)
  · rw [if_pos (by simp [hready])]
    exact returns_ok ⟨served_null hs hc _, hlegal.offered (.refl _), .of_eq rfl⟩

/-! ### Medium bins -/

theorem top_setCache_medium {cache' : ThreadCache} {i v : ℕ}
    (hbins : cache'.binHeads = (s.caches t).binHeads)
    (hheads : cache'.mediumBinHeads = update (s.caches t).mediumBinHeads i v) :
    (s.setCache t cache').top = update s.top (.medium t i) v := by
  funext k
  cases k with
  | bin t' c =>
    by_cases ht : t' = t
    · subst ht
      simp [Sys.top, Sys.setCache, hbins]
    · simp [Sys.top, Sys.setCache, ht]
  | core cpu c => simp [Sys.top, Sys.setCache]
  | medium t' j =>
    by_cases ht : t' = t
    · subst ht
      by_cases hj : j = i <;> simp [Sys.top, Sys.setCache, hheads, hj]
    · simp [Sys.top, Sys.setCache, ht]

/-- A cache with the bins it had. -/
theorem Tally.setCache {cache' : ThreadCache} {L' : Stack → List ℕ} (ht : Tally s.caches L)
    (hcount : cache'.binCount = (s.caches t).binCount)
    (hcap : cache'.binCapacity = (s.caches t).binCapacity)
    (hbins : ∀ t c, L' (.bin t c) = L (.bin t c)) : Tally (s.setCache t cache').caches L' := by
  constructor
  · intro t' c
    by_cases htt : t' = t
    · subst htt
      simp [Sys.setCache, hcount, ht.count, hbins]
    · simp [Sys.setCache, htt, ht.count, hbins]
  · intro t' c
    by_cases htt : t' = t
    · subst htt
      simpa [Sys.setCache, hcap] using ht.capacity t' c
    · simpa [Sys.setCache, htt] using ht.capacity t' c

/-- A medium bin and the heap behind it have changed. -/
theorem sysInv_setMedium {cache' : ThreadCache} {i v : ℕ} {xs : List ℕ} {h' : Heap}
    {blk' : Blocks} {held' : Set ℕ} (ht : Tally s.caches L)
    (hbins : cache'.binHeads = (s.caches t).binHeads)
    (hcount : cache'.binCount = (s.caches t).binCount)
    (hcap : cache'.binCapacity = (s.caches t).binCapacity)
    (hheads : cache'.mediumBinHeads = update (s.caches t).mediumBinHeads i v)
    (hacc : Account Stack.fits h' (update s.top (.medium t i) v)
      (update L (.medium t i) xs) blk' held') :
    SysInv ({ s with heap := h' }.setCache t cache') (update L (.medium t i) xs) blk'
      held' := by
  have htop : ({ s with heap := h' }.setCache t cache').top =
      update s.top (.medium t i) v := top_setCache_medium hbins hheads
  rw [← htop] at hacc
  exact ⟨hacc, ht.setCache hcount hcap fun t c => by simp⟩

/-- A block from the medium bin of the calling thread. -/
theorem SysInv.mediumAlloc (hs : SysInv s L blk held) (call : Call) (cls : ℕ) (hc : Calm L) :
    s.mediumAlloc call cls = (0, s) ∨
      (s.mediumAlloc call cls).1 ≠ 0 ∧ Served s blk held ⟨sizeClassSize cls, .buddy⟩
        (s.mediumAlloc call cls).1 (s.mediumAlloc call cls).2 := by
  simp only [Sys.mediumAlloc, threadCacheMediumAlloc]
  by_cases hrange : cls < mediumTlcFirstClass ∨ cls > mediumTlcLastClass
  · left
    simp [if_pos hrange, Sys.setCache_self]
  · rw [if_neg hrange]
    by_cases hne : s.top (.medium call.thread (cls - mediumTlcFirstClass)) = 0
    · left
      change (s.caches call.thread).mediumBinHeads (cls - mediumTlcFirstClass) = 0 at hne
      simp [if_pos hne, Sys.setCache_self]
    · right
      obtain ⟨rest, hL, hnot, ⟨g, hg, -, rfl⟩, hacc⟩ := hs.account.pop hne
      rw [show mediumTlcFirstClass + (cls - mediumTlcFirstClass) = cls by omega] at hg
      rw [if_neg (show ¬ (s.caches call.thread).mediumBinHeads (cls - mediumTlcFirstClass) = 0
        from hne)]
      refine ⟨hne, ⟨update L (.medium call.thread (cls - mediumTlcFirstClass)) rest, blk,
        ?_, fun t c => by simpa using hc t c, Carried.refl _ _ _, fun _ => hg⟩, fun _ => hnot⟩
      simp only [Account.heldAfter]
      rw [if_neg (show ¬ (s.caches call.thread).mediumBinHeads (cls - mediumTlcFirstClass) = 0
        from hne)]
      exact sysInv_setMedium hs.tally rfl rfl rfl rfl hacc

/-! ### New blocks -/

/-- A backend granted `ptr`. -/
theorem SysInv.served (hs : SysInv s L blk held) (hc : Calm L) {h' : Heap}
    (hinv : HeapInv h' (grantAfter blk ptr g)) (hfresh : ptr ≠ 0 → blk ptr = none)
    (hpres : Preserved blk s.heap.mem h'.mem) :
    Served s blk held g ptr { s with heap := h' } := by
  obtain ⟨hacc, hcarried⟩ := hs.account.draw hinv hfresh hpres
  refine ⟨⟨L, _, ⟨hacc, hs.tally⟩, hc, hcarried, fun hne => ?_⟩, fun hne hmem => ?_⟩
  · rw [grantAfter, if_neg hne, update_self]
  · obtain ⟨g', hg'⟩ := hs.account.grant_of_held hmem
    rw [hfresh hne] at hg'
    cases hg'

theorem slabPoolAllocArena_served (hs : SysInv s L blk held) (hc : Calm L) {arena : ℕ}
    (harena : arena < arenaCount) (hlegal : LegalPages s.heap src) (uafActive : Bool) (cpu : ℕ) :
    Returns (uafActive = true) (slabPoolAllocArena uafActive cpu s.heap arena cls src) fun out =>
      Served s blk held (slabGrant cls arena) out.1 { s with heap := out.2.1 } ∧
        Offered s.heap src out.2.1 out.2.2 := by
  apply (slabPoolAllocArena_account uafActive cpu hs.account harena hlegal).mono
  rintro out ⟨hd, hdrew⟩
  refine ⟨⟨⟨L, _, ⟨hd.account, hs.tally⟩, hc, hd.carried, fun hne => ?_⟩, fun hne hmem => ?_⟩,
    hdrew.toOffered⟩
  · rw [grantAfter, if_neg hne, update_self]
  · obtain ⟨g', hg'⟩ := hs.account.grant_of_held hmem
    rw [hd.fresh hne] at hg'
    cases hg'

theorem buddyPoolAlloc_served (hs : SysInv s L blk held) (hc : Calm L) (call : Call)
    (harena : FreshArena s.heap call.arena) (size : ℕ) :
    Returns (call.uafActive = true)
      (buddyPoolAlloc call.poolOptions call.arena s.heap.buddyPool size) fun out =>
        Served s blk held ⟨blockSize size, .buddy⟩ out.1
          { s with heap := s.heap.setBuddy out.2 } ∧
        Within call.Offers s.heap (s.heap.setBuddy out.2) := by
  apply (buddyPoolAlloc_granted call.poolOptions hs.account.inv harena size).mono
  intro out hout
  exact ⟨hs.served hc hout.inv hout.fresh hout.preserved,
    hout.within.mono fun _ hx => Or.inr (Or.inl hx)⟩

/-! ### Requests -/

/-- The block a request for `size > 0` bytes is given. -/
def requestGrant (call : Call) (size : ℕ) : Grant :=
  if size ≤ smallMaxSize then slabGrant (sizeClass size) call.arenaForCaller
  else if size ≤ buddyMaxBlock then ⟨blockSize size, .buddy⟩
  else ⟨largeRoom call.debug size slabHeaderSize (largePheapAlignment call.hugePages size), .large⟩

theorem arenaForCaller_lt (call : Call) : call.arenaForCaller < arenaCount := by
  unfold Call.arenaForCaller
  split_ifs
  · decide
  · cases call.lifetime <;> decide

theorem sizeClassSize_blockSize (hmin : smallMaxSize < size) (hmax : size ≤ largeMaxSize) :
    sizeClassSize (sizeClass size) = blockSize size := by
  have hcls := sizeClass_power hmin
  rw [if_pos hmax] at hcls
  unfold smallMaxSize at hmin
  unfold largeMaxSize at hmax
  have hne : size - 1 ≠ 0 := by omega
  have h12 : 12 ≤ Nat.log2 (size - 1) := (Nat.le_log2 hne).2 (by omega)
  have h20 : Nat.log2 (size - 1) ≤ 20 := by
    rw [← Nat.lt_succ_iff, Nat.succ_eq_add_one, Nat.log2_lt hne]
    omega
  rw [hcls, power_class_size h12 h20]
  have hlevel : sizeToLevel size = Nat.log2 (size - 1) + 1 - 12 := by
    unfold sizeToLevel
    rw [if_neg (by unfold buddyMinBlock; omega)]
    exact if_neg (by unfold buddyMinShift; omega)
  simp only [blockSize, levelToSize, hlevel, buddyMinShift]
  congr 1
  omega

/-- What a call for `size` bytes answers. -/
structure Answered (s : Sys) (blk : Blocks) (held : Set ℕ) (size : ℕ) (g : Grant) (ptr : ℕ)
    (s' : Sys) : Prop where
  served : Served s blk held g ptr s'
  covers : ptr ≠ 0 → max size 1 ≤ g.bytes

/-- What the dispatcher does for it. -/
structure Dispatched (call : Call) (s : Sys) (blk : Blocks) (held : Set ℕ) (size : ℕ) (g : Grant)
    (ptr : ℕ) (s' : Sys) : Prop extends Answered s blk held size g ptr s',
    Issued call (max size 1) ptr s s' where
  footprint : Footprint call.Offers s.heap s'.heap

theorem Answered.dispatched (ha : Answered s blk held size g ptr s')
    (hw : Within call.Offers s.heap s'.heap) (hown : OwnCaches call s s') :
    Dispatched call s blk held size g ptr s' :=
  ⟨ha, ⟨hown, hw.large.issued _ _⟩, hw.toFootprint⟩

theorem Offered.calls {h h' : Heap} (ho : Offered h call.pages h' src) : Within call.Offers h h' :=
  ho.within.mono fun _ hx => Or.inl hx

theorem coerced_size (size : ℕ) : (size + if size = 0 then 1 else 0) = max size 1 := by
  split_ifs <;> omega

/-- A request of no byte has the class of a request of one byte. -/
theorem sizeClass_coerced (size : ℕ) : sizeClass (max size 1) = sizeClass size := by
  rcases Nat.eq_zero_or_pos size with rfl | hpos
  · decide
  · rw [max_eq_left hpos]

/-- The slab part of a request. -/
theorem dispatchAlloc_slab (hs : SysInv s L blk held) (hc : Calm L) (hlegal : Legal call s.heap)
    (hsmall : max size 1 ≤ smallMaxSize) :
    Returns (call.uafActive = true) (dispatchAlloc call s size) fun out =>
      Dispatched call s blk held size (requestGrant call (max size 1)) out.1 out.2 := by
  obtain ⟨hcls, hcovers, -⟩ := sizeClass_small (le_max_right size 1) hsmall
  simp only [dispatchAlloc, coerced_size, requestGrant, if_pos hsmall, if_pos hcls]
  have hanswer : ∀ {ptr : ℕ} {s' : Sys} {src : List ℕ},
      Served s blk held (slabGrant (sizeClass (max size 1)) call.arenaForCaller) ptr s' →
      Offered s.heap call.pages s'.heap src → OwnCaches call s s' → Dispatched call s blk held size
        (slabGrant (sizeClass (max size 1)) call.arenaForCaller) ptr s' :=
    fun hserved hoffered => Answered.dispatched ⟨hserved, fun _ => hcovers⟩ hoffered.calls
  by_cases harena : call.arenaForCaller = arenaDefault
  · rw [if_pos harena]
    rw [harena] at hanswer ⊢
    have hcached : Returns (call.uafActive = true) (serveFromTlc call s (sizeClass (max size 1)))
        fun out =>
          Served s blk held (slabGrant (sizeClass (max size 1)) arenaDefault) out.1 out.2.1 ∧
            Offered s.heap call.pages out.2.1.heap out.2.2 ∧ OwnCaches call s out.2.1 := by
      unfold serveFromTlc
      split_ifs
      · exact tryTlcFastPaths_spec hs hc hcls hlegal.pages
      · exact returns_ok ⟨served_null hs hc _, hlegal.pages.offered (.refl _), .of_eq rfl⟩
    apply hcached.bind
    rintro ⟨ptr, s₁, src⟩ ⟨hserved, hoffered, hown⟩
    dsimp only at hserved hoffered hown ⊢
    by_cases h0 : ptr = 0
    · rw [if_neg (not_not.2 h0)]
      obtain ⟨⟨L₁, blk₁, hs₁, hc₁, hcarried, -⟩, -⟩ := hserved
      rw [Account.heldAfter, if_pos h0] at hs₁
      apply (slabPoolAllocArena_served hs₁ hc₁ (by decide) hoffered.legal call.uafActive
        call.ownerCpu).bind
      exact fun out hout => returns_ok (hanswer (hout.1.of_carried hcarried)
        (hoffered.trans hout.2) ⟨hown.own, hown.without⟩)
    · rw [if_pos h0]
      exact returns_ok (hanswer hserved hoffered hown)
  · rw [if_neg harena]
    apply (slabPoolAllocArena_served hs hc (arenaForCaller_lt call) hlegal.pages call.uafActive
      call.ownerCpu).bind
    exact fun out hout => returns_ok (hanswer hout.1 hout.2 (.of_eq rfl))

/-- The buddy part: a medium bin first, then the pool. -/
theorem dispatchAlloc_medium (hs : SysInv s L blk held) (hc : Calm L) (hlegal : Legal call s.heap)
    (hmin : smallMaxSize < max size 1) (hmax : max size 1 ≤ buddyMaxBlock) :
    Returns (call.uafActive = true) (dispatchAlloc call s size) fun out =>
      Dispatched call s blk held size (requestGrant call (max size 1)) out.1 out.2 := by
  have hcls : ¬ sizeClass (max size 1) < mediumFirstClass :=
    Nat.not_lt.2 (sizeClass_medium hmin)
  simp only [dispatchAlloc, coerced_size, requestGrant, if_neg (Nat.not_le.2 hmin), if_pos hmax,
    if_neg hcls]
  have hcovers : max size 1 ≤ blockSize (max size 1) := le_levelToSize_sizeToLevel _
  have hbin := hs.mediumAlloc call (sizeClass (max size 1)) hc
  rw [sizeClassSize_blockSize hmin (hmax.trans (by decide))] at hbin
  have hcached : ∃ cached, (if call.useTlc && call.cacheReady then
      s.mediumAlloc call (sizeClass (max size 1)) else (0, s)) = cached ∧
      (cached = (0, s) ∨ cached.1 ≠ 0 ∧
        Dispatched call s blk held size ⟨blockSize (max size 1), .buddy⟩ cached.1 cached.2) := by
    split_ifs with hready
    · rw [Bool.and_eq_true] at hready
      refine ⟨_, rfl, hbin.imp_right fun hout => ⟨hout.1, ?_⟩⟩
      exact Answered.dispatched ⟨hout.2, fun _ => hcovers⟩ (.refl _ _)
        (OwnOnly.caches ⟨_, rfl⟩ hready.2)
    · exact ⟨_, rfl, Or.inl rfl⟩
  obtain ⟨cached, heq, hcases⟩ := hcached
  rw [heq]
  rcases hcases with rfl | ⟨hne, hserved⟩
  · rw [if_neg (by simp)]
    apply (buddyPoolAlloc_served hs hc call hlegal.arena (max size 1)).bind
    exact fun out hout =>
      returns_ok (Answered.dispatched ⟨hout.1, fun _ => hcovers⟩ hout.2 (.of_eq rfl))
  · rw [if_pos hne]
    exact returns_ok hserved

theorem LargeGranted.dispatched {off n : ℕ} {out : ℕ × Heap} (hs : SysInv s L blk held)
    (hc : Calm L) (hl : LargeGranted s.heap blk (InRegions call.regions) (max size 1) off n out) :
    Dispatched call s blk held size ⟨n, .large⟩ out.1 { s with heap := out.2 } :=
  ⟨⟨hs.served hc hl.inv hl.fresh hl.preserved, hl.covers⟩, ⟨.of_eq rfl, hl.issued⟩,
    hl.footprint.mono fun _ hx => Or.inr (Or.inr hx)⟩

/-- The large part; the pointer lies a header behind its region. -/
theorem dispatchAlloc_large (hs : SysInv s L blk held) (hc : Calm L) (hlegal : Legal call s.heap)
    (hbig : buddyMaxBlock < max size 1) :
    Returns (call.uafActive = true) (dispatchAlloc call s size) fun out =>
      Dispatched call s blk held size (requestGrant call (max size 1)) out.1 out.2 ∧
        (out.1 ≠ 0 → slabHeaderSize ∣ out.1) := by
  have hmin : smallMaxSize < max size 1 := lt_trans (by decide) hbig
  have hcls : ¬ sizeClass (max size 1) < mediumFirstClass :=
    Nat.not_lt.2 (sizeClass_medium hmin)
  simp only [dispatchAlloc, coerced_size, requestGrant, if_neg (Nat.not_le.2 hmin),
    if_neg (Nat.not_le.2 hbig), if_neg hcls]
  have hlarge := largeAlloc_spec call.largeOptions hs.account.inv hlegal.regions
    (show linkBytes ≤ max size 1 from le_trans (by decide) hbig.le)
  refine returns_ok ⟨hlarge.dispatched hs hc, ?_⟩
  intro hne
  obtain ⟨region, hregion, heq⟩ := hlarge.placed hne
  rw [heq]
  exact dvd_add (dvd_trans (by decide) hregion) dvd_rfl

theorem dispatchAlloc_spec (hs : SysInv s L blk held) (hc : Calm L) (hlegal : Legal call s.heap)
    (size : ℕ) :
    Returns (call.uafActive = true) (dispatchAlloc call s size) fun out =>
      Dispatched call s blk held size (requestGrant call (max size 1)) out.1 out.2 := by
  by_cases hsmall : max size 1 ≤ smallMaxSize
  · exact dispatchAlloc_slab hs hc hlegal hsmall
  · by_cases hmax : max size 1 ≤ buddyMaxBlock
    · exact dispatchAlloc_medium hs hc hlegal (Nat.lt_of_not_le hsmall) hmax
    · exact (dispatchAlloc_large hs hc hlegal (Nat.lt_of_not_le hmax)).mono fun _ hout => hout.1

/-! ### Over-aligned requests -/

theorem alignedClass_some {alignment left c : ℕ} : ∀ {cls : ℕ},
    alignedClass alignment left cls = some c →
      cls ≤ c ∧ c < cls + left ∧ sizeClassSize c &&& (alignment - 1) = 0 := by
  induction left with
  | zero => exact fun h => absurd h (by simp [alignedClass])
  | succ left ih =>
    intro cls hsome
    unfold alignedClass at hsome
    split_ifs at hsome with hmask
    · cases hsome
      exact ⟨le_rfl, by omega, hmask⟩
    · obtain ⟨hlo, hhi, hc⟩ := ih hsome
      exact ⟨by omega, by omega, hc⟩

theorem alignedSlabClass_covers {effective alignment c : ℕ} (hpos : 1 ≤ effective)
    (hsome : alignedSlabClass effective alignment = some c) :
    c < mediumFirstClass ∧ effective ≤ sizeClassSize c := by
  unfold alignedSlabClass at hsome
  split_ifs at hsome with hcond
  obtain ⟨hlo, hhi, -⟩ := alignedClass_some hsome
  obtain ⟨hcls, hcovers, -⟩ := sizeClass_small hpos hcond.2
  have hlt : c < mediumFirstClass := by omega
  refine ⟨hlt, ?_⟩
  rcases Nat.eq_or_lt_of_le hlo with rfl | hless
  · exact hcovers
  · exact hcovers.trans (sizeClassSize_lt hless (hlt.trans (by decide))).le

theorem alignedSlabClass_dvd {effective e c : ℕ}
    (hsome : alignedSlabClass effective (2 ^ e) = some c) :
    2 ^ e ∣ slabHeaderSize ∧ 2 ^ e ∣ sizeClassSize c := by
  unfold alignedSlabClass at hsome
  split_ifs at hsome with hcond
  obtain ⟨-, -, hmask⟩ := alignedClass_some hsome
  rw [Nat.and_two_pow_sub_one_eq_mod] at hmask
  exact ⟨pow_dvd_pow 2 ((Nat.pow_le_pow_iff_right (by norm_num)).1
    (show 2 ^ e ≤ 2 ^ 11 from hcond.1)), Nat.dvd_of_mod_eq_zero hmask⟩

/-- The block an aligned request for `size > 0` bytes is given. -/
def alignedGrant (call : Call) (size alignment : ℕ) : Grant :=
  if alignment ≤ mallocNaturalAlign then requestGrant call size
  else match alignedSlabClass (max size alignment) alignment with
    | some cls => slabGrant cls arenaDefault
    | none =>
      if max size alignment ≤ buddyMaxBlock then ⟨blockSize (max size alignment), .buddy⟩
      else ⟨largeRoom call.debug size (max slabHeaderSize alignment) pageSize, .large⟩

theorem effective_size (size alignment : ℕ) :
    (if size > alignment then size else alignment) = max size alignment := by
  split_ifs <;> omega

/-- A block of at least `2 ^ e` bytes from the buddy pool is aligned to it. -/
theorem HeapInv.buddy_dvd {h : Heap} {a n e : ℕ} (hh : HeapInv h blk)
    (ha : blk a = some ⟨n, .buddy⟩) (hle : 2 ^ e ≤ n) : 2 ^ e ∣ a := by
  obtain ⟨l, -, rfl, hdvd⟩ := hh.buddy_shape ha
  exact dvd_trans (pow_dvd_pow 2 ((Nat.pow_le_pow_iff_right (by norm_num)).1 hle)) hdvd

theorem Served.grant_inv (hserved : Served s blk held g ptr s') (hne : ptr ≠ 0) :
    ∃ blk', HeapInv s'.heap blk' ∧ blk' ptr = some g := by
  obtain ⟨⟨L', blk', hs', -, -, hgrant⟩, -⟩ := hserved
  exact ⟨blk', hs'.account.inv, hgrant hne⟩

/-- A call answered a block, at a multiple of the alignment if that is a power of two. -/
structure AnsweredAligned (call : Call) (s : Sys) (blk : Blocks) (held : Set ℕ)
    (size alignment : ℕ) (g : Grant) (ptr : ℕ) (s' : Sys) : Prop
    extends Dispatched call s blk held size g ptr s' where
  aligned : ptr ≠ 0 → ∀ e, alignment = 2 ^ e → 2 ^ e ∣ ptr

theorem dispatchAllocAligned_over {alignment : ℕ} (hs : SysInv s L blk held) (hc : Calm L)
    (hlegal : Legal call s.heap) (hbig : mallocNaturalAlign < alignment) :
    Returns (call.uafActive = true) (dispatchAllocAligned call s size alignment) fun out =>
      AnsweredAligned call s blk held size alignment (alignedGrant call (max size 1) alignment)
        out.1 out.2 := by
  simp only [dispatchAllocAligned, coerced_size, alignedGrant, if_neg (Nat.not_le.2 hbig),
    effective_size]
  by_cases hcap : alignment > buddyMaxBlock
  · rw [if_pos hcap]
    exact returns_ok ⟨Answered.dispatched ⟨served_null hs hc _, fun hne => absurd rfl hne⟩
      (.refl _ _) (.of_eq rfl), fun hne => absurd rfl hne⟩
  rw [if_neg hcap]
  have heff : max size 1 ≤ max (max size 1) alignment := le_max_left _ _
  cases hslab : alignedSlabClass (max (max size 1) alignment) alignment with
  | some cls =>
    have hcovers := (alignedSlabClass_covers ((le_max_right size 1).trans heff) hslab).2
    apply (slabPoolAllocArena_served hs hc (by decide) hlegal.pages call.uafActive
      call.ownerCpu).bind
    refine fun out hout => returns_ok ⟨Answered.dispatched
      ⟨hout.1, fun _ => heff.trans hcovers⟩ hout.2.calls (.of_eq rfl), ?_⟩
    rintro hne e rfl
    obtain ⟨blk', hinv, hgrant⟩ := hout.1.grant_inv hne
    obtain ⟨hheader, hsize⟩ := alignedSlabClass_dvd hslab
    exact hinv.slab_dvd hgrant hheader hsize
  | none =>
    by_cases hmax : max (max size 1) alignment ≤ buddyMaxBlock
    · simp only [if_pos hmax]
      have hcovers := le_levelToSize_sizeToLevel (max (max size 1) alignment)
      apply (buddyPoolAlloc_served hs hc call hlegal.arena _).bind
      refine fun out hout => returns_ok ⟨Answered.dispatched
        ⟨hout.1, fun _ => heff.trans hcovers⟩ hout.2 (.of_eq rfl), ?_⟩
      rintro hne e rfl
      obtain ⟨blk', hinv, hgrant⟩ := hout.1.grant_inv hne
      exact hinv.buddy_dvd hgrant ((le_max_right _ _).trans hcovers)
    · simp only [if_neg hmax]
      have hsize : linkBytes ≤ max size 1 := by
        unfold buddyMaxBlock at hmax hcap
        unfold linkBytes
        omega
      have hlarge := largeAllocAligned_spec call.largeOptions hs.account.inv hlegal.regions hsize
        alignment
      refine returns_ok ⟨hlarge.dispatched hs hc, ?_⟩
      rintro hne e rfl
      obtain ⟨hoff, hpage⟩ := largeAllocAligned_dvd call.largeOptions hne
      obtain ⟨region, hregion, heq⟩ := hlarge.placed hne
      rw [heq]
      exact dvd_add (hpage.trans hregion) hoff

theorem dispatchAllocAligned_spec (hs : SysInv s L blk held) (hc : Calm L)
    (hlegal : Legal call s.heap) (size alignment : ℕ) :
    Returns (call.uafActive = true) (dispatchAllocAligned call s size alignment) fun out =>
      Dispatched call s blk held size (alignedGrant call (max size 1) alignment) out.1 out.2 := by
  by_cases hbig : mallocNaturalAlign < alignment
  · exact (dispatchAllocAligned_over hs hc hlegal hbig).mono fun _ hout => hout.toDispatched
  · have hplain := dispatchAlloc_spec hs hc hlegal (max size 1)
    simp only [dispatchAllocAligned, coerced_size, alignedGrant, if_pos (Nat.le_of_not_lt hbig)]
    apply hplain.mono
    rintro out ⟨⟨hserved, hcovers⟩, hissued, hfoot⟩
    rw [max_eq_left (le_max_right size 1)] at hserved hcovers hissued
    exact ⟨⟨hserved, hcovers⟩, hissued, hfoot⟩

end V8Malloc
