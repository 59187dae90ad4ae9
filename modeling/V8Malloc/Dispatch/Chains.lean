import V8Malloc.Dispatch.Invariant

/-!
# Chains between the caches

What the caches hand to each other: a chain drained from a bin, a chain popped
from the stack of a CPU, and a chain hung on either of them.
-/
namespace V8Malloc

open ByteMemory LinkedList StackLedger Function

variable {s : Sys} {L : Stack → List ℕ} {blk : Blocks} {held : Set ℕ} {g : Grant}
variable {last x t cls cpu v n max : ℕ} {batch : Batch} {xs : List ℕ}
variable {cache : ThreadCache} {core : CoreCaches} {m : Mem} {call : Call}

theorem Sys.setMem_self (s : Sys) : s.setMem s.heap.mem = s := rfl

theorem Sys.caches_setCache (s : Sys) (t : ℕ) (cache : ThreadCache) :
    (s.setCache t cache).caches t = cache := by
  simp [Sys.setCache]

theorem Sys.setCache_again (s : Sys) (t : ℕ) (cache cache' : ThreadCache) (m m' : Mem) :
    (((s.setCache t cache).setMem m).setMem m').setCache t cache' =
      (s.setMem m').setCache t cache' := by
  simp [Sys.setCache, Sys.setMem]

/-! ### Links -/

/-- The block just come to hand starts a chain. -/
theorem Holding.start (hh : Holding s L blk (insert x held) g last batch []) (hx : x ∉ held)
    (hg : blk x = some g) :
    Holding s L blk held g (load64 s.heap.mem x) ⟨x, x, batch.count + 1⟩ [x] :=
  ⟨InHand.snoc { hh.chain with links := trivial } hx hg, hh.tally⟩

/-- The block just come to hand is linked behind the chain. -/
theorem Holding.append (hh : Holding s L blk (insert x held) g last batch xs) (hne : xs ≠ [])
    (hx : x ∉ held) (hg : blk x = some g) :
    Holding (s.setMem (store64 s.heap.mem batch.tail x)) L blk held g
        (load64 (store64 s.heap.mem batch.tail x) x) ⟨batch.head, x, batch.count + 1⟩
        (xs ++ [x]) ∧
      Carried held blk s.heap.mem blk (store64 s.heap.mem batch.tail x) := by
  obtain ⟨hrelink, hcarried⟩ := hh.chain.relink hne (hh.chain.account.block_lt hg)
  have hsnoc := hrelink.snoc hx hg
  rw [if_neg hne] at hsnoc
  exact ⟨⟨hsnoc, hh.tally⟩, hcarried.mono (Set.subset_insert x held)⟩

/-- The end of the chain is marked. -/
theorem Holding.close (hh : Holding s L blk held g last batch xs) (hne : xs ≠ []) :
    Holding (s.setMem (store64 s.heap.mem batch.tail 0)) L blk held g 0 batch xs ∧
      Carried held blk s.heap.mem blk (store64 s.heap.mem batch.tail 0) := by
  obtain ⟨hrelink, hcarried⟩ := hh.chain.relink hne (by decide : 0 < addressSpace)
  exact ⟨⟨hrelink, hh.tally⟩, hcarried⟩

/-- The chain ends in a block. -/
theorem Holding.tail_inside (hh : Holding s L blk held g last batch xs) (hne : xs ≠ []) (v : ℕ)
    (hx : ¬ s.heap.Taken x) : store64 s.heap.mem batch.tail v x = s.heap.mem x :=
  hh.chain.account.inv.link_inside (hh.chain.grants _ (hh.chain.tail_mem hne)) v hx

/-! ### From a bin -/

theorem drainChainLoop_spec (nodeOverloaded : Bool) (t : ℕ) (hcls : cls < mediumFirstClass)
    (left : ℕ) : ∀ {s : Sys} {L : Stack → List ℕ} {batch : Batch} {xs : List ℕ} {last : ℕ},
      Holding s L blk held (slabGrant cls arenaDefault) last batch xs → xs ≠ [] →
      (L (.bin t cls)).length < 2 ^ 16 →
      ∃ out, drainChainLoop nodeOverloaded cls left batch (s.caches t) s.heap.mem = out ∧
        ∃ xs' rest last', xs' ≠ [] ∧ xs ++ L (.bin t cls) = xs' ++ rest ∧
          Holding ((s.setMem out.2.2).setCache t out.2.1) (update L (.bin t cls) rest) blk
            held (slabGrant cls arenaDefault) last' out.1 xs' ∧
          Carried held blk s.heap.mem blk out.2.2 := by
  induction left with
  | zero =>
    intro s L batch xs last hh hne hlen
    refine ⟨_, rfl, xs, L (.bin t cls), last, hne, rfl, ?_, Carried.refl _ _ _⟩
    rw [update_eq_self]
    simpa [drainChainLoop, Sys.setMem_self, Sys.setCache_self] using hh
  | succ left ih =>
    intro s L batch xs last hh hne hlen
    simp only [drainChainLoop]
    rcases hh.binAlloc nodeOverloaded t hcls hlen with
      ⟨hempty, heq⟩ | ⟨y, rest, cache', heq, hy, hL, hnot, hg, hh'⟩
    · simp only [heq, if_true]
      refine ⟨_, rfl, xs, L (.bin t cls), last, hne, rfl, ?_, Carried.refl _ _ _⟩
      rw [update_eq_self]
      simpa [Sys.setMem_self, Sys.setCache_self] using hh
    · simp only [heq, if_neg hy]
      obtain ⟨happ, hcarried⟩ := hh'.append hne hnot hg
      have hshort : (update L (.bin t cls) rest (.bin t cls)).length < 2 ^ 16 := by
        rw [hL, List.length_cons] at hlen
        rw [update_self]
        omega
      obtain ⟨out, hout, xs', rest', last', hne', hsplit, hfin, hcarried'⟩ :=
        ih happ (by simp) hshort
      have hcache : ((s.setCache t cache').setMem
          (store64 (s.setCache t cache').heap.mem batch.tail y)).caches t = cache' :=
        Sys.caches_setCache s t cache'
      rw [hcache] at hout
      refine ⟨out, hout, xs', rest', last', hne', ?_, ?_, hcarried.trans hcarried'⟩
      · rw [update_self] at hsplit
        rw [hL, ← hsplit, List.append_assoc]
        rfl
      · rw [Sys.setCache_again, update_idem] at hfin
        exact hfin

/-- A chain of at least one slot leaves a bin that is not empty. -/
theorem SysInv.drainChain (hs : SysInv s L blk held) (call : Call) (hcls : cls < mediumFirstClass)
    {count : ℕ} (hcount : count ≠ 0) (hlen : (L (.bin call.thread cls)).length < 2 ^ 16)
    (hne : L (.bin call.thread cls) ≠ []) :
    ∃ batch s', s.drainChain call cls count = (batch, s') ∧ ∃ xs rest, xs ≠ [] ∧
      L (.bin call.thread cls) = xs ++ rest ∧
      Holding s' (update L (.bin call.thread cls) rest) blk held
        (slabGrant cls arenaDefault) 0 batch xs ∧
      Carried held blk s.heap.mem blk s'.heap.mem := by
  rcases (hs.holding (slabGrant cls arenaDefault) 0).binAlloc call.nodeOverloaded call.thread
    hcls hlen with ⟨hempty, -⟩ | ⟨y, rest, cache', heq, hy, hL, hnot, hg, hh⟩
  · exact absurd hempty hne
  · obtain ⟨out, hout, xs, rest', last', hne', hsplit, hloop, hcarried⟩ :=
      drainChainLoop_spec call.nodeOverloaded call.thread hcls (count - 1) (hh.start hnot hg)
        (by simp) (by rw [update_self]; rw [hL, List.length_cons] at hlen; omega)
    rw [Sys.caches_setCache] at hout
    obtain ⟨hclose, hcarried'⟩ := hloop.close hne'
    have hval : s.drainChain call cls count = (out.1,
        (s.setMem (store64 out.2.2 out.1.tail 0)).setCache call.thread out.2.1) := by
      simp only [Sys.drainChain, threadCacheDrainChain, heq]
      rw [if_neg (by omega), if_neg hy]
      exact congrArg (fun out : Batch × ThreadCache × Mem => (out.1,
        (s.setMem (store64 out.2.2 out.1.tail 0)).setCache call.thread out.2.1)) hout
    refine ⟨_, _, hval, xs, rest', hne', ?_, ?_, hcarried.trans hcarried'⟩
    · rw [update_self] at hsplit
      rw [hL, ← hsplit]
      rfl
    · rw [update_idem] at hclose
      simpa [Sys.setCache, Sys.setMem] using hclose

/-! ### From the stack of a CPU -/

theorem top_setTop (hv : v < addressSpace) :
    { s with core := s.core.setTop cpu cls v }.top = update s.top (.core cpu cls) v := by
  funext k
  cases k with
  | bin t c => simp [Sys.top]
  | core cpu' c =>
    by_cases hcpu : cpu' = cpu
    · subst hcpu
      by_cases hc : c = cls
      · subst hc
        simp [Sys.top, CoreCaches.setTop, tagptrPtr_make hv]
      · simp [Sys.top, CoreCaches.setTop, hc]
    · simp [Sys.top, CoreCaches.setTop, hcpu]
  | medium t i => simp [Sys.top]

/-- A call of `v8m_core_cache_pop`: the stack is empty, or its top comes to hand. -/
theorem Holding.corePop (cpu : ℕ) (hh : Holding s L blk held g last batch xs)
    (hcls : cls < mediumFirstClass) :
    L (.core cpu cls) = [] ∧ coreCachePop s.core s.heap.mem cpu cls = (0, s.core) ∨
      ∃ y rest core', coreCachePop s.core s.heap.mem cpu cls = (y, core') ∧ y ≠ 0 ∧
        L (.core cpu cls) = y :: rest ∧ y ∉ held ∧ blk y = some (slabGrant cls arenaDefault) ∧
        Holding { s with core := core' } (update L (.core cpu cls) rest) blk
          (insert y held) g last batch xs := by
  have hbound : ¬ cls ≥ numSizeClasses := by
    unfold numSizeClasses mediumFirstClass at *
    omega
  simp only [coreCachePop, if_neg hbound]
  by_cases hne : s.top (.core cpu cls) = 0
  · left
    refine ⟨((hh.chain.account.ledger.chain _).nil_iff).1 hne, ?_⟩
    exact if_pos hne
  · right
    obtain ⟨rest, hL, hnot, ⟨g', hg', -, rfl⟩, hpop⟩ := hh.chain.pop hne
    have hlt := hpop.account.head_lt (.core cpu cls)
    rw [update_self] at hlt
    refine ⟨_, rest, _, if_neg hne, hne, hL, hnot, hg', ?_, ?_⟩
    · rw [← top_setTop hlt] at hpop
      exact hpop
    · exact hh.tally.keep fun t c => by simp

theorem coreCachePopLoop_spec (cpu : ℕ) (hcls : cls < mediumFirstClass) (left : ℕ) :
    ∀ {s : Sys} {L : Stack → List ℕ} {batch : Batch} {xs : List ℕ} {last : ℕ},
      Holding s L blk held (slabGrant cls arenaDefault) last batch xs →
      ∃ out, coreCachePopLoop cpu cls left batch s.core s.heap.mem = out ∧
        ∃ xs' rest last', xs ++ L (.core cpu cls) = xs' ++ rest ∧
          out.1.count ≤ batch.count + left ∧
          Holding ({ s with core := out.2.1 }.setMem out.2.2)
            (update L (.core cpu cls) rest) blk held (slabGrant cls arenaDefault) last'
            out.1 xs' ∧
          Carried held blk s.heap.mem blk out.2.2 ∧
          ∀ x, ¬ s.heap.Taken x → out.2.2 x = s.heap.mem x := by
  induction left with
  | zero =>
    intro s L batch xs last hh
    refine ⟨_, rfl, xs, L (.core cpu cls), last, rfl, le_rfl, ?_, Carried.refl _ _ _,
      fun _ _ => rfl⟩
    rw [update_eq_self]
    exact hh
  | succ left ih =>
    intro s L batch xs last hh
    simp only [coreCachePopLoop]
    rcases hh.corePop cpu hcls with
      ⟨hempty, heq⟩ | ⟨y, rest, core', heq, hy, hL, hnot, hg, hh'⟩
    · simp only [heq, if_true]
      refine ⟨_, rfl, xs, L (.core cpu cls), last, rfl, Nat.le_add_right _ _, ?_,
        Carried.refl _ _ _, fun _ _ => rfl⟩
      rw [update_eq_self]
      exact hh
    · simp only [heq, if_neg hy, hh.chain.head_zero_iff]
      by_cases hxs : xs = []
      · rw [if_pos hxs]
        subst hxs
        obtain ⟨out, hout, xs', rest', last', hsplit, hcount, hfin, hrest⟩ :=
          ih (hh'.start hnot hg)
        refine ⟨out, hout, xs', rest', last', ?_, by dsimp only at hcount; omega, ?_, hrest⟩
        · rw [update_self] at hsplit
          rw [hL, ← hsplit]
          rfl
        · rw [update_idem] at hfin
          exact hfin
      · rw [if_neg hxs]
        obtain ⟨happ, hcarried⟩ := hh'.append hxs hnot hg
        obtain ⟨out, hout, xs', rest', last', hsplit, hcount, hfin, hcarried', hin⟩ := ih happ
        refine ⟨out, hout, xs', rest', last', ?_, by dsimp only at hcount; omega, ?_,
          hcarried.trans hcarried', fun x hx => ?_⟩
        · rw [update_self] at hsplit
          rw [hL, ← hsplit, List.append_assoc]
          rfl
        · rw [update_idem] at hfin
          exact hfin
        · exact (hin x fun ht => hx (taken_setMem _ _ ht)).trans (hh.tail_inside hxs y hx)

/-- A chain of at most `max` slots leaves the stack. -/
theorem SysInv.popBatch (hs : SysInv s L blk held) (cpu max : ℕ) (hcls : cls < mediumFirstClass) :
    ∃ batch s', s.popBatch cpu cls max = (batch, s') ∧ ∃ xs rest,
      L (.core cpu cls) = xs ++ rest ∧ batch.count ≤ max ∧
      Holding s' (update L (.core cpu cls) rest) blk held (slabGrant cls arenaDefault) 0
        batch xs ∧
      Carried held blk s.heap.mem blk s'.heap.mem ∧ s'.caches = s.caches ∧
      ∀ src, LegalPages s.heap src → Offered s.heap src s'.heap src := by
  have hempty := hs.holding (slabGrant cls arenaDefault) 0
  simp only [Sys.popBatch, coreCachePopBatch]
  by_cases hnone : cls ≥ numSizeClasses ∨ max = 0
  · simp only [if_pos hnone]
    refine ⟨_, _, rfl, [], L (.core cpu cls), rfl, Nat.zero_le _, ?_, Carried.refl _ _ _, rfl,
      fun _ hl => hl.offered (.refl _)⟩
    rw [update_eq_self]
    exact hempty
  · simp only [if_neg hnone]
    obtain ⟨out, hout, xs, rest, last, hsplit, hcount, hloop, hcarried, hin⟩ :=
      coreCachePopLoop_spec cpu hcls max hempty
    rw [hout]
    refine ⟨_, _, rfl, xs, rest, hsplit, by simpa using hcount, ?_⟩
    by_cases hxs : xs = []
    · subst hxs
      rw [if_neg (by rw [hloop.chain.count_eq]; simp)]
      exact ⟨⟨{ hloop.chain with links := trivial }, hloop.tally⟩, hcarried, rfl,
        fun _ hl => hl.write hin⟩
    · have hpos : out.1.count > 0 := by
        rw [hloop.chain.count_eq]
        exact List.length_pos_iff.2 hxs
      rw [if_pos hpos]
      obtain ⟨hclose, hcarried'⟩ := hloop.close hxs
      exact ⟨hclose, hcarried.trans hcarried', rfl, fun _ hl => hl.write fun x hx =>
        (hloop.tail_inside hxs 0 fun ht => hx (taken_setMem s.heap _ ht)).trans (hin x hx)⟩

/-- A chain of at most `max` slots came to hand from the stack of some CPU. -/
def Popped (s : Sys) (L : Stack → List ℕ) (blk : Blocks) (held : Set ℕ) (cls max : ℕ)
    (out : Batch × Sys) : Prop :=
  ∃ xs L', Holding out.2 L' blk held (slabGrant cls arenaDefault) 0 out.1 xs ∧
    (∀ t c, L' (.bin t c) = L (.bin t c)) ∧ out.1.count ≤ max ∧
    Carried held blk s.heap.mem blk out.2.heap.mem ∧ out.2.caches = s.caches ∧
    ∀ src, LegalPages s.heap src → Offered s.heap src out.2.heap src

theorem popped_nothing (hs : SysInv s L blk held) (cls max : ℕ) :
    Popped s L blk held cls max (⟨0, 0, 0⟩, s) :=
  ⟨[], L, hs.holding _ 0, fun _ _ => rfl, Nat.zero_le _, Carried.refl _ _ _, rfl,
    fun _ hl => hl.offered (.refl _)⟩

theorem SysInv.popped (hs : SysInv s L blk held) (cpu max : ℕ) (hcls : cls < mediumFirstClass) :
    Popped s L blk held cls max (s.popBatch cpu cls max) := by
  obtain ⟨batch, s', hpop, xs, rest, -, hcount, hh, hrest⟩ := hs.popBatch cpu max hcls
  rw [hpop]
  exact ⟨xs, _, hh, fun _ _ => by simp, hcount, hrest⟩

/-- The stack of this CPU, or nothing. -/
theorem SysInv.popOwnBatch (hs : SysInv s L blk held) (call : Call) (max : ℕ)
    (hcls : cls < mediumFirstClass) :
    Popped s L blk held cls max (popOwnBatch call s cls max) := by
  unfold V8Malloc.popOwnBatch
  split
  · exact hs.popped _ max hcls
  · exact popped_nothing hs cls max

/-- The stack of a donor, or nothing. -/
theorem SysInv.stealBatch (hs : SysInv s L blk held) (call : Call) (max : ℕ)
    (hcls : cls < mediumFirstClass) :
    Popped s L blk held cls max (s.stealBatch call cls max) := by
  simp only [Sys.stealBatch, coreCacheStealBatch]
  split_ifs
  · exact popped_nothing hs cls max
  · exact popped_nothing hs cls max
  · exact hs.popped (s.core.lastPushCpu cls) max hcls

/-! ### Onto a bin or a stack -/

theorem Holding.installChain (hh : Holding s L blk held (slabGrant cls arenaDefault) 0 batch xs)
    (call : Call) (hcls : cls < mediumFirstClass) (hne : xs ≠ [])
    (hlen : (L (.bin call.thread cls)).length + xs.length < 2 ^ 16) :
    SysInv (s.installChain call cls batch)
        (update L (.bin call.thread cls) (xs ++ L (.bin call.thread cls))) blk held ∧
      Carried held blk s.heap.mem blk (s.installChain call cls batch).heap.mem ∧
      ∀ src, LegalPages s.heap src → Offered s.heap src (s.installChain call cls batch).heap src := by
  have hfits : Stack.fits (.bin call.thread cls) (slabGrant cls arenaDefault) := ⟨hcls, rfl⟩
  obtain ⟨hacc, hcarried⟩ := hh.chain.splice hne hfits
  have hguard : ¬(batch.head = 0 ∨ batch.tail = 0 ∨ cls ≥ mediumFirstClass ∨ batch.count = 0) := by
    simp [hh.chain.head_zero_iff, hh.chain.tail_zero_iff, hh.chain.count_zero_iff, hne, hcls]
  have hb : BinChanged (s.caches call.thread) cls batch.head
      (xs ++ L (.bin call.thread cls)).length
      (threadCacheInstallChain (s.caches call.thread) s.heap.mem cls batch).1 := by
    simp only [threadCacheInstallChain, if_neg hguard]
    refine ⟨rfl, ?_, rfl, fun hc => hc⟩
    simp only [hh.tally.count, hh.chain.count_eq, List.length_append]
    congr 1
    omega
  have hmem : (threadCacheInstallChain (s.caches call.thread) s.heap.mem cls batch).2 =
      store64 s.heap.mem batch.tail (s.top (.bin call.thread cls)) := by
    simp only [threadCacheInstallChain, if_neg hguard]
    rfl
  simp only [Sys.installChain, hmem]
  exact ⟨sysInv_setBin hh.tally hb hacc, hcarried, fun _ hl => hl.write fun _ hx =>
    hh.tail_inside hne _ hx⟩

theorem Holding.pushBatch (hh : Holding s L blk held (slabGrant cls arenaDefault) 0 batch xs)
    (call : Call) (cpu : ℕ) (hcls : cls < mediumFirstClass) (hne : xs ≠ []) :
    SysInv (s.pushBatch call cpu cls batch)
        (update L (.core cpu cls) (xs ++ L (.core cpu cls))) blk held ∧
      Carried held blk s.heap.mem blk (s.pushBatch call cpu cls batch).heap.mem := by
  have hfits : Stack.fits (.core cpu cls) (slabGrant cls arenaDefault) := ⟨hcls, rfl⟩
  obtain ⟨hacc, hcarried⟩ := hh.chain.splice hne hfits
  have hguard : ¬(batch.head = 0 ∨ batch.tail = 0 ∨ cls ≥ numSizeClasses) := by
    unfold mediumFirstClass at hcls
    unfold numSizeClasses
    simp [hh.chain.head_zero_iff, hh.chain.tail_zero_iff, hne]
    omega
  have htop : (s.pushBatch call cpu cls batch).top =
      update s.top (.core cpu cls) batch.head := by
    rw [← top_setTop hh.chain.head_lt]
    simp only [Sys.pushBatch, coreCachePushBatch, if_neg hguard]
    split_ifs <;> rfl
  have hheap : (s.pushBatch call cpu cls batch).heap =
      { s.heap with mem := store64 s.heap.mem batch.tail (s.top (.core cpu cls)) } := by
    simp only [Sys.pushBatch, coreCachePushBatch, if_neg hguard]
    split_ifs <;> rfl
  rw [hheap]
  refine ⟨⟨?_, ?_⟩, hcarried⟩
  · rw [htop, hheap]
    exact hacc
  · exact hh.tally.keep fun t c => by simp

end V8Malloc
