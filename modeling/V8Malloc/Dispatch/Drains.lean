import V8Malloc.Dispatch.Chains

/-!
# Slots back to the pool

The flush of a bin, the drain of a whole cache and the drain of a CPU's stacks
give slots back one by one. Each loop ends, and what the program holds is not
touched.
-/
namespace V8Malloc

open ByteMemory LinkedList StackLedger Function

variable {s : Sys} {L : Stack → List ℕ} {blk : Blocks} {held : Set ℕ} {g : Grant}
variable {last x t cls cpu arena node : ℕ} {batch : Batch} {xs : List ℕ} {call : Call}

/-- A slot in hand goes back to its pool. -/
theorem SysInv.slabFree (hs : SysInv s L blk held) (call : Call) (hx : x ∈ held)
    (hg : blk x = some (slabGrant cls arena)) :
    SysInv (s.slabFree call arena x) L (update blk x none) (held \ {x}) ∧
      Carried (held \ {x}) blk s.heap.mem (update blk x none)
        (s.slabFree call arena x).heap.mem := by
  obtain ⟨hinv, hpres⟩ := slabPoolFree_spec call.uafActive hs.account.inv hg
  obtain ⟨hacc, hcarried⟩ := hs.account.release hx hinv hpres
  exact ⟨⟨hacc, hs.tally⟩, hcarried⟩

/-! ### Walks along a chain -/

theorem hand_sdiff_head (hx : x ∉ held) (hxs : x ∉ xs) :
    (held ∪ {y | y ∈ x :: xs}) \ {x} = held ∪ {y | y ∈ xs} := by
  ext y
  by_cases hy : y = x
  · subst hy
    simp [hx, hxs]
  · simp [hy]

/-- The nodes of a chain in hand go back one by one; the walk that checks each header does the
same. -/
theorem freeStackNodes_spec (call : Call) (xs : List ℕ) : ∀ {s : Sys} {blk : Blocks} {node : ℕ},
    SysInv s L blk (held ∪ {x | x ∈ xs}) → Chain 0 (load64 s.heap.mem) node xs →
    (∀ x ∈ xs, blk x = some (slabGrant cls arenaDefault)) → (∀ x ∈ xs, x ∉ held) →
    ∃ s' blk', freeStackNodes call xs.length s node = s' ∧ freeChain call xs.length s node = .ok s' ∧
      SysInv s' L blk' held ∧ Carried held blk s.heap.mem blk' s'.heap.mem := by
  induction xs with
  | nil =>
    intro s blk node hs hchain hgrants hfresh
    refine ⟨s, blk, rfl, ?_, by simpa using hs, Carried.refl _ _ _⟩
    simp [freeChain, hchain.nil_iff.2 rfl]
  | cons y ys ih =>
    intro s blk node hs hchain hgrants hfresh
    obtain ⟨hy, hys⟩ := List.nodup_cons.1 hchain.nodup
    have hnode : node = y := hchain.head_eq
    subst hnode
    have hg := hgrants node List.mem_cons_self
    obtain ⟨hs', hcarried⟩ := hs.slabFree call (x := node) (by simp) hg
    rw [hand_sdiff_head (hfresh node List.mem_cons_self) hy] at hs' hcarried
    have hchain' : Chain 0 (load64 (s.slabFree call arenaDefault node).heap.mem)
        (load64 s.heap.mem node) ys := by
      cases hchain with
      | cons _ htail =>
        apply htail.congr
        intro z hz
        have hgz := hgrants z (List.mem_cons_of_mem _ hz)
        exact hs.account.load64_kept hgz (hcarried z (Set.mem_union_right _ hz) _ hgz).2
    obtain ⟨s', blk', hwalk, hchecked, hfin, hcarried'⟩ := ih hs' hchain'
      (fun z hz => (hcarried z (Set.mem_union_right _ hz) _
        (hgrants z (List.mem_cons_of_mem _ hz))).1)
      (fun z hz => hfresh z (List.mem_cons_of_mem _ hz))
    refine ⟨s', blk', hwalk, ?_, hfin,
      (hcarried.mono Set.subset_union_left).trans hcarried'⟩
    obtain ⟨page, hhead, -⟩ := hs.account.inv.slab_header hg
    have hvalid : (s.heap.headerAt (ptrToMeta node)).isSome := by
      simp [Heap.headerAt, hhead]
    simp only [List.length_cons, freeChain, if_neg (hchain.ne_nil List.mem_cons_self), hvalid,
      if_true]
    exact hchecked

/-- A chain in hand goes back whole. -/
theorem Holding.freeNodes (hh : Holding s L blk held (slabGrant cls arenaDefault) 0 batch xs)
    (call : Call) :
    ∃ s' blk', freeStackNodes call batch.count s batch.head = s' ∧
      freeChain call batch.count s batch.head = .ok s' ∧ SysInv s' L blk' held ∧
      Carried held blk s.heap.mem blk' s'.heap.mem := by
  rw [hh.chain.count_eq]
  exact freeStackNodes_spec call xs ⟨hh.chain.account, hh.tally⟩ hh.chain.chain hh.chain.grants
    hh.chain.fresh

/-! ### Bins -/

theorem flushHalfLoop_spec (call : Call) (t left : ℕ) :
    ∀ {s : Sys} {L : Stack → List ℕ} {blk : Blocks} (freed : ℕ), SysInv s L blk held →
      (L (.bin t cls)).length < 2 ^ 16 →
      ∃ out, flushHalfLoop call.uafActive arenaDefault cls left freed (s.caches t) s.heap = out ∧
        ∃ blk' rest, rest.length = (L (.bin t cls)).length - left ∧
          out.1 + rest.length = freed + (L (.bin t cls)).length ∧
          SysInv ({ s with heap := out.2.2 }.setCache t out.2.1)
            (update L (.bin t cls) rest) blk' held ∧
          Carried held blk s.heap.mem blk' out.2.2.mem := by
  induction left with
  | zero =>
    intro s L blk freed hs hlen
    refine ⟨_, rfl, blk, L (.bin t cls), rfl, rfl, ?_, Carried.refl _ _ _⟩
    rw [update_eq_self]
    simpa [flushHalfLoop, Sys.setCache_self] using hs
  | succ left ih =>
    intro s L blk freed hs hlen
    simp only [flushHalfLoop]
    by_cases hne : (s.caches t).binHeads cls = 0
    · have hempty : L (.bin t cls) = [] := ((hs.account.ledger.chain (.bin t cls)).nil_iff).1 hne
      rw [if_pos hne]
      refine ⟨_, rfl, blk, L (.bin t cls), by simp [hempty], rfl, ?_, Carried.refl _ _ _⟩
      rw [update_eq_self]
      simpa [Sys.setCache_self] using hs
    · rw [if_neg hne]
      obtain ⟨rest, hL, hnot, hg, hpop⟩ :=
        (hs.holding (slabGrant cls arenaDefault) 0).popBin (t := t) hne hlen
          (unlink_binChanged _ _ _ _)
      obtain ⟨hfree, hcarried⟩ := hpop.sysInv.slabFree call (Set.mem_insert _ _) hg
      rw [Set.insert_sdiff_self_of_notMem hnot] at hfree hcarried
      have hshort : (update L (.bin t cls) rest (.bin t cls)).length < 2 ^ 16 := by
        rw [hL, List.length_cons] at hlen
        rw [update_self]
        omega
      obtain ⟨out, hout, blk', rest', hlen', hcount, hfin, hcarried'⟩ := ih (freed + 1)
        hfree hshort
      rw [update_self] at hlen' hcount
      have hcache : ((s.setCache t ((s.caches t).unlink s.heap.mem cls
          (s.top (.bin t cls)))).slabFree call arenaDefault (s.top (.bin t cls))).caches t =
          (s.caches t).unlink s.heap.mem cls (s.top (.bin t cls)) := Sys.caches_setCache s t _
      rw [hcache] at hout
      refine ⟨out, hout, blk', rest', ?_, ?_, ?_, hcarried.trans hcarried'⟩
      · rw [hlen', hL, List.length_cons]
        omega
      · rw [hL, List.length_cons]
        omega
      · rw [update_idem] at hfin
        simpa [Sys.setCache, Sys.slabFree] using hfin

theorem threadCacheFlushHalf_spec (hs : SysInv s L blk held) (call : Call) (t : ℕ)
    (hcls : cls < mediumFirstClass) (hlen : (L (.bin t cls)).length < 2 ^ 16) :
    ∃ out, threadCacheFlushHalf call.uafActive (s.caches t) s.heap arenaDefault cls = out ∧
      ∃ blk' rest, rest.length = (L (.bin t cls)).length / 2 ∧
        out.1 + rest.length = (L (.bin t cls)).length ∧
        SysInv ({ s with heap := out.2.2 }.setCache t out.2.1)
          (update L (.bin t cls) rest) blk' held ∧
        Carried held blk s.heap.mem blk' out.2.2.mem := by
  simp only [threadCacheFlushHalf, ge_iff_le, if_neg (Nat.not_le.2 hcls)]
  obtain ⟨out, hout, blk', rest, hrest, hcount, hfin, hcarried⟩ :=
    flushHalfLoop_spec call t (((s.caches t).binCount cls + 1) / 2 % 2 ^ 16) 0 hs hlen
  refine ⟨out, hout, blk', rest, ?_, by omega, hfin, hcarried⟩
  rw [hrest, hs.tally.count]
  omega

/-- The bin is emptied: each round takes half of it, and at least one slot. -/
theorem drainBinLoop_spec (call : Call) (t : ℕ) (hcls : cls < mediumFirstClass) (left : ℕ) :
    ∀ {s : Sys} {L : Stack → List ℕ} {blk : Blocks} (total : ℕ), SysInv s L blk held →
      (L (.bin t cls)).length ≤ left → (L (.bin t cls)).length < 2 ^ 16 →
      ∃ out, drainBinLoop call.uafActive arenaDefault cls left total (s.caches t) s.heap = .ok out ∧
        out.1 = total + (L (.bin t cls)).length ∧ ∃ blk',
          SysInv ({ s with heap := out.2.2 }.setCache t out.2.1)
            (update L (.bin t cls) []) blk' held ∧
          Carried held blk s.heap.mem blk' out.2.2.mem := by
  have hdone : ∀ {s : Sys} {L : Stack → List ℕ} {blk : Blocks} (total : ℕ), SysInv s L blk held →
      L (.bin t cls) = [] → (s.caches t).binHeads cls = 0 ∧
        total = total + (L (.bin t cls)).length ∧ ∃ blk',
          SysInv ({ s with heap := s.heap }.setCache t (s.caches t))
            (update L (.bin t cls) []) blk' held ∧
          Carried held blk s.heap.mem blk' s.heap.mem := by
    intro s L blk total hs hempty
    refine ⟨((hs.account.ledger.chain (.bin t cls)).nil_iff).2 hempty, by simp [hempty], blk, ?_,
      Carried.refl _ _ _⟩
    rw [← hempty, update_eq_self]
    simpa [Sys.setCache_self] using hs
  induction left with
  | zero =>
    intro s L blk total hs hleft hlen
    obtain ⟨hhead, hrest⟩ := hdone total hs (List.length_eq_zero_iff.1 (Nat.le_zero.1 hleft))
    exact ⟨(total, s.caches t, s.heap), by simp [drainBinLoop, hhead], hrest⟩
  | succ left ih =>
    intro s L blk total hs hleft hlen
    by_cases hempty : L (.bin t cls) = []
    · obtain ⟨hhead, hrest⟩ := hdone total hs hempty
      exact ⟨(total, s.caches t, s.heap), by simp [drainBinLoop, hhead], hrest⟩
    · have hhead : (s.caches t).binHeads cls ≠ 0 :=
        mt ((hs.account.ledger.chain (.bin t cls)).nil_iff).1 hempty
      have hpos : 0 < (L (.bin t cls)).length := List.length_pos_iff.2 hempty
      obtain ⟨out, hout, blk', rest, hrest, hcount, hs', hcarried⟩ :=
        threadCacheFlushHalf_spec hs call t hcls hlen
      obtain ⟨out', hout', htotal, blk'', hfin, hcarried'⟩ := ih (total + out.1) hs'
        (by rw [update_self]; omega) (by rw [update_self]; omega)
      rw [Sys.caches_setCache] at hout'
      refine ⟨out', ?_, ?_, blk'', ?_, hcarried.trans hcarried'⟩
      · simp only [drainBinLoop, if_neg hhead, hout]
        exact hout'
      · rw [htotal, update_self]
        omega
      · rw [update_idem] at hfin
        simpa [Sys.setCache] using hfin

/-- The bins of `L'` are no longer than those of `L`. -/
def NoLonger (L L' : Stack → List ℕ) : Prop :=
  ∀ t c, (L' (.bin t c)).length ≤ (L (.bin t c)).length

theorem NoLonger.trans {L' L'' : Stack → List ℕ} (h₁ : NoLonger L L') (h₂ : NoLonger L' L'') :
    NoLonger L L'' := fun t c => (h₂ t c).trans (h₁ t c)

/-- What a drain leaves. -/
def Drained (s : Sys) (L : Stack → List ℕ) (blk : Blocks) (held : Set ℕ) (s' : Sys) : Prop :=
  ∃ L' blk', SysInv s' L' blk' held ∧ Carried held blk s.heap.mem blk' s'.heap.mem ∧ NoLonger L L'

/-- The first `k` bins of the thread are empty, all other stacks are as before. -/
def binsEmptied (L : Stack → List ℕ) (t k : ℕ) : Stack → List ℕ
  | .bin t' c => if t' = t ∧ c < k then [] else L (.bin t' c)
  | .core cpu c => L (.core cpu c)
  | .medium t' i => L (.medium t' i)

theorem binsEmptied_zero : binsEmptied L t 0 = L := by
  funext k
  cases k <;> simp [binsEmptied]

theorem binsEmptied_succ (k : ℕ) :
    update (binsEmptied L t k) (.bin t k) [] = binsEmptied L t (k + 1) := by
  funext stack
  cases stack with
  | bin t' c =>
    by_cases heq : Stack.bin t' c = .bin t k
    · cases heq
      simp [binsEmptied]
    · rw [update_of_ne heq]
      have hne : ¬ (t' = t ∧ c = k) := by
        rintro ⟨rfl, rfl⟩
        exact heq rfl
      have hiff : t' = t ∧ c < k ↔ t' = t ∧ c < k + 1 := by omega
      simp only [binsEmptied, hiff]
  | core cpu c => simp [binsEmptied]
  | medium t' idx => simp [binsEmptied]

theorem binsEmptied_noLonger (k : ℕ) : NoLonger L (binsEmptied L t k) := by
  intro t' c
  simp only [binsEmptied]
  split_ifs
  · exact Nat.zero_le _
  · exact le_rfl

/-- The drain returns the number of slots that were in the bins, and empties them. -/
theorem drainBins_spec (hs : SysInv s L blk held) (call : Call) (t : ℕ)
    (hlen : ∀ c, (L (.bin t c)).length < 2 ^ 16) {k : ℕ} (hk : k ≤ mediumFirstClass) :
    ∃ out blk', (List.range k).foldlM (fun out cls => drainBinLoop call.uafActive arenaDefault cls
        (2 ^ 16) out.1 out.2.1 out.2.2) (0, s.caches t, s.heap) = .ok out ∧
      out.1 = ∑ c ∈ Finset.range k, (L (.bin t c)).length ∧
      SysInv ({ s with heap := out.2.2 }.setCache t out.2.1) (binsEmptied L t k) blk' held ∧
      Carried held blk s.heap.mem blk' out.2.2.mem := by
  induction k with
  | zero =>
    refine ⟨(0, s.caches t, s.heap), blk, rfl, rfl, ?_, Carried.refl _ _ _⟩
    rw [binsEmptied_zero]
    simpa [Sys.setCache_self] using hs
  | succ k ih =>
    obtain ⟨out, blk', hfold, htotal, hs', hcarried⟩ := ih (by omega)
    have hsame : binsEmptied L t k (.bin t k) = L (.bin t k) := by simp [binsEmptied]
    obtain ⟨out', hout', htotal', blk'', hs'', hcarried'⟩ := drainBinLoop_spec call t
      (show k < mediumFirstClass by omega) (2 ^ 16) out.1 hs' (by rw [hsame]; exact (hlen k).le)
      (by rw [hsame]; exact hlen k)
    rw [Sys.caches_setCache] at hout'
    have hlast : drainBinLoop call.uafActive arenaDefault k (2 ^ 16) out.1 out.2.1 out.2.2 =
        .ok out' := hout'
    rw [hsame] at htotal'
    refine ⟨out', blk'', ?_, ?_, ?_, hcarried.trans hcarried'⟩
    · rw [List.range_succ, List.foldlM_append, hfold]
      simp only [bind, Except.bind, List.foldlM_cons, List.foldlM_nil, hlast]
      rfl
    · rw [htotal', htotal, Finset.sum_range_succ]
    · rw [← binsEmptied_succ]
      simpa [Sys.setCache] using hs''

theorem dispatchDrainAll_spec (hs : SysInv s L blk held) (call : Call)
    (hlen : ∀ t c, (L (.bin t c)).length < 2 ^ 16) :
    Returns False (dispatchDrainAll call s) fun out => Drained s L blk held out.2 := by
  obtain ⟨out, blk', hfold, -, hs', hcarried⟩ := drainBins_spec hs call call.thread
    (hlen call.thread) (le_refl mediumFirstClass)
  have hdrained : Drained s L blk held ({ s with heap := out.2.2 }.setCache call.thread out.2.1) :=
    ⟨_, blk', hs', hcarried, binsEmptied_noLonger _⟩
  simp only [dispatchDrainAll, threadCacheDrainAll, hfold]
  exact returns_ok hdrained

/-! ### Stacks of a CPU -/

theorem nodup_length_le {n : ℕ} (hnodup : xs.Nodup) (hlt : ∀ x ∈ xs, x < n) : xs.length ≤ n := by
  have hsub : xs ⊆ List.range n := fun x hx => List.mem_range.2 (hlt x hx)
  simpa using (List.subperm_of_subset hnodup hsub).length_le

/-- A stack has fewer nodes than there are addresses. -/
theorem SysInv.stack_length (hs : SysInv s L blk held) (k : Stack) :
    (L k).length ≤ addressSpace := by
  apply nodup_length_le (hs.account.ledger.chain k).nodup
  intro x hx
  obtain ⟨g, hg, -⟩ := hs.account.grant_of_mem hx
  exact hs.account.block_lt hg

theorem drainStackLoop_spec (call : Call) (cpu : ℕ) (hcls : cls < mediumFirstClass) (left : ℕ) :
    ∀ {s : Sys} {L : Stack → List ℕ} {blk : Blocks} (total : ℕ), SysInv s L blk held →
      (L (.core cpu cls)).length < left →
      Returns False (drainStackLoop call cpu cls left total s) fun out =>
        Drained s L blk held out.2 := by
  induction left with
  | zero => exact fun _ _ hlt => absurd hlt (Nat.not_lt_zero _)
  | succ left ih =>
    intro s L blk total hs hlt
    obtain ⟨batch, s', hpop, xs, rest, hsplit, -, hh, hcarried, -⟩ :=
      hs.popBatch cpu dispatchL2Batch hcls
    simp only [drainStackLoop, hpop]
    by_cases hcount : batch.count = 0
    · rw [if_pos hcount]
      have hxs := hh.chain.count_zero_iff.1 hcount
      subst hxs
      exact returns_ok ⟨_, blk, hh.sysInv, hcarried, fun t c => by simp⟩
    · rw [if_neg hcount]
      have hxs := mt hh.chain.count_zero_iff.2 hcount
      obtain ⟨s'', blk', hwalk, -, hs'', hcarried'⟩ := hh.freeNodes call
      rw [hwalk]
      have hshort : (update L (.core cpu cls) rest (.core cpu cls)).length < left := by
        have hpos := List.length_pos_iff.2 hxs
        rw [hsplit, List.length_append] at hlt
        rw [update_self]
        omega
      apply (ih (total + batch.count) hs'' hshort).mono
      rintro out ⟨L', blk'', hfin, hcarried'', hle⟩
      refine ⟨L', blk'', hfin, (hcarried.trans hcarried').trans hcarried'', fun t c => ?_⟩
      simpa using hle t c

theorem dispatchDrainLocalL2_spec (hs : SysInv s L blk held) (call : Call) :
    Returns False (dispatchDrainLocalL2 call s) fun out => Drained s L blk held out.2 := by
  have hstart : Drained s L blk held s :=
    ⟨L, blk, hs, Carried.refl _ _ _, fun _ _ => le_rfl⟩
  unfold dispatchDrainLocalL2
  cases coreCacheForCpu call.stackCpu with
  | none => exact returns_ok hstart
  | some cpu =>
    apply Returns.foldlM
    · rintro ⟨total, s'⟩ ⟨L', blk', hs', hcarried, hle⟩ cls hcls
      apply (drainStackLoop_spec call cpu (List.mem_range.1 hcls) (2 ^ tagptrPtrBits + 1) total hs'
        (Nat.lt_succ_of_le (hs'.stack_length _))).mono
      rintro out ⟨L'', blk'', hs'', hcarried', hle'⟩
      exact ⟨L'', blk'', hs'', hcarried.trans hcarried', hle.trans hle'⟩
    · exact hstart

end V8Malloc
