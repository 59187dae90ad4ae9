import V8Malloc.Buddy.Coalescing
import V8Malloc.BuddyPool.Steps

/-!
# Freeing into the pool and draining an arena

The links of the free lists lie in the memory an emptied arena gives back. They
read as zero afterwards, which loses every free block that was not the head of
its list. Nothing is lost exactly when the emptied arena was one free block.
-/
namespace V8Malloc

open ByteMemory LinkedList BlockTree BitWord

variable {uafActive : Bool} {p p' : BuddyPool} {live live' : Set (ℕ × ℕ)}
variable {h h' : BuddyHeap} {i j k l a base size ptr : ℕ}

/-! ### Finding the block -/

theorem PoolInv.contains_iff (hp : PoolInv p live) (hi : i < buddyPoolMaxArenas) :
    (p.arenas i).contains ptr = true ↔ p.Used i ∧ inArenaAt (p.base i) ptr := by
  have hsize : p.Used i → (p.arenas i).buddy.arenaSize = buddyMaxBlock :=
    fun hu => (hp.arena i hu).inv.arena.size
  unfold PoolArena.contains
  rw [Bool.and_eq_true, Bool.and_eq_true, decide_eq_true_iff, decide_eq_true_iff]
  constructor
  · rintro ⟨⟨hused, hlo⟩, hhi⟩
    rw [hsize ⟨hi, hused⟩] at hhi
    exact ⟨⟨hi, hused⟩, hlo, hhi⟩
  · rintro ⟨hu, hlo, hhi⟩
    rw [hsize hu]
    exact ⟨⟨hu.2, hlo⟩, hhi⟩

theorem PoolInv.findOwningArena_eq (hp : PoolInv p live) (hu : p.Used i)
    (hin : inArenaAt (p.base i) ptr) : findOwningArena p ptr = some i := by
  have hi : i ∈ poolSlots := List.mem_range.2 hu.1
  unfold findOwningArena
  cases hfind : poolSlots.find? fun j => (p.arenas j).contains ptr with
  | none =>
    have hnone := List.find?_eq_none.1 hfind i hi
    exact absurd ((hp.contains_iff hu.1).2 ⟨hu, hin⟩) hnone
  | some j =>
    have hj : j < buddyPoolMaxArenas := List.mem_range.1 (List.mem_of_find?_eq_some hfind)
    have hhit := List.find?_some hfind
    obtain ⟨huj, hinj⟩ := (hp.contains_iff hj).1 hhit
    have heq := inArenaAt_unique (hp.aligned huj) (hp.aligned hu) hinj hin
    rw [hp.apart j i huj hu heq]

theorem sizeToLevel_levelToSize (l : ℕ) : sizeToLevel (levelToSize l) = l := by
  apply le_antisymm (sizeToLevel_le_of_le le_rfl)
  have hle := le_levelToSize_sizeToLevel (levelToSize l)
  have hpow := (Nat.pow_le_pow_iff_right (by norm_num : 1 < 2)).1 hle
  omega

/-- The scan of the levels stops at the level of the allocated block around the address. -/
theorem blockSizeFrom_eq (hinv : BuddyInv h none₂) (ha : h.buddy.allocAt l i)
    (hin : InBlock h.buddy l i ptr) (left : ℕ) : ∀ level, level ≤ l → l < level + left →
      blockSizeFrom h.buddy (ptr - h.buddy.arenaBase) left level = levelToSize l := by
  induction left with
  | zero =>
    intro level hle hlt
    omega
  | succ left ih =>
    intro level hle hlt
    unfold blockSizeFrom
    have hleaf := hinv.alloc_leaf l i ha
    by_cases hbit : h.buddy.allocAt level ((ptr - h.buddy.arenaBase) >>> (buddyMinShift + level))
    · -- the block found contains the address, so it is block `(l, i)`
      have hfound : InBlock h.buddy level
          ((ptr - h.buddy.arenaBase) >>> (buddyMinShift + level)) ptr :=
        ⟨hin.1, by rw [Nat.shiftRight_eq_div_pow]⟩
      obtain ⟨heq, -⟩ := leaf_eq_of_inBlock (hinv.alloc_leaf _ _ hbit) hleaf hfound hin
      rw [if_pos (testBit_allocBitmap.2 hbit), heq]
    · rw [if_neg (mt testBit_allocBitmap.1 hbit)]
      have hne : level ≠ l := by
        rintro rfl
        rw [Nat.shiftRight_eq_div_pow, hin.2] at hbit
        exact hbit ha
      exact ih (level + 1) (by omega) (by omega)

theorem ArenaInv.buddyBlockSize_inside (harena : ArenaInv base h live) (hq : (a, size) ∈ live)
    (hlo : a ≤ ptr) (hhi : ptr < a + blockSize size) :
    buddyBlockSize h.buddy ptr = blockSize size := by
  obtain ⟨k, hk, ha⟩ := harena.bits.block _ hq
  obtain ⟨hin, hend⟩ := harena.block_end hq
  have hpos := harena.inv.arena.pos
  have hl := (harena.inv.alloc_leaf _ _ ha).1.level_le
  simp only at hk ha hin hl hend
  have hblock : InBlock h.buddy (sizeToLevel size) k ptr := by
    rw [inBlock_iff, ← hk]
    exact ⟨hlo, hhi⟩
  unfold inArenaAt at hin
  rw [← harena.base_eq] at hin hend
  unfold buddyBlockSize
  rw [if_neg (by omega), if_neg (by rw [harena.inv.arena.size]; omega)]
  exact blockSizeFrom_eq harena.inv ha hblock buddyLevels 0 (Nat.zero_le _)
    (by unfold buddyLevels; unfold buddyTop at hl; omega)

theorem ArenaInv.buddyBlockSize_eq (harena : ArenaInv base h live) (hq : (ptr, size) ∈ live) :
    buddyBlockSize h.buddy ptr = blockSize size :=
  harena.buddyBlockSize_inside hq le_rfl (Nat.lt_add_of_pos_right (levelToSize_pos _))

/-! ### Tiled arenas -/

/-- The free lists reach every block that is neither split nor allocated. -/
def FreeListed (h : BuddyHeap) : Prop :=
  ∀ l i, h.buddy.leaf l i → ¬ h.buddy.allocAt l i → indexToNode h.buddy i l ∈ freeBlocks h l

/-- Every byte lies in exactly one block that is on a free list or allocated. -/
def ArenaTiled (h : BuddyHeap) : Prop :=
  ∀ a, InArena h.buddy a → ∃! q : ℕ × ℕ, (q.1 < buddyLevels ∧ (q.2 ∈ freeBlocks h q.1 ∨
    ∃ i, q.2 = indexToNode h.buddy i q.1 ∧ h.buddy.allocAt q.1 i)) ∧
      q.2 ≤ a ∧ a < q.2 + levelToSize q.1

theorem BuddyInv.freeBlocks_subset (hinv : BuddyInv h none₂) (l : ℕ) :
    freeBlocks h l ⊆ freeNodes h.buddy none₂ l := by
  rintro y ⟨L, hc, hy⟩
  have hlinks := hinv.links.linked l
  exact hlinks.chain_subset hlinks.head_mem hc y hy

theorem BuddyInv.freeListed_iff (hinv : BuddyInv h none₂) :
    FreeListed h ↔ ListsComplete h none₂ := by
  constructor
  · intro hall l
    obtain ⟨L, hL⟩ := exists_chain_of_head hinv l
    refine ⟨L, hL, ?_⟩
    rintro y ⟨i, hf, rfl⟩
    obtain ⟨L', hL', hy⟩ := hall l i hf.1 fun ha => hf.2 (Or.inl ha)
    rw [hL.unique hL']
    exact hy
  · intro hc l i hleaf ha
    obtain ⟨L, hL, hall⟩ := hc l
    exact ⟨L, hL, hall _ ⟨i, ⟨hleaf, fun hb => hb.elim ha id⟩, rfl⟩⟩

/-- The lists are complete exactly when the blocks tile the arena. -/
theorem ArenaInv.tiled_iff (harena : ArenaInv base h live) :
    ArenaTiled h ↔ ListsComplete h none₂ := by
  have hinv := harena.inv
  constructor
  · intro htile
    rw [← hinv.freeListed_iff]
    intro l i hleaf ha
    have hfirst : InBlock h.buddy l i (indexToNode h.buddy i l) := inBlock_node h.buddy l i
    obtain ⟨⟨k, y⟩, ⟨⟨-, hy⟩, hlo, hhi⟩, -⟩ := htile _ (inArena_of_inBlock hleaf hfirst)
    simp only at hy hlo hhi
    rcases hy with hfree | ⟨j, rfl, hlive⟩
    · obtain ⟨j, hf, rfl⟩ := hinv.freeBlocks_subset k hfree
      obtain ⟨rfl, rfl⟩ := leaf_eq_of_inBlock hf.1 hleaf (inBlock_iff.2 ⟨hlo, hhi⟩) hfirst
      exact hfree
    · obtain ⟨rfl, rfl⟩ := leaf_eq_of_inBlock (hinv.alloc_leaf k j hlive) hleaf
        (inBlock_iff.2 ⟨hlo, hhi⟩) hfirst
      exact absurd hlive ha
  · intro hc a ha
    have hrun : RunInv base h live := ⟨harena, hc⟩
    choose lists hlists using hrun.freeList
    have hblocks : ∀ l y, y ∈ lists l ↔ y ∈ freeBlocks h l := by
      intro l y
      rw [(hlists l).2.2 y, hrun.freeBlocks_eq]
    unfold InArena at ha
    rw [harena.base_eq] at ha
    have htile := hrun.tiling (fun l y => (hlists l).2.2 y) ha.1 ha.2
    simp only [Covered, hblocks] at htile
    exact htile

/-! ### Frames given back -/

/-- The arena reads as zero. -/
def Zeroed (h : BuddyHeap) (m' : Mem) : Prop := ∀ a, InArena h.buddy a → m' a = 0

theorem Zeroed.node {m' : Mem} (hz : Zeroed h m') (hleaf : h.buddy.leaf l i) :
    nodeNext m' (indexToNode h.buddy i l) = 0 ∧ nodePrev m' (indexToNode h.buddy i l) = 0 := by
  have hbyte : ∀ a, indexToNode h.buddy i l ≤ a → a < indexToNode h.buddy i l + nodeSize →
      m' a = 0 := by
    intro a hlo hhi
    have hsize := nodeSize_le_levelToSize l
    refine hz a (inArena_of_inBlock hleaf (inBlock_iff.2 ⟨hlo, ?_⟩))
    unfold nodeSize at hhi
    omega
  constructor
  · exact load_zero fun a hlo hhi => hbyte a hlo (by unfold nodeSize; omega)
  · exact load_zero fun a hlo hhi => hbyte a (by omega) (by unfold nodeSize; omega)

/-- Zeroed links are still consistent with each other. -/
theorem BuddyInv.zeroed (hinv : BuddyInv h none₂) {m' : Mem} (hz : Zeroed h m') :
    BuddyInv ⟨h.buddy, m'⟩ none₂ := by
  refine ⟨hinv.arena, hinv.wf, hinv.busy_leaf, hinv.transit_idle, ⟨fun k => ?_, ?_⟩⟩
  · have hold := hinv.links.linked k
    constructor
    · exact hold.nil_not_mem
    · exact hold.head_mem
    · intro hne
      obtain ⟨j, hf, hj⟩ := hold.head_mem hne
      rw [hj]
      exact (hz.node hf.1).2
    · rintro y ⟨j, hf, rfl⟩ hne
      exact absurd (hz.node hf.1).1 hne
    · rintro y ⟨j, hf, rfl⟩ hne
      exact absurd (hz.node hf.1).2 hne
  · exact hinv.links.disjoint

/-- After the frames are gone a list reaches its head and nothing else. -/
theorem BuddyInv.zeroed_complete_iff (hinv : BuddyInv h none₂) (hc : ListsComplete h none₂)
    {m' : Mem} (hz : Zeroed h m') : ListsComplete ⟨h.buddy, m'⟩ none₂ ↔
      ∀ l, (freeNodes h.buddy none₂ l).Subsingleton := by
  constructor
  · intro hc' l
    obtain ⟨L, hL, hall⟩ := hc' l
    have hhead := (hinv.links.linked l).head_mem
    have hone : ∀ y ∈ L, y = h.buddy.freeLists l := by
      change Chain 0 (nodeNext m') (h.buddy.freeLists l) L at hL
      generalize h.buddy.freeLists l = head at hL hhead ⊢
      cases hL with
      | nil => exact fun y hy => absurd hy List.not_mem_nil
      | @cons _ xs hne htail =>
        obtain ⟨j, hf, hj⟩ := hhead hne
        have hnil : xs = [] := htail.nil_iff.1 (by
          rw [hj]
          exact (hz.node hf.1).1)
        subst hnil
        exact fun y hy => List.mem_singleton.1 hy
    intro y hy z hz'
    rw [hone y (hall y hy), hone z (hall z hz')]
  · intro hsub l
    have hlinks := hinv.links.linked l
    by_cases h0 : h.buddy.freeLists l = 0
    · obtain ⟨L, hL, hall⟩ := hc l
      have hnil := hL.nil_iff.1 h0
      subst hnil
      refine ⟨[], ?_, hall⟩
      change Chain 0 (nodeNext m') (h.buddy.freeLists l) []
      rw [h0]
      exact .nil
    · have hmem := hlinks.head_mem h0
      obtain ⟨j, hf, hj⟩ := hmem
      refine ⟨[h.buddy.freeLists l], .cons h0 ?_, fun y hy => ?_⟩
      · change Chain 0 (nodeNext m') (nodeNext m' (h.buddy.freeLists l)) []
        rw [hj, (hz.node hf.1).1]
        exact .nil
      · exact List.mem_singleton.2 (hsub l hy (hlinks.head_mem h0))

/-- An unsplit tree has one leaf, the root. -/
theorem leaf_of_unsplit {b : Buddy} (hnone : ∀ l i, ¬ b.splitAt l i) (hleaf : b.leaf l i) :
    l = buddyTop ∧ i = 0 := by
  cases hleaf.1 with
  | root => exact ⟨rfl, rfl⟩
  | half _ hs => exact absurd hs (hnone _ _)

/-- In an arena without allocated blocks every list has at most one block exactly when
nothing is split: the halves of a lowest split block share a list. -/
theorem BuddyInv.subsingleton_iff (hinv : BuddyInv h none₂) (hempty : ∀ l i, ¬ h.buddy.allocAt l i) :
    (∀ l, (freeNodes h.buddy none₂ l).Subsingleton) ↔ ∀ l i, ¬ h.buddy.splitAt l i := by
  classical
  constructor
  · intro hsub l i hs
    have hex : ∃ l, ∃ i, h.buddy.splitAt l i := ⟨l, i, hs⟩
    obtain ⟨j, hj⟩ := Nat.find_spec hex
    have hmin : ∀ m, m < Nat.find hex → ∀ i, ¬ h.buddy.splitAt m i :=
      fun m hm i hsi => Nat.find_min hex hm ⟨i, hsi⟩
    obtain ⟨hnode, hpos⟩ := hinv.wf _ _ hj
    obtain ⟨m, hm⟩ := Nat.exists_eq_succ_of_ne_zero hpos.ne'
    rw [hm] at hj hnode hmin
    have hfree : ∀ c, c / 2 = j → h.buddy.free none₂ m c := by
      rintro c rfl
      exact ⟨⟨.half hnode hj, hmin m (Nat.lt_succ_self m) c⟩, fun hb => hb.elim (hempty m c) id⟩
    have heq := hsub m ⟨2 * j, hfree _ (by omega), rfl⟩ ⟨2 * j + 1, hfree _ (by omega), rfl⟩
    have := index_inj heq
    omega
  · rintro hnone l y ⟨i, hf, rfl⟩ z ⟨j, hf', rfl⟩
    rw [(leaf_of_unsplit hnone hf.1).2, (leaf_of_unsplit hnone hf'.1).2]

/-! ### Split bits after a free -/

/-- The merge loop clears split bits above the freed block only. -/
theorem coalesceLoop_splitAt {c q : ℕ} (left : ℕ) : ∀ {current level idx : ℕ} {h : BuddyHeap},
    h.buddy.splitAt c q → ¬(level < c ∧ q = idx / 2 ^ (c - level)) →
      (coalesceLoop left current level idx h).2.2.buddy.splitAt c q := by
  induction left with
  | zero =>
    intro current level idx h hs _
    exact hs
  | succ left ih =>
    intro current level idx h hs hout
    simp only [coalesceLoop]
    by_cases ha : testBit (h.buddy.allocBitmap level) (idx ^^^ 1) = true
    · rw [if_pos ha]
      exact hs
    rw [if_neg ha]
    by_cases hsp : testBit (h.buddy.splitBitmap level) (idx ^^^ 1) = true
    · rw [if_pos hsp]
      exact hs
    rw [if_neg hsp, Nat.shiftRight_eq_div_pow, pow_one]
    apply ih
    · refine splitAt_clearSplit.2 ⟨hs, ?_⟩
      rintro ⟨rfl, rfl⟩
      exact hout ⟨Nat.lt_succ_self _, by rw [Nat.add_sub_cancel_left, pow_one]⟩
    · rintro ⟨hlt, rfl⟩
      refine hout ⟨by omega, ?_⟩
      rw [Nat.div_div_eq_div_mul, ← pow_succ']
      congr 2
      omega

section FreedBlock

variable (hinv : BuddyInv h none₂) (ha : h.buddy.allocAt (sizeToLevel size) k)
include hinv ha

theorem buddyFree_splitAt {c q : ℕ} (hs : h.buddy.splitAt c q)
    (hout : ¬(sizeToLevel size < c ∧ q = k / 2 ^ (c - sizeToLevel size))) :
    (buddyFree uafActive h (indexToNode h.buddy k (sizeToLevel size)) size).buddy.splitAt c q := by
  obtain ⟨hne, hlt⟩ := live_block_ok hinv ha
  have hidx : addrToIndex (h.clearAlloc (sizeToLevel size) k).buddy
      (indexToNode h.buddy k (sizeToLevel size)) (sizeToLevel size) = k :=
    addrToIndex_indexToNode (h.clearAlloc (sizeToLevel size) k).buddy k _
  simp only [buddyFree, hne, hlt, if_false, coalesceUpward, addrToIndex_indexToNode, hidx]
  exact coalesceLoop_splitAt _ hs hout

theorem buddyFreeNoCoalesce_splitAt : (buddyFreeNoCoalesce uafActive h
    (indexToNode h.buddy k (sizeToLevel size)) size).buddy.splitAt = h.buddy.splitAt := by
  obtain ⟨hne, hlt⟩ := live_block_ok hinv ha
  simp only [buddyFreeNoCoalesce, hne, hlt, if_false]
  rfl

/-- Two free siblings lie apart from the path above an allocated block. -/
theorem siblings_off_path {c q : ℕ} (h₁ : h.buddy.free none₂ c (2 * q))
    (h₂ : h.buddy.free none₂ c (2 * q + 1)) :
    ¬(sizeToLevel size < c + 1 ∧ q = k / 2 ^ (c + 1 - sizeToLevel size)) := by
  rintro ⟨hlt, hq⟩
  have hleaf := hinv.alloc_leaf _ _ ha
  obtain ⟨d, rfl⟩ := Nat.exists_eq_add_of_le (Nat.le_of_lt_succ hlt)
  have hhalf : k / 2 ^ d / 2 = q := by
    rw [hq, Nat.div_div_eq_div_mul, ← pow_succ]
    congr 2
    omega
  have hfree : h.buddy.free none₂ (sizeToLevel size + d) (k / 2 ^ d) := by
    rcases Nat.mod_two_eq_zero_or_one (k / 2 ^ d) with hmod | hmod
    · rwa [show k / 2 ^ d = 2 * q by omega]
    · rwa [show k / 2 ^ d = 2 * q + 1 by omega]
  -- that half would contain the allocated block
  have hu : k * 2 ^ sizeToLevel size / 2 ^ (sizeToLevel size + d) = k / 2 ^ d := by
    rw [pow_add, ← Nat.div_div_eq_div_mul, Nat.mul_div_cancel _ (by positivity)]
  obtain ⟨hl, hi⟩ := leaf_unique hfree.1 hleaf hu (Nat.mul_div_cancel _ (by positivity))
  rw [hl, hi] at hfree
  exact hfree.2 (Or.inl ha)

end FreedBlock

/-! ### The emptying free -/

/-- The buddy after the pool gave a block back to it. -/
def freedHeap (opts : PoolOptions) (h : BuddyHeap) (ptr size : ℕ) : BuddyHeap :=
  if opts.deferredCoalesce then buddyFreeNoCoalesce opts.uafActive h ptr size
  else buddyFree opts.uafActive h ptr size

/-- Giving back the last block leaves nothing split exactly when the block is the whole
arena, or it is merged at once into an arena without free siblings. -/
theorem freedHeap_unsplit_iff (opts : PoolOptions) (harena : ArenaInv base h live)
    (hq : (indexToNode h.buddy k (sizeToLevel size), size) ∈ live)
    (ha : h.buddy.allocAt (sizeToLevel size) k)
    (hlast : live = {(indexToNode h.buddy k (sizeToLevel size), size)}) :
    (∀ l i, ¬ (freedHeap opts h (indexToNode h.buddy k (sizeToLevel size)) size).buddy.splitAt l i) ↔
      sizeToLevel size = buddyTop ∨
        opts.deferredCoalesce = false ∧ FullyMerged h.buddy none₂ := by
  have hinv := harena.inv
  have hleaf := hinv.alloc_leaf _ _ ha
  have hwhole : sizeToLevel size = buddyTop → ∀ l i, ¬ h.buddy.splitAt l i := by
    intro htop l i hs
    have hk : k = 0 := by
      have := hleaf.1
      rw [htop] at this
      exact node_top.1 this
    have hnode := (hinv.wf l i hs).1
    rcases hnode.level_le.eq_or_lt with rfl | hlt
    · rw [node_top.1 hnode] at hs
      rw [htop, hk] at hleaf
      exact hleaf.2 hs
    · have hup := (node_iff.1 hnode).2.2 (buddyTop - l) (by omega) (by omega)
      have hzero : i / 2 ^ (buddyTop - l) = 0 := Nat.div_eq_of_lt hnode.index_lt
      rw [hzero, Nat.add_sub_cancel' hlt.le] at hup
      rw [htop, hk] at hleaf
      exact hleaf.2 hup
  by_cases hdef : opts.deferredCoalesce = true
  · simp only [freedHeap, hdef, if_true, buddyFreeNoCoalesce_splitAt hinv ha]
    constructor
    · exact fun hnone => Or.inl (leaf_of_unsplit hnone hleaf).1
    · rintro (htop | ⟨hfalse, -⟩)
      · exact hwhole htop
      · exact absurd hfalse (by decide)
  · have hoff : opts.deferredCoalesce = false := Bool.eq_false_iff.2 hdef
    simp only [freedHeap, hoff, Bool.false_eq_true, if_false]
    obtain ⟨hrel, hmerged⟩ := buddyFree_released opts.uafActive hinv ha
    have hafter := harena.release hq hrel
    have hnolive : live \ {(indexToNode h.buddy k (sizeToLevel size), size)} = ∅ := by
      rw [hlast, Set.sdiff_self]
    rw [hnolive] at hafter
    constructor
    · intro hnone
      refine Or.inr ⟨trivial, ?_⟩
      rintro c q ⟨h₁, h₂⟩
      have hc : c < buddyTop := by
        rcases h₂.1.1.level_le.eq_or_lt with heq | hlt
        · have := h₂.1.1.index_lt
          rw [heq] at this
          simp only [Nat.sub_self, pow_zero] at this
          omega
        · exact hlt
      have hs := ((node_half hc).1 h₁.1.1).2
      rw [Nat.mul_div_cancel_left q (by norm_num : 0 < 2)] at hs
      exact hnone _ _ (buddyFree_splitAt hinv ha hs (siblings_off_path hinv ha h₁ h₂))
    · intro hcond
      have hm : FullyMerged h.buddy none₂ := by
        rcases hcond with htop | ⟨-, hm⟩
        · rintro c q ⟨h₁, h₂⟩
          cases h₂.1.1 with
          | half _ hs => exact hwhole htop _ _ hs
        · exact hm
      exact (hafter.unsplit_of_empty (hmerged hm)).2

/-! ### A free of the pool -/

theorem buddyIsEmpty_iff (hinv : BuddyInv h none₂) :
    buddyIsEmpty h.buddy = true ↔ ∀ l i, ¬ h.buddy.allocAt l i := by
  unfold buddyIsEmpty
  rw [List.all_eq_true]
  constructor
  · intro hall l i ha
    have hl := (hinv.alloc_leaf l i ha).1.level_le
    have hzero := hall l (List.mem_range.2 (Nat.lt_succ_of_le hl))
    rw [beq_iff_eq, eq_zero_iff] at hzero
    exact absurd (hzero i) (Bool.not_eq_false _ ▸ ha)
  · intro hnone l _
    rw [beq_iff_eq, eq_zero_iff]
    exact fun i => Bool.eq_false_iff.2 (hnone l i)

theorem freedHeap_congr (opts : PoolOptions) (h : BuddyHeap) (ptr : ℕ) {size' : ℕ}
    (hsize : sizeToLevel size' = sizeToLevel size) :
    freedHeap opts h ptr size' = freedHeap opts h ptr size := by
  simp only [freedHeap, buddyFree, buddyFreeNoCoalesce, hsize]

theorem freedHeap_released (opts : PoolOptions) (hinv : BuddyInv h none₂)
    (ha : h.buddy.allocAt (sizeToLevel size) k) :
    Released h (sizeToLevel size) k
      (freedHeap opts h (indexToNode h.buddy k (sizeToLevel size)) size) := by
  unfold freedHeap
  split_ifs with hdef
  · exact buddyFreeNoCoalesce_released opts.uafActive hinv ha
  · exact (buddyFree_released opts.uafActive hinv ha).1

/-- The free of a live block: the owning slot is found and its block released. -/
theorem PoolInv.buddyPoolFree_eq (opts : PoolOptions) (hp : PoolInv p live) (hu : p.Used i)
    (hq : (ptr, size) ∈ live) (hin : inArenaAt (p.base i) ptr) :
    buddyPoolFree opts p ptr =
      (true, if buddyIsEmpty (freedHeap opts (p.heap i) ptr size).buddy then
        (p.setHeap i (freedHeap opts (p.heap i) ptr size)).drain opts i
      else p.setHeap i (freedHeap opts (p.heap i) ptr size)) := by
  have harena := hp.arena i hu
  have hpos := harena.inv.arena.pos
  have hne : ptr ≠ 0 := by
    have hlo := hin.1
    unfold BuddyPool.base at hlo
    unfold BuddyPool.heap at hpos
    simp only at hpos
    omega
  have hsize : buddyBlockSize (p.arenas i).buddy ptr = blockSize size :=
    harena.buddyBlockSize_eq ⟨hq, hin⟩
  have hbig : blockSize size ≠ 0 := (levelToSize_pos _).ne'
  have hlevel : sizeToLevel (blockSize size) = sizeToLevel size := sizeToLevel_levelToSize _
  have hheap := freedHeap_congr opts (p.heap i) ptr hlevel
  simp only [buddyPoolFree, hne, if_false, hp.findOwningArena_eq hu hin, hsize, hbig]
  rw [← hheap]
  rfl

/-- The slot of a freed block, the heap it leaves and the live blocks that remain there. -/
structure FreedSlot (opts : PoolOptions) (p : BuddyPool) (live : Set (ℕ × ℕ)) (q : ℕ × ℕ)
    (i : ℕ) (h' : BuddyHeap) : Prop where
  used : p.Used i
  inside : inArenaAt (p.base i) q.1
  heap_eq : h' = freedHeap opts (p.heap i) q.1 q.2
  arena : ArenaInv (p.base i) h' (liveAt (p.base i) live \ {q})
  complete : ListsComplete (p.heap i) none₂ → ListsComplete h' none₂
  frame : ∀ a, ¬ inArenaAt (p.base i) a → h'.mem a = p.mem a
  plain : Plain p.mem h'.mem
  kept : ∀ q' ∈ live \ {q}, inArenaAt (p.base i) q'.1 → ∀ x, q'.1 ≤ x →
    x < q'.1 + blockSize q'.2 → h'.mem x = p.mem x

theorem PoolInv.freedSlot (opts : PoolOptions) (hp : PoolInv p live) {q : ℕ × ℕ}
    (hq : q ∈ live) : ∃ i h', FreedSlot opts p live q i h' := by
  obtain ⟨i, hu, hin⟩ := hp.owned q hq
  have harena := hp.arena i hu
  obtain ⟨k, hk, ha⟩ := harena.bits.block q ⟨hq, hin⟩
  have hrel := freedHeap_released opts harena.inv ha
  have hmem : (indexToNode (p.heap i).buddy k (sizeToLevel q.2), q.2) ∈ liveAt (p.base i) live := by
    rw [← hk]
    exact ⟨hq, hin⟩
  have hafter := harena.release hmem hrel
  rw [← hk] at hrel hafter
  refine ⟨i, freedHeap opts (p.heap i) q.1 q.2, hu, hin, rfl, hafter, hrel.complete, ?_,
    hrel.plain, ?_⟩
  · intro a hout
    refine hrel.frame a (kept_of_not_inArenaAt hout) fun hblock => hout ?_
    exact inArena_of_inBlock (harena.inv.alloc_leaf _ _ ha) hblock
  · rintro q' ⟨hq', hne⟩ hin' x hlo hhi
    refine hrel.frame x (harena.kept ⟨hq', hin'⟩ hlo hhi) fun hblock => ?_
    have happ := harena.live_apart ⟨hq', hin'⟩ ⟨hq, hin⟩ hne
    obtain ⟨hlo', hhi'⟩ := inBlock_iff.1 hblock
    rw [← hk] at hlo' hhi'
    unfold blockSize at happ hhi
    omega

theorem liveAt_sdiff (q : ℕ × ℕ) : liveAt base (live \ {q}) = liveAt base live \ {q} := by
  ext x
  constructor
  · rintro ⟨⟨hx, hne⟩, hin⟩
    exact ⟨⟨hx, hin⟩, hne⟩
  · rintro ⟨⟨hx, hin⟩, hne⟩
    exact ⟨⟨hx, hne⟩, hin⟩

theorem drain_frame (opts : PoolOptions) (ha : ¬ inArenaAt (p.base i) a) :
    (p.drain opts i).mem a = p.mem a := by
  unfold BuddyPool.drain adviseDontNeed
  simp only
  split_ifs
  · rfl
  · rfl
  · exact sameOutside_fill _ _ _ _ a (by unfold inArenaAt BuddyPool.base at ha; omega)

theorem drain_zeroed (opts : PoolOptions) (hdebug : opts.debug = false) (hpos : 0 < p.base i) :
    Zeroed (p.heap i) (p.drain opts i).mem := by
  intro a ha
  unfold BuddyPool.base at hpos
  have hbig : buddyMaxBlock ≠ 0 := by decide
  simp only [BuddyPool.drain, hdebug, adviseDontNeed, hpos.ne', hbig, or_self, if_false,
    Bool.false_eq_true]
  exact if_pos ha

theorem drain_heap (opts : PoolOptions) :
    (p.drain opts i).heap i = ⟨(p.heap i).buddy, (p.drain opts i).mem⟩ := by
  simp [BuddyPool.drain, BuddyPool.heap]

end V8Malloc
