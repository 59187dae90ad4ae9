import V8Malloc.Buddy.Representation

/-!
# Immediate coalescing

In runs that only allocate and free with immediate coalescing the tree stays
fully merged. The free blocks are then the maximal blocks that meet no live
block, so they depend on the live set alone.
-/
namespace V8Malloc

open ByteMemory BitWord LinkedList BlockTree

variable {uafActive : Bool} {arena : ℕ} {h h' : BuddyHeap} {live : Set (ℕ × ℕ)}
variable {l i k j a p size : ℕ}

/-- The blocks reached from the head of a free list. -/
def freeBlocks (h : BuddyHeap) (l : ℕ) : Set ℕ :=
  {p | ∃ L, Chain 0 (nodeNext h.mem) (h.buddy.freeLists l) L ∧ p ∈ L}

/-- Address and block size of the live blocks. -/
def liveBlocks (live : Set (ℕ × ℕ)) : Set (ℕ × ℕ) := {b | ∃ q ∈ live, b = (q.1, blockSize q.2)}

theorem RunInv.freeBlocks_eq (hr : RunInv arena h live) (l : ℕ) :
    freeBlocks h l = freeNodes h.buddy none₂ l := by
  have hlinks := hr.inv.links.linked l
  obtain ⟨L, hc, hall⟩ := hr.complete l
  ext p
  constructor
  · rintro ⟨L', hc', hp⟩
    exact hlinks.chain_subset hlinks.head_mem hc' p hp
  · exact fun hp => ⟨L, hc, hall p hp⟩

theorem RunInv.node_mem_freeBlocks (hr : RunInv arena h live) :
    arena + i * levelToSize l ∈ freeBlocks h l ↔ h.buddy.free none₂ l i := by
  rw [hr.freeBlocks_eq, ← hr.base_eq]
  constructor
  · rintro ⟨j, hf, heq⟩
    obtain rfl : i = j := index_inj heq
    exact hf
  · exact fun hf => ⟨i, hf, rfl⟩

/-- Liveness of a block, read off the live set. -/
theorem RunInv.allocAt_iff (hr : RunInv arena h live) :
    h.buddy.allocAt l i ↔ (arena + i * levelToSize l, levelToSize l) ∈ liveBlocks live := by
  rw [← hr.base_eq]
  constructor
  · intro ha
    obtain ⟨q, hq, hq₁, rfl⟩ := hr.bits.owner l i ha
    exact ⟨q, hq, by rw [hq₁]; rfl⟩
  · rintro ⟨q, hq, heq⟩
    obtain ⟨hptr, hsize⟩ := Prod.ext_iff.1 heq
    have hl : l = sizeToLevel q.2 := by
      have := Nat.pow_right_injective (le_refl 2) hsize
      omega
    obtain ⟨j, hj, ha⟩ := hr.bits.block q hq
    subst hl
    obtain rfl : i = j := index_inj (hptr.trans hj)
    exact ha

/-- Two blocks share a unit exactly when their address ranges meet. -/
theorem meets_iff (b : Buddy) (l i k j : ℕ) : Meets l i k j ↔
    ∃ a, InBlock b l i a ∧ InBlock b k j a := by
  constructor
  · rintro ⟨u, hu, hu'⟩
    refine ⟨b.arenaBase + u * 2 ^ buddyMinShift, ⟨Nat.le_add_right _ _, ?_⟩,
      ⟨Nat.le_add_right _ _, ?_⟩⟩
    · rw [Nat.add_sub_cancel_left, pow_add, ← Nat.div_div_eq_div_mul,
        Nat.mul_div_cancel _ (by positivity), hu]
    · rw [Nat.add_sub_cancel_left, pow_add, ← Nat.div_div_eq_div_mul,
        Nat.mul_div_cancel _ (by positivity), hu']
  · rintro ⟨a, h₁, h₂⟩
    refine ⟨(a - b.arenaBase) / 2 ^ buddyMinShift, ?_, ?_⟩
    · rw [Nat.div_div_eq_div_mul, ← pow_add]
      exact h₁.2
    · rw [Nat.div_div_eq_div_mul, ← pow_add]
      exact h₂.2

/-- A block is quiet when its range meets no live range. -/
theorem RunInv.quiet_iff (hr : RunInv arena h live) : Quiet h.buddy.allocAt l i ↔
    ∀ q ∈ live, Disjoint (Set.Ico (arena + i * levelToSize l) (arena + (i + 1) * levelToSize l))
      (Set.Ico q.1 (q.1 + blockSize q.2)) := by
  have hend : arena + (i + 1) * levelToSize l = arena + i * levelToSize l + levelToSize l := by
    ring
  rw [hend, ← hr.base_eq]
  constructor
  · intro hq q hmem
    obtain ⟨j, hj, ha⟩ := hr.bits.block q hmem
    refine Set.disjoint_left.2 fun x hx hx' => hq _ _ ha ((meets_iff h.buddy _ _ _ _).2 ⟨x, ?_, ?_⟩)
    · exact inBlock_iff.2 hx
    · rw [inBlock_iff, ← hj]
      exact hx'
  · intro hdis k j ha hmeet
    obtain ⟨q, hq, hq₁, rfl⟩ := hr.bits.owner k j ha
    obtain ⟨x, hx, hx'⟩ := (meets_iff h.buddy _ _ _ _).1 hmeet
    rw [inBlock_iff] at hx hx'
    rw [← hq₁] at hx'
    exact Set.disjoint_left.1 (hdis q hq) hx hx'

/-- In a merged tree some free block covers every quiet block. -/
theorem exists_free_above {b : Buddy} (wf : WellFormed buddyTop b.splitAt)
    (hlive : ∀ k j, b.allocAt k j → b.leaf k j) (hm : FullyMerged b none₂) (d : ℕ) :
    ∀ l i, l + d = buddyTop → i < 2 ^ (buddyTop - l) → Quiet (b.busy none₂) l i →
      ∃ k j, l ≤ k ∧ b.free none₂ k j := by
  have hbusy : ∀ k j, b.busy none₂ k j → Leaf buddyTop b.splitAt k j :=
    fun k j hb => hb.elim (hlive k j) False.elim
  induction d with
  | zero =>
    intro l i hl hi hq
    exact ⟨l, i, le_rfl, (free_iff wf hbusy hm).2 ⟨by omega, hi, hq, Or.inl (by omega)⟩⟩
  | succ d ih =>
    intro l i hl hi hq
    by_cases hup : Quiet (b.busy none₂) (l + 1) (i / 2)
    · have hpow : 2 ^ (buddyTop - l) = 2 * 2 ^ (buddyTop - (l + 1)) := by
        rw [← pow_succ']
        congr 1
        omega
      obtain ⟨k, j, hk, hf⟩ := ih (l + 1) (i / 2) (by omega) (by omega) hup
      exact ⟨k, j, by omega, hf⟩
    · exact ⟨l, i, le_rfl, (free_iff wf hbusy hm).2 ⟨by omega, hi, hq, Or.inr hup⟩⟩

theorem busy_none₂ (b : Buddy) : b.busy none₂ = b.allocAt := by
  funext l i
  simp [Buddy.busy, none₂]

theorem RunInv.head_eq_zero_iff (hr : RunInv arena h live) :
    h.buddy.freeLists l = 0 ↔ ∀ i, ¬ h.buddy.free none₂ l i := by
  have hlinks := hr.inv.links.linked l
  constructor
  · intro h0 i hf
    obtain ⟨L, hc, hall⟩ := hr.complete l
    have hnil := hc.nil_iff.1 h0
    subst hnil
    exact absurd (hall _ ⟨i, hf, rfl⟩) List.not_mem_nil
  · intro hall
    by_contra hne
    obtain ⟨i, hf, -⟩ := hlinks.head_mem hne
    exact hall i hf

/-- The lists are exhausted exactly when every block of the level meets a live block. -/
theorem RunInv.exhausted_iff (hr : RunInv arena h live) (hm : FullyMerged h.buddy none₂)
    (hpos : 1 ≤ size) (hmax : size ≤ buddyMaxBlock) :
    Exhausted h.buddy size ↔
      ∀ i < 2 ^ (buddyTop - sizeToLevel size), ¬ Quiet h.buddy.allocAt (sizeToLevel size) i := by
  have hlt := sizeToLevel_lt_iff.2 hmax
  have hle : sizeToLevel size ≤ buddyTop := Nat.le_of_lt_succ hlt
  have hbusy : ∀ k j, h.buddy.busy none₂ k j → h.buddy.leaf k j := hr.inv.busy_leaf
  have hlists : Exhausted h.buddy size ↔ ∀ k, sizeToLevel size ≤ k → k < buddyLevels →
      h.buddy.freeLists k = 0 := by
    unfold Exhausted
    constructor
    · rintro (h0 | hbig | hall)
      · omega
      · omega
      · exact hall
    · exact fun hall => Or.inr (Or.inr hall)
  rw [hlists]
  constructor
  · intro hall i hi hq
    rw [← busy_none₂] at hq
    obtain ⟨k, j, hk, hf⟩ := exists_free_above hr.inv.wf hr.inv.alloc_leaf hm
      (buddyTop - sizeToLevel size) (sizeToLevel size) i (by omega) hi hq
    exact (hr.head_eq_zero_iff.1 (hall k hk (Nat.lt_succ_of_le hf.1.1.level_le))) j hf
  · intro hall k hk hklt
    rw [hr.head_eq_zero_iff]
    intro j hf
    -- the leftmost block of the level inside a free block is quiet
    obtain ⟨d, rfl⟩ := Nat.exists_eq_add_of_le hk
    obtain ⟨hkt, hjlt, hq, -⟩ := (free_iff hr.inv.wf hbusy hm).1 hf
    have hbound : j * 2 ^ d < 2 ^ (buddyTop - sizeToLevel size) := by
      have hpow : 2 ^ (buddyTop - sizeToLevel size) =
          2 ^ (buddyTop - (sizeToLevel size + d)) * 2 ^ d := by
        rw [← pow_add]
        congr 1
        omega
      rw [hpow]
      exact Nat.mul_lt_mul_of_pos_right hjlt (by positivity)
    refine hall (j * 2 ^ d) hbound ?_
    rw [← busy_none₂]
    rintro c e hlive ⟨u, hu, hu'⟩
    refine hq c e hlive ⟨u, ?_, hu'⟩
    rw [pow_add, ← Nat.div_div_eq_div_mul, hu, Nat.mul_div_cancel _ (by positivity)]

/-- The free blocks of a merged tree, read off the live set. -/
theorem RunInv.mem_freeBlocks_iff (hr : RunInv arena h live) (hm : FullyMerged h.buddy none₂) :
    p ∈ freeBlocks h l ↔ ∃ i, p = arena + i * levelToSize l ∧ l ≤ buddyTop ∧
      i < 2 ^ (buddyTop - l) ∧ Quiet h.buddy.allocAt l i ∧
      (l = buddyTop ∨ ¬ Quiet h.buddy.allocAt (l + 1) (i / 2)) := by
  have hfree : ∀ i, h.buddy.free none₂ l i ↔ l ≤ buddyTop ∧ i < 2 ^ (buddyTop - l) ∧
      Quiet h.buddy.allocAt l i ∧ (l = buddyTop ∨ ¬ Quiet h.buddy.allocAt (l + 1) (i / 2)) := by
    intro i
    have hiff := free_iff (l := l) (i := i) hr.inv.wf hr.inv.busy_leaf hm
    rw [busy_none₂] at hiff
    rw [← hiff, ← busy_none₂]
    exact Iff.rfl
  rw [hr.freeBlocks_eq]
  constructor
  · rintro ⟨i, hf, hp⟩
    exact ⟨i, by rw [hp, indexToNode, hr.base_eq], (hfree i).1 hf⟩
  · rintro ⟨i, hp, hf⟩
    exact ⟨i, (hfree i).2 hf, by rw [hp, indexToNode, hr.base_eq]⟩

/-- No two halves of one block are free together. -/
theorem FullyMerged.sibling {b : Buddy} (hm : FullyMerged b none₂) (hi : b.free none₂ l i) :
    ¬ b.free none₂ l (i ^^^ 1) := by
  intro hj
  apply hm l (i / 2)
  rw [Nat.mul_comm]
  rcases xor_one_cases i with ⟨heven, hx⟩ | ⟨hodd, hx⟩
  · rw [hx] at hj
    rw [heven] at hi
    exact ⟨hi, hj⟩
  · rw [hx] at hj
    rw [hodd] at hi
    exact ⟨hj, hi⟩

/-- Without live blocks the arena is one free block. -/
theorem ArenaInv.unsplit_of_empty (hr : ArenaInv arena h ∅) (hm : FullyMerged h.buddy none₂) :
    (∀ l i, ¬ h.buddy.allocAt l i) ∧ ∀ l i, ¬ h.buddy.splitAt l i := by
  have halloc : ∀ l i, ¬ h.buddy.allocAt l i := by
    intro l i ha
    obtain ⟨q, hq, -⟩ := hr.bits.owner l i ha
    exact hq
  refine ⟨halloc, fun l i hs => ?_⟩
  have hquiet : Quiet (h.buddy.busy none₂) l i := by
    rw [busy_none₂]
    exact fun k j ha => absurd ha (halloc k j)
  exact (leaf_of_quiet hr.inv.wf hm l i (hr.inv.wf l i hs).1 hquiet).2 hs

/-- The allocator answers the null pointer exactly when its lists are exhausted. -/
theorem RunInv.null_iff (hr : RunInv arena h live) :
    (∃ h', buddyAlloc uafActive h size = .ok (0, h')) ↔ Exhausted h.buddy size := by
  rcases buddyAlloc_spec uafActive hr.inv size with ⟨hex, hout⟩ | ⟨-, -, hnot, i, h₁, -, hout⟩
  · exact iff_of_true ⟨h, hout⟩ hex
  · refine iff_of_false ?_ hnot
    rintro ⟨h', hnull⟩
    have hbase : 0 < h.buddy.arenaBase := hr.inv.arena.pos
    rcases hout with hout | ⟨-, hout⟩
    · rw [hout] at hnull
      have hzero := congrArg Prod.fst (Except.ok.inj hnull)
      simp only [indexToNode] at hzero
      omega
    · rw [hout] at hnull
      cases hnull

theorem RunInv.freeBlocks_of_empty (hr : RunInv arena h ∅) (hm : FullyMerged h.buddy none₂)
    (l : ℕ) : freeBlocks h l = if l = buddyTop then {arena} else ∅ := by
  have hquiet : ∀ k j, Quiet h.buddy.allocAt k j :=
    fun k j k' j' ha => absurd ha ((hr.unsplit_of_empty hm).1 k' j')
  ext p
  rw [hr.mem_freeBlocks_iff hm]
  split_ifs with hl
  · subst hl
    constructor
    · rintro ⟨i, hp, -, hi, -⟩
      obtain rfl : i = 0 := by simpa using hi
      simpa using hp
    · intro hp
      exact ⟨0, by simpa using hp, le_rfl, by simp, hquiet _ _, Or.inl rfl⟩
  · constructor
    · rintro ⟨i, -, -, -, -, htop | hup⟩
      · exact absurd htop hl
      · exact absurd (hquiet _ _) hup
    · exact False.elim

/-- Runs with the same live blocks agree on every block's alloc bit. -/
theorem RunInv.allocAt_congr {h₂ : BuddyHeap} {live₂ : Set (ℕ × ℕ)} (hr : RunInv arena h live)
    (hr₂ : RunInv arena h₂ live₂) (hlive : liveBlocks live₂ = liveBlocks live) :
    h₂.buddy.allocAt = h.buddy.allocAt := by
  funext l i
  rw [eq_iff_iff, hr₂.allocAt_iff, hr.allocAt_iff, hlive]

/-- With immediate coalescing no two siblings are free, a request fails only when
no block of its level is clear of live blocks, the free blocks depend on the live
blocks alone, and an arena without live blocks is whole again. -/
theorem immediate_coalescing_complete (run : BuddyRun uafActive false arena h live) :
    (∀ l i, arena + i * levelToSize l ∈ freeBlocks h l ↔
      h.buddy.leaf l i ∧ ¬ h.buddy.allocAt l i) ∧
    (∀ l i, ¬ (arena + i * levelToSize l ∈ freeBlocks h l ∧
      arena + (i ^^^ 1) * levelToSize l ∈ freeBlocks h l)) ∧
    (∀ size, 1 ≤ size → size ≤ buddyMaxBlock →
      ((∃ h', buddyAlloc uafActive h size = .ok (0, h')) ↔
        ∀ i < 2 ^ (buddyTop - sizeToLevel size), ∃ q ∈ live,
          ¬ Disjoint (Set.Ico (arena + i * blockSize size) (arena + (i + 1) * blockSize size))
            (Set.Ico q.1 (q.1 + blockSize q.2)))) ∧
    (∀ (uafActive₂ : Bool) (h₂ : BuddyHeap) (live₂ : Set (ℕ × ℕ)),
      BuddyRun uafActive₂ false arena h₂ live₂ → liveBlocks live₂ = liveBlocks live →
        ∀ l, freeBlocks h₂ l = freeBlocks h l) ∧
    (live = ∅ → (∀ l, h.buddy.allocBitmap l = 0#64 ∧ h.buddy.splitBitmap l = 0#64) ∧
      ∀ l, freeBlocks h l = if l = buddyTop then {arena} else ∅) := by
  obtain ⟨hr, hmerged⟩ := run.inv
  have hm := hmerged rfl
  have hfree : ∀ l i, arena + i * levelToSize l ∈ freeBlocks h l ↔
      h.buddy.leaf l i ∧ ¬ h.buddy.allocAt l i := by
    intro l i
    rw [hr.node_mem_freeBlocks, Buddy.free, busy_none₂]
    exact Iff.rfl
  refine ⟨hfree, ?_, ?_, ?_, ?_⟩
  · rintro l i ⟨hi, hj⟩
    exact hm.sibling (hr.node_mem_freeBlocks.1 hi) (hr.node_mem_freeBlocks.1 hj)
  · intro size hpos hmax
    have hnull : (∃ h', buddyAlloc uafActive h size = .ok (0, h')) ↔ Exhausted h.buddy size :=
      hr.null_iff
    rw [hnull, hr.exhausted_iff hm hpos hmax]
    apply forall₂_congr
    intro i hi
    rw [hr.quiet_iff]
    push Not
    exact Iff.rfl
  · intro uafActive₂ h₂ live₂ run₂ hlive l
    obtain ⟨hr₂, hmerged₂⟩ := run₂.inv
    ext p
    rw [hr₂.mem_freeBlocks_iff (hmerged₂ rfl), hr.mem_freeBlocks_iff hm,
      hr.allocAt_congr hr₂ hlive]
  · intro hempty
    subst hempty
    obtain ⟨halloc, hsplit⟩ := hr.unsplit_of_empty hm
    constructor
    · intro l
      exact ⟨(eq_zero_iff _).2 fun i => Bool.eq_false_iff.2 (halloc l i),
        (eq_zero_iff _).2 fun i => Bool.eq_false_iff.2 (hsplit l i)⟩
    · intro l
      exact hr.freeBlocks_of_empty hm l

/-- A page taken from a fresh arena and given back. -/
theorem immediate_coalescing_complete_onePage : ∃ h,
    buddyAlloc false (buddyInit false (fun _ => 0) 262144) 4096 = .ok (262144, h) ∧
      freeBlocks (buddyFree false h 262144 4096) buddyTop = {262144} := by
  refine ⟨_, rfl, ?_⟩
  have run₀ : BuddyRun false false 262144 (buddyInit false (fun _ => 0) 262144) ∅ :=
    .init (fun _ => 0) (by decide) (by decide) (by decide)
  have run₁ := run₀.alloc 4096 262144 rfl
  have run₂ := run₁.free 262144 4096 (by simp)
  exact ((immediate_coalescing_complete run₂).2.2.2.2 (by simp)).2 buddyTop

end V8Malloc
