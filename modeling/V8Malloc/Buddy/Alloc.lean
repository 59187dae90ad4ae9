import V8Malloc.Buddy.Steps

/-!
# Buddy allocation

The request is rounded up to a level, the first nonempty list at or above it
gives a block, and the block is split down to the level. The right halves go
to the free lists, the left half stays in transit and is allocated at the end.
-/
namespace V8Malloc

open ByteMemory BitWord LinkedList BlockTree

variable {h h' : BuddyHeap} {transit : ℕ → ℕ → Prop} {l i k j a p size : ℕ}

/-! ### Levels of requests -/

theorem le_levelToSize_sizeToLevel (size : ℕ) : size ≤ levelToSize (sizeToLevel size) := by
  simp only [sizeToLevel]
  split_ifs with hsmall hshift
  · exact hsmall.trans (nodeSize_le_levelToSize 0)
  · unfold buddyMinBlock at hsmall
    have := Nat.lt_log2_self (n := size - 1)
    have hpow : 2 ^ ((size - 1).log2 + 1) ≤ 2 ^ 12 :=
      Nat.pow_le_pow_right (by norm_num) (by unfold buddyMinShift at hshift; omega)
    have := nodeSize_le_levelToSize 0
    omega
  · have := Nat.lt_log2_self (n := size - 1)
    have heq : buddyMinShift + ((size - 1).log2 + 1 - buddyMinShift) = (size - 1).log2 + 1 := by
      omega
    simp only [levelToSize]
    rw [heq]
    omega

/-- The level is the least one whose blocks hold the request. -/
theorem sizeToLevel_le_of_le (hk : size ≤ levelToSize k) : sizeToLevel size ≤ k := by
  simp only [sizeToLevel]
  split_ifs with hsmall hshift
  · exact Nat.zero_le k
  · exact Nat.zero_le k
  · unfold buddyMinBlock at hsmall
    have hlow := Nat.log2_self_le (n := size - 1) (by omega)
    have hlt : 2 ^ (size - 1).log2 < 2 ^ (buddyMinShift + k) := by
      unfold levelToSize at hk
      omega
    have := (Nat.pow_lt_pow_iff_right (by norm_num : 1 < 2)).1 hlt
    omega

theorem sizeToLevel_lt_iff : sizeToLevel size < buddyLevels ↔ size ≤ buddyMaxBlock := by
  constructor
  · intro hlt
    have hsize := le_levelToSize_sizeToLevel size
    have hpow : levelToSize (sizeToLevel size) ≤ levelToSize 6 :=
      Nat.pow_le_pow_right (by norm_num) (by unfold buddyLevels at hlt; omega)
    exact hsize.trans hpow
  · intro hle
    exact Nat.lt_succ_of_le (sizeToLevel_le_of_le (k := 6) hle)

/-! ### The two loops -/

theorem findLevel_spec (b : Buddy) (left : ℕ) : ∀ level,
    level ≤ findLevel b left level ∧ findLevel b left level ≤ level + left ∧
      (∀ k, level ≤ k → k < findLevel b left level → b.freeLists k = 0) ∧
      (findLevel b left level < level + left → b.freeLists (findLevel b left level) ≠ 0) := by
  induction left with
  | zero =>
    intro level
    simp only [findLevel]
    refine ⟨le_rfl, le_rfl, fun k h₁ h₂ => by omega, fun hlt => by omega⟩
  | succ left ih =>
    intro level
    simp only [findLevel]
    split_ifs with hz
    · obtain ⟨h₁, h₂, h₃, h₄⟩ := ih (level + 1)
      refine ⟨by omega, by omega, fun k hk hlt => ?_, fun hlt => h₄ (by omega)⟩
      rcases hk.eq_or_lt with rfl | hgt
      · exact hz
      · exact h₃ k hgt hlt
    · exact ⟨le_rfl, by omega, fun k h₁ h₂ => by omega, fun _ => hz⟩

/-- Splitting one level: the right half is pushed, the left half stays in transit. -/
theorem splitOnce_step (hinv : BuddyInv h (only (l + 1) p)) :
    let h' := (h.setSplit (l + 1) p).push l (indexToNode h.buddy (p * 2 + 1) l)
    Step h (only (l + 1) p) h' (only l (p * 2)) ∧
      (FullyMerged h.buddy (only (l + 1) p) → FullyMerged h'.buddy (only l (p * 2))) := by
  have hr := setSplit_rebits hinv
  have ht : halves l p l (p * 2 + 1) := ⟨rfl, by omega⟩
  have hrest : without (halves l p) l (p * 2 + 1) = only l (p * 2) := by
    funext k j
    simp only [without, halves, only, eq_iff_iff]
    omega
  have hstep := push_step hr.inv ht
  rw [hrest] at hstep
  refine ⟨(hr.step rfl).trans hstep, fun hm => ?_⟩
  -- the pushed half has its twin in transit
  rintro c q ⟨h₁, h₂⟩
  have hm' := hr.merged hm
  have hfree : ∀ j, (h.setSplit (l + 1) p).buddy.free (only l (p * 2)) c j ↔
      (h.setSplit (l + 1) p).buddy.free (halves l p) c j ∨ (c = l ∧ j = p * 2 + 1) := by
    intro j
    rw [← hrest]
    exact free_without hr.inv ht
  have hleft : ¬ (h.setSplit (l + 1) p).buddy.free (only l (p * 2)) l (2 * p) :=
    fun hf => hf.2 (Or.inr ⟨rfl, Nat.mul_comm 2 p⟩)
  rcases (hfree _).1 h₁ with hf₁ | ⟨rfl, heq⟩
  · rcases (hfree _).1 h₂ with hf₂ | ⟨rfl, heq⟩
    · exact hm' c q ⟨hf₁, hf₂⟩
    · obtain rfl : q = p := by omega
      exact hleft h₁
  · omega

theorem splitDown_step (steps : ℕ) : ∀ {level idx node : ℕ} {h : BuddyHeap},
    BuddyInv h (only level idx) → steps ≤ level → node = indexToNode h.buddy idx level →
      Step h (only level idx) (splitDown steps level node h)
        (only (level - steps) (idx * 2 ^ steps)) ∧
      (FullyMerged h.buddy (only level idx) →
        FullyMerged (splitDown steps level node h).buddy
          (only (level - steps) (idx * 2 ^ steps))) ∧
      node = indexToNode h.buddy (idx * 2 ^ steps) (level - steps) := by
  induction steps with
  | zero =>
    intro level idx node h hinv _ hnode
    simp only [splitDown, Nat.sub_zero, pow_zero, Nat.mul_one]
    exact ⟨Step.refl hinv, id, hnode⟩
  | succ steps ih =>
    intro level idx node h hinv hle hnode
    obtain ⟨l, rfl⟩ : ∃ l, level = l + 1 := ⟨level - 1, by omega⟩
    have hidx : addrToIndex h.buddy node (l + 1) = idx := by
      rw [hnode]
      exact addrToIndex_indexToNode _ _ _
    obtain ⟨hstep, hmerged⟩ := splitOnce_step hinv
    have hnode' : node = indexToNode h.buddy (idx * 2) l := by
      rw [indexToNode_half]
      exact hnode
    obtain ⟨hrest, hmerged', hlast⟩ := ih hstep.inv (by omega) hnode'
    have hl : l + 1 - (steps + 1) = l - steps := by omega
    have hpow : idx * 2 ^ (steps + 1) = idx * 2 * 2 ^ steps := by
      rw [pow_succ]
      ring
    simp only [splitDown, hidx, Nat.add_sub_cancel, hl, hpow]
    exact ⟨hstep.trans hrest, fun hm => hmerged' (hmerged hm), hlast⟩

/-! ### The allocation -/

/-- The heap `h'` is `h` with block `(l, i)` granted to the program. -/
structure Granted (h : BuddyHeap) (l i : ℕ) (h' : BuddyHeap) : Prop where
  inv : BuddyInv h' none₂
  complete : ListsComplete h none₂ → ListsComplete h' none₂
  merged : FullyMerged h.buddy none₂ → FullyMerged h'.buddy none₂
  frame : ∀ a, Kept h.buddy a → h'.mem a = h.mem a
  fresh : ¬ h.buddy.allocAt l i
  alloc_iff : ∀ k j, h'.buddy.allocAt k j ↔ h.buddy.allocAt k j ∨ (k = l ∧ j = i)
  base_eq : h'.buddy.arenaBase = h.buddy.arenaBase
  plain : Plain h.mem h'.mem

/-- No list at or above the level of the request has a block. -/
def Exhausted (b : Buddy) (size : ℕ) : Prop :=
  size = 0 ∨ buddyLevels ≤ sizeToLevel size ∨
    ∀ k, sizeToLevel size ≤ k → k < buddyLevels → b.freeLists k = 0

theorem granted_of_pop (hinv : BuddyInv h none₂) {level target : ℕ} (hle : target ≤ level)
    (hne : h.buddy.freeLists level ≠ 0) :
    ∃ i, (h.pop level).1 = indexToNode h.buddy i target ∧
      Granted h target i
        ((splitDown (level - target) level (h.pop level).1 (h.pop level).2).setAlloc target
          (addrToIndex (splitDown (level - target) level (h.pop level).1 (h.pop level).2).buddy
            (h.pop level).1 target)) := by
  obtain ⟨idx, hfree, hnode, hpop, hmerged₁⟩ := pop_step hinv hne
  generalize h.pop level = out at hnode hpop hmerged₁ ⊢
  obtain ⟨node, h₁⟩ := out
  simp only at hnode hpop hmerged₁ ⊢
  have hbase : indexToNode h₁.buddy = indexToNode h.buddy := by
    funext i l
    simp only [indexToNode, hpop.base_eq]
  obtain ⟨hsplit, hmerged₂, hlast⟩ := splitDown_step (level - target) hpop.inv (by omega)
    (hbase ▸ hnode)
  rw [show level - (level - target) = target by omega] at hsplit hmerged₂ hlast
  generalize splitDown (level - target) level node h₁ = h₂ at hsplit hmerged₂ ⊢
  generalize idx * 2 ^ (level - target) = i at hsplit hmerged₂ hlast
  have hstep := hpop.trans hsplit
  have hindex : addrToIndex h₂.buddy node target = i := by
    rw [hlast, show indexToNode h₁.buddy i target = indexToNode h₂.buddy i target by
      simp only [indexToNode, hsplit.base_eq]]
    exact addrToIndex_indexToNode _ _ _
  have hidle := hsplit.inv.transit_idle target i ⟨rfl, rfl⟩
  have hleaf := hsplit.inv.busy_leaf target i (Or.inr ⟨rfl, rfl⟩)
  have hr := setAlloc_rebits hsplit.inv
  refine ⟨i, by rw [← hbase]; exact hlast, ?_⟩
  rw [hindex]
  have hbits : ∀ k j, h₂.buddy.allocAt k j ↔ h.buddy.allocAt k j := fun k j => by
    simp only [Buddy.allocAt, hstep.alloc_eq]
  refine ⟨hr.inv, fun hc => hr.complete (hstep.complete hc),
    fun hm => hr.merged (hmerged₂ (hmerged₁ hm)), hstep.frame, ?_, fun k j => ?_, hstep.base_eq,
    hstep.plain⟩
  · rwa [← hbits]
  · rw [allocAt_setAlloc (leaf_index_lt hleaf), hbits]

/-- One allocation: `NULL` when the lists are exhausted, else a fresh block of the level. -/
theorem buddyAlloc_spec (uafActive : Bool) (hinv : BuddyInv h none₂) (size : ℕ) :
    (Exhausted h.buddy size ∧ buddyAlloc uafActive h size = .ok (0, h)) ∨
    (0 < size ∧ sizeToLevel size < buddyLevels ∧ ¬ Exhausted h.buddy size ∧
      ∃ i h', Granted h (sizeToLevel size) i h' ∧
        (buddyAlloc uafActive h size = .ok (indexToNode h.buddy i (sizeToLevel size), h') ∨
          uafActive = true ∧ buddyAlloc uafActive h size = .error .abort)) := by
  by_cases hz : size = 0
  · exact Or.inl ⟨Or.inl hz, by simp [buddyAlloc, hz]⟩
  by_cases hbig : buddyLevels ≤ sizeToLevel size
  · exact Or.inl ⟨Or.inr (Or.inl hbig), by simp [buddyAlloc, hz, hbig]⟩
  obtain ⟨hlow, hhigh, hempty, hfound⟩ :=
    findLevel_spec h.buddy (buddyLevels - sizeToLevel size) (sizeToLevel size)
  simp only [buddyAlloc, hz, if_false, ge_iff_le, hbig]
  rw [Nat.add_sub_cancel' (by omega)] at hhigh hfound
  generalize findLevel h.buddy (buddyLevels - sizeToLevel size) (sizeToLevel size) = level at *
  by_cases hnone : buddyLevels ≤ level
  · refine Or.inl ⟨Or.inr (Or.inr fun k hk hlt => hempty k hk (by omega)), ?_⟩
    rw [if_pos hnone]
  · refine Or.inr ⟨by omega, by omega, ?_, ?_⟩
    · rintro (h0 | hb | hall)
      · exact hz h0
      · exact hbig hb
      · exact hfound (by omega) (hall level hlow (by omega))
    · obtain ⟨i, hnode, hgrant⟩ := granted_of_pop hinv hlow (hfound (by omega))
      refine ⟨i, _, hgrant, ?_⟩
      rw [if_neg hnone, ← hnode]
      generalize (splitDown (level - sizeToLevel size) level (h.pop level).1 (h.pop level).2).setAlloc
        (sizeToLevel size) _ = h₃
      have hsize : levelToSize (sizeToLevel size) > nodeSize := by
        have := nodeSize_le_levelToSize (sizeToLevel size)
        unfold nodeSize
        omega
      rw [if_pos hsize]
      rcases debugUafVerify_cases uafActive h₃.mem ((h.pop level).1 + nodeSize)
          (levelToSize (sizeToLevel size) - nodeSize) with hok | ⟨hon, hbad⟩
      · left
        rw [hok]
        rfl
      · right
        rw [hbad]
        exact ⟨hon, rfl⟩

end V8Malloc
