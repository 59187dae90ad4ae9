import V8Malloc.Buddy.Steps
import Mathlib.Data.Nat.Bitwise

/-!
# Freeing and coalescing

A freed block is in transit while it is merged with its free twins on the way
up; the merged block is pushed at the end. The deferred variant pushes the block
where it is, and a later sweep merges the pairs it left behind.
-/
namespace V8Malloc

open ByteMemory BitWord LinkedList BlockTree

variable {h h' : BuddyHeap} {transit : ℕ → ℕ → Prop} {l i k j a p : ℕ}

theorem xor_one_cases (i : ℕ) :
    i = i / 2 * 2 ∧ i ^^^ 1 = i / 2 * 2 + 1 ∨ i = i / 2 * 2 + 1 ∧ i ^^^ 1 = i / 2 * 2 := by
  rcases Nat.even_or_odd i with he | ho
  · have := Nat.xor_one_of_even he
    have := Nat.even_iff.1 he
    omega
  · have := Nat.xor_one_of_odd ho
    have := Nat.odd_iff.1 ho
    omega

/-- Writing over a block in transit disturbs no list and no byte of the program. -/
theorem poison_step (uafActive : Bool) (hinv : BuddyInv h transit) (ht : transit l i) :
    Step h transit (h.poison uafActive (indexToNode h.buddy i l) (levelToSize l)) transit := by
  have hleaf := hinv.busy_leaf l i (Or.inr ht)
  have hout := sameOutside_debugUafPoison uafActive h.mem (indexToNode h.buddy i l) (levelToSize l)
  have hnode : ∀ k, ∀ y ∈ freeNodes h.buddy transit k,
      y + nodeSize ≤ indexToNode h.buddy i l ∨
        indexToNode h.buddy i l + levelToSize l ≤ y := by
    rintro k y ⟨j, hf, rfl⟩
    have hne : ¬(k = l ∧ j = i) := by
      rintro ⟨rfl, rfl⟩
      exact hf.2 (Or.inr ht)
    have hsize := nodeSize_le_levelToSize k
    rcases leaf_apart hf.1 hleaf hne with hlt | hgt
    · exact Or.inl (by unfold nodeSize; omega)
    · exact Or.inr hgt
  have hplain : Plain h.mem
      (debugUafPoison uafActive h.mem (indexToNode h.buddy i l) (levelToSize l)) := by
    have hpage := idleNodes_page hinv.arena (hinv.transit_node ht).1
    have hsize : buddyMinBlock ∣ levelToSize l := pow_dvd_pow 2 (Nat.le_add_right _ l)
    unfold debugUafPoison
    split_ifs
    · exact Plain.refl _
    · exact Plain.refl _
    · exact plain_fill (Or.inr rfl) hpage hsize (Or.inl rfl)
  simp only [BuddyHeap.poison]
  generalize debugUafPoison uafActive h.mem (indexToNode h.buddy i l) (levelToSize l) = m' at *
  obtain ⟨hinv', hcomplete⟩ := hinv.rewrite _ fun k y hy a h₁ h₂ =>
    hout a (by have := hnode k y hy; omega)
  refine ⟨hinv', hcomplete, fun a ha => ?_, rfl, rfl, hplain⟩
  · refine hout a ?_
    by_contra hin
    have hblock : InBlock h.buddy l i a := inBlock_iff.2 (by omega)
    rcases ha with hout' | ⟨k, j, hk, hj⟩
    · exact hout' (inArena_of_inBlock hleaf hblock)
    · obtain ⟨rfl, rfl⟩ := leaf_eq_of_inBlock hleaf (hinv.alloc_leaf k j hk) hblock hj
      exact hinv.transit_idle _ _ ht hk

/-! ### Merging upward -/

/-- The twin of a block in transit is free unless it is allocated or split. -/
theorem twin_free (hinv : BuddyInv h (only l i)) (hl : l < buddyTop)
    (ha : ¬ h.buddy.allocAt l (i ^^^ 1)) (hs : ¬ h.buddy.splitAt l (i ^^^ 1)) :
    h.buddy.free (only l i) l (i ^^^ 1) := by
  have hleaf := hinv.busy_leaf l i (Or.inr ⟨rfl, rfl⟩)
  have htwin := xor_one_cases i
  have hhalf : (i ^^^ 1) / 2 = i / 2 := by omega
  obtain ⟨hp, hsp⟩ := (node_half hl).1 hleaf.1
  refine ⟨⟨.half (hhalf ▸ hp) (hhalf ▸ hsp), hs⟩, ?_⟩
  rintro (hal | ⟨-, heq⟩)
  · exact ha hal
  · omega

/-- One merge: the twin leaves its list and the parent is in transit. -/
theorem mergeOnce_step (hinv : BuddyInv h (only l i)) (hl : l < buddyTop)
    (hfree : h.buddy.free (only l i) l (i ^^^ 1)) :
    let h' := (h.remove l (indexToNode h.buddy (i ^^^ 1) l)).clearSplit (l + 1) (i / 2)
    Step h (only l i) h' (only (l + 1) (i / 2)) ∧
      (FullyMerged h.buddy (only l i) → FullyMerged h'.buddy (only (l + 1) (i / 2))) := by
  have htwin := xor_one_cases i
  have hinc : including (only l i) l (i ^^^ 1) = halves l (i / 2) := by
    funext k j
    simp only [including, only, halves, eq_iff_iff]
    omega
  have hrem := remove_step hinv hfree
  rw [hinc] at hrem
  have hr := clearSplit_rebits hrem.inv hl
  refine ⟨hrem.trans (hr.step rfl), fun hm => hr.merged ?_⟩
  rw [← hinc]
  exact remove_merged hm

theorem coalesceLoop_step (left : ℕ) : ∀ {current level idx : ℕ} {h : BuddyHeap},
    BuddyInv h (only level idx) → level + left = buddyTop →
      current = indexToNode h.buddy idx level →
      ∃ level' idx' h', coalesceLoop left current level idx h =
          (indexToNode h.buddy idx' level', level', h') ∧
        Step h (only level idx) h' (only level' idx') ∧ level' ≤ buddyTop ∧
        (FullyMerged h.buddy (only level idx) → FullyMerged h'.buddy (only level' idx')) ∧
        (level' < buddyTop → ¬ h'.buddy.free (only level' idx') level' (idx' ^^^ 1)) ∧
        (∀ k j, h'.buddy.splitAt k j → h.buddy.splitAt k j) ∧
        (h.buddy.free (only level idx) level (idx ^^^ 1) → level < buddyTop →
          ¬ h'.buddy.splitAt (level + 1) (idx / 2)) := by
  induction left with
  | zero =>
    intro current level idx h hinv hleft hcur
    refine ⟨level, idx, h, by rw [hcur]; rfl, Step.refl hinv, by omega, id, ?_, fun _ _ hs => hs, ?_⟩
    · intro hlt
      omega
    · intro _ hlt
      omega
  | succ left ih =>
    intro current level idx h hinv hleft hcur
    simp only [coalesceLoop]
    by_cases ha : h.buddy.allocAt level (idx ^^^ 1)
    · have hstop : ¬ h.buddy.free (only level idx) level (idx ^^^ 1) := fun hf => hf.2 (Or.inl ha)
      rw [if_pos (testBit_allocBitmap.2 ha)]
      exact ⟨level, idx, h, by rw [hcur], Step.refl hinv, by omega, id, fun _ => hstop,
        fun _ _ hs => hs, fun hf => absurd hf hstop⟩
    by_cases hs : h.buddy.splitAt level (idx ^^^ 1)
    · have hstop : ¬ h.buddy.free (only level idx) level (idx ^^^ 1) := fun hf => hf.1.2 hs
      rw [if_neg (mt testBit_allocBitmap.1 ha), if_pos (testBit_splitBitmap.2 hs)]
      exact ⟨level, idx, h, by rw [hcur], Step.refl hinv, by omega, id, fun _ => hstop,
        fun _ _ hs => hs, fun hf => absurd hf hstop⟩
    · have hl : level < buddyTop := by omega
      have hfree := twin_free hinv hl ha hs
      obtain ⟨hstep, hmerged⟩ := mergeOnce_step hinv hl hfree
      have htwin := xor_one_cases idx
      rw [if_neg (mt testBit_allocBitmap.1 ha), if_neg (mt testBit_splitBitmap.1 hs)]
      have hcur' : (if idx ^^^ 1 < idx then indexToNode h.buddy (idx ^^^ 1) level else current) =
          indexToNode h.buddy (idx / 2) (level + 1) := by
        rw [← indexToNode_half]
        split_ifs with hlt
        · congr 1
          omega
        · rw [hcur]
          congr 1
          omega
      obtain ⟨level', idx', h', hout, hrest, hle, hmerged', hstop, hsub, -⟩ :=
        ih hstep.inv (by omega) hcur'
      rw [Nat.shiftRight_eq_div_pow, pow_one]
      refine ⟨level', idx', h', hout, hstep.trans hrest, hle, fun hm => hmerged' (hmerged hm), hstop,
        fun k j hs' => (splitAt_clearSplit.1 (hsub k j hs')).1, fun _ _ hs' => ?_⟩
      exact (splitAt_clearSplit.1 (hsub _ _ hs')).2 ⟨rfl, rfl⟩

theorem without_only : without (only l i) l i = none₂ := by
  funext k j
  simp only [without, only, none₂, eq_iff_iff, iff_false]
  tauto

/-- A block whose twin is not free may join the free lists of a fully merged tree. -/
theorem push_merged (hinv : BuddyInv h (only l i)) (hm : FullyMerged h.buddy (only l i))
    (htwin : l < buddyTop → ¬ h.buddy.free (only l i) l (i ^^^ 1)) (node : ℕ) :
    FullyMerged (h.push l node).buddy none₂ := by
  have hfree : ∀ k j, h.buddy.free none₂ k j ↔ h.buddy.free (only l i) k j ∨ (k = l ∧ j = i) := by
    intro k j
    rw [← without_only (l := l) (i := i)]
    exact free_without hinv ⟨rfl, rfl⟩
  have hcases := xor_one_cases i
  -- at the top there is only one block, so there is no twin either
  have htwin' : ∀ c, c ≠ i → c / 2 = i / 2 → ¬ h.buddy.free (only l i) l c := by
    intro c hc hci hf
    rcases (hf.1.1.level_le).eq_or_lt with rfl | hlt
    · have h₁ := hf.1.1.index_lt
      have h₂ := (hinv.busy_leaf buddyTop i (Or.inr ⟨rfl, rfl⟩)).1.index_lt
      simp only [Nat.sub_self, pow_zero] at h₁ h₂
      omega
    · have : c = i ^^^ 1 := by omega
      exact htwin hlt (this ▸ hf)
  rintro c q ⟨h₁, h₂⟩
  rcases (hfree _ _).1 h₁ with hf₁ | ⟨rfl, heq⟩
  · rcases (hfree _ _).1 h₂ with hf₂ | ⟨rfl, heq⟩
    · exact hm c q ⟨hf₁, hf₂⟩
    · exact htwin' (2 * q) (by omega) (by omega) hf₁
  · rcases (hfree _ _).1 h₂ with hf₂ | ⟨-, heq'⟩
    · exact htwin' (2 * q + 1) (by omega) (by omega) hf₂
    · omega

/-- The merged block ends on its list. -/
theorem coalesceUpward_step (uafActive : Bool) (hinv : BuddyInv h (only l i)) :
    let h' := (coalesceUpward uafActive h (indexToNode h.buddy i l) l).2
    Step h (only l i) h' none₂ ∧
      (FullyMerged h.buddy (only l i) → FullyMerged h'.buddy none₂) ∧
      (∀ k j, h'.buddy.splitAt k j → h.buddy.splitAt k j) ∧
      (h.buddy.free (only l i) l (i ^^^ 1) → l < buddyTop →
        ¬ h'.buddy.splitAt (l + 1) (i / 2)) := by
  have hl := (hinv.busy_leaf l i (Or.inr ⟨rfl, rfl⟩)).1.level_le
  obtain ⟨level, idx, h₁, hout, hstep, hle, hmerged, hstop, hsub, hdrop⟩ :=
    coalesceLoop_step (buddyTop - l) hinv (by omega) rfl
  have hnode : indexToNode h.buddy idx level = indexToNode h₁.buddy idx level := by
    simp only [indexToNode, hstep.base_eq]
  simp only [coalesceUpward, addrToIndex_indexToNode]
  rw [show buddyLevels - 1 - l = buddyTop - l from rfl, hout]
  simp only [hnode]
  have hpoison := poison_step uafActive hstep.inv (l := level) (i := idx) ⟨rfl, rfl⟩
  have hpush := push_step hpoison.inv (l := level) (i := idx) ⟨rfl, rfl⟩
  rw [without_only] at hpush
  refine ⟨hstep.trans (hpoison.trans hpush), fun hm => ?_, hsub, hdrop⟩
  exact push_merged hpoison.inv (hmerged hm) hstop _

/-! ### Freeing -/

/-- The heap `h'` is `h` with block `(l, i)` given back. -/
structure Released (h : BuddyHeap) (l i : ℕ) (h' : BuddyHeap) : Prop where
  inv : BuddyInv h' none₂
  complete : ListsComplete h none₂ → ListsComplete h' none₂
  frame : ∀ a, Kept h.buddy a → ¬ InBlock h.buddy l i a → h'.mem a = h.mem a
  alloc_iff : ∀ k j, h'.buddy.allocAt k j ↔ h.buddy.allocAt k j ∧ ¬(k = l ∧ j = i)
  base_eq : h'.buddy.arenaBase = h.buddy.arenaBase
  plain : Plain h.mem h'.mem

theorem released_of_step (hinv : BuddyInv h none₂) (ha : h.buddy.allocAt l i)
    (hstep : Step (h.clearAlloc l i) (only l i) h' none₂) : Released h l i h' where
  inv := hstep.inv
  complete := fun hc => hstep.complete ((clearAlloc_rebits hinv ha).complete hc)
  frame := by
    intro a hkept hout
    refine hstep.frame a (hkept.imp id ?_)
    rintro ⟨k, j, hk, hj⟩
    refine ⟨k, j, allocAt_clearAlloc.2 ⟨hk, ?_⟩, hj⟩
    rintro ⟨rfl, rfl⟩
    exact hout hj
  alloc_iff := by
    intro k j
    rw [← allocAt_clearAlloc]
    simp only [Buddy.allocAt, hstep.alloc_eq]
  base_eq := hstep.base_eq
  plain := hstep.plain

section Free

variable (uafActive : Bool) {size : ℕ}
variable (hinv : BuddyInv h none₂) (ha : h.buddy.allocAt (sizeToLevel size) i)
include hinv ha

theorem live_block_ok : indexToNode h.buddy i (sizeToLevel size) ≠ 0 ∧
    ¬ sizeToLevel size ≥ buddyLevels := by
  have hpos := hinv.arena.pos
  have hle := (hinv.alloc_leaf _ _ ha).1.level_le
  constructor
  · unfold indexToNode
    omega
  · unfold buddyLevels
    unfold buddyTop at hle
    omega

theorem buddyFree_released :
    let h' := buddyFree uafActive h (indexToNode h.buddy i (sizeToLevel size)) size
    Released h (sizeToLevel size) i h' ∧
      (FullyMerged h.buddy none₂ → FullyMerged h'.buddy none₂) := by
  obtain ⟨hne, hlt⟩ := live_block_ok hinv ha
  have hr := clearAlloc_rebits hinv ha
  obtain ⟨hstep, hmerged, -, -⟩ := coalesceUpward_step uafActive hr.inv
  simp only [buddyFree, hne, hlt, if_false, addrToIndex_indexToNode]
  exact ⟨released_of_step hinv ha hstep, fun hm => hmerged (hr.merged hm)⟩

theorem buddyFreeNoCoalesce_released :
    Released h (sizeToLevel size) i
      (buddyFreeNoCoalesce uafActive h (indexToNode h.buddy i (sizeToLevel size)) size) := by
  obtain ⟨hne, hlt⟩ := live_block_ok hinv ha
  have hr := clearAlloc_rebits hinv ha
  have hpoison := poison_step uafActive hr.inv (l := sizeToLevel size) (i := i) ⟨rfl, rfl⟩
  have hpush := push_step hpoison.inv (l := sizeToLevel size) (i := i) ⟨rfl, rfl⟩
  rw [without_only] at hpush
  simp only [buddyFreeNoCoalesce, hne, hlt, if_false, addrToIndex_indexToNode]
  exact released_of_step hinv ha (hpoison.trans hpush)

end Free

/-! ### The coalescing sweep -/

/-- The blocks that can be split. -/
def splittable : Finset (ℕ × ℕ) :=
  (Finset.range 7 ×ˢ Finset.range 64).filter fun q => 0 < q.1 ∧ q.2 < 2 ^ (6 - q.1)

instance (b : Buddy) (l i : ℕ) : Decidable (b.splitAt l i) :=
  inferInstanceAs (Decidable (_ = true))

/-- How many blocks are split; every merge lowers it. -/
def splitCount (b : Buddy) : ℕ := (splittable.filter fun q => b.splitAt q.1 q.2).card

theorem splitCount_le (b : Buddy) : splitCount b ≤ 63 :=
  (Finset.card_filter_le _ _).trans (by decide)

theorem mem_splittable (hinv : BuddyInv h transit) (hs : h.buddy.splitAt l i) :
    (l, i) ∈ splittable := by
  obtain ⟨hn, hpos⟩ := hinv.wf l i hs
  have hle := hn.level_le
  have hlt := hn.index_lt
  have hpow : 2 ^ (buddyTop - l) ≤ 2 ^ 6 := Nat.pow_le_pow_right (by norm_num) (Nat.sub_le _ _)
  simp only [splittable, Finset.mem_filter, Finset.mem_product, Finset.mem_range]
  refine ⟨⟨Nat.lt_succ_of_le hle, ?_⟩, hpos, hlt⟩
  omega

theorem splitCount_lt (hinv : BuddyInv h transit)
    (hsub : ∀ k j, h'.buddy.splitAt k j → h.buddy.splitAt k j) (hs : h.buddy.splitAt l i)
    (hs' : ¬ h'.buddy.splitAt l i) : splitCount h'.buddy < splitCount h.buddy := by
  refine Finset.card_lt_card (Finset.ssubset_iff_of_subset ?_ |>.2 ⟨(l, i), ?_, ?_⟩)
  · intro q hq
    rw [Finset.mem_filter] at hq ⊢
    exact ⟨hq.1, hsub _ _ hq.2⟩
  · exact Finset.mem_filter.2 ⟨mem_splittable hinv hs, hs⟩
  · exact fun hq => hs' (Finset.mem_filter.1 hq).2

/-- A walk along a free list meets at most 64 nodes. -/
theorem chain_length_le (hinv : BuddyInv h transit) {x : ℕ} {xs : List ℕ}
    (hx : x ≠ 0 → x ∈ freeNodes h.buddy transit l) (hc : Chain 0 (nodeNext h.mem) x xs) :
    xs.length ≤ 64 := by
  have hsub : xs ⊆ (List.range 64).map fun i => indexToNode h.buddy i l := by
    intro y hy
    obtain ⟨i, hf, rfl⟩ := (hinv.links.linked l).chain_subset hx hc y hy
    exact List.mem_map.2 ⟨i, List.mem_range.2 (leaf_index_lt hf.1), rfl⟩
  simpa using (List.subperm_of_subset hc.nodup hsub).length_le

theorem exists_chain_of_head (hinv : BuddyInv h transit) (l : ℕ) :
    ∃ L, Chain 0 (nodeNext h.mem) (h.buddy.freeLists l) L := by
  refine (hinv.links.linked l).exists_chain
    ((Finset.range 64).image fun i => indexToNode h.buddy i l) ?_
  rintro y ⟨i, hf, rfl⟩
  exact Finset.mem_image.2 ⟨i, Finset.mem_range.2 (leaf_index_lt hf.1), rfl⟩

/-- One merge of the sweep, from a free node whose twin is free. -/
theorem sweepMerge_step (uafActive : Bool) (hinv : BuddyInv h none₂) (hl : l < buddyTop)
    (hfree : h.buddy.free none₂ l i) (ha : ¬ h.buddy.allocAt l (i ^^^ 1))
    (hs : ¬ h.buddy.splitAt l (i ^^^ 1)) :
    let node := indexToNode h.buddy i l
    let h' := (coalesceUpward uafActive (h.remove l node) node l).2
    Step h none₂ h' none₂ ∧ splitCount h'.buddy < splitCount h.buddy := by
  have hinc : including none₂ l i = only l i := by
    funext k j
    simp [including, none₂, only]
  have hrem := remove_step hinv hfree
  rw [hinc] at hrem
  obtain ⟨hstep, -, hsub, hdrop⟩ := coalesceUpward_step uafActive hrem.inv
  obtain ⟨-, hspl⟩ := (node_half hl).1 hfree.1.1
  exact ⟨hrem.trans hstep, splitCount_lt hinv hsub hspl (hdrop (twin_free hrem.inv hl ha hs) hl)⟩

theorem coalesceWalk_step (uafActive : Bool) (hl : l < buddyTop) (fuel : ℕ) :
    ∀ (merges : ℕ) {node : ℕ} {h : BuddyHeap} {L : List ℕ}, BuddyInv h none₂ →
      (node ≠ 0 → node ∈ freeNodes h.buddy none₂ l) → Chain 0 (nodeNext h.mem) node L →
      L.length + 65 * splitCount h.buddy < fuel →
      ∃ merges' h', coalesceWalk uafActive l fuel node merges h = .ok (merges', h') ∧
        Step h none₂ h' none₂ := by
  induction fuel with
  | zero =>
    intro merges node h L hinv hnode hc hfuel
    exact absurd hfuel (Nat.not_lt_zero _)
  | succ fuel ih =>
    intro merges node h L hinv hnode hc hfuel
    simp only [coalesceWalk]
    cases hc with
    | nil =>
      rw [if_pos rfl]
      exact ⟨merges, h, rfl, Step.refl hinv⟩
    | @cons _ L hne htail =>
      rw [if_neg hne]
      obtain ⟨i, hf, hi⟩ := hnode hne
      simp only [hi, addrToIndex_indexToNode]
      simp only [List.length_cons] at hfuel
      by_cases hpair : ¬ h.buddy.allocAt l (i ^^^ 1) ∧ ¬ h.buddy.splitAt l (i ^^^ 1)
      · have hcond : (!testBit (h.buddy.allocBitmap l) (i ^^^ 1) &&
            !testBit (h.buddy.splitBitmap l) (i ^^^ 1)) = true := by
          rw [Bool.and_eq_true, Bool.not_eq_true', Bool.not_eq_true', Bool.eq_false_iff,
            Bool.eq_false_iff]
          exact ⟨mt testBit_allocBitmap.1 hpair.1, mt testBit_splitBitmap.1 hpair.2⟩
        rw [if_pos hcond]
        obtain ⟨hstep, hcount⟩ := sweepMerge_step uafActive hinv hl hf hpair.1 hpair.2
        obtain ⟨L', hL'⟩ := exists_chain_of_head hstep.inv l
        have hhead := (hstep.inv.links.linked l).head_mem
        have hlen := chain_length_le hstep.inv hhead hL'
        obtain ⟨merges', h', hout, hrest⟩ := ih (merges + 1) hstep.inv hhead hL' (by omega)
        exact ⟨merges', h', hout, hstep.trans hrest⟩
      · have hcond : ¬ (!testBit (h.buddy.allocBitmap l) (i ^^^ 1) &&
            !testBit (h.buddy.splitBitmap l) (i ^^^ 1)) = true := by
          rw [Bool.and_eq_true, Bool.not_eq_true', Bool.not_eq_true', Bool.eq_false_iff,
            Bool.eq_false_iff]
          exact fun hb => hpair ⟨mt testBit_allocBitmap.2 hb.1, mt testBit_splitBitmap.2 hb.2⟩
        rw [if_neg hcond, ← hi]
        exact ih merges hinv (fun hn => ((hinv.links.linked l).next_mem node (hnode hne) hn).1) htail
          (by omega)

theorem coalesceLevels_step (uafActive : Bool) (left : ℕ) : ∀ (level merges : ℕ) {h : BuddyHeap},
    BuddyInv h none₂ → level + left = buddyTop →
      ∃ merges' h', coalesceLevels uafActive left level merges h = .ok (merges', h') ∧
        Step h none₂ h' none₂ := by
  induction left with
  | zero =>
    intro level merges h hinv hlevel
    exact ⟨merges, h, rfl, Step.refl hinv⟩
  | succ left ih =>
    intro level merges h hinv hlevel
    obtain ⟨L, hL⟩ := exists_chain_of_head hinv level
    have hhead := (hinv.links.linked level).head_mem
    have hlen := chain_length_le hinv hhead hL
    have hcount := splitCount_le h.buddy
    obtain ⟨m₁, h₁, hwalk, hstep⟩ := coalesceWalk_step (l := level) uafActive (by omega)
      coalesceFuel merges hinv hhead hL (by unfold coalesceFuel; omega)
    obtain ⟨m₂, h₂, hrest, hstep'⟩ := ih (level + 1) m₁ hstep.inv (by omega)
    refine ⟨m₂, h₂, ?_, hstep.trans hstep'⟩
    simp only [coalesceLevels, hwalk]
    exact hrest

/-- The sweep ends and keeps every block of the program. -/
theorem buddyCoalesceAll_step (uafActive : Bool) (hinv : BuddyInv h none₂) :
    ∃ merges h', buddyCoalesceAll uafActive h = .ok (merges, h') ∧ Step h none₂ h' none₂ :=
  coalesceLevels_step uafActive (buddyLevels - 1) 0 0 hinv rfl

end V8Malloc
