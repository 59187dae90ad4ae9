import V8Malloc.Lib.BlockTree

/-!
# Merging upward in a tree of blocks

A free block whose twin is free is merged with it; the parent is free then and may
meet a free twin of its own. A climb of `n` merges takes `n + 1` free blocks and
leaves one, and uses up one pair of free twins only. A tree without pairs is fully
merged, and its split blocks are those around a smaller live block.
-/
namespace BlockTree

variable {top : ℕ} {split split' live : ℕ → ℕ → Prop} {l i n k j p d : ℕ}

/-- The other half of the parent. -/
def twin (i : ℕ) : ℕ := i / 2 * 2 + (1 - i % 2)

theorem twin_div (i : ℕ) : twin i / 2 = i / 2 := by
  unfold twin
  omega

theorem twin_ne (i : ℕ) : twin i ≠ i := by
  unfold twin
  omega

theorem eq_twin (hhalf : j / 2 = i / 2) (hne : j ≠ i) : j = twin i := by
  unfold twin
  omega

/-- `split'` is `split` after `n` merges that began with the free block `(l, i)`. -/
structure Climbed (top : ℕ) (live split : ℕ → ℕ → Prop) (l i n : ℕ) (split' : ℕ → ℕ → Prop) :
    Prop where
  pos : 0 < n
  start : Free top split live l i
  twins : ∀ d < n, Free top split live (l + d) (twin (i / 2 ^ d))
  merged : ∀ d < n, split (l + d + 1) (i / 2 ^ (d + 1))
  split_iff : ∀ k j, split' k j ↔
    split k j ∧ ¬ ∃ d < n, k = l + d + 1 ∧ j = i / 2 ^ (d + 1)
  free_iff : ∀ k j, Free top split' live k j ↔
    Free top split live k j ∧ ¬ (k = l ∧ j = i) ∧
      ¬ (∃ d < n, k = l + d ∧ j = twin (i / 2 ^ d)) ∨ k = l + n ∧ j = i / 2 ^ n
  stop : ¬ Free top split' live (l + n) (twin (i / 2 ^ n))

/-- No two halves of one block below level `m` are both free. -/
def MergedBelow (top : ℕ) (split live : ℕ → ℕ → Prop) (m : ℕ) : Prop :=
  ∀ l < m, ∀ p, ¬ (Free top split live l (2 * p) ∧ Free top split live l (2 * p + 1))

/-! ### Counting blocks -/

/-- The blocks that can belong to a tree. -/
def blocks (top : ℕ) : Finset (ℕ × ℕ) := Finset.range (top + 1) ×ˢ Finset.range (2 ^ top)

theorem Node.mem_blocks (h : Node top split l i) : (l, i) ∈ blocks top := by
  have hle : 2 ^ (top - l) ≤ 2 ^ top := Nat.pow_le_pow_right (by norm_num) (Nat.sub_le _ _)
  rw [blocks, Finset.mem_product, Finset.mem_range, Finset.mem_range]
  exact ⟨Nat.lt_succ_of_le h.level_le, h.index_lt.trans_le hle⟩

open Classical in
noncomputable def freeSet (top : ℕ) (split live : ℕ → ℕ → Prop) : Finset (ℕ × ℕ) :=
  (blocks top).filter fun q => Free top split live q.1 q.2

open Classical in
noncomputable def splitSet (top : ℕ) (split : ℕ → ℕ → Prop) : Finset (ℕ × ℕ) :=
  (blocks top).filter fun q => split q.1 q.2

open Classical in
/-- The parents, by level of the halves, of two free halves. -/
noncomputable def pairSet (top : ℕ) (split live : ℕ → ℕ → Prop) : Finset (ℕ × ℕ) :=
  (blocks top).filter fun q =>
    Free top split live q.1 (2 * q.2) ∧ Free top split live q.1 (2 * q.2 + 1)

@[simp]
theorem mem_freeSet : (l, i) ∈ freeSet top split live ↔ Free top split live l i := by
  simp only [freeSet, Finset.mem_filter]
  exact ⟨fun h => h.2, fun h => ⟨h.1.1.mem_blocks, h⟩⟩

theorem mem_splitSet (wf : WellFormed top split) : (l, i) ∈ splitSet top split ↔ split l i := by
  simp only [splitSet, Finset.mem_filter]
  exact ⟨fun h => h.2, fun h => ⟨(wf l i h).1.mem_blocks, h⟩⟩

@[simp]
theorem mem_pairSet : (l, p) ∈ pairSet top split live ↔
    Free top split live l (2 * p) ∧ Free top split live l (2 * p + 1) := by
  simp only [pairSet, Finset.mem_filter]
  refine ⟨fun h => h.2, fun h => ⟨?_, h⟩⟩
  have hmem := h.1.1.1.mem_blocks
  rw [blocks, Finset.mem_product, Finset.mem_range, Finset.mem_range] at hmem ⊢
  exact ⟨hmem.1, by omega⟩

theorem pairSet_eq_empty_iff : pairSet top split live = ∅ ↔ Merged top split live := by
  rw [Finset.eq_empty_iff_forall_notMem]
  constructor
  · intro h l p hpair
    exact h (l, p) (mem_pairSet.2 hpair)
  · rintro h ⟨l, p⟩ hmem
    exact h l p (mem_pairSet.1 hmem)

/-- The free blocks that the climb uses up. -/
theorem card_used (l i n : ℕ) : (insert (l, i) ((Finset.range n).image fun d =>
    (l + d, twin (i / 2 ^ d)))).card = n + 1 := by
  rw [Finset.card_insert_of_notMem, Finset.card_image_of_injOn, Finset.card_range]
  · intro d _ e _ heq
    have hlevel := (Prod.ext_iff.1 heq).1
    simp only at hlevel
    omega
  · rw [Finset.mem_image]
    rintro ⟨d, -, heq⟩
    obtain ⟨hlevel, htwin⟩ := Prod.ext_iff.1 heq
    simp only at hlevel htwin
    obtain rfl : d = 0 := by omega
    exact twin_ne i (by simpa using htwin)

namespace Climbed

variable (h : Climbed top live split l i n split')
include h

theorem parent_not_free : ¬ Free top split live (l + n) (i / 2 ^ n) := by
  obtain ⟨m, rfl⟩ := Nat.exists_eq_succ_of_ne_zero h.pos.ne'
  intro hfree
  exact hfree.1.2 (h.merged m (Nat.lt_succ_self m))

/-- Every merge leaves one free block less. -/
theorem card_free : (freeSet top split' live).card + n = (freeSet top split live).card := by
  classical
  set used := insert (l, i) ((Finset.range n).image fun d => (l + d, twin (i / 2 ^ d)))
    with hused
  have hsub : used ⊆ freeSet top split live := by
    intro q hq
    rw [hused, Finset.mem_insert, Finset.mem_image] at hq
    rcases hq with rfl | ⟨d, hd, rfl⟩
    · exact mem_freeSet.2 h.start
    · exact mem_freeSet.2 (h.twins d (Finset.mem_range.1 hd))
  have hnew : (l + n, i / 2 ^ n) ∉ freeSet top split live \ used := by
    intro hmem
    exact h.parent_not_free (mem_freeSet.1 (Finset.mem_sdiff.1 hmem).1)
  have hset : freeSet top split' live =
      insert (l + n, i / 2 ^ n) (freeSet top split live \ used) := by
    ext ⟨k, j⟩
    rw [mem_freeSet, h.free_iff, Finset.mem_insert, Finset.mem_sdiff, mem_freeSet, hused,
      Finset.mem_insert, Finset.mem_image]
    simp only [Finset.mem_range, Prod.mk.injEq, not_or]
    constructor
    · rintro (⟨hfree, hstart, htwin⟩ | hself)
      · refine Or.inr ⟨hfree, hstart, ?_⟩
        rintro ⟨d, hd, hk, hj⟩
        exact htwin ⟨d, hd, hk.symm, hj.symm⟩
      · exact Or.inl hself
    · rintro (hself | ⟨hfree, hstart, htwin⟩)
      · exact Or.inr hself
      · refine Or.inl ⟨hfree, hstart, ?_⟩
        rintro ⟨d, hd, hk, hj⟩
        exact htwin ⟨d, hd, hk.symm, hj.symm⟩
  have hcard := Finset.card_sdiff_of_subset hsub
  have hle := Finset.card_le_card hsub
  rw [card_used] at hcard hle
  rw [hset, Finset.card_insert_of_notMem hnew, hcard]
  omega

/-- Every merge clears one split mark. -/
theorem card_split (wf : WellFormed top split) (wf' : WellFormed top split') :
    (splitSet top split').card + n = (splitSet top split).card := by
  classical
  set gone := (Finset.range n).image fun d => (l + d + 1, i / 2 ^ (d + 1)) with hgone
  have hsub : gone ⊆ splitSet top split := by
    intro q hq
    obtain ⟨d, hd, rfl⟩ := Finset.mem_image.1 hq
    exact (mem_splitSet wf).2 (h.merged d (Finset.mem_range.1 hd))
  have hcard : gone.card = n := by
    rw [hgone, Finset.card_image_of_injOn, Finset.card_range]
    intro d _ e _ heq
    have hlevel := (Prod.ext_iff.1 heq).1
    simp only at hlevel
    omega
  have hset : splitSet top split' = splitSet top split \ gone := by
    ext ⟨k, j⟩
    rw [mem_splitSet wf', h.split_iff, Finset.mem_sdiff, mem_splitSet wf, hgone, Finset.mem_image]
    simp only [Finset.mem_range, Prod.mk.injEq]
    apply and_congr_right'
    apply not_congr
    apply exists_congr
    intro d
    rw [eq_comm (a := k), eq_comm (a := j)]
  have hle := Finset.card_le_card hsub
  rw [hset, Finset.card_sdiff_of_subset hsub, hcard]
  omega

/-- Only the pair at the start of the climb is used up, and no pair comes about. -/
theorem pairSet_eq : pairSet top split' live = (pairSet top split live).erase (l, i / 2) := by
  classical
  have hstart : ∀ j, j / 2 = i / 2 → ¬ Free top split' live l j := by
    intro j hj hfree
    have hpos := h.pos
    rcases (h.free_iff l j).1 hfree with ⟨-, hne, htwin⟩ | ⟨hl, -⟩
    · by_cases hji : j = i
      · exact hne ⟨rfl, hji⟩
      · exact htwin ⟨0, hpos, rfl, by simpa using eq_twin hj hji⟩
    · omega
  have hkeep : ∀ k q, Free top split live k (2 * q) → Free top split live k (2 * q + 1) →
      ¬ (k = l ∧ q = i / 2) → ∀ j, j / 2 = q → Free top split' live k j := by
    intro k q heven hodd hne j hj
    have hboth : ∀ c, c / 2 = q → Free top split live k c := by
      intro c hc
      rcases Nat.mod_two_eq_zero_or_one c with hmod | hmod
      · rwa [show c = 2 * q by omega]
      · rwa [show c = 2 * q + 1 by omega]
    refine (h.free_iff k j).2 (Or.inl ⟨hboth j hj, ?_, ?_⟩)
    · rintro ⟨rfl, rfl⟩
      exact hne ⟨rfl, hj.symm⟩
    · rintro ⟨d, hd, rfl, rfl⟩
      rw [twin_div] at hj
      -- above the start the climbing block itself was split, so its twin had no free partner
      rcases Nat.eq_zero_or_pos d with rfl | hpos
      · exact hne ⟨rfl, by simpa using hj.symm⟩
      · obtain ⟨e, rfl⟩ := Nat.exists_eq_succ_of_ne_zero hpos.ne'
        exact (hboth _ hj).1.2 (h.merged e (by omega))
  ext ⟨k, q⟩
  rw [Finset.mem_erase, mem_pairSet, mem_pairSet]
  constructor
  · rintro ⟨heven, hodd⟩
    have hne : ¬ (k = l ∧ q = i / 2) := by
      rintro ⟨rfl, rfl⟩
      exact hstart (2 * (i / 2)) (by omega) heven
    refine ⟨fun heq => hne (Prod.ext_iff.1 heq), ?_⟩
    -- the block that the climb ends with is in no pair
    have hold : ∀ j, j / 2 = q → Free top split' live k j → ¬ (k = l + n ∧ j = i / 2 ^ n) := by
      rintro j hj - ⟨rfl, rfl⟩
      have htwin := twin_div (i / 2 ^ n)
      rcases Nat.mod_two_eq_zero_or_one (twin (i / 2 ^ n)) with hmod | hmod
      · exact h.stop (by rwa [show twin (i / 2 ^ n) = 2 * q by omega])
      · exact h.stop (by rwa [show twin (i / 2 ^ n) = 2 * q + 1 by omega])
    constructor
    · exact (((h.free_iff _ _).1 heven).resolve_right (hold _ (by omega) heven)).1
    · exact (((h.free_iff _ _).1 hodd).resolve_right (hold _ (by omega) hodd)).1
  · rintro ⟨hne, heven, hodd⟩
    have hkeep := hkeep k q heven hodd fun heq => hne (Prod.ext_iff.2 heq)
    exact ⟨hkeep _ (by omega), hkeep _ (by omega)⟩

theorem card_pairs : (pairSet top split' live).card + 1 = (pairSet top split live).card := by
  have hmem : (l, i / 2) ∈ pairSet top split live := by
    have htwin := h.twins 0 h.pos
    simp only [Nat.add_zero, pow_zero, Nat.div_one, twin] at htwin
    rw [mem_pairSet]
    rcases Nat.mod_two_eq_zero_or_one i with hmod | hmod
    · rw [show i / 2 * 2 + (1 - i % 2) = 2 * (i / 2) + 1 by omega] at htwin
      exact ⟨by rw [show 2 * (i / 2) = i by omega]; exact h.start, htwin⟩
    · rw [show i / 2 * 2 + (1 - i % 2) = 2 * (i / 2) by omega] at htwin
      exact ⟨htwin, by rw [show 2 * (i / 2) + 1 = i by omega]; exact h.start⟩
  rw [h.pairSet_eq]
  exact Finset.card_erase_add_one hmem

theorem mergedBelow (hm : MergedBelow top split live l) : MergedBelow top split' live l := by
  rintro k hk q ⟨heven, hodd⟩
  have hold : ∀ j, Free top split' live k j → Free top split live k j := by
    intro j hfree
    rcases (h.free_iff k j).1 hfree with hfree | ⟨hkn, -⟩
    · exact hfree.1
    · omega
  exact hm k hk q ⟨hold _ heven, hold _ hodd⟩

end Climbed

/-! ### The layout of a merged tree -/

/-- A split block that meets a live block has a smaller live block inside. -/
theorem smaller_inside (hlive : ∀ k j, live k j → Leaf top split k j) (hs : split l i)
    (hl : Node top split l i) {c e u : ℕ} (hce : live c e) (hu : u / 2 ^ l = i)
    (hu' : u / 2 ^ c = e) : c < l ∧ e / 2 ^ (l - c) = i := by
  have hleaf := hlive c e hce
  have hlt : c < l := by
    by_contra hge
    rcases Nat.lt_or_ge l c with hlt | hle
    · subst hu hu'
      exact hleaf.2 (split_of_lt hl hlt hleaf.1.level_le)
    · obtain rfl : l = c := by omega
      subst hu
      subst hu'
      exact hleaf.2 hs
  refine ⟨hlt, ?_⟩
  obtain ⟨d, rfl⟩ := Nat.exists_eq_add_of_lt hlt
  rw [← hu', ← hu, Nat.div_div_eq_div_mul, ← pow_add]
  congr 2
  omega

theorem split_of_inside (hlive : ∀ k j, live k j → Leaf top split k j) {c e : ℕ} (hce : live c e)
    (hlt : c < l) (hle : l ≤ top) (hi : e / 2 ^ (l - c) = i) : split l i := by
  obtain ⟨d, rfl⟩ := Nat.exists_eq_add_of_lt hlt
  have hs := (hlive c e hce).1.ancestor_split (k := d) (by omega)
  rw [show c + d + 1 - c = d + 1 by omega] at hi
  rwa [hi] at hs

/-- In a fully merged tree the split blocks depend on the live blocks alone: they are those
around a smaller live block. -/
theorem split_iff_inside (wf : WellFormed top split)
    (hlive : ∀ k j, live k j → Leaf top split k j) (hm : Merged top split live) :
    split l i ↔ l ≤ top ∧ ∃ c e, live c e ∧ c < l ∧ e / 2 ^ (l - c) = i := by
  constructor
  · intro hs
    have hnode := (wf l i hs).1
    have hloud : ¬ Quiet live l i := fun hq => (leaf_of_quiet wf hm l i hnode hq).2 hs
    unfold Quiet Meets at hloud
    push Not at hloud
    obtain ⟨c, e, hce, u, hu, hu'⟩ := hloud
    exact ⟨hnode.level_le, c, e, hce, smaller_inside hlive hs hnode hce hu hu'⟩
  · rintro ⟨hle, c, e, hce, hlt, hi⟩
    exact split_of_inside hlive hce hlt hle hi

/-! ### Pairs and quiet split blocks -/

/-- Two free halves make up a split block that meets no live block. -/
theorem free_halves_iff (hlive : ∀ k j, live k j → Leaf top split k j) :
    Free top split live l (2 * p) ∧ Free top split live l (2 * p + 1) ↔
      Node top split (l + 1) p ∧ split (l + 1) p ∧ Quiet live (l + 1) p ∧ ¬ split l (2 * p) ∧
        ¬ split l (2 * p + 1) := by
  constructor
  · rintro ⟨heven, hodd⟩
    have hlt : l < top := by
      by_contra hge
      have hl := hodd.1.1.level_le
      have hi := hodd.1.1.index_lt
      rw [show top - l = 0 by omega] at hi
      omega
    obtain ⟨hnode, hs⟩ := (node_half hlt).1 heven.1.1
    rw [Nat.mul_div_cancel_left p (by norm_num)] at hnode hs
    refine ⟨hnode, hs, ?_, heven.1.2, hodd.1.2⟩
    rintro c e hce ⟨u, hu, hu'⟩
    rw [pow_succ, ← Nat.div_div_eq_div_mul] at hu
    -- the unit lies in one of the halves, which would have to be the live block
    have hside : ∀ j, u / 2 ^ l = j → ¬ Free top split live l j := by
      intro j hj hfree
      obtain ⟨rfl, rfl⟩ := leaf_unique hfree.1 (hlive c e hce) hj hu'
      exact hfree.2 hce
    rcases Nat.mod_two_eq_zero_or_one (u / 2 ^ l) with hmod | hmod
    · exact hside (2 * p) (by omega) heven
    · exact hside (2 * p + 1) (by omega) hodd
  · rintro ⟨hnode, hs, hquiet, heven, hodd⟩
    have hhalf : ∀ j, j / 2 = p → ¬ split l j → Free top split live l j := by
      rintro j rfl hj
      exact ⟨⟨.half hnode hs, hj⟩, fun hlive => quiet_half hquiet l j hlive (meets_self l j)⟩
    exact ⟨hhalf _ (by omega) heven, hhalf _ (by omega) hodd⟩

/-- A sweep that ends in the fully merged tree needs as many merges as there were pairs exactly
when no quiet split block had a split half. -/
theorem card_pairs_iff (wf : WellFormed top split) (wf' : WellFormed top split')
    (hlive : ∀ k j, live k j → Leaf top split k j) (hlive' : ∀ k j, live k j → Leaf top split' k j)
    (hm : Merged top split' live) (hsub : ∀ k j, split' k j → split k j) :
    (pairSet top split live).card + (splitSet top split').card = (splitSet top split).card ↔
      ∀ l p, split (l + 1) p → Quiet live (l + 1) p →
        ¬ split l (2 * p) ∧ ¬ split l (2 * p + 1) := by
  classical
  set quiet := (splitSet top split).filter fun q => Quiet live q.1 q.2 with hquiet
  have hmem : ∀ k j, (k, j) ∈ quiet ↔ split k j ∧ Quiet live k j := by
    intro k j
    rw [hquiet, Finset.mem_filter, mem_splitSet wf]
  have hrest : splitSet top split' = (splitSet top split).filter fun q => ¬ Quiet live q.1 q.2 := by
    ext ⟨k, j⟩
    rw [mem_splitSet wf', Finset.mem_filter, mem_splitSet wf]
    constructor
    · intro hs
      exact ⟨hsub k j hs, fun hq => (leaf_of_quiet wf' hm k j (wf' k j hs).1 hq).2 hs⟩
    · rintro ⟨hs, hloud⟩
      unfold Quiet Meets at hloud
      push Not at hloud
      obtain ⟨c, e, hce, u, hu, hu'⟩ := hloud
      have hnode := (wf k j hs).1
      obtain ⟨hlt, hin⟩ := smaller_inside hlive hs hnode hce hu hu'
      exact split_of_inside hlive' hce hlt hnode.level_le hin
  have hsum : quiet.card + (splitSet top split').card = (splitSet top split).card := by
    rw [hrest]
    exact Finset.card_filter_add_card_filter_not _
  have himage : (pairSet top split live).image (fun q => (q.1 + 1, q.2)) ⊆ quiet := by
    intro q hq
    obtain ⟨⟨l, p⟩, hpair, rfl⟩ := Finset.mem_image.1 hq
    obtain ⟨-, hs, hquiet, -⟩ := (free_halves_iff hlive).1 (mem_pairSet.1 hpair)
    exact (hmem _ _).2 ⟨hs, hquiet⟩
  have hcard : ((pairSet top split live).image fun q => (q.1 + 1, q.2)).card =
      (pairSet top split live).card := by
    apply Finset.card_image_of_injective
    rintro ⟨l, p⟩ ⟨k, q⟩ heq
    simpa using heq
  constructor
  · intro heq l p hs hq
    have hall := Finset.eq_of_subset_of_card_le himage (by omega)
    have hin : (l + 1, p) ∈ quiet := (hmem _ _).2 ⟨hs, hq⟩
    rw [← hall] at hin
    obtain ⟨⟨k, q⟩, hpair, hkq⟩ := Finset.mem_image.1 hin
    simp only [Prod.mk.injEq, Nat.add_right_cancel_iff] at hkq
    obtain ⟨rfl, rfl⟩ := hkq
    exact ((free_halves_iff hlive).1 (mem_pairSet.1 hpair)).2.2.2
  · intro hcond
    have hall : quiet ⊆ (pairSet top split live).image fun q => (q.1 + 1, q.2) := by
      rintro ⟨k, p⟩ hq
      obtain ⟨hs, hquiet⟩ := (hmem _ _).1 hq
      obtain ⟨hnode, hpos⟩ := wf k p hs
      obtain ⟨l, rfl⟩ := Nat.exists_eq_succ_of_ne_zero hpos.ne'
      obtain ⟨heven, hodd⟩ := hcond l p hs hquiet
      refine Finset.mem_image.2 ⟨(l, p), mem_pairSet.2 ?_, rfl⟩
      exact (free_halves_iff hlive).2 ⟨hnode, hs, hquiet, heven, hodd⟩
    have hle := Finset.card_le_card hall
    have hge := Finset.card_le_card himage
    omega

end BlockTree
