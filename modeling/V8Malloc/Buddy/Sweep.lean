import V8Malloc.Lib.BlockMerge
import V8Malloc.Buddy.Coalescing

/-!
# What the coalescing sweep does

The sweep walks the free lists from the smallest blocks up. A merge climbs as far
as free twins are found, so it leaves the levels below its start alone; once a
walk ends without a merge, no two halves of its level are both free, and that
stays so. The sweep counts climbs, not merges.
-/
namespace V8Malloc

open ByteMemory BitWord LinkedList BlockTree

variable {uafActive : Bool} {arena : ℕ} {h h' : BuddyHeap} {live : Set (ℕ × ℕ)}
variable {l i n k j p : ℕ}

theorem xor_one_eq_twin (i : ℕ) : i ^^^ 1 = twin i := by
  unfold twin
  have hcases := xor_one_cases i
  omega

/-! ### A climb -/

/-- `h'` is `h` after `n` merges of the block `(l, i)` in transit. -/
structure Climb (h : BuddyHeap) (l i n : ℕ) (h' : BuddyHeap) : Prop where
  step : Step h (only l i) h' (only (l + n) (i / 2 ^ n))
  twins : ∀ d < n, h.buddy.free (only l i) (l + d) (twin (i / 2 ^ d))
  merged : ∀ d < n, h.buddy.splitAt (l + d + 1) (i / 2 ^ (d + 1))
  split_iff : ∀ k j, h'.buddy.splitAt k j ↔
    h.buddy.splitAt k j ∧ ¬ ∃ d < n, k = l + d + 1 ∧ j = i / 2 ^ (d + 1)
  free_iff : ∀ k j, h'.buddy.free (only (l + n) (i / 2 ^ n)) k j ↔
    h.buddy.free (only l i) k j ∧ ¬ ∃ d < n, k = l + d ∧ j = twin (i / 2 ^ d)

theorem climb_zero (hinv : BuddyInv h (only l i)) : Climb h l i 0 h := by
  refine ⟨?_, ?_, ?_, ?_, ?_⟩
  · simpa using Step.refl hinv
  · intro d hd
    exact absurd hd (Nat.not_lt_zero d)
  · intro d hd
    exact absurd hd (Nat.not_lt_zero d)
  · simp
  · simp

/-- The heap after the first merge of a climb. -/
def mergedOnce (h : BuddyHeap) (l i : ℕ) : BuddyHeap :=
  (h.remove l (indexToNode h.buddy (twin i) l)).clearSplit (l + 1) (i / 2)

theorem mergedOnce_free (hinv : BuddyInv h (only l i)) (hl : l < buddyTop)
    (hfree : h.buddy.free (only l i) l (twin i)) (k j : ℕ) :
    (mergedOnce h l i).buddy.free (only (l + 1) (i / 2)) k j ↔
      h.buddy.free (only l i) k j ∧ ¬ (k = l ∧ j = twin i) := by
  have hinc : including (only l i) l (twin i) = halves l (i / 2) := by
    have hdiv := twin_div i
    have hne := twin_ne i
    funext k j
    simp only [including, only, halves, eq_iff_iff]
    omega
  have hrem := remove_step hinv hfree
  rw [hinc] at hrem
  rw [← free_including (h := h), hinc]
  exact (clearSplit_rebits hrem.inv hl).free_iff k j

theorem climb_succ (hinv : BuddyInv h (only l i)) (hl : l < buddyTop)
    (hfree : h.buddy.free (only l i) l (twin i))
    (hrest : Climb (mergedOnce h l i) (l + 1) (i / 2) n h') : Climb h l i (n + 1) h' := by
  have hfree' := hfree
  rw [← xor_one_eq_twin] at hfree'
  have hstep := (mergeOnce_step hinv hl hfree').1
  rw [xor_one_eq_twin] at hstep
  have hidx : ∀ d, i / 2 / 2 ^ d = i / 2 ^ (d + 1) := by
    intro d
    rw [Nat.div_div_eq_div_mul, ← pow_succ']
  have hlev : ∀ d, l + 1 + d = l + (d + 1) := by
    intro d
    omega
  have hsplit : ∀ k j, (mergedOnce h l i).buddy.splitAt k j ↔
      h.buddy.splitAt k j ∧ ¬ (k = l + 1 ∧ j = i / 2) := fun k j => splitAt_clearSplit
  obtain ⟨-, hsp⟩ := (node_half hl).1 (hinv.busy_leaf l i (Or.inr ⟨rfl, rfl⟩)).1
  obtain ⟨hrun, htwins, hmerged, hsplits, hfrees⟩ := hrest
  simp only [hidx, hlev] at hrun htwins hmerged hsplits hfrees
  refine ⟨hstep.trans hrun, ?_, ?_, fun k j => ?_, fun k j => ?_⟩
  · rw [Nat.forall_lt_succ_left]
    refine ⟨by simpa using hfree, fun d hd => ?_⟩
    exact ((mergedOnce_free hinv hl hfree _ _).1 (htwins d hd)).1
  · rw [Nat.forall_lt_succ_left]
    refine ⟨by simpa using hsp, fun d hd => ?_⟩
    exact ((hsplit _ _).1 (hmerged d hd)).1
  · rw [hsplits, hsplit, Nat.exists_lt_succ_left, not_or, and_assoc]
    simp
  · rw [hfrees, mergedOnce_free hinv hl hfree, Nat.exists_lt_succ_left, not_or, and_assoc]
    simp

/-- The loop climbs until the twin is not free. -/
theorem coalesceLoop_climb (left : ℕ) : ∀ {current level idx : ℕ} {h : BuddyHeap},
    BuddyInv h (only level idx) → level + left = buddyTop →
      current = indexToNode h.buddy idx level →
      ∃ n h', coalesceLoop left current level idx h =
          (indexToNode h.buddy (idx / 2 ^ n) (level + n), level + n, h') ∧
        Climb h level idx n h' ∧
        (level + n < buddyTop →
          ¬ h'.buddy.free (only (level + n) (idx / 2 ^ n)) (level + n) (twin (idx / 2 ^ n))) ∧
        (level < buddyTop → h.buddy.free (only level idx) level (twin idx) → 0 < n) := by
  induction left with
  | zero =>
    intro current level idx h hinv hleft hcur
    refine ⟨0, h, ?_, climb_zero hinv, ?_, ?_⟩
    · simp [coalesceLoop, hcur]
    · intro hlt
      omega
    · intro hlt
      omega
  | succ left ih =>
    intro current level idx h hinv hleft hcur
    simp only [coalesceLoop]
    have hstay : ¬ h.buddy.free (only level idx) level (twin idx) →
        ∃ n h', (current, level, h) = (indexToNode h.buddy (idx / 2 ^ n) (level + n), level + n, h') ∧
          Climb h level idx n h' ∧ (level + n < buddyTop →
            ¬ h'.buddy.free (only (level + n) (idx / 2 ^ n)) (level + n) (twin (idx / 2 ^ n))) ∧
          (level < buddyTop → h.buddy.free (only level idx) level (twin idx) → 0 < n) := by
      intro hnot
      refine ⟨0, h, by simp [hcur], climb_zero hinv, ?_, fun _ hfree => absurd hfree hnot⟩
      simpa using fun _ => hnot
    rw [xor_one_eq_twin]
    by_cases ha : h.buddy.allocAt level (twin idx)
    · rw [if_pos (testBit_allocBitmap.2 ha)]
      exact hstay fun hf => hf.2 (Or.inl ha)
    by_cases hs : h.buddy.splitAt level (twin idx)
    · rw [if_neg (mt testBit_allocBitmap.1 ha), if_pos (testBit_splitBitmap.2 hs)]
      exact hstay fun hf => hf.1.2 hs
    have hl : level < buddyTop := by omega
    have hfree : h.buddy.free (only level idx) level (twin idx) := by
      rw [← xor_one_eq_twin] at ha hs ⊢
      exact twin_free hinv hl ha hs
    have hcur' : (if twin idx < idx then indexToNode h.buddy (twin idx) level else current) =
        indexToNode h.buddy (idx / 2) (level + 1) := by
      have htwin : twin idx = idx / 2 * 2 + (1 - idx % 2) := rfl
      rw [← indexToNode_half]
      split_ifs with hlt
      · congr 1
        omega
      · rw [hcur]
        congr 1
        omega
    have hfirst := climb_succ hinv hl hfree (climb_zero (by
      have hfree' := hfree
      rw [← xor_one_eq_twin] at hfree'
      have hstep := (mergeOnce_step hinv hl hfree').1.inv
      rwa [xor_one_eq_twin] at hstep))
    rw [if_neg (mt testBit_allocBitmap.1 ha), if_neg (mt testBit_splitBitmap.1 hs),
      Nat.shiftRight_eq_div_pow, pow_one]
    obtain ⟨n, h', hout, hclimb, hstop, -⟩ := ih (h := mergedOnce h level idx)
      (by simpa using hfirst.step.inv) (by omega) hcur'
    refine ⟨n + 1, h', ?_, climb_succ hinv hl hfree hclimb, ?_, fun _ _ => Nat.succ_pos n⟩
    · rw [Nat.div_div_eq_div_mul, ← pow_succ', Nat.add_assoc, Nat.add_comm 1 n] at hout
      exact hout
    · rw [Nat.div_div_eq_div_mul, ← pow_succ', Nat.add_assoc, Nat.add_comm 1 n] at hstop
      exact hstop

theorem free_none₂ (b : Buddy) (l i : ℕ) :
    b.free none₂ l i ↔ Free buddyTop b.splitAt b.allocAt l i := by
  rw [Buddy.free, busy_none₂]

theorem including_none₂ (l i : ℕ) : including none₂ l i = only l i := by
  funext k j
  simp [including, none₂, only]

theorem Step.allocAt_eq {transit transit' : ℕ → ℕ → Prop} (hs : Step h transit h' transit') :
    h'.buddy.allocAt = h.buddy.allocAt := by
  funext k j
  simp only [Buddy.allocAt, hs.alloc_eq]

/-- After the climb the block is pushed where it ended. -/
theorem coalesceUpward_climb (uafActive : Bool) (hinv : BuddyInv h (only l i)) (hl : l < buddyTop)
    (htwin : h.buddy.free (only l i) l (twin i))
    (hh' : h' = (coalesceUpward uafActive h (indexToNode h.buddy i l) l).2) :
    ∃ n h₁, 0 < n ∧ Climb h l i n h₁ ∧ Step h (only l i) h' none₂ ∧
      h'.buddy.splitAt = h₁.buddy.splitAt ∧
      (∀ k j, h'.buddy.free none₂ k j ↔
        h₁.buddy.free (only (l + n) (i / 2 ^ n)) k j ∨ k = l + n ∧ j = i / 2 ^ n) ∧
      (l + n < buddyTop →
        ¬ h₁.buddy.free (only (l + n) (i / 2 ^ n)) (l + n) (twin (i / 2 ^ n))) := by
  obtain ⟨n, h₁, hout, hclimb, hstop, hmoves⟩ :=
    coalesceLoop_climb (buddyTop - l) hinv (by omega) rfl
  have hnode : indexToNode h.buddy (i / 2 ^ n) (l + n) = indexToNode h₁.buddy (i / 2 ^ n) (l + n) := by
    simp only [indexToNode, hclimb.step.base_eq]
  have hpoison := poison_step uafActive hclimb.step.inv (l := l + n) (i := i / 2 ^ n) ⟨rfl, rfl⟩
  have hpush := push_step hpoison.inv (l := l + n) (i := i / 2 ^ n) ⟨rfl, rfl⟩
  have hpushed : ∀ k j, (h₁.poison uafActive (indexToNode h₁.buddy (i / 2 ^ n) (l + n))
      (levelToSize (l + n))).buddy.free none₂ k j ↔
      h₁.buddy.free (only (l + n) (i / 2 ^ n)) k j ∨ k = l + n ∧ j = i / 2 ^ n := by
    intro k j
    rw [← without_only (l := l + n) (i := i / 2 ^ n)]
    exact free_without hpoison.inv ⟨rfl, rfl⟩
  rw [without_only] at hpush
  simp only [coalesceUpward, addrToIndex_indexToNode] at hh'
  rw [show buddyLevels - 1 - l = buddyTop - l from rfl, hout] at hh'
  simp only [hnode] at hh'
  subst hh'
  exact ⟨n, h₁, hmoves hl htwin, hclimb, hclimb.step.trans (hpoison.trans hpush), rfl, hpushed,
    hstop⟩

/-- One merge of the sweep is a climb of the tree. -/
theorem sweepMerge_climbed (uafActive : Bool) (hinv : BuddyInv h none₂) (hl : l < buddyTop)
    (hfree : h.buddy.free none₂ l i) (htwin : h.buddy.free none₂ l (twin i))
    (hh' : h' = (coalesceUpward uafActive (h.remove l (indexToNode h.buddy i l))
      (indexToNode h.buddy i l) l).2) :
    ∃ n, Step h none₂ h' none₂ ∧
      Climbed buddyTop h.buddy.allocAt h.buddy.splitAt l i n h'.buddy.splitAt := by
  have hrem := remove_step hinv hfree
  rw [including_none₂] at hrem
  have hout : ∀ k j, (h.remove l (indexToNode h.buddy i l)).buddy.free (only l i) k j ↔
      h.buddy.free none₂ k j ∧ ¬ (k = l ∧ j = i) := by
    intro k j
    rw [← including_none₂]
    exact free_including
  have htwin' := (hout l (twin i)).2 ⟨htwin, fun heq => twin_ne i heq.2⟩
  obtain ⟨n, h₁, hpos, hclimb, hstep, hsplit, hfrees, hstop⟩ :=
    coalesceUpward_climb uafActive hrem.inv hl htwin' hh'
  have hall := hrem.trans hstep
  have hafter : ∀ k j, Free buddyTop h'.buddy.splitAt h.buddy.allocAt k j ↔
      h'.buddy.free none₂ k j := by
    intro k j
    rw [free_none₂, hall.allocAt_eq]
  refine ⟨n, hall, hpos, (free_none₂ _ _ _).1 hfree, fun d hd => ?_, hclimb.merged, fun k j => ?_,
    fun k j => ?_, ?_⟩
  · exact (free_none₂ _ _ _).1 ((hout _ _).1 (hclimb.twins d hd)).1
  · rw [hsplit]
    exact hclimb.split_iff k j
  · rw [hafter, hfrees, hclimb.free_iff, hout, ← free_none₂, and_assoc]
  · rw [hafter, hfrees]
    rintro (hfree' | ⟨-, heq⟩)
    · rcases hfree'.1.1.level_le.eq_or_lt with htop | hlt
      · have hidx := hfree'.1.1.index_lt
        have hself := (hclimb.step.inv.busy_leaf _ _ (Or.inr ⟨rfl, rfl⟩)).1.index_lt
        rw [htop, Nat.sub_self, pow_zero] at hidx hself
        exact twin_ne (i / 2 ^ n) ((Nat.lt_one_iff.1 hidx).trans (Nat.lt_one_iff.1 hself).symm)
      · exact hstop hlt hfree'
    · exact twin_ne _ heq

/-! ### The walk -/

noncomputable def Buddy.frees (b : Buddy) : ℕ := (freeSet buddyTop b.splitAt b.allocAt).card
noncomputable def Buddy.pairs (b : Buddy) : ℕ := (pairSet buddyTop b.splitAt b.allocAt).card
noncomputable def Buddy.splits (b : Buddy) : ℕ := (splitSet buddyTop b.splitAt).card

/-- No two halves of one block below level `m` are both free. -/
def Buddy.mergedBelow (b : Buddy) (m : ℕ) : Prop := MergedBelow buddyTop b.splitAt b.allocAt m

/-- `h'` is `h` after `climbs` climbs with `merges` merges in all. -/
structure Gathered (h : BuddyHeap) (climbs merges : ℕ) (h' : BuddyHeap) : Prop where
  step : Step h none₂ h' none₂
  sub : ∀ k j, h'.buddy.splitAt k j → h.buddy.splitAt k j
  frees : h'.buddy.frees + merges = h.buddy.frees
  pairs : h'.buddy.pairs + climbs = h.buddy.pairs
  splits : h'.buddy.splits + merges = h.buddy.splits

theorem Gathered.refl (hinv : BuddyInv h none₂) : Gathered h 0 0 h :=
  ⟨Step.refl hinv, fun _ _ hs => hs, rfl, rfl, rfl⟩

theorem Gathered.trans {h'' : BuddyHeap} {c m c' m' : ℕ} (h₁ : Gathered h c m h')
    (h₂ : Gathered h' c' m' h'') : Gathered h (c + c') (m + m') h'' where
  step := h₁.step.trans h₂.step
  sub := fun k j hs => h₁.sub k j (h₂.sub k j hs)
  frees := by
    have := h₁.frees
    have := h₂.frees
    omega
  pairs := by
    have := h₁.pairs
    have := h₂.pairs
    omega
  splits := by
    have := h₁.splits
    have := h₂.splits
    omega

theorem gathered_of_climbed (hinv : BuddyInv h none₂) (hstep : Step h none₂ h' none₂)
    (hclimbed : Climbed buddyTop h.buddy.allocAt h.buddy.splitAt l i n h'.buddy.splitAt) :
    Gathered h 1 n h' where
  step := hstep
  sub := fun k j hs => ((hclimbed.split_iff k j).1 hs).1
  frees := by
    unfold Buddy.frees
    rw [hstep.allocAt_eq]
    exact hclimbed.card_free
  pairs := by
    unfold Buddy.pairs
    rw [hstep.allocAt_eq]
    exact hclimbed.card_pairs
  splits := hclimbed.card_split hinv.wf hstep.inv.wf

theorem splitCount_climbed (hinv : BuddyInv h none₂)
    (hclimbed : Climbed buddyTop h.buddy.allocAt h.buddy.splitAt l i n h'.buddy.splitAt) :
    splitCount h'.buddy < splitCount h.buddy := by
  apply splitCount_lt hinv (fun k j hs => ((hclimbed.split_iff k j).1 hs).1)
    (hclimbed.merged 0 hclimbed.pos)
  intro hs
  exact ((hclimbed.split_iff _ _).1 hs).2 ⟨0, hclimbed.pos, rfl, rfl⟩

/-- The test of the walk finds out whether the twin of a free block is free. -/
theorem pair_test (hl : l < buddyTop) (hf : h.buddy.free none₂ l i) :
    (!testBit (h.buddy.allocBitmap l) (twin i) && !testBit (h.buddy.splitBitmap l) (twin i)) = true ↔
      h.buddy.free none₂ l (twin i) := by
  rw [Bool.and_eq_true, Bool.not_eq_true', Bool.not_eq_true', Bool.eq_false_iff, Bool.eq_false_iff]
  constructor
  · rintro ⟨ha, hs⟩
    obtain ⟨hp, hsp⟩ := (node_half hl).1 hf.1.1
    refine ⟨⟨.half ?_ ?_, mt testBit_splitBitmap.2 hs⟩,
      fun hb => hb.elim (mt testBit_allocBitmap.2 ha) False.elim⟩
    · rwa [twin_div]
    · rwa [twin_div]
  · intro htwin
    exact ⟨mt testBit_allocBitmap.1 fun ha => htwin.2 (Or.inl ha),
      mt testBit_splitBitmap.1 htwin.1.2⟩

/-- The walk at level `l`: `seen` are the nodes passed since the last merge, none of which has a
free twin; `rest` are those to come. -/
theorem coalesceWalk_gathers (uafActive : Bool) (hl : l < buddyTop) (fuel : ℕ) :
    ∀ (merges : ℕ) (seen rest : List ℕ) {node : ℕ} {h : BuddyHeap}, BuddyInv h none₂ →
      ListsComplete h none₂ → h.buddy.mergedBelow l →
      Chain 0 (nodeNext h.mem) (h.buddy.freeLists l) (seen ++ rest) →
      Chain 0 (nodeNext h.mem) node rest →
      (∀ i, indexToNode h.buddy i l ∈ seen → ¬ h.buddy.free none₂ l (twin i)) →
      rest.length + 65 * splitCount h.buddy < fuel →
      ∃ climbs merged h', coalesceWalk uafActive l fuel node merges h = .ok (merges + climbs, h') ∧
        Gathered h climbs merged h' ∧ h'.buddy.mergedBelow (l + 1) := by
  induction fuel with
  | zero =>
    intro merges seen rest node h hinv hcomplete hbelow hall hc hseen hfuel
    exact absurd hfuel (Nat.not_lt_zero _)
  | succ fuel ih =>
    intro merges seen rest node h hinv hcomplete hbelow hall hc hseen hfuel
    have hlinks := hinv.links.linked l
    have hin : ∀ y ∈ seen ++ rest, y ∈ freeNodes h.buddy none₂ l :=
      hlinks.chain_subset hlinks.head_mem hall
    simp only [coalesceWalk]
    cases hc with
    | nil =>
      rw [if_pos rfl]
      refine ⟨0, 0, h, rfl, Gathered.refl hinv, fun k hk q hpair => ?_⟩
      rcases Nat.lt_succ_iff_lt_or_eq.1 hk with hlt | rfl
      · exact hbelow k hlt q hpair
      · -- both halves are on the list, so they were passed
        obtain ⟨L, hL, hreach⟩ := hcomplete k
        rw [hL.unique hall, List.append_nil] at hreach
        rw [← free_none₂, ← free_none₂] at hpair
        apply hseen (2 * q) (hreach _ ⟨2 * q, hpair.1, rfl⟩)
        rw [← eq_twin (i := 2 * q) (j := 2 * q + 1) (by omega) (by omega)]
        exact hpair.2
    | @cons _ rest hne htail =>
      rw [if_neg hne]
      obtain ⟨i, hf, hi⟩ := hin node (List.mem_append_right _ List.mem_cons_self)
      simp only [hi, addrToIndex_indexToNode, xor_one_eq_twin]
      simp only [List.length_cons] at hfuel
      by_cases htwin : h.buddy.free none₂ l (twin i)
      · rw [if_pos ((pair_test hl hf).2 htwin)]
        obtain ⟨n, hstep, hclimbed⟩ := sweepMerge_climbed uafActive hinv hl hf htwin rfl
        have hcount := splitCount_climbed hinv hclimbed
        have hgathered := gathered_of_climbed hinv hstep hclimbed
        have hbelow' := hclimbed.mergedBelow hbelow
        generalize (coalesceUpward uafActive (h.remove l (indexToNode h.buddy i l))
          (indexToNode h.buddy i l) l).2 = h₁ at *
        rw [← hstep.allocAt_eq] at hbelow'
        obtain ⟨L, hL⟩ := exists_chain_of_head hstep.inv l
        have hlen := chain_length_le hstep.inv (hstep.inv.links.linked l).head_mem hL
        obtain ⟨c, m, h₂, hout, hrest, hdone⟩ := ih (merges + 1) [] L hstep.inv
          (hstep.complete hcomplete) hbelow' hL hL (fun i hi => absurd hi List.not_mem_nil)
          (by omega)
        refine ⟨1 + c, n + m, h₂, ?_, hgathered.trans hrest, hdone⟩
        rw [hout, Nat.add_assoc]
      · rw [if_neg (mt (pair_test hl hf).1 htwin), ← hi]
        apply ih merges (seen ++ [node]) rest hinv hcomplete hbelow
        · rwa [List.append_assoc]
        · exact htail
        · intro j hj
          rcases List.mem_append.1 hj with hj | hj
          · exact hseen j hj
          · rw [List.mem_singleton, hi] at hj
            rwa [index_inj hj]
        · omega

theorem coalesceLevels_gathers (uafActive : Bool) (left : ℕ) :
    ∀ (level merges : ℕ) {h : BuddyHeap}, BuddyInv h none₂ → ListsComplete h none₂ →
      h.buddy.mergedBelow level → level + left = buddyTop →
      ∃ climbs merged h', coalesceLevels uafActive left level merges h = .ok (merges + climbs, h') ∧
        Gathered h climbs merged h' ∧ h'.buddy.mergedBelow buddyTop := by
  induction left with
  | zero =>
    intro level merges h hinv hcomplete hbelow hlevel
    obtain rfl : level = buddyTop := hlevel
    exact ⟨0, 0, h, rfl, Gathered.refl hinv, hbelow⟩
  | succ left ih =>
    intro level merges h hinv hcomplete hbelow hlevel
    obtain ⟨L, hL⟩ := exists_chain_of_head hinv level
    have hlen := chain_length_le hinv (hinv.links.linked level).head_mem hL
    have hcount := splitCount_le h.buddy
    obtain ⟨c, m, h₁, hwalk, hgathered, hbelow'⟩ := coalesceWalk_gathers (l := level) uafActive
      (by omega) coalesceFuel merges [] L hinv hcomplete hbelow hL hL
      (fun i hi => absurd hi List.not_mem_nil) (by unfold coalesceFuel; omega)
    obtain ⟨c', m', h₂, hrest, hgathered', hdone⟩ := ih (level + 1) (merges + c)
      hgathered.step.inv (hgathered.step.complete hcomplete) hbelow' (by omega)
    refine ⟨c + c', m + m', h₂, ?_, hgathered.trans hgathered', hdone⟩
    simp only [coalesceLevels, hwalk]
    rw [← Nat.add_assoc]
    exact hrest

theorem fullyMerged_of_below {b : Buddy} (hbelow : b.mergedBelow buddyTop) :
    FullyMerged b none₂ := by
  unfold FullyMerged
  rw [busy_none₂]
  rintro l p ⟨heven, hodd⟩
  rcases hodd.1.1.level_le.eq_or_lt with rfl | hlt
  · have hidx := hodd.1.1.index_lt
    rw [Nat.sub_self, pow_zero] at hidx
    omega
  · exact hbelow l hlt p ⟨heven, hodd⟩

/-- The sweep ends in the fully merged tree; it answers the number of climbs. -/
theorem buddyCoalesceAll_gathers (uafActive : Bool) (hinv : BuddyInv h none₂)
    (hcomplete : ListsComplete h none₂) :
    ∃ climbs merged h', buddyCoalesceAll uafActive h = .ok (climbs, h') ∧
      Gathered h climbs merged h' ∧ FullyMerged h'.buddy none₂ := by
  obtain ⟨c, m, h', hout, hgathered, hbelow⟩ := coalesceLevels_gathers uafActive (buddyLevels - 1) 0 0
    hinv hcomplete (fun k hk => absurd hk (Nat.not_lt_zero k)) rfl
  rw [Nat.zero_add] at hout
  exact ⟨c, m, h', hout, hgathered, fullyMerged_of_below hbelow⟩

/-! ### A second sweep -/

theorem coalesceWalk_still (uafActive : Bool) (hl : l < buddyTop) (hinv : BuddyInv h none₂)
    (hm : FullyMerged h.buddy none₂) (merges fuel : ℕ) : ∀ {node : ℕ} {rest : List ℕ},
      (node ≠ 0 → node ∈ freeNodes h.buddy none₂ l) → Chain 0 (nodeNext h.mem) node rest →
      rest.length < fuel → coalesceWalk uafActive l fuel node merges h = .ok (merges, h) := by
  induction fuel with
  | zero =>
    intro node rest hnode hc hfuel
    exact absurd hfuel (Nat.not_lt_zero _)
  | succ fuel ih =>
    intro node rest hnode hc hfuel
    simp only [coalesceWalk]
    cases hc with
    | nil => rw [if_pos rfl]
    | @cons _ rest hne htail =>
      rw [if_neg hne]
      obtain ⟨i, hf, hi⟩ := hnode hne
      have htwin := hm.sibling hf
      rw [xor_one_eq_twin] at htwin
      simp only [hi, addrToIndex_indexToNode, xor_one_eq_twin]
      rw [if_neg (mt (pair_test hl hf).1 htwin), ← hi]
      apply ih _ htail (Nat.lt_of_succ_lt_succ hfuel)
      exact fun hn => ((hinv.links.linked l).next_mem node (hnode hne) hn).1

theorem coalesceLevels_still (uafActive : Bool) (hinv : BuddyInv h none₂)
    (hm : FullyMerged h.buddy none₂) (merges left : ℕ) : ∀ level, level + left = buddyTop →
      coalesceLevels uafActive left level merges h = .ok (merges, h) := by
  induction left with
  | zero =>
    intro level _
    rfl
  | succ left ih =>
    intro level hlevel
    obtain ⟨L, hL⟩ := exists_chain_of_head hinv level
    have hhead := (hinv.links.linked level).head_mem
    have hlen := chain_length_le hinv hhead hL
    have hwalk := coalesceWalk_still (l := level) uafActive (by omega) hinv hm merges coalesceFuel
      hhead hL (by unfold coalesceFuel; omega)
    simp only [coalesceLevels, hwalk]
    exact ih (level + 1) (by omega)

/-- A fully merged tree has nothing to sweep. -/
theorem buddyCoalesceAll_still (uafActive : Bool) (hinv : BuddyInv h none₂)
    (hm : FullyMerged h.buddy none₂) : buddyCoalesceAll uafActive h = .ok (0, h) :=
  coalesceLevels_still uafActive hinv hm 0 (buddyLevels - 1) 0 rfl

/-! ### The layout after a sweep -/

/-- The block of level `l` and index `i` meets no live block. -/
def Clear (arena : ℕ) (live : Set (ℕ × ℕ)) (l i : ℕ) : Prop :=
  ∀ q ∈ live, Disjoint (Set.Ico (arena + i * levelToSize l) (arena + (i + 1) * levelToSize l))
    (Set.Ico q.1 (q.1 + blockSize q.2))

/-- The largest blocks that meet no live block. -/
def mergedFree (arena : ℕ) (live : Set (ℕ × ℕ)) (l : ℕ) : Set ℕ :=
  {p | ∃ i, p = arena + i * levelToSize l ∧ l ≤ buddyTop ∧ i < 2 ^ (buddyTop - l) ∧
    Clear arena live l i ∧ (l = buddyTop ∨ ¬ Clear arena live (l + 1) (i / 2))}

/-- The blocks around a smaller live block. -/
def mergedSplit (arena : ℕ) (live : Set (ℕ × ℕ)) (l i : ℕ) : Prop :=
  l ≤ buddyTop ∧ ∃ q ∈ live, sizeToLevel q.2 < l ∧ (q.1 - arena) / levelToSize l = i

theorem RunInv.freeBlocks_merged (hr : RunInv arena h live) (hm : FullyMerged h.buddy none₂) (l : ℕ) :
    freeBlocks h l = mergedFree arena live l := by
  ext p
  rw [hr.mem_freeBlocks_iff hm]
  simp only [hr.quiet_iff]
  exact Iff.rfl

theorem RunInv.splitAt_merged (hr : RunInv arena h live) (hm : FullyMerged h.buddy none₂) :
    h.buddy.splitAt l i ↔ mergedSplit arena live l i := by
  unfold FullyMerged at hm
  rw [busy_none₂] at hm
  rw [split_iff_inside hr.inv.wf hr.inv.alloc_leaf hm]
  apply and_congr_right'
  have hunit : ∀ {c : ℕ} (e : ℕ), c < l →
      (indexToNode h.buddy e c - arena) / levelToSize l = e / 2 ^ (l - c) := by
    intro c e hlt
    obtain ⟨d, rfl⟩ := Nat.exists_eq_add_of_lt hlt
    have hpow : 2 ^ (buddyMinShift + (c + d + 1)) = 2 ^ (buddyMinShift + c) * 2 ^ (d + 1) := by
      rw [← pow_add]
      congr 1
      omega
    rw [indexToNode, hr.base_eq, Nat.add_sub_cancel_left, levelToSize, levelToSize, hpow,
      ← Nat.div_div_eq_div_mul, Nat.mul_div_cancel _ (by positivity)]
    congr 2
    omega
  constructor
  · rintro ⟨c, e, ha, hlt, hin⟩
    obtain ⟨q, hq, hq₁, rfl⟩ := hr.bits.owner c e ha
    refine ⟨q, hq, hlt, ?_⟩
    rw [hq₁, hunit e hlt, hin]
  · rintro ⟨q, hq, hlt, hin⟩
    obtain ⟨e, he, ha⟩ := hr.bits.block q hq
    refine ⟨_, e, ha, hlt, ?_⟩
    rw [← hunit e hlt, ← he, hin]

/-- Split marks of merged trees with the same live blocks are the same. -/
theorem RunInv.splitBitmap_congr {h₂ : BuddyHeap} {live₂ : Set (ℕ × ℕ)} (hr : RunInv arena h live)
    (hr₂ : RunInv arena h₂ live₂) (hm : FullyMerged h.buddy none₂)
    (hm₂ : FullyMerged h₂.buddy none₂) (hlive : liveBlocks live₂ = liveBlocks live) (l : ℕ) :
    h₂.buddy.splitBitmap l = h.buddy.splitBitmap l := by
  unfold FullyMerged at hm hm₂
  rw [busy_none₂] at hm hm₂
  have hsplit : ∀ i, h₂.buddy.splitAt l i ↔ h.buddy.splitAt l i := by
    intro i
    rw [split_iff_inside hr.inv.wf hr.inv.alloc_leaf hm,
      split_iff_inside hr₂.inv.wf hr₂.inv.alloc_leaf hm₂, hr.allocAt_congr hr₂ hlive]
  apply BitVec.eq_of_getLsbD_eq
  intro i _
  exact Bool.eq_iff_iff.2 (hsplit i)

theorem RunInv.swept (hr : RunInv arena h live) (hstep : Step h none₂ h' none₂) :
    RunInv arena h' live :=
  ⟨hr.toArenaInv.sweep hstep, hstep.complete hr.complete⟩

/-- Whatever frees were deferred, the sweep leaves the layout that immediate coalescing would
have left: the free blocks and the split marks depend on the live blocks alone. -/
theorem sweep_restores_immediate (run : BuddyRun uafActive true arena h live) :
    ∃ merges h', buddyCoalesceAll uafActive h = .ok (merges, h') ∧
      h'.buddy.allocBitmap = h.buddy.allocBitmap ∧
      (∀ l i, testBit (h'.buddy.splitBitmap l) i = true ↔ mergedSplit arena live l i) ∧
      (∀ l, freeBlocks h' l = mergedFree arena live l) ∧
      (∀ l i, ¬ (arena + i * levelToSize l ∈ freeBlocks h' l ∧
        arena + (i ^^^ 1) * levelToSize l ∈ freeBlocks h' l)) ∧
      (∀ (uafActive₂ : Bool) (h₂ : BuddyHeap) (live₂ : Set (ℕ × ℕ)),
        BuddyRun uafActive₂ false arena h₂ live₂ → liveBlocks live₂ = liveBlocks live →
          ∀ l, h₂.buddy.splitBitmap l = h'.buddy.splitBitmap l ∧ freeBlocks h₂ l = freeBlocks h' l) ∧
      (∀ size, 1 ≤ size → size ≤ buddyMaxBlock →
        ((∃ h'', buddyAlloc uafActive h' size = .ok (0, h'')) ↔
          ∀ i < 2 ^ (buddyTop - sizeToLevel size), ¬ Clear arena live (sizeToLevel size) i)) ∧
      buddyCoalesceAll uafActive h' = .ok (0, h') := by
  obtain ⟨hr, -⟩ := run.inv
  obtain ⟨c, m, h', hout, hgathered, hm⟩ := buddyCoalesceAll_gathers uafActive hr.inv hr.complete
  have hr' := hr.swept hgathered.step
  refine ⟨c, h', hout, hgathered.step.alloc_eq, ?_, hr'.freeBlocks_merged hm, ?_, ?_, ?_, ?_⟩
  · intro l i
    rw [testBit_splitBitmap]
    exact hr'.splitAt_merged hm
  · rintro l i ⟨hi, hj⟩
    exact hm.sibling (hr'.node_mem_freeBlocks.1 hi) (hr'.node_mem_freeBlocks.1 hj)
  · intro uafActive₂ h₂ live₂ run₂ hlive l
    obtain ⟨hr₂, hmerged₂⟩ := run₂.inv
    refine ⟨hr'.splitBitmap_congr hr₂ hm (hmerged₂ rfl) hlive l, ?_⟩
    ext p
    rw [hr₂.mem_freeBlocks_iff (hmerged₂ rfl), hr'.mem_freeBlocks_iff hm,
      hr'.allocAt_congr hr₂ hlive]
  · intro size hpos hmax
    rw [hr'.null_iff, hr'.exhausted_iff hm hpos hmax]
    simp only [hr'.quiet_iff]
    exact Iff.rfl
  · exact buddyCoalesceAll_still uafActive hr'.inv hm

/-- The state after an allocation that is answered. -/
def afterAlloc (h : BuddyHeap) (size : ℕ) : BuddyHeap :=
  match buddyAlloc false h size with
  | .ok out => out.2
  | .error _ => h

/-- One page taken from a fresh arena. -/
def pageTaken : BuddyHeap := afterAlloc (buddyInit false (fun _ => 0) 262144) 4096

/-- The page given back without a merge. -/
def pageDeferred : BuddyHeap := buddyFreeNoCoalesce false pageTaken 262144 4096

theorem pageDeferred_run : BuddyRun false true 262144 pageDeferred
    (insert (262144, 4096) ∅ \ {(262144, 4096)}) := by
  have run₀ : BuddyRun false true 262144 (buddyInit false (fun _ => 0) 262144) ∅ :=
    .init (fun _ => 0) (by decide) (by decide) (by decide)
  have run₁ : BuddyRun false true 262144 pageTaken _ := run₀.alloc 4096 262144 rfl
  exact run₁.freeNoCoalesce 262144 4096 rfl (Or.inl rfl)

theorem sweep_restores_immediate_onePage : ∃ merges h',
    buddyCoalesceAll false pageDeferred = .ok (merges, h') ∧
      buddyCoalesceAll false h' = .ok (0, h') := by
  obtain ⟨merges, h', hout, -, -, -, -, -, -, hagain⟩ := sweep_restores_immediate pageDeferred_run
  exact ⟨merges, h', hout, hagain⟩

/-! ### The number of merges -/

/-- The nodes of a free list, at most 64. -/
def freeListNodes (h : BuddyHeap) (l : ℕ) : List ℕ :=
  walk 0 (nodeNext h.mem) 64 (h.buddy.freeLists l)

/-- The number of free blocks on all lists. -/
def freeCount (h : BuddyHeap) : ℕ :=
  ∑ l ∈ Finset.range buddyLevels, (freeListNodes h l).length

theorem RunInv.freeListNodes_length (hr : RunInv arena h live) (l : ℕ) :
    (freeListNodes h l).length =
      ((freeSet buddyTop h.buddy.splitAt h.buddy.allocAt).filter fun q => q.1 = l).card := by
  have hlinks := hr.inv.links.linked l
  obtain ⟨L, hc, hall⟩ := hr.complete l
  have hwalk : freeListNodes h l = L := hc.walk_eq (chain_length_le hr.inv hlinks.head_mem hc)
  have hset : ((freeSet buddyTop h.buddy.splitAt h.buddy.allocAt).filter fun q => q.1 = l).image
      (fun q => indexToNode h.buddy q.2 l) = L.toFinset := by
    ext y
    rw [Finset.mem_image, List.mem_toFinset]
    constructor
    · rintro ⟨⟨k, i⟩, hq, rfl⟩
      obtain ⟨hfree, rfl⟩ := Finset.mem_filter.1 hq
      exact hall _ ⟨i, (free_none₂ _ _ _).2 (mem_freeSet.1 hfree), rfl⟩
    · intro hy
      obtain ⟨i, hfree, rfl⟩ := hlinks.chain_subset hlinks.head_mem hc y hy
      refine ⟨(l, i), Finset.mem_filter.2 ⟨?_, rfl⟩, rfl⟩
      exact mem_freeSet.2 ((free_none₂ _ _ _).1 hfree)
  rw [hwalk, ← List.toFinset_card_of_nodup hc.nodup, ← hset]
  apply Finset.card_image_of_injOn
  rintro ⟨k, i⟩ hq ⟨k', i'⟩ hq' heq
  obtain ⟨-, rfl⟩ := Finset.mem_filter.1 (Finset.mem_coe.1 hq)
  obtain ⟨-, hk⟩ := Finset.mem_filter.1 (Finset.mem_coe.1 hq')
  exact Prod.ext hk.symm (index_inj heq)

theorem RunInv.freeCount_eq (hr : RunInv arena h live) : freeCount h = h.buddy.frees := by
  have hlevel : ∀ q ∈ freeSet buddyTop h.buddy.splitAt h.buddy.allocAt,
      q.1 ∈ Finset.range buddyLevels := by
    rintro ⟨l, i⟩ hq
    exact Finset.mem_range.2 (Nat.lt_succ_of_le (mem_freeSet.1 hq).1.1.level_le)
  rw [Buddy.frees, Finset.card_eq_sum_card_fiberwise hlevel, freeCount]
  exact Finset.sum_congr rfl fun l _ => hr.freeListNodes_length l

/-- The sweep answers the number of pairs of free twins it found, which is the number of merges
exactly when no split block without live blocks inside has a split half. -/
theorem sweep_counts_merges_iff (run : BuddyRun uafActive true arena h live) :
    ∃ merges h', buddyCoalesceAll uafActive h = .ok (merges, h') ∧
      (merges = freeCount h - freeCount h' ↔
        ∀ l i, h.buddy.splitAt (l + 1) i → Clear arena live (l + 1) i →
          ¬ h.buddy.splitAt l (2 * i) ∧ ¬ h.buddy.splitAt l (2 * i + 1)) := by
  obtain ⟨hr, -⟩ := run.inv
  obtain ⟨c, m, h', hout, hgathered, hm⟩ := buddyCoalesceAll_gathers uafActive hr.inv hr.complete
  have hr' := hr.swept hgathered.step
  have halloc := hgathered.step.allocAt_eq
  have hleaf' := hr'.inv.alloc_leaf
  unfold FullyMerged at hm
  rw [busy_none₂, halloc] at hm
  rw [halloc] at hleaf'
  have hnone : h'.buddy.pairs = 0 := by
    unfold Buddy.pairs
    rw [halloc, pairSet_eq_empty_iff.2 hm, Finset.card_empty]
  have hiff := card_pairs_iff hr.inv.wf hr'.inv.wf hr.inv.alloc_leaf hleaf' hm hgathered.sub
  have hfrees := hgathered.frees
  have hpairs := hgathered.pairs
  have hsplits := hgathered.splits
  rw [← hr.freeCount_eq, ← hr'.freeCount_eq] at hfrees
  unfold Buddy.splits at hsplits
  unfold Buddy.pairs at hpairs hnone
  refine ⟨c, h', hout, ?_⟩
  have hquiet : ∀ l i, Quiet h.buddy.allocAt l i ↔ Clear arena live l i := fun l i => hr.quiet_iff
  simp only [hquiet] at hiff
  rw [← hiff]
  omega

/-- Both halves of an arena are taken and given back without a merge. -/
def halvesTaken : BuddyHeap :=
  afterAlloc (afterAlloc (buddyInit false (fun _ => 0) 262144) 131072) 131072

def halvesDeferred : BuddyHeap :=
  buddyFreeNoCoalesce false (buddyFreeNoCoalesce false halvesTaken 262144 131072) 393216 131072

theorem halvesDeferred_run : ∃ live, BuddyRun false true 262144 halvesDeferred live := by
  have run₀ : BuddyRun false true 262144 (buddyInit false (fun _ => 0) 262144) ∅ :=
    .init (fun _ => 0) (by decide) (by decide) (by decide)
  have run₁ : BuddyRun false true 262144 (afterAlloc (buddyInit false (fun _ => 0) 262144) 131072)
      (insert (262144, 131072) ∅) := run₀.alloc 131072 262144 rfl
  have run₂ : BuddyRun false true 262144 halvesTaken
      (insert (393216, 131072) (insert (262144, 131072) ∅)) := run₁.alloc 131072 393216 rfl
  have run₃ := run₂.freeNoCoalesce 262144 131072 rfl (by simp)
  exact ⟨_, run₃.freeNoCoalesce 393216 131072 rfl (by simp)⟩

/-- What the sweep answers, and by how much the lists get shorter. -/
def sweepCounts (h : BuddyHeap) : Option (ℕ × ℕ) :=
  (buddyCoalesceAll false h).toOption.map fun out => (out.1, freeCount h - freeCount out.2)

theorem sweepCounts_deferred :
    sweepCounts halvesDeferred = some (1, 1) ∧ sweepCounts pageDeferred = some (1, 6) := by
  decide +kernel

theorem sweepCounts_eq {merges fewer : ℕ} (hsum : sweepCounts h = some (merges, fewer)) :
    ∃ h', buddyCoalesceAll false h = .ok (merges, h') ∧ freeCount h - freeCount h' = fewer := by
  unfold sweepCounts at hsum
  cases hout : buddyCoalesceAll false h with
  | error stop =>
    rw [hout] at hsum
    cases hsum
  | ok out =>
    rw [hout] at hsum
    obtain ⟨rfl, hfewer⟩ := Prod.ext_iff.1 (Option.some_inj.1 hsum)
    exact ⟨out.2, rfl, hfewer⟩

/-- Only the arena is split, and its two halves make one merge. -/
theorem sweep_counts_merges_iff_halves : ∃ merges h',
    buddyCoalesceAll false halvesDeferred = .ok (merges, h') ∧ merges = 1 ∧
      merges = freeCount halvesDeferred - freeCount h' := by
  obtain ⟨live, run⟩ := halvesDeferred_run
  obtain ⟨merges, h', hout, hiff⟩ := sweep_counts_merges_iff run
  obtain ⟨h'', hout', -⟩ := sweepCounts_eq sweepCounts_deferred.1
  obtain ⟨rfl, rfl⟩ := Prod.mk.inj (Except.ok.inj (hout.symm.trans hout'))
  refine ⟨1, h', hout, rfl, hiff.2 fun l i hs _ => ?_⟩
  have hlevel : l + 1 ≤ buddyTop := (run.inv.1.inv.wf _ _ hs).1.level_le
  have hnone : ∀ l < buddyTop, halvesDeferred.buddy.splitBitmap l = 0 := by decide
  simp [Buddy.splitAt, hnone l hlevel]

/-- A page given back to an arena that is free otherwise: one climb merges six times. -/
theorem sweep_undercounts : ∃ h live merges h', BuddyRun false true 262144 h live ∧
    buddyCoalesceAll false h = .ok (merges, h') ∧ merges = 1 ∧
      freeCount h - freeCount h' = 6 := by
  obtain ⟨h', hout, hfewer⟩ := sweepCounts_eq sweepCounts_deferred.2
  exact ⟨pageDeferred, _, 1, h', pageDeferred_run, hout, rfl, hfewer⟩

end V8Malloc
