import Mathlib.Tactic
import Mathlib.Order.CompletePartialOrder

/-!
# Trees of aligned blocks

A block is a level and an index; block `(l, i)` covers the units
`[i * 2 ^ l, (i + 1) * 2 ^ l)`. The tree grows from the root `(top, 0)` by
splitting blocks into two halves. Its leaves tile the root.
-/
namespace BlockTree

variable {top : ℕ} {split split' : ℕ → ℕ → Prop} {l i k j p u : ℕ}

/-- The blocks of the tree: the root and both halves of every split block. -/
inductive Node (top : ℕ) (split : ℕ → ℕ → Prop) : ℕ → ℕ → Prop
  | root : Node top split top 0
  | half {l i : ℕ} : Node top split (l + 1) (i / 2) → split (l + 1) (i / 2) → Node top split l i

def Leaf (top : ℕ) (split : ℕ → ℕ → Prop) (l i : ℕ) : Prop := Node top split l i ∧ ¬ split l i

/-- Only blocks of the tree are marked split, and never a unit. -/
def WellFormed (top : ℕ) (split : ℕ → ℕ → Prop) : Prop :=
  ∀ l i, split l i → Node top split l i ∧ 0 < l

theorem Node.level_le (h : Node top split l i) : l ≤ top := by
  induction h with
  | root => exact le_rfl
  | half _ _ ih => omega

theorem Node.index_lt (h : Node top split l i) : i < 2 ^ (top - l) := by
  induction h with
  | root => simp
  | @half l i hp _ ih =>
    have hl := hp.level_le
    have hpow : 2 ^ (top - l) = 2 * 2 ^ (top - (l + 1)) := by
      rw [← pow_succ']
      congr 1
      omega
    omega

theorem node_top : Node top split top i ↔ i = 0 := by
  constructor
  · intro h
    simpa using h.index_lt
  · rintro rfl
    exact .root

theorem node_half (hl : l < top) :
    Node top split l i ↔ Node top split (l + 1) (i / 2) ∧ split (l + 1) (i / 2) := by
  constructor
  · intro h
    cases h with
    | root => omega
    | half hp hs => exact ⟨hp, hs⟩
  · exact fun h => .half h.1 h.2

theorem Node.ancestor (h : Node top split l i) (hk : l + k ≤ top) :
    Node top split (l + k) (i / 2 ^ k) := by
  induction k with
  | zero => simpa using h
  | succ k ih =>
    have hn := ((node_half (by omega)).1 (ih (by omega))).1
    rwa [Nat.div_div_eq_div_mul, ← pow_succ] at hn

theorem Node.ancestor_split (h : Node top split l i) (hk : l + (k + 1) ≤ top) :
    split (l + (k + 1)) (i / 2 ^ (k + 1)) := by
  have hs := ((node_half (by omega)).1 (h.ancestor (k := k) (by omega))).2
  rwa [Nat.div_div_eq_div_mul, ← pow_succ] at hs

/-- A block belongs to the tree when all its ancestors are split. -/
theorem node_iff : Node top split l i ↔ l ≤ top ∧ i < 2 ^ (top - l) ∧
    ∀ k, 0 < k → l + k ≤ top → split (l + k) (i / 2 ^ k) := by
  constructor
  · intro h
    refine ⟨h.level_le, h.index_lt, fun k hk hle => ?_⟩
    obtain ⟨k, rfl⟩ := Nat.exists_eq_succ_of_ne_zero hk.ne'
    exact h.ancestor_split hle
  · rintro ⟨hl, hi, hs⟩
    obtain ⟨d, rfl⟩ := Nat.exists_eq_add_of_le hl
    -- climb from the block to the root, one level at a time
    have hclimb : ∀ e ≤ d, Node (l + d) split (l + (d - e)) (i / 2 ^ (d - e)) := by
      intro e
      induction e with
      | zero =>
        intro _
        rw [Nat.sub_zero, node_top]
        exact Nat.div_eq_of_lt (by simpa using hi)
      | succ e ih =>
        intro he
        have hd : d - e = d - (e + 1) + 1 := by omega
        have hup := ih (by omega)
        have hsp := hs (d - e) (by omega) (by omega)
        rw [hd, pow_succ, ← Nat.div_div_eq_div_mul] at hup hsp
        exact .half hup hsp
    simpa using hclimb d le_rfl

/-! ### Leaves tile the root -/

/-- Below every block of the tree some leaf contains a given unit of the block. -/
theorem exists_leaf_below (wf : WellFormed top split) (l : ℕ) :
    Node top split l (u / 2 ^ l) → ∃ k ≤ l, Leaf top split k (u / 2 ^ k) := by
  induction l with
  | zero => exact fun h => ⟨0, le_rfl, h, fun hs => absurd (wf _ _ hs).2 (lt_irrefl 0)⟩
  | succ l ih =>
    intro h
    by_cases hs : split (l + 1) (u / 2 ^ (l + 1))
    · have hhalf : u / 2 ^ l / 2 = u / 2 ^ (l + 1) := by
        rw [Nat.div_div_eq_div_mul, ← pow_succ]
      obtain ⟨k, hk, hleaf⟩ := ih (.half (hhalf ▸ h) (hhalf ▸ hs))
      exact ⟨k, hk.trans (Nat.le_succ l), hleaf⟩
    · exact ⟨l + 1, le_rfl, h, hs⟩

theorem exists_leaf (wf : WellFormed top split) (hu : u < 2 ^ top) :
    ∃ k ≤ top, Leaf top split k (u / 2 ^ k) :=
  exists_leaf_below wf top (node_top.2 (Nat.div_eq_of_lt hu))

/-- A block above another one in the tree is split. -/
theorem split_of_lt (h : Node top split l (u / 2 ^ l)) (hlk : l < k) (hk : k ≤ top) :
    split k (u / 2 ^ k) := by
  obtain ⟨d, rfl⟩ := Nat.exists_eq_add_of_lt hlk
  have hs := h.ancestor_split (k := d) (by omega)
  rwa [Nat.div_div_eq_div_mul, ← pow_add] at hs

theorem leaf_level_unique (h : Leaf top split l (u / 2 ^ l)) (h' : Leaf top split k (u / 2 ^ k)) :
    l = k := by
  rcases Nat.lt_trichotomy l k with hlt | heq | hgt
  · exact absurd (split_of_lt h.1 hlt h'.1.level_le) h'.2
  · exact heq
  · exact absurd (split_of_lt h'.1 hgt h.1.level_le) h.2

/-- Distinct leaves have no unit in common. -/
theorem leaf_unique (h : Leaf top split l i) (h' : Leaf top split k j) (hi : u / 2 ^ l = i)
    (hj : u / 2 ^ k = j) : l = k ∧ i = j := by
  subst hi hj
  obtain rfl := leaf_level_unique h h'
  exact ⟨rfl, rfl⟩

/-! ### Splitting a leaf and merging two halves -/

theorem Node.mono (hsub : ∀ k j, split k j → split' k j) (h : Node top split l i) :
    Node top split' l i := by
  induction h with
  | root => exact .root
  | half _ hs ih => exact .half ih (hsub _ _ hs)

section Split

variable (hs : ∀ k j, split' k j ↔ split k j ∨ (k = l + 1 ∧ j = p))
include hs

theorem node_split (wf : WellFormed top split) (hleaf : Leaf top split (l + 1) p) :
    Node top split' k j ↔ Node top split k j ∨ (k = l ∧ j / 2 = p) := by
  constructor
  · intro h
    induction h with
    | root => exact Or.inl .root
    | @half k j _ hsp ih =>
      rcases (hs _ _).1 hsp with hold | ⟨hk, hj⟩
      · exact Or.inl (.half (wf _ _ hold).1 hold)
      · exact Or.inr ⟨by omega, hj⟩
  · have hmono := @Node.mono top split split' k j fun _ _ h => (hs _ _).2 (Or.inl h)
    rintro (h | ⟨rfl, rfl⟩)
    · exact hmono h
    · exact .half (hleaf.1.mono fun _ _ h => (hs _ _).2 (Or.inl h))
        ((hs _ _).2 (Or.inr ⟨rfl, rfl⟩))

/-- The halves of a leaf are not in the tree before the split. -/
theorem not_node_half (hleaf : Leaf top split (l + 1) p) (hj : j / 2 = p) :
    ¬ Node top split l j := by
  intro h
  have hlt := hleaf.1.level_le
  subst hj
  exact hleaf.2 ((node_half (by omega)).1 h).2

theorem leaf_split (wf : WellFormed top split) (hleaf : Leaf top split (l + 1) p) :
    Leaf top split' k j ↔
      Leaf top split k j ∧ ¬(k = l + 1 ∧ j = p) ∨ (k = l ∧ j / 2 = p) := by
  unfold Leaf
  rw [node_split hs wf hleaf, hs]
  constructor
  · rintro ⟨hn | hn, hno⟩
    · exact Or.inl ⟨⟨hn, fun h => hno (Or.inl h)⟩, fun h => hno (Or.inr h)⟩
    · exact Or.inr hn
  · rintro (⟨⟨hn, hns⟩, hne⟩ | ⟨rfl, hj⟩)
    · exact ⟨Or.inl hn, fun h => h.elim hns hne⟩
    · refine ⟨Or.inr ⟨rfl, hj⟩, ?_⟩
      rintro (hsp | ⟨hk, -⟩)
      · exact not_node_half hs hleaf hj (wf _ _ hsp).1
      · omega

theorem wellFormed_split (wf : WellFormed top split) (hleaf : Leaf top split (l + 1) p) :
    WellFormed top split' := by
  intro k j h
  rw [node_split hs wf hleaf]
  rcases (hs k j).1 h with hold | ⟨rfl, rfl⟩
  · exact ⟨Or.inl (wf k j hold).1, (wf k j hold).2⟩
  · exact ⟨Or.inl hleaf.1, Nat.succ_pos l⟩

end Split

section Merge

variable (hs : ∀ k j, split' k j ↔ split k j ∧ ¬(k = l + 1 ∧ j = p))
include hs

theorem node_merge (hleaves : ∀ j, j / 2 = p → Leaf top split l j) :
    Node top split' k j ↔ Node top split k j ∧ ¬(k = l ∧ j / 2 = p) := by
  constructor
  · intro h
    refine ⟨h.mono fun _ _ h => ((hs _ _).1 h).1, ?_⟩
    rintro ⟨rfl, rfl⟩
    have hlt := (hleaves j rfl).1
    cases hlt with
    | root =>
      -- the root is nobody's half
      have htwin := (hleaves 1 rfl).1.index_lt
      simp at htwin
    | half hp _ => exact ((hs _ _).1 ((node_half hp.level_le).1 h).2).2 ⟨rfl, rfl⟩
  · rintro ⟨h, hne⟩
    induction h with
    | root => exact .root
    | @half k j hp hsp ih =>
      have hkeep : ¬(k + 1 = l + 1 ∧ j / 2 = p) := fun h => hne ⟨by omega, h.2⟩
      refine .half (ih ?_) ((hs _ _).2 ⟨hsp, hkeep⟩)
      rintro ⟨rfl, hj⟩
      exact (hleaves _ hj).2 hsp

theorem leaf_merge (hleaves : ∀ j, j / 2 = p → Leaf top split l j)
    (hparent : Node top split (l + 1) p) :
    Leaf top split' k j ↔
      Leaf top split k j ∧ ¬(k = l ∧ j / 2 = p) ∨ (k = l + 1 ∧ j = p) := by
  unfold Leaf
  rw [node_merge hs hleaves, hs]
  constructor
  · rintro ⟨⟨hn, hne⟩, hno⟩
    by_cases hpar : k = l + 1 ∧ j = p
    · exact Or.inr hpar
    · exact Or.inl ⟨⟨hn, fun h => hno ⟨h, hpar⟩⟩, hne⟩
  · rintro (⟨⟨hn, hns⟩, hne⟩ | ⟨rfl, rfl⟩)
    · exact ⟨⟨hn, hne⟩, fun h => hns h.1⟩
    · exact ⟨⟨hparent, fun h => by omega⟩, fun h => h.2 ⟨rfl, rfl⟩⟩

theorem wellFormed_merge (wf : WellFormed top split)
    (hleaves : ∀ j, j / 2 = p → Leaf top split l j) : WellFormed top split' := by
  intro k j h
  obtain ⟨hold, -⟩ := (hs k j).1 h
  rw [node_merge hs hleaves]
  refine ⟨⟨(wf k j hold).1, ?_⟩, (wf k j hold).2⟩
  rintro ⟨rfl, hj⟩
  exact (hleaves j hj).2 hold

end Merge

/-! ### Fully merged trees -/

/-- Two blocks share a unit. -/
def Meets (l i k j : ℕ) : Prop := ∃ u, u / 2 ^ l = i ∧ u / 2 ^ k = j

/-- No block of `live` meets the block. -/
def Quiet (live : ℕ → ℕ → Prop) (l i : ℕ) : Prop := ∀ k j, live k j → ¬ Meets l i k j

variable {live : ℕ → ℕ → Prop}

def Free (top : ℕ) (split live : ℕ → ℕ → Prop) (l i : ℕ) : Prop :=
  Leaf top split l i ∧ ¬ live l i

/-- No two halves of one block are both free. -/
def Merged (top : ℕ) (split live : ℕ → ℕ → Prop) : Prop :=
  ∀ l p, ¬(Free top split live l (2 * p) ∧ Free top split live l (2 * p + 1))

theorem meets_self (l i : ℕ) : Meets l i l i :=
  ⟨i * 2 ^ l, Nat.mul_div_cancel _ (by positivity), Nat.mul_div_cancel _ (by positivity)⟩

theorem quiet_half (h : Quiet live (l + 1) (j / 2)) : Quiet live l j := by
  rintro k i hlive ⟨u, hu, hu'⟩
  refine h k i hlive ⟨u, ?_, hu'⟩
  rw [pow_succ, ← Nat.div_div_eq_div_mul, hu]

/-- In a fully merged tree a block that meets no live block is not split. -/
theorem leaf_of_quiet (wf : WellFormed top split) (hm : Merged top split live) (l : ℕ) :
    ∀ i, Node top split l i → Quiet live l i → Leaf top split l i := by
  induction l with
  | zero => exact fun i hn _ => ⟨hn, fun hs => absurd (wf _ _ hs).2 (lt_irrefl 0)⟩
  | succ l ih =>
    intro i hn hq
    refine ⟨hn, fun hs => hm l i ?_⟩
    have hfree : ∀ j, j / 2 = i → Free top split live l j := by
      rintro j rfl
      have hquiet := quiet_half hq
      exact ⟨ih j (.half hn hs) hquiet, fun hlive => hquiet l j hlive (meets_self l j)⟩
    exact ⟨hfree _ (by omega), hfree _ (by omega)⟩

/-- Free blocks depend on the live blocks alone: they are the maximal quiet blocks. -/
theorem free_iff (wf : WellFormed top split) (hlive : ∀ k j, live k j → Leaf top split k j)
    (hm : Merged top split live) :
    Free top split live l i ↔ l ≤ top ∧ i < 2 ^ (top - l) ∧ Quiet live l i ∧
      (l = top ∨ ¬ Quiet live (l + 1) (i / 2)) := by
  constructor
  · rintro ⟨hleaf, hnot⟩
    refine ⟨hleaf.1.level_le, hleaf.1.index_lt, ?_, ?_⟩
    · rintro k j hl ⟨u, hu, hu'⟩
      obtain ⟨rfl, rfl⟩ := leaf_unique hleaf (hlive k j hl) hu hu'
      exact hnot hl
    · rcases hleaf.1.level_le.eq_or_lt with heq | hlt
      · exact Or.inl heq
      · obtain ⟨hp, hs⟩ := (node_half hlt).1 hleaf.1
        exact Or.inr fun hq => (leaf_of_quiet wf hm _ _ hp hq).2 hs
  · rintro ⟨hl, hi, hq, hmax⟩
    have hui : i * 2 ^ l / 2 ^ l = i := Nat.mul_div_cancel _ (by positivity)
    have hu : i * 2 ^ l < 2 ^ top := by
      calc i * 2 ^ l < 2 ^ (top - l) * 2 ^ l := by gcongr
        _ = 2 ^ top := by rw [← pow_add, Nat.sub_add_cancel hl]
    generalize i * 2 ^ l = u at hui hu
    subst hui
    obtain ⟨k, hk, hleaf⟩ := exists_leaf wf hu
    rcases Nat.lt_trichotomy k l with hlt | rfl | hgt
    · obtain ⟨d, rfl⟩ := Nat.exists_eq_add_of_lt hlt
      have hn := hleaf.1.ancestor (k := d + 1) (by omega)
      rw [Nat.div_div_eq_div_mul, ← pow_add, ← Nat.add_assoc] at hn
      exact absurd (split_of_lt hleaf.1 hlt hl) (leaf_of_quiet wf hm _ _ hn hq).2
    · exact ⟨hleaf, fun h => hq _ _ h (meets_self _ _)⟩
    · exfalso
      rcases hmax with rfl | hmax
      · omega
      unfold Quiet at hmax
      push Not at hmax
      obtain ⟨k', j', hl', u', hu', hj'⟩ := hmax
      -- the live block meets the parent, which lies inside the leaf, so it is the leaf
      have hin : u' / 2 ^ k = u / 2 ^ k := by
        obtain ⟨d, rfl⟩ := Nat.exists_eq_add_of_lt hgt
        rw [Nat.div_div_eq_div_mul, ← pow_succ] at hu'
        rw [show l + d + 1 = l + 1 + d by omega, pow_add, ← Nat.div_div_eq_div_mul, hu',
          ← Nat.div_div_eq_div_mul]
      obtain ⟨rfl, rfl⟩ := leaf_unique hleaf (hlive k' j' hl') hin hj'
      exact hq _ _ hl' ⟨u, rfl, rfl⟩

end BlockTree
