import V8Malloc.Buddy.Model
import V8Malloc.Lib.LinkedList

/-!
# The free lists in memory

The list operations of `v8m_buddy.c` act on link words inside the nodes. Nodes
that are at least 16 bytes apart do not disturb each other, so each operation
is the corresponding operation on the link functions of the memory.
-/
namespace V8Malloc

open ByteMemory LinkedList

/-- Two nodes whose link words do not overlap. -/
def Apart (x y : ℕ) : Prop := x + nodeSize ≤ y ∨ y + nodeSize ≤ x

/-- A set of nodes with usable, pairwise disjoint link words. -/
structure Nodes (N : Set ℕ) : Prop where
  ne_zero : ∀ x ∈ N, x ≠ 0
  lt : ∀ x ∈ N, x < 2 ^ 64
  apart : ∀ x ∈ N, ∀ y ∈ N, x ≠ y → Apart x y

variable {m : Mem} {x y v head node : ℕ} {F N : Set ℕ}

theorem nodeNext_lt (m : Mem) (x : ℕ) : nodeNext m x < 2 ^ 64 := load64_lt _ _

theorem nodePrev_lt (m : Mem) (x : ℕ) : nodePrev m x < 2 ^ 64 := load64_lt _ _

theorem nodeNext_setNext_self (hv : v < 2 ^ 64) : nodeNext (setNext m x v) x = v :=
  load64_store64_self hv

theorem nodePrev_setPrev_self (hv : v < 2 ^ 64) : nodePrev (setPrev m x v) x = v :=
  load64_store64_self hv

theorem nodeNext_setNext_apart (h : Apart x y) : nodeNext (setNext m x v) y = nodeNext m y :=
  load64_store64_of_disjoint (by simp only [Apart, nodeSize] at h; omega)

theorem nodePrev_setPrev_apart (h : Apart x y) : nodePrev (setPrev m x v) y = nodePrev m y :=
  load64_store64_of_disjoint (by simp only [Apart, nodeSize] at h; omega)

theorem nodeNext_setPrev (h : x = y ∨ Apart x y) : nodeNext (setPrev m x v) y = nodeNext m y :=
  load64_store64_of_disjoint (by simp only [Apart, nodeSize] at h; omega)

theorem nodePrev_setNext (h : x = y ∨ Apart x y) : nodePrev (setNext m x v) y = nodePrev m y :=
  load64_store64_of_disjoint (by simp only [Apart, nodeSize] at h; omega)

theorem Nodes.eq_or_apart (hN : Nodes N) (hx : x ∈ N) (hy : y ∈ N) : x = y ∨ Apart x y := by
  by_cases h : x = y
  · exact Or.inl h
  · exact Or.inr (hN.apart x hx y hy h)

theorem nodeNext_setNext (hN : Nodes N) (hx : x ∈ N) (hy : y ∈ N) (hv : v < 2 ^ 64) :
    nodeNext (setNext m x v) y = if y = x then v else nodeNext m y := by
  split_ifs with h
  · subst h
    exact nodeNext_setNext_self hv
  · exact nodeNext_setNext_apart (hN.apart x hx y hy (Ne.symm h))

theorem nodePrev_setPrev (hN : Nodes N) (hx : x ∈ N) (hy : y ∈ N) (hv : v < 2 ^ 64) :
    nodePrev (setPrev m x v) y = if y = x then v else nodePrev m y := by
  split_ifs with h
  · subst h
    exact nodePrev_setPrev_self hv
  · exact nodePrev_setPrev_apart (hN.apart x hx y hy (Ne.symm h))

/-- Bytes outside the given nodes are unchanged. -/
def OnlyNodes (N : Set ℕ) (m m' : Mem) : Prop :=
  ∀ a, (∀ x ∈ N, a < x ∨ x + nodeSize ≤ a) → m' a = m a

theorem OnlyNodes.refl (N : Set ℕ) (m : Mem) : OnlyNodes N m m := fun _ _ => rfl

theorem OnlyNodes.trans {m' m'' : Mem} (h : OnlyNodes N m m') (h' : OnlyNodes N m' m'') :
    OnlyNodes N m m'' := fun a ha => (h' a ha).trans (h a ha)

theorem onlyNodes_setNext (hx : x ∈ N) : OnlyNodes N m (setNext m x v) := fun a ha =>
  sameOutside_store64 m x v a (by have := ha x hx; simp only [nodeSize] at this; omega)

theorem onlyNodes_setPrev (hx : x ∈ N) : OnlyNodes N m (setPrev m x v) := fun a ha =>
  sameOutside_store64 m (x + 8) v a (by have := ha x hx; simp only [nodeSize] at this; omega)

/-! ### Push -/

section Push

variable (hN : Nodes N) (hnode : node ∈ N) (hhead : head ≠ 0 → head ∈ N)
include hN hnode hhead

theorem listPush_next (hy : y ∈ N) (hlt : head < 2 ^ 64) :
    nodeNext (listPush m head node).1 y = if y = node then head else nodeNext m y := by
  have hbase : nodeNext (setNext (setPrev m node 0) node head) y =
      if y = node then head else nodeNext m y := by
    rw [nodeNext_setNext hN hnode hy hlt, nodeNext_setPrev (hN.eq_or_apart hnode hy)]
  simp only [listPush]
  by_cases h : head ≠ 0
  · rw [if_pos h, nodeNext_setPrev (hN.eq_or_apart (hhead h) hy), hbase]
  · rw [if_neg h, hbase]

theorem listPush_prev (hy : y ∈ N) (hne : head ≠ node) :
    nodePrev (listPush m head node).1 y =
      if y = node then 0 else if y = head then node else nodePrev m y := by
  have hbase : nodePrev (setNext (setPrev m node 0) node head) y =
      if y = node then 0 else nodePrev m y := by
    rw [nodePrev_setNext (hN.eq_or_apart hnode hy),
      nodePrev_setPrev hN hnode hy (by norm_num)]
  simp only [listPush]
  by_cases h : head ≠ 0
  · rw [if_pos h, nodePrev_setPrev hN (hhead h) hy (hN.lt node hnode), hbase]
    by_cases h1 : y = node
    · rw [if_pos h1, if_neg (by rintro rfl; exact hne h1), if_pos h1]
    · simp only [h1, if_false]
  · have hy0 : y ≠ head := by
      rintro rfl
      exact hN.ne_zero y hy (not_not.1 h)
    rw [if_neg h, hbase]
    simp only [hy0, if_false]

end Push

theorem onlyNodes_listPush (hnode : node ∈ N) (hhead : head ≠ 0 → head ∈ N) :
    OnlyNodes N m (listPush m head node).1 := by
  have hbase : OnlyNodes N m (setNext (setPrev m node 0) node head) :=
    (onlyNodes_setPrev hnode).trans (onlyNodes_setNext hnode)
  simp only [listPush]
  split_ifs with h
  · exact hbase.trans (onlyNodes_setPrev (hhead h))
  · exact hbase

/-! ### Remove -/

theorem listRemove_head (m : Mem) (head node : ℕ) :
    (listRemove m head node).2 = unlinkHead 0 (nodeNext m) (nodePrev m) head node := by
  unfold listRemove unlinkHead
  dsimp only
  split_ifs <;> simp_all

section Remove

variable (hN : Nodes N) (hF : ∀ z ∈ F, z ∈ N)
variable (h : Linked 0 (nodeNext m) (nodePrev m) head F) (hnode : node ∈ F)
include hN hF h hnode

/-- The memory after the first write, which redirects the predecessor. -/
theorem listRemove_mem : (listRemove m head node).1 =
    (let m₁ := if nodePrev m node ≠ 0 then setNext m (nodePrev m node) (nodeNext m node) else m
     if nodeNext m node ≠ 0 then setPrev m₁ (nodeNext m node) (nodePrev m node) else m₁) := by
  have hnext : nodePrev m node ≠ 0 →
      nodeNext (setNext m (nodePrev m node) (nodeNext m node)) node = nodeNext m node := by
    intro hp
    rw [nodeNext_setNext hN (hF _ (h.prev_mem node hnode hp).1) (hF _ hnode) (nodeNext_lt _ _)]
    split_ifs <;> rfl
  have hprev : nodePrev m node ≠ 0 →
      nodePrev (setNext m (nodePrev m node) (nodeNext m node)) node = nodePrev m node := by
    intro hp
    exact nodePrev_setNext
      (hN.eq_or_apart (hF _ (h.prev_mem node hnode hp).1) (hF _ hnode))
  simp only [listRemove]
  by_cases hp : nodePrev m node ≠ 0
  · simp only [if_pos hp, hnext hp, hprev hp]
  · simp only [if_neg hp]

theorem listRemove_next (hy : y ∈ N) :
    nodeNext (listRemove m head node).1 y =
      if y = nodePrev m node then nodeNext m node else nodeNext m y := by
  rw [listRemove_mem hN hF h hnode]
  have hm₁ : nodeNext (if nodePrev m node ≠ 0 then
      setNext m (nodePrev m node) (nodeNext m node) else m) y =
      if y = nodePrev m node then nodeNext m node else nodeNext m y := by
    split_ifs with hp heq heq
    · rw [nodeNext_setNext hN (hF _ (h.prev_mem node hnode hp).1) hy (nodeNext_lt _ _), if_pos heq]
    · rw [nodeNext_setNext hN (hF _ (h.prev_mem node hnode hp).1) hy (nodeNext_lt _ _), if_neg heq]
    · exact absurd (heq.trans (not_not.1 hp)) (hN.ne_zero y hy)
    · rfl
  dsimp only
  split_ifs at hm₁ ⊢ with hn
  all_goals try rw [nodeNext_setPrev (hN.eq_or_apart (hF _ (h.next_mem node hnode hn).1) hy)]
  all_goals exact hm₁

theorem listRemove_prev (hy : y ∈ N) :
    nodePrev (listRemove m head node).1 y =
      if y = nodeNext m node then nodePrev m node else nodePrev m y := by
  rw [listRemove_mem hN hF h hnode]
  have hm₁ : nodePrev (if nodePrev m node ≠ 0 then
      setNext m (nodePrev m node) (nodeNext m node) else m) y = nodePrev m y := by
    split_ifs with hp
    · exact nodePrev_setNext (hN.eq_or_apart (hF _ (h.prev_mem node hnode hp).1) hy)
    · rfl
  dsimp only
  by_cases hn : nodeNext m node ≠ 0
  · rw [if_pos hn, nodePrev_setPrev hN (hF _ (h.next_mem node hnode hn).1) hy (nodePrev_lt _ _), hm₁]
  · have hy0 : y ≠ nodeNext m node := by
      rw [not_not.1 hn]
      exact hN.ne_zero y hy
    rw [if_neg hn, if_neg hy0, hm₁]

theorem onlyNodes_listRemove : OnlyNodes N m (listRemove m head node).1 := by
  rw [listRemove_mem hN hF h hnode]
  have hm₁ : OnlyNodes N m (if nodePrev m node ≠ 0 then
      setNext m (nodePrev m node) (nodeNext m node) else m) := by
    split_ifs with hp
    · exact onlyNodes_setNext (hF _ (h.prev_mem node hnode hp).1)
    · exact OnlyNodes.refl _ _
  dsimp only
  by_cases hn : nodeNext m node ≠ 0
  · rw [if_pos hn]
    exact hm₁.trans (onlyNodes_setPrev (hF _ (h.next_mem node hnode hn).1))
  · rw [if_neg hn]
    exact hm₁

end Remove

/-- Popping unlinks the head. -/
theorem listPop_eq_listRemove (hne : head ≠ 0) (hfirst : nodePrev m head = 0) :
    listPop m head = (head, listRemove m head head) := by
  simp [listPop, listRemove, hne, hfirst]

/-! ### First words of pages -/

/-- The first word of every 4 KiB page is left alone, or starts with a zero or poison byte. -/
def Plain (m m' : Mem) : Prop :=
  ∀ a, buddyMinBlock ∣ a → (∀ x, a ≤ x → x < a + 8 → m' x = m x) ∨ m' a = 0 ∨
    m' a = debugPoisonByte

theorem Plain.refl (m : Mem) : Plain m m := fun _ _ => Or.inl fun _ _ _ => rfl

theorem Plain.trans {m' m'' : Mem} (h : Plain m m') (h' : Plain m' m'') : Plain m m'' := by
  intro a ha
  rcases h' a ha with hsame | hbyte
  · rcases h a ha with hsame' | hbyte
    · exact Or.inl fun x hlo hhi => (hsame x hlo hhi).trans (hsame' x hlo hhi)
    · right
      rwa [hsame a le_rfl (by omega)]
  · exact Or.inr hbyte

/-- Links are page addresses, so their low byte is zero. -/
theorem plain_setNext (hx : buddyMinBlock ∣ x) (hv : buddyMinBlock ∣ v) :
    Plain m (setNext m x v) := by
  intro a ha
  by_cases hax : a = x
  · subst hax
    right
    left
    obtain ⟨c, rfl⟩ := hv
    simp only [setNext, store64, store, le_refl, true_and, Nat.sub_self, pow_zero, Nat.div_one]
    rw [if_pos (by omega)]
    exact UInt8.toNat_inj.1 (by simp [buddyMinBlock])
  · left
    intro y hlo hhi
    refine sameOutside_store64 m x v y ?_
    unfold buddyMinBlock at hx ha
    omega

theorem plain_setPrev (hx : buddyMinBlock ∣ x) : Plain m (setPrev m x v) := by
  intro a ha
  left
  intro y hlo hhi
  refine sameOutside_store64 m (x + 8) v y ?_
  unfold buddyMinBlock at hx ha
  omega

theorem plain_listPush (hnode : buddyMinBlock ∣ node) (hhead : buddyMinBlock ∣ head) :
    Plain m (listPush m head node).1 := by
  have hbase : Plain m (setNext (setPrev m node 0) node head) :=
    (plain_setPrev hnode).trans (plain_setNext hnode hhead)
  simp only [listPush]
  split_ifs
  · exact hbase.trans (plain_setPrev hhead)
  · exact hbase

theorem plain_listRemove (hN : Nodes N) (hF : ∀ z ∈ F, z ∈ N)
    (h : Linked 0 (nodeNext m) (nodePrev m) head F) (hnode : node ∈ F)
    (hpage : ∀ z ∈ F, buddyMinBlock ∣ z) : Plain m (listRemove m head node).1 := by
  have hnext : buddyMinBlock ∣ nodeNext m node := by
    by_cases hn : nodeNext m node = 0
    · rw [hn]
      exact dvd_zero _
    · exact hpage _ (h.next_mem node hnode hn).1
  rw [listRemove_mem hN hF h hnode]
  have hm₁ : Plain m (if nodePrev m node ≠ 0 then
      setNext m (nodePrev m node) (nodeNext m node) else m) := by
    split_ifs with hp
    · exact plain_setNext (hpage _ (h.prev_mem node hnode hp).1) hnext
    · exact Plain.refl _
  dsimp only
  by_cases hn : nodeNext m node ≠ 0
  · rw [if_pos hn]
    exact hm₁.trans (plain_setPrev hnext)
  · rw [if_neg hn]
    exact hm₁

/-- Whole pages, or all but the links of the first one, are filled. -/
theorem plain_fill {n off : ℕ} {byte : UInt8} (hbyte : byte = 0 ∨ byte = debugPoisonByte)
    (hx : buddyMinBlock ∣ x) (hn : buddyMinBlock ∣ n) (hoff : off = 0 ∨ off = nodeSize) :
    Plain m (fill m (x + off) (n - off) byte) := by
  intro a ha
  unfold buddyMinBlock nodeSize at *
  by_cases hin : x + off ≤ a ∧ a < x + off + (n - off)
  · right
    unfold fill
    rwa [if_pos hin]
  · left
    intro y hlo hhi
    exact sameOutside_fill m _ _ byte y (by omega)

end V8Malloc
