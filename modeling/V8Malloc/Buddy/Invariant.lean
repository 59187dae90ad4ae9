import V8Malloc.Buddy.Lists
import V8Malloc.Lib.BlockTree

/-!
# The buddy invariant

The split bits describe a tree of blocks whose leaves tile the arena. A leaf is
allocated, or it is a node of its level's free list, or it is in transit: in
the middle of an operation it belongs to neither side. `BuddyInv` allows a set
of blocks in transit; between operations the set is empty.
-/
namespace V8Malloc

open ByteMemory BitWord LinkedList BlockTree

abbrev buddyTop : ℕ := 6

def Buddy.allocAt (b : Buddy) (l i : ℕ) : Prop := (b.allocBitmap l).getLsbD i = true
def Buddy.splitAt (b : Buddy) (l i : ℕ) : Prop := (b.splitBitmap l).getLsbD i = true

def Buddy.leaf (b : Buddy) (l i : ℕ) : Prop := Leaf buddyTop b.splitAt l i

/-- Allocated blocks and blocks in transit. -/
def Buddy.busy (b : Buddy) (transit : ℕ → ℕ → Prop) (l i : ℕ) : Prop :=
  b.allocAt l i ∨ transit l i

def Buddy.free (b : Buddy) (transit : ℕ → ℕ → Prop) (l i : ℕ) : Prop :=
  Free buddyTop b.splitAt (b.busy transit) l i

def freeNodes (b : Buddy) (transit : ℕ → ℕ → Prop) (l : ℕ) : Set ℕ :=
  {p | ∃ i, b.free transit l i ∧ p = indexToNode b i l}

/-- Nodes of leaves that are not allocated. -/
def idleNodes (b : Buddy) : Set ℕ :=
  {p | ∃ l i, b.leaf l i ∧ ¬ b.allocAt l i ∧ p = indexToNode b i l}

def InBlock (b : Buddy) (l i a : ℕ) : Prop :=
  b.arenaBase ≤ a ∧ (a - b.arenaBase) / 2 ^ (buddyMinShift + l) = i

def InArena (b : Buddy) (a : ℕ) : Prop :=
  b.arenaBase ≤ a ∧ a < b.arenaBase + buddyMaxBlock

/-- Bytes that belong to the program: those of allocated blocks and those outside the arena. -/
def Kept (b : Buddy) (a : ℕ) : Prop :=
  ¬ InArena b a ∨ ∃ l i, b.allocAt l i ∧ InBlock b l i a

structure ArenaOk (b : Buddy) : Prop where
  pos : 0 < b.arenaBase
  aligned : buddyMaxBlock ∣ b.arenaBase
  fits : b.arenaBase + buddyMaxBlock ≤ 2 ^ 64
  size : b.arenaSize = buddyMaxBlock

structure BuddyInv (h : BuddyHeap) (transit : ℕ → ℕ → Prop) : Prop where
  arena : ArenaOk h.buddy
  wf : WellFormed buddyTop h.buddy.splitAt
  busy_leaf : ∀ l i, h.buddy.busy transit l i → h.buddy.leaf l i
  transit_idle : ∀ l i, transit l i → ¬ h.buddy.allocAt l i
  links : Family 0 (nodeNext h.mem) (nodePrev h.mem) h.buddy.freeLists (freeNodes h.buddy transit)

/-- Every free block is reached from the head of its list. -/
def ListsComplete (h : BuddyHeap) (transit : ℕ → ℕ → Prop) : Prop :=
  FamilyComplete 0 (nodeNext h.mem) h.buddy.freeLists (freeNodes h.buddy transit)

/-- No two halves of one block are both free. -/
def FullyMerged (b : Buddy) (transit : ℕ → ℕ → Prop) : Prop :=
  Merged buddyTop b.splitAt (b.busy transit)

def none₂ : ℕ → ℕ → Prop := fun _ _ => False
def only (l i : ℕ) : ℕ → ℕ → Prop := fun k j => k = l ∧ j = i

variable {b : Buddy} {h h' h'' : BuddyHeap} {transit transit' transit'' : ℕ → ℕ → Prop}
variable {l i k j a : ℕ}

theorem testBit_allocBitmap : testBit (b.allocBitmap l) i = true ↔ b.allocAt l i := by
  rw [testBit_eq]
  rfl

theorem testBit_splitBitmap : testBit (b.splitBitmap l) i = true ↔ b.splitAt l i := by
  rw [testBit_eq]
  rfl

/-! ### Blocks and addresses -/

theorem levelToSize_pos (l : ℕ) : 0 < levelToSize l := by
  unfold levelToSize
  positivity

theorem nodeSize_le_levelToSize (l : ℕ) : 4096 ≤ levelToSize l := by
  unfold levelToSize buddyMinShift
  rw [pow_add]
  have : 0 < 2 ^ l := by positivity
  omega

theorem inBlock_iff : InBlock b l i a ↔
    indexToNode b i l ≤ a ∧ a < indexToNode b i l + levelToSize l := by
  unfold InBlock indexToNode
  rw [show 2 ^ (buddyMinShift + l) = levelToSize l from rfl]
  have hpos := levelToSize_pos l
  constructor
  · rintro ⟨hb, rfl⟩
    have h1 := Nat.div_mul_le_self (a - b.arenaBase) (levelToSize l)
    have h2 := Nat.lt_div_mul_add (a := a - b.arenaBase) hpos
    omega
  · rintro ⟨h1, h2⟩
    refine ⟨by have := Nat.zero_le (i * levelToSize l); omega, ?_⟩
    refine Nat.div_eq_of_lt_le ?_ ?_
    · omega
    · rw [Nat.add_mul]
      omega

theorem inBlock_node (b : Buddy) (l i : ℕ) : InBlock b l i (indexToNode b i l) :=
  inBlock_iff.2 ⟨le_rfl, Nat.lt_add_of_pos_right (levelToSize_pos l)⟩

/-- Distinct leaves have no byte in common. -/
theorem leaf_eq_of_inBlock (hl : b.leaf l i) (hk : b.leaf k j) (h₁ : InBlock b l i a)
    (h₂ : InBlock b k j a) : l = k ∧ i = j := by
  refine leaf_unique (u := (a - b.arenaBase) / 2 ^ buddyMinShift) hl hk ?_ ?_
  · rw [Nat.div_div_eq_div_mul, ← pow_add]
    exact h₁.2
  · rw [Nat.div_div_eq_div_mul, ← pow_add]
    exact h₂.2

theorem node_inj (hl : b.leaf l i) (hk : b.leaf k j)
    (heq : indexToNode b i l = indexToNode b j k) : l = k ∧ i = j :=
  leaf_eq_of_inBlock hl hk (inBlock_node b l i) (heq ▸ inBlock_node b k j)

/-- Distinct leaves lie one after the other. -/
theorem leaf_apart (hl : b.leaf l i) (hk : b.leaf k j) (hne : ¬(l = k ∧ i = j)) :
    indexToNode b i l + levelToSize l ≤ indexToNode b j k ∨
      indexToNode b j k + levelToSize k ≤ indexToNode b i l := by
  by_contra hov
  rcases Nat.le_total (indexToNode b i l) (indexToNode b j k) with hle | hle
  · exact hne (leaf_eq_of_inBlock hl hk (inBlock_iff.2 ⟨hle, by omega⟩) (inBlock_node b k j))
  · exact hne (leaf_eq_of_inBlock hl hk (inBlock_node b l i) (inBlock_iff.2 ⟨hle, by omega⟩))

theorem leaf_fits (hl : b.leaf l i) :
    indexToNode b i l + levelToSize l ≤ b.arenaBase + buddyMaxBlock := by
  have hle := hl.1.level_le
  have hlt := hl.1.index_lt
  have hsize : 2 ^ (buddyTop - l) * levelToSize l = buddyMaxBlock := by
    unfold levelToSize
    rw [← pow_add, show buddyTop - l + (buddyMinShift + l) = 18 by
      unfold buddyMinShift buddyTop at *; omega]
    rfl
  have hmul : (i + 1) * levelToSize l ≤ buddyMaxBlock := by
    rw [← hsize]
    exact Nat.mul_le_mul_right _ hlt
  unfold indexToNode
  rw [Nat.add_mul] at hmul
  omega

theorem inArena_of_inBlock (hl : b.leaf l i) (ha : InBlock b l i a) : InArena b a := by
  have hfit := leaf_fits hl
  have := inBlock_iff.1 ha
  exact ⟨ha.1, by omega⟩

theorem indexToNode_offset (b : Buddy) (i l : ℕ) :
    ∃ c, indexToNode b i l = b.arenaBase + 4096 * c := by
  refine ⟨i * 2 ^ l, ?_⟩
  unfold indexToNode levelToSize buddyMinShift
  rw [pow_add]
  ring

theorem indexToNode_half (b : Buddy) (idx l : ℕ) :
    indexToNode b (idx * 2) l = indexToNode b idx (l + 1) := by
  unfold indexToNode levelToSize
  rw [← Nat.add_assoc, pow_succ]
  ring

theorem addrToIndex_indexToNode (b : Buddy) (i l : ℕ) : addrToIndex b (indexToNode b i l) l = i := by
  unfold addrToIndex
  rw [Nat.shiftRight_eq_div_pow]
  exact (inBlock_node b l i).2

theorem nodes_idle (harena : ArenaOk b) : Nodes (idleNodes b) where
  ne_zero := by
    rintro x ⟨l, i, -, -, rfl⟩
    have := harena.pos
    unfold indexToNode
    omega
  lt := by
    rintro x ⟨l, i, hleaf, -, rfl⟩
    have h1 := leaf_fits hleaf
    have h2 := levelToSize_pos l
    have h3 := harena.fits
    omega
  apart := by
    rintro x ⟨l, i, -, -, rfl⟩ y ⟨k, j, -, -, rfl⟩ hne
    obtain ⟨c, hc⟩ := indexToNode_offset b i l
    obtain ⟨d, hd⟩ := indexToNode_offset b j k
    simp only [Apart, nodeSize, hc, hd] at *
    omega

theorem idleNodes_page (harena : ArenaOk b) {p : ℕ} (hp : p ∈ idleNodes b) : buddyMinBlock ∣ p := by
  obtain ⟨l, i, -, -, rfl⟩ := hp
  obtain ⟨c, hc⟩ := indexToNode_offset b i l
  rw [hc]
  exact (Nat.dvd_add_iff_right (dvd_trans (by decide) harena.aligned)).1 ⟨c, rfl⟩

theorem freeNodes_subset_idle {p : ℕ} (hp : p ∈ freeNodes b transit l) : p ∈ idleNodes b := by
  obtain ⟨i, ⟨hleaf, hbusy⟩, rfl⟩ := hp
  exact ⟨l, i, hleaf, fun ha => hbusy (Or.inl ha), rfl⟩

theorem mem_freeNodes (hl : b.leaf l i) :
    indexToNode b i l ∈ freeNodes b transit k ↔ k = l ∧ b.free transit l i := by
  constructor
  · rintro ⟨j, hfree, heq⟩
    obtain ⟨rfl, rfl⟩ := node_inj hl hfree.1 heq
    exact ⟨rfl, hfree⟩
  · rintro ⟨rfl, hfree⟩
    exact ⟨i, hfree, rfl⟩

/-- A write to nodes of idle leaves leaves the program's bytes alone. -/
theorem onlyNodes_kept {m m' : Mem} (halloc : ∀ l i, b.allocAt l i → b.leaf l i)
    (hm : OnlyNodes (idleNodes b) m m') (ha : Kept b a) : m' a = m a := by
  refine hm a fun x hx => ?_
  obtain ⟨l, i, hleaf, hidle, rfl⟩ := hx
  by_contra hin
  have hsize := nodeSize_le_levelToSize l
  have hblock : InBlock b l i a := inBlock_iff.2 (by
    simp only [nodeSize] at hin
    omega)
  rcases ha with hout | ⟨k, j, hk, hj⟩
  · exact hout (inArena_of_inBlock hleaf hblock)
  · obtain ⟨rfl, rfl⟩ := leaf_eq_of_inBlock hleaf (halloc k j hk) hblock hj
    exact hidle hk

end V8Malloc
