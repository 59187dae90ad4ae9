import V8Malloc.Buddy.Runs

/-!
# The buddy representation along runs

In every state of a run the allocated blocks and the blocks on the seven free
lists tile the arena, each list is a proper doubly linked list of exactly the
free blocks of its level, and every granted block is aligned, tight and apart
from the live ones.
-/
namespace V8Malloc

open ByteMemory BitWord LinkedList BlockTree

variable {uafActive deferred : Bool} {arena : ℕ} {h h' : BuddyHeap} {live : Set (ℕ × ℕ)}
variable {l i k j a p size : ℕ}

/-- `head` starts a list of the given nodes, each pointing back to the one before it. -/
def DoublyLinked (m : Mem) : ℕ → ℕ → List ℕ → Prop
  | _, head, [] => head = 0
  | before, head, x :: xs =>
    head = x ∧ x ≠ 0 ∧ nodePrev m x = before ∧ DoublyLinked m x (nodeNext m x) xs

theorem doublyLinked_of_chain {m : Mem} {head x before : ℕ} {F : Set ℕ} {L : List ℕ}
    (hl : Linked 0 (nodeNext m) (nodePrev m) head F) (hc : Chain 0 (nodeNext m) x L) :
    (x ≠ 0 → x ∈ F ∧ nodePrev m x = before) → DoublyLinked m before x L := by
  induction hc generalizing before with
  | nil => exact fun _ => rfl
  | @cons x xs hne _ ih =>
    intro hx
    obtain ⟨hmem, hprev⟩ := hx hne
    exact ⟨rfl, hne, hprev, ih fun hn => hl.next_mem x hmem hn⟩

theorem RunInv.freeList (hr : RunInv arena h live) (l : ℕ) :
    ∃ L : List ℕ, DoublyLinked h.mem 0 (h.buddy.freeLists l) L ∧ L.Nodup ∧
      ∀ p, p ∈ L ↔ p ∈ freeNodes h.buddy none₂ l := by
  have hlinks := hr.inv.links.linked l
  obtain ⟨L, hc, hall⟩ := hr.complete l
  refine ⟨L, doublyLinked_of_chain hlinks hc fun hne => ?_, hc.nodup, fun p => ?_⟩
  · exact ⟨hlinks.head_mem hne, hlinks.head_prev hne⟩
  · exact ⟨hlinks.chain_subset hlinks.head_mem hc p, hall p⟩

theorem mem_freeNodes_iff (hbase : h.buddy.arenaBase = arena) :
    p ∈ freeNodes h.buddy none₂ l ↔ l ≤ 6 ∧ ∃ i < 2 ^ (6 - l), p = arena + i * 2 ^ (12 + l) ∧
      ¬ h.buddy.allocAt l i ∧ ¬ h.buddy.splitAt l i ∧
      ∀ k, 0 < k → l + k ≤ 6 → h.buddy.splitAt (l + k) (i / 2 ^ k) := by
  subst hbase
  constructor
  · rintro ⟨i, ⟨⟨hn, hs⟩, hb⟩, rfl⟩
    obtain ⟨hle, hlt, hanc⟩ := node_iff.1 hn
    exact ⟨hle, i, hlt, rfl, fun ha => hb (Or.inl ha), hs, hanc⟩
  · rintro ⟨hle, i, hlt, rfl, ha, hs, hanc⟩
    exact ⟨i, ⟨⟨node_iff.2 ⟨hle, hlt, hanc⟩, hs⟩, fun hb => hb.elim ha id⟩, rfl⟩

/-- Every leaf is allocated or free. -/
theorem leaf_alloc_or_free (hleaf : h.buddy.leaf l i) :
    h.buddy.allocAt l i ∨ h.buddy.free none₂ l i := by
  by_cases ha : h.buddy.allocAt l i
  · exact Or.inl ha
  · exact Or.inr ⟨hleaf, fun hb => hb.elim ha id⟩

/-- Blocks that are allocated or on the list of their level. -/
def Covered (h : BuddyHeap) (lists : ℕ → List ℕ) (q : ℕ × ℕ) : Prop :=
  q.1 < buddyLevels ∧
    (q.2 ∈ lists q.1 ∨ ∃ i, q.2 = indexToNode h.buddy i q.1 ∧ h.buddy.allocAt q.1 i)

theorem RunInv.covered_iff (hr : RunInv arena h live) {lists : ℕ → List ℕ}
    (hlists : ∀ l p, p ∈ lists l ↔ p ∈ freeNodes h.buddy none₂ l) (q : ℕ × ℕ) :
    Covered h lists q ↔ ∃ i, h.buddy.leaf q.1 i ∧ q.2 = indexToNode h.buddy i q.1 := by
  constructor
  · rintro ⟨-, hin | ⟨i, hi, ha⟩⟩
    · obtain ⟨i, hf, hi⟩ := (hlists _ _).1 hin
      exact ⟨i, hf.1, hi⟩
    · exact ⟨i, hr.inv.alloc_leaf _ _ ha, hi⟩
  · rintro ⟨i, hleaf, hi⟩
    refine ⟨Nat.lt_succ_of_le hleaf.1.level_le, ?_⟩
    rcases leaf_alloc_or_free hleaf with ha | hf
    · exact Or.inr ⟨i, hi, ha⟩
    · exact Or.inl ((hlists _ _).2 ⟨i, hf, hi⟩)

theorem RunInv.tiling (hr : RunInv arena h live) {lists : ℕ → List ℕ}
    (hlists : ∀ l p, p ∈ lists l ↔ p ∈ freeNodes h.buddy none₂ l)
    (hlo : arena ≤ a) (hhi : a < arena + buddyMaxBlock) :
    ∃! q : ℕ × ℕ, Covered h lists q ∧ q.2 ≤ a ∧ a < q.2 + levelToSize q.1 := by
  have hu : (a - arena) / 2 ^ buddyMinShift < 2 ^ buddyTop := by
    rw [Nat.div_lt_iff_lt_mul (by positivity)]
    have : 2 ^ buddyTop * 2 ^ buddyMinShift = buddyMaxBlock := by decide
    omega
  obtain ⟨k, -, hleaf⟩ := exists_leaf hr.inv.wf hu
  have hin : InBlock h.buddy k ((a - arena) / 2 ^ buddyMinShift / 2 ^ k) a := by
    refine ⟨by rw [hr.base_eq]; exact hlo, ?_⟩
    rw [hr.base_eq, Nat.div_div_eq_div_mul, ← pow_add]
  refine ⟨(k, indexToNode h.buddy _ k), ⟨?_, inBlock_iff.1 hin⟩, ?_⟩
  · exact (hr.covered_iff hlists _).2 ⟨_, hleaf, rfl⟩
  · rintro ⟨k', p'⟩ ⟨hcov, hge, hlt⟩
    obtain ⟨j, hleaf', hp⟩ := (hr.covered_iff hlists _).1 hcov
    simp only at hp hleaf' hge hlt
    subst hp
    obtain ⟨rfl, rfl⟩ := leaf_eq_of_inBlock hleaf' hleaf (inBlock_iff.2 ⟨hge, hlt⟩) hin
    rfl

/-- The block of a request has the least power of two that holds it. -/
theorem blockSize_isLeast (size : ℕ) :
    IsLeast {n | ∃ e, n = 2 ^ e ∧ max size buddyMinBlock ≤ n} (blockSize size) := by
  constructor
  · exact ⟨_, rfl, max_le (le_levelToSize_sizeToLevel size) (nodeSize_le_levelToSize _)⟩
  · rintro n ⟨e, rfl, hle⟩
    obtain ⟨hsize, hmin⟩ := max_le_iff.1 hle
    have he : 12 ≤ e := by
      by_contra hlt
      have : 2 ^ e < 2 ^ 12 := Nat.pow_lt_pow_right (by norm_num) (by omega)
      unfold buddyMinBlock at hmin
      omega
    obtain ⟨c, rfl⟩ := Nat.exists_eq_add_of_le he
    exact Nat.pow_le_pow_right (by norm_num)
      (Nat.add_le_add_left (sizeToLevel_le_of_le (k := c) hsize) _)

theorem levelToSize_dvd_node (harena : ArenaOk h.buddy) (hl : l ≤ buddyTop) (i : ℕ) :
    levelToSize l ∣ indexToNode h.buddy i l := by
  have hmax : levelToSize l ∣ buddyMaxBlock := by
    rw [show buddyMaxBlock = levelToSize buddyTop from rfl]
    exact pow_dvd_pow 2 (Nat.add_le_add_left hl _)
  exact dvd_add (hmax.trans harena.aligned) (Dvd.intro_left i rfl)

/-- A granted block lies in the arena, is aligned to its size and meets no live block. -/
theorem RunInv.granted_block (hr : RunInv arena h live)
    (hg : Granted h (sizeToLevel size) i h') :
    let ptr := indexToNode h.buddy i (sizeToLevel size)
    arena ≤ ptr ∧ ptr + blockSize size ≤ arena + buddyMaxBlock ∧ blockSize size ∣ ptr ∧
      ∀ q ∈ live, Disjoint (Set.Ico ptr (ptr + blockSize size))
        (Set.Ico q.1 (q.1 + blockSize q.2)) := by
  have hnode := indexToNode_congr hg.base_eq
  have hleaf := hg.inv.alloc_leaf _ _ ((hg.alloc_iff _ _).2 (Or.inr ⟨rfl, rfl⟩))
  have hfits := leaf_fits hleaf
  rw [hnode, hg.base_eq, hr.base_eq] at hfits
  refine ⟨?_, hfits, levelToSize_dvd_node hr.inv.arena hleaf.1.level_le i, fun q hq => ?_⟩
  · rw [← hr.base_eq]
    exact Nat.le_add_right _ _
  · obtain ⟨j, hj, ha⟩ := hr.bits.block q hq
    have hleaf' := hg.inv.alloc_leaf _ _ ((hg.alloc_iff _ _).2 (Or.inl ha))
    have hne : ¬(sizeToLevel size = sizeToLevel q.2 ∧ i = j) := by
      rintro ⟨heq, rfl⟩
      exact hg.fresh (heq ▸ ha)
    have hapart := leaf_apart hleaf hleaf' hne
    rw [hnode, hnode, ← hj] at hapart
    refine Set.disjoint_left.2 fun x hx hx' => ?_
    simp only [Set.mem_Ico, blockSize] at hx hx'
    omega

/-- The representation invariant of the buddy allocator. -/
theorem buddy_representation (run : BuddyRun uafActive deferred arena h live) :
    (∃ lists : ℕ → List ℕ,
      (∀ l < buddyLevels, DoublyLinked h.mem 0 (h.buddy.freeLists l) (lists l) ∧
        (lists l).Nodup ∧
        ∀ p, p ∈ lists l ↔ ∃ i < 2 ^ (6 - l), p = arena + i * 2 ^ (12 + l) ∧
          ¬ h.buddy.allocAt l i ∧ ¬ h.buddy.splitAt l i ∧
          ∀ k, 0 < k → l + k ≤ 6 → h.buddy.splitAt (l + k) (i / 2 ^ k)) ∧
      (∀ a, arena ≤ a → a < arena + buddyMaxBlock →
        ∃! q : ℕ × ℕ, Covered h lists q ∧ q.2 ≤ a ∧ a < q.2 + levelToSize q.1) ∧
      (∀ q, Covered h lists q → arena ≤ q.2 ∧ q.2 + levelToSize q.1 ≤ arena + buddyMaxBlock)) ∧
    (∀ size ptr h', buddyAlloc uafActive h size = .ok (ptr, h') → ptr ≠ 0 →
      arena ≤ ptr ∧ ptr + blockSize size ≤ arena + buddyMaxBlock ∧ blockSize size ∣ ptr ∧
      IsLeast {n | ∃ e, n = 2 ^ e ∧ max size buddyMinBlock ≤ n} (blockSize size) ∧
      ∀ q ∈ live, Disjoint (Set.Ico ptr (ptr + blockSize size))
        (Set.Ico q.1 (q.1 + blockSize q.2))) ∧
    (uafActive = false → ∀ size, ∃ out, buddyAlloc uafActive h size = .ok out) ∧
    (∃ out, buddyCoalesceAll uafActive h = .ok out) := by
  have hr := run.inv.1
  refine ⟨?_, fun size ptr h' hout hne => ?_, fun hoff size => ?_, ?_⟩
  · choose lists hdl hnodup hmem using hr.freeList
    refine ⟨lists, fun l hl => ⟨hdl l, hnodup l, fun p => ?_⟩, fun a hlo hhi => ?_, fun q hq => ?_⟩
    · rw [hmem, mem_freeNodes_iff hr.base_eq]
      exact and_iff_right (Nat.le_of_lt_succ hl)
    · exact hr.tiling hmem hlo hhi
    · obtain ⟨i, hleaf, hi⟩ := (hr.covered_iff hmem q).1 hq
      have hfits := leaf_fits hleaf
      rw [hi, ← hr.base_eq]
      exact ⟨Nat.le_add_right _ _, hfits⟩
  · rcases hr.alloc_step hout with ⟨h0, -⟩ | ⟨-, i, rfl, hg⟩
    · exact absurd h0 hne
    · obtain ⟨h₁, h₂, h₃, h₄⟩ := hr.granted_block hg
      exact ⟨h₁, h₂, h₃, blockSize_isLeast size, h₄⟩
  · rcases buddyAlloc_spec uafActive hr.inv size with ⟨-, hok⟩ | ⟨-, -, -, i, h', -, hok | ⟨hon, -⟩⟩
    · exact ⟨_, hok⟩
    · exact ⟨_, hok⟩
    · exact absurd (hoff.symm.trans hon) (by decide)
  · obtain ⟨merges, h', hok, -⟩ := buddyCoalesceAll_step uafActive hr.inv
    exact ⟨_, hok⟩

theorem buddy_representation_firstPage :
    ∃ ptr h', buddyAlloc false (buddyInit false (fun _ => 0) 262144) 5000 = .ok (ptr, h') ∧
      8192 ∣ ptr := by
  refine ⟨262144, _, rfl, ?_⟩
  have run : BuddyRun false true 262144 (buddyInit false (fun _ => 0) 262144) ∅ :=
    .init (fun _ => 0) (by decide) (by decide) (by decide)
  exact ((buddy_representation run).2.1 5000 262144 _ rfl (by decide)).2.2.1

end V8Malloc
