import V8Malloc.Buddy.Alloc
import V8Malloc.Buddy.Free

/-!
# Runs of the buddy allocator

Runs start from `v8m_buddy_init` and interleave the operations with writes of
the program into its live blocks. The live set holds each block's address and
the size it was requested with. With deferred coalescing allowed, a run keeps
the tiling and the lists; without it, the tree also stays fully merged.
-/
namespace V8Malloc

open ByteMemory BitWord LinkedList BlockTree

variable {uafActive deferred : Bool} {arena : ℕ} {h h' : BuddyHeap} {live : Set (ℕ × ℕ)}
variable {l i k j a p size : ℕ}

/-- The size of the block that serves a request. -/
def blockSize (size : ℕ) : ℕ := levelToSize (sizeToLevel size)

inductive BuddyRun (uafActive deferred : Bool) (arena : ℕ) : BuddyHeap → Set (ℕ × ℕ) → Prop
  | init (m : Mem) : 0 < arena → buddyMaxBlock ∣ arena → arena + buddyMaxBlock ≤ 2 ^ 64 →
      BuddyRun uafActive deferred arena (buddyInit uafActive m arena) ∅
  | alloc {h h' : BuddyHeap} {live : Set (ℕ × ℕ)} (size ptr : ℕ) :
      BuddyRun uafActive deferred arena h live →
      buddyAlloc uafActive h size = .ok (ptr, h') →
      BuddyRun uafActive deferred arena h' (if ptr = 0 then live else insert (ptr, size) live)
  | free {h : BuddyHeap} {live : Set (ℕ × ℕ)} (ptr size : ℕ) :
      BuddyRun uafActive deferred arena h live → (ptr, size) ∈ live →
      BuddyRun uafActive deferred arena (buddyFree uafActive h ptr size) (live \ {(ptr, size)})
  | freeNoCoalesce {h : BuddyHeap} {live : Set (ℕ × ℕ)} (ptr size : ℕ) : deferred = true →
      BuddyRun uafActive deferred arena h live → (ptr, size) ∈ live →
      BuddyRun uafActive deferred arena (buddyFreeNoCoalesce uafActive h ptr size)
        (live \ {(ptr, size)})
  | coalesceAll {h h' : BuddyHeap} {live : Set (ℕ × ℕ)} (merges : ℕ) : deferred = true →
      BuddyRun uafActive deferred arena h live →
      buddyCoalesceAll uafActive h = .ok (merges, h') →
      BuddyRun uafActive deferred arena h' live
  | write {h : BuddyHeap} {live : Set (ℕ × ℕ)} (m' : Mem) :
      BuddyRun uafActive deferred arena h live →
      (∀ a, arena ≤ a → a < arena + buddyMaxBlock →
        (∀ q ∈ live, a < q.1 ∨ q.1 + blockSize q.2 ≤ a) → m' a = h.mem a) →
      BuddyRun uafActive deferred arena ⟨h.buddy, m'⟩ live

/-- The live set and the alloc bits say the same. -/
structure LiveBits (b : Buddy) (live : Set (ℕ × ℕ)) : Prop where
  block : ∀ q ∈ live, ∃ i, q.1 = indexToNode b i (sizeToLevel q.2) ∧
    b.allocAt (sizeToLevel q.2) i
  owner : ∀ l i, b.allocAt l i → ∃ q ∈ live, q.1 = indexToNode b i l ∧ sizeToLevel q.2 = l
  inj : ∀ q ∈ live, ∀ q' ∈ live, q.1 = q'.1 → q = q'

/-- What holds of an arena even when its free lists have lost blocks. -/
structure ArenaInv (arena : ℕ) (h : BuddyHeap) (live : Set (ℕ × ℕ)) : Prop where
  base_eq : h.buddy.arenaBase = arena
  inv : BuddyInv h none₂
  bits : LiveBits h.buddy live

structure RunInv (arena : ℕ) (h : BuddyHeap) (live : Set (ℕ × ℕ)) : Prop
    extends ArenaInv arena h live where
  complete : ListsComplete h none₂

/-! ### The initial heap -/

def bareBuddy (arena : ℕ) : Buddy :=
  { arenaBase := arena
    arenaSize := buddyMaxBlock
    freeLists := fun _ => 0
    allocBitmap := fun _ => 0#64
    splitBitmap := fun _ => 0#64 }

theorem bareBuddy_splitAt : ¬ (bareBuddy arena).splitAt l i := by
  simp [bareBuddy, Buddy.splitAt]

theorem bareBuddy_allocAt (arena l i : ℕ) : ¬ (bareBuddy arena).allocAt l i := by
  simp [bareBuddy, Buddy.allocAt]

theorem bareBuddy_leaf (arena : ℕ) : (bareBuddy arena).leaf l i ↔ l = buddyTop ∧ i = 0 := by
  constructor
  · rintro ⟨hn, -⟩
    cases hn with
    | root => exact ⟨rfl, rfl⟩
    | half _ hs => exact absurd hs bareBuddy_splitAt
  · rintro ⟨rfl, rfl⟩
    exact ⟨.root, bareBuddy_splitAt⟩

theorem bareBuddy_freeNodes (l : ℕ) : freeNodes (bareBuddy arena) (only buddyTop 0) l = ∅ := by
  ext x
  simp only [Set.mem_empty_iff_false, iff_false]
  rintro ⟨i, ⟨hleaf, hbusy⟩, -⟩
  exact hbusy (Or.inr ((bareBuddy_leaf arena).1 hleaf))

theorem bareBuddy_inv (m : Mem) (hpos : 0 < arena) (halign : buddyMaxBlock ∣ arena)
    (hfits : arena + buddyMaxBlock ≤ 2 ^ 64) :
    BuddyInv ⟨bareBuddy arena, m⟩ (only buddyTop 0) ∧
      ListsComplete ⟨bareBuddy arena, m⟩ (only buddyTop 0) := by
  refine ⟨⟨⟨hpos, halign, hfits, rfl⟩, fun l i hs => absurd hs bareBuddy_splitAt, ?_,
    fun _ _ _ => bareBuddy_allocAt arena _ _, ⟨fun k => ?_, ?_⟩⟩, fun k => ?_⟩
  · rintro l i (ha | ho)
    · exact absurd ha (bareBuddy_allocAt arena _ _)
    · exact (bareBuddy_leaf arena).2 ho
  · rw [bareBuddy_freeNodes]
    exact linked_empty
  · intro k k' x hx
    rw [bareBuddy_freeNodes] at hx
    exact hx.elim
  · rw [bareBuddy_freeNodes]
    exact complete_empty

theorem buddyInit_inv (uafActive : Bool) (m : Mem) (hpos : 0 < arena)
    (halign : buddyMaxBlock ∣ arena) (hfits : arena + buddyMaxBlock ≤ 2 ^ 64) :
    BuddyInv (buddyInit uafActive m arena) none₂ ∧
      ListsComplete (buddyInit uafActive m arena) none₂ := by
  obtain ⟨hinv, hcomplete⟩ := bareBuddy_inv m hpos halign hfits
  have hpush := push_step hinv (l := buddyTop) (i := 0) ⟨rfl, rfl⟩
  rw [without_only] at hpush
  have hroot : indexToNode (bareBuddy arena) 0 buddyTop = arena := by
    simp [indexToNode, bareBuddy]
  rw [hroot] at hpush
  have hout := sameOutside_debugUafPoison uafActive
    ((⟨bareBuddy arena, m⟩ : BuddyHeap).push buddyTop arena).mem (arena + nodeSize)
    (buddyMaxBlock - nodeSize)
  obtain ⟨hinv', hcomplete'⟩ := hpush.inv.rewrite (debugUafPoison uafActive
    ((⟨bareBuddy arena, m⟩ : BuddyHeap).push buddyTop arena).mem (arena + nodeSize)
    (buddyMaxBlock - nodeSize)) (by
      rintro k y ⟨i, hf, rfl⟩ a h₁ h₂
      obtain ⟨rfl, rfl⟩ := (bareBuddy_leaf arena).1 hf.1
      refine hout a (Or.inl ?_)
      change a < indexToNode (bareBuddy arena) 0 buddyTop + nodeSize at h₂
      rwa [hroot] at h₂)
  exact ⟨hinv', hcomplete' (hpush.complete hcomplete)⟩

theorem runInv_init (uafActive : Bool) (m : Mem) (hpos : 0 < arena)
    (halign : buddyMaxBlock ∣ arena) (hfits : arena + buddyMaxBlock ≤ 2 ^ 64) :
    RunInv arena (buddyInit uafActive m arena) ∅ := by
  obtain ⟨hinv, hcomplete⟩ := buddyInit_inv uafActive m hpos halign hfits
  refine ⟨⟨rfl, hinv, fun q hq => hq.elim, fun l i ha => ?_, fun q hq => hq.elim⟩, hcomplete⟩
  exact absurd ha (bareBuddy_allocAt arena l i)

theorem buddyInit_merged (uafActive : Bool) (m : Mem) (arena : ℕ) :
    FullyMerged (buddyInit uafActive m arena).buddy none₂ := by
  rintro l p ⟨h₁, h₂⟩
  obtain ⟨-, hp⟩ := (bareBuddy_leaf arena).1 h₂.1
  omega

/-! ### Steps of a run -/

theorem indexToNode_congr {b b' : Buddy} (hbase : b'.arenaBase = b.arenaBase) (i l : ℕ) :
    indexToNode b' i l = indexToNode b i l := by
  simp only [indexToNode, hbase]

theorem index_inj {b : Buddy} (heq : indexToNode b i l = indexToNode b j l) : i = j := by
  rw [← addrToIndex_indexToNode b i l, heq, addrToIndex_indexToNode]

theorem ArenaInv.grant_fresh (hr : ArenaInv arena h live) (hg : Granted h (sizeToLevel size) i h')
    {q : ℕ × ℕ} (hq : q ∈ live) : q.1 ≠ indexToNode h.buddy i (sizeToLevel size) := by
  intro heq
  have hnode := indexToNode_congr hg.base_eq
  obtain ⟨j, hj, ha⟩ := hr.bits.block q hq
  have h₁ := hg.inv.alloc_leaf _ _ ((hg.alloc_iff _ _).2 (Or.inl ha))
  have h₂ := hg.inv.alloc_leaf _ _ ((hg.alloc_iff _ _).2 (Or.inr ⟨rfl, rfl⟩))
  obtain ⟨hl, rfl⟩ := node_inj h₁ h₂ (by rw [hnode, hnode, ← hj, heq])
  exact hg.fresh (hl ▸ ha)

/-- A granted block is new to the live set. -/
theorem ArenaInv.grant (hr : ArenaInv arena h live) (hg : Granted h (sizeToLevel size) i h') :
    ArenaInv arena h' (insert (indexToNode h.buddy i (sizeToLevel size), size) live) := by
  have hnode := indexToNode_congr hg.base_eq
  have hnew : ∀ q ∈ live, q.1 ≠ indexToNode h.buddy i (sizeToLevel size) :=
    fun q hq => hr.grant_fresh hg hq
  refine ⟨hg.base_eq.trans hr.base_eq, hg.inv, ?_, ?_, ?_⟩
  · rintro q (rfl | hq)
    · exact ⟨i, (hnode _ _).symm, (hg.alloc_iff _ _).2 (Or.inr ⟨rfl, rfl⟩)⟩
    · obtain ⟨j, hj, ha⟩ := hr.bits.block q hq
      exact ⟨j, by rw [hnode, hj], (hg.alloc_iff _ _).2 (Or.inl ha)⟩
  · intro l j ha
    rcases (hg.alloc_iff l j).1 ha with hold | ⟨rfl, rfl⟩
    · obtain ⟨q, hq, hq₁, hq₂⟩ := hr.bits.owner l j hold
      exact ⟨q, Or.inr hq, by rw [hnode, hq₁], hq₂⟩
    · exact ⟨_, Or.inl rfl, (hnode _ _).symm, rfl⟩
  · rintro q (rfl | hq) q' (rfl | hq') heq
    · rfl
    · exact absurd heq.symm (hnew q' hq')
    · exact absurd heq (hnew q hq)
    · exact hr.bits.inj q hq q' hq' heq

theorem ArenaInv.release (hr : ArenaInv arena h live)
    (hq : (indexToNode h.buddy i (sizeToLevel size), size) ∈ live)
    (hrel : Released h (sizeToLevel size) i h') :
    ArenaInv arena h' (live \ {(indexToNode h.buddy i (sizeToLevel size), size)}) := by
  have hnode := indexToNode_congr hrel.base_eq
  refine ⟨hrel.base_eq.trans hr.base_eq, hrel.inv, ?_, ?_, ?_⟩
  · rintro q ⟨hmem, hne⟩
    obtain ⟨j, hj, ha⟩ := hr.bits.block q hmem
    refine ⟨j, by rw [hnode, hj], (hrel.alloc_iff _ _).2 ⟨ha, ?_⟩⟩
    rintro ⟨hl, rfl⟩
    exact hne (hr.bits.inj q hmem _ hq (by rw [hj, hl]))
  · intro l j ha
    obtain ⟨hold, hne⟩ := (hrel.alloc_iff l j).1 ha
    obtain ⟨q, hmem, hq₁, hq₂⟩ := hr.bits.owner l j hold
    refine ⟨q, ⟨hmem, ?_⟩, by rw [hnode, hq₁], hq₂⟩
    rintro rfl
    subst hq₂
    exact hne ⟨rfl, (index_inj hq₁).symm⟩
  · exact fun q hmem q' hmem' heq => hr.bits.inj q hmem.1 q' hmem'.1 heq

theorem ArenaInv.free_released (hr : ArenaInv arena h live) {ptr : ℕ} (hq : (ptr, size) ∈ live) :
    ∃ i, ptr = indexToNode h.buddy i (sizeToLevel size) ∧
      h.buddy.allocAt (sizeToLevel size) i := hr.bits.block _ hq

/-- Writes of the program reach no link word. -/
theorem ArenaInv.write (hr : ArenaInv arena h live) {m' : Mem}
    (hm : ∀ a, arena ≤ a → a < arena + buddyMaxBlock →
      (∀ q ∈ live, a < q.1 ∨ q.1 + blockSize q.2 ≤ a) → m' a = h.mem a) :
    ArenaInv arena ⟨h.buddy, m'⟩ live ∧
      (ListsComplete h none₂ → ListsComplete ⟨h.buddy, m'⟩ none₂) := by
  obtain ⟨hinv, hcomplete⟩ := hr.inv.rewrite m' (by
    rintro k y ⟨i, hf, rfl⟩ a h₁ h₂
    have hsize := nodeSize_le_levelToSize k
    have hblock : InBlock h.buddy k i a := inBlock_iff.2 ⟨h₁, by unfold nodeSize at h₂; omega⟩
    obtain ⟨hlo, hhi⟩ := inArena_of_inBlock hf.1 hblock
    rw [hr.base_eq] at hlo hhi
    refine hm a hlo hhi fun q hq => ?_
    obtain ⟨j, hj, ha⟩ := hr.bits.block q hq
    by_contra hin
    have hq' : InBlock h.buddy (sizeToLevel q.2) j a := inBlock_iff.2 (by
      unfold blockSize at hin
      omega)
    obtain ⟨rfl, rfl⟩ := leaf_eq_of_inBlock hf.1 (hr.inv.alloc_leaf _ _ ha) hblock hq'
    exact hf.2 (Or.inl ha))
  exact ⟨⟨hr.base_eq, hinv, hr.bits⟩, hcomplete⟩

/-- The bytes of a live block belong to the program. -/
theorem ArenaInv.kept (hr : ArenaInv arena h live) {q : ℕ × ℕ} (hq : q ∈ live) {a : ℕ}
    (hlo : q.1 ≤ a) (hhi : a < q.1 + blockSize q.2) : Kept h.buddy a := by
  obtain ⟨j, hj, ha⟩ := hr.bits.block q hq
  rw [hj] at hlo hhi
  exact Or.inr ⟨_, j, ha, inBlock_iff.2 ⟨hlo, hhi⟩⟩

theorem ArenaInv.alloc_step (hr : ArenaInv arena h live) {ptr : ℕ}
    (hout : buddyAlloc uafActive h size = .ok (ptr, h')) :
    ptr = 0 ∧ h' = h ∨ ptr ≠ 0 ∧ ∃ i, ptr = indexToNode h.buddy i (sizeToLevel size) ∧
      Granted h (sizeToLevel size) i h' := by
  rcases buddyAlloc_spec uafActive hr.inv size with ⟨-, hnull⟩ | ⟨-, -, -, i, h₁, hg, hok | ⟨-, hbad⟩⟩
  · rw [hout] at hnull
    cases hnull
    exact Or.inl ⟨rfl, rfl⟩
  · rw [hout] at hok
    cases hok
    have hpos := hr.inv.arena.pos
    refine Or.inr ⟨?_, i, rfl, hg⟩
    unfold indexToNode
    omega
  · rw [hout] at hbad
    cases hbad

theorem ArenaInv.sweep (hr : ArenaInv arena h live) (hs : Step h none₂ h' none₂) :
    ArenaInv arena h' live := by
  have hnode := indexToNode_congr hs.base_eq
  have hbits : ∀ l i, h'.buddy.allocAt l i ↔ h.buddy.allocAt l i := fun l i => by
    simp only [Buddy.allocAt, hs.alloc_eq]
  refine ⟨hs.base_eq.trans hr.base_eq, hs.inv, ?_, ?_, hr.bits.inj⟩
  · intro q hq
    obtain ⟨i, hi, ha⟩ := hr.bits.block q hq
    exact ⟨i, by rw [hnode, hi], (hbits _ _).2 ha⟩
  · intro l i ha
    obtain ⟨q, hq, hq₁, hq₂⟩ := hr.bits.owner l i ((hbits _ _).1 ha)
    exact ⟨q, hq, by rw [hnode, hq₁], hq₂⟩

/-- The invariant along every run; without deferred frees the tree stays merged. -/
theorem BuddyRun.inv (run : BuddyRun uafActive deferred arena h live) :
    RunInv arena h live ∧ (deferred = false → FullyMerged h.buddy none₂) := by
  induction run with
  | init m hpos halign hfits =>
    exact ⟨runInv_init uafActive m hpos halign hfits, fun _ => buddyInit_merged uafActive m arena⟩
  | @alloc h h' live size ptr _ hout ih =>
    obtain ⟨hr, hm⟩ := ih
    rcases hr.alloc_step hout with ⟨rfl, rfl⟩ | ⟨hne, i, rfl, hg⟩
    · simp only [if_true]
      exact ⟨hr, hm⟩
    · rw [if_neg hne]
      exact ⟨⟨hr.grant hg, hg.complete hr.complete⟩, fun hd => hg.merged (hm hd)⟩
  | @free h live ptr size _ hq ih =>
    obtain ⟨hr, hm⟩ := ih
    obtain ⟨i, rfl, ha⟩ := hr.free_released hq
    obtain ⟨hrel, hmerged⟩ := buddyFree_released uafActive hr.inv ha
    exact ⟨⟨hr.release hq hrel, hrel.complete hr.complete⟩, fun hd => hmerged (hm hd)⟩
  | @freeNoCoalesce h live ptr size hdef _ hq ih =>
    obtain ⟨i, rfl, ha⟩ := ih.1.free_released hq
    have hrel := buddyFreeNoCoalesce_released uafActive ih.1.inv ha
    refine ⟨⟨ih.1.release hq hrel, hrel.complete ih.1.complete⟩, ?_⟩
    exact fun hd => absurd (hdef.symm.trans hd) (by decide)
  | @coalesceAll h h' live merges hdef _ hout ih =>
    obtain ⟨m₁, h₁, hok, hs⟩ := buddyCoalesceAll_step uafActive ih.1.inv
    rw [hout] at hok
    cases hok
    exact ⟨⟨ih.1.sweep hs, hs.complete ih.1.complete⟩, fun hd => absurd (hdef.symm.trans hd) (by decide)⟩
  | write m' _ hm ih =>
    obtain ⟨harena, hcomplete⟩ := ih.1.write hm
    exact ⟨⟨harena, hcomplete ih.1.complete⟩, ih.2⟩

end V8Malloc
