import V8Malloc.BuddyPool.Model

/-!
# Invariant of the buddy pool

Every arena in use keeps the invariant of its buddy for the live blocks inside
it, and no two arenas overlap. Completeness of the free lists is kept apart: it
is what giving an arena's frames back can break.
-/
namespace V8Malloc

open ByteMemory

/-- The addresses of the arena at `base`. -/
def inArenaAt (base a : ℕ) : Prop := base ≤ a ∧ a < base + buddyMaxBlock

/-- The live blocks of the arena at `base`. -/
def liveAt (base : ℕ) (live : Set (ℕ × ℕ)) : Set (ℕ × ℕ) := {q ∈ live | inArenaAt base q.1}

def BuddyPool.base (p : BuddyPool) (i : ℕ) : ℕ := (p.arenas i).buddy.arenaBase

/-- Slot `i` holds an arena. -/
def BuddyPool.Used (p : BuddyPool) (i : ℕ) : Prop :=
  i < buddyPoolMaxArenas ∧ (p.arenas i).inUse = true

structure PoolInv (p : BuddyPool) (live : Set (ℕ × ℕ)) : Prop where
  arena : ∀ i, p.Used i → ArenaInv (p.base i) (p.heap i) (liveAt (p.base i) live)
  apart : ∀ i j, p.Used i → p.Used j → p.base i = p.base j → i = j
  owned : ∀ q ∈ live, ∃ i, p.Used i ∧ inArenaAt (p.base i) q.1
  idle : ∀ i, p.Used i → (p.arenas i).drained = true → liveAt (p.base i) live = ∅

/-- The free lists of every arena in use hold all its free blocks. -/
def PoolComplete (p : BuddyPool) : Prop := ∀ i, p.Used i → ListsComplete (p.heap i) none₂

variable {p p' : BuddyPool} {live live' : Set (ℕ × ℕ)} {i j a base : ℕ}

theorem inArenaAt_unique {base base' : ℕ} (h : buddyMaxBlock ∣ base) (h' : buddyMaxBlock ∣ base')
    (ha : inArenaAt base a) (ha' : inArenaAt base' a) : base = base' := by
  obtain ⟨c, rfl⟩ := h
  obtain ⟨d, rfl⟩ := h'
  unfold inArenaAt buddyMaxBlock at *
  omega

theorem PoolInv.aligned (hp : PoolInv p live) (hi : p.Used i) : buddyMaxBlock ∣ p.base i :=
  (hp.arena i hi).inv.arena.aligned

/-- Block `q` of the arena at `base` ends inside it. -/
theorem ArenaInv.block_end {h : BuddyHeap} (harena : ArenaInv base h live) {q : ℕ × ℕ}
    (hq : q ∈ live) : inArenaAt base q.1 ∧ q.1 + blockSize q.2 ≤ base + buddyMaxBlock := by
  obtain ⟨k, hk, ha⟩ := harena.bits.block q hq
  have hleaf := harena.inv.alloc_leaf _ _ ha
  have hpos := nodeSize_le_levelToSize (sizeToLevel q.2)
  have hfirst := inArena_of_inBlock hleaf (inBlock_iff.2 ⟨le_rfl, by omega⟩)
  have hlast := inArena_of_inBlock (a := indexToNode h.buddy k (sizeToLevel q.2) +
    (levelToSize (sizeToLevel q.2) - 1)) hleaf (inBlock_iff.2 ⟨by omega, by omega⟩)
  rw [← hk] at hfirst hlast
  unfold InArena at hfirst hlast
  rw [harena.base_eq] at hfirst hlast
  refine ⟨hfirst, ?_⟩
  unfold blockSize
  omega

/-- Two live blocks of an arena do not overlap. -/
theorem ArenaInv.live_apart {h : BuddyHeap} (harena : ArenaInv base h live) {q q' : ℕ × ℕ}
    (hq : q ∈ live) (hq' : q' ∈ live) (hne : q ≠ q') :
    q.1 + blockSize q.2 ≤ q'.1 ∨ q'.1 + blockSize q'.2 ≤ q.1 := by
  obtain ⟨k, hk, ha⟩ := harena.bits.block q hq
  obtain ⟨k', hk', ha'⟩ := harena.bits.block q' hq'
  have hblocks : ¬(sizeToLevel q.2 = sizeToLevel q'.2 ∧ k = k') := by
    rintro ⟨hl, rfl⟩
    rw [← hl] at hk'
    exact hne (harena.bits.inj q hq q' hq' (hk.trans hk'.symm))
  rw [hk, hk']
  exact leaf_apart (harena.inv.alloc_leaf _ _ ha) (harena.inv.alloc_leaf _ _ ha') hblocks

theorem PoolInv.live_apart (hp : PoolInv p live) {q q' : ℕ × ℕ} (hq : q ∈ live) (hq' : q' ∈ live)
    (hne : q ≠ q') : q.1 + blockSize q.2 ≤ q'.1 ∨ q'.1 + blockSize q'.2 ≤ q.1 := by
  obtain ⟨i, hu, hin⟩ := hp.owned q hq
  obtain ⟨j, hu', hin'⟩ := hp.owned q' hq'
  have hend := (hp.arena i hu).block_end ⟨hq, hin⟩
  have hend' := (hp.arena j hu').block_end ⟨hq', hin'⟩
  by_cases hij : p.base i = p.base j
  · obtain rfl := hp.apart i j hu hu' hij
    exact (hp.arena i hu).live_apart ⟨hq, hin⟩ ⟨hq', hin'⟩ hne
  · obtain ⟨c, hc⟩ := hp.aligned hu
    obtain ⟨d, hd⟩ := hp.aligned hu'
    have hcd : c ≠ d := by
      rintro rfl
      exact hij (hc.trans hd.symm)
    unfold inArenaAt buddyMaxBlock at *
    omega

/-- An arena whose bytes do not change keeps its invariant and its lists. -/
theorem ArenaInv.frame {h : BuddyHeap} (harena : ArenaInv base h live) {m' : Mem}
    (hm : ∀ a, inArenaAt base a → m' a = h.mem a) :
    ArenaInv base ⟨h.buddy, m'⟩ live ∧
      (ListsComplete h none₂ → ListsComplete ⟨h.buddy, m'⟩ none₂) := by
  apply harena.write
  intro a hlo hhi _
  exact hm a ⟨hlo, hhi⟩

/-- A step that touches one arena only. -/
structure SlotStep (p : BuddyPool) (live : Set (ℕ × ℕ)) (i base : ℕ) (p' : BuddyPool)
    (live' : Set (ℕ × ℕ)) : Prop where
  slot_lt : i < buddyPoolMaxArenas
  others : ∀ j, j ≠ i → p'.arenas j = p.arenas j
  free_base : ∀ j, j ≠ i → p.Used j → p.base j ≠ base
  old_base : p.Used i → p.base i = base
  aligned : buddyMaxBlock ∣ base
  frame : ∀ a, ¬ inArenaAt base a → p'.mem a = p.mem a
  live_iff : ∀ q : ℕ × ℕ, ¬ inArenaAt base q.1 → (q ∈ live' ↔ q ∈ live)
  used : (p'.arenas i).inUse = true
  arena : ArenaInv base (p'.heap i) (liveAt base live')
  idle : (p'.arenas i).drained = true → liveAt base live' = ∅

theorem SlotStep.base_eq (hs : SlotStep p live i base p' live') : p'.base i = base :=
  hs.arena.base_eq

theorem SlotStep.used_iff (hs : SlotStep p live i base p' live') (hj : j ≠ i) :
    p'.Used j ↔ p.Used j := by
  unfold BuddyPool.Used
  rw [hs.others j hj]

theorem SlotStep.base_other (hs : SlotStep p live i base p' live') (hj : j ≠ i) :
    p'.base j = p.base j := by
  unfold BuddyPool.base
  rw [hs.others j hj]

theorem SlotStep.outside (hs : SlotStep p live i base p' live') (hp : PoolInv p live) (hj : j ≠ i)
    (hu : p.Used j) (ha : inArenaAt (p.base j) a) : ¬ inArenaAt base a := by
  intro ha'
  exact hs.free_base j hj hu (inArenaAt_unique (hp.aligned hu) hs.aligned ha ha')

theorem SlotStep.liveAt_other (hs : SlotStep p live i base p' live') (hp : PoolInv p live)
    (hj : j ≠ i) (hu : p.Used j) : liveAt (p.base j) live' = liveAt (p.base j) live := by
  ext q
  exact and_congr_left fun hq => hs.live_iff q (hs.outside hp hj hu hq)

theorem SlotStep.other (hs : SlotStep p live i base p' live') (hp : PoolInv p live) (hj : j ≠ i)
    (hu : p.Used j) : ArenaInv (p.base j) (p'.heap j) (liveAt (p.base j) live') ∧
      (ListsComplete (p.heap j) none₂ → ListsComplete (p'.heap j) none₂) := by
  have hheap : p'.heap j = ⟨(p.heap j).buddy, p'.mem⟩ := by
    unfold BuddyPool.heap
    rw [hs.others j hj]
  rw [hs.liveAt_other hp hj hu, hheap]
  exact (hp.arena j hu).frame fun a ha => hs.frame a (hs.outside hp hj hu ha)

/-- A step on one arena keeps the invariant of the pool. -/
theorem SlotStep.inv (hs : SlotStep p live i base p' live') (hp : PoolInv p live) :
    PoolInv p' live' := by
  constructor
  · intro j hu
    by_cases hj : j = i
    · subst hj
      rw [hs.base_eq]
      exact hs.arena
    · rw [hs.base_other hj]
      exact (hs.other hp hj ((hs.used_iff hj).1 hu)).1
  · intro j k hu hu' heq
    by_cases hj : j = i
    · by_cases hk : k = i
      · rw [hj, hk]
      · subst hj
        rw [hs.base_eq, hs.base_other hk] at heq
        exact absurd heq.symm (hs.free_base k hk ((hs.used_iff hk).1 hu'))
    · by_cases hk : k = i
      · subst hk
        rw [hs.base_eq, hs.base_other hj] at heq
        exact absurd heq (hs.free_base j hj ((hs.used_iff hj).1 hu))
      · rw [hs.base_other hj, hs.base_other hk] at heq
        exact hp.apart j k ((hs.used_iff hj).1 hu) ((hs.used_iff hk).1 hu') heq
  · intro q hq
    by_cases hin : inArenaAt base q.1
    · exact ⟨i, ⟨hs.slot_lt, hs.used⟩, by rwa [hs.base_eq]⟩
    · obtain ⟨j, hu, hj⟩ := hp.owned q ((hs.live_iff q hin).1 hq)
      have hji : j ≠ i := by
        rintro rfl
        rw [hs.old_base hu] at hj
        exact hin hj
      exact ⟨j, (hs.used_iff hji).2 hu, by rwa [hs.base_other hji]⟩
  · intro j hu hdrained
    by_cases hj : j = i
    · subst hj
      rw [hs.base_eq]
      exact hs.idle hdrained
    · have hu' := (hs.used_iff hj).1 hu
      rw [hs.others j hj] at hdrained
      rw [hs.base_other hj, hs.liveAt_other hp hj hu']
      exact hp.idle j hu' hdrained

/-- Complete lists stay complete when the touched arena's are. -/
theorem SlotStep.complete (hs : SlotStep p live i base p' live') (hp : PoolInv p live)
    (hc : ∀ j, j ≠ i → p.Used j → ListsComplete (p.heap j) none₂)
    (hi : ListsComplete (p'.heap i) none₂) : PoolComplete p' := by
  intro j hu
  by_cases hj : j = i
  · subst hj
    exact hi
  · have hu' := (hs.used_iff hj).1 hu
    exact (hs.other hp hj hu').2 (hc j hj hu')

end V8Malloc
