import V8Malloc.Heap.Footprint

/-!
# Buddy blocks of the heap

The calls of the buddy pool seen from the heap: an allocation adds one block of
its rounded size, a free takes one away, a sweep gives back empty arenas. No
call leaves the magic word at a page base, because what the pool writes there
is a link, a zero or poison.
-/
namespace V8Malloc

open ByteMemory Function

variable {h h' : Heap} {blk blk' : Blocks} {a b x n arena : ℕ} {g : Grant} {k : RegionKind}
variable {live live' stay : Set (ℕ × ℕ)} {p' : BuddyPool} {m' : Mem}

/-- Answers of the page heap to a request for an arena. Fresh memory reads as zero. -/
def FreshArena (h : Heap) (arena : ℕ) : Prop :=
  arena ≠ 0 → Vacant h arena buddyMaxBlock ∧ buddyMaxBlock ∣ arena ∧
    ∀ x, inArenaAt arena x → h.mem x = 0

theorem FreshArena.legal (hf : FreshArena h arena) : LegalArena h.buddyPool arena := by
  by_cases h0 : arena = 0
  · exact Or.inl h0
  · obtain ⟨hv, halign, -⟩ := hf h0
    refine Or.inr ⟨halign, le_trans hv.fits (by decide), fun i hu heq => ?_⟩
    have happ := hv.region_apart (.arena hu) (by decide)
    have hpos : 0 < buddyMaxBlock := by decide
    omega

/-! ### Page bases -/

theorem pageMagic_byte (h0 : m' b = 0 ∨ m' b = debugPoisonByte) : load64 m' b ≠ pageMagic := by
  intro heq
  have hlow : load64 m' b % 256 = (m' b).toNat := by
    have hlt := (m' b).toNat_lt
    unfold load64 load
    omega
  rw [heq] at hlow
  rcases h0 with h0 | h0
  · rw [h0] at hlow
    exact absurd hlow (by decide)
  · rw [h0] at hlow
    exact absurd hlow (by decide)

theorem Clean.setBuddy (hclean : Clean h) (hframe : PoolFrame h.buddyPool stay arena p')
    (hfresh : FreshArena h arena) : Clean (h.setBuddy p') := by
  intro i hu b hb hin
  have hpage : buddyMinBlock ∣ b := dvd_trans (by decide) hb
  change load64 p'.mem b ≠ pageMagic
  rcases hframe.plain b hpage with hsame | hbyte
  · have hload : load64 p'.mem b = load64 h.mem b := load_congr hsame
    rw [hload]
    rcases hframe.arenas i hu with ⟨hold, hbase⟩ | ⟨hne, hbase⟩
    · apply hclean i hold b hb
      rw [← hbase]
      exact hin
    · obtain ⟨-, -, hzero⟩ := hfresh hne
      apply pageMagic_byte
      left
      apply hzero
      rw [← hbase]
      exact hin
  · exact pageMagic_byte hbyte

/-! ### A new buddy pool under the heap -/

theorem Heap.Region.setBuddy (hframe : PoolFrame h.buddyPool stay arena p')
    (hr : (h.setBuddy p').Region k b n) :
    h.Region k b n ∨ arena ≠ 0 ∧ k = .arena ∧ b = arena ∧ n = buddyMaxBlock := by
  cases hr with
  | slab hhead => exact Or.inl (.slab hhead)
  | parked harena hmem => exact Or.inl (.parked harena hmem)
  | large hhead => exact Or.inl (.large hhead)
  | cached hmem => exact Or.inl (.cached hmem)
  | @arena i hu =>
    have hu' : p'.Used i := hu
    rcases hframe.arenas i hu' with ⟨hold, hbase⟩ | ⟨hne, hbase⟩
    · left
      change h.Region .arena (p'.base i) buddyMaxBlock
      rw [hbase]
      exact .arena hold
    · exact Or.inr ⟨hne, rfl, hbase, rfl⟩

theorem Layout.setBuddy (hl : Layout h) (hframe : PoolFrame h.buddyPool stay arena p')
    (hfresh : FreshArena h arena) : Layout (h.setBuddy p') := by
  by_cases h0 : arena = 0
  · apply hl.mono
    · intro k b n hr
      exact (hr.setBuddy hframe).resolve_right fun hnew => hnew.1 h0
    · exact hl.drained
    · exact hl.cached
  · apply hl.add (hfresh h0).1
    · intro k b n hr
      exact (hr.setBuddy hframe).imp_right fun hnew => hnew.2
    · exact hl.drained
    · exact hl.cached

/-- A region that is no arena lies outside everything the buddy pool writes. -/
theorem PoolFrame.region_kept (hframe : PoolFrame h.buddyPool stay arena p') (hl : Layout h)
    (hfresh : FreshArena h arena) (hr : h.Region k b n) (hk : k ≠ .arena) (hlo : b ≤ x)
    (hhi : x < b + n) : p'.mem x = h.mem x := by
  apply hframe.outside
  · intro i hu hin
    have hout := hl.outside_arena hr hk hu hin
    omega
  · intro hne hin
    have happ := (hfresh hne).1.region_apart hr (by omega)
    unfold inArenaAt at hin
    omega

theorem HeapInv.setBuddy (hh : HeapInv h blk) (hinv : PoolInv p' live')
    (hframe : PoolFrame h.buddyPool stay arena p') (hfresh : FreshArena h arena)
    (hblk : ∀ a, h.heads (ptrToMeta a) ≠ none → blk' a = blk a)
    (hiff : ∀ a g, h.heads (ptrToMeta a) = none →
      (blk' a = some g ↔ ∃ size, (a, size) ∈ live' ∧ g = ⟨blockSize size, .buddy⟩)) :
    HeapInv (h.setBuddy p') blk' := by
  constructor
  · exact hh.layout.setBuddy hframe hfresh
  · intro b header hhead
    obtain ⟨k, n, hr, hk, -, hpage⟩ := hh.layout.header_page hhead
    refine (hh.headers b header hhead).congr (fun x hlo hhi => ?_) fun a ha => ?_
    · exact hframe.region_kept hh.layout hfresh hr hk hlo (by omega)
    · apply hblk
      rw [ha]
      exact fun hnone => absurd (hhead.symm.trans hnone) (by simp)
  · exact ⟨live', hinv, hiff⟩
  · exact hh.clean.setBuddy hframe hfresh
  · exact hh.lists.keep rfl fun _ _ hhead => hhead

/-- Blocks outside the pool keep their bytes, and so do the blocks of `stay`. -/
theorem HeapInv.buddy_preserved (hh : HeapInv h blk) (hpart : BuddyPart h blk live)
    (hframe : PoolFrame h.buddyPool stay arena p') (hfresh : FreshArena h arena)
    (hstay : ∀ a g, blk' a = some g → blk a = some g ∧ ∀ size, (a, size) ∈ live → (a, size) ∈ stay) :
    Preserved blk' h.mem p'.mem := by
  intro a g ha x hlo hhi
  obtain ⟨hold, hmem⟩ := hstay a g ha
  obtain ⟨k, b, n, hr, hlo', hhi', -, harena, -⟩ := (hh.blockKind hold).region
  cases hhead : h.heads (ptrToMeta a) with
  | none =>
    obtain ⟨size, hq, rfl⟩ := (hpart.2 a g hhead).1 hold
    exact hframe.kept _ (hmem size hq) x hlo hhi
  | some header =>
    apply hframe.region_kept hh.layout hfresh hr
    · intro hk
      rw [harena.1 hk] at hhead
      cases hhead
    · omega
    · omega

theorem PoolFrame.within (hframe : PoolFrame h.buddyPool stay arena p') :
    Within (fun x => arena ≠ 0 ∧ inArenaAt arena x) h (h.setBuddy p') := by
  refine ⟨⟨?_, fun x hout hnew => ?_⟩, .of_heads rfl⟩
  · rintro x ⟨k, b, n, hr, hin⟩
    rcases hr.setBuddy hframe with hr | ⟨hne, -, rfl, rfl⟩
    · exact Or.inl ⟨k, b, n, hr, hin⟩
    · exact Or.inr ⟨hne, hin⟩
  · apply hframe.outside x
    · exact fun i hu hin => hout ⟨_, _, _, .arena hu, hin⟩
    · exact fun hne hin => hnew ⟨hne, hin⟩

/-! ### The calls -/

/-- What an allocation of the buddy pool gives the heap. -/
structure BuddyGranted (h : Heap) (blk : Blocks) (arena size : ℕ) (out : ℕ × BuddyPool) : Prop where
  inv : HeapInv (h.setBuddy out.2) (grantAfter blk out.1 ⟨blockSize size, .buddy⟩)
  fresh : out.1 ≠ 0 → blk out.1 = none
  preserved : Preserved blk h.mem out.2.mem
  within : Within (fun x => arena ≠ 0 ∧ inArenaAt arena x) h (h.setBuddy out.2)

theorem buddyPoolAlloc_granted (opts : PoolOptions) (hh : HeapInv h blk)
    (hfresh : FreshArena h arena) (size : ℕ) :
    Returns (opts.uafActive = true) (buddyPoolAlloc opts arena h.buddyPool size)
      (BuddyGranted h blk arena size) := by
  obtain ⟨live, hpart⟩ := hh.buddy
  apply (buddyPoolAlloc_spec opts hpart.1 hfresh.legal size).mono
  intro out hout
  have hpreserved : Preserved blk h.mem out.2.mem :=
    hh.buddy_preserved hpart hout.frame hfresh fun _ _ ha => ⟨ha, fun _ hq => hq⟩
  by_cases h0 : out.1 = 0
  · refine ⟨?_, fun hne => absurd h0 hne, hpreserved, hout.frame.within⟩
    have hinv := hout.inv
    rw [liveAfter, if_pos h0] at hinv
    rw [grantAfter, if_pos h0]
    exact hh.setBuddy hinv hout.frame hfresh (fun _ _ => rfl) hpart.2
  · have hinv := hout.inv
    rw [liveAfter, if_neg h0] at hinv
    have hhead : h.heads (ptrToMeta out.1) = none := by
      obtain ⟨i, hu, hin⟩ := hinv.owned (out.1, size) (Set.mem_insert _ _)
      exact (hh.layout.setBuddy hout.frame hfresh).arena_no_header hu hin
    have hnone : blk out.1 = none := by
      rw [Option.eq_none_iff_forall_ne_some]
      intro g hg
      obtain ⟨s, hs, -⟩ := (hpart.2 _ g hhead).1 hg
      exact hout.fresh h0 s hs
    refine ⟨?_, fun _ => hnone, hpreserved, hout.frame.within⟩
    rw [grantAfter, if_neg h0]
    apply hh.setBuddy hinv hout.frame hfresh
    · intro a ha
      apply update_of_ne
      intro heq
      rw [heq] at ha
      exact ha hhead
    · intro a g ha
      by_cases heq : a = out.1
      · subst heq
        rw [update_self, Option.some_inj]
        constructor
        · intro hg
          exact ⟨size, Set.mem_insert _ _, hg.symm⟩
        · rintro ⟨s, hs | hs, hg⟩
          · cases hs
            exact hg.symm
          · exact absurd hs (hout.fresh h0 s)
      · rw [update_of_ne heq, hpart.2 a g ha]
        constructor
        · rintro ⟨s, hs, hg⟩
          exact ⟨s, Set.mem_insert_of_mem _ hs, hg⟩
        · rintro ⟨s, hs | hs, hg⟩
          · exact absurd (Prod.ext_iff.1 hs).1 heq
          · exact ⟨s, hs, hg⟩

/-- A buddy block of the heap is a live block of the pool, and the page below it has no header. -/
theorem HeapInv.buddy_live (hh : HeapInv h blk) (hpart : BuddyPart h blk live)
    (ha : blk a = some ⟨n, .buddy⟩) :
    h.heads (ptrToMeta a) = none ∧ ∃ size, (a, size) ∈ live ∧ n = blockSize size := by
  have hhead : h.heads (ptrToMeta a) = none := by
    generalize hg : (⟨n, .buddy⟩ : Grant) = g at ha
    cases hh.blockKind ha with
    | slab => cases congrArg Grant.backend hg
    | large => cases congrArg Grant.backend hg
    | buddy hhead => exact hhead
  obtain ⟨size, hq, hg⟩ := (hpart.2 a _ hhead).1 ha
  exact ⟨hhead, size, hq, congrArg Grant.bytes hg⟩

/-- A buddy block has the size of a level and is aligned to it. -/
theorem HeapInv.buddy_shape (hh : HeapInv h blk) (ha : blk a = some ⟨n, .buddy⟩) :
    ∃ l ≤ buddyTop, n = levelToSize l ∧ levelToSize l ∣ a := by
  obtain ⟨live, hpart⟩ := hh.buddy
  obtain ⟨-, size, hq, rfl⟩ := hh.buddy_live hpart ha
  obtain ⟨i, hu, hin⟩ := hpart.1.owned _ hq
  obtain ⟨k, hk, halloc⟩ := (hpart.1.arena i hu).bits.block _ ⟨hq, hin⟩
  have hinv := (hpart.1.arena i hu).inv
  have hlevel := (hinv.alloc_leaf _ _ halloc).1.level_le
  refine ⟨sizeToLevel size, hlevel, rfl, ?_⟩
  rw [show a = _ from hk]
  exact levelToSize_dvd_node hinv.arena hlevel k

theorem freshArena_zero (h : Heap) : FreshArena h 0 := fun hne => absurd rfl hne

theorem buddyPoolFree_released (opts : PoolOptions) (hh : HeapInv h blk)
    (ha : blk a = some ⟨n, .buddy⟩) :
    HeapInv (h.setBuddy (buddyPoolFree opts h.buddyPool a).2) (update blk a none) ∧
      Preserved (update blk a none) h.mem (buddyPoolFree opts h.buddyPool a).2.mem := by
  obtain ⟨live, hpart⟩ := hh.buddy
  obtain ⟨hhead, size, hq, -⟩ := hh.buddy_live hpart ha
  obtain ⟨hinv, hframe⟩ := buddyPoolFree_spec opts hpart.1 hq
  have hsize : ∀ s, (a, s) ∈ live → s = size := by
    intro s hs
    obtain ⟨i, hu, hin⟩ := hpart.1.owned _ hq
    exact congrArg Prod.snd ((hpart.1.arena i hu).bits.inj _ ⟨hs, hin⟩ _ ⟨hq, hin⟩ rfl)
  constructor
  · apply hh.setBuddy hinv hframe (freshArena_zero h)
    · intro c hc
      apply update_of_ne
      intro heq
      rw [heq] at hc
      exact hc hhead
    · intro c g hc
      by_cases heq : c = a
      · subst heq
        rw [update_self]
        constructor
        · intro hsome
          cases hsome
        · rintro ⟨s, ⟨hs, hne⟩, -⟩
          exact absurd (congrArg (Prod.mk c) (hsize s hs)) hne
      · rw [update_of_ne heq, hpart.2 c g hc]
        constructor
        · rintro ⟨s, hs, hg⟩
          exact ⟨s, ⟨hs, fun hmem => heq (Prod.ext_iff.1 hmem).1⟩, hg⟩
        · rintro ⟨s, ⟨hs, -⟩, hg⟩
          exact ⟨s, hs, hg⟩
  · apply hh.buddy_preserved hpart hframe (freshArena_zero h)
    intro c g hc
    have hne : c ≠ a := by
      intro heq
      rw [heq, update_self] at hc
      cases hc
    rw [update_of_ne hne] at hc
    exact ⟨hc, fun s hs => ⟨hs, fun hmem => hne (Prod.ext_iff.1 hmem).1⟩⟩

/-- The query answers with the block around an address. -/
theorem HeapInv.buddyPoolBlockSize_inside {x : ℕ} (hh : HeapInv h blk)
    (ha : blk a = some ⟨n, .buddy⟩) (hlo : a ≤ x) (hhi : x < a + n) :
    buddyPoolBlockSize h.buddyPool x = n := by
  obtain ⟨live, hpart⟩ := hh.buddy
  obtain ⟨-, size, hq, rfl⟩ := hh.buddy_live hpart ha
  obtain ⟨i, hu, hin⟩ := hpart.1.owned _ hq
  have hend := ((hpart.1.arena i hu).block_end ⟨hq, hin⟩).2
  have hinx : inArenaAt (h.buddyPool.base i) x := by
    unfold inArenaAt at hin ⊢
    dsimp only at hin hend
    omega
  have hpos := (hh.block_bounds ha).1
  unfold buddyPoolBlockSize
  rw [if_neg (by omega), hpart.1.findOwningArena_eq hu hinx]
  exact (hpart.1.arena i hu).buddyBlockSize_inside ⟨hq, hin⟩ hlo hhi

theorem HeapInv.buddyPoolBlockSize_eq (hh : HeapInv h blk) (ha : blk a = some ⟨n, .buddy⟩) :
    buddyPoolBlockSize h.buddyPool a = n := by
  obtain ⟨l, -, hsize, -⟩ := hh.buddy_shape ha
  have hpos := levelToSize_pos l
  exact hh.buddyPoolBlockSize_inside ha le_rfl (by omega)

theorem sweepIdle_frame (maxIdleTicks : ℕ) (stay : Set (ℕ × ℕ)) :
    PoolFrame h.buddyPool stay 0 (buddyPoolSweepIdle h.buddyPool maxIdleTicks) :=
  ⟨Plain.refl _, fun _ _ _ _ _ => rfl, fun _ _ _ => rfl, fun i hu =>
    Or.inl ⟨(sweepIdle_used maxIdleTicks hu).1, (sweepIdle_used maxIdleTicks hu).2.1⟩⟩

theorem buddyPoolSweepIdle_kept (maxIdleTicks : ℕ) (hh : HeapInv h blk) :
    HeapInv (h.setBuddy (buddyPoolSweepIdle h.buddyPool maxIdleTicks)) blk := by
  obtain ⟨live, hpart⟩ := hh.buddy
  exact hh.setBuddy (sweepIdle_step maxIdleTicks hpart.1).1 (sweepIdle_frame maxIdleTicks live)
    (freshArena_zero h) (fun _ _ => rfl) hpart.2

end V8Malloc
