import V8Malloc.Slab.Refill

/-!
# Pages that leave a slab pool

A free and a sweep move pages between their places in the pool. The pages they
give back to the page source are noted beside the operation.
-/
namespace V8Malloc

open ByteMemory LinkedList Function

variable {h h' : Heap} {blk : Blocks} {a b c p n arena cls obj : ℕ} {g : Grant}
variable {page page' : PageMeta} {m' : Mem} {uafActive : Bool} {slab : SlabClass} {src : List ℕ}

/-- The pages `release_slab_page` passes on to the page source. -/
def releaseSlabPageReturns (h : Heap) (arena page : ℕ) : List ℕ :=
  if (h.pools arena).drained.length < slabDrainedCap then [] else [page]

def slabPoolFreeReturns (uafActive : Bool) (h : Heap) (arena page obj : ℕ) : List ℕ :=
  let out := slabFreeDispatch uafActive h.mem page (h.pageAt page) obj
  if out.2.1.sizeClass ≥ mediumFirstClass then []
  else if out.1 then releaseSlabPageReturns h arena page
  else []

/-- The matured pages, in the order of the array, whose last entry is the first of the list. -/
def slabPoolSweepIdleReturns (h : Heap) (arena maxIdleTicks : ℕ) : List ℕ :=
  (((h.pools arena).drained.filter fun entry => (drainedTick maxIdleTicks entry).isNone).map
    Prod.fst).reverse

/-- The pool has given the pages of `gone` back, all without a live slot. -/
structure Shrunk (arena : ℕ) (h : Heap) (blk : Blocks) (h' : Heap) (gone : List ℕ) : Prop where
  arenas : h'.arenas = h.arenas
  nodup : gone.Nodup
  owned : ∀ b ∈ gone, h.Owns arena b
  owns : ∀ b, h'.Owns arena b ↔ h.Owns arena b ∧ b ∉ gone
  empty : ∀ b ∈ gone, ∀ a, ptrToMeta a = b → blk a = none

theorem Shrunk.of_owns (harenas : h'.arenas = h.arenas)
    (howns : ∀ b, h'.Owns arena b ↔ h.Owns arena b) : Shrunk arena h blk h' [] :=
  ⟨harenas, List.nodup_nil, by simp, by simpa using howns, by simp⟩

theorem Shrunk.congr {h₁ : Heap} {gone : List ℕ} (hs : Shrunk arena h₁ blk h' gone)
    (harenas : h₁.arenas = h.arenas) (howns : ∀ b, h₁.Owns arena b ↔ h.Owns arena b) :
    Shrunk arena h blk h' gone where
  arenas := hs.arenas.trans harenas
  nodup := hs.nodup
  owned := fun b hb => (howns b).1 (hs.owned b hb)
  owns := fun b => by rw [hs.owns, howns]
  empty := hs.empty

/-- A page that is parked or given back. -/
theorem releaseSlabPage_places (hp : PlacedBut b h) (hhead : h.heads b = some (.slab page))
    (hid : page.arenaId = arena) (hfresh : b ∉ (h.pools arena).drained.map Prod.fst)
    (hempty : ∀ a, ptrToMeta a = b → blk a = none) :
    Placed (releaseSlabPage h arena b) ∧
      Shrunk arena h blk (releaseSlabPage h arena b) (releaseSlabPageReturns h arena b) := by
  have howned : h.Owns arena b := Or.inl ⟨page, hhead, hid⟩
  unfold releaseSlabPage releaseSlabPageReturns
  dsimp only
  split_ifs with hroom
  · refine ⟨?_, .of_owns rfl fun c => ?_⟩
    · refine PlacedBut.placed (b := b) (hp.move (fun c hc => update_of_ne hc _ _)
        fun _ _ c _ _ _ hl => ?_) ?_
      · exact (setDrained_slabClass _ _ _).symm ▸ hl
      · simp [Heap.setDrained]
    · unfold Heap.Owns
      rw [setDrained_drained, if_pos rfl]
      by_cases hc : c = b
      · subst hc
        simp [hhead, hid, Heap.setDrained]
      · simp [hc, Heap.setDrained]
  · refine ⟨?_, rfl, List.nodup_singleton b, by simpa using howned, fun c => ?_, by simpa using hempty⟩
    · exact PlacedBut.placed (hp.move (fun c hc => update_of_ne hc _ _)
        fun _ _ _ _ _ _ hl => hl) (by simp)
    · unfold Heap.Owns
      by_cases hc : c = b
      · subst hc
        simpa using hfresh
      · simp [hc]

theorem HeapInv.parked_empty {idle : ℕ} (hh : HeapInv h blk) (harena : arena < arenaCount)
    (hmem : (b, idle) ∈ (h.pools arena).drained) (ha : ptrToMeta a = b) : blk a = none := by
  have hregion : h.Region (.parked arena) b pageSize := .parked harena hmem
  obtain ⟨hlo, hhi⟩ := ptrToMeta_le a
  rw [ha] at hlo hhi
  cases hg : blk a with
  | none => rfl
  | some g =>
    cases hh.blockKind hg with
    | slab hhead =>
      rw [ha] at hhead
      obtain ⟨hk, -⟩ := hh.layout.apart _ _ _ _ _ _ (.slab hhead) hregion (by omega) (by omega)
      cases hk
    | large hhead =>
      rw [ha] at hhead
      have hpos := (hh.layout.fits _ _ _ (.large hhead)).2.2.2.1
      obtain ⟨hk, -⟩ := hh.layout.apart _ _ _ _ _ _ (.large hhead) hregion (by omega) (by omega)
      cases hk
    | buddy _ _ _ hu hin =>
      unfold inArenaAt at hin
      obtain ⟨hk, -⟩ := hh.layout.apart _ _ _ _ _ _ (.arena hu) hregion (by omega) (by omega)
      cases hk

theorem slabPoolSweepIdle_places (hh : HeapInv h blk) (hp : Placed h) (harena : arena < arenaCount)
    (maxIdleTicks : ℕ) :
    Placed (slabPoolSweepIdle h arena maxIdleTicks) ∧
      Shrunk arena h blk (slabPoolSweepIdle h arena maxIdleTicks)
        (slabPoolSweepIdleReturns h arena maxIdleTicks) := by
  have hnodup := hh.layout.drained arena harena
  have hgone : ∀ b, b ∈ slabPoolSweepIdleReturns h arena maxIdleTicks ↔
      ∃ entry ∈ (h.pools arena).drained, drainedTick maxIdleTicks entry = none ∧ entry.1 = b := by
    intro b
    simp [slabPoolSweepIdleReturns, and_assoc]
  refine ⟨?_, rfl, ?_, fun b hb => ?_, fun b => ?_, fun b hb a ha => ?_⟩
  · refine ⟨hp.occupied, fun b page hhead hroom => ?_⟩
    have hl := hp.listed b page hhead hroom
    unfold Heap.Listed slabPoolSweepIdle at *
    rw [setDrained_slabClass]
    exact hl
  · unfold slabPoolSweepIdleReturns
    rw [List.nodup_reverse]
    exact hnodup.sublist (List.filter_sublist.map _)
  · obtain ⟨entry, hentry, -, rfl⟩ := (hgone b).1 hb
    exact Or.inr (List.mem_map_of_mem hentry)
  · have hdrained : ((slabPoolSweepIdle h arena maxIdleTicks).pools arena).drained =
        (h.pools arena).drained.filterMap (drainedTick maxIdleTicks) := by
      unfold slabPoolSweepIdle
      rw [setDrained_drained, if_pos rfl]
    unfold Heap.Owns
    rw [hdrained]
    constructor
    · rintro (⟨page, hhead, hid⟩ | hmem)
      · refine ⟨Or.inl ⟨page, hhead, hid⟩, fun hb => ?_⟩
        obtain ⟨entry, hentry, -, rfl⟩ := (hgone b).1 hb
        exact hh.head_notMem_drained harena hhead (List.mem_map_of_mem hentry)
      · obtain ⟨kept, hkept, rfl⟩ := List.mem_map.1 hmem
        obtain ⟨entry, hentry, htick⟩ := List.mem_filterMap.1 hkept
        rw [drainedTick_fst htick]
        refine ⟨Or.inr (List.mem_map_of_mem hentry), fun hb => ?_⟩
        obtain ⟨other, hother, hnone, hfst⟩ := (hgone _).1 hb
        obtain rfl := List.inj_on_of_nodup_map hnodup hother hentry hfst
        rw [hnone] at htick
        cases htick
    · rintro ⟨hhead | hmem, hstay⟩
      · exact Or.inl hhead
      · obtain ⟨entry, hentry, rfl⟩ := List.mem_map.1 hmem
        cases htick : drainedTick maxIdleTicks entry with
        | none => exact absurd ((hgone _).2 ⟨entry, hentry, htick, rfl⟩) hstay
        | some kept =>
          refine Or.inr (List.mem_map.2 ⟨kept, ?_, drainedTick_fst htick⟩)
          exact List.mem_filterMap.2 ⟨entry, hentry, htick⟩
  · obtain ⟨entry, hentry, -, rfl⟩ := (hgone b).1 hb
    exact hh.parked_empty harena hentry ha

theorem SlabClass.Lists.unlink (hc : c ≠ b) (hl : slab.Lists c) :
    (unlinkFromClass slab b).Lists c := by
  unfold unlinkFromClass
  split_ifs with hcur
  · exact Or.inr (hl.resolve_left (hcur ▸ Ne.symm hc))
  · exact hl.imp_right fun hmem => (List.mem_erase_of_ne hc).2 hmem

theorem slabPoolFree_places (hh : HeapInv h blk) (hp : Placed h)
    (ha : blk obj = some ⟨n, .slab cls arena⟩) :
    Placed (slabPoolFree uafActive h arena (ptrToMeta obj) obj).2 ∧
      Shrunk arena h (update blk obj none)
        (slabPoolFree uafActive h arena (ptrToMeta obj) obj).2
        (slabPoolFreeReturns uafActive h arena (ptrToMeta obj) obj) := by
  obtain ⟨page, hhead, rfl, rfl, -⟩ := hh.slab_header ha
  obtain ⟨harena, used, hpage, -⟩ := hh.headers _ _ hhead
  have hback := hh.pageFree uafActive hhead ha
  simp only [slabPoolFree, slabPoolFreeReturns, pageAt_eq hhead]
  generalize slabFreeDispatch uafActive h.mem (ptrToMeta obj) page obj = out at hback
  obtain ⟨-, -, hempty, hcls, hid, -, hpos⟩ := hback
  have howns : ∀ c, (h.setPage (ptrToMeta obj) out.2.1 out.2.2).Owns page.arenaId c ↔
      h.Owns page.arenaId c := fun c => owns_setPage hhead hid
  have hstay : 0 < out.2.1.usedCount → h.Listed out.2.1 (ptrToMeta obj) →
      Placed (h.setPage (ptrToMeta obj) out.2.1 out.2.2) := hp.setPage hhead
  have harenas : (h.setPage (ptrToMeta obj) out.2.1 out.2.2).arenas = h.arenas :=
    setPage_arenas hhead
  have hhead₁ : (h.setPage (ptrToMeta obj) out.2.1 out.2.2).heads (ptrToMeta obj) =
      some (.slab out.2.1) := setPage_head hhead
  have hbut : PlacedBut (ptrToMeta obj) (h.setPage (ptrToMeta obj) out.2.1 out.2.2) := by
    rw [setPage_eq hhead]
    exact (hp.but _).move (fun c hc => update_of_ne hc _ _) fun _ _ _ _ _ _ hl => hl
  have hclass : (h.setPage (ptrToMeta obj) out.2.1 out.2.2).slabClass page.arenaId page.sizeClass =
      h.slabClass page.arenaId page.sizeClass := setPage_slabClass _ _
  have hdrained : (h.setPage (ptrToMeta obj) out.2.1 out.2.2).pools = h.pools := setPage_pools _ _ _
  rw [hcls, hclass, if_neg (Nat.not_le.2 hpage.cls_lt), if_neg (Nat.not_le.2 hpage.cls_lt)]
  rw [← hclass]
  generalize h.setPage (ptrToMeta obj) out.2.1 out.2.2 = h₁ at *
  by_cases hemptied : out.1 = true
  · rw [if_pos hemptied, if_pos hemptied]
    have hkeep : ∀ c, c ≠ ptrToMeta obj → (h₁.slabClass page.arenaId page.sizeClass).Lists c → _ :=
      fun c hc hl => hl.unlink hc
    generalize unlinkFromClass _ (ptrToMeta obj) = slab at hkeep ⊢
    have hparked : ((h₁.setClass page.arenaId page.sizeClass slab).pools page.arenaId).drained =
        (h.pools page.arenaId).drained := by
      rw [setClass_drained, hdrained]
    obtain ⟨hplaced, hshrunk⟩ := releaseSlabPage_places (hbut.setClass hkeep) hhead₁ hid
      (by rw [hparked]; exact hh.head_notMem_drained harena hhead) (hempty hemptied)
    refine ⟨hplaced, ?_⟩
    unfold releaseSlabPageReturns at hshrunk ⊢
    rw [hparked] at hshrunk
    exact hshrunk.congr harenas fun c => (owns_setClass _).trans (howns c)
  · rw [if_neg hemptied, if_neg hemptied]
    split_ifs with hfull
    · -- a page that was full and on no list
      refine ⟨?_, .of_owns harenas fun c => (owns_setClass _).trans (howns c)⟩
      refine PlacedBut.put (hbut.setClass fun _ _ hl => hl.imp_right (List.mem_cons_of_mem _)) hhead₁
        (hpos hemptied) fun _ => Or.inr ?_
      rw [hcls, hid, setClass_slabClass_self]
      exact List.mem_cons_self
    · refine ⟨hstay (hpos hemptied) ?_, .of_owns harenas howns⟩
      unfold Heap.Listed
      rw [hcls, hid]
      by_cases hwas : slabIsFull page = true
      · have hcur : (h₁.slabClass page.arenaId page.sizeClass).current = ptrToMeta obj := by
          simpa [hwas] using hfull
        exact Or.inl (hclass ▸ hcur)
      · have hle : page.usedCount ≤ page.capacity := by
          rw [hpage.count_eq, ← Finset.card_range page.capacity]
          exact Finset.card_le_card fun t ht => Finset.mem_range.2 (hpage.used_lt t ht)
        have hne : page.usedCount ≠ page.capacity := by simpa [slabIsFull] using hwas
        exact hp.listed _ _ hhead (lt_of_le_of_ne hle hne)

end V8Malloc
