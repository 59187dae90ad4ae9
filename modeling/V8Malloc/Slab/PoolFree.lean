import V8Malloc.Slab.PoolDraw

/-!
# Frees and refills of the slab pool

A free takes one block away and may park or release its page. A refill draws
objects one by one and links them to a chain.
-/
namespace V8Malloc

open ByteMemory LinkedList Function

variable {h h' : Heap} {blk : Blocks} {a b x n arena cls obj : ℕ} {k : RegionKind} {g : Grant}
variable {page page' : PageMeta} {m' : Mem} {used : Finset ℕ} {uafActive : Bool} {slab : SlabClass}

/-- Changes inside one block leave the others alone. -/
theorem HeapInv.preserved_others (hh : HeapInv h blk) (ha : blk a = some g)
    (hframe : SameOutside a g.bytes h.mem m') :
    Preserved (update blk a none) h.mem m' := by
  intro a' g' ha' x hlo hhi
  by_cases heq : a' = a
  · subst heq
    rw [update_self] at ha'
    cases ha'
  · rw [update_of_ne heq] at ha'
    have happ := hh.blocks_apart ha ha' (Ne.symm heq)
    exact hframe x (by omega)

/-! ### Pages that leave the pool -/

/-- The page at `b` is on no list. -/
def Heap.Unlisted (h : Heap) (b : ℕ) : Prop := ∀ arena < arenaCount, ∀ cls < mediumFirstClass,
  b ≠ (h.slabClass arena cls).current ∧ b ∉ (h.slabClass arena cls).partials

theorem ListsOk.drop (hl : ListsOk h) (hheads : h'.heads = update h.heads b none)
    (hclass : ∀ arena cls, h'.slabClass arena cls = h.slabClass arena cls)
    (hfree : h.Unlisted b) : ListsOk h' := by
  intro arena ha cls hc
  rw [hclass]
  refine (hl arena ha cls hc).congr fun c hcm => ?_
  rw [hheads]
  refine update_of_ne ?_ _ _
  rintro rfl
  rcases hcm with rfl | hmem
  · exact (hfree arena ha cls hc).1 rfl
  · exact (hfree arena ha cls hc).2 hmem

theorem HeapInv.head_notMem_drained (hh : HeapInv h blk) (harena : arena < arenaCount)
    (hhead : h.heads b = some (.slab page)) : b ∉ (h.pools arena).drained.map Prod.fst := by
  intro hmem
  obtain ⟨entry, hentry, rfl⟩ := List.mem_map.1 hmem
  have hpos : 0 < pageSize := by decide
  obtain ⟨hk, -⟩ := hh.layout.apart _ _ _ _ _ _ (.slab hhead) (.parked harena hentry)
    (by omega) (by omega)
  cases hk

/-- A page without blocks that is on no list is parked or goes back to its source. -/
theorem releaseSlabPage_spec (hh : HeapInv h blk) (harena : arena < arenaCount)
    (hhead : h.heads b = some (.slab page)) (hempty : ∀ a, ptrToMeta a = b → blk a = none)
    (hfree : h.Unlisted b) :
    HeapInv (releaseSlabPage h arena b) blk ∧
      SameOutside b pageSize h.mem (releaseSlabPage h arena b).mem := by
  have hregion : h.Region .slab b pageSize := .slab hhead
  have hb0 : b ≠ 0 := Nat.pos_iff_ne_zero.1 (hh.layout.fits _ _ _ hregion).2.2.1
  simp only [releaseSlabPage]
  split_ifs with hroom
  · have hframe : SameOutside b pageSize h.mem (adviseDontNeed h.mem b pageSize) := by
      unfold adviseDontNeed
      rw [if_neg (by rintro (h | h) <;> [exact hb0 h; cases h])]
      exact sameOutside_fill _ _ _ _
    refine ⟨hh.dropHeader rfl rfl ?_ ?_ hregion (by decide) hframe (fun _ _ => rfl) hempty, hframe⟩
    · refine Layout.swap (.parked arena) hh.layout hregion (fun k c n' hr => ?_) (fun arena' ha => ?_)
        hh.layout.cached
      · cases hr with
        | slab hhead' =>
          obtain ⟨hc, hhead'⟩ := dropped_head hhead'
          exact Or.inl ⟨.slab hhead', fun hself => hc hself.2⟩
        | @parked arena' _ _ ha hmem =>
          rw [setDrained_drained] at hmem
          split_ifs at hmem with hsame
          · subst hsame
            rcases List.mem_cons.1 hmem with heq | hmem
            · cases heq
              exact Or.inr ⟨rfl, rfl, rfl⟩
            · exact Or.inl ⟨.parked ha hmem, by simp⟩
          · exact Or.inl ⟨.parked ha hmem, by simp⟩
        | large hhead' =>
          obtain ⟨hc, hhead'⟩ := dropped_head hhead'
          exact Or.inl ⟨.large hhead', fun hself => hc hself.2⟩
        | cached hmem => exact Or.inl ⟨.cached hmem, by simp⟩
        | arena hu => exact Or.inl ⟨.arena hu, by simp⟩
      · rw [setDrained_drained]
        split_ifs with hsame
        · subst hsame
          exact List.nodup_cons.2 ⟨hh.head_notMem_drained ha hhead, hh.layout.drained arena' ha⟩
        · exact hh.layout.drained arena' ha
    · exact hh.lists.drop rfl (fun arena' cls' => setDrained_slabClass arena' cls' _) hfree
  · refine ⟨hh.dropHeader rfl rfl ?_ (hh.lists.drop rfl (fun _ _ => rfl) hfree) hregion (by decide)
      (SameOutside.refl _ _ _) (fun _ _ => rfl) hempty, SameOutside.refl _ _ _⟩
    refine hh.layout.mono (fun k c n hr => ?_) hh.layout.drained hh.layout.cached
    cases hr with
    | slab hhead' => exact .slab (dropped_head hhead').2
    | parked ha hmem => exact .parked ha hmem
    | large hhead' => exact .large (dropped_head hhead').2
    | cached hmem => exact .cached hmem
    | arena hu => exact .arena hu

theorem drainedTick_fst {n : ℕ} {e e' : ℕ × ℕ} (htick : drainedTick n e = some e') :
    e'.1 = e.1 := by
  simp only [drainedTick] at htick
  split_ifs at htick
  all_goals
    cases htick
    rfl

/-! ### Frees -/

theorem ClassOk.unlink (hok : ClassOk h arena cls slab) (hlayout : Layout h) :
    ClassOk h arena cls (unlinkFromClass slab b) ∧ (b ≠ 0 → b ≠ (unlinkFromClass slab b).current) ∧
      b ∉ (unlinkFromClass slab b).partials := by
  have hzero : 0 ∉ slab.partials := by
    intro hmem
    obtain ⟨⟨p, hp, -⟩, -⟩ := hok.partials 0 hmem
    exact lt_irrefl _ (hlayout.fits _ _ _ (.slab hp)).2.2.1
  unfold unlinkFromClass
  split_ifs with hcur
  · subst hcur
    exact ⟨⟨fun hne => absurd rfl hne, hok.partials, hok.nodup, hzero⟩, fun h0 => h0, hok.apart⟩
  · refine ⟨⟨hok.current, fun c hc => hok.partials c (List.mem_of_mem_erase hc),
      hok.nodup.erase b, fun hc => hok.apart (List.mem_of_mem_erase hc)⟩, fun _ => Ne.symm hcur, ?_⟩
    exact fun hmem => (hok.nodup.mem_erase_iff.1 hmem).1 rfl

/-- The page once the block at `obj` was given back. -/
structure TakenBack (h : Heap) (blk : Blocks) (page : PageMeta) (obj : ℕ)
    (out : Bool × PageMeta × Mem) : Prop where
  inv : HeapInv (h.setPage (ptrToMeta obj) out.2.1 out.2.2) (update blk obj none)
  preserved : Preserved (update blk obj none) h.mem out.2.2
  empty : out.1 = true → ∀ a, ptrToMeta a = ptrToMeta obj → update blk obj none a = none
  cls_eq : out.2.1.sizeClass = page.sizeClass
  arena_eq : out.2.1.arenaId = page.arenaId
  room : out.2.1.usedCount < out.2.1.capacity
  occupied : out.1 ≠ true → 0 < out.2.1.usedCount

theorem HeapInv.pageFree (uafActive : Bool) (hh : HeapInv h blk)
    (hhead : h.heads (ptrToMeta obj) = some (.slab page)) (ha : blk obj = some g) :
    TakenBack h blk page obj (slabFreeDispatch uafActive h.mem (ptrToMeta obj) page obj) := by
  obtain ⟨harena, used, hpage, hiff⟩ := hh.headers _ _ hhead
  have hdvd := (hh.layout.fits _ _ _ (.slab hhead)).1
  obtain ⟨s, hs, haddr, hg⟩ := (hiff obj g rfl).1 ha
  have hback := slabFreeDispatch_spec uafActive hpage hs
  rw [← haddr] at hback
  generalize slabFreeDispatch uafActive h.mem (ptrToMeta obj) page obj = out at hback
  obtain ⟨hemptied, hafter, hcls, hid, -, hframe⟩ := hback
  rw [← haddr] at hframe
  have hslot : ∀ t, out.2.1.slotAt (ptrToMeta obj) t = page.slotAt (ptrToMeta obj) t := fun t => by
    unfold PageMeta.slotAt
    rw [hcls]
  have hgrant : out.2.1.grant = page.grant := by
    unfold PageMeta.grant
    rw [hafter.size_eq, hpage.size_eq, hcls, hid]
  have hroom : out.2.1.usedCount < out.2.1.capacity := by
    rw [hafter.count_eq, hafter.cap_eq, hcls, ← hpage.cap_eq]
    have hsub : used.erase s ⊆ (Finset.range page.capacity).erase s :=
      Finset.erase_subset_erase s fun t ht => Finset.mem_range.2 (hpage.used_lt t ht)
    have hcard := Finset.card_le_card hsub
    have hlt := hpage.used_lt s hs
    rw [Finset.card_erase_of_mem (Finset.mem_range.2 hlt), Finset.card_range] at hcard
    omega
  have hblk : ∀ a g, ptrToMeta a = ptrToMeta obj → (update blk obj none a = some g ↔
      ∃ t ∈ used.erase s, a = out.2.1.slotAt (ptrToMeta obj) t ∧ g = out.2.1.grant) := by
    intro a g hbase
    rw [hgrant]
    by_cases heq : a = obj
    · subst heq
      rw [update_self]
      refine ⟨fun hsome => absurd hsome (by simp), ?_⟩
      rintro ⟨t, ht, hat, -⟩
      rw [hslot] at hat
      exact absurd (hpage.slotAt_inj (hat.symm.trans haddr)) (Finset.ne_of_mem_erase ht)
    · rw [update_of_ne heq, hiff a g hbase]
      constructor
      · rintro ⟨t, ht, rfl, rfl⟩
        refine ⟨t, Finset.mem_erase.2 ⟨?_, ht⟩, (hslot t).symm, rfl⟩
        rintro rfl
        exact heq haddr.symm
      · rintro ⟨t, ht, rfl, rfl⟩
        exact ⟨t, Finset.mem_of_mem_erase ht, hslot t, rfl⟩
  obtain ⟨hlo, hhi⟩ := hpage.slotAt_bounds (hpage.used_lt s hs)
  rw [← haddr] at hlo hhi
  refine ⟨hh.setPage hhead hcls hid (fun _ => hroom) ?_ ?_ hafter hblk, ?_, ?_, hcls, hid, hroom,
    fun hleft => ?_⟩
  · exact hframe.mono (ptrToMeta_le obj).1 hhi
  · intro a hne
    refine update_of_ne ?_ _ _
    rintro rfl
    exact hne rfl
  · subst hg
    exact hh.preserved_others ha hframe
  · intro hout a hbase
    rw [Option.eq_none_iff_forall_ne_some]
    intro g' hg'
    obtain ⟨t, ht, -⟩ := (hblk a g' hbase).1 hg'
    rw [hemptied.1 hout, Finset.erase_singleton] at ht
    exact absurd ht (Finset.notMem_empty t)
  · rw [hafter.count_eq, Finset.card_pos, Finset.nonempty_iff_ne_empty]
    intro hnone
    exact hleft (hemptied.2
      (((Finset.erase_eq_empty_iff _ _).1 hnone).resolve_left (Finset.ne_empty_of_mem hs)))

/-- The block at `obj` goes back to its pool; the other blocks keep their bytes. -/
theorem slabPoolFree_spec (uafActive : Bool) (hh : HeapInv h blk)
    (ha : blk obj = some ⟨n, .slab cls arena⟩) :
    HeapInv (slabPoolFree uafActive h arena (ptrToMeta obj) obj).2 (update blk obj none) ∧
      Preserved (update blk obj none) h.mem
        (slabPoolFree uafActive h arena (ptrToMeta obj) obj).2.mem := by
  obtain ⟨page, hhead, rfl, rfl, -⟩ := hh.slab_header ha
  obtain ⟨harena, used, hpage, -⟩ := hh.headers _ _ hhead
  have hback := hh.pageFree uafActive hhead ha
  simp only [slabPoolFree, pageAt_eq hhead]
  generalize slabFreeDispatch uafActive h.mem (ptrToMeta obj) page obj = out at hback
  obtain ⟨hh₁, hpres, hempty, hcls, hid, hroom, -⟩ := hback
  have hhead₁ : (h.setPage (ptrToMeta obj) out.2.1 out.2.2).heads (ptrToMeta obj) =
      some (.slab out.2.1) := setPage_head hhead
  have hmem₁ : (h.setPage (ptrToMeta obj) out.2.1 out.2.2).mem = out.2.2 := setPage_mem hhead
  have hclass : ∀ arena cls, (h.setPage (ptrToMeta obj) out.2.1 out.2.2).slabClass arena cls =
      h.slabClass arena cls := setPage_slabClass
  rw [hcls, hclass]
  have hok := hh₁.lists page.arenaId harena page.sizeClass hpage.cls_lt
  rw [hclass] at hok
  generalize h.setPage (ptrToMeta obj) out.2.1 out.2.2 = h₁ at hh₁ hhead₁ hmem₁ hclass hok
  rw [← hmem₁] at hpres
  have hon : h₁.OnClass page.arenaId page.sizeClass (ptrToMeta obj) := ⟨_, hhead₁, hcls, hid⟩
  rw [if_neg (Nat.not_le.2 hpage.cls_lt)]
  split_ifs with hemptied hfull
  · obtain ⟨hok', hcur, hpart⟩ := hok.unlink hh₁.layout (b := ptrToMeta obj)
    have hb0 : ptrToMeta obj ≠ 0 :=
      Nat.pos_iff_ne_zero.1 (hh₁.layout.fits _ _ _ (.slab hhead₁)).2.2.1
    have hfree : (h₁.setClass page.arenaId page.sizeClass (unlinkFromClass
        (h.slabClass page.arenaId page.sizeClass) (ptrToMeta obj))).Unlisted (ptrToMeta obj) := by
      intro arena' ha' cls' hc'
      rw [setClass_slabClass]
      split_ifs with hsame
      · exact ⟨hcur hb0, hpart⟩
      · -- the lists of another class hold other pages
        have hother := hh₁.lists arena' ha' cls' hc'
        refine ⟨fun heq => hsame ?_, fun hmem => hsame ?_⟩
        · exact OnClass.unique (heq ▸ hother.current (heq ▸ hb0)) hon
        · exact OnClass.unique (hother.partials _ hmem).1 hon
    obtain ⟨hrel, hframe⟩ := releaseSlabPage_spec (hh₁.setClass hok') harena hhead₁
      (hempty hemptied) hfree
    have hrest : Preserved (update blk obj none) _ _ :=
      hh₁.preserved_outside (.slab hhead₁) (by decide) hframe fun a g hg => ⟨hg, fun hbase => by
        rw [hempty hemptied a hbase] at hg
        cases hg⟩
    exact ⟨hrel, fun a g hg x hlo hhi => (hrest a g hg x hlo hhi).trans (hpres a g hg x hlo hhi)⟩
  · refine ⟨hh₁.setClass ⟨hok.current, fun c hc => ?_, ?_, ?_⟩, hpres⟩
    · rcases List.mem_cons.1 hc with rfl | hc
      · exact ⟨hon, _, hhead₁, hroom⟩
      · exact hok.partials c hc
    · refine List.nodup_cons.2 ⟨fun hmem => ?_, hok.nodup⟩
      -- the page was full, and the pages of the list had room
      obtain ⟨-, page', hhead', hroom'⟩ :=
        (hh.lists page.arenaId harena page.sizeClass hpage.cls_lt).partials _ hmem
      cases hhead.symm.trans hhead'
      have hwas : page.usedCount = page.capacity := by
        simpa [slabIsFull] using (Bool.and_eq_true_iff.1 hfull).1
      omega
    · have hcur : (h.slabClass page.arenaId page.sizeClass).current ≠ ptrToMeta obj := by
        simpa using (Bool.and_eq_true_iff.1 hfull).2
      rintro (hmem : _ ∈ ptrToMeta obj :: _)
      rcases List.mem_cons.1 hmem with heq | hmem
      · exact hcur heq
      · exact hok.apart hmem
  · exact ⟨hh₁, hpres⟩

end V8Malloc
