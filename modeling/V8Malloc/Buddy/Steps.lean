import V8Malloc.Buddy.Invariant

/-!
# Elementary steps of the buddy allocator

Every operation is a sequence of list pushes and removals and of bit changes.
`Step` collects what each of them guarantees, and steps compose.
-/
namespace V8Malloc

open ByteMemory BitWord LinkedList BlockTree Function

variable {h h' h'' : BuddyHeap} {transit transit' transit'' : ℕ → ℕ → Prop} {l i k j a p : ℕ}

/-- What one step from `h` to `h'` keeps, with the blocks in transit before and after. -/
structure Step (h : BuddyHeap) (transit : ℕ → ℕ → Prop) (h' : BuddyHeap)
    (transit' : ℕ → ℕ → Prop) : Prop where
  inv : BuddyInv h' transit'
  complete : ListsComplete h transit → ListsComplete h' transit'
  frame : ∀ a, Kept h.buddy a → h'.mem a = h.mem a
  alloc_eq : h'.buddy.allocBitmap = h.buddy.allocBitmap
  base_eq : h'.buddy.arenaBase = h.buddy.arenaBase
  plain : Plain h.mem h'.mem

theorem Step.refl (hinv : BuddyInv h transit) : Step h transit h transit :=
  ⟨hinv, id, fun _ _ => rfl, rfl, rfl, Plain.refl _⟩

theorem kept_congr {b b' : Buddy} (halloc : b'.allocBitmap = b.allocBitmap)
    (hbase : b'.arenaBase = b.arenaBase) : Kept b' a ↔ Kept b a := by
  simp only [Kept, InArena, InBlock, Buddy.allocAt, halloc, hbase]

theorem Step.trans (h₁ : Step h transit h' transit') (h₂ : Step h' transit' h'' transit'') :
    Step h transit h'' transit'' where
  inv := h₂.inv
  complete := fun hc => h₂.complete (h₁.complete hc)
  frame := fun a ha =>
    (h₂.frame a ((kept_congr h₁.alloc_eq h₁.base_eq).2 ha)).trans (h₁.frame a ha)
  alloc_eq := h₂.alloc_eq.trans h₁.alloc_eq
  base_eq := h₂.base_eq.trans h₁.base_eq
  plain := h₁.plain.trans h₂.plain

theorem BuddyInv.alloc_leaf (hinv : BuddyInv h transit) (l i : ℕ) (ha : h.buddy.allocAt l i) :
    h.buddy.leaf l i := hinv.busy_leaf l i (Or.inl ha)

theorem BuddyInv.head_mem_idle (hinv : BuddyInv h transit) (l : ℕ)
    (hne : h.buddy.freeLists l ≠ 0) : h.buddy.freeLists l ∈ idleNodes h.buddy :=
  freeNodes_subset_idle ((hinv.links.linked l).head_mem hne)

theorem BuddyInv.head_lt (hinv : BuddyInv h transit) (l : ℕ) :
    h.buddy.freeLists l < 2 ^ 64 := by
  by_cases hz : h.buddy.freeLists l = 0
  · rw [hz]
    norm_num
  · exact (nodes_idle hinv.arena).lt _ (hinv.head_mem_idle l hz)

/-- New list heads and links over unchanged bits. -/
theorem BuddyInv.relink (hinv : BuddyInv h transit) {heads : ℕ → ℕ} {m' : Mem}
    (htransit : ∀ l i, transit' l i → h.buddy.leaf l i ∧ ¬ h.buddy.allocAt l i)
    (hlinks : Family 0 (nodeNext m') (nodePrev m') heads (freeNodes h.buddy transit')) :
    BuddyInv ⟨{ h.buddy with freeLists := heads }, m'⟩ transit' where
  arena := ⟨hinv.arena.pos, hinv.arena.aligned, hinv.arena.fits, hinv.arena.size⟩
  wf := hinv.wf
  busy_leaf := fun l i hb => hb.elim (hinv.alloc_leaf l i) fun ht => (htransit l i ht).1
  transit_idle := fun l i ht => (htransit l i ht).2
  links := hlinks

theorem ListsComplete.relink {heads : ℕ → ℕ} {m' : Mem}
    (hc : FamilyComplete 0 (nodeNext m') heads (freeNodes h.buddy transit')) :
    ListsComplete ⟨{ h.buddy with freeLists := heads }, m'⟩ transit' := hc

/-- Memory changes that keep the link words of the free blocks. -/
theorem BuddyInv.rewrite (hinv : BuddyInv h transit) (m' : Mem)
    (hm : ∀ k, ∀ y ∈ freeNodes h.buddy transit k, ∀ a, y ≤ a → a < y + nodeSize →
      m' a = h.mem a) :
    BuddyInv ⟨h.buddy, m'⟩ transit ∧
      (ListsComplete h transit → ListsComplete ⟨h.buddy, m'⟩ transit) := by
  have hnext : ∀ k, ∀ y ∈ freeNodes h.buddy transit k, nodeNext m' y = nodeNext h.mem y :=
    fun k y hy => load_congr fun a h₁ h₂ => hm k y hy a h₁ (by unfold nodeSize; omega)
  have hprev : ∀ k, ∀ y ∈ freeNodes h.buddy transit k, nodePrev m' y = nodePrev h.mem y :=
    fun k y hy => load_congr fun a h₁ h₂ => hm k y hy a (by omega) (by unfold nodeSize; omega)
  refine ⟨hinv.relink ?_ (hinv.links.congr hnext hprev),
    fun hc => ListsComplete.relink (hinv.links.complete_congr hc hnext)⟩
  exact fun k j ht => ⟨hinv.busy_leaf k j (Or.inr ht), hinv.transit_idle k j ht⟩

/-! ### Pushing a block in transit -/

/-- The blocks still in transit once `(l, i)` has arrived. -/
def without (transit : ℕ → ℕ → Prop) (l i : ℕ) : ℕ → ℕ → Prop :=
  fun k j => transit k j ∧ ¬(k = l ∧ j = i)

theorem free_without (hinv : BuddyInv h transit) (ht : transit l i) :
    h.buddy.free (without transit l i) k j ↔ h.buddy.free transit k j ∨ (k = l ∧ j = i) := by
  constructor
  · rintro ⟨hleaf, hbusy⟩
    by_cases hself : k = l ∧ j = i
    · exact Or.inr hself
    · exact Or.inl ⟨hleaf, fun hb => hbusy (hb.imp_right fun ht' => ⟨ht', hself⟩)⟩
  · rintro (⟨hleaf, hbusy⟩ | ⟨rfl, rfl⟩)
    · exact ⟨hleaf, fun hb => hbusy (hb.imp_right fun ht' => ht'.1)⟩
    · refine ⟨hinv.busy_leaf k j (Or.inr ht), ?_⟩
      rintro (ha | hw)
      · exact hinv.transit_idle k j ht ha
      · exact hw.2 ⟨rfl, rfl⟩

theorem freeNodes_without (hinv : BuddyInv h transit) (ht : transit l i) :
    freeNodes h.buddy (without transit l i) = update (freeNodes h.buddy transit) l
      (insert (indexToNode h.buddy i l) (freeNodes h.buddy transit l)) := by
  funext k
  ext x
  by_cases hk : k = l
  · subst hk
    rw [update_self]
    constructor
    · rintro ⟨j, hf, rfl⟩
      rcases (free_without hinv ht).1 hf with hf | ⟨-, rfl⟩
      · exact Or.inr ⟨j, hf, rfl⟩
      · exact Or.inl rfl
    · rintro (rfl | ⟨j, hf, rfl⟩)
      · exact ⟨i, (free_without hinv ht).2 (Or.inr ⟨rfl, rfl⟩), rfl⟩
      · exact ⟨j, (free_without hinv ht).2 (Or.inl hf), rfl⟩
  · rw [update_of_ne hk]
    refine exists_congr fun j => and_congr_left fun _ => ?_
    rw [free_without hinv ht]
    exact or_iff_left fun h => hk h.1

theorem BuddyInv.transit_node (hinv : BuddyInv h transit) (ht : transit l i) :
    indexToNode h.buddy i l ∈ idleNodes h.buddy ∧
      ∀ k, indexToNode h.buddy i l ∉ freeNodes h.buddy transit k := by
  have hleaf := hinv.busy_leaf l i (Or.inr ht)
  refine ⟨⟨l, i, hleaf, hinv.transit_idle l i ht, rfl⟩, fun k hmem => ?_⟩
  exact ((mem_freeNodes hleaf).1 hmem).2.2 (Or.inr ht)

theorem push_step (hinv : BuddyInv h transit) (ht : transit l i) :
    Step h transit (h.push l (indexToNode h.buddy i l)) (without transit l i) := by
  have hN := nodes_idle hinv.arena
  obtain ⟨hnode, hfresh⟩ := hinv.transit_node ht
  have hsets := freeNodes_without hinv ht
  generalize indexToNode h.buddy i l = node at hnode hfresh hsets ⊢
  have hhead := hinv.head_mem_idle l
  have hne : h.buddy.freeLists l ≠ node := by
    rintro rfl
    exact hfresh l ((hinv.links.linked l).head_mem (hN.ne_zero _ hnode))
  have hother : ∀ k, ∀ y ∈ freeNodes h.buddy transit k, y ≠ node := by
    rintro k y hy rfl
    exact hfresh k hy
  have hnext : ∀ k, ∀ y ∈ freeNodes h.buddy transit k,
      nodeNext (listPush h.mem (h.buddy.freeLists l) node).1 y = nodeNext h.mem y := by
    intro k y hy
    rw [listPush_next hN hnode hhead (freeNodes_subset_idle hy) (hinv.head_lt l),
      if_neg (hother k y hy)]
  have hprev : ∀ k, ∀ y ∈ freeNodes h.buddy transit k,
      nodePrev (listPush h.mem (h.buddy.freeLists l) node).1 y =
        if y = h.buddy.freeLists l then node else nodePrev h.mem y := by
    intro k y hy
    rw [listPush_prev hN hnode hhead (freeNodes_subset_idle hy) hne, if_neg (hother k y hy)]
  have hself : nodeNext (listPush h.mem (h.buddy.freeLists l) node).1 node = h.buddy.freeLists l ∧
      nodePrev (listPush h.mem (h.buddy.freeLists l) node).1 node = 0 := by
    rw [listPush_next hN hnode hhead hnode (hinv.head_lt l),
      listPush_prev hN hnode hhead hnode hne]
    exact ⟨if_pos rfl, if_pos rfl⟩
  have hzero := hN.ne_zero node hnode
  have hpage : buddyMinBlock ∣ h.buddy.freeLists l := by
    by_cases h0 : h.buddy.freeLists l = 0
    · rw [h0]
      exact dvd_zero _
    · exact idleNodes_page hinv.arena (hhead h0)
  refine ⟨hinv.relink (fun k j hw => ?_) ?_, fun hc => ListsComplete.relink ?_, fun a ha => ?_,
    rfl, rfl, plain_listPush (idleNodes_page hinv.arena hnode) hpage⟩
  · exact ⟨hinv.busy_leaf k j (Or.inr hw.1), hinv.transit_idle k j hw.1⟩
  · rw [hsets]
    exact hinv.links.push hfresh hzero hself hnext hprev
  · rw [hsets]
    exact hinv.links.complete_push hc hzero hself.1 hnext
  · exact onlyNodes_kept hinv.alloc_leaf (onlyNodes_listPush hnode hhead) ha

/-! ### Taking a free block off its list -/

/-- The blocks in transit once `(l, i)` has left its list. -/
def including (transit : ℕ → ℕ → Prop) (l i : ℕ) : ℕ → ℕ → Prop :=
  fun k j => transit k j ∨ (k = l ∧ j = i)

theorem free_including : h.buddy.free (including transit l i) k j ↔
    h.buddy.free transit k j ∧ ¬(k = l ∧ j = i) := by
  simp only [Buddy.free, Free, Buddy.busy, including]
  tauto

theorem freeNodes_including (transit : ℕ → ℕ → Prop) (hleaf : h.buddy.leaf l i) :
    freeNodes h.buddy (including transit l i) = update (freeNodes h.buddy transit) l
      (freeNodes h.buddy transit l \ {indexToNode h.buddy i l}) := by
  funext k
  ext x
  by_cases hk : k = l
  · subst hk
    rw [update_self]
    constructor
    · rintro ⟨j, hf, rfl⟩
      obtain ⟨hf, hne⟩ := free_including.1 hf
      exact ⟨⟨j, hf, rfl⟩, fun heq => hne ⟨rfl, (node_inj hf.1 hleaf heq).2⟩⟩
    · rintro ⟨⟨j, hf, rfl⟩, hne⟩
      refine ⟨j, free_including.2 ⟨hf, ?_⟩, rfl⟩
      rintro ⟨-, rfl⟩
      exact hne rfl
  · rw [update_of_ne hk]
    refine exists_congr fun j => and_congr_left fun _ => ?_
    rw [free_including]
    exact and_iff_left fun h => hk h.1

theorem remove_step (hinv : BuddyInv h transit) (hfree : h.buddy.free transit l i) :
    Step h transit (h.remove l (indexToNode h.buddy i l)) (including transit l i) := by
  have hN := nodes_idle hinv.arena
  have hnode : indexToNode h.buddy i l ∈ freeNodes h.buddy transit l := ⟨i, hfree, rfl⟩
  have hsets := freeNodes_including transit hfree.1
  generalize indexToNode h.buddy i l = node at hnode hsets ⊢
  have hsub : ∀ z ∈ freeNodes h.buddy transit l, z ∈ idleNodes h.buddy :=
    fun z hz => freeNodes_subset_idle hz
  have hlinks := hinv.links.linked l
  have hnext : ∀ k, ∀ y ∈ freeNodes h.buddy transit k,
      nodeNext (listRemove h.mem (h.buddy.freeLists l) node).1 y =
        if y = nodePrev h.mem node then nodeNext h.mem node else nodeNext h.mem y :=
    fun k y hy => listRemove_next hN hsub hlinks hnode (freeNodes_subset_idle hy)
  have hprev : ∀ k, ∀ y ∈ freeNodes h.buddy transit k,
      nodePrev (listRemove h.mem (h.buddy.freeLists l) node).1 y =
        if y = nodeNext h.mem node then nodePrev h.mem node else nodePrev h.mem y :=
    fun k y hy => listRemove_prev hN hsub hlinks hnode (freeNodes_subset_idle hy)
  have hhead := listRemove_head h.mem (h.buddy.freeLists l) node
  have honly := onlyNodes_listRemove hN hsub hlinks hnode
  have hplain := plain_listRemove hN hsub hlinks hnode fun z hz =>
    idleNodes_page hinv.arena (hsub z hz)
  simp only [BuddyHeap.remove]
  generalize listRemove h.mem (h.buddy.freeLists l) node = out at hnext hprev hhead honly hplain ⊢
  refine ⟨hinv.relink ?_ ?_, fun hc => ListsComplete.relink ?_, fun a ha => ?_, rfl, rfl, hplain⟩
  · rintro k j (ht | ⟨rfl, rfl⟩)
    · exact ⟨hinv.busy_leaf k j (Or.inr ht), hinv.transit_idle k j ht⟩
    · exact ⟨hfree.1, fun ha => hfree.2 (Or.inl ha)⟩
  · rw [hsets, hhead]
    exact hinv.links.remove hnode hnext hprev
  · rw [hsets, hhead]
    exact hinv.links.complete_remove hnode hnext hc
  · exact onlyNodes_kept hinv.alloc_leaf honly ha

theorem remove_merged {node : ℕ} (hm : FullyMerged h.buddy transit) :
    FullyMerged (h.remove l node).buddy (including transit l i) := by
  rintro c q ⟨h₁, h₂⟩
  exact hm c q ⟨(free_including.1 h₁).1, (free_including.1 h₂).1⟩

/-- Popping a nonempty list takes its head into transit. -/
theorem pop_step (hinv : BuddyInv h none₂) (hne : h.buddy.freeLists l ≠ 0) :
    ∃ i, h.buddy.free none₂ l i ∧ (h.pop l).1 = indexToNode h.buddy i l ∧
      Step h none₂ (h.pop l).2 (only l i) ∧
      (FullyMerged h.buddy none₂ → FullyMerged (h.pop l).2.buddy (only l i)) := by
  obtain ⟨i, hfree, hhead⟩ := (hinv.links.linked l).head_mem hne
  have hfirst := (hinv.links.linked l).head_prev hne
  have hstep := remove_step hinv hfree
  have hpop : h.pop l = (indexToNode h.buddy i l, h.remove l (indexToNode h.buddy i l)) := by
    simp only [BuddyHeap.pop, BuddyHeap.remove, listPop_eq_listRemove hne hfirst, ← hhead]
  have hinc : including none₂ l i = only l i := by
    funext k j
    simp [including, none₂, only]
  refine ⟨i, hfree, by rw [hpop], ?_⟩
  rw [hpop, ← hinc]
  exact ⟨hstep, remove_merged⟩

/-! ### Bit changes -/

/-- Both halves of block `(l + 1, p)`. -/
def halves (l p : ℕ) : ℕ → ℕ → Prop := fun k j => k = l ∧ j / 2 = p

theorem leaf_index_lt (hleaf : h.buddy.leaf l i) : i < 64 := by
  have hlt := hleaf.1.index_lt
  have hpow : 2 ^ (buddyTop - l) ≤ 2 ^ 6 := Nat.pow_le_pow_right (by norm_num) (Nat.sub_le _ _)
  omega

theorem splitAt_setSplit (hi : i < 64) : (h.setSplit l i).buddy.splitAt k j ↔
    h.buddy.splitAt k j ∨ (k = l ∧ j = i) := by
  by_cases hk : k = l
  · subst hk
    simp [Buddy.splitAt, BuddyHeap.setSplit, getLsbD_setBit _ hi]
  · simp [Buddy.splitAt, BuddyHeap.setSplit, hk]

theorem splitAt_clearSplit : (h.clearSplit l i).buddy.splitAt k j ↔
    h.buddy.splitAt k j ∧ ¬(k = l ∧ j = i) := by
  by_cases hk : k = l
  · subst hk
    simp [Buddy.splitAt, BuddyHeap.clearSplit, getLsbD_clearBit]
  · simp [Buddy.splitAt, BuddyHeap.clearSplit, hk]

theorem allocAt_setAlloc (hi : i < 64) : (h.setAlloc l i).buddy.allocAt k j ↔
    h.buddy.allocAt k j ∨ (k = l ∧ j = i) := by
  by_cases hk : k = l
  · subst hk
    simp [Buddy.allocAt, BuddyHeap.setAlloc, getLsbD_setBit _ hi]
  · simp [Buddy.allocAt, BuddyHeap.setAlloc, hk]

theorem allocAt_clearAlloc : (h.clearAlloc l i).buddy.allocAt k j ↔
    h.buddy.allocAt k j ∧ ¬(k = l ∧ j = i) := by
  by_cases hk : k = l
  · subst hk
    simp [Buddy.allocAt, BuddyHeap.clearAlloc, getLsbD_clearBit]
  · simp [Buddy.allocAt, BuddyHeap.clearAlloc, hk]

/-- Other bits over the same lists, with the same free blocks. -/
structure Rebits (h : BuddyHeap) (transit : ℕ → ℕ → Prop) (h' : BuddyHeap)
    (transit' : ℕ → ℕ → Prop) : Prop where
  inv : BuddyInv h' transit'
  free_iff : ∀ k j, h'.buddy.free transit' k j ↔ h.buddy.free transit k j
  mem_eq : h'.mem = h.mem
  base_eq : h'.buddy.arenaBase = h.buddy.arenaBase
  lists_eq : h'.buddy.freeLists = h.buddy.freeLists

theorem freeNodes_congr {b b' : Buddy} (hbase : b'.arenaBase = b.arenaBase)
    (hfree : ∀ k j, b'.free transit' k j ↔ b.free transit k j) :
    freeNodes b' transit' = freeNodes b transit := by
  funext k
  ext x
  simp only [freeNodes, indexToNode, hbase, hfree]

theorem BuddyInv.rebits (hinv : BuddyInv h transit) (hbase : h'.buddy.arenaBase = h.buddy.arenaBase)
    (hsize : h'.buddy.arenaSize = h.buddy.arenaSize)
    (hlists : h'.buddy.freeLists = h.buddy.freeLists) (hmem : h'.mem = h.mem)
    (hwf : WellFormed buddyTop h'.buddy.splitAt)
    (hbusy : ∀ l i, h'.buddy.busy transit' l i → h'.buddy.leaf l i)
    (hidle : ∀ l i, transit' l i → ¬ h'.buddy.allocAt l i)
    (hfree : ∀ k j, h'.buddy.free transit' k j ↔ h.buddy.free transit k j) :
    Rebits h transit h' transit' := by
  refine ⟨⟨⟨?_, ?_, ?_, ?_⟩, hwf, hbusy, hidle, ?_⟩, hfree, hmem, hbase, hlists⟩
  · exact hbase ▸ hinv.arena.pos
  · exact hbase ▸ hinv.arena.aligned
  · exact hbase ▸ hinv.arena.fits
  · exact hsize.trans hinv.arena.size
  · rw [hmem, hlists, freeNodes_congr hbase hfree]
    exact hinv.links

theorem Rebits.complete (hr : Rebits h transit h' transit') (hc : ListsComplete h transit) :
    ListsComplete h' transit' := by
  unfold ListsComplete
  rw [hr.mem_eq, hr.lists_eq, freeNodes_congr hr.base_eq hr.free_iff]
  exact hc

theorem Rebits.merged (hr : Rebits h transit h' transit') (hm : FullyMerged h.buddy transit) :
    FullyMerged h'.buddy transit' := by
  rintro l p ⟨h₁, h₂⟩
  exact hm l p ⟨(hr.free_iff _ _).1 h₁, (hr.free_iff _ _).1 h₂⟩

theorem Rebits.step (hr : Rebits h transit h' transit')
    (halloc : h'.buddy.allocBitmap = h.buddy.allocBitmap) : Step h transit h' transit' :=
  ⟨hr.inv, hr.complete, fun _ _ => by rw [hr.mem_eq], halloc, hr.base_eq,
    hr.mem_eq ▸ Plain.refl _⟩

theorem setSplit_rebits (hinv : BuddyInv h (only (l + 1) p)) :
    Rebits h (only (l + 1) p) (h.setSplit (l + 1) p) (halves l p) := by
  have hleaf := hinv.busy_leaf (l + 1) p (Or.inr ⟨rfl, rfl⟩)
  have hs : ∀ k j, (h.setSplit (l + 1) p).buddy.splitAt k j ↔
      h.buddy.splitAt k j ∨ (k = l + 1 ∧ j = p) :=
    fun k j => splitAt_setSplit (leaf_index_lt hleaf)
  have hlf : ∀ k j, (h.setSplit (l + 1) p).buddy.leaf k j ↔
      h.buddy.leaf k j ∧ ¬(k = l + 1 ∧ j = p) ∨ (k = l ∧ j / 2 = p) :=
    fun k j => leaf_split hs hinv.wf hleaf
  have hnotalloc : ∀ j, j / 2 = p → ¬ h.buddy.allocAt l j := fun j hj ha =>
    not_node_half hs hleaf hj (hinv.alloc_leaf l j ha).1
  have hparent : ¬ h.buddy.allocAt (l + 1) p := hinv.transit_idle _ _ ⟨rfl, rfl⟩
  refine hinv.rebits rfl rfl rfl rfl (wellFormed_split hs hinv.wf hleaf) ?_ ?_ ?_
  · rintro k j (ha | hh)
    · refine (hlf k j).2 (Or.inl ⟨hinv.alloc_leaf k j ha, ?_⟩)
      rintro ⟨rfl, rfl⟩
      exact hparent ha
    · exact (hlf k j).2 (Or.inr hh)
  · rintro k j ⟨rfl, hj⟩
    exact hnotalloc j hj
  · intro k j
    change (h.setSplit (l + 1) p).buddy.leaf k j ∧ ¬(h.buddy.allocAt k j ∨ halves l p k j) ↔
      h.buddy.leaf k j ∧ ¬(h.buddy.allocAt k j ∨ only (l + 1) p k j)
    rw [hlf]
    constructor
    · rintro ⟨⟨hk, hne⟩ | hh, hbusy⟩
      · exact ⟨hk, fun hb => hb.elim (fun ha => hbusy (Or.inl ha)) hne⟩
      · exact absurd (Or.inr hh) hbusy
    · rintro ⟨hk, hbusy⟩
      refine ⟨Or.inl ⟨hk, fun ho => hbusy (Or.inr ho)⟩, ?_⟩
      rintro (ha | ⟨rfl, hj⟩)
      · exact hbusy (Or.inl ha)
      · exact not_node_half hs hleaf hj hk.1

theorem clearSplit_rebits (hinv : BuddyInv h (halves l p)) (hl : l < buddyTop) :
    Rebits h (halves l p) (h.clearSplit (l + 1) p) (only (l + 1) p) := by
  have hleaves : ∀ j, j / 2 = p → h.buddy.leaf l j := fun j hj =>
    hinv.busy_leaf l j (Or.inr ⟨rfl, hj⟩)
  have hnode := (hleaves (2 * p) (by omega)).1
  obtain ⟨hpar, hspl⟩ := (node_half hl).1 hnode
  rw [Nat.mul_div_cancel_left p (by norm_num)] at hpar hspl
  have hs : ∀ k j, (h.clearSplit (l + 1) p).buddy.splitAt k j ↔
      h.buddy.splitAt k j ∧ ¬(k = l + 1 ∧ j = p) := fun k j => splitAt_clearSplit
  have hlf : ∀ k j, (h.clearSplit (l + 1) p).buddy.leaf k j ↔
      h.buddy.leaf k j ∧ ¬(k = l ∧ j / 2 = p) ∨ (k = l + 1 ∧ j = p) :=
    fun k j => leaf_merge hs hleaves hpar
  have hparent : ¬ h.buddy.allocAt (l + 1) p := fun ha => (hinv.alloc_leaf _ _ ha).2 hspl
  refine hinv.rebits rfl rfl rfl rfl (wellFormed_merge hs hinv.wf hleaves) ?_ ?_ ?_
  · rintro k j (ha | ho)
    · refine (hlf k j).2 (Or.inl ⟨hinv.alloc_leaf k j ha, ?_⟩)
      exact fun hh => hinv.transit_idle k j hh ha
    · exact (hlf k j).2 (Or.inr ho)
  · rintro k j ⟨rfl, rfl⟩
    exact hparent
  · intro k j
    change (h.clearSplit (l + 1) p).buddy.leaf k j ∧ ¬(h.buddy.allocAt k j ∨ only (l + 1) p k j) ↔
      h.buddy.leaf k j ∧ ¬(h.buddy.allocAt k j ∨ halves l p k j)
    rw [hlf]
    constructor
    · rintro ⟨⟨hk, hne⟩ | ho, hbusy⟩
      · exact ⟨hk, fun hb => hb.elim (fun ha => hbusy (Or.inl ha)) hne⟩
      · exact absurd (Or.inr ho) hbusy
    · rintro ⟨hk, hbusy⟩
      refine ⟨Or.inl ⟨hk, fun hh => hbusy (Or.inr hh)⟩, ?_⟩
      rintro (ha | ⟨rfl, rfl⟩)
      · exact hbusy (Or.inl ha)
      · exact hk.2 hspl

theorem setAlloc_rebits (hinv : BuddyInv h (only l i)) :
    Rebits h (only l i) (h.setAlloc l i) none₂ := by
  have hleaf := hinv.busy_leaf l i (Or.inr ⟨rfl, rfl⟩)
  have hb : ∀ k j, (h.setAlloc l i).buddy.busy none₂ k j ↔ h.buddy.busy (only l i) k j := by
    intro k j
    simp only [Buddy.busy, allocAt_setAlloc (leaf_index_lt hleaf), none₂, or_false, only]
  refine hinv.rebits rfl rfl rfl rfl hinv.wf ?_ (fun _ _ hf => hf.elim) ?_
  · exact fun k j hbusy => hinv.busy_leaf k j ((hb k j).1 hbusy)
  · exact fun k j => and_congr_right fun _ => not_congr (hb k j)

theorem clearAlloc_rebits (hinv : BuddyInv h none₂) (ha : h.buddy.allocAt l i) :
    Rebits h none₂ (h.clearAlloc l i) (only l i) := by
  have hb : ∀ k j, (h.clearAlloc l i).buddy.busy (only l i) k j ↔ h.buddy.busy none₂ k j := by
    intro k j
    simp only [Buddy.busy, allocAt_clearAlloc, none₂, or_false, only]
    constructor
    · rintro (⟨h₁, -⟩ | ⟨rfl, rfl⟩)
      · exact h₁
      · exact ha
    · intro h₁
      by_cases hself : k = l ∧ j = i
      · exact Or.inr hself
      · exact Or.inl ⟨h₁, hself⟩
  refine hinv.rebits rfl rfl rfl rfl hinv.wf ?_ ?_ ?_
  · exact fun k j hbusy => hinv.busy_leaf k j ((hb k j).1 hbusy)
  · rintro k j ⟨rfl, rfl⟩ ha'
    exact (allocAt_clearAlloc.1 ha').2 ⟨rfl, rfl⟩
  · exact fun k j => and_congr_right fun _ => not_congr (hb k j)

end V8Malloc
