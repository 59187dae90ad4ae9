import V8Malloc.Lib.LinkedList
import V8Malloc.Slab.Page

/-!
# What a slab page holds

A page is described by the set of its used slots. Allocation takes a slot that
is not in the set, a free removes one, and only the bytes of free slots carry
state of the page.
-/
namespace V8Malloc

open ByteMemory BitWord LinkedList Function

variable {uafActive : Bool} {base slot s a : ℕ} {page : PageMeta} {m m' : Mem}
variable {used : Finset ℕ}

/-- Slot `slot` is marked in the bitmap. -/
def Marked (bitmap : ℕ → Word) (slot : ℕ) : Prop :=
  (bitmap (slot / bitsPerWord)).getLsbD (slot % bitsPerWord) = true

/-- The address of a slot of the page. -/
def PageMeta.slotAt (page : PageMeta) (base slot : ℕ) : ℕ := slotAddr base page.sizeClass slot

/-- The page at `base` has exactly the used slots `used`. -/
structure SlabPage (base : ℕ) (page : PageMeta) (m : Mem) (used : Finset ℕ) : Prop where
  cls_lt : page.sizeClass < mediumFirstClass
  size_eq : page.objectSize = sizeClassSize page.sizeClass
  cap_eq : page.capacity = slotCapacity page.sizeClass
  pos : 0 < base
  fits : base + pageSize ≤ 2 ^ 64
  used_lt : ∀ s ∈ used, s < page.capacity
  count_eq : page.usedCount = used.card
  hint_lt : page.searchHint < bitmapWords
  tiny : page.sizeClass < smallFirstClass → ∀ slot < bitmapCapacityBits,
    (Marked page.bitmap slot ↔ slot ∈ used ∨ page.capacity ≤ slot)
  small : smallFirstClass ≤ page.sizeClass → ∃ L, Chain 0 (load64 m) page.freeListHead L ∧
    ∀ a, a ∈ L ↔ ∃ s < page.capacity, s ∉ used ∧ a = page.slotAt base s

/-! ### Addresses of slots -/

theorem SlabPage.size_pos (hp : SlabPage base page m used) : linkBytes ≤ page.objectSize := by
  rw [hp.size_eq]
  exact (slots_fit hp.cls_lt).2.2.2.2

theorem SlabPage.slotAt_bounds (hp : SlabPage base page m used) (hs : s < page.capacity) :
    base + slabHeaderSize ≤ page.slotAt base s ∧
      page.slotAt base s + page.objectSize ≤ base + pageSize := by
  obtain ⟨-, hoff, hend, -, -⟩ := slots_fit hp.cls_lt
  rw [hp.cap_eq] at hs
  rw [hp.size_eq]
  have hmul : (s + 1) * sizeClassSize page.sizeClass ≤
      slotCapacity page.sizeClass * sizeClassSize page.sizeClass := Nat.mul_le_mul_right _ hs
  rw [Nat.add_mul, Nat.one_mul] at hmul
  unfold PageMeta.slotAt slotAddr
  omega

/-- Different slots do not overlap. -/
theorem SlabPage.slotAt_apart (hp : SlabPage base page m used) {t : ℕ} (hne : s ≠ t) :
    page.slotAt base s + page.objectSize ≤ page.slotAt base t ∨
      page.slotAt base t + page.objectSize ≤ page.slotAt base s := by
  rw [hp.size_eq]
  unfold PageMeta.slotAt slotAddr
  rcases Nat.lt_or_gt_of_ne hne with hlt | hgt
  · have hmul : (s + 1) * sizeClassSize page.sizeClass ≤ t * sizeClassSize page.sizeClass :=
      Nat.mul_le_mul_right _ hlt
    rw [Nat.add_mul, Nat.one_mul] at hmul
    omega
  · have hmul : (t + 1) * sizeClassSize page.sizeClass ≤ s * sizeClassSize page.sizeClass :=
      Nat.mul_le_mul_right _ hgt
    rw [Nat.add_mul, Nat.one_mul] at hmul
    omega

theorem SlabPage.slotAt_inj (hp : SlabPage base page m used) {t : ℕ}
    (heq : page.slotAt base s = page.slotAt base t) : s = t := by
  by_contra hne
  have hsize := hp.size_pos
  unfold linkBytes at hsize
  rcases hp.slotAt_apart hne with h | h <;> omega

theorem SlabPage.slotAt_ne_zero (hp : SlabPage base page m used) (s : ℕ) :
    page.slotAt base s ≠ 0 := by
  have hpos := hp.pos
  unfold PageMeta.slotAt slotAddr
  omega

/-! ### Bytes the page depends on -/

/-- Only the first word of each free slot of a small page matters. -/
theorem SlabPage.congr (hp : SlabPage base page m used)
    (hm : smallFirstClass ≤ page.sizeClass → ∀ s < page.capacity, s ∉ used →
      ∀ a, page.slotAt base s ≤ a → a < page.slotAt base s + linkBytes → m' a = m a) :
    SlabPage base page m' used := by
  refine { hp with small := fun hsmall => ?_ }
  obtain ⟨L, hL, hall⟩ := hp.small hsmall
  refine ⟨L, hL.congr fun y hy => ?_, hall⟩
  obtain ⟨s, hs, hfree, rfl⟩ := (hall y).1 hy
  exact load_congr fun a hlo hhi => hm hsmall s hs hfree a hlo hhi

/-! ### Allocation from a tiny page -/

theorem lowestClear_some {w : Word} {b : ℕ} (h : lowestClear w = some b) :
    b < bitsPerWord ∧ w.getLsbD b = false := by
  have hmem := List.mem_range.1 (List.mem_of_find?_eq_some h)
  have hclear := List.find?_some h
  rw [Bool.not_eq_true', testBit_eq] at hclear
  exact ⟨hmem, hclear⟩

theorem lowestClear_none {w : Word} (h : lowestClear w = none) {b : ℕ} (hb : b < bitsPerWord) :
    w.getLsbD b = true := by
  have hset := List.find?_eq_none.1 h b (List.mem_range.2 hb)
  rw [Bool.not_eq_true', testBit_eq, Bool.not_eq_false] at hset
  exact hset

theorem scanWords_some {bitmap : ℕ → Word} {words : List ℕ} {word bit : ℕ}
    (h : scanWords bitmap words = some (word, bit)) :
    word ∈ words ∧ bit < bitsPerWord ∧ (bitmap word).getLsbD bit = false := by
  induction words with
  | nil => cases h
  | cons w rest ih =>
    unfold scanWords at h
    cases hw : lowestClear (bitmap w) with
    | some b =>
      rw [hw] at h
      cases h
      exact ⟨List.mem_cons_self, lowestClear_some hw⟩
    | none =>
      rw [hw] at h
      obtain ⟨hmem, hrest⟩ := ih h
      exact ⟨List.mem_cons_of_mem w hmem, hrest⟩

theorem scanWords_none {bitmap : ℕ → Word} {words : List ℕ} (h : scanWords bitmap words = none) :
    ∀ word ∈ words, ∀ bit < bitsPerWord, (bitmap word).getLsbD bit = true := by
  induction words with
  | nil => exact fun word hword => absurd hword List.not_mem_nil
  | cons w rest ih =>
    unfold scanWords at h
    cases hw : lowestClear (bitmap w) with
    | some b =>
      rw [hw] at h
      cases h
    | none =>
      rw [hw] at h
      intro word hword bit hbit
      rcases List.mem_cons.1 hword with rfl | hmem
      · exact lowestClear_none hw hbit
      · exact ih h word hmem bit hbit

/-- The scan visits every word of the bitmap and no other. -/
theorem mem_scanOrder {start word : ℕ} (hstart : start < bitmapWords) :
    word ∈ scanOrder start ↔ word < bitmapWords := by
  unfold scanOrder
  rw [List.mem_append, List.mem_range'_1, List.mem_range]
  omega

theorem slot_div_mod {word bit : ℕ} (hbit : bit < bitsPerWord) :
    (word * bitsPerWord + bit) / bitsPerWord = word ∧
      (word * bitsPerWord + bit) % bitsPerWord = bit := by
  unfold bitsPerWord at *
  omega

/-- Marking one more slot. -/
theorem marked_setBit {bitmap : ℕ → Word} {word bit : ℕ} (hbit : bit < bitsPerWord) (slot : ℕ) :
    Marked (update bitmap word (setBit (bitmap word) bit)) slot ↔
      Marked bitmap slot ∨ slot = word * bitsPerWord + bit := by
  unfold Marked
  have hdiv := Nat.div_add_mod slot bitsPerWord
  by_cases hw : slot / bitsPerWord = word
  · rw [hw, update_self, getLsbD_setBit _ hbit, Bool.or_eq_true, decide_eq_true_iff]
    apply or_congr_right
    rw [hw, Nat.mul_comm] at hdiv
    omega
  · rw [update_of_ne hw]
    have hne : slot ≠ word * bitsPerWord + bit := by
      rintro rfl
      exact hw (slot_div_mod hbit).1
    exact (or_iff_left hne).symm

theorem marked_clearBit {bitmap : ℕ → Word} {word bit : ℕ} (hbit : bit < bitsPerWord) (slot : ℕ) :
    Marked (update bitmap word (clearBit (bitmap word) bit)) slot ↔
      Marked bitmap slot ∧ slot ≠ word * bitsPerWord + bit := by
  unfold Marked
  have hdiv := Nat.div_add_mod slot bitsPerWord
  by_cases hw : slot / bitsPerWord = word
  · rw [hw, update_self, getLsbD_clearBit, Bool.and_eq_true, Bool.not_eq_true',
      decide_eq_false_iff_not]
    apply and_congr_right'
    rw [hw, Nat.mul_comm] at hdiv
    omega
  · rw [update_of_ne hw]
    have hne : slot ≠ word * bitsPerWord + bit := by
      rintro rfl
      exact hw (slot_div_mod hbit).1
    exact (and_iff_left hne).symm

/-- The page `page'` is `page` after slot `s` was handed out. -/
structure Claimed (base : ℕ) (page : PageMeta) (m : Mem) (used : Finset ℕ) (s : ℕ)
    (page' : PageMeta) : Prop where
  slot_lt : s < page.capacity
  fresh : s ∉ used
  after : SlabPage base page' m (insert s used)
  cls_eq : page'.sizeClass = page.sizeClass
  arena_eq : page'.arenaId = page.arenaId
  cpu_eq : page'.ownerCpu = page.ownerCpu

/-- A page that is full answers the null pointer; otherwise a free slot is claimed. -/
def AllocOutcome (uafActive : Bool) (base : ℕ) (page : PageMeta) (m : Mem) (used : Finset ℕ)
    (out : Except Stop (ℕ × PageMeta × Mem)) : Prop :=
  ((∀ s < page.capacity, s ∈ used) ∧ out = .ok (0, page, m)) ∨
    ∃ s page', Claimed base page m used s page' ∧
      (out = .ok (page.slotAt base s, page', m) ∨ uafActive = true ∧ out = .error .abort)

/-- The scan finds a slot that is not used. -/
theorem SlabPage.scan_some {word bit : ℕ} (hp : SlabPage base page m used)
    (htiny : page.sizeClass < smallFirstClass)
    (hscan : scanWords page.bitmap (scanOrder page.searchHint) = some (word, bit)) :
    word < bitmapWords ∧ bit < bitsPerWord ∧ word * bitsPerWord + bit < page.capacity ∧
      word * bitsPerWord + bit ∉ used ∧
      base + slabHeaderSize + (word * bitsPerWord + bit) * page.objectSize =
        page.slotAt base (word * bitsPerWord + bit) := by
  obtain ⟨hword, hbit, hclear⟩ := scanWords_some hscan
  rw [mem_scanOrder hp.hint_lt] at hword
  have hslot : word * bitsPerWord + bit < bitmapCapacityBits := by
    unfold bitmapCapacityBits bitmapWords bitsPerWord at *
    omega
  have hunmarked : ¬ Marked page.bitmap (word * bitsPerWord + bit) := by
    unfold Marked
    rw [(slot_div_mod hbit).1, (slot_div_mod hbit).2, hclear]
    decide
  have hnot := mt (hp.tiny htiny _ hslot).2 hunmarked
  refine ⟨hword, hbit, Nat.lt_of_not_le fun hle => hnot (Or.inr hle),
    fun hmem => hnot (Or.inl hmem), ?_⟩
  unfold PageMeta.slotAt slotAddr dataOffset
  rw [if_pos htiny, hp.size_eq]

theorem slabTinyAlloc_spec (uafActive : Bool) (hp : SlabPage base page m used)
    (htiny : page.sizeClass < smallFirstClass) :
    AllocOutcome uafActive base page m used (slabTinyAlloc uafActive m base page) := by
  have hcap := (slots_fit hp.cls_lt).2.2.2.1
  rw [← hp.cap_eq] at hcap
  unfold slabTinyAlloc
  cases hscan : scanWords page.bitmap (scanOrder page.searchHint) with
  | none =>
    refine Or.inl ⟨fun s hs => ?_, rfl⟩
    have hs' : s < bitmapCapacityBits := hs.trans_le hcap
    have hmarked : Marked page.bitmap s := by
      apply scanWords_none hscan
      · rw [mem_scanOrder hp.hint_lt]
        unfold bitmapCapacityBits bitmapWords bitsPerWord at *
        omega
      · exact Nat.mod_lt _ (by decide)
    exact ((hp.tiny htiny s hs').1 hmarked).resolve_right (Nat.not_le.2 hs)
  | some found =>
    obtain ⟨word, bit⟩ := found
    obtain ⟨hword, hbit, hlt, hfresh, haddr⟩ := hp.scan_some htiny hscan
    refine Or.inr ⟨word * bitsPerWord + bit, page.claim word bit,
      ⟨hlt, hfresh, ?_, rfl, rfl, rfl⟩, ?_⟩
    · refine ⟨hp.cls_lt, hp.size_eq, hp.cap_eq, hp.pos, hp.fits, ?_, ?_, hword, ?_, ?_⟩
      · intro s hs
        rcases Finset.mem_insert.1 hs with rfl | hmem
        · exact hlt
        · exact hp.used_lt s hmem
      · rw [Finset.card_insert_of_notMem hfresh, ← hp.count_eq]
        rfl
      · intro _ slot hslot'
        refine (marked_setBit hbit slot).trans ?_
        rw [hp.tiny htiny slot hslot', Finset.mem_insert]
        tauto
      · exact fun hsmall => absurd htiny (Nat.not_lt.2 hsmall)
    · simp only [claimSlot, haddr]
      rcases debugUafVerify_cases uafActive m (page.slotAt base (word * bitsPerWord + bit))
        page.objectSize with hok | ⟨huaf, hbad⟩
      · rw [hok]
        exact Or.inl rfl
      · rw [hbad]
        exact Or.inr ⟨huaf, rfl⟩

/-! ### Allocation from a small page -/

theorem slabSmallAlloc_spec (uafActive : Bool) (hp : SlabPage base page m used)
    (hsmall : smallFirstClass ≤ page.sizeClass) :
    AllocOutcome uafActive base page m used (slabSmallAlloc uafActive m page) := by
  obtain ⟨L, hL, hall⟩ := hp.small hsmall
  unfold slabSmallAlloc
  by_cases h0 : page.freeListHead = 0
  · refine Or.inl ⟨fun s hs => ?_, by simp [h0]⟩
    by_contra hfree
    have hmem := (hall (page.slotAt base s)).2 ⟨s, hs, hfree, rfl⟩
    rw [hL.nil_iff.1 h0] at hmem
    exact List.not_mem_nil hmem
  · simp only [h0, if_false]
    generalize hhead : page.freeListHead = head at *
    cases hL with
    | nil => exact absurd rfl h0
    | @cons _ xs hne htail =>
      have hnodup := (Chain.cons hne htail).nodup
      obtain ⟨s, hs, hfree, haddr⟩ := (hall head).1 List.mem_cons_self
      refine Or.inr ⟨s, { page with
        freeListHead := load64 m head, usedCount := page.usedCount + 1 },
        ⟨hs, hfree, ?_, rfl, rfl, rfl⟩, ?_⟩
      · refine ⟨hp.cls_lt, hp.size_eq, hp.cap_eq, hp.pos, hp.fits, ?_, ?_, hp.hint_lt, ?_, ?_⟩
        · intro t ht
          rcases Finset.mem_insert.1 ht with rfl | hmem
          · exact hs
          · exact hp.used_lt t hmem
        · rw [Finset.card_insert_of_notMem hfree, ← hp.count_eq]
        · exact fun htiny => absurd htiny (Nat.not_lt.2 hsmall)
        · refine fun _ => ⟨xs, htail, fun a => ?_⟩
          constructor
          · intro ha
            obtain ⟨t, ht, hnot, rfl⟩ := (hall a).1 (List.mem_cons_of_mem head ha)
            refine ⟨t, ht, fun hmem => ?_, rfl⟩
            rcases Finset.mem_insert.1 hmem with rfl | hmem
            · rw [← haddr] at ha
              exact (List.nodup_cons.1 hnodup).1 ha
            · exact hnot hmem
          · rintro ⟨t, ht, hnot, rfl⟩
            rw [Finset.mem_insert, not_or] at hnot
            have hin := (hall (page.slotAt base t)).2 ⟨t, ht, hnot.2, rfl⟩
            rcases List.mem_cons.1 hin with heq | hin
            · exact absurd (hp.slotAt_inj (heq.trans haddr)) hnot.1
            · exact hin
      · rw [← haddr]
        rcases debugUafVerify_cases uafActive m (head + linkBytes) (page.objectSize - linkBytes)
          with hok | ⟨huaf, hbad⟩
        · rw [hok]
          exact Or.inl rfl
        · rw [hbad]
          exact Or.inr ⟨huaf, rfl⟩

theorem slabAllocDispatch_spec (uafActive : Bool) (hp : SlabPage base page m used) :
    AllocOutcome uafActive base page m used (slabAllocDispatch uafActive m base page) := by
  unfold slabAllocDispatch
  split_ifs with htiny
  · exact slabTinyAlloc_spec uafActive hp htiny
  · exact slabSmallAlloc_spec uafActive hp (Nat.le_of_not_lt htiny)

/-! ### Giving a slot back -/

/-- The page after slot `s` was given back; only bytes of the slot changed. -/
structure GivenBack (base : ℕ) (page : PageMeta) (m : Mem) (used : Finset ℕ) (s : ℕ)
    (out : Bool × PageMeta × Mem) : Prop where
  emptied : out.1 = true ↔ used = {s}
  after : SlabPage base out.2.1 out.2.2 (used.erase s)
  cls_eq : out.2.1.sizeClass = page.sizeClass
  arena_eq : out.2.1.arenaId = page.arenaId
  cpu_eq : out.2.1.ownerCpu = page.ownerCpu
  frame : SameOutside (page.slotAt base s) page.objectSize m out.2.2

theorem SlabPage.emptied_iff (hp : SlabPage base page m used) (hs : s ∈ used) :
    (page.usedCount == 1) = true ↔ used = {s} := by
  rw [beq_iff_eq, hp.count_eq, Finset.card_eq_one]
  constructor
  · rintro ⟨t, rfl⟩
    rw [Finset.mem_singleton.1 hs]
  · exact fun heq => ⟨s, heq⟩

theorem SlabPage.erase_bounds (hp : SlabPage base page m used) (hs : s ∈ used) :
    (∀ t ∈ used.erase s, t < page.capacity) ∧ page.usedCount - 1 = (used.erase s).card := by
  refine ⟨fun t ht => hp.used_lt t (Finset.mem_of_mem_erase ht), ?_⟩
  rw [Finset.card_erase_of_mem hs, hp.count_eq]

theorem slabTinyFree_spec (uafActive : Bool) (hp : SlabPage base page m used)
    (htiny : page.sizeClass < smallFirstClass) (hs : s ∈ used) :
    GivenBack base page m used s (slabTinyFree uafActive m base page (page.slotAt base s)) := by
  have hsize := hp.size_pos
  have hslot : (page.slotAt base s - (base + slabHeaderSize)) / page.objectSize = s := by
    unfold PageMeta.slotAt slotAddr dataOffset
    rw [if_pos htiny, Nat.add_sub_cancel_left, ← hp.size_eq]
    exact Nat.mul_div_cancel _ (by unfold linkBytes at hsize; omega)
  have hbit : s % bitsPerWord < bitsPerWord := Nat.mod_lt _ (by decide)
  have hself : s / bitsPerWord * bitsPerWord + s % bitsPerWord = s := Nat.div_add_mod' s bitsPerWord
  have hcap := (slots_fit hp.cls_lt).2.2.2.1
  rw [← hp.cap_eq] at hcap
  have hlt := hp.used_lt s hs
  obtain ⟨hbound, hcount⟩ := hp.erase_bounds hs
  simp only [slabTinyFree, hslot]
  refine ⟨hp.emptied_iff hs, ?_, rfl, rfl, rfl, sameOutside_debugUafPoison _ _ _ _⟩
  refine ⟨hp.cls_lt, hp.size_eq, hp.cap_eq, hp.pos, hp.fits, hbound, hcount, ?_, ?_, ?_⟩
  · have hhint := hp.hint_lt
    simp only [PageMeta.unclaim]
    split_ifs <;> omega
  · intro _ slot hslot'
    refine (marked_clearBit hbit slot).trans ?_
    rw [hself, hp.tiny htiny slot hslot', Finset.mem_erase]
    constructor
    · rintro ⟨hmem | hbig, hne⟩
      · exact Or.inl ⟨hne, hmem⟩
      · exact Or.inr hbig
    · rintro (⟨hne, hmem⟩ | hbig)
      · exact ⟨Or.inl hmem, hne⟩
      · refine ⟨Or.inr hbig, ?_⟩
        rintro rfl
        exact absurd hlt (Nat.not_lt.2 hbig)
  · exact fun hsmall => absurd htiny (Nat.not_lt.2 hsmall)

theorem SlabPage.slot_lt (hp : SlabPage base page m used) (hs : s < page.capacity) :
    page.slotAt base s < 2 ^ 64 := by
  have hend := (hp.slotAt_bounds hs).2
  have hsize := hp.size_pos
  have hfits := hp.fits
  unfold linkBytes at hsize
  omega

theorem SlabPage.head_lt (hp : SlabPage base page m used)
    (hsmall : smallFirstClass ≤ page.sizeClass) : page.freeListHead < 2 ^ 64 := by
  obtain ⟨L, hL, hall⟩ := hp.small hsmall
  by_cases h0 : page.freeListHead = 0
  · rw [h0]
    norm_num
  · obtain ⟨s, hs, -, heq⟩ := (hall _).1 (hL.head_mem h0)
    rw [heq]
    exact hp.slot_lt hs

theorem slabSmallFree_spec (uafActive : Bool) (hp : SlabPage base page m used)
    (hsmall : smallFirstClass ≤ page.sizeClass) (hs : s ∈ used) :
    GivenBack base page m used s (slabSmallFree uafActive m page (page.slotAt base s)) := by
  obtain ⟨L, hL, hall⟩ := hp.small hsmall
  obtain ⟨hbound, hcount⟩ := hp.erase_bounds hs
  have hsize := hp.size_pos
  have hlink := sameOutside_store64 m (page.slotAt base s) page.freeListHead
  have hpoison := sameOutside_debugUafPoison uafActive
    (store64 m (page.slotAt base s) page.freeListHead) (page.slotAt base s + linkBytes)
    (page.objectSize - linkBytes)
  have hself := (hpoison.load64 (Or.inl le_rfl)).trans
    (load64_store64_self (hp.head_lt hsmall) (m := m) (a := page.slotAt base s))
  have hframe := (hlink.mono le_rfl (by unfold linkBytes at hsize; omega)).trans
    (hpoison.mono (a := page.slotAt base s) (n := page.objectSize)
      (by unfold linkBytes; omega) (by unfold linkBytes at *; omega))
  simp only [slabSmallFree]
  generalize debugUafPoison uafActive (store64 m (page.slotAt base s) page.freeListHead)
    (page.slotAt base s + linkBytes) (page.objectSize - linkBytes) = m' at hself hframe ⊢
  refine ⟨hp.emptied_iff hs, ?_, rfl, rfl, rfl, hframe⟩
  refine ⟨hp.cls_lt, hp.size_eq, hp.cap_eq, hp.pos, hp.fits, hbound, hcount, hp.hint_lt, ?_, ?_⟩
  · exact fun htiny => absurd htiny (Nat.not_lt.2 hsmall)
  · refine fun _ => ⟨page.slotAt base s :: L, ?_, fun a => ?_⟩
    · refine .cons (hp.slotAt_ne_zero s) ?_
      rw [hself]
      refine hL.congr fun y hy => ?_
      obtain ⟨t, ht, hfree, rfl⟩ := (hall y).1 hy
      have hne : t ≠ s := by
        rintro rfl
        exact hfree hs
      have hapart := hp.slotAt_apart hne
      unfold linkBytes at hsize
      exact hframe.load64 (hapart.imp (fun h => by omega) id)
    · rw [List.mem_cons]
      constructor
      · rintro (rfl | ha)
        · exact ⟨s, hp.used_lt s hs, Finset.notMem_erase s used, rfl⟩
        · obtain ⟨t, ht, hfree, rfl⟩ := (hall a).1 ha
          exact ⟨t, ht, fun hmem => hfree (Finset.mem_of_mem_erase hmem), rfl⟩
      · rintro ⟨t, ht, hfree, rfl⟩
        by_cases hts : t = s
        · subst hts
          exact Or.inl rfl
        · refine Or.inr ((hall _).2 ⟨t, ht, fun hmem => ?_, rfl⟩)
          exact hfree (Finset.mem_erase.2 ⟨hts, hmem⟩)

theorem slabFreeDispatch_spec (uafActive : Bool) (hp : SlabPage base page m used) (hs : s ∈ used) :
    GivenBack base page m used s
      (slabFreeDispatch uafActive m base page (page.slotAt base s)) := by
  unfold slabFreeDispatch
  split_ifs with htiny
  · exact slabTinyFree_spec uafActive hp htiny hs
  · exact slabSmallFree_spec uafActive hp (Nat.le_of_not_lt htiny) hs

/-! ### Fresh pages -/

theorem marked_fold (slots : List ℕ) (bitmap : ℕ → Word) (slot : ℕ) :
    Marked (slots.foldl (fun bitmap slot => update bitmap (slot / bitsPerWord)
      (setBit (bitmap (slot / bitsPerWord)) (slot % bitsPerWord))) bitmap) slot ↔
      Marked bitmap slot ∨ slot ∈ slots := by
  induction slots generalizing bitmap with
  | nil => simp
  | cons x rest ih =>
    have hbit : x % bitsPerWord < bitsPerWord := Nat.mod_lt _ (by decide)
    rw [List.foldl_cons, ih, marked_setBit hbit, Nat.div_add_mod', List.mem_cons, or_assoc]

/-- Exactly the slots beyond the capacity are marked on a fresh page. -/
theorem marked_tinyFreshBitmap {capacity : ℕ} (hslot : slot < bitmapCapacityBits) :
    Marked (tinyFreshBitmap capacity) slot ↔ capacity ≤ slot := by
  unfold tinyFreshBitmap
  rw [marked_fold, List.mem_range'_1]
  have hclear : ¬ Marked (fun _ => 0#64) slot := by simp [Marked]
  rw [or_iff_right hclear]
  omega

/-- Poisoning the data area leaves the link word of every slot. -/
theorem poisonDataArea_frame (uafActive : Bool) (m : Mem) {data size capacity link : ℕ}
    (ha : ∀ i < capacity, a < data + i * size + link ∨ data + (i + 1) * size ≤ a) :
    debugUafPoisonDataArea uafActive m data size capacity link a = m a := by
  unfold debugUafPoisonDataArea
  split_ifs with hempty hoff hlink
  · rfl
  · rfl
  · rfl
  · have hfold : ∀ (slots : List ℕ), (∀ i ∈ slots, i < capacity) → ∀ m : Mem,
        slots.foldl (fun m i => fill m (data + i * size + link) (size - link) debugPoisonByte) m a
          = m a := by
      intro slots
      induction slots with
      | nil => exact fun _ _ => rfl
      | cons i rest ih =>
        intro hlt m
        rw [List.foldl_cons, ih fun j hj => hlt j (List.mem_cons_of_mem i hj)]
        have hi := ha i (hlt i List.mem_cons_self)
        rw [Nat.add_mul, Nat.one_mul] at hi
        exact sameOutside_fill _ _ _ _ a (by omega)
    exact hfold _ (fun i hi => List.mem_range.1 hi) m

/-- The list built below slot `n` starts with the slots in order and ends in the old list. -/
theorem smallBuildList_chain (data : ℕ) {size : ℕ} (hsize : linkBytes ≤ size) (hdata : 0 < data) (n : ℕ) :
    ∀ (m : Mem) (head : ℕ) (L : List ℕ), data + n * size ≤ 2 ^ 64 → head < 2 ^ 64 →
      Chain 0 (load64 m) head L → (∀ y ∈ L, data + n * size ≤ y) →
        Chain 0 (load64 (smallBuildList data size n m head).1) (smallBuildList data size n m head).2
          ((List.range n).map (fun i => data + i * size) ++ L) ∧
        SameOutside data (n * size) m (smallBuildList data size n m head).1 := by
  induction n with
  | zero => exact fun m head L _ _ hL _ => ⟨hL, SameOutside.refl _ _ _⟩
  | succ n ih =>
    intro m head L hfits hhead hL hbeyond
    unfold linkBytes at hsize
    rw [Nat.add_mul, Nat.one_mul] at hfits hbeyond
    have hlink := sameOutside_store64 m (data + n * size) head
    have hchain : Chain 0 (load64 (store64 m (data + n * size) head)) (data + n * size)
        ((data + n * size) :: L) := by
      refine .cons (by omega) ?_
      rw [load64_store64_self hhead]
      refine hL.congr fun y hy => ?_
      have hy' := hbeyond y hy
      exact hlink.load64 (Or.inr (by omega))
    obtain ⟨hbuilt, hframe⟩ := ih (store64 m (data + n * size) head) (data + n * size)
      ((data + n * size) :: L) (by omega) (by omega) hchain fun y hy => by
        rcases List.mem_cons.1 hy with rfl | hmem
        · exact le_rfl
        · have hy' := hbeyond y hmem
          omega
    constructor
    · rw [List.range_succ, List.map_append, List.append_assoc]
      exact hbuilt
    · rw [Nat.add_mul, Nat.one_mul]
      exact (hlink.mono (by omega) (by omega)).trans (hframe.mono le_rfl (by omega))

/-- A page as it is right after its set-up. -/
structure FreshPage (base cls cpu : ℕ) (m : Mem) (out : PageMeta × Mem) : Prop where
  page : SlabPage base out.1 out.2 ∅
  cls_eq : out.1.sizeClass = cls
  cpu_eq : out.1.ownerCpu = cpu
  frame : SameOutside base pageSize m out.2

theorem slabTinyInit_spec (uafActive : Bool) (cpu : ℕ) (m : Mem) {cls : ℕ}
    (hcls : cls < smallFirstClass) (hpos : 0 < base) (hfits : base + pageSize ≤ 2 ^ 64) :
    FreshPage base cls cpu m (slabTinyInit uafActive cpu m base cls) := by
  have hmedium : cls < mediumFirstClass := hcls.trans_le (by decide)
  have hcap : slotCapacity cls = slabTinyCapacityFor (sizeClassSize cls) := if_pos hcls
  obtain ⟨-, -, hend, -, -⟩ := slots_fit hmedium
  refine ⟨⟨hmedium, rfl, hcap.symm, hpos, hfits, ?_, rfl, (by decide : 0 < bitmapWords), ?_, ?_⟩,
    rfl, rfl, ?_⟩
  · exact fun s hs => absurd hs (Finset.notMem_empty s)
  · intro _ slot hslot
    rw [or_iff_right (Finset.notMem_empty slot)]
    exact marked_tinyFreshBitmap hslot
  · exact fun hsmall => absurd hcls (Nat.not_lt.2 hsmall)
  · intro a ha
    apply poisonDataArea_frame
    intro i hi
    have hoff : dataOffset cls = slabHeaderSize := if_pos hcls
    rw [hoff, hcap] at hend
    have hmul := Nat.mul_le_mul_right (sizeClassSize cls) (Nat.succ_le_of_lt hi)
    rw [Nat.succ_eq_add_one] at hmul
    omega

theorem slabSmallInit_spec (uafActive : Bool) (cpu : ℕ) (m : Mem) {cls : ℕ}
    (hsmall : smallFirstClass ≤ cls) (hcls : cls < mediumFirstClass) (hpos : 0 < base)
    (hfits : base + pageSize ≤ 2 ^ 64) :
    FreshPage base cls cpu m (slabSmallInit uafActive cpu m base cls) := by
  have hcap : slotCapacity cls = slabSmallCapacityFor (sizeClassSize cls) :=
    if_neg (Nat.not_lt.2 hsmall)
  have hoff : dataOffset cls = slabSmallDataOffset (sizeClassSize cls) :=
    if_neg (Nat.not_lt.2 hsmall)
  obtain ⟨-, -, hend, -, hsize⟩ := slots_fit hcls
  rw [hoff, hcap] at hend
  obtain ⟨hchain, hframe⟩ := smallBuildList_chain
    (base + slabSmallDataOffset (sizeClassSize cls)) hsize (by omega)
    (slabSmallCapacityFor (sizeClassSize cls)) m 0 [] (by omega) (by norm_num) .nil
    fun y hy => absurd hy List.not_mem_nil
  rw [List.append_nil] at hchain
  have haddr : ∀ s, base + slabSmallDataOffset (sizeClassSize cls) + s * sizeClassSize cls =
      (slabSmallInit uafActive cpu m base cls).1.slotAt base s := by
    intro s
    rw [← hoff]
    rfl
  have hslots : ∀ i < slabSmallCapacityFor (sizeClassSize cls),
      (i + 1) * sizeClassSize cls ≤
        slabSmallCapacityFor (sizeClassSize cls) * sizeClassSize cls :=
    fun i hi => Nat.mul_le_mul_right _ hi
  refine ⟨⟨hcls, rfl, hcap.symm, hpos, hfits, ?_, rfl, (by decide : 0 < bitmapWords), ?_, ?_⟩,
    rfl, rfl, ?_⟩
  · exact fun s hs => absurd hs (Finset.notMem_empty s)
  · exact fun htiny => absurd htiny (Nat.not_lt.2 hsmall)
  · refine fun _ => ⟨_, hchain.congr fun y hy => ?_, fun a => ?_⟩
    · obtain ⟨j, hj, rfl⟩ := List.mem_map.1 hy
      refine load_congr fun a hlo hhi => poisonDataArea_frame uafActive _ fun i _ => ?_
      unfold linkBytes at hsize ⊢
      rcases Nat.lt_trichotomy i j with hlt | rfl | hgt
      · have hmul := Nat.mul_le_mul_right (sizeClassSize cls) (Nat.succ_le_of_lt hlt)
        rw [Nat.succ_eq_add_one] at hmul
        omega
      · omega
      · have hmul := Nat.mul_le_mul_right (sizeClassSize cls) (Nat.succ_le_of_lt hgt)
        rw [Nat.succ_mul] at hmul
        omega
    · rw [List.mem_map]
      constructor
      · rintro ⟨s, hs, rfl⟩
        exact ⟨s, List.mem_range.1 hs, Finset.notMem_empty s, haddr s⟩
      · rintro ⟨s, hs, -, rfl⟩
        exact ⟨s, List.mem_range.2 hs, haddr s⟩
  · intro a ha
    have hstep : (slabSmallInit uafActive cpu m base cls).2 a =
        (smallBuildList (base + slabSmallDataOffset (sizeClassSize cls)) (sizeClassSize cls)
          (slabSmallCapacityFor (sizeClassSize cls)) m 0).1 a := by
      apply poisonDataArea_frame
      intro i hi
      have hmul := hslots i hi
      omega
    rw [hstep]
    exact hframe a (by omega)

theorem slabInitDispatch_spec (uafActive : Bool) (cpu : ℕ) (m : Mem) {cls : ℕ}
    (hcls : cls < mediumFirstClass) (hpos : 0 < base) (hfits : base + pageSize ≤ 2 ^ 64) :
    FreshPage base cls cpu m (slabInitDispatch uafActive cpu m base cls) := by
  unfold slabInitDispatch
  split_ifs with htiny
  · exact slabTinyInit_spec uafActive cpu m htiny hpos hfits
  · exact slabSmallInit_spec uafActive cpu m (Nat.le_of_not_lt htiny) hcls hpos hfits

end V8Malloc
