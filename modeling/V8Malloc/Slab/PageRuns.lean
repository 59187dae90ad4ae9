import V8Malloc.Slab.PageSpec

/-!
# Runs on one slab page

A page is set up, then slots are taken and given back in any order while the
program writes into the slots it holds. Both kinds of pages share the set of
used slots and the poison in the free ones; a tiny page adds that nothing free
lies below its search hint.
-/
namespace V8Malloc

open ByteMemory BitWord LinkedList

/-- The functions of one kind of page. -/
structure PageOps where
  init : ℕ → Mem → ℕ → ℕ → PageMeta × Mem
  alloc : Mem → ℕ → PageMeta → Except Stop (ℕ × PageMeta × Mem)
  free : Mem → ℕ → PageMeta → ℕ → Bool × PageMeta × Mem

def tinyOps (uafActive : Bool) : PageOps :=
  ⟨slabTinyInit uafActive, slabTinyAlloc uafActive, slabTinyFree uafActive⟩

def smallOps (uafActive : Bool) : PageOps :=
  ⟨slabSmallInit uafActive, fun m _ page => slabSmallAlloc uafActive m page,
    fun m _ page obj => slabSmallFree uafActive m page obj⟩

/-- `live` holds the addresses of the slots handed out. Inside the page the program writes to
those slots only. -/
inductive PageRun (ops : PageOps) (base cls : ℕ) : PageMeta → Mem → Finset ℕ → Prop
  | init (cpu : ℕ) (m : Mem) :
      PageRun ops base cls (ops.init cpu m base cls).1 (ops.init cpu m base cls).2 ∅
  | alloc {page page' m m' live obj} : PageRun ops base cls page m live →
      ops.alloc m base page = .ok (obj, page', m') →
      PageRun ops base cls page' m' (if obj = 0 then live else insert obj live)
  | free {page m live obj} : PageRun ops base cls page m live → obj ∈ live →
      PageRun ops base cls (ops.free m base page obj).2.1 (ops.free m base page obj).2.2
        (live.erase obj)
  | write {page m m' live} : PageRun ops base cls page m live →
      (∀ a, base ≤ a → a < base + pageSize →
        (∀ obj ∈ live, ¬ (obj ≤ a ∧ a < obj + page.objectSize)) → m' a = m a) →
      PageRun ops base cls page m' live

/-- Free slots carry the poison behind their first `link` bytes. -/
def Stamped (uafActive : Bool) (link base : ℕ) (page : PageMeta) (m : Mem) (used : Finset ℕ) :
    Prop :=
  uafActive = true → ∀ s < page.capacity, s ∉ used → ∀ a, page.slotAt base s + link ≤ a →
    a < page.slotAt base s + page.objectSize → m a = debugPoisonByte

structure PageInv (uafActive : Bool) (link base cls : ℕ) (page : PageMeta) (m : Mem)
    (live used : Finset ℕ) : Prop where
  slab : SlabPage base page m used
  cls_eq : page.sizeClass = cls
  live_eq : live = used.image (page.slotAt base)
  stamped : Stamped uafActive link base page m used

section Common

variable {uafActive : Bool} {link base cls s a obj ptr n : ℕ} {page page' : PageMeta} {m m' : Mem}
variable {live used : Finset ℕ} {out : Except Stop (ℕ × PageMeta × Mem)}

/-- Poisoning the data area reaches every slot behind its link. -/
theorem poisonDataArea_stamps (hactive : uafActive = true) {data size capacity i : ℕ}
    (hi : i < capacity) (hlo : data + i * size + link ≤ a) (hhi : a < data + i * size + size) :
    debugUafPoisonDataArea uafActive m data size capacity link a = debugPoisonByte := by
  have hfold : ∀ (slots : List ℕ) (m : Mem), i ∈ slots ∨ m a = debugPoisonByte →
      slots.foldl (fun m i => fill m (data + i * size + link) (size - link) debugPoisonByte) m a =
        debugPoisonByte := by
    intro slots
    induction slots with
    | nil => exact fun m h => h.resolve_left List.not_mem_nil
    | cons j rest ih =>
      intro m h
      rw [List.foldl_cons]
      apply ih
      by_cases hin : data + j * size + link ≤ a ∧ a < data + j * size + link + (size - link)
      · exact Or.inr (if_pos hin)
      · rcases h with h | h
        · rcases List.mem_cons.1 h with rfl | h
          · exact absurd ⟨hlo, by omega⟩ hin
          · exact Or.inl h
        · exact Or.inr ((if_neg hin).trans h)
  unfold debugUafPoisonDataArea
  rw [if_neg (by omega), if_neg (by simp [hactive]), if_neg (by omega)]
  exact hfold _ m (Or.inl (List.mem_range.2 hi))

theorem PageInv.card_live (hinv : PageInv uafActive link base cls page m live used) :
    live.card = used.card := by
  rw [hinv.live_eq]
  exact Finset.card_image_of_injective _ fun _ _ heq => hinv.slab.slotAt_inj heq

theorem PageInv.mem_live (hinv : PageInv uafActive link base cls page m live used) :
    page.slotAt base s ∈ live ↔ s ∈ used := by
  rw [hinv.live_eq, Finset.mem_image]
  constructor
  · rintro ⟨t, ht, heq⟩
    rwa [← hinv.slab.slotAt_inj heq]
  · exact fun hs => ⟨s, hs, rfl⟩

theorem PageInv.exists_slot (hinv : PageInv uafActive link base cls page m live used)
    (hobj : obj ∈ live) : ∃ s ∈ used, obj = page.slotAt base s := by
  rw [hinv.live_eq, Finset.mem_image] at hobj
  obtain ⟨s, hs, heq⟩ := hobj
  exact ⟨s, hs, heq.symm⟩

/-- The page is full when as many slots are live as it has. -/
theorem PageInv.full_iff (hinv : PageInv uafActive link base cls page m live used) :
    live.card = page.capacity ↔ ∀ s < page.capacity, s ∈ used := by
  have hsub : used ⊆ Finset.range page.capacity :=
    fun s hs => Finset.mem_range.2 (hinv.slab.used_lt s hs)
  rw [hinv.card_live]
  constructor
  · intro hcard s hs
    have heq := Finset.eq_of_subset_of_card_le hsub (by rw [Finset.card_range, hcard])
    rw [heq]
    exact Finset.mem_range.2 hs
  · intro hall
    rw [hsub.antisymm fun s hs => hall s (Finset.mem_range.1 hs), Finset.card_range]

/-- Capacity, slot size and addresses depend on the class only. -/
theorem SlabPage.same_slots (hp : SlabPage base page m used) {used' : Finset ℕ}
    (hp' : SlabPage base page' m' used') (hcls : page'.sizeClass = page.sizeClass) :
    page'.capacity = page.capacity ∧ page'.objectSize = page.objectSize ∧
      page'.slotAt base = page.slotAt base := by
  refine ⟨?_, ?_, ?_⟩
  · rw [hp.cap_eq, hp'.cap_eq, hcls]
  · rw [hp.size_eq, hp'.size_eq, hcls]
  · funext s
    rw [PageMeta.slotAt, PageMeta.slotAt, hcls]

theorem PageInv.claim (hinv : PageInv uafActive link base cls page m live used)
    (hclaim : Claimed base page m used s page') :
    PageInv uafActive link base cls page' m (insert (page.slotAt base s) live) (insert s used) := by
  obtain ⟨hcap, hsize, haddr⟩ := hinv.slab.same_slots hclaim.after hclaim.cls_eq
  refine ⟨hclaim.after, hclaim.cls_eq.trans hinv.cls_eq, ?_, ?_⟩
  · rw [Finset.image_insert, haddr, hinv.live_eq]
  · intro hactive t ht hfree
    rw [Finset.mem_insert, not_or] at hfree
    rw [hcap] at ht
    rw [haddr, hsize]
    exact hinv.stamped hactive t ht hfree.2

theorem PageInv.giveBack (hinv : PageInv uafActive link base cls page m live used) (hs : s ∈ used)
    {res : Bool × PageMeta × Mem} (hback : GivenBack base page m used s res)
    (hstamp : uafActive = true → ∀ a, page.slotAt base s + link ≤ a →
      a < page.slotAt base s + page.objectSize → res.2.2 a = debugPoisonByte) :
    PageInv uafActive link base cls res.2.1 res.2.2 (live.erase (page.slotAt base s))
      (used.erase s) := by
  obtain ⟨hcap, hsize, haddr⟩ := hinv.slab.same_slots hback.after hback.cls_eq
  refine ⟨hback.after, hback.cls_eq.trans hinv.cls_eq, ?_, ?_⟩
  · rw [haddr, hinv.live_eq, Finset.image_erase fun _ _ heq => hinv.slab.slotAt_inj heq]
  · intro hactive t ht hfree a hlo hhi
    rw [hcap] at ht
    rw [haddr] at hlo hhi
    rw [hsize] at hhi
    by_cases hts : t = s
    · subst hts
      exact hstamp hactive a hlo hhi
    · have hapart := hinv.slab.slotAt_apart hts
      rw [hback.frame a (by omega)]
      exact hinv.stamped hactive t ht (fun hmem => hfree (Finset.mem_erase.2 ⟨hts, hmem⟩)) a hlo hhi

/-- Writes to live slots touch no free one. -/
theorem PageInv.write (hinv : PageInv uafActive link base cls page m live used)
    (hsame : ∀ a, base ≤ a → a < base + pageSize →
      (∀ obj ∈ live, ¬ (obj ≤ a ∧ a < obj + page.objectSize)) → m' a = m a) :
    PageInv uafActive link base cls page m' live used := by
  have hfree : ∀ s < page.capacity, s ∉ used → ∀ a, page.slotAt base s ≤ a →
      a < page.slotAt base s + page.objectSize → m' a = m a := by
    intro s hs hnot a hlo hhi
    obtain ⟨hbegin, hend⟩ := hinv.slab.slotAt_bounds hs
    apply hsame a (by omega) (by omega)
    intro obj hobj hin
    obtain ⟨t, ht, rfl⟩ := hinv.exists_slot hobj
    have hne : s ≠ t := by
      rintro rfl
      exact hnot ht
    have hapart := hinv.slab.slotAt_apart hne
    omega
  have hsize := hinv.slab.size_pos
  refine ⟨hinv.slab.congr fun _ s hs hnot a hlo hhi => hfree s hs hnot a hlo (by omega),
    hinv.cls_eq, hinv.live_eq, ?_⟩
  intro hactive s hs hnot a hlo hhi
  rw [hfree s hs hnot a (by omega) hhi]
  exact hinv.stamped hactive s hs hnot a hlo hhi

/-- What an allocation that checks nothing answers. -/
theorem PageInv.alloc (hinv : PageInv uafActive link base cls page m live used)
    (hout : AllocOutcome false base page m used out) :
    (live.card = page.capacity ∧ out = .ok (0, page, m)) ∨
      ∃ s page', Claimed base page m used s page' ∧
        out = .ok (page.slotAt base s, page', m) := by
  rcases hout with ⟨hfull, hnull⟩ | ⟨s, page', hclaim, hok | ⟨hfalse, -⟩⟩
  · exact Or.inl ⟨hinv.full_iff.2 hfull, hnull⟩
  · exact Or.inr ⟨s, page', hclaim, hok⟩
  · cases hfalse

theorem PageInv.bounds (hinv : PageInv uafActive link base cls page m live used)
    (hobj : obj ∈ live) :
    base + slabHeaderSize ≤ obj ∧ obj + page.objectSize ≤ base + pageSize := by
  obtain ⟨s, hs, rfl⟩ := hinv.exists_slot hobj
  exact hinv.slab.slotAt_bounds (hinv.slab.used_lt s hs)

theorem PageInv.apart (hinv : PageInv uafActive link base cls page m live used) {obj' : ℕ}
    (hobj : obj ∈ live) (hobj' : obj' ∈ live) (hne : obj ≠ obj') :
    obj + page.objectSize ≤ obj' ∨ obj' + page.objectSize ≤ obj := by
  obtain ⟨s, hs, rfl⟩ := hinv.exists_slot hobj
  obtain ⟨t, ht, rfl⟩ := hinv.exists_slot hobj'
  apply hinv.slab.slotAt_apart
  rintro rfl
  exact hne rfl

theorem PageInv.last_iff (hinv : PageInv uafActive link base cls page m live used) (hs : s ∈ used) :
    used = {s} ↔ live = {page.slotAt base s} := by
  rw [hinv.live_eq]
  constructor
  · rintro rfl
    rw [Finset.image_singleton]
  · intro himage
    apply Finset.eq_singleton_iff_unique_mem.2 ⟨hs, fun t ht => ?_⟩
    have hmem := Finset.mem_image_of_mem (page.slotAt base) ht
    rw [himage, Finset.mem_singleton] at hmem
    exact hinv.slab.slotAt_inj hmem

end Common

/-! ### Tiny pages -/

section Tiny

variable {uafActive : Bool} {base cls s obj word bit : ℕ} {page page' : PageMeta} {m m' : Mem}
variable {live used : Finset ℕ} {bitmap : ℕ → Word}

/-- All slots of the word are used. -/
def FullWord (bitmap : ℕ → Word) (word : ℕ) : Prop :=
  ∀ b < bitsPerWord, (bitmap word).getLsbD b = true

theorem FullWord.allOnes (h : FullWord bitmap word) : bitmap word = BitVec.allOnes 64 := by
  apply BitVec.eq_of_getLsbD_eq
  intro b hb
  rw [h b hb, BitVec.getLsbD_allOnes, decide_eq_true hb]

theorem lowestClear_first {w : Word} {b : ℕ} (h : lowestClear w = some b) :
    ∀ b' < b, w.getLsbD b' = true := by
  intro b' hb'
  have hset := (List.find?_range_eq_some.1 h).2.2 b' hb'
  simpa [testBit_eq] using hset

/-- The scan of a stretch of words stops at the first word that is not full. -/
theorem scanWords_range {n : ℕ} : ∀ {start : ℕ},
    scanWords bitmap (List.range' start n) = some (word, bit) →
      start ≤ word ∧ lowestClear (bitmap word) = some bit ∧
        ∀ w, start ≤ w → w < word → FullWord bitmap w := by
  induction n with
  | zero =>
    intro start h
    cases h
  | succ n ih =>
    intro start h
    rw [List.range'_succ] at h
    unfold scanWords at h
    cases hlow : lowestClear (bitmap start) with
    | some b =>
      rw [hlow] at h
      cases h
      exact ⟨le_rfl, hlow, fun w hlo hhi => absurd hlo (Nat.not_le.2 hhi)⟩
    | none =>
      rw [hlow] at h
      obtain ⟨hle, hbit, hfull⟩ := ih h
      refine ⟨Nat.le_of_succ_le hle, hbit, fun w hlo hhi => ?_⟩
      rcases Nat.eq_or_lt_of_le hlo with rfl | hlt
      · exact fun b hb => lowestClear_none hlow hb
      · exact hfull w hlt hhi

theorem scanWords_append (l l' : List ℕ) :
    scanWords bitmap (l ++ l') = (scanWords bitmap l).or (scanWords bitmap l') := by
  induction l with
  | nil => rfl
  | cons w l ih =>
    simp only [List.cons_append, scanWords, ih]
    cases lowestClear (bitmap w) <;> rfl

/-- With nothing free below the hint, the scan finds the first free slot of the page. -/
theorem scanWords_first {hint : ℕ} (hbelow : ∀ w < hint, FullWord bitmap w)
    (h : scanWords bitmap (scanOrder hint) = some (word, bit)) :
    lowestClear (bitmap word) = some bit ∧ ∀ w < word, FullWord bitmap w := by
  unfold scanOrder at h
  rw [scanWords_append, Option.or_eq_some_iff] at h
  rcases h with hup | ⟨-, hdown⟩
  · obtain ⟨-, hbit, hfull⟩ := scanWords_range hup
    refine ⟨hbit, fun w hw => ?_⟩
    rcases Nat.lt_or_ge w hint with hlt | hge
    · exact hbelow w hlt
    · exact hfull w hge hw
  · obtain ⟨hmem, hbit, hclear⟩ := scanWords_some hdown
    rw [List.mem_range] at hmem
    rw [hbelow word (by omega) bit hbit] at hclear
    cases hclear

/-- The invariant of a tiny page. -/
structure TinyInv (uafActive : Bool) (base cls : ℕ) (page : PageMeta) (m : Mem)
    (live used : Finset ℕ) : Prop extends PageInv uafActive 0 base cls page m live used where
  tiny : cls < smallFirstClass
  below : ∀ w < page.searchHint, FullWord page.bitmap w

theorem marked_of_below (hword : ∀ w < word, FullWord bitmap w) (hlt : bit < bitsPerWord)
    (hbit : ∀ b < bit, (bitmap word).getLsbD b = true) {t : ℕ}
    (ht : t < word * bitsPerWord + bit) : Marked bitmap t := by
  unfold Marked
  rcases Nat.lt_or_ge (t / bitsPerWord) word with hless | hge
  · exact hword _ hless _ (Nat.mod_lt _ (by decide))
  · have hsame : t / bitsPerWord = word ∧ t % bitsPerWord < bit := by
      unfold bitsPerWord at *
      omega
    rw [hsame.1]
    exact hbit _ hsame.2

/-- Only the poison check can stop an allocation. -/
theorem slabTinyAlloc_eq (hverify : ∀ s < page.capacity, s ∉ used →
      debugUafVerify uafActive m (page.slotAt base s) page.objectSize = .ok ())
    (hp : SlabPage base page m used) (htiny : page.sizeClass < smallFirstClass) :
    slabTinyAlloc uafActive m base page = slabTinyAlloc false m base page := by
  have hout := slabTinyAlloc_spec false hp htiny
  unfold AllocOutcome at hout
  unfold slabTinyAlloc at hout ⊢
  cases hscan : scanWords page.bitmap (scanOrder page.searchHint) with
  | none => rfl
  | some found =>
    obtain ⟨word, bit⟩ := found
    rw [hscan] at hout
    have hfalse : debugUafVerify false m
        (base + slabHeaderSize + (word * bitsPerWord + bit) * page.objectSize) page.objectSize =
        .ok () := debugUafVerify_ok fun h => by cases h
    simp only [claimSlot, hfalse] at hout ⊢
    rcases hout with ⟨-, hnull⟩ | ⟨s, page', hclaim, hok | ⟨h, -⟩⟩
    · have hzero := (Prod.ext_iff.1 (Except.ok.inj hnull)).1
      unfold slabHeaderSize at hzero
      omega
    · have haddr := (Prod.ext_iff.1 (Except.ok.inj hok)).1
      simp only at haddr
      rw [haddr, hverify s hclaim.slot_lt hclaim.fresh]
    · cases h

/-- The slot claimed is the first free one, and the hint stays below every free one. -/
theorem TinyInv.alloc (hinv : TinyInv uafActive base cls page m live used) :
    live.card = page.capacity ∧ slabTinyAlloc uafActive m base page = .ok (0, page, m) ∨
      ∃ s page', s < page.capacity ∧ s ∉ used ∧ (∀ t < s, t ∈ used) ∧
        slabTinyAlloc uafActive m base page = .ok (page.slotAt base s, page', m) ∧
        TinyInv uafActive base cls page' m (insert (page.slotAt base s) live) (insert s used) := by
  have htiny : page.sizeClass < smallFirstClass := hinv.cls_eq ▸ hinv.tiny
  have heq : slabTinyAlloc uafActive m base page = slabTinyAlloc false m base page := by
    apply slabTinyAlloc_eq _ hinv.slab htiny
    intro s hs hfree
    exact debugUafVerify_ok fun hactive a hlo hhi => hinv.stamped hactive s hs hfree a hlo hhi
  rw [heq]
  rcases hinv.toPageInv.alloc (slabTinyAlloc_spec false hinv.slab htiny) with
    hnull | ⟨s, page', hclaim, hok⟩
  · exact Or.inl hnull
  · unfold slabTinyAlloc at hok
    cases hscan : scanWords page.bitmap (scanOrder page.searchHint) with
    | none =>
      rw [hscan] at hok
      have hzero := (Prod.ext_iff.1 (Except.ok.inj hok)).1
      exact absurd hzero.symm (hinv.slab.slotAt_ne_zero s)
    | some found =>
      obtain ⟨word, bit⟩ := found
      rw [hscan] at hok
      obtain ⟨hlow, hfull⟩ := scanWords_first hinv.below hscan
      have hbit := (lowestClear_some hlow).1
      have hfalse : debugUafVerify false m
          (base + slabHeaderSize + (word * bitsPerWord + bit) * page.objectSize) page.objectSize =
          .ok () := debugUafVerify_ok fun h => by cases h
      simp only [claimSlot, hfalse, Except.ok.injEq, Prod.mk.injEq, and_true] at hok
      obtain ⟨haddr, rfl⟩ := hok
      have hslot : word * bitsPerWord + bit = s := by
        apply hinv.slab.slotAt_inj
        rw [← haddr]
        unfold PageMeta.slotAt slotAddr dataOffset
        rw [if_pos htiny, hinv.slab.size_eq]
      refine Or.inr ⟨s, _, hclaim.slot_lt, hclaim.fresh, fun t ht => ?_, ?_,
        hinv.toPageInv.claim hclaim, hinv.tiny, fun w hw => ?_⟩
      · rw [← hslot] at ht
        have hcap := (slots_fit hinv.slab.cls_lt).2.2.2.1
        rw [← hinv.slab.cap_eq] at hcap
        have hlt := hclaim.slot_lt
        have hmarked := marked_of_below hfull hbit (lowestClear_first hlow) ht
        have hused := (hinv.slab.tiny htiny t (by omega)).1 hmarked
        exact hused.resolve_right (by omega)
      · rw [haddr] at hfalse
        simp only [slabTinyAlloc, hscan, claimSlot, haddr, hfalse]
      · intro b hb
        have hne : w ≠ word := hw.ne
        simp only [PageMeta.claim, Function.update_of_ne hne]
        exact hfull w hw b hb

theorem TinyInv.free (hinv : TinyInv uafActive base cls page m live used) (hs : s ∈ used) :
    TinyInv uafActive base cls (slabTinyFree uafActive m base page (page.slotAt base s)).2.1
      (slabTinyFree uafActive m base page (page.slotAt base s)).2.2
      (live.erase (page.slotAt base s)) (used.erase s) := by
  have htiny : page.sizeClass < smallFirstClass := hinv.cls_eq ▸ hinv.tiny
  refine ⟨hinv.toPageInv.giveBack hs (slabTinyFree_spec uafActive hinv.slab htiny hs) ?_,
    hinv.tiny, ?_⟩
  · intro hactive a hlo hhi
    exact debugUafPoison_stamps hactive hlo hhi
  · intro w hw b hb
    simp only [slabTinyFree, PageMeta.unclaim] at hw ⊢
    generalize (page.slotAt base s - (base + slabHeaderSize)) / page.objectSize / bitsPerWord =
      word at hw ⊢
    -- the hint is at most the word of the slot given back
    have hne : w ≠ word := by
      split_ifs at hw <;> omega
    rw [Function.update_of_ne hne]
    apply hinv.below w _ b hb
    split_ifs at hw <;> omega

theorem tinyInv_init (uafActive : Bool) (cpu : ℕ) (m : Mem) (hcls : cls < smallFirstClass)
    (hpos : 0 < base) (hfits : base + pageSize ≤ 2 ^ 64) :
    TinyInv uafActive base cls (slabTinyInit uafActive cpu m base cls).1
      (slabTinyInit uafActive cpu m base cls).2 ∅ ∅ := by
  have hfresh := slabTinyInit_spec uafActive cpu m hcls hpos hfits
  refine ⟨⟨hfresh.page, hfresh.cls_eq, Finset.image_empty _ |>.symm, ?_⟩, hcls, ?_⟩
  · intro hactive s hs _ a hlo hhi
    have haddr : (slabTinyInit uafActive cpu m base cls).1.slotAt base s =
        base + slabHeaderSize + s * sizeClassSize cls := by
      unfold PageMeta.slotAt slotAddr dataOffset
      rw [hfresh.cls_eq, if_pos hcls]
    rw [haddr] at hlo hhi
    exact poisonDataArea_stamps hactive hs hlo hhi
  · exact fun w hw => absurd hw (Nat.not_lt_zero w)

/-- The invariant over a run. -/
theorem PageRun.tinyInv (hcls : cls < smallFirstClass) (hpos : 0 < base)
    (hfits : base + pageSize ≤ 2 ^ 64) (hrun : PageRun (tinyOps uafActive) base cls page m live) :
    ∃ used, TinyInv uafActive base cls page m live used := by
  induction hrun with
  | init cpu m => exact ⟨∅, tinyInv_init uafActive cpu m hcls hpos hfits⟩
  | alloc _ halloc ih =>
    obtain ⟨used, hinv⟩ := ih
    simp only [tinyOps] at halloc
    rcases hinv.alloc with ⟨-, hnull⟩ | ⟨s, page', -, -, -, hok, hafter⟩
    · rw [hnull] at halloc
      cases halloc
      exact ⟨used, hinv⟩
    · rw [hok] at halloc
      cases halloc
      rw [if_neg (hinv.slab.slotAt_ne_zero s)]
      exact ⟨_, hafter⟩
  | free _ hobj ih =>
    obtain ⟨used, hinv⟩ := ih
    obtain ⟨s, hs, rfl⟩ := hinv.exists_slot hobj
    exact ⟨_, hinv.free hs⟩
  | write _ hsame ih =>
    obtain ⟨used, hinv⟩ := ih
    exact ⟨used, hinv.toPageInv.write hsame, hinv.tiny, hinv.below⟩

/-- A tiny page over any run: its counter and its bitmap say which slots are live, the hint has
nothing free below it, and an allocation takes the first free slot. -/
theorem tiny_page_exact (hcls : cls < smallFirstClass) (hpos : 0 < base)
    (hfits : base + pageSize ≤ 2 ^ 64) (hrun : PageRun (tinyOps uafActive) base cls page m live) :
    (page.usedCount = live.card ∧
      ((Finset.range page.capacity).filter fun s =>
        testBit (page.bitmap (s / bitsPerWord)) (s % bitsPerWord) = true).card = live.card) ∧
    (∀ s, page.capacity ≤ s → s < bitmapCapacityBits →
      testBit (page.bitmap (s / bitsPerWord)) (s % bitsPerWord) = true) ∧
    (∀ word < page.searchHint, page.bitmap word = BitVec.allOnes 64) ∧
    (∃ obj page', slabTinyAlloc uafActive m base page = .ok (obj, page', m) ∧
      (obj = 0 ↔ live.card = page.capacity) ∧
      (obj ≠ 0 → ∃ s < page.capacity, obj = slotAddr base cls s ∧ obj ∉ live ∧
        ∀ t < s, slotAddr base cls t ∈ live)) ∧
    (∀ obj ∈ live, base + slabHeaderSize ≤ obj ∧
      obj + page.objectSize ≤ base + pageSize ∧ (∀ obj' ∈ live, obj ≠ obj' →
        obj + page.objectSize ≤ obj' ∨ obj' + page.objectSize ≤ obj) ∧
      ((slabTinyFree uafActive m base page obj).1 = true ↔ live = {obj})) := by
  obtain ⟨used, hinv⟩ := hrun.tinyInv hcls hpos hfits
  have htiny : page.sizeClass < smallFirstClass := hinv.cls_eq ▸ hcls
  have hcap := (slots_fit hinv.slab.cls_lt).2.2.2.1
  rw [← hinv.slab.cap_eq] at hcap
  have hmarked : ∀ s < bitmapCapacityBits,
      testBit (page.bitmap (s / bitsPerWord)) (s % bitsPerWord) = true ↔
        s ∈ used ∨ page.capacity ≤ s := by
    intro s hs
    rw [testBit_eq]
    exact hinv.slab.tiny htiny s hs
  have haddr : ∀ s, page.slotAt base s = slotAddr base cls s := by
    intro s
    rw [PageMeta.slotAt, hinv.cls_eq]
  refine ⟨⟨hinv.slab.count_eq.trans hinv.card_live.symm, ?_⟩, ?_, ?_, ?_, ?_⟩
  · rw [hinv.card_live]
    congr 1
    ext s
    rw [Finset.mem_filter, Finset.mem_range]
    constructor
    · rintro ⟨hs, hbit⟩
      exact ((hmarked s (by omega)).1 hbit).resolve_right (by omega)
    · intro hs
      have hlt := hinv.slab.used_lt s hs
      exact ⟨hlt, (hmarked s (by omega)).2 (Or.inl hs)⟩
  · exact fun s hle hlt => (hmarked s hlt).2 (Or.inr hle)
  · exact fun word hword => (hinv.below word hword).allOnes
  · rcases hinv.alloc with ⟨hfull, hnull⟩ | ⟨s, page', hs, hfree, hfirst, hok, -⟩
    · exact ⟨0, page, hnull, iff_of_true rfl hfull, fun hne => absurd rfl hne⟩
    · have hne := hinv.slab.slotAt_ne_zero s
      refine ⟨_, page', hok, iff_of_false hne ?_, fun _ => ⟨s, hs, haddr s, ?_, fun t ht => ?_⟩⟩
      · exact fun hfull => hfree (hinv.full_iff.1 hfull s hs)
      · rwa [hinv.mem_live]
      · rw [← haddr, hinv.mem_live]
        exact hfirst t ht
  · intro obj hobj
    obtain ⟨hlo, hhi⟩ := hinv.bounds hobj
    refine ⟨hlo, hhi, fun obj' hobj' hne => hinv.apart hobj hobj' hne, ?_⟩
    obtain ⟨s, hs, rfl⟩ := hinv.exists_slot hobj
    rw [(slabTinyFree_spec uafActive hinv.slab htiny hs).emptied, hinv.last_iff hs]

/-- Two slots are handed out and the first comes back. -/
theorem PageRun.reused {ops : PageOps}
    (htakes : ∀ {page m live}, PageRun ops base cls page m live → live.card < 2 →
      ∃ obj page', ops.alloc m base page = .ok (obj, page', m) ∧ obj ≠ 0 ∧ obj ∉ live) :
    ∃ page m obj, PageRun ops base cls page m {obj} := by
  have hinit : PageRun ops base cls _ _ ∅ := .init 0 fun _ => 0
  obtain ⟨freed, page₁, halloc₁, hne₁, -⟩ := htakes hinit (by simp)
  have hone := hinit.alloc halloc₁
  rw [if_neg hne₁] at hone
  obtain ⟨obj, page₂, halloc₂, hne₂, hnew⟩ := htakes hone (by simp)
  have htwo := hone.alloc halloc₂
  rw [if_neg hne₂] at htwo
  have hback := htwo.free (Finset.mem_insert_of_mem (Finset.mem_insert_self freed ∅))
  have hlive : (insert obj (insert freed ∅) : Finset ℕ).erase freed = {obj} := by
    have hother : obj ≠ freed := fun heq => hnew (heq ▸ Finset.mem_insert_self freed ∅)
    rw [Finset.erase_insert_of_ne hother, Finset.erase_insert (Finset.notMem_empty freed)]
    rfl
  rw [hlive] at hback
  exact ⟨_, _, obj, hback⟩

/-- A page of the smallest class with one slot in use and one that was. -/
theorem tiny_page_exact_reused : ∃ page m obj, PageRun (tinyOps true) 65536 0 page m {obj} ∧
    page.usedCount = 1 ∧ (slabTinyFree true m 65536 page obj).1 = true ∧
    ∃ next page', slabTinyAlloc true m 65536 page = .ok (next, page', m) ∧ next ≠ obj := by
  have hfits : 65536 + pageSize ≤ 2 ^ 64 := by norm_num [pageSize]
  obtain ⟨page, m, obj, hrun⟩ : ∃ page m obj, PageRun (tinyOps true) 65536 0 page m {obj} := by
    refine PageRun.reused fun {page m live} hrun hfew => ?_
    obtain ⟨used, hinv⟩ := hrun.tinyInv (by decide) (by decide) hfits
    have hcap : page.capacity = slotCapacity 0 := hinv.slab.cap_eq.trans (by rw [hinv.cls_eq])
    rcases hinv.alloc with ⟨hfull, -⟩ | ⟨s, page', -, hfree, -, hok, -⟩
    · exact absurd (hfull.trans hcap) (ne_of_lt (hfew.trans_le (by decide)))
    · exact ⟨_, page', hok, hinv.slab.slotAt_ne_zero s, fun hmem => hfree (hinv.mem_live.1 hmem)⟩
  obtain ⟨⟨hcount, -⟩, -, -, ⟨next, page', halloc, -, hnext⟩, hlive⟩ :=
    tiny_page_exact (by decide) (by decide) hfits hrun
  obtain ⟨hlo, -, -, hlast⟩ := hlive obj (Finset.mem_singleton_self obj)
  refine ⟨page, m, obj, hrun, hcount, hlast.2 rfl, next, page', halloc, ?_⟩
  by_cases hzero : next = 0
  · omega
  · obtain ⟨-, -, -, hnew, -⟩ := hnext hzero
    exact Finset.notMem_singleton.1 hnew

end Tiny

/-! ### Small pages -/

section Small

variable {uafActive : Bool} {base cls s obj e : ℕ} {page page' : PageMeta} {m m' : Mem}
variable {live used : Finset ℕ}

theorem slabSmallAlloc_eq (hverify : ∀ s < page.capacity, s ∉ used →
      debugUafVerify uafActive m (page.slotAt base s + linkBytes) (page.objectSize - linkBytes) =
        .ok ())
    (hp : SlabPage base page m used) (hsmall : smallFirstClass ≤ page.sizeClass) :
    slabSmallAlloc uafActive m page = slabSmallAlloc false m page := by
  obtain ⟨L, hL, hall⟩ := hp.small hsmall
  unfold slabSmallAlloc
  by_cases hnull : page.freeListHead = 0
  · rw [if_pos hnull, if_pos hnull]
  · obtain ⟨s, hs, hfree, haddr⟩ := (hall _).1 (hL.head_mem hnull)
    have hfalse : debugUafVerify false m (page.slotAt base s + linkBytes)
        (page.objectSize - linkBytes) = .ok () := debugUafVerify_ok fun h => by cases h
    rw [if_neg hnull, if_neg hnull, haddr, hverify s hs hfree, hfalse]

variable (hinv : PageInv uafActive linkBytes base cls page m live used)
variable (hsmall : smallFirstClass ≤ cls)

include hinv hsmall

theorem PageInv.smallAlloc :
    live.card = page.capacity ∧ slabSmallAlloc uafActive m page = .ok (0, page, m) ∨
      ∃ s page', Claimed base page m used s page' ∧
        slabSmallAlloc uafActive m page = .ok (page.slotAt base s, page', m) := by
  have hclass : smallFirstClass ≤ page.sizeClass := hinv.cls_eq ▸ hsmall
  have heq : slabSmallAlloc uafActive m page = slabSmallAlloc false m page := by
    apply slabSmallAlloc_eq _ hinv.slab hclass
    intro s hs hfree
    have hsize := hinv.slab.size_pos
    exact debugUafVerify_ok fun hactive a hlo hhi =>
      hinv.stamped hactive s hs hfree a hlo (by omega)
  rw [heq]
  exact hinv.alloc (slabSmallAlloc_spec false hinv.slab hclass)

theorem PageInv.smallFree (hs : s ∈ used) :
    PageInv uafActive linkBytes base cls (slabSmallFree uafActive m page (page.slotAt base s)).2.1
      (slabSmallFree uafActive m page (page.slotAt base s)).2.2
      (live.erase (page.slotAt base s)) (used.erase s) := by
  have hclass : smallFirstClass ≤ page.sizeClass := hinv.cls_eq ▸ hsmall
  apply hinv.giveBack hs (slabSmallFree_spec uafActive hinv.slab hclass hs)
  intro hactive a hlo hhi
  exact debugUafPoison_stamps hactive hlo (by omega)

omit hinv in
theorem smallInv_init (uafActive : Bool) (cpu : ℕ) (m : Mem) (hcls : cls < mediumFirstClass)
    (hpos : 0 < base) (hfits : base + pageSize ≤ 2 ^ 64) :
    PageInv uafActive linkBytes base cls (slabSmallInit uafActive cpu m base cls).1
      (slabSmallInit uafActive cpu m base cls).2 ∅ ∅ := by
  have hfresh := slabSmallInit_spec uafActive cpu m hsmall hcls hpos hfits
  refine ⟨hfresh.page, hfresh.cls_eq, Finset.image_empty _ |>.symm, ?_⟩
  intro hactive s hs _ a hlo hhi
  have haddr : (slabSmallInit uafActive cpu m base cls).1.slotAt base s =
      base + slabSmallDataOffset (sizeClassSize cls) + s * sizeClassSize cls := by
    unfold PageMeta.slotAt slotAddr dataOffset
    rw [hfresh.cls_eq, if_neg (Nat.not_lt.2 hsmall)]
  rw [haddr] at hlo hhi
  exact poisonDataArea_stamps hactive hs hlo hhi

omit hinv in
theorem PageRun.smallInv (hcls : cls < mediumFirstClass) (hpos : 0 < base)
    (hfits : base + pageSize ≤ 2 ^ 64)
    (hrun : PageRun (smallOps uafActive) base cls page m live) :
    ∃ used, PageInv uafActive linkBytes base cls page m live used := by
  induction hrun with
  | init cpu m => exact ⟨∅, smallInv_init hsmall uafActive cpu m hcls hpos hfits⟩
  | alloc _ halloc ih =>
    obtain ⟨used, hinv⟩ := ih
    simp only [smallOps] at halloc
    rcases hinv.smallAlloc hsmall with ⟨-, hnull⟩ | ⟨s, page', hclaim, hok⟩
    · rw [hnull] at halloc
      cases halloc
      exact ⟨used, hinv⟩
    · rw [hok] at halloc
      cases halloc
      rw [if_neg (hinv.slab.slotAt_ne_zero s)]
      exact ⟨_, hinv.claim hclaim⟩
  | free _ hobj ih =>
    obtain ⟨used, hinv⟩ := ih
    obtain ⟨s, hs, rfl⟩ := hinv.exists_slot hobj
    exact ⟨_, hinv.smallFree hsmall hs⟩
  | write _ hsame ih =>
    obtain ⟨used, hinv⟩ := ih
    exact ⟨used, hinv.write hsame⟩

/-- The free list holds the other slots, each once. -/
theorem PageInv.freeList : ∃ L, Chain 0 (load64 m) page.freeListHead L ∧ L.Nodup ∧
    (∀ a, a ∈ L ↔ a ∉ live ∧ ∃ s < page.capacity, a = page.slotAt base s) ∧
    L.length + page.usedCount = page.capacity := by
  obtain ⟨L, hL, hall⟩ := hinv.slab.small (hinv.cls_eq ▸ hsmall)
  have hsub : used ⊆ Finset.range page.capacity :=
    fun s hs => Finset.mem_range.2 (hinv.slab.used_lt s hs)
  refine ⟨L, hL, hL.nodup, fun a => ?_, ?_⟩
  · rw [hall]
    constructor
    · rintro ⟨s, hs, hfree, rfl⟩
      exact ⟨by rwa [hinv.mem_live], s, hs, rfl⟩
    · rintro ⟨hfree, s, hs, rfl⟩
      rw [hinv.mem_live] at hfree
      exact ⟨s, hs, hfree, rfl⟩
  · have hset : L.toFinset = (Finset.range page.capacity \ used).image (page.slotAt base) := by
      ext a
      rw [List.mem_toFinset, hall, Finset.mem_image]
      constructor
      · rintro ⟨s, hs, hfree, rfl⟩
        exact ⟨s, Finset.mem_sdiff.2 ⟨Finset.mem_range.2 hs, hfree⟩, rfl⟩
      · rintro ⟨s, hs, rfl⟩
        obtain ⟨hs, hfree⟩ := Finset.mem_sdiff.1 hs
        exact ⟨s, Finset.mem_range.1 hs, hfree, rfl⟩
    have hlength : L.length = page.capacity - used.card := by
      rw [← List.toFinset_card_of_nodup hL.nodup, hset,
        Finset.card_image_of_injective _ fun _ _ heq => hinv.slab.slotAt_inj heq,
        Finset.card_sdiff_of_subset hsub, Finset.card_range]
    have hle := Finset.card_le_card hsub
    rw [Finset.card_range] at hle
    rw [hlength, hinv.slab.count_eq]
    omega

/-- Slots are aligned as far as their size is. -/
theorem PageInv.aligned (hbase : pageSize ∣ base) (he : 2 ^ e ∣ page.objectSize) (s : ℕ) :
    2 ^ e ∣ page.slotAt base s := by
  have hcls : page.sizeClass < mediumFirstClass := hinv.slab.cls_lt
  have hsizes : ∀ c < mediumFirstClass, 0 < sizeClassSize c ∧ sizeClassSize c ≤ smallMaxSize := by
    decide
  obtain ⟨hmin, hmax⟩ := hsizes _ hcls
  rw [hinv.slab.size_eq] at he
  have hle := (Nat.le_of_dvd hmin he).trans hmax
  have hexp : e ≤ 12 := (Nat.pow_le_pow_iff_right (by decide : 1 < 2)).1 hle
  have hpage : 2 ^ e ∣ pageSize := (Nat.pow_dvd_pow 2 (hexp.trans (by decide : 12 ≤ 16)))
  have hoff : 2 ^ e ∣ slabSmallDataOffset (sizeClassSize page.sizeClass) := by
    unfold slabSmallDataOffset
    split_ifs with hbig
    · exact he
    · have hle' : 2 ^ e ≤ 2 ^ 11 := (Nat.le_of_dvd hmin he).trans (Nat.le_of_not_lt hbig)
      exact Nat.pow_dvd_pow 2 ((Nat.pow_le_pow_iff_right (by decide : 1 < 2)).1 hle')
  unfold PageMeta.slotAt slotAddr dataOffset
  rw [if_neg (Nat.not_lt.2 (hinv.cls_eq ▸ hsmall))]
  exact dvd_add (dvd_add (hpage.trans hbase) hoff) (he.mul_left s)

omit hinv in
/-- A small page over any run: the list in its free slots holds exactly those, and every slot lies
in the page, apart from the others and aligned as far as its size is. -/
theorem small_page_exact (hcls : cls < mediumFirstClass) (hbase : pageSize ∣ base)
    (hpos : 0 < base) (hfits : base + pageSize ≤ 2 ^ 64)
    (hrun : PageRun (smallOps uafActive) base cls page m live) :
    (∃ L, Chain 0 (load64 m) page.freeListHead L ∧ L.Nodup ∧
      (∀ a, a ∈ L ↔ a ∉ live ∧ ∃ s < page.capacity, a = slotAddr base cls s) ∧
      L.length + page.usedCount = page.capacity) ∧
    (∃ obj page', slabSmallAlloc uafActive m page = .ok (obj, page', m) ∧
      (obj = 0 ↔ ∀ s < page.capacity, slotAddr base cls s ∈ live)) ∧
    ∀ s < page.capacity, base + slabHeaderSize ≤ slotAddr base cls s ∧
      slotAddr base cls s + page.objectSize ≤ base + pageSize ∧
      (∀ t < page.capacity, s ≠ t → slotAddr base cls s + page.objectSize ≤ slotAddr base cls t ∨
        slotAddr base cls t + page.objectSize ≤ slotAddr base cls s) ∧
      ∀ e, 2 ^ e ∣ page.objectSize → 2 ^ e ∣ slotAddr base cls s := by
  obtain ⟨used, hinv⟩ := hrun.smallInv hsmall hcls hpos hfits
  have haddr : page.slotAt base = slotAddr base cls := by
    funext s
    rw [PageMeta.slotAt, hinv.cls_eq]
  have hlist := hinv.freeList hsmall
  have hfull := hinv.full_iff
  simp only [← hinv.mem_live, haddr] at hlist hfull
  refine ⟨hlist, ?_, fun s hs => ?_⟩
  · rw [← hfull]
    rcases hinv.smallAlloc hsmall with ⟨hcard, hnull⟩ | ⟨s, page', hclaim, hok⟩
    · exact ⟨0, page, hnull, iff_of_true rfl hcard⟩
    · refine ⟨_, page', hok, iff_of_false (hinv.slab.slotAt_ne_zero s) fun hcard => ?_⟩
      exact hclaim.fresh (hinv.full_iff.1 hcard s hclaim.slot_lt)
  · have hbounds := hinv.slab.slotAt_bounds hs
    have hapart : ∀ t, s ≠ t → _ := fun t => hinv.slab.slotAt_apart (s := s) (t := t)
    have haligned : ∀ e, 2 ^ e ∣ page.objectSize → _ := fun e he => hinv.aligned hsmall hbase he s
    simp only [haddr] at hbounds hapart haligned
    exact ⟨hbounds.1, hbounds.2, fun t _ hne => hapart t hne, haligned⟩

end Small

/-- A page of 80-byte slots with one in use and one that was. -/
theorem small_page_exact_reused : ∃ page m obj L,
    PageRun (smallOps true) 65536 smallFirstClass page m {obj} ∧
      Chain 0 (load64 m) page.freeListHead L ∧ obj ∉ L ∧
      L.length + page.usedCount = page.capacity := by
  have hcls : smallFirstClass < mediumFirstClass := by decide
  have hfits : 65536 + pageSize ≤ 2 ^ 64 := by norm_num [pageSize]
  obtain ⟨page, m, obj, hrun⟩ :
      ∃ page m obj, PageRun (smallOps true) 65536 smallFirstClass page m {obj} := by
    refine PageRun.reused fun {page m live} hrun hfew => ?_
    obtain ⟨used, hinv⟩ := hrun.smallInv le_rfl hcls (by decide) hfits
    have hcap : page.capacity = slotCapacity smallFirstClass :=
      hinv.slab.cap_eq.trans (by rw [hinv.cls_eq])
    rcases hinv.smallAlloc le_rfl with ⟨hfull, -⟩ | ⟨s, page', hclaim, hok⟩
    · exact absurd (hfull.trans hcap) (ne_of_lt (hfew.trans_le (by decide)))
    · exact ⟨_, page', hok, hinv.slab.slotAt_ne_zero s,
        fun hmem => hclaim.fresh (hinv.mem_live.1 hmem)⟩
  obtain ⟨⟨L, hchain, -, hmem, hlength⟩, -⟩ := small_page_exact le_rfl hcls
    (by decide : pageSize ∣ 65536) (by decide) hfits hrun
  exact ⟨page, m, obj, L, hrun, hchain,
    fun hin => ((hmem obj).1 hin).1 (Finset.mem_singleton_self obj), hlength⟩

end V8Malloc
