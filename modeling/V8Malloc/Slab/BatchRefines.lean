import V8Malloc.Slab.PoolRuns

/-!
# A refill is a sequence of single allocations

A refill writes the links of its chain into slots it has handed out, while it
goes on drawing objects. The links lie inside live blocks, and drawing an
object depends on no byte of a live block. So the refill and the single
allocations go through the same pages and headers, and their memories differ
in the links only.
-/
namespace V8Malloc

open ByteMemory LinkedList Function

variable {h h' : Heap} {blk : Blocks} {b arena cls cpu : ℕ} {m m' : Mem} {src : List ℕ}
variable {page : PageMeta} {used : Finset ℕ} {uafActive : Bool}

/-- The heap with another memory. -/
def Heap.withMem (h : Heap) (m : Mem) : Heap := { h with mem := m }

/-! ### A slab page depends on its free slots -/

theorem debugUafVerify_congr (uafActive : Bool) {ptr bytes : ℕ}
    (hsame : ∀ x, ptr ≤ x → x < ptr + bytes → m' x = m x) :
    debugUafVerify uafActive m' ptr bytes = debugUafVerify uafActive m ptr bytes := by
  unfold debugUafVerify
  rw [allBytes_congr hsame]

/-- The answer of an allocation, read against another memory. -/
def withAnswerMem (m : Mem) (out : ℕ × PageMeta × Mem) : ℕ × PageMeta × Mem := (out.1, out.2.1, m)

theorem slabAllocDispatch_congr (hp : SlabPage b page m used)
    (hsame : ∀ s < page.capacity, s ∉ used → ∀ x, page.slotAt b s ≤ x →
      x < page.slotAt b s + page.objectSize → m' x = m x) :
    slabAllocDispatch uafActive m' b page =
      (slabAllocDispatch uafActive m b page).map (withAnswerMem m') := by
  unfold slabAllocDispatch
  split_ifs with htiny
  · unfold slabTinyAlloc
    cases hscan : scanWords page.bitmap (scanOrder page.searchHint) with
    | none => rfl
    | some found =>
      obtain ⟨word, bit⟩ := found
      obtain ⟨-, -, hlt, hfree, haddr⟩ := hp.scan_some htiny hscan
      have hverify := debugUafVerify_congr uafActive (hsame _ hlt hfree)
      simp only [claimSlot, haddr, hverify]
      cases debugUafVerify uafActive m (page.slotAt b (word * bitsPerWord + bit))
        page.objectSize <;> rfl
  · obtain ⟨L, hL, hall⟩ := hp.small (Nat.le_of_not_lt htiny)
    unfold slabSmallAlloc
    by_cases h0 : page.freeListHead = 0
    · simp [h0, Except.map, withAnswerMem]
    · obtain ⟨s, hs, hfree, haddr⟩ := (hall page.freeListHead).1 (hL.head_mem h0)
      have hbytes := (slots_fit hp.cls_lt).2.2.2.2
      rw [← hp.size_eq] at hbytes
      have hslot := hsame s hs hfree
      rw [← haddr] at hslot
      have hrest : ∀ x, page.freeListHead + linkBytes ≤ x →
          x < page.freeListHead + linkBytes + (page.objectSize - linkBytes) → m' x = m x :=
        fun x hlo hhi => hslot x (by omega) (by omega)
      have hlink : load64 m' page.freeListHead = load64 m page.freeListHead :=
        load_congr fun x hlo hhi => hslot x hlo (by unfold linkBytes at hbytes; omega)
      simp only [h0, if_false, debugUafVerify_congr uafActive hrest, hlink]
      cases debugUafVerify uafActive m (page.freeListHead + linkBytes)
        (page.objectSize - linkBytes) <;> rfl

/-- The free slots of a page lie outside every block. -/
theorem HeapInv.slabAlloc_congr (hh : HeapInv h blk) (hm : Untouched blk h.mem m')
    (hhead : h.heads b = some (.slab page)) :
    slabAllocDispatch uafActive m' b page =
      (slabAllocDispatch uafActive h.mem b page).map (withAnswerMem m') := by
  obtain ⟨-, used, hpage, hiff⟩ := hh.headers _ _ hhead
  apply slabAllocDispatch_congr hpage
  intro s hs hfree x hlo hhi
  exact hm x fun a g ha => hh.free_slot_outside hhead hpage hiff hs hfree hlo hhi ha

/-! ### Pages in service -/

/-- The answer and the heap of a draw, the heap with another memory. -/
def withHeapMem (m : Mem) (out : ℕ × Heap) : ℕ × Heap := (out.1, out.2.withMem m)

theorem pageAt_withMem (hhead : h.heads b = some (.slab page)) :
    (h.withMem m').pageAt b = h.pageAt b := by
  rw [pageAt_eq hhead, pageAt_eq (h := h.withMem m') hhead]

theorem setPage_withMem (hhead : h.heads b = some (.slab page)) (page' : PageMeta) (m₁ : Mem) :
    (h.withMem m').setPage b page' m = (h.setPage b page' m₁).withMem m := by
  rw [setPage_eq hhead, setPage_eq (h := h.withMem m') hhead]
  rfl

theorem tryCurrent_withMem (hh : HeapInv h blk) (hm : Untouched blk h.mem m')
    (harena : arena < arenaCount) (hcls : cls < mediumFirstClass) :
    tryCurrent uafActive (h.withMem m') arena cls =
      (tryCurrent uafActive h arena cls).map (withHeapMem m') := by
  have hclass : (h.withMem m').slabClass arena cls = h.slabClass arena cls := rfl
  simp only [tryCurrent, hclass]
  split_ifs with h0
  · rfl
  · obtain ⟨page, hhead, -, -⟩ := (hh.lists arena harena cls hcls).current h0
    rw [pageAt_withMem hhead, pageAt_eq hhead]
    change slabAllocDispatch uafActive m' _ _ >>= _ = _
    rw [hh.slabAlloc_congr hm hhead]
    cases slabAllocDispatch uafActive h.mem (h.slabClass arena cls).current page with
    | error stop => rfl
    | ok out =>
      simp only [Except.map, bind, Except.bind, withAnswerMem, setPage_withMem hhead _ out.2.2]
      split_ifs <;> rfl

theorem bestPartial_withMem {partials : List ℕ} (hon : ∀ b ∈ partials, h.OnClass arena cls b) :
    bestPartial (h.withMem m') partials = bestPartial h partials := by
  have hbest : ∀ pages : List ℕ, (∀ b ∈ pages, h.OnClass arena cls b) → ∀ i best bestUsed,
      bestLink (fun b => ((h.withMem m').pageAt b).usedCount) pages i best bestUsed =
        bestLink (fun b => (h.pageAt b).usedCount) pages i best bestUsed := by
    intro pages
    induction pages with
    | nil => exact fun _ _ _ _ => rfl
    | cons b rest ih =>
      intro hpages i best bestUsed
      obtain ⟨page, hhead, -, -⟩ := hpages b List.mem_cons_self
      have hrest := ih fun c hc => hpages c (List.mem_cons_of_mem b hc)
      simp only [bestLink, pageAt_withMem hhead, hrest]
  exact hbest _ (fun b hb => hon b (List.mem_of_mem_take hb)) 0 0 0

/-- The first round serves the request in both heaps. -/
theorem tryPartials_withMem (hh : HeapInv h blk) (hm : Untouched blk h.mem m')
    (harena : arena < arenaCount) (hcls : cls < mediumFirstClass) :
    tryPartials uafActive arena cls (h.slabClass arena cls).partials.length (h.withMem m') =
      (tryPartials uafActive arena cls (h.slabClass arena cls).partials.length h).map
        (withHeapMem m') := by
  have hok := hh.lists arena harena cls hcls
  cases hlen : (h.slabClass arena cls).partials.length with
  | zero => rfl
  | succ left =>
    have hbest : bestPartial h (h.slabClass arena cls).partials < _ := bestPartial_lt (by omega)
    obtain ⟨hclass, hon, hroom⟩ := hok.promote hbest
    have hsame : (h.withMem m').slabClass arena cls = h.slabClass arena cls := rfl
    simp only [tryPartials, hsame, bestPartial_withMem fun b hb => (hok.partials b hb).1]
    generalize (h.slabClass arena cls).partials.getD
      (bestPartial h (h.slabClass arena cls).partials) 0 = b at *
    generalize (h.slabClass arena cls).partials.eraseIdx
      (bestPartial h (h.slabClass arena cls).partials) = rest at *
    obtain ⟨page, hhead, rfl, rfl⟩ := hon
    obtain ⟨page', hhead', hlt⟩ := hroom
    rw [hhead] at hhead'
    cases hhead'
    rw [pageAt_withMem hhead, pageAt_eq hhead]
    have hhead₁ : (h.setClass page.arenaId page.sizeClass ⟨b, rest⟩).heads b = some (.slab page) :=
      hhead
    have hcur : ((h.setClass page.arenaId page.sizeClass ⟨b, rest⟩).slabClass page.arenaId
        page.sizeClass).current = b := by
      rw [setClass_slabClass, if_pos ⟨rfl, rfl⟩]
    have halloc := (hh.setClass hclass).pageAlloc uafActive hhead₁ hcur
    change Returns _ (slabAllocDispatch uafActive h.mem b page) _ at halloc
    change slabAllocDispatch uafActive m' b page >>= _ = _
    rw [hh.slabAlloc_congr hm hhead]
    cases hanswer : slabAllocDispatch uafActive h.mem b page with
    | error stop => rfl
    | ok out =>
      have hne : out.1 ≠ 0 := by
        rcases halloc.of_ok hanswer with hfull | hhanded
        · exact absurd hlt hfull.no_room
        · exact hhanded.ne_zero
      have hset : ((h.setClass page.arenaId page.sizeClass ⟨b, rest⟩).withMem m').setPage b out.2.1 m'
          = ((h.setClass page.arenaId page.sizeClass ⟨b, rest⟩).setPage b out.2.1
            out.2.2).withMem m' := setPage_withMem hhead₁ out.2.1 out.2.2
      simp only [Except.map, bind, Except.bind, withAnswerMem, if_pos hne]
      exact congrArg (fun h₁ => Except.ok (out.1, h₁)) hset

/-! ### Fresh pages -/

theorem bytewise_poisonDataArea (dataBase objectSize capacity link : ℕ) :
    Bytewise fun m => debugUafPoisonDataArea uafActive m dataBase objectSize capacity link := by
  intro m m' x hx
  unfold debugUafPoisonDataArea
  split_ifs
  · exact hx
  · exact hx
  · exact hx
  · exact bytewise_foldl (fun i => bytewise_fill _ _ _) _ m m' x hx

theorem smallBuildList_congr (data objectSize : ℕ) : ∀ capacity m m' head,
    (smallBuildList data objectSize capacity m' head).2 =
        (smallBuildList data objectSize capacity m head).2 ∧
      ∀ x, m' x = m x → (smallBuildList data objectSize capacity m' head).1 x =
        (smallBuildList data objectSize capacity m head).1 x := by
  intro capacity
  induction capacity with
  | zero => exact fun m m' head => ⟨rfl, fun x hx => hx⟩
  | succ slot ih =>
    intro m m' head
    obtain ⟨hhead, hmem⟩ := ih (store64 m (data + slot * objectSize) head)
      (store64 m' (data + slot * objectSize) head) (data + slot * objectSize)
    exact ⟨hhead, fun x hx => hmem x (bytewise_store _ _ _ m m' x hx)⟩

/-- The header of a fresh page does not depend on the memory, its bytes one by one. -/
theorem slabInitDispatch_congr (uafActive : Bool) (cpu b cls : ℕ) (m m' : Mem) :
    (slabInitDispatch uafActive cpu m' b cls).1 = (slabInitDispatch uafActive cpu m b cls).1 ∧
      ∀ x, m' x = m x → (slabInitDispatch uafActive cpu m' b cls).2 x =
        (slabInitDispatch uafActive cpu m b cls).2 x := by
  unfold slabInitDispatch
  split_ifs
  · exact ⟨rfl, bytewise_poisonDataArea _ _ _ _ m m'⟩
  · obtain ⟨hhead, hmem⟩ := smallBuildList_congr (b + slabSmallDataOffset (sizeClassSize cls))
      (sizeClassSize cls) (slabSmallCapacityFor (sizeClassSize cls)) m m' 0
    refine ⟨?_, fun x hx => bytewise_poisonDataArea _ _ _ _ _ _ x (hmem x hx)⟩
    simp only [slabSmallInit, hhead]

/-- The two draws stop alike, or answer alike and leave heaps that differ in the memory only: there
where `m` and `m'` differed, and inside the blocks of `m'` nowhere. -/
def Alike (blk : Blocks) (m m' : Mem) :
    Except Stop (ℕ × Heap × List ℕ) → Except Stop (ℕ × Heap × List ℕ) → Prop
  | .ok out, .ok out' => ∃ m₁, out' = (out.1, out.2.1.withMem m₁, out.2.2) ∧
      (∀ x, m' x = m x → m₁ x = out.2.1.mem x) ∧ Preserved blk m' m₁
  | .error stop, .error stop' => stop' = stop
  | _, _ => False

theorem acquireSlabPage_withMem :
    acquireSlabPage (h.withMem m') arena src = ((acquireSlabPage h arena src).1,
      (acquireSlabPage h arena src).2.1.withMem m', (acquireSlabPage h arena src).2.2) := by
  unfold acquireSlabPage
  have hpools : (h.withMem m').pools = h.pools := rfl
  rw [hpools]
  cases (h.pools arena).drained <;> rfl

theorem acquireFreshPage_alike (uafActive : Bool) (cpu : ℕ) (hh : HeapInv h blk) (hm : Untouched blk h.mem m')
    (harena : arena < arenaCount) (hcls : cls < mediumFirstClass) (hlegal : LegalPages h src) :
    Alike blk h.mem m' (acquireFreshPage uafActive cpu h arena cls src)
      (acquireFreshPage uafActive cpu (h.withMem m') arena cls src) := by
  have hacq := acquireSlabPage_spec hh harena hlegal
  simp only [acquireFreshPage, acquireSlabPage_withMem]
  generalize acquireSlabPage h arena src = out at hacq
  obtain ⟨b, h₁, src₁⟩ := out
  have hh₁ : HeapInv h₁ blk := hacq.inv
  have hmem : h₁.mem = h.mem := hacq.still.mem
  have hvacant := hacq.vacant
  dsimp only at hvacant ⊢
  rw [← hmem] at hm ⊢
  split_ifs with h0
  · exact ⟨m', rfl, fun x hx => hx, Preserved.refl _ _⟩
  · have hv := hvacant h0
    have hfits : b + pageSize ≤ 2 ^ 64 := hv.fits.trans (by decide)
    have hinit := slabInitDispatch_spec uafActive cpu h₁.mem hcls hv.pos hfits
    have hinit' := slabInitDispatch_spec uafActive cpu m' hcls hv.pos hfits
    obtain ⟨hheader, hbytes⟩ := slabInitDispatch_congr uafActive cpu b cls h₁.mem m'
    have hwith : (h₁.withMem m').mem = m' := rfl
    rw [hwith, hheader]
    generalize slabInitDispatch uafActive cpu h₁.mem b cls = fresh at hinit hbytes
    generalize slabInitDispatch uafActive cpu m' b cls = fresh' at hinit' hbytes
    have hpage : SlabPage b { fresh.1 with arenaId := arena } fresh.2 ∅ := { hinit.page with }
    -- the bytes of a vacant page lie outside every block
    have hslots : ∀ x, b ≤ x → x < b + pageSize → fresh'.2 x = fresh.2 x := by
      intro x hlo hhi
      apply hbytes
      apply hm
      intro a g ha
      by_contra hin
      have hout := hv.outside hh₁ ha (x := x) (by omega) (by omega)
      omega
    have halloc : slabAllocDispatch uafActive fresh'.2 b { fresh.1 with arenaId := arena } =
        (slabAllocDispatch uafActive fresh.2 b { fresh.1 with arenaId := arena }).map
          (withAnswerMem fresh'.2) := by
      apply slabAllocDispatch_congr hpage
      intro s hs _ x hlo hhi
      obtain ⟨hstart, hend⟩ := hpage.slotAt_bounds hs
      exact hslots x (by omega) (by omega)
    have hmem₂ := slabAllocDispatch_spec uafActive hpage
    rw [halloc]
    cases hanswer : slabAllocDispatch uafActive fresh.2 b { fresh.1 with arenaId := arena } with
    | error stop => exact rfl
    | ok out =>
      have hsame : out.2.2 = fresh.2 := by
        rcases hmem₂ with ⟨-, hout⟩ | ⟨s, page', -, hout | ⟨-, hout⟩⟩
        · rw [hanswer] at hout
          cases hout
          rfl
        · rw [hanswer] at hout
          cases hout
          rfl
        · rw [hanswer] at hout
          cases hout
      refine ⟨fresh'.2, rfl, fun x hx => ?_, fun a g ha x hlo hhi => ?_⟩
      · exact (hbytes x hx).trans (congrFun hsame x).symm
      · exact hinit'.frame x (hv.outside hh₁ ha hlo hhi)

/-- Drawing an object does not depend on the bytes of live blocks. -/
theorem slabPoolDraw_alike (uafActive : Bool) (cpu : ℕ) (hh : HeapInv h blk) (hm : Untouched blk h.mem m')
    (harena : arena < arenaCount) (hcls : cls < mediumFirstClass) (hlegal : LegalPages h src) :
    Alike blk h.mem m' (slabPoolDraw uafActive cpu h arena cls src)
      (slabPoolDraw uafActive cpu (h.withMem m') arena cls src) := by
  have hcurrent := tryCurrent_spec uafActive hh harena hcls
  simp only [slabPoolDraw, tryCurrent_withMem hh hm harena hcls]
  cases hout₁ : tryCurrent uafActive h arena cls with
  | error stop => exact rfl
  | ok out₁ =>
    obtain ⟨hdrawn₁, hsteady₁, -⟩ := hcurrent.of_ok hout₁
    have hmem₁ := hsteady₁.mem
    simp only [Except.map, bind, Except.bind, withHeapMem]
    by_cases h0 : out₁.1 = 0
    · have hinv₁ := hdrawn₁.inv
      rw [h0, grantAfter, if_pos rfl] at hinv₁
      have hm₁ : Untouched blk out₁.2.mem m' := hmem₁ ▸ hm
      have hpartials := tryPartials_spec uafActive hinv₁ harena hcls
      have hclass : (out₁.2.withMem m').slabClass arena cls = out₁.2.slabClass arena cls := rfl
      simp only [h0, ne_eq, not_true, if_false, hclass, tryPartials_withMem hinv₁ hm₁ harena hcls]
      cases hout₂ : tryPartials uafActive arena cls (out₁.2.slabClass arena cls).partials.length
          out₁.2 with
      | error stop => exact rfl
      | ok out₂ =>
        obtain ⟨-, hsteady₂, -, hsame⟩ := hpartials.of_ok hout₂
        simp only [Except.map, withHeapMem]
        by_cases h0' : out₂.1 = 0
        · have hlegal₁ := hlegal.mono hsteady₁.taken
          have hfresh := acquireFreshPage_alike uafActive cpu hinv₁ hm₁ harena hcls hlegal₁
          simp only [h0', not_true, if_false, hsame h0']
          rwa [hmem₁] at hfresh
        · simp only [h0', not_false_eq_true, if_true]
          exact ⟨m', rfl, fun x hx => by rw [hx, ← hmem₁, ← hsteady₂.mem], Preserved.refl _ _⟩
    · simp only [ne_eq, h0, not_false_eq_true, if_true]
      exact ⟨m', rfl, fun x hx => by rw [hx, ← hmem₁], Preserved.refl _ _⟩

/-! ### The refill loop -/

/-- Up to `left` single allocations, until one answers the null pointer. -/
def slabPoolAllocRepeat (uafActive : Bool) (cpu arena cls : ℕ) :
    ℕ → Heap → List ℕ → Except Stop (List ℕ × Heap × List ℕ)
  | 0, h, src => .ok ([], h, src)
  | left + 1, h, src => do
    let out ← slabPoolAllocArena uafActive cpu h arena cls src
    if out.1 = 0 then pure ([], out.2.1, out.2.2)
    else do
      let rest ← slabPoolAllocRepeat uafActive cpu arena cls left out.2.1 out.2.2
      pure (out.1 :: rest.1, rest.2.1, rest.2.2)

/-- The memories differ in the first words of the slots only. -/
def OffLinks (slots : List ℕ) (m m' : Mem) : Prop :=
  ∀ x, (∀ p ∈ slots, x < p ∨ p + linkBytes ≤ x) → m' x = m x

/-- A refill under way: its slots, last drawn first, are live blocks and hold the links. -/
structure Linking (h : Heap) (blk : Blocks) (g : Grant) (m : Mem) (batch : Batch)
    (slots : List ℕ) : Prop where
  live : ∀ p ∈ slots, blk p = some g
  off : OffLinks slots h.mem m
  chain : Chain 0 (load64 m) batch.head slots
  count : batch.count = slots.length
  tail : batch.tail = slots.getLastD 0

theorem Linking.untouched {g : Grant} {batch : Batch} {slots : List ℕ}
    (hl : Linking h blk g m batch slots) (hh : HeapInv h blk) : Untouched blk h.mem m := by
  intro x hx
  apply hl.off
  intro p hp
  have hout := hx p g (hl.live p hp)
  have hbounds := hh.block_bounds (hl.live p hp)
  omega

/-- One more object is drawn and linked in front. -/
theorem Linking.cons {g : Grant} {batch : Batch} {slots : List ℕ} {obj : ℕ} {m₁ : Mem}
    (hl : Linking h blk g m batch slots) (hh : HeapInv h blk)
    (hh' : HeapInv h' (update blk obj (some g))) (hobj : obj ≠ 0) (hfresh : blk obj = none)
    (hagree : ∀ x, m x = h.mem x → m₁ x = h'.mem x) (hkept : Preserved blk m m₁) :
    Linking h' (update blk obj (some g)) g (store64 m₁ obj batch.head)
      ⟨obj, if batch.tail = 0 then obj else batch.tail, batch.count + 1⟩ (obj :: slots) := by
  have hne : ∀ p ∈ slots, p ≠ obj := by
    intro p hp heq
    have hlive := hl.live p hp
    rw [heq, hfresh] at hlive
    cases hlive
  have hlive : ∀ p ∈ obj :: slots, update blk obj (some g) p = some g := by
    intro p hp
    rcases List.mem_cons.1 hp with rfl | hp
    · exact update_self _ _ _
    · rw [update_of_ne (hne p hp)]
      exact hl.live p hp
  have hhead : batch.head < 2 ^ 64 := by
    by_cases h0 : batch.head = 0
    · rw [h0]
      decide
    · have hbounds := hh.block_bounds (hl.live _ (hl.chain.head_mem h0))
      have hspace : addressSpace ≤ 2 ^ 64 := by decide
      unfold linkBytes at hbounds
      omega
  refine ⟨hlive, ?_, ?_, ?_, ?_⟩
  · intro x hx
    have hout := hx obj List.mem_cons_self
    rw [sameOutside_store64 m₁ obj batch.head x hout]
    exact hagree x (hl.off x fun p hp => hx p (List.mem_cons_of_mem obj hp))
  · apply Chain.cons hobj
    rw [load64_store64_self hhead]
    apply hl.chain.congr
    intro p hp
    have hapart := hh'.blocks_apart (hlive p (List.mem_cons_of_mem obj hp))
      (hlive obj List.mem_cons_self) (hne p hp)
    have hg := (hh.block_bounds (hl.live p hp)).2.1
    unfold linkBytes at hg
    rw [load64_store64_of_disjoint (by omega)]
    exact load_congr fun x hlo hhi => hkept p g (hl.live p hp) x hlo (by omega)
  · simp [hl.count]
  · rw [hl.tail]
    cases slots with
    | nil => simp
    | cons p rest =>
      have hlast : (p :: rest).getLastD 0 ≠ 0 := by
        apply hl.chain.ne_nil
        rw [List.getLastD_cons]
        exact List.getLastD_mem_cons
      rw [if_neg hlast, List.getLastD_cons, List.getLastD_cons, List.getLastD_cons]

/-- The single allocations and the refill stop alike, or leave the same state up to the links of the
chain, which holds the pointers of the single allocations in front of `slots`. -/
def LoopAlike (g : Grant) (slots : List ℕ) :
    Except Stop (List ℕ × Heap × List ℕ) → Except Stop (Batch × Heap × List ℕ) → Prop
  | .ok single, .ok refill => ∃ m blk, refill.2 = (single.2.1.withMem m, single.2.2) ∧
      Linking single.2.1 blk g m refill.1 (single.1.reverse ++ slots)
  | .error stop, .error stop' => stop' = stop
  | _, _ => False

theorem slabPoolBatchLoop_alike (uafActive : Bool) (cpu : ℕ) (harena : arena < arenaCount)
    (hcls : cls < mediumFirstClass) (left : ℕ) :
    ∀ {h : Heap} {blk : Blocks} {m : Mem} {batch : Batch} {slots src : List ℕ},
      HeapInv h blk → LegalPages h src → Linking h blk (slabGrant cls arena) m batch slots →
      LoopAlike (slabGrant cls arena) slots (slabPoolAllocRepeat uafActive cpu arena cls left h src)
        (slabPoolBatchLoop uafActive cpu arena cls left batch (h.withMem m) src) := by
  induction left with
  | zero =>
    intro h blk m batch slots src hh hlegal hl
    exact ⟨m, blk, rfl, hl⟩
  | succ left ih =>
    intro h blk m batch slots src hh hlegal hl
    have hspec := slabPoolDraw_spec uafActive cpu hh harena hcls hlegal
    have halike := slabPoolDraw_alike uafActive cpu hh (hl.untouched hh) harena hcls hlegal
    simp only [slabPoolAllocRepeat, slabPoolBatchLoop, slabPoolAllocArena,
      if_neg (Nat.not_le.2 hcls)]
    cases hout : slabPoolDraw uafActive cpu h arena cls src with
    | error stop =>
      rw [hout] at halike
      cases hout' : slabPoolDraw uafActive cpu (h.withMem m) arena cls src with
      | error stop' =>
        rw [hout'] at halike
        exact halike
      | ok out' =>
        rw [hout'] at halike
        exact halike.elim
    | ok out =>
      have hdrawn := hspec.of_ok hout
      rw [hout] at halike
      cases hout' : slabPoolDraw uafActive cpu (h.withMem m) arena cls src with
      | error stop' =>
        rw [hout'] at halike
        exact halike.elim
      | ok out' =>
        rw [hout'] at halike
        obtain ⟨m₁, rfl, hagree, hkept⟩ := halike
        have hinv := hdrawn.inv
        simp only [bind, Except.bind]
        by_cases h0 : out.1 = 0
        · simp only [if_pos h0]
          rw [h0, grantAfter, if_pos rfl] at hinv
          refine ⟨m₁, blk, rfl, hl.live, fun x hx => hagree x (hl.off x hx), ?_, hl.count, hl.tail⟩
          apply hl.chain.congr
          intro p hp
          have hg := (hh.block_bounds (hl.live p hp)).2.1
          unfold linkBytes at hg
          exact load_congr fun x hlo hhi => hkept p _ (hl.live p hp) x hlo (by omega)
        · simp only [if_neg h0]
          rw [grantAfter, if_neg h0] at hinv
          have hl' := hl.cons hh hinv h0 (hdrawn.fresh h0) hagree hkept
          have hrest := ih hinv hdrawn.drew.legal hl'
          change LoopAlike _ _ _ (slabPoolBatchLoop uafActive cpu arena cls left _
            (out.2.1.withMem (store64 m₁ out.1 batch.head)) out.2.2)
          generalize slabPoolBatchLoop uafActive cpu arena cls left _ _ out.2.2 = refill at hrest ⊢
          cases hsingle : slabPoolAllocRepeat uafActive cpu arena cls left out.2.1 out.2.2 with
          | error stop =>
            rw [hsingle] at hrest
            cases refill with
            | error stop' => exact hrest
            | ok refill => exact hrest.elim
          | ok single =>
            rw [hsingle] at hrest
            cases refill with
            | error stop => exact hrest.elim
            | ok refill =>
              obtain ⟨m₂, blk₂, hstate, hlinked⟩ := hrest
              refine ⟨m₂, blk₂, hstate, ?_⟩
              simpa using hlinked

theorem slabPoolAllocRepeat_length {left : ℕ} {single : List ℕ × Heap × List ℕ}
    (hok : slabPoolAllocRepeat uafActive cpu arena cls left h src = .ok single) :
    single.1.length ≤ left := by
  induction left generalizing h src single with
  | zero =>
    cases hok
    exact le_rfl
  | succ left ih =>
    simp only [slabPoolAllocRepeat, bind_ok_iff] at hok
    obtain ⟨out, -, hok⟩ := hok
    split_ifs at hok
    · cases hok
      exact Nat.zero_le _
    · obtain ⟨rest, hrest, hok⟩ := bind_ok_iff.1 hok
      cases hok
      exact Nat.succ_le_succ (ih hrest)

/-- A refill that gave the pointers `ptrs` of single allocations and left their heap `h`. -/
structure RefillOf (ptrs : List ℕ) (h : Heap) (batch : Batch) (h' : Heap) : Prop where
  count : batch.count = ptrs.length
  chain : Chain 0 (load64 h'.mem) batch.head ptrs.reverse
  tail : batch.tail = ptrs.reverse.getLastD 0
  state : h' = { h with mem := h'.mem }
  memory : ∀ x, (∀ p ∈ ptrs, x < p ∨ p + linkBytes ≤ x) → h'.mem x = h.mem x

/-- What the refill and the single allocations have to do with each other: both stop on the same
check, or both return, the refill with at most `max` of the same pointers and the same state. -/
def Refills (max : ℕ) :
    Except Stop (List ℕ × Heap × List ℕ) → Except Stop (Batch × Heap × List ℕ) → Prop
  | .ok single, .ok refill => single.1.length ≤ max ∧ refill.2.2 = single.2.2 ∧
      RefillOf single.1 single.2.1 refill.1 refill.2.1
  | .error stop, .error stop' => stop' = stop
  | _, _ => False

theorem LoopAlike.refills {g : Grant} {max : ℕ} {single : Except Stop (List ℕ × Heap × List ℕ)}
    {refill : Except Stop (Batch × Heap × List ℕ)} (ha : LoopAlike g [] single refill)
    (hlen : ∀ out, single = .ok out → out.1.length ≤ max) : Refills max single refill := by
  cases single with
  | error stop =>
    cases refill with
    | error stop' => exact ha
    | ok refill => exact ha.elim
  | ok single =>
    cases refill with
    | error stop' => exact ha.elim
    | ok refill =>
      obtain ⟨batch, h', src'⟩ := refill
      obtain ⟨m, blk, hstate, hl⟩ := ha
      obtain ⟨rfl, rfl⟩ : h' = single.2.1.withMem m ∧ src' = single.2.2 := by simpa using hstate
      rw [List.append_nil] at hl
      refine ⟨hlen single rfl, rfl, ⟨?_, hl.chain, hl.tail, rfl, ?_⟩⟩
      · simpa using hl.count
      · exact fun x hx => hl.off x fun p hp => hx p (List.mem_reverse.1 hp)

/-- In every reachable state a refill is the same as that many single allocations. -/
theorem slab_batch_refines {taken : List ℕ} {gone : List Departure} (uafActive : Bool)
    (cpu max : ℕ) (harena : arena < arenaCount) (hcls : cls < mediumFirstClass)
    (hrun : SlabRun arena h blk taken gone) (hlegal : LegalPages h src) :
    Refills max (slabPoolAllocRepeat uafActive cpu arena cls max h src)
      (slabPoolAllocBatch uafActive cpu h arena cls max src) := by
  have hstart : Linking h blk (slabGrant cls arena) h.mem ⟨0, 0, 0⟩ [] :=
    ⟨nofun, fun _ _ => rfl, .nil, rfl, rfl⟩
  have hloop := slabPoolBatchLoop_alike uafActive cpu harena hcls max (hrun.inv harena).inv hlegal
    hstart
  unfold slabPoolAllocBatch
  by_cases h0 : max = 0
  · subst h0
    simp only [or_true, if_true]
    exact hloop.refills fun out hout => slabPoolAllocRepeat_length hout
  · rw [if_neg (by omega)]
    exact hloop.refills fun out hout => slabPoolAllocRepeat_length hout

/-- The page of the class has three live slots, one that was given back and room for more. -/
theorem slab_batch_refines_few : ∃ h blk taken gone, SlabRun arenaDefault h blk taken gone ∧
    Refills 3 (slabPoolAllocRepeat false 0 arenaDefault 2 3 h [])
      (slabPoolAllocBatch false 0 h arenaDefault 2 3 []) := by
  obtain ⟨h, gone, hrun⟩ := fewSlots_run
  have hlegal : LegalPages h [] := ⟨nofun, List.nodup_nil⟩
  exact ⟨h, _, _, gone, hrun, slab_batch_refines false 0 3 (by decide) (by decide) hrun hlegal⟩

end V8Malloc
