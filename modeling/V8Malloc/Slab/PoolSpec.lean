import V8Malloc.Heap.Footprint

/-!
# Pages of the slab pool

A page of a pool is the current one of its class, on the list of partial pages,
full and on no list, or parked. Every operation of the pool moves at most one
page between these places.
-/
namespace V8Malloc

open ByteMemory Function

variable {h h' : Heap} {blk : Blocks} {a b x n arena cls obj : ℕ} {k : RegionKind}
variable {page page' : PageMeta} {m' : Mem} {used : Finset ℕ} {uafActive : Bool} {slab : SlabClass}

/-! ### Answers of the page source -/

/-- The answers to come are distinct vacant pages. -/
structure LegalPages (h : Heap) (src : List ℕ) : Prop where
  vacant : ∀ p ∈ src, p ≠ 0 → Vacant h p pageSize
  nodup : (src.filter (· ≠ 0)).Nodup

theorem LegalPages.mono {src : List ℕ} (hl : LegalPages h src)
    (hsub : ∀ x, h'.Taken x → h.Taken x) : LegalPages h' src :=
  ⟨fun p hp hne => (hl.vacant p hp hne).mono hsub, hl.nodup⟩

/-- Once the first answer is in use the others are still vacant. -/
theorem LegalPages.tail {p : ℕ} {src : List ℕ} (hl : LegalPages h (p :: src))
    (hsub : ∀ x, h'.Taken x → h.Taken x ∨ p ≤ x ∧ x < p + pageSize) : LegalPages h' src := by
  have hnodup := hl.nodup
  refine ⟨fun q hq hne => ?_, ?_⟩
  · have hvq := hl.vacant q (List.mem_cons_of_mem p hq) hne
    refine { hvq with free := fun x hlo hhi hx => ?_ }
    rcases hsub x hx with hx | ⟨hlo', hhi'⟩
    · exact hvq.free x hlo hhi hx
    · have hp0 : p ≠ 0 := by
        rintro rfl
        obtain ⟨c, hc⟩ := hvq.aligned
        unfold pageSize at *
        omega
      have hpq : p = q := by
        obtain ⟨c, rfl⟩ := hvq.aligned
        obtain ⟨d, rfl⟩ := (hl.vacant p List.mem_cons_self hp0).aligned
        unfold pageSize at *
        omega
      rw [List.filter_cons_of_pos (by simpa using hp0), List.nodup_cons] at hnodup
      refine hnodup.1 ?_
      rw [hpq]
      exact List.mem_filter.2 ⟨hq, by simpa using hne⟩
  · rw [List.filter_cons] at hnodup
    split_ifs at hnodup
    · exact (List.nodup_cons.1 hnodup).2
    · exact hnodup

/-- An address in one of the pages to come. -/
def InPages (src : List ℕ) (x : ℕ) : Prop := ∃ p ∈ src, p ≠ 0 ∧ p ≤ x ∧ x < p + pageSize

/-- Memory came from the pages of `src`, and those of `src'` are still to come. -/
structure Offered (h : Heap) (src : List ℕ) (h' : Heap) (src' : List ℕ) : Prop where
  legal : LegalPages h' src'
  within : Within (InPages src) h h'
  rest : ∀ x, InPages src' x → InPages src x

section Offered

variable {src src' src'' : List ℕ}

theorem LegalPages.offered (hl : LegalPages h src) (hs : Still h h') : Offered h src h' src :=
  ⟨hl.mono hs.taken, hs.within _, fun _ hx => hx⟩

theorem Offered.trans {h'' : Heap} (h₁ : Offered h src h' src') (h₂ : Offered h' src' h'' src'') :
    Offered h src h'' src'' :=
  ⟨h₂.legal, h₁.within.trans (h₂.within.mono h₁.rest), fun x hx => h₁.rest x (h₂.rest x hx)⟩

theorem LegalPages.write (hl : LegalPages h src) (hm : ∀ x, ¬ h.Taken x → m' x = h.mem x) :
    Offered h src { h with mem := m' } src :=
  ⟨hl.mono fun _ hx => taken_setMem h m' hx, .write hm, fun _ hx => hx⟩

end Offered

/-! ### The lists of a class -/

theorem setClass_slabClass (arena' cls' : ℕ) :
    (h.setClass arena cls slab).slabClass arena' cls' =
      if arena' = arena ∧ cls' = cls then slab else h.slabClass arena' cls' := by
  by_cases ha : arena' = arena
  · subst ha
    by_cases hc : cls' = cls
    · subst hc
      simp [Heap.setClass, Heap.slabClass]
    · simp [Heap.setClass, Heap.slabClass, hc]
  · simp [Heap.setClass, Heap.slabClass, ha]

theorem setClass_drained (arena' : ℕ) :
    ((h.setClass arena cls slab).pools arena').drained = (h.pools arena').drained := by
  by_cases ha : arena' = arena
  · subst ha
    simp [Heap.setClass]
  · simp [Heap.setClass, ha]

theorem Heap.Region.setClass (hr : (h.setClass arena cls slab).Region k b n) : h.Region k b n := by
  cases hr with
  | slab hhead => exact .slab hhead
  | parked harena hmem => exact .parked harena (setClass_drained _ ▸ hmem)
  | large hhead => exact .large hhead
  | cached hmem => exact .cached hmem
  | arena hu => exact .arena hu

/-- New lists for one class. -/
theorem HeapInv.setClass (hh : HeapInv h blk) (hc : ClassOk h arena cls slab) :
    HeapInv (h.setClass arena cls slab) blk where
  layout := hh.layout.mono (fun _ _ _ hr => hr.setClass)
    (fun arena' ha => by rw [setClass_drained]; exact hh.layout.drained arena' ha)
    hh.layout.cached
  headers := hh.headers
  buddy := hh.buddy
  clean := hh.clean
  lists := fun arena' ha cls' hcls' => by
    rw [setClass_slabClass]
    split_ifs with hsame
    · obtain ⟨rfl, rfl⟩ := hsame
      exact hc.congr fun _ _ => rfl
    · exact (hh.lists arena' ha cls' hcls').congr fun _ _ => rfl

/-- A page is on the lists of its own class only. -/
theorem OnClass.unique {arena' cls' : ℕ} (h₁ : h.OnClass arena cls b)
    (h₂ : h.OnClass arena' cls' b) : arena = arena' ∧ cls = cls' := by
  obtain ⟨page, hhead, rfl, rfl⟩ := h₁
  obtain ⟨page', hhead', rfl, rfl⟩ := h₂
  rw [hhead] at hhead'
  cases hhead'
  exact ⟨rfl, rfl⟩

/-- A page changes without leaving its class; on a list of partial pages it keeps room. -/
theorem ListsOk.putPage (hl : ListsOk h) (hhead : h.heads b = some (.slab page))
    (hheads : h'.heads = update h.heads b (some (.slab page'))) (hpools : h'.pools = h.pools)
    (hcls : page'.sizeClass = page.sizeClass) (harena : page'.arenaId = page.arenaId)
    (hroom : b ∈ (h.slabClass page.arenaId page.sizeClass).partials →
      page'.usedCount < page'.capacity) : ListsOk h' := by
  have hon : ∀ {arena cls c : ℕ}, h.OnClass arena cls c → h'.OnClass arena cls c := by
    rintro arena cls c ⟨p, hp, rfl, rfl⟩
    by_cases hc : c = b
    · subst hc
      rw [hhead] at hp
      cases hp
      exact ⟨page', by rw [hheads, update_self], hcls, harena⟩
    · exact ⟨p, by rw [hheads, update_of_ne hc]; exact hp, rfl, rfl⟩
  intro arena ha cls hc
  have hclass : h'.slabClass arena cls = h.slabClass arena cls := by
    unfold Heap.slabClass
    rw [hpools]
  rw [hclass]
  have hok := hl arena ha cls hc
  refine ⟨fun hne => hon (hok.current hne), fun c hcm => ?_, hok.nodup, hok.apart⟩
  obtain ⟨hclass, p, hp, hlt⟩ := hok.partials c hcm
  refine ⟨hon hclass, ?_⟩
  by_cases hcb : c = b
  · subst hcb
    refine ⟨page', by rw [hheads, update_self], hroom ?_⟩
    obtain ⟨h₁, h₂⟩ := OnClass.unique hclass ⟨page, hhead, rfl, rfl⟩
    rwa [← h₁, ← h₂]
  · exact ⟨p, by rw [hheads, update_of_ne hcb]; exact hp, hlt⟩

/-! ### One page -/

theorem pageAt_eq (hhead : h.heads b = some (.slab page)) : h.pageAt b = page := by
  simp only [Heap.pageAt, hhead]

theorem setPage_eq (hhead : h.heads b = some (.slab page)) (page' : PageMeta) (m' : Mem) :
    h.setPage b page' m' =
      { h with heads := update h.heads b (some (.slab page')), mem := m' } := by
  simp only [Heap.setPage, hhead]

theorem setPage_pools (b : ℕ) (page : PageMeta) (m : Mem) :
    (h.setPage b page m).pools = h.pools := by
  unfold Heap.setPage
  split <;> rfl

theorem setPage_slabClass (arena' cls' : ℕ) :
    (h.setPage b page' m').slabClass arena' cls' = h.slabClass arena' cls' := by
  unfold Heap.slabClass
  rw [setPage_pools]

theorem setPage_arenas (hhead : h.heads b = some (.slab page)) :
    (h.setPage b page' m').arenas = h.arenas := by
  rw [setPage_eq hhead]

theorem setPage_mem (hhead : h.heads b = some (.slab page)) :
    (h.setPage b page' m').mem = m' := by
  rw [setPage_eq hhead]

theorem setPage_head (hhead : h.heads b = some (.slab page)) :
    (h.setPage b page' m').heads b = some (.slab page') := by
  rw [setPage_eq hhead]
  exact update_self _ _ _

theorem Heap.Region.setPage {c : ℕ} (hhead : h.heads b = some (.slab page))
    (hr : (h.setPage b page' m').Region k c n) : h.Region k c n := by
  rw [setPage_eq hhead] at hr
  cases hr with
  | slab hhead' =>
    by_cases hc : c = b
    · subst hc
      exact .slab hhead
    · exact .slab (by simpa [hc] using hhead')
  | parked harena hmem => exact .parked harena hmem
  | large hhead' =>
    refine .large ?_
    by_cases hc : c = b
    · subst hc
      simp at hhead'
    · simpa [hc] using hhead'
  | cached hmem => exact .cached hmem
  | arena hu => exact .arena hu

theorem setPage_taken (hhead : h.heads b = some (.slab page))
    (hx : (h.setPage b page' m').Taken x) : h.Taken x := by
  obtain ⟨k, c, n, hr, hin⟩ := hx
  exact ⟨k, c, n, hr.setPage hhead, hin⟩

/-- A page changes inside its own bytes and keeps its class. -/
theorem HeapInv.setPage {blk' : Blocks} (hh : HeapInv h blk) (hhead : h.heads b = some (.slab page))
    (hcls : page'.sizeClass = page.sizeClass) (harena : page'.arenaId = page.arenaId)
    (hroom : b ∈ (h.slabClass page.arenaId page.sizeClass).partials →
      page'.usedCount < page'.capacity)
    (hframe : SameOutside b pageSize h.mem m')
    (hblk : ∀ a, ptrToMeta a ≠ b → blk' a = blk a) (hpage : SlabPage b page' m' used)
    (hiff : ∀ a g, ptrToMeta a = b →
      (blk' a = some g ↔ ∃ s ∈ used, a = page'.slotAt b s ∧ g = page'.grant)) :
    HeapInv (h.setPage b page' m') blk' := by
  have hregion : (h.setPage b page' m').Region .slab b pageSize := .slab (setPage_head hhead)
  have hheads : (h.setPage b page' m').heads =
      update h.heads b (some (.slab page')) := by rw [setPage_eq hhead]
  have hpools : (h.setPage b page' m').pools = h.pools := setPage_pools b page' m'
  have hcache : (h.setPage b page' m').largeCache = h.largeCache := by rw [setPage_eq hhead]
  have hmem : (h.setPage b page' m').mem = m' := setPage_mem hhead
  refine hh.putHeader (setPage_arenas hhead) hheads ?_ ?_ hregion (by decide)
    (hmem.symm ▸ hframe) hblk ?_
  · refine hh.layout.mono (fun _ _ _ hr => hr.setPage hhead) (fun arena' ha => ?_) ?_
    · rw [hpools]
      exact hh.layout.drained arena' ha
    · rw [hcache]
      exact hh.layout.cached
  · exact hh.lists.putPage hhead hheads hpools hcls harena hroom
  · rw [hmem]
    obtain ⟨hlt, -⟩ := hh.headers _ _ hhead
    exact ⟨harena ▸ hlt, used, hpage, hiff⟩

/-- The page in service of its class is on no list of partial pages. -/
theorem ListsOk.current_notMem (hl : ListsOk h) (harena : page.arenaId < arenaCount)
    (hcls : page.sizeClass < mediumFirstClass)
    (hcur : (h.slabClass page.arenaId page.sizeClass).current = b) :
    b ∉ (h.slabClass page.arenaId page.sizeClass).partials :=
  hcur ▸ (hl page.arenaId harena page.sizeClass hcls).apart

/-- The page answers the null pointer only when it has no room. -/
structure Full (page : PageMeta) (m : Mem) (out : ℕ × PageMeta × Mem) : Prop where
  out_eq : out = (0, page, m)
  no_room : ¬ page.usedCount < page.capacity

/-- The page hands out one more block. -/
structure Handed (h : Heap) (blk : Blocks) (b : ℕ) (page : PageMeta) (out : ℕ × PageMeta × Mem) :
    Prop where
  ne_zero : out.1 ≠ 0
  fresh : blk out.1 = none
  mem_eq : out.2.2 = h.mem
  cls_eq : out.2.1.sizeClass = page.sizeClass
  arena_eq : out.2.1.arenaId = page.arenaId
  used_pos : 0 < out.2.1.usedCount
  inv : HeapInv (h.setPage b out.2.1 out.2.2) (update blk out.1 (some page.grant))

theorem HeapInv.pageAlloc (uafActive : Bool) (hh : HeapInv h blk)
    (hhead : h.heads b = some (.slab page))
    (hcur : (h.slabClass page.arenaId page.sizeClass).current = b) :
    Returns (uafActive = true) (slabAllocDispatch uafActive h.mem b page) fun out =>
      Full page h.mem out ∨ Handed h blk b page out := by
  obtain ⟨harena, used, hpage, hiff⟩ := hh.headers _ _ hhead
  have hdvd := (hh.layout.fits _ _ _ (.slab hhead)).1
  rcases slabAllocDispatch_spec uafActive hpage with ⟨hfull, hout⟩ | ⟨s, page', hclaim, hout⟩
  · rw [hout]
    refine returns_ok (Or.inl ⟨rfl, ?_⟩)
    have hused : used = Finset.range page.capacity := by
      ext s
      rw [Finset.mem_range]
      exact ⟨hpage.used_lt s, hfull s⟩
    rw [hpage.count_eq, hused, Finset.card_range]
    exact lt_irrefl _
  · have haddr := hpage.ptrToMeta_slotAt hdvd hclaim.slot_lt
    have hfresh : blk (page.slotAt b s) = none := by
      rw [Option.eq_none_iff_forall_ne_some]
      intro g hg
      obtain ⟨t, ht, heq, -⟩ := (hiff _ g haddr).1 hg
      exact hclaim.fresh (hpage.slotAt_inj heq ▸ ht)
    have hslot : ∀ t, page'.slotAt b t = page.slotAt b t := fun t => by
      unfold PageMeta.slotAt
      rw [hclaim.cls_eq]
    have hgrant : page'.grant = page.grant := by
      unfold PageMeta.grant
      rw [hclaim.after.size_eq, hpage.size_eq, hclaim.cls_eq, hclaim.arena_eq]
    have hinv : HeapInv (h.setPage b page' h.mem)
        (update blk (page.slotAt b s) (some page.grant)) := by
      refine hh.setPage hhead hclaim.cls_eq hclaim.arena_eq ?_ (SameOutside.refl _ _ _) ?_
        hclaim.after ?_
      · exact fun hmem => absurd hmem (hh.lists.current_notMem harena hpage.cls_lt hcur)
      · intro a ha
        refine update_of_ne ?_ _ _
        rintro rfl
        exact ha haddr
      · intro a g ha
        by_cases heq : a = page.slotAt b s
        · subst heq
          rw [update_self, Option.some_inj]
          constructor
          · rintro rfl
            exact ⟨s, Finset.mem_insert_self _ _, (hslot s).symm, hgrant.symm⟩
          · rintro ⟨-, -, -, rfl⟩
            exact hgrant.symm
        · rw [update_of_ne heq, hiff a g ha, hgrant]
          constructor
          · rintro ⟨t, ht, rfl, rfl⟩
            exact ⟨t, Finset.mem_insert_of_mem ht, (hslot t).symm, rfl⟩
          · rintro ⟨t, ht, rfl, rfl⟩
            rw [hslot] at heq ⊢
            rcases Finset.mem_insert.1 ht with rfl | ht
            · exact absurd rfl heq
            · exact ⟨t, ht, rfl, rfl⟩
    rcases hout with hok | habort
    · rw [hok]
      refine returns_ok (Or.inr ⟨hpage.slotAt_ne_zero s, hfresh, rfl, hclaim.cls_eq,
        hclaim.arena_eq, ?_, hinv⟩)
      dsimp only
      rw [hclaim.after.count_eq]
      exact Finset.card_pos.2 ⟨s, Finset.mem_insert_self _ _⟩
    · exact Or.inr habort

/-! ### Pages in use -/

/-- The page is the current one of the class or on its list of partial pages. -/
def SlabClass.Lists (slab : SlabClass) (b : ℕ) : Prop := slab.current = b ∨ b ∈ slab.partials

def Heap.Listed (h : Heap) (page : PageMeta) (b : ℕ) : Prop :=
  (h.slabClass page.arenaId page.sizeClass).Lists b

/-- No page in use is empty, and none with room is lost. -/
structure Placed (h : Heap) : Prop where
  occupied : ∀ b page, h.heads b = some (.slab page) → 0 < page.usedCount
  listed : ∀ b page, h.heads b = some (.slab page) → page.usedCount < page.capacity →
    h.Listed page b

/-- The same for all pages but one. -/
structure PlacedBut (b : ℕ) (h : Heap) : Prop where
  occupied : ∀ c page, c ≠ b → h.heads c = some (.slab page) → 0 < page.usedCount
  listed : ∀ c page, c ≠ b → h.heads c = some (.slab page) → page.usedCount < page.capacity →
    h.Listed page c

theorem Placed.but (hp : Placed h) (b : ℕ) : PlacedBut b h :=
  ⟨fun c page _ => hp.occupied c page, fun c page _ => hp.listed c page⟩

/-- An operation on one page, which leaves the others in their places. -/
theorem PlacedBut.move (hp : PlacedBut b h) (hheads : ∀ c, c ≠ b → h'.heads c = h.heads c)
    (hlists : ∀ arena cls c page, c ≠ b → h.heads c = some (.slab page) →
      (h.slabClass arena cls).Lists c → (h'.slabClass arena cls).Lists c) : PlacedBut b h' := by
  refine ⟨fun c page hc hhead => ?_, fun c page hc hhead hroom => ?_⟩
  · exact hp.occupied c page hc (hheads c hc ▸ hhead)
  · rw [hheads c hc] at hhead
    exact hlists _ _ c page hc hhead (hp.listed c page hc hhead hroom)

theorem PlacedBut.placed (hp : PlacedBut b h) (hself : ∀ page, h.heads b = some (.slab page) →
    0 < page.usedCount ∧ (page.usedCount < page.capacity → h.Listed page b)) : Placed h := by
  constructor
  · intro c page hhead
    by_cases hc : c = b
    · subst hc
      exact (hself page hhead).1
    · exact hp.occupied c page hc hhead
  · intro c page hhead hroom
    by_cases hc : c = b
    · subst hc
      exact (hself page hhead).2 hroom
    · exact hp.listed c page hc hhead hroom

theorem setClass_slabClass_self : (h.setClass arena cls slab).slabClass arena cls = slab := by
  rw [setClass_slabClass, if_pos ⟨rfl, rfl⟩]

theorem SlabClass.Lists.setClass {arena' cls' : ℕ} (hl : (h.slabClass arena' cls').Lists c)
    (hkeep : (h.slabClass arena cls).Lists c → slab.Lists c) :
    ((h.setClass arena cls slab).slabClass arena' cls').Lists c := by
  rw [setClass_slabClass]
  split_ifs with hsame
  · rw [hsame.1, hsame.2] at hl
    exact hkeep hl
  · exact hl

theorem PlacedBut.setClass (hp : PlacedBut b h)
    (hkeep : ∀ c, c ≠ b → (h.slabClass arena cls).Lists c → slab.Lists c) :
    PlacedBut b (h.setClass arena cls slab) :=
  hp.move (fun _ _ => rfl) fun _ _ c _ hc _ hl => hl.setClass (hkeep c hc)

theorem PlacedBut.put (hp : PlacedBut b h) (hhead : h.heads b = some (.slab page))
    (hpos : 0 < page.usedCount) (hlisted : page.usedCount < page.capacity → h.Listed page b) :
    Placed h := by
  refine hp.placed fun other hother => ?_
  cases hhead.symm.trans hother
  exact ⟨hpos, hlisted⟩

/-- One page changes and stays on the lists. -/
theorem Placed.setPage (hp : Placed h) (hhead : h.heads b = some (.slab page))
    (hpos : 0 < page'.usedCount) (hlisted : h.Listed page' b) : Placed (h.setPage b page' m') := by
  rw [setPage_eq hhead]
  exact PlacedBut.put ((hp.but b).move (fun c hc => update_of_ne hc _ _) fun _ _ _ _ _ _ hl => hl)
    (update_self b _ _) hpos fun _ => hlisted

/-- A page with room goes into service, and the partial pages stay but for it. -/
theorem Placed.serve {rest : List ℕ} (hp : Placed h)
    (hcur : (h.slabClass arena cls).current = 0)
    (hrest : ∀ c ∈ (h.slabClass arena cls).partials, c ≠ b → c ∈ rest)
    (hnull : ∀ c page, h.heads c = some (.slab page) → c ≠ 0)
    (hpos : 0 < page.usedCount) (hcls : page.sizeClass = cls) (hid : page.arenaId = arena) :
    Placed { h.setClass arena cls ⟨b, rest⟩ with
      heads := update h.heads b (some (.slab page)), mem := m' } := by
  refine PlacedBut.put ((hp.but b).move (fun c hc => update_of_ne hc _ _) ?_) (update_self b _ _)
    hpos fun _ => Or.inl ?_
  · refine fun _ _ c other hc hother hl => hl.setClass fun hl => Or.inr ?_
    rw [SlabClass.Lists, hcur] at hl
    exact hrest c (hl.resolve_left (Ne.symm (hnull c other hother))) hc
  · rw [hcls, hid]
    exact congrArg SlabClass.current setClass_slabClass_self

theorem HeapInv.head_ne_zero (hh : HeapInv h blk) (hhead : h.heads b = some (.slab page)) :
    b ≠ 0 := Nat.pos_iff_ne_zero.1 (hh.layout.fits _ _ _ (.slab hhead)).2.2.1

/-! ### Pages of the pool -/

/-- The pool has the page, in use or parked. -/
def Heap.Owns (h : Heap) (arena b : ℕ) : Prop :=
  (∃ page, h.heads b = some (.slab page) ∧ page.arenaId = arena) ∨
    b ∈ (h.pools arena).drained.map Prod.fst

/-- The pool has got the pages of `new`, and the buddy arenas are as before. -/
structure Grown (arena : ℕ) (h h' : Heap) (new : List ℕ) : Prop where
  arenas : h'.arenas = h.arenas
  nodup : new.Nodup
  fresh : ∀ b ∈ new, ¬ h.Owns arena b
  owns : ∀ b, h'.Owns arena b ↔ h.Owns arena b ∨ b ∈ new

theorem Grown.of_owns (harenas : h'.arenas = h.arenas)
    (howns : ∀ b, h'.Owns arena b ↔ h.Owns arena b) : Grown arena h h' [] :=
  ⟨harenas, List.nodup_nil, by simp, by simpa using howns⟩

theorem Grown.trans {h'' : Heap} {new new' : List ℕ} (h₁ : Grown arena h h' new)
    (h₂ : Grown arena h' h'' new') : Grown arena h h'' (new ++ new') where
  arenas := h₂.arenas.trans h₁.arenas
  nodup := by
    rw [List.nodup_append']
    refine ⟨h₁.nodup, h₂.nodup, fun b hb hb' => ?_⟩
    exact h₂.fresh b hb' ((h₁.owns b).2 (Or.inr hb))
  fresh := by
    intro b hb howns
    rcases List.mem_append.1 hb with hb | hb
    · exact h₁.fresh b hb howns
    · exact h₂.fresh b hb ((h₁.owns b).2 (Or.inl howns))
  owns := by
    intro b
    rw [h₂.owns, h₁.owns, List.mem_append, or_assoc]

theorem owns_setClass (arena' : ℕ) :
    (h.setClass arena cls slab).Owns arena' b ↔ h.Owns arena' b := by
  unfold Heap.Owns
  rw [setClass_drained]
  rfl

theorem owns_setPage (hhead : h.heads b = some (.slab page)) (hid : page'.arenaId = page.arenaId) :
    (h.setPage b page' m').Owns arena c ↔ h.Owns arena c := by
  rw [setPage_eq hhead]
  unfold Heap.Owns
  by_cases hc : c = b
  · subst hc
    simp [hhead, hid]
  · simp [update_of_ne hc]

theorem Vacant.not_owned (hv : Vacant h p pageSize) (hl : Layout h) (harena : arena < arenaCount) :
    ¬ h.Owns arena p := by
  rintro (⟨page, hhead, -⟩ | hmem)
  · rw [hv.no_header hl] at hhead
    cases hhead
  · obtain ⟨entry, hentry, rfl⟩ := List.mem_map.1 hmem
    exact hv.free _ le_rfl (Nat.lt_add_of_pos_right (by decide))
      ⟨_, _, _, .parked harena hentry, le_rfl, Nat.lt_add_of_pos_right (by decide)⟩

/-- No byte changes, and every pool has the pages it had. -/
structure Steady (h h' : Heap) : Prop extends Still h h' where
  arenas : h'.arenas = h.arenas
  drained : ∀ arena, (h'.pools arena).drained = (h.pools arena).drained
  owns : ∀ arena c, h'.Owns arena c ↔ h.Owns arena c

theorem Steady.refl (h : Heap) : Steady h h := ⟨.refl h, rfl, fun _ => rfl, fun _ _ => Iff.rfl⟩

theorem Steady.trans {h'' : Heap} (h₁ : Steady h h') (h₂ : Steady h' h'') : Steady h h'' :=
  ⟨h₁.toStill.trans h₂.toStill, h₂.arenas.trans h₁.arenas,
    fun arena => (h₂.drained arena).trans (h₁.drained arena),
    fun arena c => (h₂.owns arena c).trans (h₁.owns arena c)⟩

theorem steady_setClass : Steady h (h.setClass arena cls slab) := by
  refine ⟨⟨rfl, ?_, .of_heads rfl⟩, rfl, setClass_drained, fun _ _ => owns_setClass _⟩
  rintro x ⟨k, b, n, hr, hin⟩
  exact ⟨k, b, n, hr.setClass, hin⟩

theorem Handed.steady {out : ℕ × PageMeta × Mem} (hout : Handed h blk b page out)
    (hhead : h.heads b = some (.slab page)) : Steady h (h.setPage b out.2.1 out.2.2) :=
  ⟨⟨(setPage_mem hhead).trans hout.mem_eq, fun _ hx => setPage_taken hhead hx, .setPage _ _ _ _⟩,
    setPage_arenas hhead, fun _ => by rw [setPage_pools],
    fun _ _ => owns_setPage hhead hout.arena_eq⟩

/-- A pool has taken pages of `src`, and those of `src'` are still to come. -/
structure Drew (arena : ℕ) (h : Heap) (src : List ℕ) (h' : Heap) (src' : List ℕ) : Prop
    extends Offered h src h' src' where
  placed : Placed h → Placed h'
  grown : ∃ used, src = used ++ src' ∧ Grown arena h h' (used.filter (· ≠ 0))

section Drew

variable {src src' src'' : List ℕ}

theorem Drew.trans {h'' : Heap} (h₁ : Drew arena h src h' src') (h₂ : Drew arena h' src' h'' src'') :
    Drew arena h src h'' src'' := by
  refine ⟨h₁.toOffered.trans h₂.toOffered, fun hp => h₂.placed (h₁.placed hp), ?_⟩
  obtain ⟨used, rfl, hgrown⟩ := h₁.grown
  obtain ⟨used', rfl, hgrown'⟩ := h₂.grown
  refine ⟨used ++ used', by rw [List.append_assoc], ?_⟩
  rw [List.filter_append]
  exact hgrown.trans hgrown'

theorem LegalPages.drew (hl : LegalPages h src) (hs : Steady h h') (hp : Placed h → Placed h') :
    Drew arena h src h' src :=
  ⟨hl.offered hs.toStill, hp, [], rfl, .of_owns hs.arenas (hs.owns arena)⟩

theorem Drew.write (hd : Drew arena h src h' src') (hm : ∀ x, ¬ h'.Taken x → m' x = h'.mem x) :
    Drew arena h src { h' with mem := m' } src' :=
  hd.trans ⟨hd.legal.write hm, fun hp => ⟨hp.occupied, hp.listed⟩, [], rfl,
    .of_owns rfl fun _ => Iff.rfl⟩

end Drew

end V8Malloc
