import V8Malloc.Slab.PoolSpec

/-!
# Drawing an object

An object comes from the current page of its class, from a partial page or from
a fresh one. It is one more block of the heap, the bytes of all other blocks stay
as they are, and what memory the pool takes comes from the pages of the source.
-/
namespace V8Malloc

open ByteMemory Function

variable {h h' : Heap} {blk : Blocks} {b n arena cls : ℕ} {k : RegionKind}
variable {page page' : PageMeta} {m' : Mem} {slab : SlabClass} {h₁ : Heap} {src src₁ : List ℕ}

/-! ### Drawing from pages in service -/

/-- An object of the class was drawn, or the null pointer answered. -/
structure Drawn (h : Heap) (blk : Blocks) (arena cls obj : ℕ) (h' : Heap) : Prop where
  inv : HeapInv h' (grantAfter blk obj ⟨sizeClassSize cls, .slab cls arena⟩)
  fresh : obj ≠ 0 → blk obj = none
  preserved : Preserved blk h.mem h'.mem

theorem drawn_null (hinv : HeapInv h' blk) (hmem : h'.mem = h.mem) : Drawn h blk arena cls 0 h' :=
  ⟨hinv, fun hne => absurd rfl hne, hmem ▸ Preserved.refl _ _⟩

theorem setPage_self (hhead : h.heads b = some (.slab page)) : h.setPage b page h.mem = h := by
  rw [setPage_eq hhead, ← hhead, update_eq_self]

theorem OnClass.grant (hh : HeapInv h blk) (hhead : h.heads b = some (.slab page)) :
    page.grant = ⟨sizeClassSize page.sizeClass, .slab page.sizeClass page.arenaId⟩ := by
  obtain ⟨-, used, hpage, -⟩ := hh.headers _ _ hhead
  unfold PageMeta.grant
  rw [hpage.size_eq]

theorem Handed.drawn {out : ℕ × PageMeta × Mem} (hh : HeapInv h blk)
    (hhead : h.heads b = some (.slab page)) (hout : Handed h blk b page out) :
    Drawn h blk page.arenaId page.sizeClass out.1 (h.setPage b out.2.1 out.2.2) := by
  refine ⟨?_, fun _ => hout.fresh, ?_⟩
  · unfold grantAfter
    rw [if_neg hout.ne_zero, ← OnClass.grant hh hhead]
    exact hout.inv
  · rw [setPage_mem hhead, hout.mem_eq]
    exact Preserved.refl _ _

theorem tryCurrent_spec (uafActive : Bool) (hh : HeapInv h blk) (harena : arena < arenaCount)
    (hcls : cls < mediumFirstClass) :
    Returns (uafActive = true) (tryCurrent uafActive h arena cls) fun out =>
      Drawn h blk arena cls out.1 out.2 ∧ Steady h out.2 ∧ (Placed h → Placed out.2) ∧
        (out.1 = 0 → (out.2.slabClass arena cls).current = 0) := by
  have hok := hh.lists arena harena cls hcls
  simp only [tryCurrent]
  split_ifs with h0
  · exact returns_ok ⟨drawn_null hh rfl, .refl h, id, fun _ => h0⟩
  · obtain ⟨page, hhead, rfl, rfl⟩ := hok.current h0
    rw [pageAt_eq hhead]
    refine (hh.pageAlloc uafActive hhead rfl).bind ?_
    rintro out (hfull | hhanded)
    · rw [hfull.out_eq, if_pos rfl, setPage_self hhead]
      have hclass : ClassOk h page.arenaId page.sizeClass
          { h.slabClass page.arenaId page.sizeClass with current := 0 } := by
        refine ⟨fun hne => absurd rfl hne, hok.partials, hok.nodup, fun hmem => ?_⟩
        obtain ⟨⟨p, hp, -⟩, -⟩ := hok.partials 0 hmem
        have hpos := (hh.layout.fits _ _ _ (.slab hp)).2.2.1
        exact lt_irrefl _ hpos
      refine returns_ok ⟨drawn_null (hh.setClass hclass) rfl, steady_setClass, fun hp => ?_,
        fun _ => by rw [setClass_slabClass_self]⟩
      -- the full page leaves its place
      exact PlacedBut.put ((hp.but _).setClass fun c hc hl => Or.inr (hl.resolve_left (Ne.symm hc)))
        hhead (hp.occupied _ _ hhead) fun hroom => absurd hroom hfull.no_room
    · rw [if_neg hhanded.ne_zero]
      refine returns_ok ⟨hhanded.drawn hh hhead, hhanded.steady hhead,
        fun hp => hp.setPage hhead hhanded.used_pos ?_, fun h0 => absurd h0 hhanded.ne_zero⟩
      unfold Heap.Listed
      rw [hhanded.cls_eq, hhanded.arena_eq]
      exact Or.inl rfl

theorem bestLink_lt (fullness : ℕ → ℕ) (pages : List ℕ) : ∀ i best bestUsed,
    bestLink fullness pages i best bestUsed = best ∨
      bestLink fullness pages i best bestUsed < i + pages.length := by
  induction pages with
  | nil => exact fun _ _ _ => Or.inl rfl
  | cons page rest ih =>
    intro i best bestUsed
    unfold bestLink
    rw [List.length_cons]
    split_ifs
    · rcases ih (i + 1) i (fullness page) with heq | hlt
      · rw [heq]
        exact Or.inr (by omega)
      · exact Or.inr (by omega)
    · rcases ih (i + 1) best bestUsed with heq | hlt
      · exact Or.inl heq
      · exact Or.inr (by omega)

theorem bestPartial_lt {partials : List ℕ} (hne : 0 < partials.length) :
    bestPartial h partials < partials.length := by
  have hlen := List.length_take_le' partialsScanBudget partials
  rcases bestLink_lt (fun page => (h.pageAt page).usedCount) (partials.take partialsScanBudget)
    0 0 0 with heq | hlt
  · unfold bestPartial
    rw [heq]
    exact hne
  · unfold bestPartial
    omega

/-- The lists once the partial page at position `i` is the current one. -/
theorem ClassOk.promote {i : ℕ} (hok : ClassOk h arena cls slab) (hi : i < slab.partials.length) :
    ClassOk h arena cls ⟨slab.partials.getD i 0, slab.partials.eraseIdx i⟩ ∧
      h.OnClass arena cls (slab.partials.getD i 0) ∧ h.Roomy (slab.partials.getD i 0) := by
  have hget : slab.partials.getD i 0 = slab.partials[i] := List.getD_eq_getElem _ _ hi
  have hmem : slab.partials[i] ∈ slab.partials := List.getElem_mem hi
  have hperm := List.getElem_cons_eraseIdx_perm hi
  have hnodup := List.nodup_cons.1 (hperm.nodup_iff.2 hok.nodup)
  rw [hget]
  refine ⟨⟨fun _ => (hok.partials _ hmem).1, fun b hb => hok.partials b ?_, hnodup.2, hnodup.1⟩,
    hok.partials _ hmem⟩
  exact List.mem_of_mem_eraseIdx hb

theorem mem_eraseIdx_of_ne {xs : List ℕ} {i : ℕ} (hi : i < xs.length) (hc : c ∈ xs)
    (hne : c ≠ xs.getD i 0) : c ∈ xs.eraseIdx i := by
  have hperm := (List.getElem_cons_eraseIdx_perm hi).mem_iff.2 hc
  rw [List.getD_eq_getElem _ _ hi] at hne
  exact (List.mem_cons.1 hperm).resolve_left hne

/-- The first round serves the request, since a partial page has room. -/
theorem tryPartials_spec (uafActive : Bool) (hh : HeapInv h blk) (harena : arena < arenaCount)
    (hcls : cls < mediumFirstClass) :
    Returns (uafActive = true)
      (tryPartials uafActive arena cls (h.slabClass arena cls).partials.length h) fun out =>
      Drawn h blk arena cls out.1 out.2 ∧ Steady h out.2 ∧
        (Placed h → (h.slabClass arena cls).current = 0 → Placed out.2) ∧
        (out.1 = 0 → out.2 = h) := by
  have hok := hh.lists arena harena cls hcls
  cases hlen : (h.slabClass arena cls).partials.length with
  | zero => exact returns_ok ⟨drawn_null hh rfl, .refl h, fun hp _ => hp, fun _ => rfl⟩
  | succ left =>
    have hbest : bestPartial h (h.slabClass arena cls).partials < _ := bestPartial_lt (by omega)
    obtain ⟨hclass, hon, hroom⟩ := hok.promote hbest
    have hrest := fun c hc hne => mem_eraseIdx_of_ne (c := c) hbest hc hne
    simp only [tryPartials]
    generalize (h.slabClass arena cls).partials.getD
      (bestPartial h (h.slabClass arena cls).partials) 0 = b at *
    generalize (h.slabClass arena cls).partials.eraseIdx
      (bestPartial h (h.slabClass arena cls).partials) = rest at *
    obtain ⟨page, hhead, rfl, rfl⟩ := hon
    obtain ⟨page', hhead', hlt⟩ := hroom
    rw [hhead] at hhead'
    cases hhead'
    rw [pageAt_eq hhead]
    have hh' := hh.setClass hclass
    have hhead₁ : (h.setClass page.arenaId page.sizeClass ⟨b, rest⟩).heads b = some (.slab page) :=
      hhead
    have hcur : ((h.setClass page.arenaId page.sizeClass ⟨b, rest⟩).slabClass page.arenaId
        page.sizeClass).current = b := by
      rw [setClass_slabClass, if_pos ⟨rfl, rfl⟩]
    refine (hh'.pageAlloc uafActive hhead₁ hcur).bind ?_
    rintro out (hfull | hhanded)
    · exact absurd hlt hfull.no_room
    · rw [if_pos hhanded.ne_zero]
      have hdrawn := hhanded.drawn hh' hhead₁
      refine returns_ok ⟨⟨hdrawn.inv, hdrawn.fresh, hdrawn.preserved⟩,
        steady_setClass.trans (hhanded.steady hhead₁), fun hp hnone => ?_,
        fun h0 => absurd h0 hhanded.ne_zero⟩
      rw [setPage_eq hhead₁]
      exact hp.serve hnone hrest (fun _ _ => hh.head_ne_zero) hhanded.used_pos hhanded.cls_eq
        hhanded.arena_eq

/-! ### Fresh pages -/

/-- The heap with a new page in service of its class. -/
def Heap.openPage (h : Heap) (arena cls b : ℕ) (page : PageMeta) (m : Mem) : Heap :=
  { h.setClass arena cls { h.slabClass arena cls with current := b } with
    heads := update h.heads b (some (.slab page)), mem := m }

theorem Heap.Region.openPage {c : ℕ} (hr : (h.openPage arena cls b page m').Region k c n) :
    h.Region k c n ∨ k = .slab ∧ c = b ∧ n = pageSize := by
  cases hr with
  | slab hhead =>
    by_cases hc : c = b
    · exact Or.inr ⟨rfl, hc, rfl⟩
    · exact Or.inl (.slab (by simpa [Heap.openPage, hc] using hhead))
  | parked harena hmem => exact Or.inl (.parked harena (setClass_drained _ ▸ hmem))
  | large hhead =>
    by_cases hc : c = b
    · subst hc
      simp [Heap.openPage] at hhead
    · exact Or.inl (.large (by simpa [Heap.openPage, hc] using hhead))
  | cached hmem => exact Or.inl (.cached hmem)
  | arena hu => exact Or.inl (.arena hu)

theorem ListsOk.openPage (hl : ListsOk h) (hnone : h.heads b = none)
    (hcls : page.sizeClass = cls) (harena : page.arenaId = arena) :
    ListsOk (h.openPage arena cls b page m') := by
  have hother : ∀ {arena' cls' c : ℕ}, h.OnClass arena' cls' c →
      (h.openPage arena cls b page m').heads c = h.heads c := by
    rintro arena' cls' c ⟨p, hp, -⟩
    refine update_of_ne ?_ _ _
    rintro rfl
    rw [hnone] at hp
    cases hp
  intro arena' ha cls' hc
  have hok := hl arena' ha cls' hc
  have hpartials : ∀ c ∈ (h.slabClass arena' cls').partials,
      (h.openPage arena cls b page m').heads c = h.heads c :=
    fun c hmem => hother (hok.partials c hmem).1
  have hclass : (h.openPage arena cls b page m').slabClass arena' cls' = if arena' = arena ∧ cls' = cls
      then { h.slabClass arena cls with current := b } else h.slabClass arena' cls' :=
    setClass_slabClass arena' cls'
  rw [hclass]
  split_ifs with hsame
  · obtain ⟨rfl, rfl⟩ := hsame
    refine ⟨fun _ => ⟨page, update_self _ _ _, hcls, harena⟩, fun c hmem => ?_, hok.nodup,
      fun hmem => ?_⟩
    · obtain ⟨⟨p, hp⟩, p', hp'⟩ := hok.partials c hmem
      exact ⟨⟨p, by rwa [hpartials c hmem]⟩, p', by rwa [hpartials c hmem]⟩
    · obtain ⟨⟨p, hp, -⟩, -⟩ := hok.partials b hmem
      rw [hnone] at hp
      cases hp
  · -- the current page may be null, which need not keep its header
    by_cases h0 : (h.slabClass arena' cls').current = 0
    · refine ⟨fun hne => absurd h0 hne, fun c hmem => ?_, hok.nodup, hok.apart⟩
      obtain ⟨⟨p, hp⟩, p', hp'⟩ := hok.partials c hmem
      exact ⟨⟨p, by rwa [hpartials c hmem]⟩, p', by rwa [hpartials c hmem]⟩
    · refine hok.congr ?_
      rintro c (rfl | hmem)
      · exact hother (hok.current h0)
      · exact hpartials c hmem

/-- A fresh page in a vacant place goes into service. -/
theorem HeapInv.openPage (hh : HeapInv h blk) (harena : arena < arenaCount)
    (hv : Vacant h b pageSize) (hpage : SlabPage b page m' ∅) (hcls : page.sizeClass = cls)
    (hid : page.arenaId = arena) (hframe : SameOutside b pageSize h.mem m') :
    HeapInv (h.openPage arena cls b page m') blk := by
  have hnone := hv.no_header hh.layout
  have hlayout : Layout (h.openPage arena cls b page m') := by
    refine hh.layout.add hv (fun _ _ _ hr => hr.openPage) (fun arena' ha => ?_) hh.layout.cached
    have heq : ((h.openPage arena cls b page m').pools arena').drained = (h.pools arena').drained :=
      setClass_drained arena'
    rw [heq]
    exact hh.layout.drained arena' ha
  refine hh.putHeader rfl rfl hlayout (hh.lists.openPage hnone hcls hid)
    (.slab (update_self _ _ _)) (by decide) hframe (fun _ _ => rfl) ?_
  refine ⟨hid ▸ harena, ∅, hpage, fun a g ha => ?_⟩
  obtain ⟨hlo, hhi⟩ := ptrToMeta_le a
  rw [ha] at hlo hhi
  rw [hv.no_block hh hlo hhi]
  simp

/-- What taking a page from its source leaves: a vacant place and legal answers to come. -/
structure Acquired (arena : ℕ) (h : Heap) (blk : Blocks) (src : List ℕ)
    (out : ℕ × Heap × List ℕ) : Prop where
  inv : HeapInv out.2.1 blk
  heads : out.2.1.heads = h.heads
  classes : ∀ arena' cls', out.2.1.slabClass arena' cls' = h.slabClass arena' cls'
  arenas : out.2.1.arenas = h.arenas
  source : ∃ used, src = used ++ out.2.2 ∧ (used.filter (· ≠ 0)).Nodup ∧
    (∀ c ∈ used.filter (· ≠ 0), ¬ h.Owns arena c) ∧
    ∀ c, out.2.1.Owns arena c ∨ out.1 ≠ 0 ∧ c = out.1 ↔ h.Owns arena c ∨ c ∈ used.filter (· ≠ 0)
  still : Still h out.2.1
  vacant : out.1 ≠ 0 → Vacant out.2.1 out.1 pageSize
  place : out.1 ≠ 0 → ∀ x, out.1 ≤ x → x < out.1 + pageSize → h.Taken x ∨ InPages src x
  rest : ∀ x, InPages out.2.2 x → InPages src x
  legal : LegalPages out.2.1 out.2.2
  legal_after : out.1 ≠ 0 → ∀ h' : Heap, (∀ x, h'.Taken x → out.2.1.Taken x ∨
    out.1 ≤ x ∧ x < out.1 + pageSize) → LegalPages h' out.2.2

theorem setDrained_drained (arena' : ℕ) (drained : List (ℕ × ℕ)) :
    ((h.setDrained arena drained).pools arena').drained =
      if arena' = arena then drained else (h.pools arena').drained := by
  by_cases ha : arena' = arena
  · subst ha
    simp [Heap.setDrained]
  · simp [Heap.setDrained, ha]

theorem setDrained_slabClass (arena' cls' : ℕ) (drained : List (ℕ × ℕ)) :
    (h.setDrained arena drained).slabClass arena' cls' = h.slabClass arena' cls' := by
  by_cases ha : arena' = arena
  · subst ha
    simp [Heap.setDrained, Heap.slabClass]
  · simp [Heap.setDrained, Heap.slabClass, ha]

theorem Heap.Region.setDrained {drained : List (ℕ × ℕ)}
    (hsub : ∀ e ∈ drained, ∃ idle, (e.1, idle) ∈ (h.pools arena).drained)
    (hr : (h.setDrained arena drained).Region k b n) : h.Region k b n := by
  cases hr with
  | slab hhead => exact .slab hhead
  | @parked arena' _ _ harena hmem =>
    rw [setDrained_drained] at hmem
    split_ifs at hmem with ha
    · subst ha
      obtain ⟨idle, hidle⟩ := hsub _ hmem
      exact .parked harena hidle
    · exact .parked harena hmem
  | large hhead => exact .large hhead
  | cached hmem => exact .cached hmem
  | arena hu => exact .arena hu

/-- Fewer parked pages. -/
theorem HeapInv.setDrained {drained : List (ℕ × ℕ)} (hh : HeapInv h blk)
    (hsub : ∀ e ∈ drained, ∃ idle, (e.1, idle) ∈ (h.pools arena).drained)
    (hnodup : (drained.map Prod.fst).Nodup) : HeapInv (h.setDrained arena drained) blk where
  layout := hh.layout.mono (fun _ _ _ hr => hr.setDrained hsub)
    (fun arena' ha => by
      rw [setDrained_drained]
      split_ifs
      · exact hnodup
      · exact hh.layout.drained arena' ha)
    hh.layout.cached
  headers := hh.headers
  buddy := hh.buddy
  clean := hh.clean
  lists := fun arena' ha cls' hcls' => by
    rw [setDrained_slabClass]
    exact (hh.lists arena' ha cls' hcls').congr fun _ _ => rfl

theorem acquireSlabPage_spec (hh : HeapInv h blk) (harena : arena < arenaCount)
    (hlegal : LegalPages h src) : Acquired arena h blk src (acquireSlabPage h arena src) := by
  unfold acquireSlabPage
  cases hdrained : (h.pools arena).drained with
  | nil =>
    cases src with
    | nil =>
      exact ⟨hh, rfl, fun _ _ => rfl, rfl, ⟨[], by simp⟩, .refl h, fun hne => absurd rfl hne,
        fun hne => absurd rfl hne, fun _ hx => hx, hlegal, fun hne => absurd rfl hne⟩
    | cons p rest =>
      refine ⟨hh, rfl, fun _ _ => rfl, rfl, ⟨[p], rfl, ?_⟩, .refl h,
        fun hne => hlegal.vacant p List.mem_cons_self hne, ?_, ?_,
        hlegal.tail fun x hx => Or.inl hx, fun _ h' hsub => hlegal.tail hsub⟩
      · by_cases h0 : p = 0
        · simp [h0]
        · have hv := hlegal.vacant p List.mem_cons_self h0
          simpa [h0] using hv.not_owned hh.layout harena
      · exact fun hne x hlo hhi => Or.inr ⟨p, List.mem_cons_self, hne, hlo, hhi⟩
      · rintro x ⟨q, hq, hin⟩
        exact ⟨q, List.mem_cons_of_mem p hq, hin⟩
  | cons entry rest =>
    obtain ⟨p, idle⟩ := entry
    have hmem : (p, idle) ∈ (h.pools arena).drained := by
      rw [hdrained]
      exact List.mem_cons_self
    have hsub : ∀ e ∈ rest, ∃ idle, (e.1, idle) ∈ (h.pools arena).drained := fun e he =>
      ⟨e.2, by rw [hdrained]; exact List.mem_cons_of_mem _ he⟩
    have hnodup := hh.layout.drained arena harena
    rw [hdrained, List.map_cons, List.nodup_cons] at hnodup
    have hregion : h.Region (.parked arena) p pageSize := .parked harena hmem
    have htaken : ∀ x, (h.setDrained arena rest).Taken x → h.Taken x := by
      rintro x ⟨k, b, n, hr, hin⟩
      exact ⟨k, b, n, hr.setDrained hsub, hin⟩
    obtain ⟨hdvd, hwhole, hpos, hsize, hfit⟩ := hh.layout.fits _ _ _ hregion
    have hplace : ∀ x, p ≤ x → x < p + pageSize → h.Taken x :=
      fun x hlo hhi => ⟨_, _, _, hregion, hlo, hhi⟩
    refine ⟨hh.setDrained hsub hnodup.2, rfl, fun _ _ => setDrained_slabClass _ _ _, rfl,
      ⟨[], rfl, List.nodup_nil, by simp, fun c => ?_⟩, ⟨rfl, htaken, .of_heads rfl⟩,
      fun _ => ⟨hdvd, hwhole, hpos, hsize, hfit, ?_⟩, fun _ x hlo hhi => Or.inl (hplace x hlo hhi),
      fun _ hx => hx, hlegal.mono htaken, fun _ h' hsub' => hlegal.mono fun x hx => ?_⟩
    · have hheads : (h.setDrained arena rest).heads = h.heads := rfl
      simp only [Heap.Owns, hheads, setDrained_drained, if_true, hdrained, List.map_cons,
        List.mem_cons, List.filter_nil, List.not_mem_nil, or_false, hpos.ne', ne_eq,
        not_false_eq_true, true_and]
      rw [or_assoc]
      exact or_congr_right or_comm
    · rintro x (hlo : p ≤ x) (hhi : x < p + pageSize) ⟨k, b, n, hr, hlo', hhi'⟩
      obtain ⟨hk, hb, -⟩ := hh.layout.apart _ _ _ _ _ _ (hr.setDrained hsub) hregion
        (by omega) (by omega)
      subst hk hb
      cases hr with
      | parked _ hmem' =>
        rw [setDrained_drained, if_pos rfl] at hmem'
        exact hnodup.1 (List.mem_map.2 ⟨_, hmem', rfl⟩)
    · exact (hsub' x hx).elim (htaken x) fun hin => hplace x hin.1 hin.2

/-- What a draw from any of the three sources gives. -/
structure DrawnFrom (h : Heap) (blk : Blocks) (arena cls : ℕ) (src : List ℕ)
    (out : ℕ × Heap × List ℕ) : Prop extends Drawn h blk arena cls out.1 out.2.1 where
  drew : Drew arena h src out.2.1 out.2.2

theorem Acquired.placed {out : ℕ × Heap × List ℕ} (hacq : Acquired arena h blk src out)
    (hp : Placed h) : Placed out.2.1 := by
  refine ⟨hacq.heads ▸ hp.occupied, fun c other hother hroom => ?_⟩
  unfold Heap.Listed
  rw [hacq.classes]
  exact hp.listed c other (hacq.heads ▸ hother) hroom

/-- The acquired page becomes the current one, with an object of it in use. -/
theorem Acquired.drew (hacq : Acquired arena h blk src (b, h₁, src₁)) (hb : b ≠ 0)
    (hnone : (h.slabClass arena cls).current = 0) (hpos : 0 < page.usedCount)
    (hcls : page.sizeClass = cls) (hid : page.arenaId = arena)
    (hframe : SameOutside b pageSize h₁.mem m') :
    Drew arena h src (h₁.openPage arena cls b page m') src₁ := by
  have htaken : ∀ x, (h₁.openPage arena cls b page m').Taken x →
      h₁.Taken x ∨ b ≤ x ∧ x < b + pageSize := by
    rintro x ⟨k, c, n, hr, hin⟩
    rcases hr.openPage with hr | ⟨-, rfl, rfl⟩
    · exact Or.inl ⟨k, c, n, hr, hin⟩
    · exact Or.inr hin
  have hplace := hacq.place hb
  obtain ⟨used, hsrc, hnodup, hnew, howns⟩ := hacq.source
  refine ⟨⟨hacq.legal_after hb _ htaken, ⟨⟨fun x hx => ?_, fun x hout hfar => ?_⟩,
    hacq.still.large.trans (.of_update rfl (by simp))⟩, hacq.rest⟩, fun hp => ?_, used, hsrc,
    hacq.arenas, hnodup, hnew, fun c => ?_⟩
  · rcases htaken x hx with hx | ⟨hlo, hhi⟩
    · exact Or.inl (hacq.still.taken x hx)
    · exact hplace x hlo hhi
  · rw [← hacq.still.mem]
    apply hframe x
    by_contra hin
    exact (hplace x (by omega) (by omega)).elim hout hfar
  · exact (hacq.placed hp).serve (by rw [hacq.classes, hnone]) (fun _ hc _ => hc)
      (fun _ _ => hacq.inv.head_ne_zero) hpos hcls hid
  · rw [← howns c]
    unfold Heap.Owns Heap.openPage
    dsimp only
    rw [setClass_drained]
    by_cases hc : c = b
    · subst hc
      simp [hid, hb]
    · simp [hc]

theorem acquireFreshPage_spec (uafActive : Bool) (cpu : ℕ) (hh : HeapInv h blk)
    (harena : arena < arenaCount) (hcls : cls < mediumFirstClass) (hlegal : LegalPages h src)
    (hnone : (h.slabClass arena cls).current = 0) :
    Returns (uafActive = true) (acquireFreshPage uafActive cpu h arena cls src)
      (DrawnFrom h blk arena cls src) := by
  have hacq := acquireSlabPage_spec hh harena hlegal
  simp only [acquireFreshPage]
  generalize acquireSlabPage h arena src = out at hacq
  obtain ⟨b, h₁, src₁⟩ := out
  have hh₁ := hacq.inv
  have hmem := hacq.still.mem
  dsimp only at hh₁ hmem ⊢
  split_ifs with h0
  · subst h0
    obtain ⟨used, hsrc, hnodup, hnew, howns⟩ := hacq.source
    exact returns_ok ⟨drawn_null hh₁ hmem, ⟨hacq.legal, hacq.still.within _, hacq.rest⟩,
      hacq.placed, used, hsrc, hacq.arenas, hnodup, hnew, by simpa using howns⟩
  · have hv := hacq.vacant h0
    have hinit := slabInitDispatch_spec uafActive cpu h₁.mem hcls hv.pos
      (hv.fits.trans (by decide))
    generalize slabInitDispatch uafActive cpu h₁.mem b cls = fresh at hinit
    have hpage : SlabPage b { fresh.1 with arenaId := arena } fresh.2 ∅ := { hinit.page with }
    have hh₂ := hh₁.openPage harena hv hpage hinit.cls_eq rfl hinit.frame
    have hhead : (h₁.openPage arena cls b { fresh.1 with arenaId := arena } fresh.2).heads b =
        some (.slab { fresh.1 with arenaId := arena }) := update_self _ _ _
    have hcur : ((h₁.openPage arena cls b { fresh.1 with arenaId := arena } fresh.2).slabClass arena
        fresh.1.sizeClass).current = b := by
      rw [hinit.cls_eq]
      exact congrArg SlabClass.current ((setClass_slabClass arena cls).trans (if_pos ⟨rfl, rfl⟩))
    refine (hh₂.pageAlloc uafActive hhead hcur).bind ?_
    rintro out (hfull | hhanded)
    · refine absurd ?_ hfull.no_room
      rw [hpage.count_eq, hpage.cap_eq, Finset.card_empty]
      exact (slots_fit hpage.cls_lt).1
    · have hinv := (hhanded.drawn hh₂ hhead).inv
      have heq : (h₁.openPage arena cls b { fresh.1 with arenaId := arena } fresh.2).setPage b
          out.2.1 out.2.2 = h₁.openPage arena cls b out.2.1 out.2.2 := by
        rw [setPage_eq hhead]
        simp only [Heap.openPage, update_idem]
      have hframe : SameOutside b pageSize h₁.mem out.2.2 := hhanded.mem_eq ▸ hinit.frame
      rw [heq] at hinv
      dsimp only at hinv
      rw [hinit.cls_eq] at hinv
      exact returns_ok ⟨⟨hinv, fun _ => hhanded.fresh, hmem ▸ hv.preserved hh₁ hframe⟩,
        hacq.drew h0 hnone hhanded.used_pos (hhanded.cls_eq.trans hinit.cls_eq) hhanded.arena_eq
          hframe⟩

/-- Drawing an object: from the current page, a partial one or a fresh one. -/
theorem slabPoolDraw_spec (uafActive : Bool) (cpu : ℕ) (hh : HeapInv h blk)
    (harena : arena < arenaCount) (hcls : cls < mediumFirstClass) (hlegal : LegalPages h src) :
    Returns (uafActive = true) (slabPoolDraw uafActive cpu h arena cls src)
      (DrawnFrom h blk arena cls src) := by
  unfold slabPoolDraw
  refine (tryCurrent_spec uafActive hh harena hcls).bind ?_
  rintro ⟨obj₁, h₁⟩ ⟨hdrawn₁, hsteady₁, hplaced₁, hnone⟩
  dsimp only at hdrawn₁ hsteady₁ hplaced₁ hnone ⊢
  split_ifs with h0
  · exact returns_ok ⟨hdrawn₁, hlegal.drew hsteady₁ hplaced₁⟩
  · have hinv₁ := hdrawn₁.inv
    rw [not_not] at h0
    rw [h0, grantAfter, if_pos rfl] at hinv₁
    refine (tryPartials_spec uafActive hinv₁ harena hcls).bind ?_
    rintro ⟨obj₂, h₂⟩ ⟨hdrawn₂, hsteady₂, hplaced₂, hsame⟩
    dsimp only at hdrawn₂ hsteady₂ hplaced₂ hsame ⊢
    have hdrew : Drew arena h src h₂ src := hlegal.drew (hsteady₁.trans hsteady₂)
      fun hp => hplaced₂ (hplaced₁ hp) (hnone h0)
    split_ifs with h0'
    · refine returns_ok ⟨⟨hdrawn₂.inv, hdrawn₂.fresh, ?_⟩, hdrew⟩
      rw [← hsteady₁.mem]
      exact hdrawn₂.preserved
    · obtain rfl := hsame (not_not.1 h0')
      refine (acquireFreshPage_spec uafActive cpu hinv₁ harena hcls hdrew.legal (hnone h0)).mono
        fun out hout => ?_
      refine ⟨⟨hout.inv, hout.fresh, ?_⟩, hdrew.trans hout.drew⟩
      rw [← hsteady₁.mem]
      exact hout.preserved

end V8Malloc
