import V8Malloc.Heap.Invariant

/-!
# Elementary steps of the heap

A step writes into allocated blocks, puts a header at a page base, or takes one
away. Everything a backend other than the buddy pool does is made of these.
-/
namespace V8Malloc

open ByteMemory Function

variable {h h' : Heap} {blk blk' : Blocks} {a b x n : ℕ} {g : Grant} {k : RegionKind} {m' : Mem}

/-- The blocks of `blk` keep their bytes. -/
def Preserved (blk : Blocks) (m m' : Mem) : Prop :=
  ∀ a g, blk a = some g → ∀ x, a ≤ x → x < a + g.bytes → m' x = m x

theorem Preserved.refl (blk : Blocks) (m : Mem) : Preserved blk m m := fun _ _ _ _ _ _ => rfl

/-! ### Writes -/

/-- The bytes of an arena outside its live blocks lie outside every block. -/
theorem HeapInv.arena_outside (hh : HeapInv h blk) {live : Set (ℕ × ℕ)}
    (hpart : BuddyPart h blk live) {i : ℕ} (hu : h.buddyPool.Used i)
    (hx : inArenaAt (h.buddyPool.base i) x)
    (hout : ∀ q ∈ live, x < q.1 ∨ q.1 + blockSize q.2 ≤ x) (ha : blk a = some g) :
    x < a ∨ a + g.bytes ≤ x := by
  obtain ⟨k, b, n, hr, hlo, hhi, -, harena, -⟩ := (hh.blockKind ha).region
  cases hhead : h.heads (ptrToMeta a) with
  | none =>
    obtain ⟨size, hq, rfl⟩ := (hpart.2 a g hhead).1 ha
    exact hout _ hq
  | some header =>
    have hk : k ≠ .arena := by
      rintro rfl
      rw [harena.1 rfl] at hhead
      cases hhead
    have happ := hh.layout.outside_arena hr hk hu hx
    omega

/-- Writes into allocated blocks that leave no magic word at a page base of an arena. -/
theorem HeapInv.write (hh : HeapInv h blk) (hm : Untouched blk h.mem m')
    (hclean : Clean { h with mem := m' }) : HeapInv { h with mem := m' } blk where
  layout := hh.layout.mono (fun _ _ _ hr => hr.congr rfl rfl rfl rfl) hh.layout.drained
    hh.layout.cached
  headers := fun _ _ hhead => HeaderInv.rewrite hh hhead hm
  buddy := by
    obtain ⟨live, hpart⟩ := hh.buddy
    refine ⟨live, (write_step hpart.1 fun i x hu hx hout => ?_).1, hpart.2⟩
    exact hm x fun a g ha => hh.arena_outside hpart hu hx hout ha
  clean := hclean
  lists := hh.lists.keep rfl fun _ _ hhead => hhead

/-! ### Headers -/

/-- A header with its region and its blocks appears or changes. -/
theorem HeapInv.putHeader (hh : HeapInv h blk) {header : Header}
    (harenas : h'.arenas = h.arenas) (hheads : h'.heads = update h.heads b (some header))
    (hlayout : Layout h') (hlists : ListsOk h') (hregion : h'.Region k b n) (hk : k ≠ .arena)
    (hframe : SameOutside b n h.mem h'.mem) (hblk : ∀ a, ptrToMeta a ≠ b → blk' a = blk a)
    (hheader : HeaderInv blk' h'.mem b header) : HeapInv h' blk' := by
  obtain ⟨live, hpool, hiff⟩ := hh.buddy
  have harena : ∀ i x, h.buddyPool.Used i → inArenaAt (h.buddyPool.base i) x →
      h'.mem x = h.mem x := by
    intro i x hu hx
    obtain ⟨hused, hbase⟩ := used_congr harenas (i := i)
    exact hframe x (hlayout.outside_arena hregion hk (hused.2 hu) (hbase ▸ hx))
  obtain ⟨hpool', hclean⟩ := arenas_frame hpool hh.clean harenas harena
  refine ⟨hlayout, ?_, ⟨live, hpool', ?_⟩, hclean, hlists⟩
  · intro b' header' hhead'
    by_cases hb : b' = b
    · subst hb
      rw [hheads, update_self] at hhead'
      cases hhead'
      exact hheader
    · obtain ⟨k', n', hr', -, hdvd, hpage⟩ := hlayout.header_page hhead'
      rw [hheads, update_of_ne hb] at hhead'
      refine (hh.headers b' header' hhead').congr (fun x hlo hhi => hframe x ?_) fun a ha => ?_
      · have happ := hlayout.disjoint hr' hregion (Or.inr hb) hlo (show x + 1 ≤ b' + n' by omega)
          (le_refl b) (le_refl (b + n))
        omega
      · exact hblk a (ha ▸ hb)
  · intro a g hnone
    have hb : ptrToMeta a ≠ b := by
      rintro rfl
      rw [hheads, update_self] at hnone
      cases hnone
    rw [hheads, update_of_ne hb] at hnone
    rw [hblk a hb]
    exact hiff a g hnone

/-- A header goes, with the blocks of its page. -/
theorem HeapInv.dropHeader (hh : HeapInv h blk) (harenas : h'.arenas = h.arenas)
    (hheads : h'.heads = update h.heads b none) (hlayout : Layout h')
    (hlists : ListsOk h') (hregion : h.Region k b n) (hk : k ≠ .arena)
    (hframe : SameOutside b n h.mem h'.mem) (hblk : ∀ a, ptrToMeta a ≠ b → blk' a = blk a)
    (hgone : ∀ a, ptrToMeta a = b → blk' a = none) : HeapInv h' blk' := by
  obtain ⟨live, hpool, hiff⟩ := hh.buddy
  have harena : ∀ i x, h.buddyPool.Used i → inArenaAt (h.buddyPool.base i) x →
      h'.mem x = h.mem x :=
    fun i x hu hx => hframe x (hh.layout.outside_arena hregion hk hu hx)
  obtain ⟨hpool', hclean⟩ := arenas_frame hpool hh.clean harenas harena
  have hpages : ∀ b' header', h'.heads b' = some header' → b' ≠ b ∧ h.heads b' = some header' := by
    intro b' header' hhead'
    have hb : b' ≠ b := by
      rintro rfl
      rw [hheads, update_self] at hhead'
      cases hhead'
    rw [hheads, update_of_ne hb] at hhead'
    exact ⟨hb, hhead'⟩
  refine ⟨hlayout, ?_, ⟨live, hpool', ?_⟩, hclean, hlists⟩
  · intro b' header' hhead'
    obtain ⟨hb, hhead⟩ := hpages b' header' hhead'
    obtain ⟨k', n', hr', -, hdvd, hpage⟩ := hh.layout.header_page hhead
    refine (hh.headers b' header' hhead).congr (fun x hlo hhi => hframe x ?_) fun a ha => ?_
    · have happ := hh.layout.disjoint hr' hregion (Or.inr hb) hlo (show x + 1 ≤ b' + n' by omega)
        (le_refl b) (le_refl (b + n))
      omega
    · exact hblk a (ha ▸ hb)
  · intro a g hnone
    by_cases hb : ptrToMeta a = b
    · rw [hgone a hb]
      -- a live block of the pool would put an arena over the page of the header
      refine ⟨fun hsome => (by cases hsome), ?_⟩
      rintro ⟨size, hq, -⟩
      obtain ⟨i, hu, hin⟩ := hpool.owned _ hq
      have happ := hh.layout.outside_arena hregion hk hu hin
      obtain ⟨hlo, hhi⟩ := ptrToMeta_le a
      obtain ⟨-, hn, -, hpos, -⟩ := hh.layout.fits _ _ _ hregion
      have hpage := Nat.le_of_dvd hpos hn
      omega
    · rw [hheads, update_of_ne hb] at hnone
      rw [hblk a hb]
      exact hiff a g hnone

theorem dropped_head {c : ℕ} {header : Header}
    (hhead : update h.heads b none c = some header) : c ≠ b ∧ h.heads c = some header := by
  have hc : c ≠ b := by
    rintro rfl
    rw [update_self] at hhead
    cases hhead
  rw [update_of_ne hc] at hhead
  exact ⟨hc, hhead⟩

/-- Changes inside a region leave the blocks elsewhere alone. -/
theorem HeapInv.preserved_outside (hh : HeapInv h blk) (hr : h.Region k b n) (hk : k ≠ .arena)
    (hframe : SameOutside b n h.mem m')
    (hsub : ∀ a g, blk' a = some g → blk a = some g ∧ ptrToMeta a ≠ b) :
    Preserved blk' h.mem m' := by
  intro a g ha x hlo hhi
  obtain ⟨hold, hbase⟩ := hsub a g ha
  obtain ⟨k', b', n', hr', hlo', hhi', -, harena, hpage⟩ := (hh.blockKind hold).region
  have hne : k' ≠ k ∨ b' ≠ b := by
    by_cases hnone : h.heads (ptrToMeta a) = none
    · left
      rw [harena.2 hnone]
      exact Ne.symm hk
    · right
      rw [hpage hnone]
      exact hbase
  have happ := hh.layout.disjoint hr' hr hne hlo' hhi' le_rfl le_rfl
  exact hframe x (by omega)

/-! ### Room in the address space -/

/-- Address `x` lies in a region of the heap. -/
def Heap.Taken (h : Heap) (x : ℕ) : Prop := ∃ k b n, h.Region k b n ∧ b ≤ x ∧ x < b + n

/-- The page heap may answer the range `[b, b + n)`. -/
structure Vacant (h : Heap) (b n : ℕ) : Prop where
  aligned : pageSize ∣ b
  whole : pageSize ∣ n
  pos : 0 < b
  size_pos : 0 < n
  fits : b + n ≤ addressSpace
  free : ∀ x, b ≤ x → x < b + n → ¬ h.Taken x

/-- The rest of the system writes outside the regions of the heap. -/
theorem HeapInv.elsewhere (hh : HeapInv h blk) (hm : ∀ x, h.Taken x → m' x = h.mem x) :
    HeapInv { h with mem := m' } blk where
  layout := hh.layout.mono (fun _ _ _ hr => hr.congr rfl rfl rfl rfl) hh.layout.drained
    hh.layout.cached
  headers := fun b header hhead => by
    have hinv := hh.headers _ _ hhead
    cases header with
    | slab page =>
      obtain ⟨harena, used, hpage, hiff⟩ := hinv
      refine ⟨harena, used, hpage.congr fun _ s hs _ x hlo hhi => ?_, hiff⟩
      obtain ⟨hstart, hend⟩ := hpage.slotAt_bounds hs
      have hsize := hpage.size_pos
      exact hm x ⟨_, _, _, .slab hhead, by omega, by omega⟩
    | large block => exact hinv
  buddy := by
    obtain ⟨live, hpart⟩ := hh.buddy
    refine ⟨live, (write_step hpart.1 fun i x hu hx _ => ?_).1, hpart.2⟩
    exact hm x ⟨_, _, _, .arena hu, hx⟩
  clean := by
    intro i hu b hb hin
    have hload : load64 m' b = load64 h.mem b := by
      refine load_congr fun x hlo hhi => hm x ⟨_, _, _, .arena hu, ?_⟩
      obtain ⟨c, hc⟩ := (hh.layout.fits _ _ _ (.arena hu)).1
      obtain ⟨d, rfl⟩ := hb
      change inArenaAt (h.buddyPool.base i) _ at hin
      unfold inArenaAt buddyMaxBlock pageSize at *
      omega
    change load64 m' b ≠ pageMagic
    rw [hload]
    exact hh.clean i hu b hb hin
  lists := hh.lists.keep rfl fun _ _ hhead => hhead

theorem Vacant.mono (hv : Vacant h b n) (hsub : ∀ x, h'.Taken x → h.Taken x) : Vacant h' b n :=
  { hv with free := fun x hlo hhi hx => hv.free x hlo hhi (hsub x hx) }

theorem Vacant.region_apart (hv : Vacant h b n) {b' n' : ℕ} (hr : h.Region k b' n') (hn : 0 < n') :
    b + n ≤ b' ∨ b' + n' ≤ b := by
  by_contra hov
  have hpos := hv.size_pos
  rcases Nat.le_total b b' with hle | hle
  · exact hv.free b' hle (by omega) ⟨k, b', n', hr, le_rfl, by omega⟩
  · exact hv.free b le_rfl (by omega) ⟨k, b', n', hr, hle, by omega⟩

/-- One more region in a vacant place. -/
theorem Layout.add (hl : Layout h) (hv : Vacant h b n)
    (hsub : ∀ k' b' n', h'.Region k' b' n' → h.Region k' b' n' ∨ k' = k ∧ b' = b ∧ n' = n)
    (hdrained : ∀ arena < arenaCount, ((h'.pools arena).drained.map Prod.fst).Nodup)
    (hcached : (h'.largeCache.map Prod.fst).Nodup) : Layout h' where
  fits := fun k' b' n' hr => by
    rcases hsub k' b' n' hr with hr | ⟨-, rfl, rfl⟩
    · exact hl.fits k' b' n' hr
    · exact ⟨hv.aligned, hv.whole, hv.pos, hv.size_pos, hv.fits⟩
  apart := fun k₁ b₁ n₁ k₂ b₂ n₂ hr₁ hr₂ hlo hhi => by
    rcases hsub _ _ _ hr₁ with hr₁ | ⟨rfl, rfl, rfl⟩
    · rcases hsub _ _ _ hr₂ with hr₂ | ⟨rfl, rfl, rfl⟩
      · exact hl.apart _ _ _ _ _ _ hr₁ hr₂ hlo hhi
      · have happ := hv.region_apart hr₁ (hl.fits _ _ _ hr₁).2.2.2.1
        omega
    · rcases hsub _ _ _ hr₂ with hr₂ | ⟨rfl, rfl, rfl⟩
      · have happ := hv.region_apart hr₂ (hl.fits _ _ _ hr₂).2.2.2.1
        omega
      · exact ⟨rfl, rfl, rfl⟩
  drained := hdrained
  cached := hcached

/-- A region changes its kind, or goes. -/
theorem Layout.swap {k₀ : RegionKind} (k₁ : RegionKind) (hl : Layout h) (hr₀ : h.Region k₀ b n)
    (hsub : ∀ k c n', h'.Region k c n' →
      h.Region k c n' ∧ ¬(k = k₀ ∧ c = b) ∨ k = k₁ ∧ c = b ∧ n' = n)
    (hdrained : ∀ arena < arenaCount, ((h'.pools arena).drained.map Prod.fst).Nodup)
    (hcached : (h'.largeCache.map Prod.fst).Nodup) : Layout h' where
  fits := fun k c n' hr => by
    rcases hsub k c n' hr with ⟨hr, -⟩ | ⟨-, rfl, rfl⟩
    · exact hl.fits k c n' hr
    · exact hl.fits _ _ _ hr₀
  apart := fun k₁ b₁ n₁ k₂ b₂ n₂ hr₁ hr₂ hlo hhi => by
    rcases hsub _ _ _ hr₁ with ⟨hr₁, hne₁⟩ | ⟨rfl, rfl, rfl⟩
    · rcases hsub _ _ _ hr₂ with ⟨hr₂, -⟩ | ⟨rfl, rfl, rfl⟩
      · exact hl.apart _ _ _ _ _ _ hr₁ hr₂ hlo hhi
      · obtain ⟨hk, hb, -⟩ := hl.apart _ _ _ _ _ _ hr₁ hr₀ hlo hhi
        exact absurd ⟨hk, hb⟩ hne₁
    · rcases hsub _ _ _ hr₂ with ⟨hr₂, hne₂⟩ | ⟨rfl, rfl, rfl⟩
      · obtain ⟨hk, hb, -⟩ := hl.apart _ _ _ _ _ _ hr₂ hr₀ hhi hlo
        exact absurd ⟨hk, hb⟩ hne₂
      · exact ⟨rfl, rfl, rfl⟩
  drained := hdrained
  cached := hcached

/-- No block lies in a vacant place. -/
theorem Vacant.outside (hv : Vacant h b n) (hh : HeapInv h blk) {g : Grant} (ha : blk a = some g)
    (hlo : a ≤ x) (hhi : x < a + g.bytes) : x < b ∨ b + n ≤ x := by
  by_contra hin
  obtain ⟨k, b', n', hr, hlo', hhi', -⟩ := (hh.blockKind ha).region
  exact hv.free x (by omega) (by omega) ⟨k, b', n', hr, by omega, by omega⟩

theorem Vacant.preserved (hv : Vacant h b n) (hh : HeapInv h blk)
    (hframe : SameOutside b n h.mem m') : Preserved blk h.mem m' :=
  fun _ _ ha x hlo hhi => hframe x (hv.outside hh ha hlo hhi)

theorem Vacant.no_block (hv : Vacant h b n) (hh : HeapInv h blk) (hlo : b ≤ a)
    (hhi : a < b + n) : blk a = none := by
  rw [Option.eq_none_iff_forall_ne_some]
  intro g hg
  have hsize := (hh.block_bounds hg).2.1
  unfold linkBytes at hsize
  have hout := hv.outside hh hg le_rfl (by omega)
  omega

theorem Vacant.no_header (hv : Vacant h b n) (hl : Layout h) : h.heads b = none := by
  cases hhead : h.heads b with
  | none => rfl
  | some header =>
    obtain ⟨k, n', hr, -, -, hpage⟩ := hl.header_page hhead
    have hapart := hv.region_apart hr (by unfold pageSize at hpage; omega)
    have hpos := hv.size_pos
    unfold pageSize at hpage
    omega

/-- The blocks once `ptr` was granted, if it is not null. -/
def grantAfter (blk : Blocks) (ptr : ℕ) (g : Grant) : Blocks :=
  if ptr = 0 then blk else update blk ptr (some g)

end V8Malloc
