import V8Malloc.Lib.RegionOwners
import V8Malloc.LargeSpec

/-!
# The regions of large blocks

A region is taken from the page heap or from the recycle cache, belongs to one
block, and goes to the cache or back to the page heap when the block is freed.
The byte counters are the sums of the mapped sizes of the blocks.
-/
namespace V8Malloc

open ByteMemory RegionOwners Function

/-! ### The byte counters -/

section Counters

variable (s : LargeState) (huge : Bool) (n : ℕ)

@[simp]
theorem countAlloc_obtained : (s.countAlloc huge n).obtained = s.obtained := by
  unfold LargeState.countAlloc
  split_ifs <;> simp only

@[simp]
theorem countAlloc_returned : (s.countAlloc huge n).returned = s.returned := by
  unfold LargeState.countAlloc
  split_ifs <;> simp only

@[simp]
theorem countFree_obtained : (s.countFree huge n).obtained = s.obtained := by
  unfold LargeState.countFree
  split_ifs <;> simp only

@[simp]
theorem countFree_returned : (s.countFree huge n).returned = s.returned := by
  unfold LargeState.countFree
  split_ifs <;> simp only

variable {s huge n}

theorem countAlloc_large (hlt : n + s.largeBytesInUse < 2 ^ 64) :
    (s.countAlloc huge n).largeBytesInUse = (if huge = false then n else 0) + s.largeBytesInUse := by
  rw [Nat.add_comm] at hlt
  cases huge with
  | true => simp only [LargeState.countAlloc, if_true, Bool.true_eq_false, if_false, Nat.zero_add]
  | false =>
    simp only [LargeState.countAlloc, if_true, Bool.false_eq_true, if_false, Nat.mod_eq_of_lt hlt]
    exact Nat.add_comm _ _

theorem countAlloc_huge (hlt : n + s.hugeBytesInUse < 2 ^ 64) :
    (s.countAlloc huge n).hugeBytesInUse = (if huge = true then n else 0) + s.hugeBytesInUse := by
  rw [Nat.add_comm] at hlt
  cases huge with
  | false => simp only [LargeState.countAlloc, Bool.false_eq_true, if_false, Nat.zero_add]
  | true =>
    simp only [LargeState.countAlloc, if_true, Nat.mod_eq_of_lt hlt]
    exact Nat.add_comm _ _

theorem countFree_counts {a b : ℕ}
    (hlarge : s.largeBytesInUse = (if huge = false then n else 0) + a)
    (hhuge : s.hugeBytesInUse = (if huge = true then n else 0) + b)
    (hlt : s.largeBytesInUse < 2 ^ 64) (hlt' : s.hugeBytesInUse < 2 ^ 64) :
    (s.countFree huge n).largeBytesInUse = a ∧ (s.countFree huge n).hugeBytesInUse = b := by
  cases huge with
  | true =>
    simp only [Bool.true_eq_false, if_false, if_true, Nat.zero_add] at hlarge hhuge
    simp only [LargeState.countFree, if_true]
    rw [sub64_eq (by omega) hlt']
    omega
  | false =>
    simp only [Bool.false_eq_true, if_false, if_true, Nat.zero_add] at hlarge hhuge
    simp only [LargeState.countFree, Bool.false_eq_true, if_false]
    rw [sub64_eq (by omega) hlt]
    omega

end Counters

/-! ### The invariant -/

/-- What holds of a region of the page heap. -/
def RegionOk (r : ℕ × ℕ) : Prop :=
  0 < r.1 ∧ 0 < r.2 ∧ pageSize ∣ r.1 ∧ r.1 + r.2 ≤ 2 ^ 64

/-- The region of a block, as its header has it. -/
def regionOf (h : Heap) (b : ℕ × ℕ) : ℕ × ℕ := (ptrToMeta b.1, (h.largeAt (ptrToMeta b.1)).mmapSize)

/-- The header of a block of `b.2` bytes at `b.1`. -/
structure BlockOk (h : Heap) (b : ℕ × ℕ) (block : LargeMeta) : Prop where
  header : h.heads (ptrToMeta b.1) = some (.large block)
  behind : ptrToMeta b.1 + slabHeaderSize ≤ b.1
  room : b.1 + b.2 + block.guardBytes ≤ ptrToMeta b.1 + block.mmapSize
  tag : block.sizeClass = largeSizeClassTag b.2
  pos : 0 < b.2

/-- The regions in hand, in the cache and under the blocks. -/
def LargeState.held (s : LargeState) (live hand : List (ℕ × ℕ)) : List (ℕ × ℕ) :=
  hand ++ (s.heap.largeCache ++ live.map (regionOf s.heap))

/-- The mapped sizes of the blocks that are huge, or of those that are not. -/
def inUse (h : Heap) (live : List (ℕ × ℕ)) (huge : Bool) : ℕ :=
  ((live.filter fun b => decide (largeMaxSize < b.2) = huge).map fun b => (regionOf h b).2).sum

structure LargeInv (s : LargeState) (live hand : List (ℕ × ℕ)) : Prop where
  owned : Owned RegionOk s.obtained s.returned (s.held live hand)
  blocks : ∀ b ∈ live, ∃ block, BlockOk s.heap b block
  cap : s.heap.largeCache.length ≤ largeCacheCap
  large : s.largeBytesInUse = inUse s.heap live false
  huge : s.hugeBytesInUse = inUse s.heap live true

section Steps

variable {s : LargeState} {live hand : List (ℕ × ℕ)} {r : ℕ × ℕ}

theorem LargeInv.giveBack (hinv : LargeInv s live (r :: hand)) :
    LargeInv (s.giveBack r) live hand :=
  { hinv with owned := hinv.owned.giveBack }

/-- A new region comes to hand. -/
theorem LargeInv.obtain (hinv : LargeInv s live hand) (hok : RegionOk r)
    (hnew : ∀ t ∈ s.held live hand, RegionOwners.Apart r t) :
    LargeInv { s with obtained := r :: s.obtained } live (r :: hand) :=
  { hinv with owned := hinv.owned.obtain hok hnew }

/-- Regions move between the hand and the cache. -/
theorem LargeInv.setCache (hinv : LargeInv s live hand) {cache hand' : List (ℕ × ℕ)}
    (hperm : (hand ++ s.heap.largeCache).Perm (hand' ++ cache))
    (hcap : cache.length ≤ largeCacheCap) : LargeInv (s.setCache cache) live hand' where
  owned := by
    apply hinv.owned.perm
    have happend := hperm.append_right (live.map (regionOf s.heap))
    rw [List.append_assoc, List.append_assoc] at happend
    exact happend
  blocks b hb := by
    obtain ⟨block, hblock⟩ := hinv.blocks b hb
    exact ⟨block, ⟨hblock.header, hblock.behind, hblock.room, hblock.tag, hblock.pos⟩⟩
  cap := hcap
  large := hinv.large
  huge := hinv.huge

/-- No block lies in a region in hand. -/
theorem LargeInv.base_ne (hinv : LargeInv s live (r :: hand)) {b : ℕ × ℕ} (hb : b ∈ live) :
    ptrToMeta b.1 ≠ r.1 := by
  intro heq
  obtain ⟨hrest, -⟩ := List.pairwise_cons.1 hinv.owned.apart
  have hmem : regionOf s.heap b ∈ hand ++ (s.heap.largeCache ++ live.map (regionOf s.heap)) := by
    simp only [List.mem_append, List.mem_map]
    exact Or.inr (Or.inr ⟨b, hb, rfl⟩)
  have hapart := hrest _ hmem
  have hpos := (hinv.owned.checked r List.mem_cons_self).2.1
  have hpos' := (hinv.owned.checked _ (List.mem_cons_of_mem _ hmem)).2.1
  simp only [RegionOwners.Apart, regionOf] at hapart hpos'
  omega

theorem regionOf_congr {h h' : Heap} {b : ℕ × ℕ} {block : LargeMeta}
    (hhead : h.heads (ptrToMeta b.1) = some (.large block))
    (hsame : h'.heads (ptrToMeta b.1) = h.heads (ptrToMeta b.1)) : regionOf h' b = regionOf h b := by
  simp only [regionOf, Heap.largeAt, hsame, hhead]

theorem inUse_cons (h : Heap) (b : ℕ × ℕ) (live : List (ℕ × ℕ)) (huge : Bool) :
    inUse h (b :: live) huge =
      (if decide (largeMaxSize < b.2) = huge then (regionOf h b).2 else 0) + inUse h live huge := by
  unfold inUse
  rw [List.filter_cons]
  split_ifs <;> simp_all

theorem inUse_congr {h h' : Heap} (hsame : ∀ b ∈ live, regionOf h' b = regionOf h b) (huge : Bool) :
    inUse h' live huge = inUse h live huge := by
  unfold inUse
  congr 1
  apply List.map_congr_left
  intro b hb
  rw [hsame b (List.mem_of_mem_filter hb)]

theorem inUse_le (h : Heap) (live : List (ℕ × ℕ)) (huge : Bool) :
    inUse h live huge ≤ ((live.map (regionOf h)).map Prod.snd).sum := by
  induction live with
  | nil => exact le_rfl
  | cons b live ih =>
    rw [inUse_cons, List.map_cons, List.map_cons, List.sum_cons]
    split_ifs <;> omega

/-- The regions held fit the address space together. -/
theorem LargeInv.inUse_lt (hinv : LargeInv s live hand) (huge : Bool) :
    (hand.map Prod.snd).sum + inUse s.heap live huge < 2 ^ 64 := by
  have hin : ∀ r ∈ s.held live hand, 0 < r.1 ∧ r.1 + r.2 ≤ 2 ^ 64 := by
    intro r hr
    have hok := hinv.owned.checked r hr
    exact ⟨hok.1, hok.2.2.2⟩
  have hsum := sum_lt hinv.owned.apart (by decide) hin
  have hle := inUse_le s.heap live huge
  simp only [LargeState.held, List.map_append, List.sum_append] at hsum
  omega

/-- A block is put into the region in hand. -/
theorem LargeInv.install {region n off size guardBytes : ℕ} (debug : Bool)
    (hinv : LargeInv s live [(region, n)]) (hoff : slabHeaderSize ≤ off) (hlt : off < pageSize)
    (hroom : off + size + guardBytes ≤ n) (hsize : 0 < size) :
    LargeInv (LargeState.countAlloc { s with
        heap := (largeInstall debug s.heap size off region n guardBytes).2 }
        (sizeClass size = classHuge) n)
      ((region + off, size) :: live) [] := by
  obtain ⟨hrpos, hnpos, haligned, hfit⟩ := hinv.owned.checked (region, n) List.mem_cons_self
  have hbase : ptrToMeta (region + off) = region :=
    ptrToMeta_eq haligned (Nat.le_add_right _ _) (Nat.add_lt_add_left hlt region)
  obtain ⟨block, hblock⟩ : ∃ block : LargeMeta, block =
    ⟨largeSizeClassTag size, n, guardBytes, if debug then size else 0⟩ := ⟨_, rfl⟩
  obtain ⟨h', hh'⟩ : ∃ h', h' = (largeInstall debug s.heap size off region n guardBytes).2 :=
    ⟨_, rfl⟩
  have hheads : h'.heads = update s.heap.heads region (some (.large block)) := by
    rw [hh', hblock]
    rfl
  have hcache : h'.largeCache = s.heap.largeCache := by
    rw [hh']
    rfl
  have hsame : ∀ b ∈ live, regionOf h' b = regionOf s.heap b := by
    intro b hb
    obtain ⟨old, hold⟩ := hinv.blocks b hb
    apply regionOf_congr hold.header
    rw [hheads]
    exact update_of_ne (hinv.base_ne hb) _ _
  have hown : regionOf h' (region + off, size) = (region, n) := by
    simp only [regionOf, hbase, Heap.largeAt, hheads, update_self, hblock]
  have hcount : ∀ huge, inUse h' ((region + off, size) :: live) huge =
      (if decide (largeMaxSize < size) = huge then n else 0) + inUse s.heap live huge := by
    intro huge
    rw [inUse_cons, inUse_congr hsame, hown]
  have hhuge : decide (sizeClass size = classHuge) = decide (largeMaxSize < size) := by
    exact decide_eq_decide.2 (sizeClass_huge_iff hsize)
  rw [← hh', hhuge]
  constructor
  · have hheld : (s.held live [(region, n)]).Perm (h'.largeCache ++
        (regionOf h' (region + off, size) :: live.map (regionOf h'))) := by
      rw [hcache, hown, List.map_congr_left hsame]
      rw [LargeState.held, List.singleton_append]
      exact List.perm_middle.symm
    simpa [LargeState.held] using hinv.owned.perm hheld
  · intro b hb
    rw [countAlloc_heap]
    rcases List.mem_cons.1 hb with rfl | hb
    · refine ⟨block, ⟨?_, ?_, ?_, ?_, hsize⟩⟩
      · simp only [hbase, hheads, update_self]
      · simp only [hbase]
        omega
      · simp only [hbase, hblock]
        omega
      · rw [hblock]
    · obtain ⟨old, hold⟩ := hinv.blocks b hb
      refine ⟨old, ⟨?_, hold.behind, hold.room, hold.tag, hold.pos⟩⟩
      simp only [hheads, update_of_ne (hinv.base_ne hb)]
      exact hold.header
  · rw [countAlloc_heap]
    simp only [hcache]
    exact hinv.cap
  · have hlt := hinv.inUse_lt false
    rw [List.map_singleton, List.sum_singleton, ← hinv.large] at hlt
    rw [countAlloc_heap, hcount, ← hinv.large]
    exact countAlloc_large hlt
  · have hlt := hinv.inUse_lt true
    rw [List.map_singleton, List.sum_singleton, ← hinv.huge] at hlt
    rw [countAlloc_heap, hcount, ← hinv.huge]
    exact countAlloc_huge hlt

/-- The order of the blocks does not matter. -/
theorem LargeInv.perm {live' : List (ℕ × ℕ)} (hinv : LargeInv s live hand)
    (hperm : live.Perm live') : LargeInv s live' hand where
  owned := hinv.owned.perm (((hperm.map _).append_left _).append_left _)
  blocks b hb := hinv.blocks b (hperm.mem_iff.2 hb)
  cap := hinv.cap
  large := hinv.large.trans ((hperm.filter _).map _).sum_eq
  huge := hinv.huge.trans ((hperm.filter _).map _).sum_eq

/-- What `v8m_large_alloc` and its aligned form take a region for: the mapped size is the one
computed for the request, and the region comes from the cache or from the page heap. -/
structure Took (s s' : LargeState) (b : ℕ × ℕ) (mapping : Option (ℕ × ℕ)) : Prop where
  size : ∃ guardBytes, mapping = some ((regionOf s'.heap b).2, guardBytes)
  origin : s'.obtained = s.obtained ∧ regionOf s'.heap b ∈ s.heap.largeCache ∨
    s'.obtained = regionOf s'.heap b :: s.obtained

/-- The page heap answers with an unused, aligned region or fails. -/
def FreshRegions (s : LargeState) (live : List (ℕ × ℕ)) (pheapAlloc : ℕ → ℕ) : Prop :=
  ∀ n, 0 < n → pheapAlloc n ≠ 0 →
    RegionOk (pheapAlloc n, n) ∧ ∀ t ∈ s.held live [], RegionOwners.Apart (pheapAlloc n, n) t

/-- The blocks after an allocation that answered `obj`. -/
def withBlock (live : List (ℕ × ℕ)) (obj size : ℕ) : List (ℕ × ℕ) :=
  if obj = 0 then live else (obj, size) :: live

/-- A region is in hand, from the cache or from the page heap. -/
theorem LargeInv.take {pheapAlloc : ℕ → ℕ} {n : ℕ} (debug : Bool) (hinv : LargeInv s live [])
    (hpos : 0 < n) (hfresh : FreshRegions s live pheapAlloc) {taken : ℕ × List (ℕ × ℕ)}
    (htaken : taken =
      if debug then (0, s.heap.largeCache) else largeCacheTake s.heap.largeCache n) :
    taken.1 = 0 ∧ taken.2 = s.heap.largeCache ∧
        (pheapAlloc n ≠ 0 → LargeInv { s.setCache taken.2 with
          obtained := (pheapAlloc n, n) :: s.obtained } live [(pheapAlloc n, n)]) ∨
      taken.1 ≠ 0 ∧ (taken.1, n) ∈ s.heap.largeCache ∧
        LargeInv (s.setCache taken.2) live [(taken.1, n)] := by
  have hmiss : taken = (0, s.heap.largeCache) → taken.1 = 0 ∧ taken.2 = s.heap.largeCache ∧
      (pheapAlloc n ≠ 0 → LargeInv { s.setCache taken.2 with
        obtained := (pheapAlloc n, n) :: s.obtained } live [(pheapAlloc n, n)]) := by
    rintro rfl
    refine ⟨rfl, rfl, fun hne => ?_⟩
    obtain ⟨hok, happart⟩ := hfresh n hpos hne
    exact hinv.obtain hok happart
  by_cases hdebug : debug = true
  · rw [if_pos hdebug] at htaken
    exact Or.inl (hmiss htaken)
  · rw [if_neg hdebug] at htaken
    rcases largeCacheTake_spec s.heap.largeCache n with hnone | ⟨region, rest, hsome, hperm⟩
    · exact Or.inl (hmiss (htaken.trans hnone))
    · obtain rfl := htaken.trans hsome
      have hmem : (region, n) ∈ s.heap.largeCache := hperm.mem_iff.2 List.mem_cons_self
      have hheld : (region, n) ∈ s.held live [] :=
        List.mem_append_right _ (List.mem_append_left _ hmem)
      have hcap := hinv.cap
      rw [hperm.length_eq, List.length_cons] at hcap
      refine Or.inr ⟨(hinv.owned.checked _ hheld).1.ne', hmem, ?_⟩
      exact hinv.setCache hperm (Nat.le_of_succ_le hcap)

theorem regionOf_install {region n off size guardBytes : ℕ} (debug : Bool) (t : LargeState)
    (haligned : pageSize ∣ region) (hlt : off < pageSize) :
    regionOf (largeInstall debug t.heap size off region n guardBytes).2 (region + off, size) =
      (region, n) := by
  have hbase : ptrToMeta (region + off) = region :=
    ptrToMeta_eq haligned (Nat.le_add_right _ _) (Nat.add_lt_add_left hlt region)
  unfold regionOf
  dsimp only
  rw [hbase]
  simp only [Heap.largeAt, largeInstall, update_self]

/-- The allocation once a region is in hand. -/
theorem LargeInv.place {t : LargeState} {region n off size guardBytes : ℕ} (opts : LargeOptions)
    (hinv : LargeInv t live [(region, n)]) (hoff : slabHeaderSize ≤ off) (hlt : off < pageSize)
    (hroom : off + size + guardBytes ≤ n) (hsize : 0 < size) {out : ℕ × LargeState}
    (hout : out = if opts.debug && !opts.mprotectOk then (0, t.giveBack (region, n))
      else
        let put := largeInstall opts.debug t.heap size off region n guardBytes
        (put.1, { t with heap := put.2 }.countAlloc (sizeClass size = classHuge) n)) :
    LargeInv out.2 (withBlock live out.1 size) [] ∧
      (out.1 ≠ 0 → out.2.obtained = t.obtained ∧
        regionOf out.2.heap (out.1, size) = (region, n)) := by
  obtain ⟨hrpos, -, haligned, -⟩ := hinv.owned.checked (region, n) List.mem_cons_self
  by_cases hguard : (opts.debug && !opts.mprotectOk) = true
  · rw [if_pos hguard] at hout
    subst hout
    rw [withBlock, if_pos rfl]
    exact ⟨hinv.giveBack, fun hne => absurd rfl hne⟩
  · rw [if_neg hguard] at hout
    have hfirst : out.1 = region + off := congrArg Prod.fst hout
    have hsecond : out.2 = { t with heap :=
        (largeInstall opts.debug t.heap size off region n guardBytes).2 }.countAlloc
        (sizeClass size = classHuge) n := congrArg Prod.snd hout
    rw [hfirst, hsecond, withBlock, if_neg (by omega), countAlloc_heap, countAlloc_obtained]
    refine ⟨hinv.install opts.debug hoff hlt hroom hsize, fun _ => ⟨rfl, ?_⟩⟩
    exact regionOf_install opts.debug t haligned hlt

theorem LargeInv.allocWithOffset {pheapAlloc : ℕ → ℕ} {size off align : ℕ} (opts : LargeOptions)
    (hinv : LargeInv s live []) (halign : pageSize ∣ align) (hpos : 0 < align)
    (hoff : slabHeaderSize ≤ off) (hlt : off < pageSize) (hsize : 0 < size)
    (hfresh : FreshRegions s live pheapAlloc) {out : ℕ × LargeState}
    (hout : out = s.allocWithOffset opts size off align pheapAlloc) :
    LargeInv out.2 (withBlock live out.1 size) [] ∧
      (out.1 ≠ 0 → Took s out.2 (out.1, size) (largeMapping opts.debug size off align)) := by
  unfold LargeState.allocWithOffset at hout
  cases hmap : largeMapping opts.debug size off align with
  | none =>
    rw [hmap] at hout
    subst hout
    rw [withBlock, if_pos rfl]
    exact ⟨hinv, fun hne => absurd rfl hne⟩
  | some mapping =>
    obtain ⟨n, guardBytes⟩ := mapping
    obtain ⟨-, hroom⟩ := largeMapping_spec halign hpos hsize hmap
    have hnpos : 0 < n := by omega
    rw [hmap] at hout
    dsimp only at hout
    generalize htaken : (if opts.debug = true then (0, s.heap.largeCache)
      else largeCacheTake s.heap.largeCache n) = taken at hout
    rcases hinv.take opts.debug hnpos hfresh htaken.symm with
      ⟨hzero, hcache, hnew⟩ | ⟨hne, hmem, hhand⟩
    · by_cases hfail : pheapAlloc n = 0
      · rw [if_pos hzero, if_pos hfail] at hout
        subst hout
        rw [withBlock, if_pos rfl, hcache]
        exact ⟨hinv, fun hne => absurd rfl hne⟩
      · rw [if_pos hzero, if_neg hfail, if_pos hzero] at hout
        obtain ⟨hdone, htook⟩ := (hnew hfail).place opts hoff hlt hroom hsize hout
        refine ⟨hdone, fun hne => ⟨⟨guardBytes, ?_⟩, Or.inr ?_⟩⟩
        · rw [(htook hne).2]
        · rw [(htook hne).1, (htook hne).2]
    · rw [if_neg hne, if_neg hne, if_neg hne] at hout
      obtain ⟨hdone, htook⟩ := hhand.place opts hoff hlt hroom hsize hout
      refine ⟨hdone, fun hne => ⟨⟨guardBytes, ?_⟩, Or.inl ⟨(htook hne).1, ?_⟩⟩⟩
      · rw [(htook hne).2]
      · rw [(htook hne).2]
        exact hmem

theorem LargeInv.cachePut {region n : ℕ} (hinv : LargeInv s live [(region, n)]) :
    LargeInv (s.cachePut region n) live [] := by
  have hcap := hinv.cap
  unfold LargeState.cachePut largeCachePut
  by_cases hfull : s.heap.largeCache.length = largeCacheCap
  · rw [if_pos hfull]
    cases hcache : s.heap.largeCache with
    | nil =>
      rw [hcache] at hfull
      cases hfull
    | cons oldest rest =>
      rw [hcache, List.length_cons] at hcap
      have hperm : ([(region, n)] ++ s.heap.largeCache).Perm ([oldest] ++ (rest ++ [(region, n)])) := by
        rw [hcache]
        exact (List.Perm.swap _ _ _).trans ((List.perm_append_singleton _ _).symm.cons _)
      have hput := hinv.setCache hperm (by rw [List.length_append]; exact hcap)
      exact hput.giveBack
  · rw [if_neg hfull]
    have hperm : ([(region, n)] ++ s.heap.largeCache).Perm
        ([] ++ (s.heap.largeCache ++ [(region, n)])) := List.perm_append_comm
    have hlen : (s.heap.largeCache ++ [(region, n)]).length ≤ largeCacheCap := by
      rw [List.length_append, List.length_singleton]
      omega
    exact hinv.setCache hperm hlen

/-- The regions of the cache go back one after another. -/
theorem LargeInv.giveBackAll {regions : List (ℕ × ℕ)} (hinv : LargeInv s live regions) :
    LargeInv (regions.foldl LargeState.giveBack s) live [] := by
  induction regions generalizing s with
  | nil => exact hinv
  | cons r regions ih => exact ih hinv.giveBack

theorem LargeInv.cacheDrain (hinv : LargeInv s live []) : LargeInv s.cacheDrain.2 live [] := by
  apply LargeInv.giveBackAll
  apply hinv.setCache _ (Nat.zero_le _)
  rw [List.append_nil, List.nil_append]

/-- The state with the header of a block taken off and the block uncounted. -/
def LargeState.retire (s : LargeState) (base : ℕ) : LargeState :=
  { s with heap := { s.heap with
    heads := update s.heap.heads base none, mem := store64 s.heap.mem base 0 } }.countFree
      ((s.heap.largeAt base).sizeClass = largeHugeTag) (s.heap.largeAt base).mmapSize

theorem free_ok {s' : LargeState} {obj : ℕ} (hne : obj ≠ 0) (hfree : s.free obj = .ok s') :
    s' = if (s.heap.largeAt (ptrToMeta obj)).guardBytes = 0 then
        (s.retire (ptrToMeta obj)).cachePut (ptrToMeta obj) (s.heap.largeAt (ptrToMeta obj)).mmapSize
      else (s.retire (ptrToMeta obj)).giveBack
        (ptrToMeta obj, (s.heap.largeAt (ptrToMeta obj)).mmapSize) := by
  unfold LargeState.free at hfree
  rw [if_neg hne] at hfree
  dsimp only at hfree
  unfold LargeState.retire
  by_cases hguard : (s.heap.largeAt (ptrToMeta obj)).guardBytes = 0
  · rw [if_neg (not_not_intro hguard), if_pos hguard] at hfree
    rw [if_pos hguard]
    exact (Except.ok.inj hfree).symm
  · rw [if_pos hguard] at hfree
    obtain ⟨-, -, hrest⟩ := bind_ok_iff.1 hfree
    rw [if_neg hguard] at hrest ⊢
    exact (Except.ok.inj hrest).symm

theorem largeSizeClassTag_huge_iff {size : ℕ} (hsize : 0 < size) :
    largeSizeClassTag size = largeHugeTag ↔ largeMaxSize < size := by
  unfold largeSizeClassTag
  by_cases hbig : largeMaxSize < size
  · rw [if_pos ((sizeClass_huge_iff hsize).2 hbig)]
    exact iff_of_true rfl hbig
  · have hclass := (sizeClass_least hsize (Nat.le_of_not_lt hbig)).1
    rw [if_neg (fun hhuge => hbig ((sizeClass_huge_iff hsize).1 hhuge))]
    exact iff_of_false (hclass.trans (by decide)).ne hbig

/-- A block is retired and its region is in hand. -/
theorem LargeInv.retire {b : ℕ × ℕ} (hinv : LargeInv s (b :: live) []) :
    LargeInv (s.retire (ptrToMeta b.1)) live [regionOf s.heap b] := by
  obtain ⟨block, hblock⟩ := hinv.blocks b List.mem_cons_self
  have hperm : (s.held (b :: live) []).Perm
      (regionOf s.heap b :: (s.heap.largeCache ++ live.map (regionOf s.heap))) := by
    exact List.perm_middle
  have howned := hinv.owned.perm hperm
  have hat : s.heap.largeAt (ptrToMeta b.1) = block := by
    simp only [Heap.largeAt, hblock.header]
  have hhuge : decide ((s.heap.largeAt (ptrToMeta b.1)).sizeClass = largeHugeTag) =
      decide (largeMaxSize < b.2) := by
    rw [hat, hblock.tag]
    exact decide_eq_decide.2 (largeSizeClassTag_huge_iff hblock.pos)
  have hbase : ∀ c ∈ live, ptrToMeta c.1 ≠ ptrToMeta b.1 := by
    intro c hc heq
    have hapart := (List.pairwise_cons.1 howned.apart).1 (regionOf s.heap c)
      (List.mem_append_right _ (List.mem_map_of_mem hc))
    have hpos := (howned.checked _ List.mem_cons_self).2.1
    simp only [RegionOwners.Apart, regionOf, heq] at hapart hpos
    omega
  obtain ⟨h', hh'⟩ : ∃ h' : Heap, h' = { s.heap with
    heads := update s.heap.heads (ptrToMeta b.1) none,
    mem := store64 s.heap.mem (ptrToMeta b.1) 0 } := ⟨_, rfl⟩
  have hheads : ∀ c ∈ live, h'.heads (ptrToMeta c.1) = s.heap.heads (ptrToMeta c.1) := by
    intro c hc
    simp only [hh', update_of_ne (hbase c hc)]
  have hcache : h'.largeCache = s.heap.largeCache := by
    simp only [hh']
  have hsame : ∀ c ∈ live, regionOf h' c = regionOf s.heap c := by
    intro c hc
    obtain ⟨old, hold⟩ := hinv.blocks c (List.mem_cons_of_mem _ hc)
    exact regionOf_congr hold.header (hheads c hc)
  have hcount : ∀ huge, inUse s.heap (b :: live) huge =
      (if decide (largeMaxSize < b.2) = huge then (s.heap.largeAt (ptrToMeta b.1)).mmapSize else 0) +
        inUse h' live huge := by
    intro huge
    rw [inUse_cons, inUse_congr hsame]
    rfl
  have hlt : ∀ huge, inUse s.heap (b :: live) huge < 2 ^ 64 := by
    intro huge
    exact lt_of_le_of_lt (Nat.le_add_left _ _) (hinv.inUse_lt huge)
  have hcounts := countFree_counts (s := { s with heap := h' }) (hinv.large.trans (hcount false))
    (hinv.huge.trans (hcount true)) (hinv.large.trans_lt (hlt false)) (hinv.huge.trans_lt (hlt true))
  unfold LargeState.retire
  rw [hhuge, ← hh']
  constructor
  · rw [countFree_obtained, countFree_returned, LargeState.held, countFree_heap]
    simp only [hcache, List.map_congr_left hsame]
    exact howned
  · intro c hc
    rw [countFree_heap]
    obtain ⟨old, hold⟩ := hinv.blocks c (List.mem_cons_of_mem _ hc)
    exact ⟨old, (hheads c hc).trans hold.header, hold.behind, hold.room, hold.tag, hold.pos⟩
  · rw [countFree_heap]
    simp only [hcache]
    exact hinv.cap
  · rw [countFree_heap]
    exact hcounts.1
  · rw [countFree_heap]
    exact hcounts.2

theorem LargeInv.free {s' : LargeState} {b : ℕ × ℕ} (hinv : LargeInv s live []) (hb : b ∈ live)
    (hfree : s.free b.1 = .ok s') : LargeInv s' (live.erase b) [] := by
  obtain ⟨block, hblock⟩ := hinv.blocks b hb
  have hne : b.1 ≠ 0 := by
    have hbehind := hblock.behind
    unfold slabHeaderSize at hbehind
    omega
  have hhand := (hinv.perm (List.perm_cons_erase hb)).retire
  rw [free_ok hne hfree]
  split_ifs
  · exact hhand.cachePut
  · exact hhand.giveBack

end Steps

/-! ### Runs -/

/-- `live` lists the live blocks with the sizes they were asked for. The program may write to
memory, but not to the headers. -/
inductive LargeRun : LargeState → List (ℕ × ℕ) → Prop
  | init {h : Heap} : h.largeCache = [] → LargeRun ⟨h, 0, 0, [], []⟩ []
  | alloc {s live pheapAlloc size} (opts : LargeOptions) : LargeRun s live →
      0 < size → FreshRegions s live pheapAlloc →
      LargeRun (s.alloc opts size pheapAlloc).2
        (withBlock live (s.alloc opts size pheapAlloc).1 size)
  | allocAligned {s live pheapAlloc size} (opts : LargeOptions) (e : ℕ) : LargeRun s live →
      0 < size → FreshRegions s live pheapAlloc →
      LargeRun (s.allocAligned opts size (2 ^ e) pheapAlloc).2
        (withBlock live (s.allocAligned opts size (2 ^ e) pheapAlloc).1 size)
  | free {s s' live b} : LargeRun s live → b ∈ live → s.free b.1 = .ok s' →
      LargeRun s' (live.erase b)
  | cacheDrain {s live} : LargeRun s live → LargeRun s.cacheDrain.2 live
  | write {s live} (m : Mem) : LargeRun s live →
      LargeRun { s with heap := { s.heap with mem := m } } live

section Runs

variable {s : LargeState} {live : List (ℕ × ℕ)} {pheapAlloc : ℕ → ℕ} {size : ℕ}

theorem LargeInv.alloc (opts : LargeOptions) (hinv : LargeInv s live []) (hsize : 0 < size)
    (hfresh : FreshRegions s live pheapAlloc) :
    LargeInv (s.alloc opts size pheapAlloc).2
        (withBlock live (s.alloc opts size pheapAlloc).1 size) [] ∧
      ((s.alloc opts size pheapAlloc).1 ≠ 0 →
        Took s (s.alloc opts size pheapAlloc).2 ((s.alloc opts size pheapAlloc).1, size)
          (largeMapping opts.debug size slabHeaderSize
            (largePheapAlignment opts.hugePages size))) := by
  obtain ⟨halign, hpos⟩ := largePheapAlignment_page opts.hugePages size
  apply hinv.allocWithOffset opts halign hpos le_rfl (by decide) hsize hfresh
  rw [LargeState.alloc, if_neg hsize.ne']

theorem LargeInv.allocAligned (opts : LargeOptions) (alignment : ℕ) (hinv : LargeInv s live [])
    (hsize : 0 < size) (hfresh : FreshRegions s live pheapAlloc) :
    LargeInv (s.allocAligned opts size alignment pheapAlloc).2
        (withBlock live (s.allocAligned opts size alignment pheapAlloc).1 size) [] ∧
      ((s.allocAligned opts size alignment pheapAlloc).1 ≠ 0 →
        Took s (s.allocAligned opts size alignment pheapAlloc).2
          ((s.allocAligned opts size alignment pheapAlloc).1, size)
          (largeMapping opts.debug size (max slabHeaderSize alignment) pageSize)) := by
  unfold LargeState.allocAligned
  rw [if_neg hsize.ne']
  by_cases hsmall : alignment = 0 ∨ alignment ≤ slabHeaderSize
  · rw [if_pos hsmall, Nat.max_eq_left (by unfold slabHeaderSize at *; omega)]
    exact hinv.allocWithOffset opts (dvd_refl _) (by decide) le_rfl (by decide) hsize hfresh rfl
  · rw [if_neg hsmall]
    by_cases hbig : alignment ≥ pageSize
    · rw [if_pos hbig, withBlock, if_pos rfl]
      exact ⟨hinv, fun hne => absurd rfl hne⟩
    · have hoff : slabHeaderSize ≤ alignment := by
        unfold slabHeaderSize at *
        omega
      rw [if_neg hbig, Nat.max_eq_right hoff]
      exact hinv.allocWithOffset opts (dvd_refl _) (by decide) hoff (Nat.lt_of_not_le hbig) hsize
        hfresh rfl

/-- No header is in memory. -/
theorem LargeInv.write (hinv : LargeInv s live []) (m : Mem) :
    LargeInv { s with heap := { s.heap with mem := m } } live [] := by
  have hsame : ∀ b ∈ live, regionOf { s.heap with mem := m } b = regionOf s.heap b := by
    intro b hb
    obtain ⟨block, hblock⟩ := hinv.blocks b hb
    exact regionOf_congr hblock.header rfl
  refine ⟨?_, fun b hb => ?_, hinv.cap, ?_, ?_⟩
  · simp only [LargeState.held, List.map_congr_left hsame]
    exact hinv.owned
  · obtain ⟨block, hblock⟩ := hinv.blocks b hb
    exact ⟨block, hblock.header, hblock.behind, hblock.room, hblock.tag, hblock.pos⟩
  · exact hinv.large.trans (inUse_congr hsame false).symm
  · exact hinv.huge.trans (inUse_congr hsame true).symm

theorem LargeRun.inv (hrun : LargeRun s live) : LargeInv s live [] := by
  induction hrun with
  | init hempty =>
    refine ⟨⟨?_, ?_, ?_⟩, ?_, ?_, rfl, rfl⟩ <;> simp [LargeState.held, hempty]
  | alloc opts _ hsize hfresh ih => exact (ih.alloc opts hsize hfresh).1
  | allocAligned opts e _ hsize hfresh ih =>
    exact (ih.allocAligned opts (2 ^ e) hsize hfresh).1
  | free _ hb hfree ih => exact ih.free hb hfree
  | cacheDrain _ ih => exact ih.cacheDrain
  | write m _ ih => exact ih.write m

/-- Where a block of `b.2` bytes at `b.1` lies: its header at the start of its region, and its
usable bytes between the header and the guard. -/
structure InRegion (h : Heap) (b : ℕ × ℕ) (block : LargeMeta) : Prop where
  header : h.heads (ptrToMeta b.1) = some (.large block)
  covers : b.2 ≤ largeUsableSize h b.1
  behind : ptrToMeta b.1 + slabHeaderSize ≤ b.1
  before : b.1 + largeUsableSize h b.1 + block.guardBytes = ptrToMeta b.1 + block.mmapSize

theorem LargeInv.inRegion (hinv : LargeInv s live []) {b : ℕ × ℕ} (hb : b ∈ live) :
    ∃ block, InRegion s.heap b block := by
  obtain ⟨block, hblock⟩ := hinv.blocks b hb
  have hat : s.heap.largeAt (ptrToMeta b.1) = block := by
    simp only [Heap.largeAt, hblock.header]
  have hmem : regionOf s.heap b ∈ s.held live [] :=
    List.mem_append_right _ (List.mem_append_right _ (List.mem_map_of_mem hb))
  obtain ⟨hbase, -, -, hfit⟩ := hinv.owned.checked _ hmem
  simp only [regionOf, hat] at hbase hfit
  have hbehind := hblock.behind
  have hroom := hblock.room
  have hne : b.1 ≠ 0 := by omega
  have hoff : largeHeaderOffset b.1 = b.1 - ptrToMeta b.1 :=
    largeHeaderOffset_eq (by omega)
  have husable : largeUsableSize s.heap b.1 =
      block.mmapSize - (b.1 - ptrToMeta b.1) - block.guardBytes := by
    simp only [largeUsableSize, if_neg hne, hat, hoff]
    rw [sub64_eq (a := block.mmapSize) (by omega) (by omega), sub64_eq (by omega) (by omega)]
  exact ⟨block, hblock.header, by omega, hbehind, by omega⟩

theorem LargeInv.cached_once (hinv : LargeInv s live []) :
    (s.heap.largeCache.map Prod.fst).Nodup := by
  have hcached := (List.pairwise_append.1 (List.pairwise_append.1 hinv.owned.apart).2.1).1
  have hpos : ∀ r ∈ s.heap.largeCache, 0 < r.2 := by
    intro r hr
    exact (hinv.owned.checked r (List.mem_append_right _ (List.mem_append_left _ hr))).2.1
  rw [List.Nodup, List.pairwise_map]
  apply hcached.imp_of_mem
  intro r t hr ht hapart heq
  have hr := hpos r hr
  have ht := hpos t ht
  unfold RegionOwners.Apart at hapart
  omega

/-- Every region has one owner, every block lies in its region, and the counters are the sums of
the mapped sizes. -/
theorem large_regions_owned (hrun : LargeRun s live) :
    (s.obtained.Perm (s.returned ++ (s.heap.largeCache ++ live.map (regionOf s.heap))) ∧
      (s.heap.largeCache ++ live.map (regionOf s.heap)).Pairwise RegionOwners.Apart ∧
      s.heap.largeCache.length ≤ largeCacheCap ∧ (s.heap.largeCache.map Prod.fst).Nodup) ∧
    (∀ b ∈ live, ∃ block, InRegion s.heap b block) ∧
    (s.largeBytesInUse = inUse s.heap live false ∧ s.hugeBytesInUse = inUse s.heap live true) ∧
    ∀ opts size pheapAlloc, 0 < size → FreshRegions s live pheapAlloc →
      ((s.alloc opts size pheapAlloc).1 ≠ 0 →
        Took s (s.alloc opts size pheapAlloc).2 ((s.alloc opts size pheapAlloc).1, size)
          (largeMapping opts.debug size slabHeaderSize
            (largePheapAlignment opts.hugePages size))) ∧
      ∀ e, (s.allocAligned opts size (2 ^ e) pheapAlloc).1 ≠ 0 →
        Took s (s.allocAligned opts size (2 ^ e) pheapAlloc).2
          ((s.allocAligned opts size (2 ^ e) pheapAlloc).1, size)
          (largeMapping opts.debug size (max slabHeaderSize (2 ^ e)) pageSize) := by
  have hinv := hrun.inv
  refine ⟨⟨hinv.owned.split, hinv.owned.apart, hinv.cap, hinv.cached_once⟩,
    fun b hb => hinv.inRegion hb, ⟨hinv.large, hinv.huge⟩, ?_⟩
  intro opts size pheapAlloc hsize hfresh
  exact ⟨(hinv.alloc opts hsize hfresh).2, fun e => (hinv.allocAligned opts (2 ^ e) hsize hfresh).2⟩

end Runs

/-- Nothing is mapped yet. -/
def unmapped : LargeState where
  heap :=
    { mem := fun _ => 0
      heads := fun _ => none
      pools := fun _ => ⟨fun _ => ⟨0, []⟩, []⟩
      arenas := fun _ => ⟨⟨0, 0, fun _ => 0, fun _ => 0, fun _ => 0⟩, false, false, 0⟩
      largeCache := [] }
  largeBytesInUse := 0
  hugeBytesInUse := 0
  obtained := []
  returned := []

/-- The page heap has a terabyte from the second page on. -/
def terabyte (n : ℕ) : ℕ := if n ≤ 2 ^ 40 then 65536 else 0

theorem terabyte_fresh : FreshRegions unmapped [] terabyte := by
  intro n hpos hne
  have hle : n ≤ 2 ^ 40 := by
    by_contra hbig
    exact hne (if_neg hbig)
  rw [terabyte, if_pos hle]
  refine ⟨⟨Nat.zero_lt_succ _, hpos, dvd_refl pageSize, ?_⟩, ?_⟩
  · change 65536 + n ≤ 2 ^ 64
    omega
  · intro t ht
    cases ht

def plainLarge : LargeOptions := ⟨false, false, true⟩

theorem first_large : LargeRun (unmapped.alloc plainLarge 300000 terabyte).2 [(67584, 300000)] := by
  have hinit : LargeRun unmapped [] := LargeRun.init rfl
  have hrun := LargeRun.alloc plainLarge hinit (by decide : 0 < 300000) terabyte_fresh
  have hobj : (unmapped.alloc plainLarge 300000 terabyte).1 = 67584 := by decide +kernel
  rwa [hobj] at hrun

/-- The first block lies in the one region obtained. -/
theorem large_regions_owned_first :
    (unmapped.alloc plainLarge 300000 terabyte).2.obtained = [(65536, 327680)] ∧
      ∃ block, InRegion (unmapped.alloc plainLarge 300000 terabyte).2.heap (67584, 300000) block :=
  ⟨by decide +kernel, (large_regions_owned first_large).2.1 _ List.mem_cons_self⟩

end V8Malloc
