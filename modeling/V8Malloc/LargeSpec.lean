import V8Malloc.Heap.Footprint
import V8Malloc.Large

/-!
# Large blocks of the heap

An allocation takes a region from the recycle cache or from the page heap and
puts a header at its base; a free takes the header away and keeps the region in
the cache. The block is everything between the user pointer and the guard page.
-/
namespace V8Malloc

open ByteMemory Function

variable {h h' : Heap} {blk : Blocks} {a b x n obj size off align region guardBytes : ℕ} {g : Grant}
variable {cache rest : List (ℕ × ℕ)} {k : RegionKind} {m' : Mem} {block : LargeMeta}

/-! ### What the dispatcher sees -/

section OnHeap

variable (opts : LargeOptions) (s : LargeState) (huge : Bool) (pheapAlloc : ℕ → ℕ)

@[simp]
theorem countAlloc_heap (n : ℕ) : (s.countAlloc huge n).heap = s.heap := by
  unfold LargeState.countAlloc
  split_ifs <;> simp only

@[simp]
theorem countFree_heap (n : ℕ) : (s.countFree huge n).heap = s.heap := by
  unfold LargeState.countFree
  split_ifs <;> simp only

/-- Counters and log are written and never read. -/
theorem onHeap_allocWithOffset (size off align : ℕ) :
    LargeState.onHeap (s.allocWithOffset opts size off align pheapAlloc) =
      match largeMapping opts.debug size off align with
      | none => (0, s.heap)
      | some (n, guardBytes) =>
        let taken :=
          if opts.debug then (0, s.heap.largeCache) else largeCacheTake s.heap.largeCache n
        let h := { s.heap with largeCache := taken.2 }
        let region := if taken.1 = 0 then pheapAlloc n else taken.1
        if region = 0 then (0, h)
        else if opts.debug && !opts.mprotectOk then (0, h)
        else largeInstall opts.debug h size off region n guardBytes := by
  unfold LargeState.allocWithOffset
  cases largeMapping opts.debug size off align with
  | none => rfl
  | some mapping =>
    obtain ⟨n, guardBytes⟩ := mapping
    dsimp only
    generalize (if opts.debug = true then (0, s.heap.largeCache)
      else largeCacheTake s.heap.largeCache n) = taken
    generalize (if taken.1 = 0 then pheapAlloc n else taken.1) = region
    generalize decide (sizeClass size = classHuge) = huge
    by_cases hregion : region = 0
    · rw [if_pos hregion, if_pos hregion]
      rfl
    · rw [if_neg hregion, if_neg hregion]
      by_cases hguard : (opts.debug && !opts.mprotectOk) = true
      · rw [if_pos hguard, if_pos hguard]
        split_ifs <;> rfl
      · rw [if_neg hguard, if_neg hguard, LargeState.onHeap, countAlloc_heap]
        split_ifs <;> rfl

theorem largeAlloc_eq (h : Heap) (size : ℕ) : largeAlloc opts h size pheapAlloc =
    if size = 0 then (0, h)
    else largeAllocWithOffset opts h size slabHeaderSize (largePheapAlignment opts.hugePages size)
      pheapAlloc := by
  unfold largeAlloc LargeState.alloc
  split_ifs <;> rfl

theorem largeAllocAligned_eq (h : Heap) (size alignment : ℕ) :
    largeAllocAligned opts h size alignment pheapAlloc =
      if size = 0 then (0, h)
      else if alignment = 0 ∨ alignment ≤ slabHeaderSize then
        largeAllocWithOffset opts h size slabHeaderSize pageSize pheapAlloc
      else if alignment ≥ pageSize then (0, h)
      else largeAllocWithOffset opts h size alignment pageSize pheapAlloc := by
  unfold largeAllocAligned LargeState.allocAligned
  split_ifs <;> rfl

theorem cachePut_heap (region n : ℕ) : (s.cachePut region n).heap =
    { s.heap with largeCache := (largeCachePut s.heap.largeCache region n).2 } := by
  unfold LargeState.cachePut
  generalize largeCachePut s.heap.largeCache region n = out
  obtain ⟨evicted, cache⟩ := out
  cases evicted <;> rfl

theorem largeFree_eq (h : Heap) (obj : ℕ) : largeFree h obj =
    if obj = 0 then .ok h
    else
      let base := ptrToMeta obj
      let block := h.largeAt base
      (do
        if block.guardBytes ≠ 0 then
          largeCheckRedzone h.mem obj block (largeHeaderOffset obj)
        let h := { h with heads := update h.heads base none, mem := store64 h.mem base 0 }
        if block.guardBytes = 0 then
          pure { h with largeCache := (largeCachePut h.largeCache base block.mmapSize).2 }
        else pure h) := by
  unfold largeFree LargeState.free
  by_cases hzero : obj = 0
  · rw [if_pos hzero, if_pos hzero]
    rfl
  · rw [if_neg hzero, if_neg hzero]
    dsimp only [LargeState.of]
    by_cases hguard : (h.largeAt (ptrToMeta obj)).guardBytes = 0
    · simp only [hguard, ne_eq, not_true_eq_false, if_false, if_true]
      simp only [map_pure, cachePut_heap, countFree_heap]
    · simp only [hguard, ne_eq, not_false_eq_true, if_false, if_true]
      cases largeCheckRedzone h.mem obj (h.largeAt (ptrToMeta obj)) (largeHeaderOffset obj) with
      | error stop => rfl
      | ok _ => exact congrArg Except.ok (countFree_heap _ _ _)

end OnHeap

/-! ### Sizes -/

theorem sub64_eq (hle : b ≤ a) (hlt : a < 2 ^ 64) : sub64 a b = a - b := by
  unfold sub64
  omega

theorem roundUpPow2_spec (halign : 0 < align) (hfit : a + align ≤ 2 ^ 64) :
    a ≤ roundUpPow2 a align ∧ align ∣ roundUpPow2 a align := by
  unfold roundUpPow2
  refine ⟨?_, Nat.dvd_mul_left _ _⟩
  rw [Nat.mod_eq_of_lt (by omega)]
  have hdiv := Nat.div_add_mod (a + align - 1) align
  have hmod := Nat.mod_lt (a + align - 1) halign
  rw [Nat.mul_comm] at hdiv
  omega

/-- The mapped size is whole pages and holds the offset, the request and the guard. -/
theorem largeMapping_spec {debug : Bool} (halign : pageSize ∣ align) (hpos : 0 < align)
    (hsize : 0 < size) (hmap : largeMapping debug size off align = some (n, guardBytes)) :
    pageSize ∣ n ∧ off + size + guardBytes ≤ n := by
  unfold largeMapping at hmap
  by_cases hbig : size > sizeMax - off - align
  · rw [if_pos hbig] at hmap
    cases hmap
  rw [if_neg hbig] at hmap
  obtain ⟨hle, hdvd⟩ := roundUpPow2_spec (a := off + size) hpos (by unfold sizeMax at hbig; omega)
  cases debug with
  | false =>
    cases hmap
    exact ⟨halign.trans hdvd, hle⟩
  | true =>
    dsimp only at hmap
    rw [if_pos rfl] at hmap
    split_ifs at hmap
    cases hmap
    exact ⟨Dvd.dvd.add (halign.trans hdvd) (dvd_refl _), by omega⟩

/-! ### The recycle cache -/

/-- A hit takes one entry of the size out of the cache. -/
theorem largeCacheTake_spec (cache : List (ℕ × ℕ)) (n : ℕ) :
    largeCacheTake cache n = (0, cache) ∨
      ∃ region rest, largeCacheTake cache n = (region, rest) ∧
        cache.Perm ((region, n) :: rest) := by
  unfold largeCacheTake
  cases hfind : cache.findIdx? fun entry => entry.2 == n with
  | none => exact Or.inl rfl
  | some i =>
    obtain ⟨hi, hsize, -⟩ := List.findIdx?_eq_some_iff_getElem.1 hfind
    refine Or.inr ⟨_, _, rfl, ?_⟩
    have hget : cache.getD i (0, 0) = cache[i] := List.getD_eq_getElem _ _ hi
    have hentry : ((cache.getD i (0, 0)).1, n) = cache[i] := by
      rw [hget, ← beq_iff_eq.1 hsize]
    rw [hentry]
    refine (List.getElem_cons_eraseIdx_perm hi).symm.trans (List.Perm.cons _ ?_)
    -- the last entry fills the hole
    rcases List.eq_nil_or_concat' cache with rfl | ⟨front, last, rfl⟩
    · exact absurd hi (Nat.not_lt_zero i)
    · rw [List.length_append, List.length_singleton] at hi
      rw [List.getLastD_concat]
      by_cases hlast : i = front.length
      · subst hlast
        rw [List.eraseIdx_append_of_length_le le_rfl]
        simp
      · have hlt : i < front.length := by omega
        rw [List.set_append_left _ _ hlt, List.dropLast_concat, List.eraseIdx_append_of_lt_length hlt]
        exact (List.perm_append_singleton _ _).trans (List.set_perm_cons_eraseIdx hlt last).symm

theorem largeCachePut_sublist (cache : List (ℕ × ℕ)) (region n : ℕ) :
    ∃ front, (largeCachePut cache region n).2 = front ++ [(region, n)] ∧ front.Sublist cache := by
  unfold largeCachePut
  split_ifs
  · exact ⟨cache.tail, rfl, List.tail_sublist cache⟩
  · exact ⟨cache, rfl, List.Sublist.refl cache⟩

theorem Heap.Region.setCache (hsub : ∀ e ∈ cache, e ∈ h.largeCache)
    (hr : ({ h with largeCache := cache } : Heap).Region k b n) : h.Region k b n := by
  cases hr with
  | slab hhead => exact .slab hhead
  | parked harena hmem => exact .parked harena hmem
  | large hhead => exact .large hhead
  | cached hmem => exact .cached (hsub _ hmem)
  | arena hu => exact .arena hu

/-- Fewer cached regions. -/
theorem HeapInv.setCache (hh : HeapInv h blk) (hsub : ∀ e ∈ cache, e ∈ h.largeCache)
    (hnodup : (cache.map Prod.fst).Nodup) : HeapInv { h with largeCache := cache } blk where
  layout := hh.layout.mono (fun _ _ _ hr => hr.setCache hsub) hh.layout.drained hnodup
  headers := hh.headers
  buddy := hh.buddy
  clean := hh.clean
  lists := hh.lists.keep rfl fun _ _ hhead => hhead

theorem still_setCache (hsub : ∀ e ∈ cache, e ∈ h.largeCache) :
    Still h { h with largeCache := cache } := by
  refine ⟨rfl, ?_, .of_heads rfl⟩
  rintro x ⟨k, b, n, hr, hin⟩
  exact ⟨k, b, n, hr.setCache hsub, hin⟩

/-- A region that left the cache is a vacant place. -/
theorem HeapInv.uncache (hh : HeapInv h blk) (hperm : h.largeCache.Perm ((region, n) :: rest)) :
    HeapInv { h with largeCache := rest } blk ∧ Vacant { h with largeCache := rest } region n := by
  have hsub : ∀ e ∈ rest, e ∈ h.largeCache :=
    fun e he => hperm.mem_iff.2 (List.mem_cons_of_mem _ he)
  have hmem : (region, n) ∈ h.largeCache := hperm.mem_iff.2 List.mem_cons_self
  have hnodup := (hperm.map Prod.fst).nodup_iff.1 hh.layout.cached
  rw [List.map_cons, List.nodup_cons] at hnodup
  have hinv := hh.setCache hsub hnodup.2
  obtain ⟨hb, hn, hpos, hnpos, hfit⟩ := hh.layout.fits _ _ _ (.cached hmem)
  refine ⟨hinv, ⟨hb, hn, hpos, hnpos, hfit, ?_⟩⟩
  rintro x hlo hhi ⟨k, c, n', hr, hlo', hhi'⟩
  obtain ⟨hk, hc, -⟩ := hh.layout.apart _ _ _ _ _ _ (hr.setCache hsub) (.cached hmem) (by omega)
    (by omega)
  subst hk hc
  cases hr with
  | cached hmem' => exact hnodup.1 (List.mem_map.2 ⟨_, hmem', rfl⟩)

/-! ### Allocation -/

/-- The page heap may give these answers to requests of any size. -/
def LegalRegions (h : Heap) (pheapAlloc : ℕ → ℕ) : Prop :=
  ∀ n, pheapAlloc n ≠ 0 → Vacant h (pheapAlloc n) n

/-- An address in a region that answers a request for its size. -/
def InRegions (regions : ℕ → ℕ) (x : ℕ) : Prop :=
  ∃ n, regions n ≠ 0 ∧ regions n ≤ x ∧ x < regions n + n

/-- Every large header of `h'` is one of `h` or that of the block at `ptr`; a guarded block has
the request in its header and the red zone behind it. -/
def LargeIssued (size ptr : ℕ) (h h' : Heap) : Prop :=
  ∀ b block, h'.heads b = some (.large block) → h.heads b = some (.large block) ∨
    ∃ off < pageSize, ptr = b + off ∧ (block.guardBytes ≠ 0 → block.requestedSize = size ∧
      allBytes h'.mem (ptr + size) (largeRedzoneSpan block off) largeRedzoneByte = true)

theorem LargeKept.issued (hkept : LargeKept h h') (size ptr : ℕ) : LargeIssued size ptr h h' :=
  fun b block hb => Or.inl (hkept b block hb)

theorem LargeKept.trans_issued {h'' : Heap} {ptr : ℕ} (hkept : LargeKept h h')
    (hissued : LargeIssued size ptr h' h'') : LargeIssued size ptr h h'' :=
  fun b block hb => (hissued b block hb).imp_left (hkept b block)

/-- The heap with the header of a large block at `b`. -/
def Heap.putLarge (h : Heap) (b : ℕ) (block : LargeMeta) (m : Mem) : Heap :=
  { h with heads := update h.heads b (some (.large block)), mem := m }

theorem Heap.Region.putLarge {c : ℕ} (hr : (h.putLarge b block m').Region k c n) :
    h.Region k c n ∨ k = .large ∧ c = b ∧ n = block.mmapSize := by
  cases hr with
  | slab hhead =>
    by_cases hc : c = b
    · subst hc
      simp [Heap.putLarge] at hhead
    · exact Or.inl (.slab (by simpa [Heap.putLarge, hc] using hhead))
  | parked harena hmem => exact Or.inl (.parked harena hmem)
  | large hhead =>
    by_cases hc : c = b
    · subst hc
      simp only [Heap.putLarge, update_self, Option.some.injEq, Header.large.injEq] at hhead
      exact Or.inr ⟨rfl, rfl, by rw [hhead]⟩
    · exact Or.inl (.large (by simpa [Heap.putLarge, hc] using hhead))
  | cached hmem => exact Or.inl (.cached hmem)
  | arena hu => exact Or.inl (.arena hu)

/-- A header with its block in a vacant place. -/
theorem HeapInv.putLarge (hh : HeapInv h blk) (hv : Vacant h b block.mmapSize)
    (hoff : LargeOffset block off) (hframe : SameOutside b block.mmapSize h.mem m') :
    HeapInv (h.putLarge b block m') (update blk (b + off) (some (block.grant off))) := by
  have hnone := hv.no_header hh.layout
  have hbase : ptrToMeta (b + off) = b :=
    ptrToMeta_eq hv.aligned (Nat.le_add_right _ _) (Nat.add_lt_add_left hoff.off_lt b)
  have hpage := Nat.le_of_dvd hv.size_pos hv.whole
  have hregion : (h.putLarge b block m').Region .large b block.mmapSize :=
    .large (by simp [Heap.putLarge])
  have hlists : ListsOk (h.putLarge b block m') := by
    refine hh.lists.keep rfl fun c page hpage => ?_
    have hc : c ≠ b := by
      rintro rfl
      rw [hnone] at hpage
      cases hpage
    rw [← hpage]
    exact update_of_ne hc _ _
  have hlayout : Layout (h.putLarge b block m') :=
    hh.layout.add hv (fun _ _ _ hr => hr.putLarge) hh.layout.drained hh.layout.cached
  refine hh.putHeader rfl rfl hlayout hlists hregion (by decide) hframe ?_ ?_
  · intro c hc
    apply update_of_ne
    rintro rfl
    exact hc hbase
  · refine ⟨off, hoff, fun c g hc => ?_⟩
    by_cases heq : c = b + off
    · subst heq
      rw [update_self, Option.some_inj]
      exact ⟨fun hg => ⟨rfl, hg.symm⟩, fun hg => hg.2.symm⟩
    · obtain ⟨hlo, hhi⟩ := ptrToMeta_le c
      rw [update_of_ne heq, hv.no_block hh (by omega) (by omega)]
      exact ⟨fun hsome => absurd hsome (by simp), fun hg => absurd hg.1 heq⟩

/-- The bytes a large request is given behind `off`, up to the guard. -/
def largeRoom (debug : Bool) (size off align : ℕ) : ℕ :=
  match largeMapping debug size off align with
  | some (mmapSize, guardBytes) => mmapSize - off - guardBytes
  | none => 0

/-- A large block of `n` bytes was granted. -/
structure LargeGranted (h : Heap) (blk : Blocks) (offers : ℕ → Prop) (size off n : ℕ)
    (out : ℕ × Heap) : Prop where
  inv : HeapInv out.2 (grantAfter blk out.1 ⟨n, .large⟩)
  covers : out.1 ≠ 0 → size ≤ n
  fresh : out.1 ≠ 0 → blk out.1 = none
  placed : out.1 ≠ 0 → ∃ region, pageSize ∣ region ∧ out.1 = region + off
  preserved : Preserved blk h.mem out.2.mem
  footprint : Footprint offers h out.2
  issued : LargeIssued size out.1 h out.2

theorem largeGranted_null (offers : ℕ → Prop) (hh : HeapInv h' blk) (hs : Still h h')
    (size off n : ℕ) : LargeGranted h blk offers size off n (0, h') := by
  refine ⟨?_, fun hne => absurd rfl hne, fun hne => absurd rfl hne, fun hne => absurd rfl hne, ?_,
    (hs.within offers).toFootprint, hs.large.issued size 0⟩
  · rw [grantAfter, if_pos rfl]
    exact hh
  · rw [hs.mem]
    exact Preserved.refl _ _

theorem largeFillRedzone_frame (m : Mem) (block : LargeMeta)
    (hguard : off + block.guardBytes ≤ block.mmapSize)
    (hlt : block.mmapSize < 2 ^ 64) :
    SameOutside b block.mmapSize m (largeFillRedzone m (b + off) block off) := by
  have hspan : block.requestedSize ≥ block.mmapSize - off - block.guardBytes ∧
      largeRedzoneSpan block off = 0 ∨
      block.requestedSize + largeRedzoneSpan block off ≤ block.mmapSize - off := by
    simp only [largeRedzoneSpan, sub64_eq (show off ≤ block.mmapSize by omega) hlt,
      sub64_eq (show block.guardBytes ≤ block.mmapSize - off by omega) (by omega)]
    split_ifs with hge
    · exact Or.inl ⟨hge, rfl⟩
    · right
      omega
  unfold largeFillRedzone
  intro x hx
  rcases hspan with ⟨-, hzero⟩ | hle
  · rw [hzero]
    exact sameOutside_fill _ _ _ _ x (by omega)
  · exact sameOutside_fill _ _ _ _ x (by omega)

theorem largeInstall_footprint {debug : Bool} (hframe : SameOutside region n h.mem
      (largeInstall debug h size off region n guardBytes).2.mem) :
    Footprint (fun x => region ≤ x ∧ x < region + n) h
      (largeInstall debug h size off region n guardBytes).2 := by
  constructor
  · rintro x ⟨k, c, l, hr, hin⟩
    have hput : (h.putLarge region _ _).Region k c l := hr
    rcases hput.putLarge with hr | ⟨-, rfl, rfl⟩
    · exact Or.inl ⟨k, c, l, hr, hin⟩
    · exact Or.inr hin
  · exact fun x _ hnew => hframe x (by omega)

theorem allBytes_fill (m : Mem) (a n : ℕ) (byte : UInt8) :
    allBytes (fill m a n byte) a n byte = true := by
  simp only [allBytes, fill, List.all_eq_true, List.mem_range, beq_iff_eq]
  intro i hi
  exact if_pos (by omega)

theorem largeInstall_issued {debug : Bool} (hoff : off < pageSize)
    (hguard : guardBytes ≠ 0 → debug = true) :
    LargeIssued size (largeInstall debug h size off region n guardBytes).1 h
      (largeInstall debug h size off region n guardBytes).2 := by
  intro b block hb
  by_cases hregion : b = region
  · right
    refine ⟨off, hoff, by rw [hregion]; rfl, fun hne => ?_⟩
    simp only [largeInstall, hregion, update_self, Option.some.injEq, Header.large.injEq] at hb
    subst hb
    have hdebug := hguard hne
    subst hdebug
    exact ⟨rfl, allBytes_fill _ _ _ _⟩
  · left
    simpa only [largeInstall, update_of_ne hregion] using hb

theorem largeInstall_spec {debug : Bool} (hh : HeapInv h blk) (hv : Vacant h region n)
    (hoff : slabHeaderSize ≤ off) (hlt : off < pageSize) (hsize : linkBytes ≤ size)
    (hroom : off + size + guardBytes ≤ n) (hguard : guardBytes ≠ 0 → debug = true) :
    LargeGranted h blk (fun x => region ≤ x ∧ x < region + n) size off (n - off - guardBytes)
      (largeInstall debug h size off region n guardBytes) := by
  have hfit : n < 2 ^ 64 := by
    have hfits := hv.fits
    unfold addressSpace at hfits
    omega
  have hpos := hv.pos
  have hframe : SameOutside region n h.mem
      (largeInstall debug h size off region n guardBytes).2.mem := by
    simp only [largeInstall]
    split_ifs
    · exact largeFillRedzone_frame h.mem ⟨_, n, guardBytes, size⟩
        (show off + guardBytes ≤ n by omega) hfit
    · exact SameOutside.refl _ _ _
  have hblock : LargeOffset ⟨largeSizeClassTag size, n, guardBytes, if debug then size else 0⟩ off :=
    ⟨hoff, hlt, show off + guardBytes + linkBytes ≤ n by omega⟩
  refine ⟨?_, fun _ => by omega, fun _ => ?_, fun _ => ⟨region, hv.aligned, rfl⟩,
    hv.preserved hh hframe, largeInstall_footprint hframe, largeInstall_issued hlt hguard⟩
  · have hgrant : grantAfter blk (largeInstall debug h size off region n guardBytes).1
        ⟨n - off - guardBytes, .large⟩ =
        update blk (region + off) (some ⟨n - off - guardBytes, .large⟩) :=
      if_neg (show region + off ≠ 0 by omega)
    rw [hgrant]
    exact hh.putLarge hv hblock hframe
  · refine hv.no_block hh (Nat.le_add_right _ _) (show region + off < region + n from ?_)
    unfold linkBytes at hsize
    omega

theorem largeMapping_guard {debug : Bool}
    (hmap : largeMapping debug size off align = some (n, guardBytes)) (hne : guardBytes ≠ 0) :
    debug = true := by
  unfold largeMapping at hmap
  dsimp only at hmap
  split_ifs at hmap with hover hdebug
  · exact hdebug
  · cases hmap
    exact absurd rfl hne

theorem largeAllocWithOffset_spec (opts : LargeOptions) {pheapAlloc : ℕ → ℕ} (hh : HeapInv h blk)
    (hlegal : LegalRegions h pheapAlloc) (halign : pageSize ∣ align) (hpos : 0 < align)
    (hoff : slabHeaderSize ≤ off) (hlt : off < pageSize) (hsize : linkBytes ≤ size) :
    LargeGranted h blk (InRegions pheapAlloc) size off (largeRoom opts.debug size off align)
      (largeAllocWithOffset opts h size off align pheapAlloc) := by
  rw [largeAllocWithOffset, onHeap_allocWithOffset]
  dsimp only [LargeState.of]
  unfold largeRoom
  cases hmap : largeMapping opts.debug size off align with
  | none => exact largeGranted_null _ hh (.refl h) size off _
  | some mapping =>
    obtain ⟨n, guardBytes⟩ := mapping
    have hsize0 : 0 < size := by
      unfold linkBytes at hsize
      omega
    obtain ⟨-, hroom⟩ := largeMapping_spec halign hpos hsize0 hmap
    -- the heap after the lookup, and the region that was found
    obtain ⟨cache, region, htake, hh₁, hstill, hv⟩ : ∃ cache region,
        (if opts.debug then (0, h.largeCache) else largeCacheTake h.largeCache n) =
          (region, cache) ∧ HeapInv { h with largeCache := cache } blk ∧
        Still h { h with largeCache := cache } ∧
        ((if region = 0 then pheapAlloc n else region) ≠ 0 →
          Vacant { h with largeCache := cache } (if region = 0 then pheapAlloc n else region) n ∧
          ∀ x, (if region = 0 then pheapAlloc n else region) ≤ x ∧
            x < (if region = 0 then pheapAlloc n else region) + n →
            h.Taken x ∨ InRegions pheapAlloc x) := by
      have hmiss : (if (0 : ℕ) = 0 then pheapAlloc n else 0) ≠ 0 →
          Vacant h (if (0 : ℕ) = 0 then pheapAlloc n else 0) n ∧
          ∀ x, (if (0 : ℕ) = 0 then pheapAlloc n else 0) ≤ x ∧
            x < (if (0 : ℕ) = 0 then pheapAlloc n else 0) + n →
            h.Taken x ∨ InRegions pheapAlloc x := by
        rw [if_pos rfl]
        exact fun hne => ⟨hlegal n hne, fun x hin => Or.inr ⟨n, hne, hin⟩⟩
      split_ifs with hdebug
      · exact ⟨h.largeCache, 0, rfl, hh, .refl h, hmiss⟩
      · rcases largeCacheTake_spec h.largeCache n with hnone | ⟨region, rest, hsome, hperm⟩
        · exact ⟨h.largeCache, 0, hnone, hh, .refl h, hmiss⟩
        · obtain ⟨hh₁, hv⟩ := hh.uncache hperm
          refine ⟨rest, region, hsome, hh₁, still_setCache fun e he =>
            hperm.mem_iff.2 (List.mem_cons_of_mem _ he), fun _ => ?_⟩
          rw [if_neg hv.pos.ne']
          exact ⟨hv, fun x hin =>
            Or.inl ⟨_, _, _, .cached (hperm.mem_iff.2 List.mem_cons_self), hin⟩⟩
    simp only [htake]
    generalize (if region = 0 then pheapAlloc n else region) = place at hv ⊢
    split_ifs with h0 hprotect
    · exact largeGranted_null _ hh₁ hstill size off _
    · exact largeGranted_null _ hh₁ hstill size off _
    · obtain ⟨hv, hplace⟩ := hv h0
      obtain ⟨hinv, hcovers, hfresh, hplaced, hpres, hfoot, hissued⟩ :=
        largeInstall_spec hh₁ hv hoff hlt hsize hroom (largeMapping_guard hmap)
      exact ⟨hinv, hcovers, hfresh, hplaced, hpres,
        (hstill.within _).toFootprint.absorb (hfoot.mono hplace), hstill.large.trans_issued hissued⟩

theorem largePheapAlignment_page (hugePages : Bool) (size : ℕ) :
    pageSize ∣ largePheapAlignment hugePages size ∧ 0 < largePheapAlignment hugePages size := by
  unfold largePheapAlignment
  split_ifs <;> decide

theorem largeAlloc_spec (opts : LargeOptions) {pheapAlloc : ℕ → ℕ} (hh : HeapInv h blk)
    (hlegal : LegalRegions h pheapAlloc) (hsize : linkBytes ≤ size) :
    LargeGranted h blk (InRegions pheapAlloc) size slabHeaderSize
      (largeRoom opts.debug size slabHeaderSize (largePheapAlignment opts.hugePages size))
      (largeAlloc opts h size pheapAlloc) := by
  obtain ⟨halign, hpos⟩ := largePheapAlignment_page opts.hugePages size
  rw [largeAlloc_eq, if_neg (by unfold linkBytes at hsize; omega)]
  exact largeAllocWithOffset_spec opts hh hlegal halign hpos le_rfl (by decide) hsize

theorem largeAllocAligned_spec (opts : LargeOptions) {pheapAlloc : ℕ → ℕ} (hh : HeapInv h blk)
    (hlegal : LegalRegions h pheapAlloc) (hsize : linkBytes ≤ size) (alignment : ℕ) :
    LargeGranted h blk (InRegions pheapAlloc) size (max slabHeaderSize alignment)
      (largeRoom opts.debug size (max slabHeaderSize alignment) pageSize)
      (largeAllocAligned opts h size alignment pheapAlloc) := by
  have hspec : ∀ off, slabHeaderSize ≤ off → off < pageSize →
      LargeGranted h blk (InRegions pheapAlloc) size off (largeRoom opts.debug size off pageSize)
        (largeAllocWithOffset opts h size off pageSize pheapAlloc) :=
    fun off hoff hlt =>
      largeAllocWithOffset_spec opts hh hlegal (dvd_refl _) (by decide) hoff hlt hsize
  rw [largeAllocAligned_eq, if_neg (by unfold linkBytes at hsize; omega)]
  split_ifs with hsmall hbig
  · rw [max_eq_left (by omega)]
    exact hspec _ le_rfl (by decide)
  · exact largeGranted_null _ hh (.refl h) size _ _
  · rw [max_eq_right (by omega)]
    exact hspec _ (by omega) (by omega)

/-- The user pointer is aligned, because the regions of the page heap are whole pages. -/
theorem largeAllocAligned_dvd (opts : LargeOptions) {pheapAlloc : ℕ → ℕ} {e : ℕ}
    (hne : (largeAllocAligned opts h size (2 ^ e) pheapAlloc).1 ≠ 0) :
    2 ^ e ∣ max slabHeaderSize (2 ^ e) ∧ 2 ^ e ∣ pageSize := by
  have hlt : 2 ^ e < 2 ^ 16 := by
    by_contra hbig
    have hpos : 2 ^ e ≠ 0 := by positivity
    rw [largeAllocAligned_eq] at hne
    unfold slabHeaderSize pageSize at hne
    split_ifs at hne
    all_goals omega
  have he : e < 16 := (Nat.pow_lt_pow_iff_right (by norm_num)).1 hlt
  refine ⟨?_, pow_dvd_pow 2 he.le⟩
  rcases Nat.le_total (2 ^ e) slabHeaderSize with hle | hle
  · rw [max_eq_left hle]
    exact pow_dvd_pow 2 ((Nat.pow_le_pow_iff_right (by norm_num)).1 (show 2 ^ e ≤ 2 ^ 11 from hle))
  · rw [max_eq_right hle]

/-! ### Free -/

/-- A region with one block, seen from the block. -/
theorem HeapInv.large_block (hh : HeapInv h blk) (ha : blk obj = some ⟨n, .large⟩) :
    ∃ block off, h.heads (ptrToMeta obj) = some (.large block) ∧ LargeOffset block off ∧
      obj = ptrToMeta obj + off ∧ n = block.mmapSize - off - block.guardBytes ∧
      ∀ a g, ptrToMeta a = ptrToMeta obj → blk a = some g → a = obj := by
  generalize hg : (⟨n, .large⟩ : Grant) = g at ha
  cases hh.blockKind ha with
  | slab => cases congrArg Grant.backend hg
  | buddy => cases congrArg Grant.backend hg
  | @large block off hhead hoff haddr =>
    refine ⟨block, off, hhead, hoff, haddr, congrArg Grant.bytes hg, fun a g hbase hsome => ?_⟩
    obtain ⟨off', -, hiff⟩ := hh.headers _ _ hhead
    exact ((hiff a g hbase).1 hsome).1.trans ((hiff obj _ rfl).1 ha).1.symm

theorem largeHeaderOffset_eq (haddr : obj = ptrToMeta obj + off) :
    largeHeaderOffset obj = off := by
  unfold largeHeaderOffset ptrToMeta at *
  have hdiv := Nat.div_add_mod obj pageSize
  rw [Nat.mul_comm] at hdiv
  omega

theorem HeapInv.largeUsableSize_eq (hh : HeapInv h blk) (ha : blk obj = some ⟨n, .large⟩) :
    largeUsableSize h obj = n := by
  obtain ⟨block, off, hhead, hoff, haddr, rfl, -⟩ := hh.large_block ha
  have hfit := (hh.layout.fits _ _ _ (.large hhead)).2.2.2.2
  have hroom := hoff.room
  unfold addressSpace at hfit
  simp only [largeUsableSize, if_neg (hh.block_bounds ha).1, Heap.largeAt, hhead,
    largeHeaderOffset_eq haddr]
  rw [sub64_eq (show off ≤ block.mmapSize by omega) (by omega), sub64_eq (by omega) (by omega)]

/-- The heap without the header at `b`, its region in the cache or given back. -/
def Heap.dropLarge (h : Heap) (b : ℕ) (cache : List (ℕ × ℕ)) : Heap :=
  { h with heads := update h.heads b none, mem := store64 h.mem b 0, largeCache := cache }

theorem dropLarge_frame (h : Heap) (b : ℕ) (cache : List (ℕ × ℕ)) :
    (h.dropLarge b cache).arenas = h.arenas ∧ (h.dropLarge b cache).pools = h.pools :=
  ⟨rfl, rfl⟩

theorem HeapInv.dropLarge (cache : List (ℕ × ℕ)) (hh : HeapInv h blk)
    (ha : blk obj = some ⟨n, .large⟩)
    (hhead : h.heads (ptrToMeta obj) = some (.large block))
    (hone : ∀ a g, ptrToMeta a = ptrToMeta obj → blk a = some g → a = obj)
    (hsub : ∀ e ∈ cache, e ∈ h.largeCache ∨ e = (ptrToMeta obj, block.mmapSize))
    (hnodup : (cache.map Prod.fst).Nodup) :
    HeapInv (h.dropLarge (ptrToMeta obj) cache) (update blk obj none) ∧
      Preserved (update blk obj none) h.mem
        (h.dropLarge (ptrToMeta obj) cache).mem := by
  generalize hobj : ptrToMeta obj = b at *
  have hregion : h.Region .large b block.mmapSize := .large hhead
  obtain ⟨-, hn, -, hpos, -⟩ := hh.layout.fits _ _ _ hregion
  have hframe : SameOutside b block.mmapSize h.mem (h.dropLarge b cache).mem := by
    have hpage := Nat.le_of_dvd hpos hn
    unfold pageSize at hpage
    exact (sameOutside_store64 h.mem b 0).mono le_rfl (by omega)
  have hgone : ∀ a, ptrToMeta a = b → update blk obj none a = none := by
    intro a hbase
    by_cases heq : a = obj
    · rw [heq, update_self]
    · rw [update_of_ne heq, Option.eq_none_iff_forall_ne_some]
      exact fun g hg => heq (hone a g hbase hg)
  -- the kernel compares the whole heaps, memories first, where these two are left to it
  obtain ⟨harenas, hpools⟩ := dropLarge_frame h b cache
  constructor
  · refine hh.dropHeader harenas rfl ?_ ?_ hregion (by decide) hframe ?_ hgone
    · apply Layout.swap .cached hh.layout hregion
      · intro k c n' hr
        cases hr with
        | slab hhead' =>
          obtain ⟨hc, hhead'⟩ := dropped_head hhead'
          exact Or.inl ⟨.slab hhead', fun heq => absurd heq.1 (by decide)⟩
        | parked harena hmem =>
          exact Or.inl ⟨.parked harena (hpools ▸ hmem), fun heq => absurd heq.1 (by simp)⟩
        | large hhead' =>
          obtain ⟨hc, hhead'⟩ := dropped_head hhead'
          exact Or.inl ⟨.large hhead', fun heq => hc heq.2⟩
        | cached hmem =>
          rcases hsub _ hmem with hmem | heq
          · exact Or.inl ⟨.cached hmem, fun heq => absurd heq.1 (by decide)⟩
          · exact Or.inr ⟨rfl, congrArg Prod.fst heq, congrArg Prod.snd heq⟩
        | arena hu =>
          obtain ⟨hused, hbase⟩ := used_congr harenas
          rw [hbase]
          exact Or.inl ⟨.arena (hused.1 hu), fun heq => absurd heq.1 (by decide)⟩
      · exact hpools ▸ hh.layout.drained
      · exact hnodup
    · refine hh.lists.keep hpools fun c page hpage => ?_
      have hc : c ≠ b := by
        rintro rfl
        rw [hhead] at hpage
        cases hpage
      rw [← hpage]
      exact update_of_ne hc _ _
    · intro a hbase
      apply update_of_ne
      rintro rfl
      exact hbase hobj
  · apply hh.preserved_outside hregion (by decide) hframe
    intro a g hg
    have hbase : ptrToMeta a ≠ b := by
      intro hbase
      rw [hgone a hbase] at hg
      cases hg
    rw [update_of_ne (by rintro rfl; exact hbase hobj)] at hg
    exact ⟨hg, hbase⟩

/-- A free gives the block up, unless its red zone was written over. -/
theorem largeFree_spec (hh : HeapInv h blk) (ha : blk obj = some ⟨n, .large⟩) :
    Returns (∃ block, h.headerAt (ptrToMeta obj) = some (.large block) ∧ block.guardBytes ≠ 0)
      (largeFree h obj) fun h' =>
      HeapInv h' (update blk obj none) ∧
        Preserved (update blk obj none) h.mem h'.mem := by
  obtain ⟨block, off, hhead, hoff, haddr, -, hone⟩ := hh.large_block ha
  have hblock : h.largeAt (ptrToMeta obj) = block := by
    simp only [Heap.largeAt, hhead]
  have hregion : h.Region .large (ptrToMeta obj) block.mmapSize := .large hhead
  simp only [largeFree_eq, if_neg (hh.block_bounds ha).1, hblock]
  by_cases hguard : block.guardBytes = 0
  · obtain ⟨front, hput, hfront⟩ := largeCachePut_sublist h.largeCache (ptrToMeta obj) block.mmapSize
    have hdrop := HeapInv.dropLarge (front ++ [(ptrToMeta obj, block.mmapSize)]) hh ha hhead hone
    rw [hput]
    simp only [hguard, ne_eq, not_true_eq_false, if_true, if_false]
    refine returns_ok (hdrop (fun e he => ?_) ?_)
    · rcases List.mem_append.1 he with hmem | hmem
      · exact Or.inl (hfront.subset hmem)
      · exact Or.inr (List.mem_singleton.1 hmem)
    · rw [List.map_append, List.nodup_append]
      refine ⟨hh.layout.cached.sublist (hfront.map Prod.fst), List.nodup_singleton _, ?_⟩
      -- the region was no cached one while its block was there
      rintro b₁ hb₁ b₂ hb₂ rfl
      obtain ⟨⟨c, n'⟩, hmem, rfl⟩ := List.mem_map.1 hb₁
      obtain rfl := List.mem_singleton.1 hb₂
      have hcached : h.Region .cached (ptrToMeta obj) n' := .cached (hfront.subset hmem)
      have hpos := (hh.layout.fits _ _ _ hregion).2.2.2.1
      have hpos' := (hh.layout.fits _ _ _ hcached).2.2.2.1
      cases (hh.layout.apart _ _ _ _ _ _ hregion hcached (by omega) (by omega)).1
  · have hdrop := HeapInv.dropLarge h.largeCache hh ha hhead hone (fun e he => Or.inl he)
      hh.layout.cached
    simp only [hguard, ne_eq, not_false_eq_true, if_true, if_false]
    unfold largeCheckRedzone
    split_ifs
    · exact returns_ok hdrop
    · exact Or.inr ⟨⟨block, by simp [Heap.headerAt, hhead], hguard⟩, rfl⟩

end V8Malloc
