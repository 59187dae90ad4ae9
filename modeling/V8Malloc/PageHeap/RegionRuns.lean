import V8Malloc.PageHeap.RegionMap

/-!
# Exactness of the region map

`Represents T S` says that the filled part of the table is a sorted list of
disjoint nonempty ranges whose set is `S`. Registration and unregistration
keep it, so it holds along every run from the empty table.
-/
namespace V8Malloc.PageHeap

open PartitionPoint

/-- The range stored in cell `i`. -/
def RegionMap.range (T : RegionMap) (i : ℕ) : ℕ × ℕ := ((T.regions i).start, (T.regions i).end_)

structure Represents (T : RegionMap) (S : Set (ℕ × ℕ)) : Prop where
  bounded : T.regionCount ≤ regionMapCapacity
  nonempty : ∀ i < T.regionCount, (T.range i).1 < (T.range i).2
  ordered : ∀ i j, i < j → j < T.regionCount → (T.range i).2 ≤ (T.range j).1
  mem_iff : ∀ r, r ∈ S ↔ ∃ i < T.regionCount, T.range i = r

variable {T : RegionMap} {S : Set (ℕ × ℕ)}

@[simp] theorem bumpSeq_regions (T : RegionMap) : T.bumpSeq.regions = T.regions := rfl
@[simp] theorem bumpSeq_regionCount (T : RegionMap) : T.bumpSeq.regionCount = T.regionCount := rfl
@[simp] theorem bumpSeq_range (T : RegionMap) : T.bumpSeq.range = T.range := rfl
@[simp] theorem range_fst (T : RegionMap) (i : ℕ) : (T.range i).1 = (T.regions i).start := rfl
@[simp] theorem range_snd (T : RegionMap) (i : ℕ) : (T.range i).2 = (T.regions i).end_ := rfl
@[simp] theorem regionLowerBound_bumpSeq (T : RegionMap) (start : ℕ) :
    regionLowerBound T.bumpSeq start = regionLowerBound T start := rfl

theorem represents_empty : Represents RegionMap.empty ∅ where
  bounded := Nat.zero_le _
  nonempty := by simp [RegionMap.empty]
  ordered := by simp [RegionMap.empty]
  mem_iff := by simp [RegionMap.empty]

theorem Represents.start_lt (h : Represents T S) {i j : ℕ} (hij : i < j)
    (hj : j < T.regionCount) : (T.regions i).start < (T.regions j).start :=
  (h.nonempty i (hij.trans hj)).trans_le (h.ordered i j hij hj)

theorem Represents.lowerBound_isPoint (h : Represents T S) (start : ℕ) :
    IsPoint (fun mid => decide ((T.regions mid).start < start)) T.regionCount
      (regionLowerBound T start) := by
  apply search_isPoint
  intro i j hij hj hb
  simp only [decide_eq_true_eq] at hb ⊢
  exact (h.start_lt hij hj).trans hb

theorem Represents.atOrBelow_isPoint (h : Represents T S) (addr : ℕ) :
    IsPoint (fun mid => decide ((T.regions mid).start ≤ addr)) T.regionCount
      (regionsAtOrBelow T addr) := by
  apply search_isPoint
  intro i j hij hj hb
  simp only [decide_eq_true_eq] at hb ⊢
  exact (h.start_lt hij hj).le.trans hb

/-! ### Registration -/

/-- Opening a gap at `idx`: cells before it stay, cells from it on move up by one. -/
theorem insert_apply {α : Type*} (cells : ℕ → α) (entry : α) {idx count i : ℕ}
    (hidx : idx ≤ count) (hi : i < count + 1) :
    Function.update (if idx < count then memmove cells (idx + 1) idx (count - idx) else cells)
      idx entry i = if i < idx then cells i else if i = idx then entry else cells (i - 1) := by
  rcases Nat.lt_trichotomy i idx with hlt | rfl | hgt
  · rw [Function.update_of_ne hlt.ne, if_pos hlt]
    split_ifs
    · exact if_neg (by omega)
    · rfl
  · simp
  · have hroom : idx < count := by omega
    rw [Function.update_of_ne hgt.ne', if_pos hroom, memmove, if_pos (by omega),
      if_neg (by omega), if_neg hgt.ne']
    congr 1
    omega

theorem regionRegister_full (ptr bytes : ℕ) (isAnchor : Bool)
    (hfull : regionMapCapacity ≤ T.regionCount) :
    regionRegisterWithFlags T ptr bytes isAnchor = (-1, T) := if_pos hfull

/-- What a successful registration leaves in the table. -/
theorem regionRegister_ok (h : Represents T S) (ptr bytes : ℕ) (isAnchor : Bool)
    (hroom : T.regionCount < regionMapCapacity) (hwrap : ptr + bytes < addressSpace) :
    let out := regionRegisterWithFlags T ptr bytes isAnchor
    let idx := regionLowerBound T ptr
    out.1 = 0 ∧ out.2.regionCount = T.regionCount + 1 ∧
      out.2.regionSeq = (T.regionSeq + 2) % 2 ^ 64 ∧
      ∀ i < T.regionCount + 1, out.2.range i =
        if i < idx then T.range i
        else if i = idx then (ptr, ptr + bytes) else T.range (i - 1) := by
  have hidx := (h.lowerBound_isPoint ptr).le
  simp only [regionRegisterWithFlags, ge_iff_le, not_le.mpr hroom, if_false]
  refine ⟨trivial, rfl, ?_, ?_⟩
  · simp only [RegionMap.bumpSeq]
    omega
  · intro i hi
    refine (congrArg (fun e : RegionEntry => (e.start, e.end_))
      (insert_apply T.regions _ hidx hi)).trans ?_
    split_ifs
    · rfl
    · rw [Nat.mod_eq_of_lt hwrap]
    · rfl

/-- A range that meets none of the stored ones fits between its neighbours. -/
theorem regionRegister_represents (h : Represents T S) (ptr bytes : ℕ) (isAnchor : Bool)
    (hroom : T.regionCount < regionMapCapacity) (hpos : 0 < bytes)
    (hwrap : ptr + bytes < addressSpace)
    (hdisj : ∀ r ∈ S, ptr + bytes ≤ r.1 ∨ r.2 ≤ ptr) :
    Represents (regionRegisterWithFlags T ptr bytes isAnchor).2 (insert (ptr, ptr + bytes) S) := by
  obtain ⟨-, hcount, -, hrange⟩ := regionRegister_ok h ptr bytes isAnchor hroom hwrap
  have hpoint := h.lowerBound_isPoint ptr
  set T' := (regionRegisterWithFlags T ptr bytes isAnchor).2
  set idx := regionLowerBound T ptr
  have hbefore : ∀ i < idx, (T.range i).2 ≤ ptr := by
    intro i hi
    have hlt : (T.range i).1 < ptr := by simpa using hpoint.left i hi
    have hin := hi.trans_le hpoint.le
    rcases hdisj _ ((h.mem_iff _).2 ⟨i, hin, rfl⟩) with hd | hd
    · omega
    · exact hd
  have hafter : ∀ i, idx ≤ i → i < T.regionCount → ptr + bytes ≤ (T.range i).1 := by
    intro i hi hin
    have hge : ptr ≤ (T.range i).1 := by simpa using hpoint.right i hi hin
    have hne := h.nonempty i hin
    rcases hdisj _ ((h.mem_iff _).2 ⟨i, hin, rfl⟩) with hd | hd
    · exact hd
    · omega
  refine ⟨by omega, ?_, ?_, ?_⟩
  · intro i hi
    rw [hrange i (by omega)]
    split_ifs with h1 h2
    · exact h.nonempty i (h1.trans_le hpoint.le)
    · exact Nat.lt_add_of_pos_right hpos
    · exact h.nonempty (i - 1) (by omega)
  · intro i j hij hj
    rw [hrange i (by omega), hrange j (by omega)]
    have hle := hpoint.le
    split_ifs
    · exact h.ordered i j hij (by omega)
    · exact hbefore i ‹_›
    · exact (hbefore i ‹_›).trans ((Nat.le_add_right _ _).trans (hafter (j - 1) (by omega) (by omega)))
    all_goals first
      | omega
      | exact hafter (j - 1) (by omega) (by omega)
      | exact h.ordered (i - 1) (j - 1) (by omega) (by omega)
  · intro r
    rw [Set.mem_insert_iff, h.mem_iff, hcount]
    constructor
    · rintro (rfl | ⟨i, hi, rfl⟩)
      · exact ⟨idx, Nat.lt_succ_of_le hpoint.le, by rw [hrange idx (by have := hpoint.le; omega)]; simp⟩
      · by_cases hlt : i < idx
        · exact ⟨i, by omega, by rw [hrange i (by omega), if_pos hlt]⟩
        · refine ⟨i + 1, by omega, ?_⟩
          rw [hrange (i + 1) (by omega), if_neg (by omega), if_neg (by omega), Nat.add_sub_cancel]
    · rintro ⟨i, hi, rfl⟩
      rw [hrange i hi]
      split_ifs with h1 h2
      · exact Or.inr ⟨i, h1.trans_le hpoint.le, rfl⟩
      · exact Or.inl rfl
      · exact Or.inr ⟨i - 1, by omega, rfl⟩

/-! ### Unregistration -/

theorem remove_apply {α : Type*} (cells : ℕ → α) (idx : ℕ) {count i : ℕ} (hi : i < count - 1) :
    (if count - idx - 1 > 0 then memmove cells idx (idx + 1) (count - idx - 1) else cells) i =
      if i < idx then cells i else cells (i + 1) := by
  by_cases hlt : i < idx
  · rw [if_pos hlt]
    split_ifs
    · exact if_neg (by omega)
    · rfl
  · rw [if_neg hlt, if_pos (by omega), memmove, if_pos (by omega)]
    congr 1
    omega

theorem regionFindByStart_some {start idx : ℕ} (hf : regionFindByStart T start = some idx) :
    idx < T.regionCount ∧ (T.range idx).1 = start := by
  simp only [regionFindByStart] at hf
  split_ifs at hf with hc
  cases hf
  exact hc

theorem Represents.findByStart (h : Represents T S) {start idx : ℕ} (hidx : idx < T.regionCount)
    (hs : (T.range idx).1 = start) : regionFindByStart T start = some idx := by
  have hpoint := h.lowerBound_isPoint start
  have heq : regionLowerBound T start = idx := by
    refine hpoint.unique ⟨hidx.le, ?_, ?_⟩
    · intro i hi
      simpa [← hs] using h.start_lt hi hidx
    · intro i hi hin
      rcases hi.eq_or_lt with rfl | hlt
      · simp [← hs]
      · simpa [← hs] using (h.start_lt hlt hin).le
  simp only [regionFindByStart, heq]
  exact if_pos ⟨hidx, hs⟩

theorem regionUnregister_absent {ptr : ℕ} (hf : regionFindByStart T ptr = none) :
    (regionUnregisterWithFlags T ptr).2 = T := by
  simp [regionUnregisterWithFlags, hf]

theorem regionUnregister_present {ptr idx : ℕ} (hf : regionFindByStart T ptr = some idx) :
    let T' := (regionUnregisterWithFlags T ptr).2
    T'.regionCount = T.regionCount - 1 ∧ T'.regionSeq = (T.regionSeq + 2) % 2 ^ 64 ∧
      ∀ i < T.regionCount - 1, T'.range i = if i < idx then T.range i else T.range (i + 1) := by
  simp only [regionUnregisterWithFlags, hf]
  refine ⟨rfl, ?_, ?_⟩
  · simp only [RegionMap.bumpSeq]
    omega
  · intro i hi
    refine (congrArg (fun e : RegionEntry => (e.start, e.end_))
      (remove_apply T.regions idx hi)).trans ?_
    split_ifs <;> rfl

theorem regionUnregister_represents (h : Represents T S) (ptr : ℕ) :
    Represents (regionUnregisterWithFlags T ptr).2 {r ∈ S | r.1 ≠ ptr} := by
  cases hf : regionFindByStart T ptr with
  | none =>
    have hkeep : {r ∈ S | r.1 ≠ ptr} = S := by
      refine Set.sep_eq_self_iff_mem_true.2 ?_
      rintro r hr rfl
      obtain ⟨i, hi, rfl⟩ := (h.mem_iff r).1 hr
      rw [h.findByStart hi rfl] at hf
      cases hf
    rw [regionUnregister_absent hf, hkeep]
    exact h
  | some idx =>
    obtain ⟨hidx, hs⟩ := regionFindByStart_some hf
    obtain ⟨hcount, -, hrange⟩ := regionUnregister_present hf
    set T' := (regionUnregisterWithFlags T ptr).2
    have hother : ∀ i < T.regionCount, i ≠ idx → (T.range i).1 ≠ ptr := by
      intro i hi hne heq
      rcases Nat.lt_or_gt_of_ne hne with hlt | hgt
      · exact (h.start_lt hlt hidx).ne (heq.trans hs.symm)
      · exact (h.start_lt hgt hi).ne (hs.trans heq.symm)
    refine ⟨by have := h.bounded; omega, ?_, ?_, ?_⟩
    · intro i hi
      rw [hrange i (by omega)]
      split_ifs
      · exact h.nonempty i (by omega)
      · exact h.nonempty (i + 1) (by omega)
    · intro i j hij hj
      rw [hrange i (by omega), hrange j (by omega)]
      split_ifs <;> first | omega | exact h.ordered _ _ (by omega) (by omega)
    · intro r
      rw [Set.mem_sep_iff, h.mem_iff, hcount]
      constructor
      · rintro ⟨⟨i, hi, rfl⟩, hne⟩
        rcases Nat.lt_trichotomy i idx with hlt | rfl | hgt
        · exact ⟨i, by omega, by rw [hrange i (by omega), if_pos hlt]⟩
        · exact absurd hs hne
        · refine ⟨i - 1, by omega, ?_⟩
          rw [hrange (i - 1) (by omega), if_neg (by omega), Nat.sub_add_cancel (by omega)]
      · rintro ⟨i, hi, rfl⟩
        rw [hrange i hi]
        split_ifs
        · exact ⟨⟨i, by omega, rfl⟩, hother i (by omega) (by omega)⟩
        · exact ⟨⟨i + 1, by omega, rfl⟩, hother (i + 1) (by omega) (by omega)⟩

/-! ### Ownership -/

/-- The region found by the search is the only one that can contain the address. -/
theorem Represents.owned_iff (h : Represents T S) (addr : ℕ) :
    (∃ r ∈ S, r.1 ≤ addr ∧ addr < r.2) ↔
      0 < regionsAtOrBelow T addr ∧ addr < (T.range (regionsAtOrBelow T addr - 1)).2 := by
  have hpoint := h.atOrBelow_isPoint addr
  set low := regionsAtOrBelow T addr
  constructor
  · rintro ⟨r, hr, hle, hlt⟩
    obtain ⟨i, hi, rfl⟩ := (h.mem_iff r).1 hr
    have hil : i < low := by
      by_contra hge
      have := hpoint.right i (by omega) hi
      simp only [decide_eq_false_iff_not] at this
      exact this hle
    refine ⟨by omega, ?_⟩
    rcases Nat.lt_or_ge i (low - 1) with hlt' | hge
    · -- a later region would start at or below `addr`, past the end of region `i`
      have hlast := hpoint.left (low - 1) (by omega)
      have := h.ordered i (low - 1) hlt' (by have := hpoint.le; omega)
      simp only [decide_eq_true_eq] at hlast
      simp only [range_fst, range_snd] at *
      omega
    · obtain rfl : i = low - 1 := by omega
      exact hlt
  · rintro ⟨hpos, hlt⟩
    have hlast := hpoint.left (low - 1) (by omega)
    simp only [decide_eq_true_eq] at hlast
    exact ⟨_, (h.mem_iff _).2 ⟨low - 1, by have := hpoint.le; omega, rfl⟩, hlast, hlt⟩

theorem Represents.owns_iff (h : Represents T S) {ptr : ℕ} (hptr : ptr ≠ 0) :
    pageHeapOwns T ptr = true ↔ ∃ r ∈ S, r.1 ≤ ptr ∧ ptr < r.2 := by
  rw [h.owned_iff]
  simp only [pageHeapOwns, hptr, if_false, gt_iff_lt]
  split_ifs with hpos
  · simp [hpos]
  · simp [hpos]

/-! ### Runs from the empty table -/

/-- Tables reached by registrations of fresh ranges and unregistrations, with the
set of ranges registered successfully and not yet unregistered. -/
inductive RegionRun : RegionMap → Set (ℕ × ℕ) → Prop
  | empty : RegionRun .empty ∅
  | register {T : RegionMap} {S : Set (ℕ × ℕ)} (ptr bytes : ℕ) (isAnchor : Bool) : RegionRun T S →
      0 < bytes → ptr + bytes < addressSpace →
      (∀ r ∈ S, ptr + bytes ≤ r.1 ∨ r.2 ≤ ptr) →
      RegionRun (regionRegisterWithFlags T ptr bytes isAnchor).2
        (if (regionRegisterWithFlags T ptr bytes isAnchor).1 = 0
          then insert (ptr, ptr + bytes) S else S)
  | unregister {T : RegionMap} {S : Set (ℕ × ℕ)} (ptr : ℕ) : RegionRun T S →
      RegionRun (regionUnregisterWithFlags T ptr).2 {r ∈ S | r.1 ≠ ptr}

theorem register_step (h : Represents T S) (ptr bytes : ℕ) (isAnchor : Bool)
    (hpos : 0 < bytes) (hwrap : ptr + bytes < addressSpace)
    (hdisj : ∀ r ∈ S, ptr + bytes ≤ r.1 ∨ r.2 ≤ ptr) :
    Represents (regionRegisterWithFlags T ptr bytes isAnchor).2
      (if (regionRegisterWithFlags T ptr bytes isAnchor).1 = 0
        then insert (ptr, ptr + bytes) S else S) := by
  rcases Nat.lt_or_ge T.regionCount regionMapCapacity with hroom | hfull
  · rw [if_pos (regionRegister_ok h ptr bytes isAnchor hroom hwrap).1]
    exact regionRegister_represents h ptr bytes isAnchor hroom hpos hwrap hdisj
  · rw [regionRegister_full ptr bytes isAnchor hfull]
    exact h

theorem RegionRun.represents (run : RegionRun T S) : Represents T S := by
  induction run with
  | empty => exact represents_empty
  | register ptr bytes isAnchor _ hpos hwrap hdisj ih =>
    exact register_step ih ptr bytes isAnchor hpos hwrap hdisj
  | unregister ptr _ ih => exact regionUnregister_represents ih ptr

/-- The region map is exact along every run. -/
theorem regionMap_exact (run : RegionRun T S) :
    (∀ i j, i < j → j < T.regionCount → (T.regions i).start < (T.regions j).start) ∧
    (∀ i < T.regionCount, (T.regions i).start < (T.regions i).end_) ∧
    (∀ i j, i < T.regionCount → j < T.regionCount → i ≠ j →
      Disjoint (Set.Ico (T.regions i).start (T.regions i).end_)
        (Set.Ico (T.regions j).start (T.regions j).end_)) ∧
    S = {r | ∃ i < T.regionCount, r = ((T.regions i).start, (T.regions i).end_)} ∧
    (T.regionCount ≤ regionMapCapacity) ∧
    (T.regionCount = regionMapCapacity → ∀ ptr bytes isAnchor,
      regionRegisterWithFlags T ptr bytes isAnchor = (-1, T)) ∧
    (T.regionCount < regionMapCapacity → ∀ ptr bytes isAnchor,
      (regionRegisterWithFlags T ptr bytes isAnchor).1 = 0) ∧
    (∀ ptr, (∀ r ∈ S, r.1 ≠ ptr) → (regionUnregisterWithFlags T ptr).2 = T) ∧
    (∀ ptr, ptr ≠ 0 → (pageHeapOwns T ptr = true ↔ ∃ r ∈ S, r.1 ≤ ptr ∧ ptr < r.2)) := by
  have h := run.represents
  refine ⟨fun i j hij hj => h.start_lt hij hj, h.nonempty, ?_, ?_, h.bounded, ?_, ?_, ?_, ?_⟩
  · intro i j hi hj hne
    refine Set.disjoint_left.2 fun x hx hx' => ?_
    simp only [Set.mem_Ico] at hx hx'
    rcases Nat.lt_or_gt_of_ne hne with hlt | hgt
    · have := h.ordered i j hlt hj
      simp only [range_fst, range_snd] at this
      omega
    · have := h.ordered j i hgt hi
      simp only [range_fst, range_snd] at this
      omega
  · ext r
    rw [h.mem_iff]
    exact ⟨fun ⟨i, hi, e⟩ => ⟨i, hi, e.symm⟩, fun ⟨i, hi, e⟩ => ⟨i, hi, e.symm⟩⟩
  · exact fun hfull ptr bytes isAnchor => regionRegister_full ptr bytes isAnchor hfull.ge
  · intro hroom ptr bytes isAnchor
    simp [regionRegisterWithFlags, not_le.mpr hroom]
  · intro ptr habs
    cases hf : regionFindByStart T ptr with
    | none => exact regionUnregister_absent hf
    | some idx =>
      obtain ⟨hidx, hs⟩ := regionFindByStart_some hf
      exact absurd hs (habs _ ((h.mem_iff _).2 ⟨idx, hidx, rfl⟩))
  · exact fun ptr hptr => h.owns_iff hptr

/-- Three regions, mapped out of order, of which the lowest is unmapped again. -/
theorem regionMap_exact_threeRegions :
    let T := (regionRegisterWithFlags (regionRegisterWithFlags (regionRegisterWithFlags .empty
      262144 65536 false).2 65536 65536 false).2 131072 65536 false).2
    pageHeapOwns T 70000 = true ∧
      pageHeapOwns (regionUnregisterWithFlags T 65536).2 140000 = true ∧
      pageHeapOwns (regionUnregisterWithFlags T 65536).2 70000 = false := by
  intro T
  have run₁ := RegionRun.register 262144 65536 false .empty (by decide) (by decide) (by simp)
  rw [if_pos (by decide)] at run₁
  have run₂ := RegionRun.register 65536 65536 false run₁ (by decide) (by decide) (by simp)
  rw [if_pos (by decide)] at run₂
  have run₃ := RegionRun.register 131072 65536 false run₂ (by decide) (by decide) (by simp)
  rw [if_pos (by decide)] at run₃
  have owns₃ : ∀ ptr, ptr ≠ 0 → (pageHeapOwns T ptr = true ↔ _) :=
    (regionMap_exact run₃).2.2.2.2.2.2.2.2
  have owns₄ : ∀ ptr, ptr ≠ 0 → (pageHeapOwns (regionUnregisterWithFlags T 65536).2 ptr = true ↔ _) :=
    (regionMap_exact (run₃.unregister 65536)).2.2.2.2.2.2.2.2
  refine ⟨(owns₃ 70000 (by decide)).2 ⟨(65536, 131072), by simp, by decide, by decide⟩,
    (owns₄ 140000 (by decide)).2 ⟨(131072, 196608), by simp, by decide, by decide⟩, ?_⟩
  rw [← Bool.not_eq_true, owns₄ 70000 (by decide)]
  rintro ⟨r, ⟨hr, hne⟩, hlo, hhi⟩
  rcases hr with rfl | rfl | rfl | hr
  · exact absurd hlo (by decide)
  · exact hne rfl
  · exact absurd hlo (by decide)
  · exact hr

end V8Malloc.PageHeap
