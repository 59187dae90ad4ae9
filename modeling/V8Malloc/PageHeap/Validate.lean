import V8Malloc.PageHeap.RegionMap
import Mathlib.Order.Interval.Set.Disjoint

/-!
# The validator of the region map

`v8m_page_heap_validate` walks the table once and compares each entry with the
one before it. It prints a line for each violation and returns how many lines
it printed. The walk begins at the second entry, so nothing ever looks at the
range of the first one.
-/
namespace V8Malloc.PageHeap

variable {T : RegionMap}

/-- What one printed line reports, with the values it shows. -/
inductive RegionIssue where
  | unsorted (index prevStart curStart : ℕ)
  | overlap (index prevEnd curStart : ℕ)
  | emptyRange (index start end_ : ℕ)
  deriving DecidableEq, Repr

/-- One round of the loop. -/
def regionIssuesAt (T : RegionMap) (i : ℕ) : List RegionIssue :=
  let prev := T.regions (i - 1)
  let cur := T.regions i
  (if cur.start < prev.start then [.unsorted i prev.start cur.start] else []) ++
  (if cur.start < prev.end_ then [.overlap i prev.end_ cur.start] else []) ++
  (if cur.start ≥ cur.end_ then [.emptyRange i cur.start cur.end_] else [])

/-- The lines on `stderr`, in order. -/
def validateLines (T : RegionMap) : List RegionIssue :=
  (List.range' 1 (T.regionCount - 1)).flatMap (regionIssuesAt T)

def pageHeapValidate (T : RegionMap) : ℕ := (validateLines T).length

/-! ### The well-formed tables -/

def RegionEntry.Nonempty (entry : RegionEntry) : Prop := entry.start < entry.end_

/-- Every entry is non-empty and starts at or above the end of the one before it. -/
structure RegionMap.Stacked (T : RegionMap) : Prop where
  nonempty : ∀ i < T.regionCount, (T.regions i).Nonempty
  above : ∀ i, i + 1 < T.regionCount → (T.regions i).end_ ≤ (T.regions (i + 1)).start

/-- The same about all pairs of entries. -/
structure RegionMap.Ascending (T : RegionMap) : Prop where
  nonempty : ∀ i < T.regionCount, (T.regions i).Nonempty
  disjoint : ∀ i j, i < j → j < T.regionCount →
    Disjoint (Set.Ico (T.regions i).start (T.regions i).end_)
      (Set.Ico (T.regions j).start (T.regions j).end_)
  lt : ∀ i j, i < j → j < T.regionCount → (T.regions i).start < (T.regions j).start

/-- The entries between two stacked ones only push them further apart. -/
theorem RegionMap.Stacked.end_le_start (hT : T.Stacked) {i j : ℕ} (hij : i < j)
    (hj : j < T.regionCount) : (T.regions i).end_ ≤ (T.regions j).start := by
  induction j, hij using Nat.le_induction with
  | base => exact hT.above i hj
  | succ j hij ih =>
    calc (T.regions i).end_ ≤ (T.regions j).start := ih (by omega)
      _ ≤ (T.regions j).end_ := (hT.nonempty j (by omega)).le
      _ ≤ (T.regions (j + 1)).start := hT.above j hj

theorem stacked_iff_ascending : T.Stacked ↔ T.Ascending := by
  constructor
  · intro hT
    refine ⟨hT.nonempty, ?_, ?_⟩
    · intro i j hij hj
      simp [Set.Ico_disjoint_Ico, hT.end_le_start hij hj]
    · intro i j hij hj
      exact lt_of_lt_of_le (hT.nonempty i (by omega)) (hT.end_le_start hij hj)
  · intro hT
    refine ⟨hT.nonempty, ?_⟩
    intro i hi
    -- if the next entry began below the end, its start would lie in both
    by_contra hlow
    have hstart := hT.lt i (i + 1) (by omega) hi
    have hnext := hT.nonempty (i + 1) hi
    exact Set.disjoint_left.1 (hT.disjoint i (i + 1) (by omega) hi)
      (show (T.regions (i + 1)).start ∈ _ from ⟨hstart.le, not_le.1 hlow⟩) ⟨le_rfl, hnext⟩

/-! ### What the walk finds -/

/-- The round for entry `i + 1` has something to report. -/
def RegionMap.FlawAfter (T : RegionMap) (i : ℕ) : Prop :=
  (T.regions (i + 1)).start < (T.regions i).start ∨
    (T.regions (i + 1)).start < (T.regions i).end_ ∨ ¬(T.regions (i + 1)).Nonempty

theorem regionIssuesAt_eq_nil (i : ℕ) : regionIssuesAt T (i + 1) = [] ↔ ¬T.FlawAfter i := by
  simp [regionIssuesAt, RegionMap.FlawAfter, RegionEntry.Nonempty, List.append_eq_nil_iff]

theorem pageHeapValidate_eq_zero :
    pageHeapValidate T = 0 ↔ ∀ i, i + 1 < T.regionCount → ¬T.FlawAfter i := by
  simp only [pageHeapValidate, validateLines, List.length_eq_zero_iff, List.flatMap_eq_nil_iff,
    List.mem_range'_1, ← regionIssuesAt_eq_nil]
  constructor
  · intro hall i hi
    exact hall (i + 1) (by omega)
  · intro hall i hi
    obtain ⟨i, rfl⟩ : ∃ k, i = k + 1 := ⟨i - 1, by omega⟩
    exact hall i (by omega)

/-- A table that passes lacks one thing only: a look at the first range. -/
theorem stacked_iff_validate : T.Stacked ↔
    pageHeapValidate T = 0 ∧ (0 < T.regionCount → (T.regions 0).Nonempty) := by
  rw [pageHeapValidate_eq_zero]
  constructor
  · intro hT
    refine ⟨?_, hT.nonempty 0⟩
    intro i hi
    have habove := hT.above i hi
    have hlow := hT.nonempty i (by omega)
    have hhigh := hT.nonempty (i + 1) hi
    simp only [RegionMap.FlawAfter, RegionEntry.Nonempty] at hlow hhigh ⊢
    omega
  · rintro ⟨hwalk, hfirst⟩
    simp only [RegionMap.FlawAfter, not_or, not_not, not_lt] at hwalk
    refine ⟨?_, fun i hi => (hwalk i hi).2.1⟩
    intro i hi
    cases i with
    | zero => exact hfirst hi
    | succ i => exact (hwalk i hi).2.2

/-- The walk decides both readings of well-formedness, unless the first range is empty and
nothing after it is wrong. -/
theorem pageHeapValidate_exact_iff (T : RegionMap) :
    ((pageHeapValidate T = 0 ↔ T.Stacked) ∧ (pageHeapValidate T = 0 ↔ T.Ascending)) ↔
      T.regionCount = 0 ∨ (T.regions 0).Nonempty ∨
        ∃ i, i + 1 < T.regionCount ∧ T.FlawAfter i := by
  rw [← stacked_iff_ascending, and_self, stacked_iff_validate]
  have hflaw : (∃ i, i + 1 < T.regionCount ∧ T.FlawAfter i) ↔ ¬pageHeapValidate T = 0 := by
    simp [pageHeapValidate_eq_zero]
  rw [hflaw, Nat.pos_iff_ne_zero]
  tauto

/-- A table of one entry that ends where it starts. -/
def emptyFirstMap : RegionMap :=
  ⟨fun _ => ⟨pageSize, pageSize, regionNodeUnbound, false, 0⟩, 1, 0⟩

/-- The walk has no round for it. -/
theorem emptyFirstMap_passes :
    pageHeapValidate emptyFirstMap = 0 ∧ ¬emptyFirstMap.Stacked ∧ ¬emptyFirstMap.Ascending := by
  have hempty : ¬(emptyFirstMap.regions 0).Nonempty := by
    simp [emptyFirstMap, RegionEntry.Nonempty]
  refine ⟨rfl, ?_, ?_⟩
  · intro hT
    exact hempty (hT.nonempty 0 (by decide))
  · intro hT
    exact hempty (hT.nonempty 0 (by decide))

end V8Malloc.PageHeap
