import Mathlib.Algebra.BigOperators.Group.Finset.Basic
import V8Malloc.PageHeap.AcquireSpec

/-!
# Bytes per NUMA node

The byte count of a node is kept beside the region table and must agree with the
nodes recorded there. Allocation and release keep the agreement. A rebalance
pass that migrates a region stamps it with another node and leaves both counts
alone, so the agreement holds along the runs in which no pass migrates.
-/
namespace V8Malloc.PageHeap

open Function

variable {M : Machine} {opts : Options} {os : OsAnswers} {h h' h₁ : HeapState}
variable {T : RegionMap} {S : Set (ℕ × ℕ)} {p bytes alignment n : ℕ}

/-- What a region adds to the count of node `n`. -/
def RegionEntry.load (e : RegionEntry) (n : ℕ) : ℕ := if e.node = n then e.end_ - e.start else 0

/-- The sizes of the registered regions recorded on node `n`. -/
def nodeLoad (T : RegionMap) (n : ℕ) : ℕ :=
  ∑ i ∈ Finset.range T.regionCount, (T.regions i).load n

/-! ### Sums over table cells -/

theorem sum_insert_cell (f : ℕ → ℕ) (e : ℕ) {idx count : ℕ} (hidx : idx ≤ count) :
    (∑ i ∈ Finset.range (count + 1), if i < idx then f i else if i = idx then e else f (i - 1)) =
      (∑ i ∈ Finset.range count, f i) + e := by
  induction count with
  | zero =>
    obtain rfl : idx = 0 := by omega
    simp
  | succ count ih =>
    rw [Finset.sum_range_succ]
    rcases hidx.eq_or_lt with rfl | hlt
    · rw [if_neg (lt_irrefl _), if_pos rfl]
      congr 1
      exact Finset.sum_congr rfl fun i hi => if_pos (Finset.mem_range.1 hi)
    · rw [ih (by omega), if_neg (by omega), if_neg (by omega), Finset.sum_range_succ f]
      simp only [Nat.add_sub_cancel]
      omega

theorem sum_remove_cell (f : ℕ → ℕ) {idx count : ℕ} (hidx : idx < count) :
    (∑ i ∈ Finset.range (count - 1), if i < idx then f i else f (i + 1)) + f idx =
      ∑ i ∈ Finset.range count, f i := by
  obtain ⟨c, rfl⟩ : ∃ c, count = c + 1 := ⟨count - 1, by omega⟩
  rw [Nat.add_sub_cancel, ← sum_insert_cell _ (f idx) (show idx ≤ c by omega)]
  refine Finset.sum_congr rfl fun i _ => ?_
  rcases Nat.lt_trichotomy i idx with hlt | rfl | hgt
  · rw [if_pos hlt, if_pos hlt]
  · rw [if_neg (lt_irrefl _), if_pos rfl]
  · rw [if_neg (by omega), if_neg (by omega), if_neg (by omega), Nat.sub_add_cancel (by omega)]

theorem sum_update_cell (g : RegionEntry → ℕ) (cells : ℕ → RegionEntry) (e : RegionEntry)
    {idx count : ℕ} (hidx : idx < count) :
    (∑ i ∈ Finset.range count, g (update cells idx e i)) + g (cells idx) =
      (∑ i ∈ Finset.range count, g (cells i)) + g e := by
  have hmem : idx ∈ Finset.range count := Finset.mem_range.2 hidx
  rw [← Finset.add_sum_erase _ _ hmem, ← Finset.add_sum_erase _ (fun i => g (cells i)) hmem,
    update_self]
  have hrest : ∑ i ∈ (Finset.range count).erase idx, g (update cells idx e i) =
      ∑ i ∈ (Finset.range count).erase idx, g (cells i) :=
    Finset.sum_congr rfl fun i hi => by rw [update_of_ne (Finset.ne_of_mem_erase hi)]
  omega

/-! ### Loads of the table operations -/

theorem nodeLoad_register (hr : Represents T S) {isAnchor : Bool} {T' : RegionMap}
    (hreg : regionRegisterWithFlags T p bytes isAnchor = (0, T')) (hn : n ≠ regionNodeUnbound) :
    nodeLoad T' n = nodeLoad T n := by
  have hroom : ¬T.regionCount ≥ regionMapCapacity := by
    intro hfull
    simp [regionRegister_full p bytes isAnchor hfull] at hreg
  simp only [regionRegisterWithFlags, hroom, if_false, Prod.mk.injEq, true_and] at hreg
  subst hreg
  have hidx := (hr.lowerBound_isPoint p).le
  have hcells := sum_insert_cell (fun i => (T.regions i).load n) 0 hidx
  rw [Nat.add_zero] at hcells
  refine Eq.trans (Finset.sum_congr rfl fun i hi => ?_) hcells
  refine (congrArg (RegionEntry.load · n)
    (insert_apply T.regions _ hidx (Finset.mem_range.1 hi))).trans ?_
  split_ifs
  · rfl
  · exact if_neg hn.symm
  · rfl

theorem nodeLoad_unregister {idx : ℕ} (hf : regionFindByStart T p = some idx) :
    nodeLoad (regionUnregisterWithFlags T p).2 n + (T.regions idx).load n = nodeLoad T n := by
  obtain ⟨hidx, -⟩ := regionFindByStart_some hf
  rw [nodeLoad, nodeLoad, ← sum_remove_cell (fun i => (T.regions i).load n) hidx]
  congr 1
  simp only [regionUnregisterWithFlags, hf]
  refine Finset.sum_congr rfl fun i hi => ?_
  refine (congrArg (RegionEntry.load · n)
    (remove_apply T.regions idx (Finset.mem_range.1 hi))).trans ?_
  split_ifs <;> rfl

theorem nodeLoad_update {idx : ℕ} {f : RegionEntry → RegionEntry}
    (hf : regionFindByStart T p = some idx) :
    nodeLoad (regionUpdate T p f) n + (T.regions idx).load n =
      nodeLoad T n + (f (T.regions idx)).load n := by
  simp only [regionUpdate, hf]
  exact sum_update_cell (RegionEntry.load · n) T.regions _ (regionFindByStart_some hf).1

theorem nodeLoad_update_eq {f : RegionEntry → RegionEntry}
    (hf : ∀ e : RegionEntry, (f e).load n = e.load n) :
    nodeLoad (regionUpdate T p f) n = nodeLoad T n := by
  cases hfind : regionFindByStart T p with
  | none => simp [regionUpdate, hfind]
  | some idx =>
    have hsum := nodeLoad_update (n := n) (f := f) hfind
    rw [hf] at hsum
    omega

theorem regionUpdate_node {f : RegionEntry → RegionEntry} (hf : ∀ e, (f e).node = e.node) (i : ℕ) :
    ((regionUpdate T p f).regions i).node = (T.regions i).node := by
  unfold regionUpdate
  split
  · rfl
  · rename_i idx _
    by_cases hi : i = idx
    · subst hi
      simp only [update_self, hf]
    · simp only [update_of_ne hi]

/-- Changing what is recorded with a region moves no region. -/
theorem regionUpdate_range {f : RegionEntry → RegionEntry}
    (hf : ∀ e, (f e).start = e.start ∧ (f e).end_ = e.end_) :
    (regionUpdate T p f).range = T.range ∧
      (regionUpdate T p f).regionCount = T.regionCount := by
  unfold regionUpdate
  split
  · exact ⟨rfl, rfl⟩
  · rename_i idx _
    refine ⟨funext fun i => ?_, rfl⟩
    by_cases hi : i = idx
    · subst hi
      simp only [RegionMap.range, update_self, hf]
    · simp only [RegionMap.range, update_of_ne hi]

theorem Represents.congr {T' : RegionMap} (hr : Represents T S) (hrange : T'.range = T.range)
    (hcount : T'.regionCount = T.regionCount) : Represents T' S where
  bounded := hcount ▸ hr.bounded
  nonempty := by rw [hcount, hrange]; exact hr.nonempty
  ordered := by rw [hcount, hrange]; exact hr.ordered
  mem_iff := by rw [hcount, hrange]; exact hr.mem_iff

theorem Represents.regionUpdate (hr : Represents T S) {f : RegionEntry → RegionEntry}
    (hf : ∀ e, (f e).start = e.start ∧ (f e).end_ = e.end_) :
    Represents (regionUpdate T p f) S :=
  hr.congr (regionUpdate_range hf).1 (regionUpdate_range hf).2

/-! ### Where the entries go -/

theorem regionRegister_entry (hr : Represents T S) {isAnchor : Bool} {T' : RegionMap}
    (hreg : regionRegisterWithFlags T p bytes isAnchor = (0, T')) :
    T.regionCount < regionMapCapacity ∧ ∃ i < T'.regionCount, T'.regions i =
      ⟨p, (p + bytes) % addressSpace, regionNodeUnbound, isAnchor, 0⟩ := by
  have hroom : ¬T.regionCount ≥ regionMapCapacity := by
    intro hfull
    simp [regionRegister_full p bytes isAnchor hfull] at hreg
  have hidx := (hr.lowerBound_isPoint p).le
  simp only [regionRegisterWithFlags, hroom, if_false, Prod.mk.injEq, true_and] at hreg
  subst hreg
  refine ⟨not_le.1 hroom, regionLowerBound T p, Nat.lt_succ_of_le hidx, ?_⟩
  exact update_self _ _ _

theorem register_cells (hr : Represents T S) {isAnchor : Bool} {T' : RegionMap}
    (hreg : regionRegisterWithFlags T p bytes isAnchor = (0, T')) :
    T'.regionCount = T.regionCount + 1 ∧ ∀ k < T.regionCount + 1, T'.regions k =
      if k < regionLowerBound T p then T.regions k
      else if k = regionLowerBound T p then
        ⟨p, (p + bytes) % addressSpace, regionNodeUnbound, isAnchor, 0⟩
      else T.regions (k - 1) := by
  have hroom := (regionRegister_entry hr hreg).1
  simp only [regionRegisterWithFlags, ge_iff_le, not_le.2 hroom, if_false, Prod.mk.injEq,
    true_and] at hreg
  subst hreg
  exact ⟨rfl, fun k hk => insert_apply T.regions _ (hr.lowerBound_isPoint p).le hk⟩

/-- Registration moves no entry to the left. -/
theorem register_moves (hr : Represents T S) {isAnchor : Bool} {T' : RegionMap}
    (hreg : regionRegisterWithFlags T p bytes isAnchor = (0, T')) {j : ℕ}
    (hj : j < T.regionCount) :
    ∃ k, j ≤ k ∧ k < T'.regionCount ∧ T'.regions k = T.regions j := by
  obtain ⟨hcount, hcells⟩ := register_cells hr hreg
  by_cases hlt : j < regionLowerBound T p
  · exact ⟨j, le_rfl, by omega, by rw [hcells j (by omega), if_pos hlt]⟩
  · refine ⟨j + 1, by omega, by omega, ?_⟩
    rw [hcells (j + 1) (by omega), if_neg (by omega), if_neg (by omega), Nat.add_sub_cancel]

/-- Removal keeps every other entry, and those below the removed one where they were. -/
theorem unregister_moves (hr : Represents T S) {i j : ℕ} (hi : i < T.regionCount)
    (hstart : (T.regions i).start = p) (hj : j < T.regionCount) (hne : (T.regions j).start ≠ p) :
    ∃ k < (regionUnregisterWithFlags T p).2.regionCount,
      (regionUnregisterWithFlags T p).2.regions k = T.regions j ∧
        ((T.regions j).start < p → k = j) := by
  have hfind := hr.findByStart hi hstart
  have hcells : ∀ k < T.regionCount - 1, (regionUnregisterWithFlags T p).2.regions k =
      if k < i then T.regions k else T.regions (k + 1) := by
    intro k hk
    simp only [regionUnregisterWithFlags, hfind]
    exact remove_apply T.regions i hk
  have hcount := (regionUnregister_present hfind).1
  rcases Nat.lt_trichotomy j i with hlt | rfl | hgt
  · exact ⟨j, by omega, by rw [hcells j (by omega), if_pos hlt], fun _ => rfl⟩
  · exact absurd hstart hne
  · refine ⟨j - 1, by omega, ?_, fun hbelow => ?_⟩
    · rw [hcells (j - 1) (by omega), if_neg (by omega), Nat.sub_add_cancel (by omega)]
    · have := hr.start_lt hgt hj
      omega

theorem RegionEntry.load_le (e : RegionEntry) (n : ℕ) : e.load n ≤ e.end_ - e.start := by
  unfold RegionEntry.load
  split_ifs <;> omega

/-- Disjoint regions fit the address space together. -/
theorem Represents.nodeLoad_le (hr : Represents T S) (n top : ℕ)
    (htop : ∀ r ∈ S, r.2 ≤ top) : nodeLoad T n ≤ top := by
  have hupto : ∀ k, k < T.regionCount →
      ∑ i ∈ Finset.range (k + 1), (T.regions i).load n ≤ (T.regions k).end_ := by
    intro k
    induction k with
    | zero =>
      intro _
      have hload := (T.regions 0).load_le n
      rw [zero_add, Finset.sum_range_one]
      omega
    | succ k ih =>
      intro hk
      have hsum := ih (by omega)
      have hord := hr.ordered k (k + 1) (by omega) hk
      have hne := hr.nonempty (k + 1) hk
      simp only [range_fst, range_snd] at hord hne
      have hload := (T.regions (k + 1)).load_le n
      rw [Finset.sum_range_succ]
      omega
  unfold nodeLoad
  rcases Nat.eq_zero_or_pos T.regionCount with h0 | hpos
  · simp [h0]
  · obtain ⟨c, hc⟩ : ∃ c, T.regionCount = c + 1 := ⟨T.regionCount - 1, by omega⟩
    have hlast := htop _ ((hr.mem_iff _).2 ⟨c, by omega, rfl⟩)
    rw [hc]
    exact (hupto c (by omega)).trans hlast

/-! ### The invariant -/

/-- The table lists accessible, disjoint ranges. -/
structure Mapped (h : HeapState) (S : Set (ℕ × ℕ)) : Prop where
  table : Represents h.regions S
  inSpace : ∀ r ∈ S, 0 < r.1 ∧ r.2 < addressSpace
  accessible : ∀ r ∈ S, ∀ x, r.1 ≤ x → x < r.2 → h.space x = true

/-- The counts agree with the table as well. -/
structure Accounted (h : HeapState) (S : Set (ℕ × ℕ)) : Prop extends Mapped h S where
  counts : ∀ n < numaMaxNodes, h.perNodeBytes n = nodeLoad h.regions n

theorem accounted_init : Accounted .init ∅ where
  table := represents_empty
  inSpace := by simp
  accessible := by simp
  counts _ _ := rfl

theorem Mapped.kept (ha : Mapped h S) (hk : Kept h h') : Mapped h' S where
  table := hk.regions ▸ ha.table
  inSpace := ha.inSpace
  accessible r hr x hlo hhi := (hk.space x).2 (ha.accessible r hr x hlo hhi)

theorem Accounted.kept (ha : Accounted h S) (hk : Kept h h') : Accounted h' S where
  toMapped := ha.toMapped.kept hk
  counts n hn := by rw [hk.perNodeBytes, hk.regions]; exact ha.counts n hn

/-- A freshly obtained range meets no registered one. -/
theorem Mapped.disjoint (ha : Mapped h S) (hacq : Acquired h h₁ p bytes) (hpos : 0 < bytes) :
    ∀ r ∈ S, p + bytes ≤ r.1 ∨ r.2 ≤ p := by
  intro r hr
  obtain ⟨i, hi, rfl⟩ := (ha.table.mem_iff r).1 hr
  have hne := ha.table.nonempty i hi
  by_contra hmeet
  simp only [not_or, not_le] at hmeet
  -- the larger of the two starts lies in both ranges
  have hopen := ha.accessible _ hr (max p (h.regions.range i).1) (le_max_right _ _)
    (max_lt hmeet.2 hne)
  have hshut := hacq.fresh (max p (h.regions.range i).1) (le_max_left _ _)
    (max_lt (by omega) hmeet.1)
  rw [hshut] at hopen
  cases hopen

/-- Noting a promotion changes neither ranges nor nodes. -/
theorem promoted_frame {T' : RegionMap}
    (hstamp : T' = T ∨ ∃ tsc, T' = regionRecordPromote T p tsc) :
    T'.range = T.range ∧ T'.regionCount = T.regionCount ∧
      (∀ i, (T'.regions i).node = (T.regions i).node) ∧ ∀ n, nodeLoad T' n = nodeLoad T n := by
  rcases hstamp with rfl | ⟨tsc, rfl⟩
  · exact ⟨rfl, rfl, fun _ => rfl, fun _ => rfl⟩
  · obtain ⟨hrange, hcount⟩ := regionUpdate_range (T := T) (p := p)
      (f := fun entry => { entry with promotedAtTsc := tsc }) fun _ => ⟨rfl, rfl⟩
    exact ⟨hrange, hcount, regionUpdate_node fun _ => rfl, fun n => nodeLoad_update_eq fun _ => rfl⟩

theorem Mapped.registered (ha : Mapped h S) (hacq : Acquired h h₁ p bytes)
    (hpos : 0 < bytes) {used : Bool} {T T' : RegionMap}
    (hreg : regionRegisterWithFlags h.regions p bytes used = (0, T))
    (hstamp : T' = T ∨ ∃ tsc, T' = regionRecordPromote T p tsc) :
    Mapped { h₁ with regions := T' } (insert (p, p + bytes) S) := by
  obtain ⟨hroom, -⟩ := regionRegister_entry ha.table hreg
  obtain ⟨hrange, hcount, -⟩ := promoted_frame hstamp
  have htable := regionRegister_represents ha.table p bytes used hroom hpos hacq.inSpace
    (ha.disjoint hacq hpos)
  rw [hreg] at htable
  refine ⟨htable.congr hrange hcount, ?_, ?_⟩
  · rintro r (rfl | hr)
    · exact ⟨hacq.pos, hacq.inSpace⟩
    · exact ha.inSpace r hr
  · rintro r (rfl | hr) x hlo hhi
    · exact (hacq.space x).2 (.inl ⟨hlo, hhi⟩)
    · exact (hacq.space x).2 (.inr (ha.accessible r hr x hlo hhi))

/-- The state between registration and binding: the new region is on no node. -/
theorem Accounted.registered (ha : Accounted h S) (hacq : Acquired h h₁ p bytes)
    (hpos : 0 < bytes) {used : Bool} {T T' : RegionMap}
    (hreg : regionRegisterWithFlags h.regions p bytes used = (0, T))
    (hstamp : T' = T ∨ ∃ tsc, T' = regionRecordPromote T p tsc) :
    Accounted { h₁ with regions := T' } (insert (p, p + bytes) S) ∧
      ∃ i < T'.regionCount, T'.range i = (p, p + bytes) ∧
        (T'.regions i).node = regionNodeUnbound := by
  have hnode : ∀ n < numaMaxNodes, n ≠ regionNodeUnbound := by decide
  obtain ⟨-, i, hi, hentry⟩ := regionRegister_entry ha.table hreg
  obtain ⟨hrange, hcount, hnodes, hloads⟩ := promoted_frame hstamp
  refine ⟨⟨ha.toMapped.registered hacq hpos hreg hstamp, ?_⟩, i, hcount ▸ hi, ?_, ?_⟩
  · intro n hn
    change h₁.perNodeBytes n = nodeLoad T' n
    rw [hacq.perNodeBytes, hloads, nodeLoad_register ha.table hreg (hnode n hn)]
    exact ha.counts n hn
  · rw [hrange]
    simp only [RegionMap.range, hentry, Nat.mod_eq_of_lt hacq.inSpace]
  · rw [hnodes, hentry]

/-! ### Binding -/

theorem divertedNode_lt {node : ℕ} (hn : node < M.nodeCount) :
    divertedNode M h node < M.nodeCount := by
  unfold divertedNode
  split_ifs
  · dsimp only
    cases hfind : List.find? _ _ with
    | none => exact hn
    | some alt =>
      have := List.find?_some hfind
      simp only [Bool.and_eq_true, decide_eq_true_eq] at this
      exact this.1.1
  · exact hn

theorem bindToLocalNode_lt {chosen : ℕ} (hb : bindToLocalNode M opts os h = some chosen) :
    chosen < numaMaxNodes := by
  unfold bindToLocalNode at hb
  split_ifs at hb with h1 h2 h3 h4
  cases hb
  exact (divertedNode_lt (not_le.1 h3)).trans_le M.nodeCount_le

/-- Recording the node and adding the bytes to its count are one step. -/
theorem Accounted.bound (ha : Accounted h S) {i : ℕ} (hi : i < h.regions.regionCount)
    (hrange : h.regions.range i = (p, p + bytes))
    (hnode : (h.regions.regions i).node = regionNodeUnbound) :
    Accounted (bindAndAccount M opts os h p bytes) S := by
  unfold bindAndAccount
  cases hb : bindToLocalNode M opts os h with
  | none => exact ha
  | some chosen =>
    have hlt := bindToLocalNode_lt hb
    have h16 : chosen % 2 ^ 16 = chosen := Nat.mod_eq_of_lt (by unfold numaMaxNodes at hlt; omega)
    have hfind := ha.table.findByStart hi (congrArg Prod.fst hrange)
    have hstart : (h.regions.regions i).start = p := congrArg Prod.fst hrange
    have hend : (h.regions.regions i).end_ = p + bytes := congrArg Prod.snd hrange
    have htable : Represents (regionRecordNode h.regions p (chosen % 2 ^ 16)) S :=
      ha.table.regionUpdate fun _ => ⟨rfl, rfl⟩
    refine ⟨⟨htable, ha.inSpace, ha.accessible⟩, fun n hn => ?_⟩
    have hle := htable.nodeLoad_le n (addressSpace - 1) fun r hr =>
      Nat.le_sub_one_of_lt (ha.inSpace r hr).2
    have hload := nodeLoad_update (n := n)
      (f := fun entry => { entry with node := chosen % 2 ^ 16 }) hfind
    have hcount := ha.counts n hn
    have hun : regionNodeUnbound ≠ n := by unfold numaMaxNodes at hn; unfold regionNodeUnbound; omega
    simp only [RegionEntry.load, hnode, hun, if_false, hstart, hend, h16] at hload
    rw [h16] at hle
    simp only [regionRecordNode, h16] at hle ⊢
    unfold addressSpace at hle
    by_cases hc : n = chosen
    · subst hc
      rw [update_self, hcount]
      rw [if_pos rfl] at hload
      rw [Nat.mod_eq_of_lt (by omega)]
      omega
    · rw [update_of_ne hc, hcount]
      rw [if_neg (Ne.symm hc)] at hload
      omega

theorem Accounted.allocated (ha : Accounted h S) {out : Option ℕ × HeapState} (hpos : 0 < bytes)
    (hout : Allocated M opts os h bytes alignment out) : ∃ S', Accounted out.2 S' := by
  obtain ⟨r, h'⟩ := out
  cases r with
  | none => exact ⟨S, ha.kept hout.toKept⟩
  | some p =>
    obtain ⟨h₁, used, T, T', ho, -, hreg, hstamp, rfl⟩ := hout
    obtain ⟨hmid, i, hi, hrange, hnode⟩ := ha.registered ho.toAcquired hpos hreg hstamp
    exact ⟨_, hmid.bound hi hrange hnode⟩

/-! ### Release -/

@[simp] theorem unaccount_regions (h : HeapState) (node : ℕ) :
    (h.unaccount node bytes).regions = h.regions := by
  unfold HeapState.unaccount; split_ifs <;> rfl

theorem unaccount_perNodeBytes (h : HeapState) (node : ℕ) (hn : n < numaMaxNodes) :
    (h.unaccount node bytes).perNodeBytes n =
      if node = n then (h.perNodeBytes n + 2 ^ 64 - bytes) % 2 ^ 64 else h.perNodeBytes n := by
  unfold HeapState.unaccount
  by_cases he : node = n
  · subst he
    have hun : node ≠ regionNodeUnbound := by
      unfold numaMaxNodes at hn; unfold regionNodeUnbound; omega
    rw [if_pos ⟨hun, hn⟩, if_pos rfl]
    exact update_self _ _ _
  · rw [if_neg he]
    split_ifs
    · exact update_of_ne (Ne.symm he) _ _
    · rfl

/-- Both ways of giving a region back take its own range away and change nothing else. -/
structure GivenBack (h h' : HeapState) (p n : ℕ) : Prop where
  regions : h'.regions = h.regions
  perNodeBytes : h'.perNodeBytes = h.perNodeBytes
  space : ∀ x, ¬(p ≤ x ∧ x < p + n) → h.space x = true → h'.space x = true

theorem givenBack_revoke (h : HeapState) (p n : ℕ) : GivenBack h (h.revoke p n) p n :=
  ⟨rfl, rfl, fun _ hout hx => revoke_space.2 ⟨hout, hx⟩⟩

theorem givenBack_release (h : HeapState) (p n : ℕ) :
    GivenBack h (anchorReservationRelease h p n) p n := by
  unfold anchorReservationRelease
  split
  · split_ifs
    · exact ⟨rfl, rfl, fun _ _ hx => hx⟩
    · exact givenBack_revoke h p n
  · exact ⟨rfl, rfl, fun _ _ hx => hx⟩

theorem Represents.apart (hr : Represents T S) {i j : ℕ} (hi : i < T.regionCount)
    (hj : j < T.regionCount) (hne : i ≠ j) :
    (T.range i).2 ≤ (T.range j).1 ∨ (T.range j).2 ≤ (T.range i).1 := by
  rcases Nat.lt_or_gt_of_ne hne with hlt | hgt
  · exact .inl (hr.ordered i j hlt hj)
  · exact .inr (hr.ordered j i hgt hi)

theorem Mapped.unregistered (ha : Mapped h S) (p node bytes : ℕ) :
    Mapped (HeapState.unaccount { h with regions := (regionUnregisterWithFlags h.regions p).2 }
      node bytes) {r ∈ S | r.1 ≠ p} := by
  refine ⟨?_, fun r hr => ha.inSpace r hr.1, ?_⟩
  · rw [unaccount_regions]
    exact regionUnregister_represents ha.table p
  · intro r hr x hlo hhi
    rw [unaccount_space]
    exact ha.accessible r hr.1 x hlo hhi

/-- The part of a release before the range goes back to the kernel. -/
theorem Accounted.unregistered (ha : Accounted h S) {i : ℕ} (hi : i < h.regions.regionCount)
    (hrange : h.regions.range i = (p, p + bytes)) :
    Accounted (HeapState.unaccount { h with regions := (regionUnregisterWithFlags h.regions p).2 }
      (regionUnregisterWithFlags h.regions p).1.1 bytes) {r ∈ S | r.1 ≠ p} := by
  have hstart : (h.regions.regions i).start = p := congrArg Prod.fst hrange
  have hend : (h.regions.regions i).end_ = p + bytes := congrArg Prod.snd hrange
  have hfind := ha.table.findByStart hi hstart
  have hout : (regionUnregisterWithFlags h.regions p).1.1 = (h.regions.regions i).node := by
    simp [regionUnregisterWithFlags, hfind]
  refine ⟨ha.toMapped.unregistered p _ bytes, fun n hn => ?_⟩
  have hload := nodeLoad_unregister (n := n) hfind
  have hle := ha.table.nodeLoad_le n (addressSpace - 1) fun r hr =>
    Nat.le_sub_one_of_lt (ha.inSpace r hr).2
  have hcount := ha.counts n hn
  unfold addressSpace at hle
  rw [unaccount_regions, unaccount_perNodeBytes _ _ hn, hout]
  simp only [RegionEntry.load, hstart, hend, Nat.add_sub_cancel_left] at hload ⊢
  split_ifs with hnode
  · rw [if_pos hnode] at hload
    omega
  · rw [if_neg hnode] at hload
    omega

theorem pageHeapFree_givenBack (hnot : ¬(p = 0 ∨ bytes = 0)) :
    GivenBack (HeapState.unaccount { h with regions := (regionUnregisterWithFlags h.regions p).2 }
      (regionUnregisterWithFlags h.regions p).1.1 bytes) (pageHeapFree h p bytes) p bytes := by
  simp only [pageHeapFree, hnot, if_false]
  split_ifs
  · exact givenBack_release _ p bytes
  · exact ⟨rfl, rfl, (givenBack_revoke _ p bytes).space⟩

theorem Mapped.freed (ha : Mapped h S) {i : ℕ} (hi : i < h.regions.regionCount)
    (hrange : h.regions.range i = (p, p + bytes)) :
    ¬(p = 0 ∨ bytes = 0) ∧ Mapped (pageHeapFree h p bytes) {r ∈ S | r.1 ≠ p} := by
  have hne := ha.table.nonempty i hi
  have hpos := (ha.inSpace _ ((ha.table.mem_iff _).2 ⟨i, hi, rfl⟩)).1
  rw [hrange] at hne hpos
  have hnot : ¬(p = 0 ∨ bytes = 0) := by
    dsimp only at hne hpos
    omega
  have hmid := ha.unregistered p (regionUnregisterWithFlags h.regions p).1.1 bytes
  have hback := pageHeapFree_givenBack (h := h) hnot
  refine ⟨hnot, hback.regions ▸ hmid.table, hmid.inSpace, fun r hr x hlo hhi => ?_⟩
  refine hback.space x ?_ (hmid.accessible r hr x hlo hhi)
  obtain ⟨j, hj, rfl⟩ := (ha.table.mem_iff r).1 hr.1
  have hij : j ≠ i := by
    rintro rfl
    exact hr.2 (congrArg Prod.fst hrange)
  have := ha.table.apart hj hi hij
  rw [hrange] at this
  omega

theorem Accounted.freed (ha : Accounted h S) {i : ℕ} (hi : i < h.regions.regionCount)
    (hrange : h.regions.range i = (p, p + bytes)) :
    Accounted (pageHeapFree h p bytes) {r ∈ S | r.1 ≠ p} := by
  obtain ⟨hnot, hfreed⟩ := ha.toMapped.freed hi hrange
  have hback := pageHeapFree_givenBack (h := h) hnot
  refine ⟨hfreed, fun n hn => ?_⟩
  rw [hback.perNodeBytes, hback.regions]
  exact (ha.unregistered hi hrange).counts n hn

/-! ### Runs without migration -/

theorem pageHeapNumaRebalance_regions (hquiet : migrates M h = false) :
    (pageHeapNumaRebalance M h).regions = h.regions := by
  unfold pageHeapNumaRebalance
  simp only [hquiet, Bool.false_eq_true, if_false]
  split_ifs <;> rfl

theorem Reached.accounted (run : Reached M (fun h => migrates M h = false) h) :
    ∃ S, Accounted h S := by
  induction run with
  | init => exact ⟨∅, accounted_init⟩
  | @alloc h opts os bytes alignment run hos ih =>
    obtain ⟨S, ha⟩ := ih
    rcases Nat.eq_zero_or_pos bytes with rfl | hpos
    · exact ⟨S, by simpa [pageHeapAlloc] using ha⟩
    · exact ha.allocated hpos (pageHeapAlloc_spec opts run.anchorOk hos)
  | free ptr bytes _ hlive ih =>
    obtain ⟨S, ha⟩ := ih
    obtain ⟨i, hi, hrange⟩ := hlive
    exact ⟨_, ha.freed hi hrange⟩
  | @rebalance h _ hquiet ih =>
    obtain ⟨S, ha⟩ := ih
    obtain ⟨-, hspace, hbytes⟩ := pageHeapNumaRebalance_frame M h
    exact ⟨S, ha.kept ⟨pageHeapNumaRebalance_regions hquiet, hbytes, fun x => by rw [hspace]⟩⟩

/-- The byte counts balance in every run whose rebalance passes find nothing to migrate. -/
theorem perNodeBytes_balance (run : Reached M (fun h => migrates M h = false) h) {n : ℕ}
    (hn : n < numaMaxNodes) :
    h.perNodeBytes n = nodeLoad h.regions n ∧
      ((∀ i < h.regions.regionCount, (h.regions.regions i).node ≠ n) → h.perNodeBytes n = 0) := by
  obtain ⟨S, ha⟩ := run.accounted
  refine ⟨ha.counts n hn, fun hnone => ?_⟩
  rw [ha.counts n hn]
  exact Finset.sum_eq_zero fun i hi => if_neg (hnone i (Finset.mem_range.1 hi))

/-- One mapping of 128 KiB, on node 0. -/
def plainAnswer : OsAnswers := ⟨none, none, some 65536, none, false, none, 0, true⟩

/-- A 64 KiB region on node 0. -/
def oneRegion : HeapState :=
  (pageHeapAlloc twoNodes ⟨false, true⟩ plainAnswer .init 65536 65536).2

theorem legal_plainAnswer : plainAnswer.Legal twoNodes .init 65536 65536 := by
  refine ⟨nofun, nofun, nofun, fun p hp => ?_⟩
  cases hp
  exact ⟨by decide, by decide, by decide, fun _ _ _ => rfl, nofun⟩

theorem reached_oneRegion (quiet : HeapState → Prop) : Reached twoNodes quiet oneRegion :=
  .alloc _ _ _ _ .init legal_plainAnswer

theorem space_oneRegion {x : ℕ} (hx : oneRegion.space x = true) : x < 131072 := by
  have hinit : AnchorOk .init := nofun
  have hspec := pageHeapAlloc_spec ⟨false, true⟩ hinit legal_plainAnswer
  rw [show pageHeapAlloc twoNodes ⟨false, true⟩ plainAnswer .init 65536 65536 =
    (some 65536, oneRegion) from Prod.ext (by decide) rfl] at hspec
  obtain ⟨h₁, _, -, T', hacquired, -, -, -, heq⟩ := hspec
  rw [heq, bindAndAccount_space] at hx
  rcases (hacquired.space x).1 hx with hin | hold
  · exact hin.2
  · cases hold

/-- Another mapping, on node 1. -/
def nodeOneAnswer : OsAnswers := ⟨none, none, some 262144, none, false, none, 1, true⟩

/-- A region on each node. -/
def twoRegions : HeapState :=
  (pageHeapAlloc twoNodes ⟨false, true⟩ nodeOneAnswer oneRegion 65536 65536).2

theorem reached_twoRegions (quiet : HeapState → Prop) : Reached twoNodes quiet twoRegions := by
  refine .alloc _ _ _ _ (reached_oneRegion quiet) ⟨nofun, nofun, nofun, fun p hp => ?_⟩
  cases hp
  refine ⟨by decide, by decide, by decide, fun x hlo _ => ?_, nofun⟩
  rw [← Bool.not_eq_true]
  intro hx
  have := space_oneRegion hx
  omega

/-- A pass that finds the nodes in balance, then a free: the bytes of node 0 are gone, those of
node 1 still there. -/
theorem perNodeBytes_balance_twoRegions :
    let h := pageHeapFree (pageHeapNumaRebalance twoNodes twoRegions) 65536 65536
    h.perNodeBytes 0 = 0 ∧ h.perNodeBytes 1 = nodeLoad h.regions 1 ∧ nodeLoad h.regions 1 = 65536 := by
  intro h
  have hrange : (pageHeapNumaRebalance twoNodes twoRegions).regions.range 0 =
      (65536, 65536 + 65536) := by decide
  have hrun : Reached twoNodes (fun h => migrates twoNodes h = false) h :=
    .free _ _ (.rebalance (reached_twoRegions _) (by decide)) ⟨0, by decide, hrange⟩
  have hbytes : h.perNodeBytes 1 = 65536 := by decide
  have hone := (perNodeBytes_balance hrun (n := 1) (by decide)).1
  exact ⟨(perNodeBytes_balance hrun (n := 0) (by decide)).2 (by decide), hone, hone ▸ hbytes⟩

/-- After a migration the region is freed from a count it was never added to. -/
theorem perNodeBytes_wraps :
    Reached twoNodes (fun _ => True)
      (pageHeapFree (pageHeapNumaRebalance twoNodes oneRegion) 65536 65536) ∧
    (pageHeapFree (pageHeapNumaRebalance twoNodes oneRegion) 65536 65536).regions.regionCount = 0 ∧
    (pageHeapFree (pageHeapNumaRebalance twoNodes oneRegion) 65536 65536).perNodeBytes 1 =
      2 ^ 64 - 65536 := by
  have hrange : (pageHeapNumaRebalance twoNodes oneRegion).regions.range 0 =
      (65536, 65536 + 65536) := by decide
  refine ⟨.free _ _ (.rebalance (reached_oneRegion _) trivial) ⟨0, by decide, hrange⟩, ?_, ?_⟩
  · decide
  · decide

end V8Malloc.PageHeap
