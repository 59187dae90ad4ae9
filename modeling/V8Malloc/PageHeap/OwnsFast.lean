import V8Malloc.PageHeap.RegionRuns

/-!
# The cached ownership test

`v8m_page_heap_owns_fast` answers from a per-thread cache that holds one
verdict for one 64 KiB page, stamped with the sequence counter. The runs below
interleave table changes with queries of any number of threads. The counter
advances by two per change and has 64 bits, so a stamp is conclusive for fewer
than `2 ^ 63` changes.
-/
namespace V8Malloc.PageHeap

open PartitionPoint Function

variable {T : RegionMap} {S : Set (ℕ × ℕ)} {caches : ℕ → OwnsCache} {changes : ℕ}

/-- Runs with page-aligned regions. The last index counts the table changes. -/
inductive OwnsRun : RegionMap → Set (ℕ × ℕ) → (ℕ → OwnsCache) → ℕ → Prop
  | start : OwnsRun .empty ∅ (fun _ => .zero) 0
  | register {T : RegionMap} {S : Set (ℕ × ℕ)} {caches : ℕ → OwnsCache} {changes : ℕ}
      (ptr bytes : ℕ) (isAnchor : Bool) : OwnsRun T S caches changes →
      pageSize ∣ ptr → pageSize ∣ bytes → 0 < bytes → ptr + bytes < addressSpace →
      (∀ r ∈ S, ptr + bytes ≤ r.1 ∨ r.2 ≤ ptr) →
      OwnsRun (regionRegisterWithFlags T ptr bytes isAnchor).2
        (if (regionRegisterWithFlags T ptr bytes isAnchor).1 = 0
          then insert (ptr, ptr + bytes) S else S) caches
        (if (regionRegisterWithFlags T ptr bytes isAnchor).1 = 0 then changes + 1 else changes)
  | unregister {T : RegionMap} {S : Set (ℕ × ℕ)} {caches : ℕ → OwnsCache} {changes : ℕ}
      (ptr : ℕ) : OwnsRun T S caches changes →
      OwnsRun (regionUnregisterWithFlags T ptr).2 {r ∈ S | r.1 ≠ ptr} caches
        (if (regionFindByStart T ptr).isSome then changes + 1 else changes)
  | query {T : RegionMap} {S : Set (ℕ × ℕ)} {caches : ℕ → OwnsCache} {changes : ℕ}
      (thread ptr : ℕ) : OwnsRun T S caches changes → pageSize ≤ ptr → ptr < addressSpace →
      OwnsRun T S
        (update caches thread (pageHeapOwnsFast T (caches thread) ptr).2) changes

/-- The verdict of the locked test as the fast path encodes it. -/
def verdict (T : RegionMap) (ptr : ℕ) : ℤ := if pageHeapOwns T ptr then 1 else 0

def PageAligned (S : Set (ℕ × ℕ)) : Prop := ∀ r ∈ S, pageSize ∣ r.1 ∧ pageSize ∣ r.2

theorem pageSize_le_pageBaseOf {ptr : ℕ} (h : pageSize ≤ ptr) : pageSize ≤ pageBaseOf ptr := by
  simp only [pageBaseOf, pageSize] at *
  omega

/-- With page-aligned regions the verdict is one per page. -/
theorem verdict_pageBaseOf (h : Represents T S) (halign : PageAligned S) {ptr : ℕ}
    (hptr : pageSize ≤ ptr) : verdict T (pageBaseOf ptr) = verdict T ptr := by
  have hbase := pageSize_le_pageBaseOf hptr
  have hpos : 0 < pageSize := by decide
  have hiff : pageHeapOwns T (pageBaseOf ptr) = true ↔ pageHeapOwns T ptr = true := by
    rw [h.owns_iff (by omega), h.owns_iff (by omega)]
    refine exists_congr fun r => and_congr_right fun hr => ?_
    obtain ⟨⟨a, ha⟩, ⟨b, hb⟩⟩ := halign r hr
    simp only [pageBaseOf, pageSize] at *
    omega
  simp only [verdict, hiff]

/-- A round of the search agrees with the locked test. -/
theorem ownsFastRounds_eq (h : Represents T S) (heven : T.regionSeq % 2 = 0)
    (cache : OwnsCache) {addr : ℕ} (haddr : addr ≠ 0) (retries : ℕ) :
    ownsFastRounds T cache addr (retries + 1) =
      (verdict T addr, ⟨pageBaseOf addr, T.regionSeq, verdict T addr⟩) := by
  have hpoint := h.atOrBelow_isPoint addr
  have howned : (if regionsAtOrBelow T addr > 0 ∧ regionsAtOrBelow T addr ≤ T.regionCount then
      decide (addr ≥ (T.regions (regionsAtOrBelow T addr - 1)).start ∧
        addr < (T.regions (regionsAtOrBelow T addr - 1)).end_) else false) =
      pageHeapOwns T addr := by
    simp only [pageHeapOwns, haddr, if_false, hpoint.le, and_true]
    split_ifs with hpos
    · have hlast := hpoint.left (regionsAtOrBelow T addr - 1) (by omega)
      simp only [decide_eq_true_eq] at hlast
      simp [hlast]
    · rfl
  simp only [ownsFastRounds, heven, ne_eq, not_true_eq_false, if_false, if_true, howned]
  rfl

structure OwnsInv (T : RegionMap) (S : Set (ℕ × ℕ)) (caches : ℕ → OwnsCache)
    (changes : ℕ) : Prop where
  represents : Represents T S
  aligned : PageAligned S
  seq_eq : T.regionSeq = 2 * changes
  /-- A cache that was filled carries an old stamp or the current verdict of its page. -/
  cached : ∀ thread, (caches thread).pageBase = 0 ∨ (caches thread).seq < 2 * changes ∨
    (caches thread).seq = 2 * changes ∧
      (caches thread).result = verdict T (caches thread).pageBase

theorem ownsInv_start : OwnsInv .empty ∅ (fun _ => .zero) 0 where
  represents := represents_empty
  aligned := by simp [PageAligned]
  seq_eq := rfl
  cached := fun _ => Or.inl rfl

/-- One table change makes every stamp old. -/
theorem OwnsInv.change (h : OwnsInv T S caches changes) {T' : RegionMap} {S' : Set (ℕ × ℕ)}
    (hrep : Represents T' S') (halign : PageAligned S') (hfew : changes + 1 < 2 ^ 63)
    (hseq : T'.regionSeq = (T.regionSeq + 2) % 2 ^ 64) :
    OwnsInv T' S' caches (changes + 1) where
  represents := hrep
  aligned := halign
  seq_eq := by
    rw [hseq, h.seq_eq]
    omega
  cached := by
    intro thread
    rcases h.cached thread with h0 | hlt | ⟨heq, -⟩
    · exact Or.inl h0
    · exact Or.inr (Or.inl (by omega))
    · exact Or.inr (Or.inl (by omega))

/-- A query returns the verdict of its page and leaves it in the cache. -/
theorem OwnsInv.query (h : OwnsInv T S caches changes) (thread : ℕ) {ptr : ℕ}
    (hptr : pageSize ≤ ptr) :
    (pageHeapOwnsFast T (caches thread) ptr).1 = verdict T ptr ∧
      OwnsInv T S (update caches thread (pageHeapOwnsFast T (caches thread) ptr).2)
        changes := by
  have hne : ptr ≠ 0 := by
    rintro rfl
    exact absurd hptr (by decide)
  have hbase := pageSize_le_pageBaseOf hptr
  have heven : T.regionSeq % 2 = 0 := by
    rw [h.seq_eq]
    omega
  have hpage := verdict_pageBaseOf h.represents h.aligned hptr
  simp only [pageHeapOwnsFast, hne, if_false]
  split_ifs with hhit
  · obtain ⟨hpb, hseq, -⟩ := hhit
    have hres : (caches thread).result = verdict T (caches thread).pageBase := by
      rcases h.cached thread with h0 | hlt | ⟨-, hres⟩
      · have : 0 < pageSize := by decide
        omega
      · have := h.seq_eq
        omega
      · exact hres
    refine ⟨by rw [hres, ← hpb, hpage], ?_⟩
    rw [update_eq_self]
    exact h
  · rw [ownsFastRounds_eq h.represents heven _ hne]
    refine ⟨rfl, h.represents, h.aligned, h.seq_eq, fun t => ?_⟩
    by_cases ht : t = thread
    · subst ht
      simp only [update_self]
      exact Or.inr (Or.inr ⟨h.seq_eq, hpage.symm⟩)
    · rw [update_of_ne ht]
      exact h.cached t

theorem PageAligned.insert (h : PageAligned S) {ptr bytes : ℕ} (hp : pageSize ∣ ptr)
    (hb : pageSize ∣ bytes) : PageAligned (insert (ptr, ptr + bytes) S) := by
  rintro r (rfl | hr)
  · exact ⟨hp, dvd_add hp hb⟩
  · exact h r hr

/-- The invariant holds along every run with fewer than `2 ^ 63` changes. -/
theorem OwnsRun.inv (run : OwnsRun T S caches changes) (hfew : changes < 2 ^ 63) :
    OwnsInv T S caches changes := by
  induction run with
  | start => exact ownsInv_start
  | @register T S caches changes ptr bytes isAnchor _ hp hb hpos hwrap hdisj ih =>
    rcases Nat.lt_or_ge T.regionCount regionMapCapacity with hroom | hfull
    · have hok : (regionRegisterWithFlags T ptr bytes isAnchor).1 = 0 := by
        simp [regionRegisterWithFlags, not_le.mpr hroom]
      simp only [hok, if_true] at hfew ⊢
      have h := ih (by omega)
      exact h.change
        (regionRegister_represents h.represents ptr bytes isAnchor hroom hpos hwrap hdisj)
        (h.aligned.insert hp hb) hfew
        (regionRegister_ok h.represents ptr bytes isAnchor hroom hwrap).2.2.1
    · rw [regionRegister_full ptr bytes isAnchor hfull] at hfew ⊢
      exact ih hfew
  | @unregister T S caches changes ptr _ ih =>
    cases hf : regionFindByStart T ptr with
    | none =>
      simp only [hf, Option.isSome_none, Bool.false_eq_true, if_false] at hfew ⊢
      have h := ih hfew
      refine ⟨regionUnregister_represents h.represents ptr, fun r hr => h.aligned r hr.1, ?_, ?_⟩
      · rw [regionUnregister_absent hf]
        exact h.seq_eq
      · rw [regionUnregister_absent hf]
        exact h.cached
    | some idx =>
      simp only [hf, Option.isSome_some, if_true] at hfew ⊢
      have h := ih (by omega)
      exact h.change (regionUnregister_represents h.represents ptr)
        (fun r hr => h.aligned r hr.1) hfew (regionUnregister_present hf).2.1
  | query thread ptr _ hptr _ ih => exact ((ih hfew).query thread hptr).2

/-- The cached test never gives up and agrees with the locked one. -/
theorem ownsFast_agrees (run : OwnsRun T S caches changes) (hfew : changes < 2 ^ 63)
    (thread : ℕ) {ptr : ℕ} (hptr : pageSize ≤ ptr) :
    (pageHeapOwnsFast T (caches thread) ptr).1 ≠ -1 ∧
      ((pageHeapOwnsFast T (caches thread) ptr).1 = 1 ↔ pageHeapOwns T ptr = true) := by
  rw [((run.inv hfew).query thread hptr).1, verdict]
  split_ifs with h
  · exact ⟨by decide, by simp [h]⟩
  · exact ⟨by decide, by simp [h]⟩

theorem ownsFast_agrees_secondQuery :
    (pageHeapOwnsFast (regionRegisterWithFlags .empty 65536 65536 false).2
      ⟨65536, 2, 1⟩ 70000).1 = 1 := by
  have run := OwnsRun.query 0 65536
    (.register 65536 65536 false .start (by decide) (by decide) (by decide) (by decide) (by simp))
    (by decide) (by decide)
  have hcache : update (fun _ => OwnsCache.zero) 0 (pageHeapOwnsFast
      (regionRegisterWithFlags .empty 65536 65536 false).2 OwnsCache.zero 65536).2 0 =
      (⟨65536, 2, 1⟩ : OwnsCache) := by decide
  have h := (ownsFast_agrees run (by decide) 0 (show pageSize ≤ 70000 by decide)).2
  rw [hcache] at h
  exact h.2 (by decide)

/-! ### The counter wraps -/

theorem OwnsRun.toRegionRun (run : OwnsRun T S caches changes) : RegionRun T S := by
  induction run with
  | start => exact .empty
  | register ptr bytes isAnchor _ _ _ hpos hwrap hdisj ih =>
    exact .register ptr bytes isAnchor ih hpos hwrap hdisj
  | unregister ptr _ ih => exact .unregister ptr ih
  | query thread ptr _ _ _ ih => exact ih

theorem Represents.count_eq_zero (h : Represents T ∅) : T.regionCount = 0 := by
  by_contra hne
  exact ((h.mem_iff _).2 ⟨0, Nat.pos_of_ne_zero hne, rfl⟩).elim

/-- A successful registration as a run step. -/
theorem OwnsRun.registered (run : OwnsRun T S caches changes)
    (ptr : ℕ) (hroom : T.regionCount < regionMapCapacity) (hp : pageSize ∣ ptr)
    (hwrap : ptr + pageSize < addressSpace)
    (hdisj : ∀ r ∈ S, ptr + pageSize ≤ r.1 ∨ r.2 ≤ ptr) :
    ∃ T', OwnsRun T' (insert (ptr, ptr + pageSize) S) caches (changes + 1) ∧
      T'.regionCount = T.regionCount + 1 ∧ T'.regionSeq = (T.regionSeq + 2) % 2 ^ 64 := by
  obtain ⟨hok, hcount, hseq, -⟩ :=
    regionRegister_ok run.toRegionRun.represents ptr pageSize false hroom hwrap
  have run' := OwnsRun.register ptr pageSize false run hp dvd_rfl (by decide) hwrap hdisj
  simp only [hok, if_true] at run'
  exact ⟨_, run', hcount, hseq⟩

/-- Mapping and unmapping one region leaves the table empty and adds four to the counter. -/
theorem OwnsRun.cycle (run : OwnsRun T ∅ caches changes) :
    ∃ T', OwnsRun T' ∅ caches (changes + 2) ∧
      T'.regionSeq = (T.regionSeq + 4) % 2 ^ 64 := by
  have hcount := run.toRegionRun.represents.count_eq_zero
  obtain ⟨T₁, run₁, -, hseq₁⟩ := run.registered 131072
    (by rw [hcount]; decide) (by decide) (by decide) (by simp)
  have hmem := (run₁.toRegionRun.represents.mem_iff (131072, 131072 + pageSize)).1
    (Set.mem_insert _ _)
  obtain ⟨idx, hidx, hrange⟩ := hmem
  have hf := run₁.toRegionRun.represents.findByStart hidx (by rw [hrange])
  have run₂ := OwnsRun.unregister 131072 run₁
  have hempty : {r ∈ insert (131072, 131072 + pageSize) (∅ : Set (ℕ × ℕ)) | r.1 ≠ 131072} = ∅ := by
    ext r
    constructor
    · rintro ⟨rfl | hr, hne⟩
      · exact hne rfl
      · exact hr
    · exact False.elim
  rw [hempty, hf] at run₂
  refine ⟨_, run₂, ?_⟩
  rw [(regionUnregister_present hf).2.1, hseq₁]
  omega

theorem OwnsRun.cycles (run : OwnsRun T ∅ caches changes) (hseq : T.regionSeq < 2 ^ 64) (k : ℕ) :
    ∃ T', OwnsRun T' ∅ caches (changes + 2 * k) ∧
      T'.regionSeq = (T.regionSeq + 4 * k) % 2 ^ 64 := by
  induction k with
  | zero => exact ⟨T, run, (Nat.mod_eq_of_lt hseq).symm⟩
  | succ k ih =>
    obtain ⟨T₁, run₁, hseq₁⟩ := ih
    obtain ⟨T₂, run₂, hseq₂⟩ := run₁.cycle
    refine ⟨T₂, run₂, ?_⟩
    rw [hseq₂, hseq₁]
    omega

/-- After exactly `2 ^ 63` changes the counter is back at the stamp of a verdict
taken on the empty table, and a mapped page is reported as foreign. -/
theorem ownsFast_stale_after_wrap :
    ∃ T S caches, OwnsRun T S caches (2 ^ 63) ∧
      (pageHeapOwnsFast T (caches 0) 65536).1 = 0 ∧ pageHeapOwns T 65536 = true := by
  have run₀ := OwnsRun.query 0 65536 .start (by decide) (by decide)
  obtain ⟨T₁, run₁, hseq₁⟩ := run₀.cycles (by decide) (2 ^ 62 - 1)
  have hcount₁ := run₁.toRegionRun.represents.count_eq_zero
  obtain ⟨T₂, run₂, hcount₂, hseq₂⟩ := run₁.registered 65536
    (by rw [hcount₁]; decide) (by decide) (by decide) (by simp)
  obtain ⟨T₃, run₃, -, hseq₃⟩ := run₂.registered 131072
    (by rw [hcount₂, hcount₁]; decide) (by decide) (by decide)
    (by rintro r (rfl | hr); exacts [Or.inr le_rfl, hr.elim])
  refine ⟨T₃, _, _, run₃, ?_, ?_⟩
  · have hseq : T₃.regionSeq = 0 := by
      rw [hseq₃, hseq₂, hseq₁]
      decide
    have hcache : update (fun _ => OwnsCache.zero) 0
        (pageHeapOwnsFast .empty OwnsCache.zero 65536).2 0 = (⟨65536, 0, 0⟩ : OwnsCache) := by
      decide
    rw [hcache]
    simp [pageHeapOwnsFast, pageBaseOf, pageSize, hseq]
  · refine (run₃.toRegionRun.represents.owns_iff (by decide)).2
      ⟨(65536, 65536 + pageSize), by simp, le_rfl, by decide⟩

end V8Malloc.PageHeap
