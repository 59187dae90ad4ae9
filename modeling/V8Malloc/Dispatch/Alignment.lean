import V8Malloc.Dispatch.Runs

/-!
# Natural alignment

Buddy and large blocks are aligned to far more than 16 bytes. A slot is aligned
to what divides its size and the header, so the tiny classes of 8, 24, 40 and
56 bytes have slots that are not aligned to 16, although the aligned entry
leaves every alignment up to 16 to the plain path.
-/
namespace V8Malloc

open ByteMemory

variable {w : World} {call : Call} {size ptr e cls : ℕ} {s s' : Sys}

/-- A request above the slab sizes, or of a class whose slots have the alignment. -/
def NaturallyAligned (size alignment : ℕ) : Prop :=
  smallMaxSize < size ∨ alignment ∣ sizeClassSize (sizeClass size)

instance (size alignment : ℕ) : Decidable (NaturallyAligned size alignment) :=
  inferInstanceAs (Decidable (_ ∨ _))

/-! ### Aligned answers -/

theorem dispatchAlloc_dvd (hw : Reachable w) (hlegal : Legal call w.sys.heap)
    (hok : dispatchAlloc call w.sys size = .ok (ptr, s')) (hne : ptr ≠ 0) (he : e ≤ 4)
    (haligned : NaturallyAligned size (2 ^ e)) : 2 ^ e ∣ ptr := by
  obtain ⟨L, blk, hinv⟩ := hw.worldInv
  have hout := (dispatchAlloc_spec hinv.inv hinv.calm hlegal size).of_ok hok
  obtain ⟨blk', hheap, hgrant⟩ := hout.served.grant_inv hne
  have hpage : 2 ^ e ∣ slabHeaderSize := pow_dvd_pow 2 (show e ≤ 11 by omega)
  unfold requestGrant at hgrant
  by_cases hsmall : max size 1 ≤ smallMaxSize
  · rw [if_pos hsmall, sizeClass_coerced] at hgrant
    exact hheap.slab_dvd hgrant hpage (haligned.resolve_left (by omega))
  · rw [if_neg hsmall] at hgrant
    by_cases hmax : max size 1 ≤ buddyMaxBlock
    · rw [if_pos hmax] at hgrant
      refine hheap.buddy_dvd hgrant (le_trans ?_ (le_levelToSize_sizeToLevel _))
      have hle : 2 ^ e ≤ 2 ^ 4 := Nat.pow_le_pow_right (by norm_num) he
      unfold smallMaxSize at hsmall
      omega
    · have hlarge := (dispatchAlloc_large hinv.inv hinv.calm hlegal (Nat.lt_of_not_le hmax)).of_ok hok
      exact hpage.trans (hlarge.2 hne)

/-! ### Answers that are not aligned -/

/-- A slab request depends on its class only. -/
theorem dispatchAlloc_class (call : Call) (s : Sys) (hsize : size ≤ smallMaxSize) :
    dispatchAlloc call s size = dispatchAlloc call s (sizeClassSize (sizeClass size)) := by
  have hmax : max size 1 ≤ smallMaxSize := max_le hsize (by decide)
  have hcls := (sizeClass_small (le_max_right size 1) hmax).1
  rw [sizeClass_coerced] at hcls
  have hround : ∀ c < mediumFirstClass, sizeClass (sizeClassSize c) = c := by decide
  simp only [dispatchAlloc, coerced_size, sizeClass_coerced, hround _ hcls, if_pos hcls]

/-- All classes are multiples of 8, and four of them are not multiples of 16. -/
theorem odd_classes : ∀ cls < mediumFirstClass,
    8 ∣ sizeClassSize cls ∧ (16 ∣ sizeClassSize cls ∨ cls ∈ [0, 2, 4, 6]) := by decide

/-- The first request of such a class is given its eighth slot. -/
theorem dispatchAlloc_odd (hcls : cls ∈ [0, 2, 4, 6]) :
    ∃ s' ptr, dispatchAlloc firstCall (Sys.init emptyPool) (sizeClassSize cls) = .ok (ptr, s') ∧
      ptr ≠ 0 ∧ ¬ 16 ∣ ptr := by
  have hslot : ∀ c ∈ [0, 2, 4, 6],
      (dispatchAlloc firstCall (Sys.init emptyPool) (sizeClassSize c)).toOption.map Prod.fst =
        some (pageSize + slabHeaderSize + 7 * sizeClassSize c) := by decide +kernel
  have hodd : ∀ c ∈ [0, 2, 4, 6], pageSize + slabHeaderSize + 7 * sizeClassSize c ≠ 0 ∧
      ¬ 16 ∣ pageSize + slabHeaderSize + 7 * sizeClassSize c := by decide
  obtain ⟨s', hok⟩ := answer_of_map (hslot cls hcls)
  exact ⟨s', _, hok, hodd cls hcls⟩

theorem misaligned_answer (he : e ≤ 4) (hodd : ¬ NaturallyAligned size (2 ^ e)) :
    ∃ s' ptr, dispatchAlloc firstCall (Sys.init emptyPool) size = .ok (ptr, s') ∧ ptr ≠ 0 ∧
      ¬ 2 ^ e ∣ ptr := by
  obtain ⟨hsize, hdvd⟩ := not_or.1 hodd
  have hsmall : size ≤ smallMaxSize := Nat.le_of_not_lt hsize
  have hcls := (sizeClass_small (le_max_right size 1) (max_le hsmall (by decide))).1
  rw [sizeClass_coerced] at hcls
  obtain ⟨height, hsixteen⟩ := odd_classes _ hcls
  have hfour : e = 4 := by
    by_contra hne
    exact hdvd ((pow_dvd_pow 2 (show e ≤ 3 by omega)).trans height)
  subst hfour
  have hmem := hsixteen.resolve_left hdvd
  rw [dispatchAlloc_class _ _ hsmall]
  exact dispatchAlloc_odd hmem

theorem dispatchAllocAligned_natural (call : Call) (s : Sys) (size : ℕ) (he : e ≤ 4) :
    dispatchAllocAligned call s size (2 ^ e) = dispatchAlloc call s (max size 1) := by
  have hle : 2 ^ e ≤ mallocNaturalAlign := Nat.pow_le_pow_right (by norm_num) he
  simp only [dispatchAllocAligned, coerced_size, if_pos hle]

theorem naturallyAligned_coerced (size alignment : ℕ) :
    NaturallyAligned (max size 1) alignment ↔ NaturallyAligned size alignment := by
  unfold NaturallyAligned
  rw [sizeClass_coerced, lt_max_iff]
  simp [show ¬ smallMaxSize < 1 by decide]

/-- Plain requests are aligned to 16 bytes, and aligned requests to what they ask for up to 16,
exactly when the request is above the slab sizes or its class is a multiple of the alignment. -/
theorem natural_alignment_iff (size : ℕ) :
    (16 ≤ size → ((∀ w call ptr s', Reachable w → Legal call w.sys.heap →
      dispatchAlloc call w.sys size = .ok (ptr, s') → ptr ≠ 0 → 16 ∣ ptr) ↔
        NaturallyAligned size 16)) ∧
    ∀ e, e ≤ 4 → ((∀ w call ptr s', Reachable w → Legal call w.sys.heap →
      dispatchAllocAligned call w.sys size (2 ^ e) = .ok (ptr, s') → ptr ≠ 0 → 2 ^ e ∣ ptr) ↔
        NaturallyAligned size (2 ^ e)) := by
  have hplain : ∀ size e, e ≤ 4 → ((∀ w call ptr s', Reachable w → Legal call w.sys.heap →
      dispatchAlloc call w.sys size = .ok (ptr, s') → ptr ≠ 0 → 2 ^ e ∣ ptr) ↔
        NaturallyAligned size (2 ^ e)) := by
    intro size e he
    constructor
    · intro hall
      by_contra hodd
      obtain ⟨s', ptr, hok, hne, hnot⟩ := misaligned_answer he hodd
      exact hnot (hall _ _ _ _ (.init emptyPool) legal_firstCall hok hne)
    · exact fun haligned w call ptr s' hw hlegal hok hne =>
        dispatchAlloc_dvd hw hlegal hok hne he haligned
  refine ⟨fun _ => hplain size 4 le_rfl, fun e he => ?_⟩
  rw [← naturallyAligned_coerced, ← hplain (max size 1) e he]
  simp only [dispatchAllocAligned_natural _ _ _ he]

theorem natural_alignment_iff_32 : NaturallyAligned 32 16 ∧
    ∀ w call ptr s', Reachable w → Legal call w.sys.heap →
      dispatchAlloc call w.sys 32 = .ok (ptr, s') → ptr ≠ 0 → 16 ∣ ptr :=
  ⟨by decide, ((natural_alignment_iff 32).1 (by decide)).2 (by decide)⟩

/-- The first request of 24 bytes, and the first of 8 bytes aligned to 16. -/
theorem natural_alignment_missed :
    (∃ w call ptr s', Reachable w ∧ Legal call w.sys.heap ∧
      dispatchAlloc call w.sys 24 = .ok (ptr, s') ∧ ptr ≠ 0 ∧ ¬ 16 ∣ ptr) ∧
    ∃ w call ptr s', Reachable w ∧ Legal call w.sys.heap ∧
      dispatchAllocAligned call w.sys 8 16 = .ok (ptr, s') ∧ ptr ≠ 0 ∧ ¬ 16 ∣ ptr := by
  obtain ⟨s₁, hok₁⟩ := answers_first
  obtain ⟨s₂, hok₂⟩ : ∃ s', dispatchAllocAligned firstCall (Sys.init emptyPool) 8 16 =
      .ok (67640, s') := answer_of_map (by decide +kernel)
  exact ⟨⟨_, _, _, _, .init emptyPool, legal_firstCall, hok₁, by decide, by decide⟩,
    ⟨_, _, _, _, .init emptyPool, legal_firstCall, hok₂, by decide, by decide⟩⟩

end V8Malloc
