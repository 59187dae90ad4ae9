import V8Malloc.PageHeap.AcquireSpec
import Mathlib.Data.ZMod.Basic

/-!
# What a failed allocation leaves behind

A call of `v8m_page_heap_alloc` can fail after it has mapped, trimmed or carved
memory. The table and the byte counts are then as before. The anchor
reservation may differ: its one creation may have been attempted, and a carve
that found the region table full stays consumed, since the bump offset of the
reservation never goes back.
-/
namespace V8Malloc.PageHeap

variable {M : Machine} {opts : Options} {os : OsAnswers} {h h' h₁ : HeapState}
variable {lo n p bytes alignment : ℕ}

/-- `bytes_mapped - bytes_unmapped` as the 64-bit difference of the counters. -/
def HeapState.netBytes (h : HeapState) : ZMod (2 ^ 64) := h.bytesMapped - h.bytesUnmapped

theorem netBytes_recordMmap (h : HeapState) (n : ℕ) :
    (h.recordMmap n).netBytes = h.netBytes + n := by
  simp only [HeapState.netBytes, HeapState.recordMmap, ZMod.natCast_mod, Nat.cast_add]
  ring

theorem netBytes_recordMunmap (h : HeapState) (n : ℕ) :
    (h.recordMunmap n).netBytes = h.netBytes - n := by
  simp only [HeapState.netBytes, HeapState.recordMunmap, ZMod.natCast_mod, Nat.cast_add]
  ring

@[simp] theorem netBytes_grant (h : HeapState) (lo n : ℕ) :
    (h.grant lo n).netBytes = h.netBytes := rfl

@[simp] theorem netBytes_revoke (h : HeapState) (lo n : ℕ) :
    (h.revoke lo n).netBytes = h.netBytes := rfl

theorem netBytes_trim (h : HeapState) (lo n : ℕ) : (h.trim lo n).netBytes = h.netBytes - n := by
  unfold HeapState.trim
  split_ifs with hn
  · rw [netBytes_recordMunmap, netBytes_revoke]
  · obtain rfl : n = 0 := by omega
    simp

/-! ### The sources -/

/-- The parts of the state that a failed call may not change, apart from the byte totals. -/
structure SameTable (h h' : HeapState) : Prop where
  regions : h'.regions = h.regions
  perNodeBytes : h'.perNodeBytes = h.perNodeBytes

theorem SameTable.refl (h : HeapState) : SameTable h h := ⟨rfl, rfl⟩

theorem anchorGet_same (M : Machine) (os : OsAnswers) (h : HeapState) :
    SameTable h (anchorGet M os h) ∧ (anchorGet M os h).netBytes = h.netBytes := by
  unfold anchorGet
  split
  · split <;> exact ⟨⟨rfl, rfl⟩, rfl⟩
  · exact ⟨SameTable.refl h, rfl⟩

theorem anchorGet_anchor (hanchor : h.anchor ≠ .untried) : anchorGet M os h = h := by
  unfold anchorGet
  split
  · exact absurd ‹_› hanchor
  · rfl

/-- The mapping is kept for `bytes` net of what was trimmed off. -/
theorem reserveAligned_same (hbytes : 0 < bytes)
    (hf : ∀ p, os.plainMmap = some p →
      Fresh h p (if alignment ≤ M.osPageSize then bytes else bytes + alignment)) :
    let out := reserveAligned M os h bytes alignment
    SameTable h out.2 ∧ out.2.anchor = h.anchor ∧
      out.2.netBytes = h.netBytes + if out.1 = none then 0 else (bytes : ZMod (2 ^ 64)) := by
  unfold reserveAligned
  cases hm : os.plainMmap with
  | none => split_ifs <;> exact ⟨SameTable.refl h, rfl, by simp⟩
  | some raw =>
    split_ifs with hsmall hbig
    · refine ⟨⟨rfl, rfl⟩, rfl, ?_⟩
      simp [netBytes_recordMmap]
    · exact ⟨SameTable.refl h, rfl, by simp⟩
    · have hin := (hf raw hm).inSpace
      rw [if_neg hsmall] at hin
      have halign : 0 < alignment := by omega
      have hbounds := alignUp_bounds raw halign (by omega)
      refine ⟨⟨by simp; rfl, by simp; rfl⟩, by simp; rfl, ?_⟩
      dsimp only
      simp only [netBytes_trim, netBytes_recordMmap, netBytes_grant, reduceCtorEq, if_false]
      have hsum : bytes + alignment = (alignUp raw alignment - raw) +
          (bytes + alignment - (alignUp raw alignment - raw) - bytes) + bytes := by omega
      have hcast := congrArg (Nat.cast : ℕ → ZMod (2 ^ 64)) hsum
      push_cast at hcast ⊢
      linear_combination hcast

/-- The reservation after a call that has registered nothing. -/
inductive AnchorAfter (M : Machine) (os : OsAnswers) (h : HeapState) (bytes alignment : ℕ) :
    Anchor → Prop
  | same : AnchorAfter M os h bytes alignment h.anchor
  /-- The one attempt to create it was made. -/
  | attempted : h.anchor = .untried → hugePageSize ≤ bytes →
      AnchorAfter M os h bytes alignment (anchorGet M os h).anchor
  /-- It was carved for nothing. -/
  | consumed {res res' : AnchorReservation} {p : ℕ} : hugePageSize ≤ bytes →
      regionMapCapacity ≤ h.regions.regionCount → (anchorGet M os h).anchor = .ready res →
      anchorReservationCarve res bytes alignment os.mprotect = some (p, res') →
      AnchorAfter M os h bytes alignment (.ready res')

theorem AnchorAfter.eq {anchor : Anchor} (hafter : AnchorAfter M os h bytes alignment anchor)
    (htried : h.anchor ≠ .untried) (hroom : ¬regionMapCapacity ≤ h.regions.regionCount) :
    anchor = h.anchor := by
  cases hafter with
  | same => rfl
  | attempted huntried => exact absurd huntried htried
  | consumed _ hfull => exact absurd hfull hroom

theorem anchorAfter_get (hbig : hugePageSize ≤ bytes) :
    AnchorAfter M os h bytes alignment (anchorGet M os h).anchor := by
  by_cases hanchor : h.anchor = .untried
  · exact .attempted hanchor hbig
  · rw [anchorGet_anchor hanchor]
    exact .same

/-- What the last two sources have done to the table, the counts and the reservation. -/
def SourceEffect (M : Machine) (os : OsAnswers) (h : HeapState) (bytes alignment : ℕ)
    (out : Option ℕ × Bool × HeapState) : Prop :=
  SameTable h out.2.2 ∧
    out.2.2.netBytes =
      h.netBytes + (if out.1 = none ∨ out.2.1 = true then 0 else (bytes : ZMod (2 ^ 64))) ∧
    (out.1 = none → out.2.1 = false) ∧
    ((out.1 = none ∨ out.2.1 = false ∨ regionMapCapacity ≤ h.regions.regionCount) →
      AnchorAfter M os h bytes alignment out.2.2.anchor)

theorem reserveAligned_effect (hbytes : 0 < bytes) (htable : SameTable h h₁)
    (hnet : h₁.netBytes = h.netBytes) (hafter : AnchorAfter M os h bytes alignment h₁.anchor)
    (hf : ∀ p, os.plainMmap = some p →
      Fresh h₁ p (if alignment ≤ M.osPageSize then bytes else bytes + alignment)) :
    SourceEffect M os h bytes alignment ((reserveAligned M os h₁ bytes alignment).1, false,
      (reserveAligned M os h₁ bytes alignment).2) := by
  obtain ⟨hsame, hanchor, hcount⟩ := reserveAligned_same hbytes hf
  refine ⟨⟨hsame.regions.trans htable.regions, hsame.perNodeBytes.trans htable.perNodeBytes⟩,
    ?_, fun _ => rfl, fun _ => hanchor ▸ hafter⟩
  simpa [hnet] using hcount

theorem anchorOrMmap_effect (hbytes : 0 < bytes) (hos : os.Legal M h bytes alignment) :
    SourceEffect M os h bytes alignment (anchorOrMmap M os h bytes alignment) := by
  obtain ⟨htable, hnet⟩ := anchorGet_same M os h
  unfold anchorOrMmap
  split_ifs with hbig
  · have hplain := reserveAligned_effect hbytes htable hnet (anchorAfter_get hbig)
      fun p hp => (hos.plain p hp).2
    dsimp only
    split
    · rename_i res hanchor
      split
      · rename_i carved res' hc
        refine ⟨⟨htable.regions, htable.perNodeBytes⟩, ?_, nofun, ?_⟩
        · simp only [or_true, if_true, add_zero]
          exact hnet
        · intro hcase
          exact .consumed hbig (by simpa using hcase) hanchor hc
      · exact hplain
    · exact hplain
  · exact reserveAligned_effect hbytes (SameTable.refl h) rfl .same
      fun p hp => (hos.plain p hp).2.of_anchorGet

/-! ### A whole call -/

/-- Registration fails for a full table only. -/
theorem register_fst {T : RegionMap} {isAnchor : Bool} :
    (regionRegisterWithFlags T p bytes isAnchor).1 ≠ 0 ↔ regionMapCapacity ≤ T.regionCount := by
  unfold regionRegisterWithFlags
  split_ifs with hfull
  · simpa using hfull
  · simpa using hfull

theorem registerAndBindMmap_failed
    (hfail : (registerAndBindMmap M opts os h p bytes).1 = none) :
    SameTable h (registerAndBindMmap M opts os h p bytes).2 ∧
      (registerAndBindMmap M opts os h p bytes).2.netBytes = h.netBytes ∧
      (registerAndBindMmap M opts os h p bytes).2.anchor = h.anchor := by
  simp only [registerAndBindMmap] at hfail ⊢
  split_ifs at hfail ⊢
  refine ⟨⟨rfl, rfl⟩, ?_, rfl⟩
  rw [netBytes_recordMunmap, netBytes_revoke, netBytes_recordMmap, netBytes_grant, add_sub_cancel_right]

theorem release_same (h : HeapState) (p n : ℕ) : SameTable h (anchorReservationRelease h p n) ∧
    (anchorReservationRelease h p n).netBytes = h.netBytes ∧
    (anchorReservationRelease h p n).anchor = h.anchor := by
  unfold anchorReservationRelease
  split
  · split_ifs <;> exact ⟨⟨rfl, rfl⟩, rfl, rfl⟩
  · exact ⟨⟨rfl, rfl⟩, rfl, rfl⟩

theorem pageHeapAlloc_failed (hos : os.Legal M h bytes alignment)
    (hfail : (pageHeapAlloc M opts os h bytes alignment).1 = none) :
    SameTable h (pageHeapAlloc M opts os h bytes alignment).2 ∧
      (pageHeapAlloc M opts os h bytes alignment).2.netBytes = h.netBytes ∧
      AnchorAfter M os h bytes alignment (pageHeapAlloc M opts os h bytes alignment).2.anchor := by
  unfold pageHeapAlloc at hfail ⊢
  by_cases hbad : bytes = 0 ∨ alignment < pageSize ∨ isPowerOfTwo alignment = false
  · rw [if_pos hbad]
    exact ⟨SameTable.refl h, rfl, .same⟩
  rw [if_neg hbad] at hfail ⊢
  cases hg : tryGigantic opts os bytes alignment with
  | some gigantic =>
    rw [hg] at hfail
    obtain ⟨htable, hnet, hanchor⟩ := registerAndBindMmap_failed hfail
    exact ⟨htable, hnet, hanchor ▸ .same⟩
  | none =>
    rw [hg] at hfail
    dsimp only at hfail ⊢
    cases hh : tryHugetlb opts os bytes alignment with
    | some huge =>
      rw [hh] at hfail
      obtain ⟨htable, hnet, hanchor⟩ := registerAndBindMmap_failed hfail
      exact ⟨htable, hnet, hanchor ▸ .same⟩
    | none =>
      rw [hh] at hfail
      dsimp only at hfail ⊢
      have heffect := anchorOrMmap_effect (by omega) hos
      revert heffect hfail
      rcases anchorOrMmap M os h bytes alignment with ⟨_ | result, used, h₁⟩
      · rintro - ⟨htable, hnet, -, hafter⟩
        exact ⟨htable, by simpa using hnet, hafter (.inl rfl)⟩
      · rintro hfail ⟨htable, hnet, -, hafter⟩
        dsimp only at hfail hnet hafter ⊢
        have hreg : (regionRegisterWithFlags h₁.regions result bytes used).1 ≠ 0 := by
          intro hzero
          simp [hzero] at hfail
        rw [if_pos hreg]
        rw [register_fst, htable.regions] at hreg
        cases used with
        | true =>
          obtain ⟨hrel, hrelnet, hrelanchor⟩ := release_same h₁ result bytes
          rw [if_pos rfl]
          refine ⟨⟨hrel.regions.trans htable.regions, hrel.perNodeBytes.trans htable.perNodeBytes⟩,
            ?_, hrelanchor ▸ hafter (.inr (.inr hreg))⟩
          rw [hrelnet, hnet]
          simp
        | false =>
          rw [if_neg Bool.false_ne_true]
          refine ⟨⟨htable.regions, htable.perNodeBytes⟩, ?_, hafter (.inr (.inl rfl))⟩
          rw [netBytes_recordMunmap, netBytes_revoke, hnet]
          simp

/-! ### Later requests -/

theorem reserveAligned_fst (h h' : HeapState) :
    (reserveAligned M os h' bytes alignment).1 = (reserveAligned M os h bytes alignment).1 := by
  unfold reserveAligned
  cases os.plainMmap <;> split_ifs <;> rfl

theorem reserveAligned_regions (h : HeapState) :
    (reserveAligned M os h bytes alignment).2.regions = h.regions := by
  unfold reserveAligned
  cases os.plainMmap <;> split_ifs <;> first | rfl | (simp; rfl)

theorem anchorOrMmap_regions (h : HeapState) :
    (anchorOrMmap M os h bytes alignment).2.2.regions = h.regions := by
  have hget := (anchorGet_same M os h).1.regions
  unfold anchorOrMmap
  split_ifs
  · dsimp only
    split
    · split
      · exact hget
      · exact (reserveAligned_regions _).trans hget
    · exact (reserveAligned_regions _).trans hget
  · exact reserveAligned_regions h

/-- The address depends on the reservation only. -/
theorem anchorOrMmap_fst (hanchor : h'.anchor = h.anchor) :
    (anchorOrMmap M os h' bytes alignment).1 = (anchorOrMmap M os h bytes alignment).1 := by
  have hget : (anchorGet M os h').anchor = (anchorGet M os h).anchor := by
    unfold anchorGet
    rw [hanchor]
    cases hold : h.anchor with
    | untried => cases os.anchorMmap <;> rfl
    | failed => simp [hanchor, hold]
    | ready res => simp [hanchor, hold]
  unfold anchorOrMmap
  split_ifs
  · dsimp only
    rw [hget]
    cases (anchorGet M os h).anchor with
    | untried => exact reserveAligned_fst _ _
    | failed => exact reserveAligned_fst _ _
    | ready res =>
      dsimp only
      cases anchorReservationCarve res bytes alignment os.mprotect with
      | none => exact reserveAligned_fst _ _
      | some out => rfl
  · exact reserveAligned_fst _ _

/-- A call answers by the first source that delivers, if the table has room. -/
theorem pageHeapAlloc_fst : (pageHeapAlloc M opts os h bytes alignment).1 =
    if bytes = 0 ∨ alignment < pageSize ∨ isPowerOfTwo alignment = false then none
    else if regionMapCapacity ≤ h.regions.regionCount then none
    else (tryGigantic opts os bytes alignment).or ((tryHugetlb opts os bytes alignment).or
      (anchorOrMmap M os h bytes alignment).1) := by
  have hdirect : ∀ q, (registerAndBindMmap M opts os h q bytes).1 =
      if regionMapCapacity ≤ h.regions.regionCount then none else some q := by
    intro q
    simp only [registerAndBindMmap, register_fst]
    split_ifs with hfull hfull' hfull'
    · rfl
    · exact absurd hfull hfull'
    · exact absurd hfull' hfull
    · rfl
  unfold pageHeapAlloc
  by_cases hbad : bytes = 0 ∨ alignment < pageSize ∨ isPowerOfTwo alignment = false
  · rw [if_pos hbad, if_pos hbad]
  rw [if_neg hbad, if_neg hbad]
  cases tryGigantic opts os bytes alignment with
  | some q => exact hdirect q
  | none =>
    cases tryHugetlb opts os bytes alignment with
    | some q => exact hdirect q
    | none =>
      have hregions : (anchorOrMmap M os h bytes alignment).2.2.regions = h.regions :=
        anchorOrMmap_regions h
      revert hregions
      rcases anchorOrMmap M os h bytes alignment with ⟨_ | result, used, h₁⟩
      · intro _
        simp
      · intro hregions
        dsimp only at hregions ⊢
        simp only [register_fst, hregions]
        split_ifs <;> rfl

/-! ### A full table -/

/-- A machine with pages of 64 KiB and one node. -/
def largePages : Machine := ⟨65536, 1, fun source _ => source, ⟨16, rfl⟩, by decide⟩

/-- A mapping right behind `n` others. -/
def nextAnswer (n : ℕ) : OsAnswers := ⟨none, none, some ((n + 1) * pageSize), none, false, none, 0, false⟩

theorem nextAnswer_plain (n : ℕ) : (nextAnswer n).plainMmap = some ((n + 1) * pageSize) := rfl

/-- `n` regions of 64 KiB, one behind the other. -/
def filledHeap : ℕ → HeapState
  | 0 => .init
  | n + 1 => (pageHeapAlloc largePages ⟨false, false⟩ (nextAnswer n) (filledHeap n) pageSize pageSize).2

theorem register_count {T : RegionMap} {isAnchor : Bool} (hroom : T.regionCount < regionMapCapacity) :
    (regionRegisterWithFlags T p bytes isAnchor).2.regionCount = T.regionCount + 1 := by
  rw [regionRegisterWithFlags, if_neg (by omega)]
  rfl

/-- A small request that the kernel answers without need for trimming. -/
theorem pageHeapAlloc_direct
    (hok : ¬(bytes = 0 ∨ alignment < pageSize ∨ isPowerOfTwo alignment = false))
    (hsmall : bytes < hugePageSize) (halign : alignment ≤ M.osPageSize)
    (hplain : os.plainMmap = some p) (hroom : h.regions.regionCount < regionMapCapacity)
    (hnuma : opts.numaAware = false) :
    let h' := (pageHeapAlloc M opts os h bytes alignment).2
    h'.regions.regionCount = h.regions.regionCount + 1 ∧ h'.anchor = h.anchor ∧
      ∀ x, h'.space x = true → (p ≤ x ∧ x < p + bytes) ∨ h.space x = true := by
  have hgigantic : tryGigantic opts os bytes alignment = none := by
    apply if_pos
    left
    exact hsmall.trans (by decide)
  have hhuge : tryHugetlb opts os bytes alignment = none := if_pos (Or.inl hsmall)
  have hsource : anchorOrMmap M os h bytes alignment =
      (some p, false, (h.grant p bytes).recordMmap bytes) := by
    simp only [anchorOrMmap, reserveAligned, if_neg (not_le.2 hsmall), if_pos halign, hplain]
  have hregister : (regionRegisterWithFlags h.regions p bytes false).1 = 0 := by
    by_contra hfull
    exact absurd (register_fst.1 hfull) (by omega)
  have hregions : ((h.grant p bytes).recordMmap bytes).regions = h.regions := rfl
  have hout : (pageHeapAlloc M opts os h bytes alignment).2 =
      { (h.grant p bytes).recordMmap bytes with
        regions := (regionRegisterWithFlags h.regions p bytes false).2 } := by
    rw [pageHeapAlloc, if_neg hok, hgigantic, hhuge, hsource]
    simp only [hregions, hregister, ne_eq, not_true_eq_false, if_false, adviseHuge, bindAndAccount,
      bindToLocalNode, hnuma, if_true]
    rw [if_neg (fun hbig => absurd hbig.1 (by omega))]
  rw [hout]
  exact ⟨register_count hroom, rfl, fun x hx => grant_space.1 hx⟩

structure Filled (h : HeapState) (n : ℕ) : Prop where
  reached : Reached largePages (fun _ => True) h
  count : h.regions.regionCount = n
  anchor : h.anchor = .untried
  space : ∀ x, h.space x = true → x < (n + 1) * pageSize

theorem Filled.next (hfilled : Filled h n) (hn : n < regionMapCapacity) :
    Filled (pageHeapAlloc largePages ⟨false, false⟩ (nextAnswer n) h pageSize pageSize).2 (n + 1) := by
  have hroom : h.regions.regionCount < regionMapCapacity := by
    rwa [hfilled.count]
  have hlegal : (nextAnswer n).Legal largePages h pageSize pageSize := by
    refine ⟨nofun, nofun, nofun, ?_⟩
    intro p hp
    obtain rfl : (n + 1) * pageSize = p := Option.some.inj hp
    refine ⟨Nat.dvd_mul_left _ _, ?_, ?_, ?_, ?_⟩
    · exact Nat.mul_pos (Nat.succ_pos n) (by decide)
    · rw [if_pos (show pageSize ≤ largePages.osPageSize from le_rfl)]
      unfold addressSpace regionMapCapacity pageSize at *
      omega
    · intro x hlo hhi
      by_contra hx
      have hspace := hfilled.space x (by simpa [anchorGet, hfilled.anchor, nextAnswer] using hx)
      omega
    · intro res hres
      simp [anchorGet, hfilled.anchor, nextAnswer] at hres
  have hreached : Reached largePages (fun _ => True)
      (pageHeapAlloc largePages ⟨false, false⟩ (nextAnswer n) h pageSize pageSize).2 :=
    .alloc _ _ _ _ hfilled.reached hlegal
  have hok : ¬(pageSize = 0 ∨ pageSize < pageSize ∨ isPowerOfTwo pageSize = false) := by decide
  have hsmall : pageSize < hugePageSize := by decide
  have halign : pageSize ≤ largePages.osPageSize := le_rfl
  have hoff : (⟨false, false⟩ : Options).numaAware = false := rfl
  obtain ⟨hcount, hanchor, hspace⟩ :=
    pageHeapAlloc_direct hok hsmall halign (nextAnswer_plain n) hroom hoff
  refine ⟨hreached, hcount.trans (by rw [hfilled.count]), hanchor.trans hfilled.anchor, ?_⟩
  intro x hx
  rcases hspace x hx with hx | hx
  · rw [Nat.add_mul (n + 1) 1 pageSize, Nat.one_mul]
    exact hx.2
  · exact lt_of_lt_of_le (hfilled.space x hx) (Nat.mul_le_mul_right _ (by omega))

theorem filledHeap_filled {n : ℕ} (hn : n ≤ regionMapCapacity) : Filled (filledHeap n) n := by
  induction n with
  | zero => exact ⟨.init, rfl, rfl, nofun⟩
  | succ n ih => exact (ih (by omega)).next (by omega)

/-- A full table refuses the region, and the carve stays. -/
theorem full_alloc_carves {res res' : AnchorReservation}
    (hok : ¬(bytes = 0 ∨ alignment < pageSize ∨ isPowerOfTwo alignment = false))
    (hbig : hugePageSize ≤ bytes) (hoff : opts.hugePages = false)
    (hfull : regionMapCapacity ≤ h.regions.regionCount)
    (hanchor : (anchorGet M os h).anchor = .ready res)
    (hcarve : anchorReservationCarve res bytes alignment os.mprotect = some (p, res')) :
    (pageHeapAlloc M opts os h bytes alignment).1 = none ∧
      (pageHeapAlloc M opts os h bytes alignment).2.anchor = .ready res' := by
  have hgigantic : tryGigantic opts os bytes alignment = none := if_pos (by simp [hoff])
  have hhuge : tryHugetlb opts os bytes alignment = none := if_pos (by simp [hoff])
  have hsource : anchorOrMmap M os h bytes alignment =
      (some p, true, { (anchorGet M os h).grant p bytes with anchor := .ready res' }) := by
    rw [anchorOrMmap, if_pos hbig]
    simp only [hanchor, hcarve]
  refine ⟨by rw [pageHeapAlloc_fst, if_neg hok, if_pos hfull], ?_⟩
  rw [pageHeapAlloc, if_neg hok, hgigantic, hhuge, hsource]
  dsimp only
  rw [if_pos, if_pos rfl]
  · exact (release_same _ _ _).2.2
  · rw [register_fst]
    exact le_of_le_of_eq hfull (congrArg RegionMap.regionCount (anchorGet_same M os h).1.regions.symm)

/-- The reservation at 1 TiB, everything else refused. -/
def carveAnswer : OsAnswers := ⟨none, none, none, some (2 ^ 40), true, none, 0, false⟩

/-- Only the reservation can be opened. -/
def protectAnswer : OsAnswers := ⟨none, none, none, none, true, none, 0, false⟩

def refusedAnswer : OsAnswers := ⟨none, none, none, none, false, none, 0, false⟩

/-- The page heap asked for 2 MiB. -/
def askedHeap (os : OsAnswers) (h : HeapState) : Option ℕ × HeapState :=
  pageHeapAlloc largePages ⟨false, false⟩ os h hugePageSize pageSize

theorem legal_carveAnswer (hspace : ∀ x, h.space x = true → x < 2 ^ 40)
    (hanchor : h.anchor = .untried) : carveAnswer.Legal largePages h bytes alignment := by
  refine ⟨nofun, nofun, ?_, nofun⟩
  intro p hp
  obtain rfl : 2 ^ 40 = p := Option.some.inj hp
  refine ⟨by decide, by norm_num, by decide, ?_, ?_⟩
  · intro x hlo hhi
    by_contra hx
    have hlt := hspace x (by simpa using hx)
    omega
  · intro res hres
    rw [hanchor] at hres
    cases hres

/-- The reservation as `carveAnswer` makes it. -/
def freshAnchor : AnchorReservation := ⟨2 ^ 40, anchorCap largePages, 0, Nat.zero_le _⟩

/-- The reservation after one carve of 2 MiB. -/
def carvedAnchor : AnchorReservation :=
  ⟨2 ^ 40, anchorCap largePages, 0 + hugePageSize, by decide⟩

/-- And after two. -/
def carvedTwice : AnchorReservation :=
  ⟨2 ^ 40, anchorCap largePages, 2 * hugePageSize, by decide⟩

theorem carve_freshAnchor : anchorReservationCarve freshAnchor hugePageSize pageSize true =
    some (2 ^ 40, carvedAnchor) := by decide +kernel

/-- The first of these requests creates the reservation and loses 2 MiB of it. -/
theorem Filled.carves (hfilled : Filled h regionMapCapacity) :
    carveAnswer.Legal largePages h hugePageSize pageSize ∧ (askedHeap carveAnswer h).1 = none ∧
      (askedHeap carveAnswer h).2.anchor = .ready carvedAnchor := by
  obtain ⟨hreached, hcount, hanchor, hspace⟩ := hfilled
  have hget : (anchorGet largePages carveAnswer h).anchor = .ready freshAnchor := by
    simp [anchorGet, hanchor, carveAnswer, freshAnchor]
  have hoff : (⟨false, false⟩ : Options).hugePages = false := rfl
  refine ⟨legal_carveAnswer (fun x hx => lt_of_lt_of_le (hspace x hx) ?_) hanchor,
    full_alloc_carves (by decide) le_rfl hoff hcount.ge hget carve_freshAnchor⟩
  decide

theorem Filled.asked (hfilled : Filled h regionMapCapacity) :
    Reached largePages (fun _ => True) (askedHeap carveAnswer h).2 ∧
      (askedHeap carveAnswer h).2.regions.regionCount = regionMapCapacity ∧
      (askedHeap carveAnswer h).2.anchor = .ready carvedAnchor := by
  obtain ⟨hlegal, hfail, hafter⟩ := hfilled.carves
  refine ⟨.alloc _ _ _ _ hfilled.reached hlegal, ?_, hafter⟩
  exact (congrArg RegionMap.regionCount (pageHeapAlloc_failed hlegal hfail).1.regions).trans
    hfilled.count

/-! ### The effect of a failed call -/

/-- A failed call changes nothing but the reservation, and that only by its one creation or by a
carve for a full table; once the creation was tried, later requests are answered as before. -/
theorem failed_alloc_effect (hos : os.Legal M h bytes alignment)
    (hfail : (pageHeapAlloc M opts os h bytes alignment).1 = none) :
    let h' := (pageHeapAlloc M opts os h bytes alignment).2
    h'.regions = h.regions ∧ h'.netBytes = h.netBytes ∧ h'.perNodeBytes = h.perNodeBytes ∧
      AnchorAfter M os h bytes alignment h'.anchor ∧
      (h.anchor ≠ .untried → ∀ (opts' : Options) (os' : OsAnswers) (bytes' alignment' q : ℕ),
        (pageHeapAlloc M opts' os' h bytes' alignment').1 = some q →
        (pageHeapAlloc M opts' os' h' bytes' alignment').1 = some q) := by
  intro h'
  obtain ⟨htable, hnet, hafter⟩ := pageHeapAlloc_failed hos hfail
  refine ⟨htable.regions, hnet, htable.perNodeBytes, hafter, ?_⟩
  intro htried opts' os' bytes' alignment' q hq
  rw [pageHeapAlloc_fst] at hq ⊢
  split_ifs at hq with hbad hfull
  rw [if_neg hbad, htable.regions, if_neg hfull, anchorOrMmap_fst (hafter.eq htried hfull)]
  exact hq

/-- A full table: the reservation was mapped and 2 MiB of it opened before the call failed. -/
theorem failed_alloc_effect_full :
    let h := filledHeap regionMapCapacity
    (askedHeap carveAnswer h).1 = none ∧ (askedHeap carveAnswer h).2.anchor = .ready carvedAnchor ∧
      (askedHeap carveAnswer h).2.regions = h.regions ∧
      (askedHeap carveAnswer h).2.netBytes = h.netBytes ∧
      (askedHeap carveAnswer h).2.perNodeBytes = h.perNodeBytes := by
  intro h
  have hfilled : Filled h regionMapCapacity := filledHeap_filled le_rfl
  clear_value h
  obtain ⟨hlegal, hfail, hafter⟩ := hfilled.carves
  obtain ⟨hregions, hnet, hnodes, -⟩ := failed_alloc_effect hlegal hfail
  exact ⟨hfail, hafter, hregions, hnet, hnodes⟩

/-- Every further request that fails at the full table takes 2 MiB of the reservation with it; and
a request that failed before the reservation was created leaves the page heap without one for
good. -/
theorem failed_alloc_consumes :
    (∃ h res res', Reached largePages (fun _ => True) h ∧ h.anchor = .ready res ∧
      protectAnswer.Legal largePages h hugePageSize pageSize ∧
      (askedHeap protectAnswer h).1 = none ∧ (askedHeap protectAnswer h).2.anchor = .ready res' ∧
      res'.cap = res.cap ∧ res'.bumpOffset = res.bumpOffset + hugePageSize) ∧
    (askedHeap refusedAnswer .init).1 = none ∧ (askedHeap carveAnswer .init).1 = some (2 ^ 40) ∧
      (askedHeap carveAnswer (askedHeap refusedAnswer .init).2).1 = none := by
  refine ⟨?_, by decide, by decide, by decide⟩
  obtain ⟨hreached, hcount, hanchor⟩ := (filledHeap_filled le_rfl).asked
  generalize (askedHeap carveAnswer (filledHeap regionMapCapacity)).2 = h at *
  have hcarve : anchorReservationCarve carvedAnchor hugePageSize pageSize true =
      some (2 ^ 40 + hugePageSize, carvedTwice) := by decide +kernel
  have hget : (anchorGet largePages protectAnswer h).anchor = .ready carvedAnchor := by
    rw [anchorGet_anchor (by rw [hanchor]; nofun), hanchor]
  have hoff : (⟨false, false⟩ : Options).hugePages = false := rfl
  obtain ⟨hfail, hafter⟩ := full_alloc_carves (by decide) le_rfl hoff hcount.ge hget hcarve
  exact ⟨h, carvedAnchor, _, hreached, hanchor, ⟨nofun, nofun, nofun, nofun⟩, hfail, hafter, rfl, rfl⟩

end V8Malloc.PageHeap
