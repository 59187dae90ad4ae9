import V8Malloc.PageHeap.Nodes

/-!
# Bytes mapped and unmapped

Every mapping is added to one total and every unmapping to another, the parts
trimmed off included; a carve from the anchor is in neither. The difference is
what is mapped, and its largest value is kept as the peak. The totals are words:
once one of them has wrapped around, the difference the peak is taken from is
not the bytes mapped.
-/
namespace V8Malloc.PageHeap

variable {M : Machine} {opts : Options} {os : OsAnswers} {h h' h₁ : HeapState}
variable {T : RegionMap} {p q n lo bytes alignment live : ℕ} {used : Bool}

/-! ### The anchor flags of the table -/

/-- The region that starts at `p` is registered with the flag. -/
def Flagged (T : RegionMap) (p : ℕ) (isAnchor : Bool) : Prop :=
  ∃ i < T.regionCount, (T.regions i).start = p ∧ (T.regions i).isAnchor = isAnchor

theorem Flagged.regionUpdate {isAnchor : Bool} (hflag : Flagged T q isAnchor)
    {f : RegionEntry → RegionEntry} (hf : ∀ e, (f e).start = e.start ∧ (f e).isAnchor = e.isAnchor) :
    Flagged (regionUpdate T p f) q isAnchor := by
  obtain ⟨i, hi, hstart, hanchor⟩ := hflag
  unfold PageHeap.regionUpdate
  split
  · exact ⟨i, hi, hstart, hanchor⟩
  · rename_i idx _
    refine ⟨i, hi, ?_⟩
    by_cases hidx : i = idx
    · subst hidx
      simp only [Function.update_self, hf]
      exact ⟨hstart, hanchor⟩
    · simp only [Function.update_of_ne hidx]
      exact ⟨hstart, hanchor⟩

/-- Registration adds its own flag and keeps the others. -/
theorem flagged_register {S : Set (ℕ × ℕ)} (hr : Represents T S) {T' : RegionMap}
    (hreg : regionRegisterWithFlags T p bytes used = (0, T')) :
    Flagged T' p used ∧ ∀ q isAnchor, Flagged T q isAnchor → Flagged T' q isAnchor := by
  obtain ⟨-, i, hi, hentry⟩ := regionRegister_entry hr hreg
  constructor
  · exact ⟨i, hi, by rw [hentry], by rw [hentry]⟩
  · rintro q isAnchor ⟨j, hj, hflag⟩
    obtain ⟨k, -, hk, hsame⟩ := register_moves hr hreg hj
    exact ⟨k, hk, hsame ▸ hflag⟩

/-- Removal gives the flag back and keeps the others. -/
theorem flagged_unregister {S : Set (ℕ × ℕ)} (hr : Represents T S) {isAnchor : Bool}
    (hflag : Flagged T p isAnchor) :
    (regionUnregisterWithFlags T p).1.2 = isAnchor ∧ ∀ q other, q ≠ p → Flagged T q other →
      Flagged (regionUnregisterWithFlags T p).2 q other := by
  obtain ⟨i, hi, hstart, hanchor⟩ := hflag
  constructor
  · simp only [regionUnregisterWithFlags, hr.findByStart hi hstart]
    exact hanchor
  · rintro q other hqp ⟨j, hj, hflag⟩
    obtain ⟨k, hk, hsame, -⟩ := unregister_moves hr hi hstart hj (hflag.1.trans_ne hqp)
    exact ⟨k, hk, hsame ▸ hflag⟩

/-! ### Runs -/

/-- The sizes of the live regions that were not carved from the anchor. -/
def mappedBytes (h : HeapState) (live : Finset (ℕ × ℕ)) : ℕ :=
  ∑ r ∈ live, if h.anchor.contains r.1 then 0 else r.2

/-- The regions handed out and not yet freed are those of the table, and the totals say how
many of their bytes are mapped. -/
structure TallyInv (h : HeapState) (live : Finset (ℕ × ℕ)) : Prop where
  accounted : Accounted h {r | ∃ s ∈ live, r = (s.1, s.1 + s.2)}
  anchorOk : AnchorOk h
  flags : ∀ r ∈ live, Flagged h.regions r.1 (h.anchor.contains r.1)
  exact : Exact h (mappedBytes h live)

/-- The regions with the one a call returned. -/
def withRegion (result : Option ℕ) (bytes : ℕ) (live : Finset (ℕ × ℕ)) : Finset (ℕ × ℕ) :=
  match result with
  | none => live
  | some p => insert (p, bytes) live

section Steps

variable {regions : Finset (ℕ × ℕ)}

/-- Every live region is accessible. -/
theorem TallyInv.accessible (hinv : TallyInv h regions) {r : ℕ × ℕ} (hr : r ∈ regions) :
    0 < r.2 ∧ h.space r.1 = true := by
  have hmem : (r.1, r.1 + r.2) ∈ {t : ℕ × ℕ | ∃ s ∈ regions, t = (s.1, s.1 + s.2)} :=
    ⟨r, hr, rfl⟩
  obtain ⟨i, hi, hrange⟩ := (hinv.accounted.table.mem_iff _).1 hmem
  have hne := hinv.accounted.table.nonempty i hi
  rw [hrange] at hne
  dsimp only at hne
  exact ⟨by omega, hinv.accounted.accessible _ hmem r.1 le_rfl hne⟩

theorem mappedBytes_congr (hspan : ∀ r ∈ regions, h'.anchor.contains r.1 = h.anchor.contains r.1) :
    mappedBytes h' regions = mappedBytes h regions := by
  apply Finset.sum_congr rfl
  intro r hr
  rw [hspan r hr]

theorem TallyInv.declined (hinv : TallyInv h regions) (hd : Declined h bytes alignment h')
    (hroom : h.bytesMapped + (bytes + alignment) < 2 ^ 64) : TallyInv h' regions := by
  have hspan : ∀ r ∈ regions, h'.anchor.contains r.1 = h.anchor.contains r.1 :=
    fun r hr => hd.span r.1 (hinv.accessible hr).2
  refine ⟨hinv.accounted.kept hd.toKept, hd.anchorOk, fun r hr => ?_, ?_⟩
  · rw [hd.regions, hspan r hr]
    exact hinv.flags r hr
  · rw [mappedBytes_congr hspan]
    exact hd.exact _ hinv.exact hroom

theorem totals_bindAndAccount : (bindAndAccount M opts os h p bytes).totals = h.totals := by
  unfold bindAndAccount
  split <;> rfl

theorem Flagged.bindAndAccount {isAnchor : Bool} (hflag : Flagged h.regions q isAnchor) :
    Flagged (bindAndAccount M opts os h p bytes).regions q isAnchor := by
  unfold PageHeap.bindAndAccount
  split
  · exact hflag
  · exact hflag.regionUpdate fun _ => ⟨rfl, rfl⟩

theorem TallyInv.registered (hinv : TallyInv h regions) (hbytes : 0 < bytes)
    (hroom : h.bytesMapped + (bytes + alignment) < 2 ^ 64)
    (ho : Obtained h bytes alignment p used h₁) {T T' : RegionMap}
    (hreg : regionRegisterWithFlags h.regions p bytes used = (0, T))
    (hstamp : T' = T ∨ ∃ tsc, T' = regionRecordPromote T p tsc) :
    TallyInv (bindAndAccount M opts os { h₁ with regions := T' } p bytes)
      (insert (p, bytes) regions) := by
  have hnew : (p, bytes) ∉ regions := by
    intro hold
    have hopen := (hinv.accessible hold).2
    rw [ho.fresh p le_rfl (by omega)] at hopen
    exact Bool.false_ne_true hopen
  have hspan : ∀ r ∈ regions, h₁.anchor.contains r.1 = h.anchor.contains r.1 :=
    fun r hr => ho.span r.1 (hinv.accessible hr).2
  have hset : {r : ℕ × ℕ | ∃ s ∈ insert (p, bytes) regions, r = (s.1, s.1 + s.2)} =
      insert (p, p + bytes) {r | ∃ s ∈ regions, r = (s.1, s.1 + s.2)} := by
    ext r
    simp only [Set.mem_ofPred_eq, Finset.exists_mem_insert, Set.mem_insert_iff]
  obtain ⟨hown, hother⟩ := flagged_register hinv.accounted.table hreg
  have hflags : ∀ q isAnchor, Flagged T q isAnchor → Flagged T' q isAnchor := by
    intro q isAnchor hflag
    rcases hstamp with rfl | ⟨tsc, rfl⟩
    · exact hflag
    · exact hflag.regionUpdate fun _ => ⟨rfl, rfl⟩
  obtain ⟨hmid, i, hi, hrange, hnode⟩ :=
    hinv.accounted.registered ho.toAcquired hbytes hreg hstamp
  refine ⟨?_, ?_, ?_, ?_⟩
  · rw [hset]
    exact hmid.bound hi hrange hnode
  · exact ho.anchorOk.of_space (by simp) (by simp)
  · intro r hr
    rw [bindAndAccount_anchor]
    apply Flagged.bindAndAccount
    rcases Finset.mem_insert.1 hr with rfl | hr
    · rw [ho.source]
      exact hflags p used hown
    · rw [hspan r hr]
      exact hflags r.1 _ (hother r.1 _ (hinv.flags r hr))
  · have hsum : mappedBytes (bindAndAccount M opts os { h₁ with regions := T' } p bytes)
        (insert (p, bytes) regions) =
        if used then mappedBytes h regions else mappedBytes h regions + bytes := by
      rw [← mappedBytes_congr hspan, mappedBytes, Finset.sum_insert hnew, bindAndAccount_anchor,
        ho.source]
      cases used
      · exact Nat.add_comm ..
      · exact Nat.zero_add _
    rw [hsum]
    exact (ho.exact _ hinv.exact hroom).congr totals_bindAndAccount

theorem TallyInv.alloc (hinv : TallyInv h regions) (opts : Options)
    (hroom : h.bytesMapped + (bytes + alignment) < 2 ^ 64)
    (hos : os.Legal M h bytes alignment) :
    TallyInv (pageHeapAlloc M opts os h bytes alignment).2
      (withRegion (pageHeapAlloc M opts os h bytes alignment).1 bytes regions) := by
  have hspec := pageHeapAlloc_spec opts hinv.anchorOk hos
  cases hout : pageHeapAlloc M opts os h bytes alignment with
  | mk result h' =>
    rw [hout] at hspec
    cases result with
    | none => exact hinv.declined hspec hroom
    | some p =>
      have hbytes : 0 < bytes := by
        by_contra hzero
        simp [pageHeapAlloc, Nat.eq_zero_of_not_pos hzero] at hout
      obtain ⟨h₁, used, T, T', ho, -, hreg, hstamp, rfl⟩ := hspec
      exact hinv.registered hbytes hroom ho hreg hstamp

theorem totals_unaccount (h : HeapState) (node : ℕ) :
    (h.unaccount node bytes).totals = h.totals := by
  unfold HeapState.unaccount
  split_ifs <;> rfl

/-- A release takes a mapped region off the difference of the totals. -/
theorem pageHeapFree_exact {ptr : ℕ} (hnot : ¬(ptr = 0 ∨ bytes = 0)) (hx : Exact h live)
    (hle : (regionUnregisterWithFlags h.regions ptr).1.2 = false → bytes ≤ live) :
    (pageHeapFree h ptr bytes).regions = (regionUnregisterWithFlags h.regions ptr).2 ∧
      Exact (pageHeapFree h ptr bytes)
        (if (regionUnregisterWithFlags h.regions ptr).1.2 then live else live - bytes) := by
  have hmid : Exact (HeapState.unaccount
      { h with regions := (regionUnregisterWithFlags h.regions ptr).2 }
      (regionUnregisterWithFlags h.regions ptr).1.1 bytes) live :=
    hx.congr (totals_unaccount _ _)
  simp only [pageHeapFree, hnot, if_false]
  cases hflag : (regionUnregisterWithFlags h.regions ptr).1.2 with
  | true =>
    simp only [if_true]
    obtain ⟨-, htotals, -⟩ := anchorReservationRelease_shrinks (HeapState.unaccount
      { h with regions := (regionUnregisterWithFlags h.regions ptr).2 }
      (regionUnregisterWithFlags h.regions ptr).1.1 bytes) ptr bytes
    refine ⟨?_, hmid.congr htotals⟩
    rw [(givenBack_release _ ptr bytes).regions, unaccount_regions]
  | false =>
    simp only [Bool.false_eq_true, if_false]
    exact ⟨unaccount_regions _ _, (hmid.revoke ptr bytes).recordMunmap (hle hflag)⟩

/-- Live regions do not overlap, so no two start at one address. -/
theorem TallyInv.start_unique (hinv : TallyInv h regions) {r s : ℕ × ℕ} (hr : r ∈ regions)
    (hs : s ∈ regions) (hstart : r.1 = s.1) : r = s := by
  have htable := hinv.accounted.table
  obtain ⟨i, hi, hri⟩ := (htable.mem_iff (r.1, r.1 + r.2)).1 ⟨r, hr, rfl⟩
  obtain ⟨j, hj, hsj⟩ := (htable.mem_iff (s.1, s.1 + s.2)).1 ⟨s, hs, rfl⟩
  have hfound := htable.findByStart hi (congrArg Prod.fst hri)
  rw [hstart, htable.findByStart hj (congrArg Prod.fst hsj), Option.some_inj] at hfound
  rw [hfound, hri, Prod.mk.injEq] at hsj
  exact Prod.ext hstart (by omega)

theorem TallyInv.free {ptr : ℕ} (hinv : TallyInv h regions) (hlive : (ptr, bytes) ∈ regions) :
    TallyInv (pageHeapFree h ptr bytes) (regions.erase (ptr, bytes)) := by
  have hmem : (ptr, ptr + bytes) ∈ {t : ℕ × ℕ | ∃ s ∈ regions, t = (s.1, s.1 + s.2)} :=
    ⟨(ptr, bytes), hlive, rfl⟩
  obtain ⟨i, hi, hrange⟩ := (hinv.accounted.table.mem_iff _).1 hmem
  have hptr : 0 < ptr := (hinv.accounted.inSpace _ hmem).1
  have hbytes : 0 < bytes := (hinv.accessible hlive).1
  have hfreed := hinv.accounted.freed hi hrange
  obtain ⟨hflag, hothers⟩ := flagged_unregister hinv.accounted.table (hinv.flags _ hlive)
  obtain ⟨hanchor, hspace⟩ := pageHeapFree_shrinks h ptr bytes
  have hstart : ∀ r ∈ regions.erase (ptr, bytes), r ∈ regions ∧ r.1 ≠ ptr := by
    intro r hr
    obtain ⟨hne, hr⟩ := Finset.mem_erase.1 hr
    exact ⟨hr, fun heq => hne (hinv.start_unique hr hlive heq)⟩
  have hsum : (if h.anchor.contains ptr then 0 else bytes) +
      mappedBytes h (regions.erase (ptr, bytes)) = mappedBytes h regions :=
    Finset.add_sum_erase regions (fun r => if h.anchor.contains r.1 then 0 else r.2) hlive
  have hmapped : mappedBytes (pageHeapFree h ptr bytes) (regions.erase (ptr, bytes)) =
      mappedBytes h (regions.erase (ptr, bytes)) := by
    apply mappedBytes_congr
    intro r _
    rw [hanchor]
  have hle : (regionUnregisterWithFlags h.regions ptr).1.2 = false →
      bytes ≤ mappedBytes h regions := by
    intro hplain
    rw [hflag] at hplain
    simp only [hplain, Bool.false_eq_true, if_false] at hsum
    omega
  obtain ⟨hregions, hexact⟩ := pageHeapFree_exact (by omega) hinv.exact hle
  refine ⟨?_, hinv.anchorOk.of_space hanchor hspace, ?_, ?_⟩
  · convert hfreed using 1
    ext t
    constructor
    · rintro ⟨r, hr, rfl⟩
      obtain ⟨hr, hne⟩ := hstart r hr
      exact ⟨⟨r, hr, rfl⟩, hne⟩
    · rintro ⟨⟨r, hr, rfl⟩, hne⟩
      refine ⟨r, Finset.mem_erase.2 ⟨?_, hr⟩, rfl⟩
      rintro rfl
      exact hne rfl
  · intro r hr
    obtain ⟨hr, hne⟩ := hstart r hr
    rw [hregions, hanchor]
    exact hothers r.1 _ hne (hinv.flags r hr)
  · rw [hmapped]
    convert hexact using 1
    rw [hflag]
    split_ifs at hsum ⊢ <;> omega

end Steps

/-- Totals that are words count exactly as long as none of them has wrapped around. -/
def Room (h : HeapState) (bytes alignment : ℕ) : Prop :=
  h.bytesMapped + (bytes + alignment) < 2 ^ 64

/-- The runs over single threaded calls whose allocations meet the condition `room`, with the
regions handed out and not yet freed. -/
inductive TallyRun (M : Machine) (room : HeapState → ℕ → ℕ → Prop) :
    HeapState → Finset (ℕ × ℕ) → Prop
  | init : TallyRun M room .init ∅
  | alloc {h : HeapState} {live : Finset (ℕ × ℕ)} (opts : Options) (os : OsAnswers)
      (bytes alignment : ℕ) : TallyRun M room h live → pageSize ∣ bytes →
      os.Legal M h bytes alignment → room h bytes alignment →
      TallyRun M room (pageHeapAlloc M opts os h bytes alignment).2
        (withRegion (pageHeapAlloc M opts os h bytes alignment).1 bytes live)
  | free {h : HeapState} {live : Finset (ℕ × ℕ)} {ptr bytes : ℕ} : TallyRun M room h live →
      (ptr, bytes) ∈ live → TallyRun M room (pageHeapFree h ptr bytes) (live.erase (ptr, bytes))
  | resetPeak {h : HeapState} {live : Finset (ℕ × ℕ)} : TallyRun M room h live →
      TallyRun M room (pageHeapResetPeak h) live

theorem tallyInv_init : TallyInv .init ∅ := by
  refine ⟨?_, nofun, by simp, exact_init⟩
  simpa using accounted_init

theorem TallyRun.inv {regions : Finset (ℕ × ℕ)} (run : TallyRun M Room h regions) :
    TallyInv h regions := by
  induction run with
  | init => exact tallyInv_init
  | alloc opts os bytes alignment _ _ hos hroom ih => exact ih.alloc opts hroom hos
  | free _ hlive ih => exact ih.free hlive
  | resetPeak _ ih => exact ⟨ih.accounted.kept ⟨rfl, rfl, fun _ => Iff.rfl⟩, ih.anchorOk, ih.flags,
      ih.exact.resetPeak⟩

/-- The difference of the totals is what is mapped for the live regions, at every moment, and
the peak is its largest value since the last reset. -/
theorem tally_exact {regions : Finset (ℕ × ℕ)} (run : TallyRun M Room h regions) :
    (h.bytesMapped : ℤ) - h.bytesUnmapped = mappedBytes h regions ∧
    ((h.peakLiveBytes : ℤ) ∈ h.moments ∧ ∀ m ∈ h.moments, m ≤ h.peakLiveBytes) ∧
    ∀ opts os bytes alignment h', pageSize ∣ bytes → os.Legal M h bytes alignment →
      Room h bytes alignment → pageHeapAlloc M opts os h bytes alignment = (none, h') →
      (h'.bytesMapped : ℤ) - h'.bytesUnmapped = (h.bytesMapped : ℤ) - h.bytesUnmapped := by
  have hinv := run.inv
  have hbalance := hinv.exact.balance
  refine ⟨by omega, ⟨hinv.exact.attained, hinv.exact.bound⟩, ?_⟩
  intro opts os bytes alignment h' hbytes hos hroom hnone
  have hspec := pageHeapAlloc_spec opts hinv.anchorOk hos
  rw [hnone] at hspec
  have hbalance' := (Declined.exact hspec _ hinv.exact hroom).balance
  omega

/-- The mapping made for a region of 64 KiB is twice as long before it is trimmed. -/
theorem tally_exact_oneRegion :
    TallyRun twoNodes Room oneRegion {(65536, 65536)} ∧
      (oneRegion.bytesMapped : ℤ) - oneRegion.bytesUnmapped = 65536 ∧
      oneRegion.peakLiveBytes = 131072 := by
  have hlegal : plainAnswer.Legal twoNodes .init 65536 65536 := by
    refine ⟨nofun, nofun, nofun, fun p hp => ?_⟩
    cases hp
    exact ⟨by decide, by decide, by decide, fun _ _ _ => rfl, nofun⟩
  have hrun : TallyRun twoNodes Room oneRegion {(65536, 65536)} :=
    .alloc ⟨false, true⟩ plainAnswer 65536 65536 .init (by decide) hlegal (by simp [Room, HeapState.init])
  refine ⟨hrun, (tally_exact hrun).1.trans (by decide), by decide⟩

/-! ### A total that wraps -/

section Wrap

variable {t : ℕ}

/-- The kernel's answer to a request for many TiB. -/
def farAnswer : OsAnswers := ⟨none, none, some 65536, none, false, none, 0, false⟩

/-- Nothing is live and `t` bytes have been mapped and unmapped since the start. -/
structure Idle (h : HeapState) (t : ℕ) : Prop where
  count : h.regions.regionCount = 0
  anchor : ∀ res, h.anchor ≠ .ready res
  mapped : h.bytesMapped = t % 2 ^ 64
  unmapped : h.bytesUnmapped = t % 2 ^ 64
  space : ∀ x, h.space x = false

theorem anchorGet_far (h : HeapState) :
    anchorGet twoNodes farAnswer h = h ∨
      anchorGet twoNodes farAnswer h = { h with anchor := .failed } := by
  unfold anchorGet
  split
  · exact Or.inr rfl
  · exact Or.inl rfl

theorem Idle.legal (hidle : Idle h t) (hfar : bytes < 2 ^ 62) :
    farAnswer.Legal twoNodes h bytes 65536 := by
  refine ⟨nofun, nofun, nofun, fun p hp => ?_⟩
  cases hp
  have hpage : ¬65536 ≤ twoNodes.osPageSize := by decide
  have hin : 65536 + (bytes + 65536) < addressSpace := by
    unfold addressSpace
    omega
  rw [if_neg hpage]
  rcases anchorGet_far h with hget | hget
  · rw [hget]
    exact ⟨by decide, by decide, hin, fun x _ _ => hidle.space x,
      fun res hres => absurd hres (hidle.anchor res)⟩
  · rw [hget]
    exact ⟨by decide, by decide, hin, fun x _ _ => hidle.space x, nofun⟩

/-- The state in which the region is mapped and not yet registered. -/
def farMapped (h : HeapState) (bytes : ℕ) : HeapState :=
  (((anchorGet twoNodes farAnswer h).grant 65536 (bytes + 65536)).recordMmap
    (bytes + 65536)).trim (65536 + bytes) 65536

theorem reserveAligned_far (h : HeapState) (hfar : bytes < 2 ^ 62) :
    reserveAligned twoNodes farAnswer h bytes 65536 = (some 65536,
      ((h.grant 65536 (bytes + 65536)).recordMmap (bytes + 65536)).trim
        (65536 + bytes) 65536) := by
  have hpage : ¬65536 ≤ twoNodes.osPageSize := by decide
  have hover : ¬bytes > 2 ^ 64 - 1 - 65536 := by omega
  have haligned : alignUp 65536 65536 = 65536 := by decide
  have hpost : bytes + 65536 - 0 - bytes = 65536 := by omega
  simp only [reserveAligned, hpage, hover, if_false, farAnswer, haligned, Nat.sub_self, hpost]
  rfl

theorem anchorOrMmap_far (h : HeapState) (hbig : bytes ≥ hugePageSize) (hfar : bytes < 2 ^ 62) :
    anchorOrMmap twoNodes farAnswer h bytes 65536 = (some 65536, false, farMapped h bytes) := by
  have hcarve : ∀ res, anchorReservationCarve res bytes 65536 farAnswer.mprotect = none := by
    intro res
    simp [anchorReservationCarve, farAnswer]
  simp only [anchorOrMmap, hbig, if_true, reserveAligned_far _ hfar, hcarve, farMapped]
  split <;> rfl

theorem recordMmap_grant_frame (h : HeapState) (lo n m : ℕ) :
    ((h.grant lo n).recordMmap m).regions = h.regions ∧
      ((h.grant lo n).recordMmap m).anchor = h.anchor :=
  ⟨rfl, rfl⟩

theorem farMapped_regions (h : HeapState) (bytes : ℕ) :
    (farMapped h bytes).regions = h.regions := by
  rw [farMapped, trim_regions, (recordMmap_grant_frame ..).1]
  rcases anchorGet_far h with hget | hget
  · rw [hget]
  · rw [hget]

theorem Idle.farMapped_frame (hidle : Idle h t) (bytes : ℕ) :
    (∀ res, (farMapped h bytes).anchor ≠ .ready res) ∧
      ∀ x, (farMapped h bytes).space x = true → 65536 ≤ x ∧ x < 65536 + bytes := by
  have hget : (∀ res, (anchorGet twoNodes farAnswer h).anchor ≠ .ready res) ∧
      (anchorGet twoNodes farAnswer h).space = h.space := by
    rcases anchorGet_far h with hget | hget
    · rw [hget]
      exact ⟨hidle.anchor, rfl⟩
    · rw [hget]
      exact ⟨nofun, rfl⟩
  constructor
  · intro res
    rw [farMapped, trim_anchor, (recordMmap_grant_frame ..).2]
    exact hget.1 res
  · intro x hx
    rw [farMapped, trim_space, recordMmap_space, grant_space, hget.2, hidle.space x] at hx
    simp only [Bool.false_eq_true, or_false] at hx
    omega

/-- The state in which the region is live. -/
def farHeap (h : HeapState) (bytes : ℕ) : HeapState :=
  { farMapped h bytes with regions := (regionRegisterWithFlags h.regions 65536 bytes false).2 }

theorem farHeap_frame (h : HeapState) (bytes : ℕ) :
    (farHeap h bytes).anchor = (farMapped h bytes).anchor ∧
      (farHeap h bytes).space = (farMapped h bytes).space :=
  ⟨rfl, rfl⟩

theorem Idle.alloc (hidle : Idle h t) (hbig : bytes ≥ hugePageSize) (hfar : bytes < 2 ^ 62) :
    pageHeapAlloc twoNodes ⟨false, false⟩ farAnswer h bytes 65536 =
      (some 65536, farHeap h bytes) := by
  have hbad : ¬(bytes = 0 ∨ 65536 < pageSize ∨ isPowerOfTwo 65536 = false) := by
    have hpow : isPowerOfTwo 65536 = true := by decide
    simp only [hpow, pageSize, lt_irrefl, or_self, or_false, Bool.true_eq_false]
    unfold hugePageSize at hbig
    omega
  have hgigantic : tryGigantic ⟨false, false⟩ farAnswer bytes 65536 = none := by
    simp [tryGigantic]
  have hhuge : tryHugetlb ⟨false, false⟩ farAnswer bytes 65536 = none := by
    simp [tryHugetlb]
  have hreg : (regionRegisterWithFlags h.regions 65536 bytes false).1 = 0 := by
    simp [regionRegisterWithFlags, hidle.count, regionMapCapacity]
  have hadvise : ∀ T, adviseHuge ⟨false, false⟩ farAnswer T 65536 bytes false = T := by
    intro T
    simp [adviseHuge]
  simp only [pageHeapAlloc, hbad, if_false, hgigantic, hhuge, anchorOrMmap_far h hbig hfar,
    farMapped_regions, hreg, ne_eq, not_true, hadvise, bindAndAccount, bindToLocalNode, if_true,
    farHeap]

/-- What the two totals are while the region is live. -/
theorem Idle.farHeap_totals (hidle : Idle h t) (bytes : ℕ) :
    (farHeap h bytes).bytesMapped = (t + (bytes + 65536)) % 2 ^ 64 ∧
      (farHeap h bytes).bytesUnmapped = (t + 65536) % 2 ^ 64 ∧
      (farHeap h bytes).peakLiveBytes =
        max h.peakLiveBytes (liveBytes ((t + (bytes + 65536)) % 2 ^ 64) (t % 2 ^ 64)) := by
  have hget : (anchorGet twoNodes farAnswer h).totals = h.totals := by
    rcases anchorGet_far h with hget | hget
    · rw [hget]
    · rw [hget]
      rfl
  simp only [HeapState.totals, Prod.mk.injEq] at hget
  obtain ⟨hmapped, hunmapped, hpeak, -⟩ := hget
  have hpos : 65536 > 0 := by decide
  simp only [farHeap, farMapped, HeapState.trim, hpos, if_true, HeapState.recordMunmap,
    HeapState.revoke, HeapState.recordMmap, HeapState.grant, hmapped, hunmapped, hpeak,
    hidle.mapped, hidle.unmapped, Nat.mod_add_mod, and_self]

/-- The table with one region, and without it again. -/
theorem unregister_register (hcount : T.regionCount = 0) (hpos : 0 < bytes)
    (hwrap : p + bytes < addressSpace) :
    (regionUnregisterWithFlags (regionRegisterWithFlags T p bytes false).2 p).1 =
        (regionNodeUnbound, false) ∧
      (regionUnregisterWithFlags (regionRegisterWithFlags T p bytes false).2 p).2.regionCount =
        0 := by
  have hroom : T.regionCount < regionMapCapacity := by
    rw [hcount]
    decide
  have hempty : Represents T ∅ :=
    ⟨hroom.le, by simp [hcount], by simp [hcount], by simp [hcount]⟩
  have hone := regionRegister_represents hempty p bytes false hroom hpos hwrap (by simp)
  obtain ⟨hzero, hcount', -⟩ := regionRegister_ok hempty p bytes false hroom hwrap
  obtain ⟨-, hcells⟩ := register_cells hempty (Prod.ext hzero rfl)
  have hbound : regionLowerBound T p = 0 := by
    have hle := (hempty.lowerBound_isPoint p).le
    omega
  have hcell := hcells 0 (by omega)
  rw [hbound, if_neg (lt_irrefl _), if_pos rfl] at hcell
  have hstart : ((regionRegisterWithFlags T p bytes false).2.range 0).1 = p := by
    rw [range_fst, hcell]
  have hfind := hone.findByStart (by omega) hstart
  obtain ⟨hgone, -⟩ := regionUnregister_present hfind
  refine ⟨?_, by omega⟩
  simp only [regionUnregisterWithFlags, hfind, bumpSeq_regions, hcell]

theorem Idle.round (hidle : Idle h t) (hpos : 0 < bytes) (hfar : bytes < 2 ^ 62) :
    Idle (pageHeapFree (farHeap h bytes) 65536 bytes) (t + (bytes + 65536)) := by
  obtain ⟨hmapped, hunmapped, -⟩ := hidle.farHeap_totals bytes
  have hwrap : 65536 + bytes < addressSpace := by
    unfold addressSpace
    omega
  obtain ⟨hflags, hcount⟩ := unregister_register hidle.count hpos hwrap
  have hnot : ¬(65536 = 0 ∨ bytes = 0) := by omega
  obtain ⟨hanchor, hspace⟩ := hidle.farMapped_frame bytes
  rw [← (farHeap_frame h bytes).2] at hspace
  rw [← (farHeap_frame h bytes).1] at hanchor
  have hregions : (farHeap h bytes).regions =
    (regionRegisterWithFlags h.regions 65536 bytes false).2 := rfl
  rw [← hregions] at hflags hcount
  -- From here on only the fields of the state matter.
  generalize farHeap h bytes = live at *
  have hfree : pageHeapFree live 65536 bytes = ({ live with
      regions := (regionUnregisterWithFlags live.regions 65536).2 }.revoke
        65536 bytes).recordMunmap bytes := by
    simp only [pageHeapFree, hnot, if_false, hflags, HeapState.unaccount, ne_eq, not_true,
      false_and, Bool.false_eq_true]
  rw [hfree]
  refine ⟨hcount, hanchor, hmapped, ?_, fun x => ?_⟩
  · simp only [HeapState.recordMunmap, HeapState.revoke, hunmapped]
    omega
  · apply Bool.eq_false_of_not_eq_true
    intro hx
    rw [recordMunmap_space, revoke_space] at hx
    exact hx.1 (hspace x hx.2)

theorem Idle.rounds (n : ℕ) (hbig : bytes ≥ hugePageSize) (hfar : bytes < 2 ^ 62)
    (hpages : pageSize ∣ bytes) :
    ∃ h, TallyRun twoNodes (fun _ _ _ => True) h ∅ ∧ Idle h (n * (bytes + 65536)) := by
  have hpos : 0 < bytes := by
    unfold hugePageSize at hbig
    omega
  induction n with
  | zero => exact ⟨.init, .init, ⟨rfl, nofun, by simp [HeapState.init], by simp [HeapState.init],
      fun _ => rfl⟩⟩
  | succ n ih =>
    obtain ⟨h, hrun, hidle⟩ := ih
    have halloc := hidle.alloc hbig hfar
    have hrun' := hrun.alloc ⟨false, false⟩ farAnswer bytes 65536 hpages (hidle.legal hfar) trivial
    rw [halloc] at hrun'
    have hfreed := hrun'.free (Finset.mem_insert_self (65536, bytes) ∅)
    have hnone : (withRegion (some 65536) bytes ∅).erase (65536, bytes) = ∅ := by
      simp [withRegion]
    rw [hnone] at hfreed
    refine ⟨_, hfreed, ?_⟩
    rw [Nat.succ_mul]
    exact hidle.round hpos hfar

theorem Idle.resetPeak (hidle : Idle h t) :
    Idle (pageHeapResetPeak h) t ∧ (pageHeapResetPeak h).peakLiveBytes = 0 := by
  refine ⟨⟨hidle.count, hidle.anchor, hidle.mapped, hidle.unmapped, hidle.space⟩, ?_⟩
  simp only [pageHeapResetPeak, hidle.mapped, hidle.unmapped, liveBytes, gt_iff_lt, lt_irrefl,
    if_false]

/-- A region of 64 TiB, mapped and unmapped until the totals are about to wrap around. After the
peak has been reset the region is mapped once more: the total mapped is the smaller one, and the
peak stays 0. -/
theorem tally_wraps :
    ∃ h, TallyRun twoNodes (fun _ _ _ => True) h {(65536, 2 ^ 46)} ∧
      mappedBytes h {(65536, 2 ^ 46)} = 2 ^ 46 ∧
      (h.bytesMapped : ℤ) - h.bytesUnmapped < 0 ∧ h.peakLiveBytes = 0 := by
  have hbig : 2 ^ 46 ≥ hugePageSize := by decide
  have hfar : 2 ^ 46 < 2 ^ 62 := by decide
  have hpages : pageSize ∣ 2 ^ 46 := by decide
  obtain ⟨h, hrun, hidle⟩ := Idle.rounds (2 ^ 18 - 1) hbig hfar hpages
  obtain ⟨hidle, hpeak⟩ := hidle.resetPeak
  have hrun' := hrun.resetPeak.alloc ⟨false, false⟩ farAnswer (2 ^ 46) 65536 hpages
    (hidle.legal hfar) trivial
  rw [hidle.alloc hbig hfar] at hrun'
  obtain ⟨hmapped, hunmapped, hpeak'⟩ := hidle.farHeap_totals (2 ^ 46)
  obtain ⟨hanchor, -⟩ := hidle.farMapped_frame (2 ^ 46)
  rw [← (farHeap_frame ..).1] at hanchor
  rw [hpeak] at hpeak'
  generalize farHeap (pageHeapResetPeak h) (2 ^ 46) = last at *
  refine ⟨last, hrun', ?_, ?_, ?_⟩
  · have hout : last.anchor.contains 65536 = false := by
      unfold Anchor.contains
      split
      · rename_i res hres
        exact absurd hres (hanchor res)
      · rfl
    rw [mappedBytes, Finset.sum_singleton, hout]
    rfl
  · rw [hmapped, hunmapped]
    norm_num
  · rw [hpeak']
    norm_num [liveBytes]

end Wrap

end V8Malloc.PageHeap
