import V8Malloc.PageHeap.Acquire
import V8Malloc.PageHeap.RegionRuns

/-!
# What an allocation of the page heap obtains

`Acquired` says that one range became accessible and nothing else changed. Each
of the four sources acquires its result, and `pageHeapAlloc_spec` says once what
a whole call can do, to the ranges and to the byte totals. Only the two huge page
sources ignore the alignment they were asked for, which gives the exact condition
under which it is honoured.
-/
namespace V8Malloc.PageHeap

variable {M : Machine} {opts : Options} {os : OsAnswers} {h h' h₁ : HeapState}
variable {lo n p q bytes alignment live : ℕ} {used : Bool}

theorem exists_pow_of_isPowerOfTwo (ha : isPowerOfTwo alignment = true) :
    ∃ k, alignment = 2 ^ k := by
  simp only [isPowerOfTwo, ne_eq, Bool.and_eq_true, decide_eq_true_eq] at ha
  exact (Nat.and_sub_one_eq_zero_iff_isPowerOfTwo ha.1).1 ha.2

theorem alignUp_dvd (value alignment : ℕ) : alignment ∣ alignUp value alignment :=
  Nat.dvd_mul_left _ _

theorem alignUp_bounds (value : ℕ) (ha : 0 < alignment)
    (hw : value + (alignment - 1) < addressSpace) :
    value ≤ alignUp value alignment ∧ alignUp value alignment ≤ value + (alignment - 1) := by
  unfold alignUp
  rw [Nat.mod_eq_of_lt hw]
  have hdiv := Nat.div_add_mod (value + (alignment - 1)) alignment
  have hmod := Nat.mod_lt (value + (alignment - 1)) ha
  rw [mul_comm] at hdiv
  omega

/-! ### Accessible addresses -/

@[simp] theorem grant_space {x : ℕ} : (h.grant lo n).space x = true ↔
    (lo ≤ x ∧ x < lo + n) ∨ h.space x = true := by
  simp [HeapState.grant]

@[simp] theorem revoke_space {x : ℕ} : (h.revoke lo n).space x = true ↔
    ¬(lo ≤ x ∧ x < lo + n) ∧ h.space x = true := by
  simp only [HeapState.revoke, Bool.and_eq_true, Bool.not_eq_true', decide_eq_false_iff_not]

@[simp] theorem recordMmap_space : (h.recordMmap n).space = h.space := rfl
@[simp] theorem recordMunmap_space : (h.recordMunmap n).space = h.space := rfl

@[simp] theorem trim_space {x : ℕ} : (h.trim lo n).space x = true ↔
    ¬(lo ≤ x ∧ x < lo + n) ∧ h.space x = true := by
  unfold HeapState.trim
  split_ifs with hn
  · exact revoke_space
  · have hout : ¬(lo ≤ x ∧ x < lo + n) := by omega
    exact (and_iff_right hout).symm

@[simp] theorem trim_regions : (h.trim lo n).regions = h.regions := by
  unfold HeapState.trim; split_ifs <;> rfl

@[simp] theorem trim_perNodeBytes : (h.trim lo n).perNodeBytes = h.perNodeBytes := by
  unfold HeapState.trim; split_ifs <;> rfl

@[simp] theorem trim_anchor : (h.trim lo n).anchor = h.anchor := by
  unfold HeapState.trim; split_ifs <;> rfl

/-- A range the kernel may hand out: nothing of it is in use or reserved. -/
structure Fresh (h : HeapState) (lo n : ℕ) : Prop where
  pos : 0 < lo
  inSpace : lo + n < addressSpace
  unused : ∀ x, lo ≤ x → x < lo + n → h.space x = false
  outside : ∀ res, h.anchor = .ready res → lo + n ≤ res.base ∨ res.base + res.cap ≤ lo

/-- What is assumed of the kernel's answers to one call. The plain mapping is asked for
last, with the anchor already in place. -/
structure OsAnswers.Legal (os : OsAnswers) (M : Machine) (h : HeapState)
    (bytes alignment : ℕ) : Prop where
  gigantic : ∀ p, os.giganticMmap = some p → giganticBytes ∣ p ∧ Fresh h p bytes
  huge : ∀ p, os.hugeMmap = some p → hugePageSize ∣ p ∧ Fresh h p bytes
  anchor : ∀ p, os.anchorMmap = some p → M.osPageSize ∣ p ∧ Fresh h p (anchorCap M)
  plain : ∀ p, os.plainMmap = some p → M.osPageSize ∣ p ∧
    Fresh (anchorGet M os h) p (if alignment ≤ M.osPageSize then bytes else bytes + alignment)

/-- What the reservation has not handed out yet cannot be accessed. -/
def AnchorOk (h : HeapState) : Prop :=
  ∀ res, h.anchor = .ready res → 0 < res.base ∧ res.base + res.cap < addressSpace ∧
    ∀ x, res.base + res.bumpOffset ≤ x → x < res.base + res.cap → h.space x = false

/-- Nothing but the anchor and the byte totals differs. -/
structure Kept (h h' : HeapState) : Prop where
  regions : h'.regions = h.regions
  perNodeBytes : h'.perNodeBytes = h.perNodeBytes
  space : ∀ x, h'.space x = true ↔ h.space x = true

/-- The range was obtained: it could not be accessed before and can be now. -/
structure Acquired (h h' : HeapState) (p n : ℕ) : Prop where
  pos : 0 < p
  inSpace : p + n < addressSpace
  fresh : ∀ x, p ≤ x → x < p + n → h.space x = false
  regions : h'.regions = h.regions
  perNodeBytes : h'.perNodeBytes = h.perNodeBytes
  space : ∀ x, h'.space x = true ↔ (p ≤ x ∧ x < p + n) ∨ h.space x = true

theorem Kept.refl (h : HeapState) : Kept h h := ⟨rfl, rfl, fun _ => Iff.rfl⟩

theorem Kept.acquired (hk : Kept h h₁) (ha : Acquired h₁ h' p n) : Acquired h h' p n where
  pos := ha.pos
  inSpace := ha.inSpace
  fresh x hlo hhi := by
    have hx := ha.fresh x hlo hhi
    have := hk.space x
    cases hs : h.space x <;> simp_all
  regions := ha.regions.trans hk.regions
  perNodeBytes := ha.perNodeBytes.trans hk.perNodeBytes
  space x := by rw [ha.space, hk.space]

/-- Giving the range back leaves what was there before. -/
theorem Acquired.revoke (ha : Acquired h h' p n) : Kept h (h'.revoke p n) where
  regions := ha.regions
  perNodeBytes := ha.perNodeBytes
  space x := by
    have hfresh := ha.fresh x
    rw [revoke_space, ha.space]
    constructor
    · rintro ⟨hout, hin | hs⟩
      · exact absurd hin hout
      · exact hs
    · intro hs
      refine ⟨fun hin => ?_, Or.inr hs⟩
      simp [hfresh hin.1 hin.2] at hs

theorem AnchorOk.of_space (ha : AnchorOk h) (hanchor : h'.anchor = h.anchor)
    (hspace : ∀ x, h'.space x = true → h.space x = true) : AnchorOk h' := by
  intro res hres
  obtain ⟨hpos, hcap, hfree⟩ := ha res (hanchor ▸ hres)
  refine ⟨hpos, hcap, fun x hlo hhi => ?_⟩
  have hx := hfree x hlo hhi
  have := hspace x
  cases hs : h'.space x <;> simp_all

theorem AnchorOk.revoke (ha : AnchorOk h) (lo n : ℕ) : AnchorOk (h.revoke lo n) :=
  ha.of_space rfl fun _ hx => (revoke_space.1 hx).2

theorem AnchorOk.grant (ha : AnchorOk h) (hf : Fresh h lo n) : AnchorOk (h.grant lo n) := by
  intro res hres
  obtain ⟨hpos, hcap, hfree⟩ := ha res hres
  refine ⟨hpos, hcap, fun x hlo hhi => ?_⟩
  have hout := hf.outside res hres
  have hx := hfree x hlo hhi
  simp only [← Bool.not_eq_true, grant_space, hx, Bool.false_eq_true, or_false]
  omega

theorem Fresh.acquired (hf : Fresh h p n) : Acquired h ((h.grant p n).recordMmap n) p n :=
  ⟨hf.pos, hf.inSpace, hf.unused, rfl, rfl, fun _ => grant_space⟩

/-! ### The totals -/

/-- The totals differ by `live` bytes, and the peak is the largest of its moments. -/
structure Exact (h : HeapState) (live : ℕ) : Prop where
  balance : h.bytesUnmapped + live = h.bytesMapped
  small : h.bytesMapped < 2 ^ 64
  le_peak : live ≤ h.peakLiveBytes
  attained : (h.peakLiveBytes : ℤ) ∈ h.moments
  bound : ∀ m ∈ h.moments, m ≤ h.peakLiveBytes

theorem liveBytes_eq (hbalance : n + live = p) : liveBytes p n = live := by
  unfold liveBytes
  split_ifs <;> omega

theorem exact_init : Exact .init 0 := by
  constructor <;> simp [HeapState.init]

theorem Exact.recordMmap (hx : Exact h live) (hroom : h.bytesMapped + n < 2 ^ 64) :
    Exact (h.recordMmap n) (live + n) := by
  have hbalance := hx.balance
  have hmapped : (h.bytesMapped + n) % 2 ^ 64 = h.bytesMapped + n := Nat.mod_eq_of_lt hroom
  have hlive : liveBytes (h.bytesMapped + n) h.bytesUnmapped = live + n := by
    apply liveBytes_eq
    omega
  have hmoment : ((h.bytesMapped + n : ℕ) : ℤ) - h.bytesUnmapped = (live + n : ℕ) := by
    push_cast [← hbalance]
    ring
  constructor <;> simp only [HeapState.recordMmap, hmapped, hlive, hmoment]
  · omega
  · exact hroom
  · exact le_max_right _ _
  · rcases le_total h.peakLiveBytes (live + n) with hle | hle
    · rw [max_eq_right hle]
      exact List.mem_cons_self
    · rw [max_eq_left hle]
      exact List.mem_cons_of_mem _ hx.attained
  · intro m hm
    rcases List.mem_cons.1 hm with rfl | hm
    · exact Int.ofNat_le.2 (le_max_right _ _)
    · exact (hx.bound m hm).trans (Int.ofNat_le.2 (le_max_left _ _))

theorem Exact.recordMunmap (hx : Exact h live) (hn : n ≤ live) :
    Exact (h.recordMunmap n) (live - n) := by
  have hbalance := hx.balance
  have hsmall := hx.small
  have hpeak := hx.le_peak
  have hunmapped : (h.bytesUnmapped + n) % 2 ^ 64 = h.bytesUnmapped + n :=
    Nat.mod_eq_of_lt (by omega)
  constructor <;> simp only [HeapState.recordMunmap, hunmapped]
  · omega
  · exact hsmall
  · omega
  · exact List.mem_cons_of_mem _ hx.attained
  · intro m hm
    rcases List.mem_cons.1 hm with rfl | hm
    · omega
    · exact hx.bound m hm

theorem Exact.resetPeak (hx : Exact h live) : Exact (pageHeapResetPeak h) live := by
  have hbalance := hx.balance
  have hlive := liveBytes_eq hbalance
  constructor <;> simp only [pageHeapResetPeak, hlive]
  · exact hbalance
  · exact hx.small
  · exact le_rfl
  · rw [List.mem_singleton]
    omega
  · intro m hm
    rw [List.mem_singleton] at hm
    omega

/-- The totals, the peak and its moments. -/
def HeapState.totals (h : HeapState) : ℕ × ℕ × ℕ × List ℤ :=
  (h.bytesMapped, h.bytesUnmapped, h.peakLiveBytes, h.moments)

theorem Exact.congr (hx : Exact h live) (htotals : h'.totals = h.totals) : Exact h' live := by
  simp only [HeapState.totals, Prod.mk.injEq] at htotals
  obtain ⟨hmapped, hunmapped, hpeak, hmoments⟩ := htotals
  constructor
  · rw [hmapped, hunmapped]
    exact hx.balance
  · rw [hmapped]
    exact hx.small
  · rw [hpeak]
    exact hx.le_peak
  · rw [hpeak, hmoments]
    exact hx.attained
  · rw [hpeak, hmoments]
    exact hx.bound

theorem Exact.grant (hx : Exact h live) (lo n : ℕ) : Exact (h.grant lo n) live :=
  hx.congr rfl

theorem Exact.revoke (hx : Exact h live) (lo n : ℕ) : Exact (h.revoke lo n) live :=
  hx.congr rfl

theorem Exact.trim (hx : Exact h live) (lo : ℕ) (hn : n ≤ live) : Exact (h.trim lo n) (live - n) := by
  unfold HeapState.trim
  split_ifs with hpos
  · exact (hx.revoke lo n).recordMunmap hn
  · obtain rfl : n = 0 := by omega
    exact hx

/-- Whether an address lies in the reservation. -/
def Anchor.contains (anchor : Anchor) (q : ℕ) : Bool :=
  match anchor with
  | .ready res => res.base ≤ q && q < res.base + res.cap
  | _ => false

theorem Fresh.not_contains (hf : Fresh h p n) (hlo : p ≤ q) (hhi : q < p + n) :
    h.anchor.contains q = false := by
  cases hanchor : h.anchor with
  | untried => rfl
  | failed => rfl
  | ready res =>
    have hout := hf.outside res hanchor
    simp only [Anchor.contains, Bool.and_eq_false_iff, decide_eq_false_iff_not]
    omega

/-- A call has obtained nothing, or given it back. -/
structure Declined (h : HeapState) (bytes alignment : ℕ) (h' : HeapState) : Prop
    extends Kept h h' where
  anchorOk : AnchorOk h'
  span : ∀ q, h.space q = true → h'.anchor.contains q = h.anchor.contains q
  exact : ∀ live, Exact h live → h.bytesMapped + (bytes + alignment) < 2 ^ 64 → Exact h' live

/-- A range was obtained for a call; `used` says that it was carved from the anchor. -/
structure Obtained (h : HeapState) (bytes alignment p : ℕ) (used : Bool) (h₁ : HeapState) : Prop
    extends Acquired h h₁ p bytes where
  anchorOk : AnchorOk h₁
  span : ∀ q, h.space q = true → h₁.anchor.contains q = h.anchor.contains q
  exact : ∀ live, Exact h live → h.bytesMapped + (bytes + alignment) < 2 ^ 64 →
    Exact h₁ (if used then live else live + bytes)
  source : h₁.anchor.contains p = used
  inside : used = true → ∃ res, h₁.anchor = .ready res ∧ res.base ≤ p ∧
    p + bytes ≤ res.base + res.cap

theorem Declined.refl (ha : AnchorOk h) : Declined h bytes alignment h :=
  ⟨.refl h, ha, fun _ _ => rfl, fun _ hx _ => hx⟩

theorem Declined.mapped (hd : Declined h bytes alignment h₁) (hsame : h₁.bytesMapped = h.bytesMapped)
    (hbytes : 0 < bytes) (hf : Fresh h₁ p bytes) :
    Obtained h bytes alignment p false ((h₁.grant p bytes).recordMmap bytes) := by
  refine ⟨hd.toKept.acquired hf.acquired, hd.anchorOk.grant hf, hd.span, fun live hx hroom => ?_,
    hf.not_contains le_rfl (by omega), nofun⟩
  apply ((hd.exact live hx hroom).grant p bytes).recordMmap
  change h₁.bytesMapped + bytes < 2 ^ 64
  omega

/-! ### The anchor -/

/-- A reservation made now covers nothing that was accessible. -/
theorem anchorGet_spec (ha : AnchorOk h) (hos : os.Legal M h bytes alignment) :
    Declined h bytes alignment (anchorGet M os h) ∧
      (anchorGet M os h).bytesMapped = h.bytesMapped := by
  unfold anchorGet
  split
  · rename_i huntried
    split
    · exact ⟨⟨⟨rfl, rfl, fun _ => Iff.rfl⟩, nofun, fun q _ => by rw [huntried]; rfl,
        fun live hx _ => hx.congr rfl⟩, rfl⟩
    · rename_i base hbase
      obtain ⟨-, hf⟩ := hos.anchor base hbase
      refine ⟨⟨⟨rfl, rfl, fun _ => Iff.rfl⟩, ?_, fun q hq => ?_, fun live hx _ => hx.congr rfl⟩, rfl⟩
      · intro res hres
        cases hres
        exact ⟨hf.pos, hf.inSpace, fun x hlo hhi => hf.unused x (by simpa using hlo) hhi⟩
      · rw [huntried]
        simp only [Anchor.contains, Bool.and_eq_false_iff, decide_eq_false_iff_not]
        by_contra hin
        push Not at hin
        simp [hf.unused q hin.1 hin.2] at hq
  · exact ⟨.refl ha, rfl⟩

theorem alignUp_lt (value : ℕ) (alignment : ℕ) : alignUp value alignment < addressSpace :=
  lt_of_le_of_lt (Nat.div_mul_le_self _ _) (Nat.mod_lt _ (by decide))

theorem alignUp_zero (hpos : 0 < alignment) : alignUp 0 alignment = 0 := by
  have hlt : (0 + (alignment - 1)) % addressSpace < alignment :=
    lt_of_le_of_lt (Nat.mod_le _ _) (by omega)
  rw [alignUp, Nat.div_eq_of_lt hlt, Nat.zero_mul]

/-- What a carve that succeeds has passed; the offset wraps with the address space. -/
theorem carve_eq_some {res res' : AnchorReservation} {mprotect : Bool}
    (hc : anchorReservationCarve res bytes alignment mprotect = some (p, res')) :
    (0 < res.base ∧ 0 < bytes) ∧ mprotect = true ∧
      p = alignUp ((res.base + res.bumpOffset) % addressSpace) (max alignment 1) ∧
      (res.base + res.bumpOffset) % addressSpace ≤ p ∧ res'.base = res.base ∧ res'.cap = res.cap ∧
      res'.bumpOffset = (p + addressSpace - res.base) % addressSpace + bytes := by
  have halign : (if alignment = 0 then 1 else alignment) = max alignment 1 := by
    split_ifs <;> omega
  simp only [anchorReservationCarve, halign] at hc
  by_cases hnull : res.base = 0 ∨ bytes = 0
  · simp [hnull] at hc
  by_cases hpow : (max alignment 1 &&& (max alignment 1 - 1)) ≠ 0
  · simp [hnull, hpow] at hc
  rw [if_neg hnull, if_neg hpow] at hc
  split at hc
  · cases hc
  · rename_i hwrap
    split at hc
    · cases hc
    · split at hc
      · rename_i hprot
        obtain ⟨rfl, rfl⟩ := Prod.mk.inj (Option.some.inj hc)
        exact ⟨by omega, hprot, rfl, not_lt.1 hwrap, rfl, rfl, rfl⟩
      · cases hc

/-- A carve is aligned, starts behind all earlier ones and ends inside the reservation. -/
theorem carve_spec {res res' : AnchorReservation} {mprotect : Bool}
    (hcap : res.base + res.cap ≤ addressSpace)
    (hc : anchorReservationCarve res bytes alignment mprotect = some (p, res')) :
    max alignment 1 ∣ p ∧ res.base + res.bumpOffset ≤ p ∧ p + bytes ≤ res.base + res.cap ∧
      res'.base = res.base ∧ res'.cap = res.cap ∧ res'.base + res'.bumpOffset = p + bytes := by
  obtain ⟨⟨hbase, hbytes⟩, -, hp, hle, eb, ec, hbump⟩ := carve_eq_some hc
  have hdvd : max alignment 1 ∣ p := hp ▸ alignUp_dvd _ _
  have hlt : p < addressSpace := hp ▸ alignUp_lt _ _
  have hroom := res'.bump_le
  have hold := res.bump_le
  rw [ec, hbump] at hroom
  rcases Nat.lt_or_ge (res.base + res.bumpOffset) addressSpace with hin | hend
  · rw [Nat.mod_eq_of_lt hin] at hle
    have hoffset : (p + addressSpace - res.base) % addressSpace = p - res.base := by
      rw [show p + addressSpace - res.base = p - res.base + addressSpace by omega,
        Nat.add_mod_right, Nat.mod_eq_of_lt (by omega)]
    rw [hoffset] at hroom hbump
    exact ⟨hdvd, hle, by omega, eb, ec, by omega⟩
  · -- the reservation ends with the address space and is used up
    rw [show res.base + res.bumpOffset = addressSpace by omega, Nat.mod_self,
      alignUp_zero (by omega)] at hp
    rw [hp, Nat.zero_add, Nat.mod_eq_of_lt (by omega)] at hroom
    omega

/-! ### The plain mapping -/

/-- What the last two sources deliver. -/
def Sourced (h : HeapState) (bytes alignment : ℕ) : Option ℕ × Bool × HeapState → Prop
  | (none, _, h') => Declined h bytes alignment h'
  | (some p, used, h') => Obtained h bytes alignment p used h' ∧ alignment ∣ p

/-- The part left after trimming is exactly the aligned range asked for. The mapping is recorded
at its full length and then what is trimmed off. -/
theorem reserveAligned_spec (hd : Declined h bytes alignment h₁)
    (hsame : h₁.bytesMapped = h.bytesMapped) (hbytes : 0 < bytes) (hpow : ∃ k, alignment = 2 ^ k)
    (hf : ∀ p, os.plainMmap = some p → M.osPageSize ∣ p ∧
      Fresh h₁ p (if alignment ≤ M.osPageSize then bytes else bytes + alignment)) :
    Sourced h bytes alignment ((reserveAligned M os h₁ bytes alignment).1, false,
      (reserveAligned M os h₁ bytes alignment).2) := by
  unfold reserveAligned
  cases hm : os.plainMmap with
  | none => split_ifs <;> exact hd
  | some raw =>
    obtain ⟨hdvd, hfresh⟩ := hf raw hm
    split_ifs with hpage hover
    · rw [if_pos hpage] at hfresh
      obtain ⟨k, rfl⟩ := hpow
      obtain ⟨j, hj⟩ := M.osPage_pow
      rw [hj] at hpage hdvd
      have hle : k ≤ j := (Nat.pow_le_pow_iff_right (by decide)).1 hpage
      exact ⟨hd.mapped hsame hbytes hfresh, (pow_dvd_pow 2 hle).trans hdvd⟩
    · exact hd
    · rw [if_neg hpage] at hfresh
      have hpos : 0 < alignment := by omega
      have hin := hfresh.inSpace
      obtain ⟨hge, hle⟩ := alignUp_bounds raw hpos (by omega)
      have hacq : Acquired h₁ ((((h₁.grant raw (bytes + alignment)).recordMmap
          (bytes + alignment)).trim raw (alignUp raw alignment - raw)).trim
          (alignUp raw alignment + bytes)
          (bytes + alignment - (alignUp raw alignment - raw) - bytes))
          (alignUp raw alignment) bytes := by
        refine ⟨by have := hfresh.pos; omega, by omega, ?_, ?_, ?_, ?_⟩
        · exact fun x hlo hhi => hfresh.unused x (by omega) (by omega)
        · simp only [trim_regions]
          rfl
        · simp only [trim_perNodeBytes]
          rfl
        · intro x
          have hun := hfresh.unused x
          simp only [trim_space, recordMmap_space, grant_space]
          by_cases hx : h₁.space x = true
          · have hout : ¬(raw ≤ x ∧ x < raw + (bytes + alignment)) := fun hin' => by
              simp [hun hin'.1 hin'.2] at hx
            simp only [hx, or_true, and_true, iff_true]
            omega
          · rw [Bool.not_eq_true] at hx
            simp only [hx, Bool.false_eq_true, or_false]
            omega
      refine ⟨⟨hd.toKept.acquired hacq, ?_, fun q hq => ?_, fun live hx hroom => ?_, ?_, nofun⟩,
        alignUp_dvd _ _⟩
      · refine (hd.anchorOk.grant hfresh).of_space (by simp only [trim_anchor]; rfl) ?_
        intro x hx
        exact (trim_space.1 (trim_space.1 hx).2).2
      · simp only [trim_anchor]
        exact hd.span q hq
      · have hmapped := ((hd.exact live hx hroom).grant raw (bytes + alignment)).recordMmap
          (hsame ▸ hroom)
        have hpre : alignUp raw alignment - raw ≤ live + (bytes + alignment) := by omega
        have hpost : bytes + alignment - (alignUp raw alignment - raw) - bytes ≤
            live + (bytes + alignment) - (alignUp raw alignment - raw) := by omega
        convert (hmapped.trim raw hpre).trim (alignUp raw alignment + bytes) hpost using 1
        simp only [Bool.false_eq_true, if_false]
        omega
      · simp only [trim_anchor]
        exact hfresh.not_contains hge (by omega)

/-! ### Where a range comes from -/

theorem Fresh.of_anchorGet (hf : Fresh (anchorGet M os h) lo n) : Fresh h lo n where
  pos := hf.pos
  inSpace := hf.inSpace
  unused x hlo hhi := by
    have hx := hf.unused x hlo hhi
    unfold anchorGet at hx
    split at hx
    · split at hx <;> exact hx
    · exact hx
  outside res hres := by
    have hkeep : anchorGet M os h = h := by simp [anchorGet, hres]
    exact hf.outside res (hkeep.symm ▸ hres)

/-- Carving opens the range and moves the bump offset behind it. -/
theorem carve_acquired {res res' : AnchorReservation} {mprotect : Bool} (ha : AnchorOk h)
    (hres : h.anchor = .ready res) (hpos : 0 < alignment)
    (hc : anchorReservationCarve res bytes alignment mprotect = some (p, res')) :
    Acquired h { h.grant p bytes with anchor := .ready res' } p bytes ∧
      AnchorOk { h.grant p bytes with anchor := .ready res' } ∧ alignment ∣ p ∧
      res'.base ≤ p ∧ p + bytes ≤ res'.base + res'.cap := by
  obtain ⟨hbase, hcap, hfree⟩ := ha res hres
  obtain ⟨hdvd, hlo, hhi, eb, ec, hbump⟩ := carve_spec hcap.le hc
  rw [max_eq_left (show 1 ≤ alignment from hpos)] at hdvd
  refine ⟨⟨by omega, by omega, fun x h1 h2 => hfree x (by omega) (by omega), rfl, rfl,
    fun _ => grant_space⟩, ?_, hdvd, by omega, by omega⟩
  intro r hr
  cases hr
  refine ⟨by omega, by omega, fun x h1 h2 => ?_⟩
  have hx := hfree x (by omega) (by omega)
  change (h.grant p bytes).space x = false
  simp only [← Bool.not_eq_true, grant_space, hx, Bool.false_eq_true, or_false]
  omega

theorem anchorOrMmap_spec (ha : AnchorOk h) (hbytes : 0 < bytes) (hpow : ∃ k, alignment = 2 ^ k)
    (hos : os.Legal M h bytes alignment) :
    Sourced h bytes alignment (anchorOrMmap M os h bytes alignment) := by
  have hpos : 0 < alignment := by
    obtain ⟨k, rfl⟩ := hpow
    exact Nat.two_pow_pos k
  obtain ⟨hget, hsame⟩ := anchorGet_spec ha hos
  have hplain := reserveAligned_spec hget hsame hbytes hpow hos.plain
  unfold anchorOrMmap
  split_ifs with hbig
  · dsimp only
    split
    · rename_i res hanchor
      split
      · rename_i carved res' hc
        obtain ⟨hacq, hok, hdvd, hin⟩ := carve_acquired hget.anchorOk hanchor hpos hc
        obtain ⟨-, -, -, hbase, hcap, -⟩ := carve_spec (hget.anchorOk res hanchor).2.1.le hc
        refine ⟨⟨hget.toKept.acquired hacq, hok, fun q hq => ?_,
          fun live hx hroom => (hget.exact live hx hroom).congr rfl, ?_,
          fun _ => ⟨res', rfl, hin⟩⟩, hdvd⟩
        · rw [← hget.span q hq, hanchor]
          simp only [Anchor.contains, hbase, hcap]
        · simp only [Anchor.contains, Bool.and_eq_true, decide_eq_true_eq]
          omega
      · exact hplain
    · exact hplain
  · exact reserveAligned_spec (.refl ha) rfl hbytes hpow fun p hp =>
      ⟨(hos.plain p hp).1, (hos.plain p hp).2.of_anchorGet⟩

/-! ### A whole call -/

/-- The requests for which no huge page mapping can miss the alignment. -/
def AlignmentKept (opts : Options) (bytes alignment : ℕ) : Prop :=
  opts.hugePages = false ∨ alignment ≤ hugePageSize ∨ ¬hugePageSize ∣ bytes ∨
    addressSpace ≤ bytes + hugePageSize

/-- What a call of the page heap can do: nothing that counts, or acquire a range, register
it, possibly note its promotion, and bind it. -/
def Allocated (M : Machine) (opts : Options) (os : OsAnswers) (h : HeapState)
    (bytes alignment : ℕ) : Option ℕ × HeapState → Prop
  | (none, h') => Declined h bytes alignment h'
  | (some p, h') => ∃ h₁ used T T', Obtained h bytes alignment p used h₁ ∧
      (AlignmentKept opts bytes alignment → alignment ∣ p) ∧
      regionRegisterWithFlags h.regions p bytes used = (0, T) ∧
      (T' = T ∨ ∃ tsc, T' = regionRecordPromote T p tsc) ∧
      h' = bindAndAccount M opts os { h₁ with regions := T' } p bytes

theorem anchorReservationRelease_revokes {res : AnchorReservation}
    (hanchor : h.anchor = .ready res) (hn : 0 < n) (hlo : res.base ≤ p)
    (hhi : p + n ≤ res.base + res.cap) : anchorReservationRelease h p n = h.revoke p n := by
  simp only [anchorReservationRelease, hanchor]
  exact if_neg (by omega)

/-- A range that could not be registered goes back to where it came from. -/
theorem Obtained.rolledBack (ho : Obtained h bytes alignment p used h₁) (hbytes : 0 < bytes) :
    Declined h bytes alignment (if used then anchorReservationRelease h₁ p bytes
      else (h₁.revoke p bytes).recordMunmap bytes) := by
  have hk := ho.toAcquired.revoke
  have hexact := ho.exact
  cases used with
  | true =>
    obtain ⟨res, hanchor, hlo, hhi⟩ := ho.inside rfl
    rw [if_pos rfl, anchorReservationRelease_revokes hanchor hbytes hlo hhi]
    exact ⟨hk, ho.anchorOk.revoke p bytes, ho.span,
      fun live hx hroom => (hexact live hx hroom).revoke p bytes⟩
  | false =>
    refine ⟨⟨hk.regions, hk.perNodeBytes, hk.space⟩, ho.anchorOk.revoke p bytes, ho.span,
      fun live hx hroom => ?_⟩
    have hback := ((hexact live hx hroom).revoke p bytes).recordMunmap (Nat.le_add_left bytes live)
    simpa only [if_false, Bool.false_eq_true, Nat.add_sub_cancel] using hback

theorem registerAndBindMmap_spec (ha : AnchorOk h) (hbytes : 0 < bytes) (hf : Fresh h p bytes)
    (hdvd : AlignmentKept opts bytes alignment → alignment ∣ p) :
    Allocated M opts os h bytes alignment (registerAndBindMmap M opts os h p bytes) := by
  have ho : Obtained h bytes alignment p false _ := Declined.mapped (.refl ha) rfl hbytes hf
  simp only [registerAndBindMmap]
  split_ifs with hreg
  · exact ho.rolledBack hbytes
  · exact ⟨_, false, _, _, ho, hdvd, Prod.ext (not_not.1 hreg) rfl, .inl rfl, rfl⟩

theorem adviseHuge_cases (opts : Options) (os : OsAnswers) (T : RegionMap) (p bytes : ℕ)
    (used : Bool) : adviseHuge opts os T p bytes used = T ∨
      ∃ tsc, adviseHuge opts os T p bytes used = regionRecordPromote T p tsc := by
  unfold adviseHuge
  cases os.promote with
  | none => left; split_ifs <;> rfl
  | some tsc =>
    split_ifs
    · exact .inl rfl
    · exact .inr ⟨tsc, rfl⟩
    · exact .inl rfl

theorem tryGigantic_some (hg : tryGigantic opts os bytes alignment = some p) :
    os.giganticMmap = some p ∧ giganticBytes ∣ bytes ∧ giganticBytes ≤ alignment ∧
      opts.hugePages = true := by
  unfold tryGigantic at hg
  split_ifs at hg with hc
  simp only [not_or, not_lt, not_not, Bool.not_eq_false] at hc
  exact ⟨hg, Nat.dvd_of_mod_eq_zero hc.2.1, hc.2.2⟩

theorem tryHugetlb_some (hg : tryHugetlb opts os bytes alignment = some p) :
    os.hugeMmap = some p ∧ hugePageSize ∣ bytes ∧ hugePageSize ≤ alignment ∧
      opts.hugePages = true := by
  unfold tryHugetlb at hg
  split_ifs at hg with hc
  simp only [not_or, not_lt, not_not, Bool.not_eq_false] at hc
  exact ⟨hg, Nat.dvd_of_mod_eq_zero hc.2.1, hc.2.2⟩

/-- A 2 MiB page is aligned to 2 MiB and to no more. -/
theorem huge_dvd (hp : hugePageSize ∣ p) (hf : Fresh h p bytes) (hb : hugePageSize ∣ bytes)
    (hpow : ∃ k, alignment = 2 ^ k) (hon : opts.hugePages = true)
    (hk : AlignmentKept opts bytes alignment) : alignment ∣ p := by
  have hle : hugePageSize ≤ p := Nat.le_of_dvd hf.pos hp
  have hin := hf.inSpace
  rcases hk with hoff | hsmall | hshape | hlong
  · simp [hon] at hoff
  · obtain ⟨k, rfl⟩ := hpow
    have h21 : hugePageSize = 2 ^ 21 := rfl
    rw [h21] at hsmall hp
    exact (pow_dvd_pow 2 ((Nat.pow_le_pow_iff_right (by decide)).1 hsmall)).trans hp
  · exact absurd hb hshape
  · omega

theorem pageHeapAlloc_spec (opts : Options) (ha : AnchorOk h) (hos : os.Legal M h bytes alignment) :
    Allocated M opts os h bytes alignment (pageHeapAlloc M opts os h bytes alignment) := by
  have hgiant : hugePageSize ∣ giganticBytes := by decide
  unfold pageHeapAlloc
  split_ifs with hbad
  · exact Declined.refl ha
  simp only [not_or, Bool.not_eq_false] at hbad
  have hbytes := Nat.pos_of_ne_zero hbad.1
  have hpow := exists_pow_of_isPowerOfTwo hbad.2.2
  split
  · rename_i gigantic hg
    obtain ⟨hm, hb, -, hon⟩ := tryGigantic_some hg
    obtain ⟨hdvd, hf⟩ := hos.gigantic _ hm
    exact registerAndBindMmap_spec ha hbytes hf
      (huge_dvd (hgiant.trans hdvd) hf (hgiant.trans hb) hpow hon)
  split
  · rename_i huge hg
    obtain ⟨hm, hb, -, hon⟩ := tryHugetlb_some hg
    obtain ⟨hdvd, hf⟩ := hos.huge _ hm
    exact registerAndBindMmap_spec ha hbytes hf (huge_dvd hdvd hf hb hpow hon)
  have hsource := anchorOrMmap_spec ha hbytes hpow hos
  split
  · rename_i used h₁ hout
    rw [hout] at hsource
    exact hsource
  · rename_i result used h₁ hout
    rw [hout] at hsource
    obtain ⟨ho, hdvd⟩ := hsource
    dsimp only
    by_cases hreg : (regionRegisterWithFlags h₁.regions result bytes used).1 = 0
    · rw [if_neg (not_not.2 hreg)]
      refine ⟨h₁, used, _, _, ho, fun _ => hdvd, Prod.ext (ho.regions ▸ hreg) rfl, ?_, rfl⟩
      rw [ho.regions]
      exact adviseHuge_cases opts os _ result bytes used
    · rw [if_pos hreg]
      have hback := ho.rolledBack hbytes
      cases used <;> exact hback

/-! ### Runs -/

/-- States reached from the empty page heap. A free names a live region with the byte count
it was allocated with; rebalancing is restricted to the states `quiet` admits. -/
inductive Reached (M : Machine) (quiet : HeapState → Prop) : HeapState → Prop
  | init : Reached M quiet .init
  | alloc {h : HeapState} (opts : Options) (os : OsAnswers) (bytes alignment : ℕ) :
      Reached M quiet h → os.Legal M h bytes alignment →
      Reached M quiet (pageHeapAlloc M opts os h bytes alignment).2
  | free {h : HeapState} (ptr bytes : ℕ) : Reached M quiet h →
      (∃ i < h.regions.regionCount, h.regions.range i = (ptr, ptr + bytes)) →
      Reached M quiet (pageHeapFree h ptr bytes)
  | rebalance {h : HeapState} : Reached M quiet h → quiet h →
      Reached M quiet (pageHeapNumaRebalance M h)

@[simp] theorem bindAndAccount_space : (bindAndAccount M opts os h p bytes).space = h.space := by
  unfold bindAndAccount; split <;> rfl

@[simp] theorem bindAndAccount_anchor :
    (bindAndAccount M opts os h p bytes).anchor = h.anchor := by
  unfold bindAndAccount; split <;> rfl

theorem anchorReservationRelease_shrinks (h : HeapState) (ptr bytes : ℕ) :
    (anchorReservationRelease h ptr bytes).anchor = h.anchor ∧
      (anchorReservationRelease h ptr bytes).totals = h.totals ∧
      ∀ x, (anchorReservationRelease h ptr bytes).space x = true → h.space x = true := by
  unfold anchorReservationRelease
  split
  · split_ifs
    · exact ⟨rfl, rfl, fun _ hx => hx⟩
    · exact ⟨rfl, rfl, fun _ hx => (revoke_space.1 hx).2⟩
  · exact ⟨rfl, rfl, fun _ hx => hx⟩

@[simp] theorem unaccount_space (h : HeapState) (node : ℕ) :
    (h.unaccount node n).space = h.space := by
  unfold HeapState.unaccount; split_ifs <;> rfl

@[simp] theorem unaccount_anchor (h : HeapState) (node : ℕ) :
    (h.unaccount node n).anchor = h.anchor := by
  unfold HeapState.unaccount; split_ifs <;> rfl

theorem pageHeapFree_shrinks (h : HeapState) (ptr bytes : ℕ) :
    (pageHeapFree h ptr bytes).anchor = h.anchor ∧
      ∀ x, (pageHeapFree h ptr bytes).space x = true → h.space x = true := by
  unfold pageHeapFree
  split_ifs with hnull
  · exact ⟨rfl, fun _ hx => hx⟩
  dsimp only
  split_ifs
  · obtain ⟨hanchor, -, hspace⟩ := anchorReservationRelease_shrinks
      (HeapState.unaccount { h with regions := (regionUnregisterWithFlags h.regions ptr).2 }
        (regionUnregisterWithFlags h.regions ptr).1.1 bytes) ptr bytes
    rw [unaccount_anchor] at hanchor
    rw [unaccount_space] at hspace
    exact ⟨hanchor, hspace⟩
  · refine ⟨unaccount_anchor _ _, fun x hx => ?_⟩
    have hx := (revoke_space.1 hx).2
    rwa [unaccount_space] at hx

theorem pageHeapNumaRebalance_frame (M : Machine) (h : HeapState) :
    (pageHeapNumaRebalance M h).anchor = h.anchor ∧
      (pageHeapNumaRebalance M h).space = h.space ∧
      (pageHeapNumaRebalance M h).perNodeBytes = h.perNodeBytes := by
  unfold pageHeapNumaRebalance
  dsimp only
  split_ifs <;> exact ⟨rfl, rfl, rfl⟩

theorem Allocated.anchorOk {out : Option ℕ × HeapState}
    (ha : Allocated M opts os h bytes alignment out) : AnchorOk out.2 := by
  obtain ⟨r, h'⟩ := out
  cases r with
  | none => exact Declined.anchorOk ha
  | some p =>
    obtain ⟨h₁, used, T, T', ho, -, -, -, rfl⟩ := ha
    exact ho.anchorOk.of_space (by simp) (by simp)

theorem Reached.anchorOk {quiet : HeapState → Prop} (run : Reached M quiet h) : AnchorOk h := by
  induction run with
  | init => intro res hres; cases hres
  | alloc opts os bytes alignment _ hos ih => exact (pageHeapAlloc_spec opts ih hos).anchorOk
  | free ptr bytes _ _ ih =>
    exact ih.of_space (pageHeapFree_shrinks _ ptr bytes).1 (pageHeapFree_shrinks _ ptr bytes).2
  | @rebalance h _ _ ih =>
    obtain ⟨hanchor, hspace, -⟩ := pageHeapNumaRebalance_frame M h
    exact ih.of_space hanchor fun x hx => hspace ▸ hx

/-! ### The alignment argument -/

/-- Huge pages and nothing else: the mapping lies at 2 MiB. -/
def hugePageAnswer : OsAnswers := ⟨none, some hugePageSize, none, none, false, none, 0, false⟩

theorem fresh_init (hpos : 0 < lo) (hin : lo + n < addressSpace) : Fresh .init lo n :=
  ⟨hpos, hin, fun _ _ _ => rfl, fun _ hres => by cases hres⟩

theorem legal_hugePageAnswer (hin : bytes + hugePageSize < addressSpace) :
    hugePageAnswer.Legal M .init bytes alignment where
  gigantic p hp := by cases hp
  huge p hp := by
    cases hp
    exact ⟨dvd_rfl, fresh_init (by decide) (by omega)⟩
  anchor p hp := by cases hp
  plain p hp := by cases hp

/-- The 2 MiB page is returned whatever larger alignment was asked for. -/
theorem pageHeapAlloc_hugePageAnswer (hb : 0 < bytes) (hpow : isPowerOfTwo alignment = true)
    (hon : opts.hugePages = true) (halign : hugePageSize ≤ alignment)
    (hdvd : hugePageSize ∣ bytes) :
    (pageHeapAlloc M opts hugePageAnswer .init bytes alignment).1 = some hugePageSize := by
  have hpage : ¬alignment < pageSize := by
    have : pageSize ≤ hugePageSize := by decide
    omega
  have hle : ¬bytes < hugePageSize := Nat.not_lt.2 (Nat.le_of_dvd hb hdvd)
  have hmod : bytes % hugePageSize = 0 := Nat.mod_eq_zero_of_dvd hdvd
  have hg : tryGigantic opts hugePageAnswer bytes alignment = none := by
    unfold tryGigantic; split_ifs <;> rfl
  have hh : tryHugetlb opts hugePageAnswer bytes alignment = some hugePageSize := by
    simp [tryHugetlb, hle, hmod, hon, Nat.not_lt.2 halign, hugePageAnswer]
  have hreg : (regionRegisterWithFlags HeapState.init.regions hugePageSize bytes false).1 = 0 := rfl
  simp only [pageHeapAlloc, hb.ne', hpage, hpow, Bool.true_eq_false, or_self, if_false, hg, hh,
    registerAndBindMmap]
  exact congrArg Prod.fst (if_neg (not_not.2 hreg))

/-- The alignment argument is honoured, by a range obtained for the call, exactly for the
requests that a 2 MiB page cannot serve below their alignment. -/
theorem pageHeapAlloc_aligned_iff (M : Machine) (opts : Options) {bytes alignment : ℕ}
    (hb : 0 < bytes) (hpow : isPowerOfTwo alignment = true) :
    (∀ h os, Reached M (fun _ => True) h → os.Legal M h bytes alignment → ∀ p h',
      pageHeapAlloc M opts os h bytes alignment = (some p, h') →
        alignment ∣ p ∧ ∀ x, p ≤ x → x < p + bytes → h.space x = false ∧ h'.space x = true) ↔
    (opts.hugePages = false ∨ alignment ≤ hugePageSize ∨ ¬hugePageSize ∣ bytes ∨
      addressSpace ≤ bytes + hugePageSize) := by
  constructor
  · intro hall
    by_contra hnot
    simp only [not_or, not_not, Bool.not_eq_false, not_le] at hnot
    obtain ⟨hon, hlarge, hdvd, hin⟩ := hnot
    have hres := pageHeapAlloc_hugePageAnswer (M := M) hb hpow hon hlarge.le hdvd
    obtain ⟨hbad, -⟩ := hall _ _ .init (legal_hugePageAnswer hin) _ _ (Prod.ext hres rfl)
    exact absurd (Nat.le_of_dvd (by decide) hbad) (not_le.2 hlarge)
  · intro hkept h os run hos p h' hout
    have hspec := pageHeapAlloc_spec opts run.anchorOk hos
    rw [hout] at hspec
    obtain ⟨h₁, used, T, T', hacq, hdvd, -, -, rfl⟩ := hspec
    refine ⟨hdvd hkept, fun x hlo hhi => ⟨hacq.fresh x hlo hhi, ?_⟩⟩
    rw [bindAndAccount_space]
    exact (hacq.space x).2 (.inl ⟨hlo, hhi⟩)

/-- 4 KiB pages and two nodes, each the other's neighbour. -/
def twoNodes : Machine :=
  ⟨4096, 2, fun source rank => if rank = 0 then source else 1 - source, ⟨12, rfl⟩, by decide⟩

theorem pageHeapAlloc_aligned_hugePage :
    HeapState.init.space 2097152 = false ∧
      (pageHeapAlloc twoNodes ⟨true, true⟩ hugePageAnswer .init 2097152 2097152).2.space
        2097152 = true := by
  have hres : (pageHeapAlloc twoNodes ⟨true, true⟩ hugePageAnswer .init 2097152 2097152).1 =
      some 2097152 := pageHeapAlloc_hugePageAnswer (by decide) (by decide) rfl le_rfl dvd_rfl
  have haligned := (pageHeapAlloc_aligned_iff twoNodes ⟨true, true⟩ (by decide) (by decide)).2
    (.inr (.inl le_rfl)) .init hugePageAnswer .init (legal_hugePageAnswer (by decide)) _ _
    (Prod.ext hres rfl)
  exact haligned.2 2097152 le_rfl (by decide)

/-- 4 MiB aligned to 4 MiB come back at 2 MiB. -/
theorem pageHeapAlloc_misaligned :
    hugePageAnswer.Legal twoNodes .init 4194304 4194304 ∧
      (pageHeapAlloc twoNodes ⟨true, true⟩ hugePageAnswer .init 4194304 4194304).1 =
        some 2097152 ∧ ¬4194304 ∣ 2097152 :=
  ⟨legal_hugePageAnswer (by decide),
    pageHeapAlloc_hugePageAnswer (by decide) (by decide) rfl (by decide) (by decide), by decide⟩

end V8Malloc.PageHeap
