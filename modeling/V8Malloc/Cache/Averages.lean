import V8Malloc.Cache.Core
import V8Malloc.Cache.Thread
import V8Malloc.Lib.MovingAverage

/-!
# The demand averages of the controllers

The refill controller and the capacity controller of the bins smooth their
demand with the same truncating average, one in a counter of 32 bits and one in
a counter of 16 bits. The first part is about the averages, the second about
the batches that the dispatcher gets from the refill controller.
-/
namespace V8Malloc

open MovingAverage

variable {e d e₁ e₂ cls now ticksPerMicro : ℕ} {ctrl : RefillController}

/-! ### The two updates -/

/-- The update of `v8m_refill_controller_compute_batch`, each operation in its own width. -/
def refillEma (e d : ℕ) : ℕ := ((3 * e + d) % 2 ^ 64) >>> 2 % 2 ^ 32

/-- The update of `v8m_thread_cache_gc_tick`, each operation in its own width. -/
def gcTickEma (e d : ℕ) : ℕ := min (((e * 3 + d) % 2 ^ 32) >>> 2) (2 ^ 16 - 1) % 2 ^ 16

theorem refillEma_eq (he : e < 2 ^ 32) (hd : d < 2 ^ 32) : refillEma e d = average e d := by
  unfold refillEma average
  rw [Nat.shiftRight_eq_div_pow]
  omega

theorem gcTickEma_eq (he : e < 2 ^ 16) (hd : d < 2 ^ 16) : gcTickEma e d = average e d := by
  have hwide : (e * 3 + d) % 2 ^ 32 = 3 * e + d := by omega
  unfold gcTickEma average
  rw [hwide, Nat.shiftRight_eq_div_pow]
  omega

theorem tickEma_eq (he : e < 2 ^ 16) (hd : d < 2 ^ 16) : tickEma e d = average e d := by
  unfold tickEma average
  rw [Nat.shiftRight_eq_div_pow]
  omega

theorem emaDemand_computeBatch (hcls : cls < numSizeClasses) :
    ((refillControllerComputeBatch now ticksPerMicro ctrl cls d).2 cls).emaDemand =
      (3 * (ctrl cls).emaDemand + d) >>> 2 % 2 ^ 32 := by
  unfold refillControllerComputeBatch
  rw [if_neg (Nat.not_le.2 hcls)]
  simp

/-! ### What an average of `w` bits with an intermediate of `wide` bits does -/

structure Averages (update : ℕ → ℕ → ℕ) (w wide : ℕ) : Prop where
  /-- Neither the intermediate nor the stored value is cut. -/
  exact : ∀ e d, e < 2 ^ w → d < 2 ^ w → 3 * e + d < 2 ^ wide ∧ (3 * e + d) / 4 < 2 ^ w ∧
    update e d = (3 * e + d) / 4
  toward : ∀ e d, e < 2 ^ w → d < 2 ^ w → (e ≤ d → e ≤ update e d ∧ update e d ≤ d) ∧
    (d ≤ e → d ≤ update e d ∧ update e d ≤ e)
  settles : ∀ e d, e < 2 ^ w → d < 2 ^ w → ∃ v n, d - 3 ≤ v ∧ v ≤ d ∧ (d ≤ e → v = d) ∧
    ∀ k, n ≤ k → fed update e (fun _ => d) k = v
  ordered : ∀ e₁ e₂ samples, e₁ ≤ e₂ → e₂ < 2 ^ w → (∀ n, samples n < 2 ^ w) →
    (∀ k, fed update e₁ samples k ≤ fed update e₂ samples k) ∧
      ∃ n, ∀ k, n ≤ k → fed update e₂ samples k ≤ fed update e₁ samples k + 3

theorem averages_of_eq {update : ℕ → ℕ → ℕ} {w wide : ℕ} (hwide : 2 ^ w * 4 ≤ 2 ^ wide)
    (hupdate : ∀ e d, e < 2 ^ w → d < 2 ^ w → update e d = average e d) :
    Averages update w wide := by
  constructor
  · intro e d he hd
    have hlt := average_lt he hd
    have heq := hupdate e d he hd
    unfold average at hlt heq
    exact ⟨by omega, hlt, heq⟩
  · intro e d he hd
    rw [hupdate e d he hd]
    exact ⟨average_of_le, average_of_ge⟩
  · intro e d he hd
    obtain ⟨v, n, hlo, hhi, habove, hsettled⟩ := fed_settles e d
    refine ⟨v, n, hlo, hhi, habove, fun k hk => ?_⟩
    rw [fed_congr hupdate he fun _ => hd]
    exact hsettled k hk
  · intro e₁ e₂ samples hle he hs
    have h₁ := fed_congr hupdate (hle.trans_lt he) hs
    have h₂ := fed_congr hupdate he hs
    constructor
    · intro k
      rw [h₁, h₂]
      exact fed_mono samples hle k
    · refine ⟨e₂ - e₁, fun k hk => ?_⟩
      have hgap := fed_gap samples hle k
      rw [h₁, h₂]
      omega

/-- Both controllers keep an exact average, which settles at a constant demand up to rounding and
forgets where it started. -/
theorem demand_averages_settle :
    Averages refillEma 32 64 ∧ Averages gcTickEma 16 32 ∧
    (∀ (ctrl : RefillController) (cls now ticksPerMicro d : ℕ), cls < numSizeClasses →
      (ctrl cls).emaDemand < 2 ^ 32 → d < 2 ^ 32 →
      ((refillControllerComputeBatch now ticksPerMicro ctrl cls d).2 cls).emaDemand =
        refillEma (ctrl cls).emaDemand d) ∧
    ∀ (cache : ThreadCache) (nodeOverloaded : Bool) (cls : ℕ), cache.emaDemand cls < 2 ^ 16 →
      cache.allocCountPerClass cls < 2 ^ 16 →
      (threadCacheGcTick nodeOverloaded cache).emaDemand cls = gcTickEma (cache.emaDemand cls)
        (tickDemand (cache.allocCountPerClass cls) (cache.freeCountPerClass cls)) := by
  refine ⟨averages_of_eq (by norm_num) fun e d he hd => refillEma_eq he hd,
    averages_of_eq (by norm_num) fun e d he hd => gcTickEma_eq he hd, ?_, ?_⟩
  · intro ctrl cls now ticksPerMicro d hcls he hd
    rw [emaDemand_computeBatch hcls]
    unfold refillEma
    rw [Nat.mod_eq_of_lt (show 3 * _ + d < 2 ^ 64 by omega)]
  · intro cache nodeOverloaded cls he ha
    have hd : tickDemand (cache.allocCountPerClass cls) (cache.freeCountPerClass cls) < 2 ^ 16 := by
      unfold tickDemand
      split_ifs <;> omega
    rw [gcTickEma_eq he hd, ← tickEma_eq he hd]
    rfl

/-! ### Refills of one class -/

/-- `ticks_per_micro` for the frequency the architecture reports. -/
def ticksPerMicroOf (mhz : ℕ) : ℕ := if mhz ≠ 0 then mhz else 1000

def targetTicks (ticksPerMicro : ℕ) : ℕ := refillTargetHoldMicros * ticksPerMicro

/-- What the dispatcher gets for its `k`-th refill of the class, made at `now k` in state
`ctrl k`; the demand it reports is always one. -/
def dispatchBatch (ticksPerMicro cls : ℕ) (now : ℕ → ℕ) (ctrl : ℕ → RefillController) (k : ℕ) :
    ℕ × RefillController :=
  refillControllerComputeBatch (now k) ticksPerMicro (ctrl k) cls 1

/-- The states before the refills of the class. Calls for other classes may come in between, which
leave its entry alone. -/
def ClassRefills (ticksPerMicro cls : ℕ) (now : ℕ → ℕ) (ctrl : ℕ → RefillController) : Prop :=
  ∀ k, ctrl (k + 1) cls = (dispatchBatch ticksPerMicro cls now ctrl k).2 cls

/-- Refills follow each other at sixteenths of the target or faster. -/
def ShortGaps (ticksPerMicro : ℕ) (now : ℕ → ℕ) (k : ℕ) : Prop :=
  ∀ j < k, now j < now (j + 1) ∧ 16 * (now (j + 1) - now j) ≤ targetTicks ticksPerMicro

def LongGaps (ticksPerMicro : ℕ) (now : ℕ → ℕ) (m k : ℕ) : Prop :=
  ∀ j, m ≤ j → j < k → now j + targetTicks ticksPerMicro < now (j + 1)

/-- Frequent refills raise the batch above its minimum, rare ones bring it back; how many
refills that takes depends on the start only. -/
structure Adapts (ticksPerMicro cls : ℕ) (start : RefillController) : Prop where
  raises : ∃ n, ∀ now ctrl, ctrl 0 = start → ClassRefills ticksPerMicro cls now ctrl →
    ∀ k, n ≤ k → ShortGaps ticksPerMicro now k →
      refillBatchMin < (dispatchBatch ticksPerMicro cls now ctrl k).1
  falls : ∃ n, ∀ now ctrl, ctrl 0 = start → ClassRefills ticksPerMicro cls now ctrl →
    ∀ m k, m + n ≤ k → ShortGaps ticksPerMicro now m → LongGaps ticksPerMicro now m k →
      (dispatchBatch ticksPerMicro cls now ctrl k).1 = refillBatchMin

section Refills

variable {times : ℕ → ℕ} {states : ℕ → RefillController} {k : ℕ}
variable (hcls : cls < numSizeClasses) (hrun : ClassRefills ticksPerMicro cls times states)
variable (hstart : (states 0 cls).emaDemand < 2 ^ 32)

include hcls hrun hstart

theorem ClassRefills.emaDemand_eq (k : ℕ) :
    (states k cls).emaDemand = fed average (states 0 cls).emaDemand (fun _ => 1) k := by
  induction k with
  | zero => rfl
  | succ k ih =>
    have hlt : fed average (states 0 cls).emaDemand (fun _ => 1) k < 2 ^ 32 :=
      fed_lt hstart (fun _ => by norm_num) k
    rw [hrun k, dispatchBatch, emaDemand_computeBatch hcls, ih, fed, average,
      Nat.shiftRight_eq_div_pow]
    omega

omit hstart in
theorem ClassRefills.lastRefillTsc_eq (k : ℕ) : (states (k + 1) cls).lastRefillTsc = times k := by
  rw [hrun k, dispatchBatch, refillControllerComputeBatch, if_neg (Nat.not_le.2 hcls)]
  simp

/-- Once there is a refill to measure from, the batch is the average demand over the gap. -/
theorem ClassRefills.batch_eq (hk : times k < times (k + 1)) (hne : times k ≠ 0) :
    (dispatchBatch ticksPerMicro cls times states (k + 1)).1 =
      refillBatch ticksPerMicro (times (k + 1) - times k)
        (fed average (states 0 cls).emaDemand (fun _ => 1) (k + 2)) (states (k + 1) cls).batchSize := by
  have hema : (3 * (states (k + 1) cls).emaDemand + 1) >>> 2 % 2 ^ 32 =
      fed average (states 0 cls).emaDemand (fun _ => 1) (k + 2) := by
    rw [← ClassRefills.emaDemand_eq hcls hrun hstart (k + 2), hrun (k + 1), dispatchBatch,
      emaDemand_computeBatch hcls]
  have hlast := ClassRefills.lastRefillTsc_eq hcls hrun k
  rw [dispatchBatch, refillControllerComputeBatch, if_neg (Nat.not_le.2 hcls)]
  simp only [hlast, hema, hne, false_or, if_neg (Nat.not_le.2 hk)]

end Refills

/-! ### Batches of small demand -/

theorem refillBatch_zero {elapsed batchSize : ℕ} (hpos : 0 < elapsed) :
    refillBatch ticksPerMicro elapsed 0 batchSize = refillBatchMin := by
  unfold refillBatch
  rw [if_pos hpos]
  simp [refillBatchMin, refillBatchMax]

theorem targetTicks_lt (hmhz : ticksPerMicro < 2 ^ 32) : targetTicks ticksPerMicro < 2 ^ 64 := by
  unfold targetTicks refillTargetHoldMicros
  omega

theorem refillBatch_one {elapsed batchSize : ℕ} (hmhz : ticksPerMicro < 2 ^ 32)
    (hpos : 0 < elapsed) : refillBatch ticksPerMicro elapsed 1 batchSize =
      min (max (targetTicks ticksPerMicro / elapsed) refillBatchMin) refillBatchMax := by
  have hlt := targetTicks_lt hmhz
  unfold targetTicks at hlt ⊢
  unfold refillBatch
  rw [if_pos hpos]
  simp only [Nat.mod_eq_of_lt hlt, one_mul]
  simp only [refillBatchMin, refillBatchMax]
  omega

theorem refillBatch_short {elapsed batchSize : ℕ} (hmhz : ticksPerMicro < 2 ^ 32)
    (hpos : 0 < elapsed) (hshort : 16 * elapsed ≤ targetTicks ticksPerMicro) :
    refillBatchMin < refillBatch ticksPerMicro elapsed 1 batchSize := by
  have hquot : 16 ≤ targetTicks ticksPerMicro / elapsed := (Nat.le_div_iff_mul_le hpos).2 hshort
  rw [refillBatch_one hmhz hpos]
  simp only [refillBatchMin, refillBatchMax]
  omega

theorem refillBatch_long {elapsed batchSize ema : ℕ} (hmhz : ticksPerMicro < 2 ^ 32)
    (hlong : targetTicks ticksPerMicro < elapsed) (hema : ema ≤ 1) :
    refillBatch ticksPerMicro elapsed ema batchSize = refillBatchMin := by
  have hpos : 0 < elapsed := Nat.zero_lt_of_lt hlong
  interval_cases ema
  · exact refillBatch_zero hpos
  · rw [refillBatch_one hmhz hpos, Nat.div_eq_of_lt hlong]
    decide

/-- The states of a run of refills of one class and nothing else. -/
def refillRun (ticksPerMicro cls : ℕ) (now : ℕ → ℕ) (start : RefillController) :
    ℕ → RefillController
  | 0 => start
  | k + 1 =>
    (refillControllerComputeBatch (now k) ticksPerMicro
      (refillRun ticksPerMicro cls now start k) cls 1).2

theorem refills_refillRun (ticksPerMicro cls : ℕ) (now : ℕ → ℕ) (start : RefillController) :
    ClassRefills ticksPerMicro cls now (refillRun ticksPerMicro cls now start) :=
  fun _ => rfl

theorem shortGaps_steady (hpos : 0 < ticksPerMicro) (k : ℕ) :
    ShortGaps ticksPerMicro (fun j => j + 1) k := by
  intro j _
  simp only [targetTicks, refillTargetHoldMicros]
  omega

/-- A demand of one never lifts an average of zero, so the batch stays at its minimum. -/
theorem ClassRefills.batch_min {times : ℕ → ℕ} {states : ℕ → RefillController} {k : ℕ}
    (hcls : cls < numSizeClasses) (hrun : ClassRefills ticksPerMicro cls times states)
    (hzero : (states 0 cls).emaDemand = 0) (hgaps : ShortGaps ticksPerMicro times (k + 2)) :
    (dispatchBatch ticksPerMicro cls times states (k + 2)).1 = refillBatchMin := by
  have hfirst := (hgaps k (by omega)).1
  have hsecond := (hgaps (k + 1) (by omega)).1
  have hstays : fed average 0 (fun _ => 1) (k + 3) = 0 :=
    fed_stays (n := 0) (by decide) (by decide) (Nat.zero_le _)
  rw [hrun.batch_eq hcls (by rw [hzero]; norm_num) hsecond (by omega), hzero, hstays]
  exact refillBatch_zero (by omega)

theorem ticksPerMicroOf_bounds {mhz : ℕ} (hmhz : mhz < 2 ^ 32) :
    0 < ticksPerMicroOf mhz ∧ ticksPerMicroOf mhz < 2 ^ 32 := by
  unfold ticksPerMicroOf
  split_ifs <;> omega

/-- The batch follows the rate of the refills exactly when the average demand of the class is not
zero at the start. -/
theorem dispatch_batches_adapt_iff {mhz : ℕ} (hmhz : mhz < 2 ^ 32) (hcls : cls < numSizeClasses)
    (start : RefillController) (hfits : (start cls).emaDemand < 2 ^ 32) :
    Adapts (ticksPerMicroOf mhz) cls start ↔ 1 ≤ (start cls).emaDemand := by
  obtain ⟨hpos, hlt⟩ := ticksPerMicroOf_bounds hmhz
  constructor
  · intro hadapts
    by_contra hzero
    obtain ⟨n, hraises⟩ := hadapts.raises
    have hgaps := shortGaps_steady hpos (n + 2)
    have hrun := refills_refillRun (ticksPerMicroOf mhz) cls (fun j => j + 1) start
    have hmin := hrun.batch_min hcls (show (start cls).emaDemand = 0 by omega) hgaps
    have hmore := hraises _ _ rfl hrun (n + 2) (by omega) hgaps
    omega
  · intro hone
    have hfed : ∀ k, (start cls).emaDemand ≤ k →
        fed average (start cls).emaDemand (fun _ => 1) k = 1 := by
      intro k hk
      have hfalls := fed_falls hone k
      have hkeeps := le_fed hone k
      omega
    constructor
    · refine ⟨(start cls).emaDemand + 2, ?_⟩
      rintro now ctrl rfl hrun k hk hgaps
      obtain ⟨j, rfl⟩ : ∃ j, k = j + 2 := ⟨k - 2, by omega⟩
      have hfirst := (hgaps j (by omega)).1
      have hgap := hgaps (j + 1) (by omega)
      rw [hrun.batch_eq hcls hfits hgap.1 (by omega), hfed _ (by omega)]
      exact refillBatch_short hlt (by omega) hgap.2
    · refine ⟨(start cls).emaDemand + 2, ?_⟩
      rintro now ctrl rfl hrun m k hk - hgaps
      obtain ⟨j, rfl⟩ : ∃ j, k = j + 2 := ⟨k - 2, by omega⟩
      have hfirst := hgaps j (by omega) (by omega)
      have hgap := hgaps (j + 1) (by omega) (by omega)
      rw [hrun.batch_eq hcls hfits (by omega) (by omega), hfed _ (by omega)]
      exact refillBatch_long hlt (by omega) le_rfl

theorem dispatch_batches_adapt_one : Adapts (ticksPerMicroOf 3000) 0 (fun _ => ⟨1, 8, 0⟩) :=
  (dispatch_batches_adapt_iff (by decide) (by decide) _ (by decide)).2 (by decide)

/-- From a fresh controller at 3 GHz, refills that follow each other at once never get more than
the minimum. -/
theorem dispatch_batches_stay_minimal :
    (∀ k, ShortGaps (ticksPerMicroOf 3000) (fun j => j + 1) k) ∧
    ∀ k, (dispatchBatch (ticksPerMicroOf 3000) 0 (fun j => j + 1)
      (refillRun (ticksPerMicroOf 3000) 0 (fun j => j + 1) refillControllerInit) k).1 =
        refillBatchMin := by
  have hgaps := shortGaps_steady (show 0 < ticksPerMicroOf 3000 by decide)
  refine ⟨hgaps, fun k => ?_⟩
  match k with
  | 0 | 1 => decide
  | k + 2 =>
    exact (refills_refillRun _ 0 _ refillControllerInit).batch_min (by decide) rfl (hgaps _)

end V8Malloc
