import Mathlib.Data.Nat.Basic
import Mathlib.Tactic.Common

/-!
# Truncating moving averages

The average `(3 e + d) / 4` of a stored value `e` and a sample `d`, with the
division rounded down. Rounding leaves four fixed points for a constant sample,
and two averages that see the same samples come within three of each other.
-/
namespace MovingAverage

variable {e e₁ e₂ d bound : ℕ} {samples : ℕ → ℕ}

def average (e d : ℕ) : ℕ := (3 * e + d) / 4

theorem average_lt (he : e < bound) (hd : d < bound) : average e d < bound := by
  unfold average
  omega

theorem average_mono (d : ℕ) (h : e₁ ≤ e₂) : average e₁ d ≤ average e₂ d := by
  unfold average
  omega

theorem average_of_le (h : e ≤ d) : e ≤ average e d ∧ average e d ≤ d := by
  unfold average
  omega

theorem average_of_ge (h : d ≤ e) : d ≤ average e d ∧ average e d ≤ e := by
  unfold average
  omega

/-- The fixed points lie at most three below the sample. -/
theorem average_eq_self_iff : average e d = e ↔ e ≤ d ∧ d ≤ e + 3 := by
  unfold average
  omega

theorem lt_average (h : e + 3 < d) : e < average e d := by
  unfold average
  omega

theorem average_lt_self (h : d < e) : average e d < e := by
  unfold average
  omega

/-- The distance of two averages shrinks until it is at most three. -/
theorem average_gap (h : e₁ ≤ e₂) (d : ℕ) : average e₂ d ≤ average e₁ d + max 3 (e₂ - e₁ - 1) := by
  unfold average
  omega

/-! ### Sequences of samples -/

/-- The value after the first samples of a sequence went through `update`. -/
def fed (update : ℕ → ℕ → ℕ) (e : ℕ) (samples : ℕ → ℕ) : ℕ → ℕ
  | 0 => e
  | n + 1 => update (fed update e samples n) (samples n)

theorem fed_lt (he : e < bound) (hs : ∀ n, samples n < bound) (n : ℕ) :
    fed average e samples n < bound := by
  induction n with
  | zero => exact he
  | succ n ih => exact average_lt ih (hs n)

/-- Two updates that agree below a bound agree on sequences below it. -/
theorem fed_congr {update : ℕ → ℕ → ℕ}
    (hupdate : ∀ e d, e < bound → d < bound → update e d = average e d) (he : e < bound)
    (hs : ∀ n, samples n < bound) (n : ℕ) : fed update e samples n = fed average e samples n := by
  induction n with
  | zero => rfl
  | succ n ih =>
    simp only [fed, ih]
    exact hupdate _ _ (fed_lt he hs n) (hs n)

theorem fed_mono (samples : ℕ → ℕ) (h : e₁ ≤ e₂) (n : ℕ) :
    fed average e₁ samples n ≤ fed average e₂ samples n := by
  induction n with
  | zero => exact h
  | succ n ih => exact average_mono _ ih

theorem fed_gap (samples : ℕ → ℕ) (h : e₁ ≤ e₂) (n : ℕ) :
    fed average e₂ samples n ≤ fed average e₁ samples n + max 3 (e₂ - e₁ - n) := by
  induction n with
  | zero =>
    simp only [fed]
    omega
  | succ n ih =>
    have hstep := average_gap (fed_mono samples h n) (samples n)
    simp only [fed]
    omega

/-! ### A constant sample -/

theorem fed_le (h : e ≤ d) (n : ℕ) : fed average e (fun _ => d) n ≤ d := by
  induction n with
  | zero => exact h
  | succ n ih => exact (average_of_le ih).2

theorem le_fed (h : d ≤ e) (n : ℕ) : d ≤ fed average e (fun _ => d) n := by
  induction n with
  | zero => exact h
  | succ n ih => exact (average_of_ge ih).1

/-- From below, a step gains one until three are left. -/
theorem fed_rises (h : e ≤ d) (n : ℕ) : min (e + n) (d - 3) ≤ fed average e (fun _ => d) n := by
  induction n with
  | zero =>
    simp only [fed]
    omega
  | succ n ih =>
    simp only [fed]
    by_cases hfar : fed average e (fun _ => d) n + 3 < d
    · have hgain := lt_average hfar
      omega
    · have hkeep := average_of_le (fed_le h n)
      omega

theorem fed_falls (h : d ≤ e) (n : ℕ) : fed average e (fun _ => d) n ≤ max d (e - n) := by
  induction n with
  | zero =>
    simp only [fed]
    omega
  | succ n ih =>
    simp only [fed]
    by_cases hfar : d < fed average e (fun _ => d) n
    · have hloss := average_lt_self hfar
      omega
    · have hkeep := average_of_ge (le_fed h n)
      omega

theorem fed_stays {n : ℕ} (hlo : d ≤ fed average e (fun _ => d) n + 3)
    (hhi : fed average e (fun _ => d) n ≤ d) {k : ℕ} (hk : n ≤ k) :
    fed average e (fun _ => d) k = fed average e (fun _ => d) n := by
  induction k, hk using Nat.le_induction with
  | base => rfl
  | succ k _ ih =>
    simp only [fed, ih]
    exact average_eq_self_iff.2 ⟨hhi, hlo⟩

/-- A constant sample is reached from above and approached up to three from below. -/
theorem fed_settles (e d : ℕ) : ∃ v n, d - 3 ≤ v ∧ v ≤ d ∧ (d ≤ e → v = d) ∧
    ∀ k, n ≤ k → fed average e (fun _ => d) k = v := by
  rcases Nat.le_total e d with h | h
  · have hrise := fed_rises h d
    have hle := fed_le h d
    refine ⟨_, d, by omega, hle, fun hge => ?_, fun k hk => fed_stays (by omega) hle hk⟩
    exact le_antisymm hle (le_fed hge d)
  · have hfall := fed_falls h e
    have hge := le_fed h e
    refine ⟨d, e, by omega, le_rfl, fun _ => rfl, fun k hk => ?_⟩
    have heq : fed average e (fun _ => d) e = d := by omega
    rw [fed_stays (by omega) (Nat.le_of_eq heq) hk, heq]

end MovingAverage
