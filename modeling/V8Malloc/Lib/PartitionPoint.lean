import Mathlib.Tactic
import Mathlib.Order.CompletePartialOrder

/-!
# Partition points

Halving search over an index interval. The predicate holds on an initial
segment of `[0, n)`; the search returns the length of that segment.
-/
namespace PartitionPoint

/-- The search loop on `[low, high)`; every round at least halves the interval,
so `high - low` rounds are always enough. -/
def loop (below : ℕ → Bool) : ℕ → ℕ → ℕ → ℕ
  | 0, low, _ => low
  | rounds + 1, low, high =>
    if low < high then
      let mid := low + ((high - low) >>> 1)
      if below mid then loop below rounds (mid + 1) high
      else loop below rounds low mid
    else low

def search (below : ℕ → Bool) (n : ℕ) : ℕ := loop below n 0 n

/-- `k` separates the indices below `n` that satisfy the predicate from the others. -/
structure IsPoint (below : ℕ → Bool) (n k : ℕ) : Prop where
  le : k ≤ n
  left : ∀ i < k, below i
  right : ∀ i, k ≤ i → i < n → below i = false

def DownClosed (below : ℕ → Bool) (n : ℕ) : Prop :=
  ∀ i j, i < j → j < n → below j → below i

theorem IsPoint.unique {below : ℕ → Bool} {n k k' : ℕ} (h : IsPoint below n k)
    (h' : IsPoint below n k') : k = k' := by
  rcases Nat.lt_trichotomy k k' with hlt | heq | hgt
  · have := h.right k le_rfl (hlt.trans_le h'.le)
    simp [h'.left k hlt] at this
  · exact heq
  · have := h'.right k' le_rfl (hgt.trans_le h.le)
    simp [h.left k' hgt] at this

theorem loop_isPoint {below : ℕ → Bool} {n : ℕ} (mono : DownClosed below n) (rounds : ℕ) :
    ∀ low high, low ≤ high → high ≤ n → high - low ≤ rounds →
      (∀ i < low, below i) → (∀ i, high ≤ i → i < n → below i = false) →
      IsPoint below n (loop below rounds low high) := by
  induction rounds with
  | zero =>
    intro low high hle hn hr hl hh
    obtain rfl : low = high := by omega
    exact ⟨hn, hl, hh⟩
  | succ rounds ih =>
    intro low high hle hn hr hl hh
    simp only [loop]
    split_ifs with hlt hmid
    · refine ih _ _ (by omega) hn (by omega) ?_ hh
      intro i hi
      rcases Nat.lt_or_ge i (low + ((high - low) >>> 1)) with h | h
      · exact mono i _ h (by omega) hmid
      · obtain rfl : i = low + ((high - low) >>> 1) := by omega
        exact hmid
    · refine ih _ _ (by omega) (by omega) (by omega) hl ?_
      intro i hi hin
      -- an index above the probe that satisfied the predicate would pull the probe down with it
      by_contra hb
      rcases Nat.eq_or_lt_of_le hi with rfl | h
      · exact hmid (by simpa using hb)
      · exact hmid (mono _ i h hin (by simpa using hb))
    · obtain rfl : low = high := by omega
      exact ⟨hn, hl, hh⟩

theorem search_isPoint {below : ℕ → Bool} {n : ℕ} (mono : DownClosed below n) :
    IsPoint below n (search below n) :=
  loop_isPoint mono n 0 n (Nat.zero_le _) le_rfl (by omega) (by simp) (by omega)

end PartitionPoint
