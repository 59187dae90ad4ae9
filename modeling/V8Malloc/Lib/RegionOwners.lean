import Mathlib.Order.Interval.Finset.Nat
import Mathlib.Tactic

/-!
# Regions obtained and given back

A region is a base with a length. A log of the regions obtained is split into
those given back and those held; the ones held are pairwise disjoint. Obtaining a
region and giving one back keep the split.
-/
namespace RegionOwners

/-- The two ranges do not meet. -/
def Apart (r t : ℕ × ℕ) : Prop := r.1 + r.2 ≤ t.1 ∨ t.1 + t.2 ≤ r.1

theorem Apart.symm {r t : ℕ × ℕ} (h : Apart r t) : Apart t r :=
  Or.symm h

/-- Every region obtained has been given back once or is held, and those held are disjoint and
pass the check `ok`. -/
structure Owned (ok : ℕ × ℕ → Prop) (obtained returned held : List (ℕ × ℕ)) : Prop where
  split : obtained.Perm (returned ++ held)
  apart : held.Pairwise Apart
  checked : ∀ r ∈ held, ok r

variable {ok : ℕ × ℕ → Prop} {obtained returned held held' : List (ℕ × ℕ)} {r : ℕ × ℕ}

theorem Owned.perm (h : Owned ok obtained returned held) (hperm : held.Perm held') :
    Owned ok obtained returned held' where
  split := h.split.trans (hperm.append_left returned)
  apart := (hperm.pairwise_iff fun hrt => Apart.symm hrt).1 h.apart
  checked r hr := h.checked r (hperm.mem_iff.2 hr)

theorem Owned.obtain (h : Owned ok obtained returned held) (hok : ok r)
    (hnew : ∀ t ∈ held, Apart r t) : Owned ok (r :: obtained) returned (r :: held) where
  split := (h.split.cons r).trans List.perm_middle.symm
  apart := List.pairwise_cons.2 ⟨hnew, h.apart⟩
  checked := List.forall_mem_cons.2 ⟨hok, h.checked⟩

theorem Owned.giveBack (h : Owned ok obtained returned (r :: held)) :
    Owned ok obtained (r :: returned) held where
  split := h.split.trans List.perm_middle
  apart := (List.pairwise_cons.1 h.apart).2
  checked := (List.forall_mem_cons.1 h.checked).2

/-- The regions of a list cover as many addresses as their lengths add up to. -/
theorem exists_cover {top : ℕ} (hapart : held.Pairwise Apart)
    (hin : ∀ r ∈ held, 0 < r.1 ∧ r.1 + r.2 ≤ top) :
    ∃ cover : Finset ℕ, cover ⊆ Finset.Ico 1 top ∧ cover.card = (held.map Prod.snd).sum ∧
      ∀ x, x ∈ cover ↔ ∃ r ∈ held, r.1 ≤ x ∧ x < r.1 + r.2 := by
  induction held with
  | nil => exact ⟨∅, by simp, rfl, by simp⟩
  | cons r held ih =>
    obtain ⟨hrest, hapart⟩ := List.pairwise_cons.1 hapart
    obtain ⟨hfirst, hin⟩ := List.forall_mem_cons.1 hin
    obtain ⟨cover, hsub, hcard, hmem⟩ := ih hapart hin
    refine ⟨Finset.Ico r.1 (r.1 + r.2) ∪ cover, ?_, ?_, fun x => ?_⟩
    · apply Finset.union_subset _ hsub
      exact Finset.Ico_subset_Ico hfirst.1 hfirst.2
    · have hdisjoint : Disjoint (Finset.Ico r.1 (r.1 + r.2)) cover := by
        rw [Finset.disjoint_left]
        intro x hx hx'
        obtain ⟨t, ht, hlo, hhi⟩ := (hmem x).1 hx'
        have hapart := hrest t ht
        simp only [Finset.mem_Ico, Apart] at hx hapart
        omega
      rw [Finset.card_union_of_disjoint hdisjoint, hcard, Nat.card_Ico]
      simp
    · simp [hmem]

/-- Disjoint regions fit the address space together. -/
theorem sum_lt {top : ℕ} (hapart : held.Pairwise Apart) (htop : 0 < top)
    (hin : ∀ r ∈ held, 0 < r.1 ∧ r.1 + r.2 ≤ top) : (held.map Prod.snd).sum < top := by
  obtain ⟨cover, hsub, hcard, -⟩ := exists_cover hapart hin
  have hle := Finset.card_le_card hsub
  rw [hcard, Nat.card_Ico] at hle
  omega

end RegionOwners
