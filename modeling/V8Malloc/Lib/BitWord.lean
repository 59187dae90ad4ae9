import Mathlib.Tactic

/-!
# Single bits of a 64-bit word

The masks `1 << i` set, clear and test one bit.
-/
namespace BitWord

abbrev Word := BitVec 64

def setBit (w : Word) (i : ℕ) : Word := w ||| (1#64 <<< i)
def clearBit (w : Word) (i : ℕ) : Word := w &&& ~~~(1#64 <<< i)
def testBit (w : Word) (i : ℕ) : Bool := (w &&& (1#64 <<< i)) != 0#64

variable (w : Word) {i j : ℕ}

theorem getLsbD_mask (i j : ℕ) : (1#64 <<< i).getLsbD j = (decide (j < 64) && decide (j = i)) := by
  simp only [BitVec.getLsbD_shiftLeft, BitVec.getLsbD_one]
  by_cases h : j = i
  · subst h
    simp
  · have : ¬(i ≤ j ∧ j - i = 0) := by omega
    grind

theorem getLsbD_setBit (hi : i < 64) (j : ℕ) :
    (setBit w i).getLsbD j = (w.getLsbD j || decide (j = i)) := by
  rw [setBit, BitVec.getLsbD_or, getLsbD_mask]
  by_cases h : j = i
  · subst h
    simp [hi]
  · simp [h]

theorem getLsbD_clearBit (i j : ℕ) :
    (clearBit w i).getLsbD j = (w.getLsbD j && !decide (j = i)) := by
  rw [clearBit, BitVec.getLsbD_and, BitVec.getLsbD_not, getLsbD_mask]
  by_cases h64 : j < 64
  · simp [h64]
  · simp [BitVec.getLsbD_of_ge w j (by omega)]

theorem testBit_eq (i : ℕ) : testBit w i = w.getLsbD i := by
  unfold testBit
  cases h : w.getLsbD i with
  | true =>
    have hlt : i < 64 := by
      by_contra hge
      simp [BitVec.getLsbD_of_ge w i (by omega)] at h
    rw [bne_iff_ne]
    intro h0
    have := congrArg (fun v : Word => v.getLsbD i) h0
    simp only [BitVec.getLsbD_and, getLsbD_mask, h, BitVec.getLsbD_zero] at this
    simp [hlt] at this
  | false =>
    rw [bne_eq_false_iff_eq]
    refine BitVec.eq_of_getLsbD_eq fun j hj => ?_
    rw [BitVec.getLsbD_and, getLsbD_mask]
    by_cases hji : j = i
    · subst hji
      simp [h]
    · simp [hji]

theorem eq_zero_iff : w = 0#64 ↔ ∀ i, w.getLsbD i = false := by
  constructor
  · rintro rfl i
    simp
  · exact fun h => BitVec.eq_of_getLsbD_eq fun i _ => by simp [h i]

end BitWord
