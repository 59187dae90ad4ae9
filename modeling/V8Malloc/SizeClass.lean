import Mathlib.Data.Nat.Log
import Mathlib.Tactic

/-!
# Size classes

The class of a request and the byte size of a class, with the built-in table.
Tiny classes are 8 bytes apart, small classes are four to a power of two, and
from the medium classes on there is one class for each power of two.
-/
namespace V8Malloc

/-- `V8M_PAGE_SIZE`, to which every page is aligned. -/
def pageSize : ℕ := 65536
def tinyMaxSize : ℕ := 64
def smallMaxSize : ℕ := 4096
def smallFirstClass : ℕ := 8
def smallMsbBase : ℕ := 6
def smallSubclassBits : ℕ := 2
def smallSubclassMask : ℕ := 3
def mediumFirstClass : ℕ := 32
def mediumMsbBase : ℕ := 12
def largeLastClass : ℕ := 40
def largeMaxSize : ℕ := 2 * 1024 * 1024
def numSizeClasses : ℕ := 41
/-- `UINT32_MAX`, the class of requests beyond the table. -/
def classHuge : ℕ := 2 ^ 32 - 1

def classToSize : List ℕ :=
  [8, 16, 24, 32, 40, 48, 56, 64,
    80, 96, 112, 128,
    160, 192, 224, 256,
    320, 384, 448, 512,
    640, 768, 896, 1024,
    1280, 1536, 1792, 2048,
    2560, 3072, 3584, 4096,
    8192, 16384, 32768, 65536, 131072, 262144,
    524288, 1048576, 2097152]

/-- The size of a class; indices beyond the table are never looked up. -/
def sizeClassSize (cls : ℕ) : ℕ := classToSize.getD cls 0

def sizeClass (reqSize : ℕ) : ℕ :=
  if reqSize ≤ tinyMaxSize then
    let coerced := reqSize + if reqSize = 0 then 1 else 0
    ((coerced + 7) >>> 3) - 1
  else if reqSize > smallMaxSize then
    let msb := Nat.log2 (reqSize - 1)
    let cls := mediumFirstClass + (msb - mediumMsbBase)
    if cls > largeLastClass then classHuge else cls
  else
    let adjusted := reqSize - 1
    let msb := Nat.log2 adjusted
    let group := msb - smallMsbBase
    let sub := (adjusted >>> (msb - smallSubclassBits)) &&& smallSubclassMask
    smallFirstClass + (group <<< smallSubclassBits) + sub

variable {size cls : ℕ}

/-- The sizes of the table increase. -/
theorem sizeClassSize_lt {c d : ℕ} (hcd : c < d) (hd : d < numSizeClasses) :
    sizeClassSize c < sizeClassSize d := by
  have hall : ∀ d < numSizeClasses, ∀ c < d, sizeClassSize c < sizeClassSize d := by decide
  exact hall d hd c hcd

theorem sizeClass_tiny (hmax : size ≤ tinyMaxSize) :
    sizeClass size = (max size 1 + 7) / 8 - 1 := by
  unfold sizeClass
  rw [if_pos hmax]
  simp only [Nat.shiftRight_eq_div_pow]
  split_ifs with h0
  · subst h0
    rfl
  · rw [max_eq_left (Nat.pos_of_ne_zero h0)]

theorem tiny_class_size (hcls : cls < smallFirstClass) : sizeClassSize cls = 8 * (cls + 1) := by
  have hall : ∀ c < smallFirstClass, sizeClassSize c = 8 * (c + 1) := by decide
  exact hall cls hcls

/-- A small request lies in quarter `d` of the group of its leading bit. -/
theorem sizeClass_quarter (hmin : tinyMaxSize < size) (hmax : size ≤ smallMaxSize) :
    ∃ m d, 6 ≤ m ∧ m < 12 ∧ 4 ≤ d ∧ d < 8 ∧ d * 2 ^ (m - 2) < size ∧
      size ≤ (d + 1) * 2 ^ (m - 2) ∧ sizeClass size = 8 + 4 * (m - 6) + (d - 4) := by
  unfold tinyMaxSize at hmin
  unfold smallMaxSize at hmax
  have hne : size - 1 ≠ 0 := by omega
  have hlow := Nat.log2_self_le hne
  have hhigh := Nat.lt_log2_self (n := size - 1)
  have h6 : 6 ≤ (size - 1).log2 := (Nat.le_log2 hne).2 (by omega)
  have h12 : (size - 1).log2 < 12 := (Nat.log2_lt hne).2 (by omega)
  have hclass : sizeClass size = 8 + ((size - 1).log2 - 6) <<< 2 +
      (((size - 1) >>> ((size - 1).log2 - 2)) &&& 3) := by
    unfold sizeClass tinyMaxSize smallMaxSize
    rw [if_neg (by omega), if_neg (by omega)]
    rfl
  generalize (size - 1).log2 = m at *
  obtain ⟨n, rfl⟩ := Nat.exists_eq_add_of_le' (by omega : 2 ≤ m)
  simp only [Nat.add_sub_cancel, Nat.shiftRight_eq_div_pow] at hclass
  have hpos : 0 < 2 ^ n := by positivity
  have hquot := Nat.div_add_mod (size - 1) (2 ^ n)
  have hrem := Nat.mod_lt (size - 1) hpos
  have hd4 : 4 ≤ (size - 1) / 2 ^ n := by
    rw [Nat.le_div_iff_mul_le hpos]
    rw [pow_add] at hlow
    omega
  have hd8 : (size - 1) / 2 ^ n < 8 := by
    rw [Nat.div_lt_iff_lt_mul hpos]
    rw [show n + 2 + 1 = n + 3 from rfl, pow_add] at hhigh
    omega
  generalize (size - 1) / 2 ^ n = d at *
  refine ⟨n + 2, d, h6, h12, hd4, hd8, ?_, ?_, ?_⟩
  · rw [Nat.add_sub_cancel, Nat.mul_comm]
    omega
  · rw [Nat.add_sub_cancel, Nat.add_mul, Nat.one_mul, Nat.mul_comm]
    omega
  · rw [hclass, Nat.shiftLeft_eq]
    have hmask : d &&& 3 = d - 4 := by
      interval_cases d <;> rfl
    omega

theorem quarter_class_size {m d : ℕ} (h6 : 6 ≤ m) (h12 : m < 12) (h4 : 4 ≤ d) (h8 : d < 8) :
    sizeClassSize (8 + 4 * (m - 6) + (d - 4)) = (d + 1) * 2 ^ (m - 2) := by
  interval_cases m <;> interval_cases d <;> rfl

/-- The size just below a small class is the start of its quarter. -/
theorem quarter_class_pred {m d : ℕ} (h6 : 6 ≤ m) (h12 : m < 12) (h4 : 4 ≤ d) (h8 : d < 8) :
    sizeClassSize (8 + 4 * (m - 6) + (d - 4) - 1) = d * 2 ^ (m - 2) := by
  interval_cases m <;> interval_cases d <;> rfl

/-- Small requests: the class is the least one that holds the request. -/
theorem sizeClass_small (hpos : 1 ≤ size) (hmax : size ≤ smallMaxSize) :
    sizeClass size < mediumFirstClass ∧ size ≤ sizeClassSize (sizeClass size) ∧
      ∀ cls < sizeClass size, sizeClassSize cls < size := by
  by_cases htiny : size ≤ tinyMaxSize
  · have hcls := sizeClass_tiny htiny
    rw [max_eq_left hpos] at hcls
    unfold tinyMaxSize at htiny
    have hlt : sizeClass size < smallFirstClass := by
      unfold smallFirstClass
      omega
    refine ⟨hlt.trans (by decide), ?_, fun cls hlt' => ?_⟩
    · rw [tiny_class_size hlt]
      omega
    · rw [tiny_class_size (hlt'.trans hlt)]
      omega
  · obtain ⟨m, d, h6, h12, h4, h8, hlow, hhigh, hcls⟩ :=
      sizeClass_quarter (Nat.lt_of_not_le htiny) hmax
    have hlt : sizeClass size < mediumFirstClass := by
      unfold mediumFirstClass
      omega
    refine ⟨hlt, ?_, fun cls hlt' => ?_⟩
    · rw [hcls, quarter_class_size h6 h12 h4 h8]
      exact hhigh
    · have hpred := quarter_class_pred h6 h12 h4 h8
      rw [← hcls] at hpred
      rcases Nat.lt_or_ge cls (sizeClass size - 1) with hbelow | hat
      · have := sizeClassSize_lt hbelow (by unfold mediumFirstClass numSizeClasses at *; omega)
        omega
      · rw [show cls = sizeClass size - 1 by omega]
        omega

theorem sizeClass_medium (hmin : smallMaxSize < size) : mediumFirstClass ≤ sizeClass size := by
  unfold sizeClass
  rw [if_neg (by unfold smallMaxSize at hmin; unfold tinyMaxSize; omega), if_pos hmin]
  simp only
  split_ifs
  · decide
  · exact Nat.le_add_right _ _

/-- One class for each power of two. -/
theorem power_class_size {m : ℕ} (h12 : 12 ≤ m) (h20 : m ≤ 20) :
    sizeClassSize (mediumFirstClass + (m - mediumMsbBase)) = 2 ^ (m + 1) := by
  interval_cases m <;> rfl

theorem sizeClass_power (hmin : smallMaxSize < size) :
    sizeClass size = if size ≤ largeMaxSize then
      mediumFirstClass + (Nat.log2 (size - 1) - mediumMsbBase) else classHuge := by
  have hlog : size ≤ largeMaxSize ↔ Nat.log2 (size - 1) ≤ 20 := by
    have hne : size - 1 ≠ 0 := by
      unfold smallMaxSize at hmin
      omega
    rw [show Nat.log2 (size - 1) ≤ 20 ↔ Nat.log2 (size - 1) < 21 from Nat.lt_succ_iff.symm,
      Nat.log2_lt hne]
    unfold largeMaxSize
    omega
  have hclass : mediumFirstClass + (Nat.log2 (size - 1) - mediumMsbBase) > largeLastClass ↔
      ¬ Nat.log2 (size - 1) ≤ 20 := by
    unfold mediumFirstClass mediumMsbBase largeLastClass
    omega
  unfold sizeClass
  rw [if_neg (by unfold smallMaxSize at hmin; unfold tinyMaxSize; omega), if_pos hmin]
  simp only [hlog, hclass, ite_not]

/-- The class is the least one that holds the request. -/
theorem sizeClass_least (hpos : 1 ≤ size) (hmax : size ≤ largeMaxSize) :
    sizeClass size < numSizeClasses ∧ size ≤ sizeClassSize (sizeClass size) ∧
      ∀ cls < sizeClass size, sizeClassSize cls < size := by
  by_cases hsmall : size ≤ smallMaxSize
  · obtain ⟨hlt, hrest⟩ := sizeClass_small hpos hsmall
    exact ⟨hlt.trans (by decide), hrest⟩
  · have hmin := Nat.lt_of_not_le hsmall
    have hcls := sizeClass_power hmin
    rw [if_pos hmax] at hcls
    unfold smallMaxSize at hmin
    have hne : size - 1 ≠ 0 := by omega
    have hlow := Nat.log2_self_le hne
    have hhigh := Nat.lt_log2_self (n := size - 1)
    have h12 : 12 ≤ Nat.log2 (size - 1) := (Nat.le_log2 hne).2 (by omega)
    have h20 : Nat.log2 (size - 1) ≤ 20 := by
      rw [← Nat.lt_succ_iff, Nat.succ_eq_add_one, Nat.log2_lt hne]
      unfold largeMaxSize at hmax
      omega
    generalize Nat.log2 (size - 1) = m at *
    have hlt : sizeClass size < numSizeClasses := by
      rw [hcls]
      unfold mediumFirstClass mediumMsbBase numSizeClasses
      omega
    refine ⟨hlt, ?_, fun cls hbelow => ?_⟩
    · rw [hcls, power_class_size h12 h20]
      omega
    · have hprev : sizeClassSize (sizeClass size - 1) ≤ 2 ^ m := by
        rw [hcls]
        interval_cases m <;> decide
      rcases Nat.lt_or_ge cls (sizeClass size - 1) with hless | hat
      · have := sizeClassSize_lt hless (by omega)
        omega
      · rw [show cls = sizeClass size - 1 by omega]
        omega

theorem sizeClass_huge_iff (hpos : 1 ≤ size) : sizeClass size = classHuge ↔ largeMaxSize < size := by
  constructor
  · intro hhuge
    by_contra hle
    have hlt := (sizeClass_least hpos (Nat.le_of_not_lt hle)).1
    rw [hhuge] at hlt
    exact absurd hlt (by decide)
  · intro hbig
    rw [sizeClass_power (lt_trans (by decide) hbig), if_neg (Nat.not_le.2 hbig)]

end V8Malloc
