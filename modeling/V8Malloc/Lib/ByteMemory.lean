import Mathlib.Tactic

/-!
# Byte-addressed memory

Memory is a total map from addresses to bytes. Words are read and written in
little-endian order; a write changes the bytes of its own range only.
-/
namespace ByteMemory

abbrev Mem := ℕ → UInt8

/-- The little-endian value of the `n` bytes at `a`. -/
def load (m : Mem) (a : ℕ) : ℕ → ℕ
  | 0 => 0
  | n + 1 => (m a).toNat + 256 * load m (a + 1) n

/-- Writes the low `n` bytes of `v` at `a`. -/
def store (m : Mem) (a n v : ℕ) : Mem :=
  fun x => if a ≤ x ∧ x < a + n then UInt8.ofNat (v / 256 ^ (x - a)) else m x

def fill (m : Mem) (a n : ℕ) (byte : UInt8) : Mem :=
  fun x => if a ≤ x ∧ x < a + n then byte else m x

/-- `memcpy`, reading the source as it was before the call. -/
def copy (m : Mem) (dst src n : ℕ) : Mem :=
  fun x => if dst ≤ x ∧ x < dst + n then m (src + (x - dst)) else m x

/-- Every byte of `[a, a + n)` equals `byte`. -/
def allBytes (m : Mem) (a n : ℕ) (byte : UInt8) : Bool :=
  (List.range n).all fun i => m (a + i) == byte

/-- The two memories agree outside `[a, a + n)`. -/
def SameOutside (a n : ℕ) (m m' : Mem) : Prop := ∀ x, x < a ∨ a + n ≤ x → m' x = m x

variable {m m' m'' : Mem} {a b n k v : ℕ}

theorem SameOutside.refl (a n : ℕ) (m : Mem) : SameOutside a n m m := fun _ _ => rfl

theorem SameOutside.trans (h : SameOutside a n m m') (h' : SameOutside a n m' m'') :
    SameOutside a n m m'' := fun x hx => (h' x hx).trans (h x hx)

theorem SameOutside.mono (h : SameOutside b k m m') (hl : a ≤ b) (hr : b + k ≤ a + n) :
    SameOutside a n m m' := fun x hx => h x (by omega)

theorem sameOutside_store (m : Mem) (a n v : ℕ) : SameOutside a n m (store m a n v) :=
  fun _ hx => if_neg (by omega)

theorem sameOutside_fill (m : Mem) (a n : ℕ) (byte : UInt8) :
    SameOutside a n m (fill m a n byte) := fun _ hx => if_neg (by omega)

theorem sameOutside_copy (m : Mem) (dst src n : ℕ) : SameOutside dst n m (copy m dst src n) :=
  fun _ hx => if_neg (by omega)

theorem load_congr (h : ∀ x, a ≤ x → x < a + n → m' x = m x) : load m' a n = load m a n := by
  induction n generalizing a with
  | zero => rfl
  | succ n ih =>
    have htail := ih (a := a + 1) fun x hl hr => h x (by omega) (by omega)
    simp only [load, h a le_rfl (by omega), htail]

/-- A change outside the bytes that are read is not seen. -/
theorem SameOutside.load (h : SameOutside a n m m') (hd : b + k ≤ a ∨ a + n ≤ b) :
    load m' b k = load m b k := load_congr fun x _ _ => h x (by omega)

theorem allBytes_congr {byte : UInt8} (h : ∀ x, a ≤ x → x < a + n → m' x = m x) :
    allBytes m' a n byte = allBytes m a n byte := by
  unfold allBytes
  rw [Bool.eq_iff_iff, List.all_eq_true, List.all_eq_true]
  apply forall₂_congr
  intro i hi
  have hi := List.mem_range.1 hi
  rw [h (a + i) (by omega) (by omega)]

theorem load_lt (m : Mem) (a n : ℕ) : load m a n < 256 ^ n := by
  induction n generalizing a with
  | zero => simp [load]
  | succ n ih =>
    have hb := (m a).toNat_lt
    have ht := ih (a + 1)
    simp only [load, pow_succ]
    omega

theorem load_store_self (m : Mem) (a n v : ℕ) : load (store m a n v) a n = v % 256 ^ n := by
  induction n generalizing m a v with
  | zero => simp [load, Nat.mod_one]
  | succ n ih =>
    have htail : load (store m a (n + 1) v) (a + 1) n =
        load (store m (a + 1) n (v / 256)) (a + 1) n := by
      refine load_congr fun x hl hr => ?_
      have hx : x - a = x - (a + 1) + 1 := by omega
      rw [store, store, if_pos (by omega), if_pos (by omega), hx, pow_succ', Nat.div_div_eq_div_mul]
    have hhead : (store m a (n + 1) v a).toNat = v % 256 := by
      simp [store]
    simp only [load, htail, ih, hhead]
    rw [pow_succ', Nat.mod_mul]

theorem load_store_of_lt (hv : v < 256 ^ n) : load (store m a n v) a n = v := by
  rw [load_store_self, Nat.mod_eq_of_lt hv]

theorem load_store_of_disjoint (hd : b + k ≤ a ∨ a + n ≤ b) :
    load (store m a n v) b k = load m b k := (sameOutside_store m a n v).load hd

theorem load_zero (h : ∀ x, a ≤ x → x < a + n → m x = 0) : load m a n = 0 := by
  induction n generalizing a with
  | zero => rfl
  | succ n ih =>
    have htail := ih (a := a + 1) fun x hl hr => h x (by omega) (by omega)
    simp [load, h a le_rfl (by omega), htail]

/-- Pointer-sized words. -/
def load64 (m : Mem) (a : ℕ) : ℕ := load m a 8
def store64 (m : Mem) (a v : ℕ) : Mem := store m a 8 v

theorem load64_store64_self (hv : v < 2 ^ 64) : load64 (store64 m a v) a = v :=
  load_store_of_lt (by norm_num at hv ⊢; exact hv)

theorem load64_store64_of_disjoint (hd : b + 8 ≤ a ∨ a + 8 ≤ b) :
    load64 (store64 m a v) b = load64 m b := load_store_of_disjoint hd

theorem sameOutside_store64 (m : Mem) (a v : ℕ) : SameOutside a 8 m (store64 m a v) :=
  sameOutside_store m a 8 v

theorem load64_lt (m : Mem) (a : ℕ) : load64 m a < 2 ^ 64 :=
  (load_lt m a 8).trans_eq (by norm_num)

theorem SameOutside.load64 (h : SameOutside a n m m') (hd : b + 8 ≤ a ∨ a + n ≤ b) :
    load64 m' b = load64 m b := SameOutside.load h hd

/-! ### Changes that look at one byte at a time -/

/-- What such a change puts at an address depends on the byte that was there only. -/
def Bytewise (f : Mem → Mem) : Prop := ∀ m m' x, m' x = m x → f m' x = f m x

theorem bytewise_store (a n v : ℕ) : Bytewise fun m => store m a n v := by
  intro m m' x hx
  simp only [store, hx]

theorem bytewise_fill (a n : ℕ) (byte : UInt8) : Bytewise fun m => fill m a n byte := by
  intro m m' x hx
  simp only [fill, hx]

theorem bytewise_foldl {ι : Type} {f : Mem → ι → Mem} (hf : ∀ i, Bytewise fun m => f m i)
    (items : List ι) : Bytewise fun m => items.foldl f m := by
  induction items with
  | nil => exact fun m m' x hx => hx
  | cons i rest ih => exact fun m m' x hx => ih _ _ x (hf i m m' x hx)

end ByteMemory
