import V8Malloc.Lib.ByteMemory

/-!
# The use-after-free detector

`v8m_debug.c` latches the DEBUG option once, so the flag is a constant of a
run. While it is on, freed memory is stamped with a poison byte and the stamp
is checked when the memory is handed out again; a mismatch aborts the process.
-/
namespace V8Malloc

open ByteMemory

/-- Why a call does not return to its caller. -/
inductive Stop where
  | abort
  | diverge
  deriving DecidableEq, Repr

def debugPoisonByte : UInt8 := 0xDF

def debugUafPoison (uafActive : Bool) (m : Mem) (ptr bytes : ℕ) : Mem :=
  if bytes = 0 then m
  else if !uafActive then m
  else fill m ptr bytes debugPoisonByte

def debugUafVerify (uafActive : Bool) (m : Mem) (ptr bytes : ℕ) : Except Stop Unit :=
  if bytes = 0 then .ok ()
  else if !uafActive then .ok ()
  else if allBytes m ptr bytes debugPoisonByte then .ok ()
  else .error .abort

theorem sameOutside_debugUafPoison (uafActive : Bool) (m : Mem) (ptr bytes : ℕ) :
    SameOutside ptr bytes m (debugUafPoison uafActive m ptr bytes) := by
  unfold debugUafPoison
  split_ifs
  · exact SameOutside.refl _ _ _
  · exact SameOutside.refl _ _ _
  · exact sameOutside_fill _ _ _ _

theorem debugUafVerify_cases (uafActive : Bool) (m : Mem) (ptr bytes : ℕ) :
    debugUafVerify uafActive m ptr bytes = .ok () ∨
      uafActive = true ∧ debugUafVerify uafActive m ptr bytes = .error .abort := by
  unfold debugUafVerify
  split_ifs <;> simp_all

theorem debugUafVerify_ok {uafActive : Bool} {m : Mem} {ptr n : ℕ}
    (h : uafActive = true → ∀ a, ptr ≤ a → a < ptr + n → m a = debugPoisonByte) :
    debugUafVerify uafActive m ptr n = .ok () := by
  unfold debugUafVerify
  split_ifs with hzero hoff hall
  · rfl
  · rfl
  · rfl
  · refine absurd ?_ hall
    simp only [allBytes, List.all_eq_true, List.mem_range, beq_iff_eq]
    intro i hi
    exact h (by simpa using hoff) _ (by omega) (by omega)

theorem debugUafPoison_stamps {uafActive : Bool} {m : Mem} {ptr n a : ℕ}
    (hactive : uafActive = true) (hlo : ptr ≤ a) (hhi : a < ptr + n) :
    debugUafPoison uafActive m ptr n a = debugPoisonByte := by
  have hn : n ≠ 0 := by omega
  simp only [debugUafPoison, hactive, if_neg hn, Bool.not_true, Bool.false_eq_true, if_false]
  exact if_pos ⟨hlo, hhi⟩

/-- The call returns with `post`, or one of the debug `checks` stops the process. -/
def Returns {α : Type} (checks : Prop) (x : Except Stop α) (post : α → Prop) : Prop :=
  (∃ r, x = .ok r ∧ post r) ∨ checks ∧ x = .error .abort

variable {α β : Type} {checks : Prop} {x : Except Stop α} {r : α} {post : α → Prop}

/-- A sequence returns when both parts do. -/
theorem bind_ok_iff {f : α → Except Stop β} {r : β} :
    x >>= f = .ok r ↔ ∃ v, x = .ok v ∧ f v = .ok r := by
  cases x <;> simp [bind, Except.bind]

theorem returns_ok (h : post r) : Returns checks (.ok r) post := Or.inl ⟨r, rfl, h⟩

theorem Returns.bind {f : α → Except Stop β} {post' : β → Prop} (hx : Returns checks x post)
    (hf : ∀ r, post r → Returns checks (f r) post') : Returns checks (x >>= f) post' := by
  rcases hx with ⟨r, rfl, hr⟩ | ⟨hc, rfl⟩
  · exact hf r hr
  · exact Or.inr ⟨hc, rfl⟩

theorem Returns.mono {post' : α → Prop} (hx : Returns checks x post)
    (hpost : ∀ r, post r → post' r) : Returns checks x post' := by
  rcases hx with ⟨r, hok, hr⟩ | habort
  · exact Or.inl ⟨r, hok, hpost r hr⟩
  · exact Or.inr habort

theorem Returns.of_ok (hx : Returns checks x post) (hok : x = .ok r) : post r := by
  rcases hx with ⟨r', hok', hr⟩ | ⟨-, habort⟩
  · rw [hok] at hok'
    cases hok'
    exact hr
  · rw [hok] at habort
    cases habort

theorem Returns.foldlM {f : β → α → Except Stop β} {P : β → Prop} (xs : List α)
    (hstep : ∀ b, P b → ∀ x ∈ xs, Returns checks (f b x) P) :
    ∀ {b : β}, P b → Returns checks (xs.foldlM f b) P := by
  induction xs with
  | nil => exact fun hb => returns_ok hb
  | cons x xs ih =>
    intro b hb
    rw [List.foldlM_cons]
    apply (hstep b hb x List.mem_cons_self).bind
    intro b' hb'
    exact ih (fun c hc y hy => hstep c hc y (List.mem_cons_of_mem x hy)) hb'

end V8Malloc
