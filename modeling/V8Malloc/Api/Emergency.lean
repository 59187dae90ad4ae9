import V8Malloc.Api.Spec

/-!
# The emergency buffer for signal handlers

`v8m_signal_safe_alloc` cuts pieces off one static buffer. A call touches
shared state in one atomic addition only, so the interleavings of calls are
the orders of their additions. The addition comes before the test whether the
piece still fits.
-/
namespace V8Malloc

variable {a : Api} {n : ℕ}

/-- A request rounded up to the alignment of the buffer, at least one unit. -/
def roundedSize (n : ℕ) : ℕ := max bumpAlign ((n + bumpAlign - 1) / bumpAlign * bumpAlign)

theorem le_roundedSize (n : ℕ) : n ≤ roundedSize n := by
  unfold roundedSize bumpAlign
  omega

theorem step_eq_roundedSize {bump : Bump} (halign : bump.align = bumpAlign)
    (hn : n + bumpAlign ≤ 2 ^ 64) : bump.step n = roundedSize n := by
  simp only [bumpAlign] at hn
  simp only [Bump.step, roundUpPow2, halign, roundedSize, bumpAlign]
  split_ifs <;> omega

section bump

variable {bump : Bump} (hbuffer : 0 < bump.buffer) (halign : bump.align = bumpAlign)
variable (hsize : bump.size + bumpAlign ≤ 2 ^ 64)

include hbuffer halign hsize

/-- The early test for huge requests refuses nothing that the later one would let pass. -/
theorem bumpAlloc_eq_zero :
    (bumpAlloc bump n).1 = 0 ↔ bump.size < bump.offset + roundedSize n := by
  have hround := le_roundedSize n
  have hnull : ¬(bump.buffer = 0 ∨ bump.align = 0) := by
    rw [halign]
    simp [hbuffer.ne', bumpAlign]
  simp only [bumpAlloc, if_neg hnull]
  by_cases hbig : n > bump.size
  · simp only [if_pos hbig, true_iff]
    omega
  · rw [if_neg hbig, step_eq_roundedSize halign (by omega)]
    split_ifs with hfull
    · simp only [true_iff]
      omega
    · simp only [Nat.add_eq_zero_iff, hbuffer.ne', false_and, false_iff]
      omega

theorem bumpAlloc_offset : (bumpAlloc bump n).2.offset =
    if bump.size < n then bump.offset else (bump.offset + roundedSize n) % 2 ^ 64 := by
  have hnull : ¬(bump.buffer = 0 ∨ bump.align = 0) := by
    rw [halign]
    simp [hbuffer.ne', bumpAlign]
  simp only [bumpAlloc, if_neg hnull]
  by_cases hbig : n > bump.size
  · simp [hbig]
  · rw [if_neg hbig, if_neg hbig, step_eq_roundedSize halign (by omega)]
    split_ifs <;> rfl

end bump

/-- One request: the next state, and the bytes granted so far. -/
def askEmergency (s : Api × ℕ) (n : ℕ) : Api × ℕ :=
  let out := signalSafeAlloc s.1 n
  (out.2, s.2 + if out.1 = 0 then 0 else roundedSize n)

/-- The state after the requests, and the rounded sizes of those that succeeded. -/
def emergencyAfter (a : Api) (requests : List ℕ) : Api × ℕ :=
  requests.foldl askEmergency (a, 0)

def emergencyGranted (a : Api) (requests : List ℕ) : ℕ := (emergencyAfter a requests).2

@[simp] theorem emergencyAfter_concat (requests : List ℕ) :
    emergencyAfter a (requests ++ [n]) = askEmergency (emergencyAfter a requests) n := by
  simp [emergencyAfter]

theorem signalSafeAlloc_eq_zero (hb : BuffersOk a) : (signalSafeAlloc a n).1 = 0 ↔
    signalSafeSize < a.signalSafe.offset + roundedSize n := by
  obtain ⟨hbuffer, hsize, halign⟩ := hb.signalSafe
  have hzero := bumpAlloc_eq_zero (n := n) hbuffer halign (by rw [hsize]; decide)
  rwa [hsize] at hzero

theorem signalSafeAlloc_offset (hb : BuffersOk a) : (signalSafeAlloc a n).2.signalSafe.offset =
    if signalSafeSize < n then a.signalSafe.offset
    else (a.signalSafe.offset + roundedSize n) % 2 ^ 64 := by
  obtain ⟨hbuffer, hsize, halign⟩ := hb.signalSafe
  have hoffset := bumpAlloc_offset (n := n) hbuffer halign (by rw [hsize]; decide)
  rwa [hsize] at hoffset

/-- The buffer after requests whose rounded sizes add up to `total`. -/
structure EmergencyInv (s : Api × ℕ) (total : ℕ) : Prop where
  buffers : BuffersOk s.1
  offset_le : s.1.signalSafe.offset ≤ total
  /-- Until the first request goes over the end, all that was added was granted. -/
  granted : s.1.signalSafe.offset ≤ signalSafeSize → s.2 = s.1.signalSafe.offset

theorem EmergencyInv.ask {s : Api × ℕ} {total : ℕ} (h : EmergencyInv s total)
    (hsum : total + roundedSize n < 2 ^ 64) :
    EmergencyInv (askEmergency s n) (total + roundedSize n) := by
  have hle := h.offset_le
  have hzero := signalSafeAlloc_eq_zero (n := n) h.buffers
  have hoffset := signalSafeAlloc_offset (n := n) h.buffers
  have hround := le_roundedSize n
  constructor
  · exact h.buffers.congr (signalSafeAlloc_piece h.buffers n).1
  · simp only [askEmergency, hoffset]
    split_ifs <;> omega
  · have hgranted := h.granted
    simp only [askEmergency, hoffset, hzero]
    split_ifs <;> omega

theorem emergencyAfter_inv (hb : BuffersOk a) (hstart : a.signalSafe.offset = 0)
    (requests : List ℕ) (hsum : (requests.map roundedSize).sum < 2 ^ 64) :
    EmergencyInv (emergencyAfter a requests) (requests.map roundedSize).sum := by
  induction requests using List.reverseRecOn with
  | nil => exact ⟨hb, hstart.le, fun _ => hstart.symm⟩
  | append_singleton requests n ih =>
    simp only [List.map_append, List.map_singleton, List.sum_append, List.sum_singleton] at hsum ⊢
    rw [emergencyAfter_concat]
    exact (ih (by omega)).ask hsum

/-- A refusal means that the buffer is used up, unless an earlier request has already pushed the
offset over the end and this one would still fit behind the granted pieces. -/
theorem emergency_exhausted_iff (a : Api) (hb : BuffersOk a) (hstart : a.signalSafe.offset = 0)
    (earlier : List ℕ) (n : ℕ) (hsum : (earlier.map roundedSize).sum + roundedSize n < 2 ^ 64) :
    ((signalSafeAlloc (emergencyAfter a earlier).1 n).1 = 0 →
        signalSafeSize - emergencyGranted a earlier < roundedSize n) ↔
      (emergencyAfter a earlier).1.signalSafe.offset ≤ signalSafeSize ∨
        signalSafeSize < emergencyGranted a earlier + roundedSize n := by
  have hinv := emergencyAfter_inv hb hstart earlier (by omega)
  have hgranted := hinv.granted
  have hround := le_roundedSize n
  have hpos : 0 < roundedSize n := lt_of_lt_of_le (by decide) (le_max_left _ _)
  rw [signalSafeAlloc_eq_zero hinv.buffers, emergencyGranted]
  omega

/-- The library as loaded, with the emergency buffer at 2 MiB. -/
def loadedApi : Api := Api.load emptyPool (2 ^ 20) (2 ^ 21)

theorem loadedApi_buffers : BuffersOk loadedApi where
  bootstrap := by decide
  signalSafe := by decide
  apart := Or.inl (by decide)

theorem emergency_exhausted_first :
    (([60000].map roundedSize).sum + roundedSize 10000 < 2 ^ 64) ∧
      (((signalSafeAlloc (emergencyAfter loadedApi [60000]).1 10000).1 = 0 →
        signalSafeSize - emergencyGranted loadedApi [60000] < roundedSize 10000) ↔
      (emergencyAfter loadedApi [60000]).1.signalSafe.offset ≤ signalSafeSize ∨
        signalSafeSize < emergencyGranted loadedApi [60000] + roundedSize 10000) :=
  ⟨by decide, emergency_exhausted_iff loadedApi loadedApi_buffers rfl [60000] 10000 (by decide)⟩

/-- 10000 bytes do not fit behind the first 60000, and after that nothing does. -/
theorem emergency_refuses_small :
    (signalSafeAlloc loadedApi 60000).1 = 2 ^ 21 ∧
      (signalSafeAlloc (emergencyAfter loadedApi [60000, 10000]).1 16).1 = 0 ∧
      emergencyGranted loadedApi [60000, 10000] = 60000 ∧
      roundedSize 16 ≤ signalSafeSize - emergencyGranted loadedApi [60000, 10000] := by
  decide +kernel

end V8Malloc
