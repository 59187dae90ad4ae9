import V8Malloc.PageHeap.AcquireSpec

/-!
# Carves of the anchor reservation

A reservation is carved from its base upwards and never reuses what it has
handed out: `v8m_anchor_reservation_release` gives the physical pages back and
leaves the bump offset where it is. The calls below come in any order, with any
arguments and any answers of `mprotect`.
-/
namespace V8Malloc.PageHeap

variable {osPage base cap bytes alignment p : ℕ} {res res' : AnchorReservation}

/-- A call with the answer `mprotect` would give at each address. -/
inductive AnchorOp where
  | carve (bytes alignment : ℕ) (mprotect : ℕ → Bool)
  | release (ptr bytes : ℕ)

structure Carve where
  start : ℕ
  bytes : ℕ
  alignment : ℕ
  deriving DecidableEq, Repr

/-- The address a carve passes to `mprotect`. -/
def carveTarget (res : AnchorReservation) (alignment : ℕ) : ℕ :=
  alignUp ((res.base + res.bumpOffset) % addressSpace) (if alignment = 0 then 1 else alignment)

def releaseAccepts (res : AnchorReservation) (ptr bytes : ℕ) : Bool :=
  !(res.base = 0 ∨ ptr = 0 ∨ bytes = 0) &&
    !(ptr < res.base ∨ ptr - res.base ≥ res.cap ∨ bytes > res.cap - (ptr - res.base))

/-- The carve, if there is one, and the reservation after the call. -/
def anchorStep (res : AnchorReservation) : AnchorOp → Option Carve × AnchorReservation
  | .carve bytes alignment mprotect =>
    match anchorReservationCarve res bytes alignment (mprotect (carveTarget res alignment)) with
    | none => (none, res)
    | some (start, res) => (some ⟨start, bytes, alignment⟩, res)
  | .release _ _ => (none, res)

/-- The carves so far, oldest first, and the reservation. -/
def anchorRun (base cap : ℕ) (ops : List AnchorOp) : List Carve × AnchorReservation :=
  ops.foldl (fun run op => (run.1 ++ (anchorStep run.2 op).1.toList, (anchorStep run.2 op).2))
    ([], ⟨base, cap, 0, Nat.zero_le cap⟩)

@[simp] theorem anchorRun_concat (ops : List AnchorOp) (op : AnchorOp) :
    anchorRun base cap (ops ++ [op]) =
      ((anchorRun base cap ops).1 ++ (anchorStep (anchorRun base cap ops).2 op).1.toList,
        (anchorStep (anchorRun base cap ops).2 op).2) := by
  simp [anchorRun]

/-- The pages of the kernel that a call on the range works on. -/
def osPages (osPage ptr bytes : ℕ) : Set ℕ :=
  {k | k * osPage < ptr + bytes ∧ ptr < (k + 1) * osPage}

/-- What `v8m_anchor_reservation_release` discards and protects. -/
def releasedPages (osPage : ℕ) (res : AnchorReservation) (ptr bytes : ℕ) : Set ℕ :=
  if releaseAccepts res ptr bytes then osPages osPage ptr bytes else ∅

/-- `mprotect` fails for every address that is not aligned to a page of the kernel. -/
def Posix (osPage : ℕ) : AnchorOp → Prop
  | .carve _ _ mprotect => ∀ addr, mprotect addr = true → osPage ∣ addr
  | .release _ _ => True

/-! ### One call -/

theorem anchorStep_none {op : AnchorOp} (hop : (anchorStep res op).1 = none) :
    (anchorStep res op).2 = res := by
  cases op with
  | carve bytes alignment mprotect =>
    simp only [anchorStep] at hop ⊢
    split at hop
    · rfl
    · cases hop
  | release ptr bytes => rfl

/-- What a carve adds to the reservation. -/
structure CarvePlaced (res : AnchorReservation) (c : Carve) (res' : AnchorReservation) : Prop where
  aligned : max c.alignment 1 ∣ c.start
  behind : res.base + res.bumpOffset ≤ c.start
  inside : c.start + c.bytes ≤ res.base + res.cap
  base_eq : res'.base = res.base
  cap_eq : res'.cap = res.cap
  bump : res'.base + res'.bumpOffset = c.start + c.bytes

/-- Only a carve hands something out, at the address that `mprotect` has opened. -/
theorem anchorStep_some {op : AnchorOp} {c : Carve} (hop : (anchorStep res op).1 = some c) :
    ∃ mprotect : ℕ → Bool, op = .carve c.bytes c.alignment mprotect ∧ mprotect c.start = true ∧
      anchorReservationCarve res c.bytes c.alignment true =
        some (c.start, (anchorStep res op).2) := by
  cases op with
  | carve bytes alignment mprotect =>
    simp only [anchorStep] at hop ⊢
    cases hc : anchorReservationCarve res bytes alignment (mprotect (carveTarget res alignment)) with
    | none =>
      rw [hc] at hop
      cases hop
    | some out =>
      rw [hc] at hop
      obtain rfl := Option.some.inj hop
      obtain ⟨-, hprot, hp, -⟩ := carve_eq_some hc
      have htarget : carveTarget res alignment = out.1 := by
        rw [hp, carveTarget]
        congr 1
        split_ifs <;> omega
      rw [hprot] at hc
      rw [htarget] at hprot
      exact ⟨mprotect, rfl, hprot, hc⟩
  | release ptr bytes => cases hop

theorem anchorStep_placed {op : AnchorOp} {c : Carve} (hcap : res.base + res.cap ≤ addressSpace)
    (hop : (anchorStep res op).1 = some c) : CarvePlaced res c (anchorStep res op).2 := by
  obtain ⟨-, -, -, hc⟩ := anchorStep_some hop
  obtain ⟨hdvd, hlo, hhi, eb, ec, hbump⟩ := carve_spec hcap hc
  exact ⟨hdvd, hlo, hhi, eb, ec, hbump⟩

theorem anchorStep_posix {op : AnchorOp} {c : Carve} (hposix : Posix osPage op)
    (hop : (anchorStep res op).1 = some c) : osPage ∣ c.start := by
  obtain ⟨mprotect, rfl, hprot, -⟩ := anchorStep_some hop
  exact hposix c.start hprot

/-- The bump offset moves forward or stays. -/
theorem anchorStep_bump (hcap : res.base + res.cap ≤ addressSpace) (op : AnchorOp) :
    res.bumpOffset ≤ (anchorStep res op).2.bumpOffset := by
  cases hop : (anchorStep res op).1 with
  | none => rw [anchorStep_none hop]
  | some c =>
    obtain ⟨-, hbehind, -, hbase, -, hbump⟩ := anchorStep_placed hcap hop
    omega

/-! ### Runs -/

structure AnchorInv (base cap : ℕ) (run : List Carve × AnchorReservation) : Prop where
  base_eq : run.2.base = base
  cap_eq : run.2.cap = cap
  aligned : ∀ c ∈ run.1, max c.alignment 1 ∣ c.start
  inside : ∀ c ∈ run.1, base ≤ c.start ∧ c.start + c.bytes ≤ base + cap
  behind : ∀ c ∈ run.1, c.start + c.bytes ≤ base + run.2.bumpOffset
  apart : run.1.Pairwise fun c d => c.start + c.bytes ≤ d.start

theorem AnchorInv.step {run : List Carve × AnchorReservation} (hinv : AnchorInv base cap run)
    (hfit : base + cap ≤ addressSpace) (op : AnchorOp) :
    AnchorInv base cap (run.1 ++ (anchorStep run.2 op).1.toList, (anchorStep run.2 op).2) := by
  obtain ⟨hbase, hcap, haligned, hinside, hbehind, hapart⟩ := hinv
  cases hop : (anchorStep run.2 op).1 with
  | none =>
    rw [anchorStep_none hop]
    simp only [Option.toList_none, List.append_nil]
    exact ⟨hbase, hcap, haligned, hinside, hbehind, hapart⟩
  | some c =>
    obtain ⟨hdvd, hlo, hhi, eb, ec, hbump⟩ := anchorStep_placed (by omega) hop
    have hlast : ∀ d ∈ run.1, d.start + d.bytes ≤ c.start := by
      intro d hd
      have hd' := hbehind d hd
      omega
    simp only [Option.toList_some]
    constructor
    · exact eb.trans hbase
    · exact ec.trans hcap
    · intro d hd
      rcases List.mem_append.1 hd with hd | hd
      · exact haligned d hd
      · rwa [List.mem_singleton.1 hd]
    · intro d hd
      rcases List.mem_append.1 hd with hd | hd
      · exact hinside d hd
      · rw [List.mem_singleton.1 hd]
        omega
    · intro d hd
      rcases List.mem_append.1 hd with hd | hd
      · have hd' := hlast d hd
        dsimp only
        omega
      · rw [List.mem_singleton.1 hd]
        dsimp only
        omega
    · simp only [List.pairwise_append, List.pairwise_singleton, List.mem_singleton, true_and]
      refine ⟨hapart, ?_⟩
      intro d hd d' hd'
      rw [hd']
      exact hlast d hd

theorem anchorRun_inv (hfit : base + cap ≤ addressSpace) (ops : List AnchorOp) :
    AnchorInv base cap (anchorRun base cap ops) := by
  induction ops using List.reverseRecOn with
  | nil =>
    constructor <;> simp [anchorRun]
  | append_singleton ops op ih =>
    rw [anchorRun_concat]
    exact ih.step hfit op

theorem anchorRun_posix (ops : List AnchorOp) (hposix : ∀ op ∈ ops, Posix osPage op) :
    ∀ c ∈ (anchorRun base cap ops).1, osPage ∣ c.start := by
  induction ops using List.reverseRecOn with
  | nil => simp [anchorRun]
  | append_singleton ops op ih =>
    rw [anchorRun_concat]
    intro c hc
    rcases List.mem_append.1 hc with hc | hc
    · exact ih (fun o ho => hposix o (by simp [ho])) c hc
    · rw [Option.mem_toList] at hc
      exact anchorStep_posix (hposix op (by simp)) hc

/-- A page that reaches into the later carve begins with it at the earliest. -/
theorem osPages_disjoint {c d : Carve} (hapart : c.start + c.bytes ≤ d.start)
    (hd : osPage ∣ d.start) :
    Disjoint (osPages osPage c.start c.bytes) (osPages osPage d.start d.bytes) := by
  rw [Set.disjoint_left]
  rintro k ⟨hlo, -⟩ ⟨-, hhi⟩
  obtain ⟨m, hm⟩ := hd
  rw [hm, Nat.mul_comm osPage m] at hhi
  have hkm : k * osPage < m * osPage := by
    rw [Nat.mul_comm m osPage, ← hm]
    omega
  have hlt := Nat.lt_of_mul_lt_mul_right hkm
  have hle := Nat.lt_of_mul_lt_mul_right hhi
  omega

/-- Carves are aligned, stay inside and lie behind each other; failed calls change nothing; and
where `mprotect` insists on page bounds, a release touches no page of another carve. -/
theorem anchor_carves_apart (osPage base cap : ℕ) (hfit : base + cap ≤ addressSpace)
    (ops : List AnchorOp) :
    let run := anchorRun base cap ops
    (∀ c ∈ run.1, max c.alignment 1 ∣ c.start ∧ base ≤ c.start ∧ c.start + c.bytes ≤ base + cap) ∧
      run.1.Pairwise (fun c d => c.start + c.bytes ≤ d.start) ∧
      run.2.bumpOffset ≤ cap ∧
      (∀ op, run.2.bumpOffset ≤ (anchorStep run.2 op).2.bumpOffset ∧
        ((anchorStep run.2 op).1 = none → (anchorStep run.2 op).2.bumpOffset = run.2.bumpOffset)) ∧
      ((∀ op ∈ ops, Posix osPage op) → run.1.Pairwise fun c d =>
        Disjoint (osPages osPage c.start c.bytes) (osPages osPage d.start d.bytes) ∧
        Disjoint (releasedPages osPage run.2 c.start c.bytes) (osPages osPage d.start d.bytes) ∧
        Disjoint (releasedPages osPage run.2 d.start d.bytes) (osPages osPage c.start c.bytes)) := by
  intro run
  have hinv : AnchorInv base cap run := anchorRun_inv hfit ops
  refine ⟨?_, hinv.apart, hinv.cap_eq ▸ run.2.bump_le, ?_, ?_⟩
  · intro c hc
    exact ⟨hinv.aligned c hc, hinv.inside c hc⟩
  · intro op
    refine ⟨anchorStep_bump ?_ op, fun hnone => by rw [anchorStep_none hnone]⟩
    rw [hinv.base_eq, hinv.cap_eq]
    exact hfit
  · intro hposix
    have hstart : ∀ c ∈ run.1, osPage ∣ c.start := anchorRun_posix ops hposix
    refine hinv.apart.imp_of_mem ?_
    intro c d hc hd hcd
    have hdisjoint := osPages_disjoint hcd (hstart d hd)
    refine ⟨hdisjoint, ?_, ?_⟩
    · unfold releasedPages
      split_ifs
      · exact hdisjoint
      · exact Set.empty_disjoint _
    · unfold releasedPages
      split_ifs
      · exact hdisjoint.symm
      · exact Set.empty_disjoint _

/-- Two carves of 100 bytes from a reservation at 1 GiB; the one between them is refused. -/
def threeCarves : List AnchorOp :=
  [.carve 100 4096 fun addr => addr % 4096 = 0, .carve 100 1 fun addr => addr % 4096 = 0,
    .carve 100 4096 fun addr => addr % 4096 = 0]

theorem anchor_carves_apart_three :
    2 ^ 30 + 2 ^ 20 ≤ addressSpace ∧ (anchorRun (2 ^ 30) (2 ^ 20) threeCarves).1 =
        [⟨2 ^ 30, 100, 4096⟩, ⟨2 ^ 30 + 4096, 100, 4096⟩] ∧
      ∀ c ∈ (anchorRun (2 ^ 30) (2 ^ 20) threeCarves).1, max c.alignment 1 ∣ c.start ∧
        2 ^ 30 ≤ c.start ∧ c.start + c.bytes ≤ 2 ^ 30 + 2 ^ 20 :=
  ⟨by decide, by decide, (anchor_carves_apart 4096 (2 ^ 30) (2 ^ 20) (by decide) threeCarves).1⟩

end V8Malloc.PageHeap
