import V8Malloc.NumaPool.Model

/-!
# Descriptors, lists and carved pages over whole runs

After any calls, whatever the page heap and the kernel answered and whatever was
passed to a release: every descriptor is on one list of one node, once, and the
list fits its bitmap; the counters count the descriptors; the pages carved and
not released are the bits set. A release succeeds for such a page only, and then
gives back that page and, after the last one, its huge page.
-/
namespace V8Malloc.NumaPool

open PageHeap LinkedList StackLedger Function

section Bitmap

variable {slab slab' : HugeSlab}

/-- A descriptor of a whole huge page. -/
structure Valid (slab : HugeSlab) : Prop where
  base_ne : slab.base ≠ 0
  base_lt : slab.base < 2 ^ 64
  aligned : hugePageSize ∣ slab.base
  count : slab.slabsPerHuge = 32

theorem validMask_eq (hvalid : Valid slab) : slab.validMask = BitVec.allOnes 32 := by
  simp [HugeSlab.validMask, hvalid.count]

theorem getLsbD_set (w : BitVec 32) {i : ℕ} (hi : i < 32) (j : ℕ) :
    (w ||| (1#32 <<< i)).getLsbD j = (w.getLsbD j || decide (j = i)) := by
  simp only [BitVec.getLsbD_or, BitVec.getLsbD_shiftLeft, BitVec.getLsbD_one]
  grind

theorem getLsbD_clear (w : BitVec 32) (i j : ℕ) :
    (w &&& ~~~(1#32 <<< i)).getLsbD j = (w.getLsbD j && !decide (j = i)) := by
  simp only [BitVec.getLsbD_and, BitVec.getLsbD_not, BitVec.getLsbD_shiftLeft,
    BitVec.getLsbD_one]
  grind

theorem and_bit_eq_zero (w : BitVec 32) (i : ℕ) :
    w &&& (1#32 <<< i) = 0#32 ↔ w.getLsbD i = false := by
  constructor
  · intro hzero
    by_cases hi : i < 32
    · have hbit := congrArg (fun v : BitVec 32 => v.getLsbD i) hzero
      simpa [BitVec.getLsbD_and, BitVec.getLsbD_shiftLeft, hi] using hbit
    · exact BitVec.getLsbD_of_ge w i (by omega)
  · intro hbit
    apply BitVec.eq_of_getLsbD_eq
    intro j hj
    simp only [BitVec.getLsbD_and, BitVec.getLsbD_shiftLeft, BitVec.getLsbD_one,
      BitVec.getLsbD_zero]
    grind

theorem exists_free {w : BitVec 32} (hw : w ≠ BitVec.allOnes 32) : ∃ i < 32, w.getLsbD i = false := by
  by_contra hnone
  push Not at hnone
  apply hw
  apply BitVec.eq_of_getLsbD_eq
  intro i hi
  rw [BitVec.getLsbD_allOnes, decide_eq_true hi]
  exact Bool.of_not_eq_false (hnone i hi)

theorem ctz_spec {mask : BitVec 32} (hmask : ∃ i < 32, mask.getLsbD i = true) :
    ctz mask < 32 ∧ mask.getLsbD (ctz mask) = true := by
  obtain ⟨i, hi, hbit⟩ := hmask
  unfold ctz
  cases hfind : (List.range 32).find? fun i => mask.getLsbD i with
  | none =>
    have hclear := List.find?_eq_none.1 hfind i (List.mem_range.2 hi)
    exact absurd hbit hclear
  | some k =>
    exact ⟨List.mem_range.1 (List.mem_of_find?_eq_some hfind), List.find?_some hfind⟩

/-- The pages of a descriptor that are in use. -/
def used (slab : HugeSlab) : Set ℕ :=
  {p | ∃ i < 32, slab.bitmap.getLsbD i = true ∧ p = slab.base + i * pageSize}

/-- A carve from a descriptor that is not full takes one of its free pages. -/
theorem hugeSlabAlloc_spec (hvalid : Valid slab) (hfree : slab.bitmap ≠ BitVec.allOnes 32) :
    ∃ i < 32, slab.bitmap.getLsbD i = false ∧
      hugeSlabAlloc slab = some (slab.base + i * pageSize,
        { slab with bitmap := slab.bitmap ||| (1#32 <<< i) }) := by
  have hmask : ∃ i < 32, (~~~slab.bitmap).getLsbD i = true := by
    obtain ⟨i, hi, hbit⟩ := exists_free hfree
    exact ⟨i, hi, by rw [BitVec.getLsbD_not, hbit, decide_eq_true hi]; rfl⟩
  obtain ⟨hlt, hbit⟩ := ctz_spec hmask
  refine ⟨ctz (~~~slab.bitmap), hlt, ?_, ?_⟩
  · rw [BitVec.getLsbD_not, Bool.and_eq_true, Bool.not_eq_true'] at hbit
    exact hbit.2
  · simp only [hugeSlabAlloc, validMask_eq hvalid, BitVec.and_allOnes, hvalid.base_ne, hfree,
      or_self, if_false]

theorem page_fits {i : ℕ} (hi : i < 32) : i * pageSize < hugePageSize := by
  unfold pageSize hugePageSize
  omega

/-- A release into a descriptor succeeds for its pages in use. -/
theorem hugeSlabFree_eq_some (hvalid : Valid slab) {slot : ℕ} :
    hugeSlabFree slab slot = some slab' ↔
      ∃ i < 32, slab.bitmap.getLsbD i = true ∧ slot = slab.base + i * pageSize ∧
        slab' = { slab with bitmap := slab.bitmap &&& ~~~(1#32 <<< i) } := by
  have hpos : 0 < pageSize := by decide
  have hne := hvalid.base_ne
  have hcount := hvalid.count
  constructor
  · intro hfree
    simp only [hugeSlabFree, and_bit_eq_zero] at hfree
    split_ifs at hfree with hslot haligned hidx hbit
    refine ⟨(slot - slab.base) / pageSize, by omega, Bool.of_not_eq_false hbit, ?_,
      (Option.some.inj hfree).symm⟩
    have hdvd := Nat.div_mul_cancel (Nat.dvd_of_mod_eq_zero (not_not.1 haligned))
    omega
  · rintro ⟨i, hi, hbit, rfl, rfl⟩
    have hslot : ¬ (slab.base = 0 ∨ slab.base + i * pageSize = 0 ∨
        slab.base + i * pageSize < slab.base) := by omega
    simp only [hugeSlabFree, hslot, if_false, Nat.add_sub_cancel_left, Nat.mul_mod_left, ne_eq,
      not_true, Nat.mul_div_cancel _ hpos, hvalid.count, not_le.2 hi, and_bit_eq_zero, hbit,
      Bool.true_eq_false]

theorem used_set {i : ℕ} (hi : i < 32) :
    used { slab with bitmap := slab.bitmap ||| (1#32 <<< i) } =
      insert (slab.base + i * pageSize) (used slab) := by
  ext p
  constructor
  · rintro ⟨j, hj, hbit, rfl⟩
    by_cases hji : j = i
    · exact Or.inl (by rw [hji])
    · simp only [getLsbD_set _ hi, hji, decide_false, Bool.or_false] at hbit
      exact Or.inr ⟨j, hj, hbit, rfl⟩
  · rintro (rfl | ⟨j, hj, hbit, rfl⟩)
    · exact ⟨i, hi, by simp only [getLsbD_set _ hi, decide_true, Bool.or_true], rfl⟩
    · exact ⟨j, hj, by simp only [getLsbD_set _ hi, hbit, Bool.true_or], rfl⟩

theorem used_clear (i : ℕ) :
    used { slab with bitmap := slab.bitmap &&& ~~~(1#32 <<< i) } =
      used slab \ {slab.base + i * pageSize} := by
  have hpos : 0 < pageSize := by decide
  ext p
  constructor
  · rintro ⟨j, hj, hbit, rfl⟩
    rw [getLsbD_clear, Bool.and_eq_true, Bool.not_eq_true', decide_eq_false_iff_not] at hbit
    refine ⟨⟨j, hj, hbit.1, rfl⟩, fun heq => hbit.2 ?_⟩
    exact Nat.eq_of_mul_eq_mul_right hpos (Nat.add_left_cancel heq)
  · rintro ⟨⟨j, hj, hbit, rfl⟩, hne⟩
    have hji : j ≠ i := by
      rintro rfl
      exact hne rfl
    exact ⟨j, hj, by simp only [getLsbD_clear, hbit, hji, decide_false, Bool.not_false, Bool.and_self], rfl⟩

theorem hugeSlabIsFull_iff (hvalid : Valid slab) :
    hugeSlabIsFull slab = true ↔ slab.bitmap = BitVec.allOnes 32 := by
  have hne : BitVec.allOnes 32 ≠ 0#32 := by decide
  simp only [hugeSlabIsFull, validMask_eq hvalid, BitVec.and_allOnes, ne_eq, hne, not_false_iff,
    decide_true, Bool.true_and, decide_eq_true_iff]

theorem hugeSlabIsEmpty_iff (hvalid : Valid slab) :
    hugeSlabIsEmpty slab = true ↔ slab.bitmap = 0#32 := by
  simp only [hugeSlabIsEmpty, validMask_eq hvalid, BitVec.and_allOnes, decide_eq_true_iff]

theorem valid_init {base : ℕ} (numaNode : ℕ) (hne : base ≠ 0) (hlt : base < 2 ^ 64)
    (haligned : hugePageSize ∣ base) : Valid (hugeSlabInit base numaNode hugeSlabsPerHuge) :=
  ⟨hne, hlt, haligned, rfl⟩

/-- The huge page of a page in use is the one of its descriptor. -/
theorem base_of_used (hvalid : Valid slab) {p : ℕ} (hp : p ∈ used slab) :
    p / hugePageSize * hugePageSize = slab.base := by
  obtain ⟨i, hi, -, rfl⟩ := hp
  obtain ⟨k, hk⟩ := hvalid.aligned
  have hfits := page_fits hi
  have hpos : 0 < hugePageSize := by decide
  rw [hk, Nat.mul_add_div hpos, Nat.div_eq_of_lt hfits, Nat.add_zero, Nat.mul_comm]

/-- What the bits of a descriptor say does not depend on the rest of it. -/
theorem Valid.withBits (hvalid : Valid slab) (bits : BitVec 32) :
    Valid { slab with bitmap := bits } :=
  ⟨hvalid.base_ne, hvalid.base_lt, hvalid.aligned, hvalid.count⟩

theorem used_eq_empty_iff : used slab = ∅ ↔ slab.bitmap = 0#32 := by
  constructor
  · intro hempty
    apply BitVec.eq_of_getLsbD_eq
    intro j hj
    rw [BitVec.getLsbD_zero]
    apply Bool.eq_false_of_not_eq_true
    intro hbit
    have hmem : slab.base + j * pageSize ∈ used slab := ⟨j, hj, hbit, rfl⟩
    simp [hempty] at hmem
  · intro hzero
    ext p
    simp [used, hzero]

/-- A carve takes a page of the huge page that was not in use. -/
theorem hugeSlabAlloc_carves (hvalid : Valid slab) (hfree : slab.bitmap ≠ BitVec.allOnes 32) :
    ∃ p after, hugeSlabAlloc slab = some (p, after) ∧ p ∉ used slab ∧
      used after = insert p (used slab) ∧ Valid after ∧ after.base = slab.base := by
  obtain ⟨idx, hidx, hclear, halloc⟩ := hugeSlabAlloc_spec hvalid hfree
  have hpos : 0 < pageSize := by decide
  refine ⟨_, _, halloc, ?_, used_set hidx, hvalid.withBits _, rfl⟩
  rintro ⟨j, -, hbit, heq⟩
  have hji : idx = j := Nat.eq_of_mul_eq_mul_right hpos (Nat.add_left_cancel heq)
  rw [← hji, hclear] at hbit
  exact Bool.false_ne_true hbit

/-- A release takes exactly the pages in use. -/
theorem hugeSlabFree_isSome_iff (hvalid : Valid slab) {p : ℕ} :
    (∃ after, hugeSlabFree slab p = some after) ↔ p ∈ used slab := by
  simp only [hugeSlabFree_eq_some hvalid]
  constructor
  · rintro ⟨after, idx, hidx, hbit, hp, -⟩
    exact ⟨idx, hidx, hbit, hp⟩
  · rintro ⟨idx, hidx, hbit, hp⟩
    exact ⟨_, idx, hidx, hbit, hp, rfl⟩

theorem hugeSlabFree_frees (hvalid : Valid slab) {p : ℕ} {after : HugeSlab}
    (hfree : hugeSlabFree slab p = some after) :
    used after = used slab \ {p} ∧ Valid after ∧ after.base = slab.base ∧
      after.bitmap ≠ BitVec.allOnes 32 := by
  obtain ⟨idx, hidx, -, rfl, rfl⟩ := (hugeSlabFree_eq_some hvalid).1 hfree
  refine ⟨used_clear idx, hvalid.withBits _, rfl, fun hall => ?_⟩
  have hbit := congrArg (fun w : BitVec 32 => w.getLsbD idx) hall
  simp only [getLsbD_clear, BitVec.getLsbD_allOnes, decide_true, Bool.not_true, Bool.and_false,
    hidx] at hbit
  exact Bool.false_ne_true hbit

end Bitmap

section Invariant

/-- The two lists of every node. -/
abbrev ListId := Fin numaMaxNodes × Kind

def heads (pool : Pool) (k : ListId) : ℕ := (pool.nodes k.1).head k.2

/-- The descriptors that are mapped. -/
def descs (pool : Pool) (d : ℕ) : Option HugeSlab :=
  if d ∈ pool.mapped then some (pool.desc d) else none

def fits (k : ListId) (slab : HugeSlab) : Prop :=
  match k.2 with
  | .partials => slab.bitmap ≠ BitVec.allOnes 32
  | .fulls => slab.bitmap = BitVec.allOnes 32

/-- The pages that are carved. -/
def carvedPages (pool : Pool) : Set ℕ :=
  {p | ∃ d ∈ pool.mapped, p ∈ used (pool.desc d)}

/-- The lists `L` hold the mapped descriptors, apart from those in `loose`; each has a page in
use, apart from those in `empty`. -/
structure PoolInv (pool : Pool) (L : ListId → List ℕ) (loose empty : Set ℕ) : Prop where
  ledger : Ledger 0 fits (descs pool) pool.next (heads pool) L loose
  valid : ∀ d ∈ pool.mapped, Valid (pool.desc d)
  inUse : ∀ d ∈ pool.mapped, d ∉ empty → (pool.desc d).bitmap ≠ 0#32
  bases : ∀ d ∈ pool.mapped, ∀ e ∈ pool.mapped, (pool.desc d).base = (pool.desc e).base → d = e
  pages : ∀ b, b ∈ pool.pages ↔ ∃ d ∈ pool.mapped, (pool.desc d).base = b

/-- Huge pages alive, allocated and released. -/
def counts (pool : Pool) (i : Fin numaMaxNodes) : BitVec 64 × BitVec 64 × BitVec 64 :=
  ((pool.nodes i).hugePagesAlive, (pool.nodes i).hugePagesAllocated,
    (pool.nodes i).hugePagesReleased)

/-- The number of descriptors of a node. -/
def listed (L : ListId → List ℕ) (i : Fin numaMaxNodes) : ℕ :=
  (L (i, .partials)).length + (L (i, .fulls)).length

/-- The counter of a node holds the number of its descriptors. -/
def Counted (pool : Pool) (L : ListId → List ℕ) : Prop :=
  ∀ i, (counts pool i).1 = (counts pool i).2.1 - (counts pool i).2.2 ∧
    (counts pool i).1 = BitVec.ofNat 64 (listed L i)

variable {pool : Pool} {L : ListId → List ℕ} {loose empty empty' : Set ℕ} {d : ℕ}
variable {slab : HugeSlab} {i : Fin numaMaxNodes} {kind : Kind}

theorem heads_setHead (pool : Pool) (i : Fin numaMaxNodes) (kind : Kind) (h : ℕ) :
    heads (pool.setHead i kind h) = update (heads pool) (i, kind) h := by
  funext ⟨j, other⟩
  by_cases hj : j = i
  · subst hj
    by_cases hk : other = kind
    · subst hk
      simp [heads, Pool.setHead, Pool.setNode]
    · simp [heads, Pool.setHead, Pool.setNode, hk]
  · simp [heads, Pool.setHead, Pool.setNode, hj]

theorem descs_setDesc (hd : d ∈ pool.mapped) :
    descs (pool.setDesc d slab) = update (descs pool) d (some slab) := by
  funext e
  by_cases he : e = d
  · subst he
    simp [descs, Pool.setDesc, hd]
  · simp [descs, Pool.setDesc, he]

theorem descs_ne_none : descs pool d ≠ none ↔ d ∈ pool.mapped := by
  simp [descs]

theorem PoolInv.mem_mapped (hinv : PoolInv pool L loose empty) {k : ListId} (hd : d ∈ L k) :
    d ∈ pool.mapped :=
  descs_ne_none.1 ((hinv.ledger.allocated d).2 (.inr ⟨k, hd⟩))

theorem PoolInv.length_le (hinv : PoolInv pool L loose empty) (k : ListId) :
    (L k).length ≤ pool.mapped.card := by
  rw [← List.toFinset_card_of_nodup (hinv.ledger.chain k).nodup]
  apply Finset.card_le_card
  intro d hd
  exact hinv.mem_mapped (List.mem_toFinset.1 hd)

theorem PoolInv.members_eq (hinv : PoolInv pool L loose empty) (i : Fin numaMaxNodes)
    (kind : Kind) : pool.members i kind = L (i, kind) :=
  (hinv.ledger.chain (i, kind)).walk_eq (hinv.length_le (i, kind))

theorem PoolInv.fits_of_mem (hinv : PoolInv pool L loose empty) {k : ListId} (hd : d ∈ L k) :
    fits k (pool.desc d) :=
  hinv.ledger.sorted k d hd _ (if_pos (hinv.mem_mapped hd))

/-- A descriptor leaves its list. -/
theorem PoolInv.unlink (hinv : PoolInv pool L loose empty) (hd : d ∈ L (i, kind)) :
    PoolInv (pool.listUnlink i kind d) (update L (i, kind) ((L (i, kind)).erase d))
      (insert d loose) empty := by
  have hcut := hinv.ledger.cutOut hd (hinv.length_le (i, kind))
  refine ⟨?_, hinv.valid, hinv.inUse, hinv.bases, hinv.pages⟩
  rw [Pool.listUnlink, heads_setHead]
  exact hcut

/-- A loose descriptor whose bitmap fits goes on top of a list. -/
theorem PoolInv.link (hinv : PoolInv pool L loose empty) (hd : d ∈ loose)
    (hfits : fits (i, kind) (pool.desc d)) (hne : d ≠ 0) :
    PoolInv (pool.link i kind d) (update L (i, kind) (d :: L (i, kind)))
      (loose \ {d}) empty := by
  have hledger := hinv.ledger
  have hwritten : Ledger 0 fits (descs pool) (update pool.next d (heads pool (i, kind)))
      (heads pool) L loose := by
    apply hledger.congr
    intro k y hy
    apply update_of_ne
    rintro rfl
    exact hledger.apart y hd k hy
  have hdesc : ∀ g, descs pool d = some g → fits (i, kind) g := by
    intro g hg
    have hmapped : d ∈ pool.mapped := descs_ne_none.1 (by simp [hg])
    rw [descs, if_pos hmapped, Option.some_inj] at hg
    exact hg ▸ hfits
  have hpush := hwritten.push hd hne hdesc (update_self ..)
  refine ⟨?_, hinv.valid, hinv.inUse, hinv.bases, hinv.pages⟩
  rw [Pool.link, heads_setHead]
  exact hpush

theorem PoolInv.mono (hinv : PoolInv pool L loose empty) (hsub : empty ⊆ empty') :
    PoolInv pool L loose empty' :=
  { hinv with inUse := fun d hd hnot => hinv.inUse d hd (fun h => hnot (hsub h)) }

/-- The bitmap of a descriptor changes. -/
theorem PoolInv.setDesc (hinv : PoolInv pool L loose empty) (hd : d ∈ pool.mapped)
    (hempty : d ∈ empty) (hvalid : Valid slab) (hbase : slab.base = (pool.desc d).base)
    (hfits : ∀ k, d ∈ L k → fits k slab) :
    PoolInv (pool.setDesc d slab) L loose empty := by
  have hother : ∀ e, (update pool.desc d slab e).base = (pool.desc e).base := by
    intro e
    by_cases he : e = d
    · subst he
      rw [update_self, hbase]
    · rw [update_of_ne he]
  constructor
  · rw [descs_setDesc hd]
    exact hinv.ledger.renew (descs_ne_none.2 hd) hfits
  · intro e he
    by_cases hed : e = d
    · subst hed
      simpa [Pool.setDesc] using hvalid
    · simpa [Pool.setDesc, hed] using hinv.valid e he
  · intro e he hnot
    have hed : e ≠ d := fun h => hnot (h ▸ hempty)
    simpa [Pool.setDesc, hed] using hinv.inUse e he hnot
  · intro e he e' he' heq
    simp only [Pool.setDesc, hother] at heq
    exact hinv.bases e he e' he' heq
  · intro b
    simp only [Pool.setDesc, hother]
    exact hinv.pages b

theorem PoolInv.filled (hinv : PoolInv pool L loose {d}) (hbits : (pool.desc d).bitmap ≠ 0#32) :
    PoolInv pool L loose ∅ := by
  refine { hinv with inUse := fun e he _ => ?_ }
  by_cases hed : e = d
  · exact hed ▸ hbits
  · exact hinv.inUse e he hed

/-- The counters of the calls are not part of the invariant. -/
theorem PoolInv.setNode (hinv : PoolInv pool L loose empty) {node : PoolNode}
    (hnode : node.head = (pool.nodes i).head) : PoolInv (pool.setNode i node) L loose empty := by
  have hheads : heads (pool.setNode i node) = heads pool := by
    funext ⟨j, kind⟩
    by_cases hj : j = i
    · subst hj
      simp [heads, Pool.setNode, hnode]
    · simp [heads, Pool.setNode, hj]
  refine ⟨?_, hinv.valid, hinv.inUse, hinv.bases, hinv.pages⟩
  rw [hheads]
  exact hinv.ledger

/-- A page belongs to one descriptor. -/
theorem PoolInv.owner_unique (hinv : PoolInv pool L loose empty) {e p : ℕ} (hd : d ∈ pool.mapped)
    (he : e ∈ pool.mapped) (hp : p ∈ used (pool.desc d)) (hp' : p ∈ used (pool.desc e)) :
    d = e :=
  hinv.bases d hd e he
    ((base_of_used (hinv.valid d hd) hp).symm.trans (base_of_used (hinv.valid e he) hp'))

theorem mem_carvedPages_setDesc (hd : d ∈ pool.mapped) {q : ℕ} :
    q ∈ carvedPages (pool.setDesc d slab) ↔
      q ∈ used slab ∨ ∃ e ∈ pool.mapped, e ≠ d ∧ q ∈ used (pool.desc e) := by
  constructor
  · rintro ⟨e, he, hq⟩
    by_cases hed : e = d
    · subst hed
      simp only [Pool.setDesc, update_self] at hq
      exact Or.inl hq
    · simp only [Pool.setDesc, update_of_ne hed] at hq
      exact Or.inr ⟨e, he, hed, hq⟩
  · rintro (hq | ⟨e, he, hed, hq⟩)
    · exact ⟨d, hd, by simpa [Pool.setDesc] using hq⟩
    · exact ⟨e, he, by simpa [Pool.setDesc, hed] using hq⟩

theorem mem_carvedPages (hd : d ∈ pool.mapped) {q : ℕ} :
    q ∈ carvedPages pool ↔
      q ∈ used (pool.desc d) ∨ ∃ e ∈ pool.mapped, e ≠ d ∧ q ∈ used (pool.desc e) := by
  have hself : pool.setDesc d (pool.desc d) = pool := by
    simp [Pool.setDesc]
  nth_rewrite 1 [← hself]
  exact mem_carvedPages_setDesc hd

theorem listed_move {other : Kind} (hd : d ∈ L (i, kind)) (hother : kind ≠ other)
    {L' : ListId → List ℕ} (hL' : L' = update L (i, kind) ((L (i, kind)).erase d)) :
    listed (update L' (i, other) (d :: L' (i, other))) = listed L := by
  subst hL'
  have hlength := List.length_erase_of_mem hd
  have hpos := List.length_pos_of_mem hd
  funext j
  by_cases hj : j = i
  · subst hj
    cases kind <;> cases other <;> simp_all [listed] <;> omega
  · simp [listed, hj]

end Invariant

section Steps

variable {pool pool' : Pool} {L : ListId → List ℕ} {i : Fin numaMaxNodes} {slab : HugeSlab}
variable {d base p : ℕ}

theorem counts_setHead (pool : Pool) (i : Fin numaMaxNodes) (kind : Kind) (h : ℕ) :
    counts (pool.setHead i kind h) = counts pool := by
  funext j
  by_cases hj : j = i
  · subst hj
    simp [counts, Pool.setHead, Pool.setNode]
  · simp [counts, Pool.setHead, Pool.setNode, hj]

@[simp]
theorem counts_link (pool : Pool) (i : Fin numaMaxNodes) (kind : Kind) (d : ℕ) :
    counts (pool.link i kind d) = counts pool :=
  counts_setHead ..

@[simp]
theorem counts_listUnlink (pool : Pool) (i : Fin numaMaxNodes) (kind : Kind) (d : ℕ) :
    counts (pool.listUnlink i kind d) = counts pool :=
  counts_setHead ..

@[simp]
theorem counts_setDesc (pool : Pool) (d : ℕ) (slab : HugeSlab) :
    counts (pool.setDesc d slab) = counts pool :=
  rfl

theorem counts_setNode (pool : Pool) (i : Fin numaMaxNodes) (node : PoolNode) :
    counts (pool.setNode i node) = update (counts pool) i
      (node.hugePagesAlive, node.hugePagesAllocated, node.hugePagesReleased) := by
  funext j
  by_cases hj : j = i
  · subst hj
    simp [counts, Pool.setNode]
  · simp [counts, Pool.setNode, hj]

@[simp]
theorem counts_countCarve (pool : Pool) (i : Fin numaMaxNodes) :
    counts (pool.countCarve i) = counts pool := by
  rw [Pool.countCarve, counts_setNode]
  exact update_eq_self i (counts pool)

@[simp]
theorem counts_countRelease (pool : Pool) (i : Fin numaMaxNodes) :
    counts (pool.countRelease i) = counts pool := by
  rw [Pool.countRelease, counts_setNode]
  exact update_eq_self i (counts pool)

/-- One more descriptor on a list. -/
theorem Counted.cons (hcount : Counted pool L) (d : ℕ) :
    Counted (pool.setNode i { pool.nodes i with
      hugePagesAlive := (pool.nodes i).hugePagesAlive + 1#64
      hugePagesAllocated := (pool.nodes i).hugePagesAllocated + 1#64 })
      (update L (i, .partials) (d :: L (i, .partials))) := by
  intro j
  obtain ⟨hdiff, hlen⟩ := hcount j
  rw [counts_setNode]
  by_cases hj : j = i
  · subst hj
    have hlisted : listed (update L (j, .partials) (d :: L (j, .partials))) j =
        listed L j + 1 := by
      simp [listed]
      omega
    simp only [counts] at hdiff hlen
    simp only [update_self, hlisted, BitVec.ofNat_add, ← hlen, and_true]
    rw [hdiff]
    bv_omega
  · simpa [hj, listed] using hcount j

/-- One descriptor fewer. -/
theorem Counted.erase (hcount : Counted pool L) (hd : d ∈ L (i, .partials)) :
    Counted (pool.setNode i { pool.nodes i with
      hugePagesAlive := (pool.nodes i).hugePagesAlive - 1#64
      hugePagesReleased := (pool.nodes i).hugePagesReleased + 1#64 })
      (update L (i, .partials) ((L (i, .partials)).erase d)) := by
  intro j
  obtain ⟨hdiff, hlen⟩ := hcount j
  rw [counts_setNode]
  by_cases hj : j = i
  · subst hj
    have hlisted : listed L j =
        listed (update L (j, .partials) ((L (j, .partials)).erase d)) j + 1 := by
      have hlength := List.length_erase_of_mem hd
      have hpos := List.length_pos_of_mem hd
      simp [listed]
      omega
    simp only [counts] at hdiff hlen
    rw [hlisted, BitVec.ofNat_add] at hlen
    simp only [update_self]
    constructor
    · rw [hdiff]
      bv_omega
    · rw [hlen]
      exact BitVec.add_sub_cancel ..
  · simpa [hj, listed] using hcount j

theorem Counted.congr (hcount : Counted pool L) {L' : ListId → List ℕ}
    (hcounts : counts pool' = counts pool) (hlisted : listed L' = listed L) :
    Counted pool' L' := by
  simpa [Counted, hcounts, hlisted] using hcount

/-- The state between two calls. -/
structure Quiet (pool : Pool) (L : ListId → List ℕ) : Prop where
  inv : PoolInv pool L ∅ ∅
  counted : Counted pool L

/-- The pool with a new descriptor on no list. -/
def withHugePage (pool : Pool) (d : ℕ) (slab : HugeSlab) : Pool :=
  { pool with mapped := insert d pool.mapped, pages := insert slab.base pool.pages }.setDesc d slab

theorem withHugePage_desc (hfresh : d ∉ pool.mapped) {e : ℕ} (he : e ∈ pool.mapped) :
    (withHugePage pool d slab).desc e = pool.desc e := by
  apply update_of_ne
  rintro rfl
  exact hfresh he

theorem withHugePage_desc_self : (withHugePage pool d slab).desc d = slab :=
  update_self ..

theorem descs_withHugePage :
    descs (withHugePage pool d slab) = update (descs pool) d (some slab) := by
  funext e
  by_cases hed : e = d
  · subst hed
    simp [descs, withHugePage, Pool.setDesc]
  · simp [descs, withHugePage, Pool.setDesc, hed]

theorem mem_mapped_withHugePage {e : ℕ} :
    e ∈ (withHugePage pool d slab).mapped ↔ e = d ∨ e ∈ pool.mapped :=
  Finset.mem_insert

theorem PoolInv.withHugePage (hinv : PoolInv pool L ∅ ∅) (hvalid : Valid slab)
    (hbase : slab.base ∉ pool.pages) (hfresh : d ∉ pool.mapped) :
    PoolInv (withHugePage pool d slab) L {d} {d} := by
  have hother : ∀ e ∈ pool.mapped, (NumaPool.withHugePage pool d slab).desc e = pool.desc e :=
    fun e he => withHugePage_desc hfresh he
  have hclash : ∀ e ∈ pool.mapped, (pool.desc e).base ≠ slab.base := by
    intro e he heq
    exact hbase ((hinv.pages slab.base).2 ⟨e, he, heq⟩)
  constructor
  · rw [descs_withHugePage]
    have hadd := hinv.ledger.add (if_neg hfresh) slab
    rw [insert_empty_eq] at hadd
    exact hadd
  · intro e he
    rcases mem_mapped_withHugePage.1 he with rfl | he
    · rwa [withHugePage_desc_self]
    · rw [hother e he]
      exact hinv.valid e he
  · intro e he hed
    have hold := (mem_mapped_withHugePage.1 he).resolve_left hed
    rw [hother e hold]
    exact hinv.inUse e hold id
  · intro e he e' he' heq
    rcases mem_mapped_withHugePage.1 he with rfl | hold <;>
      rcases mem_mapped_withHugePage.1 he' with rfl | hold'
    · rfl
    · rw [withHugePage_desc_self, hother e' hold'] at heq
      exact absurd heq.symm (hclash e' hold')
    · rw [withHugePage_desc_self, hother e hold] at heq
      exact absurd heq (hclash e hold)
    · rw [hother e hold, hother e' hold'] at heq
      exact hinv.bases e hold e' hold' heq
  · intro b
    have hpages : b ∈ (NumaPool.withHugePage pool d slab).pages ↔ b = slab.base ∨ b ∈ pool.pages :=
      Finset.mem_insert
    simp only [hpages, hinv.pages, mem_mapped_withHugePage]
    constructor
    · rintro (rfl | ⟨e, he, hb⟩)
      · exact ⟨d, Or.inl rfl, by rw [withHugePage_desc_self]⟩
      · exact ⟨e, Or.inr he, by rw [hother e he, hb]⟩
    · rintro ⟨e, rfl | he, hb⟩
      · exact Or.inl (by rw [← hb, withHugePage_desc_self])
      · exact Or.inr ⟨e, he, by rw [← hother e he, hb]⟩

/-- A descriptor without a page in use adds nothing to the pages carved. -/
theorem carvedPages_withHugePage (hfresh : d ∉ pool.mapped) (hbits : slab.bitmap = 0#32) :
    carvedPages (withHugePage pool d slab) = carvedPages pool := by
  ext q
  constructor
  · rintro ⟨e, he, hq⟩
    rcases mem_mapped_withHugePage.1 he with rfl | he
    · obtain ⟨j, -, hbit, -⟩ := hq
      simp [withHugePage_desc_self, hbits] at hbit
    · exact ⟨e, he, by rwa [withHugePage_desc hfresh he] at hq⟩
  · rintro ⟨e, he, hq⟩
    exact ⟨e, mem_mapped_withHugePage.2 (Or.inr he), by rwa [withHugePage_desc hfresh he]⟩

/-- A new huge page is on top of the partial list of its node, with no page in use. -/
theorem addHugePage_spec (hq : Quiet pool L) (hne : base ≠ 0) (hlt : base < 2 ^ 64)
    (haligned : hugePageSize ∣ base) (hbase : base ∉ pool.pages) (hd : d ≠ 0)
    (hfresh : d ∉ pool.mapped) :
    ∃ pool' L', addHugePage pool i (some base) (some d) = some (d, pool') ∧
      PoolInv pool' L' ∅ {d} ∧ Counted pool' L' ∧ d ∈ L' (i, .partials) ∧
      carvedPages pool' = carvedPages pool := by
  have hinv := hq.inv.withHugePage (valid_init i hne hlt haligned) hbase hfresh
  have hfits : fits (i, .partials)
      ((withHugePage pool d (hugeSlabInit base i hugeSlabsPerHuge)).desc d) := by
    rw [withHugePage_desc_self]
    change 0#32 ≠ BitVec.allOnes 32
    decide
  have hlinked := hinv.link (Set.mem_singleton d) hfits hd
  rw [Set.sdiff_self] at hlinked
  refine ⟨_, _, rfl, hlinked.setNode rfl, Counted.cons ?_ d, ?_, ?_⟩
  · exact hq.counted.congr (counts_link ..) rfl
  · simp
  · exact carvedPages_withHugePage hfresh rfl

section Bits

variable {after : HugeSlab} {from_ dest : Kind}

/-- A descriptor changes its bits and with them its list. -/
theorem PoolInv.move (hinv : PoolInv pool L ∅ {d}) (hd : d ∈ L (i, from_)) (hvalid : Valid after)
    (hbase : after.base = (pool.desc d).base) (hne : from_ ≠ dest) (hfits : fits (i, dest) after) :
    ∃ L', PoolInv (((pool.listUnlink i from_ d).setDesc d after).link i dest d) L' ∅ {d} ∧
      d ∈ L' (i, dest) ∧ listed L' = listed L := by
  have hnil : d ≠ 0 := (hinv.ledger.chain _).ne_nil hd
  have hmapped := hinv.mem_mapped hd
  have hunlinked := hinv.unlink hd
  have hloose : d ∈ insert d (∅ : Set ℕ) := Set.mem_insert d ∅
  have hset := hunlinked.setDesc hmapped rfl hvalid hbase fun k hk =>
    absurd hk (hunlinked.ledger.apart d hloose k)
  have hlinked := hset.link (i := i) hloose (by simpa [Pool.setDesc] using hfits) hnil
  rw [insert_empty_eq, Set.sdiff_self] at hlinked
  exact ⟨_, hlinked, by simp, listed_move hd hne rfl⟩

/-- A descriptor changes its bits and keeps its list. -/
theorem PoolInv.stay (hinv : PoolInv pool L ∅ {d}) (hd : d ∈ L (i, dest)) (hvalid : Valid after)
    (hbase : after.base = (pool.desc d).base) (hfits : fits (i, dest) after) :
    PoolInv (pool.setDesc d after) L ∅ {d} := by
  apply hinv.setDesc (hinv.mem_mapped hd) rfl hvalid hbase
  intro k hk
  rwa [hinv.ledger.unique d k (i, dest) hk hd]

end Bits

/-- The carve from a descriptor of the partial list. -/
theorem carveFrom_spec (hinv : PoolInv pool L ∅ {d}) (hcount : Counted pool L)
    (hd : d ∈ L (i, .partials)) :
    ∃ p pool' L', carveFrom pool i d = (some p, pool') ∧ Quiet pool' L' ∧
      p ∉ carvedPages pool ∧ carvedPages pool' = insert p (carvedPages pool) := by
  have hmapped := hinv.mem_mapped hd
  obtain ⟨p, after, halloc, hunused, hused, hvalid, hbase⟩ :=
    hugeSlabAlloc_carves (hinv.valid d hmapped) (hinv.fits_of_mem hd)
  have hmem : p ∈ used after := hused ▸ Set.mem_insert p _
  have hbits : after.bitmap ≠ 0#32 := by
    intro hzero
    simp [used_eq_empty_iff.2 hzero] at hmem
  have hfree : p ∉ carvedPages pool := by
    rintro ⟨e, he, hp⟩
    have hsame : (pool.desc e).base = (pool.desc d).base := by
      rw [← base_of_used (hinv.valid e he) hp, base_of_used hvalid hmem, hbase]
    rw [hinv.bases e he d hmapped hsame] at hp
    exact hunused hp
  have hcarved : carvedPages (pool.setDesc d after) = insert p (carvedPages pool) := by
    ext q
    rw [Set.mem_insert_iff, mem_carvedPages_setDesc hmapped, mem_carvedPages hmapped, hused,
      Set.mem_insert_iff, or_assoc]
  -- The count of the calls is written first here: no list and no bitmap depends on it.
  have hinv₁ : PoolInv (pool.countCarve i) L ∅ {d} := hinv.setNode rfl
  by_cases hfull : hugeSlabIsFull after = true
  · have hpool : carveFrom pool i d = (some p,
        (((pool.countCarve i).listUnlink i .partials d).setDesc d after).link i .fulls d) := by
      simp only [carveFrom, halloc, hfull, if_true]
      rfl
    have hfits : fits (i, .fulls) after := (hugeSlabIsFull_iff hvalid).1 hfull
    obtain ⟨L', hinv', -, hlisted⟩ := hinv₁.move hd hvalid hbase (by decide) hfits
    refine ⟨p, _, L', hpool, ⟨hinv'.filled ?_, hcount.congr (by simp) hlisted⟩, hfree, hcarved⟩
    simpa [Pool.link, Pool.setHead, Pool.setNode, Pool.setDesc] using hbits
  · have hpool : carveFrom pool i d = (some p, (pool.countCarve i).setDesc d after) := by
      simp only [carveFrom, halloc, hfull]
      rfl
    have hinv' := hinv₁.stay hd hvalid hbase (mt (hugeSlabIsFull_iff hvalid).2 hfull)
    refine ⟨p, _, L, hpool, ⟨hinv'.filled ?_, hcount.congr (by simp) rfl⟩, hfree, hcarved⟩
    simpa [Pool.setDesc] using hbits

/-- What the page heap and `mmap` may answer: regions that are not in use, the huge page
aligned to its size. -/
def Fresh (pool : Pool) (page descPage : Option ℕ) : Prop :=
  (∀ base ∈ page, base ≠ 0 ∧ base < 2 ^ 64 ∧ hugePageSize ∣ base ∧ base ∉ pool.pages) ∧
    ∀ d ∈ descPage, d ≠ 0 ∧ d ∉ pool.mapped

/-- A carve takes a page that was not carved, or fails and changes nothing. -/
theorem numaPoolCarveSlab_spec (hq : Quiet pool L) (numaNode : ℕ) {page descPage : Option ℕ}
    (hfresh : Fresh pool page descPage) :
    numaPoolCarveSlab pool numaNode page descPage = (none, pool) ∨
      ∃ p pool' L', numaPoolCarveSlab pool numaNode page descPage = (some p, pool') ∧
        Quiet pool' L' ∧ p ∉ carvedPages pool ∧
        carvedPages pool' = insert p (carvedPages pool) := by
  unfold numaPoolCarveSlab
  by_cases hnode : numaNode < numaMaxNodes
  · simp only [hnode, dite_true]
    by_cases hhead : (pool.nodes ⟨numaNode, hnode⟩).head .partials = 0
    · simp only [hhead, if_true]
      cases page with
      | none => exact Or.inl rfl
      | some base =>
        cases descPage with
        | none => exact Or.inl rfl
        | some d =>
          obtain ⟨hne, hlt, haligned, hbase⟩ := hfresh.1 base rfl
          obtain ⟨hd, hmapped⟩ := hfresh.2 d rfl
          obtain ⟨pool₁, L₁, hadd, hinv, hcount, hmem, hcarved⟩ :=
            addHugePage_spec (i := ⟨numaNode, hnode⟩) hq hne hlt haligned hbase hd hmapped
          rw [hadd, ← hcarved]
          exact Or.inr (carveFrom_spec hinv hcount hmem)
    · simp only [hhead, if_false]
      have hmem := (hq.inv.ledger.chain (⟨numaNode, hnode⟩, .partials)).head_mem hhead
      exact Or.inr (carveFrom_spec (hq.inv.mono (Set.empty_subset _)) hq.counted hmem)
  · exact Or.inl (by simp only [hnode, dite_false])

/-- The pool without a descriptor that is on no list. -/
def withoutHugePage (pool : Pool) (d : ℕ) : Pool :=
  { pool with mapped := pool.mapped.erase d, pages := pool.pages.erase (pool.desc d).base }

theorem mem_mapped_withoutHugePage {e : ℕ} :
    e ∈ (withoutHugePage pool d).mapped ↔ e ≠ d ∧ e ∈ pool.mapped :=
  Finset.mem_erase

theorem descs_withoutHugePage :
    descs (withoutHugePage pool d) = update (descs pool) d none := by
  funext e
  by_cases hed : e = d
  · subst hed
    simp [descs, withoutHugePage]
  · simp [descs, withoutHugePage, hed]

theorem PoolInv.withoutHugePage (hinv : PoolInv pool L {d} {d}) :
    PoolInv (withoutHugePage pool d) L ∅ ∅ := by
  have hmapped : d ∈ pool.mapped := descs_ne_none.1 ((hinv.ledger.allocated d).2 (Or.inl rfl))
  constructor
  · have hremove := hinv.ledger.remove (Set.mem_singleton d)
    rw [Set.sdiff_self] at hremove
    rw [descs_withoutHugePage]
    exact hremove
  · intro e he
    exact hinv.valid e (mem_mapped_withoutHugePage.1 he).2
  · intro e he _
    exact hinv.inUse e (mem_mapped_withoutHugePage.1 he).2 (mem_mapped_withoutHugePage.1 he).1
  · intro e he e' he'
    exact hinv.bases e (mem_mapped_withoutHugePage.1 he).2 e' (mem_mapped_withoutHugePage.1 he').2
  · intro b
    have hpages : b ∈ (NumaPool.withoutHugePage pool d).pages ↔
        b ≠ (pool.desc d).base ∧ b ∈ pool.pages := Finset.mem_erase
    simp only [hpages, hinv.pages, mem_mapped_withoutHugePage]
    constructor
    · rintro ⟨hb, e, he, rfl⟩
      refine ⟨e, ⟨?_, he⟩, rfl⟩
      rintro rfl
      exact hb rfl
    · rintro ⟨e, ⟨hed, he⟩, rfl⟩
      exact ⟨fun heq => hed (hinv.bases e he d hmapped heq), e, he, rfl⟩

theorem carvedPages_withoutHugePage (hbits : (pool.desc d).bitmap = 0#32) :
    carvedPages (withoutHugePage pool d) = carvedPages pool := by
  ext q
  constructor
  · rintro ⟨e, he, hq⟩
    exact ⟨e, (mem_mapped_withoutHugePage.1 he).2, hq⟩
  · rintro ⟨e, he, hq⟩
    refine ⟨e, mem_mapped_withoutHugePage.2 ⟨?_, he⟩, hq⟩
    rintro rfl
    rw [used_eq_empty_iff.2 hbits] at hq
    exact hq

/-- A descriptor without a page in use goes with its huge page. -/
theorem dropEmpty_spec (hinv : PoolInv pool L ∅ {d}) (hcount : Counted pool L)
    (hd : d ∈ L (i, .partials)) (hbits : (pool.desc d).bitmap = 0#32) :
    ∃ L', Quiet (dropEmpty pool i d) L' ∧ carvedPages (dropEmpty pool i d) = carvedPages pool := by
  have hunlinked := hinv.unlink hd
  rw [insert_empty_eq] at hunlinked
  have hinv' := hunlinked.withoutHugePage
  have hcount' : Counted (withoutHugePage (pool.listUnlink i .partials d) d) L :=
    hcount.congr (counts_listUnlink ..) rfl
  exact ⟨_, ⟨hinv'.setNode rfl, hcount'.erase hd⟩, carvedPages_withoutHugePage hbits⟩

/-- A page in use is freed in its descriptor, and no other page with it. -/
theorem carvedPages_clear {loose empty : Set ℕ} (hinv : PoolInv pool L loose empty)
    (hmapped : d ∈ pool.mapped) (hp : p ∈ used (pool.desc d))
    (hused : used slab = used (pool.desc d) \ {p}) :
    carvedPages (pool.setDesc d slab) = carvedPages pool \ {p} := by
  ext q
  rw [mem_carvedPages_setDesc hmapped, Set.mem_sdiff, mem_carvedPages hmapped, hused]
  constructor
  · rintro (⟨hq, hne⟩ | ⟨e, he, hed, hq⟩)
    · exact ⟨Or.inl hq, hne⟩
    · refine ⟨Or.inr ⟨e, he, hed, hq⟩, ?_⟩
      rintro rfl
      exact hed (hinv.owner_unique he hmapped hq hp)
  · rintro ⟨hq | hq, hne⟩
    · exact Or.inl ⟨hq, hne⟩
    · exact Or.inr hq

/-- The bits are cleared and the descriptor is on the partial list of its node. -/
theorem releaseInto_clear (hq : Quiet pool L) {kind : Kind} (hd : d ∈ L (i, kind))
    (hfree : hugeSlabFree (pool.desc d) p = some slab) (hp : p ∈ used (pool.desc d)) :
    ∃ pool' L', releaseInto pool i d p =
        (true, if hugeSlabIsEmpty slab then dropEmpty pool' i d else pool') ∧
      PoolInv pool' L' ∅ {d} ∧ d ∈ L' (i, .partials) ∧ Counted pool' L' ∧
      pool'.desc d = slab ∧ carvedPages pool' = carvedPages pool \ {p} := by
  have hmapped := hq.inv.mem_mapped hd
  have hvalid₀ := hq.inv.valid d hmapped
  obtain ⟨hused, hvalid, hbase, hbits⟩ := hugeSlabFree_frees hvalid₀ hfree
  have hcarved := carvedPages_clear hq.inv hmapped hp hused
  have hinv : PoolInv (pool.countRelease i) L ∅ {d} :=
    (hq.inv.mono (Set.empty_subset _)).setNode rfl
  have hfits : fits (i, .partials) slab := hbits
  have hlist := hq.inv.fits_of_mem hd
  cases kind with
  | fulls =>
    have hfull := (hugeSlabIsFull_iff hvalid₀).2 hlist
    obtain ⟨L', hinv', hmem, hlisted⟩ := hinv.move hd hvalid hbase (by decide) hfits
    refine ⟨_, L', ?_, hinv', hmem, hq.counted.congr (by simp) hlisted, ?_, hcarved⟩
    · simp only [releaseInto, hfree, hfull, if_true]
      rfl
    · simp [Pool.link, Pool.setHead, Pool.setNode, Pool.setDesc]
  | partials =>
    have hfull := mt (hugeSlabIsFull_iff hvalid₀).1 hlist
    have hinv' := hinv.stay hd hvalid hbase hfits
    refine ⟨_, L, ?_, hinv', hd, hq.counted.congr (by simp) rfl, ?_, hcarved⟩
    · simp only [releaseInto, hfree, hfull]
      rfl
    · simp [Pool.setDesc]

/-- The release into a descriptor takes its pages in use. -/
theorem releaseInto_spec (hq : Quiet pool L) {kind : Kind} (hd : d ∈ L (i, kind)) (p : ℕ) :
    p ∉ used (pool.desc d) ∧ releaseInto pool i d p = (false, pool) ∨
      p ∈ used (pool.desc d) ∧ ∃ pool' L', releaseInto pool i d p = (true, pool') ∧
        Quiet pool' L' ∧ carvedPages pool' = carvedPages pool \ {p} := by
  have hvalid₀ := hq.inv.valid d (hq.inv.mem_mapped hd)
  cases hfree : hugeSlabFree (pool.desc d) p with
  | none =>
    left
    refine ⟨fun hp => ?_, by simp only [releaseInto, hfree]⟩
    obtain ⟨after, hsome⟩ := (hugeSlabFree_isSome_iff hvalid₀).2 hp
    simp [hfree] at hsome
  | some after =>
    right
    have hp := (hugeSlabFree_isSome_iff hvalid₀).1 ⟨after, hfree⟩
    obtain ⟨-, hvalid, -⟩ := hugeSlabFree_frees hvalid₀ hfree
    obtain ⟨pool₁, L₁, hpool₁, hinv₁, hmem₁, hcount₁, hdesc₁, hcarved₁⟩ :=
      releaseInto_clear hq hd hfree hp
    refine ⟨hp, ?_⟩
    rw [hpool₁]
    by_cases hempty : hugeSlabIsEmpty after = true
    · have hzero := (hugeSlabIsEmpty_iff hvalid).1 hempty
      obtain ⟨L', hq', hcarved'⟩ := dropEmpty_spec hinv₁ hcount₁ hmem₁ (hdesc₁ ▸ hzero)
      exact ⟨_, L', by rw [hempty, if_pos rfl], hq', hcarved'.trans hcarved₁⟩
    · have hsome := mt (hugeSlabIsEmpty_iff hvalid).2 hempty
      exact ⟨_, L₁, by rw [if_neg hempty], ⟨hinv₁.filled (hdesc₁ ▸ hsome), hcount₁⟩, hcarved₁⟩

/-- The search of a node gives the descriptor of the huge page, when it is one of its own. -/
theorem findOwning_eq (hq : Quiet pool L) (i : Fin numaMaxNodes) (p : ℕ) :
    findOwning pool i p = (L (i, .partials) ++ L (i, .fulls)).find? fun d =>
      (pool.desc d).base = p / hugePageSize * hugePageSize := by
  simp only [findOwning, hq.inv.members_eq]

theorem findOwning_eq_none (hq : Quiet pool L) (hfind : findOwning pool i p = none) {kind : Kind}
    (hd : d ∈ L (i, kind)) : p ∉ used (pool.desc d) := by
  intro hp
  rw [findOwning_eq hq, List.find?_eq_none] at hfind
  have hmem : d ∈ L (i, .partials) ++ L (i, .fulls) := by
    cases kind <;> simp [hd]
  have hbase := base_of_used (hq.inv.valid d (hq.inv.mem_mapped hd)) hp
  exact hfind d hmem (decide_eq_true hbase.symm)

theorem findOwning_eq_some (hq : Quiet pool L) (hfind : findOwning pool i p = some d) :
    (∃ kind, d ∈ L (i, kind)) ∧ (pool.desc d).base = p / hugePageSize * hugePageSize := by
  rw [findOwning_eq hq] at hfind
  have hbase := List.find?_some hfind
  have hmem := List.mem_of_find?_eq_some hfind
  constructor
  · rcases List.mem_append.1 hmem with hmem | hmem
    · exact ⟨.partials, hmem⟩
    · exact ⟨.fulls, hmem⟩
  · simpa using hbase

/-- The release over a list of nodes: the page is freed, or no descriptor of these nodes has it
in use. -/
theorem releaseLoop_spec (hq : Quiet pool L) (p : ℕ) (nodes : List (Fin numaMaxNodes)) :
    (∀ i ∈ nodes, ∀ kind, ∀ d ∈ L (i, kind), p ∉ used (pool.desc d)) ∧
        releaseLoop pool p nodes = (false, pool) ∨
      p ∈ carvedPages pool ∧ ∃ pool' L', releaseLoop pool p nodes = (true, pool') ∧
        Quiet pool' L' ∧ carvedPages pool' = carvedPages pool \ {p} := by
  induction nodes with
  | nil => exact Or.inl ⟨by simp, rfl⟩
  | cons i rest ih =>
    unfold releaseLoop
    cases hfind : findOwning pool i p with
    | none =>
      refine ih.imp (And.imp_left fun hrest j hj => ?_) id
      rcases List.mem_cons.1 hj with rfl | hj
      · exact fun kind d hd => findOwning_eq_none hq hfind hd
      · exact hrest j hj
    | some d =>
      obtain ⟨⟨kind, hd⟩, hbase⟩ := findOwning_eq_some hq hfind
      have hmapped := hq.inv.mem_mapped hd
      refine (releaseInto_spec hq hd p).imp (And.imp_left fun hunused => ?_)
        (And.imp_left fun hp => ⟨d, hmapped, hp⟩)
      -- A descriptor that has the page in use would have the same huge page.
      intro j _ other e he hp
      have hmapped' := hq.inv.mem_mapped he
      have hsame := base_of_used (hq.inv.valid e hmapped') hp
      rw [← hbase] at hsame
      rw [hq.inv.bases e hmapped' d hmapped hsame.symm] at hp
      exact hunused hp

/-- A release frees a carved page, or fails and changes nothing. -/
theorem numaPoolReleaseSlab_spec (hq : Quiet pool L) (p : ℕ) :
    p ∉ carvedPages pool ∧ numaPoolReleaseSlab pool p = (false, pool) ∨
      p ∈ carvedPages pool ∧ ∃ pool' L', numaPoolReleaseSlab pool p = (true, pool') ∧
        Quiet pool' L' ∧ carvedPages pool' = carvedPages pool \ {p} := by
  have hlisted : ∀ d ∈ pool.mapped, ∃ k, d ∈ L k := by
    intro d hd
    exact ((hq.inv.ledger.allocated d).1 (descs_ne_none.2 hd)).resolve_left id
  unfold numaPoolReleaseSlab
  by_cases hzero : p = 0
  · left
    refine ⟨?_, if_pos hzero⟩
    rintro ⟨d, hd, j, -, -, hp⟩
    have hne := (hq.inv.valid d hd).base_ne
    omega
  · rw [if_neg hzero]
    refine (releaseLoop_spec hq p _).imp_left (And.imp_left ?_)
    rintro hnone ⟨d, hd, hp⟩
    obtain ⟨⟨i, kind⟩, hk⟩ := hlisted d hd
    exact hnone i (List.mem_finRange i) kind d hk hp

end Steps

section Runs

variable {pool : Pool} {L : ListId → List ℕ} {carved : List ℕ}

/-- A state some sequence of carves and releases leads to, with the pages that were handed out
and not taken back. -/
inductive PoolRun : Pool → List ℕ → Prop
  | init : PoolRun .init []
  | carve {pool : Pool} {carved : List ℕ} (hrun : PoolRun pool carved) (numaNode : ℕ)
      (page descPage : Option ℕ) (hfresh : Fresh pool page descPage) :
      PoolRun (numaPoolCarveSlab pool numaNode page descPage).2
        ((numaPoolCarveSlab pool numaNode page descPage).1.toList ++ carved)
  | release {pool : Pool} {carved : List ℕ} (hrun : PoolRun pool carved) (slab : ℕ) :
      PoolRun (numaPoolReleaseSlab pool slab).2
        (if (numaPoolReleaseSlab pool slab).1 then carved.erase slab else carved)

theorem quiet_init : Quiet .init fun _ => [] := by
  refine ⟨⟨⟨fun _ => .nil, ?_, ?_, ?_, ?_⟩, ?_, ?_, ?_, ?_⟩, ?_⟩ <;>
    simp [descs, Pool.init, Counted, counts, listed]

theorem carvedPages_init : carvedPages .init = ∅ := by
  simp [carvedPages, Pool.init]

/-- The pages handed out and not taken back are those carved. -/
theorem PoolRun.quiet (hrun : PoolRun pool carved) :
    ∃ L, Quiet pool L ∧ carved.Nodup ∧ ∀ p, p ∈ carved ↔ p ∈ carvedPages pool := by
  induction hrun with
  | init => exact ⟨_, quiet_init, List.nodup_nil, by simp [carvedPages_init]⟩
  | carve hrun numaNode page descPage hfresh ih =>
    obtain ⟨L, hq, hnodup, hmem⟩ := ih
    rcases numaPoolCarveSlab_spec hq numaNode hfresh with hnone | ⟨p, pool', L', heq, hq', hp, hset⟩
    · rw [hnone]
      exact ⟨L, hq, hnodup, hmem⟩
    · rw [heq]
      refine ⟨L', hq', List.nodup_cons.2 ⟨fun hin => hp ((hmem p).1 hin), hnodup⟩, fun q => ?_⟩
      simp [hset, hmem]
  | release hrun slab ih =>
    obtain ⟨L, hq, hnodup, hmem⟩ := ih
    rcases numaPoolReleaseSlab_spec hq slab with ⟨-, heq⟩ | ⟨-, pool', L', heq, hq', hset⟩
    · rw [heq]
      exact ⟨L, hq, hnodup, hmem⟩
    · rw [heq]
      refine ⟨L', hq', hnodup.erase slab, fun q => ?_⟩
      simp [hset, hmem, hnodup.mem_erase_iff, and_comm]

/-- The huge pages held are those with a carved page. -/
theorem Quiet.mem_pages_iff (hq : Quiet pool L) {b : ℕ} :
    b ∈ pool.pages ↔ ∃ p ∈ carvedPages pool, p / hugePageSize * hugePageSize = b := by
  rw [hq.inv.pages]
  constructor
  · rintro ⟨d, hd, rfl⟩
    obtain ⟨p, hp⟩ := Set.nonempty_iff_ne_empty.2
      (mt used_eq_empty_iff.1 (hq.inv.inUse d hd id))
    exact ⟨p, ⟨d, hd, hp⟩, base_of_used (hq.inv.valid d hd) hp⟩
  · rintro ⟨p, ⟨d, hd, hp⟩, rfl⟩
    exact ⟨d, hd, (base_of_used (hq.inv.valid d hd) hp).symm⟩

/-- The huge pages have different addresses, so there are fewer than a word can count. -/
theorem Quiet.listed_lt (hq : Quiet pool L) (i : Fin numaMaxNodes) : listed L i < 2 ^ 64 := by
  have hnodup : (L (i, .partials) ++ L (i, .fulls)).Nodup := by
    refine List.nodup_append.2 ⟨(hq.inv.ledger.chain _).nodup, (hq.inv.ledger.chain _).nodup, ?_⟩
    rintro d hd _ hd' rfl
    simpa using hq.inv.ledger.unique d _ _ hd hd'
  have hsub : (L (i, .partials) ++ L (i, .fulls)).toFinset ⊆ pool.mapped := by
    intro d hd
    rcases List.mem_append.1 (List.mem_toFinset.1 hd) with hd | hd
    · exact hq.inv.mem_mapped hd
    · exact hq.inv.mem_mapped hd
  have hbases : pool.mapped.card ≤ (Finset.Ioo 0 (2 ^ 64)).card := by
    apply Finset.card_le_card_of_injOn fun d => (pool.desc d).base
    · intro d hd
      have hvalid := hq.inv.valid d hd
      exact Finset.mem_coe.2 (Finset.mem_Ioo.2 ⟨Nat.pos_of_ne_zero hvalid.base_ne, hvalid.base_lt⟩)
    · intro d hd e he heq
      exact hq.inv.bases d hd e he heq
  have hcard := Finset.card_le_card hsub
  rw [List.toFinset_card_of_nodup hnodup, List.length_append] at hcard
  rw [Nat.card_Ioo] at hbases
  unfold listed
  omega

/-- The huge page goes back with its last carved page. -/
theorem Quiet.pages_release {pool' : Pool} {L' : ListId → List ℕ} (hq : Quiet pool L)
    (hq' : Quiet pool' L') {slab : ℕ} (hslab : slab ∈ carvedPages pool)
    (hset : carvedPages pool' = carvedPages pool \ {slab})
    (hmem : ∀ p, p ∈ carved ↔ p ∈ carvedPages pool) :
    pool'.pages = if ∃ p ∈ carved, p ≠ slab ∧
        p / hugePageSize * hugePageSize = slab / hugePageSize * hugePageSize
      then pool.pages else pool.pages.erase (slab / hugePageSize * hugePageSize) := by
  have hpages' : ∀ b, b ∈ pool'.pages ↔
      ∃ p ∈ carvedPages pool, p ≠ slab ∧ p / hugePageSize * hugePageSize = b := by
    intro b
    simp [hq'.mem_pages_iff, hset, and_assoc]
  have hkept := (exists_congr fun p => and_congr_left' (hmem p)).trans
    (hpages' (slab / hugePageSize * hugePageSize)).symm
  ext b
  split_ifs with hlast <;> rw [hkept] at hlast
  · rw [hpages', hq.mem_pages_iff]
    constructor
    · rintro ⟨p, hp, -, hb⟩
      exact ⟨p, hp, hb⟩
    · rintro ⟨p, hp, rfl⟩
      by_cases hps : p = slab
      · subst hps
        exact (hpages' _).1 hlast
      · exact ⟨p, hp, hps, rfl⟩
  · rw [hpages', Finset.mem_erase, hq.mem_pages_iff]
    constructor
    · rintro ⟨p, hp, hps, rfl⟩
      exact ⟨fun hb => hlast ((hpages' _).2 ⟨p, hp, hps, hb⟩), p, hp, rfl⟩
    · rintro ⟨hb, p, hp, rfl⟩
      refine ⟨p, hp, ?_, rfl⟩
      rintro rfl
      exact hb rfl

/-- Over every sequence of carves and releases: the lists hold the descriptors, the bitmaps say
what is carved, the counters count, and a release takes back the carved pages and no others. -/
theorem pool_keeps_pages (hrun : PoolRun pool carved) :
    (∃ L : ListId → List ℕ,
      (∀ i kind, Chain 0 pool.next ((pool.nodes i).head kind) (L (i, kind))) ∧
      (∀ k, (L k).Nodup ∧ ∀ d ∈ L k, d ∈ pool.mapped) ∧
      (∀ d ∈ pool.mapped, ∃! k, d ∈ L k) ∧
      (∀ i, ∀ d ∈ L (i, .partials),
        (pool.desc d).bitmap ≠ 0#32 ∧ (pool.desc d).bitmap ≠ BitVec.allOnes 32) ∧
      (∀ i, ∀ d ∈ L (i, .fulls), (pool.desc d).bitmap = BitVec.allOnes 32) ∧
      ∀ i, (pool.nodes i).hugePagesAlive =
          (pool.nodes i).hugePagesAllocated - (pool.nodes i).hugePagesReleased ∧
        (pool.nodes i).hugePagesAlive.toNat =
          (L (i, .partials)).length + (L (i, .fulls)).length) ∧
    carved.Nodup ∧
    (∀ p, p ∈ carved ↔ ∃ d ∈ pool.mapped, ∃ j < 32,
      (pool.desc d).bitmap.getLsbD j = true ∧ p = (pool.desc d).base + j * pageSize) ∧
    (∀ slab ∈ carved,
      (numaPoolReleaseSlab pool slab).1 = true ∧
      carvedPages (numaPoolReleaseSlab pool slab).2 = carvedPages pool \ {slab} ∧
      (numaPoolReleaseSlab pool slab).2.pages =
        if ∃ p ∈ carved, p ≠ slab ∧
            p / hugePageSize * hugePageSize = slab / hugePageSize * hugePageSize
        then pool.pages else pool.pages.erase (slab / hugePageSize * hugePageSize)) ∧
    ∀ slab ∉ carved, numaPoolReleaseSlab pool slab = (false, pool) := by
  obtain ⟨L, hq, hnodup, hmem⟩ := hrun.quiet
  refine ⟨⟨L, fun i kind => hq.inv.ledger.chain (i, kind), fun k => ?_, fun d hd => ?_,
    fun i d hd => ?_, fun i d hd => hq.inv.fits_of_mem hd, fun i => ?_⟩, hnodup, hmem,
    fun slab hslab => ?_, fun slab hslab => ?_⟩
  · exact ⟨(hq.inv.ledger.chain k).nodup, fun d hd => hq.inv.mem_mapped hd⟩
  · obtain ⟨k, hk⟩ := ((hq.inv.ledger.allocated d).1 (descs_ne_none.2 hd)).resolve_left id
    exact ⟨k, hk, fun k' hk' => hq.inv.ledger.unique d k' k hk' hk⟩
  · exact ⟨hq.inv.inUse d (hq.inv.mem_mapped hd) id, hq.inv.fits_of_mem hd⟩
  · obtain ⟨hdiff, hcount⟩ := hq.counted i
    refine ⟨hdiff, ?_⟩
    rw [show (pool.nodes i).hugePagesAlive = _ from hcount, BitVec.toNat_ofNat,
      Nat.mod_eq_of_lt (hq.listed_lt i)]
    rfl
  · rcases numaPoolReleaseSlab_spec hq slab with ⟨hnot, -⟩ | ⟨hin, pool', L', heq, hq', hset⟩
    · exact absurd ((hmem slab).1 hslab) hnot
    · rw [heq]
      exact ⟨rfl, hset, hq.pages_release hq' hin hset hmem⟩
  · rcases numaPoolReleaseSlab_spec hq slab with ⟨-, heq⟩ | ⟨hin, -⟩
    · exact heq
    · exact absurd ((hmem slab).2 hin) hslab

/-- A huge page with one page carved, with two, and with the first of them given back. -/
def carvedOnce : Pool := (numaPoolCarveSlab .init 3 (some 0x200000) (some 0x1000)).2
def carvedTwice : Pool := (numaPoolCarveSlab carvedOnce 3 none none).2
def carvedOther : Pool := (numaPoolReleaseSlab carvedTwice 0x200000).2

theorem carved_answers :
    (numaPoolCarveSlab .init 3 (some 0x200000) (some 0x1000)).1 = some 0x200000 ∧
      (numaPoolCarveSlab carvedOnce 3 none none).1 = some 0x210000 ∧
      (numaPoolReleaseSlab carvedTwice 0x200000).1 = true := by
  decide +kernel

theorem carvedOther_run : PoolRun carvedOther [0x210000] := by
  obtain ⟨hfirst, hsecond, hback⟩ := carved_answers
  have hfresh : Fresh .init (some 0x200000) (some 0x1000) := by
    constructor
    · rintro _ ⟨⟩
      exact ⟨by decide, by decide, by decide, by simp [Pool.init]⟩
    · rintro _ ⟨⟩
      exact ⟨by decide, by simp [Pool.init]⟩
  have hone := PoolRun.init.carve 3 (some 0x200000) (some 0x1000) hfresh
  rw [hfirst] at hone
  have htwo : PoolRun carvedTwice _ := PoolRun.carve hone 3 none none ⟨nofun, nofun⟩
  change PoolRun carvedTwice ((numaPoolCarveSlab carvedOnce 3 none none).1.toList ++ _) at htwo
  rw [hsecond] at htwo
  have hrelease := htwo.release 0x200000
  rw [if_pos hback] at hrelease
  exact hrelease

/-- The other page goes back once, with its huge page; the first is not taken again. -/
theorem pool_keeps_pages_carved :
    (numaPoolReleaseSlab carvedOther 0x210000).1 = true ∧
    (numaPoolReleaseSlab carvedOther 0x210000).2.pages = carvedOther.pages.erase 0x200000 ∧
    numaPoolReleaseSlab carvedOther 0x200000 = (false, carvedOther) := by
  obtain ⟨-, -, -, hcarved, hother⟩ := pool_keeps_pages carvedOther_run
  obtain ⟨hback, -, hpages⟩ := hcarved 0x210000 (by simp)
  rw [if_neg (by simp)] at hpages
  exact ⟨hback, hpages, hother 0x200000 (by simp)⟩

end Runs

end V8Malloc.NumaPool
