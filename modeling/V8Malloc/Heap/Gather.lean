import V8Malloc.Heap.Account

/-!
# Chains in hand

Refills, overflows and drains all build a chain of blocks, link by link, and
then hang it on a stack. While the chain is built its blocks are in hand, on
top of what was in hand before.
-/
namespace V8Malloc

open ByteMemory LinkedList StackLedger Function

variable {κ : Type} {fits : κ → Grant → Prop} {h : Heap} {head : κ → ℕ} {L : κ → List ℕ}
variable {blk : Blocks} {held : Set ℕ} {g : Grant} {last v x : ℕ} {batch : Batch} {xs : List ℕ}
variable {k : κ}

/-- The blocks of `xs` are in hand beside those of `held`, linked as `batch` says, and the last
one leads to `last`. -/
structure InHand (fits : κ → Grant → Prop) (head : κ → ℕ) (L : κ → List ℕ) (h : Heap)
    (blk : Blocks) (held : Set ℕ) (g : Grant) (last : ℕ) (batch : Batch) (xs : List ℕ) :
    Prop where
  account : Account fits h head L blk (held ∪ {x | x ∈ xs})
  links : Segment (load64 h.mem) last xs
  head_eq : batch.head = xs.headD 0
  tail_eq : batch.tail = xs.getLastD 0
  count_eq : batch.count = xs.length
  nodup : xs.Nodup
  grants : ∀ x ∈ xs, blk x = some g
  fresh : ∀ x ∈ xs, x ∉ held

theorem inHand_nil (hacc : Account fits h head L blk held) (g : Grant) (last : ℕ) :
    InHand fits head L h blk held g last ⟨0, 0, 0⟩ [] := by
  refine ⟨?_, trivial, rfl, rfl, rfl, List.nodup_nil, ?_, ?_⟩ <;> simp [hacc]

namespace InHand

theorem mem_hand (hx : x ∈ xs) : x ∈ held ∪ {y | y ∈ xs} := Set.mem_union_right held hx

theorem ne_zero (hi : InHand fits head L h blk held g last batch xs) (hx : x ∈ xs) : x ≠ 0 :=
  hi.account.ne_zero (mem_hand hx)

theorem getLast (hi : InHand fits head L h blk held g last batch xs) (hne : xs ≠ []) :
    xs.getLast? = some batch.tail := by
  rw [hi.tail_eq, List.getLastD_eq_getLast?]
  cases hlast : xs.getLast? with
  | none => exact absurd (List.getLast?_eq_none_iff.1 hlast) hne
  | some y => simp

theorem tail_mem (hi : InHand fits head L h blk held g last batch xs) (hne : xs ≠ []) :
    batch.tail ∈ xs := List.mem_of_getLast? (hi.getLast hne)

theorem head_mem (hi : InHand fits head L h blk held g last batch xs) (hne : xs ≠ []) :
    batch.head ∈ xs := by
  rw [hi.head_eq]
  cases xs with
  | nil => exact absurd rfl hne
  | cons y ys => exact List.mem_cons_self

theorem tail_zero_iff (hi : InHand fits head L h blk held g last batch xs) :
    batch.tail = 0 ↔ xs = [] := by
  constructor
  · intro h0
    by_contra hne
    exact hi.ne_zero (hi.tail_mem hne) h0
  · rintro rfl
    exact hi.tail_eq

theorem head_zero_iff (hi : InHand fits head L h blk held g last batch xs) :
    batch.head = 0 ↔ xs = [] := by
  constructor
  · intro h0
    by_contra hne
    exact hi.ne_zero (hi.head_mem hne) h0
  · rintro rfl
    exact hi.head_eq

theorem count_zero_iff (hi : InHand fits head L h blk held g last batch xs) :
    batch.count = 0 ↔ xs = [] := by
  rw [hi.count_eq, List.length_eq_zero_iff]

theorem head_lt (hi : InHand fits head L h blk held g last batch xs) :
    batch.head < addressSpace := by
  by_cases hne : xs = []
  · rw [hi.head_zero_iff.2 hne]
    decide
  · exact hi.account.block_lt (hi.grants _ (hi.head_mem hne))

theorem chain (hi : InHand fits head L h blk held g 0 batch xs) :
    Chain 0 (load64 h.mem) batch.head xs := by
  rw [hi.head_eq]
  exact hi.links.chain fun x hx => hi.ne_zero hx

/-- The backends and the stacks change while the blocks of the chain keep their bytes. -/
theorem follow {head' : κ → ℕ} {L' : κ → List ℕ} {h' : Heap} {blk' : Blocks} {held' : Set ℕ}
    (hi : InHand fits head L h blk held g last batch xs)
    (hacc : Account fits h' head' L' blk' (held' ∪ {x | x ∈ xs})) (hout : ∀ x ∈ xs, x ∉ held')
    (hc : Carried {x | x ∈ xs} blk h.mem blk' h'.mem) :
    InHand fits head' L' h' blk' held' g last batch xs := by
  refine { hi with account := hacc, links := ?_, grants := ?_, fresh := hout }
  · apply hi.links.congr
    intro y hy
    exact hi.account.load64_kept (hi.grants y hy) (hc y hy g (hi.grants y hy)).2
  · exact fun y hy => (hc y hy g (hi.grants y hy)).1

/-- One more block comes to hand. -/
theorem grow {head' : κ → ℕ} {L' : κ → List ℕ} {h' : Heap} {blk' : Blocks}
    (hi : InHand fits head L h blk held g last batch xs)
    (hacc : Account fits h' head' L' blk' (insert x (held ∪ {x | x ∈ xs})))
    (hx : x ∉ held ∪ {x | x ∈ xs}) (hc : Carried {x | x ∈ xs} blk h.mem blk' h'.mem) :
    InHand fits head' L' h' blk' (insert x held) g last batch xs := by
  rw [← Set.insert_union] at hacc
  apply hi.follow hacc _ hc
  rintro y hy (rfl | hmem)
  · exact hx (mem_hand hy)
  · exact hi.fresh y hy hmem

/-- The last block is linked to `v`. -/
theorem relink (hi : InHand fits head L h blk held g last batch xs) (hne : xs ≠ [])
    (hv : v < addressSpace) :
    InHand fits head L { h with mem := store64 h.mem batch.tail v } blk held g v batch xs ∧
      Carried held blk h.mem blk (store64 h.mem batch.tail v) := by
  obtain ⟨hacc, hcarried⟩ := hi.account.link (mem_hand (hi.tail_mem hne)) hv
  constructor
  · refine { hi with account := hacc, links := ?_ }
    apply hi.links.redirect hi.nodup (hi.getLast hne) (Account.load64_link hv)
    intro y hy hyt
    have hg := hi.grants y hy
    exact hi.account.load64_kept hg (hcarried y ⟨mem_hand hy, hyt⟩ g hg).2
  · apply hcarried.mono
    intro y hy
    refine ⟨Set.mem_union_left _ hy, ?_⟩
    rintro rfl
    exact hi.fresh _ (hi.tail_mem hne) hy

/-- A block from the top of a stack joins those in hand. -/
theorem pop [DecidableEq κ] (hi : InHand fits head L h blk held g last batch xs)
    (h0 : head k ≠ 0) :
    ∃ rest, L k = head k :: rest ∧ head k ∉ held ∧ (∃ g', blk (head k) = some g' ∧ fits k g') ∧
      InHand fits (update head k (load64 h.mem (head k))) (update L k rest) h blk
        (insert (head k) held) g last batch xs := by
  obtain ⟨rest, hL, hnot, hg, hacc⟩ := hi.account.pop h0
  exact ⟨rest, hL, fun hmem => hnot (Set.mem_union_left _ hmem), hg,
    hi.grow hacc hnot (Carried.refl _ _ _)⟩

/-- The block the chain leads to becomes its last one. -/
theorem snoc (hi : InHand fits head L h blk (insert x held) g x batch xs) (hx : x ∉ held)
    (hg : blk x = some g) :
    InHand fits head L h blk held g (load64 h.mem x)
      ⟨if xs = [] then x else batch.head, x, batch.count + 1⟩ (xs ++ [x]) := by
  have hnew : x ∉ xs := fun hmem => hi.fresh x hmem (Set.mem_insert x held)
  have hset : insert x held ∪ {y | y ∈ xs} = held ∪ {y | y ∈ xs ++ [x]} := by
    ext y
    simp only [Set.mem_union, Set.mem_insert_iff, Set.mem_ofPred_eq, List.mem_append,
      List.mem_singleton]
    tauto
  refine ⟨hset ▸ hi.account, hi.links.snoc, ?_, ?_, ?_, ?_, ?_, ?_⟩
  · have hhead := hi.head_eq
    cases xs with
    | nil => rfl
    | cons y ys => simpa using hhead
  · simp [List.getLastD_eq_getLast?]
  · simp [hi.count_eq]
  · rw [List.nodup_append]
    refine ⟨hi.nodup, List.nodup_singleton x, ?_⟩
    rintro y hy z hz rfl
    exact hnew (List.mem_singleton.1 hz ▸ hy)
  · intro y hy
    rcases List.mem_append.1 hy with hy | hy
    · exact hi.grants y hy
    · rw [List.mem_singleton.1 hy]
      exact hg
  · intro y hy
    rcases List.mem_append.1 hy with hy | hy
    · exact fun hmem => hi.fresh y hy (Set.mem_insert_of_mem x hmem)
    · rw [List.mem_singleton.1 hy]
      exact hx

/-- A block in hand goes in front of the chain. -/
theorem cons (hi : InHand fits head L h blk (insert x held) g 0 batch xs) (hx : x ∉ held)
    (hg : blk x = some g) :
    InHand fits head L { h with mem := store64 h.mem x batch.head } blk held g 0
        ⟨x, if batch.tail = 0 then x else batch.tail, batch.count + 1⟩ (x :: xs) ∧
      Carried held blk h.mem blk (store64 h.mem x batch.head) := by
  have hnew : x ∉ xs := fun hmem => hi.fresh x hmem (Set.mem_insert x held)
  obtain ⟨hacc, hcarried⟩ :=
    hi.account.link (Set.mem_union_left _ (Set.mem_insert x held)) hi.head_lt
  have hset : insert x held ∪ {y | y ∈ xs} = held ∪ {y | y ∈ x :: xs} := by
    ext y
    simp only [Set.mem_union, Set.mem_insert_iff, Set.mem_ofPred_eq, List.mem_cons]
    tauto
  constructor
  · refine ⟨hset ▸ hacc, ⟨?_, ?_⟩, rfl, ?_, ?_, ?_, ?_, ?_⟩
    · rw [← hi.head_eq]
      exact Account.load64_link hi.head_lt
    · apply hi.links.congr
      intro y hy
      have hne : y ≠ x := by
        rintro rfl
        exact hnew hy
      exact hi.account.load64_kept (hi.grants y hy)
        (hcarried y ⟨mem_hand hy, hne⟩ g (hi.grants y hy)).2
    · simp only [hi.tail_zero_iff]
      cases xs with
      | nil => rfl
      | cons y ys => simp [hi.tail_eq]
    · simp [hi.count_eq]
    · exact List.nodup_cons.2 ⟨hnew, hi.nodup⟩
    · intro y hy
      rcases List.mem_cons.1 hy with rfl | hy
      · exact hg
      · exact hi.grants y hy
    · intro y hy
      rcases List.mem_cons.1 hy with rfl | hy
      · exact hx
      · exact fun hmem => hi.fresh y hy (Set.mem_insert_of_mem x hmem)
  · apply hcarried.mono
    intro y hy
    refine ⟨Set.mem_union_left _ (Set.mem_insert_of_mem x hy), ?_⟩
    rintro rfl
    exact hx hy

/-- The chain goes on a stack: its last block is linked to the old top. -/
theorem splice [DecidableEq κ] (hi : InHand fits head L h blk held g last batch xs)
    (hne : xs ≠ []) (hfits : fits k g) :
    Account fits { h with mem := store64 h.mem batch.tail (head k) }
        (update head k batch.head) (update L k (xs ++ L k)) blk held ∧
      Carried held blk h.mem blk (store64 h.mem batch.tail (head k)) := by
  obtain ⟨hi', hcarried⟩ := hi.relink hne (hi.account.head_lt k)
  have hsplice := hi'.account.ledger.splice hi'.nodup (fun x hx => mem_hand hx)
    (fun x hx => hi'.ne_zero hx) (fun x hx g' hg' => ?_) hi'.links
  · have hset : (held ∪ {x | x ∈ xs}) \ {x | x ∈ xs} = held := by
      ext y
      simp only [Set.mem_sdiff, Set.mem_union, Set.mem_ofPred_eq]
      exact ⟨fun hy => hy.1.resolve_right hy.2, fun hy => ⟨Or.inl hy, fun hx => hi.fresh y hx hy⟩⟩
    have hhead : xs.headD (head k) = batch.head := by
      rw [hi.head_eq]
      cases xs with
      | nil => exact absurd rfl hne
      | cons y ys => rfl
    rw [hset, hhead] at hsplice
    exact ⟨⟨hi'.account.inv, hsplice⟩, hcarried⟩
  · rw [hi.grants x hx] at hg'
    cases hg'
    exact hfits

end InHand

end V8Malloc
