import V8Malloc.Lib.LinkedList

/-!
# Blocks on intrusive stacks

A set of allocated blocks, some of them linked on stacks through a word of
their own and the others in hand. Every block is in hand or on exactly one
stack; pushes, pops and splices move blocks without losing or doubling one.
-/
namespace StackLedger

open LinkedList Function

variable {α κ γ : Type*} {nil : α} {fits : κ → γ → Prop}
variable {blk : α → Option γ} {next next' : α → α} {head : κ → α} {L : κ → List α} {held : Set α}
variable {x a : α} {k : κ} {g : γ} {xs : List α}

/-- Every allocated block is in hand or on one stack, and a stack holds only blocks that fit it. -/
structure Ledger (nil : α) (fits : κ → γ → Prop) (blk : α → Option γ) (next : α → α) (head : κ → α)
    (L : κ → List α) (held : Set α) : Prop where
  chain : ∀ k, Chain nil next (head k) (L k)
  allocated : ∀ a, blk a ≠ none ↔ a ∈ held ∨ ∃ k, a ∈ L k
  apart : ∀ a ∈ held, ∀ k, a ∉ L k
  unique : ∀ a k k', a ∈ L k → a ∈ L k' → k = k'
  sorted : ∀ k, ∀ a ∈ L k, ∀ g, blk a = some g → fits k g

theorem Ledger.congr (h : Ledger nil fits blk next head L held)
    (hnext : ∀ k, ∀ y ∈ L k, next' y = next y) : Ledger nil fits blk next' head L held :=
  { h with chain := fun k => (h.chain k).congr (hnext k) }

/-- A block in hand whose word already holds the head of the stack becomes its top. -/
theorem Ledger.push [DecidableEq κ] (h : Ledger nil fits blk next head L held) (hx : x ∈ held)
    (hnil : x ≠ nil) (hfits : ∀ g, blk x = some g → fits k g) (hself : next x = head k) :
    Ledger nil fits blk next (update head k x) (update L k (x :: L k))
      (held \ {x}) := by
  have hmem : ∀ j a, a ∈ update L k (x :: L k) j ↔ a ∈ L j ∨ j = k ∧ a = x := by
    intro j a
    by_cases hj : j = k
    · subst hj
      rw [update_self, List.mem_cons]
      tauto
    · rw [update_of_ne hj]
      tauto
  constructor
  · intro j
    by_cases hj : j = k
    · subst hj
      rw [update_self, update_self]
      refine .cons hnil ?_
      rw [hself]
      exact h.chain j
    · rw [update_of_ne hj, update_of_ne hj]
      exact h.chain j
  · intro a
    rw [h.allocated]
    constructor
    · rintro (ha | ⟨j, ha⟩)
      · by_cases hax : a = x
        · exact Or.inr ⟨k, (hmem k a).2 (Or.inr ⟨rfl, hax⟩)⟩
        · exact Or.inl ⟨ha, hax⟩
      · exact Or.inr ⟨j, (hmem j a).2 (Or.inl ha)⟩
    · rintro (⟨ha, -⟩ | ⟨j, ha⟩)
      · exact Or.inl ha
      · rcases (hmem j a).1 ha with ha | ⟨-, rfl⟩
        · exact Or.inr ⟨j, ha⟩
        · exact Or.inl hx
  · rintro a ⟨ha, hax⟩ j hj
    rcases (hmem j a).1 hj with hj | ⟨-, rfl⟩
    · exact h.apart a ha j hj
    · exact hax rfl
  · intro a i j hi hj
    rcases (hmem i a).1 hi with hi' | ⟨hik, hax⟩
    · rcases (hmem j a).1 hj with hj' | ⟨-, hax⟩
      · exact h.unique a i j hi' hj'
      · exact absurd (hax ▸ hi') (h.apart x hx i)
    · rcases (hmem j a).1 hj with hj' | ⟨hjk, -⟩
      · exact absurd (hax ▸ hj') (h.apart x hx j)
      · rw [hik, hjk]
  · intro j a ha g hg
    rcases (hmem j a).1 ha with ha | ⟨rfl, rfl⟩
    · exact h.sorted j a ha g hg
    · exact hfits g hg

/-- The top of a stack that is not empty comes to hand. -/
theorem Ledger.pop [DecidableEq κ] (h : Ledger nil fits blk next head L held) (hne : head k ≠ nil) :
    ∃ xs, L k = head k :: xs ∧ head k ∉ held ∧
      Ledger nil fits blk next (update head k (next (head k))) (update L k xs)
        (insert (head k) held) := by
  have hchain := h.chain k
  obtain ⟨xs, hL⟩ : ∃ xs, L k = head k :: xs := by
    cases hlist : L k with
    | nil =>
      rw [hlist] at hchain
      exact absurd (hchain.nil_iff.2 rfl) hne
    | cons y ys =>
      rw [hlist] at hchain
      exact ⟨ys, by rw [hchain.head_eq]; rfl⟩
  have htop : head k ∈ L k := hL ▸ List.mem_cons_self
  have hfresh : head k ∉ xs := by
    have hnodup := hchain.nodup
    rw [hL] at hnodup
    exact (List.nodup_cons.1 hnodup).1
  have hmem : ∀ j a, a ∈ update L k xs j ↔ a ∈ L j ∧ ¬(j = k ∧ a = head k) := by
    intro j a
    by_cases hj : j = k
    · subst hj
      rw [update_self, hL, List.mem_cons]
      constructor
      · intro ha
        refine ⟨Or.inr ha, fun hself => hfresh ?_⟩
        rwa [← hself.2]
      · rintro ⟨rfl | ha, hnot⟩
        · exact absurd ⟨rfl, rfl⟩ hnot
        · exact ha
    · rw [update_of_ne hj]
      tauto
  refine ⟨xs, hL, fun hheld => h.apart _ hheld k htop, ?_, ?_, ?_, ?_, ?_⟩
  · intro j
    by_cases hj : j = k
    · subst hj
      rw [update_self, update_self]
      rw [hL] at hchain
      cases hchain with
      | cons _ htail => exact htail
    · rw [update_of_ne hj, update_of_ne hj]
      exact h.chain j
  · intro a
    rw [h.allocated]
    constructor
    · rintro (ha | ⟨j, ha⟩)
      · exact Or.inl (Or.inr ha)
      · by_cases hself : j = k ∧ a = head k
        · exact Or.inl (Or.inl hself.2)
        · exact Or.inr ⟨j, (hmem j a).2 ⟨ha, hself⟩⟩
    · rintro ((rfl | ha) | ⟨j, ha⟩)
      · exact Or.inr ⟨k, htop⟩
      · exact Or.inl ha
      · exact Or.inr ⟨j, ((hmem j a).1 ha).1⟩
  · rintro a (rfl | ha) j hj
    · obtain ⟨hj, hnot⟩ := (hmem j _).1 hj
      exact hnot ⟨h.unique _ j k hj htop, rfl⟩
    · exact h.apart a ha j ((hmem j a).1 hj).1
  · exact fun a i j hi hj => h.unique a i j ((hmem i a).1 hi).1 ((hmem j a).1 hj).1
  · exact fun j a ha => h.sorted j a ((hmem j a).1 ha).1

/-- A block anywhere on a stack comes to hand. -/
theorem Ledger.cutOut [DecidableEq α] [DecidableEq κ] (h : Ledger nil fits blk next head L held)
    (hx : x ∈ L k) {n : ℕ} (hn : (L k).length ≤ n) :
    Ledger nil fits blk (cutOut nil next x n (head k)).2
      (update head k (cutOut nil next x n (head k)).1)
      (update L k ((L k).erase x)) (insert x held) := by
  obtain ⟨hchain, hframe⟩ := (h.chain k).cutOut x hn
  have hnodup := (h.chain k).nodup
  have hmem : ∀ j a, a ∈ update L k ((L k).erase x) j ↔ a ∈ L j ∧ a ≠ x := by
    intro j a
    by_cases hj : j = k
    · subst hj
      rw [update_self, hnodup.mem_erase_iff, and_comm]
    · rw [update_of_ne hj]
      refine ⟨fun ha => ⟨ha, ?_⟩, And.left⟩
      rintro rfl
      exact hj (h.unique a j k ha hx)
  constructor
  · intro j
    by_cases hj : j = k
    · subst hj
      rwa [update_self, update_self]
    · rw [update_of_ne hj, update_of_ne hj]
      refine (h.chain j).congr fun y hy => hframe y fun hk => ?_
      exact hj (h.unique y j k hy (List.mem_of_mem_erase hk))
  · intro a
    rw [h.allocated]
    by_cases ha : a = x
    · subst ha
      simp [show ∃ j, a ∈ L j from ⟨k, hx⟩]
    · simp [hmem, ha]
  · rintro a (rfl | ha) j hj
    · exact ((hmem j a).1 hj).2 rfl
    · exact h.apart a ha j ((hmem j a).1 hj).1
  · exact fun a i j hi hj => h.unique a i j ((hmem i a).1 hi).1 ((hmem j a).1 hj).1
  · exact fun j a ha => h.sorted j a ((hmem j a).1 ha).1

/-- What a block is changes, to something that still fits the stack it is on. -/
theorem Ledger.renew [DecidableEq α] (h : Ledger nil fits blk next head L held) (ha : blk a ≠ none)
    (hfits : ∀ k, a ∈ L k → fits k g) :
    Ledger nil fits (update blk a (some g)) next head L held := by
  refine { h with allocated := fun b => ?_, sorted := fun k b hb g' hg' => ?_ }
  · by_cases hb : b = a
    · subst hb
      rw [update_self, ← h.allocated]
      simp [ha]
    · rw [update_of_ne hb, h.allocated]
  · by_cases hba : b = a
    · subst hba
      rw [update_self, Option.some_inj] at hg'
      exact hg' ▸ hfits k hb
    · rw [update_of_ne hba] at hg'
      exact h.sorted k b hb g' hg'

/-- A new block comes to hand. -/
theorem Ledger.add [DecidableEq α] (h : Ledger nil fits blk next head L held)
    (hfresh : blk a = none) (g : γ) :
    Ledger nil fits (update blk a (some g)) next head L (insert a held) := by
  have hnot : a ∉ held ∧ ∀ k, a ∉ L k := by
    have hnone := mt (h.allocated a).2 (not_not.2 hfresh)
    push Not at hnone
    exact hnone
  constructor
  · exact h.chain
  · intro b
    by_cases hb : b = a
    · subst hb
      rw [update_self]
      simp
    · rw [update_of_ne hb, h.allocated, Set.mem_insert_iff, or_iff_right hb]
  · rintro b (rfl | hb) k
    · exact hnot.2 k
    · exact h.apart b hb k
  · exact h.unique
  · intro k b hb g' hg'
    rw [update_of_ne] at hg'
    · exact h.sorted k b hb g' hg'
    · rintro rfl
      exact hnot.2 k hb

/-- A block in hand is given up. -/
theorem Ledger.remove [DecidableEq α] (h : Ledger nil fits blk next head L held) (ha : a ∈ held) :
    Ledger nil fits (update blk a none) next head L (held \ {a}) := by
  constructor
  · exact h.chain
  · intro b
    by_cases hb : b = a
    · subst hb
      rw [update_self]
      simpa using h.apart b ha
    · rw [update_of_ne hb, h.allocated]
      simp [hb]
  · exact fun b hb k => h.apart b hb.1 k
  · exact h.unique
  · intro k b hb g hg
    rw [update_of_ne] at hg
    · exact h.sorted k b hb g hg
    · rintro rfl
      exact h.apart b ha k hb

/-! ### Whole chains -/

/-- The nodes of the list are linked in order and the last one leads to `last`. -/
def Segment (next : α → α) (last : α) : List α → Prop
  | [] => True
  | x :: xs => next x = xs.headD last ∧ Segment next last xs

theorem Segment.congr {last : α} (h : Segment next last xs) (heq : ∀ y ∈ xs, next' y = next y) :
    Segment next' last xs := by
  induction xs with
  | nil => trivial
  | cons x xs ih =>
    refine ⟨(heq x List.mem_cons_self).trans h.1, ih h.2 fun y hy => ?_⟩
    exact heq y (List.mem_cons_of_mem x hy)

/-- The last node is made to lead elsewhere. -/
theorem Segment.redirect {last last' tail : α} (h : Segment next last xs) (hnodup : xs.Nodup)
    (htail : xs.getLast? = some tail) (hself : next' tail = last')
    (hrest : ∀ y ∈ xs, y ≠ tail → next' y = next y) : Segment next' last' xs := by
  induction xs with
  | nil => trivial
  | cons x xs ih =>
    cases xs with
    | nil =>
      rw [List.getLast?_singleton, Option.some_inj] at htail
      subst htail
      exact ⟨hself, trivial⟩
    | cons y ys =>
      rw [List.getLast?_cons_cons] at htail
      have hmem : tail ∈ y :: ys := List.mem_of_getLast? htail
      have hxt : x ≠ tail := by
        rintro rfl
        exact (List.nodup_cons.1 hnodup).1 hmem
      refine ⟨(hrest x List.mem_cons_self hxt).trans h.1, ?_⟩
      apply ih h.2 (List.nodup_cons.1 hnodup).2 htail
      exact fun z hz => hrest z (List.mem_cons_of_mem x hz)

theorem Segment.snoc (h : Segment next x xs) : Segment next (next x) (xs ++ [x]) := by
  induction xs with
  | nil => exact ⟨rfl, trivial⟩
  | cons y ys ih =>
    refine ⟨h.1.trans ?_, ih h.2⟩
    cases ys <;> rfl

theorem Segment.chain (h : Segment next nil xs) (hnil : ∀ x ∈ xs, x ≠ nil) :
    Chain nil next (xs.headD nil) xs := by
  induction xs with
  | nil => exact .nil
  | cons x xs ih =>
    change Chain nil next x (x :: xs)
    refine .cons (hnil x List.mem_cons_self) ?_
    rw [h.1]
    exact ih h.2 fun y hy => hnil y (List.mem_cons_of_mem x hy)

/-- A chain of blocks in hand goes on top of a stack. -/
theorem Ledger.splice [DecidableEq κ] (h : Ledger nil fits blk next head L held) (hnodup : xs.Nodup)
    (hheld : ∀ x ∈ xs, x ∈ held) (hnil : ∀ x ∈ xs, x ≠ nil)
    (hfits : ∀ x ∈ xs, ∀ g, blk x = some g → fits k g) (hseg : Segment next (head k) xs) :
    Ledger nil fits blk next (update head k (xs.headD (head k)))
      (update L k (xs ++ L k)) (held \ {x | x ∈ xs}) := by
  induction xs with
  | nil => simpa using h
  | cons x xs ih =>
    obtain ⟨hx, hrest⟩ := List.nodup_cons.1 hnodup
    have htail := ih hrest (fun y hy => hheld y (List.mem_cons_of_mem x hy))
      (fun y hy => hnil y (List.mem_cons_of_mem x hy))
      (fun y hy => hfits y (List.mem_cons_of_mem x hy)) hseg.2
    have hpush := htail.push (x := x) (k := k) ⟨hheld x List.mem_cons_self, hx⟩
      (hnil x List.mem_cons_self) (hfits x List.mem_cons_self)
      (by rw [update_self]; exact hseg.1)
    rw [update_idem, update_idem, update_self] at hpush
    have hset : (held \ {y | y ∈ xs}) \ {x} = held \ {y | y ∈ x :: xs} := by
      ext y
      simp only [Set.mem_sdiff, Set.mem_ofPred_eq, Set.mem_singleton_iff, List.mem_cons, not_or]
      tauto
    rw [hset] at hpush
    exact hpush

end StackLedger
