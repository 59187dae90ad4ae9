import Mathlib.Tactic

/-!
# Linked lists given by link functions

`Chain` walks a singly linked list from its head. `Linked` is the local part
of a doubly linked list: forward and backward links of the members agree. It
does not say that every member can be reached from the head; `Complete` does.
-/
namespace LinkedList

open Function

variable {α : Type*} {nil : α} {next next' prev prev' : α → α} {head x : α} {F : Set α}
variable {xs ys : List α}

/-- The walk from a node up to `nil` visits exactly the listed nodes. -/
inductive Chain (nil : α) (next : α → α) : α → List α → Prop
  | nil : Chain nil next nil []
  | cons {x : α} {xs : List α} : x ≠ nil → Chain nil next (next x) xs → Chain nil next x (x :: xs)

theorem Chain.head_eq (h : Chain nil next x xs) : x = xs.headD nil := by
  cases h <;> rfl

theorem Chain.nil_iff (h : Chain nil next x xs) : x = nil ↔ xs = [] := by
  cases h with
  | nil => simp
  | cons hne _ => simp [hne]

theorem Chain.ne_nil (h : Chain nil next x xs) {y : α} (hy : y ∈ xs) : y ≠ nil := by
  induction h with
  | nil => cases hy
  | cons hne _ ih =>
    rcases List.mem_cons.1 hy with rfl | hmem
    · exact hne
    · exact ih hmem

theorem Chain.head_mem (h : Chain nil next x xs) (hne : x ≠ nil) : x ∈ xs := by
  cases h with
  | nil => exact absurd rfl hne
  | cons _ _ => exact List.mem_cons_self

theorem Chain.uncons (h : Chain nil next x xs) (hne : x ≠ nil) :
    ∃ rest, xs = x :: rest ∧ Chain nil next (next x) rest := by
  cases h with
  | nil => exact absurd rfl hne
  | cons _ htail => exact ⟨_, rfl, htail⟩

theorem Chain.unique (h : Chain nil next x xs) (h' : Chain nil next x ys) : xs = ys := by
  induction h generalizing ys with
  | nil => exact (h'.nil_iff.1 rfl).symm
  | cons hne _ ih =>
    cases h' with
    | nil => exact absurd rfl hne
    | cons _ htail => rw [ih htail]

theorem Chain.congr (h : Chain nil next x xs) (heq : ∀ y ∈ xs, next' y = next y) :
    Chain nil next' x xs := by
  induction h with
  | nil => exact .nil
  | @cons x xs hne _ ih =>
    refine .cons hne ?_
    rw [heq x List.mem_cons_self]
    exact ih fun y hy => heq y (List.mem_cons_of_mem _ hy)

/-- A member of a chain starts the rest of it. -/
theorem Chain.suffix (h : Chain nil next x xs) {y : α} (hy : y ∈ xs) :
    ∃ zs, Chain nil next y (y :: zs) ∧ (y :: zs).length ≤ xs.length := by
  induction h with
  | nil => cases hy
  | @cons x xs hne htail ih =>
    rcases List.mem_cons.1 hy with rfl | hmem
    · exact ⟨xs, .cons hne htail, le_rfl⟩
    · obtain ⟨zs, hzs, hlen⟩ := ih hmem
      exact ⟨zs, hzs, hlen.trans (Nat.le_succ _)⟩

theorem Chain.nodup (h : Chain nil next x xs) : xs.Nodup := by
  induction h with
  | nil => exact List.nodup_nil
  | @cons x xs hne htail ih =>
    refine List.nodup_cons.2 ⟨fun hmem => ?_, ih⟩
    obtain ⟨zs, hzs, hlen⟩ := htail.suffix hmem
    obtain rfl := List.cons.inj ((Chain.cons hne htail).unique hzs) |>.2
    simp at hlen

/-- A chain that would end at `z` goes on with the chain `z` links to. -/
theorem Chain.splice [DecidableEq α] {z : α} (h : Chain nil (update next z nil) x xs)
    (hz : z ∈ xs) (hys : Chain nil next (next z) ys) : Chain nil next x (xs ++ ys) := by
  induction h with
  | nil => cases hz
  | @cons x xs hne htail ih =>
    by_cases hx : x = z
    · subst hx
      rw [update_self] at htail
      cases htail with
      | nil => exact .cons hne hys
      | cons hnil => exact absurd rfl hnil
    · rw [update_of_ne hx] at ih
      have hmem : z ∈ xs := (List.mem_cons.1 hz).resolve_left fun heq => hx heq.symm
      exact .cons hne (ih hmem)

/-- The nodes met in at most `n` steps from a node. -/
def walk [DecidableEq α] (nil : α) (next : α → α) : ℕ → α → List α
  | 0, _ => []
  | n + 1, x => if x = nil then [] else x :: walk nil next n (next x)

theorem Chain.walk_eq [DecidableEq α] (h : Chain nil next x xs) :
    ∀ {n : ℕ}, xs.length ≤ n → walk nil next n x = xs := by
  induction h with
  | nil =>
    intro n _
    cases n <;> simp [walk]
  | cons hne _ ih =>
    intro n hle
    cases n with
    | zero => simp at hle
    | succ n => simp [walk, hne, ih (Nat.le_of_succ_le_succ hle)]

/-- Takes `z` out of a list, in at most `n` steps from its start: the new start, and the links
with the one before `z` redirected. -/
def cutOut [DecidableEq α] (nil : α) (next : α → α) (z : α) : ℕ → α → α × (α → α)
  | 0, x => (x, next)
  | n + 1, x =>
    if x = nil then (x, next)
    else if x = z then (next x, next)
    else
      let rest := cutOut nil next z n (next x)
      (x, update rest.2 x rest.1)

theorem Chain.cutOut [DecidableEq α] (h : Chain nil next x xs) (z : α) :
    ∀ {n : ℕ}, xs.length ≤ n →
      Chain nil (cutOut nil next z n x).2 (cutOut nil next z n x).1 (xs.erase z) ∧
        ∀ y, y ∉ xs.erase z → (cutOut nil next z n x).2 y = next y := by
  induction h with
  | nil =>
    intro n _
    cases n <;> simp [LinkedList.cutOut, Chain.nil]
  | @cons x xs hne htail ih =>
    intro n hn
    cases n with
    | zero => simp at hn
    | succ n =>
      obtain ⟨hchain, hframe⟩ := ih (Nat.le_of_succ_le_succ hn)
      have hfresh : x ∉ xs := (List.nodup_cons.1 (Chain.cons hne htail).nodup).1
      by_cases hx : x = z
      · subst hx
        simpa [LinkedList.cutOut, hne] using htail
      · have herase : (x :: xs).erase z = x :: xs.erase z := List.erase_cons_tail (by simpa using hx)
        rw [herase]
        simp only [LinkedList.cutOut, hne, hx, if_false]
        constructor
        · refine .cons hne ?_
          rw [update_self]
          refine hchain.congr fun y hy => update_of_ne ?_ _ _
          rintro rfl
          exact hfresh (List.mem_of_mem_erase hy)
        · intro y hy
          rw [List.mem_cons, not_or] at hy
          rw [update_of_ne hy.1, hframe y hy.2]

theorem Chain.next_mem (h : Chain nil next x xs) {y : α} (hy : y ∈ xs) (hne : next y ≠ nil) :
    next y ∈ xs := by
  induction h with
  | nil => cases hy
  | @cons x xs _ htail ih =>
    rcases List.mem_cons.1 hy with rfl | hmem
    · cases htail with
      | nil => exact absurd rfl hne
      | cons _ _ => simp
    · exact List.mem_cons_of_mem _ (ih hmem)

/-- Members of `F` with links that agree in both directions. -/
structure Linked (nil : α) (next prev : α → α) (head : α) (F : Set α) : Prop where
  nil_not_mem : nil ∉ F
  head_mem : head ≠ nil → head ∈ F
  head_prev : head ≠ nil → prev head = nil
  next_mem : ∀ y ∈ F, next y ≠ nil → next y ∈ F ∧ prev (next y) = y
  prev_mem : ∀ y ∈ F, prev y ≠ nil → prev y ∈ F ∧ next (prev y) = y

/-- Every member is reached from the head. -/
def Complete (nil : α) (next : α → α) (head : α) (F : Set α) : Prop :=
  ∃ L, Chain nil next head L ∧ ∀ y ∈ F, y ∈ L

theorem linked_empty : Linked nil next prev nil ∅ where
  nil_not_mem := id
  head_mem := fun h => absurd rfl h
  head_prev := fun h => absurd rfl h
  next_mem := fun _ h => h.elim
  prev_mem := fun _ h => h.elim

theorem complete_empty : Complete nil next nil ∅ := ⟨[], .nil, fun _ h => h.elim⟩

theorem Linked.ne_nil (h : Linked nil next prev head F) {y : α} (hy : y ∈ F) : y ≠ nil := by
  rintro rfl
  exact h.nil_not_mem hy

theorem Linked.chain_subset (h : Linked nil next prev head F) (hx : x ≠ nil → x ∈ F)
    (hc : Chain nil next x xs) : ∀ y ∈ xs, y ∈ F := by
  induction hc with
  | nil => simp
  | @cons x xs hne _ ih =>
    intro y hy
    rcases List.mem_cons.1 hy with rfl | hmem
    · exact hx hne
    · exact ih (fun hn => (h.next_mem x (hx hne) hn).1) y hmem

/-- A node without predecessor is met by a walk only at its start. -/
theorem Linked.not_mem_chain_of_prev_eq_nil (h : Linked nil next prev head F) (hx : x ∈ F)
    (hfirst : prev x = nil) {a : α} (hc : Chain nil next a xs) :
    (a ≠ nil → a ∈ F) → a ≠ x → x ∉ xs := by
  induction hc with
  | nil => simp
  | @cons a xs hne htail ih =>
    intro ha hax hmem
    rcases List.mem_cons.1 hmem with heq | hin
    · exact hax heq.symm
    · refine ih (fun hn => (h.next_mem a (ha hne) hn).1) ?_ hin
      intro heq
      have hback := (h.next_mem a (ha hne) (heq ▸ h.ne_nil hx)).2
      rw [heq, hfirst] at hback
      exact hne hback.symm

/-- A walk over finitely many members ends: the nodes behind it form a chain of
backward links, which cannot repeat a node. -/
theorem Linked.exists_chain_from (h : Linked nil next prev head F) (s : Finset α)
    (hs : ∀ y ∈ F, y ∈ s) (n : ℕ) : ∀ (a : α) (behind : List α),
    Chain nil prev (behind.headD nil) behind → (∀ y ∈ behind, y ∈ F) →
      (a ≠ nil → a ∈ F ∧ prev a = behind.headD nil) → s.card ≤ behind.length + n →
      ∃ L, Chain nil next a L := by
  induction n with
  | zero =>
    intro a behind hback hmem ha hcard
    by_cases hnil : a = nil
    · exact ⟨[], hnil ▸ .nil⟩
    · obtain ⟨haF, hprev⟩ := ha hnil
      have hchain : Chain nil prev a (a :: behind) := .cons hnil (hprev ▸ hback)
      have hsub : (a :: behind) ⊆ s.toList := by
        intro y hy
        rcases List.mem_cons.1 hy with rfl | hin
        · exact Finset.mem_toList.2 (hs y haF)
        · exact Finset.mem_toList.2 (hs y (hmem y hin))
      have hlen := (List.subperm_of_subset hchain.nodup hsub).length_le
      simp only [List.length_cons, Finset.length_toList] at hlen
      omega
  | succ n ih =>
    intro a behind hback hmem ha hcard
    by_cases hnil : a = nil
    · exact ⟨[], hnil ▸ .nil⟩
    · obtain ⟨haF, hprev⟩ := ha hnil
      obtain ⟨L, hL⟩ := ih (next a) (a :: behind) (.cons hnil (hprev ▸ hback))
        (fun y hy => (List.mem_cons.1 hy).elim (fun heq => heq ▸ haF) (hmem y))
        (fun hn => h.next_mem a haF hn) (by simp only [List.length_cons]; omega)
      exact ⟨a :: L, .cons hnil hL⟩

theorem Linked.exists_chain (h : Linked nil next prev head F) (s : Finset α)
    (hs : ∀ y ∈ F, y ∈ s) : ∃ L, Chain nil next head L :=
  h.exists_chain_from s hs s.card head [] .nil (by simp)
    (fun hne => ⟨h.head_mem hne, h.head_prev hne⟩) (by simp)

theorem Linked.congr (h : Linked nil next prev head F) (hn : ∀ y ∈ F, next' y = next y)
    (hp : ∀ y ∈ F, prev' y = prev y) : Linked nil next' prev' head F where
  nil_not_mem := h.nil_not_mem
  head_mem := h.head_mem
  head_prev := fun hne => (hp _ (h.head_mem hne)).trans (h.head_prev hne)
  next_mem := by
    intro y hy hne
    rw [hn y hy] at hne ⊢
    obtain ⟨hmem, hback⟩ := h.next_mem y hy hne
    exact ⟨hmem, (hp _ hmem).trans hback⟩
  prev_mem := by
    intro y hy hne
    rw [hp y hy] at hne ⊢
    obtain ⟨hmem, hback⟩ := h.prev_mem y hy hne
    exact ⟨hmem, (hn _ hmem).trans hback⟩

theorem Linked.complete_congr (h : Linked nil next prev head F) (hc : Complete nil next head F)
    (hn : ∀ y ∈ F, next' y = next y) : Complete nil next' head F := by
  obtain ⟨L, hL, hall⟩ := hc
  exact ⟨L, hL.congr fun y hy => hn y (h.chain_subset h.head_mem hL y hy), hall⟩

/-! ### Pushing and removing -/

theorem Linked.complete_push (h : Linked nil next prev head F) (hc : Complete nil next head F)
    (hnil : x ≠ nil) (hself : next' x = head) (hn : ∀ y ∈ F, next' y = next y) :
    Complete nil next' x (insert x F) := by
  obtain ⟨L, hL, hall⟩ := hc
  refine ⟨x :: L, .cons hnil ?_, ?_⟩
  · rw [hself]
    exact hL.congr fun y hy => hn y (h.chain_subset h.head_mem hL y hy)
  · rintro y (rfl | hy)
    · exact List.mem_cons_self
    · exact List.mem_cons_of_mem _ (hall y hy)

section Operations

variable [DecidableEq α]

theorem Linked.push (h : Linked nil next prev head F) (hx : x ∉ F) (hnil : x ≠ nil)
    (hself : next' x = head ∧ prev' x = nil) (hn : ∀ y ∈ F, next' y = next y)
    (hp : ∀ y ∈ F, prev' y = if y = head then x else prev y) :
    Linked nil next' prev' x (insert x F) where
  nil_not_mem := by
    rintro (rfl | hmem)
    · exact hnil rfl
    · exact h.nil_not_mem hmem
  head_mem := fun _ => Set.mem_insert _ _
  head_prev := fun _ => hself.2
  next_mem := by
    rintro y (rfl | hy) hne
    · rw [hself.1] at hne ⊢
      have hmem := h.head_mem hne
      exact ⟨Or.inr hmem, by rw [hp _ hmem, if_pos rfl]⟩
    · rw [hn y hy] at hne ⊢
      obtain ⟨hmem, hback⟩ := h.next_mem y hy hne
      refine ⟨Or.inr hmem, ?_⟩
      -- a successor has a predecessor, so it is not the old head
      have hnot : next y ≠ head := by
        intro heq
        rw [heq, h.head_prev (heq ▸ hne)] at hback
        exact h.ne_nil hy hback.symm
      rw [hp _ hmem, if_neg hnot, hback]
  prev_mem := by
    rintro y (rfl | hy) hne
    · exact absurd hself.2 hne
    · rw [hp y hy] at hne ⊢
      split_ifs at hne ⊢ with heq
      · exact ⟨Or.inl rfl, by rw [hself.1, heq]⟩
      · obtain ⟨hmem, hback⟩ := h.prev_mem y hy hne
        exact ⟨Or.inr hmem, by rw [hn _ hmem, hback]⟩

/-- The head after unlinking `x`. -/
def unlinkHead (nil : α) (next prev : α → α) (head x : α) : α :=
  if prev x = nil then next x else head

theorem Linked.remove (h : Linked nil next prev head F) (hx : x ∈ F)
    (hn : ∀ y ∈ F, y ≠ x → next' y = if y = prev x then next x else next y)
    (hp : ∀ y ∈ F, y ≠ x → prev' y = if y = next x then prev x else prev y) :
    Linked nil next' prev' (unlinkHead nil next prev head x) (F \ {x}) := by
  have hxnil := h.ne_nil hx
  refine ⟨fun hmem => h.nil_not_mem hmem.1, ?_, ?_, ?_, ?_⟩
  · intro hne
    unfold unlinkHead at hne ⊢
    split_ifs at hne ⊢ with hfirst
    · obtain ⟨hmem, hback⟩ := h.next_mem x hx hne
      refine ⟨hmem, fun heq => hxnil ?_⟩
      rw [← hback, heq, hfirst]
    · refine ⟨h.head_mem hne, ?_⟩
      rintro rfl
      exact hfirst (h.head_prev hne)
  · intro hne
    unfold unlinkHead at hne ⊢
    split_ifs at hne ⊢ with hfirst
    · obtain ⟨hmem, hback⟩ := h.next_mem x hx hne
      have hnx : next x ≠ x := fun heq => hxnil (by rw [← hback, heq, hfirst])
      rw [hp _ hmem hnx, if_pos rfl, hfirst]
    · have hhx : head ≠ x := by
        rintro rfl
        exact hfirst (h.head_prev hne)
      have hhn : head ≠ next x := by
        intro heq
        have hback := (h.next_mem x hx (heq ▸ hne)).2
        rw [← heq, h.head_prev hne] at hback
        exact hxnil hback.symm
      rw [hp _ (h.head_mem hne) hhx, if_neg hhn, h.head_prev hne]
  · rintro y ⟨hy, hyx⟩ hne
    rw [hn y hy hyx] at hne ⊢
    split_ifs at hne ⊢ with hpre
    · obtain ⟨hmem, hback⟩ := h.next_mem x hx hne
      have hnx : next x ≠ x := fun heq =>
        hyx (hpre.trans ((congrArg prev heq).symm.trans hback))
      exact ⟨⟨hmem, hnx⟩, by rw [hp _ hmem hnx, if_pos rfl, hpre]⟩
    · obtain ⟨hmem, hback⟩ := h.next_mem y hy hne
      have hnx : next y ≠ x := fun heq => hpre (by rw [← hback, heq])
      have hnn : next y ≠ next x := by
        intro heq
        have hback' := (h.next_mem x hx (heq ▸ hne)).2
        rw [← heq, hback] at hback'
        exact hyx hback'
      exact ⟨⟨hmem, hnx⟩, by rw [hp _ hmem hnx, if_neg hnn, hback]⟩
  · rintro y ⟨hy, hyx⟩ hne
    rw [hp y hy hyx] at hne ⊢
    split_ifs at hne ⊢ with hsuc
    · obtain ⟨hmem, hback⟩ := h.prev_mem x hx hne
      have hpx : prev x ≠ x := fun heq =>
        hyx (hsuc.trans ((congrArg next heq).symm.trans hback))
      exact ⟨⟨hmem, hpx⟩, by rw [hn _ hmem hpx, if_pos rfl, hsuc]⟩
    · obtain ⟨hmem, hback⟩ := h.prev_mem y hy hne
      have hpx : prev y ≠ x := fun heq => hsuc (by rw [← hback, heq])
      have hpp : prev y ≠ prev x := by
        intro heq
        have hback' := (h.prev_mem x hx (heq ▸ hne)).2
        rw [← heq, hback] at hback'
        exact hyx hback'
      exact ⟨⟨hmem, hpx⟩, by rw [hn _ hmem hpx, if_neg hpp, hback]⟩

/-- Walking past an unlinked node: the walk from any other start skips it. -/
theorem Linked.chain_unlink (h : Linked nil next prev head F) (hx : x ∈ F)
    (hn : ∀ y ∈ F, y ≠ x → next' y = if y = prev x then next x else next y) {a : α}
    (ha : a ≠ nil → a ∈ F) (hax : a ≠ x) (hc : Chain nil next a xs) :
    Chain nil next' a (xs.erase x) := by
  induction hc with
  | nil => exact .nil
  | @cons a xs hne htail ih =>
    have haF := ha hne
    have htailF : next a ≠ nil → next a ∈ F := fun hn' => (h.next_mem a haF hn').1
    rw [List.erase_cons_tail (by simpa using hax)]
    refine .cons hne ?_
    rw [hn a haF hax]
    by_cases hstep : next a = x
    · have hpre : a = prev x := by
        rw [← hstep]
        exact ((h.next_mem a haF (hstep ▸ h.ne_nil hx)).2).symm
      rw [if_pos hpre]
      rw [hstep] at htail
      cases htail with
      | nil => exact absurd rfl (h.ne_nil hx)
      | @cons _ ys _ hrest =>
        have hnot : x ∉ ys := (List.nodup_cons.1 (Chain.cons (h.ne_nil hx) hrest).nodup).1
        rw [List.erase_cons_head]
        refine hrest.congr fun y hy => ?_
        have hyF := h.chain_subset (fun hn' => (h.next_mem x hx hn').1) hrest y hy
        have hyx : y ≠ x := fun heq => hnot (heq ▸ hy)
        rw [hn y hyF hyx, if_neg]
        rintro rfl
        exact hnot ((h.prev_mem x hx (h.ne_nil hyF)).2 ▸ hrest.next_mem hy
          ((h.prev_mem x hx (h.ne_nil hyF)).2.symm ▸ h.ne_nil hx))
    · have hpre : a ≠ prev x := by
        rintro rfl
        exact hstep (h.prev_mem x hx hne).2
      rw [if_neg hpre]
      exact ih htailF hstep

theorem Linked.complete_remove (h : Linked nil next prev head F) (hc : Complete nil next head F)
    (hx : x ∈ F)
    (hn : ∀ y ∈ F, y ≠ x → next' y = if y = prev x then next x else next y) :
    Complete nil next' (unlinkHead nil next prev head x) (F \ {x}) := by
  obtain ⟨L, hL, hall⟩ := hc
  have hmem : ∀ y ∈ F \ {x}, y ∈ L.erase x := fun y hy =>
    (List.mem_erase_of_ne hy.2).2 (hall y hy.1)
  refine ⟨L.erase x, ?_, hmem⟩
  unfold unlinkHead
  by_cases hhead : head = x
  · subst hhead
    rw [if_pos (h.head_prev (h.ne_nil hx))]
    cases hL with
    | nil => exact absurd rfl (h.ne_nil hx)
    | @cons _ ys hne hrest =>
      have hnot : head ∉ ys := (List.nodup_cons.1 (Chain.cons hne hrest).nodup).1
      rw [List.erase_cons_head]
      refine hrest.congr fun y hy => ?_
      have hyF := h.chain_subset (fun hn' => (h.next_mem head hx hn').1) hrest y hy
      rw [hn y hyF (fun heq => hnot (heq ▸ hy)), if_neg]
      rw [h.head_prev hne]
      exact h.ne_nil hyF
  · have hpre : prev x ≠ nil := fun hfirst =>
      h.not_mem_chain_of_prev_eq_nil hx hfirst hL h.head_mem hhead (hall x hx)
    rw [if_neg hpre]
    exact h.chain_unlink hx hn h.head_mem hhead hL

end Operations

/-! ### Families of lists -/

section Family

variable {κ : Type*} {heads : κ → α} {M : κ → Set α} {l : κ}

/-- Lists with disjoint members, kept by the same link functions. -/
structure Family (nil : α) (next prev : α → α) (heads : κ → α) (M : κ → Set α) : Prop where
  linked : ∀ k, Linked nil next prev (heads k) (M k)
  disjoint : ∀ {k k' x}, x ∈ M k → x ∈ M k' → k = k'

def FamilyComplete (nil : α) (next : α → α) (heads : κ → α) (M : κ → Set α) : Prop :=
  ∀ k, Complete nil next (heads k) (M k)

theorem Family.congr (h : Family nil next prev heads M) (hn : ∀ k, ∀ y ∈ M k, next' y = next y)
    (hp : ∀ k, ∀ y ∈ M k, prev' y = prev y) : Family nil next' prev' heads M :=
  ⟨fun k => (h.linked k).congr (hn k) (hp k), h.disjoint⟩

theorem Family.complete_congr (h : Family nil next prev heads M)
    (hc : FamilyComplete nil next heads M) (hn : ∀ k, ∀ y ∈ M k, next' y = next y) :
    FamilyComplete nil next' heads M :=
  fun k => (h.linked k).complete_congr (hc k) (hn k)

variable [DecidableEq α] [DecidableEq κ]

theorem Family.push (h : Family nil next prev heads M) (hx : ∀ k, x ∉ M k) (hnil : x ≠ nil)
    (hself : next' x = heads l ∧ prev' x = nil) (hn : ∀ k, ∀ y ∈ M k, next' y = next y)
    (hp : ∀ k, ∀ y ∈ M k, prev' y = if y = heads l then x else prev y) :
    Family nil next' prev' (update heads l x)
      (update M l (insert x (M l))) where
  linked := by
    intro k
    by_cases hk : k = l
    · subst hk
      simp only [update_self]
      exact (h.linked k).push (hx k) hnil hself (hn k) (hp k)
    · simp only [update_of_ne hk]
      refine (h.linked k).congr (hn k) fun y hy => ?_
      -- the old head of list `l` is on no other list
      rw [hp k y hy, if_neg]
      rintro rfl
      exact hk (h.disjoint hy ((h.linked l).head_mem ((h.linked k).ne_nil hy)))
  disjoint := by
    intro k k' y hk hk'
    have hcase : ∀ {c}, y ∈ update M l (insert x (M l)) c → y = x ∧ c = l ∨ y ∈ M c := by
      intro c hc
      by_cases hcl : c = l
      · subst hcl
        rw [update_self] at hc
        exact hc.imp (fun heq => ⟨heq, rfl⟩) id
      · rw [update_of_ne hcl] at hc
        exact Or.inr hc
    rcases hcase hk with ⟨heq, rfl⟩ | hin <;> rcases hcase hk' with ⟨heq', rfl⟩ | hin'
    · rfl
    · exact absurd (heq ▸ hin') (hx _)
    · exact absurd (heq' ▸ hin) (hx _)
    · exact h.disjoint hin hin'

omit [DecidableEq α] in
theorem Family.complete_push (h : Family nil next prev heads M)
    (hc : FamilyComplete nil next heads M) (hnil : x ≠ nil) (hself : next' x = heads l)
    (hn : ∀ k, ∀ y ∈ M k, next' y = next y) :
    FamilyComplete nil next' (update heads l x)
      (update M l (insert x (M l))) := by
  intro k
  by_cases hk : k = l
  · subst hk
    simp only [update_self]
    exact (h.linked k).complete_push (hc k) hnil hself (hn k)
  · simp only [update_of_ne hk]
    exact (h.linked k).complete_congr (hc k) (hn k)

section Remove

variable (h : Family nil next prev heads M) (hx : x ∈ M l)
    (hn : ∀ k, ∀ y ∈ M k, next' y = if y = prev x then next x else next y)
    (hp : ∀ k, ∀ y ∈ M k, prev' y = if y = next x then prev x else prev y)
include h hx hn

omit [DecidableEq κ] in
/-- Unlinking a node leaves the other lists alone. -/
theorem Family.remove_other_next {k : κ} (hk : k ≠ l) {y : α} (hy : y ∈ M k) :
    next' y = next y := by
  rw [hn k y hy, if_neg]
  rintro rfl
  exact hk (h.disjoint hy ((h.linked l).prev_mem x hx ((h.linked k).ne_nil hy)).1)

theorem Family.complete_remove (hc : FamilyComplete nil next heads M) :
    FamilyComplete nil next' (update heads l (unlinkHead nil next prev (heads l) x))
      (update M l (M l \ {x})) := by
  intro k
  by_cases hk : k = l
  · subst hk
    simp only [update_self]
    exact (h.linked k).complete_remove (hc k) hx fun y hy _ => hn k y hy
  · simp only [update_of_ne hk]
    exact (h.linked k).complete_congr (hc k) fun y hy => h.remove_other_next hx hn hk hy

include hp

theorem Family.remove :
    Family nil next' prev' (update heads l (unlinkHead nil next prev (heads l) x))
      (update M l (M l \ {x})) where
  linked := by
    intro k
    by_cases hk : k = l
    · subst hk
      simp only [update_self]
      exact (h.linked k).remove hx (fun y hy _ => hn k y hy) fun y hy _ => hp k y hy
    · simp only [update_of_ne hk]
      refine (h.linked k).congr (fun y hy => h.remove_other_next hx hn hk hy) fun y hy => ?_
      rw [hp k y hy, if_neg]
      rintro rfl
      exact hk (h.disjoint hy ((h.linked l).next_mem x hx ((h.linked k).ne_nil hy)).1)
  disjoint := by
    intro k k' y hk hk'
    have hcase : ∀ {c}, y ∈ update M l (M l \ {x}) c → y ∈ M c := by
      intro c hc
      by_cases hcl : c = l
      · subst hcl
        rw [update_self] at hc
        exact hc.1
      · rwa [update_of_ne hcl] at hc
    exact h.disjoint (hcase hk) (hcase hk')

end Remove

end Family

end LinkedList
