import V8Malloc.Heap.Steps
import V8Malloc.Lib.StackLedger

/-!
# Blocks in hand and blocks on stacks

The heap knows which blocks are allocated; it does not know who has them. An
account adds that: every block is in hand, or linked on exactly one of a family
of stacks whose links are the first words of the blocks. The lemmas move blocks
between the backends, the stacks and the hand.
-/
namespace V8Malloc

open ByteMemory LinkedList StackLedger Function

variable {κ : Type} {fits : κ → Grant → Prop} {h h' : Heap} {head : κ → ℕ} {L : κ → List ℕ}
variable {blk blk' : Blocks} {held stay : Set ℕ} {a v x : ℕ} {k : κ} {g : Grant} {m' : Mem}

structure Account (fits : κ → Grant → Prop) (h : Heap) (head : κ → ℕ) (L : κ → List ℕ)
    (blk : Blocks) (held : Set ℕ) : Prop where
  inv : HeapInv h blk
  ledger : Ledger 0 fits blk (load64 h.mem) head L held

/-- The blocks of `stay` are still allocated, with the bytes they had. -/
def Carried (stay : Set ℕ) (blk : Blocks) (m : Mem) (blk' : Blocks) (m' : Mem) : Prop :=
  ∀ a ∈ stay, ∀ g, blk a = some g →
    blk' a = some g ∧ ∀ x, a ≤ x → x < a + g.bytes → m' x = m x

theorem Carried.refl (stay : Set ℕ) (blk : Blocks) (m : Mem) : Carried stay blk m blk m :=
  fun _ _ _ hg => ⟨hg, fun _ _ _ => rfl⟩

theorem Carried.trans {blk'' : Blocks} {m m'' : Mem} (h₁ : Carried stay blk m blk' m')
    (h₂ : Carried stay blk' m' blk'' m'') : Carried stay blk m blk'' m'' := by
  intro a ha g hg
  obtain ⟨hg', hbytes⟩ := h₁ a ha g hg
  obtain ⟨hg'', hbytes'⟩ := h₂ a ha g hg'
  exact ⟨hg'', fun x hlo hhi => (hbytes' x hlo hhi).trans (hbytes x hlo hhi)⟩

theorem Carried.mono {stay' : Set ℕ} {m : Mem} (hc : Carried stay blk m blk' m')
    (hsub : stay' ⊆ stay) : Carried stay' blk m blk' m' := fun a ha => hc a (hsub ha)

/-- A block that reaches into an arena is a buddy block. -/
theorem HeapInv.arena_block_page (hh : HeapInv h blk) (hg : blk a = some g) {i : ℕ}
    (hu : h.buddyPool.Used i) (hin : inArenaAt (h.buddyPool.base i) x) (hlo : a ≤ x)
    (hhi : x < a + g.bytes) : buddyMinBlock ∣ a := by
  obtain ⟨k, b, n, hr, hlo', hhi', -, harena, -⟩ := (hh.blockKind hg).region
  have hk : k = .arena := by
    by_contra hk
    have hout := hh.layout.outside_arena hr hk hu hin
    omega
  obtain ⟨live, hpool, hiff⟩ := hh.buddy
  obtain ⟨size, hq, -⟩ := (hiff a g (harena.1 hk)).1 hg
  obtain ⟨j, hu', hin'⟩ := hpool.owned _ hq
  obtain ⟨c, hc, -⟩ := (hpool.arena j hu').bits.block _ ⟨hq, hin'⟩
  obtain ⟨d, hd⟩ := indexToNode_offset (h.buddyPool.heap j).buddy c (sizeToLevel size)
  have halign : buddyMinBlock ∣ (h.buddyPool.heap j).buddy.arenaBase :=
    dvd_trans (by decide) (hpool.arena j hu').inv.arena.aligned
  rw [show a = _ from hc, hd]
  exact (Nat.dvd_add_iff_right halign).1 ⟨d, rfl⟩

/-- Links are user addresses, which are smaller than the magic word. -/
theorem HeapInv.clean_store (hh : HeapInv h blk) (hg : blk a = some g) (hv : v < addressSpace) :
    Clean { h with mem := store64 h.mem a v } := by
  intro i hu b hb hin
  have hsize := (hh.block_bounds hg).2.1
  obtain ⟨live, hpool, -⟩ := hh.buddy
  have halign := hpool.aligned hu
  change inArenaAt (h.buddyPool.base i) b at hin
  change load64 (store64 h.mem a v) b ≠ pageMagic
  by_cases heq : b = a
  · subst heq
    rw [load64_store64_self (lt_trans hv (by decide))]
    exact (lt_trans hv (by decide)).ne
  · have hout : b + 8 ≤ a ∨ a + 8 ≤ b := by
      by_contra hov
      unfold inArenaAt linkBytes pageSize buddyMaxBlock at *
      have hpage := hh.arena_block_page hg hu (x := max a b)
        (by unfold inArenaAt buddyMaxBlock; omega) (by omega) (by omega)
      unfold buddyMinBlock at hpage
      omega
    rw [load64_store64_of_disjoint hout]
    exact hh.clean i hu b hb hin

namespace Account

theorem grant_of_held (hacc : Account fits h head L blk held) (ha : a ∈ held) :
    ∃ g, blk a = some g :=
  Option.ne_none_iff_exists'.1 ((hacc.ledger.allocated a).2 (Or.inl ha))

theorem grant_of_mem (hacc : Account fits h head L blk held) (ha : a ∈ L k) :
    ∃ g, blk a = some g ∧ fits k g := by
  obtain ⟨g, hg⟩ := Option.ne_none_iff_exists'.1
    ((hacc.ledger.allocated a).2 (Or.inr ⟨k, ha⟩))
  exact ⟨g, hg, hacc.ledger.sorted k a ha g hg⟩

theorem ne_zero (hacc : Account fits h head L blk held) (ha : a ∈ held) : a ≠ 0 := by
  obtain ⟨g, hg⟩ := hacc.grant_of_held ha
  exact (hacc.inv.block_bounds hg).1

/-- The link word of a block whose bytes are kept. -/
theorem load64_kept (hacc : Account fits h head L blk held) (hg : blk a = some g)
    (hbytes : ∀ x, a ≤ x → x < a + g.bytes → m' x = h.mem x) :
    load64 m' a = load64 h.mem a := by
  have hsize := (hacc.inv.block_bounds hg).2.1
  unfold linkBytes at hsize
  exact load_congr fun x hlo hhi => hbytes x hlo (by omega)

theorem block_lt (hacc : Account fits h head L blk held) (hg : blk a = some g) :
    a < addressSpace := by
  obtain ⟨-, hsize, hfit⟩ := hacc.inv.block_bounds hg
  unfold linkBytes at hsize
  omega

theorem head_lt (hacc : Account fits h head L blk held) (k : κ) : head k < addressSpace := by
  by_cases h0 : head k = 0
  · rw [h0]
    decide
  · obtain ⟨g, hg, -⟩ := hacc.grant_of_mem ((hacc.ledger.chain k).head_mem h0)
    exact hacc.block_lt hg

/-! ### Blocks from the backends and back -/

/-- The hand once `ptr` was answered. -/
def heldAfter (held : Set ℕ) (ptr : ℕ) : Set ℕ := if ptr = 0 then held else insert ptr held

theorem draw (hacc : Account fits h head L blk held)
    (hinv : HeapInv h' (grantAfter blk a g)) (hfresh : a ≠ 0 → blk a = none)
    (hpres : Preserved blk h.mem h'.mem) :
    Account fits h' head L (grantAfter blk a g) (heldAfter held a) ∧
      Carried held blk h.mem (grantAfter blk a g) h'.mem := by
  have hlinks : ∀ k, ∀ y ∈ L k, load64 h'.mem y = load64 h.mem y := by
    intro k y hy
    obtain ⟨g', hg', -⟩ := hacc.grant_of_mem hy
    exact hacc.load64_kept hg' (hpres y g' hg')
  have hledger := hacc.ledger.congr hlinks
  unfold grantAfter heldAfter at *
  split_ifs at hinv ⊢ with h0
  · exact ⟨⟨hinv, hledger⟩, fun b _ g' hg' => ⟨hg', hpres b g' hg'⟩⟩
  · refine ⟨⟨hinv, hledger.add (hfresh h0) g⟩, fun b _ g' hg' => ⟨?_, hpres b g' hg'⟩⟩
    rw [update_of_ne]
    · exact hg'
    · intro heq
      rw [heq, hfresh h0] at hg'
      cases hg'

theorem release (hacc : Account fits h head L blk held) (ha : a ∈ held)
    (hinv : HeapInv h' (update blk a none))
    (hpres : Preserved (update blk a none) h.mem h'.mem) :
    Account fits h' head L (update blk a none) (held \ {a}) ∧
      Carried (held \ {a}) blk h.mem (update blk a none) h'.mem := by
  have hkept : ∀ b g', b ≠ a → blk b = some g' →
      update blk a none b = some g' := by
    intro b g' hne hg'
    rw [update_of_ne hne]
    exact hg'
  refine ⟨⟨hinv, (hacc.ledger.remove ha).congr fun k y hy => ?_⟩, fun b hb g' hg' => ?_⟩
  · obtain ⟨g', hg', -⟩ := hacc.grant_of_mem hy
    have hne : y ≠ a := by
      rintro rfl
      exact hacc.ledger.apart y ha k hy
    exact hacc.load64_kept hg' (hpres y g' (hkept y g' hne hg'))
  · have hg'' := hkept b g' hb.2 hg'
    exact ⟨hg'', hpres b g' hg''⟩

/-! ### Writes -/

/-- Bytes outside the given blocks are left alone. -/
def OnlyIn (blk : Blocks) (touched : Set ℕ) (m m' : Mem) : Prop :=
  ∀ x, (∀ a ∈ touched, ∀ g, blk a = some g → x < a ∨ a + g.bytes ≤ x) → m' x = m x

/-- Blocks that were not written keep their bytes. -/
theorem untouched_bytes {touched : Set ℕ} (hacc : Account fits h head L blk held)
    (hm : OnlyIn blk touched h.mem m') (hg : blk a = some g) (hout : a ∉ touched) :
    ∀ x, a ≤ x → x < a + g.bytes → m' x = h.mem x := by
  intro x hlo hhi
  refine hm x fun b hb g' hg' => ?_
  have hne : a ≠ b := by
    rintro rfl
    exact hout hb
  have happ := hacc.inv.blocks_apart hg hg' hne
  omega

/-- Writes into blocks in hand that leave no magic word at a page base of an arena. -/
theorem write {touched : Set ℕ} (hacc : Account fits h head L blk held) (hheld : touched ⊆ held)
    (hm : OnlyIn blk touched h.mem m') (hclean : Clean { h with mem := m' }) :
    Account fits { h with mem := m' } head L blk held ∧
      Carried (held \ touched) blk h.mem blk m' := by
  refine ⟨⟨hacc.inv.write (fun x hx => hm x fun b _ g' hg' => hx b g' hg') hclean,
    hacc.ledger.congr fun k y hy => ?_⟩, fun b hb g' hg' => ⟨hg', ?_⟩⟩
  · obtain ⟨g', hg', -⟩ := hacc.grant_of_mem hy
    exact hacc.load64_kept hg' (hacc.untouched_bytes hm hg' fun hy' =>
      hacc.ledger.apart y (hheld hy') k hy)
  · exact hacc.untouched_bytes hm hg' hb.2

/-- A link written into a block in hand. -/
theorem link (hacc : Account fits h head L blk held) (ha : a ∈ held) (hv : v < addressSpace) :
    Account fits { h with mem := store64 h.mem a v } head L blk held ∧
      Carried (held \ {a}) blk h.mem blk (store64 h.mem a v) := by
  obtain ⟨g, hg⟩ := hacc.grant_of_held ha
  have hsize := (hacc.inv.block_bounds hg).2.1
  unfold linkBytes at hsize
  apply hacc.write (Set.singleton_subset_iff.2 ha)
  · intro x hx
    have hout := hx a rfl g hg
    exact sameOutside_store64 h.mem a v x (by omega)
  · exact hacc.inv.clean_store hg hv

theorem load64_link (hv : v < addressSpace) : load64 (store64 h.mem a v) a = v :=
  load64_store64_self (lt_trans hv (by decide))

/-! ### Stacks -/

/-- A block in hand goes on a stack. -/
theorem push [DecidableEq κ] (hacc : Account fits h head L blk held) (ha : a ∈ held)
    (hfits : ∀ g, blk a = some g → fits k g) :
    Account fits { h with mem := store64 h.mem a (head k) } (update head k a)
        (update L k (a :: L k)) blk (held \ {a}) ∧
      Carried (held \ {a}) blk h.mem blk (store64 h.mem a (head k)) := by
  obtain ⟨hlink, hcarried⟩ := hacc.link ha (hacc.head_lt k)
  exact ⟨⟨hlink.inv, hlink.ledger.push ha (hacc.ne_zero ha) hfits (load64_link (hacc.head_lt k))⟩,
    hcarried⟩

/-- The top of a stack comes to hand. -/
theorem pop [DecidableEq κ] (hacc : Account fits h head L blk held) (hne : head k ≠ 0) :
    ∃ xs, L k = head k :: xs ∧ head k ∉ held ∧ (∃ g, blk (head k) = some g ∧ fits k g) ∧
      Account fits h (update head k (load64 h.mem (head k))) (update L k xs) blk
        (insert (head k) held) := by
  obtain ⟨xs, hL, hnot, hledger⟩ := hacc.ledger.pop hne
  have hmem : head k ∈ L k := hL ▸ List.mem_cons_self
  exact ⟨xs, hL, hnot, hacc.grant_of_mem hmem, hacc.inv, hledger⟩

end Account

end V8Malloc
