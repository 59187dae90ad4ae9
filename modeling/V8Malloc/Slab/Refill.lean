import V8Malloc.Heap.Gather
import V8Malloc.Slab.PoolFree

/-!
# Refills from the slab pool

The refill loop draws objects one by one and links each in front of those
before it. What it returns is a chain of new blocks of the class, all in hand,
with every block that was in hand before untouched.
-/
namespace V8Malloc

open ByteMemory LinkedList StackLedger

variable {κ : Type} {fits : κ → Grant → Prop} {h : Heap} {head : κ → ℕ} {L : κ → List ℕ}
variable {blk : Blocks} {held : Set ℕ} {arena cls : ℕ} {src : List ℕ}

def slabGrant (cls arena : ℕ) : Grant := ⟨sizeClassSize cls, .slab cls arena⟩

/-- What drawing one object leaves. -/
structure DrawnOne (fits : κ → Grant → Prop) (h : Heap) (head : κ → ℕ) (L : κ → List ℕ)
    (blk : Blocks) (held : Set ℕ) (g : Grant) (ptr : ℕ) (h' : Heap) : Prop where
  account : Account fits h' head L (grantAfter blk ptr g) (Account.heldAfter held ptr)
  carried : Carried held blk h.mem (grantAfter blk ptr g) h'.mem
  fresh : ptr ≠ 0 → blk ptr = none

theorem slabPoolDraw_account (uafActive : Bool) (cpu : ℕ) (hacc : Account fits h head L blk held)
    (harena : arena < arenaCount) (hcls : cls < mediumFirstClass) (hlegal : LegalPages h src) :
    Returns (uafActive = true) (slabPoolDraw uafActive cpu h arena cls src) fun out =>
      DrawnOne fits h head L blk held (slabGrant cls arena) out.1 out.2.1 ∧
        Drew arena h src out.2.1 out.2.2 := by
  apply (slabPoolDraw_spec uafActive cpu hacc.inv harena hcls hlegal).mono
  intro out hout
  obtain ⟨hacc', hcarried⟩ := hacc.draw hout.inv hout.fresh hout.preserved
  exact ⟨⟨hacc', hcarried, hout.fresh⟩, hout.drew⟩

/-- The loop ends after at most `left` draws. -/
theorem slabPoolBatchLoop_spec (uafActive : Bool) (cpu : ℕ) (harena : arena < arenaCount)
    (hcls : cls < mediumFirstClass) (left : ℕ) :
    ∀ {batch : Batch} {h : Heap} {src xs : List ℕ} {blk : Blocks},
      InHand fits head L h blk held (slabGrant cls arena) 0 batch xs → LegalPages h src →
      Returns (uafActive = true) (slabPoolBatchLoop uafActive cpu arena cls left batch h src)
        fun out => out.1.count ≤ batch.count + left ∧ Drew arena h src out.2.1 out.2.2 ∧
          ∃ blk' xs', InHand fits head L out.2.1 blk' held (slabGrant cls arena) 0 out.1 xs' ∧
            Carried held blk h.mem blk' out.2.1.mem := by
  induction left with
  | zero =>
    intro batch h src xs blk hi hlegal
    exact returns_ok ⟨le_rfl, hlegal.drew (.refl h) id, blk, xs, hi, Carried.refl _ _ _⟩
  | succ left ih =>
    intro batch h src xs blk hi hlegal
    simp only [slabPoolBatchLoop]
    apply (slabPoolDraw_account uafActive cpu hi.account harena hcls hlegal).bind
    rintro ⟨obj, h', src'⟩ ⟨hd, hdrew⟩
    have hacc := hd.account
    have hcarried := hd.carried
    dsimp only at hacc hcarried hdrew ⊢
    by_cases h0 : obj = 0
    · rw [if_pos h0]
      simp only [grantAfter, Account.heldAfter, if_pos h0] at hacc hcarried
      exact returns_ok ⟨Nat.le_add_right _ _, hdrew, blk, xs,
        hi.follow hacc hi.fresh (hcarried.mono Set.subset_union_right),
        hcarried.mono Set.subset_union_left⟩
    · rw [if_neg h0]
      simp only [grantAfter, Account.heldAfter, if_neg h0] at hacc hcarried
      have hnew : obj ∉ held ∪ {x | x ∈ xs} := by
        intro hmem
        obtain ⟨g, hg⟩ := hi.account.grant_of_held hmem
        rw [hd.fresh h0] at hg
        cases hg
      have hi' := hi.grow hacc hnew (hcarried.mono Set.subset_union_right)
      obtain ⟨hi'', hlink⟩ := hi'.cons (fun hmem => hnew (Set.mem_union_left _ hmem))
        (Function.update_self obj _ blk)
      -- the link goes into the object just drawn
      have hwrite := hdrew.write fun _ hx =>
        hacc.inv.link_inside (Function.update_self obj _ blk) batch.head hx
      apply (ih hi'' hwrite.legal).mono
      rintro out ⟨hcount, hdrew₃, blk', xs', hi₃, hcarried₃⟩
      refine ⟨by dsimp only at hcount; omega, hwrite.trans hdrew₃, blk', xs', hi₃, ?_⟩
      exact ((hcarried.mono Set.subset_union_left).trans hlink).trans hcarried₃

theorem slabPoolAllocBatch_spec (uafActive : Bool) (cpu max : ℕ)
    (hacc : Account fits h head L blk held) (harena : arena < arenaCount)
    (hlegal : LegalPages h src) :
    Returns (uafActive = true) (slabPoolAllocBatch uafActive cpu h arena cls max src) fun out =>
      out.1.count ≤ max ∧ Drew arena h src out.2.1 out.2.2 ∧
        ∃ blk' xs, InHand fits head L out.2.1 blk' held (slabGrant cls arena) 0 out.1 xs ∧
          Carried held blk h.mem blk' out.2.1.mem := by
  have hempty := inHand_nil hacc (slabGrant cls arena) 0
  unfold slabPoolAllocBatch
  split_ifs with hnone
  · exact returns_ok ⟨Nat.zero_le _, hlegal.drew (.refl h) id, blk, [], hempty,
      Carried.refl _ _ _⟩
  · have hcls : cls < mediumFirstClass := by omega
    simpa using slabPoolBatchLoop_spec uafActive cpu harena hcls max hempty hlegal

theorem slabPoolAllocArena_account (uafActive : Bool) (cpu : ℕ)
    (hacc : Account fits h head L blk held) (harena : arena < arenaCount)
    (hlegal : LegalPages h src) :
    Returns (uafActive = true) (slabPoolAllocArena uafActive cpu h arena cls src) fun out =>
      DrawnOne fits h head L blk held (slabGrant cls arena) out.1 out.2.1 ∧
        Drew arena h src out.2.1 out.2.2 := by
  unfold slabPoolAllocArena
  split_ifs with hbig
  · refine returns_ok ⟨⟨?_, ?_, fun hne => absurd rfl hne⟩, hlegal.drew (.refl h) id⟩
    · simpa [grantAfter, Account.heldAfter] using hacc
    · simpa [grantAfter] using Carried.refl held blk h.mem
  · exact slabPoolDraw_account uafActive cpu hacc harena (by omega) hlegal

end V8Malloc
