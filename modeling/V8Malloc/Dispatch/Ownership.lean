import V8Malloc.Dispatch.Runs

/-!
# What programs rely on

Over all runs of the dispatcher: every slot that a slab page counts as used has
one owner, a block covers what was asked for as long as it is held, and an
over-aligned request is answered by an aligned block or not at all.
-/
namespace V8Malloc

open ByteMemory LinkedList StackLedger

variable {w : World} {L : Stack → List ℕ} {blk : Blocks} {call : Call} {size ptr p q b slot : ℕ}
variable {page : PageMeta} {m : Mem} {used : Finset ℕ} {fits : ℕ → Grant → Prop}

/-! ### Used slots as the page sees them -/

/-- The addresses on the free list of a small page. -/
def PageMeta.freeSlots (page : PageMeta) (m : Mem) : List ℕ :=
  walk 0 (load64 m) page.capacity page.freeListHead

/-- The page counts the slot as used: its bit is set, or it is not on the free list. -/
def PageMeta.Uses (page : PageMeta) (m : Mem) (base slot : ℕ) : Prop :=
  slot < page.capacity ∧
    if page.sizeClass < smallFirstClass then Marked page.bitmap slot
    else page.slotAt base slot ∉ page.freeSlots m

theorem SlabPage.freeSlots_iff (hp : SlabPage b page m used)
    (hsmall : smallFirstClass ≤ page.sizeClass) (hslot : slot < page.capacity) :
    page.slotAt b slot ∈ page.freeSlots m ↔ slot ∉ used := by
  obtain ⟨free, hchain, hmem⟩ := hp.small hsmall
  have hsub : free ⊆ (List.range page.capacity).map (page.slotAt b) := by
    intro a ha
    obtain ⟨s, hs, -, rfl⟩ := (hmem a).1 ha
    exact List.mem_map_of_mem (List.mem_range.2 hs)
  have hlen : free.length ≤ page.capacity := by
    simpa using (List.subperm_of_subset hchain.nodup hsub).length_le
  rw [PageMeta.freeSlots, hchain.walk_eq hlen, hmem]
  constructor
  · rintro ⟨s, -, hfree, heq⟩
    rwa [hp.slotAt_inj heq]
  · exact fun hfree => ⟨slot, hslot, hfree, rfl⟩

theorem SlabPage.uses_iff (hp : SlabPage b page m used) : page.Uses m b slot ↔ slot ∈ used := by
  have hbits := (slots_fit hp.cls_lt).2.2.2.1
  rw [← hp.cap_eq] at hbits
  unfold PageMeta.Uses
  split_ifs with htiny
  · constructor
    · rintro ⟨hslot, hmark⟩
      exact ((hp.tiny htiny slot (by omega)).1 hmark).resolve_right (by omega)
    · intro hused
      have hslot := hp.used_lt slot hused
      exact ⟨hslot, (hp.tiny htiny slot (by omega)).2 (Or.inl hused)⟩
  · constructor
    · rintro ⟨hslot, hfree⟩
      by_contra hused
      exact hfree ((hp.freeSlots_iff (Nat.le_of_not_lt htiny) hslot).2 hused)
    · intro hused
      have hslot := hp.used_lt slot hused
      exact ⟨hslot, fun hfree => (hp.freeSlots_iff (Nat.le_of_not_lt htiny) hslot).1 hfree hused⟩

/-! ### One owner -/

/-- Where a used slot can be. -/
inductive Place where
  | program
  | bin (thread : ℕ)
  | core (cpu : ℕ)

def Place.Has (w : World) (L : Stack → List ℕ) (cls x : ℕ) : Place → Prop
  | .program => x ∈ w.pointers
  | .bin thread => x ∈ L (.bin thread cls)
  | .core cpu => x ∈ L (.core cpu cls)

/-- No request is answered with a block that the program holds. -/
def World.AnswersFresh (w : World) : Prop :=
  ∀ {call : Call} {size alignment ptr : ℕ} {s' : Sys}, Legal call w.sys.heap →
    (dispatchAlloc call w.sys size = .ok (ptr, s') ∨
      dispatchAllocAligned call w.sys size alignment = .ok (ptr, s')) → ptr ∉ w.pointers

/-- `L` lists what is linked from each stack, and every used slot has one owner. -/
structure OneOwner (w : World) (L : Stack → List ℕ) : Prop where
  linked : ∀ k, Chain 0 (load64 w.sys.heap.mem) (w.sys.top k) (L k)
  once : ∀ k, (L k).Nodup
  placed : ∀ b page slot, w.sys.heap.heads b = some (.slab page) →
    page.Uses w.sys.heap.mem b slot →
      ∃! place : Place, place.Has w L page.sizeClass (page.slotAt b slot)
  sorted : ∀ place cls x, place ≠ Place.program → place.Has w L cls x →
    ∃ b page slot, w.sys.heap.heads b = some (.slab page) ∧ page.sizeClass = cls ∧
      page.arenaId = arenaDefault ∧ page.Uses w.sys.heap.mem b slot ∧ x = page.slotAt b slot
  apart : ∀ p ∈ w.pointers, ∀ q ∈ w.pointers, p ≠ q →
    p + dispatchUsableSize w.sys.heap p ≤ q ∨ q + dispatchUsableSize w.sys.heap q ≤ p
  fresh : w.AnswersFresh

theorem WorldInv.apart (hw : WorldInv fits w L blk) (hp : p ∈ w.pointers) (hq : q ∈ w.pointers)
    (hne : p ≠ q) :
    p + dispatchUsableSize w.sys.heap p ≤ q ∨ q + dispatchUsableSize w.sys.heap q ≤ p := by
  obtain ⟨g, hg⟩ := hw.inv.account.grant_of_held hp
  obtain ⟨g', hg'⟩ := hw.inv.account.grant_of_held hq
  have hinv := hw.inv.account.inv
  rw [hinv.dispatchUsableSize_eq hg, hinv.dispatchUsableSize_eq hg']
  exact hinv.blocks_apart hg hg' hne

/-- A stack that holds a slot is a bin or a CPU stack of the slot's class. -/
theorem Stack.fits_slab {k : Stack} (hfits : k.fits page.grant) :
    (∃ t, k = .bin t page.sizeClass) ∨ ∃ cpu, k = .core cpu page.sizeClass := by
  cases k with
  | bin t cls =>
    injection congrArg Grant.backend hfits.2 with hcls
    exact Or.inl ⟨t, by rw [hcls]⟩
  | core cpu cls =>
    injection congrArg Grant.backend hfits.2 with hcls
    exact Or.inr ⟨cpu, by rw [hcls]⟩
  | medium t idx => cases congrArg Grant.backend hfits.2

theorem WorldInv.placed (hw : WorldInv fits w L blk)
    (hhead : w.sys.heap.heads b = some (.slab page)) (huses : page.Uses w.sys.heap.mem b slot) :
    ∃! place : Place, place.Has w L page.sizeClass (page.slotAt b slot) := by
  have hledger := hw.inv.account.ledger
  have hinv := hw.inv.account.inv
  obtain ⟨-, used, hpage, hiff⟩ := hinv.headers _ _ hhead
  have hused := hpage.uses_iff.1 huses
  have hbase := hpage.ptrToMeta_slotAt (hinv.layout.fits _ _ _ (.slab hhead)).1
    (hpage.used_lt _ hused)
  have hblk : blk (page.slotAt b slot) = some page.grant :=
    (hiff _ _ hbase).2 ⟨slot, hused, rfl, rfl⟩
  rcases (hledger.allocated _).1 (by rw [hblk]; simp) with hheld | ⟨k, hmem⟩
  · refine ⟨.program, hheld, fun place hplace => ?_⟩
    cases place with
    | program => rfl
    | bin t => exact absurd hplace (hledger.apart _ hheld _)
    | core cpu => exact absurd hplace (hledger.apart _ hheld _)
  · have hnot : page.slotAt b slot ∉ w.pointers := fun hheld => hledger.apart _ hheld k hmem
    rcases Stack.fits_slab (hledger.sorted k _ hmem _ hblk) with ⟨t, rfl⟩ | ⟨cpu, rfl⟩
    · refine ⟨.bin t, hmem, fun place hplace => ?_⟩
      cases place with
      | program => exact absurd hplace hnot
      | bin t' => cases hledger.unique _ _ _ hplace hmem; rfl
      | core cpu => cases hledger.unique _ _ _ hplace hmem
    · refine ⟨.core cpu, hmem, fun place hplace => ?_⟩
      cases place with
      | program => exact absurd hplace hnot
      | bin t => cases hledger.unique _ _ _ hplace hmem
      | core cpu' => cases hledger.unique _ _ _ hplace hmem; rfl

/-- A block with the grant of a slot is a used slot. -/
theorem WorldInv.slot_of_grant {cls x : ℕ} (hw : WorldInv fits w L blk)
    (hg : blk x = some (slabGrant cls arenaDefault)) :
    ∃ b page slot, w.sys.heap.heads b = some (.slab page) ∧ page.sizeClass = cls ∧
      page.arenaId = arenaDefault ∧ page.Uses w.sys.heap.mem b slot ∧ x = page.slotAt b slot := by
  have hinv := hw.inv.account.inv
  obtain ⟨page, hhead, hcls, harena, -⟩ := hinv.slab_header hg
  obtain ⟨-, used, hpage, hiff⟩ := hinv.headers _ _ hhead
  obtain ⟨slot, hused, haddr, -⟩ := (hiff x _ rfl).1 hg
  exact ⟨_, page, slot, hhead, hcls, harena, hpage.uses_iff.2 hused, haddr⟩

theorem WorldInv.fresh {g : Grant} {s' : Sys} (hw : WorldInv fits w L blk)
    (hserved : Served w.sys blk w.pointers g ptr s') : ptr ∉ w.pointers :=
  fun hptr => hserved.fresh (hw.inv.account.ne_zero hptr) hptr

theorem WorldInv.answersFresh (hw : WorldInv fits w L blk) : w.AnswersFresh := by
  intro call size alignment ptr s' hlegal hok
  rcases hok with hok | hok
  · exact hw.fresh ((dispatchAlloc_spec hw.inv hw.calm hlegal _).of_ok hok).served
  · exact hw.fresh ((dispatchAllocAligned_spec hw.inv hw.calm hlegal _ _).of_ok hok).served

/-- No slot has two owners and none is lost. -/
theorem slots_have_one_owner (hw : Reachable w) : ∃ L, OneOwner w L := by
  obtain ⟨L, blk, hinv⟩ := hw.worldInv
  have hledger := hinv.inv.account.ledger
  refine ⟨L, hledger.chain, fun k => (hledger.chain k).nodup, fun b page slot => hinv.placed, ?_,
    fun p hp q hq => hinv.apart hp hq, hinv.answersFresh⟩
  intro place cls x hplace hx
  cases place with
  | program => exact absurd rfl hplace
  | bin t =>
    obtain ⟨g, hg, -, rfl⟩ := hinv.inv.account.grant_of_mem (k := .bin t cls) hx
    exact hinv.slot_of_grant hg
  | core cpu =>
    obtain ⟨g, hg, -, rfl⟩ := hinv.inv.account.grant_of_mem (k := .core cpu cls) hx
    exact hinv.slot_of_grant hg

/-- The first request of 24 bytes draws eight slots, hands out the last and bins the others. -/
theorem slots_have_one_owner_first : ∃ w, Reachable w ∧ w.held 67752 = some 24 ∧
    ∃ L, OneOwner w L := by
  obtain ⟨s', hok⟩ := answers_first
  have hreach : Reachable _ := .alloc (.init emptyPool) legal_firstCall hok
  exact ⟨_, hreach, by simp [World.answer], slots_have_one_owner hreach⟩

/-! ### The size of a block -/

/-- As long as a block is held it covers the request, inside one region and apart from all
others, and is not answered again; the class of a request is the least that holds it. -/
theorem usable_covers_request (hw : Reachable w) :
    (∀ p size, w.held p = some size →
      max size 1 ≤ dispatchUsableSize w.sys.heap p ∧
      (∃ k b n, w.sys.heap.Region k b n ∧ b ≤ p ∧
        p + dispatchUsableSize w.sys.heap p ≤ b + n) ∧
      ∀ q ∈ w.pointers, q ≠ p → p + dispatchUsableSize w.sys.heap p ≤ q ∨
        q + dispatchUsableSize w.sys.heap q ≤ p) ∧
    w.AnswersFresh ∧
    (∀ size ≤ largeMaxSize, sizeClass size < numSizeClasses ∧
      size ≤ sizeClassSize (sizeClass size) ∧ ∀ cls < sizeClass size, sizeClassSize cls < size) ∧
    ∀ size, sizeClass size = classHuge ↔ largeMaxSize < size := by
  obtain ⟨L, blk, hinv⟩ := hw.worldInv
  have hheap := hinv.inv.account.inv
  refine ⟨fun p size hheld => ?_, hinv.answersFresh, fun size hmax => ?_, fun size => ?_⟩
  · have hp := World.mem_pointers hheld
    obtain ⟨g, hg⟩ := hinv.inv.account.grant_of_held hp
    refine ⟨?_, ?_, fun q hq hne => hinv.apart hp hq hne.symm⟩
    · rw [hheap.dispatchUsableSize_eq hg]
      exact hinv.covers p size g hheld hg
    · obtain ⟨k, b, n, hr, hlo, hhi, -⟩ := (hheap.blockKind hg).region
      exact ⟨k, b, n, hr, hlo, by rwa [hheap.dispatchUsableSize_eq hg]⟩
  · rcases Nat.eq_zero_or_pos size with rfl | hpos
    · exact ⟨by decide, Nat.zero_le _, fun cls hlt => absurd hlt (Nat.not_lt_zero cls)⟩
    · exact sizeClass_least hpos hmax
  · rcases Nat.eq_zero_or_pos size with rfl | hpos
    · decide
    · exact sizeClass_huge_iff hpos

theorem usable_covers_request_first : ∃ w, Reachable w ∧ w.held 67752 = some 24 ∧
    24 ≤ dispatchUsableSize w.sys.heap 67752 := by
  obtain ⟨s', hok⟩ := answers_first
  have hreach : Reachable _ := .alloc (.init emptyPool) legal_firstCall hok
  exact ⟨_, hreach, by simp [World.answer],
    ((usable_covers_request hreach).1 67752 24 (by simp [World.answer])).1⟩

/-! ### Over-aligned requests -/

/-- The answer is null, or a block of the alignment and size asked for that was in no hand. -/
theorem overaligned_honoured (hw : Reachable w) (hlegal : Legal call w.sys.heap) (size : ℕ) {e : ℕ}
    (hbig : mallocNaturalAlign < 2 ^ e) :
    Returns (call.uafActive = true) (dispatchAllocAligned call w.sys size (2 ^ e)) fun out =>
      out.1 = 0 ∨ 2 ^ e ∣ out.1 ∧ max size 1 ≤ dispatchUsableSize out.2.heap out.1 ∧
        ∀ q ∈ w.pointers, dispatchUsableSize out.2.heap q = dispatchUsableSize w.sys.heap q ∧
          (out.1 + dispatchUsableSize out.2.heap out.1 ≤ q ∨
            q + dispatchUsableSize out.2.heap q ≤ out.1) := by
  obtain ⟨L, blk, hinv⟩ := hw.worldInv
  apply (dispatchAllocAligned_over hinv.inv hinv.calm hlegal hbig).mono
  rintro ⟨ptr, s'⟩ hout
  dsimp only at hout ⊢
  by_cases hnull : ptr = 0
  · exact Or.inl hnull
  obtain ⟨⟨L', blk', hs', -, hcarried, hgrant⟩, hfresh⟩ := hout.served
  have hheap := hs'.account.inv
  have hblk := hgrant hnull
  refine Or.inr ⟨hout.aligned hnull e rfl, ?_, fun q hq => ?_⟩
  · rw [hheap.dispatchUsableSize_eq hblk]
    exact hout.covers hnull
  · obtain ⟨g, hg⟩ := hinv.inv.account.grant_of_held hq
    have hg' := (hcarried q hq g hg).1
    have hne : ptr ≠ q := by
      rintro rfl
      exact hfresh hnull hq
    rw [hheap.dispatchUsableSize_eq hg', hheap.dispatchUsableSize_eq hblk,
      hinv.inv.account.inv.dispatchUsableSize_eq hg]
    exact ⟨rfl, hheap.blocks_apart hblk hg' hne⟩

theorem overaligned_honoured_64 :
    (dispatchAllocAligned firstCall (Sys.init emptyPool) 100 (2 ^ 6)).toOption.map Prod.fst =
        some 67584 ∧
      Returns (firstCall.uafActive = true)
        (dispatchAllocAligned firstCall (Sys.init emptyPool) 100 (2 ^ 6)) fun out =>
          out.1 = 0 ∨ 2 ^ 6 ∣ out.1 ∧ max 100 1 ≤ dispatchUsableSize out.2.heap out.1 :=
  ⟨by decide +kernel, (overaligned_honoured (.init emptyPool) legal_firstCall 100
    (show mallocNaturalAlign < 2 ^ 6 by decide)).mono
      fun _ hout => hout.imp_right fun hblock => ⟨hblock.1, hblock.2.1⟩⟩

end V8Malloc
