import V8Malloc.Dispatch.Runs
import V8Malloc.Slab.Places

/-!
# Runs of one slab pool

Requests, refills, frees and sweeps of one pool in any order, with writes of
the program into its slots in between. Beside the heap a run keeps the live
slots, the pages taken from the page source, and the pages given back with the
slots that were live at that moment.
-/
namespace V8Malloc

open ByteMemory LinkedList StackLedger Function

variable {h h' : Heap} {blk : Blocks} {a b arena cls : ℕ} {page : PageMeta} {src : List ℕ}

/-- A page that left the pool, and the slots that were live when it did. -/
structure Departure where
  page : ℕ
  live : Blocks

/-- The live slots once those of `slots` were handed out. -/
def handOut (blk : Blocks) (slots : List ℕ) (g : Grant) : Blocks :=
  fun a => if a ∈ slots then some g else blk a

/-- The slots of a refill, from the head of the chain to its tail. -/
def Batch.slots (batch : Batch) (m : Mem) : List ℕ := walk 0 (load64 m) batch.count batch.head

def slabPoolPurgeDrained (h : Heap) (arena : ℕ) : Heap := slabPoolSweepIdle h arena 0

/-- The pool `arena` after some calls. The answers of the page source that a call uses up are
`used`; those that are no page are zero. -/
inductive SlabRun (arena : ℕ) : Heap → Blocks → List ℕ → List Departure → Prop
  | init (p : BuddyPool) : SlabRun arena (Sys.init p).heap (fun _ => none) [] []
  | allocArena {h h' : Heap} {blk : Blocks} {taken used rest : List ℕ} {gone : List Departure}
      {uafActive : Bool} {cpu cls obj : ℕ} : SlabRun arena h blk taken gone →
      LegalPages h (used ++ rest) →
      slabPoolAllocArena uafActive cpu h arena cls (used ++ rest) = .ok (obj, h', rest) →
      SlabRun arena h' (grantAfter blk obj (slabGrant cls arena))
        (taken ++ used.filter (· ≠ 0)) gone
  | allocBatch {h h' : Heap} {blk : Blocks} {taken used rest : List ℕ} {gone : List Departure}
      {uafActive : Bool} {cpu cls max : ℕ} {batch : Batch} : SlabRun arena h blk taken gone →
      LegalPages h (used ++ rest) →
      slabPoolAllocBatch uafActive cpu h arena cls max (used ++ rest) = .ok (batch, h', rest) →
      SlabRun arena h' (handOut blk (batch.slots h'.mem) (slabGrant cls arena))
        (taken ++ used.filter (· ≠ 0)) gone
  | free {h : Heap} {blk : Blocks} {taken : List ℕ} {gone : List Departure} {cls obj : ℕ}
      (uafActive : Bool) : SlabRun arena h blk taken gone → blk obj = some (slabGrant cls arena) →
      SlabRun arena (slabPoolFree uafActive h arena (ptrToMeta obj) obj).2
        (update blk obj none) taken
        (gone ++ (slabPoolFreeReturns uafActive h arena (ptrToMeta obj) obj).map
          fun page => ⟨page, update blk obj none⟩)
  | sweepIdle {h : Heap} {blk : Blocks} {taken : List ℕ} {gone : List Departure}
      (maxIdleTicks : ℕ) : SlabRun arena h blk taken gone →
      SlabRun arena (slabPoolSweepIdle h arena maxIdleTicks) blk taken
        (gone ++ (slabPoolSweepIdleReturns h arena maxIdleTicks).map fun page => ⟨page, blk⟩)
  | purgeDrained {h : Heap} {blk : Blocks} {taken : List ℕ} {gone : List Departure} :
      SlabRun arena h blk taken gone →
      SlabRun arena (slabPoolPurgeDrained h arena) blk taken
        (gone ++ (slabPoolSweepIdleReturns h arena 0).map fun page => ⟨page, blk⟩)
  | write {h : Heap} {blk : Blocks} {taken : List ℕ} {gone : List Departure} {m' : Mem} :
      SlabRun arena h blk taken gone → Untouched blk h.mem m' →
      SlabRun arena { h with mem := m' } blk taken gone

/-! ### The four places -/

inductive PagePlace where
  | current
  | partials
  | full
  | drained
  deriving DecidableEq, Repr

/-- The page is in the place. -/
def Heap.At (h : Heap) (arena b : ℕ) : PagePlace → Prop
  | .current => ∃ cls < mediumFirstClass, h.OnClass arena cls b ∧
      (h.slabClass arena cls).current = b
  | .partials => ∃ cls < mediumFirstClass, h.OnClass arena cls b ∧
      (h.slabClass arena cls).partials.count b = 1
  | .full => (∃ page, h.heads b = some (.slab page) ∧ page.arenaId = arena ∧
      page.usedCount = page.capacity) ∧ ∀ cls < mediumFirstClass,
        (h.slabClass arena cls).current ≠ b ∧ b ∉ (h.slabClass arena cls).partials
  | .drained => ((h.pools arena).drained.map Prod.fst).count b = 1

theorem HeapInv.at_unique (hh : HeapInv h blk) (harena : arena < arenaCount) {p q : PagePlace}
    (hp : h.At arena b p) (hq : h.At arena b q) : p = q := by
  -- a page with a header is not parked
  have hparked : ∀ {cls : ℕ}, h.OnClass arena cls b → ¬ h.At arena b .drained := by
    rintro cls ⟨page, hhead, -⟩ hcount
    have hpos : 0 < ((h.pools arena).drained.map Prod.fst).count b := by
      rw [show _ = 1 from hcount]
      exact Nat.one_pos
    exact hh.head_notMem_drained harena hhead (List.count_pos_iff.1 hpos)
  have hboth : h.At arena b .current → ¬ h.At arena b .partials := by
    rintro ⟨cls, hcls, hon, hcur⟩ ⟨cls', -, hon', hcount⟩
    obtain ⟨-, rfl⟩ := OnClass.unique hon hon'
    apply (hh.lists arena harena cls hcls).apart
    rw [hcur]
    exact List.count_pos_iff.1 (by omega)
  have hcur : h.At arena b .current → ¬ h.At arena b .full :=
    fun ⟨cls, hcls, _, hcur⟩ ⟨_, hoff⟩ => (hoff cls hcls).1 hcur
  have hpart : h.At arena b .partials → ¬ h.At arena b .full :=
    fun ⟨cls, hcls, _, hcount⟩ ⟨_, hoff⟩ =>
      (hoff cls hcls).2 (List.count_pos_iff.1 (by omega))
  have hon : ∀ {p : PagePlace}, p ≠ .drained → h.At arena b p → ∃ cls, h.OnClass arena cls b := by
    intro p hne hat
    cases p with
    | current => exact hat.imp fun cls h => h.2.1
    | partials => exact hat.imp fun cls h => h.2.1
    | full =>
      obtain ⟨page, hhead, hid, -⟩ := hat.1
      exact ⟨page.sizeClass, page, hhead, rfl, hid⟩
    | drained => exact absurd rfl hne
  have hout : ∀ p : PagePlace, p ≠ .drained → h.At arena b p → ¬ h.At arena b .drained := by
    intro p hne hat
    obtain ⟨cls, hcls⟩ := hon hne hat
    exact hparked hcls
  cases p <;> cases q
  case current.partials => exact absurd hq (hboth hp)
  case current.full => exact absurd hq (hcur hp)
  case current.drained => exact absurd hq (hout .current nofun hp)
  case partials.current => exact absurd hp (hboth hq)
  case partials.full => exact absurd hq (hpart hp)
  case partials.drained => exact absurd hq (hout .partials nofun hp)
  case full.current => exact absurd hp (hcur hq)
  case full.partials => exact absurd hp (hpart hq)
  case full.drained => exact absurd hq (hout .full nofun hp)
  case drained.current => exact absurd hp (hout .current nofun hq)
  case drained.partials => exact absurd hp (hout .partials nofun hq)
  case drained.full => exact absurd hp (hout .full nofun hq)
  all_goals rfl

theorem exists_place (hh : HeapInv h blk) (hp : Placed h) (harena : arena < arenaCount)
    (howns : h.Owns arena b) : ∃ place, h.At arena b place := by
  rcases howns with ⟨page, hhead, rfl⟩ | hmem
  · obtain ⟨-, used, hpage, -⟩ := hh.headers _ _ hhead
    have hok := hh.lists page.arenaId harena page.sizeClass hpage.cls_lt
    have hon : h.OnClass page.arenaId page.sizeClass b := ⟨page, hhead, rfl, rfl⟩
    by_cases hlisted : h.Listed page b
    · rcases hlisted with hcur | hmem
      · exact ⟨.current, page.sizeClass, hpage.cls_lt, hon, hcur⟩
      · exact ⟨.partials, page.sizeClass, hpage.cls_lt, hon, List.count_eq_one_of_mem hok.nodup hmem⟩
    · have hle : page.usedCount ≤ page.capacity := by
        rw [hpage.count_eq, ← Finset.card_range page.capacity]
        exact Finset.card_le_card fun t ht => Finset.mem_range.2 (hpage.used_lt t ht)
      have hfull : page.usedCount = page.capacity := by
        by_contra hne
        exact hlisted (hp.listed b page hhead (lt_of_le_of_ne hle hne))
      refine ⟨.full, ⟨page, hhead, rfl, hfull⟩, fun cls hcls => ?_⟩
      have hother := hh.lists page.arenaId harena cls hcls
      constructor
      · -- the lists of another class hold other pages
        intro hcur
        obtain ⟨-, rfl⟩ := OnClass.unique hon
          (hcur ▸ hother.current (hcur ▸ hh.head_ne_zero hhead))
        exact hlisted (Or.inl hcur)
      · intro hmem
        obtain ⟨-, rfl⟩ := OnClass.unique hon (hother.partials b hmem).1
        exact hlisted (Or.inr hmem)
  · exact ⟨.drained, List.count_eq_one_of_mem (hh.layout.drained arena harena) hmem⟩

/-! ### What a run keeps -/

/-- What holds of the pool after any calls. -/
structure PoolPages (arena : ℕ) (h : Heap) (blk : Blocks) (taken : List ℕ)
    (gone : List Departure) : Prop where
  place : ∀ b, h.Owns arena b → ∃! place, h.At arena b place
  current : ∀ cls < mediumFirstClass, (h.slabClass arena cls).current ≠ 0 →
    h.OnClass arena cls (h.slabClass arena cls).current
  partials : ∀ cls < mediumFirstClass, ∀ b ∈ (h.slabClass arena cls).partials,
    ∃ page, h.heads b = some (.slab page) ∧ page.sizeClass = cls ∧ page.arenaId = arena ∧
      0 < page.usedCount ∧ page.usedCount < page.capacity
  unlisted : ∀ b page, h.heads b = some (.slab page) → page.arenaId = arena →
    (∀ cls < mediumFirstClass, (h.slabClass arena cls).current ≠ b ∧
      b ∉ (h.slabClass arena cls).partials) → page.usedCount = page.capacity
  empty : ∀ d ∈ gone, ∀ a, ptrToMeta a = d.page → d.live a = none
  once : ∀ b, (h.Owns arena b → taken.count b = (gone.map Departure.page).count b + 1) ∧
    (¬ h.Owns arena b → taken.count b = (gone.map Departure.page).count b)
  inside : ∀ a g, blk a = some g → h.Owns arena (ptrToMeta a) ∧ h.heads (ptrToMeta a) ≠ none
  apart : ∀ a a' g g', blk a = some g → blk a' = some g' → a ≠ a' →
    a + g.bytes ≤ a' ∨ a' + g'.bytes ≤ a
  counted : ∀ b page, h.heads b = some (.slab page) → page.arenaId = arena →
    page.usedCount = {a | ptrToMeta a = b ∧ blk a ≠ none}.ncard
  /-- A slot that is handed out next is not live. -/
  answer : ∀ {uafActive : Bool} {cpu cls obj : ℕ} {src rest : List ℕ} {h' : Heap},
    LegalPages h src → slabPoolAllocArena uafActive cpu h arena cls src = .ok (obj, h', rest) →
    obj ≠ 0 → blk obj = none
  refill : ∀ {uafActive : Bool} {cpu cls max : ℕ} {src rest : List ℕ} {batch : Batch} {h' : Heap},
    LegalPages h src → slabPoolAllocBatch uafActive cpu h arena cls max src = .ok (batch, h', rest) →
    (batch.slots h'.mem).length = batch.count ∧ (batch.slots h'.mem).Nodup ∧
      ∀ a ∈ batch.slots h'.mem, blk a = none

/-- The invariant that carries it. -/
structure SlabRunInv (arena : ℕ) (h : Heap) (blk : Blocks) (taken : List ℕ)
    (gone : List Departure) : Prop where
  inv : HeapInv h blk
  placed : Placed h
  unused : ∀ i, ¬ h.buddyPool.Used i
  own : ∀ a g, blk a = some g → ∃ cls, g = slabGrant cls arena
  empty : ∀ d ∈ gone, ∀ a, ptrToMeta a = d.page → d.live a = none
  once : ∀ b, (h.Owns arena b → taken.count b = (gone.map Departure.page).count b + 1) ∧
    (¬ h.Owns arena b → taken.count b = (gone.map Departure.page).count b)

variable {taken : List ℕ} {gone : List Departure} {blk' : Blocks}

/-- A heap all of whose blocks are in hand. -/
theorem HeapInv.account (hh : HeapInv h blk) :
    Account (fun (k : Empty) _ => k.elim) h Empty.elim Empty.elim blk {a | blk a ≠ none} where
  inv := hh
  ledger := ⟨nofun, fun a => by simp, nofun, fun _ k => k.elim, nofun⟩

/-- The chain of a refill consists of the slots it has handed out. -/
theorem slabPoolAllocBatch_slots {uafActive : Bool} {cpu max : ℕ} {batch : Batch}
    {rest : List ℕ} (hh : HeapInv h blk) (harena : arena < arenaCount) (hlegal : LegalPages h src)
    (hok : slabPoolAllocBatch uafActive cpu h arena cls max src = .ok (batch, h', rest)) :
    Drew arena h src h' rest ∧
      HeapInv h' (handOut blk (batch.slots h'.mem) (slabGrant cls arena)) ∧
      (batch.slots h'.mem).length = batch.count ∧ (batch.slots h'.mem).Nodup ∧
      ∀ a ∈ batch.slots h'.mem, blk a = none := by
  obtain ⟨-, hdrew, blk', xs, hi, hcarried⟩ :=
    (slabPoolAllocBatch_spec uafActive cpu max hh.account harena hlegal).of_ok hok
  have hslots : batch.slots h'.mem = xs := hi.chain.walk_eq hi.count_eq.ge
  have hblk : handOut blk xs (slabGrant cls arena) = blk' := by
    funext a
    unfold handOut
    split_ifs with hmem
    · exact (hi.grants a hmem).symm
    · cases hold : blk a with
      | some g =>
        have hheld : a ∈ {a | blk a ≠ none} := by simp [hold]
        exact (hcarried a hheld g hold).1.symm
      | none =>
        symm
        by_contra hne
        rcases (hi.account.ledger.allocated a).1 hne with (hheld | hxs) | ⟨k, -⟩
        · exact hheld hold
        · exact hmem hxs
        · exact k.elim
  rw [hslots, hblk]
  exact ⟨hdrew, hi.account.inv, hi.count_eq.symm, hi.nodup, fun a ha => not_not.1 (hi.fresh a ha)⟩

/-- The slots in use of a page are the live ones. -/
theorem HeapInv.usedCount_eq (hh : HeapInv h blk) (hhead : h.heads b = some (.slab page)) :
    page.usedCount = {a | ptrToMeta a = b ∧ blk a ≠ none}.ncard := by
  obtain ⟨-, used, hpage, hiff⟩ := hh.headers _ _ hhead
  have hdvd := (hh.layout.fits _ _ _ (.slab hhead)).1
  have hlive : {a | ptrToMeta a = b ∧ blk a ≠ none} = ↑(used.image (page.slotAt b)) := by
    ext a
    simp only [Set.mem_ofPred_eq, Finset.coe_image, Set.mem_image, Finset.mem_coe]
    constructor
    · rintro ⟨hbase, hne⟩
      obtain ⟨g, hg⟩ := Option.ne_none_iff_exists'.1 hne
      obtain ⟨s, hs, haddr, -⟩ := (hiff a g hbase).1 hg
      exact ⟨s, hs, haddr.symm⟩
    · rintro ⟨s, hs, rfl⟩
      have hbase := hpage.ptrToMeta_slotAt hdvd (hpage.used_lt s hs)
      exact ⟨hbase, by simp [(hiff _ _ hbase).2 ⟨s, hs, rfl, rfl⟩]⟩
  rw [hlive, Set.ncard_coe_finset, Finset.card_image_of_injective _ fun _ _ heq =>
    hpage.slotAt_inj heq, hpage.count_eq]

theorem SlabRunInv.pages (hi : SlabRunInv arena h blk taken gone) (harena : arena < arenaCount) :
    PoolPages arena h blk taken gone where
  place := by
    intro b howns
    obtain ⟨place, hat⟩ := exists_place hi.inv hi.placed harena howns
    exact ⟨place, hat, fun other hother => hi.inv.at_unique harena hother hat⟩
  current := fun cls hcls => (hi.inv.lists arena harena cls hcls).current
  partials := by
    intro cls hcls b hb
    obtain ⟨⟨page, hhead, hclass, hid⟩, page', hhead', hroom⟩ :=
      (hi.inv.lists arena harena cls hcls).partials b hb
    cases hhead.symm.trans hhead'
    exact ⟨page, hhead, hclass, hid, hi.placed.occupied b page hhead, hroom⟩
  unlisted := by
    intro b page hhead hid hoff
    have howns : h.Owns arena b := Or.inl ⟨page, hhead, hid⟩
    obtain ⟨-, used, hpage, -⟩ := hi.inv.headers _ _ hhead
    obtain ⟨place, hat⟩ := exists_place hi.inv hi.placed harena howns
    cases place with
    | current =>
      obtain ⟨cls, hcls, -, hcur⟩ := hat
      exact absurd hcur (hoff cls hcls).1
    | partials =>
      obtain ⟨cls, hcls, -, hcount⟩ := hat
      exact absurd (List.count_pos_iff.1 (by omega)) (hoff cls hcls).2
    | full =>
      obtain ⟨⟨page', hhead', -, hfull⟩, -⟩ := hat
      cases hhead.symm.trans hhead'
      exact hfull
    | drained =>
      have hcount : ((h.pools arena).drained.map Prod.fst).count b = 1 := hat
      exact absurd (List.count_pos_iff.1 (by omega)) (hi.inv.head_notMem_drained harena hhead)
  empty := hi.empty
  once := hi.once
  inside := by
    intro a g ha
    obtain ⟨cls, rfl⟩ := hi.own a g ha
    obtain ⟨page, hhead, -, hid, -⟩ := hi.inv.slab_header ha
    exact ⟨Or.inl ⟨page, hhead, hid⟩, by simp [hhead]⟩
  apart := fun a a' g g' ha ha' hne => hi.inv.blocks_apart ha ha' hne
  counted := fun b page hhead _ => hi.inv.usedCount_eq hhead
  answer := by
    intro uafActive cpu cls obj src rest h' hlegal hok hne
    exact ((slabPoolAllocArena_account uafActive cpu hi.inv.account harena hlegal).of_ok
      hok).1.fresh hne
  refill := fun hlegal hok => (slabPoolAllocBatch_slots hi.inv harena hlegal hok).2.2

/-- The pool has taken the pages of `used`. -/
theorem SlabRunInv.grow {used rest : List ℕ} (hi : SlabRunInv arena h blk taken gone)
    (hinv : HeapInv h' blk') (hdrew : Drew arena h (used ++ rest) h' rest)
    (hown : ∀ a g, blk' a = some g → ∃ cls, g = slabGrant cls arena) :
    SlabRunInv arena h' blk' (taken ++ used.filter (· ≠ 0)) gone := by
  obtain ⟨used', hused, hgrown⟩ := hdrew.grown
  obtain rfl : used = used' := List.append_cancel_right hused
  refine ⟨hinv, hdrew.placed hi.placed,
    fun i hu => hi.unused i ((used_congr hgrown.arenas).1.1 hu), hown, hi.empty, ?_⟩
  · intro b
    obtain ⟨hin, hout⟩ := hi.once b
    rw [hgrown.owns, List.count_append]
    by_cases hnew : b ∈ used.filter (· ≠ 0)
    · have hone := List.count_eq_one_of_mem hgrown.nodup hnew
      have hold := hout (hgrown.fresh b hnew)
      exact ⟨fun _ => by omega, fun hnot => absurd (Or.inr hnew) hnot⟩
    · have hzero := List.count_eq_zero_of_not_mem hnew
      constructor
      · intro howns
        have hold := hin (howns.resolve_right hnew)
        omega
      · intro hnot
        have hold := hout fun howns => hnot (Or.inl howns)
        omega

/-- The pool has given back the pages of `left`. -/
theorem SlabRunInv.shrink {left : List ℕ} (hi : SlabRunInv arena h blk taken gone)
    (hinv : HeapInv h' blk') (hplaced : Placed h') (hshrunk : Shrunk arena h blk' h' left)
    (hown : ∀ a g, blk' a = some g → ∃ cls, g = slabGrant cls arena) :
    SlabRunInv arena h' blk' taken (gone ++ left.map fun page => ⟨page, blk'⟩) where
  inv := hinv
  placed := hplaced
  unused := fun i hu => hi.unused i ((used_congr hshrunk.arenas).1.1 hu)
  own := hown
  empty := by
    intro d hd
    rcases List.mem_append.1 hd with hd | hd
    · exact hi.empty d hd
    · obtain ⟨b, hb, rfl⟩ := List.mem_map.1 hd
      exact hshrunk.empty b hb
  once := by
    intro b
    obtain ⟨hin, hout⟩ := hi.once b
    have hpages : (left.map fun page => (⟨page, blk'⟩ : Departure)).map Departure.page = left := by
      simp [Function.comp_def]
    rw [hshrunk.owns, List.map_append, hpages, List.count_append]
    by_cases hleft : b ∈ left
    · have hone := List.count_eq_one_of_mem hshrunk.nodup hleft
      have hold := hin (hshrunk.owned b hleft)
      exact ⟨fun hstay => absurd hleft hstay.2, fun _ => by omega⟩
    · have hzero := List.count_eq_zero_of_not_mem hleft
      constructor
      · intro hstay
        have hold := hin hstay.1
        omega
      · intro hnot
        have hold := hout fun howns => hnot ⟨howns, hleft⟩
        omega

/-! ### Steps -/

theorem own_grantAfter {obj : ℕ} (hown : ∀ a g, blk a = some g → ∃ cls, g = slabGrant cls arena) :
    ∀ a g, grantAfter blk obj (slabGrant cls arena) a = some g → ∃ cls, g = slabGrant cls arena := by
  intro a g ha
  unfold grantAfter at ha
  split_ifs at ha
  · exact hown a g ha
  · by_cases heq : a = obj
    · rw [heq, update_self] at ha
      exact ⟨cls, (Option.some.inj ha).symm⟩
    · rw [update_of_ne heq] at ha
      exact hown a g ha

theorem own_handOut {slots : List ℕ}
    (hown : ∀ a g, blk a = some g → ∃ cls, g = slabGrant cls arena) :
    ∀ a g, handOut blk slots (slabGrant cls arena) a = some g → ∃ cls, g = slabGrant cls arena := by
  intro a g ha
  unfold handOut at ha
  split_ifs at ha
  · exact ⟨cls, (Option.some.inj ha).symm⟩
  · exact hown a g ha

theorem own_release {obj : ℕ} (hown : ∀ a g, blk a = some g → ∃ cls, g = slabGrant cls arena) :
    ∀ a g, update blk obj none a = some g → ∃ cls, g = slabGrant cls arena := by
  intro a g ha
  by_cases heq : a = obj
  · rw [heq, update_self] at ha
    cases ha
  · rw [update_of_ne heq] at ha
    exact hown a g ha

theorem slabRunInv_init (p : BuddyPool) :
    SlabRunInv arena (Sys.init p).heap (fun _ => none) [] [] where
  inv := (sysInv_init p).account.inv
  placed := ⟨nofun, nofun⟩
  unused := unused_init p
  own := nofun
  empty := nofun
  once := by
    intro b
    refine ⟨?_, fun _ => rfl⟩
    rintro (⟨page, hhead, -⟩ | hmem)
    · cases hhead
    · exact absurd hmem List.not_mem_nil

theorem SlabRunInv.sweep (hi : SlabRunInv arena h blk taken gone) (harena : arena < arenaCount)
    (maxIdleTicks : ℕ) : SlabRunInv arena (slabPoolSweepIdle h arena maxIdleTicks) blk taken
      (gone ++ (slabPoolSweepIdleReturns h arena maxIdleTicks).map fun page => ⟨page, blk⟩) := by
  obtain ⟨hplaced, hshrunk⟩ := slabPoolSweepIdle_places hi.inv hi.placed harena maxIdleTicks
  exact hi.shrink (slabPoolSweepIdle_kept arena maxIdleTicks hi.inv) hplaced hshrunk hi.own

theorem SlabRun.inv (harena : arena < arenaCount) (hrun : SlabRun arena h blk taken gone) :
    SlabRunInv arena h blk taken gone := by
  induction hrun with
  | init p => exact slabRunInv_init p
  | @allocArena h h' blk taken used rest gone uafActive cpu cls obj _ hlegal hok ih =>
    obtain ⟨hone, hdrew⟩ :=
      (slabPoolAllocArena_account uafActive cpu ih.inv.account harena hlegal).of_ok hok
    exact ih.grow hone.account.inv hdrew (own_grantAfter ih.own)
  | @allocBatch h h' blk taken used rest gone uafActive cpu cls max batch _ hlegal hok ih =>
    obtain ⟨hdrew, hinv, -⟩ := slabPoolAllocBatch_slots ih.inv harena hlegal hok
    exact ih.grow hinv hdrew (own_handOut ih.own)
  | free uafActive _ hlive ih =>
    obtain ⟨hinv, -⟩ := slabPoolFree_spec uafActive ih.inv hlive
    obtain ⟨hplaced, hshrunk⟩ := slabPoolFree_places ih.inv ih.placed hlive
    exact ih.shrink hinv hplaced hshrunk (own_release ih.own)
  | sweepIdle maxIdleTicks _ ih => exact ih.sweep harena maxIdleTicks
  | purgeDrained _ ih => exact ih.sweep harena 0
  | @write h blk taken gone m' _ hm ih =>
    have hclean : Clean { h with mem := m' } := fun i hu => absurd hu (ih.unused i)
    exact { ih with
      inv := ih.inv.write hm hclean
      placed := ⟨ih.placed.occupied, ih.placed.listed⟩ }

/-- Every page of a slab pool is in exactly one place, with as many slots in use as that place
allows; it leaves the pool once, and empty; live slots do not overlap, and no live slot is handed
out again. -/
theorem slab_pool_pages (harena : arena < arenaCount) (hrun : SlabRun arena h blk taken gone) :
    PoolPages arena h blk taken gone := (hrun.inv harena).pages harena

/-- A refill of three slots and a request, served from the one page of the source; one of the
slots is given back. -/
theorem fewSlots_run : ∃ h gone, SlabRun arenaDefault h
    (update (grantAfter (handOut (fun _ => none) [67632, 67608, 67584] (slabGrant 2 arenaDefault))
      67656 (slabGrant 2 arenaDefault)) 67608 none) [pageSize] gone := by
  have hanswers : ((do
      let out ← slabPoolAllocBatch false 0 (Sys.init emptyPool).heap arenaDefault 2 3 ([pageSize] ++ [])
      let one ← slabPoolAllocArena false 0 out.2.1 arenaDefault 2 ([] ++ [])
      pure (out.1.slots out.2.1.mem, out.2.2, one.1, one.2.2) :
        Except Stop (List ℕ × List ℕ × ℕ × List ℕ))).toOption =
      some ([67632, 67608, 67584], [], 67656, []) := by
    decide +kernel
  have hlegal : LegalPages (Sys.init emptyPool).heap ([pageSize] ++ []) := legal_firstCall.pages
  cases hok : slabPoolAllocBatch false 0 (Sys.init emptyPool).heap arenaDefault 2 3
      ([pageSize] ++ []) with
  | error stop =>
    rw [hok] at hanswers
    cases hanswers
  | ok out =>
    obtain ⟨batch, h₁, rest⟩ := out
    rw [hok] at hanswers
    change ((do
      let one ← slabPoolAllocArena false 0 h₁ arenaDefault 2 ([] ++ [])
      pure (batch.slots h₁.mem, rest, one.1, one.2.2) :
        Except Stop (List ℕ × List ℕ × ℕ × List ℕ))).toOption = _ at hanswers
    cases hone : slabPoolAllocArena false 0 h₁ arenaDefault 2 ([] ++ []) with
    | error stop =>
      rw [hone] at hanswers
      cases hanswers
    | ok one =>
      obtain ⟨obj, h₂, left⟩ := one
      rw [hone] at hanswers
      obtain ⟨hslots, rfl, rfl, rfl⟩ : batch.slots h₁.mem = [67632, 67608, 67584] ∧ rest = [] ∧
          obj = 67656 ∧ left = [] := by
        simpa [bind, Except.bind, pure, Except.pure, Except.toOption] using hanswers
      have hrun := SlabRun.allocBatch (.init emptyPool) hlegal hok
      rw [hslots] at hrun
      have hnone : LegalPages h₁ ([] ++ []) := ⟨nofun, List.nodup_nil⟩
      have hrun₂ := hrun.allocArena hnone hone
      exact ⟨_, _, hrun₂.free false rfl⟩

theorem slab_pool_pages_few : ∃ h gone, PoolPages arenaDefault h
    (update (grantAfter (handOut (fun _ => none) [67632, 67608, 67584] (slabGrant 2 arenaDefault))
      67656 (slabGrant 2 arenaDefault)) 67608 none) [pageSize] gone := by
  obtain ⟨h, gone, hrun⟩ := fewSlots_run
  exact ⟨h, gone, slab_pool_pages (by decide) hrun⟩

end V8Malloc
