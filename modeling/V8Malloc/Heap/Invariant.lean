import V8Malloc.BuddyPool.Runs
import V8Malloc.Slab.PageSpec
import V8Malloc.Slab.Pool

/-!
# Invariant of the heap

The heap is described by its allocated blocks: each address that starts one has
a grant, the bytes behind it and the backend it came from. The regions taken
from the page heap do not overlap, each header accounts for the blocks of its
page, and the buddy pool for the blocks of all pages without a header.
-/
namespace V8Malloc

open ByteMemory

/-- Where a block comes from. -/
inductive Backend where
  | slab (cls arena : ℕ)
  | buddy
  | large
  deriving DecidableEq, Repr

structure Grant where
  bytes : ℕ
  backend : Backend
  deriving DecidableEq, Repr

abbrev Blocks := ℕ → Option Grant

/-- User addresses have 48 bits, as the tagged pointers of the core cache assume. -/
def addressSpace : ℕ := 2 ^ 48

inductive RegionKind where
  | slab
  | parked (arena : ℕ)
  | large
  | cached
  | arena
  deriving DecidableEq, Repr

/-- The regions of the page heap that are in use, with their bases and sizes. -/
inductive Heap.Region (h : Heap) : RegionKind → ℕ → ℕ → Prop
  | slab {b : ℕ} {page : PageMeta} : h.heads b = some (.slab page) → Region h .slab b pageSize
  | parked {arena b idle : ℕ} : arena < arenaCount → (b, idle) ∈ (h.pools arena).drained →
      Region h (.parked arena) b pageSize
  | large {b : ℕ} {block : LargeMeta} : h.heads b = some (.large block) →
      Region h .large b block.mmapSize
  | cached {b n : ℕ} : (b, n) ∈ h.largeCache → Region h .cached b n
  | arena {i : ℕ} : h.buddyPool.Used i → Region h .arena (h.buddyPool.base i) buddyMaxBlock

structure Layout (h : Heap) : Prop where
  fits : ∀ k b n, h.Region k b n →
    pageSize ∣ b ∧ pageSize ∣ n ∧ 0 < b ∧ 0 < n ∧ b + n ≤ addressSpace
  apart : ∀ k b n k' b' n', h.Region k b n → h.Region k' b' n' → b < b' + n' → b' < b + n →
    k = k' ∧ b = b' ∧ n = n'
  drained : ∀ arena < arenaCount, ((h.pools arena).drained.map Prod.fst).Nodup
  cached : (h.largeCache.map Prod.fst).Nodup

def PageMeta.grant (page : PageMeta) : Grant :=
  ⟨page.objectSize, .slab page.sizeClass page.arenaId⟩

def LargeMeta.grant (block : LargeMeta) (off : ℕ) : Grant :=
  ⟨block.mmapSize - off - block.guardBytes, .large⟩

/-- A user pointer can lie `off` bytes behind the header. -/
structure LargeOffset (block : LargeMeta) (off : ℕ) : Prop where
  header_le : slabHeaderSize ≤ off
  off_lt : off < pageSize
  room : off + block.guardBytes + linkBytes ≤ block.mmapSize

/-- The header at `b` accounts for the blocks of its page. -/
def HeaderInv (blk : Blocks) (m : Mem) (b : ℕ) : Header → Prop
  | .slab page => page.arenaId < arenaCount ∧ ∃ used, SlabPage b page m used ∧
      ∀ a g, ptrToMeta a = b →
        (blk a = some g ↔ ∃ s ∈ used, a = page.slotAt b s ∧ g = page.grant)
  | .large block => ∃ off, LargeOffset block off ∧
      ∀ a g, ptrToMeta a = b → (blk a = some g ↔ a = b + off ∧ g = block.grant off)

/-- The page at `b` belongs to the class. -/
def Heap.OnClass (h : Heap) (arena cls b : ℕ) : Prop :=
  ∃ page, h.heads b = some (.slab page) ∧ page.sizeClass = cls ∧ page.arenaId = arena

def Heap.Roomy (h : Heap) (b : ℕ) : Prop :=
  ∃ page, h.heads b = some (.slab page) ∧ page.usedCount < page.capacity

/-- The lists of one class hold pages of that class, and the partial ones have room. -/
structure ClassOk (h : Heap) (arena cls : ℕ) (slab : SlabClass) : Prop where
  current : slab.current ≠ 0 → h.OnClass arena cls slab.current
  partials : ∀ b ∈ slab.partials, h.OnClass arena cls b ∧ h.Roomy b
  nodup : slab.partials.Nodup
  apart : slab.current ∉ slab.partials

def ListsOk (h : Heap) : Prop :=
  ∀ arena < arenaCount, ∀ cls < mediumFirstClass, ClassOk h arena cls (h.slabClass arena cls)

/-- No page base inside an arena shows the magic word. -/
def Clean (h : Heap) : Prop :=
  ∀ i, h.buddyPool.Used i → ∀ b, pageSize ∣ b → inArenaAt (h.buddyPool.base i) b →
    load64 h.mem b ≠ pageMagic

/-- The buddy pool accounts for the blocks of all pages without a header. -/
def BuddyPart (h : Heap) (blk : Blocks) (live : Set (ℕ × ℕ)) : Prop :=
  PoolInv h.buddyPool live ∧ ∀ a g, h.heads (ptrToMeta a) = none →
    (blk a = some g ↔ ∃ size, (a, size) ∈ live ∧ g = ⟨blockSize size, .buddy⟩)

structure HeapInv (h : Heap) (blk : Blocks) : Prop where
  layout : Layout h
  headers : ∀ b header, h.heads b = some header → HeaderInv blk h.mem b header
  buddy : ∃ live, BuddyPart h blk live
  clean : Clean h
  lists : ListsOk h

variable {h h' : Heap} {blk blk' : Blocks} {a b x n : ℕ} {g g' : Grant} {page : PageMeta}
variable {m m' : Mem} {used : Finset ℕ} {k k' : RegionKind}

/-! ### Page bases -/

theorem ptrToMeta_eq (hb : pageSize ∣ b) (hlo : b ≤ a) (hhi : a < b + pageSize) :
    ptrToMeta a = b := by
  obtain ⟨c, rfl⟩ := hb
  unfold ptrToMeta pageSize at *
  omega

theorem ptrToMeta_le (a : ℕ) : ptrToMeta a ≤ a ∧ a < ptrToMeta a + pageSize := by
  unfold ptrToMeta pageSize
  omega

theorem ptrToMeta_dvd (a : ℕ) : pageSize ∣ ptrToMeta a := Nat.dvd_mul_left _ _

theorem SlabPage.ptrToMeta_slotAt (hp : SlabPage b page m used) (hb : pageSize ∣ b) {s : ℕ}
    (hs : s < page.capacity) : ptrToMeta (page.slotAt b s) = b := by
  obtain ⟨hlo, hhi⟩ := hp.slotAt_bounds hs
  have hsize := hp.size_pos
  unfold slabHeaderSize linkBytes at *
  exact ptrToMeta_eq hb (by omega) (by omega)

/-! ### Where blocks lie -/

theorem Layout.disjoint (hl : Layout h) {b' n' a' w w' : ℕ} (hr : h.Region k b n)
    (hr' : h.Region k' b' n') (hne : k ≠ k' ∨ b ≠ b') (hlo : b ≤ a) (hhi : a + w ≤ b + n)
    (hlo' : b' ≤ a') (hhi' : a' + w' ≤ b' + n') : a + w ≤ a' ∨ a' + w' ≤ a := by
  by_contra hov
  obtain ⟨hk, hb, -⟩ := hl.apart _ _ _ _ _ _ hr hr' (by omega) (by omega)
  exact hne.elim (fun h => h hk) fun h => h hb

/-- The pages of an arena carry no header. -/
theorem Layout.arena_no_header (hl : Layout h) {i : ℕ} (hu : h.buddyPool.Used i)
    (ha : inArenaAt (h.buddyPool.base i) a) : h.heads (ptrToMeta a) = none := by
  have hregion := Heap.Region.arena hu
  obtain ⟨hlo, hhi⟩ := ptrToMeta_le a
  obtain ⟨⟨c, hc⟩, ⟨d, hd⟩, -⟩ := hl.fits _ _ _ hregion
  obtain ⟨e, he⟩ := ptrToMeta_dvd a
  unfold inArenaAt at ha
  cases hhead : h.heads (ptrToMeta a) with
  | none => rfl
  | some header =>
    cases header with
    | slab page =>
      obtain ⟨hk, -, -⟩ := hl.apart _ _ _ _ _ _ (Heap.Region.slab hhead) hregion
        (by omega) (by omega)
      cases hk
    | large block =>
      have hlarge := Heap.Region.large hhead
      obtain ⟨-, ⟨f, hf⟩, -, hpos, -⟩ := hl.fits _ _ _ hlarge
      have hpage : pageSize ≤ block.mmapSize := Nat.le_of_dvd hpos ⟨f, hf⟩
      obtain ⟨hk, -, -⟩ := hl.apart _ _ _ _ _ _ hlarge hregion (by omega) (by omega)
      cases hk

/-- The three ways a block can be allocated. -/
inductive BlockKind (h : Heap) (a : ℕ) : Grant → Prop
  | slab {page : PageMeta} {used : Finset ℕ} {s : ℕ} : h.heads (ptrToMeta a) = some (.slab page) →
      SlabPage (ptrToMeta a) page h.mem used → s ∈ used → a = page.slotAt (ptrToMeta a) s →
      BlockKind h a page.grant
  | large {block : LargeMeta} {off : ℕ} : h.heads (ptrToMeta a) = some (.large block) →
      LargeOffset block off → a = ptrToMeta a + off → BlockKind h a (block.grant off)
  | buddy {live : Set (ℕ × ℕ)} {size i : ℕ} : h.heads (ptrToMeta a) = none →
      PoolInv h.buddyPool live → (a, size) ∈ live → h.buddyPool.Used i →
      inArenaAt (h.buddyPool.base i) a → BlockKind h a ⟨blockSize size, .buddy⟩

theorem HeapInv.blockKind (hh : HeapInv h blk) (ha : blk a = some g) : BlockKind h a g := by
  cases hhead : h.heads (ptrToMeta a) with
  | none =>
    obtain ⟨live, hpool, hiff⟩ := hh.buddy
    obtain ⟨size, hlive, rfl⟩ := (hiff a g hhead).1 ha
    obtain ⟨i, hu, hin⟩ := hpool.owned _ hlive
    exact .buddy hhead hpool hlive hu hin
  | some header =>
    have hinv := hh.headers _ _ hhead
    cases header with
    | slab page =>
      obtain ⟨-, used, hpage, hiff⟩ := hinv
      obtain ⟨s, hs, haddr, rfl⟩ := (hiff a g rfl).1 ha
      exact .slab hhead hpage hs haddr
    | large block =>
      obtain ⟨off, hoff, hiff⟩ := hinv
      obtain ⟨haddr, rfl⟩ := (hiff a g rfl).1 ha
      exact .large hhead hoff haddr

/-- The header of a slab block. -/
theorem HeapInv.slab_header (hh : HeapInv h blk) {cls arena : ℕ}
    (ha : blk a = some ⟨n, .slab cls arena⟩) :
    ∃ page, h.heads (ptrToMeta a) = some (.slab page) ∧ page.sizeClass = cls ∧
      page.arenaId = arena ∧ page.objectSize = n := by
  cases hh.blockKind ha with
  | slab hhead _ _ _ => exact ⟨_, hhead, rfl, rfl, rfl⟩

theorem HeapInv.slab_bounds (hh : HeapInv h blk) {cls arena : ℕ}
    (ha : blk a = some ⟨n, .slab cls arena⟩) :
    cls < mediumFirstClass ∧ arena < arenaCount ∧ n = sizeClassSize cls := by
  generalize hg : (⟨n, .slab cls arena⟩ : Grant) = g at ha
  cases hh.blockKind ha with
  | large => cases congrArg Grant.backend hg
  | buddy => cases congrArg Grant.backend hg
  | slab hhead hpage =>
    injection congrArg Grant.backend hg with hcls harena
    have hbytes := congrArg Grant.bytes hg
    subst hcls harena
    exact ⟨hpage.cls_lt, (hh.headers _ _ hhead).1, hbytes.trans hpage.size_eq⟩

theorem dvd_dataOffset {d cls : ℕ} (hheader : d ∣ slabHeaderSize) (hsize : d ∣ sizeClassSize cls) :
    d ∣ dataOffset cls := by
  unfold dataOffset slabSmallDataOffset
  split_ifs
  · exact hheader
  · exact hsize
  · exact hheader

/-- Slots are as aligned as their size and the header allow. -/
theorem HeapInv.slab_dvd (hh : HeapInv h blk) {cls arena d : ℕ}
    (ha : blk a = some ⟨n, .slab cls arena⟩) (hheader : d ∣ slabHeaderSize)
    (hsize : d ∣ sizeClassSize cls) : d ∣ a := by
  generalize hg : (⟨n, .slab cls arena⟩ : Grant) = g at ha
  cases hh.blockKind ha with
  | large => cases congrArg Grant.backend hg
  | buddy => cases congrArg Grant.backend hg
  | @slab page used s _ _ _ haddr =>
    injection congrArg Grant.backend hg with hcls
    rw [haddr, PageMeta.slotAt, ← hcls, slotAddr]
    have hbase : d ∣ ptrToMeta a := hheader.trans (dvd_trans (by decide) (ptrToMeta_dvd a))
    exact dvd_add (dvd_add hbase (dvd_dataOffset hheader hsize)) (Dvd.dvd.mul_left hsize s)

theorem blockSize_ge (size : ℕ) : linkBytes ≤ blockSize size :=
  le_trans (by decide) (nodeSize_le_levelToSize (sizeToLevel size))

/-- A block lies inside one region, an arena unless its page has a header. -/
theorem BlockKind.region (hk : BlockKind h a g) : ∃ k b n, h.Region k b n ∧ b ≤ a ∧
    a + g.bytes ≤ b + n ∧ linkBytes ≤ g.bytes ∧ (k = .arena ↔ h.heads (ptrToMeta a) = none) ∧
      (h.heads (ptrToMeta a) ≠ none → b = ptrToMeta a) := by
  cases hk with
  | slab hhead hpage hs haddr =>
    have hend := (hpage.slotAt_bounds (hpage.used_lt _ hs)).2
    rw [← haddr] at hend
    exact ⟨_, _, _, .slab hhead, (ptrToMeta_le a).1, hend, hpage.size_pos, by simp [hhead],
      fun _ => rfl⟩
  | large hhead hoff haddr =>
    have hroom := hoff.room
    simp only [LargeMeta.grant]
    exact ⟨_, _, _, .large hhead, (ptrToMeta_le a).1, by omega, by omega, by simp [hhead],
      fun _ => rfl⟩
  | buddy hhead hpool hlive hu hin =>
    exact ⟨_, _, _, .arena hu, hin.1, ((hpool.arena _ hu).block_end ⟨hlive, hin⟩).2,
      blockSize_ge _, by simp [hhead], fun hne => absurd hhead hne⟩

theorem HeapInv.block_bounds (hh : HeapInv h blk) (ha : blk a = some g) :
    a ≠ 0 ∧ linkBytes ≤ g.bytes ∧ a + g.bytes ≤ addressSpace := by
  obtain ⟨k, b, n, hr, hlo, hhi, hlink, -⟩ := (hh.blockKind ha).region
  obtain ⟨-, -, hpos, -, hfit⟩ := hh.layout.fits _ _ _ hr
  exact ⟨by omega, hlink, by omega⟩

/-- Two blocks of one page with a header. -/
theorem HeapInv.page_blocks_apart (hh : HeapInv h blk) {a' : ℕ} (ha : blk a = some g)
    (ha' : blk a' = some g') (hne : a ≠ a') {header : Header}
    (hhead : h.heads (ptrToMeta a) = some header) (hbase : ptrToMeta a = ptrToMeta a') :
    a + g.bytes ≤ a' ∨ a' + g'.bytes ≤ a := by
  have hinv := hh.headers _ _ hhead
  cases header with
  | slab page =>
    obtain ⟨-, used, hpage, hiff⟩ := hinv
    obtain ⟨s, -, hs, rfl⟩ := (hiff a g rfl).1 ha
    obtain ⟨s', -, hs', rfl⟩ := (hiff a' g' hbase.symm).1 ha'
    have hss : s ≠ s' := by
      rintro rfl
      exact hne (hs.trans hs'.symm)
    have happ := hpage.slotAt_apart hss
    rwa [← hs, ← hs'] at happ
  | large block =>
    obtain ⟨off, -, hiff⟩ := hinv
    have h₁ := ((hiff a g rfl).1 ha).1
    have h₂ := ((hiff a' g' hbase.symm).1 ha').1
    exact absurd (h₁.trans h₂.symm) hne

/-- Distinct blocks do not overlap. -/
theorem HeapInv.blocks_apart (hh : HeapInv h blk) {a' : ℕ} (ha : blk a = some g)
    (ha' : blk a' = some g') (hne : a ≠ a') : a + g.bytes ≤ a' ∨ a' + g'.bytes ≤ a := by
  obtain ⟨k, b, n, hr, hlo, hhi, -, harena, hbase⟩ := (hh.blockKind ha).region
  obtain ⟨k', b', n', hr', hlo', hhi', -, harena', hbase'⟩ := (hh.blockKind ha').region
  cases hhead : h.heads (ptrToMeta a) with
  | none =>
    cases hhead' : h.heads (ptrToMeta a') with
    | none =>
      obtain ⟨live, hpool, hiff⟩ := hh.buddy
      obtain ⟨size, hq, rfl⟩ := (hiff a g hhead).1 ha
      obtain ⟨size', hq', rfl⟩ := (hiff a' g' hhead').1 ha'
      exact hpool.live_apart hq hq' fun heq => hne (congrArg Prod.fst heq)
    | some header =>
      have hkind : k ≠ k' := by
        rintro rfl
        rw [harena'.1 (harena.2 hhead)] at hhead'
        cases hhead'
      exact hh.layout.disjoint hr hr' (Or.inl hkind) hlo hhi hlo' hhi'
  | some header =>
    by_cases hsame : ptrToMeta a = ptrToMeta a'
    · exact hh.page_blocks_apart ha ha' hne hhead hsame
    · by_cases hkind : k = k'
      · subst hkind
        have hhead' : h.heads (ptrToMeta a') ≠ none := by
          intro hnone
          rw [harena.1 (harena'.2 hnone)] at hhead
          cases hhead
        refine hh.layout.disjoint hr hr' (Or.inr ?_) hlo hhi hlo' hhi'
        rw [hbase (by simp [hhead]), hbase' hhead']
        exact hsame
      · exact hh.layout.disjoint hr hr' (Or.inl hkind) hlo hhi hlo' hhi'

/-! ### Writes into blocks -/

/-- The two memories differ inside allocated blocks only. -/
def Untouched (blk : Blocks) (m m' : Mem) : Prop :=
  ∀ x, (∀ a g, blk a = some g → x < a ∨ a + g.bytes ≤ x) → m' x = m x

/-- The bytes of a slot that is not used lie outside every block. -/
theorem HeapInv.free_slot_outside (hh : HeapInv h blk) (hhead : h.heads b = some (.slab page))
    (hpage : SlabPage b page h.mem used)
    (hiff : ∀ a g, ptrToMeta a = b →
      (blk a = some g ↔ ∃ s ∈ used, a = page.slotAt b s ∧ g = page.grant))
    {s : ℕ} (hs : s < page.capacity) (hfree : s ∉ used) (hlo : page.slotAt b s ≤ x)
    (hhi : x < page.slotAt b s + page.objectSize) (ha : blk a = some g) :
    x < a ∨ a + g.bytes ≤ x := by
  obtain ⟨hstart, hend⟩ := hpage.slotAt_bounds hs
  have hslab := Heap.Region.slab hhead
  obtain ⟨k, b', n, hr, hlo', hhi', -, harena, hbase⟩ := (hh.blockKind ha).region
  by_cases hsame : ptrToMeta a = b
  · obtain ⟨t, ht, rfl, rfl⟩ := (hiff a g hsame).1 ha
    have hts : t ≠ s := by
      rintro rfl
      exact hfree ht
    have happ := hpage.slotAt_apart hts
    simp only [PageMeta.grant]
    omega
  · have hne : k ≠ .slab ∨ b' ≠ b := by
      by_cases hnone : h.heads (ptrToMeta a) = none
      · left
        rw [harena.2 hnone]
        decide
      · right
        rw [hbase hnone]
        exact hsame
    have happ := hh.layout.disjoint hr hslab hne hlo' hhi' (show b ≤ x by omega)
      (show x + 1 ≤ b + pageSize by omega)
    omega

theorem HeaderInv.rewrite {header : Header} (hh : HeapInv h blk) (hhead : h.heads b = some header)
    (hm : Untouched blk h.mem m') : HeaderInv blk m' b header := by
  have hinv := hh.headers _ _ hhead
  cases header with
  | slab page =>
    obtain ⟨harena, used, hpage, hiff⟩ := hinv
    refine ⟨harena, used, hpage.congr fun _ s hs hfree x hlo hhi => ?_, hiff⟩
    have hsize := hpage.size_pos
    exact hm x fun a g ha => hh.free_slot_outside hhead hpage hiff hs hfree hlo (by omega) ha
  | large block => exact hinv

/-! ### What the parts depend on -/

theorem Heap.Region.congr (hr : h'.Region k b n) (hheads : h'.heads = h.heads)
    (hpools : h'.pools = h.pools) (harenas : h'.arenas = h.arenas)
    (hcache : h'.largeCache = h.largeCache) : h.Region k b n := by
  cases hr with
  | slab hhead => exact .slab (hheads ▸ hhead)
  | parked harena hmem => exact .parked harena (hpools ▸ hmem)
  | large hhead => exact .large (hheads ▸ hhead)
  | cached hmem => exact .cached (hcache ▸ hmem)
  | @arena i hu =>
    have hbase : h'.buddyPool.base i = h.buddyPool.base i := by
      unfold BuddyPool.base Heap.buddyPool
      rw [harenas]
    rw [hbase]
    refine .arena ?_
    unfold BuddyPool.Used Heap.buddyPool at hu ⊢
    rwa [harenas] at hu

/-- A heap all of whose regions are regions of another one. -/
theorem Layout.mono (hl : Layout h) (hsub : ∀ k b n, h'.Region k b n → h.Region k b n)
    (hdrained : ∀ arena < arenaCount, ((h'.pools arena).drained.map Prod.fst).Nodup)
    (hcached : (h'.largeCache.map Prod.fst).Nodup) : Layout h' where
  fits := fun k b n hr => hl.fits k b n (hsub k b n hr)
  apart := fun k b n k' b' n' hr hr' =>
    hl.apart k b n k' b' n' (hsub k b n hr) (hsub k' b' n' hr')
  drained := hdrained
  cached := hcached

theorem ClassOk.congr {arena cls : ℕ} {slab : SlabClass} (hc : ClassOk h arena cls slab)
    (hheads : ∀ b, b = slab.current ∨ b ∈ slab.partials → h'.heads b = h.heads b) :
    ClassOk h' arena cls slab where
  current := fun hne => by
    obtain ⟨page, hpage⟩ := hc.current hne
    exact ⟨page, by rwa [hheads _ (Or.inl rfl)]⟩
  partials := fun b hb => by
    obtain ⟨⟨page, hpage⟩, page', hroom⟩ := hc.partials b hb
    exact ⟨⟨page, by rwa [hheads b (Or.inr hb)]⟩, page', by rwa [hheads b (Or.inr hb)]⟩
  nodup := hc.nodup
  apart := hc.apart

/-- Lists see the slab pages only. -/
theorem ListsOk.keep (hl : ListsOk h) (hpools : h'.pools = h.pools)
    (hslabs : ∀ c page, h.heads c = some (.slab page) → h'.heads c = some (.slab page)) :
    ListsOk h' := by
  intro arena ha cls hcls
  have hclass : h'.slabClass arena cls = h.slabClass arena cls := by
    unfold Heap.slabClass
    rw [hpools]
  rw [hclass]
  obtain ⟨hcurrent, hpartials, hnodup, hapart⟩ := hl arena ha cls hcls
  refine ⟨fun hne => ?_, fun b hb => ?_, hnodup, hapart⟩
  · obtain ⟨page, hpage, hrest⟩ := hcurrent hne
    exact ⟨page, hslabs _ _ hpage, hrest⟩
  · obtain ⟨⟨page, hpage, hrest⟩, page', hpage', hroom⟩ := hpartials b hb
    exact ⟨⟨page, hslabs _ _ hpage, hrest⟩, page', hslabs _ _ hpage', hroom⟩

/-- A header depends on the bytes and the blocks of its own page. -/
theorem HeaderInv.congr {header : Header} (hinv : HeaderInv blk m b header)
    (hm : ∀ x, b ≤ x → x < b + pageSize → m' x = m x)
    (hblk : ∀ a, ptrToMeta a = b → blk' a = blk a) : HeaderInv blk' m' b header := by
  cases header with
  | slab page =>
    obtain ⟨harena, used, hpage, hiff⟩ := hinv
    refine ⟨harena, used, hpage.congr fun _ s hs _ x hlo hhi => ?_, fun a g ha => ?_⟩
    · obtain ⟨hstart, hend⟩ := hpage.slotAt_bounds hs
      have hsize := hpage.size_pos
      exact hm x (by omega) (by omega)
    · rw [hblk a ha]
      exact hiff a g ha
  | large block =>
    obtain ⟨off, hoff, hiff⟩ := hinv
    refine ⟨off, hoff, fun a g ha => ?_⟩
    rw [hblk a ha]
    exact hiff a g ha

/-- The arenas do not see changes outside them. -/
theorem arenas_frame {live : Set (ℕ × ℕ)} (hpool : PoolInv h.buddyPool live) (hclean : Clean h)
    (harenas : h'.arenas = h.arenas)
    (hm : ∀ i x, h.buddyPool.Used i → inArenaAt (h.buddyPool.base i) x → h'.mem x = h.mem x) :
    PoolInv h'.buddyPool live ∧ Clean h' := by
  have hpool' : h'.buddyPool = { h.buddyPool with mem := h'.mem } := by
    unfold Heap.buddyPool
    rw [harenas]
  constructor
  · rw [hpool']
    exact (write_step hpool fun i x hu hx _ => hm i x hu hx).1
  · intro i hu b hb hin
    rw [hpool'] at hu hin
    have hload : load64 h'.mem b = load64 h.mem b := by
      refine load_congr fun x hlo hhi => hm i x hu ?_
      obtain ⟨c, hc⟩ := hpool.aligned hu
      obtain ⟨d, hd⟩ := hb
      change inArenaAt (h.buddyPool.base i) b at hin
      unfold inArenaAt pageSize buddyMaxBlock at *
      omega
    rw [hload]
    exact hclean i hu b hb hin

theorem Layout.header_page (hl : Layout h) {header : Header} (hhead : h.heads b = some header) :
    ∃ k n, h.Region k b n ∧ k ≠ .arena ∧ pageSize ∣ b ∧ pageSize ≤ n := by
  cases header with
  | slab page =>
    exact ⟨_, _, .slab hhead, by decide, (hl.fits _ _ _ (.slab hhead)).1, le_rfl⟩
  | large block =>
    obtain ⟨hb, hn, -, hpos, -⟩ := hl.fits _ _ _ (.large hhead)
    exact ⟨_, _, .large hhead, by decide, hb, Nat.le_of_dvd hpos hn⟩

/-- The arenas lie apart from every other region. -/
theorem Layout.outside_arena (hl : Layout h) (hr : h.Region k b n) (hk : k ≠ .arena) {i : ℕ}
    (hu : h.buddyPool.Used i) (hx : inArenaAt (h.buddyPool.base i) x) : x < b ∨ b + n ≤ x := by
  by_contra hin
  unfold inArenaAt at hx
  exact hk (hl.apart _ _ _ _ _ _ hr (.arena hu) (by omega) (by omega)).1

theorem used_congr (harenas : h'.arenas = h.arenas) {i : ℕ} :
    (h'.buddyPool.Used i ↔ h.buddyPool.Used i) ∧ h'.buddyPool.base i = h.buddyPool.base i := by
  unfold BuddyPool.Used BuddyPool.base Heap.buddyPool
  rw [harenas]
  exact ⟨Iff.rfl, rfl⟩

end V8Malloc
