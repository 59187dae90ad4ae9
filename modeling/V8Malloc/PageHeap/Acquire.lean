import V8Malloc.PageHeap.RegionMap

/-!
# Acquiring and releasing regions

`v8m_page_heap_alloc` tries four sources in turn: 1 GiB pages, 2 MiB pages, a
carve from the anchor reservation, and a plain mapping that is made too long and
trimmed. The region is then registered and bound to a NUMA node, whose byte
count grows. `v8m_page_heap_free` undoes this, and `v8m_page_heap_numa_rebalance`
moves regions between nodes.

What the kernel answers is a parameter of each call. The addresses the process
can access are part of the state, so that a region obtained for a call can be
told from one that was there before. Statistics nothing reads back are left out.
-/
namespace V8Malloc.PageHeap

open Function

def hugePageSize : ℕ := 2 * 1024 * 1024
def giganticBytes : ℕ := 1024 * 1024 * 1024
def anchorDefaultCapBytes : ℕ := 256 * 1024 * 1024
def numaMaxNodes : ℕ := 64

def isPowerOfTwo (value : ℕ) : Bool := value ≠ 0 && (value &&& (value - 1)) = 0

/-- Masking off the low bits of the wrapped sum; `alignment` is a power of two. -/
def alignUp (value alignment : ℕ) : ℕ :=
  (value + (alignment - 1)) % addressSpace / alignment * alignment

/-- What is fixed while the process runs. The fallback table holds, for each node, the
others by distance. -/
structure Machine where
  osPageSize : ℕ
  nodeCount : ℕ
  fallback : ℕ → ℕ → ℕ
  osPage_pow : ∃ k, osPageSize = 2 ^ k
  nodeCount_le : nodeCount ≤ numaMaxNodes

structure Options where
  hugePages : Bool
  numaAware : Bool
  deriving DecidableEq, Repr

/-- The kernel's answers during one call; `none` is a failed mapping. A promotion carries
the time stamp that is recorded with the region. -/
structure OsAnswers where
  giganticMmap : Option ℕ
  hugeMmap : Option ℕ
  plainMmap : Option ℕ
  anchorMmap : Option ℕ
  mprotect : Bool
  promote : Option ℕ
  currentNode : ℕ
  mbind : Bool
  deriving DecidableEq, Repr

/-- `struct v8m_anchor_reservation` of an initialised reservation. -/
structure AnchorReservation where
  base : ℕ
  cap : ℕ
  bumpOffset : ℕ
  bump_le : bumpOffset ≤ cap
  deriving DecidableEq, Repr

/-- The reservation is attempted once, by the first call that could use it. -/
inductive Anchor
  | untried
  | failed
  | ready (res : AnchorReservation)
  deriving DecidableEq, Repr

structure HeapState where
  regions : RegionMap
  anchor : Anchor
  perNodeBytes : ℕ → ℕ
  perNodeSuppressed : ℕ → Bool
  bytesMapped : ℕ
  bytesUnmapped : ℕ
  peakLiveBytes : ℕ
  /-- The difference of the two totals after each change since the peak was last reset, the
  newest first. No function reads it. -/
  moments : List ℤ
  /-- The addresses the process can read and write. -/
  space : ℕ → Bool

def HeapState.init : HeapState :=
  ⟨.empty, .untried, fun _ => 0, fun _ => false, 0, 0, 0, [0], fun _ => false⟩

/-- Makes `n` bytes accessible: a mapping, or `mprotect` on a part of the anchor. -/
def HeapState.grant (h : HeapState) (lo n : ℕ) : HeapState :=
  { h with space := fun x => decide (lo ≤ x ∧ x < lo + n) || h.space x }

/-- Takes `n` bytes away: `munmap`, or `mprotect` with `PROT_NONE`. -/
def HeapState.revoke (h : HeapState) (lo n : ℕ) : HeapState :=
  { h with space := fun x => !decide (lo ≤ x ∧ x < lo + n) && h.space x }

def liveBytes (mapped unmapped : ℕ) : ℕ := if mapped > unmapped then mapped - unmapped else 0

def HeapState.recordMmap (h : HeapState) (bytes : ℕ) : HeapState :=
  let mapped := (h.bytesMapped + bytes) % 2 ^ 64
  { h with
    bytesMapped := mapped
    peakLiveBytes := max h.peakLiveBytes (liveBytes mapped h.bytesUnmapped)
    moments := ((mapped : ℤ) - h.bytesUnmapped) :: h.moments }

def HeapState.recordMunmap (h : HeapState) (bytes : ℕ) : HeapState :=
  let unmapped := (h.bytesUnmapped + bytes) % 2 ^ 64
  { h with
    bytesUnmapped := unmapped
    moments := ((h.bytesMapped : ℤ) - unmapped) :: h.moments }

/-- Unmaps one end of a mapping that was made too long. -/
def HeapState.trim (h : HeapState) (lo n : ℕ) : HeapState :=
  if n > 0 then (h.revoke lo n).recordMunmap n else h

/-! ### The anchor reservation -/

def anchorCap (M : Machine) : ℕ := alignUp anchorDefaultCapBytes M.osPageSize

def anchorGet (M : Machine) (os : OsAnswers) (h : HeapState) : HeapState :=
  match h.anchor with
  | .untried =>
    match os.anchorMmap with
    | none => { h with anchor := .failed }
    | some base => { h with anchor := .ready ⟨base, anchorCap M, 0, Nat.zero_le _⟩ }
  | _ => h

/-- The absolute address is aligned, not the offset; the padding stays in the anchor. -/
def anchorReservationCarve (res : AnchorReservation) (bytes alignment : ℕ) (mprotect : Bool) :
    Option (ℕ × AnchorReservation) :=
  if res.base = 0 ∨ bytes = 0 then none
  else
    let alignment := if alignment = 0 then 1 else alignment
    if (alignment &&& (alignment - 1)) ≠ 0 then none
    else
      let target := (res.base + res.bumpOffset) % addressSpace
      let alignedTarget := alignUp target alignment
      if alignedTarget < target then none
      else
        let alignedOffset := (alignedTarget + addressSpace - res.base) % addressSpace
        if h : alignedOffset > res.cap ∨ bytes > res.cap - alignedOffset then none
        else if mprotect then
          some (alignedTarget, ⟨res.base, res.cap, alignedOffset + bytes, by omega⟩)
        else none

def anchorReservationRelease (h : HeapState) (ptr bytes : ℕ) : HeapState :=
  match h.anchor with
  | .ready res =>
    if ptr < res.base ∨ ptr - res.base ≥ res.cap ∨ bytes > res.cap - (ptr - res.base) then h
    else h.revoke ptr bytes
  | _ => h

/-! ### The four sources -/

def reserveAligned (M : Machine) (os : OsAnswers) (h : HeapState) (bytes alignment : ℕ) :
    Option ℕ × HeapState :=
  if alignment ≤ M.osPageSize then
    match os.plainMmap with
    | none => (none, h)
    | some direct => (some direct, (h.grant direct bytes).recordMmap bytes)
  else if bytes > 2 ^ 64 - 1 - alignment then (none, h)
  else
    match os.plainMmap with
    | none => (none, h)
    | some raw =>
      let request := bytes + alignment
      let h := (h.grant raw request).recordMmap request
      let aligned := alignUp raw alignment
      let pre := aligned - raw
      let post := request - pre - bytes
      (some aligned, (h.trim raw pre).trim (aligned + bytes) post)

/-- The result, whether it is a carve, and the heap. -/
def anchorOrMmap (M : Machine) (os : OsAnswers) (h : HeapState) (bytes alignment : ℕ) :
    Option ℕ × Bool × HeapState :=
  let plain (h : HeapState) : Option ℕ × Bool × HeapState :=
    let out := reserveAligned M os h bytes alignment
    (out.1, false, out.2)
  if bytes ≥ hugePageSize then
    let h := anchorGet M os h
    match h.anchor with
    | .ready res =>
      match anchorReservationCarve res bytes alignment os.mprotect with
      | some (carved, res) =>
        (some carved, true, { h.grant carved bytes with anchor := .ready res })
      | none => plain h
    | _ => plain h
  else plain h

def tryGigantic (opts : Options) (os : OsAnswers) (bytes alignment : ℕ) : Option ℕ :=
  if bytes < giganticBytes ∨ bytes % giganticBytes ≠ 0 ∨ alignment < giganticBytes ∨
      opts.hugePages = false then none
  else os.giganticMmap

def tryHugetlb (opts : Options) (os : OsAnswers) (bytes alignment : ℕ) : Option ℕ :=
  if bytes < hugePageSize ∨ bytes % hugePageSize ≠ 0 ∨ alignment < hugePageSize ∨
      opts.hugePages = false then none
  else os.hugeMmap

/-! ### Nodes -/

def numaFallbackNode (M : Machine) (source rank : ℕ) : ℕ :=
  if source ≥ M.nodeCount then source
  else if rank ≥ M.nodeCount then source
  else M.fallback source rank

/-- The nearest other node that is not suppressed, if the current node is. -/
def divertedNode (M : Machine) (h : HeapState) (node : ℕ) : ℕ :=
  if h.perNodeSuppressed node then
    let ranks := (List.range M.nodeCount).map (numaFallbackNode M node)
    let open_ (alt : ℕ) : Bool := alt < M.nodeCount && alt ≠ node && !h.perNodeSuppressed alt
    (ranks.find? open_).getD node
  else node

/-- The node the region was bound to. -/
def bindToLocalNode (M : Machine) (opts : Options) (os : OsAnswers) (h : HeapState) : Option ℕ :=
  if opts.numaAware = false then none
  else if M.nodeCount ≤ 1 then none
  else if os.currentNode ≥ M.nodeCount then none
  else if os.mbind then some (divertedNode M h os.currentNode)
  else none

/-- Replaces the entry of the region that starts at `ptr`, if there is one. -/
def regionUpdate (T : RegionMap) (ptr : ℕ) (f : RegionEntry → RegionEntry) : RegionMap :=
  match regionFindByStart T ptr with
  | none => T
  | some idx => { T with regions := update T.regions idx (f (T.regions idx)) }

def regionRecordNode (T : RegionMap) (ptr node : ℕ) : RegionMap :=
  regionUpdate T ptr fun entry => { entry with node := node }

def regionRecordPromote (T : RegionMap) (ptr tsc : ℕ) : RegionMap :=
  regionUpdate T ptr fun entry => { entry with promotedAtTsc := tsc }

def bindAndAccount (M : Machine) (opts : Options) (os : OsAnswers) (h : HeapState)
    (addr bytes : ℕ) : HeapState :=
  match bindToLocalNode M opts os h with
  | none => h
  | some chosen =>
    { h with
      regions := regionRecordNode h.regions addr (chosen % 2 ^ 16)
      perNodeBytes := update h.perNodeBytes chosen
        ((h.perNodeBytes chosen + bytes) % 2 ^ 64) }

/-! ### Allocation and release -/

/-- Registers a mapping, or gives it back when the table is full. -/
def registerAndBindMmap (M : Machine) (opts : Options) (os : OsAnswers) (h : HeapState)
    (ptr bytes : ℕ) : Option ℕ × HeapState :=
  let h := (h.grant ptr bytes).recordMmap bytes
  let out := regionRegisterWithFlags h.regions ptr bytes false
  if out.1 ≠ 0 then (none, (h.revoke ptr bytes).recordMunmap bytes)
  else (some ptr, bindAndAccount M opts os { h with regions := out.2 } ptr bytes)

/-- The advice for transparent huge pages; only a promotion is recorded. -/
def adviseHuge (opts : Options) (os : OsAnswers) (T : RegionMap) (ptr bytes : ℕ)
    (usedAnchor : Bool) : RegionMap :=
  if bytes ≥ hugePageSize ∧ opts.hugePages then
    match os.promote with
    | none => T
    | some tsc => if usedAnchor then T else regionRecordPromote T ptr tsc
  else T

def pageHeapAlloc (M : Machine) (opts : Options) (os : OsAnswers) (h : HeapState)
    (bytes alignment : ℕ) : Option ℕ × HeapState :=
  if bytes = 0 ∨ alignment < pageSize ∨ isPowerOfTwo alignment = false then (none, h)
  else
    match tryGigantic opts os bytes alignment with
    | some gigantic => registerAndBindMmap M opts os h gigantic bytes
    | none =>
      match tryHugetlb opts os bytes alignment with
      | some huge => registerAndBindMmap M opts os h huge bytes
      | none =>
        match anchorOrMmap M os h bytes alignment with
        | (none, _, h) => (none, h)
        | (some result, usedAnchor, h) =>
          let out := regionRegisterWithFlags h.regions result bytes usedAnchor
          if out.1 ≠ 0 then
            if usedAnchor then (none, anchorReservationRelease h result bytes)
            else (none, (h.revoke result bytes).recordMunmap bytes)
          else
            let regions := adviseHuge opts os out.2 result bytes usedAnchor
            (some result, bindAndAccount M opts os { h with regions := regions } result bytes)

/-- Takes the bytes of a region off the count of its node. -/
def HeapState.unaccount (h : HeapState) (node bytes : ℕ) : HeapState :=
  if node ≠ regionNodeUnbound ∧ node < numaMaxNodes then
    { h with
      perNodeBytes := update h.perNodeBytes node
        ((h.perNodeBytes node + 2 ^ 64 - bytes) % 2 ^ 64) }
  else h

def pageHeapFree (h : HeapState) (ptr bytes : ℕ) : HeapState :=
  if ptr = 0 ∨ bytes = 0 then h
  else
    let out := regionUnregisterWithFlags h.regions ptr
    let node := out.1.1
    let h := ({ h with regions := out.2 } : HeapState).unaccount node bytes
    if out.1.2 then anchorReservationRelease h ptr bytes
    else (h.revoke ptr bytes).recordMunmap bytes

def pageHeapResetPeak (h : HeapState) : HeapState :=
  { h with
    peakLiveBytes := liveBytes h.bytesMapped h.bytesUnmapped
    moments := [(h.bytesMapped : ℤ) - h.bytesUnmapped] }

/-! ### Rebalancing -/

/-- The fields of `struct v8m_numa_balance_stats` that the rebalance pass reads. -/
structure NumaBalance where
  nodeCount : ℕ
  mostLoadedNode : ℕ
  mostLoadedBytes : ℕ
  averageBytesPerNode : ℕ
  imbalanced : Bool
  deriving DecidableEq, Repr

/-- One node of the snapshot loop over the total, the most bytes and their node. -/
def balanceStep (perNodeBytes : ℕ → ℕ) (acc : ℕ × ℕ × ℕ) (node : ℕ) : ℕ × ℕ × ℕ :=
  let bytes := perNodeBytes node
  let total := (acc.1 + bytes) % 2 ^ 64
  if bytes > acc.2.1 then (total, bytes, node) else (total, acc.2.1, acc.2.2)

def pageHeapGetNumaBalance (M : Machine) (h : HeapState) : NumaBalance :=
  let nodeCount := min M.nodeCount numaMaxNodes
  let acc := (List.range nodeCount).foldl (balanceStep h.perNodeBytes) (0, 0, 0)
  let average := if nodeCount > 0 then acc.1 / nodeCount else 0
  { nodeCount := nodeCount
    mostLoadedNode := acc.2.2
    mostLoadedBytes := acc.2.1
    averageBytesPerNode := average
    imbalanced := nodeCount ≥ 2 && acc.2.1 * 2 % 2 ^ 64 > average * 3 % 2 ^ 64 }

/-- The first region of the node is stamped with the other one; `move_pages` itself moves
physical pages only. -/
def migrateOneRegion (T : RegionMap) (fromNode toNode : ℕ) : RegionMap :=
  match (List.range T.regionCount).find? fun i => (T.regions i).node = fromNode with
  | none => T
  | some i =>
    { T with regions := update T.regions i { T.regions i with node := toNode % 2 ^ 16 } }

/-- Whether the rebalance pass goes on to migrate. -/
def migrates (M : Machine) (h : HeapState) : Bool :=
  let snap := pageHeapGetNumaBalance M h
  let fallback := numaFallbackNode M snap.mostLoadedNode 1
  snap.imbalanced && fallback < numaMaxNodes && fallback ≠ snap.mostLoadedNode

def pageHeapNumaRebalance (M : Machine) (h : HeapState) : HeapState :=
  let snap := pageHeapGetNumaBalance M h
  if snap.nodeCount ≤ 1 then h
  else
    let h' := { h with
      perNodeSuppressed := fun node =>
        if node < min snap.nodeCount numaMaxNodes then
          snap.imbalanced && node = snap.mostLoadedNode
        else h.perNodeSuppressed node }
    if migrates M h then
      { h' with
        regions := migrateOneRegion h'.regions (snap.mostLoadedNode % 2 ^ 16)
          (numaFallbackNode M snap.mostLoadedNode 1) }
    else h'

end V8Malloc.PageHeap
