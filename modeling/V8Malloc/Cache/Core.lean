import V8Malloc.Slab.Pool

/-!
# Per-CPU stacks and the refill controller

Embedding of `v8m_core_cache.c` and `v8m_refill_controller.c`. A stack is one
word, the address of its top with a tag of 16 bits above it. Whole calls are
the steps here, so each compare-and-swap succeeds at once. The controller
decides how many slots a refill moves.
-/
namespace V8Malloc

open ByteMemory Function

def numaMaxCpus : ℕ := 4096
def tagptrPtrBits : ℕ := 48
/-- `V8M_STEAL_NO_DONOR`. -/
def stealNoDonor : ℕ := 2 ^ 32 - 1

def tagptrMake (ptr tag : ℕ) : ℕ := ptr % 2 ^ tagptrPtrBits + tag % 2 ^ 16 * 2 ^ tagptrPtrBits
def tagptrPtr (tagged : ℕ) : ℕ := tagged % 2 ^ tagptrPtrBits
def tagptrTag (tagged : ℕ) : ℕ := tagged / 2 ^ tagptrPtrBits % 2 ^ 16

theorem tagptrPtr_make {ptr : ℕ} (hptr : ptr < 2 ^ tagptrPtrBits) (tag : ℕ) :
    tagptrPtr (tagptrMake ptr tag) = ptr := by
  rw [tagptrPtr, tagptrMake, Nat.add_mul_mod_self_right, Nat.mod_mod, Nat.mod_eq_of_lt hptr]

theorem tagptrTag_make (ptr tag : ℕ) : tagptrTag (tagptrMake ptr tag) = tag % 2 ^ 16 := by
  have hpos : 0 < 2 ^ tagptrPtrBits := by decide
  have hlow : ptr % 2 ^ tagptrPtrBits / 2 ^ tagptrPtrBits = 0 :=
    Nat.div_eq_of_lt (Nat.mod_lt ptr hpos)
  rw [tagptrTag, tagptrMake, Nat.add_mul_div_right _ _ hpos, hlow, Nat.zero_add, Nat.mod_mod]

/-- The stacks by CPU and class, the last CPU that pushed on each class, and the pushes of a
thread. -/
structure CoreCaches where
  stackWords : ℕ → ℕ → ℕ
  lastPushCpu : ℕ → ℕ
  pushSampleCount : ℕ → ℕ

def CoreCaches.fresh : CoreCaches := ⟨fun _ _ => 0, fun _ => stealNoDonor, fun _ => 0⟩

/-- The word of a stack is replaced by one with the next tag. -/
def CoreCaches.setTop (core : CoreCaches) (cpu cls ptr : ℕ) : CoreCaches :=
  let word := tagptrMake ptr (tagptrTag (core.stackWords cpu cls) + 1)
  let words := update (core.stackWords cpu) cls word
  { core with stackWords := update core.stackWords cpu words }

def coreCacheForCpu (cpu : ℕ) : Option ℕ := if cpu ≥ numaMaxCpus then none else some cpu

def coreCachePop (core : CoreCaches) (m : Mem) (cpu cls : ℕ) : ℕ × CoreCaches :=
  if cls ≥ numSizeClasses then (0, core)
  else
    let node := tagptrPtr (core.stackWords cpu cls)
    if node = 0 then (0, core) else (node, core.setTop cpu cls (load64 m node))

/-- `thread` pushes on the stack of `cpu` while it runs on `here`. -/
def coreCachePushBatch (core : CoreCaches) (m : Mem) (thread here cpu cls head tail : ℕ) :
    CoreCaches × Mem :=
  if head = 0 ∨ tail = 0 ∨ cls ≥ numSizeClasses then (core, m)
  else
    let m := store64 m tail (tagptrPtr (core.stackWords cpu cls))
    let core := core.setTop cpu cls head
    let sample := core.pushSampleCount thread
    let core := { core with
      pushSampleCount := update core.pushSampleCount thread ((sample + 1) % 2 ^ 32) }
    -- one push in 64 publishes where it happened
    if sample % 64 = 0 ∧ here < numaMaxCpus then
      ({ core with lastPushCpu := update core.lastPushCpu cls here }, m)
    else (core, m)

def coreCachePopLoop (cpu cls : ℕ) : ℕ → Batch → CoreCaches → Mem → Batch × CoreCaches × Mem
  | 0, batch, core, m => (batch, core, m)
  | left + 1, batch, core, m =>
    let out := coreCachePop core m cpu cls
    if out.1 = 0 then (batch, out.2, m)
    else if batch.head = 0 then
      coreCachePopLoop cpu cls left ⟨out.1, out.1, batch.count + 1⟩ out.2 m
    else
      coreCachePopLoop cpu cls left ⟨batch.head, out.1, batch.count + 1⟩ out.2
        (store64 m batch.tail out.1)

def coreCachePopBatch (core : CoreCaches) (m : Mem) (cpu cls max : ℕ) :
    Batch × CoreCaches × Mem :=
  if cls ≥ numSizeClasses ∨ max = 0 then (⟨0, 0, 0⟩, core, m)
  else
    let out := coreCachePopLoop cpu cls max ⟨0, 0, 0⟩ core m
    (out.1, out.2.1, if out.1.count > 0 then store64 out.2.2 out.1.tail 0 else out.2.2)

def coreCacheStealBatch (core : CoreCaches) (m : Mem) (cls excludeCpu max : ℕ) :
    Batch × CoreCaches × Mem :=
  if cls ≥ numSizeClasses ∨ max = 0 then (⟨0, 0, 0⟩, core, m)
  else
    let donor := core.lastPushCpu cls
    if donor = stealNoDonor ∨ donor = excludeCpu ∨ donor ≥ numaMaxCpus then (⟨0, 0, 0⟩, core, m)
    else coreCachePopBatch core m donor cls max

/-! ### The refill controller -/

def refillBatchMin : ℕ := 8
def refillBatchMax : ℕ := 64
def refillTargetHoldMicros : ℕ := 100

structure RefillClass where
  emaDemand : ℕ
  batchSize : ℕ
  lastRefillTsc : ℕ
  deriving DecidableEq, Repr

abbrev RefillController := ℕ → RefillClass

def refillControllerInit : RefillController := fun _ => ⟨0, refillBatchMin, 0⟩

def refillBatch (ticksPerMicro elapsed ema batchSize : ℕ) : ℕ :=
  let batch :=
    if elapsed > 0 then
      let targetTicks := refillTargetHoldMicros * ticksPerMicro % 2 ^ 64
      min (ema * targetTicks % 2 ^ 64 / elapsed) refillBatchMax
    else batchSize
  min (max batch refillBatchMin) refillBatchMax

def refillControllerComputeBatch (now ticksPerMicro : ℕ) (ctrl : RefillController)
    (cls actualDemand : ℕ) : ℕ × RefillController :=
  if cls ≥ numSizeClasses then (refillBatchMin, ctrl)
  else
    let state := ctrl cls
    let last := state.lastRefillTsc
    let elapsed := if last = 0 ∨ now ≤ last then 0 else now - last
    let ema := (3 * state.emaDemand + actualDemand) >>> 2 % 2 ^ 32
    let batch := refillBatch ticksPerMicro elapsed ema state.batchSize
    (batch, update ctrl cls ⟨ema, batch, now⟩)

end V8Malloc
