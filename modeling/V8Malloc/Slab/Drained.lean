import V8Malloc.Lib.Aging
import V8Malloc.Slab.PoolRuns

/-!
# The drained cache

The cache of parked pages as `v8m_slab_pool.c` keeps it: two parallel arrays
and a count. A push and a pop work at the top; a sweep ages the entries,
releases some of them and shifts the others down in place. The heap keeps the
same entries as a list, last parked first.
-/
namespace V8Malloc

open Aging

variable {n arena cls cpu : ℕ} {h h' : Heap} {blk : Blocks} {uafActive : Bool}

/-! ### The arrays -/

structure DrainedCache where
  drained : ℕ → ℕ
  drainedIdle : ℕ → ℕ
  drainedCount : ℕ

namespace DrainedCache

def init : DrainedCache := ⟨fun _ => 0, fun _ => 0, 0⟩

def set (c : DrainedCache) (i page ticks : ℕ) : DrainedCache :=
  { c with
    drained := Function.update c.drained i page
    drainedIdle := Function.update c.drainedIdle i ticks }

def cell (c : DrainedCache) (i : ℕ) : ℕ × ℕ := (c.drained i, c.drainedIdle i)

end DrainedCache

def drainedPop (c : DrainedCache) : ℕ × DrainedCache :=
  if c.drainedCount = 0 then (0, c)
  else
    let top := c.drainedCount - 1
    (c.drained top, { c.set top 0 0 with drainedCount := top })

def drainedPush (c : DrainedCache) (page : ℕ) : Bool × DrainedCache :=
  if c.drainedCount ≥ slabDrainedCap then (false, c)
  else (true, { c.set c.drainedCount page 0 with drainedCount := c.drainedCount + 1 })

/-- The loop of a sweep, with `left` entries to read: the next place to write, the arrays, and the
pages released so far. -/
def sweepLoop (maxIdleTicks : ℕ) :
    ℕ → ℕ → ℕ → DrainedCache → List ℕ → ℕ × DrainedCache × List ℕ
  | 0, _, write, c, released => (write, c, released)
  | left + 1, read, write, c, released =>
    let idle := c.drainedIdle read
    let ticks := if idle < idleTicksMax then idle + 1 else idle
    if ticks ≥ maxIdleTicks then
      sweepLoop maxIdleTicks left (read + 1) write c (released ++ [c.drained read])
    else
      sweepLoop maxIdleTicks left (read + 1) (write + 1) (c.set write (c.drained read) ticks)
        released

/-- The arrays and the pages passed to `release_slab_page_immediate`. -/
def sweepIdle (maxIdleTicks : ℕ) (c : DrainedCache) : DrainedCache × List ℕ :=
  let (write, swept, released) := sweepLoop maxIdleTicks c.drainedCount 0 0 c []
  let cleared := (List.range' write (c.drainedCount - write)).foldl (fun c i => c.set i 0 0) swept
  ({ cleared with drainedCount := write }, released)

/-! ### The list behind the arrays -/

/-- The arrays hold the entries of the list, whose first entry is the top one. -/
structure Holds (c : DrainedCache) (entries : List (ℕ × ℕ)) : Prop where
  count : c.drainedCount = entries.length
  cells : ∀ i, c.cell i = entries.reverse.getD i (0, 0)

variable {c : DrainedCache} {entries : List (ℕ × ℕ)} {entry : ℕ × ℕ}

theorem holds_init : Holds .init [] := ⟨rfl, fun _ => rfl⟩

@[simp] theorem cell_set_self (i page ticks : ℕ) : (c.set i page ticks).cell i = (page, ticks) := by
  simp [DrainedCache.set, DrainedCache.cell]

theorem cell_set_of_ne {i j : ℕ} (hne : j ≠ i) (page ticks : ℕ) :
    (c.set i page ticks).cell j = c.cell j := by
  simp [DrainedCache.set, DrainedCache.cell, hne]

theorem Holds.push (hc : Holds c entries) (hroom : entries.length < slabDrainedCap) (page : ℕ) :
    drainedPush c page = (true, (drainedPush c page).2) ∧
      Holds (drainedPush c page).2 ((page, 0) :: entries) := by
  have hnot : ¬ c.drainedCount ≥ slabDrainedCap := by rw [hc.count]; omega
  simp only [drainedPush, if_neg hnot, true_and]
  refine ⟨by simp [hc.count], fun i => ?_⟩
  change (c.set c.drainedCount page 0).cell i = _
  rw [List.reverse_cons]
  by_cases htop : i = c.drainedCount
  · rw [htop, cell_set_self, hc.count, List.getD_append_right _ _ _ _ (by simp)]
    simp
  · rw [cell_set_of_ne htop, hc.cells i]
    rw [hc.count] at htop
    by_cases hlt : i < entries.length
    · rw [List.getD_append _ _ _ _ (by simpa using hlt)]
    · rw [List.getD_eq_default _ _ (by simpa using hlt),
        List.getD_eq_default _ _ (by simp; omega)]

theorem Holds.push_full (hc : Holds c entries) (hfull : ¬ entries.length < slabDrainedCap)
    (page : ℕ) : drainedPush c page = (false, c) := by
  rw [drainedPush, if_pos]
  rw [hc.count]
  omega

/-- The pop gives the first page of the list. -/
theorem Holds.pop (hc : Holds c (entry :: entries)) :
    (drainedPop c).1 = entry.1 ∧ Holds (drainedPop c).2 entries := by
  have hcount : c.drainedCount = entries.length + 1 := hc.count
  have hcells := hc.cells
  rw [List.reverse_cons] at hcells
  have htop := hcells entries.length
  rw [List.getD_append_right _ _ _ _ (by simp)] at htop
  simp only [drainedPop, hcount, Nat.add_one_ne_zero, if_false, Nat.add_sub_cancel]
  refine ⟨?_, rfl, fun i => ?_⟩
  · simpa [DrainedCache.cell] using congrArg Prod.fst htop
  · change (c.set entries.length 0 0).cell i = _
    by_cases heq : i = entries.length
    · rw [heq, cell_set_self, List.getD_eq_default _ _ (by simp)]
    · rw [cell_set_of_ne heq, hcells i]
      by_cases hlt : i < entries.length
      · rw [List.getD_append _ _ _ _ (by simpa using hlt)]
      · rw [List.getD_eq_default _ _ (by simp; omega),
          List.getD_eq_default _ _ (by simpa using hlt)]

theorem Holds.pop_nil (hc : Holds c []) : drainedPop c = (0, c) := if_pos hc.count

/-! ### The sweep -/

/-- The entries of `len` places from `lo` on. -/
def DrainedCache.span (c : DrainedCache) (lo len : ℕ) : List (ℕ × ℕ) :=
  (List.range' lo len).map c.cell

theorem span_succ (lo len : ℕ) : c.span lo (len + 1) = c.cell lo :: c.span (lo + 1) len := by
  rw [DrainedCache.span, List.range'_succ, List.map_cons]
  rfl

theorem span_congr {c' : DrainedCache} {lo len : ℕ}
    (hsame : ∀ i, lo ≤ i → i < lo + len → c'.cell i = c.cell i) : c'.span lo len = c.span lo len := by
  apply List.map_congr_left
  intro i hi
  rw [List.mem_range'_1] at hi
  exact hsame i hi.1 hi.2

theorem Holds.span_eq (hc : Holds c entries) : c.span 0 c.drainedCount = entries.reverse := by
  apply List.ext_getElem
  · simp [DrainedCache.span, hc.count]
  · intro i hi hi'
    simp only [DrainedCache.span, List.getElem_map, List.getElem_range', hc.cells]
    rw [List.getD_eq_getElem _ _ (by simpa using hi')]
    simp

/-- The kept entries move down to `write` in their order; places below stay as they were. -/
structure Swept (maxIdleTicks left read write : ℕ) (c : DrainedCache) (released : List ℕ)
    (out : ℕ × DrainedCache × List ℕ) : Prop where
  write_eq : out.1 = write + ((c.span read left).filterMap (drainedTick maxIdleTicks)).length
  kept : out.2.1.span write ((c.span read left).filterMap (drainedTick maxIdleTicks)).length =
    (c.span read left).filterMap (drainedTick maxIdleTicks)
  below : ∀ i < write, out.2.1.cell i = c.cell i
  above : ∀ i, read + left ≤ i → out.2.1.cell i = c.cell i
  released_eq : out.2.2 = released ++
    ((c.span read left).filter fun entry => (drainedTick maxIdleTicks entry).isNone).map Prod.fst

theorem sweepLoop_spec (maxIdleTicks left : ℕ) : ∀ (read : ℕ) {write : ℕ} (c : DrainedCache)
    (released : List ℕ), write ≤ read →
      Swept maxIdleTicks left read write c released
        (sweepLoop maxIdleTicks left read write c released) := by
  induction left with
  | zero =>
    intro read write c released hle
    exact ⟨rfl, rfl, fun _ _ => rfl, fun _ _ => rfl, by simp [sweepLoop, DrainedCache.span]⟩
  | succ left ih =>
    intro read write c released hle
    simp only [sweepLoop]
    generalize hticks : (if c.drainedIdle read < idleTicksMax then c.drainedIdle read + 1
      else c.drainedIdle read) = ticks
    have htick : drainedTick maxIdleTicks (c.cell read) =
        if ticks ≥ maxIdleTicks then none else some (c.drained read, ticks) := by
      rw [← hticks]
      rfl
    by_cases hmature : ticks ≥ maxIdleTicks
    · rw [if_pos hmature] at htick ⊢
      have hrest := ih (read + 1) c (released ++ [c.drained read]) (hle.trans (Nat.le_succ _))
      have hspan : (c.span read (left + 1)).filterMap (drainedTick maxIdleTicks) =
          (c.span (read + 1) left).filterMap (drainedTick maxIdleTicks) := by
        rw [span_succ, List.filterMap_cons_none htick]
      refine ⟨?_, ?_, hrest.below, fun i hi => hrest.above i (by omega), ?_⟩
      · rw [hspan]
        exact hrest.write_eq
      · rw [hspan]
        exact hrest.kept
      · rw [hrest.released_eq, span_succ, List.filter_cons_of_pos (by simp [htick])]
        simp [DrainedCache.cell]
    · rw [if_neg hmature] at htick ⊢
      have hrest := ih (read + 1) (c.set write (c.drained read) ticks) released
        (Nat.succ_le_succ hle)
      have hsame : (c.set write (c.drained read) ticks).span (read + 1) left =
          c.span (read + 1) left :=
        span_congr fun i hlo _ => cell_set_of_ne (by omega) _ _
      have hspan : (c.span read (left + 1)).filterMap (drainedTick maxIdleTicks) =
          (c.drained read, ticks) :: (c.span (read + 1) left).filterMap (drainedTick maxIdleTicks) := by
        rw [span_succ, List.filterMap_cons_some htick]
      have hkept := hrest.kept
      have hwrite := hrest.write_eq
      rw [hsame] at hkept hwrite
      refine ⟨?_, ?_, fun i hi => ?_, fun i hi => ?_, ?_⟩
      · rw [hspan, List.length_cons, hwrite]
        omega
      · rw [hspan, List.length_cons, span_succ, hkept, hrest.below write (Nat.lt_succ_self _),
          cell_set_self]
      · rw [hrest.below i (by omega), cell_set_of_ne (by omega)]
      · rw [hrest.above i (by omega), cell_set_of_ne (by omega)]
      · rw [hrest.released_eq, hsame, span_succ, List.filter_cons_of_neg (by simp [htick])]

theorem cell_clear (places : List ℕ) (c : DrainedCache) (i : ℕ) :
    (places.foldl (fun c i => c.set i 0 0) c).cell i = if i ∈ places then (0, 0) else c.cell i := by
  induction places generalizing c with
  | nil => simp
  | cons j rest ih =>
    rw [List.foldl_cons, ih]
    by_cases hmem : i ∈ rest
    · simp [hmem]
    · by_cases heq : i = j
      · simp [heq]
      · simp [hmem, heq, cell_set_of_ne heq]

/-- The sweep keeps and ages the same entries as on the list. -/
theorem Holds.sweep (hc : Holds c entries) (maxIdleTicks : ℕ) :
    Holds (sweepIdle maxIdleTicks c).1 (entries.filterMap (drainedTick maxIdleTicks)) ∧
      (sweepIdle maxIdleTicks c).2 =
        ((entries.filter fun entry => (drainedTick maxIdleTicks entry).isNone).map
          Prod.fst).reverse := by
  have hswept := sweepLoop_spec maxIdleTicks c.drainedCount 0 c [] (Nat.le_refl 0)
  obtain ⟨hwrite, hkept, -, habove, hreleased⟩ := hswept
  rw [hc.span_eq] at hwrite hkept hreleased
  simp only [sweepIdle]
  generalize sweepLoop maxIdleTicks c.drainedCount 0 0 c [] = out at *
  obtain ⟨write, swept, released⟩ := out
  dsimp only at hwrite hkept habove hreleased ⊢
  rw [List.filterMap_reverse, List.length_reverse, Nat.zero_add] at hwrite
  rw [List.filterMap_reverse, List.length_reverse, ← hwrite] at hkept
  refine ⟨⟨hwrite, fun i => ?_⟩, ?_⟩
  · change ((List.range' write (c.drainedCount - write)).foldl (fun c i => c.set i 0 0) swept).cell i
      = _
    have hle : write ≤ c.drainedCount := by
      rw [hwrite, hc.count]
      exact List.length_filterMap_le _ _
    rw [cell_clear, ← hkept]
    simp only [List.mem_range'_1]
    by_cases hlt : i < write
    · rw [if_neg (by omega), List.getD_eq_getElem _ _ (by simpa [DrainedCache.span] using hlt)]
      simp [DrainedCache.span]
    · rw [List.getD_eq_default _ _ (by simpa [DrainedCache.span] using hlt)]
      by_cases hin : i < c.drainedCount
      · rw [if_pos (by omega)]
      · rw [if_neg (by omega), habove i (by omega), hc.cells,
          List.getD_eq_default _ _ (by rw [hc.count] at hin; simpa using hin)]
  · rw [hreleased, List.nil_append, List.filter_reverse, List.map_reverse]

end V8Malloc
