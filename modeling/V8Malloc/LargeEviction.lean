import V8Malloc.Large

/-!
# Which region the recycle cache evicts

`large_cache_put` evicts slot 0 of a full cache as the oldest entry. The slots
are in the order of insertion only as long as no `large_cache_take` has moved
the last entry over an older neighbour. Every entry carries here the number of
puts before its own.
-/
namespace V8Malloc

structure CachedRegion where
  region : ℕ
  mmapSize : ℕ
  /-- How many puts came before. -/
  born : ℕ
  deriving DecidableEq, Repr

def CachedRegion.entry (e : CachedRegion) : ℕ × ℕ := (e.region, e.mmapSize)

instance : Inhabited CachedRegion := ⟨⟨0, 0, 0⟩⟩

inductive CacheOp where
  | put (region mmapSize : ℕ)
  | take (mmapSize : ℕ)
  deriving DecidableEq, Repr

/-- The cache, the same cache with the ages, and the number of puts so far. -/
structure AgedCache where
  cache : List (ℕ × ℕ)
  aged : List CachedRegion
  puts : ℕ
  deriving DecidableEq, Repr

/-- The ages move with their entries. -/
def AgedCache.step (s : AgedCache) : CacheOp → AgedCache
  | .put region mmapSize =>
    { cache := (largeCachePut s.cache region mmapSize).2
      aged := (if s.aged.length = largeCacheCap then s.aged.tail else s.aged) ++
        [⟨region, mmapSize, s.puts⟩]
      puts := s.puts + 1 }
  | .take mmapSize =>
    { s with
      cache := (largeCacheTake s.cache mmapSize).2
      aged := match s.aged.findIdx? fun e => e.mmapSize == mmapSize with
        | none => s.aged
        | some i => (s.aged.set i (s.aged.getLastD default)).dropLast }

def agedCache (ops : List CacheOp) : AgedCache := ops.foldl AgedCache.step ⟨[], [], 0⟩

@[simp] theorem agedCache_concat (ops : List CacheOp) (op : CacheOp) :
    agedCache (ops ++ [op]) = (agedCache ops).step op := by
  simp [agedCache]

/-! ### The ages beside the cache -/

/-- The slot a take empties does not depend on the ages. -/
theorem findIdx_entry (aged : List CachedRegion) (n : ℕ) :
    (aged.map CachedRegion.entry).findIdx? (fun entry => entry.2 == n) =
      aged.findIdx? fun e => e.mmapSize == n := by
  rw [List.findIdx?_map]
  rfl

theorem step_cache {s : AgedCache} (hs : s.cache = s.aged.map CachedRegion.entry) (op : CacheOp) :
    (s.step op).cache = (s.step op).aged.map CachedRegion.entry := by
  cases op with
  | put region mmapSize =>
    simp only [AgedCache.step, largeCachePut, hs, List.length_map]
    split_ifs <;> simp [CachedRegion.entry]
  | take mmapSize =>
    simp only [AgedCache.step, largeCacheTake, hs, findIdx_entry]
    cases hfind : s.aged.findIdx? fun e => e.mmapSize == mmapSize with
    | none => rfl
    | some i =>
      have hlast : (s.aged.map CachedRegion.entry).getLastD (0, 0) =
          (s.aged.getLastD default).entry := by
        rw [List.getLastD_eq_getLast?, List.getLastD_eq_getLast?, List.getLast?_map]
        cases s.aged.getLast? <;> rfl
      rw [hlast, List.map_dropLast, List.map_set]

theorem agedCache_cache (ops : List CacheOp) :
    (agedCache ops).cache = (agedCache ops).aged.map CachedRegion.entry := by
  induction ops using List.reverseRecOn with
  | nil => rfl
  | append_singleton ops op ih =>
    rw [agedCache_concat]
    exact step_cache ih op

/-! ### Insertion order -/

/-- A take that finds its size finds it in one of the last two slots. -/
def NearEnd (cache : List (ℕ × ℕ)) : CacheOp → Prop
  | .put _ _ => True
  | .take mmapSize => ∀ i, (cache.findIdx? fun entry => entry.2 == mmapSize) = some i →
      cache.length ≤ i + 2

/-- Near the end the hole is filled without overtaking anything. -/
theorem set_getLastD_dropLast_sublist {α : Type*} (l : List α) (d : α) {i : ℕ}
    (hi : l.length ≤ i + 2) : ((l.set i (l.getLastD d)).dropLast).Sublist l := by
  rcases List.eq_nil_or_concat' l with rfl | ⟨front, last, rfl⟩
  · simp
  · rw [List.getLastD_concat]
    rcases lt_trichotomy i front.length with hlt | heq | hgt
    · rcases List.eq_nil_or_concat' front with rfl | ⟨front, beforeLast, rfl⟩
      · exact absurd hlt (Nat.not_lt_zero i)
      · -- the last entry moves down by one slot
        obtain rfl : i = front.length := by
          simp only [List.length_append, List.length_singleton] at hi hlt
          omega
        simp
    · subst heq
      simp
    · rw [List.set_eq_of_length_le (by simp; omega)]
      simp

/-- The slots are ordered by age, and the next put is younger than all of them. -/
structure AgedCache.Ordered (s : AgedCache) : Prop where
  born : s.aged.Pairwise fun e e' => e.born < e'.born
  lt_puts : ∀ e ∈ s.aged, e.born < s.puts

theorem AgedCache.Ordered.step {s : AgedCache} (h : s.Ordered)
    (hs : s.cache = s.aged.map CachedRegion.entry) {op : CacheOp} (hnear : NearEnd s.cache op) :
    (s.step op).Ordered := by
  cases op with
  | put region mmapSize =>
    have hsub : (if s.aged.length = largeCacheCap then s.aged.tail else s.aged).Sublist s.aged := by
      split_ifs
      · exact List.tail_sublist _
      · exact List.Sublist.refl _
    constructor
    · simp only [AgedCache.step, List.pairwise_append, List.pairwise_singleton, List.mem_singleton,
        true_and]
      refine ⟨h.born.sublist hsub, ?_⟩
      rintro e he - rfl
      exact h.lt_puts e (hsub.subset he)
    · intro e he
      simp only [AgedCache.step, List.mem_append, List.mem_singleton] at he ⊢
      rcases he with he | rfl
      · exact (h.lt_puts e (hsub.subset he)).trans (Nat.lt_succ_self _)
      · exact Nat.lt_succ_self _
  | take mmapSize =>
    have hsub : (s.step (.take mmapSize)).aged.Sublist s.aged := by
      simp only [AgedCache.step]
      cases hfind : s.aged.findIdx? fun e => e.mmapSize == mmapSize with
      | none => exact List.Sublist.refl _
      | some i =>
        apply set_getLastD_dropLast_sublist
        rw [← findIdx_entry, ← hs] at hfind
        simpa [hs] using hnear i hfind
    exact ⟨h.born.sublist hsub, fun e he => h.lt_puts e (hsub.subset he)⟩

/-- Every call of the sequence meets the condition in the cache that it finds. -/
def TakesNearEnd (ops : List CacheOp) : Prop :=
  ∀ before op after, ops = before ++ op :: after → NearEnd (agedCache before).cache op

theorem TakesNearEnd.ordered {ops : List CacheOp} (hops : TakesNearEnd ops) :
    (agedCache ops).Ordered := by
  induction ops using List.reverseRecOn with
  | nil => exact ⟨List.Pairwise.nil, by simp [agedCache]⟩
  | append_singleton ops op ih =>
    have hbefore : TakesNearEnd ops := by
      intro before op' after heq
      exact hops before op' (after ++ [op]) (by simp [heq])
    rw [agedCache_concat]
    exact (ih hbefore).step (agedCache_cache ops) (hops ops op [] rfl)

/-- What a put evicts is older than everything else in the cache. -/
theorem put_evicts_oldest (ops : List CacheOp) (hops : TakesNearEnd ops) (region mmapSize : ℕ)
    (evicted : ℕ × ℕ)
    (hput : (largeCachePut (agedCache ops).cache region mmapSize).1 = some evicted) :
    (agedCache ops).aged.length = largeCacheCap ∧
      ∃ oldest ∈ (agedCache ops).aged, evicted = oldest.entry ∧
        ∀ e ∈ (agedCache ops).aged, e ≠ oldest → oldest.born < e.born := by
  have hborn := hops.ordered.born
  rw [agedCache_cache, largeCachePut, List.length_map] at hput
  split_ifs at hput with hfull
  refine ⟨hfull, ?_⟩
  cases haged : (agedCache ops).aged with
  | nil => simp [haged] at hput
  | cons oldest rest =>
    rw [haged, List.pairwise_cons] at hborn
    rw [haged, List.map_cons, List.head?_cons, Option.some.injEq] at hput
    refine ⟨oldest, List.mem_cons_self, hput.symm, ?_⟩
    intro e he hne
    exact hborn.1 e ((List.mem_cons.1 he).resolve_left hne)

/-- Eight regions of eight sizes. -/
def eightPuts : List CacheOp :=
  (List.range 8).map fun i => .put ((i + 1) * 2 ^ 24) ((i + 1) * 2 ^ 16)

theorem put_evicts_oldest_first :
    TakesNearEnd eightPuts ∧
      (largeCachePut (agedCache eightPuts).cache (9 * 2 ^ 24) (9 * 2 ^ 16)).1 =
        some (2 ^ 24, 2 ^ 16) ∧
      ∃ oldest ∈ (agedCache eightPuts).aged, (2 ^ 24, 2 ^ 16) = oldest.entry ∧
        ∀ e ∈ (agedCache eightPuts).aged, e ≠ oldest → oldest.born < e.born := by
  have hnear : TakesNearEnd eightPuts := by
    intro before op after heq
    have hmem : op ∈ eightPuts := by simp [heq]
    obtain ⟨i, -, rfl⟩ := List.mem_map.1 hmem
    exact trivial
  have hput : (largeCachePut (agedCache eightPuts).cache (9 * 2 ^ 24) (9 * 2 ^ 16)).1 =
      some (2 ^ 24, 2 ^ 16) := by
    decide
  exact ⟨hnear, hput, (put_evicts_oldest eightPuts hnear _ _ _ hput).2⟩

/-- The first region is taken again and a ninth one put in. -/
def takeFirstPutNinth : List CacheOp :=
  eightPuts ++ [.take (2 ^ 16), .put (9 * 2 ^ 24) (9 * 2 ^ 16)]

/-- The take has moved the eighth region to slot 0, so the next put evicts it while the second
one, put in long before it, stays. -/
theorem put_evicts_younger :
    (largeCachePut (agedCache takeFirstPutNinth).cache (10 * 2 ^ 24) (10 * 2 ^ 16)).1 =
        some (8 * 2 ^ 24, 8 * 2 ^ 16) ∧
      (agedCache takeFirstPutNinth).aged.filter (fun e => e.region = 8 * 2 ^ 24) =
        [⟨8 * 2 ^ 24, 8 * 2 ^ 16, 7⟩] ∧
      ⟨2 * 2 ^ 24, 2 * 2 ^ 16, 1⟩ ∈ (agedCache takeFirstPutNinth).aged := by
  decide

end V8Malloc
