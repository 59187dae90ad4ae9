import Mathlib.Data.List.Nodup

/-!
# Items that wait and age

Items are parked, taken back, and released by sweeps. A log of these events,
last event first, says which items wait and how many sweeps each of them has
seen since it was parked.
-/
namespace Aging

inductive Event (α : Type) where
  | park (item : α)
  | take (item : α)
  | sweep (released : List α)

variable {α : Type} [DecidableEq α]

/-- The items that were neither taken nor released since they were parked, last parked first, each
with the number of sweeps since. -/
def waiting : List (Event α) → List (α × ℕ)
  | [] => []
  | .park item :: log => (item, 0) :: waiting log
  | .take item :: log => (waiting log).filter fun entry => entry.1 ≠ item
  | .sweep released :: log =>
    ((waiting log).filter fun entry => entry.1 ∉ released).map fun entry => (entry.1, entry.2 + 1)

/-- What a sweep with the threshold `n` makes of an entry. -/
def mature (n : ℕ) (entry : α × ℕ) : Option (α × ℕ) :=
  if entry.2 + 1 ≥ n then none else some (entry.1, entry.2 + 1)

variable {log : List (Event α)} {item : α} {n : ℕ}

theorem filter_ne_head {entries : List (α × ℕ)} {age : ℕ}
    (hnodup : (((item, age) :: entries).map Prod.fst).Nodup) :
    ((item, age) :: entries).filter (fun entry => entry.1 ≠ item) = entries := by
  rw [List.map_cons, List.nodup_cons] at hnodup
  rw [List.filter_cons_of_neg (by simp), List.filter_eq_self]
  intro entry hentry
  simp only [decide_eq_true_eq]
  intro heq
  exact hnodup.1 (List.mem_map.2 ⟨entry, hentry, heq⟩)

omit [DecidableEq α] in
/-- Distinct items: one that is listed as matured has matured. -/
theorem mem_matured {entries : List (α × ℕ)} (hnodup : (entries.map Prod.fst).Nodup)
    {entry : α × ℕ} (hentry : entry ∈ entries) :
    entry.1 ∈ (entries.filter fun e => (mature n e).isNone).map Prod.fst ↔ n ≤ entry.2 + 1 := by
  constructor
  · intro hmem
    obtain ⟨other, hother, heq⟩ := List.mem_map.1 hmem
    obtain ⟨hin, hnone⟩ := List.mem_filter.1 hother
    obtain rfl : other = entry := List.inj_on_of_nodup_map hnodup hin hentry heq
    by_contra hlt
    simp [mature, hlt] at hnone
  · intro hle
    exact List.mem_map_of_mem (List.mem_filter.2 ⟨hentry, by simp [mature, hle]⟩)

theorem map_filter_eq_filterMap {entries : List (α × ℕ)} {released : List α}
    (hreleased : ∀ entry ∈ entries, entry.1 ∈ released ↔ n ≤ entry.2 + 1) :
    ((entries.filter fun entry => entry.1 ∉ released).map fun entry => (entry.1, entry.2 + 1)) =
      entries.filterMap (mature n) := by
  induction entries with
  | nil => rfl
  | cons entry rest ih =>
    have hrest := ih fun e he => hreleased e (List.mem_cons_of_mem entry he)
    have hfirst := hreleased entry List.mem_cons_self
    by_cases hle : n ≤ entry.2 + 1
    · rw [List.filter_cons_of_neg (by simpa using hfirst.2 hle),
        List.filterMap_cons_none (by simp [mature, hle])]
      exact hrest
    · rw [List.filter_cons_of_pos (by simpa using mt hfirst.1 hle), List.map_cons,
        List.filterMap_cons_some (b := (entry.1, entry.2 + 1)) (by simp [mature, hle])]
      exact congrArg (_ :: ·) hrest

/-! ### Lawful logs -/

/-- At every moment the items that wait are distinct; the item taken is the one parked last; a
sweep releases the items it is the `n`-th sweep for. -/
structure Lawful (n : ℕ) (log : List (Event α)) : Prop where
  nodup : ∀ newer older, log = newer ++ older → ((waiting older).map Prod.fst).Nodup
  taken : ∀ newer item older, log = newer ++ .take item :: older →
    ∃ age, (waiting older).head? = some (item, age)
  released : ∀ newer items older, log = newer ++ .sweep items :: older →
    ∀ item, item ∈ items ↔ ∃ age, (item, age) ∈ waiting older ∧ age + 1 = n

theorem lawful_nil (n : ℕ) : Lawful n ([] : List (Event α)) where
  nodup := by
    intro newer older hlog
    obtain ⟨-, rfl⟩ := List.append_eq_nil_iff.1 hlog.symm
    exact List.nodup_nil
  taken := fun newer item older hlog => by simp at hlog
  released := fun newer items older hlog => by simp at hlog

theorem Lawful.cons {event : Event α} (hl : Lawful n log)
    (hnodup : ((waiting (event :: log)).map Prod.fst).Nodup)
    (htaken : ∀ item, event = .take item → ∃ age, (waiting log).head? = some (item, age))
    (hreleased : ∀ items, event = .sweep items →
      ∀ item, item ∈ items ↔ ∃ age, (item, age) ∈ waiting log ∧ age + 1 = n) :
    Lawful n (event :: log) where
  nodup := by
    intro newer older hlog
    cases newer with
    | nil =>
      cases hlog
      exact hnodup
    | cons e newer => exact hl.nodup newer older (List.cons.inj hlog).2
  taken := by
    intro newer item older hlog
    cases newer with
    | nil =>
      cases hlog
      exact htaken item rfl
    | cons e newer => exact hl.taken newer item older (List.cons.inj hlog).2
  released := by
    intro newer items older hlog
    cases newer with
    | nil =>
      cases hlog
      exact hreleased items rfl
    | cons e newer => exact hl.released newer items older (List.cons.inj hlog).2

theorem Lawful.tail {event : Event α} (hl : Lawful n (event :: log)) : Lawful n log where
  nodup := fun newer older hlog => hl.nodup (event :: newer) older (congrArg (event :: ·) hlog)
  taken := fun newer item older hlog =>
    hl.taken (event :: newer) item older (congrArg (event :: ·) hlog)
  released := fun newer items older hlog =>
    hl.released (event :: newer) items older (congrArg (event :: ·) hlog)

theorem Lawful.drop {later : List (Event α)} (hl : Lawful n (later ++ log)) : Lawful n log := by
  induction later with
  | nil => exact hl
  | cons event later ih => exact ih hl.tail

def Event.isSweep : Event α → Bool
  | .sweep _ => true
  | _ => false

/-- As long as it is not taken, an item waits until its `n`-th sweep. -/
theorem Lawful.mem_waiting (hn : 1 ≤ n) {between earlier : List (Event α)}
    (hl : Lawful n (between ++ .park item :: earlier)) (hpark : .park item ∉ between)
    (htake : .take item ∉ between) (age : ℕ) :
    (item, age) ∈ waiting (between ++ .park item :: earlier) ↔
      age = between.countP Event.isSweep ∧ age < n := by
  induction between generalizing age with
  | nil =>
    have hnodup := hl.nodup [] _ rfl
    simp only [List.nil_append, waiting, List.map_cons, List.nodup_cons] at hnodup ⊢
    rw [List.mem_cons, List.countP_nil, or_iff_left]
    · simp only [Prod.mk.injEq, true_and]
      omega
    · exact fun hmem => hnodup.1 (List.mem_map.2 ⟨_, hmem, rfl⟩)
  | cons event between ih =>
    rw [List.mem_cons, not_or] at hpark htake
    have hrest := ih hl.tail hpark.2 htake.2
    cases event with
    | park other =>
      have hne : item ≠ other := fun heq => hpark.1 (heq ▸ rfl)
      simpa [waiting, hne, Event.isSweep] using hrest age
    | take other =>
      have hne : item ≠ other := fun heq => htake.1 (heq ▸ rfl)
      simpa [waiting, hne, Event.isSweep] using hrest age
    | sweep items =>
      have hitems : item ∈ items ↔ ∃ age,
          (item, age) ∈ waiting (between ++ .park item :: earlier) ∧ age + 1 = n :=
        hl.released [] items _ rfl item
      simp only [hrest] at hitems
      simp only [List.cons_append, waiting, List.mem_map, List.mem_filter, decide_eq_true_eq,
        List.countP_cons, Event.isSweep, if_true, Prod.mk.injEq, Prod.exists]
      constructor
      · rintro ⟨other, k, ⟨hmem, hnot⟩, rfl, rfl⟩
        rw [hrest] at hmem
        rw [hitems] at hnot
        have hne : k + 1 ≠ n := fun heq => hnot ⟨k, hmem, heq⟩
        omega
      · rintro ⟨rfl, hlt⟩
        refine ⟨item, _, ⟨(hrest _).2 ⟨rfl, by omega⟩, fun hmem => ?_⟩, rfl, rfl⟩
        obtain ⟨k, hk, heq⟩ := hitems.1 hmem
        omega

/-- An item that is not taken again is released by the `n`-th sweep after it was parked. -/
theorem Lawful.released_iff (hn : 1 ≤ n) {later between earlier : List (Event α)} {items : List α}
    (hl : Lawful n (later ++ .sweep items :: (between ++ .park item :: earlier)))
    (hpark : .park item ∉ between) (htake : .take item ∉ between) :
    item ∈ items ↔ between.countP Event.isSweep + 1 = n := by
  have hlater := hl.drop.tail
  rw [hl.released later items _ rfl item]
  simp only [hlater.mem_waiting hn hpark htake]
  constructor
  · rintro ⟨age, ⟨rfl, -⟩, heq⟩
    exact heq
  · exact fun heq => ⟨_, ⟨rfl, by omega⟩, heq⟩

end Aging
