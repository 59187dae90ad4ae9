import Mathlib.Data.List.Basic
import V8Malloc.Lib.LinkedList

/-!
# The remote-free queue

`v8m_mpsc_push` as atomic steps of any number of producers, and `v8m_mpsc_drain`
with the walk of `v8m_thread_cache_drain_remote` as steps of the one consumer, in
any order. A compare-and-swap may fail for no reason. A node has one holder at a
time; who holds a node that is not being pushed may write anything into it and
hand it on, so nodes return to the producers and are pushed again.

A swap can find a head that was drained and pushed again since it was loaded. This
is harmless: the node's link holds the value that the swap compares with the head.
-/
namespace V8Malloc.RemoteQueue

open LinkedList Function

variable {ι : Type}

/-- The next statement of a producer. -/
inductive PushPc
  | idle
  | load (node : ℕ)
  | store (node oldHead : ℕ)
  | cas (node oldHead : ℕ)
  deriving DecidableEq, Repr

/-- The node a producer is about to push. -/
def PushPc.node : PushPc → Option ℕ
  | .idle => none
  | .load node => some node
  | .store node _ => some node
  | .cas node _ => some node

/-- Who has a node: a producer, the queue, the list that a drain returned, the consumer. -/
inductive Holder (ι : Type)
  | producer (i : ι)
  | queue
  | batch (d : ℕ)
  | consumer
  deriving DecidableEq, Repr

/-- The queue with the first words of all nodes. `cursor d` is where the walk of the list
returned by drain `d` stands. -/
structure Queue (ι : Type) where
  head : ℕ
  next : ℕ → ℕ
  pc : ι → PushPc
  drains : ℕ
  cursor : ℕ → ℕ
  holder : ℕ → Holder ι

/-- A completed push, a drain, and a node reached by the walk of drain `d`. -/
inductive Event
  | pushed (node : ℕ)
  | drained
  | taken (d node : ℕ)
  deriving DecidableEq, Repr

namespace Queue

def goto [DecidableEq ι] (s : Queue ι) (i : ι) (c : PushPc) : Queue ι :=
  { s with pc := update s.pc i c }

def store (s : Queue ι) (node value : ℕ) : Queue ι :=
  { s with next := update s.next node value }

def hand (s : Queue ι) (node : ℕ) (h : Holder ι) : Queue ι :=
  { s with holder := update s.holder node h }

/-- The exchange of `v8m_mpsc_drain`. -/
def drain [DecidableEq ι] (s : Queue ι) : Queue ι where
  head := 0
  next := s.next
  pc := s.pc
  drains := s.drains + 1
  cursor := update s.cursor s.drains s.head
  holder := fun n => if s.holder n = .queue then .batch s.drains else s.holder n

/-- The walk of drain `d` reads the link of a node and takes the node. -/
def take (s : Queue ι) (d : ℕ) : Queue ι :=
  { s.hand (s.cursor d) .consumer with
    cursor := update s.cursor d (s.next (s.cursor d)) }

/-- The node is in somebody's hands and not being pushed. -/
def AtRest (s : Queue ι) (node : ℕ) : Prop :=
  s.holder node = .consumer ∨ ∃ i, s.holder node = .producer i ∧ (s.pc i).node ≠ some node

/-- The queue is empty and no push has begun. -/
structure Initial (s : Queue ι) : Prop where
  head : s.head = 0
  pc : ∀ i, s.pc i = .idle
  drains : s.drains = 0
  cursor : ∀ d, s.cursor d = 0
  holder : ∀ n, s.holder n = .consumer ∨ ∃ i, s.holder n = .producer i

end Queue

inductive Step [DecidableEq ι] (s : Queue ι) : Queue ι → List Event → Prop
  | push {i : ι} {node : ℕ} (hpc : s.pc i = .idle) (hown : s.holder node = .producer i)
      (hne : node ≠ 0) : Step s (s.goto i (.load node)) []
  | load {i : ι} {node : ℕ} (hpc : s.pc i = .load node) :
      Step s (s.goto i (.store node s.head)) []
  | store {i : ι} {node oldHead : ℕ} (hpc : s.pc i = .store node oldHead) :
      Step s ((s.store node oldHead).goto i (.cas node oldHead)) []
  | pushed {i : ι} {node oldHead : ℕ} (hpc : s.pc i = .cas node oldHead)
      (hsame : s.head = oldHead) :
      Step s (({ s with head := node }.hand node .queue).goto i .idle) [.pushed node]
  | pushFailed {i : ι} {node oldHead : ℕ} (hpc : s.pc i = .cas node oldHead) :
      Step s (s.goto i (.store node s.head)) []
  | drain : Step s s.drain [.drained]
  | take {d : ℕ} (hne : s.cursor d ≠ 0) : Step s (s.take d) [.taken d (s.cursor d)]
  | write {node : ℕ} (hrest : s.AtRest node) (value : ℕ) : Step s (s.store node value) []
  | handBack {node : ℕ} (hrest : s.AtRest node) (i : ι) : Step s (s.hand node (.producer i)) []
  | receive {node : ℕ} (hrest : s.AtRest node) : Step s (s.hand node .consumer) []

/-- Runs from an empty queue, with their events, the newest first. -/
inductive Run [DecidableEq ι] : Queue ι → List Event → Prop
  | init {s : Queue ι} : s.Initial → Run s []
  | step {s s' : Queue ι} {log events : List Event} : Run s log → Step s s' events →
      Run s' (events ++ log)

/-! ### Reading a history -/

/-- The nodes pushed since the last drain, the newest first. -/
def sinceDrain : List Event → List ℕ
  | [] => []
  | .pushed node :: log => node :: sinceDrain log
  | .drained :: _ => []
  | .taken _ _ :: log => sinceDrain log

def drainCount : List Event → ℕ
  | [] => 0
  | .drained :: log => drainCount log + 1
  | .pushed _ :: log => drainCount log
  | .taken _ _ :: log => drainCount log

/-- The nodes pushed between drain `d` and the one before it. -/
def window (d : ℕ) : List Event → List ℕ
  | [] => []
  | .drained :: log => if d = drainCount log then sinceDrain log else window d log
  | .pushed _ :: log => window d log
  | .taken _ _ :: log => window d log

/-- The nodes that the walk of drain `d` has taken, in the order of the walk. -/
def takenBy (d : ℕ) : List Event → List ℕ
  | [] => []
  | .taken d' node :: log => if d' = d then takenBy d log ++ [node] else takenBy d log
  | .pushed _ :: log => takenBy d log
  | .drained :: log => takenBy d log

/-- All completed pushes, the newest first. -/
def pushes : List Event → List ℕ
  | [] => []
  | .pushed node :: log => node :: pushes log
  | .drained :: log => pushes log
  | .taken _ _ :: log => pushes log

theorem window_of_le (log : List Event) : ∀ {d : ℕ}, drainCount log ≤ d → window d log = [] := by
  induction log with
  | nil => exact fun _ => rfl
  | cons e log ih =>
    intro d hd
    cases e with
    | pushed node => exact ih hd
    | taken d' node => exact ih hd
    | drained =>
      simp only [drainCount] at hd
      simp only [window]
      rw [if_neg (by omega), ih (by omega)]

/-- The windows of the drains part the completed pushes. -/
theorem pushes_eq (log : List Event) : pushes log =
    sinceDrain log ++ (List.range (drainCount log)).reverse.flatMap fun d => window d log := by
  induction log with
  | nil => rfl
  | cons e log ih =>
    cases e with
    | pushed node =>
      simp only [pushes, sinceDrain, drainCount, window, ih, List.cons_append]
    | taken d node => simpa only [pushes, sinceDrain, drainCount, window] using ih
    | drained =>
      have hold : ∀ d ∈ (List.range (drainCount log)).reverse,
          window d (.drained :: log) = window d log := by
        intro d hd
        rw [List.mem_reverse, List.mem_range] at hd
        simp only [window]
        rw [if_neg (by omega)]
      simp only [pushes, sinceDrain, drainCount, List.range_succ, List.reverse_append,
        List.reverse_singleton, List.nil_append, List.singleton_append, List.flatMap_cons]
      rw [List.flatMap_congr hold, ih]
      simp only [window, if_true]

/-! ### The invariant -/

/-- The list of the queue and the lists that the walks have yet to reach, with what the
history says of them. -/
structure Inv (s : Queue ι) (log : List Event) (waiting : List ℕ) (rest : ℕ → List ℕ) : Prop where
  chain : Chain 0 s.next s.head waiting
  waiting_iff : ∀ n, n ∈ waiting ↔ s.holder n = .queue
  chains : ∀ d, Chain 0 s.next (s.cursor d) (rest d)
  rest_iff : ∀ d n, n ∈ rest d ↔ s.holder n = .batch d
  pushing : ∀ i n, (s.pc i).node = some n → s.holder n = .producer i ∧ n ≠ 0
  linked : ∀ i n oldHead, s.pc i = .cas n oldHead → s.next n = oldHead
  since : waiting = sinceDrain log
  count : drainCount log = s.drains
  taken : ∀ d, takenBy d log ++ rest d = window d log
  windows : ∀ d, (window d log).Nodup

variable {s s' : Queue ι} {log : List Event} {waiting : List ℕ} {rest : ℕ → List ℕ} {i : ι}
variable {node oldHead value : ℕ}

theorem inv_initial (h : s.Initial) : Inv s [] [] fun _ => [] where
  chain := h.head ▸ .nil
  waiting_iff := by
    intro n
    rcases h.holder n with hn | ⟨i, hn⟩ <;> simp [hn]
  chains := fun d => h.cursor d ▸ .nil
  rest_iff := by
    intro d n
    rcases h.holder n with hn | ⟨i, hn⟩ <;> simp [hn]
  pushing := by simp [h.pc, PushPc.node]
  linked := by simp [h.pc]
  since := rfl
  count := h.drains.symm
  taken := fun _ => rfl
  windows := fun _ => List.nodup_nil

/-- A producer moves on with a node it holds. -/
theorem Inv.goto [DecidableEq ι] (hi : Inv s log waiting rest) {c : PushPc}
    (hnode : ∀ n, c.node = some n → s.holder n = .producer i ∧ n ≠ 0)
    (hlinked : ∀ n oldHead, c = .cas n oldHead → s.next n = oldHead) :
    Inv (s.goto i c) log waiting rest where
  chain := hi.chain
  waiting_iff := hi.waiting_iff
  chains := hi.chains
  rest_iff := hi.rest_iff
  pushing := by
    intro j n hn
    by_cases hj : j = i
    · subst hj
      exact hnode n (by simpa [Queue.goto] using hn)
    · exact hi.pushing j n (by simpa [Queue.goto, hj] using hn)
  linked := by
    intro j n oldHead hn
    by_cases hj : j = i
    · subst hj
      exact hlinked n oldHead (by simpa [Queue.goto] using hn)
    · exact hi.linked j n oldHead (by simpa [Queue.goto, hj] using hn)
  since := hi.since
  count := hi.count
  taken := hi.taken
  windows := hi.windows

/-- A write into a node that is on no list and that no other producer has linked. -/
theorem Inv.store (hi : Inv s log waiting rest) (hqueue : s.holder node ≠ .queue)
    (hbatch : ∀ d, s.holder node ≠ .batch d)
    (hlinked : ∀ j oldHead, s.pc j = .cas node oldHead → value = oldHead) :
    Inv (s.store node value) log waiting rest where
  chain := by
    apply hi.chain.congr
    intro y hy
    apply update_of_ne
    rintro rfl
    exact hqueue ((hi.waiting_iff y).1 hy)
  waiting_iff := hi.waiting_iff
  chains := by
    intro d
    apply (hi.chains d).congr
    intro y hy
    apply update_of_ne
    rintro rfl
    exact hbatch d ((hi.rest_iff d y).1 hy)
  rest_iff := hi.rest_iff
  pushing := hi.pushing
  linked := by
    intro j n oldHead hn
    by_cases hnode : n = node
    · subst hnode
      simpa [Queue.store] using hlinked j oldHead hn
    · simpa [Queue.store, hnode] using hi.linked j n oldHead hn
  since := hi.since
  count := hi.count
  taken := hi.taken
  windows := hi.windows

/-- A producer's node is on no list. -/
theorem Inv.pushing_apart (hi : Inv s log waiting rest) (hn : (s.pc i).node = some node) :
    s.holder node ≠ .queue ∧ ∀ d, s.holder node ≠ .batch d := by
  rw [(hi.pushing i node hn).1]
  simp

theorem Inv.atRest_apart (hrest : s.AtRest node) :
    s.holder node ≠ .queue ∧ ∀ d, s.holder node ≠ .batch d := by
  rcases hrest with h | ⟨i, h, -⟩ <;> simp [h]

/-- No producer is pushing a node at rest. -/
theorem Inv.not_pushing (hi : Inv s log waiting rest) (hrest : s.AtRest node) (j : ι) :
    (s.pc j).node ≠ some node := by
  intro hn
  have hown := (hi.pushing j node hn).1
  rcases hrest with h | ⟨i, h, hi'⟩
  · rw [h] at hown
    cases hown
  · rw [h] at hown
    cases hown
    exact hi' hn

theorem Inv.hand (hi : Inv s log waiting rest) (hrest : s.AtRest node) {h : Holder ι}
    (hqueue : h ≠ .queue) (hbatch : ∀ d, h ≠ .batch d) :
    Inv (s.hand node h) log waiting rest := by
  obtain ⟨hq, hb⟩ := Inv.atRest_apart hrest
  constructor
  · exact hi.chain
  · intro n
    by_cases hn : n = node
    · subst hn
      simp [Queue.hand, hi.waiting_iff, hq, hqueue]
    · simp [Queue.hand, hn, hi.waiting_iff]
  · exact hi.chains
  · intro d n
    by_cases hn : n = node
    · subst hn
      simp [Queue.hand, hi.rest_iff, hb, hbatch]
    · simp [Queue.hand, hn, hi.rest_iff]
  · intro j n hn
    have hne : n ≠ node := by
      rintro rfl
      exact hi.not_pushing hrest j hn
    simpa [Queue.hand, hne] using hi.pushing j n hn
  · exact hi.linked
  · exact hi.since
  · exact hi.count
  · exact hi.taken
  · exact hi.windows

/-- A swap that succeeds puts the node in front, whatever happened to the head since the
load: the link of the node is the head at the swap. -/
theorem Inv.pushed [DecidableEq ι] (hi : Inv s log waiting rest) (hpc : s.pc i = .cas node oldHead)
    (hsame : s.head = oldHead) :
    Inv (({ s with head := node }.hand node .queue).goto i .idle) (.pushed node :: log)
      (node :: waiting) rest := by
  have hnode : (s.pc i).node = some node := by rw [hpc, PushPc.node]
  obtain ⟨hown, hne⟩ := hi.pushing i node hnode
  have hlink := hi.linked i node oldHead hpc
  constructor
  · refine .cons hne ?_
    change Chain 0 s.next (s.next node) waiting
    rw [hlink, ← hsame]
    exact hi.chain
  · intro n
    by_cases hn : n = node
    · subst hn
      simp [Queue.hand, Queue.goto]
    · simp [Queue.hand, Queue.goto, hn, hi.waiting_iff]
  · exact hi.chains
  · intro d n
    by_cases hn : n = node
    · subst hn
      simp [Queue.hand, Queue.goto, hi.rest_iff, hown]
    · simp [Queue.hand, Queue.goto, hn, hi.rest_iff]
  · intro j n hn
    by_cases hj : j = i
    · subst hj
      simp [Queue.hand, Queue.goto, PushPc.node] at hn
    · have hold := hi.pushing j n (by simpa [Queue.hand, Queue.goto, hj] using hn)
      have hnn : n ≠ node := by
        rintro rfl
        rw [hown] at hold
        exact hj (Holder.producer.inj hold.1).symm
      simpa [Queue.hand, Queue.goto, hnn] using hold
  · intro j n oldHead hn
    by_cases hj : j = i
    · subst hj
      simp [Queue.hand, Queue.goto] at hn
    · exact hi.linked j n oldHead (by simpa [Queue.hand, Queue.goto, hj] using hn)
  · simp only [sinceDrain, hi.since]
  · exact hi.count
  · exact hi.taken
  · exact hi.windows

/-- A drain moves the whole list to a walk of its own. -/
theorem Inv.drain [DecidableEq ι] (hi : Inv s log waiting rest) :
    Inv s.drain (.drained :: log) [] (update rest s.drains waiting) := by
  have hnew : rest s.drains = [] := by
    have htaken := hi.taken s.drains
    rw [window_of_le log hi.count.le] at htaken
    exact (List.append_eq_nil_iff.1 htaken).2
  have hnone : takenBy s.drains log = [] := by
    have htaken := hi.taken s.drains
    rw [window_of_le log hi.count.le] at htaken
    exact (List.append_eq_nil_iff.1 htaken).1
  constructor
  · exact .nil
  · intro n
    simp only [List.not_mem_nil, Queue.drain, false_iff]
    split_ifs with hq
    · simp
    · exact hq
  · intro d
    by_cases hd : d = s.drains
    · subst hd
      simpa [Queue.drain] using hi.chain
    · simpa [Queue.drain, hd] using hi.chains d
  · intro d n
    by_cases hd : d = s.drains
    · subst hd
      have hother : s.holder n ≠ .batch s.drains := by
        rw [ne_eq, ← hi.rest_iff s.drains n, hnew]
        exact List.not_mem_nil
      simp [Queue.drain, hi.waiting_iff, hother]
    · by_cases hq : s.holder n = .queue
      · simp [Queue.drain, hd, hq, hi.rest_iff, Ne.symm hd]
      · simp [Queue.drain, hd, hq, hi.rest_iff]
  · intro j n hn
    obtain ⟨hown, hne⟩ := hi.pushing j n hn
    simp [Queue.drain, hown, hne]
  · exact hi.linked
  · rfl
  · simp only [drainCount, hi.count, Queue.drain]
  · intro d
    simp only [takenBy, window, hi.count]
    by_cases hd : d = s.drains
    · subst hd
      simp [hnone, hi.since]
    · simp [hd, hi.taken]
  · intro d
    simp only [window]
    split_ifs
    · rw [← hi.since]
      exact hi.chain.nodup
    · exact hi.windows d

/-- The walk of a drain reaches the next node of its list. -/
theorem Inv.take (hi : Inv s log waiting rest) {d : ℕ} (hne : s.cursor d ≠ 0) :
    ∃ tail, Inv (s.take d) (.taken d (s.cursor d) :: log) waiting
      (update rest d tail) := by
  obtain ⟨tail, hrest, htail⟩ := (hi.chains d).uncons hne
  have hmem : s.cursor d ∈ rest d := by
    rw [hrest]
    exact List.mem_cons_self
  have hbatch : s.holder (s.cursor d) = .batch d := (hi.rest_iff d _).1 hmem
  have hfresh : s.cursor d ∉ tail := by
    have hnodup := (hi.chains d).nodup
    rw [hrest] at hnodup
    exact (List.nodup_cons.1 hnodup).1
  refine ⟨tail, ?_⟩
  constructor
  · exact hi.chain
  · intro n
    by_cases hn : n = s.cursor d
    · subst hn
      simp [Queue.take, Queue.hand, hi.waiting_iff, hbatch]
    · simp [Queue.take, Queue.hand, hn, hi.waiting_iff]
  · intro d'
    by_cases hd : d' = d
    · subst hd
      simpa [Queue.take, Queue.hand] using htail
    · simpa [Queue.take, Queue.hand, hd] using hi.chains d'
  · intro d' n
    by_cases hn : n = s.cursor d
    · subst hn
      by_cases hd : d' = d
      · subst hd
        simp [Queue.take, Queue.hand, hfresh]
      · simp [Queue.take, Queue.hand, hd, hi.rest_iff, hbatch, Ne.symm hd]
    · by_cases hd : d' = d
      · subst hd
        have hsame : n ∈ rest d' ↔ n ∈ tail := by
          rw [hrest, List.mem_cons]
          exact or_iff_right hn
        simp [Queue.take, Queue.hand, hn, ← hsame, hi.rest_iff]
      · simp [Queue.take, Queue.hand, hd, hn, hi.rest_iff]
  · intro j n hn
    obtain ⟨hown, hn0⟩ := hi.pushing j n hn
    have hnc : n ≠ s.cursor d := by
      rintro rfl
      rw [hbatch] at hown
      cases hown
    simp [Queue.take, Queue.hand, hnc, hown, hn0]
  · exact hi.linked
  · exact hi.since
  · exact hi.count
  · intro d'
    simp only [takenBy, window]
    by_cases hd : d' = d
    · subst hd
      have htaken := hi.taken d'
      rw [hrest] at htaken
      simpa using htaken
    · simp [hd, Ne.symm hd, hi.taken]
  · exact hi.windows

theorem Inv.step [DecidableEq ι] (hi : Inv s log waiting rest) {events : List Event} (hs : Step s s' events) :
    ∃ waiting' rest', Inv s' (events ++ log) waiting' rest' := by
  cases hs with
  | push hpc hown hne =>
    refine ⟨_, _, hi.goto ?_ ?_⟩
    · intro n hn
      cases hn
      exact ⟨hown, hne⟩
    · exact fun _ _ h => PushPc.noConfusion h
  | @load i node hpc =>
    refine ⟨_, _, hi.goto ?_ ?_⟩
    · intro n hn
      exact hi.pushing i n (by rw [hpc]; exact hn)
    · exact fun _ _ h => PushPc.noConfusion h
  | @store i node oldHead hpc =>
    have hnode : (s.pc i).node = some node := by rw [hpc, PushPc.node]
    obtain ⟨hqueue, hbatch⟩ := hi.pushing_apart hnode
    have hstored : Inv (s.store node oldHead) log waiting rest := by
      apply hi.store hqueue hbatch
      intro j old hcas
      -- another producer cannot hold the node, and this one is not at its swap
      have hj := (hi.pushing j node (by rw [hcas, PushPc.node])).1
      rw [(hi.pushing i node hnode).1] at hj
      obtain rfl := Holder.producer.inj hj
      rw [hpc] at hcas
      cases hcas
    refine ⟨_, _, hstored.goto ?_ ?_⟩
    · intro n hn
      exact hi.pushing i n (hnode.trans hn)
    · intro n old h
      cases h
      simp [Queue.store]
  | pushed hpc hsame => exact ⟨_, _, hi.pushed hpc hsame⟩
  | @pushFailed i node oldHead hpc =>
    refine ⟨_, _, hi.goto ?_ ?_⟩
    · intro n hn
      exact hi.pushing i n (by rw [hpc]; exact hn)
    · exact fun _ _ h => PushPc.noConfusion h
  | drain => exact ⟨_, _, hi.drain⟩
  | take hne =>
    obtain ⟨tail, htail⟩ := hi.take hne
    exact ⟨_, _, htail⟩
  | write hrest value =>
    obtain ⟨hqueue, hbatch⟩ := Inv.atRest_apart hrest
    refine ⟨_, _, hi.store hqueue hbatch fun j old hcas => ?_⟩
    exact absurd (by rw [hcas, PushPc.node]) (hi.not_pushing hrest j)
  | handBack hrest i =>
    exact ⟨_, _, hi.hand hrest (by simp) (by simp)⟩
  | receive hrest =>
    exact ⟨_, _, hi.hand hrest (by simp) (by simp)⟩

theorem Run.inv [DecidableEq ι] (run : Run s log) : ∃ waiting rest, Inv s log waiting rest := by
  induction run with
  | init h => exact ⟨_, _, inv_initial h⟩
  | step _ hs ih =>
    obtain ⟨waiting, rest, hi⟩ := ih
    exact hi.step hs

/-- In every state the list from the head holds exactly the nodes pushed since the last drain,
the newest first, and ends. What a drain returned, the nodes its walk has taken and those
still linked from its cursor, is exactly what was pushed since the drain before it, so that
the completed pushes are those waiting and those that the drains returned, each once. -/
theorem remote_queue_delivery [DecidableEq ι] (run : Run s log) :
    (∃ waiting, Chain 0 s.next s.head waiting ∧ waiting.Nodup ∧ waiting = sinceDrain log) ∧
    ∃ rest : ℕ → List ℕ, (∀ d, Chain 0 s.next (s.cursor d) (rest d)) ∧
      (∀ d, takenBy d log ++ rest d = window d log ∧ (window d log).Nodup) ∧
      pushes log = sinceDrain log ++
        (List.range s.drains).reverse.flatMap fun d => takenBy d log ++ rest d := by
  obtain ⟨waiting, rest, hi⟩ := run.inv
  refine ⟨⟨waiting, hi.chain, hi.chain.nodup, hi.since⟩, rest, hi.chains,
    fun d => ⟨hi.taken d, hi.windows d⟩, ?_⟩
  simp only [hi.taken]
  rw [pushes_eq, hi.count]

/-- Producer 0 loads the node 8 as its head; the node is drained, handed back and pushed again
before the swap, which succeeds. -/
theorem remote_queue_delivery_reused : ∃ s : Queue ℕ,
    Run s [.pushed 16, .pushed 8, .taken 0 8, .drained, .pushed 8] ∧
      Chain 0 s.next s.head [16, 8] := by
  have run₀ : Run (⟨0, fun _ => 0, fun _ => .idle, 0, fun _ => 0,
      fun n => .producer (if n = 8 then 1 else 0)⟩ : Queue ℕ) [] :=
    .init ⟨rfl, fun _ => rfl, rfl, fun _ => rfl, fun _ => Or.inr ⟨_, rfl⟩⟩
  have run₁ := run₀.step (.push (i := 1) rfl rfl (by decide : 8 ≠ 0))
  have run₂ := ((run₁.step (.load (i := 1) rfl)).step (.store (i := 1) rfl)).step
    (.pushed (i := 1) rfl rfl)
  have run₃ := run₂.step (.push (i := 0) rfl rfl (by decide : 16 ≠ 0))
  have run₄ := (run₃.step (.load (i := 0) rfl)).step (.store (i := 0) rfl)
  have run₅ := (run₄.step .drain).step (.take (d := 0) (by decide))
  have run₆ := run₅.step (.handBack (Or.inl rfl : Queue.AtRest _ 8) 1)
  have run₇ := run₆.step (.push (i := 1) rfl rfl (by decide : 8 ≠ 0))
  have run₈ := ((run₇.step (.load (i := 1) rfl)).step (.store (i := 1) rfl)).step
    (.pushed (i := 1) rfl rfl)
  have run₉ := run₈.step (.pushed (i := 0) rfl rfl)
  obtain ⟨⟨waiting, hchain, -, hsince⟩, -⟩ := remote_queue_delivery run₉
  refine ⟨_, run₉, ?_⟩
  rw [hsince] at hchain
  exact hchain

end V8Malloc.RemoteQueue
