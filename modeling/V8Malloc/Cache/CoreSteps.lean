import V8Malloc.Cache.Core

/-!
# Concurrent use of a per-CPU stack

`v8m_core_cache_push`, `pop`, `push_batch` and `pop_batch` on one stack as
sequences of atomic steps: load the head, read or write the first word of a node,
compare-and-swap the head. Any number of threads take them in any order, and a
compare-and-swap may fail for no reason. A node is in the hands of a thread or on
the list; its thread may write anything into it.

A head carries a tag of 16 bits that every successful swap advances. A swap that
finds the word it expects less than 2^16 swaps after the load therefore finds the
stack as it was loaded, whatever other threads wrote into nodes they popped.
-/
namespace V8Malloc.CoreStack

open LinkedList Function

/-- Who called the loop of `pop`: a single pop, or `pop_batch` with its chain so far. -/
inductive Caller
  | pop
  | popBatch (head tail count max : ℕ)
  deriving DecidableEq, Repr

/-- The next statement of a thread. The nodes of a chain that is pushed are recorded beside its
two ends. -/
inductive Pc
  | idle
  | pushLoad (head tail : ℕ) (nodes : List ℕ)
  | pushLink (head tail : ℕ) (nodes : List ℕ) (oldHead : ℕ)
  | pushCas (head tail : ℕ) (nodes : List ℕ) (oldHead : ℕ)
  | popLoad (caller : Caller)
  | popRead (caller : Caller) (oldHead : ℕ)
  | popCas (caller : Caller) (oldHead next : ℕ)
  | append (head tail count max node : ℕ)
  | terminate (tail count : ℕ)
  deriving DecidableEq, Repr

/-- One stack with the first words of all nodes. The nodes in the hands of each thread, the
number of successful swaps, and this number at each thread's last load are recorded. -/
structure Stack where
  head : ℕ
  word : ℕ → ℕ
  pc : ℕ → Pc
  owned : ℕ → Finset ℕ
  casCount : ℕ
  loadedAt : ℕ → ℕ

/-- A completed push of a node or a chain, and a completed pop. -/
inductive Event
  | pushed (t : ℕ) (nodes : List ℕ)
  | popped (t node : ℕ)
  deriving DecidableEq, Repr

namespace Stack

def goto (s : Stack) (t : ℕ) (c : Pc) : Stack :=
  { s with pc := update s.pc t c }

def store (s : Stack) (node value : ℕ) : Stack :=
  { s with word := update s.word node value }

/-- A load of the head, also the one that a failed swap does. -/
def load (s : Stack) (t : ℕ) : Stack :=
  { s with loadedAt := update s.loadedAt t s.casCount }

def cas (s : Stack) (newHead : ℕ) : Stack :=
  { s with head := newHead, casCount := s.casCount + 1 }

def setOwned (s : Stack) (t : ℕ) (nodes : Finset ℕ) : Stack :=
  { s with owned := update s.owned t nodes }

end Stack

/-- Where the loop of `pop` goes on with what it returns. -/
def Caller.returned (node : ℕ) : Caller → Pc
  | .pop => .idle
  | .popBatch head tail count max =>
    if node = 0 then .terminate tail count else .append head tail count max node

/-- The head of the loop in `pop_batch`. -/
def popBatchLoop (head tail count max : ℕ) : Pc :=
  if count < max then .popLoad (.popBatch head tail count max) else .terminate tail count

/-- One step of thread `t`. It pushes, and writes into, nodes of its own only; a chain it pushes
ends at the tail it names. -/
inductive Step (s : Stack) (t : ℕ) : Stack → List Event → Prop
  | write {node : ℕ} (hpc : s.pc t = .idle) (hown : node ∈ s.owned t) (value : ℕ) :
      Step s t (s.store node value) []
  | push {node : ℕ} (hpc : s.pc t = .idle) (hown : node ∈ s.owned t) :
      Step s t (s.goto t (.pushLoad node node [node])) []
  | pushBatch {head tail : ℕ} {nodes : List ℕ} (hpc : s.pc t = .idle)
      (hchain : Chain 0 s.word head nodes) (htail : tail ∈ nodes) (hend : s.word tail = 0)
      (hown : ∀ n ∈ nodes, n ∈ s.owned t) :
      Step s t (s.goto t (.pushLoad head tail nodes)) []
  | pushLoad {head tail : ℕ} {nodes : List ℕ} (hpc : s.pc t = .pushLoad head tail nodes) :
      Step s t ((s.load t).goto t (.pushLink head tail nodes s.head)) []
  | pushLink {head tail oldHead : ℕ} {nodes : List ℕ}
      (hpc : s.pc t = .pushLink head tail nodes oldHead) :
      Step s t ((s.store tail (tagptrPtr oldHead)).goto t (.pushCas head tail nodes oldHead)) []
  | pushed {head tail oldHead : ℕ} {nodes : List ℕ}
      (hpc : s.pc t = .pushCas head tail nodes oldHead) (hsame : s.head = oldHead) :
      Step s t (((s.cas (tagptrMake head (tagptrTag oldHead + 1))).setOwned t
        (s.owned t \ nodes.toFinset)).goto t .idle) [.pushed t nodes]
  | pushFailed {head tail oldHead : ℕ} {nodes : List ℕ}
      (hpc : s.pc t = .pushCas head tail nodes oldHead) :
      Step s t ((s.load t).goto t (.pushLink head tail nodes s.head)) []
  | pop (hpc : s.pc t = .idle) : Step s t (s.goto t (.popLoad .pop)) []
  | popBatch (hpc : s.pc t = .idle) {max : ℕ} (hmax : max ≠ 0) :
      Step s t (s.goto t (popBatchLoop 0 0 0 max)) []
  | popLoad {caller : Caller} (hpc : s.pc t = .popLoad caller) :
      Step s t ((s.load t).goto t (.popRead caller s.head)) []
  | popEmpty {caller : Caller} {oldHead : ℕ} (hpc : s.pc t = .popRead caller oldHead)
      (hnull : tagptrPtr oldHead = 0) :
      Step s t (s.goto t (caller.returned 0)) []
  | popRead {caller : Caller} {oldHead : ℕ} (hpc : s.pc t = .popRead caller oldHead)
      (hnode : tagptrPtr oldHead ≠ 0) :
      Step s t (s.goto t (.popCas caller oldHead (s.word (tagptrPtr oldHead)))) []
  | popped {caller : Caller} {oldHead next : ℕ} (hpc : s.pc t = .popCas caller oldHead next)
      (hsame : s.head = oldHead) :
      Step s t (((s.cas (tagptrMake next (tagptrTag oldHead + 1))).setOwned t
        (insert (tagptrPtr oldHead) (s.owned t))).goto t (caller.returned (tagptrPtr oldHead)))
        [.popped t (tagptrPtr oldHead)]
  | popFailed {caller : Caller} {oldHead next : ℕ} (hpc : s.pc t = .popCas caller oldHead next) :
      Step s t ((s.load t).goto t (.popRead caller s.head)) []
  | appendFirst {tail count max node : ℕ} (hpc : s.pc t = .append 0 tail count max node) :
      Step s t (s.goto t (popBatchLoop node node (count + 1) max)) []
  | append {head tail count max node : ℕ} (hpc : s.pc t = .append head tail count max node)
      (hhead : head ≠ 0) :
      Step s t ((s.store tail node).goto t (popBatchLoop head node (count + 1) max)) []
  | terminateEmpty {tail : ℕ} (hpc : s.pc t = .terminate tail 0) : Step s t (s.goto t .idle) []
  | terminate {tail count : ℕ} (hpc : s.pc t = .terminate tail count) (hcount : 0 < count) :
      Step s t ((s.store tail 0).goto t .idle) []

/-- Fewer than 2^16 swaps have succeeded since the load of a thread that is about to swap. -/
def InWindow (s : Stack) (t : ℕ) : Prop :=
  match s.pc t with
  | .pushCas .. | .popCas .. => s.casCount - s.loadedAt t < 2 ^ 16
  | _ => True

/-- The nodes each thread holds at the start. Their addresses fit below the tag. -/
structure Holdings where
  owned : ℕ → Finset ℕ
  ne_null : ∀ t, ∀ n ∈ owned t, n ≠ 0
  fits : ∀ t, ∀ n ∈ owned t, n < 2 ^ tagptrPtrBits
  apart : ∀ t u n, n ∈ owned t → n ∈ owned u → t = u

/-- An empty stack; the words of the nodes are arbitrary. -/
def Stack.init (nodes : Holdings) (word : ℕ → ℕ) : Stack :=
  { head := 0
    word := word
    pc := fun _ => .idle
    owned := nodes.owned
    casCount := 0
    loadedAt := fun _ => 0 }

/-- The interleavings in which every swap comes in time, with the completed operations, the
newest first. -/
inductive Run (nodes : Holdings) : Stack → List Event → Prop
  | init (word : ℕ → ℕ) : Run nodes (.init nodes word) []
  | step {s r : Stack} {log events : List Event} {t : ℕ} :
      Run nodes s log → InWindow s t → Step s t r events → Run nodes r (events ++ log)

/-- The stack of a sequential history; `none` if a pop did not take the top. -/
def replay : List Event → Option (List ℕ)
  | [] => some []
  | .pushed _ nodes :: log => (replay log).map (nodes ++ ·)
  | .popped _ node :: log =>
    match replay log with
    | some (top :: rest) => if top = node then some rest else none
    | _ => none

section Invariant

/-- The head a thread has loaded. As long as no swap has succeeded since, it is the head. -/
structure Loaded (s : Stack) (t oldHead : ℕ) : Prop where
  earlier : s.loadedAt t ≤ s.casCount
  tag : tagptrTag oldHead = s.loadedAt t % 2 ^ 16
  same : s.loadedAt t = s.casCount → oldHead = s.head

/-- The nodes of a chain in the hands of a thread; the link of its tail does not matter. -/
structure Segment (s : Stack) (t head tail : ℕ) (nodes : List ℕ) : Prop where
  chain : Chain 0 (update s.word tail 0) head nodes
  tail : tail ∈ nodes
  owned : ∀ n ∈ nodes, n ∈ s.owned t

def CallerInv (s : Stack) (t : ℕ) : Caller → Prop
  | .pop => True
  | .popBatch head tail count _ => (0 < count ↔ head ≠ 0) ∧ (0 < count → tail ∈ s.owned t)

/-- What a place of a thread says about the nodes in its hands and the head it has loaded. -/
def At (s : Stack) (t : ℕ) : Pc → Prop
  | .idle => True
  | .pushLoad head tail nodes => Segment s t head tail nodes
  | .pushLink head tail nodes oldHead => Segment s t head tail nodes ∧ Loaded s t oldHead
  | .pushCas head tail nodes oldHead =>
    Segment s t head tail nodes ∧ Loaded s t oldHead ∧ s.word tail = tagptrPtr oldHead
  | .popLoad caller => CallerInv s t caller
  | .popRead caller oldHead => CallerInv s t caller ∧ Loaded s t oldHead
  | .popCas caller oldHead next =>
    CallerInv s t caller ∧ Loaded s t oldHead ∧ tagptrPtr oldHead ≠ 0 ∧
      (s.loadedAt t = s.casCount → next = s.word (tagptrPtr oldHead))
  | .append head tail count max node =>
    CallerInv s t (.popBatch head tail count max) ∧ node ∈ s.owned t ∧ node ≠ 0
  | .terminate tail count => 0 < count → tail ∈ s.owned t

/-- Every node is in the hands of one thread or on the list `L`, which is what the head links. -/
structure StackInv (nodes : Holdings) (s : Stack) (L : List ℕ) : Prop where
  chain : Chain 0 s.word (tagptrPtr s.head) L
  tag : tagptrTag s.head = s.casCount % 2 ^ 16
  nodes : ∀ n, (n ∈ L ∨ ∃ t, n ∈ s.owned t) ↔ ∃ t, n ∈ nodes.owned t
  offList : ∀ n ∈ L, ∀ t, n ∉ s.owned t
  apart : ∀ t u n, n ∈ s.owned t → n ∈ s.owned u → t = u
  thread : ∀ t, At s t (s.pc t)

theorem stackInv_init (nodes : Holdings) (word : ℕ → ℕ) : StackInv nodes (.init nodes word) [] where
  chain := .nil
  tag := by simp [Stack.init, tagptrTag]
  nodes := by simp [Stack.init]
  offList := by simp
  apart := nodes.apart
  thread := fun _ => trivial

/-- A thread that takes no step keeps its nodes and what it knows of the head it loaded. -/
theorem At.frame {s r : Stack} {u : ℕ} {c : Pc} (hat : At s u c)
    (howned : r.owned u = s.owned u) (hword : ∀ n ∈ s.owned u, r.word n = s.word n)
    (hloaded : r.loadedAt u = s.loadedAt u) (hcount : s.casCount ≤ r.casCount)
    (hsame : r.casCount = s.casCount → r.head = s.head ∧
      (tagptrPtr s.head ≠ 0 → r.word (tagptrPtr s.head) = s.word (tagptrPtr s.head))) :
    At r u c := by
  have hload : ∀ {oldHead}, Loaded s u oldHead → Loaded r u oldHead := by
    intro oldHead ⟨hle, htag, hhead⟩
    refine ⟨hloaded ▸ hle.trans hcount, hloaded ▸ htag, fun heq => ?_⟩
    have hcas : r.casCount = s.casCount := by omega
    rw [(hsame hcas).1]
    exact hhead (by omega)
  have hsegment : ∀ {head tail nodes}, Segment s u head tail nodes →
      Segment r u head tail nodes := by
    intro head tail nodes ⟨hchain, htail, hown⟩
    refine ⟨hchain.congr fun y hy => ?_, htail, howned ▸ hown⟩
    by_cases hy' : y = tail
    · simp [hy']
    · simp [hy', hword y (hown y hy)]
  have hcaller : ∀ {caller}, CallerInv s u caller → CallerInv r u caller := by
    intro caller
    cases caller <;> simp [CallerInv, howned]
  cases c with
  | idle => trivial
  | pushLoad => exact hsegment hat
  | pushLink => exact ⟨hsegment hat.1, hload hat.2⟩
  | pushCas =>
    obtain ⟨hseg, hold, hlink⟩ := hat
    exact ⟨hsegment hseg, hload hold, by rw [hword _ (hseg.owned _ hseg.tail), hlink]⟩
  | popLoad => exact hcaller hat
  | popRead => exact ⟨hcaller hat.1, hload hat.2⟩
  | popCas =>
    obtain ⟨hcall, hold, hne, hnext⟩ := hat
    refine ⟨hcaller hcall, hload hold, hne, fun heq => ?_⟩
    have hle := hold.earlier
    have hcas : r.casCount = s.casCount := by omega
    have hhead := hold.same (by omega)
    rw [hnext (by omega), hhead, (hsame hcas).2 (hhead ▸ hne)]
  | append =>
    obtain ⟨hcall, hown, hne⟩ := hat
    exact ⟨hcaller hcall, howned ▸ hown, hne⟩
  | terminate => exact fun hcount => howned ▸ hat hcount

variable {nodes : Holdings} {s r : Stack} {L : List ℕ} {t : ℕ}

/-- The top of the list is in nobody's hands. -/
theorem StackInv.top_not_owned (hinv : StackInv nodes s L) (hne : tagptrPtr s.head ≠ 0) (u : ℕ) :
    tagptrPtr s.head ∉ s.owned u :=
  hinv.offList _ (hinv.chain.head_mem hne) u

/-- A step in which `t` writes into its own nodes only and no swap succeeds. -/
theorem StackInv.keep (hinv : StackInv nodes s L) (hhead : r.head = s.head)
    (hcount : r.casCount = s.casCount) (howned : r.owned = s.owned)
    (hword : ∀ n, n ∉ s.owned t → r.word n = s.word n) (hpc : ∀ u ≠ t, r.pc u = s.pc u)
    (hloaded : ∀ u ≠ t, r.loadedAt u = s.loadedAt u) (hself : At r t (r.pc t)) :
    StackInv nodes r L where
  chain := by
    rw [hhead]
    exact hinv.chain.congr fun y hy => hword y (hinv.offList y hy t)
  tag := by rw [hhead, hcount, hinv.tag]
  nodes := by rw [howned]; exact hinv.nodes
  offList := by rw [howned]; exact hinv.offList
  apart := by rw [howned]; exact hinv.apart
  thread := by
    intro u
    by_cases hu : u = t
    · rw [hu]
      exact hself
    · rw [hpc u hu]
      refine (hinv.thread u).frame (by rw [howned]) ?_ (hloaded u hu) hcount.ge ?_
      · intro n hn
        exact hword n fun hown => hu (hinv.apart u t n hn hown)
      · exact fun _ => ⟨hhead, fun hne => hword _ (hinv.top_not_owned hne t)⟩

/-- Between the load and a swap that finds the word loaded, no other swap has succeeded. -/
theorem StackInv.unchanged (hinv : StackInv nodes s L) {oldHead : ℕ} (hold : Loaded s t oldHead)
    (hsame : s.head = oldHead) (hwindow : s.casCount - s.loadedAt t < 2 ^ 16) :
    s.loadedAt t = s.casCount := by
  have htag : s.casCount % 2 ^ 16 = s.loadedAt t % 2 ^ 16 := by rw [← hinv.tag, hsame, hold.tag]
  have hle := hold.earlier
  omega

theorem StackInv.tag_succ (hinv : StackInv nodes s L) (ptr : ℕ) :
    tagptrTag (tagptrMake ptr (tagptrTag s.head + 1)) = (s.casCount + 1) % 2 ^ 16 := by
  rw [tagptrTag_make, hinv.tag, Nat.mod_add_mod]

/-- What a swap of `t` that succeeds changes: the head, and the nodes in its hands. -/
structure Swapped (s r : Stack) (t ptr : ℕ) : Prop where
  head : r.head = tagptrMake ptr (tagptrTag s.head + 1)
  casCount : r.casCount = s.casCount + 1
  word : r.word = s.word
  owned : ∀ u ≠ t, r.owned u = s.owned u
  pc : ∀ u ≠ t, r.pc u = s.pc u
  loadedAt : r.loadedAt = s.loadedAt

theorem swapped_cas {ptr newHead : ℕ} (hnew : newHead = tagptrMake ptr (tagptrTag s.head + 1))
    (owned : Finset ℕ) (c : Pc) :
    Swapped s (((s.cas newHead).setOwned t owned).goto t c) t ptr where
  head := hnew
  casCount := rfl
  word := rfl
  owned := fun _ hu => update_of_ne hu _ _
  pc := fun _ hu => update_of_ne hu _ _
  loadedAt := rfl

theorem owned_cas (newHead : ℕ) (owned : Finset ℕ) (c : Pc) :
    (((s.cas newHead).setOwned t owned).goto t c).owned t = owned :=
  update_self ..

/-- The other threads after a swap of `t` that succeeds. -/
theorem StackInv.thread_swapped (hinv : StackInv nodes s L) {ptr : ℕ} (hswap : Swapped s r t ptr)
    (hself : At r t (r.pc t)) (u : ℕ) : At r u (r.pc u) := by
  by_cases hu : u = t
  · rw [hu]
    exact hself
  · have hcount := hswap.casCount
    rw [hswap.pc u hu]
    refine (hinv.thread u).frame (hswap.owned u hu) ?_ (by rw [hswap.loadedAt]) (by omega) ?_
    · intro n _
      rw [hswap.word]
    · intro heq
      omega

theorem StackInv.fits (hinv : StackInv nodes s L) {n : ℕ} (hn : n ∈ L ∨ ∃ u, n ∈ s.owned u) :
    n ≠ 0 ∧ n < 2 ^ tagptrPtrBits := by
  obtain ⟨u, hu⟩ := (hinv.nodes n).1 hn
  exact ⟨nodes.ne_null u n hu, nodes.fits u n hu⟩

/-- The start of a chain of nodes fits below the tag. -/
theorem chain_head_fits {word : ℕ → ℕ} {head : ℕ} {xs : List ℕ} (hchain : Chain 0 word head xs)
    (hxs : ∀ n ∈ xs, n < 2 ^ tagptrPtrBits) : head < 2 ^ tagptrPtrBits := by
  cases hchain with
  | nil => decide
  | cons _ _ => exact hxs _ List.mem_cons_self

/-- A push links its nodes before the list as it is at the swap, whenever it loaded the head. -/
theorem StackInv.pushed (hinv : StackInv nodes s L) {head tail : ℕ} {pushed : List ℕ}
    (hseg : Segment s t head tail pushed) (hlink : s.word tail = tagptrPtr s.head)
    (hswap : Swapped s r t head) (howned : r.owned t = s.owned t \ pushed.toFinset)
    (hself : At r t (r.pc t)) : StackInv nodes r (pushed ++ L) := by
  have hfits : head < 2 ^ tagptrPtrBits :=
    chain_head_fits hseg.chain fun n hn => (hinv.fits (.inr ⟨t, hseg.owned n hn⟩)).2
  have hmem : ∀ n u, n ∈ r.owned u ↔ n ∈ s.owned u ∧ n ∉ pushed := by
    intro n u
    by_cases hu : u = t
    · rw [hu, howned]
      simp
    · rw [hswap.owned u hu]
      exact ⟨fun hn => ⟨hn, fun hp => hu (hinv.apart u t n hn (hseg.owned n hp))⟩, And.left⟩
  constructor
  · rw [hswap.head, hswap.word, tagptrPtr_make hfits]
    exact hseg.chain.splice hseg.tail (hlink ▸ hinv.chain)
  · rw [hswap.head, hswap.casCount, hinv.tag_succ]
  · intro n
    simp only [← hinv.nodes n, List.mem_append, hmem]
    constructor
    · rintro ((hp | hL) | ⟨u, hu, -⟩)
      · exact .inr ⟨t, hseg.owned n hp⟩
      · exact .inl hL
      · exact .inr ⟨u, hu⟩
    · rintro (hL | ⟨u, hu⟩)
      · exact .inl (.inr hL)
      · by_cases hp : n ∈ pushed
        · exact .inl (.inl hp)
        · exact .inr ⟨u, hu, hp⟩
  · intro n hn u hu
    obtain ⟨hown, hp⟩ := (hmem n u).1 hu
    exact hinv.offList n ((List.mem_append.1 hn).resolve_left hp) u hown
  · intro u v n hu hv
    exact hinv.apart u v n ((hmem n u).1 hu).1 ((hmem n v).1 hv).1
  · exact hinv.thread_swapped hswap hself

/-- A pop whose word is the link of the top takes the top. -/
theorem StackInv.popped (hinv : StackInv nodes s L) (hne : tagptrPtr s.head ≠ 0)
    (hswap : Swapped s r t (s.word (tagptrPtr s.head)))
    (howned : r.owned t = insert (tagptrPtr s.head) (s.owned t)) (hself : At r t (r.pc t)) :
    ∃ rest, L = tagptrPtr s.head :: rest ∧ StackInv nodes r rest := by
  obtain ⟨rest, hL, hrest⟩ := hinv.chain.uncons hne
  have hnodup := hinv.chain.nodup
  have hfits : s.word (tagptrPtr s.head) < 2 ^ tagptrPtrBits :=
    chain_head_fits hrest fun n hn => (hinv.fits (.inl (hL ▸ List.mem_cons_of_mem _ hn))).2
  have hmem : ∀ n u, n ∈ r.owned u ↔ n ∈ s.owned u ∨ (u = t ∧ n = tagptrPtr s.head) := by
    intro n u
    by_cases hu : u = t
    · rw [hu, howned]
      simp [or_comm]
    · rw [hswap.owned u hu]
      simp [hu]
  rw [hL] at hnodup
  have hfresh := (List.nodup_cons.1 hnodup).1
  refine ⟨rest, hL, ?_⟩
  constructor
  · rw [hswap.head, hswap.word, tagptrPtr_make hfits]
    exact hrest
  · rw [hswap.head, hswap.casCount, hinv.tag_succ]
  · intro n
    simp only [← hinv.nodes n, hL, List.mem_cons, hmem]
    constructor
    · rintro (hn | ⟨u, hu | ⟨-, rfl⟩⟩)
      · exact .inl (.inr hn)
      · exact .inr ⟨u, hu⟩
      · exact .inl (.inl rfl)
    · rintro ((rfl | hn) | ⟨u, hu⟩)
      · exact .inr ⟨t, .inr ⟨rfl, rfl⟩⟩
      · exact .inl hn
      · exact .inr ⟨u, .inl hu⟩
  · intro n hn u hu
    rcases (hmem n u).1 hu with hown | ⟨-, rfl⟩
    · exact hinv.offList n (hL ▸ List.mem_cons_of_mem _ hn) u hown
    · exact hfresh hn
  · intro u v n hu hv
    rcases (hmem n u).1 hu with hu | ⟨rfl, rfl⟩
    · rcases (hmem n v).1 hv with hv | ⟨rfl, rfl⟩
      · exact hinv.apart u v n hu hv
      · exact absurd hu (hinv.top_not_owned hne u)
    · rcases (hmem _ v).1 hv with hv | ⟨rfl, -⟩
      · exact absurd hv (hinv.top_not_owned hne v)
      · rfl
  · exact hinv.thread_swapped hswap hself

end Invariant

section Steps

variable {nodes : Holdings} {s r : Stack} {L : List ℕ} {t : ℕ}

/-- A load sees the head of now. -/
theorem StackInv.loaded (hinv : StackInv nodes s L) : Loaded (s.load t) t s.head where
  earlier := by simp [Stack.load]
  tag := by simpa [Stack.load] using hinv.tag
  same := fun _ => rfl

theorem at_returned {caller : Caller} {node : ℕ} (hcall : CallerInv s t caller)
    (hnode : node ≠ 0 → node ∈ s.owned t) : At s t (caller.returned node) := by
  cases caller with
  | pop => trivial
  | popBatch head tail count max =>
    by_cases hnull : node = 0
    · simpa [Caller.returned, hnull, At] using hcall.2
    · simpa [Caller.returned, hnull, At, hnode hnull] using hcall

theorem at_popBatchLoop {head tail count max : ℕ}
    (hcall : CallerInv s t (.popBatch head tail count max)) :
    At s t (popBatchLoop head tail count max) := by
  unfold popBatchLoop
  split_ifs
  · exact hcall
  · exact hcall.2

theorem At.goto {c : Pc} (hat : At s t c) : At (s.goto t c) t ((s.goto t c).pc t) := by
  have hpc : (s.goto t c).pc t = c := update_self ..
  rw [hpc]
  exact hat.frame rfl (fun _ _ => rfl) rfl le_rfl fun _ => ⟨rfl, fun _ => rfl⟩

theorem StackInv.goto (hinv : StackInv nodes s L) {c : Pc} (hat : At s t c) :
    StackInv nodes (s.goto t c) L :=
  hinv.keep rfl rfl rfl (fun _ _ => rfl) (fun _ hu => update_of_ne hu _ _)
    (fun _ _ => rfl) hat.goto

theorem StackInv.load (hinv : StackInv nodes s L) {c : Pc} (hat : At (s.load t) t c) :
    StackInv nodes ((s.load t).goto t c) L :=
  hinv.keep rfl rfl rfl (fun _ _ => rfl) (fun _ hu => update_of_ne hu _ _)
    (fun _ hu => update_of_ne hu _ _) hat.goto

theorem StackInv.store (hinv : StackInv nodes s L) {node value : ℕ} {c : Pc}
    (hown : node ∈ s.owned t) (hat : At (s.store node value) t c) :
    StackInv nodes ((s.store node value).goto t c) L := by
  refine hinv.keep rfl rfl rfl (fun n hn => ?_) (fun _ hu => update_of_ne hu _ _)
    (fun _ _ => rfl) hat.goto
  have hne : n ≠ node := by
    rintro rfl
    exact hn hown
  exact update_of_ne hne _ _

theorem Segment.load {head tail : ℕ} {pushed : List ℕ} (hseg : Segment s t head tail pushed) :
    Segment (s.load t) t head tail pushed :=
  ⟨hseg.chain, hseg.tail, hseg.owned⟩

theorem CallerInv.load {caller : Caller} (hcall : CallerInv s t caller) :
    CallerInv (s.load t) t caller := by
  cases caller <;> exact hcall

/-- A caller keeps its chain when its thread gets one more node. -/
theorem CallerInv.take {caller : Caller} (hcall : CallerInv s t caller) (newHead node : ℕ) :
    CallerInv ((s.cas newHead).setOwned t (insert node (s.owned t))) t caller := by
  cases caller with
  | pop => trivial
  | popBatch head tail count max =>
    refine ⟨hcall.1, fun hcount => ?_⟩
    simp [Stack.setOwned, hcall.2 hcount]

theorem CallerInv.returned {caller : Caller} (hcall : CallerInv s t caller) (newHead node : ℕ) :
    At ((s.cas newHead).setOwned t (insert node (s.owned t))) t (caller.returned node) := by
  refine at_returned (hcall.take newHead node) fun _ => ?_
  simp [Stack.setOwned]

/-- Every step keeps the invariant, and changes the list as its events say. -/
theorem StackInv.step (hinv : StackInv nodes s L) {events : List Event} (hwindow : InWindow s t)
    (hstep : Step s t r events) :
    ∃ L', StackInv nodes r L' ∧
      ∀ log, replay log = some L → replay (events ++ log) = some L' := by
  have hat := hinv.thread t
  cases hstep with
  | write hpc hown value =>
    refine ⟨L, hinv.keep (t := t) rfl rfl rfl (fun n hn => ?_) (fun _ _ => rfl) (fun _ _ => rfl)
      ?_, fun _ => id⟩
    · exact update_of_ne (fun heq => hn (by rwa [heq])) _ _
    · exact hpc ▸ trivial
  | @push node hpc hown =>
    have hne := (hinv.fits (.inr ⟨t, hown⟩)).1
    refine ⟨L, hinv.goto ⟨.cons hne ?_, List.mem_singleton_self node, ?_⟩, fun _ => id⟩
    · rw [update_self]
      exact .nil
    · simpa using hown
  | @pushBatch head tail pushed hpc hchain htail hend hown =>
    have hword := update_eq_self tail s.word
    rw [hend] at hword
    refine ⟨L, hinv.goto ⟨?_, htail, hown⟩, fun _ => id⟩
    rw [hword]
    exact hchain
  | pushLoad hpc =>
    rw [hpc] at hat
    exact ⟨L, hinv.load ⟨hat.load, hinv.loaded⟩, fun _ => id⟩
  | pushLink hpc =>
    rw [hpc] at hat
    obtain ⟨hseg, hold⟩ := hat
    refine ⟨L, hinv.store (hseg.owned _ hseg.tail) ⟨⟨?_, hseg.tail, hseg.owned⟩, ⟨hold.earlier,
      hold.tag, hold.same⟩, update_self ..⟩, fun _ => id⟩
    simpa only [Stack.store, update_idem] using hseg.chain
  | @pushed head tail oldHead pushed hpc hsame =>
    rw [hpc] at hat
    obtain ⟨hseg, -, hlink⟩ := hat
    subst hsame
    generalize hnew : tagptrMake head (tagptrTag s.head + 1) = newHead
    have hself : At ((s.cas newHead).setOwned t (s.owned t \ pushed.toFinset)) t .idle := trivial
    refine ⟨pushed ++ L, hinv.pushed hseg hlink (swapped_cas hnew.symm _ _)
      (owned_cas _ _ _) hself.goto, fun log hlog => ?_⟩
    simp [replay, hlog]
  | pushFailed hpc =>
    rw [hpc] at hat
    exact ⟨L, hinv.load ⟨hat.1.load, hinv.loaded⟩, fun _ => id⟩
  | pop hpc => exact ⟨L, hinv.goto trivial, fun _ => id⟩
  | popBatch hpc hmax =>
    refine ⟨L, hinv.goto (at_popBatchLoop ?_), fun _ => id⟩
    simp [CallerInv]
  | popLoad hpc =>
    rw [hpc] at hat
    exact ⟨L, hinv.load ⟨CallerInv.load hat, hinv.loaded⟩, fun _ => id⟩
  | popEmpty hpc hnull =>
    rw [hpc] at hat
    exact ⟨L, hinv.goto (at_returned hat.1 fun hne => absurd rfl hne), fun _ => id⟩
  | popRead hpc hnode =>
    rw [hpc] at hat
    exact ⟨L, hinv.goto ⟨hat.1, hat.2, hnode, fun _ => rfl⟩, fun _ => id⟩
  | @popped caller oldHead next hpc hsame =>
    rw [InWindow, hpc] at hwindow
    rw [hpc] at hat
    obtain ⟨hcall, hold, hne, hnext⟩ := hat
    have hlink := hnext (hinv.unchanged hold hsame hwindow)
    subst hsame hlink
    generalize hnew : tagptrMake (s.word (tagptrPtr s.head)) (tagptrTag s.head + 1) = newHead
    have hself := hcall.returned newHead (tagptrPtr s.head)
    obtain ⟨rest, hL, hrest⟩ := hinv.popped hne (swapped_cas hnew.symm _ _) (owned_cas _ _ _)
      hself.goto
    refine ⟨rest, hrest, fun log hlog => ?_⟩
    simp [replay, hlog, hL]
  | popFailed hpc =>
    rw [hpc] at hat
    exact ⟨L, hinv.load ⟨CallerInv.load hat.1, hinv.loaded⟩, fun _ => id⟩
  | appendFirst hpc =>
    rw [hpc] at hat
    obtain ⟨hcall, hown, hne⟩ := hat
    refine ⟨L, hinv.goto (at_popBatchLoop ?_), fun _ => id⟩
    simp [CallerInv, hown, hne]
  | append hpc hhead =>
    rw [hpc] at hat
    obtain ⟨hcall, hown, hne⟩ := hat
    refine ⟨L, hinv.store (hcall.2 (hcall.1.2 hhead)) (at_popBatchLoop ?_), fun _ => id⟩
    simp [CallerInv, hhead, Stack.store, hown]
  | terminateEmpty hpc => exact ⟨L, hinv.goto trivial, fun _ => id⟩
  | terminate hpc hcount =>
    rw [hpc] at hat
    exact ⟨L, hinv.store (hat hcount) trivial, fun _ => id⟩

theorem Run.stackInv {log : List Event} (hrun : Run nodes s log) :
    ∃ L, replay log = some L ∧ StackInv nodes s L := by
  induction hrun with
  | init word => exact ⟨[], rfl, stackInv_init nodes word⟩
  | step _ hwindow hstep ih =>
    obtain ⟨L, hlog, hinv⟩ := ih
    obtain ⟨L', hinv', hreplay⟩ := hinv.step hwindow hstep
    exact ⟨L', hreplay _ hlog, hinv'⟩

end Steps

/-- In every interleaving whose swaps come in time, the completed pushes and pops are those of a
sequential stack, whose nodes the head links in this order and without a cycle; and every node is
on this list once and in nobody's hands, or off the list and in the hands of one thread. -/
theorem stack_keeps_nodes {nodes : Holdings} {s : Stack} {log : List Event}
    (hrun : Run nodes s log) :
    ∃ L, replay log = some L ∧ Chain 0 s.word (tagptrPtr s.head) L ∧
      ∀ t n, n ∈ nodes.owned t →
        (L.count n = 1 ∧ ∀ u, n ∉ s.owned u) ∨ (n ∉ L ∧ ∃! u, n ∈ s.owned u) := by
  obtain ⟨L, hlog, hinv⟩ := hrun.stackInv
  refine ⟨L, hlog, hinv.chain, fun t n hn => ?_⟩
  rcases (hinv.nodes n).2 ⟨t, hn⟩ with hL | ⟨u, hu⟩
  · exact .inl ⟨List.count_eq_one_of_mem hinv.chain.nodup hL, hinv.offList n hL⟩
  · refine .inr ⟨fun hL => hinv.offList n hL u hu, u, hu, fun v hv => hinv.apart v u n hv hu⟩

/-- One node, in the hands of thread 0. -/
def oneNode : Holdings where
  owned := fun t => if t = 0 then {8} else ∅
  ne_null := by
    intro t n hn
    split_ifs at hn <;> simp_all
  fits := by
    intro t n hn
    split_ifs at hn <;> simp_all [tagptrPtrBits]
  apart := by
    intro t u n ht hu
    split_ifs at ht hu <;> simp_all

/-- Thread 0 pushes the node and thread 1 pops it. -/
theorem stack_keeps_nodes_passed :
    ∃ s, Run oneNode s [.popped 1 8, .pushed 0 [8]] ∧
      ∃ L, replay [.popped 1 8, .pushed 0 [8]] = some L ∧ Chain 0 s.word (tagptrPtr s.head) L ∧
        ∀ t n, n ∈ oneNode.owned t →
          (L.count n = 1 ∧ ∀ u, n ∉ s.owned u) ∨ (n ∉ L ∧ ∃! u, n ∈ s.owned u) := by
  have hstart : Run oneNode _ [] := .init fun _ => 0
  have hpush := hstart.step (t := 0) trivial (.push rfl (Finset.mem_singleton_self 8))
  have hload := hpush.step (t := 0) trivial (.pushLoad rfl)
  have hlink := hload.step (t := 0) trivial (.pushLink rfl)
  have hpushed := hlink.step (t := 0) (show (0 : ℕ) - 0 < 2 ^ 16 by decide) (.pushed rfl rfl)
  have hpop := hpushed.step (t := 1) trivial (.pop rfl)
  have hpopLoad := hpop.step (t := 1) trivial (.popLoad rfl)
  have hread := hpopLoad.step (t := 1) trivial (.popRead rfl (by decide))
  have hrun := hread.step (t := 1) (show (1 : ℕ) - 1 < 2 ^ 16 by decide) (.popped rfl rfl)
  exact ⟨_, hrun, stack_keeps_nodes hrun⟩

end V8Malloc.CoreStack
