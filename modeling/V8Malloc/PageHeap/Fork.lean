import Mathlib.Logic.Function.Basic
import Mathlib.Tactic.Common

/-!
# The fork hooks of the page heap

Lock-level steps of `v8m_page_heap_prefork`, `fork` and the two postfork hooks,
interleaved with the page-heap calls of other threads. Such a call either takes
`g_region_lock` (registering or unregistering a region), or asks `anchor_get` for
the anchor, which runs `anchor_lazy_init` under `pthread_once`, and then takes
`g_anchor.lock` (carving or releasing).

Every hook decides from `g_anchor_initialized` whether it touches the lock of the
anchor. A process is followed through the parent or the child of each fork; in a
child no other thread runs, and it is followed until its hook has returned.
-/
namespace V8Malloc.Fork

open Function

inductive Mutex
  | region
  | anchor
  deriving DecidableEq, Repr

/-- The control word of `pthread_once`. -/
inductive Once
  | notRun
  | running (t : ℕ)
  | done
  deriving DecidableEq, Repr

/-- The next statement of a thread. -/
inductive Pc
  | idle
  | inRegion
  | lazyInit
  | lazyStore
  | lazyReturn
  | anchorLoad
  | anchorLock
  | inAnchor
  | preforkLoad
  | preforkLock
  | fork
  | postforkLoad
  | postforkUnlock
  | postforkReturn
  | gone
  deriving DecidableEq, Repr

structure Process where
  lock : Mutex → Option ℕ
  once : Once
  anchorInitialized : Bool
  pc : ℕ → Pc
  isChild : Bool

/-- What the hooks do to the locks. An unlock shows the holder it finds. -/
inductive Event
  | locked (t : ℕ) (m : Mutex)
  | unlocked (t : ℕ) (m : Mutex) (holder : Option ℕ)
  | returned (t : ℕ)
  deriving DecidableEq, Repr

/-- An idle thread begins a call; otherwise it takes its next step. The flag is the answer of
the system: whether the reservation succeeds, or whether `fork` returns in the parent. -/
inductive Act
  | register
  | anchor
  | fork
  | go (ok : Bool)
  deriving DecidableEq, Repr

namespace Process

def init : Process :=
  { lock := fun _ => none
    once := .notRun
    anchorInitialized := false
    pc := fun _ => .idle
    isChild := false }

def goto (p : Process) (t : ℕ) (q : Pc) : Process :=
  { p with pc := update p.pc t q }

def setLock (p : Process) (m : Mutex) (holder : Option ℕ) : Process :=
  { p with lock := update p.lock m holder }

/-- `pthread_mutex_lock`: no step while another thread holds the mutex. -/
def mutexLock (p : Process) (t : ℕ) (m : Mutex) : Option Process :=
  if p.lock m = none then some (p.setLock m (some t)) else none

/-- `pthread_mutex_unlock` of a normal mutex: whoever holds it, it is free afterwards. -/
def mutexUnlock (p : Process) (m : Mutex) : Process :=
  p.setLock m none

@[simp] theorem pc_goto (p : Process) (t : ℕ) (c : Pc) :
    (p.goto t c).pc = update p.pc t c := rfl

@[simp] theorem lock_goto (p : Process) (t : ℕ) (c : Pc) : (p.goto t c).lock = p.lock := rfl

@[simp] theorem once_goto (p : Process) (t : ℕ) (c : Pc) : (p.goto t c).once = p.once := rfl

@[simp] theorem anchorInitialized_goto (p : Process) (t : ℕ) (c : Pc) :
    (p.goto t c).anchorInitialized = p.anchorInitialized := rfl

@[simp] theorem pc_setLock (p : Process) (m : Mutex) (holder : Option ℕ) :
    (p.setLock m holder).pc = p.pc := rfl

@[simp] theorem lock_setLock (p : Process) (m : Mutex) (holder : Option ℕ) :
    (p.setLock m holder).lock = update p.lock m holder := rfl

@[simp] theorem once_setLock (p : Process) (m : Mutex) (holder : Option ℕ) :
    (p.setLock m holder).once = p.once := rfl

@[simp] theorem anchorInitialized_setLock (p : Process) (m : Mutex) (holder : Option ℕ) :
    (p.setLock m holder).anchorInitialized = p.anchorInitialized := rfl

/-- The copy of the process in which only thread `t` goes on. -/
def child (p : Process) (t : ℕ) : Process :=
  { p with pc := fun u => if u = t then .postforkLoad else .gone, isChild := true }

/-- One step of thread `t`, with what the hooks did in it, the newest first. -/
def step (p : Process) (t : ℕ) (a : Act) : Option (Process × List Event) :=
  match p.pc t, a with
  -- region_register, region_unregister
  | .idle, .register => (p.mutexLock t .region).map fun q => (q.goto t .inRegion, [])
  | .inRegion, .go _ => some ((p.mutexUnlock .region).goto t .idle, [])
  -- anchor_get
  | .idle, .anchor =>
    match p.once with
    | .notRun => some ({ p with once := .running t }.goto t .lazyInit, [])
    | .running _ => none
    | .done => some (p.goto t .anchorLoad, [])
  -- v8m_anchor_reservation_init clears the reservation, its mutex included
  | .lazyInit, .go ok =>
    some ((p.setLock .anchor none).goto t (if ok then .lazyStore else .lazyReturn), [])
  | .lazyStore, .go _ => some ({ p with anchorInitialized := true }.goto t .lazyReturn, [])
  | .lazyReturn, .go _ => some ({ p with once := .done }.goto t .anchorLoad, [])
  | .anchorLoad, .go _ =>
    some (p.goto t (if p.anchorInitialized then .anchorLock else .idle), [])
  -- v8m_anchor_reservation_carve, _release; both may return before they lock
  | .anchorLock, .go ok =>
    if ok then (p.mutexLock t .anchor).map fun q => (q.goto t .inAnchor, [])
    else some (p.goto t .idle, [])
  | .inAnchor, .go _ => some ((p.mutexUnlock .anchor).goto t .idle, [])
  -- v8m_page_heap_prefork
  | .idle, .fork =>
    (p.mutexLock t .region).map fun q => (q.goto t .preforkLoad, [.locked t .region])
  | .preforkLoad, .go _ =>
    some (p.goto t (if p.anchorInitialized then .preforkLock else .fork), [])
  | .preforkLock, .go _ =>
    (p.mutexLock t .anchor).map fun q => (q.goto t .fork, [.locked t .anchor])
  | .fork, .go parent => some (if parent then p.goto t .postforkLoad else p.child t, [])
  -- v8m_page_heap_postfork_parent, v8m_page_heap_postfork_child
  | .postforkLoad, .go _ =>
    some (p.goto t (if p.anchorInitialized then .postforkUnlock else .postforkReturn), [])
  | .postforkUnlock, .go _ =>
    some ((p.mutexUnlock .anchor).goto t .postforkReturn,
      [.unlocked t .anchor (p.lock .anchor)])
  | .postforkReturn, .go _ =>
    some ((p.mutexUnlock .region).goto t (if p.isChild then .gone else .idle),
      [.returned t, .unlocked t .region (p.lock .region)])
  | _, _ => none

end Process

/-- The steps from the start of the process, each allowed by `ok`, with the events of the
hooks, the newest first. -/
inductive Run (ok : Process → ℕ → Act → Prop) : Process → List Event → Prop
  | init : Run ok .init []
  | step {p q : Process} {log events : List Event} {t : ℕ} {a : Act} :
      Run ok p log → ok p t a → p.step t a = some (q, events) → Run ok q (events ++ log)

/-- The mutexes the last prefork of `t` has locked and no postfork hook has unlocked. -/
@[simp] def taken (t : ℕ) : List Event → List Mutex
  | [] => []
  | .locked u m :: log => if u = t then m :: taken t log else taken t log
  | .unlocked u m _ :: log => if u = t then (taken t log).erase m else taken t log
  | .returned _ :: log => taken t log

/-- A hook unlocks what its thread's prefork locked and its thread holds, and returns when
nothing of it is left. -/
def Matches (log : List Event) : Event → Prop
  | .locked _ _ => True
  | .unlocked t m holder => m ∈ taken t log ∧ holder = some t
  | .returned t => taken t log = []

def Paired : List Event → Prop
  | [] => True
  | e :: log => Matches log e ∧ Paired log

instance (log : List Event) (e : Event) : Decidable (Matches log e) := by
  cases e <;> unfold Matches <;> infer_instance

instance decidablePaired : (log : List Event) → Decidable (Paired log)
  | [] => .isTrue trivial
  | _ :: log => @instDecidableAnd _ _ inferInstance (decidablePaired log)

/-- The anchor is not published while a thread stands between the two loads of its hooks. -/
def Undisturbed (p : Process) (t : ℕ) (_ : Act) : Prop :=
  p.pc t = .lazyStore → ∀ u, p.pc u ≠ .fork ∧ p.pc u ≠ .postforkLoad

namespace Pc

@[simp] def holdsRegion : Pc → Prop
  | .inRegion | .preforkLoad | .preforkLock | .fork | .postforkLoad | .postforkUnlock
  | .postforkReturn => True
  | _ => False

/-- Between the two loads the flag tells whether the prefork took the lock. -/
@[simp] def holdsAnchor (initialized : Bool) : Pc → Prop
  | .inAnchor | .postforkUnlock => True
  | .fork | .postforkLoad => initialized
  | _ => False

@[simp] def hookLocks (initialized : Bool) : Pc → List Mutex
  | .preforkLoad | .preforkLock | .postforkReturn => [.region]
  | .postforkUnlock => [.anchor, .region]
  | .fork | .postforkLoad => if initialized then [.anchor, .region] else [.region]
  | _ => []

/-- The statements a thread reaches only after it has read the flag as set. -/
@[simp] def seen : Pc → Prop
  | .anchorLock | .inAnchor | .preforkLock | .postforkUnlock => True
  | _ => False

@[simp] def inits : Pc → Prop
  | .lazyInit | .lazyStore | .lazyReturn => True
  | _ => False

end Pc

theorem Pc.hookLocks_of_not_holdsRegion {initialized : Bool} {c : Pc} (h : ¬ c.holdsRegion) :
    c.hookLocks initialized = [] := by
  cases c <;> simp_all

/-- What the place of a thread says about the locks, the flag and the events. -/
structure ThreadInv (p : Process) (log : List Event) (t : ℕ) : Prop where
  region : (p.pc t).holdsRegion → p.lock .region = some t
  anchor : (p.pc t).holdsAnchor p.anchorInitialized → p.lock .anchor = some t
  hooks : taken t log = (p.pc t).hookLocks p.anchorInitialized
  seen : (p.pc t).seen → p.anchorInitialized = true
  inits : (p.pc t).inits → p.once = .running t
  unset : p.pc t = .lazyInit ∨ p.pc t = .lazyStore → p.anchorInitialized = false

structure ForkInv (p : Process) (log : List Event) : Prop where
  thread : ∀ t, ThreadInv p log t
  notRun : p.once = .notRun → p.anchorInitialized = false

theorem forkInv_init : ForkInv .init [] := by
  refine ⟨fun t => ?_, fun _ => rfl⟩
  constructor <;>
    simp [Process.init, taken, Pc.holdsRegion, Pc.holdsAnchor, Pc.hookLocks, Pc.seen, Pc.inits]

/-- What a step of thread `t` can be. -/
inductive Moves (p : Process) (t : ℕ) : Process → List Event → Prop
  | register (hpc : p.pc t = .idle) (hfree : p.lock .region = none) :
      Moves p t ((p.setLock .region (some t)).goto t .inRegion) []
  | registered (hpc : p.pc t = .inRegion) : Moves p t ((p.setLock .region none).goto t .idle) []
  | once (hpc : p.pc t = .idle) (honce : p.once = .notRun) :
      Moves p t ({ p with once := .running t }.goto t .lazyInit) []
  | again (hpc : p.pc t = .idle) (honce : p.once = .done) : Moves p t (p.goto t .anchorLoad) []
  | init (ok : Bool) (hpc : p.pc t = .lazyInit) :
      Moves p t ((p.setLock .anchor none).goto t (if ok then .lazyStore else .lazyReturn)) []
  | store (hpc : p.pc t = .lazyStore) :
      Moves p t ({ p with anchorInitialized := true }.goto t .lazyReturn) []
  | onceDone (hpc : p.pc t = .lazyReturn) :
      Moves p t ({ p with once := .done }.goto t .anchorLoad) []
  | load (hpc : p.pc t = .anchorLoad) :
      Moves p t (p.goto t (if p.anchorInitialized then .anchorLock else .idle)) []
  | carve (hpc : p.pc t = .anchorLock) (hfree : p.lock .anchor = none) :
      Moves p t ((p.setLock .anchor (some t)).goto t .inAnchor) []
  | refuse (hpc : p.pc t = .anchorLock) : Moves p t (p.goto t .idle) []
  | carved (hpc : p.pc t = .inAnchor) : Moves p t ((p.setLock .anchor none).goto t .idle) []
  | prefork (hpc : p.pc t = .idle) (hfree : p.lock .region = none) :
      Moves p t ((p.setLock .region (some t)).goto t .preforkLoad) [.locked t .region]
  | preforkLoad (hpc : p.pc t = .preforkLoad) :
      Moves p t (p.goto t (if p.anchorInitialized then .preforkLock else .fork)) []
  | preforkLock (hpc : p.pc t = .preforkLock) (hfree : p.lock .anchor = none) :
      Moves p t ((p.setLock .anchor (some t)).goto t .fork) [.locked t .anchor]
  | parent (hpc : p.pc t = .fork) : Moves p t (p.goto t .postforkLoad) []
  | child (hpc : p.pc t = .fork) : Moves p t (p.child t) []
  | postforkLoad (hpc : p.pc t = .postforkLoad) :
      Moves p t (p.goto t (if p.anchorInitialized then .postforkUnlock else .postforkReturn)) []
  | postforkUnlock (hpc : p.pc t = .postforkUnlock) :
      Moves p t ((p.setLock .anchor none).goto t .postforkReturn)
        [.unlocked t .anchor (p.lock .anchor)]
  | postforkReturn (hpc : p.pc t = .postforkReturn) :
      Moves p t ((p.setLock .region none).goto t (if p.isChild then .gone else .idle))
        [.returned t, .unlocked t .region (p.lock .region)]

theorem mutexLock_map_eq {p : Process} {t : ℕ} {m : Mutex} {f : Process → Process × List Event}
    {r : Process × List Event} (hlock : (p.mutexLock t m).map f = some r) :
    p.lock m = none ∧ f (p.setLock m (some t)) = r := by
  unfold Process.mutexLock at hlock
  split_ifs at hlock with hfree
  · exact ⟨hfree, by simpa using hlock⟩
  · simp at hlock

theorem step_moves {p q : Process} {events : List Event} {t : ℕ} {a : Act}
    (hstep : p.step t a = some (q, events)) : Moves p t q events := by
  revert hstep
  fun_cases Process.step p t a with
  | case16 parent hpc =>
    intro hstep
    cases parent <;> cases hstep
    · exact .child hpc
    · exact .parent hpc
  | case1 | case10 | case13 | case15 =>
    intro hstep
    obtain ⟨hfree, hq⟩ := mutexLock_map_eq hstep
    cases hq
    constructor <;> assumption
  | case4 | case20 =>
    intro hstep
    cases hstep
  | _ =>
    intro hstep
    cases hstep
    constructor <;> assumption

theorem ThreadInv.not_holdsAnchor {p : Process} {log : List Event} {u : ℕ}
    (h : ThreadInv p log u) (hunset : p.anchorInitialized = false) :
    ¬ (p.pc u).holdsAnchor p.anchorInitialized := by
  have hseen := h.seen
  cases hplace : p.pc u <;> simp_all

/-- The thread that moves stands where its new place says. -/
theorem ForkInv.move_self {p q : Process} {log events : List Event} {t : ℕ}
    (hinv : ForkInv p log) (hmove : Moves p t q events) : ThreadInv q (events ++ log) t := by
  obtain ⟨hregion, hanchor, hhooks, hseen, hinits, hunset⟩ := hinv.thread t
  have hnotRun := hinv.notRun
  cases hmove with
  | init ok hpc => cases ok <;> constructor <;> simp_all
  | child hpc => cases hflag : p.anchorInitialized <;> constructor <;> simp_all [Process.child]
  | postforkReturn hpc => cases hchild : p.isChild <;> constructor <;> simp_all
  | _ => cases hflag : p.anchorInitialized <;> constructor <;> simp_all

/-- A thread that does not move keeps its invariant with its locks. -/
theorem ThreadInv.frame {p q : Process} {log log' : List Event} {u : ℕ} (h : ThreadInv p log u)
    (hpc : q.pc u = p.pc u) (hflag : q.anchorInitialized = p.anchorInitialized)
    (hlock : ∀ m, p.lock m = some u → q.lock m = some u)
    (honce : (p.pc u).inits → q.once = p.once) (htaken : taken u log' = taken u log) :
    ThreadInv q log' u := by
  obtain ⟨hregion, hanchor, hhooks, hseen, hinits, hunset⟩ := h
  rw [← hpc, ← hflag] at *
  exact ⟨fun h => hlock _ (hregion h), fun h => hlock _ (hanchor h), by rw [htaken, hhooks], hseen,
    fun h => (honce h).trans (hinits h), hunset⟩

theorem lock_setLock_of_free {p : Process} {m : Mutex} {holder : Option ℕ} {u : ℕ}
    (hfree : p.lock m ≠ some u) (m' : Mutex) (hheld : p.lock m' = some u) :
    (p.setLock m holder).lock m' = some u := by
  have hne : m' ≠ m := by
    rintro rfl
    exact hfree hheld
  simp [hne, hheld]

/-- The other threads keep their locks: a mutex that `t` unlocks is its own, and nobody holds
the mutex of an anchor that is still being set up. -/
theorem ForkInv.move_other {p q : Process} {log events : List Event} {t u : ℕ}
    (hinv : ForkInv p log) (hmove : Moves p t q events)
    (hquiet : p.pc t = .lazyStore → p.pc u ≠ .fork ∧ p.pc u ≠ .postforkLoad) (hu : u ≠ t) :
    ThreadInv q (events ++ log) u := by
  have hother := hinv.thread u
  have hself := hinv.thread t
  have hne : t ≠ u := hu.symm
  cases hmove with
  | register hpc hfree | prefork hpc hfree | carve hpc hfree | preforkLock hpc hfree =>
    refine hother.frame ?_ rfl (lock_setLock_of_free ?_) (fun _ => rfl) ?_ <;> simp [hu, hne, hfree]
  | registered hpc | postforkReturn hpc =>
    have hheld := hself.region (by simp [hpc])
    refine hother.frame ?_ rfl (lock_setLock_of_free ?_) (fun _ => rfl) ?_ <;> simp [hu, hne, hheld]
  | carved hpc | postforkUnlock hpc =>
    have hheld := hself.anchor (by simp [hpc])
    refine hother.frame ?_ rfl (lock_setLock_of_free ?_) (fun _ => rfl) ?_ <;> simp [hu, hne, hheld]
  | init ok hpc =>
    have hunset := hself.unset (.inl hpc)
    have hfree := hother.not_holdsAnchor hunset
    obtain ⟨hregion, -, hhooks, hseen, hinits, hunset'⟩ := hother
    constructor <;> simp_all
  | store hpc =>
    have honce := hself.inits (by simp [hpc])
    have hunset := hself.unset (.inr hpc)
    have hinits : ¬ (p.pc u).inits := fun hin => by simp [hother.inits hin, hu] at honce
    obtain ⟨hregion, hanchor, hhooks, hseen, -, -⟩ := hother
    obtain ⟨hfork, hload⟩ := hquiet hpc
    cases hplace : p.pc u <;> constructor <;> simp_all
  | once hpc honce =>
    refine hother.frame ?_ rfl (fun _ => id) (fun hin => ?_) rfl
    · simp [hu]
    · simp [hother.inits hin] at honce
  | onceDone hpc =>
    have honce := hself.inits (by simp [hpc])
    refine hother.frame ?_ rfl (fun _ => id) (fun hin => ?_) rfl
    · simp [hu]
    · simp [hother.inits hin, hu] at honce
  | child hpc =>
    have hheld := hself.region (by simp [hpc])
    have hregion : ¬ (p.pc u).holdsRegion := fun hin => by simp [hother.region hin, hu] at hheld
    have hhooks : taken u log = [] := hother.hooks.trans (Pc.hookLocks_of_not_holdsRegion hregion)
    constructor <;> simp [Process.child, hu, hhooks]
  | _ => exact hother.frame (by simp [hu]) rfl (fun _ => id) (fun _ => rfl) rfl

theorem ForkInv.notRun_move {p q : Process} {log events : List Event} {t : ℕ}
    (hinv : ForkInv p log) (hmove : Moves p t q events) :
    q.once = .notRun → q.anchorInitialized = false := by
  have hnotRun := hinv.notRun
  cases hmove with
  | store hpc =>
    have honce := (hinv.thread t).inits (by simp [hpc])
    simp [honce]
  | once | onceDone => simp
  | _ => exact hnotRun

theorem ForkInv.step {p q : Process} {log events : List Event} {t : ℕ} {a : Act}
    (hinv : ForkInv p log) (hquiet : Undisturbed p t a) (hstep : p.step t a = some (q, events)) :
    ForkInv q (events ++ log) := by
  have hmove := step_moves hstep
  refine ⟨fun u => ?_, hinv.notRun_move hmove⟩
  by_cases hu : u = t
  · rw [hu]
    exact hinv.move_self hmove
  · exact hinv.move_other hmove (fun hpc => hquiet hpc u) hu

/-- In the invariant the hooks unlock what they find locked by themselves. -/
theorem ForkInv.paired {p q : Process} {log events : List Event} {t : ℕ}
    (hinv : ForkInv p log) (hmove : Moves p t q events) (hpaired : Paired log) :
    Paired (events ++ log) := by
  obtain ⟨hregion, hanchor, hhooks, -, -, -⟩ := hinv.thread t
  cases hmove <;> simp_all [Paired, Matches]

theorem Run.forkInv {p : Process} {log : List Event} (hrun : Run Undisturbed p log) :
    ForkInv p log ∧ Paired log := by
  induction hrun with
  | init => exact ⟨forkInv_init, trivial⟩
  | step _ hquiet hstep ih =>
    obtain ⟨hinv, hpaired⟩ := ih
    exact ⟨hinv.step hquiet hstep, hinv.paired (step_moves hstep) hpaired⟩

/-- In every run in which the anchor is never published between the two loads of a thread's
hooks, the postfork hooks release what the prefork acquired: the thread itself holds each mutex
they unlock, its prefork locked it, and none of these is left when they return. -/
theorem postfork_releases_prefork {p : Process} {log : List Event}
    (hrun : Run Undisturbed p log) : Paired log :=
  hrun.forkInv.2

/-- The steps of a schedule, one after the other, as long as `allowed` holds before them. -/
def Process.steps (allowed : Process → ℕ → Bool) (p : Process) (log : List Event) :
    List (ℕ × Act) → Option (Process × List Event)
  | [] => some (p, log)
  | (t, a) :: rest =>
    if allowed p t then
      match p.step t a with
      | none => none
      | some (q, events) => q.steps allowed (events ++ log) rest
    else none

theorem Run.steps {ok : Process → ℕ → Act → Prop} {allowed : Process → ℕ → Bool}
    (hok : ∀ p t a, allowed p t → ok p t a)
    {schedule : List (ℕ × Act)} {p q : Process} {log log' : List Event} (hrun : Run ok p log)
    (hsteps : p.steps allowed log schedule = some (q, log')) : Run ok q log' := by
  induction schedule generalizing p log with
  | nil =>
    cases hsteps
    exact hrun
  | cons act rest ih =>
    simp only [Process.steps] at hsteps
    split_ifs at hsteps with hallowed
    split at hsteps
    · cases hsteps
    · rename_i hstep
      exact ih (hrun.step (hok _ _ _ hallowed) hstep) hsteps

/-- Thread 1 has just published the anchor; no other thread has moved. -/
def published : Process :=
  { (({ Process.init with once := .running 1 }.goto 1 .lazyInit).setLock .anchor none).goto 1
      .lazyStore with anchorInitialized := true }.goto 1 .lazyReturn

theorem published_run : Run Undisturbed published [] := by
  refine .step (t := 1) (a := .go true) (.step (t := 1) (a := .go true)
    (.step (t := 1) (a := .anchor) .init ?_ rfl) ?_ rfl) ?_ rfl
  · intro hpc
    cases hpc
  · intro hpc
    cases hpc
  · intro _ u
    by_cases hu : u = 1 <;> simp [hu, Process.init]

/-- Thread 1 has published the anchor before thread 0 forks, and both mutexes are released. -/
theorem postfork_releases_prefork_published :
    ∃ p log, Run Undisturbed p log ∧ Paired log ∧ .returned 0 ∈ log ∧ .locked 0 .anchor ∈ log := by
  have hsteps : (published.steps (fun p t => p.pc t ≠ .lazyStore) []
      [(0, .fork), (0, .go true), (0, .go true), (0, .go true), (0, .go true), (0, .go true),
        (0, .go true)]).map Prod.snd =
      some [.returned 0, .unlocked 0 .region (some 0), .unlocked 0 .anchor (some 0),
        .locked 0 .anchor, .locked 0 .region] := by
    decide
  obtain ⟨⟨p, log⟩, hsome, rfl⟩ := Option.map_eq_some_iff.1 hsteps
  have hrun := published_run.steps (fun _ _ _ hne hpc => by simp [hpc] at hne) hsome
  exact ⟨p, _, hrun, postfork_releases_prefork hrun, by decide, by decide⟩

/-- Thread 0 has passed its prefork when thread 1 sets up the anchor and carves from it; the
postfork hook then unlocks the mutex that thread 1 holds. -/
theorem postfork_unlocks_carving_thread :
    ∃ p log, Run (fun _ _ _ => True) p log ∧ ¬ Paired log ∧
      .unlocked 0 .anchor (some 1) ∈ log ∧ .locked 0 .anchor ∉ log := by
  have hsteps : (Process.init.steps (fun _ _ => true) []
      [(0, .fork), (0, .go true), (1, .anchor), (1, .go true), (1, .go true), (1, .go true),
        (1, .go true), (1, .go true), (0, .go true), (0, .go true), (0, .go true)]).map
      Prod.snd = some [.unlocked 0 .anchor (some 1), .locked 0 .region] := by
    decide
  obtain ⟨⟨p, log⟩, hsome, rfl⟩ := Option.map_eq_some_iff.1 hsteps
  refine ⟨p, _, Run.init.steps (fun _ _ _ _ => trivial) hsome, ?_, ?_, ?_⟩ <;> decide

end V8Malloc.Fork
