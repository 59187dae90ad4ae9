import V8Malloc.PageHeap.OwnsFast

/-!
# Ownership reads beside a writer

`v8m_page_heap_owns_fast` as a sequence of reads of one word each, and the two
functions that change the region table as sections of single-word writes between
two increments of the counter. Readers and the one active writer interleave in any
order. A reader that finds its first counter value again, and even, has read one
table throughout, as long as the 64-bit counter has not come around.
-/
namespace V8Malloc.PageHeap

open PartitionPoint

/-! ### The writer -/

/-- One word of the table and the value written there. -/
inductive WordWrite
  | start (i value : ℕ)
  | end_ (i value : ℕ)
  | node (i value : ℕ)
  | isAnchor (i : ℕ) (flag : Bool)
  | promotedAtTsc (i value : ℕ)
  | regionCount (value : ℕ)
  deriving DecidableEq, Repr

def RegionMap.setEntry (T : RegionMap) (i : ℕ) (entry : RegionEntry) : RegionMap :=
  { T with regions := Function.update T.regions i entry }

def RegionMap.write (T : RegionMap) : WordWrite → RegionMap
  | .start i value => T.setEntry i { T.regions i with start := value }
  | .end_ i value => T.setEntry i { T.regions i with end_ := value }
  | .node i value => T.setEntry i { T.regions i with node := value }
  | .isAnchor i flag => T.setEntry i { T.regions i with isAnchor := flag }
  | .promotedAtTsc i value => T.setEntry i { T.regions i with promotedAtTsc := value }
  | .regionCount value => { T with regionCount := value }

def RegionMap.writeAll (T : RegionMap) (writes : List WordWrite) : RegionMap :=
  writes.foldl RegionMap.write T

/-! ### The reader -/

/-- The next statement of a reader. `left` rounds remain after the current one. -/
inductive ReadPc
  | enter
  | cached
  | round (left : ℕ)
  | regionCount (left seq1 : ℕ)
  | search (left seq1 count low high : ℕ)
  | start (left seq1 low : ℕ)
  | end_ (left seq1 low : ℕ)
  | check (left seq1 : ℕ) (owned : Bool)
  | done (result : ℤ)
  deriving DecidableEq, Repr

/-- A thread with the pointer of its call and its thread-local cache. -/
structure Reader where
  pc : ReadPc
  ptr : ℕ
  cache : OwnsCache
  deriving DecidableEq, Repr

def Reader.goto (r : Reader) (pc : ReadPc) : Reader := { r with pc := pc }

/-- One statement of `v8m_page_heap_owns_fast`; it reads at most one shared word. -/
def Reader.step (T : RegionMap) (r : Reader) : Reader :=
  match r.pc with
  | .enter =>
    if r.ptr = 0 then r.goto (.done 0)
    else if pageBaseOf r.ptr = r.cache.pageBase then r.goto .cached
    else r.goto (.round 4)
  | .cached =>
    if T.regionSeq = r.cache.seq ∧ T.regionSeq % 2 = 0 then r.goto (.done r.cache.result)
    else r.goto (.round 4)
  | .round 0 => r.goto (.done (-1))
  | .round (left + 1) =>
    if T.regionSeq % 2 ≠ 0 then r.goto (.round left) else r.goto (.regionCount left T.regionSeq)
  | .regionCount left seq1 => r.goto (.search left seq1 T.regionCount 0 T.regionCount)
  | .search left seq1 count low high =>
    if low < high then
      let mid := low + ((high - low) >>> 1)
      if (T.regions mid).start ≤ r.ptr then r.goto (.search left seq1 count (mid + 1) high)
      else r.goto (.search left seq1 count low mid)
    else if low > 0 ∧ low ≤ count then r.goto (.start left seq1 low)
    else r.goto (.check left seq1 false)
  | .start left seq1 low =>
    if r.ptr ≥ (T.regions (low - 1)).start then r.goto (.end_ left seq1 low)
    else r.goto (.check left seq1 false)
  | .end_ left seq1 low =>
    r.goto (.check left seq1 (decide (r.ptr < (T.regions (low - 1)).end_)))
  | .check left seq1 owned =>
    if seq1 = T.regionSeq then
      let result : ℤ := if owned then 1 else 0
      ⟨.done result, r.ptr, ⟨pageBaseOf r.ptr, T.regionSeq, result⟩⟩
    else r.goto (.round left)
  | .done _ => r

/-! ### Interleavings -/

variable {ι : Type}

/-- The table, the writer's words still to write with the set they lead to, and the readers.
The region set after the last finished change and the number of increments are recorded. -/
structure SeqState (ι : Type) where
  table : RegionMap
  current : Set (ℕ × ℕ)
  ticks : ℕ
  writer : Option (List WordWrite × Set (ℕ × ℕ))
  readers : ι → Reader

def SeqState.setReader [DecidableEq ι] (s : SeqState ι) (i : ι) (r : Reader) : SeqState ι :=
  { s with readers := Function.update s.readers i r }

/-- The counter turns odd and the words of the change follow. -/
def SeqState.begin (s : SeqState ι) (writes : List WordWrite) (target : Set (ℕ × ℕ)) : SeqState ι :=
  { s with table := s.table.bumpSeq, ticks := s.ticks + 1, writer := some (writes, target) }

/-- Words may be written in any order, and more than once, as long as they leave the table of
the whole call. -/
inductive SeqStep [DecidableEq ι] (s : SeqState ι) : SeqState ι → Prop
  | call {i : ι} {result : ℤ} (hpc : (s.readers i).pc = .done result) (ptr : ℕ) :
      SeqStep s (s.setReader i ⟨.enter, ptr, (s.readers i).cache⟩)
  | read (i : ι) : SeqStep s (s.setReader i ((s.readers i).step s.table))
  | register {ptr bytes : ℕ} {isAnchor : Bool} {writes : List WordWrite} (hidle : s.writer = none)
      (hroom : s.table.regionCount < regionMapCapacity) (hpos : 0 < ptr) (hp : pageSize ∣ ptr)
      (hb : pageSize ∣ bytes) (hbytes : 0 < bytes) (hwrap : ptr + bytes < addressSpace)
      (hdisj : ∀ r ∈ s.current, ptr + bytes ≤ r.1 ∨ r.2 ≤ ptr)
      (hwrites : (s.table.bumpSeq.writeAll writes).bumpSeq =
        (regionRegisterWithFlags s.table ptr bytes isAnchor).2) :
      SeqStep s (s.begin writes (insert (ptr, ptr + bytes) s.current))
  | unregister {ptr idx : ℕ} {writes : List WordWrite} (hidle : s.writer = none)
      (hfind : regionFindByStart s.table ptr = some idx)
      (hwrites : (s.table.bumpSeq.writeAll writes).bumpSeq =
        (regionUnregisterWithFlags s.table ptr).2) :
      SeqStep s (s.begin writes {r ∈ s.current | r.1 ≠ ptr})
  | write {w : WordWrite} {writes : List WordWrite} {target : Set (ℕ × ℕ)}
      (hactive : s.writer = some (w :: writes, target)) :
      SeqStep s { s with table := s.table.write w, writer := some (writes, target) }
  | finish {target : Set (ℕ × ℕ)} (hactive : s.writer = some ([], target)) :
      SeqStep s ⟨s.table.bumpSeq, target, s.ticks + 1, none, s.readers⟩

/-- No region, no writer and every cache as it starts. -/
def SeqState.initial : SeqState ι := ⟨.empty, ∅, 0, none, fun _ => ⟨.done 0, 0, .zero⟩⟩

inductive SeqReach [DecidableEq ι] : SeqState ι → Prop
  | initial : SeqReach .initial
  | step {s s' : SeqState ι} : SeqReach s → SeqStep s s' → SeqReach s'

/-- The states from `s₀` on, the newest first, up to the return of reader `i`. -/
inductive CallSpan [DecidableEq ι] (i : ι) (s₀ : SeqState ι) : List (SeqState ι) → SeqState ι → Prop
  | start : CallSpan i s₀ [s₀] s₀
  | step {seen : List (SeqState ι)} {s s' : SeqState ι} : CallSpan i s₀ seen s →
      (∀ result, (s.readers i).pc ≠ .done result) → SeqStep s s' → CallSpan i s₀ (s' :: seen) s'

variable {s s' s₀ : SeqState ι} {i : ι} {S : Set (ℕ × ℕ)} {T : RegionMap}
variable {ptr a : ℕ} {result : ℤ}

/-! ### The lock -/

/-- The address lies in a region of the set. -/
def CoveredBy (S : Set (ℕ × ℕ)) (a : ℕ) : Prop := ∃ r ∈ S, r.1 ≤ a ∧ a < r.2

/-- Regions are whole pages, none of them the first of the address space. -/
def Granular (S : Set (ℕ × ℕ)) : Prop := PageAligned S ∧ ∀ r ∈ S, 0 < r.1

/-- The table between two changes, and where an active writer leads. -/
structure LockInv (s : SeqState ι) : Prop where
  seq_eq : s.table.regionSeq = s.ticks % 2 ^ 64
  granular : Granular s.current
  still : s.writer = none → s.ticks % 2 = 0 ∧ Represents s.table s.current
  active : ∀ writes target, s.writer = some (writes, target) → s.ticks % 2 = 1 ∧
    Granular target ∧ Represents (s.table.writeAll writes).bumpSeq target

theorem write_regionSeq (T : RegionMap) (w : WordWrite) : (T.write w).regionSeq = T.regionSeq := by
  cases w <;> rfl

theorem Granular.insert {bytes : ℕ} (h : Granular S) (hpos : 0 < ptr) (hp : pageSize ∣ ptr)
    (hb : pageSize ∣ bytes) : Granular (insert (ptr, ptr + bytes) S) := by
  refine ⟨h.1.insert hp hb, ?_⟩
  rintro r (rfl | hr)
  · exact hpos
  · exact h.2 r hr

theorem lockInv_initial : LockInv (SeqState.initial : SeqState ι) where
  seq_eq := rfl
  granular := ⟨nofun, nofun⟩
  still := fun _ => ⟨rfl, represents_empty⟩
  active := nofun

theorem bumpSeq_ticks {n : ℕ} (h : T.regionSeq = n % 2 ^ 64) :
    T.bumpSeq.regionSeq = (n + 1) % 2 ^ 64 := by
  simp only [RegionMap.bumpSeq, h, Nat.mod_add_mod]

theorem LockInv.begin (h : LockInv s) (hidle : s.writer = none) {writes : List WordWrite}
    {target : Set (ℕ × ℕ)} (hgran : Granular target)
    (hrep : Represents (s.table.bumpSeq.writeAll writes).bumpSeq target) :
    LockInv (s.begin writes target) where
  seq_eq := bumpSeq_ticks h.seq_eq
  granular := h.granular
  still := nofun
  active := by
    intro ws t hw
    cases hw
    have heven := (h.still hidle).1
    refine ⟨?_, hgran, hrep⟩
    simp only [SeqState.begin]
    omega

theorem LockInv.step [DecidableEq ι] (h : LockInv s) (hs : SeqStep s s') : LockInv s' := by
  cases hs with
  | call hpc ptr => exact ⟨h.seq_eq, h.granular, h.still, h.active⟩
  | read i => exact ⟨h.seq_eq, h.granular, h.still, h.active⟩
  | @register ptr bytes isAnchor writes hidle hroom hpos hp hb hbytes hwrap hdisj hwrites =>
    apply h.begin hidle (h.granular.insert hpos hp hb)
    rw [hwrites]
    exact regionRegister_represents (h.still hidle).2 ptr bytes isAnchor hroom hbytes hwrap hdisj
  | @unregister ptr idx writes hidle hfind hwrites =>
    apply h.begin hidle ⟨fun r hr => h.granular.1 r hr.1, fun r hr => h.granular.2 r hr.1⟩
    rw [hwrites]
    exact regionUnregister_represents (h.still hidle).2 ptr
  | @write w writes target hactive =>
    obtain ⟨hodd, hgran, hrep⟩ := h.active _ _ hactive
    refine ⟨?_, h.granular, nofun, ?_⟩
    · exact (write_regionSeq s.table w).trans h.seq_eq
    · intro ws t hw
      cases hw
      exact ⟨hodd, hgran, hrep⟩
  | @finish target hactive =>
    obtain ⟨hodd, hgran, hrep⟩ := h.active _ _ hactive
    refine ⟨bumpSeq_ticks h.seq_eq, hgran, fun _ => ⟨?_, hrep⟩, fun _ _ hw => ?_⟩
    · simp only
      omega
    · cases hw

theorem SeqReach.lockInv [DecidableEq ι] (h : SeqReach s) : LockInv s := by
  induction h with
  | initial => exact lockInv_initial
  | step _ hs ih => exact ih.step hs

/-! ### What a reader knows -/

/-- The answer is the membership of the address. -/
def Verdict (result : ℤ) (S : Set (ℕ × ℕ)) (a : ℕ) : Prop :=
  result = 1 ∧ CoveredBy S a ∨ result = 0 ∧ ¬ CoveredBy S a

/-- `seen` is an even counter value, and `known` holds if it is still the current one. -/
structure Stamp (ticks seen : ℕ) (known : Prop) : Prop where
  even : seen % 2 = 0
  le : seen ≤ ticks
  known : seen = ticks → known

/-- A stamp says nothing once the counter has moved on. -/
theorem Stamp.advance {ticks seen : ℕ} {known known' : Prop} (h : Stamp ticks seen known) :
    Stamp (ticks + 1) seen known' :=
  ⟨h.even, by have := h.le; omega, fun heq => absurd h.le (by omega)⟩

/-- While a writer is active no stamp is current. -/
theorem Stamp.active {ticks seen : ℕ} {known known' : Prop} (h : Stamp ticks seen known)
    (hodd : ticks % 2 = 1) : Stamp ticks seen known' :=
  ⟨h.even, h.le, fun heq => absurd h.even (by omega)⟩

theorem Stamp.mono {ticks seen : ℕ} {known known' : Prop} (h : Stamp ticks seen known)
    (hk : known → known') : Stamp ticks seen known' :=
  ⟨h.even, h.le, fun heq => hk (h.known heq)⟩

/-- The entries from `high` on start above the address, those below `low` at or below it. -/
structure Narrowed (T : RegionMap) (ptr count low high : ℕ) : Prop where
  count_eq : count = T.regionCount
  le : low ≤ high
  high_le : high ≤ count
  below : ∀ j < low, (T.regions j).start ≤ ptr
  above : ∀ j, high ≤ j → j < count → ptr < (T.regions j).start

/-- What a reader's registers say about the table, if its first counter value is current. -/
def ReadPc.Knows (T : RegionMap) (S : Set (ℕ × ℕ)) (ticks ptr : ℕ) : ReadPc → Prop
  | .enter | .cached | .round _ | .done _ => True
  | .regionCount _ seq1 => Stamp ticks seq1 True
  | .search _ seq1 count low high => Stamp ticks seq1 (Narrowed T ptr count low high)
  | .start _ seq1 low => Stamp ticks seq1 (low = regionsAtOrBelow T ptr ∧ 0 < low)
  | .end_ _ seq1 low => Stamp ticks seq1 (low = regionsAtOrBelow T ptr ∧ 0 < low)
  | .check _ seq1 owned => Stamp ticks seq1 (owned = true ↔ CoveredBy S ptr)

structure ReaderInv (s : SeqState ι) (r : Reader) : Prop where
  knows : r.pc.Knows s.table s.current s.ticks r.ptr
  page : r.pc = .cached → pageBaseOf r.ptr = r.cache.pageBase
  cache : Stamp s.ticks r.cache.seq (Verdict r.cache.result s.current r.cache.pageBase)

theorem ReadPc.Knows.restamp {T' : RegionMap} {S' : Set (ℕ × ℕ)} {ticks ticks' : ℕ} {pc : ReadPc}
    (h : pc.Knows T S ticks ptr)
    (hstamp : ∀ seen known known', Stamp ticks seen known → Stamp ticks' seen known') :
    pc.Knows T' S' ticks' ptr := by
  cases pc with
  | enter => trivial
  | cached => trivial
  | round left => trivial
  | done result => trivial
  | regionCount left seq1 => exact hstamp _ _ _ h
  | search left seq1 count low high => exact hstamp _ _ _ h
  | start left seq1 low => exact hstamp _ _ _ h
  | end_ left seq1 low => exact hstamp _ _ _ h
  | check left seq1 owned => exact hstamp _ _ _ h

/-- One probe of the search keeps what the reader knows. -/
theorem Narrowed.probe {count low high : ℕ} (h : Represents T S)
    (hn : Narrowed T ptr count low high) (hlt : low < high) :
    ((T.regions (low + ((high - low) >>> 1))).start ≤ ptr →
      Narrowed T ptr count (low + ((high - low) >>> 1) + 1) high) ∧
    (¬ (T.regions (low + ((high - low) >>> 1))).start ≤ ptr →
      Narrowed T ptr count low (low + ((high - low) >>> 1))) := by
  obtain ⟨hcount, hle, hhigh, hbelow, habove⟩ := hn
  have hmid : low + ((high - low) >>> 1) < high := by omega
  set mid := low + ((high - low) >>> 1) with hm
  constructor
  · intro hstart
    refine ⟨hcount, by omega, hhigh, fun j hj => ?_, habove⟩
    rcases Nat.lt_or_ge j mid with hlt' | hge
    · exact (h.start_lt hlt' (by omega)).le.trans hstart
    · rwa [show j = mid by omega]
  · intro hstart
    refine ⟨hcount, by omega, by omega, hbelow, fun j hj hjc => ?_⟩
    rcases hj.eq_or_lt with rfl | hlt'
    · exact Nat.lt_of_not_le hstart
    · exact (Nat.lt_of_not_le hstart).trans (h.start_lt hlt' (by omega))

/-- A closed interval is the number of entries at or below the address. -/
theorem Narrowed.closed {count low high : ℕ} (h : Represents T S)
    (hn : Narrowed T ptr count low high) (hge : ¬ low < high) :
    low = regionsAtOrBelow T ptr ∧ low ≤ count := by
  obtain ⟨rfl, hle, hhigh, hbelow, habove⟩ := hn
  obtain rfl : low = high := by omega
  refine ⟨?_, hhigh⟩
  have hpoint : IsPoint (fun mid => decide ((T.regions mid).start ≤ ptr)) T.regionCount low := by
    refine ⟨hhigh, fun j hj => ?_, fun j hj hjc => ?_⟩
    · simpa using hbelow j hj
    · simpa using habove j hj hjc
  exact hpoint.unique (h.atOrBelow_isPoint ptr)

theorem covered_iff (h : Represents T S) : CoveredBy S ptr ↔ 0 < regionsAtOrBelow T ptr ∧
    ptr < (T.regions (regionsAtOrBelow T ptr - 1)).end_ := h.owned_iff ptr

/-- The last entry at or below the address does start there. -/
theorem start_le_of_pos (h : Represents T S) (hpos : 0 < regionsAtOrBelow T ptr) :
    (T.regions (regionsAtOrBelow T ptr - 1)).start ≤ ptr := by
  have hleft := (h.atOrBelow_isPoint ptr).left (regionsAtOrBelow T ptr - 1) (by omega)
  simpa using hleft

theorem covered_pageBaseOf (h : Granular S) : CoveredBy S (pageBaseOf a) ↔ CoveredBy S a := by
  refine exists_congr fun r => and_congr_right fun hr => ?_
  obtain ⟨⟨b, hb⟩, ⟨e, he⟩⟩ := h.1 r hr
  simp only [pageBaseOf, pageSize] at *
  omega

theorem not_covered_zero (h : Granular S) : ¬ CoveredBy S 0 := by
  rintro ⟨r, hr, hle, -⟩
  have := h.2 r hr
  omega

/-- What one statement of a reader does: it keeps what the reader knows, and an answer other
than -1 is right at this moment. -/
structure Reads (s : SeqState ι) (r r' : Reader) : Prop where
  inv : ReaderInv s r'
  answer : ∀ result, r'.pc = .done result →
    r.pc = .done result ∨ result = -1 ∨ Verdict result s.current r.ptr

section ReaderStep

variable {r : Reader} {left seq1 count low high : ℕ} {owned : Bool}

theorem reads_goto (h : ReaderInv s r) {pc : ReadPc}
    (hk : pc.Knows s.table s.current s.ticks r.ptr)
    (hpage : pc = .cached → pageBaseOf r.ptr = r.cache.pageBase)
    (hanswer : ∀ result, pc = .done result →
      r.pc = .done result ∨ result = -1 ∨ Verdict result s.current r.ptr) :
    Reads s r (r.goto pc) :=
  ⟨⟨hk, hpage, h.cache⟩, hanswer⟩

/-- A current even stamp means that no writer is active. -/
theorem LockInv.represents (h : LockInv s) {seen : ℕ} (heven : seen % 2 = 0)
    (heq : seen = s.ticks) : Represents s.table s.current := by
  cases hw : s.writer with
  | none => exact (h.still hw).2
  | some w =>
    have hodd := (h.active w.1 w.2 hw).1
    omega

theorem ReaderInv.read_enter (h : ReaderInv s r) (hlock : LockInv s) (hpc : r.pc = .enter) :
    Reads s r (r.step s.table) := by
  simp only [Reader.step, hpc]
  split_ifs with h0 hpage
  · refine reads_goto h trivial nofun fun result hr => ?_
    cases hr
    rw [h0]
    exact Or.inr (Or.inr (Or.inr ⟨rfl, not_covered_zero hlock.granular⟩))
  · exact reads_goto h trivial (fun _ => hpage) nofun
  · exact reads_goto h trivial nofun nofun

theorem ReaderInv.read_cached (h : ReaderInv s r) (hlock : LockInv s)
    (hseq : s.table.regionSeq = s.ticks) (hpc : r.pc = .cached) :
    Reads s r (r.step s.table) := by
  simp only [Reader.step, hpc]
  split_ifs with hhit
  · refine reads_goto h trivial nofun fun result hr => ?_
    cases hr
    have hverdict := h.cache.known (hhit.1.symm.trans hseq)
    rw [← h.page hpc, Verdict, covered_pageBaseOf hlock.granular] at hverdict
    exact Or.inr (Or.inr hverdict)
  · exact reads_goto h trivial nofun nofun

theorem ReaderInv.read_round (h : ReaderInv s r) (hseq : s.table.regionSeq = s.ticks)
    (hpc : r.pc = .round left) : Reads s r (r.step s.table) := by
  cases left with
  | zero =>
    simp only [Reader.step, hpc]
    refine reads_goto h trivial nofun fun result hr => ?_
    cases hr
    exact Or.inr (Or.inl rfl)
  | succ left =>
    simp only [Reader.step, hpc]
    split_ifs with hodd
    · exact reads_goto h trivial nofun nofun
    · exact reads_goto h ⟨by omega, hseq.le, fun _ => trivial⟩ nofun nofun

theorem ReaderInv.read_regionCount (h : ReaderInv s r) (hpc : r.pc = .regionCount left seq1) :
    Reads s r (r.step s.table) := by
  have hk := h.knows
  rw [hpc] at hk
  simp only [Reader.step, hpc]
  refine reads_goto h (Stamp.mono hk fun _ => ?_) nofun nofun
  exact ⟨rfl, Nat.zero_le _, le_rfl, fun j hj => absurd hj (Nat.not_lt_zero j),
    fun j hj hjc => absurd hjc (by omega)⟩

theorem ReaderInv.read_search (h : ReaderInv s r) (hlock : LockInv s)
    (hpc : r.pc = .search left seq1 count low high) : Reads s r (r.step s.table) := by
  have hk : Stamp s.ticks seq1 (Narrowed s.table r.ptr count low high) := by
    have hknows := h.knows
    rwa [hpc] at hknows
  have hnow : ∀ {known : Prop}, (Represents s.table s.current →
      Narrowed s.table r.ptr count low high → known) → Stamp s.ticks seq1 known :=
    fun hknown => ⟨hk.even, hk.le, fun heq =>
      hknown (hlock.represents hk.even heq) (hk.known heq)⟩
  simp only [Reader.step, hpc]
  split_ifs with hlt hstart hlow
  · exact reads_goto h (hnow fun hrep hn => (hn.probe hrep hlt).1 hstart) nofun nofun
  · exact reads_goto h (hnow fun hrep hn => (hn.probe hrep hlt).2 hstart) nofun nofun
  · exact reads_goto h (hnow fun hrep hn => ⟨(hn.closed hrep hlt).1, hlow.1⟩) nofun nofun
  · refine reads_goto h (hnow fun hrep hn => ?_) nofun nofun
    obtain ⟨heq, hle⟩ := hn.closed hrep hlt
    rw [covered_iff hrep, ← heq]
    simp only [Bool.false_eq_true, false_iff]
    omega

theorem ReaderInv.read_start (h : ReaderInv s r) (hlock : LockInv s)
    (hpc : r.pc = .start left seq1 low) : Reads s r (r.step s.table) := by
  have hk : Stamp s.ticks seq1 (low = regionsAtOrBelow s.table r.ptr ∧ 0 < low) := by
    have hknows := h.knows
    rwa [hpc] at hknows
  simp only [Reader.step, hpc]
  split_ifs with hstart
  · exact reads_goto h hk nofun nofun
  · refine reads_goto h ⟨hk.even, hk.le, fun heq => ?_⟩ nofun nofun
    obtain ⟨rfl, hpos⟩ := hk.known heq
    exact absurd (start_le_of_pos (hlock.represents hk.even heq) hpos) hstart

theorem ReaderInv.read_end (h : ReaderInv s r) (hlock : LockInv s)
    (hpc : r.pc = .end_ left seq1 low) : Reads s r (r.step s.table) := by
  have hk : Stamp s.ticks seq1 (low = regionsAtOrBelow s.table r.ptr ∧ 0 < low) := by
    have hknows := h.knows
    rwa [hpc] at hknows
  simp only [Reader.step, hpc]
  refine reads_goto h ⟨hk.even, hk.le, fun heq => ?_⟩ nofun nofun
  obtain ⟨rfl, hpos⟩ := hk.known heq
  rw [covered_iff (hlock.represents hk.even heq), decide_eq_true_iff]
  exact (and_iff_right hpos).symm

theorem ReaderInv.read_check (h : ReaderInv s r) (hlock : LockInv s)
    (hseq : s.table.regionSeq = s.ticks) (hpc : r.pc = .check left seq1 owned) :
    Reads s r (r.step s.table) := by
  have hk : Stamp s.ticks seq1 (owned = true ↔ CoveredBy s.current r.ptr) := by
    have hknows := h.knows
    rwa [hpc] at hknows
  simp only [Reader.step, hpc]
  split_ifs with hsame hown
  · have hcovered := (hk.known (hsame.trans hseq)).1 hown
    refine ⟨⟨trivial, nofun, ?_⟩, ?_⟩
    · refine ⟨by rw [← hsame]; exact hk.even, hseq.le, fun _ => Or.inl ⟨rfl, ?_⟩⟩
      exact (covered_pageBaseOf hlock.granular).2 hcovered
    · intro result hr
      cases hr
      exact Or.inr (Or.inr (Or.inl ⟨rfl, hcovered⟩))
  · have hcovered := mt (hk.known (hsame.trans hseq)).2 hown
    refine ⟨⟨trivial, nofun, ?_⟩, ?_⟩
    · refine ⟨by rw [← hsame]; exact hk.even, hseq.le, fun _ => Or.inr ⟨rfl, ?_⟩⟩
      exact mt (covered_pageBaseOf hlock.granular).1 hcovered
    · intro result hr
      cases hr
      exact Or.inr (Or.inr (Or.inr ⟨rfl, hcovered⟩))
  · exact reads_goto h trivial nofun nofun

theorem ReaderInv.read (h : ReaderInv s r) (hlock : LockInv s) (hfew : s.ticks < 2 ^ 64) :
    Reads s r (r.step s.table) := by
  have hseq : s.table.regionSeq = s.ticks := by
    rw [hlock.seq_eq, Nat.mod_eq_of_lt hfew]
  cases hpc : r.pc with
  | enter => exact h.read_enter hlock hpc
  | cached => exact h.read_cached hlock hseq hpc
  | round left => exact h.read_round hseq hpc
  | regionCount left seq1 => exact h.read_regionCount hpc
  | search left seq1 count low high => exact h.read_search hlock hpc
  | start left seq1 low => exact h.read_start hlock hpc
  | end_ left seq1 low => exact h.read_end hlock hpc
  | check left seq1 owned => exact h.read_check hlock hseq hpc
  | done result =>
    have hself : r.step s.table = r := by simp only [Reader.step, hpc]
    rw [hself]
    exact ⟨h, fun result hr => Or.inl hr⟩

end ReaderStep

end V8Malloc.PageHeap
