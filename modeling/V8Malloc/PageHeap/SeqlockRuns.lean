import V8Malloc.PageHeap.Seqlock

/-!
# Calls of the ownership test in every interleaving

The invariants of the lock and of its readers along whole runs, and what they say
about a call: an answer is the membership at some moment of the call, and only a
writer makes a call give up. The counter has 64 bits; a call that lasts for `2 ^ 63`
changes can miss all of them.
-/
namespace V8Malloc.PageHeap

open PartitionPoint Function

variable {ι : Type} {s s' s₀ : SeqState ι} {i : ι} {S : Set (ℕ × ℕ)} {T : RegionMap}
variable {ptr a : ℕ} {result : ℤ}

/-! ### Whole runs -/

section Runs

variable [DecidableEq ι] {seen : List (SeqState ι)} {r : Reader}

theorem SeqStep.ticks_le (hs : SeqStep s s') : s.ticks ≤ s'.ticks := by
  cases hs with
  | call => exact le_rfl
  | read => exact le_rfl
  | register => exact Nat.le_succ _
  | unregister => exact Nat.le_succ _
  | write => exact le_rfl
  | finish => exact Nat.le_succ _

/-- A reader that does not move, beside a step of another thread. -/
theorem ReaderInv.frame (h : ReaderInv s r) (hlock : LockInv s) (hs : SeqStep s s') :
    ReaderInv s' r := by
  cases hs with
  | call hpc ptr => exact ⟨h.knows, h.page, h.cache⟩
  | read i => exact ⟨h.knows, h.page, h.cache⟩
  | register =>
    exact ⟨h.knows.restamp fun _ _ _ hst => hst.advance, h.page, h.cache.advance⟩
  | unregister =>
    exact ⟨h.knows.restamp fun _ _ _ hst => hst.advance, h.page, h.cache.advance⟩
  | write hactive =>
    have hodd := (hlock.active _ _ hactive).1
    exact ⟨h.knows.restamp fun _ _ _ hst => hst.active hodd, h.page, h.cache⟩
  | finish =>
    exact ⟨h.knows.restamp fun _ _ _ hst => hst.advance, h.page, h.cache.advance⟩

/-- A thread stays, takes its next statement, or begins a call. -/
theorem SeqStep.reader (hs : SeqStep s s') (i : ι) :
    s'.readers i = s.readers i ∨ s'.readers i = (s.readers i).step s.table ∨
      ∃ result ptr, (s.readers i).pc = .done result ∧
        s'.readers i = ⟨.enter, ptr, (s.readers i).cache⟩ := by
  cases hs with
  | @call j result hpc ptr =>
    by_cases hj : i = j
    · subst hj
      exact Or.inr (Or.inr ⟨result, ptr, hpc, update_self _ _ _⟩)
    · exact Or.inl (update_of_ne hj _ _)
  | read j =>
    by_cases hj : i = j
    · subst hj
      exact Or.inr (Or.inl (update_self _ _ _))
    · exact Or.inl (update_of_ne hj _ _)
  | register => exact Or.inl rfl
  | unregister => exact Or.inl rfl
  | write => exact Or.inl rfl
  | finish => exact Or.inl rfl

theorem SeqReach.readerInv (h : SeqReach s) (hfew : s.ticks < 2 ^ 64) (i : ι) :
    ReaderInv s (s.readers i) := by
  induction h with
  | initial =>
    have hempty : ¬ CoveredBy (∅ : Set (ℕ × ℕ)) 0 := fun ⟨_, hr, _⟩ => hr
    exact ⟨trivial, nofun, rfl, le_rfl, fun _ => Or.inr ⟨rfl, hempty⟩⟩
  | @step s s' hreach hs ih =>
    have hfew₀ := hs.ticks_le.trans_lt hfew
    have hold := ih hfew₀
    have hlock := hreach.lockInv
    rcases hs.reader i with heq | heq | ⟨result, ptr, -, heq⟩
    · rw [heq]
      exact hold.frame hlock hs
    · rw [heq]
      exact (hold.read hlock hfew₀).inv.frame hlock hs
    · rw [heq]
      exact ⟨trivial, nofun, (hold.frame hlock hs).cache⟩

/-- A statement moves the reader on, or ends its search and fills its cache. -/
theorem step_cases (T : RegionMap) (r : Reader) : (∃ pc, r.step T = r.goto pc) ∨
    ∃ result, (result = 0 ∨ result = 1) ∧
      r.step T = ⟨.done result, r.ptr, ⟨pageBaseOf r.ptr, T.regionSeq, result⟩⟩ := by
  cases hpc : r.pc with
  | enter =>
    simp only [Reader.step, hpc]
    split_ifs <;> exact Or.inl ⟨_, rfl⟩
  | cached =>
    simp only [Reader.step, hpc]
    split_ifs <;> exact Or.inl ⟨_, rfl⟩
  | round left =>
    cases left with
    | zero => exact Or.inl ⟨_, by simp only [Reader.step, hpc]; rfl⟩
    | succ left =>
      simp only [Reader.step, hpc]
      split_ifs <;> exact Or.inl ⟨_, rfl⟩
  | regionCount left seq1 => exact Or.inl ⟨_, by simp only [Reader.step, hpc]; rfl⟩
  | search left seq1 count low high =>
    simp only [Reader.step, hpc]
    split_ifs <;> exact Or.inl ⟨_, rfl⟩
  | start left seq1 low =>
    simp only [Reader.step, hpc]
    split_ifs <;> exact Or.inl ⟨_, rfl⟩
  | end_ left seq1 low => exact Or.inl ⟨_, by simp only [Reader.step, hpc]; rfl⟩
  | check left seq1 owned =>
    simp only [Reader.step, hpc]
    split_ifs
    · exact Or.inr ⟨1, Or.inr rfl, rfl⟩
    · exact Or.inr ⟨0, Or.inl rfl, rfl⟩
    · exact Or.inl ⟨_, rfl⟩
  | done result =>
    refine Or.inl ⟨.done result, ?_⟩
    simp only [Reader.step, hpc]
    rw [← hpc]
    rfl

theorem step_ptr (T : RegionMap) (r : Reader) : (r.step T).ptr = r.ptr := by
  rcases step_cases T r with ⟨pc, heq⟩ | ⟨result, -, heq⟩ <;> rw [heq]
  rfl

/-- Whatever a cache holds is an answer of a finished search. -/
theorem step_cache (T : RegionMap) (h : r.cache.result = 0 ∨ r.cache.result = 1) :
    (r.step T).cache.result = 0 ∨ (r.step T).cache.result = 1 := by
  rcases step_cases T r with ⟨pc, heq⟩ | ⟨result, hresult, heq⟩
  · rw [heq]
    exact h
  · rw [heq]
    exact hresult

theorem SeqReach.cache_result (h : SeqReach s) (i : ι) :
    (s.readers i).cache.result = 0 ∨ (s.readers i).cache.result = 1 := by
  induction h with
  | initial => exact Or.inl rfl
  | @step s s' _ hs ih =>
    rcases hs.reader i with heq | heq | ⟨result, ptr, -, heq⟩
    · rw [heq]
      exact ih
    · rw [heq]
      exact step_cache s.table ih
    · rw [heq]
      exact ih

/-- During its call a reader stays or takes its next statement. -/
theorem SeqStep.running (hs : SeqStep s s') (hrun : ∀ result, (s.readers i).pc ≠ .done result) :
    s'.readers i = s.readers i ∨ s'.readers i = (s.readers i).step s.table := by
  rcases hs.reader i with heq | heq | ⟨result, ptr, hpc, -⟩
  · exact Or.inl heq
  · exact Or.inr heq
  · exact absurd hpc (hrun result)

theorem CallSpan.reach (span : CallSpan i s₀ seen s) (h : SeqReach s₀) : SeqReach s := by
  induction span with
  | start => exact h
  | step _ _ hs ih => exact ih.step hs

theorem CallSpan.mem (span : CallSpan i s₀ seen s) : s ∈ seen := by
  cases span with
  | start => exact List.mem_singleton_self s
  | step => exact List.mem_cons_self

theorem CallSpan.ptr_eq (span : CallSpan i s₀ seen s) : (s.readers i).ptr = (s₀.readers i).ptr := by
  induction span with
  | start => rfl
  | step _ hrun hs ih =>
    rcases hs.running hrun with heq | heq
    · rw [heq, ih]
    · rw [heq, step_ptr, ih]

/-! ### Calls that give up -/

/-- Where a call without a failed round can be, when its counter value is `seq`. -/
def ReadPc.Calm (seq : ℕ) : ReadPc → Prop
  | .enter | .cached => True
  | .round left => left = 4
  | .regionCount left seq1 => left = 3 ∧ seq1 = seq
  | .search left seq1 _ _ _ => left = 3 ∧ seq1 = seq
  | .start left seq1 _ => left = 3 ∧ seq1 = seq
  | .end_ left seq1 _ => left = 3 ∧ seq1 = seq
  | .check left seq1 _ => left = 3 ∧ seq1 = seq
  | .done result => result ≠ -1

/-- With an even counter that does not move no round fails. -/
theorem ReadPc.Calm.step (heven : T.regionSeq % 2 = 0)
    (hcache : r.cache.result = 0 ∨ r.cache.result = 1) (h : r.pc.Calm T.regionSeq) :
    (r.step T).pc.Calm T.regionSeq := by
  unfold Reader.step
  cases hpc : r.pc with
  | enter =>
    simp only
    split_ifs
    · exact nofun
    · exact trivial
    · exact rfl
  | cached =>
    simp only
    split_ifs
    · rcases hcache with h0 | h1
      · simp [Reader.goto, ReadPc.Calm, h0]
      · simp [Reader.goto, ReadPc.Calm, h1]
    · exact rfl
  | round left =>
    rw [hpc] at h
    obtain rfl : left = 4 := h
    simp [Reader.goto, ReadPc.Calm, heven]
  | regionCount left seq1 =>
    rw [hpc] at h
    exact h
  | search left seq1 count low high =>
    rw [hpc] at h
    simp only
    split_ifs <;> exact h
  | start left seq1 low =>
    rw [hpc] at h
    simp only
    split_ifs <;> exact h
  | end_ left seq1 low =>
    rw [hpc] at h
    exact h
  | check left seq1 owned =>
    rw [hpc] at h
    obtain ⟨-, rfl⟩ : left = 3 ∧ seq1 = T.regionSeq := h
    simp only [if_true]
    cases owned <;> simp [ReadPc.Calm]
  | done result =>
    rw [hpc] at h
    simp only [hpc]
    exact h

theorem SeqStep.table_eq (hs : SeqStep s s') (hidle : s.writer = none) (hidle' : s'.writer = none) :
    s'.table = s.table := by
  cases hs with
  | call => rfl
  | read => rfl
  | register => cases hidle'
  | unregister => cases hidle'
  | write => cases hidle'
  | finish hactive =>
    rw [hidle] at hactive
    cases hactive

/-- A call beside no writer. -/
theorem CallSpan.calm (span : CallSpan i s₀ seen s) (h : SeqReach s₀) (hcall : (s₀.readers i).pc = .enter)
    (hquiet : ∀ t ∈ seen, t.writer = none) :
    s.table = s₀.table ∧ (s.readers i).pc.Calm s₀.table.regionSeq := by
  induction span with
  | start =>
    rw [hcall]
    exact ⟨rfl, trivial⟩
  | @step seen s s' span hrun hs ih =>
    obtain ⟨htable, hcalm⟩ := ih fun t ht => hquiet t (List.mem_cons_of_mem s' ht)
    have hidle := hquiet s (List.mem_cons_of_mem s' span.mem)
    have hreach := span.reach h
    have heven : s.table.regionSeq % 2 = 0 := by
      have hticks := (hreach.lockInv.still hidle).1
      rw [hreach.lockInv.seq_eq]
      omega
    refine ⟨(hs.table_eq hidle (hquiet s' List.mem_cons_self)).trans htable, ?_⟩
    rcases hs.running hrun with heq | heq
    · rw [heq]
      exact hcalm
    · rw [heq]
      rw [← htable] at hcalm ⊢
      exact hcalm.step heven (hreach.cache_result i)

/-- Every answer 0 or 1 is the membership of the pointer in the set that was current at some
moment of the call, and a call gives up only beside a writer. The counter passes fewer than
`2 ^ 64` values. -/
theorem ownsFast_never_torn (h : SeqReach s₀) (hcall : (s₀.readers i).pc = .enter)
    (span : CallSpan i s₀ seen s) (hret : (s.readers i).pc = .done result) :
    (s.ticks < 2 ^ 64 → result ≠ -1 →
      ∃ t ∈ seen, Verdict result t.current (s₀.readers i).ptr) ∧
    (result = -1 → ∃ t ∈ seen, t.writer ≠ none) := by
  refine ⟨fun hfew hne => ?_, fun hgave => ?_⟩
  · cases span with
    | start =>
      rw [hcall] at hret
      cases hret
    | @step seen s₁ _ span hrun hs =>
      have hreach := span.reach h
      have hfew₁ := hs.ticks_le.trans_lt hfew
      rcases hs.running hrun with heq | heq
      · rw [heq] at hret
        exact absurd hret (hrun result)
      · rw [heq] at hret
        have hread := (hreach.readerInv hfew₁ i).read hreach.lockInv hfew₁
        rcases hread.answer result hret with hdone | hgave | hverdict
        · exact absurd hdone (hrun result)
        · exact absurd hgave hne
        · rw [span.ptr_eq] at hverdict
          exact ⟨s₁, List.mem_cons_of_mem s span.mem, hverdict⟩
  · by_contra hnone
    push Not at hnone
    have hcalm := (span.calm h hcall hnone).2
    rw [hret] at hcalm
    exact hcalm hgave

end Runs

/-! ### Whole sections of a writer -/

/-- The words of one entry. -/
def entryWrites (i : ℕ) (entry : RegionEntry) : List WordWrite :=
  [.start i entry.start, .end_ i entry.end_, .node i entry.node, .isAnchor i entry.isAnchor,
    .promotedAtTsc i entry.promotedAtTsc]

theorem writeAll_entryWrites (T : RegionMap) (i : ℕ) (entry : RegionEntry) :
    T.writeAll (entryWrites i entry) = T.setEntry i entry := by
  simp [RegionMap.writeAll, entryWrites, RegionMap.write, RegionMap.setEntry]

theorem writeAll_append (T : RegionMap) (first rest : List WordWrite) :
    T.writeAll (first ++ rest) = (T.writeAll first).writeAll rest := List.foldl_append

/-- Words can turn a table into any other with the same counter and the same far entries. -/
theorem exists_writes (T : RegionMap) (n : ℕ) : ∀ T' : RegionMap,
    (∀ j, n ≤ j → T'.regions j = T.regions j) → T'.regionSeq = T.regionSeq →
      ∃ writes, T.writeAll writes = T' := by
  induction n with
  | zero =>
    rintro ⟨regions, regionCount, regionSeq⟩ hfar hseq
    obtain rfl : regions = T.regions := funext fun j => hfar j (Nat.zero_le j)
    obtain rfl : regionSeq = T.regionSeq := hseq
    exact ⟨[.regionCount regionCount], rfl⟩
  | succ n ih =>
    intro T' hfar hseq
    obtain ⟨writes, hwrites⟩ := ih (T'.setEntry n (T.regions n)) (by
      intro j hj
      rcases hj.eq_or_lt with rfl | hlt
      · simp [RegionMap.setEntry]
      · simpa [RegionMap.setEntry, hlt.ne'] using hfar j hlt) hseq
    refine ⟨writes ++ entryWrites n (T'.regions n), ?_⟩
    rw [writeAll_append, hwrites, writeAll_entryWrites]
    simp [RegionMap.setEntry]

theorem memmove_far {α : Type*} (c : Prop) [Decidable c] (cells : ℕ → α) {dst n j : ℕ} (src : ℕ)
    (hj : dst + n ≤ j) : (if c then memmove cells dst src n else cells) j = cells j := by
  split_ifs
  · exact if_neg (by omega)
  · rfl

theorem register_writes (h : Represents T S) {bytes : ℕ} (isAnchor : Bool)
    (hroom : T.regionCount < regionMapCapacity) : ∃ writes,
      (T.bumpSeq.writeAll writes).bumpSeq = (regionRegisterWithFlags T ptr bytes isAnchor).2 := by
  have hidx := (h.lowerBound_isPoint ptr).le
  simp only [regionRegisterWithFlags, if_neg (Nat.not_le.2 hroom)]
  refine (exists_writes T.bumpSeq (T.regionCount + 1) _ ?_ ?_).imp fun writes hw =>
    congrArg RegionMap.bumpSeq hw
  · intro j hj
    have hne : j ≠ regionLowerBound T ptr := by omega
    refine (update_of_ne hne _ _).trans (memmove_far _ _ _ ?_)
    rw [bumpSeq_regionCount, regionLowerBound_bumpSeq]
    omega
  · rfl

theorem unregister_writes {idx : ℕ} (hfind : regionFindByStart T ptr = some idx) : ∃ writes,
    (T.bumpSeq.writeAll writes).bumpSeq = (regionUnregisterWithFlags T ptr).2 := by
  have hidx := (regionFindByStart_some hfind).1
  simp only [regionUnregisterWithFlags, hfind]
  refine (exists_writes T.bumpSeq (T.regionCount + 1) _ ?_ ?_).imp fun writes hw =>
    congrArg RegionMap.bumpSeq hw
  · intro j hj
    refine memmove_far _ _ _ ?_
    rw [bumpSeq_regionCount]
    omega
  · rfl

section Sections

variable [DecidableEq ι] {P : SeqState ι → Prop} {target : Set (ℕ × ℕ)} {readers : ι → Reader}
variable {before : Set (ℕ × ℕ)}

/-- A property that the steps of a section keep, from its first word to its end. -/
def SectionKept (P : SeqState ι → Prop) (readers : ι → Reader) (before target : Set (ℕ × ℕ)) : Prop :=
  ∀ t t', P t → t.readers = readers → SeqStep t t' → t'.current = before ∨ t'.current = target → P t'

theorem finish_section (hP : SectionKept P readers before target) (writes : List WordWrite) :
    ∀ {T : RegionMap} {n : ℕ}, P ⟨T, before, n, some (writes, target), readers⟩ →
      P ⟨(T.writeAll writes).bumpSeq, target, n + 1, none, readers⟩ := by
  induction writes with
  | nil =>
    intro T n hs
    exact hP _ _ hs rfl (.finish rfl) (Or.inr rfl)
  | cons w writes ih =>
    intro T n hs
    exact ih (hP _ _ hs rfl (.write rfl) (Or.inl rfl))

theorem register_section {n bytes : ℕ} (isAnchor : Bool)
    (hP : SectionKept P readers before (insert (ptr, ptr + bytes) before))
    (hs : P ⟨T, before, n, none, readers⟩) (hrep : Represents T before)
    (hroom : T.regionCount < regionMapCapacity) (hpos : 0 < ptr) (hp : pageSize ∣ ptr)
    (hb : pageSize ∣ bytes) (hbytes : 0 < bytes) (hwrap : ptr + bytes < addressSpace)
    (hdisj : ∀ r ∈ before, ptr + bytes ≤ r.1 ∨ r.2 ≤ ptr) :
    P ⟨(regionRegisterWithFlags T ptr bytes isAnchor).2, insert (ptr, ptr + bytes) before, n + 2,
      none, readers⟩ := by
  obtain ⟨writes, hwrites⟩ : ∃ writes, _ = (regionRegisterWithFlags T ptr bytes isAnchor).2 :=
    register_writes hrep isAnchor hroom
  rw [← hwrites]
  apply finish_section hP
  exact hP _ _ hs rfl (.register rfl hroom hpos hp hb hbytes hwrap hdisj hwrites) (Or.inl rfl)

theorem unregister_section {n idx : ℕ} (hP : SectionKept P readers before {r ∈ before | r.1 ≠ ptr})
    (hs : P ⟨T, before, n, none, readers⟩) (hfind : regionFindByStart T ptr = some idx) :
    P ⟨(regionUnregisterWithFlags T ptr).2, {r ∈ before | r.1 ≠ ptr}, n + 2, none, readers⟩ := by
  obtain ⟨writes, hwrites⟩ := unregister_writes hfind
  rw [← hwrites]
  apply finish_section hP
  exact hP _ _ hs rfl (.unregister rfl hfind hwrites) (Or.inl rfl)

theorem kept_reach (readers : ι → Reader) (before target : Set (ℕ × ℕ)) :
    SectionKept SeqReach readers before target := fun _ _ h _ hs _ => h.step hs

end Sections

/-! ### One reader, and a counter that comes around -/

section OneReader

variable {s₁ s₂ : SeqState Unit} {r r' : Reader} {n : ℕ} {before target : Set (ℕ × ℕ)}

/-- One reader, between two changes. -/
def oneReader (T : RegionMap) (S : Set (ℕ × ℕ)) (n : ℕ) (r : Reader) : SeqState Unit :=
  ⟨T, S, n, none, fun _ => r⟩

theorem oneReader_setReader : (oneReader T S n r).setReader () r' = oneReader T S n r' := by
  simp [oneReader, SeqState.setReader, funext_iff]

/-- The call that began in `s₁` goes on to `s₂`, with the address covered throughout. -/
def Goes (s₁ : SeqState Unit) (a : ℕ) (s₂ : SeqState Unit) : Prop :=
  SeqReach s₁ ∧ ∃ seen, CallSpan () s₁ seen s₂ ∧ ∀ t ∈ seen, CoveredBy t.current a

theorem Goes.step (h : Goes s₁ a s₂) (hrun : ∀ result, (s₂.readers ()).pc ≠ .done result)
    {s₃ : SeqState Unit} (hs : SeqStep s₂ s₃) (hcov : CoveredBy s₃.current a) : Goes s₁ a s₃ := by
  obtain ⟨hreach, seen, span, hall⟩ := h
  refine ⟨hreach, s₃ :: seen, span.step hrun hs, fun t ht => ?_⟩
  rcases List.mem_cons.1 ht with rfl | ht
  · exact hcov
  · exact hall t ht

theorem Goes.read (h : Goes s₁ a (oneReader T S n r)) (hrun : ∀ result, r.pc ≠ .done result)
    (hcov : CoveredBy S a) (hr : r.step T = r') : Goes s₁ a (oneReader T S n r') := by
  have hnext := h.step hrun (.read ()) hcov
  have hself : ((oneReader T S n r).readers ()).step (oneReader T S n r).table = r' := hr
  rwa [hself, oneReader_setReader] at hnext

theorem kept_goes (hrun : ∀ result, r.pc ≠ .done result) (hbefore : CoveredBy before a)
    (htarget : CoveredBy target a) : SectionKept (Goes s₁ a) (fun _ => r) before target := by
  intro t t' ht hreaders hs hcur
  refine ht.step (fun result => by rw [hreaders]; exact hrun result) hs ?_
  rcases hcur with heq | heq
  · rwa [heq]
  · rwa [heq]

theorem Goes.lockInv (h : Goes s₁ a s₂) : LockInv s₂ := by
  obtain ⟨hreach, seen, span, -⟩ := h
  exact (span.reach hreach).lockInv

theorem Represents.find (h : Represents T S) {bytes : ℕ} (hmem : (ptr, ptr + bytes) ∈ S) :
    ∃ idx, regionFindByStart T ptr = some idx := by
  obtain ⟨idx, hidx, hrange⟩ := (h.mem_iff _).1 hmem
  exact ⟨idx, h.findByStart hidx (by rw [hrange])⟩

/-- A region above all others is mapped and unmapped: the set is as before, the counter moves. -/
theorem Goes.cycle (h : Goes s₁ a (oneReader T S n r)) (hrun : ∀ result, r.pc ≠ .done result)
    (hcov : CoveredBy S a) (hbelow : ∀ q ∈ S, q.1 < q.2 ∧ q.2 ≤ 262144) (hcount : T.regionCount = 2) :
    ∃ T', Goes s₁ a (oneReader T' S (n + 4) r) ∧ T'.regionCount = 2 := by
  have hrep : Represents T S := (h.lockInv.still rfl).2
  have hroom : T.regionCount < regionMapCapacity := by
    rw [hcount]
    decide
  have hcov' : CoveredBy (insert (262144, 262144 + pageSize) S) a := by
    obtain ⟨q, hq, hrange⟩ := hcov
    exact ⟨q, Or.inr hq, hrange⟩
  have hgoes := register_section false (kept_goes hrun hcov hcov') h hrep hroom (by decide)
    (by decide) dvd_rfl (by decide) (by decide) fun q hq => Or.inr (hbelow q hq).2
  obtain ⟨-, hmore, -, -⟩ := regionRegister_ok hrep 262144 pageSize false hroom (by decide)
  obtain ⟨idx, hfind⟩ := (hgoes.lockInv.still rfl).2.find (Set.mem_insert _ _)
  have hback : {q ∈ insert (262144, 262144 + pageSize) S | q.1 ≠ 262144} = S := by
    ext q
    constructor
    · rintro ⟨rfl | hq, hne⟩
      · exact absurd rfl hne
      · exact hq
    · intro hq
      have := hbelow q hq
      exact ⟨Or.inr hq, by omega⟩
  have hend := unregister_section (kept_goes hrun hcov' (by rw [hback]; exact hcov)) hgoes hfind
  rw [hback] at hend
  refine ⟨_, hend, (regionUnregister_present hfind).1.trans ?_⟩
  simp only [hmore, hcount]

theorem Goes.cycles (h : Goes s₁ a (oneReader T S n r)) (hrun : ∀ result, r.pc ≠ .done result)
    (hcov : CoveredBy S a) (hbelow : ∀ q ∈ S, q.1 < q.2 ∧ q.2 ≤ 262144) (hcount : T.regionCount = 2)
    (k : ℕ) : ∃ T', Goes s₁ a (oneReader T' S (n + 4 * k) r) ∧ T'.regionCount = 2 := by
  induction k with
  | zero => exact ⟨T, h, hcount⟩
  | succ k ih =>
    obtain ⟨T₁, hgoes, hcount₁⟩ := ih
    exact hgoes.cycle hrun hcov hbelow hcount₁

end OneReader

/-- The table with one region, and with a second one below it. -/
def upperTable : RegionMap := (regionRegisterWithFlags .empty 131072 65536 false).2
def bothTable : RegionMap := (regionRegisterWithFlags upperTable 65536 65536 false).2

def upperSet : Set (ℕ × ℕ) := insert (131072, 131072 + 65536) ∅
def bothSet : Set (ℕ × ℕ) := insert (65536, 65536 + 65536) upperSet

theorem covered_upperSet : CoveredBy upperSet 131072 := ⟨_, Or.inl rfl, by decide, by decide⟩

theorem covered_bothSet : CoveredBy bothSet 131072 := ⟨_, Or.inr (Or.inl rfl), by decide, by decide⟩

/-- The state in which a call for an address of the upper region has begun. -/
def upperCall : SeqState Unit := oneReader upperTable upperSet 2 ⟨.enter, 131072, .zero⟩

theorem upperCall_reach : SeqReach upperCall := by
  have hmapped : SeqReach (oneReader upperTable upperSet 2 ⟨.done 0, 0, .zero⟩) :=
    register_section false (kept_reach _ _ _) .initial represents_empty (by decide) (by decide)
      (by decide) (by decide) (by decide) (by decide) nofun
  have hcall := hmapped.step (.call (i := ()) rfl 131072)
  rwa [oneReader_setReader] at hcall

/-- The reader has the counter and the number of regions. -/
theorem upperCall_counted : Goes upperCall 131072
    (oneReader upperTable upperSet 2 ⟨.search 3 2 1 0 1, 131072, .zero⟩) := by
  have h₀ : Goes upperCall 131072 upperCall := by
    refine ⟨upperCall_reach, _, .start, fun t ht => ?_⟩
    rw [List.mem_singleton.1 ht]
    exact covered_upperSet
  have h₁ : Goes _ _ (oneReader _ _ _ ⟨.round 4, 131072, .zero⟩) :=
    h₀.read nofun covered_upperSet (by decide)
  have h₂ : Goes _ _ (oneReader _ _ _ ⟨.regionCount 3 2, 131072, .zero⟩) :=
    h₁.read nofun covered_upperSet (by decide)
  exact h₂.read nofun covered_upperSet (by decide)

/-- A second region is mapped below the first. The reader, with the old number of regions, has
looked at the wrong entry when it comes to compare the counters. -/
theorem upperCall_shifted : Goes upperCall 131072
    (oneReader bothTable bothSet 4 ⟨.check 3 2 false, 131072, .zero⟩) := by
  have hrep := (upperCall_reach.lockInv.still rfl).2
  have h₁ : Goes upperCall 131072 (oneReader bothTable bothSet 4 ⟨.search 3 2 1 0 1, 131072, .zero⟩) :=
    register_section false (kept_goes nofun covered_upperSet covered_bothSet) upperCall_counted
      hrep (by decide) (by decide) (by decide) (by decide) (by decide) (by decide)
      (by rintro q (rfl | hq); exacts [Or.inl (by decide), hq.elim])
  have h₂ : Goes _ _ (oneReader _ _ _ ⟨.search 3 2 1 1 1, 131072, .zero⟩) :=
    h₁.read nofun covered_bothSet (by decide)
  have h₃ : Goes _ _ (oneReader _ _ _ ⟨.start 3 2 1, 131072, .zero⟩) :=
    h₂.read nofun covered_bothSet (by decide)
  have h₄ : Goes _ _ (oneReader _ _ _ ⟨.end_ 3 2 1, 131072, .zero⟩) :=
    h₃.read nofun covered_bothSet (by decide)
  exact h₄.read nofun covered_bothSet (by decide)

/-- The counters differ, and the second round of the call gets it right. -/
theorem ownsFast_never_torn_shifted : ∃ s : SeqState Unit, ∃ seen, CallSpan () upperCall seen s ∧
    (s.readers ()).pc = .done 1 ∧ ∃ t ∈ seen, Verdict 1 t.current 131072 := by
  have h₁ : Goes _ _ (oneReader _ _ _ ⟨.round 3, 131072, .zero⟩) :=
    upperCall_shifted.read nofun covered_bothSet (by decide)
  have h₂ : Goes _ _ (oneReader _ _ _ ⟨.regionCount 2 4, 131072, .zero⟩) :=
    h₁.read nofun covered_bothSet (by decide)
  have h₃ : Goes _ _ (oneReader _ _ _ ⟨.search 2 4 2 0 2, 131072, .zero⟩) :=
    h₂.read nofun covered_bothSet (by decide)
  have h₄ : Goes _ _ (oneReader _ _ _ ⟨.search 2 4 2 2 2, 131072, .zero⟩) :=
    h₃.read nofun covered_bothSet (by decide)
  have h₅ : Goes _ _ (oneReader _ _ _ ⟨.start 2 4 2, 131072, .zero⟩) :=
    h₄.read nofun covered_bothSet (by decide)
  have h₆ : Goes _ _ (oneReader _ _ _ ⟨.end_ 2 4 2, 131072, .zero⟩) :=
    h₅.read nofun covered_bothSet (by decide)
  have h₇ : Goes _ _ (oneReader _ _ _ ⟨.check 2 4 true, 131072, .zero⟩) :=
    h₆.read nofun covered_bothSet (by decide)
  have h₈ : Goes _ _ (oneReader _ _ _ ⟨.done 1, 131072, ⟨131072, 4, 1⟩⟩) :=
    h₇.read nofun covered_bothSet (by decide)
  obtain ⟨hreach, seen, span, -⟩ := h₈
  exact ⟨_, seen, span, rfl,
    (ownsFast_never_torn hreach rfl span rfl).1 (by decide) (by decide)⟩

/-- The second region is mapped after the reader has taken the number of regions, and `2 ^ 63`
changes later the counter is back: the reader answers 0 for an address that was mapped all
the time. -/
theorem ownsFast_torn_after_wrap : ∃ (s₀ s : SeqState Unit) (seen : List (SeqState Unit)), SeqReach s₀ ∧
    (s₀.readers ()).pc = .enter ∧ CallSpan () s₀ seen s ∧ (s.readers ()).pc = .done 0 ∧
      ∀ t ∈ seen, CoveredBy t.current (s₀.readers ()).ptr := by
  have hbelow : ∀ q ∈ bothSet, q.1 < q.2 ∧ q.2 ≤ 262144 := by
    rintro q (rfl | rfl | hq)
    · decide
    · decide
    · exact hq.elim
  obtain ⟨T, h₁, -⟩ := upperCall_shifted.cycles nofun covered_bothSet hbelow (by decide) (2 ^ 62 - 1)
  obtain ⟨idx, hfind⟩ := (h₁.lockInv.still rfl).2.find (Set.mem_insert _ _)
  have hcov : CoveredBy {q ∈ bothSet | q.1 ≠ 65536} 131072 :=
    ⟨_, ⟨Or.inr (Or.inl rfl), by decide⟩, by decide, by decide⟩
  have hrun : ∀ result, (⟨.check 3 2 false, 131072, .zero⟩ : Reader).pc ≠ .done result := nofun
  have h₂ := unregister_section (kept_goes hrun covered_bothSet hcov) h₁ hfind
  have hseq : (regionUnregisterWithFlags T 65536).2.regionSeq = 2 :=
    h₂.lockInv.seq_eq.trans (by norm_num)
  have h₃ := h₂.step hrun (.read ()) hcov
  obtain ⟨hreach, seen, span, hall⟩ := h₃
  refine ⟨upperCall, _, seen, hreach, rfl, span, ?_, hall⟩
  simp [SeqState.setReader, Reader.step, hseq]

end V8Malloc.PageHeap
