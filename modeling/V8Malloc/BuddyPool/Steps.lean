import V8Malloc.BuddyPool.Invariant

/-!
# Steps of the buddy pool

One lemma for each operation on the slots: what it returns, and that it touches
one arena only.
-/
namespace V8Malloc

open ByteMemory

variable {uafActive : Bool} {p p' : BuddyPool} {live live' : Set (ℕ × ℕ)}
variable {i j k a base size ptr : ℕ} {h' : BuddyHeap}

theorem kept_of_not_inArenaAt {b : Buddy} (ha : ¬ inArenaAt b.arenaBase a) : Kept b a := Or.inl ha

/-- A change of one arena in use, described by its new heap and its new live blocks. -/
theorem slotStep_of_heap (hp : PoolInv p live) (hu : p.Used i)
    (hothers : ∀ j, j ≠ i → p'.arenas j = p.arenas j) (hused : (p'.arenas i).inUse = true)
    (hframe : ∀ a, ¬ inArenaAt (p.base i) a → p'.mem a = p.mem a)
    (hlive : ∀ q : ℕ × ℕ, ¬ inArenaAt (p.base i) q.1 → (q ∈ live' ↔ q ∈ live))
    (harena : ArenaInv (p.base i) (p'.heap i) (liveAt (p.base i) live'))
    (hidle : (p'.arenas i).drained = true → liveAt (p.base i) live' = ∅) :
    SlotStep p live i (p.base i) p' live' where
  slot_lt := hu.1
  others := hothers
  free_base := fun j hj hu' heq => hj (hp.apart j i hu' hu heq)
  old_base := fun _ => rfl
  aligned := hp.aligned hu
  frame := hframe
  live_iff := hlive
  used := hused
  arena := harena
  idle := hidle

/-! ### What a step leaves alone -/

/-- From `p` to `p'` the blocks of `live` keep their bytes, nothing outside the arenas changes,
and the only new arena can be `arena`. -/
structure PoolFrame (p : BuddyPool) (live : Set (ℕ × ℕ)) (arena : ℕ) (p' : BuddyPool) : Prop where
  plain : Plain p.mem p'.mem
  kept : ∀ q ∈ live, ∀ x, q.1 ≤ x → x < q.1 + blockSize q.2 → p'.mem x = p.mem x
  outside : ∀ x, (∀ i, p.Used i → ¬ inArenaAt (p.base i) x) →
    (arena ≠ 0 → ¬ inArenaAt arena x) → p'.mem x = p.mem x
  arenas : ∀ i, p'.Used i → p.Used i ∧ p'.base i = p.base i ∨ arena ≠ 0 ∧ p'.base i = arena

theorem PoolFrame.refl (p : BuddyPool) (live : Set (ℕ × ℕ)) (arena : ℕ) :
    PoolFrame p live arena p :=
  ⟨Plain.refl _, fun _ _ _ _ _ => rfl, fun _ _ _ => rfl, fun _ hu => Or.inl ⟨hu, rfl⟩⟩

theorem PoolFrame.trans {p'' : BuddyPool} {arena : ℕ} (h₁ : PoolFrame p live arena p')
    (h₂ : PoolFrame p' live arena p'') : PoolFrame p live arena p'' := by
  constructor
  · exact h₁.plain.trans h₂.plain
  · intro q hq x hlo hhi
    exact (h₂.kept q hq x hlo hhi).trans (h₁.kept q hq x hlo hhi)
  · intro x hold hnew
    refine (h₂.outside x (fun i hu => ?_) hnew).trans (h₁.outside x hold hnew)
    rcases h₁.arenas i hu with ⟨hu, hbase⟩ | ⟨hne, hbase⟩
    · rw [hbase]
      exact hold i hu
    · rw [hbase]
      exact hnew hne
  · intro i hu
    rcases h₂.arenas i hu with ⟨hu, hbase⟩ | hnew
    · rw [hbase]
      exact h₁.arenas i hu
    · exact Or.inr hnew

theorem SlotStep.poolFrame {arena : ℕ} {stay : Set (ℕ × ℕ)} (hs : SlotStep p live i base p' live')
    (hp : PoolInv p live) (hbase : p.Used i ∨ arena ≠ 0 ∧ base = arena)
    (hplain : Plain p.mem p'.mem) (hstay : stay ⊆ live)
    (hkept : ∀ q ∈ stay, inArenaAt base q.1 → ∀ x, q.1 ≤ x → x < q.1 + blockSize q.2 →
      p'.mem x = p.mem x) : PoolFrame p stay arena p' := by
  constructor
  · exact hplain
  · intro q hq x hlo hhi
    by_cases hin : inArenaAt base q.1
    · exact hkept q hq hin x hlo hhi
    · -- the block ends inside its own arena
      obtain ⟨j, hu, hq'⟩ := hp.owned q (hstay hq)
      have hj : j ≠ i := by
        intro hji
        subst hji
        rw [hs.old_base hu] at hq'
        exact hin hq'
      have hend := ((hp.arena j hu).block_end ⟨hstay hq, hq'⟩).2
      refine hs.frame x (hs.outside hp hj hu ?_)
      unfold inArenaAt at hq' ⊢
      omega
  · intro x hold hnew
    apply hs.frame
    rcases hbase with hu | ⟨hne, rfl⟩
    · rw [← hs.old_base hu]
      exact hold i hu
    · exact hnew hne
  · intro j hu
    by_cases hj : j = i
    · subst hj
      rw [hs.base_eq]
      rcases hbase with hu' | hnew
      · exact Or.inl ⟨hu', (hs.old_base hu').symm⟩
      · exact Or.inr hnew
    · exact Or.inl ⟨(hs.used_iff hj).1 hu, hs.base_other hj⟩

/-! ### Allocation -/

theorem liveAt_insert {q : ℕ × ℕ} (hq : inArenaAt base q.1) :
    liveAt base (insert q live) = insert q (liveAt base live) := by
  ext x
  constructor
  · rintro ⟨rfl | hx, hin⟩
    · exact Or.inl rfl
    · exact Or.inr ⟨hx, hin⟩
  · rintro (rfl | ⟨hx, hin⟩)
    · exact ⟨Or.inl rfl, hq⟩
    · exact ⟨Or.inr hx, hin⟩

/-- The pool after slot `i` served a request. -/
def BuddyPool.serve (p : BuddyPool) (i : ℕ) (h : BuddyHeap) : BuddyPool :=
  (p.setHeap i h).setSlot i ((p.setHeap i h).arenas i).revive

theorem serve_others (hj : j ≠ i) : (p.serve i h').arenas j = p.arenas j := by
  simp [BuddyPool.serve, BuddyPool.setSlot, BuddyPool.setHeap, hj]

theorem serve_inUse : ((p.serve i h').arenas i).inUse = (p.arenas i).inUse := by
  simp [BuddyPool.serve, BuddyPool.setSlot, BuddyPool.setHeap, PoolArena.revive]

theorem serve_heap : (p.serve i h').heap i = h' := by
  simp [BuddyPool.serve, BuddyPool.setSlot, BuddyPool.setHeap, PoolArena.revive, BuddyPool.heap]

theorem serve_mem : (p.serve i h').mem = h'.mem := rfl

theorem serve_slotStep (hp : PoolInv p live) (hu : p.Used i)
    (hg : Granted (p.heap i) (sizeToLevel size) k h') :
    SlotStep p live i (p.base i) (p.serve i h')
      (insert (indexToNode (p.heap i).buddy k (sizeToLevel size), size) live) := by
  have hgrant := (hp.arena i hu).grant hg
  obtain ⟨hin, -⟩ := hgrant.block_end (Or.inl rfl)
  apply slotStep_of_heap hp hu
  · exact fun j hj => serve_others hj
  · rw [serve_inUse]
    exact hu.2
  · intro a ha
    rw [serve_mem]
    exact hg.frame a (kept_of_not_inArenaAt ha)
  · intro q hq
    constructor
    · rintro (rfl | hmem)
      · exact absurd hin hq
      · exact hmem
    · exact Or.inr
  · rw [serve_heap, liveAt_insert hin]
    exact hgrant
  · simp [BuddyPool.serve, BuddyPool.setSlot, PoolArena.revive]

theorem setHeap_self (p : BuddyPool) (i : ℕ) : p.setHeap i (p.heap i) = p := by
  simp [BuddyPool.setHeap, BuddyPool.heap]

/-- Either every scanned arena is exhausted, or the first with room serves the request. -/
theorem tryExistingArenas_cases (uafActive : Bool) (size : ℕ) (slots : List ℕ)
    (hinv : ∀ i ∈ slots, (p.arenas i).inUse = true → BuddyInv (p.heap i) none₂) :
    (tryExistingArenas uafActive size slots p = .ok (0, p) ∧
      ∀ i ∈ slots, (p.arenas i).inUse = true → Exhausted (p.heap i).buddy size) ∨
    ∃ i ∈ slots, (p.arenas i).inUse = true ∧ ∃ k h',
      Granted (p.heap i) (sizeToLevel size) k h' ∧
      (tryExistingArenas uafActive size slots p =
          .ok (indexToNode (p.heap i).buddy k (sizeToLevel size), p.serve i h') ∨
        uafActive = true ∧
          tryExistingArenas uafActive size slots p = .error .abort) := by
  induction slots with
  | nil => exact Or.inl ⟨rfl, fun i hi => absurd hi List.not_mem_nil⟩
  | cons i rest ih =>
    have ih' := ih fun j hj => hinv j (List.mem_cons_of_mem i hj)
    by_cases hused : (p.arenas i).inUse = true
    · have hi := hinv i List.mem_cons_self hused
      simp only [tryExistingArenas, hused, if_true]
      rcases buddyAlloc_spec uafActive hi size with
        ⟨hex, hnull⟩ | ⟨-, -, -, k, h', hg, hok | ⟨huaf, habort⟩⟩
      · rw [hnull]
        simp only [ne_eq, not_true_eq_false, if_false, setHeap_self]
        rcases ih' with ⟨hout, hall⟩ | ⟨j, hj, hserved⟩
        · refine Or.inl ⟨hout, fun j hj hju => ?_⟩
          rcases List.mem_cons.1 hj with rfl | hj
          · exact hex
          · exact hall j hj hju
        · exact Or.inr ⟨j, List.mem_cons_of_mem i hj, hserved⟩
      · have hne : indexToNode (p.heap i).buddy k (sizeToLevel size) ≠ 0 := by
          have hpos := hi.arena.pos
          unfold indexToNode
          omega
        refine Or.inr ⟨i, List.mem_cons_self, hused, k, h', hg, Or.inl ?_⟩
        rw [hok]
        simp only [hne, ne_eq, not_false_eq_true, if_true]
        rfl
      · refine Or.inr ⟨i, List.mem_cons_self, hused, k, h', hg, Or.inr ⟨huaf, ?_⟩⟩
        rw [habort]
    · simp only [tryExistingArenas, hused]
      rcases ih' with ⟨hout, hall⟩ | ⟨j, hj, hserved⟩
      · refine Or.inl ⟨hout, fun j hj hju => ?_⟩
        rcases List.mem_cons.1 hj with rfl | hj
        · exact absurd hju hused
        · exact hall j hj hju
      · exact Or.inr ⟨j, List.mem_cons_of_mem i hj, hserved⟩

/-! ### A fresh arena -/

/-- Answers the page heap may give: none, or an aligned range apart from every arena in use. -/
def LegalArena (p : BuddyPool) (arena : ℕ) : Prop :=
  arena = 0 ∨ buddyMaxBlock ∣ arena ∧ arena + buddyMaxBlock ≤ 2 ^ 64 ∧
    ∀ i, p.Used i → p.base i ≠ arena

/-- No fresh arena can be had: every slot is in use, or the page heap has none to give. -/
def NoFreshArena (p : BuddyPool) (arena : ℕ) : Prop :=
  (∀ i < buddyPoolMaxArenas, (p.arenas i).inUse = true) ∨ arena = 0

theorem PoolInv.liveAt_fresh (hp : PoolInv p live) {arena : ℕ} (halign : buddyMaxBlock ∣ arena)
    (hfresh : ∀ i, p.Used i → p.base i ≠ arena) : liveAt arena live = ∅ := by
  ext q
  constructor
  · rintro ⟨hq, hin⟩
    obtain ⟨i, hu, hin'⟩ := hp.owned q hq
    exact hfresh i hu (inArenaAt_unique (hp.aligned hu) halign hin' hin)
  · exact False.elim

theorem buddyInit_top (uafActive : Bool) (m : Mem) (arena : ℕ) :
    (buddyInit uafActive m arena).buddy.freeLists buddyTop = arena := by
  simp only [buddyInit, BuddyHeap.poison, BuddyHeap.push, listPush, buddyLevels, buddyTop]
  simp

theorem buddyInit_frame (m : Mem) {arena : ℕ} (ha : ¬ inArenaAt arena a) :
    (buddyInit uafActive m arena).mem a = m a := by
  unfold inArenaAt at ha
  have hpoison := sameOutside_debugUafPoison uafActive
    ((⟨bareBuddy arena, m⟩ : BuddyHeap).push buddyTop arena).mem (arena + nodeSize)
    (buddyMaxBlock - nodeSize)
  have hmax : nodeSize < buddyMaxBlock := by decide
  refine (hpoison a (by omega)).trans ?_
  have hsame : OnlyNodes {arena} m ((⟨bareBuddy arena, m⟩ : BuddyHeap).push buddyTop arena).mem :=
    onlyNodes_listPush (Set.mem_singleton arena) (fun hne => absurd rfl hne)
  apply hsame a
  rintro x rfl
  omega

theorem buddyInit_plain (uafActive : Bool) (m : Mem) {arena : ℕ} (halign : buddyMaxBlock ∣ arena) :
    Plain m (buddyInit uafActive m arena).mem := by
  have hpage : buddyMinBlock ∣ arena := dvd_trans (by decide) halign
  have hpush : Plain m ((⟨bareBuddy arena, m⟩ : BuddyHeap).push buddyTop arena).mem :=
    plain_listPush hpage (dvd_zero _)
  refine hpush.trans ?_
  simp only [buddyInit, BuddyHeap.poison, debugUafPoison]
  split_ifs
  · exact Plain.refl _
  · exact Plain.refl _
  · exact plain_fill (Or.inr rfl) hpage (by decide) (Or.inr rfl)

/-- The pool after slot `i` took the arena of `h` and served a request from it. -/
def BuddyPool.install (p : BuddyPool) (i : ℕ) (h : BuddyHeap) : BuddyPool :=
  ⟨Function.update p.arenas i
    { buddy := h.buddy, inUse := true, drained := false, idleTicks := 0 }, h.mem⟩

theorem install_heap : (p.install i h').heap i = h' := by
  simp [BuddyPool.install, BuddyPool.heap]

theorem install_slotStep (hp : PoolInv p live) (hi : i < buddyPoolMaxArenas)
    (hfree : (p.arenas i).inUse = false) {arena : ℕ} (hpos : 0 < arena)
    (halign : buddyMaxBlock ∣ arena) (hfits : arena + buddyMaxBlock ≤ 2 ^ 64)
    (hfresh : ∀ j, p.Used j → p.base j ≠ arena)
    (hg : Granted (buddyInit uafActive p.mem arena) (sizeToLevel size) k h') :
    SlotStep p live i arena (p.install i h')
      (insert (indexToNode (buddyInit uafActive p.mem arena).buddy k (sizeToLevel size), size)
        live) := by
  have hrun := runInv_init uafActive p.mem hpos halign hfits
  have hgrant := hrun.grant hg
  obtain ⟨hin, -⟩ := hgrant.block_end (Or.inl rfl)
  constructor
  · exact hi
  · intro j hj
    simp [BuddyPool.install, hj]
  · exact fun j _ hu => hfresh j hu
  · intro hu
    exact absurd (hu.2.symm.trans hfree) (by decide)
  · exact halign
  · intro a ha
    refine (hg.frame a (kept_of_not_inArenaAt ?_)).trans (buddyInit_frame p.mem ha)
    rwa [hrun.base_eq]
  · intro q hq
    constructor
    · rintro (rfl | hmem)
      · exact absurd hin hq
      · exact hmem
    · exact Or.inr
  · simp [BuddyPool.install]
  · rw [install_heap, liveAt_insert hin, hp.liveAt_fresh halign hfresh]
    exact hgrant
  · simp [BuddyPool.install]

/-- No slot or no arena: nothing changes. Otherwise the fresh arena serves the request. -/
theorem acquireFreshArena_cases (uafActive : Bool) {arena : ℕ} (hlegal : LegalArena p arena)
    (hsize : 0 < size) (hmax : size ≤ buddyMaxBlock) :
    acquireFreshArena uafActive size arena p = .ok (0, p) ∧ NoFreshArena p arena ∨
    ∃ i, i < buddyPoolMaxArenas ∧ (p.arenas i).inUse = false ∧ 0 < arena ∧
      buddyMaxBlock ∣ arena ∧ arena + buddyMaxBlock ≤ 2 ^ 64 ∧
      (∀ j, p.Used j → p.base j ≠ arena) ∧ ∃ k h',
      Granted (buddyInit uafActive p.mem arena) (sizeToLevel size) k h' ∧
      (acquireFreshArena uafActive size arena p =
          .ok (indexToNode (buddyInit uafActive p.mem arena).buddy k (sizeToLevel size),
            p.install i h') ∨
        uafActive = true ∧
          acquireFreshArena uafActive size arena p = .error .abort) := by
  unfold acquireFreshArena
  cases hslot : poolSlots.find? fun i => !(p.arenas i).inUse with
  | none =>
    have hall : ∀ i < buddyPoolMaxArenas, (p.arenas i).inUse = true := by
      intro i hi
      simpa using List.find?_eq_none.1 hslot i (List.mem_range.2 hi)
    exact Or.inl ⟨rfl, Or.inl hall⟩
  | some i =>
    by_cases h0 : arena = 0
    · exact Or.inl ⟨by simp [h0], Or.inr h0⟩
    have hpos : 0 < arena := Nat.pos_of_ne_zero h0
    obtain ⟨halign, hfits, hfresh⟩ := hlegal.resolve_left h0
    have hfree : (p.arenas i).inUse = false := by
      have := List.find?_some hslot
      simpa using this
    have hi : i < buddyPoolMaxArenas := List.mem_range.1 (List.mem_of_find?_eq_some hslot)
    have hrun := runInv_init uafActive p.mem hpos halign hfits
    simp only [h0, if_false]
    rcases buddyAlloc_spec uafActive hrun.inv size with
      ⟨hex, -⟩ | ⟨-, -, -, k, h', hg, hok | ⟨huaf, habort⟩⟩
    · -- a fresh arena has its whole range on the top list
      rcases hex with hzero | hlevel | hall
      · omega
      · exact absurd (sizeToLevel_lt_iff.2 hmax) (Nat.not_lt.2 hlevel)
      · have htop := hall buddyTop (Nat.le_of_lt_succ (sizeToLevel_lt_iff.2 hmax)) (by decide)
        rw [buddyInit_top] at htop
        exact absurd htop h0
    · have hne : indexToNode (buddyInit uafActive p.mem arena).buddy k (sizeToLevel size) ≠ 0 := by
        have hbase := hrun.inv.arena.pos
        unfold indexToNode
        omega
      refine Or.inr ⟨i, hi, hfree, hpos, halign, hfits, hfresh, k, h', hg, Or.inl ?_⟩
      rw [hok]
      simp only [hne, ne_eq, not_false_eq_true, decide_true]
      rfl
    · refine Or.inr ⟨i, hi, hfree, hpos, halign, hfits, hfresh, k, h', hg, Or.inr ⟨huaf, ?_⟩⟩
      rw [habort]

/-! ### The deferred sweep -/

theorem setHeap_heap : (p.setHeap i h').heap i = h' := by
  simp [BuddyPool.setHeap, BuddyPool.heap]

theorem setHeap_slotStep (hp : PoolInv p live) (hu : p.Used i)
    (hs : Step (p.heap i) none₂ h' none₂) :
    SlotStep p live i (p.base i) (p.setHeap i h') live := by
  apply slotStep_of_heap hp hu
  · intro j hj
    simp [BuddyPool.setHeap, hj]
  · simp only [BuddyPool.setHeap, Function.update_self]
    exact hu.2
  · exact fun a ha => hs.frame a (kept_of_not_inArenaAt ha)
  · exact fun q _ => Iff.rfl
  · rw [setHeap_heap]
    exact (hp.arena i hu).sweep hs
  · simp only [BuddyPool.setHeap, Function.update_self]
    exact hp.idle i hu

/-- The sweep over the slots ends and keeps the invariant and the complete lists. -/
theorem coalesceArenas_step (uafActive : Bool) (arena : ℕ) (slots : List ℕ) : ∀ {p : BuddyPool},
    (∀ i ∈ slots, i < buddyPoolMaxArenas) → PoolInv p live →
      ∃ anyMerge p', coalesceArenas uafActive slots p = .ok (anyMerge, p') ∧ PoolInv p' live ∧
        (PoolComplete p → PoolComplete p') ∧ PoolFrame p live arena p' := by
  induction slots with
  | nil => exact fun _ hp => ⟨false, _, rfl, hp, id, PoolFrame.refl _ _ _⟩
  | cons i rest ih =>
    intro p hslots hp
    have hrest : ∀ j ∈ rest, j < buddyPoolMaxArenas :=
      fun j hj => hslots j (List.mem_cons_of_mem i hj)
    by_cases hused : (p.arenas i).inUse = true
    · have hu : p.Used i := ⟨hslots i List.mem_cons_self, hused⟩
      obtain ⟨merges, h', hok, hs⟩ := buddyCoalesceAll_step uafActive (hp.arena i hu).inv
      have hstep := setHeap_slotStep hp hu hs
      obtain ⟨anyMerge, p', hout, hp', hc, hframe⟩ := ih hrest (hstep.inv hp)
      have hcomplete : PoolComplete p → PoolComplete (p.setHeap i h') := by
        intro hpc
        apply hstep.complete hp (fun j _ huj => hpc j huj)
        rw [setHeap_heap]
        exact hs.complete (hpc i hu)
      have hframe₁ : PoolFrame p live arena (p.setHeap i h') := by
        apply hstep.poolFrame hp (Or.inl hu) hs.plain (Set.Subset.refl live)
        intro q hq hin x hlo hhi
        exact hs.frame x ((hp.arena i hu).kept ⟨hq, hin⟩ hlo hhi)
      refine ⟨decide (merges > 0) || anyMerge, p', ?_, hp', fun hpc => hc (hcomplete hpc),
        hframe₁.trans hframe⟩
      simp only [coalesceArenas, hused, if_true, hok, hout]
    · obtain ⟨anyMerge, p', hout, hkept⟩ := ih hrest hp
      refine ⟨anyMerge, p', ?_, hkept⟩
      simp only [coalesceArenas, hused]
      exact hout

/-! ### Whole calls of the allocator -/

/-- The live blocks after an allocation answered `ptr`. -/
def liveAfter (live : Set (ℕ × ℕ)) (ptr size : ℕ) : Set (ℕ × ℕ) :=
  if ptr = 0 then live else insert (ptr, size) live

/-- The answer is the null pointer or a new block, and the rest is kept. -/
structure PoolKept (p : BuddyPool) (live : Set (ℕ × ℕ)) (arena size : ℕ) (out : ℕ × BuddyPool) :
    Prop where
  inv : PoolInv out.2 (liveAfter live out.1 size)
  complete : PoolComplete p → PoolComplete out.2
  fresh : out.1 ≠ 0 → ∀ s, (out.1, s) ∉ live
  frame : PoolFrame p live arena out.2

theorem poolKept_null (hp : PoolInv p live) (arena size : ℕ) : PoolKept p live arena size (0, p) :=
  ⟨by simpa [liveAfter] using hp, id, fun hne => absurd rfl hne, PoolFrame.refl _ _ _⟩

theorem PoolInv.scanned (hp : PoolInv p live) :
    ∀ i ∈ poolSlots, (p.arenas i).inUse = true → BuddyInv (p.heap i) none₂ :=
  fun i hi hused => (hp.arena i ⟨List.mem_range.1 hi, hused⟩).inv

theorem SlotStep.kept {arena : ℕ} (hs : SlotStep p live i base p' (insert (ptr, size) live))
    (hp : PoolInv p live) (hne : ptr ≠ 0)
    (hc : PoolComplete p → ListsComplete (p'.heap i) none₂) (hfresh : ∀ s, (ptr, s) ∉ live)
    (hframe : PoolFrame p live arena p') : PoolKept p live arena size (ptr, p') := by
  refine ⟨?_, fun hpc => hs.complete hp (fun j _ hu => hpc j hu) (hc hpc), fun _ => hfresh, hframe⟩
  simp only [liveAfter, if_neg hne]
  exact hs.inv hp

theorem tryExistingArenas_spec (uafActive : Bool) (arena size : ℕ) (hp : PoolInv p live) :
    Returns (uafActive = true) (tryExistingArenas uafActive size poolSlots p) fun out =>
      out = (0, p) ∨ out.1 ≠ 0 ∧ PoolKept p live arena size out := by
  rcases tryExistingArenas_cases uafActive size poolSlots hp.scanned with
    ⟨hnull, -⟩ | ⟨i, hi, hused, k, h', hg, hok | habort⟩
  · rw [hnull]
    exact returns_ok (Or.inl rfl)
  · rw [hok]
    have hu : p.Used i := ⟨List.mem_range.1 hi, hused⟩
    have harena := hp.arena i hu
    have hstep := serve_slotStep hp hu hg
    have hne : indexToNode (p.heap i).buddy k (sizeToLevel size) ≠ 0 := by
      have hpos := harena.inv.arena.pos
      unfold indexToNode
      omega
    refine returns_ok (Or.inr ⟨hne, hstep.kept hp hne ?_ ?_ ?_⟩)
    · intro hpc
      rw [serve_heap]
      exact hg.complete (hpc i hu)
    · intro s hs
      obtain ⟨hin, -⟩ := (harena.grant hg).block_end (Or.inl rfl)
      exact harena.grant_fresh hg ⟨hs, hin⟩ rfl
    · apply hstep.poolFrame hp (Or.inl hu) hg.plain (Set.Subset.refl live)
      intro q hq hin x hlo hhi
      exact hg.frame x (harena.kept ⟨hq, hin⟩ hlo hhi)
  · exact Or.inr habort

theorem acquireFreshArena_spec (uafActive : Bool) {arena : ℕ} (hp : PoolInv p live)
    (hlegal : LegalArena p arena) (hsize : 0 < size) (hmax : size ≤ buddyMaxBlock) :
    Returns (uafActive = true) (acquireFreshArena uafActive size arena p) fun out =>
      out = (0, p) ∨ out.1 ≠ 0 ∧ PoolKept p live arena size out := by
  rcases acquireFreshArena_cases uafActive hlegal hsize hmax with
    ⟨hnull, -⟩ | ⟨i, hi, hfree, hpos, halign, hfits, hfresh, k, h', hg, hok | habort⟩
  · rw [hnull]
    exact returns_ok (Or.inl rfl)
  · rw [hok]
    have hrun := runInv_init uafActive p.mem hpos halign hfits
    have hstep := install_slotStep hp hi hfree hpos halign hfits hfresh hg
    have hnone := hp.liveAt_fresh halign hfresh
    have hne : indexToNode (buddyInit uafActive p.mem arena).buddy k (sizeToLevel size) ≠ 0 := by
      have hbase := hrun.inv.arena.pos
      unfold indexToNode
      omega
    refine returns_ok (Or.inr ⟨hne, hstep.kept hp hne ?_ ?_ ?_⟩)
    · intro _
      rw [install_heap]
      exact hg.complete hrun.complete
    · intro s hs
      obtain ⟨hin, -⟩ := (hrun.grant hg).block_end (Or.inl rfl)
      exact (Set.eq_empty_iff_forall_notMem.1 hnone) _ ⟨hs, hin⟩
    · apply hstep.poolFrame hp (Or.inr ⟨hpos.ne', rfl⟩)
        ((buddyInit_plain uafActive p.mem halign).trans hg.plain) (Set.Subset.refl live)
      intro q hq hin
      exact absurd ⟨hq, hin⟩ ((Set.eq_empty_iff_forall_notMem.1 hnone) q)
  · exact Or.inr habort

theorem coalesceAndRetry_spec (uafActive : Bool) (arena size : ℕ) (hp : PoolInv p live) :
    Returns (uafActive = true) (coalesceAndRetry uafActive size p)
      (PoolKept p live arena size) := by
  obtain ⟨anyMerge, p₁, hsweep, hp₁, hc, hframe⟩ :=
    coalesceArenas_step uafActive arena poolSlots (fun i hi => List.mem_range.1 hi) hp
  have hnull : PoolKept p live arena size (0, p₁) :=
    ⟨by simpa [liveAfter] using hp₁, hc, fun hne => absurd rfl hne, hframe⟩
  simp only [coalesceAndRetry, hsweep]
  split_ifs
  · apply (tryExistingArenas_spec uafActive arena size hp₁).mono
    rintro out (rfl | ⟨-, hkept⟩)
    · exact hnull
    · exact ⟨hkept.inv, fun hpc => hkept.complete (hc hpc), hkept.fresh, hframe.trans hkept.frame⟩
  · exact returns_ok hnull

theorem buddyPoolAlloc_eq (opts : PoolOptions) (arena : ℕ) (hsize : 0 < size)
    (hmax : size ≤ buddyMaxBlock) : buddyPoolAlloc opts arena p size =
      (tryExistingArenas opts.uafActive size poolSlots p >>= fun out =>
        if out.1 ≠ 0 then pure out
        else acquireFreshArena opts.uafActive size arena out.2 >>= fun out =>
          if out.1 = 0 ∧ opts.deferredCoalesce then coalesceAndRetry opts.uafActive size out.2
          else pure out) := by
  have hok : ¬(size = 0 ∨ size > buddyMaxBlock) := by omega
  simp only [buddyPoolAlloc, if_neg hok]
  cases tryExistingArenas opts.uafActive size poolSlots p with
  | error stop => rfl
  | ok out =>
    by_cases hne : out.1 ≠ 0
    · simp only [bind, Except.bind, if_pos hne]
      rfl
    · simp only [bind, Except.bind, if_neg hne]
      cases acquireFreshArena opts.uafActive size arena out.2 <;> rfl

/-- An allocation adds its block to the live ones and keeps the lists complete. -/
theorem buddyPoolAlloc_spec (opts : PoolOptions) {arena : ℕ} (hp : PoolInv p live)
    (hlegal : LegalArena p arena) (size : ℕ) :
    Returns (opts.uafActive = true) (buddyPoolAlloc opts arena p size)
      (PoolKept p live arena size) := by
  by_cases hsize : size = 0 ∨ size > buddyMaxBlock
  · simp only [buddyPoolAlloc, if_pos hsize]
    exact returns_ok (poolKept_null hp arena size)
  have hpos : 0 < size := by omega
  have hmax : size ≤ buddyMaxBlock := by omega
  rw [buddyPoolAlloc_eq opts arena hpos hmax]
  apply (tryExistingArenas_spec opts.uafActive arena size hp).bind
  rintro out (rfl | ⟨hne, hkept⟩)
  · simp only [ne_eq, not_true_eq_false, if_false]
    apply (acquireFreshArena_spec opts.uafActive hp hlegal hpos hmax).bind
    rintro out (rfl | ⟨hne, hkept⟩)
    · split_ifs
      · exact coalesceAndRetry_spec opts.uafActive arena size hp
      · exact returns_ok (poolKept_null hp arena size)
    · rw [if_neg fun hb => hne hb.1]
      exact returns_ok hkept
  · rw [if_pos hne]
    exact returns_ok hkept

end V8Malloc
