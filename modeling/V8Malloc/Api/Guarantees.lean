import V8Malloc.Api.BookRuns
import V8Malloc.Api.Ring
import V8Malloc.Dispatch.Ownership

/-!
# What a program can rely on

Until the program gives a block back, no call, drain or background tick of any
thread changes its bytes or its usable size. Calls return. When the program and
the caches have nothing, no memory is in use. Blocks of `v8m_calloc` are
cleared, and a resize that fails leaves its block alone.
-/
namespace V8Malloc

open ByteMemory
open Function (update update_self)

variable {w₀ w w' : World} {L L' : Stack → List ℕ} {blk blk' : Blocks} {p : ℕ}

/-- The states reached from `w₀` while the program neither gives back the block at `p` nor
writes to it. -/
inductive Meantime (p : ℕ) (w₀ : World) : World → Prop
  | start : Meantime p w₀ w₀
  | alloc {w : World} {call : Call} {size alignment ptr : ℕ} {s' : Sys} : Meantime p w₀ w →
      Legal call w.sys.heap → (dispatchAlloc call w.sys size = .ok (ptr, s') ∨
        dispatchAllocAligned call w.sys size alignment = .ok (ptr, s')) →
      Meantime p w₀ (w.answer s' ptr size)
  | free {w : World} {call : Call} {ptr : ℕ} {s' : Sys} : Meantime p w₀ w →
      Legal call w.sys.heap → ptr ∈ w.pointers → ptr ≠ p →
      dispatchFree call w.sys ptr = .ok s' → Meantime p w₀ (w.release s' ptr)
  | upkeep {w : World} {s' : Sys} : Meantime p w₀ w → Upkeep w.sys s' →
      Meantime p w₀ ⟨s', w.held⟩
  | write {w : World} {m' : Mem} : Meantime p w₀ w →
      (w.Writes m' ∨ ∀ x, w.sys.heap.Taken x → m' x = w.sys.heap.mem x) →
      (∀ x, p ≤ x → x < p + dispatchUsableSize w.sys.heap p → m' x = w.sys.heap.mem x) →
      Meantime p w₀ ⟨w.sys.setMem m', w.held⟩

theorem Meantime.reachable (hw₀ : Reachable w₀) (hmean : Meantime p w₀ w) : Reachable w := by
  induction hmean with
  | start => exact hw₀
  | alloc _ hlegal hok ih => exact hok.elim (ih.alloc hlegal) (ih.allocAligned hlegal)
  | free _ hlegal hptr _ hok ih => exact ih.free hlegal hptr hok
  | upkeep _ hup ih =>
    cases hup with
    | drainAll hok => exact ih.drainAll hok
    | drainLocalL2 hok => exact ih.drainLocalL2 hok
    | drainMedium hok => exact ih.drainMedium hok
    | bgTick => exact ih.bgTick
    | purgeDrained => exact ih.purgeDrained
  | write _ hm _ ih => exact hm.elim ih.write ih.elsewhere

/-- The program has the block at `p`, with the size and bytes it had in `w₀`. -/
structure Intact (p : ℕ) (w₀ w : World) : Prop where
  held : p ∈ w.pointers
  usable : dispatchUsableSize w.sys.heap p = dispatchUsableSize w₀.sys.heap p
  bytes : ∀ x, p ≤ x → x < p + dispatchUsableSize w₀.sys.heap p →
    w.sys.heap.mem x = w₀.sys.heap.mem x

theorem Intact.carried {stay held : Set ℕ} (hi : Intact p w₀ w)
    (hw : WorldInv Covers w L blk) (hs : SysInv w'.sys L' blk' held)
    (hcarried : Carried stay blk w.sys.heap.mem blk' w'.sys.heap.mem) (hstay : p ∈ stay)
    (hheld : p ∈ w'.pointers) : Intact p w₀ w' := by
  obtain ⟨g, hg⟩ := hw.inv.account.grant_of_held hi.held
  obtain ⟨hg', hbytes⟩ := hcarried p hstay g hg
  have hsize := hi.usable
  rw [hw.inv.account.inv.dispatchUsableSize_eq hg] at hsize
  refine ⟨hheld, by rw [hs.account.inv.dispatchUsableSize_eq hg', hsize], fun x hlo hhi => ?_⟩
  rw [hbytes x hlo (hsize ▸ hhi), hi.bytes x hlo hhi]

/-- What a program holds stays as it left it, whatever all threads do. -/
theorem held_block_intact (hw₀ : Reachable w₀) (hp : p ∈ w₀.pointers) (hmean : Meantime p w₀ w) :
    Intact p w₀ w := by
  induction hmean with
  | start => exact ⟨hp, rfl, fun _ _ _ => rfl⟩
  | @alloc w call size alignment ptr s' hmean hlegal hok ih =>
    obtain ⟨L, blk, hw⟩ := (hmean.reachable hw₀).worldInv
    have hserved : ∃ g, Served w.sys blk w.pointers g ptr s' := by
      rcases hok with hok | hok
      · exact ⟨_, ((dispatchAlloc_spec hw.inv hw.calm hlegal _).of_ok hok).served⟩
      · exact ⟨_, ((dispatchAllocAligned_spec hw.inv hw.calm hlegal _ _).of_ok hok).served⟩
    obtain ⟨g, ⟨L', blk', hs, -, hcarried, -⟩, -⟩ := hserved
    refine ih.carried hw hs hcarried ih.held ?_
    rw [pointers_answer, Account.heldAfter]
    split_ifs
    · exact ih.held
    · exact Or.inr ih.held
  | free hmean hlegal hptr hne hok ih =>
    obtain ⟨L, blk, hw⟩ := (hmean.reachable hw₀).worldInv
    obtain ⟨L', blk', hs, -, hcarried⟩ :=
      (dispatchFree_spec hw.inv hw.calm hlegal.owns hptr).of_ok hok
    refine ih.carried hw hs hcarried ⟨ih.held, hne.symm⟩ ?_
    rw [pointers_release]
    exact ⟨ih.held, hne.symm⟩
  | upkeep hmean hup ih =>
    obtain ⟨L, blk, hw⟩ := (hmean.reachable hw₀).worldInv
    obtain ⟨L', blk', hs, hcarried, -⟩ := hup.drained hw.inv hw.calm
    exact ih.carried hw hs hcarried ih.held ih.held
  | @write w m' hmean hm hsame ih =>
    obtain ⟨L, blk, hw⟩ := (hmean.reachable hw₀).worldInv
    have hcarried : Carried {p} blk w.sys.heap.mem blk m' := by
      rintro _ rfl g hg
      rw [← hw.inv.account.inv.dispatchUsableSize_eq hg]
      exact ⟨hg, hsame⟩
    exact ih.carried hw (hm.elim hw.write hw.elsewhere).inv hcarried rfl ih.held

theorem held_block_intact_first : ∃ s', dispatchAlloc firstCall (Sys.init emptyPool) 24 =
    .ok (67752, s') ∧ ∀ x, 67752 ≤ x → x < 67752 + dispatchUsableSize s'.heap 67752 →
      (dispatchBgTick s').heap.mem x = s'.heap.mem x := by
  obtain ⟨s', hok⟩ := answers_first
  exact ⟨s', hok, (held_block_intact ((Reachable.init emptyPool).alloc legal_firstCall hok)
    (by simp [World.pointers, World.answer]) (.upkeep .start .bgTick)).bytes⟩

/-! ### Calls return -/

/-- No call of a correct program runs forever, and only the debug checks can stop it: those on
reuse in an allocation, the red zone of a guarded block in its free. -/
theorem dispatcher_returns (hw : Reachable w) {call : Call} (hlegal : Legal call w.sys.heap) :
    (∀ size, Returns (call.uafActive = true) (dispatchAlloc call w.sys size)
      fun out => out.1 ∉ w.pointers) ∧
    (∀ size alignment, Returns (call.uafActive = true)
      (dispatchAllocAligned call w.sys size alignment) fun out => out.1 ∉ w.pointers) ∧
    (∀ p ∈ w.pointers, Returns
      (∃ block, w.sys.heap.headerAt (ptrToMeta p) = some (.large block) ∧ block.guardBytes ≠ 0)
      (dispatchFree call w.sys p) fun _ => True) ∧
    ∀ drain ∈ [dispatchDrainAll, dispatchDrainLocalL2, dispatchDrainMedium],
      ∃ out, drain call w.sys = .ok out := by
  obtain ⟨L, blk, hw⟩ := hw.worldInv
  have hdrain : ∀ {x : Except Stop (ℕ × Sys)} {post}, Returns False x post → ∃ out, x = .ok out :=
    fun hx => hx.elim (fun ⟨out, hok, _⟩ => ⟨out, hok⟩) fun hx => hx.1.elim
  refine ⟨fun size => ?_, fun size alignment => ?_, fun p hp => ?_, ?_⟩
  · exact (dispatchAlloc_spec hw.inv hw.calm hlegal size).mono fun _ hout => hw.fresh hout.served
  · exact (dispatchAllocAligned_spec hw.inv hw.calm hlegal size alignment).mono
      fun _ hout => hw.fresh hout.served
  · exact (dispatchFree_spec hw.inv hw.calm hlegal.owns hp).mono fun _ _ => trivial
  · simp only [List.forall_mem_cons]
    exact ⟨hdrain (dispatchDrainAll_spec hw.inv call hw.calm.lt),
      hdrain (dispatchDrainLocalL2_spec hw.inv call),
      hdrain (dispatchDrainMedium_spec hw.inv call), by simp⟩

/-- The first block of the program, and a second request. -/
theorem dispatcher_returns_first :
    (∃ s', dispatchFree laterCall firstState 67752 = .ok s') ∧
      ∃ ptr s', dispatchAlloc laterCall firstState 24 = .ok (ptr, s') ∧ ptr ≠ 67752 := by
  have hreach := (Reachable.init emptyPool).alloc legal_firstCall firstState_eq
  obtain ⟨halloc, -, hfree, -⟩ := dispatcher_returns hreach (legal_laterCall _)
  have hmem : 67752 ∈ (World.answer ⟨Sys.init emptyPool, fun _ => none⟩ firstState 67752 24).pointers := by
    simp [World.pointers, World.answer]
  constructor
  · rcases hfree 67752 hmem with ⟨s', hok, -⟩ | ⟨⟨block, hlarge, -⟩, -⟩
    · exact ⟨s', hok⟩
    · obtain ⟨page, hheader, -⟩ := first_header
      cases hheader.symm.trans hlarge
  · rcases halloc 24 with ⟨⟨ptr, s'⟩, hok, hnew⟩ | ⟨hcheck, -⟩
    · exact ⟨ptr, s', hok, fun heq => hnew (heq ▸ hmem)⟩
    · cases hcheck

/-! ### Nothing is lost -/

/-- No slot, buddy block or large region is in use. -/
structure AllFree (h : Heap) : Prop where
  slab : ∀ b page, h.heads b = some (.slab page) → page.usedCount = 0
  large : ∀ b block, h.heads b ≠ some (.large block)
  buddy : ∀ i, h.buddyPool.Used i → ∀ l j, ¬ (h.buddyPool.heap i).buddy.allocAt l j

theorem HeapInv.allFree_iff {h : Heap} (hh : HeapInv h blk) : AllFree h ↔ ∀ a, blk a = none := by
  constructor
  · intro hv a
    by_contra hsome
    obtain ⟨g, hg⟩ := Option.ne_none_iff_exists'.1 hsome
    cases hh.blockKind hg with
    | slab hhead hpage hs haddr =>
      have hcount := hpage.count_eq.symm.trans (hv.slab _ _ hhead)
      exact Finset.notMem_empty _ (Finset.card_eq_zero.1 hcount ▸ hs)
    | large hhead => exact hv.large _ _ hhead
    | buddy hhead hpool hlive hu hin =>
      obtain ⟨j, -, halloc⟩ := (hpool.arena _ hu).bits.block _ ⟨hlive, hin⟩
      exact hv.buddy _ hu _ _ halloc
  · intro hnone
    have hno : ∀ {a g}, blk a ≠ some g := fun heq => by simp [hnone] at heq
    refine ⟨fun b page hhead => ?_, fun b block hhead => ?_, fun i hu l j halloc => ?_⟩
    · obtain ⟨-, -, -, -, hb, -⟩ := hh.layout.header_page hhead
      obtain ⟨-, used, hpage, hiff⟩ := hh.headers _ _ hhead
      rw [hpage.count_eq, Finset.card_eq_zero, Finset.eq_empty_iff_forall_notMem]
      intro s hs
      have hslot := hpage.ptrToMeta_slotAt hb (hpage.used_lt s hs)
      exact hno ((hiff _ _ hslot).2 ⟨s, hs, rfl, rfl⟩)
    · obtain ⟨-, -, -, -, hb, -⟩ := hh.layout.header_page hhead
      obtain ⟨off, hoff, hiff⟩ := hh.headers _ _ hhead
      have hlt := hoff.off_lt
      exact hno ((hiff _ _ (ptrToMeta_eq hb (by omega) (by omega))).2 ⟨rfl, rfl⟩)
    · obtain ⟨live, hpool, hiff⟩ := hh.buddy
      obtain ⟨q, ⟨hq, hin⟩, -⟩ := (hpool.arena i hu).bits.owner l j halloc
      exact hno ((hiff q.1 _ (hh.layout.arena_no_header hu hin)).2 ⟨q.2, hq, rfl⟩)

/-- Memory is in use exactly as long as the program holds a block or a cache keeps one. -/
theorem heap_allFree_iff (hw : Reachable w) :
    AllFree w.sys.heap ↔ w.pointers = ∅ ∧ ∀ k, w.sys.top k = 0 := by
  obtain ⟨L, blk, hw⟩ := hw.worldInv
  have hledger := hw.inv.account.ledger
  rw [hw.inv.account.inv.allFree_iff]
  constructor
  · intro hnone
    refine ⟨Set.eq_empty_iff_forall_notMem.2 fun a ha =>
      (hledger.allocated a).2 (Or.inl ha) (hnone a), fun k => ?_⟩
    have hnil : L k = [] := List.eq_nil_iff_forall_not_mem.2 fun a ha =>
      (hledger.allocated a).2 (Or.inr ⟨k, ha⟩) (hnone a)
    exact (hledger.chain k).nil_iff.2 hnil
  · rintro ⟨hempty, hdry⟩ a
    by_contra hsome
    rcases (hledger.allocated a).1 hsome with ha | ⟨k, ha⟩
    · rw [hempty] at ha
      exact ha
    · rw [(hledger.chain k).nil_iff.1 (hdry k)] at ha
      exact List.not_mem_nil ha

theorem heap_allFree_iff_first : ∃ s', dispatchAlloc firstCall (Sys.init emptyPool) 24 =
    .ok (67752, s') ∧ ¬ AllFree s'.heap := by
  obtain ⟨s', hok⟩ := answers_first
  refine ⟨s', hok, fun hfree => ?_⟩
  have hnone := (heap_allFree_iff ((Reachable.init emptyPool).alloc legal_firstCall hok)).1 hfree
  simpa [World.pointers, World.answer] using Set.eq_empty_iff_forall_notMem.1 hnone.1 67752

/-! ### Clearing and resizing -/

section Calls

variable {w : ApiWorld} {a' : Api} {env envFree : Env} {ok : ApiWorld → ApiEvent → Prop}
variable {ptr nmemb size : ℕ}

/-- The block covers the request and is apart from all that the program had: from the blocks of
the dispatcher, and from the two buffers with all their pieces. -/
structure OwnBlock (w : ApiWorld) (a' : Api) (ptr size : ℕ) : Prop where
  covers : max size 1 ≤ dispatchUsableSize a'.sys.heap ptr
  apart : ∀ q, w.held q ≠ none → ptr + dispatchUsableSize a'.sys.heap ptr ≤ q ∨
    q + dispatchUsableSize a'.sys.heap q ≤ ptr
  outside : ∀ x, ptr ≤ x → x < ptr + dispatchUsableSize a'.sys.heap ptr → a'.inBuffers x = false

theorem Answers.ownBlock (hanswers : Answers w a' ptr size) (hne : ptr ≠ 0) :
    OwnBlock w a' ptr size := by
  obtain ⟨L, blk, hw⟩ := hanswers.inv
  rw [hanswers.world_eq, if_neg hne] at hw
  have hheld : update w.held ptr (some size) ptr = some size := update_self ..
  have hptr : ptr ∈ World.pointers ⟨a'.sys, update w.held ptr (some size)⟩ :=
    World.mem_pointers hheld
  obtain ⟨g, hg⟩ := hw.inv.inv.account.grant_of_held hptr
  have hsize := hw.inv.inv.account.inv.dispatchUsableSize_eq hg
  refine ⟨hsize ▸ hw.inv.covers _ _ _ hheld hg, fun q hq => ?_, fun x hlo hhi => ?_⟩
  · have hqp : ptr ≠ q := by
      rintro rfl
      exact hq (hanswers.fresh hne)
    exact hw.inv.apart hptr (by simpa [World.pointers, ApiWorld.world, hqp.symm] using hq) hqp
  · exact hw.apart x (hw.inv.inv.account.inv.taken_byte hg hlo (hsize ▸ hhi))

/-- A product that does not fit a word is refused. Every other block has all its bytes cleared. -/
theorem calloc_cleared (hrun : ApiRun ok w) (hready : w.api.dispatchReady = true)
    (hlegal : env.Legal w.api (nmemb * size))
    (hok : v8mCalloc env w.api nmemb size = .ok (ptr, a')) :
    (2 ^ 64 ≤ nmemb * size → ptr = 0 ∧ a' = w.api) ∧
    (ptr ≠ 0 → OwnBlock w a' ptr (nmemb * size) ∧
      ∀ i < nmemb * size, a'.sys.heap.mem (ptr + i) = 0) := by
  obtain ⟨L, blk, hw⟩ := hrun.apiInv
  have hanswers := answers_v8mCalloc hw hready hlegal hok
  unfold v8mCalloc at hok
  refine ⟨fun hbig => ?_, fun hne => ⟨hanswers.ownBlock hne, fun i hi => ?_⟩⟩
  · rw [if_pos hbig] at hok
    cases hok
    exact ⟨rfl, rfl⟩
  · split_ifs at hok with hbig
    · cases hok
      exact absurd rfl hne
    · rw [bind_ok_iff] at hok
      obtain ⟨out, -, hok⟩ := hok
      split_ifs at hok with hfill
      · cases hok
        exact if_pos ⟨by omega, by omega⟩
      · cases hok
        exact absurd ⟨hne, by omega⟩ hfill

theorem later_run : ApiRun (fun _ _ => True) firstWorld :=
  firstWorld_run (readyWorld_run trivial) trivial

theorem later_legal (size : ℕ) : (slowEnv laterCall).Legal firstWorld.api size :=
  ⟨legal_laterCall _, fun x hx => absurd hx (not_offers_laterCall x)⟩

theorem calloc_cleared_later : ∃ a', v8mCalloc (slowEnv laterCall) firstWorld.api 3 8 =
    .ok (67728, a') ∧ ∀ i < 24, a'.sys.heap.mem (67728 + i) = 0 := by
  refine (answer_of_map (by decide +kernel)).imp fun a' hok => ⟨hok, ?_⟩
  exact ((calloc_cleared later_run rfl (later_legal _) hok).2 (by norm_num)).2

/-- The block that could not be resized is as it was. -/
theorem failed_realloc_intact (hrun : ApiRun ok w) (hheld : w.held ptr ≠ none)
    (hsize : size ≠ 0) (hlegal : env.Legal w.api size)
    (hok : v8mRealloc env envFree w.api ptr size = .ok (0, a')) :
    Intact ptr w.world ⟨a'.sys, w.held⟩ := by
  obtain ⟨L, blk, hw⟩ := hrun.apiInv
  have hptr : ptr ≠ 0 := hw.inv.inv.account.ne_zero hheld
  rw [v8mRealloc, if_neg hptr, if_neg hsize] at hok
  split_ifs at hok
  · cases hok
    exact absurd rfl hptr
  · obtain ⟨out, hmalloc, hok⟩ := bind_ok_iff.1 hok
    split_ifs at hok with hzero
    · cases hok
      cases doMallocPc_given hw.inv.inv hw.inv.calm hlegal hmalloc with
      | block hanswer _ _ _ heq =>
        obtain ⟨⟨L', blk', hs, -, hcarried, -⟩, -⟩ := hanswer.served
        rw [heq, postAllocRecord_null]
        have hi : Intact ptr w.world w.world := ⟨hheld, rfl, fun _ _ _ => rfl⟩
        exact hi.carried hw.inv hs hcarried hheld hheld
      | piece _ hok => exact absurd rfl (bootstrapAlloc_piece hw.buffers hok).2.2.2.1
    · obtain ⟨a₁, -, hok⟩ := bind_ok_iff.1 hok
      exact absurd (Prod.mk.inj (Except.ok.inj hok)).1 hzero

theorem failed_realloc_intact_later : ∃ a', v8mRealloc (slowEnv laterCall) (slowEnv laterCall)
    firstWorld.api 67752 5000 = .ok (0, a') ∧
      Intact 67752 firstWorld.world ⟨a'.sys, firstWorld.held⟩ := by
  refine (answer_of_map (by decide +kernel)).imp fun a' hok => ⟨hok, ?_⟩
  exact failed_realloc_intact later_run (by simp [firstWorld]) (by norm_num) (later_legal _) hok

end Calls

end V8Malloc
