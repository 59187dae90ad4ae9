import V8Malloc.Dispatch.Runs

/-!
# Where a free goes

A script is a list of calls; a free names the call whose answer it frees. Runs
of one script differ in what the program writes into its blocks. While no
write leaves the page magic at a page base, a free goes to the backend that the
call alone determines. A buddy block that starts a page has no header of its
own, so the magic word in its first bytes is taken for one.
-/
namespace V8Malloc

open ByteMemory LinkedList StackLedger

inductive Event where
  | alloc (call : Call) (size : ℕ)
  | allocAligned (call : Call) (size alignment : ℕ)
  | free (call : Call) (index : ℕ)

/-- The block a call is given, if it is given one. -/
def Event.grant : Event → Option Grant
  | .alloc call size => some (requestGrant call (max size 1))
  | .allocAligned call size alignment => some (alignedGrant call (max size 1) alignment)
  | .free _ _ => none

/-- Runs of a script; the pointers held carry the number of the call that answered them. -/
inductive Plays (allow : World → Mem → Prop) : List Event → World → Prop
  | init (p : BuddyPool) : Plays allow [] ⟨Sys.init p, fun _ => none⟩
  | alloc {es : List Event} {w : World} {call : Call} {size ptr : ℕ} {s' : Sys} :
      Plays allow es w → Legal call w.sys.heap → dispatchAlloc call w.sys size = .ok (ptr, s') →
      Plays allow (es ++ [.alloc call size]) (w.answer s' ptr es.length)
  | allocAligned {es : List Event} {w : World} {call : Call} {size alignment ptr : ℕ} {s' : Sys} :
      Plays allow es w → Legal call w.sys.heap →
      dispatchAllocAligned call w.sys size alignment = .ok (ptr, s') →
      Plays allow (es ++ [.allocAligned call size alignment]) (w.answer s' ptr es.length)
  | free {es : List Event} {w : World} {call : Call} {ptr index : ℕ} {s' : Sys} :
      Plays allow es w → Legal call w.sys.heap → w.held ptr = some index →
      dispatchFree call w.sys ptr = .ok s' →
      Plays allow (es ++ [.free call index]) (w.release s' ptr)
  | write {es : List Event} {w : World} {m' : Mem} : Plays allow es w → allow w m' →
      Plays allow es ⟨w.sys.setMem m', w.held⟩
  | elsewhere {es : List Event} {w : World} {m' : Mem} : Plays allow es w →
      (∀ x, w.sys.heap.Taken x → m' x = w.sys.heap.mem x) → Plays allow es ⟨w.sys.setMem m', w.held⟩

/-- The program writes any bytes inside blocks it holds. -/
def World.WritesInside (w : World) (m' : Mem) : Prop :=
  ∀ x, m' x ≠ w.sys.heap.mem x →
    ∃ p ∈ w.pointers, p ≤ x ∧ x < p + dispatchUsableSize w.sys.heap p

/-- The backend a free goes to. -/
def Route.backend : Route → Option Backend
  | .none => Option.none
  | .foreign => Option.none
  | .slab page => some (.slab page.sizeClass page.arenaId)
  | .large => some .large
  | .buddy => some .buddy

variable {w w₁ w₂ : World} {L : Stack → List ℕ} {blk : Blocks} {call : Call} {es : List Event}
variable {p p₁ p₂ k n : ℕ} {h : Heap} {g : Grant} {fits : ℕ → Grant → Prop}

/-! ### Routes by the account -/

theorem HeapInv.freeRoute_backend (hh : HeapInv h blk) (hg : blk p = some g)
    (howns : call.owns p = true) : (freeRoute call h p).backend = some g.backend := by
  obtain ⟨n, backend⟩ := g
  unfold freeRoute
  rw [if_neg (hh.block_bounds hg).1, howns]
  cases backend with
  | slab cls arena =>
    obtain ⟨page, hheader, rfl, rfl, -⟩ := hh.headerAt_slab hg
    simp [hheader, Route.backend]
  | buddy => simp [hh.headerAt_buddy hg, Route.backend]
  | large =>
    obtain ⟨block, hheader⟩ := hh.headerAt_large hg
    simp [hheader, Route.backend]

/-- The grant is the one the numbered call determines. -/
def GrantedBy (es : List Event) (index : ℕ) (g : Grant) : Prop :=
  (es[index]?).bind Event.grant = some g

theorem GrantedBy.append {index : ℕ} (hby : GrantedBy es index g) (e : Event) :
    GrantedBy (es ++ [e]) index g := by
  unfold GrantedBy at *
  obtain ⟨event, hevent, -⟩ := Option.bind_eq_some_iff.1 hby
  have hlt := (List.getElem?_eq_some_iff.1 hevent).1
  rwa [List.getElem?_append_left hlt]

theorem grantedBy_last {e : Event} (hgrant : e.grant = some g) :
    GrantedBy (es ++ [e]) es.length g := by
  simp [GrantedBy, hgrant]

theorem Plays.worldInv (hplays : Plays World.Writes es w) :
    ∃ L blk, WorldInv (GrantedBy es) w L blk := by
  induction hplays with
  | init p => exact ⟨_, _, worldInv_init _ p⟩
  | alloc _ hlegal hok ih =>
    obtain ⟨L, blk, hinv⟩ := ih
    have hout := (dispatchAlloc_spec hinv.inv hinv.calm hlegal _).of_ok hok
    exact (hinv.mono fun _ _ hby => hby.append _).answer hout.served fun _ => grantedBy_last rfl
  | allocAligned _ hlegal hok ih =>
    obtain ⟨L, blk, hinv⟩ := ih
    have hout := (dispatchAllocAligned_spec hinv.inv hinv.calm hlegal _ _).of_ok hok
    exact (hinv.mono fun _ _ hby => hby.append _).answer hout.served fun _ => grantedBy_last rfl
  | free _ hlegal hheld hok ih =>
    obtain ⟨L, blk, hinv⟩ := ih
    have hfreed := (dispatchFree_spec hinv.inv hinv.calm hlegal.owns
      (World.mem_pointers hheld)).of_ok hok
    exact (hinv.mono fun _ _ hby => hby.append _).release hfreed
  | write _ hm ih =>
    obtain ⟨L, blk, hinv⟩ := ih
    exact ⟨L, blk, hinv.write hm⟩
  | elsewhere _ hm ih =>
    obtain ⟨L, blk, hinv⟩ := ih
    exact ⟨L, blk, hinv.elsewhere hm⟩

theorem Plays.routed (hplays : Plays World.Writes es w) (hheld : w.held p = some k)
    (hlegal : Legal call w.sys.heap) :
    ∃ g, GrantedBy es k g ∧ (freeRoute call w.sys.heap p).backend = some g.backend ∧
      dispatchUsableSize w.sys.heap p = g.bytes := by
  obtain ⟨L, blk, hinv⟩ := hplays.worldInv
  have hheap := hinv.inv.account.inv
  obtain ⟨g, hg⟩ := hinv.inv.account.grant_of_held (World.mem_pointers hheld)
  exact ⟨g, hinv.covers p k g hheld hg,
    hheap.freeRoute_backend hg (hlegal.owns _ (hheap.taken hg)), hheap.dispatchUsableSize_eq hg⟩

/-- In any two runs of one script that never leave the magic word at a page base, what one call
answered is freed to the same backend, the one that issued it, and has the same usable size. -/
theorem free_routing_by_call (h₁ : Plays World.Writes es w₁) (h₂ : Plays World.Writes es w₂)
    (hheld₁ : w₁.held p₁ = some k) (hheld₂ : w₂.held p₂ = some k)
    (hlegal₁ : Legal call w₁.sys.heap) (hlegal₂ : Legal call w₂.sys.heap) :
    ∃ g, GrantedBy es k g ∧
      (freeRoute call w₁.sys.heap p₁).backend = some g.backend ∧
      (freeRoute call w₂.sys.heap p₂).backend = some g.backend ∧
      dispatchUsableSize w₁.sys.heap p₁ = g.bytes ∧
      dispatchUsableSize w₂.sys.heap p₂ = g.bytes := by
  obtain ⟨g, hby, hroute, husable⟩ := h₁.routed hheld₁ hlegal₁
  obtain ⟨g', hby', hroute', husable'⟩ := h₂.routed hheld₂ hlegal₂
  have heq : g' = g := Option.some_injective _ (hby'.symm.trans hby)
  rw [heq] at hroute' husable'
  exact ⟨g, hby, hroute, hroute', husable, husable'⟩

/-! ### A forged header -/

/-- The magic word at the start of a buddy block that starts a page diverts its free. -/
theorem HeapInv.forged_route (hh : HeapInv h blk) (hg : blk p = some ⟨n, .buddy⟩)
    (hpage : pageSize ∣ p) (howns : call.owns p = true) :
    (freeRoute call { h with mem := store64 h.mem p pageMagic } p).backend ≠ some .buddy := by
  obtain ⟨live, hpart⟩ := hh.buddy
  obtain ⟨hhead, -⟩ := hh.buddy_live hpart hg
  have hbase : ptrToMeta p = p := ptrToMeta_eq hpage le_rfl (Nat.lt_add_of_pos_right (by decide))
  have hmagic : load64 (store64 h.mem p pageMagic) p = pageMagic :=
    load64_store64_self (by decide)
  have hne := (hh.block_bounds hg).1
  rw [hbase] at hhead
  simp only [freeRoute, howns, hbase, Heap.headerAt, hhead, hmagic, hne, ne_eq,
    not_false_eq_true, and_self, if_true, Bool.not_true, Bool.false_eq_true, if_false]
  split_ifs <;> simp [Route.backend]

/-- The first call, with an arena to be had. -/
def arenaCall : Call := { firstCall with arena := buddyMaxBlock }

theorem legal_arenaCall : Legal arenaCall (Sys.init emptyPool).heap where
  pages := legal_firstCall.pages
  arena := fun _ => ⟨⟨by decide, by decide, by decide, by decide, by decide,
    fun x _ _ => not_taken_init _ x⟩, by decide, fun _ _ => rfl⟩
  regions := legal_firstCall.regions
  owns := fun _ _ => rfl

theorem answers_arena :
    ∃ s', dispatchAlloc arenaCall (Sys.init emptyPool) buddyMaxBlock = .ok (buddyMaxBlock, s') :=
  answer_of_map (by decide +kernel)

/-- A call that the page heap gives nothing. -/
def quietCall : Call := { firstCall with pages := [] }

theorem legal_quietCall (h : Heap) : Legal quietCall h where
  pages := ⟨fun _ hp => absurd hp List.not_mem_nil, List.nodup_nil⟩
  arena := fun hne => absurd rfl hne
  regions := fun _ hne => absurd rfl hne
  owns := fun _ _ => rfl

/-- A whole arena is handed out as one buddy block. -/
theorem arena_block : ∃ s' blk, Plays World.Writes [.alloc arenaCall buddyMaxBlock]
      (World.answer ⟨Sys.init emptyPool, fun _ => none⟩ s' buddyMaxBlock 0) ∧
    dispatchAlloc arenaCall (Sys.init emptyPool) buddyMaxBlock = .ok (buddyMaxBlock, s') ∧
    HeapInv s'.heap blk ∧ blk buddyMaxBlock = some ⟨buddyMaxBlock, .buddy⟩ := by
  obtain ⟨s', hok⟩ := answers_arena
  have hplays : Plays World.Writes [.alloc arenaCall buddyMaxBlock]
      (World.answer ⟨Sys.init emptyPool, fun _ => none⟩ s' buddyMaxBlock 0) :=
    .alloc (.init emptyPool) legal_arenaCall hok
  obtain ⟨L, blk, hinv⟩ := hplays.worldInv
  have hheld : (World.answer ⟨Sys.init emptyPool, fun _ => none⟩ s' buddyMaxBlock 0).held
      buddyMaxBlock = some 0 := rfl
  obtain ⟨g, hg⟩ := hinv.inv.account.grant_of_held (World.mem_pointers hheld)
  have hby := hinv.covers _ _ _ hheld hg
  cases hby
  exact ⟨s', blk, hplays, hok, hinv.inv.account.inv, hg⟩

theorem free_routing_by_call_arena : ∃ w g, Plays World.Writes [.alloc arenaCall buddyMaxBlock] w ∧
    w.held buddyMaxBlock = some 0 ∧ Legal quietCall w.sys.heap ∧
    GrantedBy [.alloc arenaCall buddyMaxBlock] 0 g ∧
    (freeRoute quietCall w.sys.heap buddyMaxBlock).backend = some g.backend := by
  obtain ⟨s', -, hplays, -⟩ := arena_block
  have hheld : (World.answer ⟨Sys.init emptyPool, fun _ => none⟩ s' buddyMaxBlock 0).held
      buddyMaxBlock = some 0 := rfl
  obtain ⟨g, hby, hroute, -⟩ := free_routing_by_call hplays hplays hheld hheld (legal_quietCall _)
    (legal_quietCall _)
  exact ⟨_, g, hplays, rfl, legal_quietCall _, hby, hroute⟩

/-- Two runs of one call: the second writes the magic word at the start of the block. -/
theorem free_routing_forged : ∃ es w₁ w₂ p, Plays World.WritesInside es w₁ ∧
    Plays World.WritesInside es w₂ ∧ w₁.held p = some 0 ∧ w₂.held p = some 0 ∧
    Legal quietCall w₁.sys.heap ∧ Legal quietCall w₂.sys.heap ∧
    (freeRoute quietCall w₁.sys.heap p).backend = some .buddy ∧
    (freeRoute quietCall w₂.sys.heap p).backend ≠ some .buddy := by
  obtain ⟨s', blk, -, hok, hheap, hg⟩ := arena_block
  have hplays : Plays World.WritesInside [.alloc arenaCall buddyMaxBlock]
      (World.answer ⟨Sys.init emptyPool, fun _ => none⟩ s' buddyMaxBlock 0) :=
    .alloc (.init emptyPool) legal_arenaCall hok
  have hinside : World.WritesInside
      (World.answer ⟨Sys.init emptyPool, fun _ => none⟩ s' buddyMaxBlock 0)
      (store64 s'.heap.mem buddyMaxBlock pageMagic) := by
    intro x hne
    refine ⟨buddyMaxBlock, World.mem_pointers (show _ = some 0 from rfl), ?_⟩
    have husable : dispatchUsableSize s'.heap buddyMaxBlock = buddyMaxBlock :=
      hheap.dispatchUsableSize_eq hg
    change buddyMaxBlock ≤ x ∧ x < buddyMaxBlock + dispatchUsableSize s'.heap buddyMaxBlock
    rw [husable]
    by_contra hout
    refine hne (sameOutside_store64 _ _ _ x ?_)
    unfold buddyMaxBlock at *
    omega
  exact ⟨_, _, _, buddyMaxBlock, hplays, hplays.write hinside, rfl, rfl, legal_quietCall _,
    legal_quietCall _, hheap.freeRoute_backend hg rfl, hheap.forged_route hg (by decide) rfl⟩

end V8Malloc
