import V8Malloc.Api.Books

/-!
# Runs of the library with its thread caches

Every call keeps the dispatcher sound and the caches in step with the
registry; the structs of the caches are blocks in use, and a thread without a
cache has nothing in its bins.
-/
namespace V8Malloc

open ByteMemory
open Function (update update_of_ne update_self)

/-! ### The state of the library -/

/-- The pointer is a block in use of the buddy pool: its page has no header. -/
def ApiWorld.HoldsBuddy (w : ApiWorld) (p : ℕ) : Prop :=
  w.held p ≠ none ∧ w.api.sys.heap.heads (ptrToMeta p) = none

/-- The dispatcher is sound and in service, the caches agree with the registry, their structs
are blocks in use, and a thread without a cache has nothing cached. Only a thread that is gone
has been through its destructor. -/
structure BookInv (b : Books) : Prop where
  api : ∃ L blk, ApiInv b.world L blk
  ready : b.api.dispatchReady = true
  dropped : b.world.dropped = ∅
  caches : CacheInv b.caches
  structs : ∀ p ∈ b.caches.structs, b.world.HoldsBuddy p
  bare : ∀ t, b.slot t = 0 → b.api.sys.caches t = .fresh
  running : ∀ t, t ∉ b.threads.exited → (b.caches.tls t).inDestructor = false

variable {b b₁ b' : Books} {t u ptr size fresh : ℕ} {env : Env} {a' : Api}
variable {counted asks : Bool}

theorem HeapInv.heads_none_iff {h : Heap} {blk : Blocks} {g : Grant} (hh : HeapInv h blk)
    (hg : blk ptr = some g) : h.heads (ptrToMeta ptr) = none ↔ g.backend = .buddy := by
  cases hh.blockKind hg with
  | slab hhead => simp [hhead, PageMeta.grant]
  | large hhead => simp [hhead, LargeMeta.grant]
  | buddy hhead => simp [hhead]

/-- A block that stays allocated stays with its part of the library. -/
theorem SysInv.heads_none {s s' : Sys} {L L' : Stack → List ℕ} {blk blk' : Blocks}
    {held held' stay : Set ℕ} (hs : SysInv s L blk held) (hs' : SysInv s' L' blk' held')
    (hcarried : Carried stay blk s.heap.mem blk' s'.heap.mem) (hheld : ptr ∈ held)
    (hstay : ptr ∈ stay) (hnone : s.heap.heads (ptrToMeta ptr) = none) :
    s'.heap.heads (ptrToMeta ptr) = none := by
  obtain ⟨g, hg⟩ := hs.account.grant_of_held hheld
  have hg' := (hcarried ptr hstay g hg).1
  exact (hs'.account.inv.heads_none_iff hg').2 ((hs.account.inv.heads_none_iff hg).1 hnone)

/-- An allocation of the library in service. -/
structure Answers (w : ApiWorld) (a' : Api) (ptr size : ℕ) : Prop where
  inv : ∃ L blk, ApiInv (w.answer a' ptr size) L blk
  buddy : ∀ p, w.HoldsBuddy p → a'.sys.heap.heads (ptrToMeta p) = none
  fresh : ptr ≠ 0 → w.held ptr = none
  ready : a'.initState = w.api.initState
  block : ptr ≠ 0 → a'.inBuffers ptr = false

theorem Answers.world_eq {w : ApiWorld} (h : Answers w a' ptr size) :
    w.answer a' ptr size = { w with
      api := a'
      held := if ptr = 0 then w.held else update w.held ptr (some size) } := by
  unfold ApiWorld.answer
  by_cases hzero : ptr = 0
  · simp [hzero, ApiWorld.setApi]
  · simp [hzero, h.block hzero]

theorem Given.answers {w : ApiWorld} {L : Stack → List ℕ} {blk : Blocks} (hw : ApiInv w L blk)
    (hready : w.api.dispatchReady = true)
    (hgiven : Given env w.api blk w.world.pointers size ptr a')
    (hout : ∀ x, env.call.Offers x → w.api.inBuffers x = false) : Answers w a' ptr size := by
  have hinv := (hw.answer hgiven hout).1
  have hapart := hgiven.apart hout hw.buffers hw.apart
  cases hgiven with
  | @block s' g hanswer hfoot hissued hown heq =>
    obtain ⟨ring, hring⟩ := postAllocRecord_eq (w.api.setSys s') ptr
    rw [hring] at heq
    subst heq
    refine ⟨hinv, fun p hp => ?_, fun hne => ?_, rfl, fun hne => ?_⟩
    · obtain ⟨L', blk', hs', -, hcarried, -⟩ := hanswer.served.inv
      exact hw.inv.inv.heads_none hs' hcarried hp.1 hp.1 hp.2
    · by_contra hheld
      exact hanswer.served.fresh hne hheld
    · exact hapart.served hanswer.served rfl hne
  | piece hnot hok =>
    rw [hready] at hnot
    cases hnot

theorem answers_v8mCalloc {w : ApiWorld} {L : Stack → List ℕ} {blk : Blocks} {nmemb : ℕ}
    (hw : ApiInv w L blk) (hready : w.api.dispatchReady = true)
    (hlegal : env.Legal w.api (nmemb * size))
    (hok : v8mCalloc env w.api nmemb size = .ok (ptr, a')) :
    Answers w a' ptr (nmemb * size) := by
  have hinv := hw.calloc hlegal hok
  have hs := hw.inv.inv
  have hc := hw.inv.calm
  rcases v8mCalloc_cases hok with ⟨rfl, rfl⟩ | ⟨a₁, hmalloc, rfl | ⟨hne, rfl⟩⟩
  · exact (given_null env hs hc _).answers hw hready hlegal.outside
  · exact (doMallocPc_given hs hc hlegal hmalloc).answers hw hready hlegal.outside
  · have hanswer := (doMallocPc_given hs hc hlegal hmalloc).answers hw hready hlegal.outside
    exact ⟨hinv, hanswer.buddy, hanswer.fresh, hanswer.ready, hanswer.block⟩

/-- Threads without a cache keep their empty bins. -/
def Spares (b : Books) (a' : Api) : Prop :=
  ∀ u, b.slot u = 0 → a'.sys.caches u = b.api.sys.caches u

theorem Env.By.spares (hby : env.By t b b₁) (hown : OwnCache env b₁.api.sys a'.sys)
    (hsame : b.slot t ≠ 0 → b₁.slot t ≠ 0) : Spares b₁ a' := by
  intro u hu
  by_cases hut : u = t
  · subst hut
    have hpeek : env.peek = false := by
      rw [hby.peek, decide_eq_false_iff_not, not_not]
      by_contra hne
      exact hsame hne hu
    have hnone : env.call.cacheReady = false := by
      rw [hby.ready, decide_eq_false_iff_not, not_not]
      exact hu
    rw [hown.2 hpeek hnone]
  · exact hown.1.other (by rwa [hby.thread])

theorem slot_recordAlloc (c : Caches) (t u : ℕ) : ((c.recordAlloc t).tls u) = c.tls u := by
  unfold Caches.recordAlloc
  dsimp only
  split_ifs <;> rfl

theorem CacheInv.recordAlloc {c : Caches} (hc : CacheInv c) (t : ℕ) :
    CacheInv (c.recordAlloc t) := by
  unfold Caches.recordAlloc
  dsimp only
  split_ifs
  · exact hc.congr (fun _ => rfl) (fun _ => rfl) rfl hc.live
  · exact hc.congr (fun _ => rfl) (fun _ => rfl) rfl hc.live

theorem CacheInv.recordFreeCache {c : Caches} (hc : CacheInv c) (p : ℕ) :
    CacheInv (c.recordFreeCache p) := by
  unfold Caches.recordFreeCache
  split_ifs
  · exact hc.congr (fun _ => rfl) (fun _ => rfl) rfl hc.live
  · exact hc.congr (fun _ => rfl) (fun _ => rfl) rfl hc.live

theorem tls_recordFreeCache (c : Caches) (p u : ℕ) : (c.recordFreeCache p).tls u = c.tls u := by
  unfold Caches.recordFreeCache
  split_ifs <;> rfl

theorem structs_recordAlloc (c : Caches) (t : ℕ) : (c.recordAlloc t).structs = c.structs := by
  unfold Caches.recordAlloc
  dsimp only
  split_ifs <;> rfl

theorem structs_recordFreeCache (c : Caches) (p : ℕ) :
    (c.recordFreeCache p).structs = c.structs := by
  unfold Caches.recordFreeCache
  split_ifs <;> rfl

theorem Answers.held_of_held {w : ApiWorld} (h : Answers w a' ptr size) {p : ℕ}
    (hp : w.held p ≠ none) : (w.answer a' ptr size).held p ≠ none := by
  rw [h.world_eq]
  dsimp only
  split_ifs with hzero
  · exact hp
  · by_cases hpp : p = ptr
    · simp [hpp]
    · rwa [update_of_ne hpp]

theorem Answers.holdsBuddy {w : ApiWorld} (h : Answers w a' ptr size) {p : ℕ}
    (hp : w.HoldsBuddy p) : (w.answer a' ptr size).HoldsBuddy p :=
  ⟨h.held_of_held hp.1, by rw [api_answer]; exact h.buddy p hp⟩

theorem Answers.api {w : ApiWorld} (h : Answers w a' ptr size) :
    (w.answer a' ptr size).dropped = w.dropped ∧
      (w.api.dispatchReady = true → (w.answer a' ptr size).api.dispatchReady = true) := by
  rw [h.world_eq]
  exact ⟨rfl, fun hready => by simpa [Api.dispatchReady, h.ready] using hready⟩

/-- The books after an allocation, whether it was counted or not. -/
theorem BookInv.give (hb : BookInv b) (hanswer : Answers b.world a' ptr size)
    (hspares : Spares b a') (t : ℕ) (counted : Bool) :
    BookInv (b.give t counted a' ptr size) := by
  have hbare : ∀ u, b.slot u = 0 → (b.world.answer a' ptr size).api.sys.caches u = .fresh := by
    intro u hu
    rw [api_answer, hspares u hu]
    exact hb.bare u hu
  have hstructs : ∀ p ∈ b.caches.structs, (b.world.answer a' ptr size).HoldsBuddy p :=
    fun p hp => hanswer.holdsBuddy (hb.structs p hp)
  unfold Books.give
  by_cases hcount : counted = true ∧ ptr ≠ 0
  · rw [if_pos hcount]
    refine ⟨hanswer.inv, hanswer.api.2 hb.ready, hanswer.api.1.trans hb.dropped,
      hb.caches.recordAlloc t, ?_, ?_, ?_⟩
    · intro p hp
      exact hstructs p (by simpa [Books.caches, Threads.setCaches, structs_recordAlloc] using hp)
    · intro u hu
      exact hbare u (by simpa [Books.slot, Books.caches, Threads.setCaches, slot_recordAlloc] using hu)
    · intro u hu
      simpa [Books.caches, Threads.setCaches, slot_recordAlloc] using hb.running u hu
  · rw [if_neg hcount]
    exact ⟨hanswer.inv, hanswer.api.2 hb.ready, hanswer.api.1.trans hb.dropped, hb.caches,
      hstructs, hbare, hb.running⟩

/-! ### The cache of the caller -/

/-- A call that passes the gate asks the dispatcher. -/
theorem gatedAlloc_asked {a : Api} {L : Stack → List ℕ} {blk : Blocks} {held : Set ℕ}
    {ask : Call → Sys → Except Stop (ℕ × Sys)} (hs : SysInv a.sys L blk held) (hc : Calm L)
    (hlegal : env.Legal a size) (hok : gatedAlloc env a size ask = .ok (ptr, a')) (hne : ptr ≠ 0) :
    ∃ s₁ L₁ blk₁, SysInv s₁ L₁ blk₁ held ∧ Calm L₁ ∧ V8Malloc.Legal (a.call env) s₁.heap ∧
      ask (a.call env) s₁ = .ok (ptr, a'.sys) := by
  obtain ⟨s₁, hgate, ⟨L₁, blk₁, hs₁, -, hle⟩, -⟩ := overSoftLimit_drained env hs size
  have hanswers := hlegal.answers
  unfold gatedAlloc at hok
  dsimp only at hok
  rw [hgate] at hanswers hok
  split_ifs at hok
  · exact absurd (Prod.mk.inj (Except.ok.inj hok)).1.symm hne
  · rw [bind_ok_iff] at hok
    obtain ⟨out, hout, hok⟩ := hok
    obtain ⟨rfl, rfl⟩ := Prod.mk.inj (Except.ok.inj hok)
    refine ⟨s₁, L₁, blk₁, hs₁, hc.mono hle,
      ⟨hanswers.pages, hanswers.arena, hanswers.regions, hanswers.owns⟩, ?_⟩
    rw [if_neg hne, postAllocRecord_sys]
    exact hout

/-- The struct of a cache is too big for the slabs. -/
theorem heads_struct {a : Api} {L : Stack → List ℕ} {blk : Blocks} {held : Set ℕ}
    (hs : SysInv a.sys L blk held) (hc : Calm L) (hready : a.dispatchReady = true)
    (hlegal : env.Legal a cacheStructSize)
    (hok : v8mAlignedAlloc env a 64 cacheStructSize = .ok (ptr, a')) (hne : ptr ≠ 0) :
    a'.sys.heap.heads (ptrToMeta ptr) = none := by
  rw [v8mAlignedAlloc, if_neg (by decide), if_neg (by simp [hready])] at hok
  obtain ⟨s₁, L₁, blk₁, hs₁, hc₁, hlegal₁, hask⟩ := gatedAlloc_asked hs hc hlegal hok hne
  obtain ⟨blk', hinv, hgrant⟩ :=
    ((dispatchAllocAligned_spec hs₁ hc₁ hlegal₁ cacheStructSize 64).of_ok hask).served.grant_inv hne
  have hgrantEq : alignedGrant (a.call env) (max cacheStructSize 1) 64 = ⟨blockSize 4864, .buddy⟩ := rfl
  exact (hinv.heads_none_iff hgrant).2 (by rw [hgrantEq])

/-- What `get_or_create` does to the slots. -/
theorem Opens.slots (hopens : Opens t asks b fresh b₁)
    (hidle : (b.caches.tls t).inCreate = false) :
    (b₁.caches = b.caches ∧ (asks = false ∨ b.slot t ≠ 0 ∨ (b.caches.tls t).inDestructor = true ∨
        fresh = 0)) ∨
      b₁.caches = b.caches.created t fresh ∧ asks = true ∧ b.slot t = 0 ∧ fresh ≠ 0 := by
  cases hopens with
  | skip hskip =>
    refine Or.inl ⟨rfl, ?_⟩
    by_cases hasks : asks = true
    · by_cases hslot : b.slot t = 0
      · exact Or.inr (Or.inr (Or.inl (hskip hasks hslot)))
      · exact Or.inr (Or.inl hslot)
    · exact Or.inl (by simpa using hasks)
  | create hasks hslot hdead _ _ _ _ _ =>
    rcases b.caches.getOrCreate_cases t fresh hidle with ⟨heq, hsame⟩ | ⟨heq, -, -, hne⟩
    · exact Or.inl ⟨heq, Or.inr hsame⟩
    · exact Or.inr ⟨heq, hasks, hslot, hne⟩

theorem Opens.slot_ne (hopens : Opens t asks b fresh b₁)
    (hidle : (b.caches.tls t).inCreate = false) (hslot : b.slot t ≠ 0) : b₁.slot t ≠ 0 := by
  rcases hopens.slots hidle with ⟨heq, -⟩ | ⟨-, -, hzero, -⟩
  · simpa [Books.slot, heq] using hslot
  · exact absurd hzero hslot

theorem slot_created (hcaches : (b.opened t a' fresh).caches = b.caches.created t fresh) (u : ℕ) :
    (b.opened t a' fresh).slot u = if u = t then fresh else b.slot u := by
  rw [Books.slot, hcaches]
  by_cases hut : u = t
  · simp [Caches.created, hut]
  · simp [Caches.created, hut, Books.slot]

/-- The struct of a new cache is a block of its own, and no other block becomes one. -/
theorem BookInv.opens (hb : BookInv b) (hopens : Opens t asks b fresh b₁) :
    BookInv b₁ ∧ ∀ p, b.world.held p ≠ none →
      b₁.world.held p ≠ none ∧ ((∀ u, b.slot u ≠ p) → ∀ u, b₁.slot u ≠ p) := by
  cases hopens with
  | skip => exact ⟨hb, fun p hp => ⟨hp, id⟩⟩
  | @create env a' hasks hslot hdead hthread hpeek hnone hlegal hok =>
    obtain ⟨L, blk, hw⟩ := hb.api
    have hgiven := v8mAlignedAlloc_given hw.inv.inv hw.inv.calm hlegal hok
    have hanswer := hgiven.answers hw hb.ready hlegal.outside
    have hkept : a'.sys.caches = b.api.sys.caches :=
      hgiven.ownCache.2 hpeek hnone
    have hheld_ne : ∀ p, b.world.held p ≠ none → p ≠ fresh := by
      rintro p hp rfl
      exact hp (hanswer.fresh (hw.inv.inv.account.ne_zero hp))
    have hnew : fresh ∉ b.caches.structs := fun hmem =>
      hheld_ne fresh (hb.structs fresh hmem).1 rfl
    have hbare : ∀ u, b.slot u = 0 →
        (b.world.answer a' fresh cacheStructSize).api.sys.caches u = .fresh := by
      intro u hu
      rw [api_answer, hkept]
      exact hb.bare u hu
    have hinv := hb.caches.getOrCreate (t := t) hnew
    have hcaches : (b.opened t a' fresh).caches = (b.caches.getOrCreate t fresh).2 := rfl
    have hstay : ∀ p, b.world.held p ≠ none → (b.opened t a' fresh).world.held p ≠ none :=
      fun p hp => hanswer.held_of_held hp
    rcases b.caches.getOrCreate_cases t fresh (hb.caches.idle t) with
      ⟨heq, -⟩ | ⟨heq, -, -, hne⟩ <;> rw [heq] at hcaches hinv
    · refine ⟨⟨hanswer.inv, hanswer.api.2 hb.ready, hanswer.api.1.trans hb.dropped,
        hcaches ▸ hinv, ?_, ?_, ?_⟩, fun p hp => ⟨hstay p hp, ?_⟩⟩
      · rw [hcaches]
        exact fun p hp => hanswer.holdsBuddy (hb.structs p hp)
      · simp only [Books.slot, hcaches]
        exact hbare
      · rw [hcaches]
        exact hb.running
      · simp only [Books.slot, hcaches]
        exact id
    · have hslots := slot_created hcaches
      have hstruct : (b.opened t a' fresh).world.HoldsBuddy fresh := by
        change (b.world.answer a' fresh cacheStructSize).HoldsBuddy fresh
        rw [hanswer.world_eq]
        exact ⟨by simp [hne], heads_struct hw.inv.inv hw.inv.calm hb.ready hlegal hok hne⟩
      refine ⟨⟨hanswer.inv, hanswer.api.2 hb.ready, hanswer.api.1.trans hb.dropped,
        hcaches ▸ hinv, fun p hp => ?_, fun u hu => ?_, fun u hu => ?_⟩,
        fun p hp => ⟨hstay p hp, fun hother u => ?_⟩⟩
      · rw [hcaches] at hp
        rcases Finset.mem_insert.1 hp with rfl | hp
        · exact hstruct
        · exact hanswer.holdsBuddy (hb.structs p hp)
      · rw [hslots] at hu
        by_cases hut : u = t
        · exact absurd (by simpa [hut] using hu) hne
        · exact hbare u (by simpa [hut] using hu)
      · rw [hcaches]
        by_cases hut : u = t
        · subst hut
          simp [Caches.created]
        · simpa [Caches.created, hut] using hb.running u hu
      · rw [hslots]
        split_ifs
        · exact (hheld_ne p hp).symm
        · exact hother u

/-! ### Giving back -/

theorem BookInv.recordFree (hb : BookInv b) (t : ℕ) : BookInv (b.recordFree t) := by
  refine ⟨hb.api, hb.ready, hb.dropped, hb.caches.recordFreeCache _, fun p hp => ?_,
    fun u hu => ?_, fun u hu => ?_⟩
  · apply hb.structs p
    simpa [Books.recordFree, Books.setCaches, Books.caches, Threads.setCaches,
      structs_recordFreeCache] using hp
  · apply hb.bare u
    simpa [Books.slot, Books.recordFree, Books.setCaches, Books.caches, Threads.setCaches,
      tls_recordFreeCache] using hu
  · simpa [Books.recordFree, Books.setCaches, Books.caches, Threads.setCaches,
      tls_recordFreeCache] using hb.running u hu

/-- A block of the dispatcher in service goes back. -/
theorem release_ready {w : ApiWorld} {L : Stack → List ℕ} {blk : Blocks} (hw : ApiInv w L blk)
    (hready : w.api.dispatchReady = true) (hheld : w.held ptr ≠ none) (env : Env) (a' : Api) :
    w.release env a' ptr = { w with api := a', held := update w.held ptr none } :=
  release_block (hw.held_outside hheld) (Or.inr hready) a'

/-- The other blocks stay where they are. -/
theorem v8mFree_buddy {w : ApiWorld} {L : Stack → List ℕ} {blk : Blocks} {p : ℕ}
    (hw : ApiInv w L blk) (hready : w.api.dispatchReady = true)
    (hknows : env.Knows w.api.sys.heap ptr) (hheld : w.held ptr ≠ none)
    (hok : v8mFree env w.api ptr = .ok a') (hp : w.HoldsBuddy p) (hne : p ≠ ptr) :
    a'.sys.heap.heads (ptrToMeta p) = none := by
  have hstay : p ∈ w.world.pointers \ {ptr} := ⟨hp.1, hne⟩
  cases hw.returned hknows hheld hok with
  | bin _ hfreed heq =>
    obtain ⟨L', blk', hs', -, hcarried⟩ := hfreed
    rw [heq]
    exact hw.inv.inv.heads_none hs' hcarried hp.1 hstay hp.2
  | block _ _ _ hfreed heq =>
    obtain ⟨L', blk', hs', -, hcarried⟩ := hfreed
    rw [heq]
    exact hw.inv.inv.heads_none hs' hcarried hp.1 hstay hp.2
  | dropped _ hnot =>
    rw [hready] at hnot
    cases hnot

/-- Nobody's cache is given back. -/
theorem BookInv.take (hb : BookInv b) (hheld : b.world.held ptr ≠ none)
    (hnone : ∀ u, b.slot u ≠ ptr) (hknows : env.Knows b.api.sys.heap ptr)
    (hok : v8mFree env b.api ptr = .ok a') (hspares : Spares b a') (hapart : a'.Apart) :
    BookInv (b.take env a' ptr) := by
  obtain ⟨L, blk, hw⟩ := hb.api
  have howns : b.world.Owns ptr := Or.inl ⟨hheld, by rw [hb.dropped]; exact id⟩
  have hinv := hw.release hknows howns hok hapart
  have hrelease := release_ready hw hb.ready hheld env a'
  have hcaches : (b.take env a' ptr).caches =
      { b.caches with structs := b.caches.structs.erase ptr } := rfl
  have hworld : (b.take env a' ptr).world = b.world.release env a' ptr := rfl
  refine ⟨hworld ▸ hinv, ?_, ?_, ?_, fun p hp => ?_, fun u hu => ?_, hb.running⟩
  · rw [Books.api, hworld, hrelease]
    obtain ⟨s', ring, ringIdx, rfl⟩ := v8mFree_eq hok
    exact hb.ready
  · rw [hworld, hrelease]
    exact hb.dropped
  · rw [hcaches]
    refine hb.caches.congr (fun _ => rfl) (fun _ => rfl) rfl fun u hu => ?_
    exact Finset.mem_erase.2 ⟨hnone u, hb.caches.live u hu⟩
  · rw [hcaches] at hp
    obtain ⟨hne, hp⟩ := Finset.mem_erase.1 hp
    have hstruct := hb.structs p hp
    rw [hworld, hrelease]
    refine ⟨?_, v8mFree_buddy hw hb.ready hknows hheld hok hstruct hne⟩
    dsimp only
    rw [update_of_ne hne]
    exact hstruct.1
  · rw [Books.slot, hcaches] at hu
    rw [Books.api, hworld, hrelease]
    dsimp only
    rw [hspares u hu]
    exact hb.bare u hu

/-- A free keeps the books in order, if the block is not the cache of a thread. -/
theorem BookInv.frees (hb : BookInv b) (hnone : ∀ u, b.slot u ≠ ptr)
    (hfrees : Frees t env ptr fresh b b') : BookInv b' := by
  cases hfrees with
  | @mk b₁ a' hheld hopens hby hknows hok hapart =>
    obtain ⟨hb₁, hstay⟩ := (hb.recordFree t).opens hopens
    obtain ⟨hheld₁, hother⟩ := hstay ptr hheld
    have hidle : ((b.recordFree t).caches.tls t).inCreate = false :=
      (hb.recordFree t).caches.idle t
    have hslots : ∀ u, (b.recordFree t).slot u = b.slot u := fun u => by
      simp [Books.slot, Books.recordFree, Books.setCaches, Books.caches, Threads.setCaches,
        tls_recordFreeCache]
    refine hb₁.take hheld₁ (hother fun u => ?_) hknows hok ?_ hapart
    · rw [hslots]
      exact hnone u
    · refine hby.spares (v8mFree_kept hok).2 fun hslot => ?_
      exact hopens.slot_ne hidle (by rwa [hslots])

/-- The dispatcher has changed behind the threads, each of which kept its bins or had some. -/
theorem BookInv.drained {s : Sys} (hb : BookInv b)
    (hdrained : ∀ {L : Stack → List ℕ} {blk : Blocks},
      SysInv b.api.sys L blk b.world.world.pointers → Calm L →
      Drained b.api.sys L blk b.world.world.pointers s)
    (hspares : Spares b (b.api.setSys s)) (hapart : (b.api.setSys s).Apart) :
    BookInv (b.setApi (b.api.setSys s)) := by
  obtain ⟨L, blk, hw⟩ := hb.api
  obtain ⟨L', blk', hinv⟩ := hw.inv.drained (hdrained hw.inv.inv hw.inv.calm)
  obtain ⟨L₁, blk₁, hs₁, hcarried, -⟩ := hdrained hw.inv.inv hw.inv.calm
  refine ⟨⟨L', blk', hw.of_world hinv rfl hapart fun _ _ hp => hp⟩, hb.ready, hb.dropped,
    hb.caches, fun p hp => ?_, fun u hu => ?_, hb.running⟩
  · obtain ⟨hheld, hnone⟩ := hb.structs p hp
    exact ⟨hheld, hw.inv.inv.heads_none hs₁ hcarried hheld hheld hnone⟩
  · exact (hspares u hu).trans (hb.bare u hu)

theorem spares_of_ownOnly {call : Call} {s : Sys} (hthread : b.slot call.thread ≠ 0)
    (hown : OwnOnly call b.api.sys s) : Spares b (b.api.setSys s) := by
  intro u hu
  apply hown.other
  rintro rfl
  exact hthread hu

theorem spares_of_eq {s : Sys} (heq : s.caches = b.api.sys.caches) :
    Spares b (b.api.setSys s) := fun _ _ => congrFun heq _

theorem Drained.trans {s s' s'' : Sys} {L : Stack → List ℕ} {blk : Blocks} {held : Set ℕ}
    (h : Drained s L blk held s')
    (h' : ∀ {L' : Stack → List ℕ} {blk' : Blocks}, SysInv s' L' blk' held → NoLonger L L' →
      Drained s' L' blk' held s'') : Drained s L blk held s'' := by
  obtain ⟨L₁, blk₁, hs₁, hcarried₁, hle₁⟩ := h
  obtain ⟨L₂, blk₂, hs₂, hcarried₂, hle₂⟩ := h' hs₁ hle₁
  exact ⟨L₂, blk₂, hs₂, hcarried₁.trans hcarried₂, hle₁.trans hle₂⟩

/-- The thread has given up its cache, at its exit or before. -/
theorem BookInv.retire {s : Sys} {v : Tls} {exited : Finset ℕ} (hb : BookInv b)
    (hslot : b.slot t ≠ 0)
    (hdrained : ∀ {L : Stack → List ℕ} {blk : Blocks},
      SysInv b.api.sys L blk b.world.world.pointers → Calm L →
      Drained b.api.sys L blk b.world.world.pointers s)
    (hspares : Spares b (b.api.setSys s)) (hfresh : s.caches t = .fresh)
    (hapart : (b.api.setSys s).Apart) (hv : v.cache = 0) (hidle : v.inCreate = false)
    (hsub : b.threads.exited ⊆ exited) (hgone : v.inDestructor = true → t ∈ exited) :
    BookInv { b.retire s t v with threads := ⟨b.caches.detached t v, exited⟩ } := by
  have hmid := hb.drained hdrained hspares hapart
  refine ⟨hmid.api, hmid.ready, hmid.dropped, hb.caches.detached hslot hv hidle,
    fun p hp => ?_, fun u hu => ?_, fun u hu => ?_⟩
  · change p ∈ (b.caches.detached t v).structs at hp
    rw [Caches.structs_detached hslot] at hp
    exact hmid.structs p hp
  · change ((b.caches.detached t v).tls u).cache = 0 at hu
    rw [Caches.tls_detached hslot] at hu
    by_cases hut : u = t
    · rw [hut]
      exact hfresh
    · rw [update_of_ne hut] at hu
      exact hmid.bare u hu
  · change ((b.caches.detached t v).tls u).inDestructor = false
    rw [Caches.tls_detached hslot]
    by_cases hut : u = t
    · rw [hut, update_self]
      exact Bool.eq_false_iff.2 fun h => hu (hut ▸ hgone h)
    · rw [update_of_ne hut]
      exact hb.running u fun h => hu (hsub h)

/-- At thread exit the hook alone drains the cache. -/
theorem BookInv.retireExit {call : Call} {s : Sys} (hb : BookInv b)
    (hthread : call.thread = t) (hslot : b.slot t ≠ 0) (hok : retireCache call b.api.sys = .ok s)
    (hapart : (b.api.setSys s).Apart) : BookInv ((b.retire s t ⟨0, 0, false, true⟩).exit t) := by
  subst hthread
  obtain ⟨L, blk, hw⟩ := hb.api
  exact hb.retire hslot (fun hs hc => (retireCache_drained hs hc.lt hok).1)
    (spares_of_ownOnly hslot (confined_retireCache hok).own)
    (retireCache_drained hw.inv.inv hw.inv.calm.lt hok).2 hapart rfl rfl
    (Finset.subset_insert _ _) fun _ => Finset.mem_insert_self _ _

/-- `v8m_release_thread` drains the bins and the stacks of the CPU before the hook runs. -/
theorem BookInv.retireRelease {call : Call} {all l2 : ℕ × Sys} {s : Sys} (hb : BookInv b)
    (ht : t ∉ b.threads.exited) (hthread : call.thread = t) (hslot : b.slot t ≠ 0)
    (hall : dispatchDrainAll call b.api.sys = .ok all)
    (hl2 : dispatchDrainLocalL2 call all.2 = .ok l2) (hok : retireCache call l2.2 = .ok s)
    (hapart : (b.api.setSys s).Apart) :
    BookInv (b.retire s t { b.caches.tls t with cache := 0 }) := by
  subst hthread
  have hdrained : ∀ {L : Stack → List ℕ} {blk : Blocks},
      SysInv b.api.sys L blk b.world.world.pointers → Calm L →
      Drained b.api.sys L blk b.world.world.pointers l2.2 := fun hs hc =>
    Drained.trans ((dispatchDrainAll_spec hs call hc.lt).of_ok hall) fun hs' _ =>
      (dispatchDrainLocalL2_spec hs' call).of_ok hl2
  have hown : OwnOnly call b.api.sys s :=
    ((confined_dispatchDrainAll hall).own.trans
      (.of_eq (confined_dispatchDrainLocalL2 hl2).2)).trans (confined_retireCache hok).own
  obtain ⟨L, blk, hw⟩ := hb.api
  obtain ⟨L', blk', hs', -, hle⟩ := hdrained hw.inv.inv hw.inv.calm
  exact hb.retire hslot
    (fun hs hc => (hdrained hs hc).trans fun hs' hle' =>
      (retireCache_drained hs' (hc.mono hle').lt hok).1)
    (spares_of_ownOnly hslot hown)
    (retireCache_drained hs' (hw.inv.calm.mono hle).lt hok).2 hapart rfl
    (hb.caches.idle call.thread) (Finset.Subset.refl _) fun h => absurd h (by simp [hb.running _ ht])

theorem slot_retire_ne {s : Sys} {v : Tls} (hb : BookInv b) (hslot : b.slot t ≠ 0)
    (hv : v.cache = 0) (u : ℕ) : (b.retire s t v).slot u ≠ b.slot t := by
  have hcaches : (b.retire s t v).caches = b.caches.detached t v := rfl
  rw [Books.slot, hcaches, Caches.tls_detached hslot]
  by_cases hut : u = t
  · rw [hut, update_self, hv]
    exact hslot.symm
  · rw [update_of_ne hut]
    exact fun heq => hut (hb.caches.distinct u t (heq ▸ hslot) heq)

/-! ### Steps and runs -/

theorem BookInv.slot_ne (hb : BookInv b) (hptr : ptr ∉ b.caches.structs) (hne : ptr ≠ 0) (u : ℕ) :
    b.slot u ≠ ptr := by
  intro heq
  exact hptr (heq ▸ hb.caches.live u (by rw [← Books.slot, heq]; exact hne))

theorem BookInv.held_ne_zero (hb : BookInv b) (hheld : b.world.held ptr ≠ none) : ptr ≠ 0 := by
  obtain ⟨L, blk, hw⟩ := hb.api
  exact hw.inv.inv.account.ne_zero hheld

theorem Frees.held (hfrees : Frees t env ptr fresh b b') : b.world.held ptr ≠ none := by
  cases hfrees with
  | mk hheld _ _ _ _ _ => exact hheld

/-- An allocation of thread `t`, after its cache was looked for. -/
theorem BookInv.alloc (hb : BookInv b) (hopens : Opens t asks b fresh b₁) (hby : env.By t b b₁)
    (counted : Bool)
    (hanswers : ∀ {L : Stack → List ℕ} {blk : Blocks}, ApiInv b₁.world L blk →
      b₁.api.dispatchReady = true →
      Answers b₁.world a' ptr size ∧ OwnCache env b₁.api.sys a'.sys) :
    Answers b₁.world a' ptr size ∧ BookInv b₁ ∧ BookInv (b₁.give t counted a' ptr size) := by
  obtain ⟨hb₁, -⟩ := hb.opens hopens
  obtain ⟨L, blk, hw⟩ := hb₁.api
  obtain ⟨hanswer, hown⟩ := hanswers hw hb₁.ready
  exact ⟨hanswer, hb₁,
    hb₁.give hanswer (hby.spares hown (hopens.slot_ne (hb.caches.idle t))) t counted⟩

/-- What the ways of asking for a block have in common. -/
theorem BookInv.given (hb : BookInv b) (hopens : Opens t asks b fresh b₁) (hby : env.By t b b₁)
    (hlegal : env.Legal b₁.api size) (counted : Bool)
    (hgiven : ∀ {L : Stack → List ℕ} {blk : Blocks},
      SysInv b₁.api.sys L blk b₁.world.world.pointers → Calm L →
      Given env b₁.api blk b₁.world.world.pointers size ptr a') :
    Answers b₁.world a' ptr size ∧ BookInv b₁ ∧ BookInv (b₁.give t counted a' ptr size) :=
  hb.alloc hopens hby counted fun hw hready =>
    have hgiven := hgiven hw.inv.inv hw.inv.calm
    ⟨hgiven.answers hw hready hlegal.outside, hgiven.ownCache⟩

theorem BookInv.doMallocPc (hb : BookInv b) (hopens : Opens t asks b fresh b₁) (hby : env.By t b b₁)
    (hlegal : env.Legal b₁.api size) (hok : V8Malloc.doMallocPc env b₁.api size = .ok (ptr, a'))
    (counted : Bool) : Answers b₁.world a' ptr size ∧ BookInv b₁ ∧
      BookInv (b₁.give t counted a' ptr size) :=
  hb.given hopens hby hlegal counted fun hs hc => doMallocPc_given hs hc hlegal hok

theorem BookInv.v8mCalloc {nmemb : ℕ} (hb : BookInv b) (hopens : Opens t asks b fresh b₁)
    (hby : env.By t b b₁) (hlegal : env.Legal b₁.api (nmemb * size))
    (hok : V8Malloc.v8mCalloc env b₁.api nmemb size = .ok (ptr, a')) (counted : Bool) :
    Answers b₁.world a' ptr (nmemb * size) ∧ BookInv b₁ ∧
      BookInv (b₁.give t counted a' ptr (nmemb * size)) := by
  refine hb.alloc hopens hby counted fun hw hready =>
    ⟨answers_v8mCalloc hw hready hlegal hok, ?_⟩
  rcases v8mCalloc_cases hok with ⟨-, rfl⟩ | ⟨a₁, hmalloc, rfl | ⟨-, rfl⟩⟩
  · exact .of_eq rfl
  · exact (doMallocPc_given hw.inv.inv hw.inv.calm hlegal hmalloc).ownCache
  · have hown := (doMallocPc_given hw.inv.inv hw.inv.calm hlegal hmalloc).ownCache
    exact hown

theorem caches_give (b : Books) (t : ℕ) (a' : Api) (hne : ptr ≠ 0) :
    (b.give t true a' ptr size).caches = b.caches.recordAlloc t := by
  simp [Books.give, hne, Books.caches, Threads.setCaches]

/-- The copy of a moving resize. -/
theorem BookInv.fill {mid filled : Api} {oldUsable new : ℕ}
    (hgive : BookInv (b₁.give t true mid new size)) (hanswer : Answers b₁.world mid new size)
    (hne : new ≠ 0)
    (hfill : reallocFill env mid oldUsable new ptr size = filled)
    (hplain : PlainChange mid.sys.heap.mem filled.sys.heap.mem) :
    BookInv ((b₁.give t true mid new size).setApi filled) := by
  obtain ⟨L, blk, hw⟩ := hanswer.inv
  have hnoted : (b₁.world.answer mid new size).Noted new size := by
    left
    rw [hanswer.world_eq]
    simp [hne]
  obtain ⟨m', hm'⟩ := reallocFill_eq env mid oldUsable new ptr size
  rw [hm'] at hfill
  obtain ⟨hinv, hplaces, -⟩ := hw.fill hnoted (hm'.trans hfill) hplain
  rw [answer_setApi _ hplaces] at hinv
  subst hfill
  have hmid : (b₁.give t true mid new size).world.api = mid := api_answer _ _ _ _
  refine ⟨⟨L, blk, hinv⟩, ?_, hgive.dropped, hgive.caches, fun p hp => ?_, fun u hu => ?_,
    hgive.running⟩
  · have hready := hgive.ready
    rwa [Books.api, hmid] at hready
  · obtain ⟨hheld, hnone⟩ := hgive.structs p hp
    rw [hmid] at hnone
    exact ⟨hheld, hnone⟩
  · have hbare := hgive.bare u hu
    rwa [Books.api, hmid] at hbare

theorem BookInv.renote (hb : BookInv b) (hheld : b.world.held ptr ≠ none) (hsize : size ≠ 0)
    (hkeep : reallocInPlace b.api ptr size = true) :
    b.world.renote ptr size = { b.world with held := update b.world.held ptr (some size) }
      ∧ BookInv (b.setWorld (b.world.renote ptr size)) := by
  obtain ⟨L, blk, hw⟩ := hb.api
  have howns : b.world.Owns ptr := Or.inl ⟨hheld, by rw [hb.dropped]; exact id⟩
  have hinv := hw.renote howns hsize hkeep
  have hworld : b.world.renote ptr size =
      { b.world with held := update b.world.held ptr (some size) } := by
    rw [ApiWorld.renote, hw.held_outside hheld, if_neg Bool.false_ne_true]
  refine ⟨hworld, ⟨L, blk, hinv⟩, ?_, ?_, hb.caches, fun p hp => ?_, ?_, hb.running⟩
  · simp only [Books.setWorld, Books.api, hworld]
    exact hb.ready
  · simp only [Books.setWorld, hworld]
    exact hb.dropped
  · simp only [Books.setWorld, hworld]
    refine ⟨?_, (hb.structs p hp).2⟩
    dsimp only
    by_cases hpp : p = ptr
    · simp [hpp]
    · rw [update_of_ne hpp]
      exact (hb.structs p hp).1
  · simp only [Books.setWorld, Books.api, hworld]
    exact hb.bare

theorem BookInv.setMem {m' : Mem} (hb : BookInv b)
    (hinv : ∃ L blk, ApiInv (b.world.setApi (b.api.setMem m')) L blk) :
    BookInv (b.setApi (b.api.setMem m')) :=
  ⟨hinv, hb.ready, hb.dropped, hb.caches, fun p hp => hb.structs p hp, hb.bare, hb.running⟩

theorem BookInv.step {e : BookEvent} (hb : BookInv b) (hstep : BookStep b e b') :
    BookInv b' := by
  cases hstep with
  | malloc _ hopens hby hlegal hok =>
    exact (hb.given hopens hby hlegal _ fun hs hc => v8mMalloc_given hs hc hlegal hok).2.2
  | calloc _ hopens hby hlegal hok => exact (hb.v8mCalloc hopens hby hlegal hok _).2.2
  | alignedAlloc _ hopens hby hlegal hok =>
    exact (hb.given hopens hby hlegal _ fun hs hc => v8mAlignedAlloc_given hs hc hlegal hok).2.2
  | free _ hptr hfrees =>
    exact hb.frees (hb.slot_ne hptr (hb.held_ne_zero hfrees.held)) hfrees
  | freeNull => exact hb
  | reallocNull _ hopens hby hlegal hok => exact (hb.doMallocPc hopens hby hlegal hok _).2.2
  | reallocZero _ hptr hfrees =>
    exact hb.frees (hb.slot_ne hptr (hb.held_ne_zero hfrees.held)) hfrees
  | reallocKeep hheld _ hsize hkeep => exact (hb.renote hheld hsize hkeep).2
  | reallocFail _ _ _ hopens hby hlegal hok => exact (hb.doMallocPc hopens hby hlegal hok _).2.2
  | @reallocMove t ptr size new fresh freshFree env envFree mid filled b₁ _ _ hptr hheld hsize
      hmove hopens hby hlegal hok hne hfill hplain hfrees =>
    obtain ⟨hanswer, hb₁, hgive⟩ := hb.doMallocPc hopens hby hlegal hok true
    have hfilled := hgive.fill hanswer hne hfill hplain
    refine hfilled.frees (fun u => ?_) hfrees
    have hslot : ((b₁.give t true mid new size).setApi filled).slot u = b₁.slot u := by
      change ((b₁.give t true mid new size).caches.tls u).cache = _
      rw [caches_give b₁ t mid hne, slot_recordAlloc]
      rfl
    rw [hslot]
    exact ((hb.opens hopens).2 ptr hheld).2 (hb.slot_ne hptr (hb.held_ne_zero hheld)) u
  | initThread _ hopens => exact (hb.opens hopens).1
  | release ht hslot hthread hall hl2 hretire hapart hfrees =>
    have hretired := hb.retireRelease ht hthread hslot hall hl2 hretire hapart
    exact hretired.frees (slot_retire_ne hb hslot rfl) hfrees
  | @releaseNone t fresh call l2 _ hslot hthread hl2 hapart =>
    exact hb.drained (fun hs _ => (dispatchDrainLocalL2_spec hs call).of_ok hl2)
      (spares_of_eq (confined_dispatchDrainLocalL2 hl2).2) hapart
  | @exit _ _ _ _ s _ _ _ hslot hthread hretire hapart hfrees =>
    have hretired := hb.retireExit hthread hslot hretire hapart
    exact hretired.frees (slot_retire_ne (s := s) hb hslot rfl) hfrees
  | exitNone _ _ _ =>
    exact ⟨hb.api, hb.ready, hb.dropped, hb.caches, hb.structs, hb.bare,
      fun u hu => hb.running u fun h => hu (Finset.mem_insert_of_mem h)⟩
  | setSoftLimit limit =>
    obtain ⟨L, blk, hw⟩ := hb.api
    exact ⟨⟨L, blk, hw.of_world hw.inv rfl hw.apart fun _ _ hp => hp⟩, hb.ready, hb.dropped,
      hb.caches.congr (fun _ => rfl) (fun _ => rfl) rfl hb.caches.live,
      fun p hp => hb.structs p hp, hb.bare, hb.running⟩
  | setDebug on =>
    obtain ⟨L, blk, hw⟩ := hb.api
    exact ⟨⟨L, blk, hw.of_world hw.inv rfl hw.apart fun _ _ hp => hp⟩, hb.ready, hb.dropped,
      hb.caches, fun p hp => hb.structs p hp, hb.bare, hb.running⟩
  | @purgeThread t call all medium _ hslot hthread hall hmedium hapart =>
    subst hthread
    refine hb.drained (fun hs hc => ?_) (spares_of_ownOnly hslot
      ((confined_dispatchDrainAll hall).trans (confined_dispatchDrainMedium hmedium)).own) hapart
    exact Drained.trans ((dispatchDrainAll_spec hs call hc.lt).of_ok hall) fun hs' _ =>
      (dispatchDrainMedium_spec hs' call).of_ok hmedium
  | @drainL2 call l2 hl2 hapart =>
    exact hb.drained (fun hs _ => (dispatchDrainLocalL2_spec hs call).of_ok hl2)
      (spares_of_eq (confined_dispatchDrainLocalL2 hl2).2) hapart
  | bgTick hapart =>
    exact hb.drained (fun hs _ => dispatchBgTick_spec hs) (spares_of_eq rfl) hapart
  | purgeDrained hapart =>
    exact hb.drained (fun hs _ => dispatchPurgeDrained_spec hs) (spares_of_eq rfl) hapart
  | write hm =>
    obtain ⟨L, blk, hw⟩ := hb.api
    exact hb.setMem ⟨L, blk, hw.write hm⟩
  | elsewhere hm =>
    obtain ⟨L, blk, hw⟩ := hb.api
    exact hb.setMem ⟨L, blk, hw.elsewhere hm⟩

theorem BookRun.bookInv {ok : Books → BookEvent → Prop} (hrun : BookRun ok b) : BookInv b := by
  induction hrun with
  | init p hboot hsafe hapart =>
    have hload : ApiRun (fun _ _ => True) _ := .load p hboot hsafe hapart
    exact ⟨(hload.lifecycle .ready trivial).apiInv, rfl, rfl, cacheInv_init,
      fun p hp => absurd hp (Finset.notMem_empty p), fun _ _ => rfl, fun _ _ => rfl⟩
  | step _ _ hstep ih => exact ih.step hstep

end V8Malloc
