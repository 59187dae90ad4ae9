import V8Malloc.Heap.Steps

/-!
# Footprint of an allocation

An allocation takes memory only where the page heap offers it, and it writes
only there and where memory was taken before. The rest of the address space,
static data among it, keeps its bytes. Only the large path writes a header of a
large block; whatever else is done, the large headers that are left were there
before with the same fields.
-/
namespace V8Malloc

open ByteMemory Function

variable {offers offers' : ℕ → Prop} {h h' h'' : Heap} {blk : Blocks} {g : Grant}
variable {a x page : ℕ} {m' : Mem}

structure Footprint (offers : ℕ → Prop) (h h' : Heap) : Prop where
  taken : ∀ x, h'.Taken x → h.Taken x ∨ offers x
  bytes : ∀ x, ¬ h.Taken x → ¬ offers x → h'.mem x = h.mem x

theorem taken_setMem (h : Heap) (m : Mem) {x : ℕ} (ht : { h with mem := m }.Taken x) :
    h.Taken x := by
  obtain ⟨k, b, n, hregion, hin⟩ := ht
  exact ⟨k, b, n, hregion.congr rfl rfl rfl rfl, hin⟩

namespace Footprint

theorem refl (offers : ℕ → Prop) (h : Heap) : Footprint offers h h :=
  ⟨fun _ hx => Or.inl hx, fun _ _ _ => rfl⟩

/-- What was taken before may be used as if it were offered. -/
theorem absorb (h₁ : Footprint offers h h')
    (h₂ : Footprint (fun x => h.Taken x ∨ offers x) h' h'') : Footprint offers h h'' := by
  constructor
  · intro x hx
    exact (h₂.taken x hx).elim (h₁.taken x) id
  · intro x hout hnew
    have hout' : ¬ h'.Taken x := fun hx => (h₁.taken x hx).elim hout hnew
    exact (h₂.bytes x hout' fun hx => hx.elim hout hnew).trans (h₁.bytes x hout hnew)

theorem mono (hf : Footprint offers h h') (hle : ∀ x, offers x → offers' x) :
    Footprint offers' h h' :=
  ⟨fun x hx => (hf.taken x hx).imp_right (hle x),
    fun x hout hnew => hf.bytes x hout fun hx => hnew (hle x hx)⟩

theorem trans (h₁ : Footprint offers h h') (h₂ : Footprint offers h' h'') :
    Footprint offers h h'' := h₁.absorb (h₂.mono fun _ => Or.inr)

end Footprint

/-- Every byte of a block is taken. -/
theorem HeapInv.taken_byte (hh : HeapInv h blk) (hg : blk a = some g) (hlo : a ≤ x)
    (hhi : x < a + g.bytes) : h.Taken x := by
  obtain ⟨k, b, n, hr, hlo', hhi', -⟩ := (hh.blockKind hg).region
  exact ⟨k, b, n, hr, by omega, by omega⟩

/-- A link goes into a block. -/
theorem HeapInv.link_inside (hh : HeapInv h blk) (hg : blk a = some g) (v : ℕ)
    (hx : ¬ h.Taken x) : store64 h.mem a v x = h.mem x := by
  apply sameOutside_store64 h.mem a v x
  have hsize := (hh.block_bounds hg).2.1
  unfold linkBytes at hsize
  by_contra hin
  exact hx (hh.taken_byte hg (by omega) (by omega))

/-! ### Large headers -/

/-- Every large header of `h'` is one of `h`. -/
def LargeKept (h h' : Heap) : Prop :=
  ∀ b block, h'.heads b = some (.large block) → h.heads b = some (.large block)

namespace LargeKept

theorem refl (h : Heap) : LargeKept h h := fun _ _ hb => hb

theorem trans (h₁ : LargeKept h h') (h₂ : LargeKept h' h'') : LargeKept h h'' :=
  fun b block hb => h₁ b block (h₂ b block hb)

theorem of_heads (hheads : h'.heads = h.heads) : LargeKept h h' := by
  intro b block hb
  rwa [hheads] at hb

/-- One page base changes, and what stands there now is no large header. -/
theorem of_update {header : Option Header} (hheads : h'.heads = update h.heads page header)
    (hother : ∀ block, header ≠ some (.large block)) : LargeKept h h' := by
  intro b block hb
  rw [hheads] at hb
  by_cases heq : b = page
  · rw [heq, update_self] at hb
    exact absurd hb (hother block)
  · rwa [update_of_ne heq] at hb

theorem setPage (h : Heap) (b : ℕ) (page : PageMeta) (m : Mem) :
    LargeKept h (h.setPage b page m) := by
  unfold Heap.setPage
  split
  · exact of_update rfl (by simp)
  · exact of_heads rfl

end LargeKept

/-! ### Without a large header -/

/-- Memory is taken where it is offered, and no large header is new. -/
structure Within (offers : ℕ → Prop) (h h' : Heap) : Prop extends Footprint offers h h' where
  large : LargeKept h h'

/-- No byte changes, nothing more is taken and no large header is new. -/
structure Still (h h' : Heap) : Prop where
  mem : h'.mem = h.mem
  taken : ∀ x, h'.Taken x → h.Taken x
  large : LargeKept h h'

namespace Within

theorem refl (offers : ℕ → Prop) (h : Heap) : Within offers h h := ⟨.refl offers h, .refl h⟩

theorem trans (h₁ : Within offers h h') (h₂ : Within offers h' h'') : Within offers h h'' :=
  ⟨h₁.toFootprint.trans h₂.toFootprint, h₁.large.trans h₂.large⟩

theorem mono (hw : Within offers h h') (hle : ∀ x, offers x → offers' x) : Within offers' h h' :=
  ⟨hw.toFootprint.mono hle, hw.large⟩

/-- A write where memory is taken. -/
theorem write (hm : ∀ x, ¬ h.Taken x → m' x = h.mem x) : Within offers h { h with mem := m' } :=
  ⟨⟨fun _ hx => Or.inl (taken_setMem h m' hx), fun x hout _ => hm x hout⟩, .of_heads rfl⟩

end Within

namespace Still

theorem refl (h : Heap) : Still h h := ⟨rfl, fun _ hx => hx, .refl h⟩

theorem trans (h₁ : Still h h') (h₂ : Still h' h'') : Still h h'' :=
  ⟨h₂.mem.trans h₁.mem, fun x hx => h₁.taken x (h₂.taken x hx), h₁.large.trans h₂.large⟩

theorem within (hs : Still h h') (offers : ℕ → Prop) : Within offers h h' :=
  ⟨⟨fun x hx => Or.inl (hs.taken x hx), fun _ _ _ => by rw [hs.mem]⟩, hs.large⟩

end Still

end V8Malloc
