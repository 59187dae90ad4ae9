import V8Malloc.Api.Realloc
import V8Malloc.BuddyPool.Calls

/-!
# Pointer introspection

`v8m_ptr_info` recognises a pointer by the header of its 64 KiB page or, where
there is none, by the bitmaps of its buddy arena. The buddy path looks for the
start of a block; the two header paths answer for every address of the page.
For a piece of the bootstrap buffer the size reported is the rest of the
buffer, where `v8m_malloc_usable_size` says zero.
-/
namespace V8Malloc

open ByteMemory

variable {a : Api} {w : ApiWorld} {L : Stack → List ℕ} {blk : Blocks} {h : Heap}
variable {env : Env} {p n : ℕ} {g : Grant}

/-! ### The model -/

/-- `enum v8m_ptr_backend`. -/
inductive PtrBackend where
  | foreign
  | bootstrap
  | slab
  | buddy
  | large
  deriving DecidableEq, Repr

structure PtrInfo where
  backend : PtrBackend
  usableSize : ℕ
  sizeClass : ℤ
  deriving DecidableEq, Repr

/-- What a failed query leaves in `*out`. -/
def PtrInfo.unknown : PtrInfo := ⟨.foreign, 0, -1⟩

end V8Malloc
