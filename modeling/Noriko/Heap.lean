/-
The general-purpose heap (`NkGPAlloc`, `NkGPRealloc` of `alloc.c`) as its callers see it.

A block is read as an array of cells of type `E`. The heap is the environment: a call either fails or answers with an
address and with whatever the memory holds there. `NkGPRealloc` keeps the cells that lie in the old and in the new block
and leaves the old block alone if it fails.
-/
import Noriko.Def

namespace Noriko

/-- a heap block: its address, its size in bytes and its memory; cells past the end are not part of the block -/
structure Buffer (E : Type) where
  addr : ℕ
  size : ℕ
  mem : ℕ → E

/-- what the heap hands out for a request it can serve -/
structure Fresh (E : Type) where
  addr : ℕ
  mem : ℕ → E

variable {E : Type}

/-- `NkGPAlloc` -/
def gpAlloc (sizeInBytes : ℕ) : Option (Fresh E) → NkErrorCode × Option (Buffer E)
  | none => (.memoryAllocation, none)
  | some f => (.ok, some ⟨f.addr, sizeInBytes, f.mem⟩)

/-- `NkGPRealloc` on a block of cells of `cell` bytes -/
def gpRealloc (cell : ℕ) (b : Buffer E) (newSizeInBytes : ℕ) : Option (Fresh E) → NkErrorCode × Buffer E
  | none => (.memoryReallocation, b)
  | some f => (.ok, ⟨f.addr, newSizeInBytes,
      fun k => if (k + 1) * cell ≤ b.size ∧ (k + 1) * cell ≤ newSizeInBytes then b.mem k else f.mem k⟩)

/-! ## Address ranges -/

/-- the bytes `addr` to `addr + size` -/
structure Span where
  addr : ℕ
  size : ℕ
deriving DecidableEq, Repr

/-- an access stays inside a block -/
def Span.Within (a b : Span) : Prop := b.addr ≤ a.addr ∧ a.addr + a.size ≤ b.addr + b.size

instance (a b : Span) : Decidable (a.Within b) := inferInstanceAs (Decidable (_ ∧ _))

end Noriko
