/-
One memory pool of the pool allocator (`alloc.c`).

A pool is one heap block. It starts with the block heads, 8 bytes each, then padding that brings the blocks to a
multiple of 16, then the blocks themselves. `heads` is that heap block read as an array of block heads: entries from
`blockCount` on lie in the padding and in the blocks, and hold whatever the memory holds there.

All sizes are computed in `NkUint32` and may wrap; `u32` stands wherever the source stores into one.
-/
import Noriko.Def
import Noriko.Lib.Loop

namespace Noriko.Alloc

open Lib

/-! ## Constants and data -/

/-- `NK_ALLOC_NPOOLS`, the value of `gl_MaxPools` -/
def maxPools : ℕ := 8192

def blockAlign : ℕ := 16

def defBlockCount : ℕ := 128

def pageSize : ℕ := 4096

/-- `sizeof(__NkInt_PoolAllocBlockHead)` -/
def headBytes : ℕ := 8

def tySingle : ℕ := 1

def tyStartOfMulti : ℕ := 2

def tyPartOfMulti : ℕ := 4

structure BlockHead where
  blockFlags : ℕ
  nMultiBlock : ℕ
deriving DecidableEq, Repr

/-- the head of a block that belongs to no allocation -/
def freeHead : BlockHead := ⟨0, 0⟩

structure MemoryPool where
  blockSize : ℕ
  blockCount : ℕ
  nAllocBlocks : ℕ
  fFreeInd : ℕ
  /-- address of the heap block, 0 for `NULL` -/
  blockPtr : ℕ
  /-- the heap block read as block heads -/
  heads : ℕ → BlockHead

/-- what the heap hands out: an address and the memory found there, read as block heads -/
structure HeapBlock where
  addr : ℕ
  mem : ℕ → BlockHead

/-- a slot without a pool -/
def emptySlot : MemoryPool := ⟨0, 0, 0, 0, 0, fun _ => freeHead⟩

/-! ## Sizes -/

def calcPoolHeadSize (blockCount blAlign : ℕ) : ℕ :=
  let poolHeadSize := u32 (blockCount * headBytes)
  u32 (poolHeadSize + poolHeadSize % blAlign)

def calcPoolSize (blockCount blockSize blAlign : ℕ) : ℕ :=
  u32 (calcPoolHeadSize blockCount blAlign + u32 (blockSize * blockCount))

/-- rounds the pool size up to pages and fills it with blocks; returns the new pool size and block count -/
def adjustPoolMetrics (blockSize poolSize : ℕ) : ℕ × ℕ :=
  let poolSize := u32 (poolSize + if poolSize % pageSize ≠ 0 then pageSize - poolSize % pageSize else 0)
  (poolSize, poolSize / (blockSize + headBytes))

/-- heap bytes and block count of the pool that a request for `blockCount` blocks creates -/
def newPoolMetrics (blockCount blockSize : ℕ) : ℕ × ℕ :=
  adjustPoolMetrics blockSize (calcPoolSize blockCount blockSize blockAlign)

/-- the pool header written for a new pool; `memset` clears the heads of its blocks and nothing else -/
def newPool (blockCount blockSize : ℕ) (b : HeapBlock) : MemoryPool where
  blockSize := blockSize
  blockCount := blockCount
  nAllocBlocks := 0
  fFreeInd := 0
  blockPtr := b.addr
  heads k := if k < blockCount then freeHead else b.mem k

/-! ## Addresses -/

/-- start of block `blockIndex`, as `NkPoolAlloc` computes it -/
def blockAddr (p : MemoryPool) (blockIndex : ℕ) : ℕ :=
  p.blockPtr + p.blockCount * headBytes + p.blockCount * headBytes % blockAlign + p.blockSize * blockIndex

def isInsidePool (memPtr : ℕ) (p : MemoryPool) : Bool :=
  p.blockPtr ≤ memPtr ∧ memPtr - p.blockPtr < calcPoolSize p.blockCount p.blockSize blockAlign

/-- from a head back to the nearest head flagged as the start of its allocation -/
def walkBack (heads : ℕ → BlockHead) : ℕ → ℕ
  | 0 => 0
  | k + 1 =>
    if (heads (k + 1)).blockFlags &&& tyPartOfMulti ≠ 0 then
      if (heads (k + 1)).blockFlags &&& tyStartOfMulti ≠ 0 then k + 1 else walkBack heads k
    else k + 1

/-- index of the head that `__NkInt_PoolAllocGetHeaderForBlock` returns once the pool is known. A block pointer is
never below the first block, so the pointer difference is not negative. -/
def headerForBlock (p : MemoryPool) (memPtr : ℕ) : ℕ :=
  let headSize := calcPoolHeadSize p.blockCount blockAlign
  walkBack p.heads ((memPtr - (p.blockPtr + headSize)) / p.blockSize)

/-! ## Searching a free range -/

/-- `lbl_FINDNEXT`: the flags tested are those of the used head the scan met; they are not read again -/
def findNext (blockCount blockFlags startIndex : ℕ) : ℕ :=
  if startIndex < blockCount ∧ blockFlags ≠ 0 then findNext blockCount blockFlags (startIndex + 1) else startIndex
termination_by blockCount - startIndex

/-- `lbl_FINDBLOCK`, for at most `rounds` jumps back to it; `none` if the search is still running then -/
def findBlock (p : MemoryPool) (blockCount : ℕ) : ℕ → ℕ → Option ℕ
  | 0, _ => none
  | rounds + 1, startIndex =>
    if sub32 p.blockCount startIndex < blockCount then some uint32Max
    else
      -- the do-while body runs once before its test
      match (upto startIndex (max (startIndex + 1) (u32 (startIndex + blockCount)))).find?
          (fun k => (p.heads k).blockFlags ≠ 0) with
      | none => some startIndex
      | some k => findBlock p blockCount rounds (findNext p.blockCount (p.heads k).blockFlags k)

/-- first index of a free range, or `uint32Max`. A search that starts at or below `blockCount` needs two rounds; one
that is not over after them repeats the same round for ever. -/
def findRangeInPool (p : MemoryPool) (blockCount : ℕ) : Option ℕ :=
  if p.fFreeInd = uint32Max then some uint32Max else findBlock p blockCount 2 p.fFreeInd

/-! ## Taking and releasing blocks -/

/-- `lbl_ALLOCBLOCK`: flags the blocks, counts them and moves the first-free index -/
def allocBlocks (p : MemoryPool) (blockIndex blockCount : ℕ) : MemoryPool :=
  let first := p.heads blockIndex
  let flag := if blockCount ^^^ 1 ≠ 0 then tyStartOfMulti else tySingle
  let heads := Function.update p.heads blockIndex { first with blockFlags := first.blockFlags ||| flag }
  let heads :=
    if blockCount > 1 then
      let heads := Function.update heads blockIndex { heads blockIndex with nMultiBlock := blockCount }
      fun k =>
        if blockIndex ≤ k ∧ k < u32 (blockIndex + blockCount) then
          { heads k with blockFlags := (heads k).blockFlags ||| tyPartOfMulti }
        else heads k
    else heads
  { p with
    heads := heads
    nAllocBlocks := u32 (p.nAllocBlocks + blockCount)
    fFreeInd :=
      if blockIndex = p.fFreeInd then
        ((upto p.fFreeInd p.blockCount).find? (fun i => (heads i).blockFlags = 0)).getD uint32Max
      else p.fFreeInd }

/-- number of blocks of the allocation that a head starts -/
def allocCount (h : BlockHead) : ℕ := if h.blockFlags &&& tySingle ≠ 0 then 1 else h.nMultiBlock

/-- `NkPoolFree` inside one pool: clears the heads of the allocation that starts at `blockIndex` -/
def releaseBlocks (p : MemoryPool) (blockIndex : ℕ) : MemoryPool :=
  let blockCount := allocCount (p.heads blockIndex)
  { p with
    heads := fun k => if blockIndex ≤ k ∧ k < blockIndex + blockCount then freeHead else p.heads k
    nAllocBlocks := sub32 p.nAllocBlocks blockCount }

/-- the first-free update of `NkPoolFree` for a pool that is still in use -/
def lowerFirstFree (p : MemoryPool) (blockIndex : ℕ) : MemoryPool :=
  { p with fFreeInd := if p.fFreeInd > blockIndex then blockIndex else p.fFreeInd }

end Noriko.Alloc
