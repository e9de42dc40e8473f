/-
The pool allocator (`alloc.c`): the global pool table and `NkPoolAlloc`, `NkPoolReserve` and `NkPoolFree` on it.

The general-purpose heap is the environment. Each call that may reach `NkGPAlloc` carries the outcome of that call, a
heap block or a failure; `HeapOk` is the contract of the outcome (the block overlaps no block that is in use).

`Sys` adds to the context what the source does not store: the heap blocks in use and the allocations handed out and not
yet freed. The ghost part is written by `step` from what the calls return and is never read by them.
-/
import Noriko.Alloc.Blocks

namespace Noriko.Alloc

open Lib

/-! ## The context -/

structure PoolAllocContext where
  nAllocPools : ℕ
  firstFreePool : ℕ
  memPools : ℕ → MemoryPool

/-- `gl_PoolAllocCxt` before the first call -/
def zeroContext : PoolAllocContext := ⟨0, 0, fun _ => emptySlot⟩

/-- a slot holds a pool if its block size is not 0 -/
def Occupied (s : PoolAllocContext) (i : ℕ) : Prop := (s.memPools i).blockSize ≠ 0

instance (s : PoolAllocContext) (i : ℕ) : Decidable (Occupied s i) := inferInstanceAs (Decidable (_ ≠ _))

/-- bytes `addr` to `addr + size` of the heap -/
structure HeapSpan where
  addr : ℕ
  size : ℕ
deriving DecidableEq, Repr

/-- two heap blocks share no byte; a block of size 0 still has an address of its own -/
def HeapSpan.Apart (c d : HeapSpan) : Prop := c.addr + max 1 c.size ≤ d.addr ∨ d.addr + max 1 d.size ≤ c.addr

theorem HeapSpan.Apart.symm {c d : HeapSpan} (h : c.Apart d) : d.Apart c := Or.symm h

/-- even an empty span takes up one byte, so two spans that lie apart begin at different addresses -/
theorem HeapSpan.Apart.addr_ne {c d : HeapSpan} (h : c.Apart d) : c.addr ≠ d.addr := by
  have := Nat.le_max_left 1 c.size
  have := Nat.le_max_left 1 d.size
  rcases h with hcd | hdc
  · omega
  · omega

/-! ## Requesting a pool -/

structure PoolRequest where
  code : NkErrorCode
  cxt : PoolAllocContext
  /-- slot of the new pool -/
  poolPtr : Option ℕ
  /-- heap block that was obtained -/
  taken : Option HeapSpan

def requestNewPool (s : PoolAllocContext) (blockCount blockSize : ℕ) (heap : Option HeapBlock) : PoolRequest :=
  if s.firstFreePool = uint32Max then ⟨.memoryAllocation, s, none, none⟩
  else
    let metrics := newPoolMetrics blockCount blockSize
    match heap with
    | none => ⟨.memoryAllocation, s, none, none⟩
    | some b =>
      let memPools := Function.update s.memPools s.firstFreePool (newPool metrics.2 blockSize b)
      let nAllocPools := u32 (s.nAllocPools + 1)
      -- the search starts at the slot just taken and leaves the index alone if it finds nothing above
      let firstFreePool :=
        if nAllocPools = maxPools then uint32Max
        else ((upto s.firstFreePool maxPools).find? (fun i => (memPools i).blockSize = 0)).getD s.firstFreePool
      ⟨.ok, ⟨nAllocPools, firstFreePool, memPools⟩, some s.firstFreePool, some ⟨b.addr, metrics.1⟩⟩

/-! ## Walking the pool table -/

/-- the loop over the pool table of `NkPoolAlloc` and `__NkInt_PoolAllocLocateBlock`: empty slots are skipped, and the
loop ends once it has visited as many pools as `nAllocPools` says there are. `visit` answers "take this pool", "go on",
or `none` if it does not return. -/
def scanPools {α : Type} (s : PoolAllocContext) (visit : MemoryPool → Option (Option α)) :
    ℕ → ℕ → ℕ → Option (Option (ℕ × α))
  | 0, _, _ => some none
  | n + 1, i, j =>
    if j < s.nAllocPools then
      if (s.memPools i).blockSize = 0 then scanPools s visit n (i + 1) j
      else
        match visit (s.memPools i) with
        | none => none
        | some (some a) => some (some (i, a))
        | some none => scanPools s visit n (i + 1) (j + 1)
    else some none

/-- a pool of the block size takes the request if it has a range for it -/
def rangeInPool (blockSize blockCount : ℕ) (p : MemoryPool) : Option (Option ℕ) :=
  if p.blockSize = blockSize then
    (findRangeInPool p blockCount).map (fun i => if i = uint32Max then none else some i)
  else some none

/-- slot and block index of the first pool that can take the request -/
def findPool (s : PoolAllocContext) (blockSize blockCount : ℕ) : Option (Option (ℕ × ℕ)) :=
  scanPools s (rangeInPool blockSize blockCount) maxPools 0 0

/-- slot of the pool an address lies in; `none` for `UINT32_MAX` -/
def locateBlock (s : PoolAllocContext) (memPtr : ℕ) : Option ℕ :=
  match scanPools s (fun p => some (if isInsidePool memPtr p then some () else none)) maxPools 0 0 with
  | some (some (i, _)) => some i
  | _ => none

/-! ## The calls -/

structure AllocResult where
  code : NkErrorCode
  cxt : PoolAllocContext
  memPtr : ℕ
  /-- slot and block index of the allocation, as the trace message reports them -/
  slot : ℕ
  blockIndex : ℕ
  taken : Option HeapSpan

/-- `lbl_ALLOCBLOCK` on the pool in slot `i` -/
def allocAt (s : PoolAllocContext) (taken : Option HeapSpan) (i blockIndex blockCount : ℕ) : AllocResult where
  code := .ok
  cxt := { s with memPools := Function.update s.memPools i (allocBlocks (s.memPools i) blockIndex blockCount) }
  memPtr := blockAddr (s.memPools i) blockIndex
  slot := i
  blockIndex := blockIndex
  taken := taken

/-- `NkPoolAlloc`; a new pool is always requested with the default block count -/
def poolAlloc (s : PoolAllocContext) (blockSize blockCount : ℕ) (heap : Option HeapBlock) : Option AllocResult :=
  match findPool s blockSize blockCount with
  | none => none
  | some (some (i, blockIndex)) => some (allocAt s none i blockIndex blockCount)
  | some none =>
    let r := requestNewPool s defBlockCount blockSize heap
    match r.poolPtr with
    | none => some ⟨r.code, r.cxt, 0, 0, 0, r.taken⟩
    | some i => some (allocAt r.cxt r.taken i 0 blockCount)

def poolReserve (s : PoolAllocContext) (blockSize blockCount : ℕ) (heap : Option HeapBlock) : PoolRequest :=
  requestNewPool s blockCount blockSize heap

/-- `NkPoolFree`, with the address it hands to `NkGPFree` -/
def poolFree (s : PoolAllocContext) (memPtr : ℕ) : PoolAllocContext × Option ℕ :=
  if memPtr = 0 then (s, none)
  else
    match locateBlock s memPtr with
    | none => (s, none)
    | some i =>
      let blockIndex := headerForBlock (s.memPools i) memPtr
      let p := releaseBlocks (s.memPools i) blockIndex
      if p.nAllocBlocks > 0 then
        ({ s with memPools := Function.update s.memPools i (lowerFirstFree p blockIndex) }, none)
      else
        -- slot i itself is reset only after the search, and the search does not stop at its first hit
        ({ nAllocPools := sub32 s.nAllocPools 1
           firstFreePool := lastIn (fun k => (s.memPools k).blockSize = 0) i maxPools s.firstFreePool
           memPools := Function.update s.memPools i emptySlot }, some p.blockPtr)

/-! ## The allocator as a machine -/

/-- an allocation that was handed out: its address, what was asked for, and the pool and block it was placed at -/
structure Allocation where
  addr : ℕ
  blockSize : ℕ
  blockCount : ℕ
  pool : ℕ
  ind : ℕ
deriving DecidableEq, Repr

def Allocation.extent (a : Allocation) : Extent := ⟨a.ind, a.blockCount⟩

/-- two allocations share no byte -/
def Allocation.Apart (a b : Allocation) : Prop :=
  a.addr + a.blockSize * a.blockCount ≤ b.addr ∨ b.addr + b.blockSize * b.blockCount ≤ a.addr

structure Sys where
  cxt : PoolAllocContext
  blocks : List HeapSpan
  live : List Allocation

inductive Op where
  | alloc (blockSize blockCount : ℕ) (heap : Option HeapBlock)
  | reserve (blockSize blockCount : ℕ) (heap : Option HeapBlock)
  | free (a : Allocation)

def init : Sys := ⟨zeroContext, [], []⟩

def step (s : Sys) : Op → Option Sys
  | .alloc blockSize blockCount heap =>
    (poolAlloc s.cxt blockSize blockCount heap).map fun r =>
      if r.code = .ok then
        ⟨r.cxt, r.taken.toList ++ s.blocks,
          ⟨r.memPtr, blockSize, blockCount, (r.cxt.memPools r.slot).blockPtr, r.blockIndex⟩ :: s.live⟩
      else { s with cxt := r.cxt }
  | .reserve blockSize blockCount heap =>
    let r := poolReserve s.cxt blockSize blockCount heap
    some ⟨r.cxt, r.taken.toList ++ s.blocks, s.live⟩
  | .free a =>
    let r := poolFree s.cxt a.addr
    some ⟨r.1, s.blocks.filter (fun c => r.2 ≠ some c.addr), s.live.erase a⟩

/-- the heap's contract: a block it hands out is not `NULL` and overlaps no block in use -/
def HeapOk (s : Sys) (size : ℕ) (heap : Option HeapBlock) : Prop :=
  ∀ b ∈ heap, b.addr ≠ 0 ∧ ∀ c ∈ s.blocks, HeapSpan.Apart ⟨b.addr, size⟩ c

/-- the asserted preconditions of the calls, the heap's contract, and only live pointers are freed -/
def Legal (s : Sys) : Op → Prop
  | .alloc blockSize blockCount heap => (blockSize ≠ 0 ∧ blockSize % 8 = 0 ∧ blockSize < 2 ^ 32) ∧
      (blockCount ≠ 0 ∧ blockCount < 2 ^ 32) ∧ HeapOk s (newPoolMetrics defBlockCount blockSize).1 heap
  | .reserve blockSize blockCount heap => (blockSize ≠ 0 ∧ blockSize < 2 ^ 32) ∧
      (blockCount ≠ 0 ∧ blockCount < 2 ^ 32) ∧ HeapOk s (newPoolMetrics blockCount blockSize).1 heap
  | .free a => a ∈ s.live

/-- the call gets a heap block and sets up a pool: no pool can take the request, a slot is on offer and the heap
answers -/
def CreatesPool (s : Sys) : Op → Prop
  | .alloc blockSize blockCount heap => findPool s.cxt blockSize blockCount = some none ∧
      s.cxt.firstFreePool ≠ uint32Max ∧ heap.isSome
  | .reserve _ _ heap => s.cxt.firstFreePool ≠ uint32Max ∧ heap.isSome
  | .free _ => False

/-- an allocation that has to create a pool asks for no more blocks than a pool of the default size holds -/
def Fits (s : Sys) : Op → Prop
  | .alloc blockSize blockCount heap => CreatesPool s (.alloc blockSize blockCount heap) →
      blockCount ≤ (newPoolMetrics defBlockCount blockSize).2
  | _ => True

end Noriko.Alloc
