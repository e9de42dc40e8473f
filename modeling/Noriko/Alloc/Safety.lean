/-
Safety of the pool allocator over whole runs: what `NkPoolAlloc` hands out is a range of blocks of one pool of the size
asked for, inside the heap block of that pool, and apart from every allocation that is still live.

A new pool always has the default block count, whatever the request, so this fails for a request that needs a new pool
and does not fit into it. `safeAlloc_iff_fits` is the exact condition, at the end of every run of calls that meet it;
`alloc_overrun` is the request for 300 blocks of 8 bytes that is placed in a pool of 256.
-/
import Noriko.Alloc.Steps

namespace Noriko.Alloc

open Lib

/-- the result of an allocation is a range of blocks of one pool of the block size, inside the heap block of the pool,
and shares no byte with a live allocation -/
structure AllocSafe (s : Sys) (blockSize blockCount : ℕ) (r : AllocResult) : Prop where
  slot : r.slot < maxPools
  size : (r.cxt.memPools r.slot).blockSize = blockSize
  start : r.memPtr = blockAddr (r.cxt.memPools r.slot) r.blockIndex
  room : r.blockIndex + blockCount ≤ (r.cxt.memPools r.slot).blockCount
  inside : ∃ c ∈ r.taken.toList ++ s.blocks, c.addr = (r.cxt.memPools r.slot).blockPtr ∧ c.addr ≤ r.memPtr ∧
    r.memPtr + blockSize * blockCount ≤ c.addr + c.size
  apart : ∀ b ∈ s.live, r.memPtr + blockSize * blockCount ≤ b.addr ∨
    b.addr + b.blockSize * b.blockCount ≤ r.memPtr

/-- the allocation returns, and what it hands out is safe -/
def SafeAlloc (s : Sys) (blockSize blockCount : ℕ) (heap : Option HeapBlock) : Prop :=
  ∃ r, poolAlloc s.cxt blockSize blockCount heap = some r ∧ (r.code = .ok → AllocSafe s blockSize blockCount r)

/-- `lbl_ALLOCBLOCK` changes neither the size nor the place of the pool -/
theorem allocAt_pool (s : PoolAllocContext) (taken : Option HeapSpan) (i ind n : ℕ) :
    let p := (allocAt s taken i ind n).cxt.memPools (allocAt s taken i ind n).slot
    p.blockSize = (s.memPools i).blockSize ∧ p.blockCount = (s.memPools i).blockCount ∧
      p.blockPtr = (s.memPools i).blockPtr ∧ blockAddr p ind = blockAddr (s.memPools i) ind := by
  simp [allocAt, allocBlocks, blockAddr]

/-- placing at the first-free index of a pool with a free range there is safe -/
theorem allocSafe_place {s : Sys} (h : Inv s) (taken : Option HeapSpan) (blocks : List HeapSpan) {i n : ℕ}
    (hb : s.blocks = taken.toList ++ blocks) (hi : i < maxPools) (hocc : Occupied s.cxt i) (hn : 1 ≤ n)
    (h8 : (s.cxt.memPools i).blockSize % 8 = 0)
    (hroom : (s.cxt.memPools i).fFreeInd + n ≤ (s.cxt.memPools i).blockCount)
    (hfree : ∀ k, (s.cxt.memPools i).fFreeInd ≤ k → k < (s.cxt.memPools i).fFreeInd + n →
      (s.cxt.memPools i).heads k = freeHead) (cxt : PoolAllocContext) :
    AllocSafe ⟨cxt, blocks, s.live⟩ (s.cxt.memPools i).blockSize n
      (allocAt s.cxt taken i (s.cxt.memPools i).fFreeInd n) := by
  obtain ⟨hsize, hcount, hptr, haddr⟩ := allocAt_pool s.cxt taken i (s.cxt.memPools i).fFreeInd n
  obtain ⟨d, hd, hdaddr, -, -, hdfit⟩ := (h.slot i hi hocc).block
  have hlow := blockAddr_ge (p := s.cxt.memPools i) (by omega) (s.cxt.memPools i).fFreeInd
  have hend := blockAddr_le (hdfit h8) hroom
  rw [blockAddr_add, ← hdaddr] at hend
  rw [← hdaddr] at hlow
  exact ⟨hi, hsize, haddr.symm, hroom.trans hcount.ge,
    ⟨d, hb ▸ hd, hdaddr.trans hptr.symm, (Nat.le_add_right _ 16).trans hlow, hend⟩,
    fun b hbl => apart_of_free h hi hocc hn hroom h8 hfree hbl⟩

/-- a legal allocation from a state of the invariant is safe exactly if it fits -/
theorem safeAlloc_iff_of_inv {s : Sys} (h : Inv s) {bs n : ℕ} {heap : Option HeapBlock}
    (hl : Legal s (.alloc bs n heap)) : SafeAlloc s bs n heap ↔ Fits s (.alloc bs n heap) := by
  obtain ⟨⟨hbs0, h8, -⟩, ⟨hn0, -⟩, hheap⟩ := hl
  have hn : 1 ≤ n := Nat.pos_of_ne_zero hn0
  unfold SafeAlloc
  rcases poolAlloc_cases h bs hn heap with
    ⟨i, hfind, hi, hocc, rfl, hroom, hfree, hr⟩ | ⟨hnot, hr⟩ | ⟨b, rfl, hcr, hr⟩
  · refine ⟨fun _ hcr => ?_, fun _ => ⟨_, hr, fun _ => ?_⟩⟩
    · have hnone := hcr.1
      rw [hfind] at hnone
      cases hnone
    · exact allocSafe_place h none s.blocks rfl hi hocc hn h8 hroom hfree s.cxt
  · exact ⟨fun _ hcr => absurd hcr hnot, fun _ => ⟨_, hr, fun hok => NkErrorCode.noConfusion hok⟩⟩
  · have h1 := inv_withNewPool h hbs0 hcr.2.1 hheap
    have hp := withNewPool_self s.cxt defBlockCount bs b
    constructor
    · -- the blocks handed out are below the block count of the new pool
      rintro ⟨r, hr', hsafe⟩ -
      rw [hr] at hr'
      cases hr'
      have hroom := (hsafe rfl).room
      rw [(allocAt_pool ..).2.1, hp] at hroom
      exact (Nat.le_add_left ..).trans hroom
    · intro hf
      have hplace := newPool_place (b := b) (hf hcr)
      rw [← hp] at hplace
      have hff0 : ((withNewPool s.cxt defBlockCount bs b).memPools s.cxt.firstFreePool).fFreeInd = 0 := by
        rw [hp]
        rfl
      have hbs : ((withNewPool s.cxt defBlockCount bs b).memPools s.cxt.firstFreePool).blockSize = bs := by
        rw [hp]
        rfl
      have hsafe := allocSafe_place h1 (some ⟨b.addr, (newPoolMetrics defBlockCount bs).1⟩)
        s.blocks rfl (h.ff.resolve_left hcr.2.1).1 ((occupied_withNewPool hbs0 _).2 (Or.inl rfl)) hn
        (by rw [hbs]; exact h8) hplace.1 hplace.2 s.cxt
      rw [hff0, hbs] at hsafe
      exact ⟨_, hr, fun _ => hsafe⟩

/-- In every state that is reached by legal calls which fit, a legal allocation returns and is safe exactly if it fits:
it needs no new pool, or the new pool has as many blocks as it asks for. -/
theorem safeAlloc_iff_fits {ops : List Op} {s : Sys}
    (hrun : Runs step (fun s o => Legal s o ∧ Fits s o) init ops s) (blockSize blockCount : ℕ)
    (heap : Option HeapBlock) (hl : Legal s (.alloc blockSize blockCount heap)) :
    SafeAlloc s blockSize blockCount heap ↔ Fits s (.alloc blockSize blockCount heap) :=
  safeAlloc_iff_of_inv (run_inv hrun) hl

/-- one block is allocated, then two more in the same pool while the heap fails -/
theorem safeAlloc_second : ∃ s, Runs step (fun s o => Legal s o ∧ Fits s o) init
    [.alloc 8 1 (some (clearBlock 65536))] s ∧ (SafeAlloc s 8 2 none ↔ Fits s (.alloc 8 2 none)) := by
  have hl : Legal init (.alloc 8 1 (some (clearBlock 65536))) := legal_init (by decide) (by decide) (by decide)
  have hf : Fits init (.alloc 8 1 (some (clearBlock 65536))) := fun _ => by decide
  obtain ⟨r, hr, -⟩ := (safeAlloc_iff_of_inv inv_init hl).2 hf
  obtain ⟨s, hs⟩ : ∃ s, step init (.alloc 8 1 (some (clearBlock 65536))) = some s := by
    simp only [step]
    exact ⟨_, congrArg (Option.map _) hr⟩
  have hrun : Runs step (fun s o => Legal s o ∧ Fits s o) init [.alloc 8 1 (some (clearBlock 65536))] s :=
    .cons ⟨hl, hf⟩ hs (.nil _)
  exact ⟨s, hrun, safeAlloc_iff_fits hrun 8 2 none ⟨by decide, by decide, fun b hb => by cases hb⟩⟩

/-- the first call asks for 300 blocks of 8 bytes: the new pool has 256, so the allocation passes its end -/
theorem alloc_overrun : (newPoolMetrics defBlockCount 8).2 = 256 ∧
    ¬ ∀ ops s, Runs step Legal init ops s → ∀ blockSize blockCount heap,
      Legal s (.alloc blockSize blockCount heap) → SafeAlloc s blockSize blockCount heap := by
  refine ⟨by decide, fun h => ?_⟩
  have hl : Legal init (.alloc 8 300 (some (clearBlock 65536))) := legal_init (by decide) (by decide) (by decide)
  have hfits := (safeAlloc_iff_of_inv inv_init hl).1 (h [] init (.nil _) 8 300 _ hl)
  exact absurd (hfits (createsPool_init 8 300 _)) (by decide)

end Noriko.Alloc
