/-
From an address back to its allocation (`__NkInt_PoolAllocGetHeaderForBlock`, `NkPoolGetBlockSize` and
`NkPoolGetAllocSize` of `alloc.c`).

`NkPoolAlloc` computes the address of a block from the end of the heads and their padding; the way back subtracts the size
of the head section, divides by the block size, and walks to the head that starts the allocation. The two padding formulas
are the same number as long as no size wraps. The pool itself is found by its address range, which is the size of its
heads, padding and blocks. The two queries are those of `Noriko.Locks`, called while their mutex is free.
-/
import Noriko.Alloc.Table
import Noriko.Locks

namespace Noriko.Alloc

open Lib

/-- `__NkInt_PoolAllocGetHeaderForBlock`: slot of the pool and index of the head -/
def getHeaderForBlock (s : PoolAllocContext) (memPtr : ℕ) : Option (ℕ × ℕ) :=
  (locateBlock s memPtr).map fun i => (i, headerForBlock (s.memPools i) memPtr)

/-! ## Well-formed pools -/

/-- bytes of heads, padding and blocks, without a wrap -/
def poolBytes (p : MemoryPool) : ℕ :=
  p.blockCount * (p.blockSize + headBytes) + p.blockCount * headBytes % blockAlign

/-- the counter counts the pools, their sizes do not wrap, their address ranges are apart, and the heads of the pool in
slot `i` are partitioned into the allocations `live i` and free heads -/
structure WellFormed (s : PoolAllocContext) (live : ℕ → List Extent) : Prop where
  count : s.nAllocPools = occBelow s maxPools
  noWrap : ∀ i < maxPools, Occupied s i → poolBytes (s.memPools i) < 2 ^ 32
  apart : ∀ i < maxPools, ∀ j < maxPools, Occupied s i → Occupied s j → i ≠ j →
    let p := s.memPools i
    let q := s.memPools j
    p.blockPtr + calcPoolSize p.blockCount p.blockSize blockAlign ≤ q.blockPtr ∨
      q.blockPtr + calcPoolSize q.blockCount q.blockSize blockAlign ≤ p.blockPtr
  heads : ∀ i < maxPools, Occupied s i → Partition (s.memPools i) (live i)

section Sizes

variable {p : MemoryPool}

theorem calcPoolSize_of_lt (h : poolBytes p < 2 ^ 32) : calcPoolSize p.blockCount p.blockSize blockAlign = poolBytes p := by
  rw [calcPoolSize_eq]
  exact Nat.mod_eq_of_lt h

theorem calcPoolHeadSize_of_poolBytes (h : poolBytes p < 2 ^ 32) :
    calcPoolHeadSize p.blockCount blockAlign = p.blockCount * headBytes + p.blockCount * headBytes % blockAlign := by
  unfold poolBytes at h
  rw [Nat.mul_add] at h
  simp only [calcPoolHeadSize, blockAlign, headBytes, u32] at h ⊢
  omega

/-- the blocks fill the pool to its end -/
theorem blockAddr_blockCount (p : MemoryPool) : blockAddr p p.blockCount = p.blockPtr + poolBytes p := by
  unfold blockAddr poolBytes
  rw [Nat.mul_add, Nat.mul_comm p.blockSize]
  omega

theorem blockAddr_mono (p : MemoryPool) {k n : ℕ} (h : k ≤ n) : blockAddr p k ≤ blockAddr p n :=
  Nat.add_le_add_left (Nat.mul_le_mul_left _ h) _

/-- a byte of a block lies in the address range of its pool -/
theorem isInsidePool_block (h : poolBytes p < 2 ^ 32) {k memPtr : ℕ} (hk : k ≤ p.blockCount)
    (h1 : p.blockPtr ≤ memPtr) (h2 : memPtr < blockAddr p k) : isInsidePool memPtr p = true := by
  have hend := blockAddr_mono p hk
  rw [blockAddr_blockCount] at hend
  simp only [isInsidePool, decide_eq_true_eq, calcPoolSize_of_lt h]
  omega

end Sizes

/-! ## The way back -/

section Locate

variable {s : PoolAllocContext} {live : ℕ → List Extent} {i : ℕ}

/-- an address in the range of a pool is found in that pool -/
theorem WellFormed.located (h : WellFormed s live) (hi : i < maxPools) (hocc : Occupied s i) {memPtr : ℕ}
    (hin : isInsidePool memPtr (s.memPools i) = true) : locateBlock s memPtr = some i := by
  rcases locateBlock_spec h.count.ge memPtr with ⟨j, hloc, hj, hjocc, hjin⟩ | ⟨-, hnone⟩
  · by_cases hij : i = j
    · rw [hloc, hij]
    · exfalso
      simp only [isInsidePool, decide_eq_true_eq] at hin hjin
      have hapart := h.apart i hi j hj hocc hjocc hij
      dsimp only at hapart
      omega
  · rw [hnone i hi hocc] at hin
    cases hin

theorem WellFormed.header (h : WellFormed s live) (hi : i < maxPools) (hocc : Occupied s i) {a : Extent}
    (ha : a ∈ live i) {memPtr : ℕ} (h1 : blockAddr (s.memPools i) a.first ≤ memPtr)
    (h2 : memPtr < blockAddr (s.memPools i) (a.first + a.count)) :
    locateBlock s memPtr = some i ∧ getHeaderForBlock s memPtr = some (i, a.first) := by
  have hpart := h.heads i hi hocc
  have hlow : (s.memPools i).blockPtr ≤ blockAddr (s.memPools i) a.first := by
    unfold blockAddr
    omega
  have hin := isInsidePool_block (h.noWrap i hi hocc) (hpart.run a ha).2 (hlow.trans h1) h2
  have hloc := h.located hi hocc hin
  refine ⟨hloc, ?_⟩
  rw [getHeaderForBlock, hloc, Option.map_some, headerForBlock_covered (Nat.pos_of_ne_zero hocc)
    (calcPoolHeadSize_of_poolBytes (h.noWrap i hi hocc)) (hpart.used a ha) h1 h2]

/-- Every byte of every block of an allocation leads back to its pool, its first head and its sizes. -/
theorem locate_allocation (h : WellFormed s live) (hi : i < maxPools) (hocc : Occupied s i) {a : Extent}
    (ha : a ∈ live i) {k off : ℕ} (hk : k < a.count) (hoff : off < (s.memPools i).blockSize)
    (misuses : ℕ) :
    let memPtr := blockAddr (s.memPools i) (a.first + k) + off
    let g : Guarded PoolAllocContext := ⟨false, misuses, s⟩
    getHeaderForBlock s memPtr = some (i, a.first) ∧
      poolGetBlockSize memPtr g = .returns (s.memPools i).blockSize g ∧
      poolGetAllocSize memPtr g = .returns ((s.memPools i).blockSize * a.count) g := by
  intro memPtr g
  have hpart := h.heads i hi hocc
  have h1 : blockAddr (s.memPools i) a.first ≤ memPtr :=
    (blockAddr_mono _ (Nat.le_add_right _ k)).trans (Nat.le_add_right _ off)
  have h2 : memPtr < blockAddr (s.memPools i) (a.first + a.count) := by
    have hnext := blockAddr_mono (s.memPools i) (show a.first + k + 1 ≤ a.first + a.count by omega)
    rw [blockAddr_add _ (a.first + k) 1] at hnext
    omega
  obtain ⟨hloc, hhead⟩ := h.header hi hocc ha h1 h2
  have hindex : headerForBlock (s.memPools i) memPtr = a.first := by
    rw [getHeaderForBlock, hloc] at hhead
    exact congrArg Prod.snd (Option.some.inj hhead)
  have hsize : (s.memPools i).blockSize * a.count < 2 ^ 32 := by
    have hroom := (hpart.run a ha).2
    refine lt_of_le_of_lt ?_ (h.noWrap i hi hocc)
    calc (s.memPools i).blockSize * a.count ≤ (s.memPools i).blockSize * (s.memPools i).blockCount :=
          Nat.mul_le_mul_left _ (by omega)
      _ ≤ poolBytes (s.memPools i) := by
          unfold poolBytes
          rw [Nat.mul_add, Nat.mul_comm]
          omega
  refine ⟨hhead, ?_, ?_⟩
  · unfold poolGetBlockSize
    rw [Sync.lock_get_run rfl, hloc]
    rfl
  · have hcount := allocCount_headOf a
    unfold allocCount at hcount
    unfold poolGetAllocSize
    rw [Sync.lock_get_run rfl, hloc]
    dsimp only
    rw [hindex, hpart.used a ha a.first (Extent.covers_first (hpart.run a ha).1), hcount, u32_of_lt hsize]
    rfl

end Locate

/-! ## The pools of the machine are well formed -/

/-- while the table is right, pools with aligned block sizes are well formed with the allocations that are live in them -/
theorem TableInv.wellFormed {s : Sys} (h : TableInv s)
    (h8 : ∀ i < maxPools, Occupied s.cxt i → (s.cxt.memPools i).blockSize % 8 = 0) :
    WellFormed s.cxt fun i => liveAt s (s.cxt.memPools i).blockPtr := by
  have hfits : ∀ i < maxPools, Occupied s.cxt i → ∃ c ∈ s.blocks, c.addr = (s.cxt.memPools i).blockPtr ∧
      poolBytes (s.cxt.memPools i) ≤ c.size ∧ c.size + pageSize ≤ 2 ^ 32 := by
    intro i hi hocc
    obtain ⟨c, hc, haddr, -, hlt, hfit⟩ := (h.inv.slot i hi hocc).block
    exact ⟨c, hc, haddr, hfit (h8 i hi hocc), hlt⟩
  have hwrap : ∀ i < maxPools, Occupied s.cxt i → poolBytes (s.cxt.memPools i) < 2 ^ 32 := by
    intro i hi hocc
    obtain ⟨c, -, -, hfit, hlt⟩ := hfits i hi hocc
    have hpage : 0 < pageSize := by decide
    omega
  refine ⟨h.table.count, hwrap, fun i hi j hj hocc hjocc hij => ?_, fun i hi hocc => (h.inv.slot i hi hocc).books.heads⟩
  dsimp only
  rw [calcPoolSize_of_lt (hwrap i hi hocc), calcPoolSize_of_lt (hwrap j hj hjocc)]
  obtain ⟨c, hc, hcaddr, hcfit, -⟩ := hfits i hi hocc
  obtain ⟨d, hd, hdaddr, hdfit, -⟩ := hfits j hj hjocc
  have hne : c.addr ≠ d.addr := by
    rw [hcaddr, hdaddr]
    exact fun heq => hij (h.inv.sep i hi j hj hocc hjocc heq)
  rcases HeapSpan.apart_of_mem h.inv.apart hc hd hne with hcd | hdc
  · have hmax := Nat.le_max_right 1 c.size
    left
    omega
  · have hmax := Nat.le_max_right 1 d.size
    right
    omega

/-- three blocks of 72 bytes in a new pool, which has 153 blocks and so padding behind its heads -/
def threeBlocks : Sys where
  cxt := (allocAt (withNewPool zeroContext defBlockCount 72 (clearBlock 65536)) none 0 0 3).cxt
  blocks := [⟨65536, 12288⟩]
  live := [⟨blockAddr (newPool 153 72 (clearBlock 65536)) 0, 72, 3, 65536, 0⟩]

theorem tableInv_threeBlocks : TableInv threeBlocks ∧ ∀ i, Occupied threeBlocks.cxt i ↔ i = 0 := by
  have hl : Legal init (.alloc 72 3 (some (clearBlock 65536))) := legal_init (by decide) (by decide) (by decide)
  have hf : Fits init (.alloc 72 3 (some (clearBlock 65536))) := fun _ => by decide
  have hk : KeepsSlots init (.alloc 72 3 (some (clearBlock 65536))) :=
    fun _ => Or.inl ⟨1, by decide, by decide, fun h => h rfl⟩
  have hs : step init (.alloc 72 3 (some (clearBlock 65536))) = some threeBlocks :=
    step_first 72 (by decide) (clearBlock 65536)
  refine ⟨step_tableInv tableInv_init hl hf hk hs, fun i => ?_⟩
  rw [threeBlocks, (sameTable_allocAt ..).occ, occupied_withNewPool (by decide)]
  exact ⟨fun hc => hc.resolve_right fun h => h rfl, Or.inl⟩

/-- a byte in the middle of the second block -/
theorem locate_threeBlocks :
    let memPtr := blockAddr (threeBlocks.cxt.memPools 0) 1 + 40
    let g : Guarded PoolAllocContext := ⟨false, 0, threeBlocks.cxt⟩
    getHeaderForBlock threeBlocks.cxt memPtr = some (0, 0) ∧ poolGetBlockSize memPtr g = .returns 72 g ∧
      poolGetAllocSize memPtr g = .returns (72 * 3) g := by
  obtain ⟨hinv, hocc⟩ := tableInv_threeBlocks
  have hwf := hinv.wellFormed fun i _ hi => by rw [(hocc i).1 hi]; decide
  have hlive : (⟨0, 3⟩ : Extent) ∈ liveAt threeBlocks (threeBlocks.cxt.memPools 0).blockPtr := by decide
  have hoff : 40 < (threeBlocks.cxt.memPools 0).blockSize := by decide
  exact locate_allocation hwf (by decide) ((hocc 0).2 rfl) hlive (by decide : 1 < 3) hoff 0

end Noriko.Alloc
