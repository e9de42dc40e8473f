/-
Bookkeeping inside one memory pool: the block heads, the block count and the first-free index of `alloc.c`.

The machine below is one pool that `__NkInt_PoolAllocRequestNewPool` has created. Its operations are the block part of
`NkPoolAlloc` (`take`, and `takeNew` for the pool `NkPoolAlloc` has just created, where no search is made) and the block
part of `NkPoolFree` (`give`, through a pointer to any byte of the allocation). `live` is the abstract state: the
extents of the allocations that have not been freed.

`Bookkeeping` says what the heads, the counter and the index mean in terms of `live`. `PoolInv` is the invariant that
carries it; it also covers a pool without blocks, which a wrapped pool size produces. There the first-free index
starts as 0 although no head is free, so `Bookkeeping` holds in every run exactly if the pool got a block
(`booksKept_iff`).
-/
import Noriko.Alloc.Search
import Noriko.Lib.Run
import Mathlib.Data.Nat.Bitwise

namespace Noriko.Alloc

open Lib

/-! ## Sizes of a new pool -/

/-- the requested size is the least number of whole pages that holds the pool, cut to 32 bits -/
theorem newPoolMetrics_pages (n bs : ℕ) :
    (newPoolMetrics n bs).1 = (4096 * ((calcPoolSize n bs blockAlign + 4095) / 4096)) % 2 ^ 32 := by
  show u32 (_ + if _ then _ else _) = _
  rw [u32]
  congr 1
  by_cases h : calcPoolSize n bs blockAlign % pageSize = 0
  · rw [if_neg (not_not.2 h)]
    simp only [pageSize] at h
    omega
  · rw [if_pos h]
    simp only [pageSize] at h ⊢
    omega

theorem newPoolMetrics_dvd (n bs : ℕ) : pageSize ∣ (newPoolMetrics n bs).1 := by
  rw [newPoolMetrics_pages, pageSize]
  omega

theorem newPoolMetrics_lt (n bs : ℕ) : (newPoolMetrics n bs).1 + pageSize ≤ 2 ^ 32 := by
  have h1 := newPoolMetrics_dvd n bs
  have h2 : (newPoolMetrics n bs).1 < 2 ^ 32 := u32_lt _
  simp only [pageSize] at h1 ⊢
  omega

theorem newPoolMetrics_le (n bs : ℕ) :
    (newPoolMetrics n bs).2 * (bs + headBytes) ≤ (newPoolMetrics n bs).1 :=
  Nat.div_mul_le_self _ _

/-- the heads of a new pool, with padding, stay below the wrap -/
theorem newPoolMetrics_heads (n bs : ℕ) : (newPoolMetrics n bs).2 * headBytes + 8 < 2 ^ 32 := by
  have h1 := newPoolMetrics_le n bs
  have h2 := newPoolMetrics_lt n bs
  rw [Nat.mul_add] at h1
  simp only [pageSize] at h2
  omega

theorem calcPoolHeadSize_of_lt {m : ℕ} (h : m * headBytes + 8 < 2 ^ 32) :
    calcPoolHeadSize m blockAlign = m * headBytes + m * headBytes % blockAlign := by
  simp only [calcPoolHeadSize, blockAlign, headBytes, u32] at h ⊢
  omega

/-! ## Extents -/

/-- `count` blocks from block `first` on -/
structure Extent where
  first : ℕ
  count : ℕ
deriving DecidableEq, Repr

def Extent.Covers (a : Extent) (k : ℕ) : Prop := a.first ≤ k ∧ k < a.first + a.count

instance (a : Extent) (k : ℕ) : Decidable (a.Covers k) := inferInstanceAs (Decidable (_ ∧ _))

/-- two extents share no block -/
def Extent.Apart (a b : Extent) : Prop := ∀ k, a.Covers k → ¬ b.Covers k

theorem Extent.Apart.symm {a b : Extent} (h : a.Apart b) : b.Apart a := fun k hb ha => h k ha hb

theorem Extent.covers_first {a : Extent} (h : 1 ≤ a.count) : a.Covers a.first := ⟨le_rfl, by omega⟩

/-- the head of block `k` of a live allocation: one `Single` head, or a `StartOfMulti` head that holds the count,
followed by `PartOfMulti` heads -/
def headOf (a : Extent) (k : ℕ) : BlockHead :=
  if a.count = 1 then ⟨tySingle, 0⟩
  else if k = a.first then ⟨tyStartOfMulti ||| tyPartOfMulti, a.count⟩
  else ⟨tyPartOfMulti, 0⟩

theorem headOf_flags (a : Extent) (k : ℕ) : (headOf a k).blockFlags ≠ 0 := by
  unfold headOf
  split_ifs <;> simp [tySingle, tyStartOfMulti, tyPartOfMulti]

theorem headOf_ne_free (a : Extent) (k : ℕ) : headOf a k ≠ freeHead :=
  fun h => headOf_flags a k (by rw [h]; rfl)

theorem allocCount_headOf (a : Extent) : allocCount (headOf a a.first) = a.count := by
  unfold headOf
  rw [if_pos (rfl : a.first = a.first)]
  split_ifs with h1
  · rw [h1]; rfl
  · simp [allocCount, tySingle, tyStartOfMulti, tyPartOfMulti]

/-! ## What the bookkeeping means -/

/-- the block heads are partitioned into free heads and the runs of the live allocations -/
structure Partition (p : MemoryPool) (live : List Extent) : Prop where
  run : ∀ a ∈ live, 1 ≤ a.count ∧ a.first + a.count ≤ p.blockCount
  apart : live.Pairwise Extent.Apart
  used : ∀ a ∈ live, ∀ k, a.Covers k → p.heads k = headOf a k
  free : ∀ k < p.blockCount, (∀ a ∈ live, ¬ a.Covers k) → p.heads k = freeHead

/-- number of heads that are not free -/
def usedBlocks (p : MemoryPool) : ℕ := ((Finset.range p.blockCount).filter (fun k => p.heads k ≠ freeHead)).card

/-- the first-free index is the least free index, or `uint32Max` exactly if no head is free -/
def LeastFree (p : MemoryPool) : Prop :=
  (p.fFreeInd < p.blockCount ∧ p.heads p.fFreeInd = freeHead ∧ ∀ k < p.fFreeInd, p.heads k ≠ freeHead) ∨
    (p.fFreeInd = uint32Max ∧ ∀ k < p.blockCount, p.heads k ≠ freeHead)

structure Bookkeeping (p : MemoryPool) (live : List Extent) : Prop where
  heads : Partition p live
  count : p.nAllocBlocks = usedBlocks p
  first : LeastFree p

/-- the invariant of a pool; a pool without blocks keeps the first-free index it was created with -/
structure PoolInv (p : MemoryPool) (live : List Extent) : Prop where
  bound : p.blockCount * headBytes + 8 < 2 ^ 32
  heads : Partition p live
  count : p.nAllocBlocks = usedBlocks p
  first : p.blockCount ≠ 0 → LeastFree p
  none : p.blockCount = 0 → p.fFreeInd = 0

theorem PoolInv.blockCount_lt {p : MemoryPool} {live : List Extent} (h : PoolInv p live) :
    p.blockCount < uint32Max := by
  have := h.bound
  simp only [headBytes, uint32Max] at this ⊢
  omega

theorem bookkeeping_iff {p : MemoryPool} {live : List Extent} (h : PoolInv p live) :
    Bookkeeping p live ↔ 1 ≤ p.blockCount := by
  constructor
  · intro hb
    by_contra h0
    have hnone := h.none (by omega)
    rcases hb.first with ⟨hlt, -, -⟩ | ⟨heq, -⟩
    · omega
    · rw [hnone] at heq
      exact absurd heq (by decide)
  · intro hpos
    exact ⟨h.heads, h.count, h.first (by omega)⟩

/-- a head is free exactly if its flags are clear -/
theorem Partition.flags_eq_zero {p : MemoryPool} {live : List Extent} (h : Partition p live) {k : ℕ}
    (hk : k < p.blockCount) : (p.heads k).blockFlags = 0 ↔ p.heads k = freeHead := by
  constructor
  · intro h0
    by_cases hc : ∃ a ∈ live, a.Covers k
    · obtain ⟨a, ha, hak⟩ := hc
      rw [h.used a ha k hak] at h0
      exact absurd h0 (headOf_flags a k)
    · exact h.free k hk (fun a ha hak => hc ⟨a, ha, hak⟩)
  · intro h0
    rw [h0]; rfl

theorem Partition.not_covered {p : MemoryPool} {live : List Extent} (h : Partition p live) {k : ℕ}
    (hk : p.heads k = freeHead) : ∀ a ∈ live, ¬ a.Covers k := by
  intro a ha hak
  rw [h.used a ha k hak] at hk
  exact headOf_ne_free a k hk

theorem poolInv_newPool (n bs : ℕ) (b : HeapBlock) :
    PoolInv (newPool (newPoolMetrics n bs).2 bs b) [] := by
  set m := (newPoolMetrics n bs).2
  have hfree : ∀ k < m, (newPool m bs b).heads k = freeHead := fun k hk => if_pos hk
  refine ⟨newPoolMetrics_heads n bs, ⟨by simp, .nil, by simp, fun k hk _ => hfree k hk⟩, ?_, ?_, fun _ => rfl⟩
  · symm
    refine Finset.card_eq_zero.2 (Finset.filter_eq_empty_iff.2 ?_)
    intro k hk hne
    exact hne (hfree k (Finset.mem_range.1 hk))
  · intro hm
    exact Or.inl ⟨Nat.pos_of_ne_zero hm, hfree 0 (Nat.pos_of_ne_zero hm), fun k hk => absurd hk (Nat.not_lt_zero k)⟩

/-! ## Searching -/

/-- the search places a request at the first-free index or nowhere: when the run of free heads there is too short,
`lbl_FINDNEXT` skips the rest of the pool -/
theorem findRangeInPool_spec {p : MemoryPool} {live : List Extent} (h : PoolInv p live) {n : ℕ} (hn : 1 ≤ n) :
    findRangeInPool p n = some uint32Max ∨
      (findRangeInPool p n = some p.fFreeInd ∧ p.fFreeInd + n ≤ p.blockCount ∧
        ∀ k, p.fFreeInd ≤ k → k < p.fFreeInd + n → p.heads k = freeHead) := by
  have hff : p.fFreeInd = uint32Max ∨ p.fFreeInd ≤ p.blockCount := by
    by_cases h0 : p.blockCount = 0
    · rw [h.none h0]
      exact Or.inr (Nat.zero_le _)
    · rcases h.first h0 with ⟨hlt, -, -⟩ | ⟨hmax, -⟩
      · exact Or.inr (Nat.le_of_lt hlt)
      · exact Or.inl hmax
  have hsize : p.blockCount < 2 ^ 32 := h.blockCount_lt.trans (by decide)
  have heq := (findRangeInPool_eq hsize hn hff).1
  by_cases hfits : FreeRange p p.fFreeInd n
  · rw [if_pos hfits] at heq
    refine Or.inr ⟨heq, hfits.1, fun k hk1 hk2 => ?_⟩
    obtain ⟨j, rfl⟩ := Nat.exists_eq_add_of_le hk1
    have hroom := hfits.1
    exact (h.heads.flags_eq_zero (by omega)).1 (hfits.2 j (by omega))
  · rw [if_neg hfits] at heq
    exact Or.inl heq

/-- a new pool takes every request it has room for at index 0, where `NkPoolAlloc` puts it without a search -/
theorem findRangeInPool_newPool {m bs n : ℕ} (b : HeapBlock) (hm : m < uint32Max) (hn : 1 ≤ n) (hnm : n ≤ m) :
    findRangeInPool (newPool m bs b) n = some 0 := by
  have hfits : FreeRange (newPool m bs b) 0 n := by
    refine ⟨by simpa [newPool] using hnm, fun k hk => ?_⟩
    have hfree : (newPool m bs b).heads (0 + k) = freeHead := if_pos (by omega)
    rw [hfree]
    rfl
  have hsize : (newPool m bs b).blockCount < 2 ^ 32 := hm.trans (by decide)
  have heq := (findRangeInPool_eq hsize hn (Or.inr (Nat.zero_le _))).1
  rwa [show (newPool m bs b).fFreeInd = 0 from rfl, if_pos hfits] at heq

/-! ## Taking blocks -/

/-- taking free blocks writes the heads of the new allocation and no other head -/
theorem allocBlocks_heads {p : MemoryPool} {a : Extent} (hn : 1 ≤ a.count) (hw : a.first + a.count < 2 ^ 32)
    (hfree : ∀ k, a.Covers k → p.heads k = freeHead) (k : ℕ) :
    (allocBlocks p a.first a.count).heads k = if a.Covers k then headOf a k else p.heads k := by
  have h0 : p.heads a.first = freeHead := hfree a.first (Extent.covers_first hn)
  simp only [allocBlocks, u32_of_lt hw]
  by_cases h1 : a.count = 1
  · have hcov : a.Covers k ↔ k = a.first := by
      simp only [Extent.Covers, h1]; omega
    simp only [h1, h0, gt_iff_lt, lt_self_iff_false, if_false, hcov, headOf]
    by_cases hk : k = a.first
    · subst hk
      simp [freeHead]
    · simp [hk]
  · have hx : a.count ^^^ 1 ≠ 0 := by rwa [ne_eq, Nat.xor_eq_zero_iff]
    simp only [if_pos (by omega : a.count > 1), if_pos hx, h0, headOf, if_neg h1]
    by_cases hc : a.Covers k
    · have hc' : a.first ≤ k ∧ k < a.first + a.count := hc
      rw [if_pos hc, if_pos hc']
      by_cases hk : k = a.first
      · subst hk
        simp [freeHead]
      · simp [hk, hfree k hc, freeHead]
    · have hc' : ¬ (a.first ≤ k ∧ k < a.first + a.count) := hc
      rw [if_neg hc, if_neg hc']
      have hk : k ≠ a.first := fun hk => hc (hk ▸ Extent.covers_first hn)
      simp [hk]

/-- the heads of a pool whose free blocks `a` were taken are partitioned as before, with `a` added -/
theorem Partition.take {p q : MemoryPool} {live : List Extent} {a : Extent} (h : Partition p live)
    (hn : 1 ≤ a.count) (ha : a.first + a.count ≤ p.blockCount) (hfree : ∀ k, a.Covers k → p.heads k = freeHead)
    (hbc : q.blockCount = p.blockCount) (hq : ∀ k, q.heads k = if a.Covers k then headOf a k else p.heads k) :
    Partition q (a :: live) := by
  have hapart : ∀ b ∈ live, a.Apart b := fun b hb k hak hbk => h.not_covered (hfree k hak) b hb hbk
  refine ⟨?_, List.pairwise_cons.2 ⟨hapart, h.apart⟩, ?_, ?_⟩
  · intro b hb
    rw [hbc]
    rcases List.mem_cons.1 hb with rfl | hb
    · exact ⟨hn, ha⟩
    · exact h.run b hb
  · intro b hb k hbk
    rcases List.mem_cons.1 hb with rfl | hb
    · rw [hq, if_pos hbk]
    · rw [hq, if_neg ((hapart b hb).symm k hbk)]
      exact h.used b hb k hbk
  · intro k hk hc
    rw [hbc] at hk
    rw [hq, if_neg (hc a List.mem_cons_self)]
    exact h.free k hk (fun b hb => hc b (List.mem_cons_of_mem a hb))

theorem usedBlocks_take {p q : MemoryPool} {a : Extent} (ha : a.first + a.count ≤ p.blockCount)
    (hfree : ∀ k, a.Covers k → p.heads k = freeHead) (hbc : q.blockCount = p.blockCount)
    (hq : ∀ k, q.heads k = if a.Covers k then headOf a k else p.heads k) :
    usedBlocks q = usedBlocks p + a.count := by
  rw [usedBlocks, usedBlocks, hbc]
  refine card_filter_gain ha (fun k hk1 hk2 => not_not.2 (hfree k ⟨hk1, hk2⟩)) (fun k _ => ?_)
  rw [hq]
  split_ifs with hc
  · exact ⟨fun _ => Or.inr hc, fun _ => headOf_ne_free a k⟩
  · exact ⟨Or.inl, fun h => h.resolve_right hc⟩

theorem usedBlocks_le (p : MemoryPool) : usedBlocks p ≤ p.blockCount := by
  have h := Finset.card_filter_le (Finset.range p.blockCount) (fun k => p.heads k ≠ freeHead)
  rwa [Finset.card_range] at h

/-- Taking blocks keeps the pool invariant, at the only index the search ever returns. -/
theorem poolInv_allocBlocks {p : MemoryPool} {live : List Extent} (h : PoolInv p live) {n : ℕ} (hn : 1 ≤ n)
    (hroom : p.fFreeInd + n ≤ p.blockCount)
    (hfree : ∀ k, p.fFreeInd ≤ k → k < p.fFreeInd + n → p.heads k = freeHead) :
    PoolInv (allocBlocks p p.fFreeInd n) (⟨p.fFreeInd, n⟩ :: live) := by
  have hlt := h.blockCount_lt
  have hmax : uint32Max < 2 ^ 32 := by decide
  set a : Extent := ⟨p.fFreeInd, n⟩ with ha
  set q := allocBlocks p p.fFreeInd n with hq
  have hfree' : ∀ k, a.Covers k → p.heads k = freeHead := fun k hk => hfree k hk.1 hk.2
  have hheads : ∀ k, q.heads k = if a.Covers k then headOf a k else p.heads k :=
    allocBlocks_heads (a := a) hn (by simp only [ha]; omega) hfree'
  have hbc : q.blockCount = p.blockCount := rfl
  have hpart : Partition q (a :: live) := h.heads.take hn hroom hfree' hbc hheads
  have hcount : usedBlocks q = usedBlocks p + n := usedBlocks_take hroom hfree' hbc hheads
  refine ⟨by rw [hbc]; exact h.bound, hpart, ?_, ?_, fun h0 => by omega⟩
  · have hle := usedBlocks_le q
    have hn' : q.nAllocBlocks = u32 (p.nAllocBlocks + n) := rfl
    rw [hn', h.count, hcount, u32_of_lt (by omega)]
  · intro h0
    -- below the old index every head was used already, so the next free head above it is the least one
    have hbelow : ∀ k < p.fFreeInd, q.heads k ≠ freeHead := by
      intro k hk
      rw [hheads, if_neg (fun hc : a.Covers k => by have := hc.1; simp only [ha] at this; omega)]
      rcases h.first h0 with ⟨-, -, hmin⟩ | ⟨heq, -⟩
      · exact hmin k hk
      · rw [heq] at hroom; omega
    have hff : q.fFreeInd =
        ((upto p.fFreeInd p.blockCount).find? (fun i => (q.heads i).blockFlags = 0)).getD uint32Max := if_pos rfl
    cases hs : (upto p.fFreeInd p.blockCount).find? (fun i => (q.heads i).blockFlags = 0) with
    | none =>
      rw [hs, Option.getD_none] at hff
      refine Or.inr ⟨hff, fun k hk => ?_⟩
      by_cases hk' : k < p.fFreeInd
      · exact hbelow k hk'
      · have hz := find?_upto_eq_none.1 hs k (by omega) hk
        intro hkf
        rw [← hpart.flags_eq_zero hk] at hkf
        simp [hkf] at hz
    | some i =>
      rw [hs, Option.getD_some] at hff
      obtain ⟨⟨hi1, hi2⟩, hi3, hi4⟩ := find?_upto_eq_some.1 hs
      refine Or.inl ⟨by rw [hff]; exact hi2, ?_, fun k hk => ?_⟩
      · rw [hff]
        exact (hpart.flags_eq_zero hi2).1 (by simpa using hi3)
      · rw [hff] at hk
        by_cases hk' : k < p.fFreeInd
        · exact hbelow k hk'
        · have hz := hi4 k (by omega) hk
          intro hkf
          rw [← hpart.flags_eq_zero (by omega : k < q.blockCount)] at hkf
          simp [hkf] at hz

/-! ## From a pointer back to its allocation -/

theorem walkBack_headOf {heads : ℕ → BlockHead} {a : Extent} (hu : ∀ k, a.Covers k → heads k = headOf a k) {k : ℕ}
    (hk : a.Covers k) : walkBack heads k = a.first := by
  induction k with
  | zero =>
    have := hk.1
    rw [walkBack]; omega
  | succ k ih =>
    rw [walkBack, hu _ hk]
    by_cases h1 : a.count = 1
    · have hfirst : k + 1 = a.first := by
        have := hk.1; have := hk.2; omega
      have hpart : (headOf a (k + 1)).blockFlags &&& tyPartOfMulti = 0 := by
        rw [headOf, if_pos h1]; rfl
      rw [if_neg (not_not.2 hpart), hfirst]
    · by_cases hfirst : k + 1 = a.first
      · have hstart : (headOf a (k + 1)).blockFlags &&& tyStartOfMulti ≠ 0 := by
          rw [headOf, if_neg h1, if_pos hfirst]; simp [tyStartOfMulti, tyPartOfMulti]
        rw [if_pos hstart, hfirst, ite_self]
      · have hk' : a.Covers k := ⟨by have := hk.1; omega, by have := hk.2; omega⟩
        have hpart : headOf a (k + 1) = ⟨tyPartOfMulti, 0⟩ := by
          rw [headOf, if_neg h1, if_neg hfirst]
        rw [hpart, if_pos (by decide), if_neg (by decide)]
        exact ih hk'

theorem blockAddr_lt_iff {p : MemoryPool} (hbs : 0 < p.blockSize) {memPtr k : ℕ} (h0 : blockAddr p 0 ≤ memPtr) :
    memPtr < blockAddr p k ↔ (memPtr - blockAddr p 0) / p.blockSize < k := by
  rw [Nat.div_lt_iff_lt_mul hbs, Nat.mul_comm k]
  simp only [blockAddr, Nat.mul_zero] at h0 ⊢
  omega

/-- a pointer to any byte of any block of an allocation leads to the head of its first block, in a pool whose head size
does not wrap -/
theorem headerForBlock_covered {p : MemoryPool} {a : Extent} (hbs : 0 < p.blockSize)
    (hhead : calcPoolHeadSize p.blockCount blockAlign = p.blockCount * headBytes + p.blockCount * headBytes % blockAlign)
    (hused : ∀ k, a.Covers k → p.heads k = headOf a k) {memPtr : ℕ} (h1 : blockAddr p a.first ≤ memPtr)
    (h2 : memPtr < blockAddr p (a.first + a.count)) : headerForBlock p memPtr = a.first := by
  have h0 : blockAddr p 0 ≤ memPtr := by
    refine le_trans ?_ h1
    simp only [blockAddr, Nat.mul_zero]
    omega
  have hstart : p.blockPtr + (p.blockCount * headBytes + p.blockCount * headBytes % blockAlign) = blockAddr p 0 := by
    simp only [blockAddr, Nat.mul_zero]
    omega
  rw [headerForBlock, hhead, hstart]
  refine walkBack_headOf hused ⟨?_, (blockAddr_lt_iff hbs h0).1 h2⟩
  rw [← not_lt, ← blockAddr_lt_iff hbs h0]
  exact not_lt.2 h1

/-- the same for a live allocation of a pool of the invariant -/
theorem headerForBlock_live {p : MemoryPool} {live : List Extent} (h : PoolInv p live) {a : Extent} (ha : a ∈ live)
    {memPtr : ℕ} (h1 : blockAddr p a.first ≤ memPtr) (h2 : memPtr < blockAddr p (a.first + a.count)) :
    headerForBlock p memPtr = a.first := by
  have hbs : 0 < p.blockSize := by
    rcases Nat.eq_zero_or_pos p.blockSize with h0 | h0
    · simp only [blockAddr, h0] at h1 h2
      omega
    · exact h0
  exact headerForBlock_covered hbs (calcPoolHeadSize_of_lt h.bound) (h.heads.used a ha) h1 h2

/-! ## Releasing blocks -/

@[simp] theorem releaseBlocks_blockCount (p : MemoryPool) (i : ℕ) :
    (releaseBlocks p i).blockCount = p.blockCount := rfl

@[simp] theorem lowerFirstFree_blockCount (p : MemoryPool) (i : ℕ) :
    (lowerFirstFree p i).blockCount = p.blockCount := rfl

@[simp] theorem lowerFirstFree_heads (p : MemoryPool) (i : ℕ) : (lowerFirstFree p i).heads = p.heads := rfl

@[simp] theorem lowerFirstFree_nAllocBlocks (p : MemoryPool) (i : ℕ) :
    (lowerFirstFree p i).nAllocBlocks = p.nAllocBlocks := rfl

@[simp] theorem usedBlocks_lowerFirstFree (p : MemoryPool) (i : ℕ) :
    usedBlocks (lowerFirstFree p i) = usedBlocks p := rfl

theorem releaseBlocks_heads {p : MemoryPool} {live : List Extent} (h : Partition p live) {a : Extent} (ha : a ∈ live)
    (k : ℕ) : (releaseBlocks p a.first).heads k = if a.Covers k then freeHead else p.heads k := by
  have hfirst : p.heads a.first = headOf a a.first := h.used a ha _ (Extent.covers_first (h.run a ha).1)
  simp only [releaseBlocks, hfirst, allocCount_headOf]
  rfl

theorem Partition.give {p q : MemoryPool} {live : List Extent} {a : Extent} (h : Partition p live) (ha : a ∈ live)
    (hbc : q.blockCount = p.blockCount) (hq : ∀ k, q.heads k = if a.Covers k then freeHead else p.heads k) :
    Partition q (live.erase a) := by
  have hperm : live.Perm (a :: live.erase a) := List.perm_cons_erase ha
  have hpair : (a :: live.erase a).Pairwise Extent.Apart :=
    hperm.pairwise h.apart (fun h => h.symm)
  obtain ⟨hapart, hrest⟩ := List.pairwise_cons.1 hpair
  refine ⟨?_, hrest, ?_, ?_⟩
  · intro b hb
    rw [hbc]
    exact h.run b (List.mem_of_mem_erase hb)
  · intro b hb k hbk
    rw [hq, if_neg ((hapart b hb).symm k hbk)]
    exact h.used b (List.mem_of_mem_erase hb) k hbk
  · intro k hk hc
    rw [hbc] at hk
    rw [hq]
    split_ifs with hak
    · rfl
    · refine h.free k hk (fun b hb => ?_)
      rcases List.mem_cons.1 (hperm.subset hb) with rfl | hb
      · exact hak
      · exact hc b hb

theorem usedBlocks_give {p q : MemoryPool} {live : List Extent} {a : Extent} (h : Partition p live) (ha : a ∈ live)
    (hbc : q.blockCount = p.blockCount) (hq : ∀ k, q.heads k = if a.Covers k then freeHead else p.heads k) :
    usedBlocks p = usedBlocks q + a.count := by
  rw [usedBlocks, usedBlocks, hbc]
  refine card_filter_gain (h.run a ha).2 (fun k hk1 hk2 => ?_) (fun k _ => ?_)
  · rw [hq, if_pos ⟨hk1, hk2⟩]
    exact not_not.2 rfl
  · rw [hq]
    split_ifs with hc
    · rw [h.used a ha k hc]
      exact ⟨fun _ => Or.inr hc, fun _ => headOf_ne_free a k⟩
    · exact ⟨Or.inl, fun h => h.resolve_right hc⟩

theorem releaseBlocks_count {p : MemoryPool} {live : List Extent} (h : PoolInv p live) {a : Extent} (ha : a ∈ live) :
    (releaseBlocks p a.first).nAllocBlocks = usedBlocks (releaseBlocks p a.first) := by
  have hfirst : p.heads a.first = headOf a a.first :=
    h.heads.used a ha _ (Extent.covers_first (h.heads.run a ha).1)
  have hused : usedBlocks p = usedBlocks (releaseBlocks p a.first) + a.count :=
    usedBlocks_give h.heads ha rfl (releaseBlocks_heads h.heads ha)
  have hle := usedBlocks_le p
  have hlt := h.blockCount_lt
  have hmax : uint32Max < 2 ^ 32 := by decide
  have hn : (releaseBlocks p a.first).nAllocBlocks = sub32 p.nAllocBlocks a.count := by
    simp only [releaseBlocks, hfirst, allocCount_headOf]
  rw [hn, h.count, sub32_of_le (by omega) (by omega)]
  omega

/-- a pool counts no block exactly if it has no live allocation -/
theorem PoolInv.count_eq_zero {p : MemoryPool} {live : List Extent} (h : PoolInv p live) :
    p.nAllocBlocks = 0 ↔ live = [] := by
  rw [h.count, usedBlocks, Finset.card_eq_zero, Finset.filter_eq_empty_iff]
  constructor
  · intro hall
    by_contra hne
    obtain ⟨a, ha⟩ := List.exists_mem_of_ne_nil live hne
    obtain ⟨h1, h2⟩ := h.heads.run a ha
    have hcov := Extent.covers_first h1
    have := hall (Finset.mem_range.2 (by omega : a.first < p.blockCount))
    rw [h.heads.used a ha _ hcov] at this
    exact this (headOf_ne_free a _)
  · rintro rfl k hk
    exact not_not.2 (h.heads.free k (Finset.mem_range.1 hk) (by simp))

/-- Releasing blocks keeps the pool invariant. -/
theorem poolInv_releaseBlocks {p : MemoryPool} {live : List Extent} (h : PoolInv p live) {a : Extent} (ha : a ∈ live) :
    PoolInv (lowerFirstFree (releaseBlocks p a.first) a.first) (live.erase a) := by
  have hheads := releaseBlocks_heads h.heads ha
  obtain ⟨hc1, hc2⟩ := h.heads.run a ha
  refine ⟨?_, h.heads.give ha ?_ ?_, ?_, ?_, ?_⟩
  · simpa using h.bound
  · simp
  · simpa using hheads
  · simpa using releaseBlocks_count h ha
  · intro h0
    have hbc : p.blockCount ≠ 0 := by simpa using h0
    have hfreed : (releaseBlocks p a.first).heads a.first = freeHead := by
      rw [hheads, if_pos (Extent.covers_first hc1)]
    have hkeep : ∀ k < a.first, (releaseBlocks p a.first).heads k = p.heads k := by
      intro k hk
      rw [hheads, if_neg (fun hc : a.Covers k => by have := hc.1; omega)]
    have hlt := h.blockCount_lt
    have hff : (lowerFirstFree (releaseBlocks p a.first) a.first).fFreeInd =
        if p.fFreeInd > a.first then a.first else p.fFreeInd := rfl
    simp only [LeastFree, hff, lowerFirstFree_blockCount, releaseBlocks_blockCount, lowerFirstFree_heads]
    rcases h.first hbc with ⟨hf1, hf2, hf3⟩ | ⟨hf1, hf2⟩
    · split_ifs with hgt
      · refine Or.inl ⟨by omega, hfreed, fun k hk => ?_⟩
        rw [hkeep k hk]
        exact hf3 k (by omega)
      · refine Or.inl ⟨hf1, ?_, fun k hk => ?_⟩
        · rw [hheads, hf2, ite_self]
        · rw [hkeep k (by omega)]
          exact hf3 k hk
    · rw [hf1, if_pos (by omega)]
      refine Or.inl ⟨by omega, hfreed, fun k hk => ?_⟩
      rw [hkeep k hk]
      exact hf2 k (by omega)
  · intro h0
    have hbc : p.blockCount = 0 := by simpa using h0
    omega

/-! ## Runs of one pool -/

/-- one pool and the extents of its live allocations -/
structure PoolState where
  pool : MemoryPool
  live : List Extent

inductive PoolOp where
  /-- `NkPoolAlloc` in the pool it has just created -/
  | takeNew (n : ℕ)
  /-- `NkPoolAlloc` searching this pool -/
  | take (n : ℕ)
  /-- `NkPoolFree` with a pointer into allocation `a` -/
  | give (a : Extent) (memPtr : ℕ)
deriving DecidableEq, Repr

def PoolState.place (s : PoolState) (i n : ℕ) : PoolState := ⟨allocBlocks s.pool i n, ⟨i, n⟩ :: s.live⟩

def poolStep (s : PoolState) : PoolOp → Option PoolState
  | .takeNew n => some (s.place 0 n)
  | .take n =>
    match findRangeInPool s.pool n with
    | none => none
    -- a pool without a fitting range is left alone
    | some i => some (if i = uint32Max then s else s.place i n)
  | .give a memPtr =>
    let i := headerForBlock s.pool memPtr
    let q := releaseBlocks s.pool i
    some ⟨if q.nAllocBlocks > 0 then lowerFirstFree q i else emptySlot, s.live.erase a⟩

/-- requests of at least one block and at most the pool's blocks; frees through a pointer to any byte of a live
allocation that is not the last one -/
def poolOk (s : PoolState) : PoolOp → Prop
  | .takeNew n => s.live = [] ∧ 1 ≤ n ∧ n ≤ s.pool.blockCount
  | .take n => 1 ≤ n ∧ n ≤ s.pool.blockCount
  | .give a memPtr => a ∈ s.live ∧ blockAddr s.pool a.first ≤ memPtr ∧
      memPtr < blockAddr s.pool (a.first + a.count) ∧ s.live.erase a ≠ []

/-- the heads that differ between two states are exactly those of the blocks of `a` -/
def ChangesExactly (s t : PoolState) (a : Extent) : Prop := ∀ k, t.pool.heads k ≠ s.pool.heads k ↔ a.Covers k

/-- what one operation does to the heads: it adds one allocation, removes one, or (no fitting range) does nothing -/
def OneAllocation (s t : PoolState) : PoolOp → Prop
  | .takeNew n => ∃ a : Extent, a.count = n ∧ t.live = a :: s.live ∧ ChangesExactly s t a
  | .take n => t = s ∨ ∃ a : Extent, a.count = n ∧ t.live = a :: s.live ∧ ChangesExactly s t a
  | .give a _ => t.live = s.live.erase a ∧ ChangesExactly s t a

theorem place_spec {s : PoolState} (h : PoolInv s.pool s.live) {n : ℕ} (hn : 1 ≤ n)
    (hroom : s.pool.fFreeInd + n ≤ s.pool.blockCount)
    (hfree : ∀ k, s.pool.fFreeInd ≤ k → k < s.pool.fFreeInd + n → s.pool.heads k = freeHead) :
    PoolInv (s.place s.pool.fFreeInd n).pool (s.place s.pool.fFreeInd n).live ∧
      ChangesExactly s (s.place s.pool.fFreeInd n) ⟨s.pool.fFreeInd, n⟩ := by
  refine ⟨poolInv_allocBlocks h hn hroom hfree, fun k => ?_⟩
  have hlt := h.blockCount_lt
  have hmax : uint32Max < 2 ^ 32 := by decide
  have hheads := allocBlocks_heads (p := s.pool) (a := ⟨s.pool.fFreeInd, n⟩) hn (by simp only; omega)
    (fun k hk => hfree k hk.1 hk.2) k
  simp only [PoolState.place]
  rw [hheads]
  split_ifs with hc
  · rw [hfree k hc.1 hc.2]
    exact ⟨fun _ => hc, fun _ => headOf_ne_free _ k⟩
  · exact ⟨fun h => absurd rfl h, fun h => absurd h hc⟩

/-- every allowed operation returns, keeps the invariant and changes the heads of one allocation -/
theorem poolStep_spec {s : PoolState} {o : PoolOp} (h : PoolInv s.pool s.live) (ho : poolOk s o) :
    ∃ t, poolStep s o = some t ∧ PoolInv t.pool t.live ∧ t.pool.blockCount = s.pool.blockCount ∧
      OneAllocation s t o := by
  cases o with
  | takeNew n =>
    obtain ⟨hlive, hn, hnm⟩ := ho
    have hfree : ∀ k < s.pool.blockCount, s.pool.heads k = freeHead :=
      fun k hk => h.heads.free k hk (by simp [hlive])
    have hff : s.pool.fFreeInd = 0 := by
      rcases h.first (by omega) with ⟨-, -, hmin⟩ | ⟨-, hfull⟩
      · by_contra h0
        exact hmin 0 (by omega) (hfree 0 (by omega))
      · exact absurd (hfree 0 (by omega)) (hfull 0 (by omega))
    have hp := place_spec h hn (by omega) (fun k _ hk => hfree k (by omega))
    rw [hff] at hp
    exact ⟨s.place 0 n, rfl, hp.1, rfl, ⟨0, n⟩, rfl, rfl, hp.2⟩
  | take n =>
    obtain ⟨hn, hnm⟩ := ho
    simp only [poolStep]
    rcases findRangeInPool_spec h hn with hs | ⟨hs, hroom, hfree⟩
    · rw [hs]
      exact ⟨s, by simp, h, rfl, Or.inl rfl⟩
    · have hne : s.pool.fFreeInd ≠ uint32Max := by
        have := h.blockCount_lt; omega
      have hp := place_spec h hn hroom hfree
      rw [hs]
      exact ⟨s.place s.pool.fFreeInd n, by simp [hne], hp.1, rfl, Or.inr ⟨⟨_, n⟩, rfl, rfl, hp.2⟩⟩
  | give a memPtr =>
    obtain ⟨ha, h1, h2, hrest⟩ := ho
    have hhead : headerForBlock s.pool memPtr = a.first := headerForBlock_live h ha h1 h2
    have hinv := poolInv_releaseBlocks h ha
    have hpos : (releaseBlocks s.pool a.first).nAllocBlocks > 0 := by
      rw [← lowerFirstFree_nAllocBlocks _ a.first]
      exact Nat.pos_of_ne_zero (fun h0 => hrest (hinv.count_eq_zero.1 h0))
    simp only [poolStep, hhead, if_pos hpos]
    refine ⟨_, rfl, hinv, rfl, rfl, fun k => ?_⟩
    simp only [lowerFirstFree_heads]
    rw [releaseBlocks_heads h.heads ha k]
    split_ifs with hc
    · rw [h.heads.used a ha k hc]
      exact ⟨fun _ => hc, fun _ => (headOf_ne_free a k).symm⟩
    · exact ⟨fun h => absurd rfl h, fun h => absurd h hc⟩

/-- the pool as `__NkInt_PoolAllocRequestNewPool` leaves it -/
def createdPool (blockCount blockSize : ℕ) (b : HeapBlock) : PoolState :=
  ⟨newPool (newPoolMetrics blockCount blockSize).2 blockSize b, []⟩

theorem poolInv_run {n bs : ℕ} {b : HeapBlock} {ops : List PoolOp} {s : PoolState}
    (h : Runs poolStep poolOk (createdPool n bs b) ops s) :
    PoolInv s.pool s.live ∧ s.pool.blockCount = (newPoolMetrics n bs).2 := by
  refine h.inv (I := fun s => PoolInv s.pool s.live ∧ s.pool.blockCount = (newPoolMetrics n bs).2) ?_
    ⟨poolInv_newPool n bs b, rfl⟩
  rintro s o t ⟨hs, hbc⟩ ho hstep
  obtain ⟨t', ht', hinv, hbc', -⟩ := poolStep_spec hs ho
  rw [hstep] at ht'
  cases ht'
  exact ⟨hinv, hbc'.trans hbc⟩

/-- the books of a created pool are right after every run of allocations and frees: heads, counter and first-free
index describe the live allocations, and the next operation returns and touches the heads of one allocation only -/
def BooksKept (blockCount blockSize : ℕ) (b : HeapBlock) : Prop :=
  ∀ ops s, Runs poolStep poolOk (createdPool blockCount blockSize b) ops s →
    Bookkeeping s.pool s.live ∧ ∀ o, poolOk s o → ∃ t, poolStep s o = some t ∧ OneAllocation s t o

/-- The books of a pool are kept in every run exactly if the heap block requested for it, as sized by the wrapping
32-bit arithmetic, has room for one head and one block. -/
theorem booksKept_iff (blockCount blockSize : ℕ) (b : HeapBlock) :
    BooksKept blockCount blockSize b ↔ blockSize + headBytes ≤ (newPoolMetrics blockCount blockSize).1 := by
  have hroom : 1 ≤ (newPoolMetrics blockCount blockSize).2 ↔
      blockSize + headBytes ≤ (newPoolMetrics blockCount blockSize).1 := by
    have hpos : 0 < blockSize + headBytes := Nat.add_pos_right _ (by decide)
    show 1 ≤ (newPoolMetrics blockCount blockSize).1 / (blockSize + headBytes) ↔ _
    rw [Nat.le_div_iff_mul_le hpos, Nat.one_mul]
  rw [← hroom]
  constructor
  · intro h
    obtain ⟨hb, -⟩ := h [] _ (.nil _)
    exact (bookkeeping_iff (poolInv_newPool blockCount blockSize b)).1 hb
  · intro hpos ops s hrun
    obtain ⟨hinv, hbc⟩ := poolInv_run hrun
    refine ⟨(bookkeeping_iff hinv).2 (by omega), fun o ho => ?_⟩
    obtain ⟨t, ht, -, -, hone⟩ := poolStep_spec hinv ho
    exact ⟨t, ht, hone⟩

/-- a request for blocks of 2^25 bytes: 128 blocks wrap the pool size to the heads alone, one page is requested, and
the pool has no block while its first-free index is 0 -/
theorem booksKept_wrapped : (newPoolMetrics defBlockCount (2 ^ 25)) = (4096, 0) ∧
    ¬ BooksKept defBlockCount (2 ^ 25) ⟨65536, fun _ => freeHead⟩ := by
  refine ⟨by decide, fun h => ?_⟩
  obtain ⟨hb, -⟩ := h [] _ (.nil _)
  have hpos := (bookkeeping_iff (poolInv_newPool defBlockCount (2 ^ 25) ⟨65536, fun _ => freeHead⟩)).1 hb
  exact absurd hpos (by decide)

end Noriko.Alloc
