/-
The search for a free range in one pool (`__NkInt_PoolAllocFindRangeInPool` of `alloc.c`).

`searchBlock` is `findBlock` with the block heads it reads written down. `lbl_FINDNEXT` moves the start index and not the
head it looks at, so from the first used head on it runs to the end of the pool: the search looks at the blocks at the
first-free index and nowhere else (`findRangeInPool_eq`). It is exact when a pool with a fitting range has one there
(`firstFit_iff`).
-/
import Noriko.Alloc.Pool

namespace Noriko.Alloc

open Lib

/-! ## Heads that are read -/

/-- the do-while loop over `ks`: the heads it reads and the used one it stops at -/
def scan (heads : ℕ → BlockHead) : List ℕ → List ℕ × Option ℕ
  | [] => ([], none)
  | k :: ks => if (heads k).blockFlags ≠ 0 then ([k], some k) else (k :: (scan heads ks).1, (scan heads ks).2)

/-- `findBlock` with the indices of the heads it reads. `lbl_FINDNEXT` reads the head that the scan stopped at, which is
among them. -/
def searchBlock (p : MemoryPool) (blockCount : ℕ) : ℕ → ℕ → List ℕ × Option ℕ
  | 0, _ => ([], none)
  | rounds + 1, startIndex =>
    if sub32 p.blockCount startIndex < blockCount then ([], some uint32Max)
    else
      match scan p.heads (upto startIndex (max (startIndex + 1) (u32 (startIndex + blockCount)))) with
      | (reads, none) => (reads, some startIndex)
      | (reads, some k) =>
        let next := searchBlock p blockCount rounds (findNext p.blockCount (p.heads k).blockFlags k)
        (reads ++ next.1, next.2)

/-- the heads that `findRangeInPool` reads -/
def headsRead (p : MemoryPool) (blockCount : ℕ) : List ℕ :=
  if p.fFreeInd = uint32Max then [] else (searchBlock p blockCount 2 p.fFreeInd).1

theorem scan_snd (heads : ℕ → BlockHead) (ks : List ℕ) :
    (scan heads ks).2 = ks.find? (fun k => (heads k).blockFlags ≠ 0) := by
  induction ks with
  | nil => rfl
  | cons k ks ih =>
    by_cases hk : (heads k).blockFlags = 0
    · simp [scan, hk, ih]
    · simp [scan, hk]

theorem mem_of_mem_scan {heads : ℕ → BlockHead} {ks : List ℕ} {k : ℕ} (h : k ∈ (scan heads ks).1) : k ∈ ks := by
  induction ks with
  | nil => exact h
  | cons k' ks ih =>
    by_cases hk : (heads k').blockFlags = 0
    · simp only [scan, hk, ne_eq, not_true_eq_false, if_false, List.mem_cons] at h
      rcases h with rfl | h
      · exact List.mem_cons_self
      · exact List.mem_cons_of_mem k' (ih h)
    · simp only [scan, ne_eq, hk, not_false_eq_true, if_true, List.mem_singleton] at h
      rw [h]
      exact List.mem_cons_self

/-- `searchBlock` is `findBlock` -/
theorem searchBlock_snd (p : MemoryPool) (n rounds start : ℕ) : (searchBlock p n rounds start).2 = findBlock p n rounds start := by
  induction rounds generalizing start with
  | zero => rfl
  | succ rounds ih =>
    rw [searchBlock, findBlock, ← scan_snd]
    by_cases hroom : sub32 p.blockCount start < n
    · rw [if_pos hroom, if_pos hroom]
    · rw [if_neg hroom, if_neg hroom]
      rcases scan p.heads (upto start (max (start + 1) (u32 (start + n)))) with ⟨reads, _ | k⟩
      · rfl
      · exact ih _

/-! ## What the search does -/

theorem findNext_used {blockCount flags start : ℕ} (hf : flags ≠ 0) (hs : start ≤ blockCount) :
    findNext blockCount flags start = blockCount := by
  rcases Nat.eq_or_lt_of_le hs with rfl | hlt
  · rw [findNext, if_neg (by omega)]
  · rw [findNext, if_pos ⟨hlt, hf⟩]
    exact findNext_used hf hlt
termination_by blockCount - start

/-- blocks `s .. s + n - 1` are blocks of the pool and free -/
def FreeRange (p : MemoryPool) (s n : ℕ) : Prop := s + n ≤ p.blockCount ∧ ∀ k < n, (p.heads (s + k)).blockFlags = 0

instance (p : MemoryPool) (s n : ℕ) : Decidable (FreeRange p s n) := inferInstanceAs (Decidable (_ ∧ _))

/-- one round from a block of the pool: the range there, or no range at all -/
theorem searchBlock_eq {p : MemoryPool} {s n : ℕ} (hp : p.blockCount < 2 ^ 32) (hn : 1 ≤ n) (hs : s ≤ p.blockCount) :
    (searchBlock p n 2 s).2 = some (if FreeRange p s n then s else uint32Max) ∧
      ∀ k ∈ (searchBlock p n 2 s).1, k < p.blockCount := by
  rw [searchBlock, sub32_of_le hs hp]
  by_cases hroom : p.blockCount - s < n
  · have hnot : ¬ FreeRange p s n := fun h => by
      have := h.1
      omega
    rw [if_pos hroom, if_neg hnot]
    exact ⟨rfl, fun k hk => absurd hk (List.not_mem_nil)⟩
  rw [if_neg hroom]
  have hend : max (s + 1) (u32 (s + n)) = s + n := by
    rw [u32_of_lt (by omega)]
    omega
  rw [hend]
  have hreads : ∀ k ∈ (scan p.heads (upto s (s + n))).1, k < p.blockCount := by
    intro k hk
    have := (mem_upto.1 (mem_of_mem_scan hk)).2
    omega
  have hstop := scan_snd p.heads (upto s (s + n))
  revert hreads hstop
  rcases scan p.heads (upto s (s + n)) with ⟨reads, _ | k⟩
  · intro hreads hstop
    have hfree : FreeRange p s n := by
      refine ⟨by omega, fun k hk => ?_⟩
      simpa using find?_upto_eq_none.1 hstop.symm (s + k) (by omega) (by omega)
    rw [if_pos hfree]
    exact ⟨rfl, hreads⟩
  · intro hreads hstop
    obtain ⟨⟨hk1, hk2⟩, hused, -⟩ := find?_upto_eq_some.1 hstop.symm
    have hflags : (p.heads k).blockFlags ≠ 0 := by simpa using hused
    have hnot : ¬ FreeRange p s n := by
      intro h
      have hk := h.2 (k - s) (by omega)
      rw [Nat.add_sub_cancel' hk1] at hk
      exact hflags hk
    have hlast : sub32 p.blockCount p.blockCount < n := by
      rw [sub32_of_le le_rfl hp]
      omega
    have hnext : findNext p.blockCount (p.heads k).blockFlags k = p.blockCount := findNext_used hflags (by omega)
    -- the second round starts behind the last block and gives up at once
    simp only [hnext, searchBlock, if_pos hlast, if_neg hnot, List.append_nil]
    exact ⟨trivial, hreads⟩

/-- the search returns the first-free index if the request fits there, and nothing otherwise -/
theorem findRangeInPool_eq {p : MemoryPool} {n : ℕ} (hp : p.blockCount < 2 ^ 32) (hn : 1 ≤ n)
    (hff : p.fFreeInd = uint32Max ∨ p.fFreeInd ≤ p.blockCount) :
    findRangeInPool p n = some (if FreeRange p p.fFreeInd n then p.fFreeInd else uint32Max) ∧
      ∀ k ∈ headsRead p n, k < p.blockCount := by
  rw [findRangeInPool, headsRead]
  by_cases hmax : p.fFreeInd = uint32Max
  · rw [if_pos hmax, if_pos hmax, hmax, ite_self]
    exact ⟨rfl, fun k hk => absurd hk List.not_mem_nil⟩
  · rw [if_neg hmax, if_neg hmax, ← searchBlock_snd]
    exact searchBlock_eq hp hn (hff.resolve_left hmax)

/-! ## First fit -/

/-- a pool with 32-bit numbers whose first-free index is the least free index, or `uint32Max` when the pool is full -/
structure Consistent (p : MemoryPool) : Prop where
  size : p.blockCount < 2 ^ 32
  first : (p.fFreeInd < p.blockCount ∧ (p.heads p.fFreeInd).blockFlags = 0 ∧ ∀ k < p.fFreeInd, (p.heads k).blockFlags ≠ 0) ∨
    (p.fFreeInd = uint32Max ∧ ∀ k < p.blockCount, (p.heads k).blockFlags ≠ 0)

/-- the search ends, reads heads of the pool only, and returns the least fitting index, or `uint32Max` if there is none -/
def FirstFit (p : MemoryPool) (n : ℕ) : Prop :=
  ∃ r, findRangeInPool p n = some r ∧ (∀ k ∈ headsRead p n, k < p.blockCount) ∧
    ((∃ s, FreeRange p s n) → FreeRange p r n ∧ ∀ s, FreeRange p s n → r ≤ s) ∧ ((¬ ∃ s, FreeRange p s n) → r = uint32Max)

/-- no range starts below the first-free index -/
theorem Consistent.le {p : MemoryPool} (h : Consistent p) {s n : ℕ} (hn : 1 ≤ n) (hs : FreeRange p s n) : p.fFreeInd ≤ s := by
  have hfree := hs.2 0 (by omega)
  rw [Nat.add_zero] at hfree
  rcases h.first with ⟨-, -, hused⟩ | ⟨-, hused⟩
  · by_contra hlt
    exact hused s (by omega) hfree
  · have := hs.1
    exact absurd hfree (hused s (by omega))

/-- the search is exact if and only if the pool has a fitting range at the first-free index or none at all -/
theorem firstFit_iff (p : MemoryPool) (n : ℕ) (hp : Consistent p) (hn : 1 ≤ n) :
    FirstFit p n ↔ ((∃ s, FreeRange p s n) → FreeRange p p.fFreeInd n) := by
  have hff : p.fFreeInd = uint32Max ∨ p.fFreeInd ≤ p.blockCount := by
    rcases hp.first with ⟨hlt, -, -⟩ | ⟨hmax, -⟩
    · exact Or.inr (Nat.le_of_lt hlt)
    · exact Or.inl hmax
  obtain ⟨heq, hreads⟩ := findRangeInPool_eq hp.size hn hff
  constructor
  · rintro ⟨r, hr, -, hsome, -⟩ hex
    obtain ⟨hfits, -⟩ := hsome hex
    by_contra hnot
    rw [heq, if_neg hnot, Option.some.injEq] at hr
    rw [← hr] at hfits
    have hsize := hp.size
    have hend := hfits.1
    have hmax : uint32Max = 2 ^ 32 - 1 := by decide
    omega
  · intro hcond
    refine ⟨_, heq, hreads, fun hex => ?_, fun hnone => ?_⟩
    · rw [if_pos (hcond hex)]
      exact ⟨hcond hex, fun s hs => hp.le hn hs⟩
    · exact if_neg fun h => hnone ⟨_, h⟩

/-- a pool of four blocks with block 1 in use -/
def gapPool : MemoryPool where
  blockSize := 16
  blockCount := 4
  nAllocBlocks := 1
  fFreeInd := 0
  blockPtr := 4096
  heads k := if k = 1 then ⟨tySingle, 0⟩ else freeHead

theorem gapPool_consistent : Consistent gapPool :=
  ⟨by decide, Or.inl ⟨by decide, rfl, fun _ hk => absurd hk (Nat.not_lt_zero _)⟩⟩

theorem firstFit_gapPool : FirstFit gapPool 1 :=
  (firstFit_iff gapPool 1 gapPool_consistent (le_refl 1)).2 fun _ => by decide

/-- two blocks fit at index 2; the search does not find them -/
theorem gapPool_missed : Consistent gapPool ∧ FreeRange gapPool 2 2 ∧ findRangeInPool gapPool 2 = some uint32Max ∧
    ¬ FirstFit gapPool 2 := by
  have hff : gapPool.fFreeInd = uint32Max ∨ gapPool.fFreeInd ≤ gapPool.blockCount := Or.inr (Nat.zero_le _)
  have hmiss : findRangeInPool gapPool 2 = some uint32Max := (findRangeInPool_eq (by decide) (by decide) hff).1
  refine ⟨gapPool_consistent, by decide, hmiss, ?_⟩
  rintro ⟨r, hr, -, hsome, -⟩
  obtain ⟨hfits, -⟩ := hsome ⟨2, by decide⟩
  rw [hmiss, Option.some.injEq] at hr
  rw [← hr] at hfits
  exact absurd hfits.1 (by decide)

end Noriko.Alloc
