/-
The invariant of the pool allocator.

`Inv` speaks about the pools the table still knows (`slot`, `sep`), about the heap blocks in use (`apart`), and about the
live allocations (`placed`, `disj`). A live allocation whose pool was dropped from the table keeps its heap block, so the
allocations stay apart even then. `occ` is an inequality for the same reason: the counter still counts a dropped pool.

The first half is what the invariant rests on: a new pool has room for its blocks although all sizes wrap at 32 bits
(`newPoolMetrics_fits`), and the loops over the table, which stop by counting pools, still see every pool
(`scanPools_spec`). The second half is what it gives: a live pointer is located in its own pool (`locateBlock_live`).
-/
import Noriko.Alloc.Context

namespace Noriko.Alloc

open Lib

/-! ## A new pool has room for its blocks -/

theorem calcPoolSize_eq (n bs : ℕ) :
    calcPoolSize n bs blockAlign = (n * (bs + headBytes) + n * headBytes % blockAlign) % 2 ^ 32 := by
  have hmul : n * (bs + headBytes) = bs * n + n * headBytes := by ring
  simp only [calcPoolSize, calcPoolHeadSize, u32, blockAlign, headBytes] at hmul ⊢
  omega

/-- whole pages never hold an odd number of head-and-block pairs exactly -/
theorem pages_not_exact {n m k : ℕ} (hm : m % 2 = 1) (hk : k ≠ 0)
    (h : 4096 * (k * m) = 4096 * (((4096 * (k * n) + n * 8 % 16) % 2 ^ 32 + 4095) / 4096) % 2 ^ 32) : False := by
  have hdiv := Nat.div_add_mod (k * n) (2 ^ 20)
  rcases Nat.mod_two_eq_zero_or_one n with hn | hn
  · -- no padding: the pool size is k * n pages up to the wrap, so 2^20 divides k * (n - m) and hence k
    have heq : k * m = (k * n) % 2 ^ 20 := by omega
    have hdvd : (2 : ℤ) ^ 20 ∣ (k : ℤ) * ((n : ℤ) - m) := by
      refine ⟨((k * n / 2 ^ 20 : ℕ) : ℤ), ?_⟩
      have hz : ((k * n : ℕ) : ℤ) = 2 ^ 20 * ((k * n / 2 ^ 20 : ℕ) : ℤ) + ((k * m : ℕ) : ℤ) := by
        rw [heq]; exact_mod_cast hdiv.symm
      push_cast at hz ⊢
      linarith
    have hcop : IsCoprime ((2 : ℤ) ^ 20) ((n : ℤ) - m) := by
      apply IsCoprime.pow_left
      have hodd : ((n : ℤ) - m) % 2 = 1 := by omega
      rw [Int.isCoprime_iff_gcd_eq_one, Int.gcd_comm, ← Int.gcd_emod, hodd]
      rfl
    have hk20 : 2 ^ 20 ∣ k := by exact_mod_cast hcop.dvd_of_dvd_mul_right hdvd
    have hzero : (k * n) % 2 ^ 20 = 0 := Nat.mod_eq_zero_of_dvd (Dvd.dvd.mul_right hk20 n)
    rw [hzero] at heq
    rcases Nat.mul_eq_zero.1 heq with h0 | h0
    · exact hk h0
    · omega
  · -- one padding of 8 bytes: a further page is requested, and k * n and k * m have the same parity
    have hpar : (k * n) % 2 = (k * m) % 2 := by
      rw [Nat.mul_mod k n, Nat.mul_mod k m, hn, hm]
    omega

/-- heads, padding and blocks of a new pool fit into the heap block requested for it, even if the size wrapped -/
theorem newPoolMetrics_fits {n bs : ℕ} (h8 : bs % 8 = 0) :
    (newPoolMetrics n bs).2 * (bs + headBytes) + (newPoolMetrics n bs).2 * headBytes % blockAlign ≤
      (newPoolMetrics n bs).1 := by
  have hle := newPoolMetrics_le n bs
  have hpage := newPoolMetrics_dvd n bs
  set m := (newPoolMetrics n bs).2 with hm
  set P := (newPoolMetrics n bs).1 with hP
  have h8' : (m * (bs + headBytes)) % 8 = 0 := by
    have : (bs + headBytes) % 8 = 0 := by simp only [headBytes]; omega
    rw [Nat.mul_mod, this, Nat.mul_zero, Nat.zero_mod]
  rcases Nat.mod_two_eq_zero_or_one m with h0 | h1
  · simp only [headBytes, blockAlign] at hle ⊢
    omega
  · by_cases hex : m * (bs + headBytes) = P
    · exfalso
      have hcop : Nat.Coprime pageSize m := by
        have hodd : Odd m := Nat.odd_iff.2 h1
        exact (Nat.Coprime.pow_left 12 (Nat.coprime_two_left.2 hodd) : Nat.Coprime (2 ^ 12) m)
      have hdvd : pageSize ∣ bs + headBytes := by
        refine hcop.dvd_of_dvd_mul_left ?_
        rw [hex]; exact hpage
      obtain ⟨k, hk⟩ := hdvd
      refine pages_not_exact (n := n) (k := k) h1 ?_ ?_
      · rintro rfl
        simp [headBytes] at hk
      · calc 4096 * (k * m) = m * (bs + headBytes) := by rw [hk, pageSize]; ring
          _ = 4096 * ((calcPoolSize n bs blockAlign + 4095) / 4096) % 2 ^ 32 := by
            rw [hex, hP, newPoolMetrics_pages]
          _ = _ := by
            rw [calcPoolSize_eq, hk, pageSize, headBytes, blockAlign, Nat.mul_left_comm, Nat.mul_comm n k]
    · simp only [headBytes, blockAlign, pageSize] at hle hpage hex h8' ⊢
      omega

/-- bytes of a pool with `n` blocks, without a cut -/
def poolSizeOf (n bs : ℕ) : ℕ := n * headBytes + n * headBytes % blockAlign + bs * n

/-- no computation of the size of a pool for `n` blocks, or of its pages, wraps in 32 bits -/
structure SizesFit (n bs : ℕ) : Prop where
  heads : n * headBytes < 2 ^ 32
  headSize : n * headBytes + n * headBytes % blockAlign < 2 ^ 32
  blocks : bs * n < 2 ^ 32
  pool : poolSizeOf n bs < 2 ^ 32
  pages : poolSizeOf n bs + (if poolSizeOf n bs % pageSize ≠ 0 then pageSize - poolSizeOf n bs % pageSize else 0) < 2 ^ 32

theorem poolSizeOf_eq (n bs : ℕ) : poolSizeOf n bs = n * (bs + headBytes) + n * headBytes % blockAlign := by
  unfold poolSizeOf
  ring

theorem SizesFit.calcPoolSize_eq {n bs : ℕ} (h : SizesFit n bs) : calcPoolSize n bs blockAlign = poolSizeOf n bs := by
  rw [Alloc.calcPoolSize_eq, ← poolSizeOf_eq]
  exact Nat.mod_eq_of_lt h.pool

/-- without a wrap, the pages are no smaller than the pool -/
theorem SizesFit.le_pages {n bs : ℕ} (h : SizesFit n bs) : poolSizeOf n bs ≤ (newPoolMetrics n bs).1 := by
  have hpages : (newPoolMetrics n bs).1 =
      u32 (poolSizeOf n bs + if poolSizeOf n bs % pageSize ≠ 0 then pageSize - poolSizeOf n bs % pageSize else 0) := by
    rw [← h.calcPoolSize_eq]
    rfl
  rw [hpages, u32_of_lt h.pages]
  exact Nat.le_add_right _ _

/-- rounding up to pages keeps the blocks that were asked for and leaves room for the heads, the padding and all blocks -/
theorem page_rounding {n bs : ℕ} (h8 : bs % 8 = 0) (h : SizesFit n bs) :
    let r := adjustPoolMetrics bs (calcPoolSize n bs blockAlign)
    pageSize ∣ r.1 ∧ calcPoolSize n bs blockAlign ≤ r.1 ∧ n ≤ r.2 ∧ calcPoolSize r.2 bs blockAlign ≤ r.1 ∧
      r.2 * headBytes + r.2 * headBytes % blockAlign + r.2 * bs ≤ r.1 := by
  intro r
  have hr : r = newPoolMetrics n bs := rfl
  have hroom := @newPoolMetrics_fits n bs h8
  have hle := h.le_pages
  rw [hr, h.calcPoolSize_eq]
  refine ⟨newPoolMetrics_dvd n bs, hle, ?_, ?_, ?_⟩
  · have hpos : 0 < bs + headBytes := Nat.add_pos_right bs (by decide)
    refine (Nat.le_div_iff_mul_le hpos).2 ?_
    calc n * (bs + headBytes) ≤ poolSizeOf n bs := by
          rw [poolSizeOf_eq]
          exact Nat.le_add_right _ _
      _ ≤ (newPoolMetrics n bs).1 := hle
  · rw [calcPoolSize_eq]
    exact (Nat.mod_le _ _).trans hroom
  · calc _ = (newPoolMetrics n bs).2 * (bs + headBytes) + (newPoolMetrics n bs).2 * headBytes % blockAlign := by ring
      _ ≤ _ := hroom

/-- three blocks of 4088 bytes, which fill whole pages with their heads but for the padding -/
theorem page_rounding_odd :
    let r := adjustPoolMetrics 4088 (calcPoolSize 3 4088 blockAlign)
    pageSize ∣ r.1 ∧ calcPoolSize 3 4088 blockAlign ≤ r.1 ∧ 3 ≤ r.2 ∧ calcPoolSize r.2 4088 blockAlign ≤ r.1 ∧
      r.2 * headBytes + r.2 * headBytes % blockAlign + r.2 * 4088 ≤ r.1 :=
  @page_rounding 3 4088 (by decide) ⟨by decide, by decide, by decide, by decide, by decide⟩

/-! ## Walking the table -/

/-- number of occupied slots below `n` -/
def occBelow (s : PoolAllocContext) (n : ℕ) : ℕ := ((Finset.range n).filter (Occupied s)).card

theorem occBelow_succ (s : PoolAllocContext) (n : ℕ) :
    occBelow s (n + 1) = occBelow s n + if Occupied s n then 1 else 0 := by
  unfold occBelow
  rw [Finset.range_add_one, Finset.filter_insert]
  split_ifs with h
  · rw [Finset.card_insert_of_notMem (by simp)]
  · rfl

theorem occBelow_mono (s : PoolAllocContext) {m n : ℕ} (h : m ≤ n) : occBelow s m ≤ occBelow s n :=
  Finset.card_le_card (Finset.filter_subset_filter _ (Finset.range_subset_range.2 h))

theorem occBelow_congr {s t : PoolAllocContext} {n : ℕ} (h : ∀ i < n, Occupied s i ↔ Occupied t i) :
    occBelow s n = occBelow t n := by
  unfold occBelow
  congr 1
  exact Finset.filter_congr fun i hi => h i (Finset.mem_range.1 hi)

/-- occupying a free slot adds one to the count -/
theorem occBelow_occupy {s t : PoolAllocContext} {n i : ℕ} (hi : i < n) (hs : ¬ Occupied s i) (ht : Occupied t i)
    (h : ∀ k < n, k ≠ i → (Occupied s k ↔ Occupied t k)) : occBelow t n = occBelow s n + 1 := by
  refine card_filter_gain (m := n) (n := 1) hi (fun k hk1 hk2 => ?_) (fun k hk => ?_)
  · rwa [show k = i by omega]
  · by_cases hki : k = i
    · subst hki
      exact ⟨fun _ => Or.inr ⟨le_rfl, by omega⟩, fun _ => ht⟩
    · rw [← h k hk hki]
      exact ⟨Or.inl, fun hc => hc.resolve_right (by omega)⟩

section Scan

variable {α : Type} {s : PoolAllocContext} {visit : MemoryPool → Option (Option α)}

theorem scanPools_aux (hocc : occBelow s maxPools ≤ s.nAllocPools)
    (hret : ∀ i < maxPools, Occupied s i → visit (s.memPools i) ≠ none) (n i j : ℕ) (hn : i + n = maxPools)
    (hj : j = occBelow s i) (hdone : ∀ k < i, Occupied s k → visit (s.memPools k) = some none) :
    (∃ k a, scanPools s visit n i j = some (some (k, a)) ∧ k < maxPools ∧ Occupied s k ∧
      visit (s.memPools k) = some (some a)) ∨
    (scanPools s visit n i j = some none ∧ ∀ k < maxPools, Occupied s k → visit (s.memPools k) = some none) := by
  induction n generalizing i j with
  | zero => exact Or.inr ⟨rfl, fun k hk => hdone k (by omega)⟩
  | succ n ih =>
    rw [scanPools]
    by_cases hlt : j < s.nAllocPools
    · rw [if_pos hlt]
      by_cases hfree : (s.memPools i).blockSize = 0
      · rw [if_pos hfree]
        have hnot : ¬ Occupied s i := not_not.2 hfree
        refine ih (i + 1) j (by omega) (by rw [hj, occBelow_succ, if_neg hnot, Nat.add_zero]) (fun k hk hok => ?_)
        rcases Nat.lt_succ_iff_lt_or_eq.1 hk with hk | rfl
        · exact hdone k hk hok
        · exact absurd hok hnot
      · rw [if_neg hfree]
        have hocc' : Occupied s i := hfree
        cases hv : visit (s.memPools i) with
        | none => exact absurd hv (hret i (by omega) hfree)
        | some r =>
          cases r with
          | some a => exact Or.inl ⟨i, a, rfl, by omega, hfree, hv⟩
          | none =>
            refine ih (i + 1) (j + 1) (by omega) (by rw [hj, occBelow_succ, if_pos hocc']) (fun k hk hok => ?_)
            rcases Nat.lt_succ_iff_lt_or_eq.1 hk with hk | rfl
            · exact hdone k hk hok
            · exact hv
    · -- the loop has seen as many pools as there are, so no slot above is occupied
      rw [if_neg hlt]
      refine Or.inr ⟨rfl, fun k hk hok => ?_⟩
      by_cases hki : k < i
      · exact hdone k hki hok
      · exfalso
        have h1 := occBelow_mono s (show i ≤ k by omega)
        have h2 := occBelow_mono s (show k + 1 ≤ maxPools by omega)
        rw [occBelow_succ, if_pos hok] at h2
        omega

/-- the loop finds an occupied slot that `visit` takes if there is one, although it stops by counting pools -/
theorem scanPools_spec (visit : MemoryPool → Option (Option α)) (hocc : occBelow s maxPools ≤ s.nAllocPools)
    (hret : ∀ i < maxPools, Occupied s i → visit (s.memPools i) ≠ none) :
    (∃ k a, scanPools s visit maxPools 0 0 = some (some (k, a)) ∧ k < maxPools ∧ Occupied s k ∧
      visit (s.memPools k) = some (some a)) ∨
    (scanPools s visit maxPools 0 0 = some none ∧
      ∀ k < maxPools, Occupied s k → visit (s.memPools k) = some none) :=
  scanPools_aux hocc hret maxPools 0 0 (Nat.zero_add _) rfl (by simp)

end Scan

theorem locateBlock_spec {s : PoolAllocContext} (hocc : occBelow s maxPools ≤ s.nAllocPools) (memPtr : ℕ) :
    (∃ i, locateBlock s memPtr = some i ∧ i < maxPools ∧ Occupied s i ∧ isInsidePool memPtr (s.memPools i) = true) ∨
    (locateBlock s memPtr = none ∧ ∀ i < maxPools, Occupied s i → isInsidePool memPtr (s.memPools i) = false) := by
  unfold locateBlock
  rcases scanPools_spec (fun p => some (if isInsidePool memPtr p then some () else none)) hocc
      (fun _ _ _ => by simp) with ⟨i, a, hs, hi, hoi, hv⟩ | ⟨hs, hall⟩
  · rw [hs]
    exact Or.inl ⟨i, rfl, hi, hoi, by simpa using hv⟩
  · rw [hs]
    exact Or.inr ⟨rfl, fun i hi hoi => by simpa using hall i hi hoi⟩

/-! ## The invariant -/

/-- live allocations of the pool at heap address `base` -/
def liveAt (s : Sys) (base : ℕ) : List Extent := (s.live.filter (fun a => a.pool = base)).map Allocation.extent

/-- what is known of a pool in the table -/
structure SlotInv (s : Sys) (p : MemoryPool) : Prop where
  /-- its heap block is in use and holds its heads and blocks -/
  block : ∃ c ∈ s.blocks, c.addr = p.blockPtr ∧ p.blockCount * (p.blockSize + headBytes) ≤ c.size ∧
    c.size + pageSize ≤ 2 ^ 32 ∧ (p.blockSize % 8 = 0 →
      p.blockCount * (p.blockSize + headBytes) + p.blockCount * headBytes % blockAlign ≤ c.size)
  books : PoolInv p (liveAt s p.blockPtr)
  addr : ∀ a ∈ s.live, a.pool = p.blockPtr →
    a.blockSize = p.blockSize ∧ a.addr = blockAddr p a.ind ∧ p.blockSize % 8 = 0

/-- a live allocation lies in a heap block in use, behind the heads of the pool it was placed in -/
def Placed (s : Sys) (a : Allocation) : Prop :=
  ∃ c ∈ s.blocks, c.addr = a.pool ∧ a.pool + 16 ≤ a.addr ∧ a.addr + a.blockSize * a.blockCount ≤ c.addr + c.size ∧
    1 ≤ a.blockCount ∧ 1 ≤ a.blockSize

structure Inv (s : Sys) : Prop where
  occ : occBelow s.cxt maxPools ≤ s.cxt.nAllocPools
  cnt : s.cxt.nAllocPools ≤ maxPools
  ff : s.cxt.firstFreePool = uint32Max ∨ (s.cxt.firstFreePool < maxPools ∧ s.cxt.nAllocPools < maxPools)
  slot : ∀ i < maxPools, Occupied s.cxt i → SlotInv s (s.cxt.memPools i)
  sep : ∀ i < maxPools, ∀ j < maxPools, Occupied s.cxt i → Occupied s.cxt j →
    (s.cxt.memPools i).blockPtr = (s.cxt.memPools j).blockPtr → i = j
  apart : s.blocks.Pairwise HeapSpan.Apart
  nonnull : ∀ c ∈ s.blocks, c.addr ≠ 0
  placed : ∀ a ∈ s.live, Placed s a
  disj : s.live.Pairwise Allocation.Apart

theorem inv_init : Inv init := by
  have hnone : ∀ i, ¬ Occupied init.cxt i := fun i h => h rfl
  refine ⟨?_, by decide, Or.inr ⟨by decide, by decide⟩, fun i _ h => absurd h (hnone i),
    fun i _ j _ h => absurd h (hnone i), .nil, by simp [init], by simp [init], .nil⟩
  have h0 : occBelow init.cxt maxPools = 0 :=
    Finset.card_eq_zero.2 (Finset.filter_eq_empty_iff.2 fun i _ => hnone i)
  rw [h0]
  exact Nat.zero_le _

instance : Std.Symm HeapSpan.Apart := ⟨fun _ _ h => h.symm⟩

theorem HeapSpan.apart_of_mem {l : List HeapSpan} (h : l.Pairwise HeapSpan.Apart) {c d : HeapSpan} (hc : c ∈ l)
    (hd : d ∈ l) (hne : c.addr ≠ d.addr) : c.Apart d :=
  h.forall hc hd (fun heq => hne (by rw [heq]))

/-! ## Frame facts -/

theorem PoolInv.perm {p : MemoryPool} {l l' : List Extent} (h : PoolInv p l) (hp : l.Perm l') : PoolInv p l' := by
  have hmem : ∀ a, a ∈ l' ↔ a ∈ l := fun a => hp.symm.mem_iff
  refine ⟨h.bound, ⟨?_, hp.pairwise h.heads.apart (fun h => h.symm), ?_, ?_⟩, h.count, h.first, h.none⟩
  · intro a ha
    exact h.heads.run a ((hmem a).1 ha)
  · intro a ha
    exact h.heads.used a ((hmem a).1 ha)
  · intro k hk hc
    exact h.heads.free k hk (fun a ha => hc a ((hmem a).2 ha))

theorem liveAt_cons (s : Sys) (cxt : PoolAllocContext) (blocks : List HeapSpan) (a : Allocation) (base : ℕ) :
    liveAt ⟨cxt, blocks, a :: s.live⟩ base = if a.pool = base then a.extent :: liveAt s base else liveAt s base := by
  unfold liveAt
  by_cases h : a.pool = base
  · simp [h]
  · simp [h]

/-- a freed allocation leaves the list of its pool and no other list -/
theorem liveAt_erase {s t : Sys} {a : Allocation} (ha : a ∈ s.live) (ht : t.live = s.live.erase a) (base : ℕ) :
    if a.pool = base then ((liveAt s base).erase a.extent).Perm (liveAt t base)
    else (liveAt s base).Perm (liveAt t base) := by
  have hperm : (liveAt s base).Perm (liveAt ⟨s.cxt, s.blocks, a :: t.live⟩ base) := by
    rw [ht]
    exact ((List.perm_cons_erase ha).filter _).map _
  rw [liveAt_cons t] at hperm
  split_ifs with h
  · rw [if_pos h] at hperm
    have := hperm.erase a.extent
    rwa [List.erase_cons_head] at this
  · rwa [if_neg h] at hperm

/-- a pool is described as before if its heap block is kept and its live allocations are the same -/
theorem SlotInv.frame {s t : Sys} {p : MemoryPool} (h : SlotInv s p)
    (hb : ∀ c ∈ s.blocks, c.addr = p.blockPtr → c ∈ t.blocks)
    (hlive : (liveAt s p.blockPtr).Perm (liveAt t p.blockPtr))
    (hsub : ∀ a ∈ t.live, a.pool = p.blockPtr → a ∈ s.live) : SlotInv t p := by
  obtain ⟨c, hc, haddr, hrest⟩ := h.block
  exact ⟨⟨c, hb c hc haddr, haddr, hrest⟩, h.books.perm hlive, fun a ha hp => h.addr a (hsub a ha hp) hp⟩

theorem Placed.frame {s t : Sys} {a : Allocation} (h : Placed s a)
    (hb : ∀ c ∈ s.blocks, c.addr = a.pool → c ∈ t.blocks) : Placed t a := by
  obtain ⟨c, hc, haddr, hrest⟩ := h
  exact ⟨c, hb c hc haddr, haddr, hrest⟩

/-! ## Where blocks lie -/

theorem blockAddr_ge {p : MemoryPool} (h : 1 ≤ p.blockCount) (k : ℕ) : p.blockPtr + 16 ≤ blockAddr p k := by
  simp only [blockAddr, headBytes, blockAlign]
  omega

theorem blockAddr_add (p : MemoryPool) (k n : ℕ) : blockAddr p (k + n) = blockAddr p k + p.blockSize * n := by
  simp only [blockAddr, Nat.mul_add]
  omega

/-- the blocks of a pool end inside a heap block of the right size -/
theorem blockAddr_le {p : MemoryPool} {size k : ℕ}
    (hsize : p.blockCount * (p.blockSize + headBytes) + p.blockCount * headBytes % blockAlign ≤ size)
    (hk : k ≤ p.blockCount) : blockAddr p k ≤ p.blockPtr + size := by
  have hmul : p.blockSize * k ≤ p.blockSize * p.blockCount := Nat.mul_le_mul_left _ hk
  rw [Nat.mul_add, Nat.mul_comm p.blockCount p.blockSize] at hsize
  unfold blockAddr
  omega

theorem mem_liveAt {s : Sys} {a : Allocation} (ha : a ∈ s.live) {base : ℕ} (hp : a.pool = base) :
    a.extent ∈ liveAt s base :=
  List.mem_map_of_mem (List.mem_filter.2 ⟨ha, by simpa using hp⟩)

/-- the pool range test accepts the address of a live allocation for its own pool and no other, although the computed
pool size may pass the end of the heap block by the padding -/
theorem isInsidePool_live {s : Sys} (h : Inv s) {a : Allocation} (ha : a ∈ s.live) {i : ℕ} (hi : i < maxPools)
    (hocc : Occupied s.cxt i) :
    isInsidePool a.addr (s.cxt.memPools i) = true ↔ (s.cxt.memPools i).blockPtr = a.pool := by
  have hslot := h.slot i hi hocc
  set p := s.cxt.memPools i
  obtain ⟨d, hd, hdaddr, hdsize, hdlt, hdfit⟩ := hslot.block
  have hsize : calcPoolSize p.blockCount p.blockSize blockAlign ≤ d.size + 8 := by
    rw [calcPoolSize_eq]
    refine (Nat.mod_le _ _).trans ?_
    simp only [headBytes, blockAlign] at hdsize ⊢
    omega
  simp only [isInsidePool, decide_eq_true_eq]
  constructor
  · rintro ⟨hlo, hhi⟩
    by_contra hne
    obtain ⟨c, hc, hcaddr, hlow, hhigh, hcnt, hbs⟩ := h.placed a ha
    have hpos : 1 ≤ a.blockSize * a.blockCount := Nat.mul_pos hbs hcnt
    rcases HeapSpan.apart_of_mem h.apart hc hd (by omega) with hcd | hdc
    · have := Nat.le_max_right 1 c.size
      omega
    · have := Nat.le_max_right 1 d.size
      omega
  · intro hpool
    obtain ⟨hbs, haddr, h8⟩ := hslot.addr a ha hpool.symm
    obtain ⟨hcnt, hroom⟩ := hslot.books.heads.run a.extent (mem_liveAt ha hpool.symm)
    simp only [Allocation.extent] at hcnt hroom
    have hfit := hdfit h8
    have hexact : calcPoolSize p.blockCount p.blockSize blockAlign =
        p.blockCount * (p.blockSize + headBytes) + p.blockCount * headBytes % blockAlign := by
      rw [calcPoolSize_eq, Nat.mod_eq_of_lt]
      have : pageSize = 4096 := rfl
      omega
    have hlow := blockAddr_ge (p := p) (by omega) a.ind
    have hend := blockAddr_le (p := p) (k := a.ind + a.blockCount) le_rfl hroom
    have hpos : 1 ≤ p.blockSize * a.blockCount := Nat.mul_pos (Nat.pos_of_ne_zero hocc) hcnt
    rw [blockAddr_add] at hend
    rw [haddr, hexact]
    omega

/-- a pointer into a live allocation is located in the slot of its pool, or in none if the table lost the pool -/
theorem locateBlock_live {s : Sys} (h : Inv s) {a : Allocation} (ha : a ∈ s.live) :
    (∃ i, locateBlock s.cxt a.addr = some i ∧ i < maxPools ∧ Occupied s.cxt i ∧
      (s.cxt.memPools i).blockPtr = a.pool) ∨
    (locateBlock s.cxt a.addr = none ∧ ∀ i < maxPools, Occupied s.cxt i → (s.cxt.memPools i).blockPtr ≠ a.pool) := by
  rcases locateBlock_spec h.occ a.addr with ⟨i, hloc, hi, hocc, hin⟩ | ⟨hloc, hnone⟩
  · exact Or.inl ⟨i, hloc, hi, hocc, (isInsidePool_live h ha hi hocc).1 hin⟩
  · refine Or.inr ⟨hloc, fun i hi hocc hpool => ?_⟩
    have hin := (isInsidePool_live h ha hi hocc).2 hpool
    rw [hnone i hi hocc] at hin
    exact Bool.false_ne_true hin

end Noriko.Alloc
