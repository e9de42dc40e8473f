/-
Every call of the pool allocator keeps its invariant.

Each call is first reduced to what it does to the table: a new pool (`withNewPool`), blocks handed out (`Sys.place`), an
allocation released (`withReleased`) or a pool given back (`withoutPool`). `poolAlloc_cases`, `requestNewPool_cases` and
`poolFree_live` say which of these a call is; one lemma for each shows that `Inv` is kept. `step_inv` puts them together
under `Fits`, the condition that a new pool is large enough for the request it is created for.
-/
import Noriko.Alloc.Inv

namespace Noriko.Alloc

open Lib

/-! ## A new pool -/

/-- the table after a pool was set up in slot `firstFreePool` -/
def withNewPool (s : PoolAllocContext) (blockCount blockSize : ℕ) (b : HeapBlock) : PoolAllocContext :=
  let memPools :=
    Function.update s.memPools s.firstFreePool (newPool (newPoolMetrics blockCount blockSize).2 blockSize b)
  { nAllocPools := u32 (s.nAllocPools + 1)
    firstFreePool :=
      if u32 (s.nAllocPools + 1) = maxPools then uint32Max
      else ((upto s.firstFreePool maxPools).find? (fun i => (memPools i).blockSize = 0)).getD s.firstFreePool
    memPools := memPools }

/-- a request fails without a trace, or sets up the pool -/
theorem requestNewPool_cases (s : PoolAllocContext) (n bs : ℕ) (heap : Option HeapBlock) :
    ((s.firstFreePool = uint32Max ∨ heap = none) ∧
      requestNewPool s n bs heap = ⟨.memoryAllocation, s, none, none⟩) ∨
    (∃ b, heap = some b ∧ s.firstFreePool ≠ uint32Max ∧ requestNewPool s n bs heap =
      ⟨.ok, withNewPool s n bs b, some s.firstFreePool, some ⟨b.addr, (newPoolMetrics n bs).1⟩⟩) := by
  unfold requestNewPool
  by_cases hff : s.firstFreePool = uint32Max
  · rw [if_pos hff]
    exact Or.inl ⟨Or.inl hff, rfl⟩
  · rw [if_neg hff]
    cases heap with
    | none => exact Or.inl ⟨Or.inr rfl, rfl⟩
    | some b => exact Or.inr ⟨b, rfl, hff, rfl⟩

theorem withNewPool_self (s : PoolAllocContext) (n bs : ℕ) (b : HeapBlock) :
    (withNewPool s n bs b).memPools s.firstFreePool = newPool (newPoolMetrics n bs).2 bs b :=
  Function.update_self ..

theorem withNewPool_other (s : PoolAllocContext) (n bs : ℕ) (b : HeapBlock) {i : ℕ} (hi : i ≠ s.firstFreePool) :
    (withNewPool s n bs b).memPools i = s.memPools i :=
  Function.update_of_ne hi ..

theorem occupied_withNewPool {s : PoolAllocContext} {n bs : ℕ} {b : HeapBlock} (hbs : bs ≠ 0) (i : ℕ) :
    Occupied (withNewPool s n bs b) i ↔ i = s.firstFreePool ∨ Occupied s i := by
  unfold Occupied
  by_cases hi : i = s.firstFreePool
  · subst hi
    rw [withNewPool_self]
    exact ⟨fun _ => Or.inl rfl, fun _ => hbs⟩
  · rw [withNewPool_other s n bs b hi]
    exact ⟨Or.inr, fun h => h.resolve_left hi⟩

theorem occBelow_le_withNewPool {s : PoolAllocContext} {n bs : ℕ} {b : HeapBlock} (hbs : bs ≠ 0) (m : ℕ) :
    occBelow (withNewPool s n bs b) m ≤ occBelow s m + 1 := by
  have hsub : (Finset.range m).filter (Occupied (withNewPool s n bs b)) ⊆
      insert s.firstFreePool ((Finset.range m).filter (Occupied s)) := by
    intro i hi
    obtain ⟨him, hocc⟩ := Finset.mem_filter.1 hi
    rcases (occupied_withNewPool hbs i).1 hocc with rfl | hocc
    · exact Finset.mem_insert_self ..
    · exact Finset.mem_insert_of_mem (Finset.mem_filter.2 ⟨him, hocc⟩)
  exact (Finset.card_le_card hsub).trans (Finset.card_insert_le ..)

theorem withNewPool_firstFree {s : PoolAllocContext} {n bs : ℕ} {b : HeapBlock} (hff : s.firstFreePool < maxPools)
    (hcnt : s.nAllocPools < maxPools) :
    (withNewPool s n bs b).firstFreePool = uint32Max ∨
      ((withNewPool s n bs b).firstFreePool < maxPools ∧ (withNewPool s n bs b).nAllocPools < maxPools) := by
  have hmax : maxPools < 2 ^ 32 := by decide
  have hn : u32 (s.nAllocPools + 1) = s.nAllocPools + 1 := u32_of_lt (by omega)
  simp only [withNewPool, hn]
  by_cases hlast : s.nAllocPools + 1 = maxPools
  · rw [if_pos hlast]
    exact Or.inl rfl
  · rw [if_neg hlast]
    refine Or.inr ⟨?_, by omega⟩
    cases hs : (upto s.firstFreePool maxPools).find? _ with
    | none => exact hff
    | some k => exact (find?_upto_eq_some.1 hs).1.2

/-- the heap block of a live allocation lies elsewhere, so nothing is live in a new pool -/
theorem liveAt_fresh {s : Sys} (h : Inv s) {addr size : ℕ} (hnew : ∀ c ∈ s.blocks, HeapSpan.Apart ⟨addr, size⟩ c) :
    (∀ a ∈ s.live, a.pool ≠ addr) ∧ liveAt s addr = [] := by
  have hne : ∀ a ∈ s.live, a.pool ≠ addr := by
    rintro a ha rfl
    obtain ⟨c, hc, hcaddr, -⟩ := h.placed a ha
    exact (hnew c hc).addr_ne hcaddr.symm
  refine ⟨hne, ?_⟩
  rw [liveAt, List.map_eq_nil_iff, List.filter_eq_nil_iff]
  intro a ha
  simpa using hne a ha

/-- Setting up a pool keeps the invariant, also if the slot it is put in held another pool. -/
theorem inv_withNewPool {s : Sys} (h : Inv s) {n bs : ℕ} {b : HeapBlock} (hbs : bs ≠ 0)
    (hff : s.cxt.firstFreePool ≠ uint32Max) (hb : HeapOk s (newPoolMetrics n bs).1 (some b)) :
    Inv ⟨withNewPool s.cxt n bs b, ⟨b.addr, (newPoolMetrics n bs).1⟩ :: s.blocks, s.live⟩ := by
  obtain ⟨hnull, hnew⟩ := hb b rfl
  obtain ⟨hfresh, hnil⟩ := liveAt_fresh h hnew
  obtain ⟨hlt, hcnt⟩ : s.cxt.firstFreePool < maxPools ∧ s.cxt.nAllocPools < maxPools := h.ff.resolve_left hff
  have hmax : maxPools < 2 ^ 32 := by decide
  have hn : (withNewPool s.cxt n bs b).nAllocPools = s.cxt.nAllocPools + 1 := u32_of_lt (by omega)
  -- no pool of the table has the address of the new heap block
  have hptr : ∀ i < maxPools, Occupied s.cxt i → (s.cxt.memPools i).blockPtr ≠ b.addr := by
    intro i hi hocc heq
    obtain ⟨c, hc, hcaddr, -⟩ := (h.slot i hi hocc).block
    exact (hnew c hc).addr_ne (heq.symm.trans hcaddr.symm)
  refine ⟨?_, ?_, withNewPool_firstFree hlt hcnt, ?_, ?_, ?_, ?_, ?_, h.disj⟩
  · have := occBelow_le_withNewPool (s := s.cxt) (n := n) (b := b) hbs maxPools
    have := h.occ
    simp only [hn]
    omega
  · simp only [hn]
    omega
  · intro i hi hocc
    by_cases hif : i = s.cxt.firstFreePool
    · subst hif
      simp only [withNewPool_self]
      refine ⟨⟨_, List.mem_cons_self, rfl, newPoolMetrics_le n bs, newPoolMetrics_lt n bs,
        fun h8 => newPoolMetrics_fits h8⟩, ?_, fun a ha hp => absurd hp (hfresh a ha)⟩
      have hnil' : liveAt ⟨withNewPool s.cxt n bs b, ⟨b.addr, (newPoolMetrics n bs).1⟩ :: s.blocks, s.live⟩
          b.addr = [] := hnil
      have hp := poolInv_newPool n bs b
      rw [← hnil'] at hp
      exact hp
    · have hocc' : Occupied s.cxt i := ((occupied_withNewPool hbs i).1 hocc).resolve_left hif
      simp only [withNewPool_other _ _ _ _ hif]
      exact (h.slot i hi hocc').frame (fun c hc _ => List.mem_cons_of_mem _ hc) (List.Perm.refl _)
        (fun a ha _ => ha)
  · intro i hi j hj hoi hoj heq
    have hold : ∀ k, Occupied (withNewPool s.cxt n bs b) k → k ≠ s.cxt.firstFreePool → Occupied s.cxt k :=
      fun k hk hkf => ((occupied_withNewPool hbs k).1 hk).resolve_left hkf
    by_cases hif : i = s.cxt.firstFreePool <;> by_cases hjf : j = s.cxt.firstFreePool
    · rw [hif, hjf]
    · simp only [hif, withNewPool_self, withNewPool_other _ _ _ _ hjf] at heq
      exact absurd heq.symm (hptr j hj (hold j hoj hjf))
    · simp only [hjf, withNewPool_self, withNewPool_other _ _ _ _ hif] at heq
      exact absurd heq (hptr i hi (hold i hoi hif))
    · simp only [withNewPool_other _ _ _ _ hif, withNewPool_other _ _ _ _ hjf] at heq
      exact h.sep i hi j hj (hold i hoi hif) (hold j hoj hjf) heq
  · exact List.pairwise_cons.2 ⟨hnew, h.apart⟩
  · intro c hc
    rcases List.mem_cons.1 hc with rfl | hc
    · exact hnull
    · exact h.nonnull c hc
  · intro a ha
    exact (h.placed a ha).frame (fun c hc _ => List.mem_cons_of_mem _ hc)

/-! ## Placing an allocation -/

/-- the state after `n` blocks from index `ind` on of the pool in slot `i` were handed out -/
def Sys.place (s : Sys) (i ind n : ℕ) : Sys :=
  let p := s.cxt.memPools i
  ⟨{ s.cxt with memPools := Function.update s.cxt.memPools i (allocBlocks p ind n) }, s.blocks,
    ⟨blockAddr p ind, p.blockSize, n, p.blockPtr, ind⟩ :: s.live⟩

theorem occupied_place (s : Sys) (i ind n k : ℕ) : Occupied (s.place i ind n).cxt k ↔ Occupied s.cxt k := by
  unfold Occupied Sys.place
  by_cases hk : k = i
  · subst hk
    simp only [Function.update_self]
    exact Iff.rfl
  · simp only [Function.update_of_ne hk]

theorem place_blockPtr (s : Sys) (i ind n k : ℕ) :
    ((s.place i ind n).cxt.memPools k).blockPtr = (s.cxt.memPools k).blockPtr := by
  unfold Sys.place
  by_cases hk : k = i
  · subst hk
    simp only [Function.update_self]
    rfl
  · simp only [Function.update_of_ne hk]

/-- `place` is what `step` records of `lbl_ALLOCBLOCK` -/
theorem place_eq_allocAt (s : Sys) (taken : Option HeapSpan) (i ind n : ℕ) :
    (⟨(allocAt s.cxt taken i ind n).cxt, s.blocks, ⟨blockAddr (s.cxt.memPools i) ind, (s.cxt.memPools i).blockSize, n,
      ((allocAt s.cxt taken i ind n).cxt.memPools i).blockPtr, ind⟩ :: s.live⟩ : Sys) = s.place i ind n := by
  rw [Sys.place, ← place_blockPtr s i ind n i]
  rfl

/-- a range that is free in the pool's books is a range of bytes no live allocation uses -/
theorem apart_of_free {s : Sys} (h : Inv s) {i n ind : ℕ} (hi : i < maxPools) (hocc : Occupied s.cxt i)
    (hn : 1 ≤ n) (hroom : ind + n ≤ (s.cxt.memPools i).blockCount) (h8 : (s.cxt.memPools i).blockSize % 8 = 0)
    (hfree : ∀ k, ind ≤ k → k < ind + n → (s.cxt.memPools i).heads k = freeHead) {b : Allocation} (hb : b ∈ s.live) :
    Allocation.Apart ⟨blockAddr (s.cxt.memPools i) ind, (s.cxt.memPools i).blockSize, n,
      (s.cxt.memPools i).blockPtr, ind⟩ b := by
  have hslot := h.slot i hi hocc
  set p := s.cxt.memPools i
  show blockAddr p ind + p.blockSize * n ≤ b.addr ∨ b.addr + b.blockSize * b.blockCount ≤ blockAddr p ind
  by_cases hpool : b.pool = p.blockPtr
  · -- same pool: the extents share no block, so one ends where the other begins or before
    obtain ⟨hbs, haddr, -⟩ := hslot.addr b hb hpool
    have hbc := (hslot.books.heads.run b.extent (mem_liveAt hb hpool)).1
    have hnot : ∀ k, ind ≤ k → k < ind + n → ¬ b.extent.Covers k :=
      fun k hk1 hk2 => hslot.books.heads.not_covered (hfree k hk1 hk2) b.extent (mem_liveAt hb hpool)
    have h1 := hnot ind le_rfl (by omega)
    have h2 := hnot b.ind
    simp only [Extent.Covers, Allocation.extent] at h1 h2 hbc
    rw [haddr, hbs, ← blockAddr_add, ← blockAddr_add]
    have hmono : ∀ k l, k ≤ l → blockAddr p k ≤ blockAddr p l := by
      intro k l hkl
      obtain ⟨m, rfl⟩ := Nat.exists_eq_add_of_le hkl
      rw [blockAddr_add]
      exact Nat.le_add_right _ _
    rcases Nat.lt_or_ge ind b.ind with hlt | hge
    · exact Or.inl (hmono _ _ (by omega))
    · exact Or.inr (hmono _ _ (by omega))
  · -- another pool: the heap blocks are apart
    obtain ⟨c, hc, hcaddr, hlow, hhigh, -, -⟩ := h.placed b hb
    obtain ⟨d, hd, hdaddr, -, -, hdfit⟩ := hslot.block
    have hlow' := blockAddr_ge (p := p) (by omega) ind
    have hend := blockAddr_le (p := p) (k := ind + n) (hdfit h8) hroom
    rw [blockAddr_add] at hend
    rcases HeapSpan.apart_of_mem h.apart hc hd (by omega) with hcd | hdc
    · have := Nat.le_max_right 1 c.size
      omega
    · have := Nat.le_max_right 1 d.size
      omega

/-- Handing out free blocks at the first-free index of a pool keeps the invariant. -/
theorem inv_place {s : Sys} (h : Inv s) {i n : ℕ} (hi : i < maxPools) (hocc : Occupied s.cxt i) (hn : 1 ≤ n)
    (h8 : (s.cxt.memPools i).blockSize % 8 = 0)
    (hroom : (s.cxt.memPools i).fFreeInd + n ≤ (s.cxt.memPools i).blockCount)
    (hfree : ∀ k, (s.cxt.memPools i).fFreeInd ≤ k → k < (s.cxt.memPools i).fFreeInd + n →
      (s.cxt.memPools i).heads k = freeHead) :
    Inv (s.place i (s.cxt.memPools i).fFreeInd n) := by
  have hslot := h.slot i hi hocc
  have hdisj := fun b hb => apart_of_free h hi hocc hn hroom h8 hfree (b := b) hb
  set p := s.cxt.memPools i with hp
  set a : Allocation := ⟨blockAddr p p.fFreeInd, p.blockSize, n, p.blockPtr, p.fFreeInd⟩ with ha
  have hlive : (s.place i p.fFreeInd n).live = a :: s.live := rfl
  obtain ⟨d, hd, hdaddr, hdsize, hdlt, hdfit⟩ := hslot.block
  refine ⟨?_, h.cnt, h.ff, ?_, ?_, h.apart, h.nonnull, ?_, ?_⟩
  · rw [occBelow_congr (t := s.cxt) (fun k _ => occupied_place s i p.fFreeInd n k)]
    exact h.occ
  · intro k hk hock
    rw [occupied_place] at hock
    by_cases hki : k = i
    · subst hki
      have hq : (s.place k p.fFreeInd n).cxt.memPools k = allocBlocks p p.fFreeInd n := Function.update_self ..
      rw [hq]
      refine ⟨⟨d, hd, hdaddr, hdsize, hdlt, hdfit⟩, ?_, ?_⟩
      · have hbooks := poolInv_allocBlocks hslot.books hn hroom hfree
        have hat : liveAt (s.place k p.fFreeInd n) p.blockPtr = a.extent :: liveAt s p.blockPtr := by
          rw [Sys.place, liveAt_cons, if_pos rfl]
        show PoolInv _ (liveAt (s.place k p.fFreeInd n) p.blockPtr)
        rw [hat]
        exact hbooks
      · intro b hb hpool
        rcases List.mem_cons.1 hb with rfl | hb
        · exact ⟨rfl, rfl, h8⟩
        · exact hslot.addr b hb hpool
    · have hq : (s.place i p.fFreeInd n).cxt.memPools k = s.cxt.memPools k := Function.update_of_ne hki ..
      have hne : a.pool ≠ (s.cxt.memPools k).blockPtr := fun heq => hki (h.sep k hk i hi hock hocc heq.symm)
      rw [hq]
      refine (h.slot k hk hock).frame (fun c hc _ => hc) ?_ ?_
      · rw [Sys.place, liveAt_cons, if_neg hne]
      · intro b hb hpool
        rcases List.mem_cons.1 hb with rfl | hb
        · exact absurd hpool hne
        · exact hb
  · intro k hk l hl hok hol heq
    rw [occupied_place] at hok hol
    rw [place_blockPtr, place_blockPtr] at heq
    exact h.sep k hk l hl hok hol heq
  · intro b hb
    rcases List.mem_cons.1 hb with rfl | hb
    · have hlow := blockAddr_ge (p := p) (by omega) p.fFreeInd
      have hend := blockAddr_le (p := p) (k := p.fFreeInd + n) (hdfit h8) hroom
      rw [blockAddr_add] at hend
      exact ⟨d, hd, hdaddr, hlow, by rw [hdaddr]; exact hend, hn, Nat.pos_of_ne_zero hocc⟩
    · exact (h.placed b hb).frame (fun c hc _ => hc)
  · rw [hlive]
    exact List.pairwise_cons.2 ⟨hdisj, h.disj⟩

/-- the search over the table returns; what it finds is a free range at the first-free index of a pool of the size -/
theorem findPool_spec {s : Sys} (h : Inv s) (bs : ℕ) {n : ℕ} (hn : 1 ≤ n) :
    (∃ i, findPool s.cxt bs n = some (some (i, (s.cxt.memPools i).fFreeInd)) ∧ i < maxPools ∧ Occupied s.cxt i ∧
      (s.cxt.memPools i).blockSize = bs ∧ (s.cxt.memPools i).fFreeInd + n ≤ (s.cxt.memPools i).blockCount ∧
      ∀ k, (s.cxt.memPools i).fFreeInd ≤ k → k < (s.cxt.memPools i).fFreeInd + n →
        (s.cxt.memPools i).heads k = freeHead) ∨
    findPool s.cxt bs n = some none := by
  -- what one visit of the loop answers
  have hvisit : ∀ i < maxPools, Occupied s.cxt i → rangeInPool bs n (s.cxt.memPools i) = some none ∨
      (rangeInPool bs n (s.cxt.memPools i) = some (some (s.cxt.memPools i).fFreeInd) ∧
        (s.cxt.memPools i).blockSize = bs ∧ (s.cxt.memPools i).fFreeInd + n ≤ (s.cxt.memPools i).blockCount ∧
        ∀ k, (s.cxt.memPools i).fFreeInd ≤ k → k < (s.cxt.memPools i).fFreeInd + n →
          (s.cxt.memPools i).heads k = freeHead) := by
    intro i hi hocc
    have hbooks := (h.slot i hi hocc).books
    unfold rangeInPool
    by_cases hbs : (s.cxt.memPools i).blockSize = bs
    · rw [if_pos hbs]
      rcases findRangeInPool_spec hbooks hn with hr | ⟨hr, hroom, hfree⟩
      · rw [hr]
        exact Or.inl (by simp)
      · have hne : (s.cxt.memPools i).fFreeInd ≠ uint32Max := by
          have := hbooks.blockCount_lt
          omega
        rw [hr]
        exact Or.inr ⟨by simp [hne], hbs, hroom, hfree⟩
    · rw [if_neg hbs]
      exact Or.inl rfl
  rcases scanPools_spec (rangeInPool bs n) h.occ (fun i hi hocc => by
      rcases hvisit i hi hocc with hv | ⟨hv, -⟩ <;> rw [hv] <;> simp) with ⟨i, a, hs, hi, hocc, hv⟩ | ⟨hs, -⟩
  · rcases hvisit i hi hocc with hv' | ⟨hv', hrest⟩
    · rw [hv'] at hv
      cases hv
    · rw [hv'] at hv
      cases hv
      exact Or.inl ⟨i, hs, hi, hocc, hrest⟩
  · exact Or.inr hs

/-! ## Releasing an allocation -/

/-- the table after an allocation was released and its pool stays in use -/
def withReleased (s : PoolAllocContext) (i ind : ℕ) : PoolAllocContext :=
  { s with memPools := Function.update s.memPools i (lowerFirstFree (releaseBlocks (s.memPools i) ind) ind) }

/-- the table after the pool in slot `i` was given back -/
def withoutPool (s : PoolAllocContext) (i : ℕ) : PoolAllocContext where
  nAllocPools := sub32 s.nAllocPools 1
  firstFreePool := lastIn (fun k => (s.memPools k).blockSize = 0) i maxPools s.firstFreePool
  memPools := Function.update s.memPools i emptySlot

theorem occupied_withoutPool {s : PoolAllocContext} {i : ℕ} (k : ℕ) :
    Occupied (withoutPool s i) k ↔ k ≠ i ∧ Occupied s k := by
  unfold Occupied withoutPool
  by_cases hk : k = i
  · subst hk
    simp [emptySlot]
  · simp [hk]

theorem occBelow_withoutPool {s : PoolAllocContext} {i : ℕ} (hi : i < maxPools) (hocc : Occupied s i) :
    occBelow s maxPools = occBelow (withoutPool s i) maxPools + 1 := by
  refine occBelow_occupy hi (fun h => ((occupied_withoutPool i).1 h).1 rfl) hocc (fun k _ hk => ?_)
  rw [occupied_withoutPool]
  exact ⟨fun h => h.2, fun h => ⟨hk, h⟩⟩

theorem occupied_withReleased (s : PoolAllocContext) (i ind k : ℕ) :
    Occupied (withReleased s i ind) k ↔ Occupied s k := by
  unfold Occupied withReleased
  by_cases hk : k = i
  · subst hk
    simp only [Function.update_self]
    exact Iff.rfl
  · simp only [Function.update_of_ne hk]

/-- the three outcomes of freeing a live allocation: its pool is lost, stays in use, or is given back -/
theorem poolFree_live {s : Sys} (h : Inv s) {a : Allocation} (ha : a ∈ s.live) :
    (poolFree s.cxt a.addr = (s.cxt, none) ∧
      ∀ i < maxPools, Occupied s.cxt i → (s.cxt.memPools i).blockPtr ≠ a.pool) ∨
    (∃ i < maxPools, Occupied s.cxt i ∧ (s.cxt.memPools i).blockPtr = a.pool ∧
      (((liveAt s a.pool).erase a.extent ≠ [] ∧ poolFree s.cxt a.addr = (withReleased s.cxt i a.ind, none)) ∨
      ((liveAt s a.pool).erase a.extent = [] ∧ poolFree s.cxt a.addr = (withoutPool s.cxt i, some a.pool)))) := by
  obtain ⟨c, -, hcaddr, hlow, -, hcnt, -⟩ := h.placed a ha
  have hne : a.addr ≠ 0 := by omega
  unfold poolFree
  rw [if_neg hne]
  rcases locateBlock_live h ha with ⟨i, hloc, hi, hocc, hptr⟩ | ⟨hloc, hnone⟩
  · rw [hloc]
    refine Or.inr ⟨i, hi, hocc, hptr, ?_⟩
    have hslot := h.slot i hi hocc
    have hmem := mem_liveAt ha hptr.symm
    obtain ⟨-, haddr, -⟩ := hslot.addr a ha hptr.symm
    have hhead : headerForBlock (s.cxt.memPools i) a.addr = a.ind := by
      refine headerForBlock_live hslot.books hmem haddr.ge ?_
      rw [haddr, blockAddr_add]
      exact Nat.lt_add_of_pos_right (Nat.mul_pos (Nat.pos_of_ne_zero hocc) hcnt)
    have hzero := (poolInv_releaseBlocks hslot.books hmem).count_eq_zero
    rw [lowerFirstFree_nAllocBlocks, hptr] at hzero
    have hzero : (releaseBlocks (s.cxt.memPools i) a.ind).nAllocBlocks = 0 ↔
        (liveAt s a.pool).erase a.extent = [] := hzero
    simp only [hhead]
    by_cases hrest : (liveAt s a.pool).erase a.extent = []
    · rw [if_neg (by rw [hzero.2 hrest]; exact Nat.lt_irrefl 0)]
      exact Or.inr ⟨hrest, by rw [← hptr]; rfl⟩
    · rw [if_pos (Nat.pos_of_ne_zero (fun h0 => hrest (hzero.1 h0)))]
      exact Or.inl ⟨hrest, rfl⟩
  · rw [hloc]
    exact Or.inl ⟨rfl, hnone⟩

section Free

variable {s : Sys} (h : Inv s) {a : Allocation} (ha : a ∈ s.live)
include h ha

/-- the table no longer knows the pool: nothing changes but the list of live allocations -/
theorem inv_free_lost (hlost : ∀ i < maxPools, Occupied s.cxt i → (s.cxt.memPools i).blockPtr ≠ a.pool) :
    Inv ⟨s.cxt, s.blocks, s.live.erase a⟩ := by
  have hsub : ∀ b ∈ s.live.erase a, b ∈ s.live := fun b hb => List.mem_of_mem_erase hb
  refine ⟨h.occ, h.cnt, h.ff, ?_, h.sep, h.apart, h.nonnull, ?_, h.disj.sublist List.erase_sublist⟩
  · intro k hk hock
    replace hock : Occupied s.cxt k := hock
    have hlive := liveAt_erase (t := ⟨s.cxt, s.blocks, s.live.erase a⟩) ha rfl (s.cxt.memPools k).blockPtr
    rw [if_neg (hlost k hk hock).symm] at hlive
    exact (h.slot k hk hock).frame (fun c hc _ => hc) hlive (fun b hb _ => hsub b hb)
  · intro b hb
    exact (h.placed b (hsub b hb)).frame (fun c hc _ => hc)

/-- the pool stays in use -/
theorem inv_free_kept {i : ℕ} (hi : i < maxPools) (hocc : Occupied s.cxt i)
    (hptr : (s.cxt.memPools i).blockPtr = a.pool) : Inv ⟨withReleased s.cxt i a.ind, s.blocks, s.live.erase a⟩ := by
  have hsub : ∀ b ∈ s.live.erase a, b ∈ s.live := fun b hb => List.mem_of_mem_erase hb
  set t : Sys := ⟨withReleased s.cxt i a.ind, s.blocks, s.live.erase a⟩
  have hlive := fun base => liveAt_erase (t := t) ha rfl base
  have hself : t.cxt.memPools i = lowerFirstFree (releaseBlocks (s.cxt.memPools i) a.ind) a.ind :=
    Function.update_self ..
  have hoth : ∀ k, k ≠ i → t.cxt.memPools k = s.cxt.memPools k := fun k hk => Function.update_of_ne hk ..
  have hptrs : ∀ k, (t.cxt.memPools k).blockPtr = (s.cxt.memPools k).blockPtr := by
    intro k
    by_cases hk : k = i
    · subst hk
      rw [hself]
      rfl
    · rw [hoth k hk]
  refine ⟨?_, h.cnt, h.ff, ?_, ?_, h.apart, h.nonnull, ?_, h.disj.sublist List.erase_sublist⟩
  · rw [occBelow_congr (t := s.cxt) (fun k _ => occupied_withReleased s.cxt i a.ind k)]
    exact h.occ
  · intro k hk hock
    replace hock : Occupied s.cxt k := (occupied_withReleased s.cxt i a.ind k).1 hock
    have hl := hlive (s.cxt.memPools k).blockPtr
    by_cases hki : k = i
    · subst hki
      have hslot := h.slot k hk hock
      rw [if_pos hptr.symm] at hl
      rw [hself]
      exact ⟨hslot.block, (poolInv_releaseBlocks hslot.books (mem_liveAt ha hptr.symm)).perm hl,
        fun b hb hp => hslot.addr b (hsub b hb) hp⟩
    · rw [if_neg (fun heq => hki (h.sep k hk i hi hock hocc (heq.symm.trans hptr.symm)))] at hl
      rw [hoth k hki]
      exact (h.slot k hk hock).frame (fun c hc _ => hc) hl (fun b hb _ => hsub b hb)
  · intro k hk l hl hok hol heq
    rw [hptrs, hptrs] at heq
    exact h.sep k hk l hl ((occupied_withReleased ..).1 hok) ((occupied_withReleased ..).1 hol) heq
  · intro b hb
    exact (h.placed b (hsub b hb)).frame (fun c hc _ => hc)

/-- the last allocation of the pool: the heap block is given back, and no live allocation lies in it -/
theorem inv_free_last {i : ℕ} (hi : i < maxPools) (hocc : Occupied s.cxt i)
    (hptr : (s.cxt.memPools i).blockPtr = a.pool) (hrest : (liveAt s a.pool).erase a.extent = []) :
    Inv ⟨withoutPool s.cxt i, s.blocks.filter (fun c => some a.pool ≠ some c.addr), s.live.erase a⟩ := by
  have hsub : ∀ b ∈ s.live.erase a, b ∈ s.live := fun b hb => List.mem_of_mem_erase hb
  set t : Sys := ⟨withoutPool s.cxt i, s.blocks.filter (fun c => some a.pool ≠ some c.addr), s.live.erase a⟩
  have hlive := fun base => liveAt_erase (t := t) ha rfl base
  have hoth : ∀ k, k ≠ i → t.cxt.memPools k = s.cxt.memPools k := fun k hk => Function.update_of_ne hk ..
  have hkeep : ∀ c ∈ s.blocks, c.addr ≠ a.pool → c ∈ t.blocks :=
    fun c hc hne => List.mem_filter.2 ⟨hc, by simpa using fun heq => hne heq.symm⟩
  have hgone : ∀ b ∈ t.live, b.pool ≠ a.pool := by
    intro b hb heq
    have hl := hlive a.pool
    rw [if_pos rfl, hrest] at hl
    have hmem := mem_liveAt hb heq
    rw [List.nil_perm.1 hl] at hmem
    cases hmem
  have hocc1 := occBelow_withoutPool hi hocc
  have hle := h.occ
  have hcnt := h.cnt
  have hn1 : t.cxt.nAllocPools = s.cxt.nAllocPools - 1 := by
    have : maxPools < 2 ^ 32 := by decide
    exact sub32_of_le (by omega) (by omega)
  refine ⟨?_, ?_, ?_, ?_, ?_, h.apart.sublist List.filter_sublist, ?_, ?_, h.disj.sublist List.erase_sublist⟩
  · rw [hn1]
    show occBelow (withoutPool s.cxt i) maxPools ≤ _
    omega
  · rw [hn1]
    omega
  · rw [hn1]
    rcases lastIn_spec (fun k => (s.cxt.memPools k).blockSize = 0) i maxPools s.cxt.firstFreePool with
      ⟨-, heq⟩ | ⟨-, hlt, -⟩
    · have heq : t.cxt.firstFreePool = s.cxt.firstFreePool := heq
      rw [heq]
      exact h.ff.imp id (fun hff => ⟨hff.1, by omega⟩)
    · exact Or.inr ⟨hlt, by omega⟩
  · intro k hk hock
    obtain ⟨hki, hock⟩ := (occupied_withoutPool k).1 hock
    have hne : (s.cxt.memPools k).blockPtr ≠ a.pool :=
      fun heq => hki (h.sep k hk i hi hock hocc (heq.trans hptr.symm))
    have hl := hlive (s.cxt.memPools k).blockPtr
    rw [if_neg hne.symm] at hl
    rw [hoth k hki]
    exact (h.slot k hk hock).frame (fun c hc heq => hkeep c hc (heq ▸ hne)) hl (fun b hb _ => hsub b hb)
  · intro k hk l hl hok hol heq
    obtain ⟨hki, hok⟩ := (occupied_withoutPool k).1 hok
    obtain ⟨hli, hol⟩ := (occupied_withoutPool l).1 hol
    rw [hoth k hki, hoth l hli] at heq
    exact h.sep k hk l hl hok hol heq
  · intro c hc
    exact h.nonnull c (List.mem_filter.1 hc).1
  · intro b hb
    exact (h.placed b (hsub b hb)).frame (fun c hc heq => hkeep c hc (heq ▸ hgone b hb))

/-- Freeing a live allocation keeps the invariant. -/
theorem inv_free :
    Inv ⟨(poolFree s.cxt a.addr).1, s.blocks.filter (fun c => (poolFree s.cxt a.addr).2 ≠ some c.addr),
      s.live.erase a⟩ := by
  have hall : s.blocks.filter (fun c => (none : Option ℕ) ≠ some c.addr) = s.blocks := by simp
  rcases poolFree_live h ha with ⟨hf, hlost⟩ | ⟨i, hi, hocc, hptr, ⟨-, hf⟩ | ⟨hrest, hf⟩⟩
  · rw [hf, hall]
    exact inv_free_lost h ha hlost
  · rw [hf, hall]
    exact inv_free_kept h ha hi hocc hptr
  · rw [hf]
    exact inv_free_last h ha hi hocc hptr hrest

end Free

/-! ## Whole runs -/

/-- the three outcomes of an allocation -/
theorem poolAlloc_cases {s : Sys} (h : Inv s) (bs : ℕ) {n : ℕ} (hn : 1 ≤ n) (heap : Option HeapBlock) :
    (∃ i, findPool s.cxt bs n = some (some (i, (s.cxt.memPools i).fFreeInd)) ∧ i < maxPools ∧ Occupied s.cxt i ∧
      (s.cxt.memPools i).blockSize = bs ∧ (s.cxt.memPools i).fFreeInd + n ≤ (s.cxt.memPools i).blockCount ∧
      (∀ k, (s.cxt.memPools i).fFreeInd ≤ k → k < (s.cxt.memPools i).fFreeInd + n →
        (s.cxt.memPools i).heads k = freeHead) ∧
      poolAlloc s.cxt bs n heap = some (allocAt s.cxt none i (s.cxt.memPools i).fFreeInd n)) ∨
    (¬ CreatesPool s (.alloc bs n heap) ∧
      poolAlloc s.cxt bs n heap = some ⟨.memoryAllocation, s.cxt, 0, 0, 0, none⟩) ∨
    (∃ b, heap = some b ∧ CreatesPool s (.alloc bs n heap) ∧ poolAlloc s.cxt bs n heap =
      some (allocAt (withNewPool s.cxt defBlockCount bs b) (some ⟨b.addr, (newPoolMetrics defBlockCount bs).1⟩)
        s.cxt.firstFreePool 0 n)) := by
  unfold poolAlloc
  rcases findPool_spec h bs hn with ⟨i, hfind, hrest⟩ | hfind
  · rw [hfind]
    obtain ⟨hi, hocc, hbs, hroom, hfree⟩ := hrest
    exact Or.inl ⟨i, rfl, hi, hocc, hbs, hroom, hfree, rfl⟩
  · rw [hfind]
    right
    rcases requestNewPool_cases s.cxt defBlockCount bs heap with ⟨hwhy, hr⟩ | ⟨b, hb, hff, hr⟩
    · refine Or.inl ⟨?_, by rw [hr]⟩
      rintro ⟨-, hff, hsome⟩
      rcases hwhy with hwhy | hwhy
      · exact hff hwhy
      · rw [hwhy] at hsome
        cases hsome
    · refine Or.inr ⟨b, hb, ⟨hfind, hff, by rw [hb]; rfl⟩, by rw [hr]⟩

/-- a new pool of a fitting size takes the request at index 0 -/
theorem newPool_place {bs n : ℕ} {b : HeapBlock} (hfit : n ≤ (newPoolMetrics defBlockCount bs).2) :
    let p := newPool (newPoolMetrics defBlockCount bs).2 bs b
    p.fFreeInd + n ≤ p.blockCount ∧ ∀ k, p.fFreeInd ≤ k → k < p.fFreeInd + n → p.heads k = freeHead := by
  have hff : (newPool (newPoolMetrics defBlockCount bs).2 bs b).fFreeInd = 0 := rfl
  simp only [hff, Nat.zero_add]
  exact ⟨hfit, fun k _ hk => if_pos (hk.trans_le hfit)⟩

/-- the state with the pool that an allocation creates -/
def Sys.withPool (s : Sys) (bs : ℕ) (b : HeapBlock) : Sys :=
  ⟨withNewPool s.cxt defBlockCount bs b, ⟨b.addr, (newPoolMetrics defBlockCount bs).1⟩ :: s.blocks, s.live⟩

/-- a legal allocation that fits is refused, or it takes the first free blocks of a pool that is there or new -/
theorem step_alloc_cases {s : Sys} (h : Inv s) {bs n : ℕ} {heap : Option HeapBlock} (hl : Legal s (.alloc bs n heap))
    (hf : Fits s (.alloc bs n heap)) :
    (¬ CreatesPool s (.alloc bs n heap) ∧
      poolAlloc s.cxt bs n heap = some ⟨.memoryAllocation, s.cxt, 0, 0, 0, none⟩ ∧ step s (.alloc bs n heap) = some s) ∨
    ∃ t i r, Inv (t.place i (t.cxt.memPools i).fFreeInd n) ∧ i < maxPools ∧ Occupied t.cxt i ∧
      poolAlloc s.cxt bs n heap = some r ∧ r.code = .ok ∧
      r.memPtr = blockAddr (t.cxt.memPools i) (t.cxt.memPools i).fFreeInd ∧
      step s (.alloc bs n heap) = some (t.place i (t.cxt.memPools i).fFreeInd n) ∧
      (t = s ∧ findPool s.cxt bs n = some (some (i, (s.cxt.memPools i).fFreeInd)) ∨
        ∃ b, heap = some b ∧ CreatesPool s (.alloc bs n heap) ∧ t = s.withPool bs b ∧ i = s.cxt.firstFreePool) := by
  obtain ⟨⟨hbs0, h8, -⟩, ⟨hn0, -⟩, hheap⟩ := hl
  have hn : 1 ≤ n := Nat.pos_of_ne_zero hn0
  rcases poolAlloc_cases h bs hn heap with
    ⟨i, hfind, hi, hocc, hbs, hroom, hfree, hr⟩ | ⟨hnot, hr⟩ | ⟨b, rfl, hcr, hr⟩
  · refine Or.inr ⟨s, i, _, inv_place h hi hocc hn (by rw [hbs]; exact h8) hroom hfree, hi, hocc, hr, rfl, rfl, ?_,
      Or.inl ⟨rfl, hfind⟩⟩
    rw [← place_eq_allocAt s none, hbs]
    exact congrArg (Option.map _) hr
  · exact Or.inl ⟨hnot, hr, congrArg (Option.map _) hr⟩
  · -- first the table gets the pool, then the blocks are taken from it
    have hp : (s.withPool bs b).cxt.memPools s.cxt.firstFreePool = newPool (newPoolMetrics defBlockCount bs).2 bs b :=
      withNewPool_self ..
    have hff0 : ((s.withPool bs b).cxt.memPools s.cxt.firstFreePool).fFreeInd = 0 := by rw [hp]; rfl
    have hbs : ((s.withPool bs b).cxt.memPools s.cxt.firstFreePool).blockSize = bs := by rw [hp]; rfl
    have hi := (h.ff.resolve_left hcr.2.1).1
    have hocc : Occupied (s.withPool bs b).cxt s.cxt.firstFreePool := (occupied_withNewPool hbs0 _).2 (Or.inl rfl)
    have hroom := newPool_place (b := b) (hf hcr)
    rw [← hp] at hroom
    have hnew : Inv (s.withPool bs b) := inv_withNewPool h hbs0 hcr.2.1 hheap
    have hinv := inv_place hnew hi hocc hn (by rw [hbs]; exact h8) hroom.1 hroom.2
    refine Or.inr ⟨s.withPool bs b, s.cxt.firstFreePool, _, hinv, hi, hocc, hr, rfl, ?_, ?_, Or.inr ⟨b, rfl, hcr, rfl, rfl⟩⟩
    · rw [hff0]
      rfl
    · rw [← place_eq_allocAt _ (some ⟨b.addr, (newPoolMetrics defBlockCount bs).1⟩), hff0, hbs]
      exact congrArg (Option.map _) hr

/-- Every legal call that fits keeps the invariant. -/
theorem step_inv {s t : Sys} {o : Op} (h : Inv s) (hl : Legal s o) (hf : Fits s o) (hs : step s o = some t) :
    Inv t := by
  cases o with
  | alloc bs n heap =>
    rcases step_alloc_cases h hl hf with ⟨-, -, hstep⟩ | ⟨t', i, r, hinv, -, -, -, -, -, hstep, -⟩
    · rw [hstep] at hs
      cases hs
      exact h
    · rw [hstep] at hs
      cases hs
      exact hinv
  | reserve bs n heap =>
    obtain ⟨⟨hbs0, -⟩, -, hheap⟩ := hl
    simp only [step, poolReserve] at hs
    rcases requestNewPool_cases s.cxt n bs heap with ⟨-, hr⟩ | ⟨b, rfl, hff, hr⟩
    · rw [hr] at hs
      cases hs
      exact h
    · rw [hr] at hs
      cases hs
      exact inv_withNewPool h hbs0 hff hheap
  | free a =>
    cases hs
    exact inv_free h hl

theorem run_inv {ops : List Op} {s : Sys} (h : Runs step (fun s o => Legal s o ∧ Fits s o) init ops s) : Inv s :=
  h.inv (fun _ _ _ hs ho hstep => step_inv hs ho.1 ho.2 hstep) inv_init

/-! ## The first call -/

theorem createsPool_init (bs n : ℕ) (b : HeapBlock) : CreatesPool init (.alloc bs n (some b)) := by
  refine ⟨?_, by decide, rfl⟩
  show scanPools zeroContext _ (8191 + 1) 0 0 = some none
  rw [scanPools]
  exact if_neg (Nat.not_lt_zero 0)

theorem legal_init {bs n : ℕ} {b : HeapBlock} (hb : b.addr ≠ 0) (hbs : bs ≠ 0 ∧ bs % 8 = 0 ∧ bs < 2 ^ 32)
    (hn : n ≠ 0 ∧ n < 2 ^ 32) : Legal init (.alloc bs n (some b)) :=
  ⟨hbs, hn, fun b' hb' => by cases hb'; exact ⟨hb, fun c hc => by cases hc⟩⟩

/-- a heap block with cleared memory -/
def clearBlock (addr : ℕ) : HeapBlock := ⟨addr, fun _ => freeHead⟩

/-- the state after the first allocation -/
theorem step_first (bs : ℕ) {n : ℕ} (hn : 1 ≤ n) (b : HeapBlock) : step init (.alloc bs n (some b)) =
    some ⟨(allocAt (withNewPool zeroContext defBlockCount bs b) (some ⟨b.addr, (newPoolMetrics defBlockCount bs).1⟩)
        0 0 n).cxt, [⟨b.addr, (newPoolMetrics defBlockCount bs).1⟩],
      [⟨blockAddr (newPool (newPoolMetrics defBlockCount bs).2 bs b) 0, bs, n, b.addr, 0⟩]⟩ := by
  have hcr := createsPool_init bs n b
  rcases poolAlloc_cases inv_init bs hn (some b) with ⟨i, hfind, -⟩ | ⟨hnot, -⟩ | ⟨b', hb', -, hr⟩
  · rw [hcr.1] at hfind
    cases hfind
  · exact absurd hcr hnot
  · cases hb'
    simp only [step, hr]
    rfl

end Noriko.Alloc
