/-
How much the pool allocator hands out.

Nothing in the program calls `NkPoolReserve`, so every pool has the default number of blocks, and the heap block of a pool is
as large as the block size says (`PoolsKnown`). There are at most 8192 of them, and allocations of one block size lie next to
each other in theirs: that bounds how many there can be at a time (`live_le`).
-/
import Noriko.Alloc.Steps
import Mathlib.Data.List.ProdSigma

namespace Noriko.Alloc

open Lib

/-- the legal calls of the program, which reserves no pools -/
def Used (s : Sys) : Op → Prop
  | .alloc blockSize blockCount heap => Legal s (.alloc blockSize blockCount heap) ∧ Fits s (.alloc blockSize blockCount heap)
  | .reserve _ _ _ => False
  | .free a => Legal s (.free a)

theorem Used.legal {s : Sys} {o : Op} (h : Used s o) : Legal s o ∧ Fits s o := by
  cases o with
  | alloc bs n heap => exact h
  | reserve bs n heap => exact h.elim
  | free a => exact ⟨h, trivial⟩

/-- a heap block in use that begins at the address and holds a pool of the default size for blocks of `bs` bytes -/
def PoolSpan (s : Sys) (base bs : ℕ) : Prop :=
  ∃ c ∈ s.blocks, c.addr = base ∧ c.size = (newPoolMetrics defBlockCount bs).1

/-- every heap block is counted as a pool, and those of the table and of the live allocations have the default size -/
structure PoolsKnown (s : Sys) : Prop where
  count : s.blocks.length ≤ s.cxt.nAllocPools
  slot : ∀ i < maxPools, Occupied s.cxt i → PoolSpan s (s.cxt.memPools i).blockPtr (s.cxt.memPools i).blockSize
  live : ∀ a ∈ s.live, PoolSpan s a.pool a.blockSize

theorem poolsKnown_init : PoolsKnown init :=
  ⟨le_rfl, fun _ _ hocc => absurd rfl hocc, fun _ ha => absurd ha List.not_mem_nil⟩

/-! ## One call -/

section Step

variable {s : Sys}

theorem PoolsKnown.withPool (h : PoolsKnown s) (hinv : Inv s) {bs : ℕ} (hbs : bs ≠ 0)
    (hff : s.cxt.firstFreePool ≠ uint32Max) (b : HeapBlock) : PoolsKnown (s.withPool bs b) := by
  have hroom := (hinv.ff.resolve_left hff).2
  have hcount := h.count
  have hold : ∀ {base n}, PoolSpan s base n → PoolSpan (s.withPool bs b) base n :=
    fun ⟨c, hc, hspan⟩ => ⟨c, List.mem_cons_of_mem _ hc, hspan⟩
  refine ⟨?_, fun i hi hocc => ?_, fun a ha => hold (h.live a ha)⟩
  · have hmax : maxPools < 2 ^ 32 := by decide
    have hnew : (s.withPool bs b).cxt.nAllocPools = s.cxt.nAllocPools + 1 := u32_of_lt (by omega)
    have hlen : (s.withPool bs b).blocks.length = s.blocks.length + 1 := rfl
    omega
  · by_cases heq : i = s.cxt.firstFreePool
    · have hself : (s.withPool bs b).cxt.memPools i = newPool (newPoolMetrics defBlockCount bs).2 bs b := by
        rw [heq]
        exact withNewPool_self ..
      rw [hself]
      exact ⟨_, List.mem_cons_self, rfl, rfl⟩
    · have hother : (s.withPool bs b).cxt.memPools i = s.cxt.memPools i := withNewPool_other _ _ _ _ heq
      rw [hother]
      exact hold (h.slot i hi (((occupied_withNewPool hbs i).1 hocc).resolve_left heq))

theorem PoolsKnown.place (h : PoolsKnown s) {i : ℕ} (hi : i < maxPools) (hocc : Occupied s.cxt i) (ind n : ℕ) :
    PoolsKnown (s.place i ind n) := by
  refine ⟨h.count, fun k hk hock => ?_, fun a ha => ?_⟩
  · have hsize : ((s.place i ind n).cxt.memPools k).blockSize = (s.cxt.memPools k).blockSize := by
      unfold Sys.place
      by_cases hki : k = i
      · subst hki
        simp only [Function.update_self]
        rfl
      · simp only [Function.update_of_ne hki]
    rw [place_blockPtr, hsize]
    exact h.slot k hk ((occupied_place s i ind n k).1 hock)
  · rcases List.mem_cons.1 ha with rfl | hmem
    · exact h.slot i hi hocc
    · exact h.live a hmem

theorem PoolsKnown.free (h : PoolsKnown s) (hinv : Inv s) {a : Allocation} (ha : a ∈ s.live) :
    PoolsKnown ⟨(poolFree s.cxt a.addr).1, s.blocks.filter (fun c => (poolFree s.cxt a.addr).2 ≠ some c.addr),
      s.live.erase a⟩ := by
  have hall : s.blocks.filter (fun c => (none : Option ℕ) ≠ some c.addr) = s.blocks := by simp
  have hsub : ∀ b ∈ s.live.erase a, b ∈ s.live := fun b hb => List.mem_of_mem_erase hb
  rcases poolFree_live hinv ha with ⟨hf, -⟩ | ⟨i, hi, hocc, hptr, ⟨-, hf⟩ | ⟨hrest, hf⟩⟩
  · rw [hf, hall]
    exact ⟨h.count, h.slot, fun b hb => h.live b (hsub b hb)⟩
  · rw [hf, hall]
    refine ⟨h.count, fun k hk hock => ?_, fun b hb => h.live b (hsub b hb)⟩
    have hslot := h.slot k hk ((occupied_withReleased s.cxt i a.ind k).1 hock)
    by_cases hki : k = i
    · subst hki
      simp only [withReleased, Function.update_self]
      exact hslot
    · simp only [withReleased, Function.update_of_ne hki]
      exact hslot
  · -- the heap block of the pool goes, and no other pool or allocation needs it
    rw [hf]
    set t : Sys := ⟨withoutPool s.cxt i, s.blocks.filter (fun c => some a.pool ≠ some c.addr), s.live.erase a⟩
    have hkeep : ∀ {base n}, PoolSpan s base n → base ≠ a.pool → PoolSpan t base n := by
      rintro base n ⟨c, hc, hbase, hsize⟩ hne
      refine ⟨c, List.mem_filter.2 ⟨hc, ?_⟩, hbase, hsize⟩
      simpa using fun heq => hne (hbase.symm.trans heq.symm)
    refine ⟨?_, fun k hk hock => ?_, fun b hb => hkeep (h.live b (hsub b hb)) fun heq => ?_⟩
    · obtain ⟨c, hc, hbase, -⟩ := h.live a ha
      have hless : t.blocks.length < s.blocks.length :=
        List.length_filter_lt_length_iff_exists.2 ⟨c, hc, by simp [hbase]⟩
      have hcount := h.count
      have hmax := hinv.cnt
      have hlimit : maxPools < 2 ^ 32 := by decide
      have hnew : t.cxt.nAllocPools = s.cxt.nAllocPools - 1 := sub32_of_le (by omega) (by omega)
      omega
    · obtain ⟨hki, hock'⟩ := (occupied_withoutPool k).1 hock
      have hother : t.cxt.memPools k = s.cxt.memPools k := Function.update_of_ne hki ..
      rw [hother]
      exact hkeep (h.slot k hk hock') fun heq => hki (hinv.sep k hk i hi hock' hocc (heq.trans hptr.symm))
    · -- the pool had no allocation but this one
      have hlive := liveAt_erase (t := t) ha rfl a.pool
      rw [if_pos rfl, hrest] at hlive
      have hmem : b.extent ∈ liveAt t a.pool := mem_liveAt hb heq
      rw [List.nil_perm.1 hlive] at hmem
      exact absurd hmem List.not_mem_nil

theorem step_poolsKnown {t : Sys} {o : Op} (h : PoolsKnown s) (hinv : Inv s) (ho : Used s o) (hs : step s o = some t) :
    PoolsKnown t := by
  cases o with
  | alloc bs n heap =>
    rcases step_alloc_cases hinv ho.1 ho.2 with ⟨-, -, hstep⟩ | ⟨u, i, r, -, hi, hocc, -, -, -, hstep, hwhere⟩
    · cases hstep.symm.trans hs
      exact h
    · cases hstep.symm.trans hs
      have hu : PoolsKnown u := by
        rcases hwhere with ⟨rfl, -⟩ | ⟨b, -, hcr, rfl, -⟩
        · exact h
        · exact h.withPool hinv ho.1.1.1 hcr.2.1 b
      exact hu.place hi hocc _ _
  | reserve bs n heap => exact ho.elim
  | free a =>
    cases hs
    exact h.free hinv ho

end Step

/-! ## Whole runs -/

theorem used_inv {ops : List Op} {s : Sys} (h : Runs step Used init ops s) : PoolsKnown s ∧ Inv s := by
  have hstep : ∀ s o t, PoolsKnown s ∧ Inv s → Used s o → step s o = some t → PoolsKnown t ∧ Inv t := by
    rintro s o t ⟨hknown, hinv⟩ ho hs
    exact ⟨step_poolsKnown hknown hinv ho hs, step_inv hinv ho.legal.1 ho.legal.2 hs⟩
  exact h.inv hstep ⟨poolsKnown_init, inv_init⟩

/-- the allocations of one block size that are live -/
def liveOf (s : Sys) (bs : ℕ) : List Allocation := s.live.filter fun a => a.blockSize = bs

/-- the pool of an allocation, and how many blocks of its size would fit in front of it -/
def positionOf (a : Allocation) : ℕ × ℕ := (a.pool, (a.addr - a.pool) / a.blockSize)

/-- live allocations of one block size have different positions -/
theorem positions_nodup {s : Sys} (h : Inv s) {bs : ℕ} (hbs : 0 < bs) : ((liveOf s bs).map positionOf).Nodup := by
  refine List.pairwise_map.2 ((h.disj.filter _).imp_of_mem fun {a b} ha hb hapart => ?_)
  obtain ⟨ha, hsa⟩ := List.mem_filter.1 ha
  obtain ⟨hb, hsb⟩ := List.mem_filter.1 hb
  have hsa : a.blockSize = bs := by simpa using hsa
  have hsb : b.blockSize = bs := by simpa using hsb
  obtain ⟨-, -, -, hlowa, -, hna, -⟩ := h.placed a ha
  obtain ⟨-, -, -, hlowb, -, hnb, -⟩ := h.placed b hb
  -- the one that lies in front takes at least one block
  have hnext : ∀ {x y n : ℕ}, 1 ≤ n → x + bs * n ≤ y → x / bs < y / bs := by
    intro x y n hn hxy
    have hone : bs ≤ bs * n := Nat.le_mul_of_pos_right _ hn
    calc x / bs < x / bs + 1 := Nat.lt_succ_self _
      _ = (x + bs) / bs := (Nat.add_div_right x hbs).symm
      _ ≤ y / bs := Nat.div_le_div_right (by omega)
  intro heq
  obtain ⟨hpool, hindex⟩ := Prod.mk.inj heq
  unfold Allocation.Apart at hapart
  rw [hsa, hsb] at hapart hindex
  rcases hapart with hab | hba
  · have hlt := hnext (x := a.addr - a.pool) (y := b.addr - b.pool) hna (by omega)
    omega
  · have hlt := hnext (x := b.addr - b.pool) (y := a.addr - a.pool) hnb (by omega)
    omega

/-- in a run of the program there are never more live allocations of a block size than fit the heap blocks of 8192 pools -/
theorem live_le {ops : List Op} {s : Sys} (h : Runs step Used init ops s) (bs : ℕ) (hbs : 0 < bs) :
    (liveOf s bs).length ≤ maxPools * ((newPoolMetrics defBlockCount bs).1 / bs) := by
  obtain ⟨hknown, hinv⟩ := used_inv h
  set perPool := (newPoolMetrics defBlockCount bs).1 / bs
  have hsub : (liveOf s bs).map positionOf ⊆ s.blocks.map HeapSpan.addr ×ˢ List.range perPool := by
    intro x hx
    obtain ⟨a, ha, rfl⟩ := List.mem_map.1 hx
    obtain ⟨ha, hsa⟩ := List.mem_filter.1 ha
    have hsa : a.blockSize = bs := by simpa using hsa
    obtain ⟨c, hc, hbase, hsize⟩ := hknown.live a ha
    obtain ⟨d, hd, hdbase, hlow, hhigh, hn, -⟩ := hinv.placed a ha
    have hsame : d = c := by
      by_contra hne
      exact (hinv.apart.forall hd hc hne).addr_ne (hdbase.trans hbase.symm)
    subst hsame
    refine List.pair_mem_product.2 ⟨List.mem_map.2 ⟨d, hc, hbase⟩, List.mem_range.2 ?_⟩
    rw [hsa] at hsize hhigh ⊢
    have hone : bs ≤ bs * a.blockCount := Nat.le_mul_of_pos_right _ hn
    calc (a.addr - a.pool) / bs < (a.addr - a.pool) / bs + 1 := Nat.lt_succ_self _
      _ = (a.addr - a.pool + bs) / bs := (Nat.add_div_right _ hbs).symm
      _ ≤ perPool := Nat.div_le_div_right (by omega)
  have hlen := (List.subperm_of_subset (positions_nodup hinv hbs) hsub).length_le
  rw [List.length_map, List.length_product, List.length_map, List.length_range] at hlen
  exact hlen.trans (Nat.mul_le_mul_right _ (hknown.count.trans hinv.cnt))

end Noriko.Alloc
