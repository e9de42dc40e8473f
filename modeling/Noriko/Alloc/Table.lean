/-
The pool table of the allocator: `nAllocPools`, `firstFreePool` and the slots of `memPools`.

`TableOk` says that the counter counts the occupied slots and that the first-free index names a free slot, or is
`uint32Max` exactly if there is none. It breaks in two places. A new pool is put in the first-free slot and the next one
is searched only above it, so the index stays on the slot just taken if the free slots are all below. A pool that is
given back moves the index to the last free slot above its own, and leaves it alone if there is none; with a full table
it stays `uint32Max` although a slot became free.

`KeepsSlots` is the condition that a call does neither. `tableOk_run` is the result: along runs of such calls the table
is right, a pool request takes a free slot and fails for lack of one only if none is free, and the condition is exact at
the end of the run. `tableOk_broken` is the run of four calls after which the first-free slot is occupied.
-/
import Noriko.Alloc.Steps

namespace Noriko.Alloc

open Lib

/-! ## What the table should say -/

structure TableOk (s : PoolAllocContext) : Prop where
  /-- the counter is the number of occupied slots -/
  count : s.nAllocPools = occBelow s maxPools
  first : s.firstFreePool = uint32Max ∨ (s.firstFreePool < maxPools ∧ ¬ Occupied s s.firstFreePool)
  full : s.firstFreePool = uint32Max ↔ ∀ i < maxPools, Occupied s i

/-- a request for a pool is put in a free slot, and fails for lack of slots only if no slot is free -/
def RequestOk (s : PoolAllocContext) : Prop :=
  ∀ blockCount blockSize heap,
    (∀ i, (requestNewPool s blockCount blockSize heap).poolPtr = some i → i < maxPools ∧ ¬ Occupied s i) ∧
    (heap.isSome → (requestNewPool s blockCount blockSize heap).code ≠ .ok → ∀ i < maxPools, Occupied s i)

theorem TableOk.requestOk {s : PoolAllocContext} (h : TableOk s) : RequestOk s := by
  intro n bs heap
  rcases requestNewPool_cases s n bs heap with ⟨hwhy, hr⟩ | ⟨b, hb, hff, hr⟩
  · rw [hr]
    refine ⟨fun i hi => (by cases hi), fun hheap _ => ?_⟩
    rcases hwhy with hmax | hnone
    · exact h.full.1 hmax
    · rw [hnone] at hheap
      cases hheap
  · rw [hr]
    refine ⟨fun i hi => ?_, fun _ hcode => absurd rfl hcode⟩
    cases hi
    exact h.first.resolve_left hff

/-- the call leaves a first-free slot that the code finds: a new pool has a free slot above it or is the last one, and a
pool is not given back while the table is full -/
def KeepsSlots (s : Sys) : Op → Prop
  | .free a => (∃ b ∈ s.live.erase a, b.pool = a.pool) ∨ ∃ k < maxPools, ¬ Occupied s.cxt k
  | o => CreatesPool s o → (∃ k, s.cxt.firstFreePool < k ∧ k < maxPools ∧ ¬ Occupied s.cxt k) ∨
      ∀ k < maxPools, k ≠ s.cxt.firstFreePool → Occupied s.cxt k

/-! ## Counting slots -/

theorem occBelow_le (s : PoolAllocContext) (n : ℕ) : occBelow s n ≤ n := by
  have hle := Finset.card_filter_le (Finset.range n) (Occupied s)
  rwa [Finset.card_range] at hle

theorem occBelow_eq_iff (s : PoolAllocContext) (n : ℕ) : occBelow s n = n ↔ ∀ i < n, Occupied s i := by
  have hcard : occBelow s n = (Finset.range n).card ↔ ∀ i ∈ Finset.range n, Occupied s i :=
    Finset.card_filter_eq_iff
  simpa using hcard

theorem uint32Max_ge : maxPools < uint32Max := by decide

/-- after a new pool every slot is taken exactly if all the others were -/
theorem allOccupied_withNewPool {s : PoolAllocContext} {n bs : ℕ} {b : HeapBlock} (hbs : bs ≠ 0) :
    (∀ i < maxPools, Occupied (withNewPool s n bs b) i) ↔ ∀ k < maxPools, k ≠ s.firstFreePool → Occupied s k := by
  constructor
  · intro hall k hk hne
    exact ((occupied_withNewPool hbs k).1 (hall k hk)).resolve_left hne
  · intro hall k hk
    rw [occupied_withNewPool hbs]
    by_cases hne : k = s.firstFreePool
    · exact Or.inl hne
    · exact Or.inr (hall k hk hne)

section NewPool

variable {s : PoolAllocContext} (h : TableOk s) (hff : s.firstFreePool ≠ uint32Max) {n bs : ℕ} (hbs : bs ≠ 0)
  (b : HeapBlock)
include h hff hbs

theorem count_withNewPool : (withNewPool s n bs b).nAllocPools = occBelow (withNewPool s n bs b) maxPools ∧
    (withNewPool s n bs b).nAllocPools = s.nAllocPools + 1 := by
  obtain ⟨hlt, hfree⟩ := h.first.resolve_left hff
  have hocc : occBelow (withNewPool s n bs b) maxPools = occBelow s maxPools + 1 := by
    refine occBelow_occupy hlt hfree ((occupied_withNewPool hbs _).2 (Or.inl rfl)) (fun k _ hk => ?_)
    rw [occupied_withNewPool hbs]
    exact ⟨Or.inr, fun hc => hc.resolve_left hk⟩
  have hle := occBelow_le (withNewPool s n bs b) maxPools
  have hmax : maxPools < 2 ^ 32 := by decide
  have hcount := h.count
  have hn : (withNewPool s n bs b).nAllocPools = s.nAllocPools + 1 := u32_of_lt (by omega)
  exact ⟨by omega, hn⟩

/-- the table is right after a new pool exactly if the search for the next free slot cannot miss it -/
theorem tableOk_withNewPool_iff : TableOk (withNewPool s n bs b) ↔
    (∃ k, s.firstFreePool < k ∧ k < maxPools ∧ ¬ Occupied s k) ∨
      ∀ k < maxPools, k ≠ s.firstFreePool → Occupied s k := by
  obtain ⟨hlt, hfree⟩ := h.first.resolve_left hff
  obtain ⟨hcount, hn⟩ := count_withNewPool h hff hbs b (n := n)
  have hmax := uint32Max_ge
  have hocc := occupied_withNewPool (s := s) (n := n) (b := b) hbs
  set t := withNewPool s n bs b with ht
  -- the counter reaches the size of the table exactly if every slot is taken
  have hfull : t.nAllocPools = maxPools ↔ ∀ i < maxPools, Occupied t i := by
    rw [hcount]
    exact occBelow_eq_iff t maxPools
  have hfull' := allOccupied_withNewPool (s := s) (n := n) (b := b) hbs
  have hsearch : t.firstFreePool = if t.nAllocPools = maxPools then uint32Max
      else ((upto s.firstFreePool maxPools).find? (fun i => (t.memPools i).blockSize = 0)).getD s.firstFreePool := rfl
  by_cases hall : ∀ i < maxPools, Occupied t i
  · rw [if_pos (hfull.2 hall)] at hsearch
    exact ⟨fun _ => Or.inr (hfull'.1 hall), fun _ => ⟨hcount, Or.inl hsearch, fun _ => hall, fun _ => hsearch⟩⟩
  · rw [if_neg (fun hc => hall (hfull.1 hc))] at hsearch
    cases hs : (upto s.firstFreePool maxPools).find? (fun i => (t.memPools i).blockSize = 0) with
    | none =>
      -- no free slot above: the index stays on the slot just taken
      rw [hs] at hsearch
      have habove := find?_upto_eq_none.1 hs
      constructor
      · intro hok
        rcases hok.first with hc | ⟨-, hc⟩
        · have hsearch : t.firstFreePool = s.firstFreePool := hsearch
          omega
        · rw [hsearch] at hc
          exact absurd ((hocc _).2 (Or.inl rfl)) hc
      · rintro (⟨k, hk1, hk2, hk3⟩ | hc)
        · have hkt := habove k hk1.le hk2
          have hne : k ≠ s.firstFreePool := by omega
          have : Occupied t k := by simpa [Occupied] using hkt
          exact absurd (((hocc k).1 this).resolve_left hne) hk3
        · exact absurd (hfull'.2 hc) hall
    | some k =>
      rw [hs] at hsearch
      obtain ⟨⟨hk1, hk2⟩, hk3, -⟩ := find?_upto_eq_some.1 hs
      have hkfree : ¬ Occupied t k := by simpa [Occupied] using hk3
      have hne : k ≠ s.firstFreePool := fun hc => hkfree ((hocc k).2 (Or.inl hc))
      refine ⟨fun _ => Or.inl ⟨k, by omega, hk2, fun hc => hkfree ((hocc k).2 (Or.inr hc))⟩, fun _ => ?_⟩
      have hsearch : t.firstFreePool = k := hsearch
      refine ⟨hcount, Or.inr ?_, fun hc => ?_, fun hc => absurd hc hall⟩
      · rw [hsearch]
        exact ⟨hk2, hkfree⟩
      · omega

end NewPool

/-- the table is right after a pool was given back exactly if it was not full -/
theorem tableOk_withoutPool_iff {s : PoolAllocContext} (h : TableOk s) {i : ℕ} (hi : i < maxPools)
    (hocc : Occupied s i) : TableOk (withoutPool s i) ↔ ∃ k < maxPools, ¬ Occupied s k := by
  have hmax := uint32Max_ge
  have hone := occBelow_withoutPool hi hocc
  have hcount : (withoutPool s i).nAllocPools = occBelow (withoutPool s i) maxPools := by
    have hle := occBelow_le s maxPools
    have h32 : maxPools < 2 ^ 32 := by decide
    have hc := h.count
    have hsub : (withoutPool s i).nAllocPools = s.nAllocPools - 1 := sub32_of_le (by omega) (by omega)
    omega
  have hnew : ¬ Occupied (withoutPool s i) i := fun hc => ((occupied_withoutPool i).1 hc).1 rfl
  have hnotfull : ¬ ∀ k < maxPools, Occupied (withoutPool s i) k := fun hc => hnew (hc i hi)
  have hlast : (withoutPool s i).firstFreePool =
    lastIn (fun k => (s.memPools k).blockSize = 0) i maxPools s.firstFreePool := rfl
  rcases lastIn_spec (fun k => (s.memPools k).blockSize = 0) i maxPools s.firstFreePool with
    ⟨hnone, heq⟩ | ⟨hk1, hk2, hk3⟩
  · rw [heq] at hlast
    by_cases hff : s.firstFreePool = uint32Max
    · -- a full table keeps uint32Max
      refine ⟨fun hok => absurd (hok.full.1 (hlast.trans hff)) hnotfull, ?_⟩
      rintro ⟨k, hk, hfree⟩
      exact absurd (h.full.1 hff k hk) hfree
    · obtain ⟨hlt, hfree⟩ := h.first.resolve_left hff
      refine ⟨fun _ => ⟨_, hlt, hfree⟩, fun _ => ⟨hcount, Or.inr ?_, fun hc => ?_, fun hc => absurd hc hnotfull⟩⟩
      · rw [hlast]
        exact ⟨hlt, fun hc => hfree ((occupied_withoutPool _).1 hc).2⟩
      · rw [hlast] at hc
        exact absurd hc hff
  · rw [← hlast] at hk1 hk2 hk3
    have hfree : ¬ Occupied s (withoutPool s i).firstFreePool := by simpa [Occupied] using hk3
    refine ⟨fun _ => ⟨_, hk2, hfree⟩, fun _ => ⟨hcount, Or.inr ⟨hk2, ?_⟩, fun hc => ?_, fun hc => absurd hc hnotfull⟩⟩
    · exact fun hc => hfree ((occupied_withoutPool _).1 hc).2
    · omega

/-! ## What a call does to the table -/

/-- two tables with the same counter, first-free index and slots, up to the books inside the pools -/
structure SameTable (s t : PoolAllocContext) : Prop where
  cnt : t.nAllocPools = s.nAllocPools
  ff : t.firstFreePool = s.firstFreePool
  occ : ∀ i, Occupied t i ↔ Occupied s i
  ptr : ∀ i, (t.memPools i).blockPtr = (s.memPools i).blockPtr

theorem SameTable.refl (s : PoolAllocContext) : SameTable s s := ⟨rfl, rfl, fun _ => Iff.rfl, fun _ => rfl⟩

theorem SameTable.tableOk {s t : PoolAllocContext} (h : SameTable s t) : TableOk t ↔ TableOk s := by
  have hcount : occBelow t maxPools = occBelow s maxPools := occBelow_congr (fun i _ => h.occ i)
  constructor
  · rintro ⟨h1, h2, h3⟩
    rw [h.cnt, hcount] at h1
    rw [h.ff, h.occ] at h2
    rw [h.ff] at h3
    exact ⟨h1, h2, h3.trans (forall₂_congr fun i _ => h.occ i)⟩
  · rintro ⟨h1, h2, h3⟩
    refine ⟨by rw [h.cnt, hcount]; exact h1, by rw [h.ff, h.occ]; exact h2, ?_⟩
    rw [h.ff]
    exact h3.trans (forall₂_congr fun i _ => (h.occ i).symm)

theorem sameTable_allocAt (s : PoolAllocContext) (taken : Option HeapSpan) (i ind n : ℕ) :
    SameTable s (allocAt s taken i ind n).cxt :=
  ⟨rfl, rfl, fun k => occupied_place ⟨s, [], []⟩ i ind n k, fun k => place_blockPtr ⟨s, [], []⟩ i ind n k⟩

theorem sameTable_withReleased (s : PoolAllocContext) (i ind : ℕ) : SameTable s (withReleased s i ind) := by
  refine ⟨rfl, rfl, occupied_withReleased s i ind, fun k => ?_⟩
  unfold withReleased
  by_cases hk : k = i
  · subst hk
    simp only [Function.update_self]
    rfl
  · simp only [Function.update_of_ne hk]

/-- the table knows the pool of an allocation -/
def KnowsPool (s : PoolAllocContext) (a : Allocation) : Prop :=
  ∃ i < maxPools, Occupied s i ∧ (s.memPools i).blockPtr = a.pool

theorem SameTable.knowsPool {s t : PoolAllocContext} (h : SameTable s t) {a : Allocation} (ha : KnowsPool s a) :
    KnowsPool t a := by
  obtain ⟨i, hi, hocc, hptr⟩ := ha
  exact ⟨i, hi, (h.occ i).2 hocc, (h.ptr i).trans hptr⟩

/-- the invariant with a right table: no live allocation is in a pool the table has lost -/
structure TableInv (s : Sys) : Prop where
  inv : Inv s
  table : TableOk s.cxt
  knows : ∀ a ∈ s.live, KnowsPool s.cxt a

/-- another live allocation of the same pool is left -/
theorem others_iff {s : Sys} {a : Allocation} (ha : a ∈ s.live) :
    (liveAt s a.pool).erase a.extent ≠ [] ↔ ∃ b ∈ s.live.erase a, b.pool = a.pool := by
  have hl := liveAt_erase (t := ⟨s.cxt, s.blocks, s.live.erase a⟩) ha rfl a.pool
  rw [if_pos rfl] at hl
  rw [ne_eq, ← List.isEmpty_iff, hl.isEmpty_eq, List.isEmpty_iff, liveAt, List.map_eq_nil_iff,
    List.filter_eq_nil_iff]
  simp

/-- what a call does to the table -/
inductive TableStep (s : Sys) (o : Op) (t : Sys) : Prop
  | keeps (hkeep : KeepsSlots s o) (hsame : SameTable s.cxt t.cxt)
      (hlive : ∀ a ∈ t.live, a ∈ s.live ∨ KnowsPool t.cxt a)
  | creates (n bs : ℕ) (b : HeapBlock) (hbs0 : bs ≠ 0) (hcr : CreatesPool s o)
      (hsame : SameTable (withNewPool s.cxt n bs b) t.cxt) (hlive : ∀ a ∈ t.live, a ∈ s.live ∨ KnowsPool t.cxt a)
  | givesBack (a : Allocation) (i : ℕ) (ho : o = .free a) (hi : i < maxPools) (hocc : Occupied s.cxt i)
      (ht : t.cxt = withoutPool s.cxt i) (halone : ∀ b ∈ s.live.erase a, b.pool ≠ (s.cxt.memPools i).blockPtr)
      (hptr : (s.cxt.memPools i).blockPtr = a.pool) (hlive : t.live = s.live.erase a)

theorem knowsPool_cons {c : PoolAllocContext} {live : List Allocation} {a : Allocation} (ha : KnowsPool c a) :
    ∀ b ∈ a :: live, b ∈ live ∨ KnowsPool c b := by
  intro b hb
  rcases List.mem_cons.1 hb with rfl | hb
  · exact Or.inr ha
  · exact Or.inl hb

theorem alloc_table {s t : Sys} {bs n : ℕ} {heap : Option HeapBlock} (h : TableInv s) (hl : Legal s (.alloc bs n heap))
    (hs : step s (.alloc bs n heap) = some t) : TableStep s (.alloc bs n heap) t := by
  obtain ⟨⟨hbs0, -, -⟩, ⟨hn0, -⟩, -⟩ := hl
  simp only [step] at hs
  rcases poolAlloc_cases h.inv bs (Nat.pos_of_ne_zero hn0) heap with
    ⟨i, hfind, hi, hocc, -, -, -, hr⟩ | ⟨hnot, hr⟩ | ⟨b, rfl, hcr, hr⟩
  · have hsame := sameTable_allocAt s.cxt none i (s.cxt.memPools i).fFreeInd n
    rw [hr] at hs
    rw [← Option.some.inj hs]
    refine .keeps (fun hcr => ?_) hsame (knowsPool_cons ⟨i, hi, (hsame.occ i).2 hocc, rfl⟩)
    have hnone := hcr.1
    rw [hfind] at hnone
    cases hnone
  · rw [hr] at hs
    cases hs
    exact .keeps (fun hcr => absurd hcr hnot) (SameTable.refl _) fun a ha => Or.inl ha
  · have hsame := sameTable_allocAt (withNewPool s.cxt defBlockCount bs b)
      (some ⟨b.addr, (newPoolMetrics defBlockCount bs).1⟩) s.cxt.firstFreePool 0 n
    have hocc := (occupied_withNewPool (n := defBlockCount) (b := b) hbs0 s.cxt.firstFreePool).2 (Or.inl rfl)
    rw [hr] at hs
    rw [← Option.some.inj hs]
    refine .creates defBlockCount bs b hbs0 hcr hsame (knowsPool_cons ?_)
    exact ⟨_, (h.inv.ff.resolve_left hcr.2.1).1, (hsame.occ _).2 hocc, rfl⟩

theorem reserve_table {s t : Sys} {bs n : ℕ} {heap : Option HeapBlock} (hl : Legal s (.reserve bs n heap))
    (hs : step s (.reserve bs n heap) = some t) : TableStep s (.reserve bs n heap) t := by
  obtain ⟨⟨hbs0, -⟩, -⟩ := hl
  simp only [step, poolReserve] at hs
  rcases requestNewPool_cases s.cxt n bs heap with ⟨hwhy, hr⟩ | ⟨b, rfl, hff, hr⟩
  · rw [hr] at hs
    cases hs
    refine .keeps ?_ (SameTable.refl _) fun a ha => Or.inl ha
    rintro ⟨hff, hsome⟩
    rcases hwhy with hmax | hnone
    · exact absurd hmax hff
    · rw [hnone] at hsome
      cases hsome
  · rw [hr] at hs
    cases hs
    exact .creates n bs b hbs0 ⟨hff, rfl⟩ (SameTable.refl _) fun a ha => Or.inl ha

theorem free_table {s t : Sys} {a : Allocation} (h : TableInv s) (hl : Legal s (.free a))
    (hs : step s (.free a) = some t) : TableStep s (.free a) t := by
  have hsub : ∀ b ∈ s.live.erase a, b ∈ s.live := fun b hb => List.mem_of_mem_erase hb
  cases hs
  rcases poolFree_live h.inv hl with ⟨-, hlost⟩ | ⟨i, hi, hocc, hptr, ⟨hrest, hf⟩ | ⟨hrest, hf⟩⟩
  · obtain ⟨i, hi, hocc, hptr⟩ := h.knows a hl
    exact absurd hptr (hlost i hi hocc)
  · refine .keeps (Or.inl ?_) ?_ fun b hb => Or.inl (hsub b hb)
    · exact (others_iff hl).1 hrest
    · simp only [hf]
      exact sameTable_withReleased ..
  · refine .givesBack a i rfl hi hocc ?_ (fun b hb heq => ?_) hptr rfl
    · simp only [hf]
    · exact (others_iff hl).2 ⟨b, hb, heq.trans hptr⟩ hrest

/-- a call keeps the table, sets up a pool, or gives one back -/
theorem step_table {s t : Sys} {o : Op} (h : TableInv s) (hl : Legal s o) (hs : step s o = some t) :
    TableStep s o t := by
  cases o with
  | alloc bs n heap => exact alloc_table h hl hs
  | reserve bs n heap => exact reserve_table hl hs
  | free a => exact free_table h hl hs

/-- A legal call leaves a right table exactly if it keeps the slots. -/
theorem step_tableOk_iff {s t : Sys} {o : Op} (h : TableInv s) (hl : Legal s o) (hs : step s o = some t) :
    TableOk t.cxt ↔ KeepsSlots s o := by
  rcases step_table h hl hs with ⟨hkeep, hsame, -⟩ | ⟨n, bs, b, hbs0, hcr, hsame, -⟩ |
    ⟨a, i, rfl, hi, hocc, ht, halone, hptr, -⟩
  · exact ⟨fun _ => hkeep, fun _ => hsame.tableOk.2 h.table⟩
  · rw [hsame.tableOk]
    cases o with
    | alloc bs' n' heap =>
      exact (tableOk_withNewPool_iff h.table hcr.2.1 hbs0 b).trans ⟨fun hc _ => hc, fun hc => hc hcr⟩
    | reserve bs' n' heap =>
      exact (tableOk_withNewPool_iff h.table hcr.1 hbs0 b).trans ⟨fun hc _ => hc, fun hc => hc hcr⟩
    | free a => exact hcr.elim
  · rw [ht, tableOk_withoutPool_iff h.table hi hocc]
    refine ⟨Or.inr, fun hc => hc.resolve_left ?_⟩
    rintro ⟨b, hb, heq⟩
    exact halone b hb (heq.trans hptr.symm)

/-- Every legal call that fits and keeps the slots keeps the invariant with the right table. -/
theorem step_tableInv {s t : Sys} {o : Op} (h : TableInv s) (hl : Legal s o) (hf : Fits s o) (hk : KeepsSlots s o)
    (hs : step s o = some t) : TableInv t := by
  refine ⟨step_inv h.inv hl hf hs, (step_tableOk_iff h hl hs).2 hk, fun a ha => ?_⟩
  rcases step_table h hl hs with ⟨-, hsame, hlive⟩ | ⟨n, bs, b, hbs0, hcr, hsame, hlive⟩ |
    ⟨a', i, rfl, hi, hocc, ht, halone, -, hlive⟩
  · rcases hlive a ha with hold | hnew
    · exact hsame.knowsPool (h.knows a hold)
    · exact hnew
  · -- the new pool went to a free slot, so no pool of the table was overwritten
    rcases hlive a ha with hold | hnew
    · obtain ⟨i, hi, hocc, hptr⟩ := h.knows a hold
      have hff : s.cxt.firstFreePool ≠ uint32Max := by
        cases o with
        | alloc _ _ _ => exact hcr.2.1
        | reserve _ _ _ => exact hcr.1
        | free _ => exact hcr.elim
      have hne : i ≠ s.cxt.firstFreePool := by
        rintro rfl
        exact (h.table.first.resolve_left hff).2 hocc
      refine hsame.knowsPool ⟨i, hi, (occupied_withNewPool hbs0 i).2 (Or.inr hocc), ?_⟩
      rw [withNewPool_other _ _ _ _ hne]
      exact hptr
    · exact hnew
  · rw [hlive] at ha
    obtain ⟨k, hk, hock, hptr⟩ := h.knows a (List.mem_of_mem_erase ha)
    have hne : k ≠ i := by
      rintro rfl
      exact halone a ha hptr.symm
    have hpool : (withoutPool s.cxt i).memPools k = s.cxt.memPools k := Function.update_of_ne hne ..
    rw [ht]
    exact ⟨k, hk, (occupied_withoutPool k).2 ⟨hne, hock⟩, by rw [hpool]; exact hptr⟩

theorem tableInv_init : TableInv init := by
  have hnone : ∀ i, ¬ Occupied init.cxt i := fun i h => h rfl
  refine ⟨inv_init, ⟨?_, Or.inr ⟨by decide, hnone 0⟩, ?_⟩, fun a ha => by cases ha⟩
  · exact (Finset.card_eq_zero.2 (Finset.filter_eq_empty_iff.2 fun i _ => hnone i)).symm
  · exact ⟨fun hc => absurd hc (by decide), fun hc => absurd (hc 0 (by decide)) (hnone 0)⟩

/-- Along every run of legal calls that fit and keep the slots, the table is right and pool requests behave; the next
call leaves a right table exactly if it keeps the slots too. -/
theorem tableOk_run {ops : List Op} {s : Sys}
    (hrun : Runs step (fun s o => Legal s o ∧ Fits s o ∧ KeepsSlots s o) init ops s) :
    TableOk s.cxt ∧ RequestOk s.cxt ∧
      ∀ o t, Legal s o → step s o = some t → (TableOk t.cxt ↔ KeepsSlots s o) := by
  have h : TableInv s := hrun.inv (fun _ _ _ hs ho hstep => step_tableInv hs ho.1 ho.2.1 ho.2.2 hstep) tableInv_init
  exact ⟨h.table, h.table.requestOk, fun o t hl hs => step_tableOk_iff h hl hs⟩

/-! ## The table after a pool was given back -/

/-- the only pool of the table is given back: the first-free index moves to the last slot -/
theorem onlyPool_free {s : Sys} (h : TableInv s) {a : Allocation} (hlive : s.live = [a])
    (hocc : ∀ i, Occupied s.cxt i ↔ i = 0) :
    ∃ t, step s (.free a) = some t ∧ t.cxt.firstFreePool = maxPools - 1 ∧ (∀ i, ¬ Occupied t.cxt i) ∧
      ∀ c ∈ t.blocks, c ∈ s.blocks := by
  have ha : a ∈ s.live := by rw [hlive]; exact List.mem_singleton_self a
  refine ⟨_, rfl, ?_⟩
  rcases poolFree_live h.inv ha with ⟨-, hlost⟩ | ⟨i, hi, hoi, hptr, ⟨hrest, -⟩ | ⟨-, hf⟩⟩
  · obtain ⟨i, hi, hoi, hptr⟩ := h.knows a ha
    exact absurd hptr (hlost i hi hoi)
  · obtain ⟨b, hb, -⟩ := (others_iff ha).1 hrest
    rw [hlive, List.erase_cons_head] at hb
    cases hb
  · have hi0 : i = 0 := (hocc i).1 hoi
    simp only [hf]
    refine ⟨?_, fun k hk => ?_, fun c hc => (List.mem_filter.1 hc).1⟩
    · have hfree : ¬ Occupied s.cxt (maxPools - 1) := fun hc => absurd ((hocc _).1 hc) (by decide)
      have hi : i ≤ maxPools - 1 := by omega
      have hp : (s.cxt.memPools (maxPools - 1)).blockSize = 0 := not_not.1 hfree
      exact lastIn_of_last (p := fun k => (s.cxt.memPools k).blockSize = 0) _ hi (decide_eq_true hp)
    · obtain ⟨hki, hk⟩ := (occupied_withoutPool k).1 hk
      exact hki (((hocc k).1 hk).trans hi0.symm)

/-- with an empty table whose first-free slot is the last one, a new pool leaves the index on an occupied slot -/
theorem lastSlot_alloc {s : Sys} (h : TableInv s) (hff : s.cxt.firstFreePool = maxPools - 1)
    (hfree : ∀ i, ¬ Occupied s.cxt i) {bs n : ℕ} {b : HeapBlock} (hl : Legal s (.alloc bs n (some b))) :
    ∃ t, step s (.alloc bs n (some b)) = some t ∧ ¬ TableOk t.cxt := by
  have hn : 1 ≤ n := Nat.pos_of_ne_zero hl.2.1.1
  have hne : s.cxt.firstFreePool ≠ uint32Max := by rw [hff]; decide
  obtain ⟨t, ht⟩ : ∃ t, step s (.alloc bs n (some b)) = some t := by
    simp only [step]
    rcases poolAlloc_cases h.inv bs hn (some b) with ⟨i, -, -, -, -, -, -, hr⟩ | ⟨-, hr⟩ | ⟨b', -, -, hr⟩ <;>
      exact ⟨_, congrArg (Option.map _) hr⟩
  refine ⟨t, ht, fun hok => ?_⟩
  have hcr : CreatesPool s (.alloc bs n (some b)) := by
    refine ⟨?_, hne, rfl⟩
    rcases findPool_spec h.inv bs hn with ⟨i, -, -, hocc, -⟩ | hnone
    · exact absurd hocc (hfree i)
    · exact hnone
  rcases (step_tableOk_iff h hl ht).1 hok hcr with ⟨k, hk1, hk2, -⟩ | hall
  · omega
  · exact hfree 0 (hall 0 (by decide) (by rw [hff]; decide))

theorem tableInv_first : ∃ s a, step init (.alloc 8 1 (some (clearBlock 65536))) = some s ∧ TableInv s ∧
    s.live = [a] ∧ s.blocks = [⟨65536, 4096⟩] ∧ (∀ i, Occupied s.cxt i ↔ i = 0) ∧
    Legal init (.alloc 8 1 (some (clearBlock 65536))) ∧ Fits init (.alloc 8 1 (some (clearBlock 65536))) ∧
    KeepsSlots init (.alloc 8 1 (some (clearBlock 65536))) := by
  have hl : Legal init (.alloc 8 1 (some (clearBlock 65536))) := legal_init (by decide) (by decide) (by decide)
  have hf : Fits init (.alloc 8 1 (some (clearBlock 65536))) := fun _ => by decide
  have hk : KeepsSlots init (.alloc 8 1 (some (clearBlock 65536))) :=
    fun _ => Or.inl ⟨1, by decide, by decide, fun h => h rfl⟩
  have hs := step_first 8 le_rfl (clearBlock 65536)
  refine ⟨_, _, hs, step_tableInv tableInv_init hl hf hk hs, rfl, by decide, fun i => ?_, hl, hf, hk⟩
  rw [(sameTable_allocAt ..).occ, occupied_withNewPool (by decide)]
  exact ⟨fun hc => hc.resolve_right (fun h => h rfl), Or.inl⟩

/-- after one allocation the table is right -/
theorem tableOk_run_first : ∃ s, Runs step (fun s o => Legal s o ∧ Fits s o ∧ KeepsSlots s o) init
    [.alloc 8 1 (some (clearBlock 65536))] s ∧ TableOk s.cxt := by
  obtain ⟨s, a, hs, -, -, -, -, hl, hf, hk⟩ := tableInv_first
  have hrun : Runs step (fun s o => Legal s o ∧ Fits s o ∧ KeepsSlots s o) init
    [.alloc 8 1 (some (clearBlock 65536))] s := .cons ⟨hl, hf, hk⟩ hs (.nil _)
  exact ⟨s, hrun, (tableOk_run hrun).1⟩

/-- one block is allocated, freed and allocated again: the second pool is put in the last slot and the first-free index
stays there -/
theorem tableOk_broken : ¬ ∀ ops s, Runs step Legal init ops s → TableOk s.cxt ∧ RequestOk s.cxt := by
  intro hall
  obtain ⟨s, a, hs, hinv, hlive, hblocks, hocc, hl, -, -⟩ := tableInv_first
  obtain ⟨t, ht, hff, hfree, hsub⟩ := onlyPool_free hinv hlive hocc
  have ha : Legal s (.free a) := by
    show a ∈ s.live
    rw [hlive]
    exact List.mem_singleton_self a
  have hinv' : TableInv t :=
    step_tableInv hinv ha trivial (Or.inr ⟨1, by decide, fun hc => absurd ((hocc 1).1 hc) (by decide)⟩) ht
  have hl' : Legal t (.alloc 8 1 (some (clearBlock 131072))) := by
    refine ⟨by decide, by decide, fun b hb => ?_⟩
    cases hb
    refine ⟨by decide, fun c hc => ?_⟩
    have hc' := hsub c hc
    rw [hblocks] at hc'
    rw [List.mem_singleton.1 hc']
    exact Or.inr (by decide)
  obtain ⟨u, hu, hbad⟩ := lastSlot_alloc hinv' hff hfree hl'
  exact hbad (hall _ u (.cons hl hs (.cons ha ht (.cons hl' hu (.nil _))))).1

end Noriko.Alloc
