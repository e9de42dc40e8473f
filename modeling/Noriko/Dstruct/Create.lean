/-
Creating containers (`NkHashtableCreate` of `htable.c`, `NkVectorCreate` of `vector.c`) over the two allocators.

A container is a block of the pool allocator and an array of the heap. The state is the pool allocator with the heap blocks
of its pools, and the heap blocks that others hold; what the heap answers is data of the call. A release is recorded with
the state it finds, so that the allocator it goes to can be compared with the one that issued the block.

If there is no memory for the array, the vector gives its block back to the pool, but the hash table hands it to `NkGPFree`.
Giving a block back frees a pool that is empty then, and this takes a heap block away if the pool was reserved and not in use
before. `create_right_iff` is the exact condition.
-/
import Noriko.Alloc.Steps
import Noriko.Dstruct.Vector

namespace Noriko.Create

open Lib Alloc Dstruct

/-! ## The allocators -/

structure Allocators where
  /-- the pool allocator, with the heap blocks of its pools -/
  pool : Sys
  /-- heap blocks that are not pools -/
  heap : List HeapSpan

/-- all heap blocks in use -/
def Allocators.heapBlocks (s : Allocators) : List HeapSpan := s.pool.blocks ++ s.heap

inductive Release where
  | toPool (memPtr : ℕ)
  | toHeap (memPtr : ℕ)
deriving DecidableEq, Repr

/-- the block was issued by the allocator it goes to -/
def Release.Matches (s : Allocators) : Release → Prop
  | .toPool memPtr => ∃ a ∈ s.pool.live, a.addr = memPtr
  | .toHeap memPtr => ∃ c ∈ s.heapBlocks, c.addr = memPtr

/-- releases with the state that each of them finds -/
abbrev Releases := List (Allocators × Release)

/-- `NkGPFree` -/
def gpFree (s : Allocators) (memPtr : ℕ) : Allocators × Releases :=
  if memPtr = 0 then (s, [])
  else
    (⟨{ s.pool with blocks := s.pool.blocks.filter fun c => c.addr ≠ memPtr }, s.heap.filter fun c => c.addr ≠ memPtr⟩,
      [(s, .toHeap memPtr)])

/-- `NkPoolFree`, with the release of the pool that it empties -/
def poolFree (s : Allocators) (memPtr : ℕ) : Allocators × Releases :=
  if memPtr = 0 then (s, [])
  else
    let r := Alloc.poolFree s.pool.cxt memPtr
    (⟨⟨r.1, s.pool.blocks.filter fun c => r.2 ≠ some c.addr, s.pool.live.eraseP fun a => a.addr = memPtr⟩, s.heap⟩,
      (s, .toPool memPtr) :: (r.2.map fun blockPtr => (s, Release.toHeap blockPtr)).toList)

/-! ## The constructors -/

structure CreateResult where
  code : NkErrorCode
  /-- the output pointer, 0 for `NULL` -/
  outPtr : ℕ
  state : Allocators
  released : Releases

/-- a block of `objSize` bytes from the pool and an array of `arraySize` bytes from the heap; `giveBack` is called for the
block if there is no array -/
def createWith (giveBack : Allocators → ℕ → Allocators × Releases) (objSize arraySize : ℕ) (s : Allocators)
    (heap : Option HeapBlock) (array : Option ℕ) : Option CreateResult := do
  let r ← poolAlloc s.pool.cxt objSize 1 heap
  let pool ← step s.pool (.alloc objSize 1 heap)
  let s := { s with pool := pool }
  if r.code ≠ .ok then return ⟨r.code, r.memPtr, s, []⟩
  match array with
  | some addr => return ⟨.ok, r.memPtr, { s with heap := ⟨addr, arraySize⟩ :: s.heap }, []⟩
  | none => return ⟨.memoryAllocation, 0, (giveBack s r.memPtr).1, (giveBack s r.memPtr).2⟩

/-- `sizeof(NkHashtable)` -/
def hashtableBytes : ℕ := 48

/-- `sizeof(NkVector)` -/
def vectorBytes : ℕ := 72

inductive Container where
  | hashtable (initCap : ℕ)
  | vector (initialCap : ℕ)
deriving DecidableEq, Repr

/-- what `NkHashtableCreate` and `NkVectorCreate` take from the allocators and give back to them. A slot of a table has 24
bytes; the seed of the hash function is not part of the state. -/
def Container.create : Container → Allocators → Option HeapBlock → Option ℕ → Option CreateResult
  | .hashtable initCap => createWith gpFree hashtableBytes (24 * initCap)
  | .vector initialCap => createWith poolFree vectorBytes (u64 (ptrBytes * initialCap))

def Container.objSize : Container → ℕ
  | .hashtable _ => hashtableBytes
  | .vector _ => vectorBytes

/-- the vector itself is what these answers of the allocators make it -/
theorem create_vector {E : Type} {vecProps : VectorProperties} {s : Allocators} {heap : Option HeapBlock}
    {array : Option (Fresh E)} {r : CreateResult}
    (h : (Container.vector vecProps.initialCap).create s heap (array.map Fresh.addr) = some r) (fnElemDest : Bool) :
    ∃ a, poolAlloc s.pool.cxt vectorBytes 1 heap = some a ∧ (vectorCreate vecProps fnElemDest a.code array).1 = r.code := by
  obtain ⟨a, ha, hrest⟩ := Option.bind_eq_some_iff.1 h
  obtain ⟨pool, -, hend⟩ := Option.bind_eq_some_iff.1 hrest
  refine ⟨a, ha, ?_⟩
  unfold vectorCreate
  dsimp only at hend
  by_cases hcode : a.code = .ok
  · rw [if_neg (not_not.2 hcode)] at hend ⊢
    cases array with
    | none =>
      cases hend
      rfl
    | some b =>
      cases hend
      rfl
  · rw [if_pos hcode] at hend ⊢
    cases hend
    rfl

/-! ## All or nothing -/

/-- the call returns, and after an error there is no container, all blocks are as before, and what was released went back to
its allocator -/
def CreateRight (c : Container) (s : Allocators) (heap : Option HeapBlock) (array : Option ℕ) : Prop :=
  ∃ r, c.create s heap array = some r ∧ (r.code ≠ .ok →
    r.outPtr = 0 ∧ r.state.pool.live = s.pool.live ∧ r.state.heapBlocks = s.heapBlocks ∧
      ∀ x ∈ r.released, x.2.Matches x.1)

/-- the pool allocator has no block: no pool of the size has room, and there is no slot or no memory for a new one -/
def PoolRefuses (s : Sys) (objSize : ℕ) (heap : Option HeapBlock) : Prop :=
  findPool s.cxt objSize 1 = some none ∧ (s.cxt.firstFreePool = uint32Max ∨ heap = none)

/-- the block comes from a pool that is in use, or from a new one -/
def FromUsedPool (s : Sys) (objSize : ℕ) : Prop :=
  ∀ i ind, findPool s.cxt objSize 1 = some (some (i, ind)) → (s.cxt.memPools i).nAllocBlocks ≠ 0

/-- nothing has to be undone, or it is a vector that does not take the only block of a pool that was there -/
def Undoable (c : Container) (s : Allocators) (heap : Option HeapBlock) (array : Option ℕ) : Prop :=
  array.isSome ∨ PoolRefuses s.pool c.objSize heap ∨ (∃ initialCap, c = .vector initialCap) ∧ FromUsedPool s.pool c.objSize

/-! ## Giving back the block that was just taken -/

section GiveBack

variable {t : Sys} {i ind : ℕ}

/-- the address is not `NULL`, and the pool goes with the block exactly if it has no other one -/
theorem poolFree_place (h : Inv (t.place i ind 1)) (hi : i < maxPools) (hocc : Occupied t.cxt i) :
    blockAddr (t.cxt.memPools i) ind ≠ 0 ∧ (Alloc.poolFree (t.place i ind 1).cxt (blockAddr (t.cxt.memPools i) ind)).2 =
      if liveAt t (t.cxt.memPools i).blockPtr = [] then some (t.cxt.memPools i).blockPtr else none := by
  set p := t.cxt.memPools i
  set a : Allocation := ⟨blockAddr p ind, p.blockSize, 1, p.blockPtr, ind⟩
  have ha : a ∈ (t.place i ind 1).live := List.mem_cons_self
  have hrest : (liveAt (t.place i ind 1) a.pool).erase a.extent = liveAt t p.blockPtr := by
    have hcons : liveAt (t.place i ind 1) a.pool = if a.pool = p.blockPtr then a.extent :: liveAt t a.pool else liveAt t a.pool :=
      liveAt_cons t _ _ a a.pool
    rw [hcons, if_pos rfl, List.erase_cons_head]
  have hnull : blockAddr p ind ≠ 0 := by
    obtain ⟨c, -, -, hlow, -⟩ := h.placed a ha
    have hlow : p.blockPtr + 16 ≤ blockAddr p ind := hlow
    omega
  refine ⟨hnull, ?_⟩
  rcases poolFree_live h ha with ⟨-, hlost⟩ | ⟨j, -, -, -, ⟨hne, hfree⟩ | ⟨hnil, hfree⟩⟩
  · exact absurd (place_blockPtr t i ind 1 i) (hlost i hi ((occupied_place t i ind 1 i).2 hocc))
  · rw [hrest] at hne
    rw [if_neg hne]
    exact congrArg Prod.snd hfree
  · rw [hrest] at hnil
    rw [if_pos hnil]
    exact congrArg Prod.snd hfree

/-- the vector's way: the block is gone, and with it a pool that is empty then -/
theorem giveBack_pool (h : Inv (t.place i ind 1)) (hi : i < maxPools) (hocc : Occupied t.cxt i) (heap : List HeapSpan) :
    let r := poolFree ⟨t.place i ind 1, heap⟩ (blockAddr (t.cxt.memPools i) ind)
    r.1.pool.live = t.live ∧ r.1.heap = heap ∧ (∀ x ∈ r.2, x.2.Matches x.1) ∧
      r.1.pool.blocks = if liveAt t (t.cxt.memPools i).blockPtr = [] then
        t.blocks.filter fun c => (t.cxt.memPools i).blockPtr ≠ c.addr else t.blocks := by
  obtain ⟨hnull, hpool⟩ := poolFree_place h hi hocc
  obtain ⟨c, hc, hcaddr, -⟩ := h.placed _ List.mem_cons_self
  have hissued : (Release.toHeap (t.cxt.memPools i).blockPtr).Matches ⟨t.place i ind 1, heap⟩ :=
    ⟨c, List.mem_append_left _ hc, hcaddr⟩
  simp only [poolFree, if_neg hnull, hpool]
  refine ⟨?_, trivial, ?_, ?_⟩
  · simp [Sys.place]
  · intro x hx
    rcases List.mem_cons.1 hx with rfl | hx
    · exact ⟨_, List.mem_cons_self, rfl⟩
    · split_ifs at hx with hnil
      · simp only [Option.map_some, Option.toList_some, List.mem_singleton] at hx
        rw [hx]
        exact hissued
      · cases hx
  · split_ifs with hnil
    · simp [Sys.place]
    · simp [Sys.place]

end GiveBack

/-! ## The outcomes of a constructor -/

section Outcomes

variable (giveBack : Allocators → ℕ → Allocators × Releases) {objSize : ℕ} (arraySize : ℕ) {s : Allocators}
  {heap : Option HeapBlock}

/-- the pool allocator has no block, or the constructor goes on with the first free block of a pool -/
theorem createWith_cases (h : Inv s.pool) (hl : Legal s.pool (.alloc objSize 1 heap))
    (hf : Fits s.pool (.alloc objSize 1 heap)) (array : Option ℕ) :
    (PoolRefuses s.pool objSize heap ∧
      createWith giveBack objSize arraySize s heap array = some ⟨.memoryAllocation, 0, s, []⟩) ∨
    ∃ t i, Inv (t.place i (t.cxt.memPools i).fFreeInd 1) ∧ i < maxPools ∧ Occupied t.cxt i ∧
      ¬ PoolRefuses s.pool objSize heap ∧
      createWith giveBack objSize arraySize s heap array =
        (let s' : Allocators := ⟨t.place i (t.cxt.memPools i).fFreeInd 1, s.heap⟩
        let memPtr := blockAddr (t.cxt.memPools i) (t.cxt.memPools i).fFreeInd
        match array with
        | some addr => some ⟨.ok, memPtr, { s' with heap := ⟨addr, arraySize⟩ :: s'.heap }, []⟩
        | none => some ⟨.memoryAllocation, 0, (giveBack s' memPtr).1, (giveBack s' memPtr).2⟩) ∧
      (t = s.pool ∧ findPool s.pool.cxt objSize 1 = some (some (i, (s.pool.cxt.memPools i).fFreeInd)) ∨
        ∃ b, heap = some b ∧ findPool s.pool.cxt objSize 1 = some none ∧ t = s.pool.withPool objSize b ∧
          i = s.pool.cxt.firstFreePool) := by
  unfold createWith
  rcases step_alloc_cases h hl hf with ⟨hnot, hr, hstep⟩ | ⟨t, i, r, hinv, hi, hocc, hr, hcode, hptr, hstep, hfrom⟩
  · left
    refine ⟨?_, by rw [hr, hstep]; rfl⟩
    rcases findPool_spec h objSize (le_refl 1) with ⟨i, hfind, -⟩ | hfind
    · unfold poolAlloc at hr
      rw [hfind] at hr
      cases hr
    · refine ⟨hfind, ?_⟩
      by_contra hboth
      obtain ⟨hslot, hheap⟩ := not_or.1 hboth
      exact hnot ⟨hfind, hslot, Option.isSome_iff_ne_none.2 hheap⟩
  · refine Or.inr ⟨t, i, hinv, hi, hocc, ?_, ?_, ?_⟩
    · rintro ⟨hfind, hwhy⟩
      rcases hfrom with ⟨-, hthere⟩ | ⟨b, hb, hcr, -⟩
      · rw [hfind] at hthere
        cases hthere
      · rcases hwhy with hslot | hnone
        · exact hcr.2.1 hslot
        · rw [hnone] at hb
          cases hb
    · rw [hr, hstep]
      simp only [Option.bind_eq_bind, Option.bind_some, hcode, ne_eq, not_true_eq_false, if_false, hptr]
      cases array with
      | some addr => rfl
      | none => rfl
    · rcases hfrom with hthere | ⟨b, hb, hcr, ht⟩
      · exact Or.inl hthere
      · exact Or.inr ⟨b, hb, hcr.1, ht⟩

end Outcomes

/-! ## When a constructor is all or nothing -/

section Right

variable {s : Allocators} {heap : Option HeapBlock} {array : Option ℕ}

/-- a container of either kind fits into a new pool -/
theorem fits_objSize (c : Container) : Fits s.pool (.alloc c.objSize 1 heap) := by
  intro _
  have hfits : 1 ≤ (newPoolMetrics defBlockCount hashtableBytes).2 ∧ 1 ≤ (newPoolMetrics defBlockCount vectorBytes).2 := by decide
  cases c with
  | hashtable initCap => exact hfits.1
  | vector initialCap => exact hfits.2

/-- without the array, a hash table leaves its block behind -/
theorem hashtable_not_right (h : Inv s.pool) {initCap : ℕ} (hl : Legal s.pool (.alloc hashtableBytes 1 heap))
    (hpool : ¬ PoolRefuses s.pool hashtableBytes heap) : ¬ CreateRight (.hashtable initCap) s heap none := by
  rintro ⟨r, hr, hright⟩
  have hf : Fits s.pool (.alloc hashtableBytes 1 heap) := fits_objSize (.hashtable initCap)
  rcases createWith_cases gpFree (24 * initCap) h hl hf none with
    ⟨hrefuses, -⟩ | ⟨t, i, -, -, -, -, hcreate, hfrom⟩
  · exact hpool hrefuses
  · have hcode := hr.symm.trans hcreate
    cases hcode
    have hlive := (hright (by simp)).2.1
    have htlive : t.live = s.pool.live := by
      rcases hfrom with ⟨rfl, -⟩ | ⟨b, -, -, rfl, -⟩
      · rfl
      · rfl
    have hlength := congrArg List.length hlive
    unfold gpFree at hlength
    split_ifs at hlength with hnull
    · simp [Sys.place, htlive] at hlength
    · simp [Sys.place, htlive] at hlength

/-- without the array, a vector leaves everything as it was unless it empties a pool that was there -/
theorem vector_right_iff (h : Inv s.pool) {initialCap : ℕ} (hl : Legal s.pool (.alloc vectorBytes 1 heap))
    (hpool : ¬ PoolRefuses s.pool vectorBytes heap) :
    CreateRight (.vector initialCap) s heap none ↔ FromUsedPool s.pool vectorBytes := by
  have hf : Fits s.pool (.alloc vectorBytes 1 heap) := fits_objSize (.vector initialCap)
  rcases createWith_cases poolFree (u64 (8 * initialCap)) h hl hf none with
    ⟨hrefuses, -⟩ | ⟨t, i, hinv, hi, hocc, -, hcreate, hfrom⟩
  · exact absurd hrefuses hpool
  obtain ⟨hlive, hheap, hmatch, hblocks⟩ := giveBack_pool hinv hi hocc s.heap
  have hright : CreateRight (.vector initialCap) s heap none ↔ t.live = s.pool.live ∧
      (if liveAt t (t.cxt.memPools i).blockPtr = [] then
        t.blocks.filter fun c => (t.cxt.memPools i).blockPtr ≠ c.addr else t.blocks) = s.pool.blocks := by
    unfold CreateRight Allocators.heapBlocks
    rw [← hlive, ← hblocks]
    constructor
    · rintro ⟨r, hr, hok⟩
      have hcode := hr.symm.trans hcreate
      cases hcode
      obtain ⟨-, hlive', hblocks', -⟩ := hok (by simp)
      rw [hheap] at hblocks'
      exact ⟨hlive', List.append_cancel_right hblocks'⟩
    · rintro ⟨hlive', hblocks'⟩
      exact ⟨_, hcreate, fun _ => ⟨rfl, hlive', by rw [hheap, hblocks'], hmatch⟩⟩
  rw [hright]
  rcases hfrom with ⟨rfl, hfind⟩ | ⟨b, rfl, hfind, rfl, rfl⟩
  · -- a pool that was there
    have hcount := (h.slot i hi hocc).books.count_eq_zero
    have hused : FromUsedPool s.pool vectorBytes ↔ (s.pool.cxt.memPools i).nAllocBlocks ≠ 0 := by
      constructor
      · intro hall
        exact hall i _ hfind
      · intro hne j ind hj
        rw [hfind] at hj
        cases hj
        exact hne
    rw [hused, ne_eq, hcount]
    by_cases hnil : liveAt s.pool (s.pool.cxt.memPools i).blockPtr = []
    · obtain ⟨c, hc, hcaddr, -⟩ := (h.slot i hi hocc).block
      rw [if_pos hnil]
      refine iff_of_false ?_ (not_not.2 hnil)
      rintro ⟨-, hsame⟩
      rw [← hsame] at hc
      exact of_decide_eq_true (List.mem_filter.1 hc).2 hcaddr.symm
    · rw [if_neg hnil]
      exact iff_of_true ⟨rfl, rfl⟩ hnil
  · -- a new pool: no other block is in it, and its heap block goes again
    obtain ⟨-, hnew⟩ := hl.2.2 b rfl
    have hptr : ((s.pool.withPool vectorBytes b).cxt.memPools s.pool.cxt.firstFreePool).blockPtr = b.addr := by
      rw [Sys.withPool, withNewPool_self]
      rfl
    have hnil : liveAt (s.pool.withPool vectorBytes b) b.addr = [] := (liveAt_fresh h hnew).2
    have hkept : (s.pool.withPool vectorBytes b).blocks.filter (fun c => b.addr ≠ c.addr) = s.pool.blocks := by
      rw [Sys.withPool, List.filter_cons_of_neg (by simp)]
      exact List.filter_eq_self.2 fun c hc => decide_eq_true (hnew c hc).addr_ne
    rw [hptr, if_pos hnil]
    refine iff_of_true ⟨rfl, hkept⟩ fun j ind hj => ?_
    rw [hfind] at hj
    cases hj

/-- with an array there is no error, and without a block of the pool nothing was done -/
theorem right_of_nothing_taken (h : Inv s.pool) (c : Container) (hl : Legal s.pool (.alloc c.objSize 1 heap))
    (hdone : array.isSome ∨ PoolRefuses s.pool c.objSize heap) : CreateRight c s heap array := by
  have hall : ∀ giveBack arraySize, ∃ r, createWith giveBack c.objSize arraySize s heap array = some r ∧
      (r.code ≠ .ok → r.outPtr = 0 ∧ r.state.pool.live = s.pool.live ∧ r.state.heapBlocks = s.heapBlocks ∧
        ∀ x ∈ r.released, x.2.Matches x.1) := by
    intro giveBack arraySize
    rcases createWith_cases giveBack arraySize h hl (fits_objSize c) array with
      ⟨-, hcreate⟩ | ⟨t, i, -, -, -, hnot, hcreate, -⟩
    · exact ⟨_, hcreate, fun _ => ⟨rfl, rfl, rfl, nofun⟩⟩
    · obtain ⟨addr, rfl⟩ := Option.isSome_iff_exists.1 (hdone.resolve_right hnot)
      exact ⟨_, hcreate, fun hne => absurd rfl hne⟩
  cases c with
  | hashtable initCap => exact hall gpFree (24 * initCap)
  | vector initialCap => exact hall poolFree (u64 (8 * initialCap))

theorem create_right_iff_of_inv (h : Inv s.pool) (c : Container) (hl : Legal s.pool (.alloc c.objSize 1 heap)) :
    CreateRight c s heap array ↔ Undoable c s heap array := by
  by_cases hdone : array.isSome ∨ PoolRefuses s.pool c.objSize heap
  · refine iff_of_true (right_of_nothing_taken h c hl hdone) ?_
    rcases hdone with hsome | hrefuses
    · exact Or.inl hsome
    · exact Or.inr (Or.inl hrefuses)
  · obtain ⟨harray, hpool⟩ := not_or.1 hdone
    obtain rfl : array = none := Option.not_isSome_iff_eq_none.1 harray
    have hrest : Undoable c s heap none ↔ (∃ initialCap, c = .vector initialCap) ∧ FromUsedPool s.pool c.objSize := by
      unfold Undoable
      rw [or_iff_right harray, or_iff_right hpool]
    rw [hrest]
    cases c with
    | hashtable initCap => exact iff_of_false (hashtable_not_right h hl hpool) nofun
    | vector initialCap =>
      have hvector : (∃ n, Container.vector initialCap = .vector n) := ⟨initialCap, rfl⟩
      rw [and_iff_right hvector]
      exact vector_right_iff h hl hpool

end Right

/-- In every state that is reached by legal calls of the pool allocator which fit, and whatever the heap answers, a
constructor is all or nothing exactly if nothing has to be undone, or if it is a vector and its block is not the only one of
a pool that was there. -/
theorem create_right_iff {ops : List Op} {s : Allocators}
    (hrun : Runs step (fun s o => Legal s o ∧ Fits s o) init ops s.pool) (c : Container) (heap : Option HeapBlock)
    (array : Option ℕ) (hl : Legal s.pool (.alloc c.objSize 1 heap)) :
    CreateRight c s heap array ↔ Undoable c s heap array :=
  create_right_iff_of_inv (run_inv hrun) c hl

/-- the first vector, without memory for its array -/
theorem create_right_first_vector : CreateRight (.vector 8) ⟨init, []⟩ (some (clearBlock 65536)) none ↔
    Undoable (.vector 8) ⟨init, []⟩ (some (clearBlock 65536)) none :=
  create_right_iff (.nil _) (.vector 8) (some (clearBlock 65536)) none
    (legal_init (by decide) (by decide) (by decide))

/-- the first hash table, without memory for its slots: its block of the pool goes to the heap and stays in use -/
theorem first_hashtable_broken : ¬ CreateRight (.hashtable 16) ⟨init, []⟩ (some (clearBlock 65536)) none := by
  refine hashtable_not_right inv_init (legal_init (by decide) (by decide) (by decide)) ?_
  rintro ⟨-, hslot | hnone⟩
  · exact absurd hslot (by decide)
  · cases hnone

end Noriko.Create
