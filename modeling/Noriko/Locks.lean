/-
The mutexes of the pool allocator (`alloc.c`), the log component and the layer stack.

The calls of the pool allocator are given here with their mutex; what they compute is that of `Noriko.Alloc` (for
`NkPoolAlloc` see `poolAllocLocked_run`). Messages that the allocator logs under its mutex lock another one and are left
out.

`NK_SYNCHRONIZED` unlocks behind its body, so a `return` inside the body skips the unlock: this is how the two pool queries
leave with the mutex held if the address lies in no pool, as `NkLogUninstallDevice` does for a device that is not
installed. `locks_balanced` says that these are the only calls that do, and that no call waits on a mutex that the calls
before it have left free.
-/
import Noriko.Alloc.Steps
import Noriko.Layer.Layer
import Noriko.Log.Log

namespace Noriko

open Lib Sync

/-! ## The pool allocator -/

namespace Alloc

/-- `NkPoolAlloc`: code and address -/
def poolAllocLocked (blockSize blockCount : ℕ) (heap : Option HeapBlock) : Sync PoolAllocContext (NkErrorCode × ℕ) := do
  lock
  let s ← get
  match findPool s blockSize blockCount with
  | none => forever
  | some (some (i, blockIndex)) => do
    let r := allocAt s none i blockIndex blockCount
    set r.cxt
    unlock
    return (.ok, r.memPtr)
  | some none => do
    let r := requestNewPool s defBlockCount blockSize heap
    set r.cxt
    match r.poolPtr with
    | none => do
      unlock
      return (r.code, 0)
    | some i => do
      let r := allocAt r.cxt r.taken i 0 blockCount
      set r.cxt
      unlock
      return (.ok, r.memPtr)

/-- `NkPoolReserve` -/
def poolReserveLocked (blockSize blockCount : ℕ) (heap : Option HeapBlock) : Sync PoolAllocContext NkErrorCode := do
  lock
  let s ← get
  let r := poolReserve s blockSize blockCount heap
  set r.cxt
  unlock
  return r.code

/-- `NkPoolFree` -/
def poolFreeLocked (memPtr : ℕ) : Sync PoolAllocContext Unit :=
  if memPtr = 0 then return ()
  else do
    lock
    let s ← get
    match locateBlock s memPtr with
    | none => unlock
    | some _ => do
      set (poolFree s memPtr).1
      unlock

/-- `NkPoolGetBlockSize`; the `return` for an address in no pool is inside `NK_SYNCHRONIZED` -/
def poolGetBlockSize (memPtr : ℕ) : Sync PoolAllocContext ℕ := do
  lock
  let s ← get
  match locateBlock s memPtr with
  | none => return 0
  | some poolInd => do
    unlock
    return (s.memPools poolInd).blockSize

/-- `NkPoolGetAllocSize`, likewise -/
def poolGetAllocSize (memPtr : ℕ) : Sync PoolAllocContext ℕ := do
  lock
  let s ← get
  match locateBlock s memPtr with
  | none => return 0
  | some poolInd => do
    let poolHead := s.memPools poolInd
    let blHead := poolHead.heads (headerForBlock poolHead memPtr)
    let res := u32 (poolHead.blockSize * if blHead.blockFlags &&& tySingle ≠ 0 then 1 else blHead.nMultiBlock)
    unlock
    return res

/-- the call computes what `poolAlloc` says and leaves the mutex free -/
theorem poolAllocLocked_run {g : Guarded PoolAllocContext} (hg : g.held = false) (blockSize blockCount : ℕ)
    (heap : Option HeapBlock) : poolAllocLocked blockSize blockCount heap g =
      match poolAlloc g.data blockSize blockCount heap with
      | none => .loops
      | some r => .returns (r.code, r.memPtr) ⟨false, g.misuses, r.cxt⟩ := by
  unfold poolAllocLocked poolAlloc
  rw [lock_get_run hg]
  cases findPool g.data blockSize blockCount with
  | none => rfl
  | some r =>
    cases r with
    | some x => rfl
    | none =>
      dsimp only
      rw [bind_run (m := set _) rfl]
      cases (requestNewPool g.data defBlockCount blockSize heap).poolPtr with
      | none => rfl
      | some i => rfl

theorem goes_reserve (blockSize blockCount : ℕ) (heap : Option HeapBlock) :
    Goes false (poolReserveLocked blockSize blockCount heap) false :=
  .bind .lock fun _ => .bind .get fun _ => .bind (.set _) fun _ => .bind .unlock fun _ => .pure _

theorem goes_free (memPtr : ℕ) : Goes false (poolFreeLocked memPtr) false := by
  refine .ite (fun _ => .pure ()) fun _ => .bind .lock fun _ => .bind .get fun s => ?_
  cases locateBlock s memPtr with
  | none => exact .unlock
  | some _ => exact .bind (.set _) fun _ => .unlock

section Query

variable {g : Guarded PoolAllocContext} {memPtr : ℕ}

/-- an address in no pool: both queries return with the mutex held -/
theorem query_outside (hg : g.held = false) (h : locateBlock g.data memPtr = none) :
    poolGetBlockSize memPtr g = .returns 0 ⟨true, g.misuses, g.data⟩ ∧
      poolGetAllocSize memPtr g = .returns 0 ⟨true, g.misuses, g.data⟩ := by
  unfold poolGetBlockSize poolGetAllocSize
  rw [lock_get_run hg, lock_get_run hg, h]
  exact ⟨rfl, rfl⟩

theorem query_inside (hg : g.held = false) {i : ℕ} (h : locateBlock g.data memPtr = some i) :
    Ends g (poolGetBlockSize memPtr) false ∧ Ends g (poolGetAllocSize memPtr) false := by
  unfold Ends poolGetBlockSize poolGetAllocSize
  rw [lock_get_run hg, lock_get_run hg, h]
  exact ⟨⟨_, _, rfl⟩, ⟨_, _, rfl⟩⟩

end Query

/-- the public calls of the pool allocator -/
inductive PoolCall where
  | alloc (blockSize blockCount : ℕ) (heap : Option HeapBlock)
  | reserve (blockSize blockCount : ℕ) (heap : Option HeapBlock)
  | free (memPtr : ℕ)
  | getBlockSize (memPtr : ℕ)
  | getAllocSize (memPtr : ℕ)

def poolCall : PoolCall → Sync PoolAllocContext Unit
  | .alloc blockSize blockCount heap => (poolAllocLocked blockSize blockCount heap).ignore
  | .reserve blockSize blockCount heap => (poolReserveLocked blockSize blockCount heap).ignore
  | .free memPtr => poolFreeLocked memPtr
  | .getBlockSize memPtr => (poolGetBlockSize memPtr).ignore
  | .getAllocSize memPtr => (poolGetAllocSize memPtr).ignore

/-- a queried address lies in a pool -/
def PoolCall.Located (s : PoolAllocContext) : PoolCall → Prop
  | .getBlockSize memPtr => locateBlock s memPtr ≠ none
  | .getAllocSize memPtr => locateBlock s memPtr ≠ none
  | _ => True

section Pool

variable {g : Guarded PoolAllocContext}

/-- what a call does to a free mutex: nothing, or it leaves it held -/
theorem poolCall_cases (hg : g.held = false) (c : PoolCall) :
    (c.Located g.data ∧ (Ends g (poolCall c) false ∨
      ∃ blockSize blockCount heap, c = .alloc blockSize blockCount heap ∧
        poolAlloc g.data blockSize blockCount heap = none ∧ poolCall c g = .loops)) ∨
    (¬ c.Located g.data ∧ Ends g (poolCall c) true) := by
  cases c with
  | alloc blockSize blockCount heap =>
    refine Or.inl ⟨trivial, ?_⟩
    have hrun := poolAllocLocked_run hg blockSize blockCount heap
    cases hr : poolAlloc g.data blockSize blockCount heap with
    | none =>
      rw [hr] at hrun
      exact Or.inr ⟨_, _, _, rfl, hr, bind_loops _ hrun⟩
    | some r =>
      rw [hr] at hrun
      exact Or.inl (Ends.ignore ⟨_, _, hrun⟩)
  | reserve blockSize blockCount heap =>
    exact Or.inl ⟨trivial, Or.inl (goes_reserve blockSize blockCount heap g hg).ignore⟩
  | free memPtr => exact Or.inl ⟨trivial, Or.inl (goes_free memPtr g hg)⟩
  | getBlockSize memPtr =>
    cases h : locateBlock g.data memPtr with
    | none => exact Or.inr ⟨fun hl => hl h, Ends.ignore ⟨_, _, (query_outside hg h).1⟩⟩
    | some i => exact Or.inl ⟨fun hl => (by rw [h] at hl; cases hl), Or.inl (query_inside hg h).1.ignore⟩
  | getAllocSize memPtr =>
    cases h : locateBlock g.data memPtr with
    | none => exact Or.inr ⟨fun hl => hl h, Ends.ignore ⟨_, _, (query_outside hg h).2⟩⟩
    | some i => exact Or.inl ⟨fun hl => (by rw [h] at hl; cases hl), Or.inl (query_inside hg h).2.ignore⟩

theorem poolCall_not_waits (c : PoolCall) (g : Guarded PoolAllocContext) (hg : g.held = false) :
    poolCall c g ≠ .waits := by
  rcases poolCall_cases hg c with ⟨-, hend | ⟨_, _, _, -, -, hloop⟩⟩ | ⟨-, hend⟩
  · exact hend.not_waits
  · rw [hloop]
    exact nofun
  · exact hend.not_waits

theorem poolCall_balanced (hg : g.held = false) (c : PoolCall) : Balanced poolCall c g ↔ c.Located g.data := by
  rw [balanced_iff poolCall_not_waits]
  rcases poolCall_cases hg c with ⟨hl, hend | ⟨_, _, _, -, -, hloop⟩⟩ | ⟨hl, hend⟩
  · exact iff_of_true hend.lockSafe hl
  · exact iff_of_true (lockSafe_loops hloop) hl
  · exact iff_of_false hend.not_lockSafe hl

end Pool

end Alloc

/-! ## The log component -/

namespace Log

variable {D : Type}

/-- the public calls of the log component, with what the methods of the devices do -/
inductive LogCall (D : Type) where
  | install (devRef : D) (onInstall : LogContext D → NkErrorCode × LogContext D)
  | uninstall (devRef : D) (onUninstall : LogContext D → NkErrorCode × LogContext D)
  | message (lvlId : ℕ) (onMessage : D → ℕ → LogContext D → Unit × LogContext D)

/-- a device that is to be uninstalled is installed -/
def LogCall.Installed (c : LogContext D) : LogCall D → Prop
  | .uninstall devRef _ => ∃ i < logNDev, c.devArray i = some devRef
  | _ => True

variable [DecidableEq D] {g : Guarded (LogContext D)}

def logCall : LogCall D → Sync (LogContext D) Unit
  | .install devRef onInstall => (logInstallDevice devRef onInstall).ignore
  | .uninstall devRef onUninstall => (logUninstallDevice devRef onUninstall).ignore
  | .message lvlId onMessage => logMessage lvlId onMessage

theorem findDevice_eq_none {c : LogContext D} {devRef : D} :
    findDevice c devRef = none ↔ ¬ ∃ i < logNDev, c.devArray i = some devRef := by
  unfold findDevice
  rw [List.find?_eq_none]
  simp only [List.mem_range, decide_eq_true_eq, not_exists, not_and]

theorem logCall_cases (hg : g.held = false) (c : LogCall D) :
    (c.Installed g.data ∧ Ends g (logCall c) false) ∨ (¬ c.Installed g.data ∧ Ends g (logCall c) true) := by
  cases c with
  | install devRef onInstall => exact Or.inl ⟨trivial, (goes_install devRef onInstall g hg).ignore⟩
  | message lvlId onMessage => exact Or.inl ⟨trivial, goes_message lvlId onMessage g hg⟩
  | uninstall devRef onUninstall =>
    cases h : findDevice g.data devRef with
    | none => exact Or.inr ⟨findDevice_eq_none.1 h, Ends.ignore ⟨_, _, uninstall_absent onUninstall hg h⟩⟩
    | some i =>
      refine Or.inl ⟨?_, (uninstall_found onUninstall hg h).ignore⟩
      by_contra hnot
      rw [findDevice_eq_none.2 hnot] at h
      cases h

theorem logCall_returns (c : LogCall D) (g : Guarded (LogContext D)) (hg : g.held = false) :
    ∃ b, Ends g (logCall c) b := by
  rcases logCall_cases hg c with ⟨-, hend⟩ | ⟨-, hend⟩
  · exact ⟨_, hend⟩
  · exact ⟨_, hend⟩

theorem logCall_balanced (hg : g.held = false) (c : LogCall D) : Balanced logCall c g ↔ c.Installed g.data := by
  rw [balanced_iff fun c g hg => (logCall_returns c g hg).choose_spec.not_waits]
  rcases logCall_cases hg c with ⟨hi, hend⟩ | ⟨hi, hend⟩
  · exact iff_of_true hend.lockSafe hi
  · exact iff_of_false hend.not_lockSafe hi

end Log

/-! ## The layer stack -/

namespace Layer

variable {L : Type}

/-- the public calls of the layer stack, with what the methods of the layers do -/
inductive LayerCall (L : Type) where
  | push (layerRef : L) (whereInd : ℕ) (onPush : Option L → Option L → Method L) (mem : ℕ → L)
      (heap : Option (Fresh L))
  | pop (whereInd : ℕ)
  | onEvent (onEvent : Method L)
  | onUpdate (onUpdate : Method L)
  | onRender (onRender : Method L)
  | queryIndex (layerRef : L)

def layerCall [DecidableEq L] : LayerCall L → Sync (LayerSys L) Unit
  | .push layerRef whereInd onPush mem heap => (layerstackPush layerRef whereInd onPush mem heap).ignore
  | .pop whereInd => (layerstackPop whereInd).ignore
  | .onEvent onEvent => (layerstackOnEvent onEvent).ignore
  | .onUpdate onUpdate => (layerstackOnUpdate onUpdate).ignore
  | .onRender onRender => (layerstackOnRender onRender).ignore
  | .queryIndex layerRef => (layerstackQueryIndex layerRef).ignore

theorem goes_layerCall [DecidableEq L] (c : LayerCall L) : Goes false (layerCall c) false := by
  intro g hg
  cases c with
  | push layerRef whereInd onPush mem heap => exact (goes_push layerRef whereInd onPush mem heap g hg).ignore
  | pop whereInd => exact (goes_pop whereInd g hg).ignore
  | onEvent onEvent => exact (goes_onEvent onEvent g hg).ignore
  | onUpdate onUpdate => exact (goes_onUpdate onUpdate g hg).ignore
  | onRender onRender => exact (goes_onRender onRender g hg).ignore
  | queryIndex layerRef => exact (goes_queryIndex layerRef g hg).ignore

end Layer

/-! ## All three -/

open Alloc Log Layer

/-- an allocation in a state that the allocator reaches returns -/
theorem poolCall_alloc_returns {s : Sys} (h : Inv s) (n blockSize : ℕ) {blockCount : ℕ} (hn : 1 ≤ blockCount)
    (heap : Option HeapBlock) : Ends ⟨false, n, s.cxt⟩ (poolCall (.alloc blockSize blockCount heap)) false := by
  rcases poolCall_cases (g := ⟨false, n, s.cxt⟩) rfl (.alloc blockSize blockCount heap) with
    ⟨-, hend | ⟨bs, k, heap', hc, hnone, -⟩⟩ | ⟨hl, -⟩
  · exact hend
  · cases hc
    rcases poolAlloc_cases h blockSize hn heap with ⟨_, _, _, _, _, _, _, hr⟩ | ⟨_, hr⟩ | ⟨_, _, _, hr⟩
    · rw [hnone] at hr
      cases hr
    · rw [hnone] at hr
      cases hr
    · rw [hnone] at hr
      cases hr
  · exact absurd trivial hl

/-- The mutexes are left in order exactly by the calls that name an address in a pool or an installed device; the calls
of the layer stack always do so. A call of the log component or the layer stack returns in any case, an allocation in
every state that the allocator reaches. -/
theorem locks_balanced (D L : Type) [DecidableEq D] [DecidableEq L] (n : ℕ) :
    (∀ (c : PoolCall) (s : PoolAllocContext), Balanced poolCall c ⟨false, n, s⟩ ↔ c.Located s) ∧
    (∀ (c : LogCall D) (s : LogContext D),
      (Balanced logCall c ⟨false, n, s⟩ ↔ c.Installed s) ∧ logCall c ⟨false, n, s⟩ ≠ .loops) ∧
    (∀ (c : LayerCall L) (s : LayerSys L),
      Balanced layerCall c ⟨false, n, s⟩ ∧ layerCall c ⟨false, n, s⟩ ≠ .loops) ∧
    (∀ (ops : List Op) (s : Sys) (blockSize blockCount : ℕ) (heap : Option HeapBlock),
      Runs step (fun s o => Legal s o ∧ Fits s o) init ops s → blockCount ≠ 0 →
      poolCall (.alloc blockSize blockCount heap) ⟨false, n, s.cxt⟩ ≠ .loops) := by
  refine ⟨fun c s => poolCall_balanced rfl c, fun c s => ⟨logCall_balanced rfl c, ?_⟩, fun c s => ⟨?_, ?_⟩,
    fun ops s bs k heap hrun hk => ?_⟩
  · obtain ⟨b, hend⟩ := logCall_returns c ⟨false, n, s⟩ rfl
    exact hend.not_loops
  · rw [balanced_iff fun c g hg => (goes_layerCall c g hg).not_waits]
    exact (goes_layerCall c _ rfl).lockSafe
  · exact (goes_layerCall c _ rfl).not_loops
  · exact (poolCall_alloc_returns (run_inv hrun) n bs (Nat.pos_of_ne_zero hk) heap).not_loops

/-- the first allocation, and uninstalling the only device -/
theorem locks_balanced_first :
    (Balanced poolCall (.alloc 8 1 none) ⟨false, 0, init.cxt⟩ ∧ poolCall (.alloc 8 1 none) ⟨false, 0, init.cxt⟩ ≠ .loops) ∧
    Balanced logCall (.uninstall 7 fun c => (.ok, c))
      ⟨false, 0, (⟨1, 0, 0, fun i => if i = 3 then some 7 else none⟩ : LogContext ℕ)⟩ := by
  obtain ⟨hpool, hlog, -, halloc⟩ := locks_balanced ℕ ℕ 0
  refine ⟨⟨(hpool _ _).2 trivial, halloc [] init 8 1 none (.nil init) (by decide)⟩, (hlog _ _).1.2 ⟨3, by decide, rfl⟩⟩

/-- a device is uninstalled from an empty table, and an address is queried before there is a pool: both calls return with
the mutex held, and the next call waits -/
theorem locks_broken :
    ¬ Balanced logCall (.uninstall 0 fun c => (.ok, c)) ⟨false, 0, (⟨0, 0, 0, fun _ => none⟩ : LogContext ℕ)⟩ ∧
    (∃ g, logCall (.uninstall 0 fun c => (.ok, c)) ⟨false, 0, (⟨0, 0, 0, fun _ => none⟩ : LogContext ℕ)⟩ =
      .returns () g ∧ logCall (.message 0 fun _ _ c => ((), c)) g = .waits) ∧
    ¬ Balanced poolCall (.getBlockSize 8) ⟨false, 0, zeroContext⟩ ∧
    (∃ g, poolCall (.getBlockSize 8) ⟨false, 0, zeroContext⟩ = .returns () g ∧
      poolCall (.alloc 8 1 none) g = .waits) := by
  have hlog : ¬ ∃ i < logNDev, (fun _ : ℕ => (none : Option ℕ)) i = some 0 := by
    rintro ⟨i, -, h⟩
    cases h
  have hpool : locateBlock zeroContext 8 = none := by rfl
  refine ⟨fun h => hlog ((logCall_balanced rfl _).1 h), ⟨_, bind_run (uninstall_absent _ rfl (findDevice_eq_none.2 hlog)), rfl⟩,
    fun h => (poolCall_balanced rfl _).1 h hpool, ⟨_, bind_run (query_outside rfl hpool).1, rfl⟩⟩

end Noriko
