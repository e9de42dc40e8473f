/-
The layer stack (`layer.c`): pushing, popping and the three passes over the layers.

The stack is a vector of layers without a destructor. The methods of the layers are callbacks that run while the mutex is
free. What a method does to the stack is a list of insertions and erasures (`StackAct`), the locked parts of the push and
pop calls it makes, also of those that other methods make on its behalf; `mem` is the memory behind the one-element array
that an insertion passes to the vector.

The state records the accesses to the vector, with the element count at that moment, and the calls of the layers' methods.
Both records are only written.
-/
import Noriko.Dstruct.Vector
import Noriko.Lib.Mutex

namespace Noriko.Layer

open Lib Dstruct Sync

/-- `NK_AS_NORMAL` -/
def asNormal : ℕ := sizeMax

/-- a change of the stack by a method -/
inductive StackAct (L : Type) where
  | insert (layerRef : L) (index : ℕ) (mem : ℕ → L) (heap : Option (Fresh L))
  | erase (index : ℕ)

/-- a method of a layer was called: the stack then, its code and the layers that were pushed until it returned -/
structure MethodCall (L : Type) where
  layer : L
  stack : Vector L
  code : NkErrorCode
  pushed : List L

/-- an access to the vector: the index and the number of elements -/
structure Access where
  index : ℕ
  count : ℕ
deriving DecidableEq, Repr

structure LayerSys (L : Type) where
  layerStack : Vector L
  accesses : List Access
  calls : List (MethodCall L)

/-- a method of the layers, which may behave differently each time: it gets the number of the round, the layer and the
stack -/
abbrev Method (L : Type) := ℕ → L → Vector L → NkErrorCode × List (StackAct L)

variable {L : Type}

/-! ## Changes of the stack -/

def StackAct.apply (v : Vector L) : StackAct L → Vector L
  | .insert layerRef index mem heap => (vectorInsert v layerRef index mem heap).2
  | .erase index => (vectorErase v index).vec

/-- the layer that is pushed, if any -/
def StackAct.pushed (v : Vector L) : StackAct L → List L
  | .insert layerRef index mem heap => if (vectorInsert v layerRef index mem heap).1 = .ok then [layerRef] else []
  | .erase _ => []

/-- the stack after the changes -/
def applyActs (v : Vector L) (acts : List (StackAct L)) : Vector L := acts.foldl StackAct.apply v

/-- the layers that are pushed by the changes -/
def pushedBy : Vector L → List (StackAct L) → List L
  | _, [] => []
  | v, a :: acts => a.pushed v ++ pushedBy (a.apply v) acts

/-- `NkVectorAt` on the stack -/
def layerAt (index : ℕ) : Sync (LayerSys L) L := do
  let s ← get
  set { s with accesses := s.accesses ++ [⟨index, s.layerStack.elemCount⟩] }
  return s.layerStack.dataPtr.mem index

/-- the effect of a method call in round `i` -/
def invoke (method : Method L) (i : ℕ) (layer : L) (s : LayerSys L) : NkErrorCode × LayerSys L :=
  let r := method i layer s.layerStack
  (r.1, { s with
    layerStack := applyActs s.layerStack r.2
    calls := s.calls ++ [⟨layer, s.layerStack, r.1, pushedBy s.layerStack r.2⟩] })

/-! ## Push and pop -/

/-- `beforeRef` of `NkLayerstackPush` -/
def beforeRef (whereInd : ℕ) (v : Vector L) : Sync (LayerSys L) (Option L) :=
  if v.elemCount = 0 ∨ whereInd = 0 then return none
  else do
    let l ← layerAt (whereInd - 1)
    return some l

/-- `afterRef` of `NkLayerstackPush` -/
def afterRef (whereInd : ℕ) (v : Vector L) : Sync (LayerSys L) (Option L) :=
  if v.elemCount = 0 ∨ v.elemCount ≤ u64 (whereInd + 1) then return none
  else do
    let l ← layerAt (u64 (whereInd + 1))
    return some l

/-- `NkLayerstackPush`; `onPush` gets the neighbours -/
def layerstackPush (layerRef : L) (whereInd : ℕ) (onPush : Option L → Option L → Method L) (mem : ℕ → L)
    (heap : Option (Fresh L)) : Sync (LayerSys L) NkErrorCode := do
  lock
  let s ← get
  let before ← beforeRef whereInd s.layerStack
  let after ← afterRef whereInd s.layerStack
  unlock
  let errCode ← callback (invoke (onPush before after) 0 layerRef)
  if errCode ≠ .ok then return errCode
  else do
    lock
    let s ← get
    let v := s.layerStack
    let r := vectorInsert v layerRef (if whereInd ≠ asNormal then whereInd else v.elemCount) mem heap
    set { s with layerStack := r.2 }
    unlock
    return r.1

/-- `NkLayerstackPop`; the layer is what `NkVectorErase` copies out -/
def layerstackPop (whereInd : ℕ) : Sync (LayerSys L) (Option L) := do
  lock
  let s ← get
  let r := vectorErase s.layerStack whereInd
  set { s with layerStack := r.vec }
  unlock
  return r.copied.head?

/-! ## Passes over the layers -/

/-- the loop of `NkLayerstackOnEvent` from index `i` on -/
def eventLoop (onEvent : Method L) : ℕ → ℕ → Sync (LayerSys L) NkErrorCode
  | 0, _ => do
    unlock
    return .noOperation
  | rounds + 1, i => do
    let currLayer ← layerAt i
    unlock
    let code ← callback (invoke onEvent i currLayer)
    lock
    if code = .ok then do
      unlock
      return .ok
    else eventLoop onEvent rounds (i + 1)

/-- `NkLayerstackOnEvent` -/
def layerstackOnEvent (onEvent : Method L) : Sync (LayerSys L) NkErrorCode := do
  lock
  let s ← get
  eventLoop onEvent s.layerStack.elemCount 0

/-- the loop of `NkLayerstackOnUpdate` from index `i` on -/
def updateLoop (onUpdate : Method L) : ℕ → ℕ → Sync (LayerSys L) NkErrorCode
  | 0, _ => do
    unlock
    return .ok
  | rounds + 1, i => do
    let currLayer ← layerAt i
    unlock
    let _ ← callback (invoke onUpdate i currLayer)
    lock
    updateLoop onUpdate rounds (i + 1)

/-- `NkLayerstackOnUpdate` -/
def layerstackOnUpdate (onUpdate : Method L) : Sync (LayerSys L) NkErrorCode := do
  lock
  let s ← get
  updateLoop onUpdate s.layerStack.elemCount 0

/-- the loop of `NkLayerstackOnRender` from index `i - 1` down -/
def renderLoop (onRender : Method L) : ℕ → Sync (LayerSys L) NkErrorCode
  | 0 => do
    unlock
    return .ok
  | i + 1 => do
    let currLayer ← layerAt i
    unlock
    let _ ← callback (invoke onRender i currLayer)
    lock
    renderLoop onRender i

/-- `NkLayerstackOnRender` -/
def layerstackOnRender (onRender : Method L) : Sync (LayerSys L) NkErrorCode := do
  lock
  let s ← get
  if s.layerStack.elemCount = 0 then do
    unlock
    return .noOperation
  else renderLoop onRender s.layerStack.elemCount

section Query

variable [DecidableEq L]

/-- the loop of `NkLayerstackQueryIndex` from index `i` on -/
def queryLoop (layerRef : L) : ℕ → ℕ → Sync (LayerSys L) ℕ
  | 0, _ => do
    unlock
    return sizeMax
  | rounds + 1, i => do
    let l ← layerAt i
    if l = layerRef then do
      unlock
      return i
    else queryLoop layerRef rounds (i + 1)

/-- `NkLayerstackQueryIndex` -/
def layerstackQueryIndex (layerRef : L) : Sync (LayerSys L) ℕ := do
  lock
  let s ← get
  queryLoop layerRef s.layerStack.elemCount 0

end Query

/-! ## The mutex -/

theorem goes_layerAt (b : Bool) (index : ℕ) : Goes b (layerAt index : Sync (LayerSys L) L) b :=
  .bind .get fun _ => .bind (.set _) fun _ => .pure _

theorem goes_push (layerRef : L) (whereInd : ℕ) (onPush : Option L → Option L → Method L) (mem : ℕ → L)
    (heap : Option (Fresh L)) : Goes false (layerstackPush layerRef whereInd onPush mem heap) false := by
  have hbefore (v : Vector L) : Goes true (beforeRef whereInd v) true :=
    .ite (fun _ => .pure _) fun _ => .bind (goes_layerAt _ _) fun _ => .pure _
  have hafter (v : Vector L) : Goes true (afterRef whereInd v) true :=
    .ite (fun _ => .pure _) fun _ => .bind (goes_layerAt _ _) fun _ => .pure _
  refine .bind .lock fun _ => .bind .get fun s => .bind (hbefore _) fun _ => .bind (hafter _) fun _ => ?_
  refine .bind .unlock fun _ => .bind (.callback _) fun code => .ite (fun _ => .pure code) fun _ => ?_
  exact .bind .lock fun _ => .bind .get fun _ => .bind (.set _) fun _ => .bind .unlock fun _ => .pure _

theorem goes_pop (whereInd : ℕ) : Goes false (layerstackPop whereInd : Sync (LayerSys L) (Option L)) false :=
  .bind .lock fun _ => .bind .get fun _ => .bind (.set _) fun _ => .bind .unlock fun _ => .pure _

theorem goes_eventLoop (onEvent : Method L) (rounds i : ℕ) : Goes true (eventLoop onEvent rounds i) false := by
  induction rounds generalizing i with
  | zero => exact .bind .unlock fun _ => .pure _
  | succ rounds ih =>
    refine .bind (goes_layerAt _ _) fun _ => .bind .unlock fun _ => .bind (.callback _) fun code => .bind .lock fun _ => ?_
    exact .ite (fun _ => .bind .unlock fun _ => .pure _) fun _ => ih (i + 1)

theorem goes_onEvent (onEvent : Method L) : Goes false (layerstackOnEvent onEvent) false :=
  .bind .lock fun _ => .bind .get fun _ => goes_eventLoop onEvent _ 0

theorem goes_onUpdate (onUpdate : Method L) : Goes false (layerstackOnUpdate onUpdate) false := by
  have hloop (rounds i : ℕ) : Goes true (updateLoop onUpdate rounds i) false := by
    induction rounds generalizing i with
    | zero => exact .bind .unlock fun _ => .pure _
    | succ rounds ih =>
      exact .bind (goes_layerAt _ _) fun _ => .bind .unlock fun _ => .bind (.callback _) fun _ => .bind .lock fun _ =>
        ih (i + 1)
  exact .bind .lock fun _ => .bind .get fun _ => hloop _ 0

theorem goes_onRender (onRender : Method L) : Goes false (layerstackOnRender onRender) false := by
  have hloop (i : ℕ) : Goes true (renderLoop onRender i) false := by
    induction i with
    | zero => exact .bind .unlock fun _ => .pure _
    | succ i ih =>
      exact .bind (goes_layerAt _ _) fun _ => .bind .unlock fun _ => .bind (.callback _) fun _ => .bind .lock fun _ => ih
  exact .bind .lock fun _ => .bind .get fun _ => .ite (fun _ => .bind .unlock fun _ => .pure _) fun _ => hloop _

theorem goes_queryIndex [DecidableEq L] (layerRef : L) : Goes false (layerstackQueryIndex layerRef) false := by
  have hloop (rounds i : ℕ) : Goes true (queryLoop layerRef rounds i) false := by
    induction rounds generalizing i with
    | zero => exact .bind .unlock fun _ => .pure _
    | succ rounds ih =>
      exact .bind (goes_layerAt _ _) fun _ => .ite (fun _ => .bind .unlock fun _ => .pure _) fun _ => ih (i + 1)
  exact .bind .lock fun _ => .bind .get fun _ => hloop _ 0

end Noriko.Layer
