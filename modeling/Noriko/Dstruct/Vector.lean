/-
The vector of element pointers (`dstruct/vector.c`): creation, insertion, erasure, clearing and destruction.

`dataPtr` is the real buffer, with the size it was last allocated with; `elemCap` is the capacity the vector believes to
have. The destructor is known by its presence only: an operation returns the elements it was called on, in order.
Indices and sizes are `NkSize`; `u64` stands wherever the source computes one that may wrap.

`NkVectorInsertMulti` means to shift the tail of the buffer but copies from `elemArray`, past its end if the tail is
longer, so `elemArray` is the memory found at that address and not a list.
-/
import Noriko.Heap
import Noriko.Lib.Bytes
import Noriko.Lib.Loop
import Mathlib.Data.Rat.Floor

namespace Noriko.Dstruct

open Lib

/-! ## Data -/

/-- `sizeof(NkVoid *)` -/
def ptrBytes : ℕ := 8

def sizeMax : ℕ := 2 ^ 64 - 1

structure VectorProperties where
  structSize : ℕ
  initialCap : ℕ
  minCap : ℕ
  maxCap : ℕ
  growFactor : ℚ
deriving DecidableEq, Repr

structure Vector (E : Type) where
  elemCount : ℕ
  elemCap : ℕ
  vecProps : VectorProperties
  /-- whether the vector has an element destructor -/
  fnDest : Bool
  dataPtr : Buffer E

variable {E : Type}

def validateProperties (p : VectorProperties) : Prop :=
  p.structSize > 0 ∧ (p.initialCap ≥ p.minCap ∧ p.initialCap ≤ p.maxCap) ∧ (p.minCap > 0 ∧ p.minCap ≤ p.maxCap) ∧
    p.maxCap < sizeMax - 1 ∧ p.growFactor > 1

instance (p : VectorProperties) : Decidable (validateProperties p) := inferInstanceAs (Decidable (_ ∧ _))

/-! ## Buffers -/

/-- calls the destructor on elements `sInd` to `eInd`, both included -/
def tryFreeRange (v : Vector E) (sInd eInd : ℕ) : NkErrorCode × List E :=
  if v.fnDest then (.ok, (upto sInd (eInd + 1)).map v.dataPtr.mem) else (.noOperation, [])

def resizeBuffer (v : Vector E) (newCap : ℕ) (heap : Option (Fresh E)) : NkErrorCode × Vector E :=
  let r := gpRealloc ptrBytes v.dataPtr (u64 (newCap * ptrBytes)) heap
  (r.1, { v with dataPtr := r.2 })

/-- `memmove` and `memcpy` of `n` elements from `src` to index `index` -/
def Vector.write (v : Vector E) (index : ℕ) (src : ℕ → E) (n : ℕ) : Vector E :=
  { v with dataPtr := { v.dataPtr with mem := blit v.dataPtr.mem index src n } }

/-! ## The calls -/

/-- `NkVectorCreate`; `poolCode` is what `NkPoolAlloc` answers for the structure itself -/
def vectorCreate (vecProps : VectorProperties) (fnElemDest : Bool) (poolCode : NkErrorCode)
    (heap : Option (Fresh E)) : NkErrorCode × Option (Vector E) :=
  if poolCode ≠ .ok then (poolCode, none)
  else
    let r := gpAlloc (u64 (ptrBytes * vecProps.initialCap)) heap
    (r.1, r.2.map fun b => ⟨0, vecProps.initialCap, vecProps, fnElemDest, b⟩)

/-- the capacity after one natural growth step, in exact arithmetic -/
def capAfterGrowing (v : Vector E) : ℕ := u64 ⌈v.elemCap * v.vecProps.growFactor⌉₊

/-- makes room for `reqSize` elements -/
def growTo (v : Vector E) (reqSize : ℕ) (heap : Option (Fresh E)) : NkErrorCode × Vector E :=
  if reqSize > v.elemCap then
    let newCap := max v.vecProps.maxCap (max reqSize (capAfterGrowing v))
    if newCap < reqSize then (.capLimitExceeded, v)
    else
      let r := resizeBuffer v newCap heap
      if r.1 ≠ .ok then (r.1, v) else (.ok, { r.2 with elemCap := newCap })
  else (.ok, v)

/-- `NkVectorInsertMulti` -/
def vectorInsertMulti (v : Vector E) (index : ℕ) (elemArray : ℕ → E) (nElems : ℕ) (heap : Option (Fresh E)) :
    NkErrorCode × Vector E :=
  let reqSize := u64 (v.elemCount + nElems)
  if reqSize ≤ v.elemCount then (.unsignedWrapAround, v)
  else
    let r := growTo v reqSize heap
    if r.1 ≠ .ok then r
    else
      -- the shift reads from elemArray, not from the buffer
      let w := (r.2.write (index + nElems) elemArray (v.elemCount - index)).write index elemArray nElems
      (.ok, { w with elemCount := u64 (v.elemCount + nElems) })

/-- `NkVectorInsert`; `stack` is the memory around the compound literal that `elemPtr` is passed in -/
def vectorInsert (v : Vector E) (elemPtr : E) (index : ℕ) (stack : ℕ → E) (heap : Option (Fresh E)) :
    NkErrorCode × Vector E :=
  vectorInsertMulti v index (Function.update stack 0 elemPtr) 1 heap

structure EraseResult (E : Type) where
  code : NkErrorCode
  vec : Vector E
  destroyed : List E
  /-- elements written to the caller's array -/
  copied : List E
  /-- bytes cleared at the address that the first entry of the caller's array holds -/
  zeroed : ℕ

/-- `NkVectorEraseMulti` -/
def vectorEraseMulti (v : Vector E) (sInd maxN : ℕ) : EraseResult E :=
  let lenToDel := min maxN (v.elemCount - sInd)
  if lenToDel > 0 then
    let r := tryFreeRange v sInd (sInd + lenToDel)
    let w := v.write sInd (fun k => v.dataPtr.mem (sInd + lenToDel + k)) (v.elemCount - sInd - lenToDel)
    { code := .ok
      vec := { w with elemCount := v.elemCount - lenToDel }
      destroyed := r.2
      copied := if r.1 = .noOperation then (upto sInd (sInd + lenToDel)).map v.dataPtr.mem else []
      zeroed := if r.1 ≠ .noOperation then u64 (maxN * ptrBytes) else 0 }
  else ⟨.noOperation, v, [], [], 0⟩

/-- `NkVectorErase` -/
def vectorErase (v : Vector E) (index : ℕ) : EraseResult E := vectorEraseMulti v index 1

/-- where a loop of `NkVectorEraseIf` stands -/
structure EraseIfState (E : Type) where
  vec : Vector E
  i : ℕ
  j : ℕ
  destroyed : List E
  /-- slots the destructor was called on, with the element count at that moment -/
  freed : List (ℕ × ℕ)
  /-- entries written to the caller's array -/
  copied : List (ℕ × E)

/-- one round: the element at `i` is taken out if the predicate holds; the count is lowered by `j` in every round -/
def eraseIfRound (s : EraseIfState E) (isMatch : Bool) : EraseIfState E :=
  let v := s.vec
  let t : EraseIfState E :=
    if isMatch then
      { s with
        vec := v.write s.i (fun k => v.dataPtr.mem (s.i + 1 + k)) (u64 (sub64 v.elemCount (s.i + 1) * ptrBytes) / ptrBytes)
        j := u64 (s.j + 1)
        destroyed := if v.fnDest then s.destroyed ++ [v.dataPtr.mem s.i] else s.destroyed
        freed := if v.fnDest then s.freed ++ [(s.i, v.elemCount)] else s.freed
        copied := if v.fnDest then s.copied else s.copied ++ [(s.j, v.dataPtr.mem s.i)] }
    else { s with i := s.i + 1 }
  { t with vec := { t.vec with elemCount := sub64 t.vec.elemCount t.j } }

/-- the loop of `NkVectorEraseIf`, for at most the given number of rounds; the predicate sees the number of the round, the
vector and the index -/
def eraseIfLoop (fnPred : ℕ → Vector E → ℕ → Bool) (stop : ℕ) : ℕ → ℕ → EraseIfState E → Option (EraseIfState E)
  | 0, _, _ => none
  | rounds + 1, n, s =>
    if s.i < stop then eraseIfLoop fnPred stop rounds (n + 1) (eraseIfRound s (fnPred n s.vec s.i)) else some s

/-- `NkVectorEraseIf`, if it returns within the given number of rounds -/
def vectorEraseIf (v : Vector E) (sInd maxN : ℕ) (fnPred : ℕ → Vector E → ℕ → Bool) (rounds : ℕ) :
    Option (NkErrorCode × EraseIfState E) :=
  let realCount := min maxN (sub64 v.elemCount sInd)
  (eraseIfLoop fnPred (u64 (sInd + realCount)) rounds 0 ⟨v, sInd, 0, [], [], []⟩).map fun s => (.ok, s)

/-- `NkVectorDestroy`: the elements the destructor is called on -/
def vectorDestroy (v : Vector E) : List E :=
  if 0 < v.elemCount then (tryFreeRange v 0 (v.elemCount - 1)).2 else []

/-- `NkVectorClear`, with the elements the destructor was called on -/
def vectorClear (v : Vector E) (heap : Option (Fresh E)) : NkErrorCode × Vector E × List E :=
  let destroyed := (tryFreeRange v 0 v.elemCount).2
  let r := resizeBuffer { v with elemCount := 0, elemCap := v.vecProps.minCap } v.vecProps.minCap heap
  (r.1, r.2, destroyed)

end Noriko.Dstruct
