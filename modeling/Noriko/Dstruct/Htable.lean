/-
The hash table (`htable.c`): Robin Hood insertion, deletion by a flag, and growth by load factor.

Keys are values of a type `K` with decidable equality, as `__NkInt_HashtableCompareKeys` sees them; a value pointer is a
value of type `V`, and `none` where the code passes or stores `NULL` in its place. The hash function is any function into
the slots (`HashFn`). Zeroed memory holds the default key and value.

The insertion loop has no bound of its own: its counter `j` is never increased. `robinHoodLoop` gets as many rounds as
there are slots, after which every slot was visited; a call that needs more does not return, and the model answers
`none`.

Load factors are numbers of single precision. The quotient that gives a new capacity is converted to `NkUint32` without a
check; C leaves undefined what becomes of one from 2³² on, and the model answers `none` there as well.
-/
import Noriko.Def
import Noriko.Lib.Rounding
import Noriko.Lib.Slots
import Mathlib.Data.List.GetD

namespace Noriko.Dstruct

open Lib

/-! ## Data -/

inductive HashtableKeyType where
  | int64 | uint64 | string | stringView | pointer | uuid
deriving DecidableEq, Repr

/-- `NkHashtablePair` -/
structure HashtablePair (K V : Type) where
  keyVal : K
  valuePtr : V
deriving DecidableEq, Repr

/-- `__NkInt_HashtableExtPair`: a slot -/
structure HashtableExtPair (K V : Type) where
  regPair : HashtablePair K V
  isUsed : Bool
  offset : ℕ
deriving DecidableEq, Repr

structure HashtableProperties where
  initCap : ℕ
  minCap : ℕ
  maxCap : ℕ
  keyType : HashtableKeyType
  /-- whether an element destructor is set -/
  fnElemFree : Bool
deriving DecidableEq, Repr

structure Hashtable (K V : Type) where
  elemCount : ℕ
  currCap : ℕ
  htProps : HashtableProperties
  elemArray : List (HashtableExtPair K V)
deriving DecidableEq, Repr

/-- a hash function: a slot for every key and capacity -/
structure HashFn (K : Type) where
  hash : K → ℕ → ℕ
  hash_lt : ∀ k {cap : ℕ}, 0 < cap → hash k cap < cap

/-- a call of the element destructor -/
structure FreeCall (K V : Type) where
  keyPtr : Option K
  valPtr : Option V
deriving DecidableEq, Repr

variable {K V : Type}

section Zeroed

variable [Inhabited K] [Inhabited V]

/-- a slot of a new array -/
def zeroSlot : HashtableExtPair K V := ⟨⟨default, default⟩, false, 0⟩

def slot (elems : List (HashtableExtPair K V)) (i : ℕ) : HashtableExtPair K V := elems.getD i zeroSlot

/-! ## Robin Hood insertion -/

/-- the loop of `__NkInt_HashtableRobinHoodInsertSingle`, for at most the given number of rounds -/
def robinHoodLoop (cap : ℕ) :
    ℕ → List (HashtableExtPair K V) → ℕ → ℕ → HashtablePair K V → Option (List (HashtableExtPair K V))
  | 0, _, _, _, _ => none
  | rounds + 1, elems, i, currPsa, tmpPair =>
    if (slot elems i).isUsed = false then some (elems.set i ⟨tmpPair, true, currPsa⟩)
    else if currPsa ≤ (slot elems i).offset then robinHoodLoop cap rounds elems (cyc cap i) (u32 (currPsa + 1)) tmpPair
    else
      -- the pair in the slot is closer to its home: it makes room and is carried on
      robinHoodLoop cap rounds (elems.set i ⟨tmpPair, true, currPsa⟩) (cyc cap i) (u32 ((slot elems i).offset + 1))
        (slot elems i).regPair

/-- `__NkInt_HashtableRobinHoodInsertSingle`: whether the pair was inserted, and the slots after it -/
def robinHoodInsertSingle (H : HashFn K) (cap : ℕ) (elems : List (HashtableExtPair K V)) (p : HashtablePair K V) :
    Option (Bool × List (HashtableExtPair K V)) :=
  if cap = 0 then some (false, elems)
  else (robinHoodLoop cap cap elems (H.hash p.keyVal cap) 0 p).map fun l => (true, l)

/-! ## Growth -/

/-- the loop of `__NkInt_HashtableAdjustCapacity`: the used slots, `j` of which are done, go to the array `new` -/
def transfer (H : HashFn K) (newCap elemCount : ℕ) : List (HashtableExtPair K V) → ℕ → List (HashtableExtPair K V) →
    Option (Bool × List (HashtableExtPair K V))
  | [], _, new => some (true, new)
  | s :: rest, j, new =>
    if j < elemCount then
      if s.isUsed = false then transfer H newCap elemCount rest j new
      else match robinHoodInsertSingle H newCap new s.regPair with
        | none => none
        | some (false, new') => some (false, new')
        | some (true, new') => transfer H newCap elemCount rest (j + 1) new'
    else some (true, new)

/-- `__NkInt_HashtableAdjustCapacity`; `heap` tells whether the new array can be allocated -/
def adjustCapacity (H : HashFn K) (ht : Hashtable K V) (newCap : ℕ) (heap : Bool) :
    Option (NkErrorCode × Hashtable K V) :=
  if heap = false then some (.memoryAllocation, ht)
  else match transfer H newCap ht.elemCount ht.elemArray 0 (List.replicate newCap zeroSlot) with
    | none => none
    | some (false, _) => some (.capLimitExceeded, ht)
    | some (true, new) => some (.ok, { ht with currCap := newCap, elemArray := new })

/-! ## Search -/

variable [DecidableEq K]

/-- the loop of `__NkInt_HashtableLocKey` with the rounds that are left -/
def locLoop (cap : ℕ) (elems : List (HashtableExtPair K V)) (k : K) : ℕ → ℕ → ℕ
  | 0, _ => uint32Max
  | rounds + 1, i =>
    if (slot elems i).isUsed = true ∧ k = (slot elems i).regPair.keyVal then i
    else locLoop cap elems k rounds (cyc cap i)

/-- `__NkInt_HashtableLocKey` -/
def locKey (H : HashFn K) (cap : ℕ) (elems : List (HashtableExtPair K V)) (k : K) : ℕ :=
  locLoop cap elems k cap (H.hash k cap)

/-- `NkHashtableContains` -/
def hashtableContains (H : HashFn K) (ht : Hashtable K V) (k : K) : Bool :=
  locKey H ht.currCap ht.elemArray k ≠ uint32Max

/-! ## Operations -/

/-- `NkHashtableCreate`: both allocations succeed or no table is created -/
def hashtableCreate (p : HashtableProperties) : Hashtable K V := ⟨0, p.initCap, p, List.replicate p.initCap zeroSlot⟩

/-- `NkCheckedUint32Add`: the sum, and whether it did not wrap -/
def checkedUint32Add (s₁ s₂ : ℕ) : Bool × ℕ := (s₂ ≤ uint32Max - s₁, u32 (s₁ + s₂))

/-- `NK_CLAMP` -/
def clamp (elem lo hi : ℕ) : ℕ := max (min elem hi) lo

/-- `newElemCount / (NkFloat)currCap >= 0.75f` -/
def loadExceeded (newElemCount currCap : ℕ) : Prop := (75 / 100 : ℚ) ≤ single (single newElemCount / single currCap)

instance (n c : ℕ) : Decidable (loadExceeded n c) := inferInstanceAs (Decidable ((75 / 100 : ℚ) ≤ _))

/-- `gl_TarLoadFactor`, the literal `0.35f` -/
def tarLoadFactor : ℚ := single (35 / 100)

/-- `newElemCount / gl_TarLoadFactor`, before it is converted to an integer type -/
def targetLoad (newElemCount : ℕ) : ℚ := single (single newElemCount / tarLoadFactor)

/-- the new capacity, if the quotient can be converted -/
def newCapacity (p : HashtableProperties) (newElemCount : ℕ) : Option ℕ :=
  if targetLoad newElemCount < 2 ^ 32 then some (clamp ⌊targetLoad newElemCount⌋₊ p.minCap p.maxCap) else none

/-- the insertion loop of `NkHashtableInsertMulti`: number of pairs added, and the table after it -/
def insertPairs (H : HashFn K) : List (HashtablePair K V) → ℕ → Hashtable K V → Option (ℕ × Hashtable K V)
  | [], actAdded, ht => some (actAdded, ht)
  | p :: ps, actAdded, ht =>
    if hashtableContains H ht p.keyVal then insertPairs H ps actAdded ht
    else match robinHoodInsertSingle H ht.currCap ht.elemArray p with
      | none => none
      | some (_, elems) => insertPairs H ps (u32 (actAdded + 1)) { ht with elemArray := elems }

/-- the last part of `NkHashtableInsertMulti`, when there is room -/
def insertAndCount (H : HashFn K) (pairs : List (HashtablePair K V)) (ht : Hashtable K V) :
    Option (NkErrorCode × Hashtable K V) :=
  (insertPairs H pairs 0 ht).map fun x => (.ok, { x.2 with elemCount := u32 (x.2.elemCount + x.1) })

/-- `NkHashtableInsertMulti` -/
def hashtableInsertMulti (H : HashFn K) (ht : Hashtable K V) (pairs : List (HashtablePair K V)) (heap : Bool) :
    Option (NkErrorCode × Hashtable K V) :=
  let sum := checkedUint32Add ht.elemCount pairs.length
  if sum.1 = false ∨ ht.htProps.maxCap < sum.2 then some (.capLimitExceeded, ht)
  else if loadExceeded sum.2 ht.currCap then
    match (newCapacity ht.htProps sum.2).bind fun newCap => adjustCapacity H ht newCap heap with
    | none => none
    | some (code, ht') => if code ≠ .ok then some (code, ht') else insertAndCount H pairs ht'
  else insertAndCount H pairs ht

/-- `NkHashtableInsert` -/
def hashtableInsert (H : HashFn K) (ht : Hashtable K V) (p : HashtablePair K V) (heap : Bool) :
    Option (NkErrorCode × Hashtable K V) :=
  hashtableInsertMulti H ht [p] heap

/-- `m_isUsed = NK_FALSE; --m_elemCount` -/
def releaseSlot (ht : Hashtable K V) (i : ℕ) : Hashtable K V :=
  { ht with
    elemCount := sub32 ht.elemCount 1
    elemArray := ht.elemArray.set i { slot ht.elemArray i with isUsed := false } }

/-- `NkHashtableErase`: code, destructor calls and table -/
def hashtableErase (H : HashFn K) (ht : Hashtable K V) (k : K) : NkErrorCode × List (FreeCall K V) × Hashtable K V :=
  let where2Find := locKey H ht.currCap ht.elemArray k
  if where2Find = uint32Max then (.itemNotFound, [], ht)
  else
    let pair := (slot ht.elemArray where2Find).regPair
    -- the destructor gets no key if the key is a plain number
    let key2Pass := if ht.htProps.keyType = .int64 ∨ ht.htProps.keyType = .uint64 then none else some pair.keyVal
    (.ok, if ht.htProps.fnElemFree then [⟨key2Pass, some pair.valuePtr⟩] else [], releaseSlot ht where2Find)

/-- `NkHashtableAt`: code and value -/
def hashtableAt (H : HashFn K) (ht : Hashtable K V) (k : K) : NkErrorCode × Option V :=
  let where2Find := locKey H ht.currCap ht.elemArray k
  if where2Find = uint32Max then (.itemNotFound, none)
  else (.ok, some (slot ht.elemArray where2Find).regPair.valuePtr)

/-- `NkHashtableExtract`: code, value, destructor calls and table -/
def hashtableExtract (H : HashFn K) (ht : Hashtable K V) (k : K) :
    NkErrorCode × Option V × List (FreeCall K V) × Hashtable K V :=
  let where2Find := locKey H ht.currCap ht.elemArray k
  if where2Find = uint32Max then (.itemNotFound, none, [], ht)
  else
    let pair := (slot ht.elemArray where2Find).regPair
    (.ok, some pair.valuePtr, if ht.htProps.fnElemFree then [⟨some pair.keyVal, none⟩] else [],
      releaseSlot ht where2Find)

end Zeroed

/-- the loop of `NkHashtableForEach`; the callback may depend on the pairs it was called on before -/
def forEachLoop (fnIter : List (HashtablePair K V) → HashtablePair K V → NkErrorCode) :
    List (HashtableExtPair K V) → NkErrorCode → List (HashtablePair K V) → NkErrorCode × List (HashtablePair K V)
  | [], errorCode, visited => (errorCode, visited)
  | s :: rest, errorCode, visited =>
    if s.isUsed = false then forEachLoop fnIter rest errorCode visited
    else if fnIter visited s.regPair ≠ .ok then (fnIter visited s.regPair, visited ++ [s.regPair])
    else forEachLoop fnIter rest .ok (visited ++ [s.regPair])

/-- `NkHashtableForEach`: code and the pairs the callback was called on; the loop counts no elements, so it only matters
whether there are any -/
def hashtableForEach (ht : Hashtable K V) (fnIter : List (HashtablePair K V) → HashtablePair K V → NkErrorCode) :
    NkErrorCode × List (HashtablePair K V) :=
  if 0 < ht.elemCount then forEachLoop fnIter ht.elemArray .noOperation [] else (.noOperation, [])

/-- the loop of `__NkInt_HashtableFreeElems`; `j` elements are destroyed already -/
def freeElemsLoop (elemCount : ℕ) : List (HashtableExtPair K V) → ℕ → List (FreeCall K V)
  | [], _ => []
  | s :: rest, j =>
    if j < elemCount then
      if s.isUsed = false then freeElemsLoop elemCount rest j
      else ⟨some s.regPair.keyVal, some s.regPair.valuePtr⟩ :: freeElemsLoop elemCount rest (j + 1)
    else []

/-- `__NkInt_HashtableFreeElems` -/
def freeElems (ht : Hashtable K V) : List (FreeCall K V) :=
  if ht.htProps.fnElemFree then freeElemsLoop ht.elemCount ht.elemArray 0 else []

/-- `NkHashtableDestroy`: the destructor calls, before the memory of the table is given back -/
def hashtableDestroy (ht : Hashtable K V) : List (FreeCall K V) := freeElems ht

/-- `NkHashtableCount` -/
def hashtableCount (ht : Hashtable K V) : ℕ := ht.elemCount

/-! ## Calls -/

inductive HtOp (K V : Type) where
  | insert (pair : HashtablePair K V) (heap : Bool)
  | insertMulti (pairs : List (HashtablePair K V)) (heap : Bool)
  | erase (k : K)
  | extract (k : K)
  | at_ (k : K)
  | contains (k : K)
  | count
  | forEach (fnIter : List (HashtablePair K V) → HashtablePair K V → NkErrorCode)

/-- what a call gives back to the caller -/
inductive HtResult (K V : Type) where
  | code (c : NkErrorCode)
  | value (c : NkErrorCode) (v : Option V)
  | found (b : Bool)
  | number (n : ℕ)
  | visited (c : NkErrorCode) (pairs : List (HashtablePair K V))

/-- one call: its result and the table after it, if it returns -/
def htStep [DecidableEq K] [Inhabited K] [Inhabited V] (H : HashFn K) (ht : Hashtable K V) :
    HtOp K V → Option (HtResult K V × Hashtable K V)
  | .insert pair heap => (hashtableInsert H ht pair heap).map fun x => (.code x.1, x.2)
  | .insertMulti pairs heap => (hashtableInsertMulti H ht pairs heap).map fun x => (.code x.1, x.2)
  | .erase k => some (.code (hashtableErase H ht k).1, (hashtableErase H ht k).2.2)
  | .extract k =>
    some (.value (hashtableExtract H ht k).1 (hashtableExtract H ht k).2.1, (hashtableExtract H ht k).2.2.2)
  | .at_ k => some (.value (hashtableAt H ht k).1 (hashtableAt H ht k).2, ht)
  | .contains k => some (.found (hashtableContains H ht k), ht)
  | .count => some (.number (hashtableCount ht), ht)
  | .forEach fnIter => some (.visited (hashtableForEach ht fnIter).1 (hashtableForEach ht fnIter).2, ht)

end Noriko.Dstruct
