/-
The object model runtime (`nkom.c`): `NkOMCreateInstance`, `NkOMQueryFactoryForClass`, `NkOMInstallClassFactory` and
`NkOMUninstallClassFactory`.

Objects and factories are values of a type `O`. What NkOM promises of every object is built into the calls: an interface
query adds a reference exactly if it succeeds, and a release that takes the last reference destroys the object. What is
left to a class, its codes and its effects on the rest `W` of the program, is a parameter (`Methods`). `Initialize` may not
change the count of its own object, as its documentation says.

The class registry is a hash table from class ids to factories whose element destructor releases the factory. It hashes the
address of a class id and not its value, so a class id stands for one such object of the program, and equal ids at two
addresses are outside of the model.

`createInstanceOf` is `NkOMCreateInstance` for any program that has the methods it calls (`ObjectCalls`, `FactoryCalls`).
-/
import Noriko.Dstruct.Htable
import Noriko.Dstruct.Vector
import Noriko.Lib.RefCount

namespace Noriko.Om

open Lib Dstruct

/-! ## Objects -/

/-- a pointer to an interface of an object -/
structure Iface (O I : Type) where
  obj : O
  iId : I
deriving DecidableEq, Repr

/-- the virtual methods; `K` are class ids, `I` interface ids, `P` initialization parameters -/
structure Methods (K I P O W : Type) where
  iidInitializable : I
  /-- the class ids up to the `NULL` that ends the array -/
  queryInstantiableClasses : O → List K
  /-- code of `NkIClassFactory::CreateInstance` and the object it creates if that is `NkErr_Ok` -/
  createInstance : O → K → Option O → W → NkErrorCode × O × W
  /-- code of `QueryInterface`, and what it leaves in the result if it fails -/
  queryInterface : O → I → W → NkErrorCode × Option (Iface O I) × W
  onInitialize : O → P → W → NkErrorCode × W
  /-- what `Release` does before it frees the object -/
  destroy : O → W → W

/-- `gl_NkOMContext`, the counters of all objects and the rest of the program -/
structure Runtime (K O W : Type) where
  classReg : Hashtable K O
  refs : Refs O
  world : W

variable {K I P O W : Type}

section Calls

variable [DecidableEq O]

def addRef (s : Runtime K O W) (o : O) : Runtime K O W := { s with refs := s.refs.addRef o }

def release (M : Methods K I P O W) (s : Runtime K O W) (o : O) : Runtime K O W :=
  { s with
    refs := s.refs.release o
    world := if s.refs.LastRef o then M.destroy o s.world else s.world }

/-- `CreateInstance` of the factory `f` -/
def createInstance (M : Methods K I P O W) (f : O) (clsId : K) (ctrlInst : Option O) (s : Runtime K O W) :
    NkErrorCode × O × Runtime K O W :=
  let r := M.createInstance f clsId ctrlInst s.world
  let refs := s.refs.call f
  (r.1, r.2.1, { s with refs := if r.1 = .ok then refs.create r.2.1 else refs, world := r.2.2 })

/-- `QueryInterface`: code, result and state -/
def queryInterface (M : Methods K I P O W) (o : O) (iId : I) (s : Runtime K O W) :
    NkErrorCode × Option (Iface O I) × Runtime K O W :=
  let r := M.queryInterface o iId s.world
  if r.1 = .ok then (.ok, some ⟨o, iId⟩, { s with refs := s.refs.addRef o, world := r.2.2 })
  else (r.1, r.2.1, { s with refs := s.refs.call o, world := r.2.2 })

/-- `Initialize` -/
def callInitialize (M : Methods K I P O W) (o : O) (initParam : P) (s : Runtime K O W) : NkErrorCode × Runtime K O W :=
  let r := M.onInitialize o initParam s.world
  (r.1, { s with refs := s.refs.call o, world := r.2 })

end Calls

/-- the loop of `NkOMQueryImplementationIndex` from index `currInd` on -/
def implementationIndexLoop [DecidableEq I] (uuidRef : I) : List I → ℕ → ℕ
  | [], _ => sizeMax
  | uuid :: infos, currInd => if uuidRef = uuid then currInd else implementationIndexLoop uuidRef infos (currInd + 1)

/-- `NkOMQueryImplementationIndex` -/
def omQueryImplementationIndex [DecidableEq I] (infos : List I) (uuidRef : I) : ℕ :=
  implementationIndexLoop uuidRef infos 0

/-! ## Instantiation -/

/-- the methods that `NkOMCreateInstance` calls on an object; `S` are states of the program and `R` interface pointers -/
structure ObjectCalls (S O I R : Type) where
  iidInitializable : I
  /-- code, `*resPtr` and state -/
  queryInterface : O → I → S → NkErrorCode × Option R × S
  onInitialize : O → S → NkErrorCode × S
  release : S → O → S

/-- the search for a factory, and what is called on one -/
structure FactoryCalls (S F O : Type) where
  query : S → NkErrorCode × Option F × S
  createInstance : F → S → NkErrorCode × O × S
  release : S → F → S

section Generic

variable {S F R : Type}

/-- the part of `NkOMCreateInstance` that initializes the object `tmpResPtr`, if its class can be initialized -/
def initializeOf (C : ObjectCalls S O I R) (tmpResPtr : O) (s : S) : NkErrorCode × S :=
  let q := C.queryInterface tmpResPtr C.iidInitializable s
  if q.1 = .ok then
    let r := C.onInitialize tmpResPtr q.2.2
    -- a failed initialization drops the reference of the query here, and that of the creation below
    (r.1, C.release (if r.1 ≠ .ok then C.release r.2 tmpResPtr else r.2) tmpResPtr)
  else (.ok, q.2.2)

/-- the last part of `NkOMCreateInstance`: the interface the caller asked for -/
def queryResultOf (C : ObjectCalls S O I R) (tmpResPtr : O) (iId : I) (s : S) : NkErrorCode × Option R × S :=
  let q := C.queryInterface tmpResPtr iId s
  if q.1 ≠ .ok then (q.1, none, C.release q.2.2 tmpResPtr)
  else (q.1, q.2.1, C.release q.2.2 tmpResPtr)

/-- `NkOMCreateInstance`: code, `*resPtr` and state -/
def createInstanceOf (C : ObjectCalls S O I R) (D : FactoryCalls S F O) (iId : I) (s : S) : NkErrorCode × Option R × S :=
  match D.query s with
  | (errCode, none, s) => (errCode, none, s)
  | (_, some reqClsFac, s) =>
    let r := D.createInstance reqClsFac s
    let s := D.release r.2.2 reqClsFac
    if r.1 ≠ .ok then (r.1, none, s)
    else
      let i := initializeOf C r.2.1 s
      if i.1 ≠ .ok then (i.1, none, i.2) else queryResultOf C r.2.1 iId i.2

end Generic

section Registry

variable [DecidableEq K] [Inhabited K] [DecidableEq O] [Inhabited O]

/-- `NkOMQueryFactoryForClass`: code, factory and state -/
def omQueryFactoryForClass (H : HashFn K) (clsId : K) (s : Runtime K O W) :
    NkErrorCode × Option O × Runtime K O W :=
  match hashtableAt H s.classReg clsId with
  | (.ok, some f) => (.ok, some f, addRef s f)
  | _ => (.classNotReg, none, s)

/-- the methods of an object, with the parameter of its initialization -/
def objectCalls (M : Methods K I P O W) (initParam : P) : ObjectCalls (Runtime K O W) O I (Iface O I) where
  iidInitializable := M.iidInitializable
  queryInterface := queryInterface M
  onInitialize o := callInitialize M o initParam
  release := release M

/-- the factory of a class -/
def factoryCalls (H : HashFn K) (M : Methods K I P O W) (clsId : K) (ctrlInst : Option O) :
    FactoryCalls (Runtime K O W) O O where
  query := omQueryFactoryForClass H clsId
  createInstance f := createInstance M f clsId ctrlInst
  release := release M

/-- `NkOMCreateInstance` for a class of the registry -/
def omCreateInstance (H : HashFn K) (M : Methods K I P O W) (clsId : K) (ctrlInst : Option O) (iId : I) (initParam : P)
    (s : Runtime K O W) : NkErrorCode × Option (Iface O I) × Runtime K O W :=
  createInstanceOf (objectCalls M initParam) (factoryCalls H M clsId ctrlInst) iId s

theorem omCreateInstance_eq (H : HashFn K) (M : Methods K I P O W) (clsId : K) (ctrlInst : Option O) (iId : I)
    (initParam : P) (s : Runtime K O W) : omCreateInstance H M clsId ctrlInst iId initParam s =
      match omQueryFactoryForClass H clsId s with
      | (errCode, none, s) => (errCode, none, s)
      | (_, some reqClsFac, s) =>
        let r := createInstance M reqClsFac clsId ctrlInst s
        let s := release M r.2.2 reqClsFac
        if r.1 ≠ .ok then (r.1, none, s)
        else
          let i := initializeOf (objectCalls M initParam) r.2.1 s
          if i.1 ≠ .ok then (i.1, none, i.2) else queryResultOf (objectCalls M initParam) r.2.1 iId i.2 := by
  have hquery : (factoryCalls H M clsId ctrlInst).query s = omQueryFactoryForClass H clsId s := rfl
  rw [omCreateInstance, createInstanceOf, hquery]
  rcases omQueryFactoryForClass H clsId s with ⟨errCode, f | f, t⟩ <;> rfl

/-! ## Factories -/

/-- `__NkOM_DestroyClsFacFn` -/
def destroyClsFac (M : Methods K I P O W) (s : Runtime K O W) (c : FreeCall K O) : Runtime K O W :=
  match c.valPtr with
  | some f => release M s f
  | none => s

/-- `NkHashtableErase` on the class registry -/
def eraseClass (H : HashFn K) (M : Methods K I P O W) (s : Runtime K O W) (k : K) : Runtime K O W :=
  let r := hashtableErase H s.classReg k
  r.2.1.foldl (destroyClsFac M) { s with classReg := r.2.2 }

/-- the loop of `NkOMUninstallClassFactory` -/
def uninstallLoop (H : HashFn K) (M : Methods K I P O W) (clsFac : O) : List K → Runtime K O W → Runtime K O W
  | [], s => s
  | k :: ks, s => uninstallLoop H M clsFac ks (release M (eraseClass H M s k) clsFac)

/-- `NkOMUninstallClassFactory` -/
def omUninstallClassFactory (H : HashFn K) (M : Methods K I P O W) (clsFac : O) (s : Runtime K O W) :
    NkErrorCode × Runtime K O W :=
  (.ok, release M (uninstallLoop H M clsFac (M.queryInstantiableClasses clsFac) s) clsFac)

/-- the loop of `NkOMInstallClassFactory` from class `i` on; `heap` tells whether the table can grow in that round -/
def installLoop (H : HashFn K) (M : Methods K I P O W) (clsFac : O) (heap : ℕ → Bool) :
    List K → ℕ → Runtime K O W → Option (NkErrorCode × Runtime K O W)
  | [], _, s => some (.ok, s)
  | k :: ks, i, s =>
    match hashtableInsert H s.classReg ⟨k, clsFac⟩ (heap i) with
    | none => none
    | some (errCode, ht) =>
      let s := { s with classReg := ht }
      if errCode ≠ .ok then some (errCode, if 0 < i then (omUninstallClassFactory H M clsFac s).2 else s)
      else installLoop H M clsFac heap ks (i + 1) (addRef s clsFac)

/-- `NkOMInstallClassFactory`, if it returns -/
def omInstallClassFactory (H : HashFn K) (M : Methods K I P O W) (clsFac : O) (heap : ℕ → Bool) (s : Runtime K O W) :
    Option (NkErrorCode × Runtime K O W) :=
  installLoop H M clsFac heap (M.queryInstantiableClasses clsFac) 0 s

end Registry

end Noriko.Om
