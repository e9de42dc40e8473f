/-
The classes of the engine: `QueryInterface` of the SQLite statement and database handle (`db.c`), of the file (`io.c`), of
the GDI renderer (`wingdi.c`) and of the asset manager (`asset.c`), and `CreateInstance` of the class factories for
renderers (`renderer.c`), input and output (`io.c`) and SQLite (`db.c`), as they are built for Windows.

An id is the 16 bytes of a UUID, and a table is the list of its ids up to the `NULL` that ends it. `NULL` is address 0.

The statement takes an index for a truth value, so it refuses the first id of its table and accepts every id that is not in
it; the database handle leaves `*resPtr` alone if it fails (`query_right_iff`). The factory for renderers goes through its
table by size and follows the `NULL` at its end for every id that it does not know (`factory_right_iff`).
-/
import Noriko.Om.Runtime
import Noriko.Uuid

namespace Noriko.Om

open Lib Dstruct

/-! ## Ids -/

/-- `NkUuid` by its blocks -/
def uuidOf (fBlock : UInt32) (sBlock tBlock : UInt16) (ffBlock : UInt64) : NkUuid where
  asByte := le 4 fBlock.toNat ++ le 2 sBlock.toNat ++ le 2 tBlock.toNat ++ le 8 ffBlock.toNat
  size := by simp

def iidBase : NkUuid := uuidOf 0xa2c6d745 0xf05f 0x4053 0xbb39907baaea6e6d

def iidInitializable : NkUuid := uuidOf 0xa30aaf35 0xb95d 0x422b 0xbb1bb76a0d6f6ede

def iidSqlStatement : NkUuid := uuidOf 0x6d7c27b3 0xa5ed 0x40d5 0xaa4da5c5ef8bf978

def iidDatabase : NkUuid := uuidOf 0x80507575 0x98c6 0x4b81 0xb1e42a824f163709

def iidStream : NkUuid := uuidOf 0x7268e0cb 0x376c 0x4019 0x964a8550fb3d8d9c

def iidFile : NkUuid := uuidOf 0xf3dd1340 0x2cac 0x4d00 0x937e23a58056e13f

def iidRenderer : NkUuid := uuidOf 0xb5cd4afe 0x0227 0x4b56 0x9bae2241f3ae3126

def iidGdiRenderer : NkUuid := uuidOf 0xf2cd4199 0xe8f2 0x45ff 0x89ec14f8785af2c6

def iidAssetManager : NkUuid := uuidOf 0x5d1db360 0x8d98 0x4eaa 0xb867256cb2a37a05

def clsidSqlStatement : NkUuid := uuidOf 0x29567054 0x6fd1 0x49dd 0x858fdce4d01800f8

def clsidDatabase : NkUuid := uuidOf 0xfc7e8354 0x4b01 0x4f1f 0x97152cb477208ac0

def clsidFile : NkUuid := uuidOf 0x5d954d25 0x55ff 0x4976 0x8afaa9ddca54f573

def clsidGdiRenderer : NkUuid := uuidOf 0x819653f5 0x28c1 0x4edf 0xa49f09613c47a5e6

/-! ## `NkOMQueryImplementationIndex` -/

section Index

variable {I : Type} [DecidableEq I] {uuidRef : I}

theorem implementationIndexLoop_of_notMem {infos : List I} (h : uuidRef ∉ infos) (currInd : ℕ) :
    implementationIndexLoop uuidRef infos currInd = sizeMax := by
  induction infos generalizing currInd with
  | nil => rfl
  | cons uuid infos ih =>
    obtain ⟨hne, hrest⟩ := not_or.1 (mt List.mem_cons.2 h)
    rw [implementationIndexLoop, if_neg hne]
    exact ih hrest (currInd + 1)

theorem implementationIndexLoop_of_mem {infos : List I} (h : uuidRef ∈ infos) (currInd : ℕ) :
    implementationIndexLoop uuidRef infos currInd = currInd + infos.idxOf uuidRef := by
  induction infos generalizing currInd with
  | nil => cases h
  | cons uuid infos ih =>
    rw [implementationIndexLoop]
    by_cases heq : uuidRef = uuid
    · rw [if_pos heq, heq, List.idxOf_cons_self, Nat.add_zero]
    · have hrest : uuidRef ∈ infos := (List.mem_cons.1 h).resolve_left heq
      rw [if_neg heq, ih hrest (currInd + 1), List.idxOf_cons_ne infos (Ne.symm heq), Nat.add_assoc, Nat.add_comm 1]

/-- the index of an id of the table, and `SIZE_MAX` for every other id -/
theorem omQueryImplementationIndex_eq (infos : List I) (uuidRef : I) :
    omQueryImplementationIndex infos uuidRef = if uuidRef ∈ infos then infos.idxOf uuidRef else sizeMax := by
  unfold omQueryImplementationIndex
  split_ifs with h
  · rw [implementationIndexLoop_of_mem h, Nat.zero_add]
  · exact implementationIndexLoop_of_notMem h 0

theorem index_eq_sizeMax_iff {infos : List I} (hlen : infos.length < sizeMax) :
    omQueryImplementationIndex infos uuidRef = sizeMax ↔ uuidRef ∉ infos := by
  rw [omQueryImplementationIndex_eq]
  split_ifs with h
  · have hlt := List.idxOf_lt_length_iff.2 h
    exact iff_of_false (by omega) (not_not.2 h)
  · exact iff_of_true rfl h

end Index

/-! ## `QueryInterface` -/

inductive OmClass where
  | sqlite3Stmt | sqlite3DbHandle | file | gdiRenderer | assetManager
deriving DecidableEq, Repr

/-- what a query leaves -/
structure QueryResult where
  code : NkErrorCode
  /-- `*resPtr` -/
  resPtr : ℕ
  refCount : ℤ
  /-- calls of `AddRef` -/
  addRefs : ℕ
deriving DecidableEq

/-- the count after `AddRef`; the asset manager has a stub -/
def OmClass.addRef : OmClass → ℤ → ℤ
  | .assetManager, refCount => refCount
  | _, refCount => refCount + 1

/-- the branch of an interface that is implemented -/
def OmClass.accept (c : OmClass) (self : ℕ) (refCount : ℤ) : QueryResult := ⟨.ok, self, c.addRef refCount, 1⟩

def stmtImplInfos : List NkUuid := [iidBase, iidInitializable, iidSqlStatement]

def fileImplInfos : List NkUuid := [iidBase, iidStream, iidFile]

def gdiImplInfos : List NkUuid := [iidBase, iidInitializable, iidRenderer, iidGdiRenderer]

def assetImplIfaces : List NkUuid := [iidBase, iidInitializable, iidAssetManager]

/-- the query of a class with the table `infos` -/
def queryByTable (c : OmClass) (infos : List NkUuid) (self : ℕ) (refCount : ℤ) (iId : NkUuid) : QueryResult :=
  if omQueryImplementationIndex infos iId ≠ sizeMax then c.accept self refCount else ⟨.interfaceNotImpl, 0, refCount, 0⟩

/-- `__NkInt_Sqlite3Stmt_QueryInterface` -/
def sqlite3StmtQueryInterface (self : ℕ) (refCount : ℤ) (iId : NkUuid) (resPtr : ℕ) : QueryResult :=
  if omQueryImplementationIndex stmtImplInfos iId ≠ 0 then OmClass.accept .sqlite3Stmt self refCount
  else ⟨.interfaceNotImpl, resPtr, refCount, 0⟩

/-- `__NkInt_Sqlite3DbHandle_QueryInterface` -/
def dbHandleQueryInterface (self : ℕ) (refCount : ℤ) (iId : NkUuid) (resPtr : ℕ) : QueryResult :=
  if iId = iidBase ∨ iId = iidDatabase then OmClass.accept .sqlite3DbHandle self refCount
  else ⟨.interfaceNotImpl, resPtr, refCount, 0⟩

/-- `__NkInt_File_QueryInterface` -/
def fileQueryInterface (self : ℕ) (refCount : ℤ) (iId : NkUuid) : QueryResult :=
  queryByTable .file fileImplInfos self refCount iId

/-- `__NkInt_GdiRenderer_QueryInterface` -/
def gdiRendererQueryInterface (self : ℕ) (refCount : ℤ) (iId : NkUuid) : QueryResult :=
  queryByTable .gdiRenderer gdiImplInfos self refCount iId

/-- `__NkInt_AssetManager_QueryInterface` -/
def assetQueryInterface (self : ℕ) (refCount : ℤ) (iId : NkUuid) : QueryResult :=
  queryByTable .assetManager assetImplIfaces self refCount iId

/-- `QueryInterface` of an object at `self`; `resPtr` is what the result variable holds before -/
def OmClass.queryInterface (c : OmClass) (self : ℕ) (refCount : ℤ) (iId : NkUuid) (resPtr : ℕ) : QueryResult :=
  match c with
  | .sqlite3Stmt => sqlite3StmtQueryInterface self refCount iId resPtr
  | .sqlite3DbHandle => dbHandleQueryInterface self refCount iId resPtr
  | .file => fileQueryInterface self refCount iId
  | .gdiRenderer => gdiRendererQueryInterface self refCount iId
  | .assetManager => assetQueryInterface self refCount iId

/-- the interfaces of a class -/
def OmClass.implemented : OmClass → List NkUuid
  | .sqlite3Stmt => stmtImplInfos
  | .sqlite3DbHandle => [iidBase, iidDatabase]
  | .file => fileImplInfos
  | .gdiRenderer => gdiImplInfos
  | .assetManager => assetImplIfaces

/-- an interface of the class is given out with one reference, and for every other id there is `NULL` and no reference -/
def QueryRight (c : OmClass) (self : ℕ) (refCount : ℤ) (iId : NkUuid) (resPtr : ℕ) : Prop :=
  c.queryInterface self refCount iId resPtr =
    if iId ∈ c.implemented then ⟨.ok, self, c.addRef refCount, 1⟩ else ⟨.interfaceNotImpl, 0, refCount, 0⟩

instance (c : OmClass) (self : ℕ) (refCount : ℤ) (iId : NkUuid) (resPtr : ℕ) :
    Decidable (QueryRight c self refCount iId resPtr) := inferInstanceAs (Decidable (_ = _))

section Query

variable {self resPtr : ℕ} {refCount : ℤ} {iId : NkUuid}

theorem queryByTable_eq (c : OmClass) {infos : List NkUuid} (hlen : infos.length < sizeMax) :
    queryByTable c infos self refCount iId =
      if iId ∈ infos then ⟨.ok, self, c.addRef refCount, 1⟩ else ⟨.interfaceNotImpl, 0, refCount, 0⟩ := by
  unfold queryByTable
  by_cases h : iId ∈ infos
  · rw [if_pos h, if_pos (mt (index_eq_sizeMax_iff hlen).1 (not_not.2 h))]
    rfl
  · rw [if_neg h, if_neg (not_not.2 ((index_eq_sizeMax_iff hlen).2 h))]

/-- the statement accepts the second and the third id of its table, and all that are not in it -/
theorem stmt_index_eq_zero_iff : omQueryImplementationIndex stmtImplInfos iId = 0 ↔ iId = iidBase := by
  rw [omQueryImplementationIndex_eq]
  split_ifs with h
  · rw [List.idxOf_eq_zero_iff_head_eq (by simp [stmtImplInfos])]
    exact eq_comm
  · refine iff_of_false (by decide) ?_
    rintro rfl
    exact h List.mem_cons_self

theorem stmt_right_iff :
    QueryRight .sqlite3Stmt self refCount iId resPtr ↔ iId = iidInitializable ∨ iId = iidSqlStatement := by
  have hmem : iId ∈ OmClass.implemented .sqlite3Stmt ↔ iId = iidBase ∨ iId = iidInitializable ∨ iId = iidSqlStatement := by
    simp [OmClass.implemented, stmtImplInfos]
  unfold QueryRight OmClass.queryInterface
  simp only [sqlite3StmtQueryInterface, ne_eq, stmt_index_eq_zero_iff]
  by_cases hbase : iId = iidBase
  · have hother : ¬ (iId = iidInitializable ∨ iId = iidSqlStatement) := by
      rw [hbase]
      decide
    rw [if_neg (not_not.2 hbase), if_pos (hmem.2 (Or.inl hbase))]
    refine iff_of_false (fun h => ?_) hother
    cases congrArg QueryResult.code h
  · rw [if_pos hbase]
    by_cases hlisted : iId = iidInitializable ∨ iId = iidSqlStatement
    · rw [if_pos (hmem.2 (Or.inr hlisted))]
      exact iff_of_true rfl hlisted
    · have hout : iId ∉ OmClass.implemented .sqlite3Stmt := fun h => (hmem.1 h).elim hbase hlisted
      rw [if_neg hout]
      refine iff_of_false (fun h => ?_) hlisted
      cases congrArg QueryResult.code h

theorem dbHandle_right_iff :
    QueryRight .sqlite3DbHandle self refCount iId resPtr ↔ iId = iidBase ∨ iId = iidDatabase ∨ resPtr = 0 := by
  have hmem : iId ∈ OmClass.implemented .sqlite3DbHandle ↔ iId = iidBase ∨ iId = iidDatabase := by
    simp [OmClass.implemented]
  unfold QueryRight OmClass.queryInterface
  simp only [dbHandleQueryInterface]
  rw [← or_assoc]
  by_cases hlisted : iId = iidBase ∨ iId = iidDatabase
  · rw [if_pos hlisted, if_pos (hmem.2 hlisted)]
    exact iff_of_true rfl (Or.inl hlisted)
  · rw [if_neg hlisted, if_neg (mt hmem.1 hlisted), or_iff_right hlisted]
    simp

end Query

/-- the id is accepted or refused as it should be, whatever the result variable holds, unless it is an id that the statement
mistakes or one that the database handle refuses with an old pointer in the result -/
theorem query_right_iff (c : OmClass) (self : ℕ) (refCount : ℤ) (iId : NkUuid) (resPtr : ℕ) :
    QueryRight c self refCount iId resPtr ↔
      (c = .sqlite3Stmt → iId = iidInitializable ∨ iId = iidSqlStatement) ∧
        (c = .sqlite3DbHandle → iId = iidBase ∨ iId = iidDatabase ∨ resPtr = 0) := by
  cases c with
  | sqlite3Stmt => simp [stmt_right_iff]
  | sqlite3DbHandle => simp [dbHandle_right_iff]
  | file =>
    have hquery : QueryRight .file self refCount iId resPtr := queryByTable_eq .file (by decide)
    simp [hquery]
  | gdiRenderer =>
    have hquery : QueryRight .gdiRenderer self refCount iId resPtr := queryByTable_eq .gdiRenderer (by decide)
    simp [hquery]
  | assetManager =>
    have hquery : QueryRight .assetManager self refCount iId resPtr := queryByTable_eq .assetManager (by decide)
    simp [hquery]

/-- the statement refuses its first interface and accepts one that it does not have -/
theorem stmt_query_broken : ¬ QueryRight .sqlite3Stmt 1 1 iidBase 0 ∧ ¬ QueryRight .sqlite3Stmt 1 1 iidFile 0 := by
  decide

/-! ## Class factories -/

/-- the classes that can be instantiated, by their VTables -/
inductive VTable where
  | sqlStatement | database | file | gdiRenderer
deriving DecidableEq, Repr

/-- `NkOMImplementationInfo` -/
structure ImplementationInfo where
  uuidRef : NkUuid
  vtabPtr : VTable
deriving DecidableEq

/-- the head of an object -/
structure Instance where
  addr : ℕ
  vt : VTable
  refCount : ℤ
deriving DecidableEq

/-- code and the object at `*resPtr`, if there is one -/
structure InstanceResult where
  code : NkErrorCode
  inst : Option Instance
deriving DecidableEq

/-- a new object: zeroed memory, the VTable, and one call of `AddRef`, which increases the count in all these classes.
`alloc` is the answer of the allocator. -/
def instantiate (info : ImplementationInfo) (alloc : Option ℕ) : InstanceResult :=
  match alloc with
  | none => ⟨.memoryAllocation, none⟩
  | some addr => ⟨.ok, some ⟨addr, info.vtabPtr, 0 + 1⟩⟩

/-- `CreateInstance` with an index in the table `infos` -/
def createByTable (infos : List ImplementationInfo) (clsId : NkUuid) (alloc : Option ℕ) : Option InstanceResult :=
  let implIndex := omQueryImplementationIndex (infos.map ImplementationInfo.uuidRef) clsId
  if implIndex = sizeMax then some ⟨.unknownClass, none⟩
  else infos[implIndex]?.map fun info => instantiate info alloc

def ioImplInfos : List ImplementationInfo := [⟨clsidFile, .file⟩]

def sqliteImplInfos : List ImplementationInfo := [⟨clsidSqlStatement, .sqlStatement⟩, ⟨clsidDatabase, .database⟩]

/-- `__NkInt_IoFac_CreateInstance` -/
def ioCreateInstance (clsId : NkUuid) (alloc : Option ℕ) : Option InstanceResult := createByTable ioImplInfos clsId alloc

/-- `__NkInt_Sqlite3HdFactory_CreateInstance` -/
def sqliteCreateInstance (clsId : NkUuid) (alloc : Option ℕ) : Option InstanceResult :=
  createByTable sqliteImplInfos clsId alloc

/-- `gl_InstClsTable` with its last entry: ids with their implementation infos -/
def instClsTable : List (Option (NkUuid × ImplementationInfo)) :=
  [some (clsidGdiRenderer, ⟨clsidGdiRenderer, .gdiRenderer⟩), none]

/-- the loop over `gl_InstClsTable`; it has no result if `NkUuidIsEqual` is called for `NULL`, which it dereferences -/
def findImplInfo (clsId : NkUuid) : List (Option (NkUuid × ImplementationInfo)) → Option (Option ImplementationInfo)
  | [] => some none
  | none :: _ => none
  | some (entryId, implInfo) :: table => if entryId = clsId then some (some implInfo) else findImplInfo clsId table

/-- `__NkInt_RendererFactory_CreateInstance` -/
def rendererCreateInstance (clsId : NkUuid) (alloc : Option ℕ) : Option InstanceResult :=
  (findImplInfo clsId instClsTable).map fun
    | none => ⟨.unknownClass, none⟩
    | some implInfo => instantiate implInfo alloc

inductive Factory where
  | renderer | io | sqlite
deriving DecidableEq, Repr

/-- `CreateInstance`, if no `NULL` is dereferenced -/
def Factory.createInstance : Factory → NkUuid → Option ℕ → Option InstanceResult
  | .renderer => rendererCreateInstance
  | .io => ioCreateInstance
  | .sqlite => sqliteCreateInstance

/-- `QueryInstantiableClasses` -/
def Factory.instantiableClasses : Factory → List NkUuid
  | .renderer => [clsidGdiRenderer]
  | .io => [clsidFile]
  | .sqlite => [clsidSqlStatement, clsidDatabase]

/-- the VTable of the class with an id -/
def vtableOf (clsId : NkUuid) : Option VTable :=
  if clsId = clsidSqlStatement then some .sqlStatement
  else if clsId = clsidDatabase then some .database
  else if clsId = clsidFile then some .file
  else if clsId = clsidGdiRenderer then some .gdiRenderer
  else none

/-- no `NULL` is dereferenced, exactly the ids that are not listed are refused as unknown, and the others give an object of
their class with one reference if there is memory -/
def FactoryRight (f : Factory) (clsId : NkUuid) (alloc : Option ℕ) : Prop :=
  ∃ r, f.createInstance clsId alloc = some r ∧ (r.code = .unknownClass ↔ clsId ∉ f.instantiableClasses) ∧
    ∀ addr ∈ alloc, clsId ∈ f.instantiableClasses →
      r.code = .ok ∧ ∃ vt, vtableOf clsId = some vt ∧ r.inst = some ⟨addr, vt, 1⟩

section Factories

variable {clsId : NkUuid} {alloc : Option ℕ}

theorem instantiate_right (alloc : Option ℕ) {info : ImplementationInfo} (h : vtableOf clsId = some info.vtabPtr) :
    (instantiate info alloc).code ≠ .unknownClass ∧ ∀ addr ∈ alloc, (instantiate info alloc).code = .ok ∧
      ∃ vt, vtableOf clsId = some vt ∧ (instantiate info alloc).inst = some ⟨addr, vt, 1⟩ := by
  cases alloc with
  | none => exact ⟨by simp [instantiate], fun addr haddr => by cases haddr⟩
  | some a =>
    refine ⟨by simp [instantiate], ?_⟩
    rintro addr haddr
    cases haddr
    exact ⟨rfl, info.vtabPtr, h, rfl⟩

/-- a factory that looks up its table is right if the table has the ids that are listed, each with its class -/
theorem factory_right_of_table {f : Factory} (infos : List ImplementationInfo)
    (hcreate : f.createInstance clsId alloc = createByTable infos clsId alloc)
    (hids : infos.map ImplementationInfo.uuidRef = f.instantiableClasses) (hlen : infos.length < sizeMax)
    (hclass : ∀ info ∈ infos, vtableOf info.uuidRef = some info.vtabPtr) : FactoryRight f clsId alloc := by
  unfold FactoryRight
  rw [hcreate, ← hids]
  unfold createByTable
  have hsize : (infos.map ImplementationInfo.uuidRef).length < sizeMax := by rwa [List.length_map]
  by_cases h : clsId ∈ infos.map ImplementationInfo.uuidRef
  · have hind : omQueryImplementationIndex (infos.map ImplementationInfo.uuidRef) clsId =
        (infos.map ImplementationInfo.uuidRef).idxOf clsId := by
      rw [omQueryImplementationIndex_eq, if_pos h]
    have hlt := List.idxOf_lt_length_iff.2 h
    have hget := List.getElem_idxOf hlt
    rw [List.length_map] at hlt
    rw [List.getElem_map] at hget
    have hinfo := hclass _ (List.getElem_mem hlt)
    rw [hget] at hinfo
    obtain ⟨hknown, hobj⟩ := instantiate_right alloc hinfo
    have hfound := mt (index_eq_sizeMax_iff hsize).1 (not_not.2 h)
    rw [hind] at hfound
    simp only [hind, hfound, if_false, List.getElem?_eq_getElem hlt, Option.map_some]
    exact ⟨_, rfl, iff_of_false hknown (not_not.2 h), fun addr haddr _ => hobj addr haddr⟩
  · simp only [(index_eq_sizeMax_iff hsize).2 h, if_true]
    exact ⟨_, rfl, iff_of_true rfl h, fun addr _ hmem => absurd hmem h⟩

theorem renderer_right_iff : FactoryRight .renderer clsId alloc ↔ clsId = clsidGdiRenderer := by
  by_cases h : clsId = clsidGdiRenderer
  · refine iff_of_true ?_ h
    subst h
    have hclass : vtableOf clsidGdiRenderer = some (ImplementationInfo.mk clsidGdiRenderer .gdiRenderer).vtabPtr := by decide
    obtain ⟨hknown, hobj⟩ := instantiate_right alloc hclass
    exact ⟨_, rfl, iff_of_false hknown (not_not.2 (List.mem_singleton_self _)), fun addr haddr _ => hobj addr haddr⟩
  · refine iff_of_false ?_ h
    rintro ⟨r, hr, -⟩
    have hnone : findImplInfo clsId instClsTable = none := by
      rw [instClsTable, findImplInfo, if_neg (Ne.symm h), findImplInfo]
    have hcreate : rendererCreateInstance clsId alloc = none := by
      rw [rendererCreateInstance, hnone, Option.map_none]
    have hr : rendererCreateInstance clsId alloc = some r := hr
    rw [hcreate] at hr
    cases hr

end Factories

/-- the factories for files and for SQLite are right for every id, that for renderers only for the id it lists -/
theorem factory_right_iff (f : Factory) (clsId : NkUuid) (alloc : Option ℕ) :
    FactoryRight f clsId alloc ↔ (f = .renderer → clsId = clsidGdiRenderer) := by
  cases f with
  | renderer => simp [renderer_right_iff]
  | io =>
    have hright : FactoryRight .io clsId alloc := factory_right_of_table ioImplInfos rfl rfl (by decide) (by decide)
    simp [hright]
  | sqlite =>
    have hright : FactoryRight .sqlite clsId alloc := factory_right_of_table sqliteImplInfos rfl rfl (by decide) (by decide)
    simp [hright]

/-- the factory for renderers is asked for a file -/
theorem renderer_factory_broken : ¬ FactoryRight .renderer clsidFile (some 4096) ∧
    Factory.createInstance .renderer clsidFile (some 4096) = none := by
  have hid : clsidFile ≠ clsidGdiRenderer := by decide
  exact ⟨mt renderer_right_iff.1 hid, rfl⟩

end Noriko.Om
