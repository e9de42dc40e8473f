/-
Database handles and statements as reference-counted objects (`db.c`).

Both are objects of the SQLite factory, and a statement holds a reference on the handle it was compiled for. The
destructor of a statement releases another object, so the store keeps the counters of all objects, and the methods of `Om` are
taken over it. The factory is static and its counter a stub. `alloc` is the answer to the search for the factory and the
allocation of the object; `prepare` is `sqlite3_prepare_v2`, which stores `NULL` if it fails (or finds no statement in the
text, which is not told apart from a failure).

`objects` is the ledger of the objects that were created and destroyed. A statement that cannot be compiled is destroyed
before it has a database, and its destructor follows the `NULL` (`createStatement_noCompile`).
-/
import Noriko.Db.Handle
import Noriko.Om.Rollback

namespace Noriko.Db

open Lib Om

/-! ## Objects -/

structure DbStore where
  refs : Refs ℕ
  stmts : ℕ → StmtMembers ℕ
  handles : ℕ → DbHandle
  /-- the native statements that are not finalized -/
  native : List ℕ
  objects : Ledger ℕ
  /-- how often a `NULL` member was followed -/
  nullFollows : ℕ

/-- the interface of database handles -/
def iidDatabase : Iid := .other 0

/-- `__NkInt_Sqlite3DbHandle_QueryInterface` -/
def dbQueryInterface (iId : Iid) : NkErrorCode := if iId = .base ∨ iId = iidDatabase then .ok else .interfaceNotImpl

def DbStore.addRef (s : DbStore) (o : ℕ) : DbStore := { s with refs := s.refs.addRef o }

/-- the connection of handle `db` has statements; `connOf` tells the connection of a native statement -/
def DbStore.busy (connOf : ℕ → ℕ) (s : DbStore) (db : ℕ) : Bool :=
  (s.handles db).dbConn.any fun c => s.native.any fun n => connOf n = c

/-- `__NkInt_Sqlite3DbHandle_Release` -/
def dbRelease (connOf : ℕ → ℕ) (self : ℕ) (s : DbStore) : DbStore :=
  if s.refs.LastRef self then
    { s with
      refs := s.refs.release self
      handles := Function.update s.handles self (dbClose (s.busy connOf self) (s.handles self)).2
      objects := s.objects.put self }
  else { s with refs := s.refs.release self }

/-- the statements of the store -/
def storeStmts (connOf : ℕ → ℕ) : StmtEnv DbStore ℕ where
  members := DbStore.stmts
  setMembers s o m := { s with stmts := Function.update s.stmts o m }
  acquire s h := { s with native := h.toList ++ s.native }
  dispose s h := { s with native := h.elim s.native s.native.erase }
  addParentRef := DbStore.addRef
  releaseParent s
    | some db => dbRelease connOf db s
    | none => { s with nullFollows := s.nullFollows + 1 }

/-- `__NkInt_Sqlite3Stmt_Release` -/
def stmtRelease (connOf : ℕ → ℕ) (self : ℕ) (s : DbStore) : DbStore :=
  let t := { s with refs := s.refs.release self }
  if s.refs.LastRef self then stmtDestroyOf (storeStmts connOf) self { t with objects := s.objects.put self } else t

/-- `__NkInt_Sqlite3Stmt_Initialize` with the parameters that `CreateStatement` passes for handle `db` -/
def stmtInitialize (connOf : ℕ → ℕ) (prepare : Option ℕ → String → Option ℕ) (db : ℕ) (sqlStr : String) (self : ℕ)
    (s : DbStore) : NkErrorCode × DbStore :=
  stmtInitializeOf (storeStmts connOf) (prepare (s.handles db).dbConn sqlStr) self db s

/-! ## Instantiation -/

/-- the methods of a class, and the memory that its objects start with -/
structure NkClass where
  queryInterface : Iid → NkErrorCode
  setup : ℕ → DbStore → DbStore
  onInitialize : ℕ → DbStore → NkErrorCode × DbStore
  release : ℕ → DbStore → DbStore

def NkClass.objectCalls (cls : NkClass) : ObjectCalls DbStore ℕ Iid ℕ where
  iidInitializable := .initializable
  queryInterface o iId s :=
    if cls.queryInterface iId = .ok then (.ok, some o, s.addRef o) else (cls.queryInterface iId, none, s)
  onInitialize := cls.onInitialize
  release s o := cls.release o s

/-- the SQLite factory -/
def NkClass.factoryCalls (cls : NkClass) (alloc : NkErrorCode × ℕ) : FactoryCalls DbStore Unit ℕ where
  query s := (.ok, some (), s)
  createInstance _ s :=
    (alloc.1, alloc.2, if alloc.1 = .ok then
      cls.setup alloc.2 { s with refs := s.refs.create alloc.2, objects := s.objects.get alloc.2 } else s)
  release s _ := s

/-- `NkOMCreateInstance` for an object of the SQLite factory: code, `*resPtr` and store -/
def omCreateInstance (cls : NkClass) (alloc : NkErrorCode × ℕ) (iId : Iid) (s : DbStore) : NkErrorCode × Option ℕ × DbStore :=
  createInstanceOf cls.objectCalls (cls.factoryCalls alloc) iId s

/-- the statement class, for a statement of handle `db` -/
def stmtClass (connOf : ℕ → ℕ) (prepare : Option ℕ → String → Option ℕ) (db : ℕ) (sqlStr : String) : NkClass where
  queryInterface := stmtQueryInterface
  setup o s := { s with stmts := Function.update s.stmts o ⟨none, none⟩ }
  onInitialize := stmtInitialize connOf prepare db sqlStr
  release := stmtRelease connOf

/-- the class of database handles, which cannot be initialized -/
def dbClass (connOf : ℕ → ℕ) : NkClass where
  queryInterface := dbQueryInterface
  setup o s := { s with handles := Function.update s.handles o newHandle }
  onInitialize _ s := (.notImplemented, s)
  release := dbRelease connOf

/-- `__NkInt_Sqlite3DbHandle_CreateStatement` -/
def createStatement (connOf : ℕ → ℕ) (alloc : NkErrorCode × ℕ) (prepare : Option ℕ → String → Option ℕ) (self : ℕ)
    (sqlStr : String) (s : DbStore) : NkErrorCode × Option ℕ × DbStore :=
  omCreateInstance (stmtClass connOf prepare self sqlStr) alloc .sqlStatement s

/-! ## Releasing -/

section Release

variable {connOf : ℕ → ℕ} {s : DbStore} {o db : ℕ}

theorem dbRelease_more (h : 1 < s.refs.count db) : dbRelease connOf db s = { s with refs := s.refs.release db } :=
  if_neg (not_le.2 h)

theorem stmtRelease_more (h : 1 < s.refs.count o) : stmtRelease connOf o s = { s with refs := s.refs.release o } :=
  if_neg (not_le.2 h)

/-- a compiled statement takes its reference on the handle with it -/
theorem stmtRelease_last {n : ℕ} (h : s.refs.LastRef o) (hmem : s.stmts o = ⟨some n, some db⟩) :
    stmtRelease connOf o s =
      dbRelease connOf db { s with refs := s.refs.release o, native := s.native.erase n, objects := s.objects.put o } := by
  simp only [stmtRelease, stmtDestroyOf, storeStmts, if_pos h, hmem, Option.elim_some]

/-- a reference that was added by a query is dropped again -/
theorem stmtRelease_addRef (h : s.refs.Alive o) : stmtRelease connOf o (s.addRef o) = s := by
  have hlt : 1 < (s.addRef o).refs.count o := by
    have hpos : 0 < s.refs.count o := h
    simp only [DbStore.addRef, Refs.addRef_count_self]
    omega
  rw [stmtRelease_more hlt]
  simp only [DbStore.addRef, Refs.addRef_release h]

theorem dbRelease_addRef (h : s.refs.Alive db) : dbRelease connOf db (s.addRef db) = s := by
  have hlt : 1 < (s.addRef db).refs.count db := by
    have hpos : 0 < s.refs.count db := h
    simp only [DbStore.addRef, Refs.addRef_count_self]
    omega
  rw [dbRelease_more hlt]
  simp only [DbStore.addRef, Refs.addRef_release h]

end Release

/-! ## Creating -/

section Create

variable {connOf : ℕ → ℕ} {prepare : Option ℕ → String → Option ℕ} {s : DbStore} {o db n : ℕ} {sqlStr : String}

theorem omCreateInstance_refused (cls : NkClass) {alloc : NkErrorCode × ℕ} (h : alloc.1 ≠ .ok) (iId : Iid) :
    omCreateInstance cls alloc iId s = (alloc.1, none, s) := by
  simp [omCreateInstance, createInstanceOf, NkClass.factoryCalls, h]

/-- the object is set up, and `NkOMCreateInstance` goes on with it -/
theorem omCreateInstance_created (cls : NkClass) (o : ℕ) (iId : Iid) :
    omCreateInstance cls (.ok, o) iId s =
      let i := initializeOf cls.objectCalls o (cls.setup o { s with refs := s.refs.create o, objects := s.objects.get o })
      if i.1 ≠ .ok then (i.1, none, i.2) else queryResultOf cls.objectCalls o iId i.2 := rfl

theorem createStatement_refused {code : NkErrorCode} (h : code ≠ .ok) :
    createStatement connOf (code, o) prepare db sqlStr s = (code, none, s) := omCreateInstance_refused _ h _

/-- the store with a statement of handle `db` at `o` -/
def DbStore.withStmt (s : DbStore) (o n db : ℕ) : DbStore :=
  { s with
    refs := (s.refs.create o).addRef db
    stmts := Function.update s.stmts o ⟨some n, some db⟩
    native := n :: s.native
    objects := s.objects.get o }

/-- the store right after `NkOMCreateInstance` has got an object from the factory -/
def DbStore.withNew (s : DbStore) (o : ℕ) : DbStore :=
  { s with
    refs := s.refs.create o
    stmts := Function.update s.stmts o ⟨none, none⟩
    objects := s.objects.get o }

theorem stmtInitialize_compiled (hprep : prepare (s.handles db).dbConn sqlStr = some n) :
    stmtInitialize connOf prepare db sqlStr o ((s.withNew o).addRef o) =
      (.ok, { s.withStmt o n db with refs := ((s.refs.create o).addRef o).addRef db }) := by
  simp only [stmtInitialize, stmtInitializeOf, storeStmts, DbStore.addRef, DbStore.withNew, DbStore.withStmt, hprep,
    reduceCtorEq, if_false, Function.update_self, Function.update_idem]
  rfl

theorem createStatement_compiled (hne : o ≠ db) (hprep : prepare (s.handles db).dbConn sqlStr = some n) :
    createStatement connOf (.ok, o) prepare db sqlStr s = (.ok, some o, s.withStmt o n db) := by
  have hone : ((s.refs.create o).addRef db).count o = 1 := by
    rw [Refs.addRef_count_of_ne hne, Refs.create_count_self]
  have halive : (s.withStmt o n db).refs.Alive o := by
    unfold Refs.Alive DbStore.withStmt
    rw [hone]
    exact one_pos
  -- the reference of the query for `NkIInitializable` is dropped
  have hinit : stmtRelease connOf o { s.withStmt o n db with refs := ((s.refs.create o).addRef o).addRef db } =
      s.withStmt o n db := by
    have hlt : 1 < (((s.refs.create o).addRef o).addRef db).count o := by
      rw [Refs.addRef_count_of_ne hne, Refs.addRef_count_self, Refs.create_count_self]
      decide
    rw [stmtRelease_more hlt]
    simp only [DbStore.withStmt, Refs.addRef_release_of_ne hne, Refs.addRef_release Refs.create_alive]
  have hnew : (stmtClass connOf prepare db sqlStr).setup o { s with refs := s.refs.create o, objects := s.objects.get o } =
      s.withNew o := rfl
  have hcls : (stmtClass connOf prepare db sqlStr).onInitialize o ((s.withNew o).addRef o) = _ := stmtInitialize_compiled hprep
  have hqi : ∀ iId, iId = .initializable ∨ iId = .sqlStatement →
      (stmtClass connOf prepare db sqlStr).queryInterface iId = .ok := by
    rintro iId (rfl | rfl) <;> rfl
  have hrel : (stmtClass connOf prepare db sqlStr).release = stmtRelease connOf := rfl
  rw [createStatement, omCreateInstance_created, hnew]
  simp only [initializeOf, queryResultOf, NkClass.objectCalls, hcls, hqi .initializable (Or.inl rfl),
    hqi .sqlStatement (Or.inr rfl), if_true, ne_eq, not_true_eq_false, if_false]
  rw [hrel, hinit, stmtRelease_addRef halive]

/-- a statement that cannot be compiled: the object is destroyed once and its destructor follows `NULL` -/
theorem createStatement_noCompile (hprep : prepare (s.handles db).dbConn sqlStr = none) :
    createStatement connOf (.ok, o) prepare db sqlStr s =
      (.compileSqlStatement, none, { s.withNew o with
        refs := (s.refs.create o).release o
        objects := (s.objects.get o).put o
        nullFollows := s.nullFollows + 1 }) := by
  have hnew : (stmtClass connOf prepare db sqlStr).setup o { s with refs := s.refs.create o, objects := s.objects.get o } =
      s.withNew o := rfl
  have hcls : (stmtClass connOf prepare db sqlStr).onInitialize o ((s.withNew o).addRef o) =
      (.compileSqlStatement, (s.withNew o).addRef o) := by
    show stmtInitialize connOf prepare db sqlStr o ((s.withNew o).addRef o) = _
    simp only [stmtInitialize, stmtInitializeOf, storeStmts, DbStore.addRef, DbStore.withNew, hprep, if_true,
      Function.update_self, Function.update_idem]
    rfl
  have hqi : (stmtClass connOf prepare db sqlStr).queryInterface .initializable = .ok := rfl
  have hrel : (stmtClass connOf prepare db sqlStr).release = stmtRelease connOf := rfl
  have halive : (s.withNew o).refs.Alive o := Refs.create_alive
  have hlast : (s.refs.create o).LastRef o := Refs.create_count_self.le
  rw [createStatement, omCreateInstance_created, hnew]
  simp only [initializeOf, NkClass.objectCalls, hcls, hqi, hrel, if_true, ne_eq, reduceCtorEq, not_false_eq_true,
    stmtRelease_addRef halive]
  simp only [stmtRelease, stmtDestroyOf, storeStmts, DbStore.withNew, if_pos hlast, Function.update_self, Option.elim_none]

/-- a handle is created without a connection -/
theorem createDatabase_eq (connOf : ℕ → ℕ) (s : DbStore) (o : ℕ) : omCreateInstance (dbClass connOf) (.ok, o) iidDatabase s =
    (.ok, some o, { s with
      refs := s.refs.create o
      handles := Function.update s.handles o newHandle
      objects := s.objects.get o }) := by
  set t : DbStore := { s with
    refs := s.refs.create o, handles := Function.update s.handles o newHandle, objects := s.objects.get o } with ht
  have hnew : (dbClass connOf).setup o { s with refs := s.refs.create o, objects := s.objects.get o } = t := rfl
  have hqi : (dbClass connOf).queryInterface iidDatabase = .ok := rfl
  have hqi' : (dbClass connOf).queryInterface .initializable ≠ .ok := (by decide : dbQueryInterface .initializable ≠ .ok)
  have hrel : (dbClass connOf).release = dbRelease connOf := rfl
  have halive : t.refs.Alive o := Refs.create_alive
  rw [omCreateInstance_created, hnew]
  simp only [initializeOf, queryResultOf, NkClass.objectCalls, hqi, hqi', hrel, if_true, if_false, ne_eq,
    not_true_eq_false, dbRelease_addRef halive]

end Create

end Noriko.Db
