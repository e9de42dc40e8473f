/-
The database of the asset manager (`asset.c`): `OpenDatabase` and `CloseDatabase`.

`OpenDatabase` creates the handle straight into the field of the manager, opens it and compiles the query for assets; each
failure undoes what came before it. `opened` remembers whether the last successful `OpenDatabase` has not been closed.

Nothing looks at the field before it is overwritten, and a query that cannot be compiled meets the destructor of
statements, so the manager keeps its database exactly if it is opened only while closed and the query compiles
(`assets_run_iff`).
-/
import Noriko.Db.Statement

namespace Noriko.Asset

open Lib Db

/-! ## The calls -/

structure AssetManager where
  store : DbStore
  dbConn : Option ℕ
  queryAssetStmt : Option ℕ

def queryAssetSql : String := "SELECT * FROM assets WHERE uuid = ?"

/-- the answers to the calls of one `OpenDatabase` -/
structure OpenDbCalls where
  allocDb : NkErrorCode × ℕ
  openCalls : OpenCalls
  stmt : StmtCalls

/-- the handle is released and the field cleared -/
def AssetManager.dropDb (connOf : ℕ → ℕ) (m : AssetManager) (db : ℕ) : AssetManager :=
  { m with store := dbRelease connOf db m.store, dbConn := none }

/-- the database is attached to a handle, for reading only in standalone mode -/
def attach (c : OpenDbCalls) (standalone : Bool) (dbPath : String) (h : DbHandle) : NkErrorCode × DbHandle :=
  dbOpen c.openCalls h dbPath (if standalone then modeReadOnly else modeReadWrite)

/-- `__NkInt_AssetManager_OpenDatabase` once a handle exists and is stored -/
def openHandle (connOf : ℕ → ℕ) (c : OpenDbCalls) (standalone : Bool) (dbPath : String) (db : ℕ) (m : AssetManager) :
    NkErrorCode × AssetManager :=
  let r := attach c standalone dbPath (m.store.handles db)
  let m := { m with store := { m.store with handles := Function.update m.store.handles db r.2 } }
  if r.1 ≠ .ok then (r.1, m.dropDb connOf db)
  else
    let q := createStatement connOf c.stmt.alloc c.stmt.prepare db queryAssetSql m.store
    let m := { m with store := q.2.2, queryAssetStmt := q.2.1 }
    if q.1 ≠ .ok then (q.1, m.dropDb connOf db) else (.ok, m)

/-- `__NkInt_AssetManager_OpenDatabase`; `NkOMCreateInstance` clears the field before anything else -/
def openDatabase (connOf : ℕ → ℕ) (c : OpenDbCalls) (standalone : Bool) (dbPath : String) (m : AssetManager) :
    NkErrorCode × AssetManager :=
  let r := omCreateInstance (dbClass connOf) c.allocDb iidDatabase m.store
  let m := { m with store := r.2.2, dbConn := r.2.1 }
  match r.2.1 with
  | some db => openHandle connOf c standalone dbPath db m
  | none => (r.1, m)

/-- `__NkInt_AssetManager_CloseDatabase` -/
def closeDatabase (connOf : ℕ → ℕ) (m : AssetManager) : NkErrorCode × AssetManager :=
  match m.dbConn with
  | none => (.componentState, m)
  | some db =>
    let store :=
      match m.queryAssetStmt with
      | some stmt => stmtRelease connOf stmt m.store
      | none => { m.store with nullFollows := m.store.nullFollows + 1 }
    (.ok, ⟨dbRelease connOf db store, none, none⟩)

/-! ## Runs -/

inductive AssetOp where
  | openDb (c : OpenDbCalls) (standalone : Bool) (dbPath : String)
  | closeDb

structure AssetRun where
  mgr : AssetManager
  /-- the last successful `OpenDatabase` has not been closed -/
  opened : Bool

/-- memory for a new object is not that of a live one -/
def FreshCalls (s : DbStore) (c : OpenDbCalls) : Prop :=
  c.allocDb.1 = .ok → ¬ s.refs.Alive c.allocDb.2 ∧
    (c.stmt.alloc.1 = .ok → ¬ s.refs.Alive c.stmt.alloc.2 ∧ c.stmt.alloc.2 ≠ c.allocDb.2)

instance (s : DbStore) (c : OpenDbCalls) : Decidable (FreshCalls s c) := inferInstanceAs (Decidable (_ → _))

def assetStep (connOf : ℕ → ℕ) (s : AssetRun) : AssetOp → Option (NkErrorCode × AssetRun)
  | .openDb c standalone dbPath =>
    if FreshCalls s.mgr.store c then
      let r := openDatabase connOf c standalone dbPath s.mgr
      some (r.1, ⟨r.2, if r.1 = .ok then true else s.opened⟩)
    else none
  | .closeDb =>
    let r := closeDatabase connOf s.mgr
    some (r.1, ⟨r.2, if r.1 = .ok then false else s.opened⟩)

/-- what the manager owes after every call: its pointers are both set exactly if a database is open, the objects it has
created are those it points to and no others are alive, each of the others was destroyed once, and no `NULL` or destroyed
object was used -/
structure AssetKept (s : AssetRun) : Prop where
  handle : s.mgr.dbConn.isSome = s.opened
  stmt : s.mgr.queryAssetStmt.isSome = s.opened
  objects : s.mgr.store.objects.Owns (s.mgr.dbConn.toList ++ s.mgr.queryAssetStmt.toList)
  nullFollows : s.mgr.store.nullFollows = 0
  faults : s.mgr.store.refs.faults = 0

/-- the manager is closed, and if the handle can be created and opened and an object for the query exists, the query
compiles -/
def OpensRight (s : AssetRun) : AssetOp → Prop
  | .openDb c standalone dbPath =>
    s.mgr.dbConn = none ∧
      let r := attach c standalone dbPath newHandle
      (c.allocDb.1 = .ok → r.1 = .ok → c.stmt.alloc.1 = .ok → c.stmt.prepare r.2.dbConn queryAssetSql ≠ none)
  | .closeDb => True

/-! ## Opening -/

/-- the states that the manager may be in -/
inductive AssetInv : AssetRun → Prop
  | closed {store : DbStore} (objects : store.objects.Owns []) (nullFollows : store.nullFollows = 0)
      (faults : store.refs.faults = 0) : AssetInv ⟨⟨store, none, none⟩, false⟩
  | opened {store : DbStore} {db stmt : ℕ} (books : Books db store 2 [stmt]) (last : store.refs.LastRef stmt) :
      AssetInv ⟨⟨store, some db, some stmt⟩, true⟩

theorem AssetInv.kept {s : AssetRun} (h : AssetInv s) : AssetKept s := by
  cases h with
  | closed objects nullFollows faults => exact ⟨rfl, rfl, objects, nullFollows, faults⟩
  | opened books last => exact ⟨rfl, rfl, books.objects, books.nullFollows, books.faults⟩

/-- a handle that has lost all references leaves a closed manager -/
theorem closed_of_books {store : DbStore} {db : ℕ} (h : Books db store 0 []) : AssetInv ⟨⟨store, none, none⟩, false⟩ :=
  .closed h.objects h.nullFollows h.faults

section Open

variable {connOf : ℕ → ℕ} {c : OpenDbCalls} {standalone : Bool} {dbPath : String} {m : AssetManager} {db : ℕ}

/-- the store with a new handle at `db` -/
def withDb (store : DbStore) (db : ℕ) : DbStore :=
  { store with
    refs := store.refs.create db
    handles := Function.update store.handles db newHandle
    objects := store.objects.get db }

theorem openDatabase_created (h : c.allocDb = (.ok, db)) :
    openDatabase connOf c standalone dbPath m =
      openHandle connOf c standalone dbPath db { m with store := withDb m.store db, dbConn := some db } := by
  rw [openDatabase, h, createDatabase_eq]
  rfl

theorem openDatabase_refused (h : c.allocDb.1 ≠ .ok) :
    openDatabase connOf c standalone dbPath m = (c.allocDb.1, { m with dbConn := none }) := by
  rw [openDatabase, omCreateInstance_refused _ h]

/-- the books of a new handle that the manager holds the only reference on -/
theorem withDb_books {store : DbStore} (hobjects : store.objects.Owns []) (hnull : store.nullFollows = 0)
    (hfaults : store.refs.faults = 0) (db : ℕ) : Books db (withDb store db) 1 [] where
  count := Refs.create_count_self
  objects := hobjects.get db
  nodup := List.nodup_singleton db
  parent _ hx := absurd hx List.not_mem_nil
  nullFollows := hnull
  faults := hfaults

theorem books_handles {store : DbStore} {total : ℕ} {stmts : List ℕ} (h : Books db store total stmts)
    (handles : ℕ → DbHandle) : Books db { store with handles := handles } total stmts :=
  ⟨h.count, h.objects, h.nodup, h.parent, h.nullFollows, h.faults⟩

/-- the store with a handle that was attached -/
def withHandle (store : DbStore) (db : ℕ) (h : DbHandle) : DbStore :=
  { store with handles := Function.update store.handles db h }

/-- how the opening of a stored handle ends: it cannot be attached, there is no object for the query, the query cannot be
compiled, or the database is open -/
theorem openHandle_cases {store : DbStore} (stmt : Option ℕ) (hne : c.stmt.alloc.1 = .ok → c.stmt.alloc.2 ≠ db) :
    let r := attach c standalone dbPath (store.handles db)
    let t := withHandle store db r.2
    let q := openHandle connOf c standalone dbPath db ⟨store, some db, stmt⟩
    (r.1 ≠ .ok ∧ q = (r.1, ⟨dbRelease connOf db t, none, stmt⟩)) ∨
    (r.1 = .ok ∧ c.stmt.alloc.1 ≠ .ok ∧ q = (c.stmt.alloc.1, ⟨dbRelease connOf db t, none, none⟩)) ∨
    (r.1 = .ok ∧ c.stmt.alloc.1 = .ok ∧ c.stmt.prepare r.2.dbConn queryAssetSql = none ∧ q.1 ≠ .ok ∧ q.2.dbConn = none ∧
      q.2.store.nullFollows = store.nullFollows + 1) ∨
    (r.1 = .ok ∧ c.stmt.alloc.1 = .ok ∧ ∃ n, c.stmt.prepare r.2.dbConn queryAssetSql = some n ∧
      q = (.ok, ⟨t.withStmt c.stmt.alloc.2 n db, some db, some c.stmt.alloc.2⟩)) := by
  intro r t q
  have hq : q = openHandle connOf c standalone dbPath db ⟨store, some db, stmt⟩ := rfl
  have hr : attach c standalone dbPath (store.handles db) = r := rfl
  have hhandle : (t.handles db).dbConn = r.2.dbConn := by
    simp only [t, withHandle, Function.update_self]
  have ht : ({ store with handles := Function.update store.handles db r.2 } : DbStore) = t := rfl
  rw [openHandle] at hq
  simp only [hr, ht] at hq
  by_cases hopen : r.1 = .ok
  · rcases hstmt : c.stmt with ⟨⟨code, o⟩, prepare⟩
    simp only [hopen, hstmt, ne_eq, not_true_eq_false, if_false] at hq hne ⊢
    by_cases hcode : code = .ok
    · subst hcode
      cases hprep : prepare r.2.dbConn queryAssetSql with
      | none =>
        have hnew := @createStatement_noCompile connOf prepare t o db queryAssetSql (hhandle ▸ hprep)
        simp only [hnew, reduceCtorEq, not_false_eq_true, if_true] at hq
        refine Or.inr (Or.inr (Or.inl ⟨trivial, rfl, rfl, ?_, ?_, ?_⟩))
        · rw [hq]
          exact NkErrorCode.noConfusion
        · rw [hq]
          rfl
        · rw [hq]
          unfold AssetManager.dropDb dbRelease
          dsimp only
          split_ifs <;> rfl
      | some n =>
        have hnew := @createStatement_compiled connOf prepare t o db n queryAssetSql (hne rfl) (hhandle ▸ hprep)
        simp only [hnew, not_true_eq_false, if_false] at hq
        exact Or.inr (Or.inr (Or.inr ⟨trivial, rfl, n, rfl, hq⟩))
    · simp only [createStatement_refused hcode, hcode, not_false_eq_true, if_true] at hq
      exact Or.inr (Or.inl ⟨trivial, hcode, hq⟩)
  · simp only [ne_eq, hopen, not_false_eq_true, if_true] at hq
    exact Or.inl ⟨hopen, hq⟩

/-- a new handle is opened and its query compiled, or everything is undone -/
theorem openHandle_right {store : DbStore} (hbooks : Books db store 1 [])
    (hfresh : c.stmt.alloc.1 = .ok → ¬ store.refs.Alive c.stmt.alloc.2)
    (hcompiles : let r := attach c standalone dbPath (store.handles db)
      r.1 = .ok → c.stmt.alloc.1 = .ok → c.stmt.prepare r.2.dbConn queryAssetSql ≠ none) :
    let q := openHandle connOf c standalone dbPath db ⟨store, some db, none⟩
    AssetInv ⟨q.2, if q.1 = .ok then true else false⟩ := by
  intro q
  have hne : c.stmt.alloc.1 = .ok → c.stmt.alloc.2 ≠ db := by
    intro hcode heq
    exact hfresh hcode (heq ▸ hbooks.alive one_pos)
  have hbooks' : Books db (withHandle store db (attach c standalone dbPath (store.handles db)).2) 1 [] :=
    books_handles hbooks _
  rcases @openHandle_cases connOf c standalone dbPath db store none hne with
    ⟨hopen, hq⟩ | ⟨hopen, hcode, hq⟩ | ⟨hopen, hcode, hnone, -⟩ | ⟨hopen, hcode, n, -, hq⟩
  · rw [show q = _ from hq, if_neg hopen]
    exact closed_of_books hbooks'.dbRelease
  · rw [show q = _ from hq, if_neg hcode]
    exact closed_of_books hbooks'.dbRelease
  · exact absurd hnone (hcompiles hopen hcode)
  · rw [show q = _ from hq, if_pos rfl]
    refine .opened (hbooks'.withStmt one_pos (hfresh hcode) n) ?_
    unfold Refs.LastRef DbStore.withStmt
    rw [Refs.addRef_count_of_ne (hne hcode), Refs.create_count_self]

/-- on a manager with a database, a call clears the field or adds two objects to those that are alive -/
theorem openDatabase_overwrites (hne : c.allocDb.1 = .ok → c.stmt.alloc.1 = .ok → c.stmt.alloc.2 ≠ c.allocDb.2) :
    let q := openDatabase connOf c standalone dbPath m
    (q.1 ≠ .ok ∧ q.2.dbConn = none) ∨
      (∃ db stmt, q.1 = .ok ∧ q.2.dbConn = some db ∧ q.2.queryAssetStmt = some stmt ∧
        q.2.store.objects = (m.store.objects.get db).get stmt) := by
  intro q
  by_cases halloc : c.allocDb.1 = .ok
  · have hcreated : q = openHandle connOf c standalone dbPath c.allocDb.2
        ⟨withDb m.store c.allocDb.2, some c.allocDb.2, m.queryAssetStmt⟩ :=
      openDatabase_created (Prod.ext halloc rfl)
    rcases @openHandle_cases connOf c standalone dbPath c.allocDb.2 (withDb m.store c.allocDb.2) m.queryAssetStmt (hne halloc)
      with ⟨hopen, hq⟩ | ⟨-, hcode, hq⟩ | ⟨-, -, -, hcode, hnone, -⟩ | ⟨-, -, n, -, hq⟩
    · rw [hcreated, hq]
      exact Or.inl ⟨hopen, rfl⟩
    · rw [hcreated, hq]
      exact Or.inl ⟨hcode, rfl⟩
    · rw [hcreated]
      exact Or.inl ⟨hcode, hnone⟩
    · rw [hcreated, hq]
      exact Or.inr ⟨_, _, rfl, rfl, rfl, rfl⟩
  · rw [show q = _ from openDatabase_refused halloc]
    exact Or.inl ⟨halloc, rfl⟩

end Open

/-! ## Steps -/

section Step

variable {connOf : ℕ → ℕ} {c : OpenDbCalls} {standalone : Bool} {dbPath : String}

/-- a closed manager is opened right or stays closed, unless its query cannot be compiled -/
theorem openDatabase_closed {store : DbStore} (hobjects : store.objects.Owns []) (hnull : store.nullFollows = 0)
    (hfaults : store.refs.faults = 0) (hfresh : FreshCalls store c) :
    let q := openDatabase connOf c standalone dbPath ⟨store, none, none⟩
    let r := attach c standalone dbPath newHandle
    ((c.allocDb.1 = .ok → r.1 = .ok → c.stmt.alloc.1 = .ok → c.stmt.prepare r.2.dbConn queryAssetSql ≠ none) →
      AssetInv ⟨q.2, if q.1 = .ok then true else false⟩) ∧
    (c.allocDb.1 = .ok → r.1 = .ok → c.stmt.alloc.1 = .ok → c.stmt.prepare r.2.dbConn queryAssetSql = none →
      q.2.store.nullFollows = 1) := by
  intro q r
  by_cases halloc : c.allocDb.1 = .ok
  · set db := c.allocDb.2 with hdb
    have hcreated : q = openHandle connOf c standalone dbPath db ⟨withDb store db, some db, none⟩ :=
      openDatabase_created (Prod.ext halloc rfl)
    have hhandle : (withDb store db).handles db = newHandle := by
      simp only [withDb, Function.update_self]
    have hbooks := withDb_books hobjects hnull hfaults db
    have hdead : c.stmt.alloc.1 = .ok → ¬ (withDb store db).refs.Alive c.stmt.alloc.2 := by
      intro hcode
      obtain ⟨hnew, hne⟩ := (hfresh halloc).2 hcode
      unfold Refs.Alive withDb
      rw [Refs.create_count_of_ne hne]
      exact hnew
    constructor
    · intro hcompiles
      have hinv := @openHandle_right connOf c standalone dbPath db (withDb store db) hbooks hdead
        (by rw [hhandle]; exact hcompiles halloc)
      rw [hcreated]
      exact hinv
    · intro _ hopen hcode hprep
      rcases @openHandle_cases connOf c standalone dbPath db (withDb store db) none
          (fun hcode => ((hfresh halloc).2 hcode).2) with
        ⟨hopen', -⟩ | ⟨-, hcode', -⟩ | ⟨-, -, -, -, -, hfollow⟩ | ⟨-, -, n, hprep', -⟩
      · rw [hhandle] at hopen'
        exact absurd hopen hopen'
      · exact absurd hcode hcode'
      · rw [hcreated, hfollow]
        exact congrArg (· + 1) hnull
      · rw [hhandle] at hprep'
        exact absurd (hprep.symm.trans hprep') (Option.some_ne_none n).symm
  · have hq : q = (c.allocDb.1, ⟨store, none, none⟩) := openDatabase_refused halloc
    refine ⟨fun _ => ?_, fun h' => absurd h' halloc⟩
    rw [hq, if_neg halloc]
    exact .closed hobjects hnull hfaults

/-- closing gives back the statement and then the handle -/
theorem closeDatabase_opened {store : DbStore} {db stmt : ℕ} (hbooks : Books db store 2 [stmt])
    (hlast : store.refs.LastRef stmt) :
    (closeDatabase connOf ⟨store, some db, some stmt⟩).1 = .ok ∧
      AssetInv ⟨(closeDatabase connOf ⟨store, some db, some stmt⟩).2, false⟩ := by
  have hone : Books db (stmtRelease connOf stmt store) 1 [] := by
    have hrel : Books db (stmtRelease connOf stmt store) 1 _ := hbooks.releaseStmt_last List.mem_cons_self hlast
    rwa [List.erase_cons_head] at hrel
  exact ⟨rfl, closed_of_books hone.dbRelease⟩

theorem assetStep_openDb {s t : AssetRun} {errCode : NkErrorCode}
    (hs : assetStep connOf s (.openDb c standalone dbPath) = some (errCode, t)) :
    FreshCalls s.mgr.store c ∧ t = ⟨(openDatabase connOf c standalone dbPath s.mgr).2,
      if (openDatabase connOf c standalone dbPath s.mgr).1 = .ok then true else s.opened⟩ := by
  by_cases hfresh : FreshCalls s.mgr.store c
  · rw [assetStep, if_pos hfresh] at hs
    exact ⟨hfresh, (congrArg Prod.snd (Option.some.inj hs)).symm⟩
  · rw [assetStep, if_neg hfresh] at hs
    cases hs

/-- the state after a step that meets the condition is one of the invariant -/
theorem assetStep_right {s t : AssetRun} {o : AssetOp} {errCode : NkErrorCode} (h : AssetInv s)
    (hs : assetStep connOf s o = some (errCode, t)) (ho : OpensRight s o) : AssetInv t := by
  cases o with
  | openDb c standalone dbPath =>
    obtain ⟨hfresh, rfl⟩ := assetStep_openDb hs
    obtain ⟨hclosed, hcompiles⟩ := ho
    cases h with
    | closed hobjects hnull hfaults => exact (openDatabase_closed hobjects hnull hfaults hfresh).1 hcompiles
    | opened hbooks hlast => cases hclosed
  | closeDb =>
    cases hs
    cases h with
    | closed hobjects hnull hfaults => exact .closed hobjects hnull hfaults
    | opened hbooks hlast => exact (closeDatabase_opened hbooks hlast).2

/-- the state after a step that does not is not one the manager may be in -/
theorem assetStep_wrong {s t : AssetRun} {o : AssetOp} {errCode : NkErrorCode} (h : AssetInv s)
    (hs : assetStep connOf s o = some (errCode, t)) (ho : ¬ OpensRight s o) : ¬ AssetKept t := by
  intro hkept
  cases o with
  | closeDb => exact ho trivial
  | openDb c standalone dbPath =>
    obtain ⟨hfresh, rfl⟩ := assetStep_openDb hs
    cases h with
    | closed hobjects hnull hfaults =>
      apply ho
      refine ⟨rfl, fun halloc hopen hcode hprep => ?_⟩
      have hfollow := (@openDatabase_closed connOf c standalone dbPath _ hobjects hnull hfaults hfresh).2 halloc hopen hcode hprep
      have hzero := hkept.nullFollows
      exact absurd (hzero.symm.trans hfollow) Nat.zero_ne_one
    | @opened store db₀ stmt₀ hbooks hlast =>
      rcases @openDatabase_overwrites connOf c standalone dbPath ⟨store, some db₀, some stmt₀⟩
          (fun halloc hcode => ((hfresh halloc).2 hcode).2) with ⟨hcode, hnone⟩ | ⟨db, stmt, hcode, hdb, hstmt, hobjects⟩
      · have hhandle := hkept.handle
        dsimp only at hhandle
        rw [hnone, if_neg hcode] at hhandle
        cases hhandle
      · -- the old handle and the old statement are alive beside the new ones
        have howns := hkept.objects
        dsimp only at howns
        rw [hdb, hstmt, hobjects] at howns
        have hlen := (howns.unique ((hbooks.objects.get db).get stmt)).length_eq
        simp [aliveObjects] at hlen

end Step

/-- the manager is as it should be after every call of a run if and only if every `OpenDatabase` of the run meets a closed
manager and can compile its query -/
theorem assets_run_iff (connOf : ℕ → ℕ) (s : AssetRun) (ops : List AssetOp) (h : AssetInv s) :
    EachStep (assetStep connOf) (fun _ _ _ t => AssetKept t) s ops ↔
      EachStep (assetStep connOf) (fun s o _ _ => OpensRight s o) s ops := by
  have hiff : ∀ s o errCode t, AssetInv s → assetStep connOf s o = some (errCode, t) → (AssetKept t ↔ OpensRight s o) := by
    intro s o errCode t hinv hs
    refine ⟨fun hkept => ?_, fun ho => (assetStep_right hinv hs ho).kept⟩
    by_contra ho
    exact assetStep_wrong hinv hs ho hkept
  refine eachStep_iff hiff ?_ h ops
  intro s o errCode t hinv hs hkept
  exact assetStep_right hinv hs ((hiff s o errCode t hinv hs).1 hkept)

/-- a manager that was never opened -/
def newManager : AssetRun :=
  ⟨⟨⟨⟨fun _ => 0, fun _ => 0, 0⟩, fun _ => ⟨none, none⟩, fun _ => newHandle, [], Ledger.new, 0⟩, none, none⟩, false⟩

theorem newManager_inv : AssetInv newManager := .closed Ledger.owns_new rfl rfl

/-- the answers for a handle at `db` and a query at `stmt`, when all goes well -/
def goodCalls (db stmt : ℕ) : OpenDbCalls :=
  ⟨(.ok, db), ⟨fun _ _ => .opened 7, fun _ => true⟩, ⟨(.ok, stmt), fun _ _ => some 20⟩⟩

/-- opened, closed and opened again -/
theorem assets_run_reopened : EachStep (assetStep fun _ => 7) (fun _ _ _ t => AssetKept t) newManager
    [.openDb (goodCalls 1 2) true "assets.db", .closeDb, .openDb (goodCalls 1 2) true "assets.db"] := by
  refine (assets_run_iff _ newManager _ newManager_inv).2 ?_
  refine EachStep.cons rfl ⟨rfl, fun _ _ _ => Option.some_ne_none 20⟩ ?_
  refine EachStep.cons rfl trivial ?_
  exact EachStep.cons rfl ⟨rfl, fun _ _ _ => Option.some_ne_none 20⟩ trivial

/-- a second `OpenDatabase` leaves the first handle and its statement behind -/
theorem second_open_leaks : ¬ EachStep (assetStep fun _ => 7) (fun _ _ _ t => AssetKept t) newManager
    [.openDb (goodCalls 1 2) true "assets.db", .openDb (goodCalls 3 4) true "assets.db"] := by
  intro h
  have hkept := ((h _ _ rfl).2 _ _ rfl).1
  have hlen := hkept.objects.length_eq
  exact absurd hlen (by decide)

end Noriko.Asset
