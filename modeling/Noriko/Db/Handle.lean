/-
The database handle (`db.c`): `Create`, `Open` and `Close` over the connection to SQLite.

SQLite is the environment. Opening answers with a connection, also if it fails, and executing a text succeeds or fails; a
call gets the path, the flags or the text that the source passes. Closing a connection that has live statements is
refused, closing `NULL` does nothing. `conns` is the ledger of the connections that SQLite has returned and those that
were closed.

`handle_run` is the state machine: whatever SQLite answers, the handle holds the one connection that is open, and a call
that fails leaves it as it was if it was open and closed if it was not.
-/
import Noriko.Def
import Noriko.Lib.Ledger
import Noriko.Lib.Sim

namespace Noriko.Db

open Lib

/-! ## Modes -/

def modeReadOnly : ℕ := 1

def modeReadWrite : ℕ := 2

def modeCreate : ℕ := 4

/-- `SQLITE_OPEN_READONLY` -/
def sqliteOpenReadOnly : ℕ := 1

/-- `SQLITE_OPEN_READWRITE` -/
def sqliteOpenReadWrite : ℕ := 2

/-- `SQLITE_OPEN_CREATE` -/
def sqliteOpenCreate : ℕ := 4

/-- `__NkInt_Sqlite3DbHandle_MapFromDbMode` -/
def mapFromDbMode (mode : ℕ) : ℕ :=
  let resMode := if mode &&& modeCreate ≠ 0 then sqliteOpenCreate else 0
  if mode &&& (modeReadOnly ||| modeReadWrite) = modeReadOnly then resMode ||| sqliteOpenReadOnly
  else if mode &&& (modeReadOnly ||| modeReadWrite) = modeReadWrite then resMode ||| sqliteOpenReadWrite
  else sqliteOpenReadWrite

def roPragmaSql : String :=
  "PRAGMA encoding     = 'UTF-8';PRAGMA journal_mode = OFF;PRAGMA locking_mode = EXCLUSIVE;" ++
  "PRAGMA synchronous  = OFF;PRAGMA query_only   = ON;"

def wrPragmaSql : String := "PRAGMA encoding = 'UTF-8';"

/-! ## SQLite -/

/-- what `sqlite3_open_v2` does: a failure may come with a connection that must be closed -/
inductive OpenAnswer where
  | opened (conn : ℕ)
  | failed (conn : Option ℕ)
deriving DecidableEq, Repr

/-- the answers to the calls of one `Open` -/
structure OpenCalls where
  openV2 : String → ℕ → OpenAnswer
  /-- whether `sqlite3_exec` returns `SQLITE_OK` -/
  exec : String → Bool

/-- `__NkInt_Sqlite3DbHandle`, the connection and its mode -/
structure DbHandle where
  dbConn : Option ℕ
  dbMode : ℕ
  conns : Ledger ℕ

/-- zeroed memory -/
def newHandle : DbHandle := ⟨none, 0, Ledger.new⟩

/-- `sqlite3_close`: whether it returns `SQLITE_OK`; `busy` if statements of the connection are alive -/
def sqlite3Close (busy : Bool) (conn : Option ℕ) (conns : Ledger ℕ) : Bool × Ledger ℕ :=
  match conn with
  | none => (true, conns)
  | some c => if busy then (false, conns) else (true, conns.put c)

/-! ## The calls -/

/-- `__NkInt_Sqlite3DbHandle_SetPragmas` -/
def setPragmas (exec : String → Bool) (mode : ℕ) : NkErrorCode :=
  let res :=
    if mode = modeReadOnly then exec roPragmaSql
    else if mode = modeReadWrite then exec wrPragmaSql
    else true
  if res then .ok else .setDatabaseProps

/-- `__NkInt_Sqlite3DbHandle_Open`; no statement exists yet of a connection that it closes again -/
def dbOpen (q : OpenCalls) (h : DbHandle) (dbPath : String) (mode : ℕ) : NkErrorCode × DbHandle :=
  if h.dbConn ≠ none then (.objectState, h)
  else
    match q.openV2 dbPath (mapFromDbMode mode) with
    | .failed conn =>
      (.databaseOpen, { h with dbConn := none, conns := (sqlite3Close false conn (h.conns.getAll conn.toList)).2 })
    | .opened conn =>
      let h := { h with dbConn := some conn, dbMode := mode, conns := h.conns.get conn }
      let errCode := setPragmas q.exec mode
      if errCode ≠ .ok then (errCode, { h with dbConn := none, conns := (sqlite3Close false h.dbConn h.conns).2 })
      else (errCode, h)

/-- `__NkInt_Sqlite3DbHandle_Close` -/
def dbClose (busy : Bool) (h : DbHandle) : NkErrorCode × DbHandle :=
  let (res, conns) := sqlite3Close busy h.dbConn h.conns
  (if res then .ok else .databaseClose, { h with dbConn := if res then none else h.dbConn, conns := conns })

/-- `__NkInt_Sqlite3DbHandle_Create`; the connection that runs the schema has no statements left when it is closed -/
def dbCreate (first second : OpenCalls) (execSchema : String → Bool) (h : DbHandle) (schemaStr : Option String)
    (dbPath : String) (mode : ℕ) : NkErrorCode × DbHandle :=
  let (errCode, h) := dbOpen first h dbPath (modeReadWrite ||| modeCreate)
  if errCode ≠ .ok then (errCode, h)
  else
    match schemaStr.filter (· ≠ "") with
    | some schema =>
      if execSchema schema then dbOpen second (dbClose false h).2 dbPath mode
      else (.databaseApplySchema, (dbClose false h).2)
    | none => dbOpen second (dbClose false h).2 dbPath mode

/-! ## The state machine -/

inductive HandleOp where
  | create (first second : OpenCalls) (execSchema : String → Bool) (schemaStr : Option String) (dbPath : String) (mode : ℕ)
  | openPath (q : OpenCalls) (dbPath : String) (mode : ℕ)
  | close

def HandleOp.opens : HandleOp → Bool
  | .close => false
  | _ => true

/-- one call on a handle without statements -/
def handleStep (h : DbHandle) : HandleOp → Option (NkErrorCode × DbHandle)
  | .create first second execSchema schemaStr dbPath mode => some (dbCreate first second execSchema h schemaStr dbPath mode)
  | .openPath q dbPath mode => some (dbOpen q h dbPath mode)
  | .close => some (dbClose false h)

/-- the connections that are open are the one of the handle, if it has one -/
def DbHandle.Inv (h : DbHandle) : Prop := h.conns.Owns h.dbConn.toList

/-- what a call that opens does to the handle -/
structure Opening (h : DbHandle) (r : NkErrorCode × DbHandle) : Prop where
  inv : r.2.Inv
  refused : h.dbConn ≠ none → r.1 ≠ .ok ∧ r.2 = h
  failed : h.dbConn = none → r.1 ≠ .ok → r.2.dbConn = none
  opened : r.1 = .ok → r.2.dbConn ≠ none

/-- closing a connection that no statement uses -/
theorem sqlite3Close_owns {conns : Ledger ℕ} {conn : Option ℕ} (h : conns.Owns conn.toList) :
    (sqlite3Close false conn conns).1 = true ∧ (sqlite3Close false conn conns).2.Owns [] := by
  cases conn with
  | none => exact ⟨rfl, h⟩
  | some c => exact ⟨rfl, Ledger.owns_put.2 h⟩

theorem dbOpen_of_open (q : OpenCalls) {h : DbHandle} (hopen : h.dbConn ≠ none) (dbPath : String) (mode : ℕ) :
    dbOpen q h dbPath mode = (.objectState, h) := if_pos hopen

theorem dbOpen_spec (q : OpenCalls) {h : DbHandle} (hinv : h.Inv) (dbPath : String) (mode : ℕ) :
    Opening h (dbOpen q h dbPath mode) := by
  by_cases hopen : h.dbConn = none
  · have hnone : h.conns.Owns [] := by
      rw [DbHandle.Inv, hopen] at hinv
      exact hinv
    rw [dbOpen, if_neg (not_not.2 hopen)]
    cases q.openV2 dbPath (mapFromDbMode mode) with
    | failed conn =>
      have hgot := hnone.getAll conn.toList
      rw [List.append_nil] at hgot
      exact ⟨(sqlite3Close_owns hgot).2, fun h' => absurd hopen h', fun _ _ => rfl, fun h' => by cases h'⟩
    | opened conn =>
      have hgot := hnone.get conn
      by_cases hpragma : setPragmas q.exec mode = .ok
      · simp only [hpragma, ne_eq, not_true_eq_false, if_false]
        exact ⟨hgot, fun h' => absurd hopen h', fun _ h' => absurd rfl h', fun _ => by simp⟩
      · simp only [ne_eq, hpragma, not_false_eq_true, if_true]
        refine ⟨?_, fun h' => absurd hopen h', fun _ _ => rfl, fun h' => absurd h' hpragma⟩
        exact (@sqlite3Close_owns _ (some conn) hgot).2
  · rw [dbOpen_of_open q hopen]
    exact ⟨hinv, fun _ => ⟨NkErrorCode.noConfusion, rfl⟩, fun h' => absurd h' hopen, fun h' => by cases h'⟩

theorem dbClose_spec {h : DbHandle} (hinv : h.Inv) :
    (dbClose false h).1 = .ok ∧ (dbClose false h).2.dbConn = none ∧ (dbClose false h).2.Inv := by
  obtain ⟨hres, howns⟩ := sqlite3Close_owns hinv
  simp only [dbClose, hres, if_true]
  exact ⟨trivial, trivial, howns⟩

/-- the second `Open` works on a handle that was closed on the way -/
theorem Opening.of_closed {h t : DbHandle} {r : NkErrorCode × DbHandle} (hh : h.dbConn = none) (ht : t.dbConn = none)
    (hr : Opening t r) : Opening h r :=
  ⟨hr.inv, fun h' => absurd hh h', fun _ => hr.failed ht, hr.opened⟩

theorem dbCreate_spec (first second : OpenCalls) (execSchema : String → Bool) {h : DbHandle} (hinv : h.Inv)
    (schemaStr : Option String) (dbPath : String) (mode : ℕ) :
    Opening h (dbCreate first second execSchema h schemaStr dbPath mode) := by
  have hfirst := dbOpen_spec first hinv dbPath (modeReadWrite ||| modeCreate)
  rw [dbCreate]
  revert hfirst
  rcases dbOpen first h dbPath (modeReadWrite ||| modeCreate) with ⟨errCode, t⟩
  intro hfirst
  by_cases hok : errCode = .ok
  · subst hok
    have hclosed : h.dbConn = none := by
      by_contra hopen
      exact (hfirst.refused hopen).1 rfl
    obtain ⟨-, hnone, hinv'⟩ := dbClose_spec hfirst.inv
    have hsecond := (dbOpen_spec second hinv' dbPath mode).of_closed hclosed hnone
    simp only [ne_eq, not_true_eq_false, if_false]
    cases schemaStr.filter (· ≠ "") with
    | none => exact hsecond
    | some schema =>
      cases hexec : execSchema schema with
      | true => simpa only [hexec, if_true] using hsecond
      | false =>
        simp only [hexec, Bool.false_eq_true, if_false]
        exact ⟨hinv', fun h' => absurd hclosed h', fun _ _ => hnone, fun h' => by cases h'⟩
  · simp only [ne_eq, hok, not_false_eq_true, if_true]
    exact hfirst

/-- what every call does: the handle holds the one open connection, and a call that opens meets `Opening` -/
def HandleKept (h : DbHandle) (o : HandleOp) (errCode : NkErrorCode) (t : DbHandle) : Prop :=
  t.Inv ∧ (o.opens → Opening h (errCode, t)) ∧ (o = .close → errCode = .ok ∧ t.dbConn = none)

theorem handleStep_kept {h t : DbHandle} {o : HandleOp} {errCode : NkErrorCode} (hinv : h.Inv)
    (hs : handleStep h o = some (errCode, t)) : HandleKept h o errCode t := by
  cases o with
  | create first second execSchema schemaStr dbPath mode =>
    have hspec := dbCreate_spec first second execSchema hinv schemaStr dbPath mode
    rw [Option.some.inj hs] at hspec
    exact ⟨hspec.inv, fun _ => hspec, fun h' => by cases h'⟩
  | openPath q dbPath mode =>
    have hspec := dbOpen_spec q hinv dbPath mode
    rw [Option.some.inj hs] at hspec
    exact ⟨hspec.inv, fun _ => hspec, fun h' => by cases h'⟩
  | close =>
    have hspec := dbClose_spec hinv
    rw [Option.some.inj hs] at hspec
    exact ⟨hspec.2.2, fun h' => absurd h' Bool.false_ne_true, fun _ => ⟨hspec.1, hspec.2.1⟩⟩

/-- in every run of calls on a handle that starts closed, every call keeps the handle -/
theorem handle_run (ops : List HandleOp) : EachStep handleStep HandleKept newHandle ops := by
  have hstart : newHandle.Inv := Ledger.owns_new
  refine EachStep.of_inv (fun h o errCode t hinv hs => ?_) hstart ops
  have hkept := handleStep_kept hinv hs
  exact ⟨hkept, hkept.1⟩

end Noriko.Db
