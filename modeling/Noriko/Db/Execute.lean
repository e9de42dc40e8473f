/-
Query execution (`__NkInt_Sqlite3DbHandle_Execute` of `db.c`).

`Steps` is what stepping a prepared statement yields: rows, then the end, which is `SQLITE_DONE` or an error code. The
engine, the allocator of the column array and the callback may each end the iteration; `ending` says which of them does,
in terms of their answers alone. A callback works on a context that it may change.

The loop ends on anything that is not `SQLITE_ROW` and does not look at it, so an error of the engine is reported as
success: `executeReports_iff` is the exact condition.
-/
import Noriko.Def
import Noriko.Lib.Ledger

namespace Noriko.Db

open Lib

/-! ## Columns and rows -/

/-- a column of a result row: its native type and its value -/
inductive Column where
  | integer (v : ℤ)
  | float (bits : UInt64)
  | text (bytes : List UInt8)
  | blob (bytes : List UInt8)
  | null
deriving DecidableEq, Repr

/-- the variants that a column can become -/
inductive NkVariant where
  | none
  | int64 (v : ℤ)
  | double (bits : UInt64)
  | stringView (bytes : List UInt8)
  | bufferView (bytes : List UInt8)
deriving DecidableEq, Repr

/-- `__NkInt_Sqlite3DbHandle_MapFromSqlite3ColumnType` and the switch over its result -/
def variantOf : Column → NkVariant
  | .integer v => .int64 v
  | .float bits => .double bits
  | .text bytes => .stringView bytes
  | .blob bytes => .bufferView bytes
  | .null => .none

/-- `__NkInt_Sqlite3DbHandle_PrepareResultArray` -/
def prepareResultArray (cols : List Column) : List NkVariant := cols.map variantOf

/-! ## Statements -/

/-- what `sqlite3_step` returns, call after call -/
inductive Steps where
  | row (cols : List Column) (rest : Steps)
  | done
  | error (code : ℕ)
deriving DecidableEq, Repr

/-- a prepared statement: the results from its start, and those that are still to come -/
structure NativeStmt where
  script : Steps
  pending : Steps
deriving DecidableEq, Repr

/-- `sqlite3_reset` -/
def sqlite3Reset (stmt : NativeStmt) : NativeStmt := { stmt with pending := stmt.script }

/-! ## Execution -/

/-- `NkDatabaseQueryIterFn` on a context: the code it returns and the context after it -/
abbrev NkDatabaseQueryIterFn (C : Type) := List NkVariant → C → NkErrorCode × C

/-- the variables of the loop; `arrays` are the column arrays, `calls` what the callback was called with -/
structure Loop (C : Type) where
  cxt : C
  resArr : Option ℕ
  arrays : Ledger ℕ
  calls : List (List NkVariant)

variable {C : Type}

/-- the allocation of the column array on the first row; `alloc` is the answer of `NkPoolAlloc` -/
def allocArray (alloc : NkErrorCode × ℕ) (s : Loop C) : NkErrorCode × Loop C :=
  match s.resArr with
  | some _ => (.ok, s)
  | none => if alloc.1 ≠ .ok then (alloc.1, s) else (.ok, { s with resArr := some alloc.2, arrays := s.arrays.get alloc.2 })

/-- the while loop: `eCode`, the results that were not fetched, and the variables -/
def iterate (alloc : NkErrorCode × ℕ) (fnResIter : Option (NkDatabaseQueryIterFn C)) :
    Steps → Loop C → NkErrorCode × Steps × Loop C
  | .row cols rest, s =>
    let (eCode, s) := allocArray alloc s
    if eCode ≠ .ok then (eCode, rest, s)
    else
      match fnResIter with
      | none => iterate alloc fnResIter rest s
      | some fn =>
        let (eCode, cxt) := fn (prepareResultArray cols) s.cxt
        let s := { s with cxt := cxt, calls := s.calls ++ [prepareResultArray cols] }
        if eCode ≠ .ok then (if eCode = .manuallyAborted then .ok else eCode, rest, s)
        else iterate alloc fnResIter rest s
  -- anything but `SQLITE_ROW`; `eCode` is `NkErr_Ok` whenever the loop tests its condition
  | pending, s => (.ok, pending, s)

/-- `NkPoolFree`, which ignores `NULL` -/
def freeArray (arrays : Ledger ℕ) (resArr : Option ℕ) : Ledger ℕ := arrays.putAll resArr.toList

structure Executed (C : Type) where
  code : NkErrorCode
  cxt : C
  calls : List (List NkVariant)
  arrays : Ledger ℕ
  stmt : NativeStmt

/-- `__NkInt_Sqlite3DbHandle_Execute`; `dbConn` is the connection of the handle -/
def execute (dbConn : Option ℕ) (alloc : NkErrorCode × ℕ) (fnResIter : Option (NkDatabaseQueryIterFn C)) (cxt : C)
    (stmt : NativeStmt) : Executed C :=
  match dbConn with
  | none => ⟨.objectState, cxt, [], Ledger.new, stmt⟩
  | some _ =>
    let (eCode, pending, s) := iterate alloc fnResIter stmt.pending ⟨cxt, none, Ledger.new, []⟩
    ⟨eCode, s.cxt, s.calls, freeArray s.arrays s.resArr, sqlite3Reset { stmt with pending := pending }⟩

/-! ## How an iteration ends -/

def Steps.rows : Steps → List (List Column)
  | .row cols rest => cols :: rest.rows
  | _ => []

/-- the end of the results: `none` for `SQLITE_DONE`, else an error code -/
def Steps.failure : Steps → Option ℕ
  | .row _ rest => rest.failure
  | .done => none
  | .error code => some code

/-- the callback on row after row until it returns something else than `NkErr_Ok`: the rows it got and the last code -/
def deliver (fn : NkDatabaseQueryIterFn C) : List (List NkVariant) → C → List (List NkVariant) × NkErrorCode
  | [], _ => ([], .ok)
  | row :: rows, cxt =>
    if (fn row cxt).1 ≠ .ok then ([row], (fn row cxt).1)
    else (row :: (deliver fn rows (fn row cxt).2).1, (deliver fn rows (fn row cxt).2).2)

/-- who ends the iteration -/
inductive Ending where
  | closedHandle
  | engine (failure : Option ℕ)
  | allocator (code : NkErrorCode)
  | callback (code : NkErrorCode)
deriving DecidableEq, Repr

/-- the rows that the callback gets and who ends the iteration -/
def ending (dbConn : Option ℕ) (alloc : NkErrorCode × ℕ) (fnResIter : Option (NkDatabaseQueryIterFn C)) (cxt : C)
    (script : Steps) : List (List NkVariant) × Ending :=
  if dbConn = none then ([], .closedHandle)
  else if script.rows = [] then ([], .engine script.failure)
  else if alloc.1 ≠ .ok then ([], .allocator alloc.1)
  else
    match fnResIter with
    | none => ([], .engine script.failure)
    | some fn =>
      let (calls, code) := deliver fn (script.rows.map prepareResultArray) cxt
      (calls, if code = .ok then .engine script.failure else .callback code)

/-- the codes that report an ending -/
def Ending.Reported : Ending → NkErrorCode → Prop
  | .closedHandle, code => code = .objectState
  | .engine none, code => code = .ok
  | .engine (some _), code => code ≠ .ok
  | .allocator e, code => code = e
  | .callback e, code => code = if e = .manuallyAborted then .ok else e

/-- the result reports how the iteration ended, the callback got the rows up to there, the column array is freed and the
statement is reset -/
structure ExecuteReports (dbConn : Option ℕ) (alloc : NkErrorCode × ℕ) (fnResIter : Option (NkDatabaseQueryIterFn C)) (cxt : C)
    (script : Steps) : Prop where
  code : (ending dbConn alloc fnResIter cxt script).2.Reported (execute dbConn alloc fnResIter cxt ⟨script, script⟩).code
  calls : (execute dbConn alloc fnResIter cxt ⟨script, script⟩).calls = (ending dbConn alloc fnResIter cxt script).1
  freed : (execute dbConn alloc fnResIter cxt ⟨script, script⟩).arrays.Owns []
  reset : (execute dbConn alloc fnResIter cxt ⟨script, script⟩).stmt = ⟨script, script⟩

/-! ## The loop -/

theorem allocArray_some (alloc : NkErrorCode × ℕ) {s : Loop C} {a : ℕ} (hs : s.resArr = some a) :
    allocArray alloc s = (.ok, s) := by
  simp only [allocArray, hs]

/-- without a callback all rows are fetched -/
theorem iterate_noCallback (alloc : NkErrorCode × ℕ) (st : Steps) {s : Loop C} {a : ℕ} (hs : s.resArr = some a) :
    (iterate alloc none st s).1 = .ok ∧ (iterate alloc none st s).2.2 = s := by
  induction st with
  | row cols rest ih =>
    rw [iterate, allocArray_some alloc hs]
    exact ih
  | done => exact ⟨rfl, rfl⟩
  | error code => exact ⟨rfl, rfl⟩

/-- with a callback the rows go to it until it stops; the column array stays -/
theorem iterate_callback (alloc : NkErrorCode × ℕ) (fn : NkDatabaseQueryIterFn C) (st : Steps) {s : Loop C} {a : ℕ}
    (hs : s.resArr = some a) :
    let d := deliver fn (st.rows.map prepareResultArray) s.cxt
    let r := iterate alloc (some fn) st s
    r.1 = (if d.2 = .manuallyAborted then .ok else d.2) ∧ r.2.2.calls = s.calls ++ d.1 ∧ r.2.2.arrays = s.arrays ∧
      r.2.2.resArr = some a := by
  induction st generalizing s with
  | row cols rest ih =>
    have halloc := allocArray_some alloc hs
    by_cases hok : (fn (prepareResultArray cols) s.cxt).1 = .ok
    · have hnext := @ih { s with cxt := (fn (prepareResultArray cols) s.cxt).2, calls := s.calls ++ [prepareResultArray cols] } hs
      simp only [List.append_assoc, List.singleton_append] at hnext
      simpa only [iterate, halloc, Steps.rows, List.map_cons, deliver, hok, ne_eq, not_true_eq_false, if_false] using hnext
    · simp [iterate, halloc, Steps.rows, deliver, hok, hs]
  | done => simp [iterate, Steps.rows, deliver, hs]
  | error code => simp [iterate, Steps.rows, deliver, hs]

/-- the code that an ending really gives: that of the engine is dropped -/
def Ending.code : Ending → NkErrorCode
  | .closedHandle => .objectState
  | .engine _ => .ok
  | .allocator e => e
  | .callback e => if e = .manuallyAborted then .ok else e

theorem execute_reset (dbConn : Option ℕ) (alloc : NkErrorCode × ℕ) (fnResIter : Option (NkDatabaseQueryIterFn C)) (cxt : C)
    (script : Steps) : (execute dbConn alloc fnResIter cxt ⟨script, script⟩).stmt = ⟨script, script⟩ := by
  cases dbConn <;> rfl

/-- what the function does: the calls and the ending are those of `ending`, and the array is freed -/
theorem execute_spec (dbConn : Option ℕ) (alloc : NkErrorCode × ℕ) (fnResIter : Option (NkDatabaseQueryIterFn C)) (cxt : C)
    (script : Steps) :
    let r := execute dbConn alloc fnResIter cxt ⟨script, script⟩
    let e := ending dbConn alloc fnResIter cxt script
    r.code = e.2.code ∧ r.calls = e.1 ∧ r.arrays.Owns [] := by
  cases dbConn with
  | none => exact ⟨rfl, rfl, Ledger.owns_new⟩
  | some db =>
    cases script with
    | done => exact ⟨rfl, rfl, Ledger.owns_new⟩
    | error code => exact ⟨rfl, rfl, Ledger.owns_new⟩
    | row cols rest =>
      by_cases halloc : alloc.1 = .ok
      · -- the loop with the array that the first row gets
        set s : Loop C := ⟨cxt, some alloc.2, Ledger.new.get alloc.2, []⟩ with hs
        have hfirst : iterate alloc fnResIter (.row cols rest) ⟨cxt, none, Ledger.new, []⟩ =
            iterate alloc fnResIter (.row cols rest) s := by
          simp only [iterate, allocArray, halloc, ne_eq, not_true_eq_false, if_false, hs]
        have hfree : (freeArray s.arrays (some alloc.2)).Owns [] :=
          Ledger.owns_putAll.2 (Ledger.owns_new.get alloc.2)
        cases fnResIter with
        | none =>
          obtain ⟨hcode, hloop⟩ := iterate_noCallback alloc (.row cols rest) (rfl : s.resArr = some alloc.2)
          simp only [execute, hfirst, hcode, hloop, ending, Steps.rows, halloc]
          exact ⟨rfl, rfl, hfree⟩
        | some fn =>
          obtain ⟨hcode, hcalls, harrays, hres⟩ :=
            iterate_callback alloc fn (.row cols rest) (rfl : s.resArr = some alloc.2)
          simp only [execute, hfirst, hcode, hcalls, harrays, hres]
          have hending : ending (some db) alloc (some fn) cxt (.row cols rest) =
              let d := deliver fn ((Steps.row cols rest).rows.map prepareResultArray) cxt
              (d.1, if d.2 = .ok then .engine rest.failure else .callback d.2) := by
            simp [ending, halloc, Steps.rows, Steps.failure]
          rw [hending]
          refine ⟨?_, List.nil_append _, hfree⟩
          dsimp only [hs]
          by_cases hd : (deliver fn ((Steps.row cols rest).rows.map prepareResultArray) cxt).2 = .ok
          · rw [if_pos hd, hd]
            rfl
          · rw [if_neg hd]
            rfl
      · simp [execute, iterate, allocArray, halloc, ending, Steps.rows, Ending.code, freeArray, Ledger.putAll, Ledger.owns_new]

/-- the result is right if and only if the engine does not fail before the callback or the allocator stops -/
theorem executeReports_iff (dbConn : Option ℕ) (alloc : NkErrorCode × ℕ) (fnResIter : Option (NkDatabaseQueryIterFn C)) (cxt : C)
    (script : Steps) :
    ExecuteReports dbConn alloc fnResIter cxt script ↔
      ∀ code, (ending dbConn alloc fnResIter cxt script).2 ≠ .engine (some code) := by
  obtain ⟨hcode, hcalls, hfreed⟩ := execute_spec dbConn alloc fnResIter cxt script
  constructor
  · intro h code heq
    have hrep := h.code
    rw [hcode, heq] at hrep
    exact hrep rfl
  · intro h
    refine ⟨?_, hcalls, hfreed, execute_reset dbConn alloc fnResIter cxt script⟩
    rw [hcode]
    revert h
    cases (ending dbConn alloc fnResIter cxt script).2 with
    | closedHandle => exact fun _ => rfl
    | engine failure =>
      intro h
      cases failure with
      | none => rfl
      | some code => exact absurd rfl (h code)
    | allocator e => exact fun _ => rfl
    | callback e => exact fun _ => rfl

/-- one row, then `SQLITE_IOERR` -/
def truncated : Steps := .row [.integer 1] (.error 10)

/-- a callback that counts its rows -/
def countRows : NkDatabaseQueryIterFn ℕ := fun _ n => (.ok, n + 1)

/-- an error behind the first row is reported as success -/
theorem truncated_unreported :
    (execute (some 1) (.ok, 64) (some countRows) 0 ⟨truncated, truncated⟩).code = .ok ∧
      (ending (some 1) (.ok, 64) (some countRows) 0 truncated).2 = .engine (some 10) ∧
      ¬ ExecuteReports (some 1) (.ok, 64) (some countRows) 0 truncated := by
  refine ⟨by decide, by decide, fun h => ?_⟩
  exact h.code (by decide)

end Noriko.Db
