/-
Statements keep their database alive (`db.c`).

A run is a sequence of calls on one database handle and its statements by callers that use only what they hold a reference
on. `ext` counts the references of the callers on the handle, `stmts` lists the statements that are alive; references on a
statement are all held by callers. `Books` is the balance: the count of the handle is the number of outside references and
live statements together, and the objects that were created are destroyed once or alive. A callback does not get a place of
its own: what it does between two rows is a part of the run.

The balance is kept by every call but one that creates a statement and cannot compile it (`statements_run_iff`).
-/
import Noriko.Db.Execute
import Noriko.Db.Store

namespace Noriko.Db

open Lib Om

/-! ## Runs -/

/-- the answers to the calls that create a statement -/
structure StmtCalls where
  alloc : NkErrorCode × ℕ
  prepare : Option ℕ → String → Option ℕ

/-- the answers to the calls of one execution, with the callback -/
structure ExecCalls (C : Type) where
  alloc : NkErrorCode × ℕ
  fnResIter : Option (NkDatabaseQueryIterFn C)
  cxt : C
  script : Steps

variable {C : Type}

/-- the code of an execution on handle `self` -/
def executeCode (e : ExecCalls C) (self : ℕ) (s : DbStore) : NkErrorCode :=
  (execute (s.handles self).dbConn e.alloc e.fnResIter e.cxt ⟨e.script, e.script⟩).code

/-- `__NkInt_Sqlite3DbHandle_ExecuteInline` -/
def executeInline (connOf : ℕ → ℕ) (q : StmtCalls) (e : ExecCalls C) (self : ℕ) (sqlStr : String) (s : DbStore) :
    NkErrorCode × DbStore :=
  match createStatement connOf q.alloc q.prepare self sqlStr s with
  | (.ok, some sqlStmt, s) => (executeCode e self s, stmtRelease connOf sqlStmt s)
  | (errCode, _, s) => (errCode, s)

structure DbRun where
  store : DbStore
  ext : ℕ
  stmts : List ℕ

inductive DbOp (C : Type) where
  | createStatement (q : StmtCalls) (sqlStr : String)
  | execute (stmt : ℕ) (e : ExecCalls C)
  | executeInline (q : StmtCalls) (sqlStr : String) (e : ExecCalls C)
  | addRef
  | release
  | addRefStmt (stmt : ℕ)
  | releaseStmt (stmt : ℕ)

/-- callers hold a reference on what they use, and memory for a new object is not that of a live one -/
def Legal (s : DbRun) : DbOp C → Prop
  | .createStatement q _ => 0 < s.ext ∧ (q.alloc.1 = .ok → ¬ s.store.refs.Alive q.alloc.2)
  | .executeInline q _ _ => 0 < s.ext ∧ (q.alloc.1 = .ok → ¬ s.store.refs.Alive q.alloc.2)
  | .execute stmt _ => 0 < s.ext ∧ stmt ∈ s.stmts
  | .addRef => 0 < s.ext
  | .release => 0 < s.ext
  | .addRefStmt stmt => stmt ∈ s.stmts
  | .releaseStmt stmt => stmt ∈ s.stmts

instance (s : DbRun) (o : DbOp C) : Decidable (Legal s o) := by
  cases o <;> (unfold Legal; infer_instance)

/-- what a call does; code and state -/
def DbOp.apply (connOf : ℕ → ℕ) (db : ℕ) (s : DbRun) : DbOp C → NkErrorCode × DbRun
  | .createStatement q sqlStr =>
    let r := Db.createStatement connOf q.alloc q.prepare db sqlStr s.store
    (r.1, ⟨r.2.2, s.ext, r.2.1.toList ++ s.stmts⟩)
  | .execute _ e => (executeCode e db s.store, s)
  | .executeInline q sqlStr e =>
    let r := Db.executeInline connOf q e db sqlStr s.store
    (r.1, { s with store := r.2 })
  | .addRef => (.ok, { s with store := s.store.addRef db, ext := s.ext + 1 })
  | .release => (.ok, { s with store := dbRelease connOf db s.store, ext := s.ext - 1 })
  | .addRefStmt stmt => (.ok, { s with store := s.store.addRef stmt })
  | .releaseStmt stmt =>
    (.ok, { s with
      store := stmtRelease connOf stmt s.store
      stmts := if s.store.refs.LastRef stmt then s.stmts.erase stmt else s.stmts })

/-- one call of a caller that keeps the rules -/
def dbStep (connOf : ℕ → ℕ) (db : ℕ) (s : DbRun) (o : DbOp C) : Option (NkErrorCode × DbRun) :=
  if Legal s o then some (o.apply connOf db s) else none

/-! ## The balance -/

/-- the objects that are alive when the handle has `total` references -/
def aliveObjects (db total : ℕ) (stmts : List ℕ) : List ℕ := (if total = 0 then [] else [db]) ++ stmts

/-- handle `db` has `total` references, one of each of the live statements `stmts` among them; no object was used that is
`NULL` or destroyed -/
structure Books (db : ℕ) (s : DbStore) (total : ℕ) (stmts : List ℕ) : Prop where
  count : s.refs.count db = total
  objects : s.objects.Owns (aliveObjects db total stmts)
  nodup : (db :: stmts).Nodup
  parent : ∀ o ∈ stmts, s.refs.Alive o ∧ ∃ n, s.stmts o = ⟨some n, some db⟩
  nullFollows : s.nullFollows = 0
  faults : s.refs.faults = 0

/-- the count of the handle is that of the outside references and the live statements; so when it is destroyed, no live
statement refers to it -/
def StmtsKept (db : ℕ) (s : DbRun) : Prop := Books db s.store (s.ext + s.stmts.length) s.stmts

section Balance

variable {connOf : ℕ → ℕ} {db o total : ℕ} {s : DbStore} {stmts : List ℕ}

theorem Books.ne (h : Books db s total stmts) (ho : o ∈ stmts) : o ≠ db := by
  rintro rfl
  exact (List.nodup_cons.1 h.nodup).1 ho

theorem Books.alive (h : Books db s total stmts) (hpos : 0 < total) : s.refs.Alive db := by
  unfold Refs.Alive
  rw [h.count]
  exact_mod_cast hpos

theorem Books.addRef (h : Books db s total stmts) (hpos : 0 < total) : Books db (s.addRef db) (total + 1) stmts where
  count := by
    simp only [DbStore.addRef, Refs.addRef_count_self, h.count]
    push_cast
    rfl
  objects := by
    have hobjects := h.objects
    rw [aliveObjects, if_neg (by omega)] at hobjects
    rw [aliveObjects, if_neg (by omega)]
    exact hobjects
  nodup := h.nodup
  parent x hx := by
    obtain ⟨halive, hmem⟩ := h.parent x hx
    refine ⟨?_, hmem⟩
    unfold Refs.Alive DbStore.addRef
    rw [Refs.addRef_count_of_ne (h.ne hx)]
    exact halive
  nullFollows := h.nullFollows
  faults := by
    rw [← h.faults]
    exact Refs.addRef_faults (h.alive hpos)

/-- one reference on the handle is dropped; the last one destroys it -/
theorem Books.dbRelease (h : Books db s (total + 1) stmts) : Books db (dbRelease connOf db s) total stmts := by
  have hrefs : (Db.dbRelease connOf db s).refs = s.refs.release db := by
    unfold Db.dbRelease
    split_ifs <;> rfl
  have hstmts : (Db.dbRelease connOf db s).stmts = s.stmts := by
    unfold Db.dbRelease
    split_ifs <;> rfl
  have hfollows : (Db.dbRelease connOf db s).nullFollows = s.nullFollows := by
    unfold Db.dbRelease
    split_ifs <;> rfl
  have hobjects := h.objects
  rw [aliveObjects, if_neg (by omega)] at hobjects
  refine ⟨?_, ?_, h.nodup, fun x hx => ?_, hfollows.trans h.nullFollows, ?_⟩
  · rw [hrefs, Refs.release_count_self, h.count]
    push_cast
    omega
  · have hlast : s.refs.LastRef db ↔ total = 0 := by
      unfold Refs.LastRef
      rw [h.count]
      push_cast
      omega
    unfold Db.dbRelease aliveObjects
    by_cases h0 : total = 0
    · rw [if_pos (hlast.2 h0), if_pos h0]
      exact Ledger.owns_put.2 hobjects
    · rw [if_neg (fun h' => h0 (hlast.1 h')), if_neg h0]
      exact hobjects
  · obtain ⟨halive, hmem⟩ := h.parent x hx
    rw [hstmts, hrefs]
    refine ⟨?_, hmem⟩
    unfold Refs.Alive
    rw [Refs.release_count_of_ne (h.ne hx)]
    exact halive
  · rw [hrefs, Refs.release_faults (h.alive (Nat.succ_pos total)), h.faults]

/-- a new statement adds a reference -/
theorem Books.withStmt (h : Books db s total stmts) (hpos : 0 < total) (hfresh : ¬ s.refs.Alive o) (n : ℕ) :
    Books db (s.withStmt o n db) (total + 1) (o :: stmts) := by
  have halive := h.alive hpos
  have hodb : o ≠ db := by
    rintro rfl
    exact hfresh halive
  have hnot : o ∉ stmts := fun ho => hfresh (h.parent o ho).1
  have hobjects := h.objects
  rw [aliveObjects, if_neg (by omega)] at hobjects
  have hdb : (s.refs.create o).Alive db := by
    unfold Refs.Alive
    rw [Refs.create_count_of_ne hodb.symm]
    exact halive
  refine ⟨?_, ?_, ?_, ?_, h.nullFollows, ?_⟩
  · simp only [DbStore.withStmt, Refs.addRef_count_self, Refs.create_count_of_ne hodb.symm, h.count]
    push_cast
    rfl
  · rw [aliveObjects, if_neg (by omega)]
    exact (hobjects.get o).perm (List.Perm.swap db o stmts)
  · obtain ⟨hdbs, hnd⟩ := List.nodup_cons.1 h.nodup
    refine List.nodup_cons.2 ⟨?_, List.nodup_cons.2 ⟨hnot, hnd⟩⟩
    rw [List.mem_cons, not_or]
    exact ⟨hodb.symm, hdbs⟩
  · intro x hx
    unfold Refs.Alive DbStore.withStmt
    dsimp only
    rcases List.mem_cons.1 hx with rfl | hold
    · rw [Refs.addRef_count_of_ne hodb, Refs.create_count_self, Function.update_self]
      exact ⟨one_pos, n, rfl⟩
    · have hxo : x ≠ o := by
        rintro rfl
        exact hnot hold
      rw [Refs.addRef_count_of_ne (h.ne hold), Refs.create_count_of_ne hxo, Function.update_of_ne hxo]
      exact h.parent x hold
  · rw [DbStore.withStmt, Refs.addRef_faults hdb]
    exact h.faults

/-- references on a statement that stays alive do not matter to the handle -/
theorem Books.stmtRefs (h : Books db s total stmts) {refs : Refs ℕ} (hcount : ∀ x, x ≠ o → refs.count x = s.refs.count x)
    (ho : o ∈ stmts) (halive : refs.Alive o) (hfaults : refs.faults = s.refs.faults) :
    Books db { s with refs := refs } total stmts where
  count := (hcount db (h.ne ho).symm).trans h.count
  objects := h.objects
  nodup := h.nodup
  parent x hx := by
    obtain ⟨hx', hmem⟩ := h.parent x hx
    refine ⟨?_, hmem⟩
    by_cases hxo : x = o
    · rw [hxo]
      exact halive
    · unfold Refs.Alive
      rw [hcount x hxo]
      exact hx'
  nullFollows := h.nullFollows
  faults := hfaults.trans h.faults

theorem Books.addRefStmt (h : Books db s total stmts) (ho : o ∈ stmts) : Books db (s.addRef o) total stmts := by
  have halive := (h.parent o ho).1
  refine h.stmtRefs (fun x hx => Refs.addRef_count_of_ne hx) ho ?_ (Refs.addRef_faults halive)
  unfold Refs.Alive at halive ⊢
  rw [Refs.addRef_count_self]
  omega

theorem Books.releaseStmt_more (h : Books db s total stmts) (ho : o ∈ stmts) (hmore : ¬ s.refs.LastRef o) :
    Books db (stmtRelease connOf o s) total stmts := by
  have hlt : 1 < s.refs.count o := not_le.1 hmore
  rw [stmtRelease_more hlt]
  refine h.stmtRefs (fun x hx => Refs.release_count_of_ne hx) ho ?_ (Refs.release_faults (h.parent o ho).1)
  unfold Refs.Alive
  rw [Refs.release_count_self]
  omega

/-- the last reference on a statement takes its reference on the handle with it -/
theorem Books.releaseStmt_last (h : Books db s (total + 1) stmts) (ho : o ∈ stmts) (hlast : s.refs.LastRef o) :
    Books db (stmtRelease connOf o s) total (stmts.erase o) := by
  obtain ⟨halive, n, hmem⟩ := h.parent o ho
  rw [stmtRelease_last hlast hmem]
  refine Books.dbRelease ?_
  have hnd := (List.nodup_cons.1 h.nodup).2
  refine ⟨?_, ?_, ?_, fun x hx => ?_, h.nullFollows, ?_⟩
  · rw [← h.count]
    exact Refs.release_count_of_ne (h.ne ho).symm
  · have hobjects := h.objects
    rw [aliveObjects, if_neg (by omega)] at hobjects ⊢
    have hperm : ([db] ++ stmts).Perm (o :: ([db] ++ stmts.erase o)) :=
      ((List.perm_cons_erase ho).cons db).trans (List.Perm.swap o db _)
    exact Ledger.owns_put.2 (hobjects.perm hperm)
  · exact h.nodup.sublist (List.Sublist.cons_cons db List.erase_sublist)
  · obtain ⟨hne, hx⟩ := hnd.mem_erase_iff.1 hx
    obtain ⟨hx', hmem'⟩ := h.parent x hx
    refine ⟨?_, hmem'⟩
    unfold Refs.Alive
    rw [Refs.release_count_of_ne hne]
    exact hx'
  · rw [← h.faults]
    exact Refs.release_faults halive

end Balance

/-! ## Steps -/

/-- the statement that a call creates can be compiled -/
def Compiles (db : ℕ) (s : DbRun) : DbOp C → Prop
  | .createStatement q sqlStr => q.alloc.1 = .ok → q.prepare (s.store.handles db).dbConn sqlStr ≠ none
  | .executeInline q sqlStr _ => q.alloc.1 = .ok → q.prepare (s.store.handles db).dbConn sqlStr ≠ none
  | _ => True

section Step

variable {connOf : ℕ → ℕ} {db : ℕ} {s t : DbRun} {errCode : NkErrorCode}

/-- a call that fails to compile its statement has followed `NULL` -/
theorem not_kept_of_follow (h : t.store.nullFollows = s.store.nullFollows + 1) : ¬ StmtsKept db t := by
  intro hkept
  have := hkept.nullFollows
  omega

theorem createStatement_kept (h : StmtsKept db s) (q : StmtCalls) (sqlStr : String) (hext : 0 < s.ext)
    (hfresh : q.alloc.1 = .ok → ¬ s.store.refs.Alive q.alloc.2) :
    StmtsKept db ((DbOp.createStatement q sqlStr : DbOp C).apply connOf db s).2 ↔
      Compiles db s (.createStatement q sqlStr : DbOp C) := by
  obtain ⟨⟨code, o⟩, prepare⟩ := q
  simp only [DbOp.apply, Compiles]
  by_cases hcode : code = .ok
  · subst hcode
    cases hprep : prepare (s.store.handles db).dbConn sqlStr with
    | none =>
      rw [createStatement_noCompile hprep]
      exact iff_of_false (not_kept_of_follow (s := s) rfl) fun h' => h' rfl rfl
    | some n =>
      have hne : o ≠ db := by
        rintro rfl
        exact hfresh rfl (h.alive (by omega))
      rw [createStatement_compiled hne hprep]
      refine iff_of_true ?_ fun _ => Option.some_ne_none n
      exact h.withStmt (by omega) (hfresh rfl) n
  · rw [createStatement_refused hcode]
    exact iff_of_true h fun h' => absurd h' hcode

theorem executeInline_kept (h : StmtsKept db s) (q : StmtCalls) (sqlStr : String) (e : ExecCalls C) (hext : 0 < s.ext)
    (hfresh : q.alloc.1 = .ok → ¬ s.store.refs.Alive q.alloc.2) :
    StmtsKept db ((DbOp.executeInline q sqlStr e).apply connOf db s).2 ↔ Compiles db s (.executeInline q sqlStr e) := by
  obtain ⟨⟨code, o⟩, prepare⟩ := q
  simp only [DbOp.apply, Compiles, executeInline]
  by_cases hcode : code = .ok
  · subst hcode
    cases hprep : prepare (s.store.handles db).dbConn sqlStr with
    | none =>
      rw [createStatement_noCompile hprep]
      exact iff_of_false (not_kept_of_follow (s := s) rfl) fun h' => h' rfl rfl
    | some n =>
      have hne : o ≠ db := by
        rintro rfl
        exact hfresh rfl (h.alive (by omega))
      rw [createStatement_compiled hne hprep]
      refine iff_of_true ?_ fun _ => Option.some_ne_none n
      -- the statement is created and released again
      have hbooks := h.withStmt (by omega) (hfresh rfl) n
      have hlast : (s.store.withStmt o n db).refs.LastRef o := by
        unfold Refs.LastRef DbStore.withStmt
        rw [Refs.addRef_count_of_ne hne, Refs.create_count_self]
      have hrel : Books db (stmtRelease connOf o (s.store.withStmt o n db)) _ _ :=
        hbooks.releaseStmt_last List.mem_cons_self hlast
      rwa [List.erase_cons_head] at hrel
  · rw [createStatement_refused hcode]
    refine iff_of_true ?_ fun h' => absurd h' hcode
    cases code <;> first | exact absurd rfl hcode | exact h

/-- a step keeps the balance if and only if the statement that it creates can be compiled -/
theorem dbStep_kept (h : StmtsKept db s) {o : DbOp C} (hs : dbStep connOf db s o = some (errCode, t)) :
    StmtsKept db t ↔ Compiles db s o := by
  unfold dbStep at hs
  split_ifs at hs with hlegal
  have ht : t = (o.apply connOf db s).2 := (congrArg Prod.snd (Option.some.inj hs)).symm
  subst ht
  cases o with
  | createStatement q sqlStr => exact createStatement_kept h q sqlStr hlegal.1 hlegal.2
  | executeInline q sqlStr e => exact executeInline_kept h q sqlStr e hlegal.1 hlegal.2
  | execute stmt e => exact iff_of_true h trivial
  | addRef =>
    have hpos : 0 < s.ext := hlegal
    refine iff_of_true ?_ trivial
    have hbooks := Books.addRef h (by omega)
    have heq : s.ext + s.stmts.length + 1 = s.ext + 1 + s.stmts.length := by omega
    rwa [heq] at hbooks
  | release =>
    have hpos : 0 < s.ext := hlegal
    refine iff_of_true ?_ trivial
    have heq : s.ext + s.stmts.length = s.ext - 1 + s.stmts.length + 1 := by omega
    have hbooks : Books db s.store (s.ext - 1 + s.stmts.length + 1) s.stmts := heq ▸ h
    exact hbooks.dbRelease
  | addRefStmt stmt => exact iff_of_true (Books.addRefStmt h hlegal) trivial
  | releaseStmt stmt =>
    have hmem : stmt ∈ s.stmts := hlegal
    refine iff_of_true ?_ trivial
    unfold StmtsKept DbOp.apply
    dsimp only
    split_ifs with hlast
    · have hlen := List.length_erase_of_mem hmem
      have hpos := List.length_pos_of_mem hmem
      have heq : s.ext + s.stmts.length = s.ext + (s.stmts.erase stmt).length + 1 := by omega
      have hbooks : Books db s.store (s.ext + (s.stmts.erase stmt).length + 1) s.stmts := heq ▸ h
      exact hbooks.releaseStmt_last hmem hlast
    · exact Books.releaseStmt_more h hmem hlast

end Step

/-- in every run the balance is kept throughout if and only if every statement that is created can be compiled -/
theorem statements_run_iff (connOf : ℕ → ℕ) (db : ℕ) (s : DbRun) (ops : List (DbOp C)) (h : StmtsKept db s) :
    EachStep (dbStep connOf db) (fun _ _ _ t => StmtsKept db t) s ops ↔
      EachStep (dbStep connOf db) (fun s o _ _ => Compiles db s o) s ops := by
  refine eachStep_iff ?_ ?_ h ops
  · intro s o errCode t hkept hs
    exact dbStep_kept hkept hs
  · intro s o errCode t _ _ hkept
    exact hkept

/-- a new handle at 1 with an open connection and the reference of its creator -/
def newRun : DbRun where
  store :=
    { refs := ⟨fun o => if o = 1 then 1 else 0, fun _ => 0, 0⟩
      stmts := fun _ => ⟨none, none⟩
      handles := fun _ => ⟨some 7, modeReadWrite, ⟨[7], []⟩⟩
      native := []
      objects := ⟨[1], []⟩
      nullFollows := 0 }
  ext := 1
  stmts := []

theorem newRun_kept : StmtsKept 1 newRun :=
  ⟨rfl, List.Perm.refl _, List.nodup_singleton 1, fun _ hx => absurd hx List.not_mem_nil, rfl, rfl⟩

/-- the answers for a statement at `o` that is compiled to 20 -/
def compiled (o : ℕ) : StmtCalls := ⟨(.ok, o), fun _ _ => some 20⟩

/-- a statement outlives the last outside reference on its handle -/
theorem statements_run_outlived : EachStep (dbStep (C := Unit) (fun _ => 7) 1) (fun _ _ _ t => StmtsKept 1 t) newRun
    [.createStatement (compiled 2) "SELECT 1", .release, .releaseStmt 2] := by
  refine (statements_run_iff _ 1 newRun _ newRun_kept).2 ?_
  intro r t hs
  refine ⟨fun _ => Option.some_ne_none 20, fun r t hs => ⟨trivial, fun r t hs => ⟨trivial, trivial⟩⟩⟩

/-- the only call of the run fails to compile its statement -/
theorem uncompiled_follows_null : ∃ t, dbStep (C := Unit) (fun _ => 7) 1 newRun
      (.createStatement ⟨(.ok, 2), fun _ _ => none⟩ "SELEC") = some (.compileSqlStatement, t) ∧
    t.store.nullFollows = 1 ∧
    ¬ EachStep (dbStep (C := Unit) (fun _ => 7) 1) (fun _ _ _ t => StmtsKept 1 t) newRun
      [.createStatement ⟨(.ok, 2), fun _ _ => none⟩ "SELEC"] := by
  refine ⟨_, rfl, rfl, fun h => ?_⟩
  exact absurd (h _ _ rfl).1.nullFollows (by decide)

end Noriko.Db
