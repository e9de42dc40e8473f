/-
Binding of parameters (`__NkInt_Sqlite3Stmt_Bind`, `__NkInt_Sqlite3Stmt_Unbind` of `db.c`, `__NkInt_AssetManager_QueryAsset`
of `asset.c`), with the functions of the vendored `sqlite3.c` that they call.

An `int` index is given by its 32 bits, which is all that SQLite looks at. Memory for the copies that SQLite makes is there,
and the database has the encoding UTF-8.

SQLite counts parameters from 1, the check for a valid index is made for indices from 0. It lets 0 and negative indices
pass, which SQLite refuses by itself, and it refuses the last parameter. SQLite itself refuses every parameter of a statement
that was stepped and not reset. All others are bound and unbound as they should be (`bind_exact_iff`), and the query for an
asset, which has one parameter, is always executed without it.
-/
import Noriko.Db.Execute
import Noriko.Lib.CString
import Noriko.Variant

namespace Noriko.Bind

open Lib Variant

/-! ## SQLite -/

/-- a prepared statement: whether it is ready, which is so until it is stepped and after it is reset, and the values of its
parameters, no more than `SQLITE_MAX_VARIABLE_NUMBER` -/
structure Vdbe where
  ready : Bool
  aVar : List Db.Column
  count : aVar.length ≤ 32766

def Vdbe.setVar (p : Vdbe) (i : ℕ) (v : Db.Column) : Vdbe where
  ready := p.ready
  aVar := p.aVar.set i v
  count := by
    rw [List.length_set]
    exact p.count

/-- `vdbeUnbind`, if it succeeds -/
def vdbeUnbind (p : Vdbe) (i : UInt32) : Option Vdbe :=
  if p.ready = false then none
  else if p.aVar.length ≤ i.toNat then none
  else some (p.setVar i.toNat .null)

/-- the frame of the functions that bind a value -/
def bindVar (p : Vdbe) (i : UInt32) (v : Db.Column) : Vdbe :=
  match vdbeUnbind p (i - 1) with
  | none => p
  | some q => q.setVar (i - 1).toNat v

/-- `sqlite3_bind_int64` -/
def sqlite3BindInt64 (p : Vdbe) (i : UInt32) (iValue : ℤ) : Vdbe := bindVar p i (.integer iValue)

/-- what `sqlite3VdbeMemSetDouble` stores: NaN is `NULL` -/
def doubleValue (rValue : UInt64) : Db.Column := if binary64 rValue.toNat = .nan then .null else .float rValue

/-- `sqlite3_bind_double` -/
def sqlite3BindDouble (p : Vdbe) (i : UInt32) (rValue : UInt64) : Vdbe := bindVar p i (doubleValue rValue)

/-- `sqlite3_bind_null` -/
def sqlite3BindNull (p : Vdbe) (i : UInt32) : Vdbe := bindVar p i .null

/-- the value of data that are no longer than the limit; longer ones are `SQLITE_TOOBIG` -/
def textValue (limit : ℕ) (make : List UInt8 → Db.Column) : Option (List UInt8) → Option Db.Column
  | none => some .null
  | some zData => if limit < zData.length then none else some (make zData)

/-- `bindText`; data that are too long leave `NULL` -/
def bindText (limit : ℕ) (make : List UInt8 → Db.Column) (p : Vdbe) (i : UInt32) (zData : Option (List UInt8)) : Vdbe :=
  bindVar p i ((textValue limit make zData).getD .null)

/-- `sqlite3_bind_text64` -/
def sqlite3BindText64 (limit : ℕ) (p : Vdbe) (i : UInt32) (zData : Option (List UInt8)) : Vdbe :=
  bindText limit .text p i zData

/-- `sqlite3_bind_blob64` -/
def sqlite3BindBlob64 (limit : ℕ) (p : Vdbe) (i : UInt32) (zData : Option (List UInt8)) : Vdbe :=
  bindText limit .blob p i zData

/-! ## The code -/

/-- `__NkInt_Sqlite3Stmt_IsValidParamIndex` -/
def isValidParamIndex (p : Vdbe) (index : UInt32) : Bool := index.toInt32.toInt < p.aVar.length

/-- the union `varVal`, zero before the value is copied to it -/
def varVal (var : NkVariant) : List UInt8 := (variantGet var).2 ++ List.replicate (16 - (variantGet var).2.length) 0

/-- `varVal.m_i64Val` -/
def i64Val (l : List UInt8) : ℤ := (UInt64.ofNat (leNat (l.take 8))).toInt64.toInt

/-- `varVal.m_dblVal` -/
def dblVal (l : List UInt8) : UInt64 := UInt64.ofNat (leNat (l.take 8))

/-- the data of `varVal.m_strVal` or `varVal.m_bufVal` -/
def viewVal (mem : ℕ → UInt8) (l : List UInt8) : Option (List UInt8) :=
  if leNat (l.take 8) = 0 then none else some (cells mem (leNat (l.take 8)) (leNat ((l.drop 8).take 8)))

/-- `__NkInt_Sqlite3Stmt_Unbind` -/
def stmtUnbind (p : Vdbe) (index : UInt32) : Vdbe := if isValidParamIndex p index then sqlite3BindNull p index else p

/-- `__NkInt_Sqlite3Stmt_Bind` -/
def stmtBind (mem : ℕ → UInt8) (limit : ℕ) (p : Vdbe) (index : UInt32) (var : NkVariant) : Vdbe :=
  if isValidParamIndex p index then
    match (variantGet var).1 with
    | .int8 | .int16 | .int32 | .int64 | .uint8 | .uint16 | .uint32 | .uint64 | .boolean =>
      sqlite3BindInt64 p index (i64Val (varVal var))
    | .stringView => sqlite3BindText64 limit p index (viewVal mem (varVal var))
    | .double | .float => sqlite3BindDouble p index (dblVal (varVal var))
    | .uuid => sqlite3BindBlob64 limit p index (some (varVal var))
    | .bufferView => sqlite3BindBlob64 limit p index (viewVal mem (varVal var))
    | .none => stmtUnbind p index
    | _ => p
  else p

/-- `__NkInt_AssetManager_QueryAsset`: the statement that is executed, if the asset is not in the cache, and the statement
afterwards; `execute` is what the execution leaves of it -/
def queryAsset (mem : ℕ → UInt8) (limit : ℕ) (cached : Bool) (execute : Vdbe → Vdbe) (p : Vdbe) (paramVar : NkVariant)
    (assetId : NkUuid) : Option Vdbe × Vdbe :=
  if cached then (none, p)
  else
    let bound := stmtBind mem limit p 1 (variantSet paramVar (.uuid assetId))
    (some bound, stmtUnbind (execute bound) 1)

/-! ## What is right -/

/-- the value that a variant is bound as, if it is of a type that can be bound and not too long -/
def sqlValue (mem : ℕ → UInt8) (limit : ℕ) (var : NkVariant) : Option Db.Column :=
  match var.type with
  | .int8 | .int16 | .int32 | .int64 | .uint8 | .uint16 | .uint32 | .uint64 | .boolean => some (.integer (i64Val (varVal var)))
  | .stringView => textValue limit .text (viewVal mem (varVal var))
  | .double | .float => some (doubleValue (dblVal (varVal var)))
  | .uuid => textValue limit .blob (some (varVal var))
  | .bufferView => textValue limit .blob (viewVal mem (varVal var))
  | .none => some .null
  | _ => none

/-- an index of one of `n` parameters -/
def IsParam (n : ℕ) (index : UInt32) : Prop := 1 ≤ index.toNat ∧ index.toNat ≤ n

instance (n : ℕ) (index : UInt32) : Decidable (IsParam n index) := inferInstanceAs (Decidable (_ ∧ _))

/-- the parameters after a value was bound to one of them -/
def boundVars (vars : List Db.Column) (index : UInt32) (v : Db.Column) : List Db.Column :=
  if IsParam vars.length index then vars.set (index.toNat - 1) v else vars

/-- on every statement with `n` parameters that is ready or not, a variant with value `v` is bound to parameter `index` and
unbound -/
structure BindExact (mem : ℕ → UInt8) (limit n : ℕ) (ready : Bool) (index : UInt32) (var : NkVariant) (v : Db.Column) :
    Prop where
  bind : ∀ p : Vdbe, p.ready = ready → p.aVar.length = n → (stmtBind mem limit p index var).aVar = boundVars p.aVar index v
  unbind : ∀ p : Vdbe, p.ready = ready → p.aVar.length = n → (stmtUnbind p index).aVar = boundVars p.aVar index .null
  restore : ∀ p : Vdbe, p.ready = ready → p.aVar.length = n →
    (stmtUnbind (stmtBind mem limit p index var) index).aVar = boundVars p.aVar index .null

/-- the index is no parameter, or it is one before the last and the statement is ready -/
def Reachable (n : ℕ) (ready : Bool) (index : UInt32) : Prop := ¬ IsParam n index ∨ ready = true ∧ index.toNat ≠ n

instance (n : ℕ) (ready : Bool) (index : UInt32) : Decidable (Reachable n ready index) :=
  inferInstanceAs (Decidable (_ ∨ _))

/-! ## Indices -/

section Index

variable {p : Vdbe} {index : UInt32} {v : Db.Column}

theorem toNat_pred (h : 1 ≤ index.toNat) : (index - 1).toNat = index.toNat - 1 := by
  have hle : (1 : UInt32) ≤ index := UInt32.le_iff_toNat_le.2 h
  rw [UInt32.toNat_sub_of_le _ _ hle]
  rfl

/-- the indices from 1 on are those of the values -/
theorem not_lt_pred (hparam : ¬ IsParam p.aVar.length index) : p.aVar.length ≤ (index - 1).toNat := by
  have hcount := p.count
  by_cases h0 : 1 ≤ index.toNat
  · have hout : ¬ index.toNat ≤ p.aVar.length := fun hle => hparam ⟨h0, hle⟩
    rw [toNat_pred h0]
    omega
  · -- index 0 is the largest number, less 1
    have hzero : index = 0 := UInt32.toNat.inj (by simpa using h0)
    have hmax : (index - 1).toNat = 2 ^ 32 - 1 := by
      rw [hzero]
      rfl
    omega

/-- SQLite accepts the parameters of a statement that is ready -/
theorem bindVar_eq (p : Vdbe) (index : UInt32) (v : Db.Column) : bindVar p index v =
    if p.ready = true ∧ IsParam p.aVar.length index then p.setVar (index.toNat - 1) v else p := by
  unfold bindVar vdbeUnbind
  by_cases hready : p.ready = true
  · by_cases hparam : IsParam p.aVar.length index
    · have hlow := hparam.1
      have hhigh := hparam.2
      rw [if_neg (by rw [hready]; decide), toNat_pred hlow, if_neg (by omega), if_pos ⟨hready, hparam⟩]
      simp only [Vdbe.setVar, List.set_set]
    · rw [if_neg (by rw [hready]; decide), if_pos (not_lt_pred hparam), if_neg fun hall => hparam hall.2]
  · rw [if_pos (Bool.eq_false_of_not_eq_true hready), if_neg fun hall => hready hall.1]

theorem bindVar_ready (p : Vdbe) (index : UInt32) (v : Db.Column) : (bindVar p index v).ready = p.ready := by
  rw [bindVar_eq]
  split_ifs
  · rfl
  · rfl

theorem toInt_of_lt (h : index.toNat < 2 ^ 31) : index.toInt32.toInt = index.toNat := by
  have hbits : 2 * index.toBitVec.toNat < 2 ^ 32 := by
    have hnat : index.toBitVec.toNat = index.toNat := rfl
    omega
  exact BitVec.toInt_eq_toNat_of_lt hbits

/-- of the parameters, only the last one is refused -/
theorem isValid_iff (hparam : IsParam p.aVar.length index) : isValidParamIndex p index = true ↔ index.toNat ≠ p.aVar.length := by
  have hcount := p.count
  have hle := hparam.2
  unfold isValidParamIndex
  rw [toInt_of_lt (by omega), decide_eq_true_eq]
  omega

theorem stmtBind_eq {mem : ℕ → UInt8} {limit : ℕ} {var : NkVariant} (hv : sqlValue mem limit var = some v) (p : Vdbe)
    (index : UInt32) : stmtBind mem limit p index var = if isValidParamIndex p index then bindVar p index v else p := by
  unfold stmtBind
  by_cases hvalid : isValidParamIndex p index = true
  · rw [if_pos hvalid, if_pos hvalid]
    have htext : ∀ {make : List UInt8 → Db.Column} {zData : Option (List UInt8)}, textValue limit make zData = some v →
        bindText limit make p index zData = bindVar p index v := by
      intro make zData h
      rw [bindText, h]
      rfl
    have htype : (variantGet var).1 = var.type := rfl
    unfold sqlValue at hv
    rw [htype]
    cases hty : var.type with
    | int8 | int16 | int32 | int64 | uint8 | uint16 | uint32 | uint64 | boolean | double | float =>
      rw [hty] at hv
      cases hv
      rfl
    | stringView | bufferView | uuid =>
      rw [hty] at hv
      exact htext hv
    | none =>
      rw [hty] at hv
      cases hv
      exact if_pos hvalid
    | char | errorCode | pointer | vector | hashtable | timer | nkOMObject =>
      rw [hty] at hv
      cases hv
  · rw [if_neg hvalid, if_neg hvalid]

theorem stmtBind_ready {mem : ℕ → UInt8} {limit : ℕ} {var : NkVariant} (hv : sqlValue mem limit var = some v) (p : Vdbe)
    (index : UInt32) : (stmtBind mem limit p index var).ready = p.ready := by
  rw [stmtBind_eq hv]
  split_ifs
  · exact bindVar_ready p index v
  · rfl

/-- the checks let a value through where it belongs -/
theorem checked_eq (h : Reachable p.aVar.length p.ready index) (v : Db.Column) :
    (if isValidParamIndex p index then bindVar p index v else p).aVar = boundVars p.aVar index v := by
  rw [bindVar_eq, boundVars]
  by_cases hparam : IsParam p.aVar.length index
  · obtain ⟨hready, hlast⟩ := h.resolve_left (not_not.2 hparam)
    rw [if_pos ((isValid_iff hparam).2 hlast), if_pos ⟨hready, hparam⟩, if_pos hparam]
    rfl
  · rw [if_neg (fun hall : p.ready = true ∧ _ => hparam hall.2), if_neg hparam, ite_self]

/-- a parameter that is refused keeps its value -/
theorem checked_refused (h : ¬ Reachable p.aVar.length p.ready index) (v : Db.Column) :
    (if isValidParamIndex p index then bindVar p index v else p) = p := by
  unfold Reachable at h
  push Not at h
  obtain ⟨hparam, hlast⟩ := h
  by_cases hready : p.ready = true
  · have hinvalid : ¬ isValidParamIndex p index = true := fun hvalid => (isValid_iff hparam).1 hvalid (hlast hready)
    rw [if_neg hinvalid]
  · rw [bindVar_eq, if_neg (fun hall : p.ready = true ∧ _ => hready hall.1), ite_self]

theorem boundVars_twice (vars : List Db.Column) (index : UInt32) (v w : Db.Column) :
    boundVars (boundVars vars index v) index w = boundVars vars index w := by
  unfold boundVars
  by_cases hparam : IsParam vars.length index
  · simp only [if_pos hparam, List.length_set, List.set_set]
  · simp only [if_neg hparam]

theorem length_boundVars (vars : List Db.Column) (index : UInt32) (v : Db.Column) :
    (boundVars vars index v).length = vars.length := by
  unfold boundVars
  split_ifs
  · exact List.length_set
  · rfl

end Index

/-! ## Parameters -/

section Params

variable {mem : ℕ → UInt8} {limit n : ℕ} {index : UInt32} {var : NkVariant} {v : Db.Column}

theorem bindExact_of_reachable {ready : Bool} (hv : sqlValue mem limit var = some v) (h : Reachable n ready index) :
    BindExact mem limit n ready index var v := by
  have hbind : ∀ p : Vdbe, p.ready = ready → p.aVar.length = n →
      (stmtBind mem limit p index var).aVar = boundVars p.aVar index v := by
    rintro p rfl rfl
    rw [stmtBind_eq hv]
    exact checked_eq h v
  have hunbind : ∀ p : Vdbe, p.ready = ready → p.aVar.length = n →
      (stmtUnbind p index).aVar = boundVars p.aVar index .null := by
    rintro p rfl rfl
    exact checked_eq h .null
  refine ⟨hbind, hunbind, fun p hready hlen => ?_⟩
  have hbound := hbind p hready hlen
  have hready' := (stmtBind_ready hv p index).trans hready
  have hlen' : (stmtBind mem limit p index var).aVar.length = n := by
    rw [hbound, length_boundVars, hlen]
  rw [hunbind _ hready' hlen', hbound, boundVars_twice]

theorem not_bindExact {ready : Bool} (hv : sqlValue mem limit var = some v) (hmax : n ≤ 32766)
    (h : ¬ Reachable n ready index) : ¬ BindExact mem limit n ready index var v := by
  intro hexact
  -- a statement whose parameters have another value
  obtain ⟨w, hw⟩ : ∃ w : Db.Column, w ≠ v := by
    by_cases hnull : v = .null
    · exact ⟨.integer 0, by rw [hnull]; exact Db.Column.noConfusion⟩
    · exact ⟨.null, fun heq => hnull heq.symm⟩
  have hlen : (List.replicate n w).length = n := List.length_replicate
  have hparam : IsParam n index := not_not.1 fun hno => h (Or.inl hno)
  have hlow := hparam.1
  have hhigh := hparam.2
  have hrefused : ¬ Reachable (List.replicate n w).length ready index := by rwa [hlen]
  have hset : boundVars (List.replicate n w) index v = (List.replicate n w).set (index.toNat - 1) v :=
    if_pos (by rwa [hlen])
  have hbind := hexact.bind ⟨ready, List.replicate n w, hlen.le.trans hmax⟩ rfl hlen
  rw [stmtBind_eq hv, checked_refused hrefused, hset] at hbind
  have hcell := congrArg (fun l => l[index.toNat - 1]?) hbind
  simp only [List.getElem?_replicate, List.getElem?_set, hlen] at hcell
  rw [if_pos (by omega), if_pos trivial, if_pos (by omega)] at hcell
  exact hw (Option.some.inj hcell)

/-- the query for an asset is executed with its parameter as it was -/
theorem queryAsset_unbound (mem : ℕ → UInt8) (limit : ℕ) (execute : Vdbe → Vdbe) {p : Vdbe} (hone : p.aVar.length = 1)
    (paramVar : NkVariant) (assetId : NkUuid) : (queryAsset mem limit false execute p paramVar assetId).1 = some p := by
  have hparam : IsParam p.aVar.length 1 := by
    rw [hone]
    decide
  have hinvalid : ¬ isValidParamIndex p 1 = true := fun hvalid => (isValid_iff hparam).1 hvalid hone.symm
  exact congrArg some (if_neg hinvalid)

end Params

/-- parameters are bound and unbound as they should be exactly if the index is none, or not the last one and the statement is
ready; the query for an asset is executed with its parameter as it was -/
theorem bind_exact_iff {mem : ℕ → UInt8} {limit n : ℕ} {ready : Bool} {index : UInt32} {var : NkVariant} {v : Db.Column}
    (hv : sqlValue mem limit var = some v) (hmax : n ≤ 32766) :
    (BindExact mem limit n ready index var v ↔ Reachable n ready index) ∧
      ∀ (execute : Vdbe → Vdbe) (p : Vdbe) (paramVar : NkVariant) (assetId : NkUuid), p.aVar.length = 1 →
        (queryAsset mem limit false execute p paramVar assetId).1 = some p :=
  ⟨⟨fun h => not_not.1 fun hno => not_bindExact hv hmax hno h, bindExact_of_reachable hv⟩,
    fun execute _ paramVar assetId hone => queryAsset_unbound mem limit execute hone paramVar assetId⟩

/-- a variant with zeros -/
def zeroVar : NkVariant := ⟨.none, Uuid.zeroUuid.asByte, Uuid.zeroUuid.size⟩

/-- the first of two parameters is bound to 5 -/
theorem bind_exact_first : BindExact (fun _ => 0) 1000000000 2 true 1 (variantSet zeroVar (.int64 5)) (.integer 5) :=
  (@bind_exact_iff (fun _ => 0) 1000000000 2 true 1 (variantSet zeroVar (.int64 5)) (.integer 5) (by decide) (by decide)).1.2
    (by decide)

/-- the only parameter of a statement is not bound, so the query for an asset is executed with `NULL` -/
theorem bind_last_lost :
    ¬ BindExact (fun _ => 0) 1000000000 1 true 1 (variantSet zeroVar (.int64 5)) (.integer 5) ∧
      (queryAsset (fun _ => 0) 1000000000 false id ⟨true, [.null], by decide⟩ zeroVar Uuid.zeroUuid).1.map Vdbe.aVar =
        some [.null] :=
  ⟨not_bindExact (by decide) (by decide) (by decide), by
    rw [queryAsset_unbound _ _ _ rfl]
    rfl⟩

end Noriko.Bind
