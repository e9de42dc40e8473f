/-
Numbers that are bound (`__NkInt_Sqlite3Stmt_Bind` of `db.c`, `NkVariantSet` and `NkVariantGet` of `util.c`).

The value of a variant is copied to a union of zeros, with the size of its type, and the 64-bit integer or the `double` is
taken from there. A negative integer of fewer bytes loses its sign on the way, and of a `float`, which the variant holds as a
`double`, only the lower half is copied. So a number keeps its value exactly if it is no negative integer of less than 64
bits and no `float` other than zero (`bound_number_iff`).
-/
import Noriko.Db.Bind

namespace Noriko.Bind

open Lib Variant

/-! ## What is right -/

inductive SqlNumber where
  | integer (v : ℤ)
  | real (x : FloatNum)
deriving DecidableEq

/-- the number that is stored in a variant -/
def number : Value → Option SqlNumber
  | .boolean v => some (.integer v.toNat)
  | .int8 v => some (.integer v.toInt)
  | .int16 v => some (.integer v.toInt)
  | .int32 v => some (.integer v.toInt)
  | .int64 v => some (.integer v.toInt)
  | .uint8 v => some (.integer v.toNat)
  | .uint16 v => some (.integer v.toNat)
  | .uint32 v => some (.integer v.toNat)
  | .uint64 v => some (.integer v.toNat)
  | .float bits => some (.real (binary32 bits.toNat))
  | .double bits => some (.real (binary64 bits.toNat))
  | _ => none

/-- a number of the SQL types: an integer of 64 bits with sign, or anything but NaN -/
def Representable : SqlNumber → Prop
  | .integer v => -2 ^ 63 ≤ v ∧ v < 2 ^ 63
  | .real x => x ≠ .nan

instance : (n : SqlNumber) → Decidable (Representable n)
  | .integer _ => inferInstanceAs (Decidable (_ ∧ _))
  | .real _ => inferInstanceAs (Decidable (_ ≠ _))

/-- the number that a parameter has -/
def columnNumber : Db.Column → Option SqlNumber
  | .integer v => some (.integer v)
  | .float bits => some (.real (binary64 bits.toNat))
  | _ => none

/-- for every index that passes the check and is one of a parameter, the parameter is bound to the number `n` -/
def BoundAs (x : Value) (n : SqlNumber) : Prop :=
  ∀ (mem : ℕ → UInt8) (limit : ℕ) (var : NkVariant) (p : Vdbe) (index : UInt32), p.ready = true → 1 ≤ index.toNat →
    index.toNat < p.aVar.length → ∃ c, (stmtBind mem limit p index (variantSet var x)).aVar[index.toNat - 1]? = some c ∧
      columnNumber c = some n

/-- no negative integer of less than 64 bits, and no `float` other than zero -/
def KeepsNumber : Value → Prop
  | .int8 v => 0 ≤ v.toInt
  | .int16 v => 0 ≤ v.toInt
  | .int32 v => 0 ≤ v.toInt
  | .float bits => binary32 bits.toNat = .val 0
  | _ => True

/-! ## The union -/

section Union

/-- the first 8 bytes of the union that a number of `k` bytes was copied to -/
theorem take_pad {k : ℕ} (hk : k ≤ 8) (v : ℕ) :
    leNat ((le k v ++ List.replicate (16 - k) 0).take 8) = v % 256 ^ k := by
  have htake : (le k v ++ List.replicate (16 - k) (0 : UInt8)).take 8 = le k v ++ List.replicate (8 - k) 0 := by
    rw [List.take_append, length_le, List.take_of_length_le (by rw [length_le]; exact hk), List.take_replicate]
    congr 2
    omega
  rw [htake, leNat_append_zeros, leNat_le]

theorem varVal_set (var : NkVariant) (x : Value) :
    varVal (variantSet var x) = (assigned x).take (variantGetTypeSize x.type) ++
      List.replicate (16 - variantGetTypeSize x.type) 0 := by
  have hlen : ((assigned x).take (variantGetTypeSize x.type)).length = variantGetTypeSize x.type :=
    List.length_take_of_le (typeSize_le_assigned x)
  rw [varVal, variantGet_set, hlen]

/-- the union after a number other than a `float` was copied to it -/
theorem take_varVal (var : NkVariant) {x : Value} {k v : ℕ} (hk : k ≤ 8) (hbytes : x.bytes = le k v)
    (hfloat : ∀ bits, x ≠ .float bits) : leNat ((varVal (variantSet var x)).take 8) = v % 256 ^ k := by
  have hsize : variantGetTypeSize x.type = k := by
    rw [← length_bytes, hbytes, length_le]
  rw [varVal_set, take_assigned hfloat, hbytes, hsize, take_pad hk]

theorem take_varVal_float (var : NkVariant) (bits : UInt32) :
    leNat ((varVal (variantSet var (.float bits))).take 8) = widen bits.toNat % 2 ^ 32 := by
  rw [varVal_set, take_assigned_float]
  exact take_pad (by decide) _

theorem i64Val_small {l : List UInt8} (h : leNat (l.take 8) < 2 ^ 63) : i64Val l = leNat (l.take 8) := by
  have hnat : (UInt64.ofNat (leNat (l.take 8))).toBitVec.toNat = leNat (l.take 8) := by
    show (UInt64.ofNat (leNat (l.take 8))).toNat = _
    rw [UInt64.toNat_ofNat']
    exact Nat.mod_eq_of_lt (by omega)
  have hint := @BitVec.toInt_eq_toNat_of_lt 64 (UInt64.ofNat (leNat (l.take 8))).toBitVec (by rw [hnat]; omega)
  rw [hnat] at hint
  exact hint

theorem ofNat_toNat {w : ℕ} (x : BitVec w) : (x.toNat : ℤ) = x.toInt ↔ 0 ≤ x.toInt := by
  have hlt := x.isLt
  rw [BitVec.toInt_eq_toNat_cond]
  split_ifs <;> omega

end Union

/-! ## Parameters -/

section Params

variable {x : Value} {n : SqlNumber} {v : Db.Column}

/-- a value is bound as the number of the column that it becomes -/
theorem boundAs_iff (hv : ∀ mem limit var, sqlValue mem limit (variantSet var x) = some v) :
    BoundAs x n ↔ columnNumber v = some n := by
  have hcell : ∀ mem limit var (p : Vdbe) (index : UInt32), p.ready = true → 1 ≤ index.toNat → index.toNat < p.aVar.length →
      (stmtBind mem limit p index (variantSet var x)).aVar[index.toNat - 1]? = some v := by
    intro mem limit var p index hready h1 hlt
    have hparam : IsParam p.aVar.length index := ⟨h1, hlt.le⟩
    rw [stmtBind_eq (hv mem limit var), checked_eq (Or.inr ⟨hready, hlt.ne⟩), boundVars, if_pos hparam]
    exact List.getElem?_set_self (by omega)
  constructor
  · intro h
    obtain ⟨c, hc, hnum⟩ := h (fun _ => 0) 0 zeroVar ⟨true, [.null, .null], by decide⟩ 1 rfl (le_refl 1) (by decide)
    rw [hcell _ _ _ _ _ rfl (le_refl 1) (by decide)] at hc
    rw [Option.some.inj hc]
    exact hnum
  · intro hnum mem limit var p index hready h1 hlt
    exact ⟨v, hcell mem limit var p index hready h1 hlt, hnum⟩

/-- an integer is bound as the number of its bytes -/
theorem boundAs_bytes {k m : ℕ} {i : ℤ} (hk : k ≤ 8) (hbytes : x.bytes = le k m) (hm : m < 256 ^ k) (hsmall : m < 2 ^ 63)
    (hfloat : ∀ bits, x ≠ .float bits)
    (hv : ∀ mem limit var, sqlValue mem limit (variantSet var x) = some (.integer (i64Val (varVal (variantSet var x))))) :
    BoundAs x (.integer i) ↔ (m : ℤ) = i := by
  have hval : ∀ var, i64Val (varVal (variantSet var x)) = m := by
    intro var
    have htake := take_varVal var hk hbytes hfloat
    rw [Nat.mod_eq_of_lt hm] at htake
    rw [i64Val_small (by rw [htake]; exact hsmall), htake]
  have hv' : ∀ mem limit var, sqlValue mem limit (variantSet var x) = some (.integer (m : ℤ)) := by
    intro mem limit var
    rw [hv, hval]
  rw [boundAs_iff hv']
  simp [columnNumber]

theorem boundAs_int64 (i : Int64) : BoundAs (.int64 i) (.integer i.toInt) := by
  have hval : ∀ var, i64Val (varVal (variantSet var (.int64 i))) = i.toInt := by
    intro var
    have htake := @take_varVal var (.int64 i) 8 i.toUInt64.toNat (le_refl 8) rfl fun _ => Value.noConfusion
    have hlt : i.toUInt64.toNat < 256 ^ 8 := i.toUInt64.toNat_lt
    rw [Nat.mod_eq_of_lt hlt] at htake
    rw [i64Val, htake, UInt64.ofNat_toNat]
    rfl
  refine (@boundAs_iff (.int64 i) (.integer i.toInt) (.integer i.toInt) fun mem limit var => ?_).2 rfl
  show some (Db.Column.integer (i64Val (varVal (variantSet var (.int64 i))))) = _
  rw [hval]

theorem boundAs_double {bits : UInt64} (h : binary64 bits.toNat ≠ .nan) :
    BoundAs (.double bits) (.real (binary64 bits.toNat)) := by
  have hval : ∀ var, dblVal (varVal (variantSet var (.double bits))) = bits := by
    intro var
    have htake := @take_varVal var (.double bits) 8 bits.toNat (le_refl 8) rfl fun _ => Value.noConfusion
    have hlt : bits.toNat < 256 ^ 8 := bits.toNat_lt
    rw [Nat.mod_eq_of_lt hlt] at htake
    rw [dblVal, htake, UInt64.ofNat_toNat]
  refine (@boundAs_iff (.double bits) _ (.float bits) fun mem limit var => ?_).2 rfl
  show some (doubleValue (dblVal (varVal (variantSet var (.double bits))))) = _
  rw [hval, doubleValue, if_neg h]

/-- of a `float`, a subnormal number of double precision is bound -/
theorem boundAs_float_iff (bits : UInt32) :
    BoundAs (.float bits) (.real (binary32 bits.toNat)) ↔ binary32 bits.toNat = .val 0 := by
  set h := widen bits.toNat % 2 ^ 32 with hh
  have hlt : h < 2 ^ 32 := Nat.mod_lt _ (Nat.two_pow_pos 32)
  have hnat : (UInt64.ofNat h).toNat = h := by
    rw [UInt64.toNat_ofNat']
    exact Nat.mod_eq_of_lt (by omega)
  have hsmall : binary64 h = .val (h * 2 ^ (-1074 : ℤ)) := binary64_small (by omega)
  have hbound : ∀ mem limit var, sqlValue mem limit (variantSet var (.float bits)) = some (.float (UInt64.ofNat h)) := by
    intro mem limit var
    show some (doubleValue (dblVal (varVal (variantSet var (.float bits))))) = _
    rw [dblVal, take_varVal_float, doubleValue, if_neg]
    rw [← hh, hnat, hsmall]
    exact FloatNum.noConfusion
  rw [boundAs_iff hbound]
  simp only [columnNumber, hnat, hsmall, Option.some.injEq, SqlNumber.real.injEq]
  constructor
  · intro heq
    by_contra hne
    have hnum : binary32 bits.toNat = .val (h * 2 ^ (-1074 : ℤ)) := heq.symm
    have hq : (h * 2 ^ (-1074 : ℤ) : ℚ) ≠ 0 := fun h0 => hne (by rw [hnum, h0])
    -- the least number of single precision is larger
    have hle := le_binary32 hnum hq
    have hltq : (h : ℚ) < 2 ^ 32 := by exact_mod_cast hlt
    have habove : (h * 2 ^ (-1074 : ℤ) : ℚ) < 2 ^ (-149 : ℤ) := calc
      (h * 2 ^ (-1074 : ℤ) : ℚ) < 2 ^ 32 * 2 ^ (-1074 : ℤ) := mul_lt_mul_of_pos_right hltq (by positivity)
      _ = 2 ^ (-1042 : ℤ) := by
        rw [← zpow_natCast, ← zpow_add₀ two_ne_zero]
        rfl
      _ ≤ 2 ^ (-149 : ℤ) := zpow_le_zpow_right₀ one_le_two (by decide)
    rw [abs_of_nonneg (by positivity)] at hle
    exact absurd habove hle.not_gt
  · intro hzero
    obtain ⟨hexp, hman⟩ := binary32_eq_zero hzero
    have hh0 : h = 0 := by
      rw [hh, widen, hexp, hman, if_neg (by decide), if_pos rfl, if_pos rfl, pack64]
      omega
    rw [hh0, hzero]
    simp

end Params

/-- a number is bound as it is exactly if it is no negative integer of less than 64 bits and no `float` other than zero -/
theorem bound_number_iff {x : Value} {n : SqlNumber} (hn : number x = some n) (hrep : Representable n) :
    BoundAs x n ↔ KeepsNumber x := by
  -- a number that is not negative
  have hunsigned : ∀ {m : ℕ} {P : Prop}, (P ↔ (m : ℤ) = m) → (P ↔ True) := fun h => h.trans (iff_true_intro rfl)
  cases x with
  | boolean v | uint8 v | uint16 v | uint32 v =>
    cases hn
    have hv := v.toNat_lt
    exact hunsigned (boundAs_bytes (by decide) rfl (by omega) (by omega) (fun _ => Value.noConfusion) fun _ _ _ => rfl)
  | uint64 v =>
    cases hn
    have hv : v.toNat < 2 ^ 63 := by exact_mod_cast hrep.2
    exact hunsigned (boundAs_bytes (by decide) rfl (by omega) hv (fun _ => Value.noConfusion) fun _ _ _ => rfl)
  | int8 v | int16 v | int32 v =>
    cases hn
    have hv := v.toBitVec.isLt
    exact (boundAs_bytes (by decide) rfl hv (by omega) (fun _ => Value.noConfusion) fun _ _ _ => rfl).trans
      (ofNat_toNat v.toBitVec)
  | int64 v =>
    cases hn
    exact iff_true_intro (boundAs_int64 v)
  | double bits =>
    cases hn
    refine iff_true_intro (boundAs_double ?_)
    exact hrep
  | float bits =>
    cases hn
    exact boundAs_float_iff bits
  | none | char | errorCode | stringView | bufferView | uuid | pointer | vector | hashtable | timer | nkOMObject => cases hn

/-- five -/
theorem bound_number_five : BoundAs (.int32 5) (.integer 5) :=
  (@bound_number_iff (.int32 5) (.integer 5) rfl (by decide)).2 (by decide : (0 : ℤ) ≤ (5 : Int32).toInt)

/-- −1 of 8 bits is bound as 255, and the `float` 1 as a subnormal number -/
theorem number_lost :
    ¬ BoundAs (.int8 (-1)) (.integer (-1)) ∧ ¬ BoundAs (.float 0x3f800000) (.real (binary32 0x3f800000)) := by
  constructor
  · intro h
    have h255 := (@boundAs_bytes (.int8 (-1)) 1 255 (-1) (by decide) rfl (by decide) (by decide)
      (fun _ => Value.noConfusion) fun _ _ _ => rfl).1 h
    exact absurd h255 (by decide)
  · intro h
    have hzero := binary32_eq_zero ((boundAs_float_iff 0x3f800000).1 h)
    exact absurd hzero.1 (by decide)

end Noriko.Bind
