/-
Variants (`NkVariantSet`, `NkVariantGet` and `NkVariantCopy` of `util.c`).

A variant is a type and a union of 16 bytes, on a little-endian machine with pointers of 64 bits. A value is given with its
bytes in memory (`Value.bytes`); an integer that is narrower than `int` is promoted on its way through the variadic
arguments, and its lower bytes are what is stored.

The switch of `NkVariantSet` and the table of sizes agree for all types but one. A `float` is promoted to `double` and stored
as such, with 8 bytes, and read as the first 4 of them. So every value is returned as it was stored, except for numbers of
type `NkVarTy_Float` other than positive zero (`variant_returns_iff`).
-/
import Noriko.Lib.Float
import Noriko.Uuid

namespace Noriko.Variant

open Lib

/-! ## Types and values -/

inductive NkVariantType where
  | none | boolean | char | int8 | int16 | int32 | int64 | uint8 | uint16 | uint32 | uint64 | float | double | errorCode
  | stringView | bufferView | uuid | pointer | vector | hashtable | timer | nkOMObject
deriving DecidableEq, Repr

/-- the values of the types; floating-point numbers are bit patterns, and pointers are addresses -/
inductive Value where
  | none
  | boolean (v : Bool)
  | char (v : Int8)
  | int8 (v : Int8)
  | int16 (v : Int16)
  | int32 (v : Int32)
  | int64 (v : Int64)
  | uint8 (v : UInt8)
  | uint16 (v : UInt16)
  | uint32 (v : UInt32)
  | uint64 (v : UInt64)
  | float (bits : UInt32)
  | double (bits : UInt64)
  | errorCode (v : UInt32)
  | stringView (dataPtr sizeInBytes : UInt64)
  | bufferView (dataPtr sizeInBytes : UInt64)
  | uuid (v : NkUuid)
  | pointer (v : UInt64)
  | vector (v : UInt64)
  | hashtable (v : UInt64)
  | timer (v : UInt64)
  | nkOMObject (v : UInt64)
deriving DecidableEq

def Value.type : Value → NkVariantType
  | .none => .none
  | .boolean _ => .boolean
  | .char _ => .char
  | .int8 _ => .int8
  | .int16 _ => .int16
  | .int32 _ => .int32
  | .int64 _ => .int64
  | .uint8 _ => .uint8
  | .uint16 _ => .uint16
  | .uint32 _ => .uint32
  | .uint64 _ => .uint64
  | .float _ => .float
  | .double _ => .double
  | .errorCode _ => .errorCode
  | .stringView _ _ => .stringView
  | .bufferView _ _ => .bufferView
  | .uuid _ => .uuid
  | .pointer _ => .pointer
  | .vector _ => .vector
  | .hashtable _ => .hashtable
  | .timer _ => .timer
  | .nkOMObject _ => .nkOMObject

/-- the bytes of a value of its type in memory -/
def Value.bytes : Value → List UInt8
  | .none => []
  | .boolean v => le 1 v.toNat
  | .char v => le 1 v.toUInt8.toNat
  | .int8 v => le 1 v.toUInt8.toNat
  | .int16 v => le 2 v.toUInt16.toNat
  | .int32 v => le 4 v.toUInt32.toNat
  | .int64 v => le 8 v.toUInt64.toNat
  | .uint8 v => le 1 v.toNat
  | .uint16 v => le 2 v.toNat
  | .uint32 v => le 4 v.toNat
  | .uint64 v => le 8 v.toNat
  | .float bits => le 4 bits.toNat
  | .double bits => le 8 bits.toNat
  | .errorCode v => le 4 v.toNat
  | .stringView dataPtr sizeInBytes => le 8 dataPtr.toNat ++ le 8 sizeInBytes.toNat
  | .bufferView dataPtr sizeInBytes => le 8 dataPtr.toNat ++ le 8 sizeInBytes.toNat
  | .uuid v => v.asByte
  | .pointer v => le 8 v.toNat
  | .vector v => le 8 v.toNat
  | .hashtable v => le 8 v.toNat
  | .timer v => le 8 v.toNat
  | .nkOMObject v => le 8 v.toNat

/-! ## The code -/

/-- `__NkInt_Variant`; the reserved bytes are not used -/
structure NkVariant where
  type : NkVariantType
  val : List UInt8
  size : val.length = 16

/-- `__NkInt_VariantGetTypeSize` -/
def variantGetTypeSize : NkVariantType → ℕ
  | .none => 0
  | .boolean => 1
  | .char => 1
  | .int8 => 1
  | .int16 => 2
  | .int32 => 4
  | .int64 => 8
  | .uint8 => 1
  | .uint16 => 2
  | .uint32 => 4
  | .uint64 => 8
  | .float => 4
  | .double => 8
  | .errorCode => 4
  | .stringView => 16
  | .bufferView => 16
  | .uuid => 16
  | .pointer => 8
  | .vector => 8
  | .hashtable => 8
  | .timer => 8
  | .nkOMObject => 8

/-- what the switch of `NkVariantSet` writes to the start of the union -/
def assigned : Value → List UInt8
  | .none => List.replicate 16 0
  -- promoted to `double`, and assigned to `m_dblVal`
  | .float bits => le 8 (widen bits.toNat)
  | x => x.bytes

theorem length_bytes (x : Value) : x.bytes.length = variantGetTypeSize x.type := by
  cases x <;> simp [Value.bytes, Value.type, variantGetTypeSize, NkUuid.size]

theorem length_assigned_le (x : Value) : (assigned x).length ≤ 16 := by
  cases x <;> simp [assigned, Value.bytes, NkUuid.size]

/-- `NkVariantSet` on a variant with any content -/
def variantSet (var : NkVariant) (x : Value) : NkVariant where
  type := x.type
  val := assigned x ++ var.val.drop (assigned x).length
  size := by
    have hle := length_assigned_le x
    rw [List.length_append, List.length_drop, var.size]
    omega

/-- `NkVariantGet`: the type, and the bytes that are written to `valPtr` -/
def variantGet (var : NkVariant) : NkVariantType × List UInt8 := (var.type, var.val.take (variantGetTypeSize var.type))

/-- `NkVariantCopy` to a variant with any content -/
def variantCopy (src _dst : NkVariant) : NkVariant := src

/-! ## What is right -/

/-- a variant that is set to a value gives back the value with its type and no more than the bytes of it, and so does a copy -/
structure ReturnsStored (x : Value) : Prop where
  get : ∀ var, variantGet (variantSet var x) = (x.type, x.bytes)
  copy : ∀ var dst, variantGet (variantCopy (variantSet var x) dst) = (x.type, x.bytes)
  bound : ∀ var, (variantGet (variantSet var x)).2.length ≤ x.bytes.length

/-! ## Reading back -/

/-- what is read was written before -/
theorem typeSize_le_assigned (x : Value) : variantGetTypeSize x.type ≤ (assigned x).length := by
  cases x <;> simp [assigned, Value.bytes, Value.type, variantGetTypeSize, NkUuid.size]

theorem variantGet_set (var : NkVariant) (x : Value) :
    variantGet (variantSet var x) = (x.type, (assigned x).take (variantGetTypeSize x.type)) := by
  unfold variantGet variantSet
  dsimp only
  rw [List.take_append_of_le_length (typeSize_le_assigned x)]

/-- all but `float` are stored as they are -/
theorem take_assigned {x : Value} (h : ∀ bits, x ≠ .float bits) :
    (assigned x).take (variantGetTypeSize x.type) = x.bytes := by
  have hwhole : assigned x = x.bytes ∨ x = .none := by
    cases x with
    | none => exact Or.inr rfl
    | float bits => exact absurd rfl (h bits)
    | _ => exact Or.inl rfl
  rcases hwhole with heq | rfl
  · rw [heq, ← length_bytes, List.take_length]
  · rfl

/-- of a `float`, the lower half of the `double` is read -/
theorem take_assigned_float (bits : UInt32) :
    (assigned (.float bits)).take (variantGetTypeSize (Value.float bits).type) = le 4 (widen bits.toNat) := by
  have hparts : le 8 (widen bits.toNat) = le 4 (widen bits.toNat) ++ le 4 (widen bits.toNat / 256 ^ 4) := le_add 4 4 _
  show (le 8 (widen bits.toNat)).take 4 = _
  rw [hparts, List.take_left' (length_le 4 _)]

/-- the lower half of the `double` is the `float` for positive zero only -/
theorem widen_low_eq_iff (bits : UInt32) : le 4 (widen bits.toNat) = le 4 bits.toNat ↔ bits = 0 := by
  constructor
  · intro h
    have hmod := congrArg leNat h
    rw [leNat_le, leNat_le] at hmod
    have hlt : bits.toNat < 2 ^ 32 := bits.toNat_lt
    -- the bits of the mantissa are zero, and so is what the conversion makes of them
    have hlow := widen_low bits.toNat
    have hzero : bits.toNat % 2 ^ 29 = 0 := by omega
    have hman : bits.toNat % 2 ^ 23 = 0 := by omega
    have hhigh : widen bits.toNat % 2 ^ 32 = 0 := by
      unfold widen pack64
      dsimp only
      rw [hman]
      split_ifs <;> omega
    refine UInt32.toNat.inj ?_
    show bits.toNat = 0
    omega
  · rintro rfl
    decide

/-- the bytes that are read are those of the value -/
theorem take_assigned_iff (x : Value) :
    (assigned x).take (variantGetTypeSize x.type) = x.bytes ↔ ∀ bits, x = .float bits → bits = 0 := by
  by_cases hfloat : ∃ bits, x = .float bits
  · obtain ⟨bits, rfl⟩ := hfloat
    rw [take_assigned_float]
    refine (widen_low_eq_iff bits).trans ⟨fun h bits' heq => ?_, fun h => h bits rfl⟩
    rw [← Value.float.inj heq]
    exact h
  · have hother : ∀ bits, x ≠ .float bits := fun bits heq => hfloat ⟨bits, heq⟩
    exact iff_of_true (take_assigned hother) fun bits heq => absurd heq (hother bits)

theorem returnsStored_iff (x : Value) :
    ReturnsStored x ↔ (assigned x).take (variantGetTypeSize x.type) = x.bytes := by
  constructor
  · intro h
    have hget := h.get ⟨.none, List.replicate 16 0, rfl⟩
    rw [variantGet_set] at hget
    exact congrArg Prod.snd hget
  · intro h
    have hget : ∀ var, variantGet (variantSet var x) = (x.type, x.bytes) := by
      intro var
      rw [variantGet_set, h]
    refine ⟨hget, fun var _ => hget var, fun var => ?_⟩
    rw [hget]

/-- a value is returned as it was stored exactly if it is not a `float` other than positive zero -/
theorem variant_returns_iff (x : Value) : ReturnsStored x ↔ ∀ bits, x = .float bits → bits = 0 :=
  (returnsStored_iff x).trans (take_assigned_iff x)

/-- the number 1 as a `float` comes back as 0 -/
theorem variant_loses_float : ¬ ReturnsStored (.float 0x3f800000) := by
  rw [returnsStored_iff]
  decide

end Noriko.Variant
