/-
Shared vocabulary of the Noriko model: the error codes of `error.h`, the string views of `util.h`, the vectors of
`renderer.h` and the fixed-width arithmetic of the C sources.

Machine integers are natural numbers. `u32` and `u64` cut a result to the width of the C type it is stored in, and
`sub32` and `sub64` are the wrapping subtractions; an addition or product that the sources leave in a wider type is
written without a cut. `NK_ASSERT` is stripped from deploy builds, so an asserted condition is a hypothesis where a
result needs it and never a branch of the model.
-/
import Mathlib.Tactic

namespace Noriko

/-! ## Error codes (`error.h`) -/

/-- numeric error codes, in the order of the header -/
inductive NkErrorCode where
  | ok | unknown | noOperation | manuallyAborted | accessDenied | notImplemented | inParameter | outParameter
  | inOutParameter | inptrParameter | outptrParameter | callbackParameter | memoryAlignment | memoryAllocation
  | memoryReallocation | itemNotFound | arrayOutOfBounds | arrayElemOutOfBounds | invalidRange | unsignedWrapAround
  | capLimitExceeded | componentState | objectType | objectState | synchInit | unexpectedCharacter
  | invalidIdentifier | closingTokenNotFound | interfacePureVirtual | interfaceNotImpl | unknownClass
  | aggregationNotSupp | classAlreadyReg | classNotReg | regWindowClass | createNativeWindow | wndModeNotSupported
  | adjustClientArea | createMemDC | createCompBitmap | createBrush | openFile | errorDuringDiskIo
  | unsupportedFileFormat | invImageDimensions | invBitDepth | createDDBFromDIB | copyDDBPixels | queryStdLocation
  | databaseOpen | setDatabaseProps | databaseClose | compileSqlStatement | databaseApplySchema | invalidStreamType
  | createDirectory | findFileOrDir | invStreamMode | invSeekOrigin | streamSeek | streamFlush
deriving DecidableEq, Repr

/-! ## String views (`util.h`) -/

/-- `NkStringView`; 0 is `NULL` -/
structure NkStringView where
  dataPtr : ℕ
  sizeInBytes : ℕ
deriving DecidableEq, Repr

/-! ## Vectors (`renderer.h`) -/

structure NkVec2F where
  xVal : ℚ
  yVal : ℚ
deriving DecidableEq, Repr

/-! ## Unsigned arithmetic -/

/-- `UINT32_MAX`, the "not found" value of the index searches -/
def uint32Max : ℕ := 2 ^ 32 - 1

/-- a value stored in an `NkUint32` -/
def u32 (n : ℕ) : ℕ := n % 2 ^ 32

/-- a value stored in an `NkSize` -/
def u64 (n : ℕ) : ℕ := n % 2 ^ 64

/-- `a - b` on `NkUint32` operands -/
def sub32 (a b : ℕ) : ℕ := u32 (2 ^ 32 + a - b)

/-- `a - b` on `NkSize` operands -/
def sub64 (a b : ℕ) : ℕ := u64 (2 ^ 64 + a - u64 b)

theorem u32_lt (n : ℕ) : u32 n < 2 ^ 32 := Nat.mod_lt _ (by decide)

theorem u32_of_lt {n : ℕ} (h : n < 2 ^ 32) : u32 n = n := Nat.mod_eq_of_lt h

theorem u64_of_lt {n : ℕ} (h : n < 2 ^ 64) : u64 n = n := Nat.mod_eq_of_lt h

theorem sub32_of_le {a b : ℕ} (h : b ≤ a) (ha : a < 2 ^ 32) : sub32 a b = a - b := by
  have hab : 2 ^ 32 + a - b = (a - b) + 2 ^ 32 := by omega
  rw [sub32, u32, hab, Nat.add_mod_right, Nat.mod_eq_of_lt (by omega)]

theorem sub64_of_le {a b : ℕ} (h : b ≤ a) (ha : a < 2 ^ 64) : sub64 a b = a - b := by
  have hb : u64 b = b := u64_of_lt (by omega)
  have hab : 2 ^ 64 + a - b = (a - b) + 2 ^ 64 := by omega
  rw [sub64, hb, u64, hab, Nat.add_mod_right, Nat.mod_eq_of_lt (by omega)]

end Noriko
