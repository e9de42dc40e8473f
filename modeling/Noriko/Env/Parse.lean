/-
Parsing of option strings (`__NkInt_EnvParsePair` of `env.c`, `NkRawStringSplit` and `NkRawStringTrim` of `util.c`).

A C string is the list of its bytes without the terminator; a pointer into it is an offset, and reading at the end gives the
terminator. A string view is a string, an offset and a size of 64 bits, which can wrap. A number is what `strtod` makes of
the rest of the string, so the variant keeps that text.
-/
import Noriko.Def

namespace Noriko.Env

/-! ## Data -/

structure NkStringView where
  /-- the string that `mp_dataPtr` points into -/
  base : List UInt8
  dataPtr : ℕ
  sizeInBytes : ℕ
deriving DecidableEq, Repr

/-- the bytes that are viewed -/
def NkStringView.text (v : NkStringView) : List UInt8 := (v.base.drop v.dataPtr).take v.sizeInBytes

/-- the values an option can have -/
inductive NkVariant where
  | double (text : List UInt8)
  | stringView (v : NkStringView)
deriving DecidableEq, Repr

/-- the byte at an offset of a C string -/
def byteAt (s : List UInt8) (i : ℕ) : UInt8 := s.getD i 0

def isDigit (c : UInt8) : Bool := 0x30 ≤ c ∧ c ≤ 0x39

def isSign (c : UInt8) : Bool := c = 0x2b ∨ c = 0x2d

def chDot : UInt8 := 0x2e

def chQuote : UInt8 := 0x22

/-- the characters an option can start with: dollar sign, slash, hyphen and number sign -/
def prefixChars : List UInt8 := [0x24, 0x2f, 0x2d, 0x23]

/-- the delimiters: equals sign and colon -/
def delimChars : List UInt8 := [0x3d, 0x3a]

def spaceChars : List UInt8 := [0x20]

/-! ## Raw strings -/

/-- `NkRawStringSplit` for the string at `strPtr` -/
def rawStringSplit (s : List UInt8) (strPtr : ℕ) (ctrlChs : List UInt8) : NkStringView × NkStringView :=
  let endPtr := s.length
  let delimPos := strPtr + (s.drop strPtr).findIdx fun c => c ∈ ctrlChs
  (⟨s, strPtr, max delimPos strPtr - strPtr⟩, ⟨s, min (delimPos + 1) endPtr, endPtr - min (delimPos + 1) endPtr⟩)

/-- the loop of `NkRawStringTrim` that moves `endPtr` back; argument and result are `endPtr + 1`, since it can end up before
the string -/
def trimEnd (s keyPtr : List UInt8) (dataPtr : ℕ) : ℕ → ℕ
  | 0 => 0
  | endPtr + 1 => if dataPtr ≤ endPtr ∧ byteAt s endPtr ∈ keyPtr then trimEnd s keyPtr dataPtr endPtr else endPtr + 1

/-- `NkRawStringTrim` for at most `maxChars` characters at `strPtr` -/
def rawStringTrim (s : List UInt8) (strPtr maxChars : ℕ) (keyPtr : List UInt8) : NkStringView :=
  let dataPtr := min (strPtr + ((s.drop strPtr).takeWhile fun c => c ∈ keyPtr).length) (strPtr + maxChars)
  let endPtr := min s.length (strPtr + maxChars)
  ⟨s, dataPtr, sub64 (trimEnd s keyPtr dataPtr (endPtr + 1)) (dataPtr + 1)⟩

/-! ## Numbers -/

/-- `p(*decPtr) && --charsToGo && ++decPtr` for the string at `decPtr` and the number `charsToGo` -/
def skipOne (p : UInt8 → Bool) (x : List UInt8 × ℕ) : List UInt8 × ℕ :=
  match x.1 with
  | [] => x
  | c :: cs => if p c then (if sub64 x.2 1 = 0 then (c :: cs, 0) else (cs, sub64 x.2 1)) else x

/-- `while (isdigit(*decPtr) && --charsToGo && ++decPtr);` -/
def skipDigits : List UInt8 → ℕ → List UInt8 × ℕ
  | [], charsToGo => ([], charsToGo)
  | c :: cs, charsToGo =>
    if isDigit c then
      if sub64 charsToGo 1 = 0 then (c :: cs, 0) else skipDigits cs (sub64 charsToGo 1)
    else (c :: cs, charsToGo)

/-- `__NkInt_EnvParseNumber` -/
def parseNumber (rawVal : NkStringView) : Except NkErrorCode NkVariant :=
  let x := skipOne isSign (rawVal.base.drop rawVal.dataPtr, rawVal.sizeInBytes)
  let x := skipDigits x.1 x.2
  let x := skipOne (fun c => c = chDot) x
  let x := skipDigits x.1 x.2
  let c := x.1.headD 0
  if 0 < x.2 ∧ isDigit c = false ∧ c ≠ 0 then .error .unexpectedCharacter
  else .ok (.double (rawVal.base.drop rawVal.dataPtr))

/-! ## Pairs -/

/-- the value of a text that is not empty -/
def parseValue (v : NkStringView) : Except NkErrorCode NkVariant :=
  let c := byteAt v.base v.dataPtr
  if isDigit c ∨ isSign c then parseNumber v
  else if c = chQuote then
    -- a lone quotation mark is its own partner
    if c = byteAt v.base (v.dataPtr + v.sizeInBytes - 1) then .ok (.stringView ⟨v.base, v.dataPtr + 1, sub64 v.sizeInBytes 2⟩)
    else .ok (.stringView v)
  else
    -- a truth value that is found before is replaced: the `break` leaves the loop alone
    .ok (.stringView v)

/-- `__NkInt_EnvExpectChars` at the start of the string: the offset behind the character -/
def expectChars (optStr expPtr : List UInt8) : Except NkErrorCode ℕ :=
  if optStr.headD 0 ∈ expPtr then .ok 1 else .error .unexpectedCharacter

/-- `__NkInt_EnvParsePair` up to `lbl_MAKERESULTS`: the trimmed identifier, and the value if there is one -/
def parseOption (optStr : List UInt8) (expectPrefix : Bool) : Except NkErrorCode (NkStringView × Option NkVariant) := do
  let startPtr ← if expectPrefix then expectChars optStr prefixChars else .ok 0
  let param := rawStringSplit optStr startPtr delimChars
  let trimmedName := rawStringTrim optStr param.1.dataPtr param.1.sizeInBytes spaceChars
  let trimmedVal := rawStringTrim optStr param.2.dataPtr param.2.sizeInBytes spaceChars
  if trimmedVal.sizeInBytes = 0 then return (trimmedName, none)
  let tmpResult ← parseValue trimmedVal
  return (trimmedName, some tmpResult)

/-- a character that is kept ends the loop at once -/
theorem trimEnd_stop {s keyPtr : List UInt8} {endPtr : ℕ} (h : byteAt s endPtr ∉ keyPtr) (dataPtr : ℕ) :
    trimEnd s keyPtr dataPtr (endPtr + 1) = endPtr + 1 := by
  rw [trimEnd, if_neg fun hall => h hall.2]

end Noriko.Env
