/-
How the value of an option is typed (`__NkInt_EnvParsePair` of `env.c`).

`parseOption_eq` is the parser in terms of the text: name and value around the first delimiter, without the spaces in front.
`valueOf` is what a value should be: a truth value, a number, a text between quotation marks or a text.

Three defects lead to something else. `NkRawStringTrim` starts at the character behind the value, which is not a space, so
spaces at the end stay. A truth value is replaced by the text. And a lone quotation mark is taken for a pair of them. An
option is typed as it should be exactly if none of these applies, or if its value has to be refused anyway
(`optionValue_right_iff`).
-/
import Noriko.Env.Number
import Noriko.Env.Store
import Mathlib.Data.List.DropRight

namespace Noriko.Env

open Lib

/-! ## Texts -/

def isSpaceChar (c : UInt8) : Bool := c ∈ spaceChars

def notDelim (c : UInt8) : Bool := c ∉ delimChars

/-- the option behind its prefix -/
def optionBody (optStr : List UInt8) (expectPrefix : Bool) : List UInt8 := if expectPrefix then optStr.tail else optStr

def nameText (body : List UInt8) : List UInt8 := body.takeWhile notDelim

def valueText (body : List UInt8) : List UInt8 := (body.dropWhile notDelim).tail

/-- the value without the spaces in front, which is all that is trimmed -/
def leftTrimmed (body : List UInt8) : List UInt8 := (valueText body).dropWhile isSpaceChar

/-- the value without surrounding spaces -/
def trimmed (body : List UInt8) : List UInt8 := (leftTrimmed body).rdropWhile isSpaceChar

/-- there is a prefix if one is expected -/
def PrefixOk (optStr : List UInt8) (expectPrefix : Bool) : Prop := expectPrefix = true → optStr.headD 0 ∈ prefixChars

instance (optStr : List UInt8) (expectPrefix : Bool) : Decidable (PrefixOk optStr expectPrefix) :=
  inferInstanceAs (Decidable (_ → _))

/-! ## Splitting and trimming -/

section Trim

variable {s a mid tail body : List UInt8}

theorem findIdx_delim (body : List UInt8) : (body.findIdx fun c => c ∈ delimChars) = (nameText body).length := by
  unfold nameText
  induction body with
  | nil => rfl
  | cons c body ih =>
    rw [List.findIdx_cons, List.takeWhile_cons]
    by_cases hc : c ∈ delimChars
    · simp [hc, notDelim]
    · simp only [hc, decide_false, cond_false, ih, notDelim, not_false_eq_true, decide_true, if_true, List.length_cons]

theorem length_name_rest (body : List UInt8) :
    (nameText body).length + (body.dropWhile notDelim).length = body.length := by
  rw [← List.length_append, nameText, List.takeWhile_append_dropWhile]

theorem rawStringSplit_eq (hs : s = a ++ body) :
    rawStringSplit s a.length delimChars =
      (⟨s, a.length, (nameText body).length⟩, ⟨s, s.length - (valueText body).length, (valueText body).length⟩) := by
  have hdrop : s.drop a.length = body := by
    rw [hs]
    exact List.drop_left
  have hlen : s.length = a.length + ((nameText body).length + (body.dropWhile notDelim).length) := by
    rw [hs, List.length_append, length_name_rest]
  have hval : (valueText body).length = (body.dropWhile notDelim).length - 1 := List.length_tail
  unfold rawStringSplit
  rw [hdrop, findIdx_delim]
  refine Prod.ext ?_ ?_
  · dsimp only
    congr 1
    omega
  · dsimp only
    congr 1 <;> omega

/-- spaces are trimmed in front only: behind the text is something else, where the loop over the spaces at the end stops -/
theorem rawStringTrim_eq (hs : s = a ++ (mid ++ tail)) (htail : tail.headD 0 ∉ spaceChars) (hlen : s.length + 1 < 2 ^ 64) :
    rawStringTrim s a.length mid.length spaceChars =
      ⟨s, a.length + (mid.length - (mid.dropWhile isSpaceChar).length), (mid.dropWhile isSpaceChar).length⟩ := by
  have hsum : s.length = a.length + (mid.length + tail.length) := by
    rw [hs, List.length_append, List.length_append]
  have hle := List.length_dropWhile_le isSpaceChar mid
  have htake : ((s.drop a.length).takeWhile fun c => c ∈ spaceChars).length =
      mid.length - (mid.dropWhile isSpaceChar).length := by
    have hmid := congrArg List.length (List.takeWhile_append_dropWhile (p := isSpaceChar) (l := mid))
    rw [List.length_append] at hmid
    have hfirst : (s.drop a.length).takeWhile (fun c => c ∈ spaceChars) = mid.takeWhile isSpaceChar := by
      rw [hs, List.drop_left]
      have hstop : tail.takeWhile isSpaceChar = [] := by
        cases tail with
        | nil => rfl
        | cons c tail =>
          have hc : isSpaceChar c = false := decide_eq_false htail
          simp [hc]
      show (mid ++ tail).takeWhile isSpaceChar = mid.takeWhile isSpaceChar
      rw [List.takeWhile_append, hstop, List.append_nil]
      split_ifs with hall
      · exact (List.takeWhile_prefix _).eq_of_length hall |>.symm
      · rfl
    rw [hfirst]
    omega
  have hbyte : byteAt s (a.length + mid.length) = tail.headD 0 := by
    rw [hs, ← List.append_assoc, byteAt, ← List.length_append, List.getD_append_right _ _ _ _ (le_refl _), Nat.sub_self]
    cases tail with
    | nil => rfl
    | cons c tail => rfl
  have hstop : ∀ dataPtr, trimEnd s spaceChars dataPtr (a.length + mid.length + 1) = a.length + mid.length + 1 :=
    trimEnd_stop (hbyte ▸ htail)
  unfold rawStringTrim
  rw [htake, Nat.min_eq_left (by omega), Nat.min_eq_right (by omega : a.length + mid.length ≤ s.length)]
  dsimp only
  rw [hstop, sub64_of_le (by omega) (by omega)]
  congr 1
  omega

end Trim

/-! ## Options -/

section Option

variable {optStr : List UInt8} {expectPrefix : Bool}

/-- the view of the name -/
def nameView (optStr : List UInt8) (expectPrefix : Bool) : NkStringView :=
  let name := nameText (optionBody optStr expectPrefix)
  ⟨optStr, (if expectPrefix then 1 else 0) + (name.length - (name.dropWhile isSpaceChar).length),
    (name.dropWhile isSpaceChar).length⟩

/-- the view of the value, which reaches to the end of the string -/
def valueView (optStr : List UInt8) (expectPrefix : Bool) : NkStringView :=
  let w := leftTrimmed (optionBody optStr expectPrefix)
  ⟨optStr, optStr.length - w.length, w.length⟩

/-- what stands in front of the body is the prefix -/
theorem optionBody_eq (h : PrefixOk optStr expectPrefix) :
    ∃ a, optStr = a ++ optionBody optStr expectPrefix ∧ a.length = if expectPrefix then 1 else 0 := by
  cases expectPrefix with
  | false => exact ⟨[], rfl, rfl⟩
  | true =>
    cases optStr with
    | nil => exact absurd (h rfl) (by decide)
    | cons c optStr => exact ⟨[c], rfl, rfl⟩

theorem valueText_suffix (body : List UInt8) : valueText body <:+ body :=
  (List.tail_suffix _).trans (List.dropWhile_suffix notDelim)

theorem leftTrimmed_suffix (body : List UInt8) : leftTrimmed body <:+ valueText body := List.dropWhile_suffix isSpaceChar

theorem optionBody_suffix (h : PrefixOk optStr expectPrefix) : optionBody optStr expectPrefix <:+ optStr := by
  obtain ⟨a, ha, -⟩ := optionBody_eq h
  exact ⟨a, ha.symm⟩

theorem trim_name (h : PrefixOk optStr expectPrefix) (hlen : optStr.length + 1 < 2 ^ 64) :
    rawStringTrim optStr (if expectPrefix then 1 else 0) (nameText (optionBody optStr expectPrefix)).length spaceChars =
      nameView optStr expectPrefix := by
  obtain ⟨a, ha, hstart⟩ := optionBody_eq h
  have hparts : optStr = a ++ (nameText (optionBody optStr expectPrefix) ++
      (optionBody optStr expectPrefix).dropWhile notDelim) := by
    rw [nameText, List.takeWhile_append_dropWhile]
    exact ha
  -- a delimiter or the end of the string follows
  have htail : ((optionBody optStr expectPrefix).dropWhile notDelim).headD 0 ∉ spaceChars := by
    rcases hrest : (optionBody optStr expectPrefix).dropWhile notDelim with _ | ⟨c, rest⟩
    · decide
    · have hc : notDelim c = false := head_dropWhile (t := optionBody optStr expectPrefix) (by rw [hrest]; rfl)
      have hdelim : c ∈ delimChars := by simpa [notDelim] using hc
      rw [List.headD_cons]
      rcases List.mem_pair.1 hdelim with rfl | rfl <;> decide
  rw [← hstart, rawStringTrim_eq hparts htail hlen, hstart]
  rfl

theorem trim_value (h : PrefixOk optStr expectPrefix) (hlen : optStr.length + 1 < 2 ^ 64) :
    rawStringTrim optStr (optStr.length - (valueText (optionBody optStr expectPrefix)).length)
      (valueText (optionBody optStr expectPrefix)).length spaceChars = valueView optStr expectPrefix := by
  obtain ⟨a, ha⟩ := (valueText_suffix _).trans (optionBody_suffix h)
  have hlength := congrArg List.length ha
  rw [List.length_append] at hlength
  have hparts : optStr = a ++ (valueText (optionBody optStr expectPrefix) ++ []) := by
    rw [List.append_nil]
    exact ha.symm
  have hstart : optStr.length - (valueText (optionBody optStr expectPrefix)).length = a.length := by omega
  have hle := (leftTrimmed_suffix (optionBody optStr expectPrefix)).length_le
  rw [hstart, rawStringTrim_eq hparts (by decide) hlen]
  unfold valueView
  dsimp only
  rw [← leftTrimmed]
  congr 1
  omega

/-- the parser behind the prefix -/
def parseFrom (optStr : List UInt8) (startPtr : ℕ) : Except NkErrorCode (NkStringView × Option NkVariant) :=
  let param := rawStringSplit optStr startPtr delimChars
  let trimmedName := rawStringTrim optStr param.1.dataPtr param.1.sizeInBytes spaceChars
  let trimmedVal := rawStringTrim optStr param.2.dataPtr param.2.sizeInBytes spaceChars
  if trimmedVal.sizeInBytes = 0 then .ok (trimmedName, none)
  else (parseValue trimmedVal).map fun v => (trimmedName, some v)

theorem parseOption_from (h : PrefixOk optStr expectPrefix) :
    parseOption optStr expectPrefix = parseFrom optStr (if expectPrefix then 1 else 0) := by
  have hrest : ∀ startPtr, (do
      let param := rawStringSplit optStr startPtr delimChars
      let trimmedName := rawStringTrim optStr param.1.dataPtr param.1.sizeInBytes spaceChars
      let trimmedVal := rawStringTrim optStr param.2.dataPtr param.2.sizeInBytes spaceChars
      if trimmedVal.sizeInBytes = 0 then return (trimmedName, none)
      let tmpResult ← parseValue trimmedVal
      return (trimmedName, some tmpResult) : Except NkErrorCode (NkStringView × Option NkVariant)) =
      parseFrom optStr startPtr := by
    intro startPtr
    unfold parseFrom
    dsimp only
    split_ifs
    · rfl
    · cases parseValue _ with
      | error errCode => rfl
      | ok v => rfl
  cases expectPrefix with
  | false => exact hrest 0
  | true =>
    have hexpect : expectChars optStr prefixChars = .ok 1 := if_pos (h rfl)
    rw [parseOption, if_pos rfl, hexpect]
    exact hrest 1

/-- the parser in terms of the text -/
theorem parseOption_eq (h : PrefixOk optStr expectPrefix) (hlen : optStr.length + 1 < 2 ^ 64) :
    parseOption optStr expectPrefix =
      if leftTrimmed (optionBody optStr expectPrefix) = [] then .ok (nameView optStr expectPrefix, none)
      else (parseValue (valueView optStr expectPrefix)).map fun v => (nameView optStr expectPrefix, some v) := by
  obtain ⟨a, ha, hstart⟩ := optionBody_eq h
  have hsplit := rawStringSplit_eq ha
  rw [hstart] at hsplit
  have hname := trim_name h hlen
  have hvalue := trim_value h hlen
  rw [parseOption_from h, parseFrom]
  simp only [hsplit, hname, hvalue]
  by_cases hnil : leftTrimmed (optionBody optStr expectPrefix) = []
  · have hsize : (valueView optStr expectPrefix).sizeInBytes = 0 := by
      simp [valueView, hnil]
    rw [if_pos hsize, if_pos hnil]
  · have hsize : ¬ (valueView optStr expectPrefix).sizeInBytes = 0 := by
      simp [valueView, hnil]
    rw [if_neg hsize, if_neg hnil]

end Option

/-! ## The grammar -/

inductive OptionValue where
  | boolean (b : Bool)
  | number (x : Binary64)
  | text (t : List UInt8)
deriving DecidableEq

/-- the words true, yes, false, no, on and off -/
def boolWords : List (List UInt8 × Bool) :=
  [([0x74, 0x72, 0x75, 0x65], true), ([0x79, 0x65, 0x73], true), ([0x66, 0x61, 0x6c, 0x73, 0x65], false),
    ([0x6e, 0x6f], false), ([0x6f, 0x6e], true), ([0x6f, 0x66, 0x66], false)]

def startsNumber (t : List UInt8) : Bool := t.head?.any fun c => isDigit c || isSign c

/-- a text that starts and ends with a quotation mark -/
def Quoted (t : List UInt8) : Prop := t.head? = some chQuote ∧ t.getLast? = some chQuote

instance (t : List UInt8) : Decidable (Quoted t) := inferInstanceAs (Decidable (_ ∧ _))

instance (t : List UInt8) : Decidable (IsNumber t) := decidable_of_iff _ (isNumber_iff t).symm

/-- what a value is, or `none` if it has to be refused -/
def valueOf (t : List UInt8) : Option OptionValue :=
  match boolWords.lookup t with
  | some b => some (.boolean b)
  | none =>
    if startsNumber t then (if IsNumber t then some (.number (strtod t)) else none)
    else if 2 ≤ t.length ∧ Quoted t then some (.text t.tail.dropLast)
    else some (.text t)

/-- the variant is that value -/
def Stores : NkVariant → OptionValue → Prop
  | .double text, .number x => strtod text = x
  | .stringView v, .text t => v.text = t ∧ v.sizeInBytes = t.length
  | _, _ => False

/-- with memory for the pair, the option is stored with the value that its text is, or refused -/
def TypedRight (optStr : List UInt8) (expectPrefix : Bool) : Prop :=
  ∀ (c : EnvCalls) (blocks : Ledger ℕ), c.keyBlock.1 = .ok → c.valBlock.1 = .ok →
    match valueOf (trimmed (optionBody optStr expectPrefix)) with
    | none => (parsePair c optStr expectPrefix blocks).1 ≠ .ok
    | some x => ∃ q v, (parsePair c optStr expectPrefix blocks).1 = .ok ∧
        (parsePair c optStr expectPrefix blocks).2.1 = some q ∧ q.valuePtr.val = some v ∧ Stores v x

/-- the value has to be refused, or it has no space at its end and is neither a truth value nor a lone quotation mark -/
def Typable (body : List UInt8) : Prop :=
  startsNumber (leftTrimmed body) = true ∧ ¬ IsNumber (trimmed body) ∨
    (leftTrimmed body).getLast? ≠ some 0x20 ∧ boolWords.lookup (leftTrimmed body) = none ∧ leftTrimmed body ≠ [chQuote]

/-! ## Values -/

section Value

variable {pre w t : List UInt8} {c : UInt8} {v : NkVariant} {x : OptionValue}

theorem text_viewIn (pre w : List UInt8) : (viewIn pre w []).text = w := by
  unfold NkStringView.text viewIn
  rw [List.append_nil]
  dsimp only
  rw [List.drop_left, List.take_length]

theorem byteAt_first (pre : List UInt8) (c : UInt8) (r : List UInt8) : byteAt (pre ++ (c :: r ++ [])) pre.length = c := by
  simp [byteAt]

theorem byteAt_last (pre : List UInt8) (hw : w ≠ []) :
    byteAt (pre ++ (w ++ [])) (pre.length + w.length - 1) = w.getLast hw := by
  have hpos : 0 < w.length := List.length_pos_iff.2 hw
  rw [List.append_nil, byteAt, List.getD_append_right _ _ _ _ (by omega), List.getD_eq_getElem _ _ (by omega),
    List.getLast_eq_getElem]
  congr 1
  omega

/-- the value in terms of its text -/
theorem parseValue_eq (hlen : w.length < 2 ^ 64) (hw : w ≠ []) (h0 : 0 ∉ w) :
    parseValue (viewIn pre w []) =
      if startsNumber w then (if IsNumber w then .ok (.double w) else .error .unexpectedCharacter)
      else if Quoted w then .ok (.stringView ⟨pre ++ (w ++ []), pre.length + 1, sub64 w.length 2⟩)
      else .ok (.stringView (viewIn pre w [])) := by
  obtain ⟨c, r, rfl⟩ := List.exists_cons_of_ne_nil hw
  have hfirst : byteAt (viewIn pre (c :: r) []).base (viewIn pre (c :: r) []).dataPtr = c := byteAt_first pre c r
  have hlast : byteAt (viewIn pre (c :: r) []).base
      ((viewIn pre (c :: r) []).dataPtr + (viewIn pre (c :: r) []).sizeInBytes - 1) = (c :: r).getLast hw :=
    byteAt_last pre hw
  unfold parseValue
  rw [hfirst]
  dsimp only
  by_cases hnum : isDigit c = true ∨ isSign c = true
  · have hstart : startsNumber (c :: r) = true := by simpa [startsNumber] using hnum
    rw [if_pos hnum, if_pos hstart]
    have hdrop : (viewIn pre (c :: r) []).base.drop (viewIn pre (c :: r) []).dataPtr = c :: r := by
      simp [viewIn]
    by_cases hnumber : IsNumber (c :: r)
    · rw [if_pos hnumber]
      have haccepts : ¬ Refuses (scanNumber (viewIn pre (c :: r) [])) := fun h => (refuses_end_iff hlen hw h0).1 h hnumber
      have hparse : parseNumber (viewIn pre (c :: r) []) = .ok (.double _) := if_neg haccepts
      rw [hdrop] at hparse
      exact hparse
    · rw [if_neg hnumber]
      exact if_pos ((refuses_end_iff hlen hw h0).2 hnumber)
  · have hstart : ¬ startsNumber (c :: r) = true := by simpa [startsNumber] using hnum
    have hquoted : Quoted (c :: r) ↔ c = chQuote ∧ (c :: r).getLast hw = chQuote := by
      rw [Quoted, List.getLast?_eq_some_getLast hw, List.head?_cons, Option.some_inj, Option.some_inj]
    rw [if_neg hnum, if_neg hstart]
    by_cases hq : c = chQuote
    · rw [if_pos hq]
      by_cases hl : (c :: r).getLast hw = chQuote
      · rw [if_pos (hq.trans (hlast.trans hl).symm), if_pos (hquoted.2 ⟨hq, hl⟩)]
        rfl
      · rw [if_neg fun h : c = _ => hl (hlast.symm.trans (h.symm.trans hq)), if_neg fun h => hl (hquoted.1 h).2]
    · rw [if_neg hq, if_neg fun h => hq (hquoted.1 h).1]

/-- a text with a space is not a number -/
theorem not_isNumber_of_space (h : w.getLast? = some 0x20) : ¬ IsNumber w := by
  rintro ⟨sign, ds, frac, rfl, hsign, hds, hfrac⟩
  have hmem := List.mem_of_getLast? h
  rcases List.mem_append.1 hmem with hmem | hmem
  · rcases hsign with rfl | ⟨c, hc, rfl⟩
    · cases hmem
    · rw [← List.mem_singleton.1 hmem] at hc
      exact absurd hc (by decide)
  · rcases List.mem_append.1 hmem with hmem | hmem
    · exact absurd (hds _ hmem) (by decide)
    · rcases hfrac with rfl | ⟨fs, rfl, hfs⟩
      · cases hmem
      · rcases List.mem_cons.1 hmem with hdot | hmem
        · exact absurd hdot (by decide)
        · exact absurd (hfs _ hmem) (by decide)

/-- no truth value starts like a number -/
theorem lookup_of_startsNumber (h : startsNumber t = true) : boolWords.lookup t = none := by
  rw [List.lookup_eq_none_iff]
  intro p hp
  have hno : ∀ p ∈ boolWords, startsNumber p.1 = false := by decide
  have hne : t ≠ p.1 := by
    rintro rfl
    rw [hno p hp] at h
    cases h
  simpa using hne

/-- a text keeps its first byte without the spaces at its end -/
theorem startsNumber_rdropWhile (h : w.rdropWhile isSpaceChar ≠ []) :
    startsNumber (w.rdropWhile isSpaceChar) = startsNumber w := by
  obtain ⟨rest, hrest⟩ := List.rdropWhile_prefix isSpaceChar w
  obtain ⟨c, r, hcr⟩ := List.exists_cons_of_ne_nil h
  unfold startsNumber
  rw [hcr] at hrest ⊢
  rw [← hrest]
  rfl

theorem rdropWhile_of_last (h : w.getLast? ≠ some 0x20) : w.rdropWhile isSpaceChar = w := by
  rw [List.rdropWhile_eq_self_iff]
  intro hw hspace
  have hlast : w.getLast hw = 0x20 := by simpa [isSpaceChar, spaceChars] using hspace
  exact h (by rw [List.getLast?_eq_some_getLast hw, hlast])

theorem length_rdropWhile_lt (h : w.getLast? = some 0x20) : (w.rdropWhile isSpaceChar).length < w.length := by
  refine lt_of_le_of_ne (List.rdropWhile_prefix isSpaceChar w).length_le fun heq => ?_
  have hself := (List.rdropWhile_prefix isSpaceChar w).eq_of_length heq
  have hw : w ≠ [] := by
    rintro rfl
    cases h
  rw [List.getLast?_eq_some_getLast hw, Option.some_inj] at h
  exact List.rdropWhile_eq_self_iff.1 hself hw (by rw [h]; decide)

/-- the parser agrees with the grammar -/
def Agrees : Option OptionValue → Except NkErrorCode NkVariant → Prop
  | none, .error errCode => errCode ≠ .ok
  | some x, .ok v => Stores v x
  | _, _ => False

/-- values that start like a number -/
theorem agrees_number (ht : w.rdropWhile isSpaceChar ≠ []) (hstart : startsNumber w = true) :
    Agrees (valueOf (w.rdropWhile isSpaceChar))
        (if IsNumber w then .ok (.double w) else .error .unexpectedCharacter) ↔
      ¬ IsNumber (w.rdropWhile isSpaceChar) ∨ w.getLast? ≠ some 0x20 := by
  have hstart' := (startsNumber_rdropWhile ht).trans hstart
  have hvalue : valueOf (w.rdropWhile isSpaceChar) =
      if IsNumber (w.rdropWhile isSpaceChar) then some (.number (strtod (w.rdropWhile isSpaceChar))) else none := by
    rw [valueOf, lookup_of_startsNumber hstart']
    exact if_pos hstart'
  rw [hvalue]
  by_cases hlast : w.getLast? = some 0x20
  · -- the space at the end is refused
    rw [if_neg (not_isNumber_of_space hlast)]
    by_cases hnumber : IsNumber (w.rdropWhile isSpaceChar)
    · rw [if_pos hnumber]
      simp [Agrees, hnumber, hlast]
    · rw [if_neg hnumber]
      simp [Agrees, hnumber]
  · rw [rdropWhile_of_last hlast]
    refine iff_of_true ?_ (Or.inr hlast)
    by_cases hnumber : IsNumber w
    · rw [if_pos hnumber, if_pos hnumber]
      exact rfl
    · rw [if_neg hnumber, if_neg hnumber]
      nofun

/-- the view between the quotation marks -/
theorem text_between (pre : List UInt8) (hlen : w.length < 2 ^ 64) (h2 : 2 ≤ w.length) :
    Stores (.stringView ⟨pre ++ (w ++ []), pre.length + 1, sub64 w.length 2⟩) (.text w.tail.dropLast) := by
  have hsize : sub64 w.length 2 = w.length - 2 := sub64_of_le h2 hlen
  have hlength : w.tail.dropLast.length = w.length - 2 := by
    rw [List.length_dropLast, List.length_tail]
    omega
  refine ⟨?_, hsize.trans hlength.symm⟩
  unfold NkStringView.text
  dsimp only
  rw [hsize, List.append_nil, List.drop_append, List.drop_eq_nil_of_le (by omega), List.nil_append,
    Nat.add_sub_cancel_left, List.drop_one, List.dropLast_eq_take, List.length_tail]
  congr 1

/-- values that do not start like a number -/
theorem agrees_text (hlen : w.length < 2 ^ 64) (ht : w.rdropWhile isSpaceChar ≠ []) (hstart : startsNumber w = false) :
    Agrees (valueOf (w.rdropWhile isSpaceChar))
        (if Quoted w then .ok (.stringView ⟨pre ++ (w ++ []), pre.length + 1, sub64 w.length 2⟩)
          else .ok (.stringView (viewIn pre w []))) ↔
      w.getLast? ≠ some 0x20 ∧ boolWords.lookup w = none ∧ w ≠ [chQuote] := by
  have hstart' := (startsNumber_rdropWhile ht).trans hstart
  by_cases hlast : w.getLast? = some 0x20
  · -- the view has the spaces at the end, so its size is another one
    have hshort := length_rdropWhile_lt hlast
    have hquoted : ¬ Quoted w := fun h => absurd (hlast.symm.trans h.2) (by decide)
    rw [if_neg hquoted]
    refine iff_of_false ?_ fun h => h.1 hlast
    have hsize : (viewIn pre w []).sizeInBytes = w.length := rfl
    unfold valueOf
    cases hword : boolWords.lookup (w.rdropWhile isSpaceChar) with
    | some b => exact id
    | none =>
      dsimp only
      rw [hstart', if_neg Bool.false_ne_true]
      split_ifs
      · rintro ⟨-, hlength⟩
        rw [hsize, List.length_dropLast, List.length_tail] at hlength
        omega
      · rintro ⟨-, hlength⟩
        rw [hsize] at hlength
        omega
  · rw [rdropWhile_of_last hlast, and_iff_right hlast]
    unfold valueOf
    cases hword : boolWords.lookup w with
    | some b =>
      refine iff_of_false ?_ fun h => absurd h.1 (by simp)
      split_ifs <;> exact id
    | none =>
      dsimp only
      rw [hstart, if_neg Bool.false_ne_true, and_iff_right rfl]
      by_cases hquoted : Quoted w
      · rw [if_pos hquoted]
        by_cases h2 : 2 ≤ w.length
        · rw [if_pos ⟨h2, hquoted⟩]
          refine iff_of_true (text_between pre hlen h2) ?_
          rintro rfl
          exact absurd h2 (by decide)
        · -- a lone quotation mark
          rw [if_neg fun h => h2 h.1]
          have hw : w ≠ [] := fun hnil => ht (by rw [hnil]; rfl)
          have hone : w.length = 1 := by
            have := List.length_pos_iff.2 hw
            omega
          obtain ⟨c, rfl⟩ := List.length_eq_one_iff.1 hone
          have hc : c = chQuote := Option.some.inj hquoted.1
          refine iff_of_false ?_ fun h => h (by rw [hc])
          rintro ⟨-, hlength⟩
          have hwraps : sub64 1 2 = 1 := hlength
          exact absurd hwraps (by decide)
      · rw [if_neg hquoted, if_neg fun h => hquoted h.2]
        refine iff_of_true ⟨text_viewIn pre w, rfl⟩ ?_
        rintro rfl
        exact hquoted ⟨rfl, rfl⟩

end Value

/-! ## Stored pairs -/

section Stored

variable {optStr : List UInt8} {expectPrefix : Bool}

/-- memory for key and value -/
def someCalls : EnvCalls := ⟨(.ok, 0), (.ok, 1), true⟩

theorem parsePair_value {name : NkStringView} {v : NkVariant} (hparse : parseOption optStr expectPrefix = .ok (name, some v))
    {c : EnvCalls} (hkey : c.keyBlock.1 = .ok) (hval : c.valBlock.1 = .ok) (blocks : Ledger ℕ) :
    (parsePair c optStr expectPrefix blocks).1 = .ok ∧ (parsePair c optStr expectPrefix blocks).2.1 =
      some ⟨name.text, ⟨c.keyBlock.2, some c.valBlock.2, some v⟩⟩ := by
  unfold parsePair
  rw [hparse]
  simp [hkey, hval]

theorem typedRight_iff (h : PrefixOk optStr expectPrefix) (hlen : optStr.length + 1 < 2 ^ 64)
    (hw : leftTrimmed (optionBody optStr expectPrefix) ≠ []) :
    TypedRight optStr expectPrefix ↔
      Agrees (valueOf (trimmed (optionBody optStr expectPrefix))) (parseValue (valueView optStr expectPrefix)) := by
  have hparse := parseOption_eq h hlen
  rw [if_neg hw] at hparse
  unfold TypedRight
  cases hvalue : parseValue (valueView optStr expectPrefix) with
  | error errCode =>
    rw [hvalue] at hparse
    have hpair : ∀ c blocks, parsePair c optStr expectPrefix blocks = (errCode, none, blocks) := by
      intro c blocks
      unfold parsePair
      rw [hparse]
      rfl
    simp only [hpair]
    cases valueOf (trimmed (optionBody optStr expectPrefix)) with
    | none => exact ⟨fun hall => hall someCalls Ledger.new rfl rfl, fun hne _ _ _ _ => hne⟩
    | some x =>
      refine iff_of_false (fun hall => ?_) id
      obtain ⟨q, v, -, hnone, -⟩ := hall someCalls Ledger.new rfl rfl
      cases hnone
  | ok v =>
    rw [hvalue] at hparse
    have hsome := parsePair_value hparse (c := someCalls) rfl rfl Ledger.new
    cases valueOf (trimmed (optionBody optStr expectPrefix)) with
    | none => exact iff_of_false (fun hall => hall someCalls Ledger.new rfl rfl hsome.1) id
    | some x =>
      constructor
      · intro hall
        obtain ⟨q, v', -, hq, hv', hstores⟩ := hall someCalls Ledger.new rfl rfl
        rw [hsome.2] at hq
        cases hq
        cases hv'
        exact hstores
      · intro hstores c blocks hkey hval
        obtain ⟨hcode, hq⟩ := parsePair_value hparse hkey hval blocks
        exact ⟨_, v, hcode, hq, rfl, hstores⟩

/-- the view of the value ends with the string -/
theorem valueView_in (h : PrefixOk optStr expectPrefix) :
    ∃ pre, optStr = pre ++ leftTrimmed (optionBody optStr expectPrefix) ∧
      valueView optStr expectPrefix = viewIn pre (leftTrimmed (optionBody optStr expectPrefix)) [] := by
  obtain ⟨pre, hpre⟩ := (leftTrimmed_suffix _).trans ((valueText_suffix _).trans (optionBody_suffix h))
  have hlength := congrArg List.length hpre
  rw [List.length_append] at hlength
  refine ⟨pre, hpre.symm, ?_⟩
  unfold valueView viewIn
  dsimp only
  rw [List.append_nil, hpre]
  congr 1
  omega

/-- An option with a value is typed by the grammar exactly if the value has to be refused, or if it has no space at its end
and is neither a truth value nor a lone quotation mark. -/
theorem optionValue_right_iff (h0 : 0 ∉ optStr) (hlen : optStr.length + 1 < 2 ^ 64) (h : PrefixOk optStr expectPrefix)
    (ht : trimmed (optionBody optStr expectPrefix) ≠ []) :
    TypedRight optStr expectPrefix ↔ Typable (optionBody optStr expectPrefix) := by
  obtain ⟨pre, hstr, hview⟩ := valueView_in h
  have hw : leftTrimmed (optionBody optStr expectPrefix) ≠ [] := by
    intro hnil
    rw [trimmed, hnil] at ht
    exact ht rfl
  rw [typedRight_iff h hlen hw, hview]
  unfold Typable
  unfold trimmed at ht ⊢
  generalize leftTrimmed (optionBody optStr expectPrefix) = w at *
  have hw0 : 0 ∉ w := fun hmem => h0 (hstr ▸ List.mem_append_right pre hmem)
  have hwlen : w.length < 2 ^ 64 := by
    rw [hstr, List.length_append] at hlen
    omega
  rw [parseValue_eq hwlen hw hw0]
  cases hstart : startsNumber w with
  | true =>
    rw [if_pos rfl, agrees_number ht hstart, and_iff_right rfl]
    have hlone : w ≠ [chQuote] := by
      rintro rfl
      cases hstart
    rw [and_iff_right (lookup_of_startsNumber hstart), and_iff_left hlone]
  | false =>
    rw [if_neg Bool.false_ne_true, agrees_text hwlen ht hstart]
    simp

/-- the option -k=12 -/
theorem number_option_right : TypedRight [0x2d, 0x6b, 0x3d, 0x31, 0x32] true := by
  refine (optionValue_right_iff (by decide) (by decide) (by decide) (by decide)).2 (Or.inr ⟨?_, ?_, ?_⟩)
  · decide
  · decide
  · decide

/-- the options -k=yes, -k=a with a space behind it, and -k=" -/
theorem typed_options_broken : ¬ TypedRight [0x2d, 0x6b, 0x3d, 0x79, 0x65, 0x73] true ∧
    ¬ TypedRight [0x2d, 0x6b, 0x3d, 0x61, 0x20] true ∧ ¬ TypedRight [0x2d, 0x6b, 0x3d, 0x22] true := by
  refine ⟨?_, ?_, ?_⟩
  · rw [typedRight_iff (by decide) (by decide) (by decide)]
    exact id
  · rw [typedRight_iff (by decide) (by decide) (by decide)]
    rintro ⟨-, hsize⟩
    exact absurd hsize (by decide)
  · rw [typedRight_iff (by decide) (by decide) (by decide)]
    rintro ⟨-, hsize⟩
    exact absurd hsize (by decide)

end Stored

end Noriko.Env
