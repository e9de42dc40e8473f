/-
What `__NkInt_EnvParsePair` reads, and where the views of a pair end (`env.c`).

A string of `n` bytes has the offsets 0 to `n`, the last one being its terminator. The functions `..Reads` list the offsets
that the parser reads, call by call; `strtod` and `strncmp` may stop earlier than listed.

Nothing outside of the string is read. The views of name and value end at the terminator at the latest, except the view of a
lone quotation mark, whose size wraps (`bounds_right_iff`).
-/
import Noriko.Env.Grammar
import Noriko.Lib.Loop

namespace Noriko.Env

open Lib

/-! ## Reads -/

/-- `strchr(&s[p], '\0')` and `strlen(&s[p])` -/
def strchrReads (s : List UInt8) (p : ℕ) : List ℕ := upto p (s.length + 1)

/-- `strpbrk(&s[p], chars)`: up to the first of the characters or the terminator -/
def strpbrkReads (s : List UInt8) (p : ℕ) (chars : List UInt8) : List ℕ :=
  upto p (p + ((s.drop p).findIdx fun c => c ∈ chars) + 1)

def rawStringSplitReads (s : List UInt8) (strPtr : ℕ) (ctrlChs : List UInt8) : List ℕ :=
  strchrReads s strPtr ++ strpbrkReads s strPtr ctrlChs ++ strchrReads s strPtr

/-- the loop of `NkRawStringTrim` that moves `endPtr` back, as in `trimEnd` -/
def trimEndReads (s keyPtr : List UInt8) (dataPtr : ℕ) : ℕ → List ℕ
  | 0 => []
  | endPtr + 1 =>
    if dataPtr ≤ endPtr then
      endPtr :: if byteAt s endPtr ∈ keyPtr then trimEndReads s keyPtr dataPtr endPtr else []
    else []

def rawStringTrimReads (s : List UInt8) (strPtr maxChars : ℕ) (keyPtr : List UInt8) : List ℕ :=
  let lead := ((s.drop strPtr).takeWhile fun c => c ∈ keyPtr).length
  let dataPtr := min (strPtr + lead) (strPtr + maxChars)
  let endPtr := min s.length (strPtr + maxChars)
  (List.range (lead + 1)).flatMap (fun k => strpbrkReads s (strPtr + k) keyPtr) ++ strchrReads s dataPtr ++
    trimEndReads s keyPtr dataPtr (endPtr + 1)

/-- the value of a text that is not empty: a number with `strtod`, quotation marks, or the words for truth values -/
def parseValueReads (v : NkStringView) : List ℕ :=
  let c := byteAt v.base v.dataPtr
  v.dataPtr ::
    if isDigit c ∨ isSign c then numberReads v ++ upto v.dataPtr (v.base.length + 1)
    else if c = chQuote then [v.dataPtr, v.dataPtr + v.sizeInBytes - 1]
    else upto v.dataPtr (v.dataPtr + v.sizeInBytes)

/-- behind the prefix -/
def parseFromReads (optStr : List UInt8) (startPtr : ℕ) : List ℕ :=
  let param := rawStringSplit optStr startPtr delimChars
  let trimmedVal := rawStringTrim optStr param.2.dataPtr param.2.sizeInBytes spaceChars
  rawStringSplitReads optStr startPtr delimChars ++
    rawStringTrimReads optStr param.1.dataPtr param.1.sizeInBytes spaceChars ++
    rawStringTrimReads optStr param.2.dataPtr param.2.sizeInBytes spaceChars ++
    if trimmedVal.sizeInBytes = 0 then [] else parseValueReads trimmedVal

/-- the offsets that `__NkInt_EnvParsePair` reads; the message about a missing prefix has the whole string -/
def optionReads (optStr : List UInt8) (expectPrefix : Bool) : List ℕ :=
  if expectPrefix then
    strpbrkReads optStr 0 prefixChars ++
      match expectChars optStr prefixChars with
      | .ok startPtr => parseFromReads optStr startPtr
      | .error _ => strchrReads optStr 0
  else parseFromReads optStr 0

/-! ## What is right -/

/-- the view is a part of its string -/
def NkStringView.Inside (v : NkStringView) : Prop := v.dataPtr + v.sizeInBytes ≤ v.base.length

instance (v : NkStringView) : Decidable v.Inside := inferInstanceAs (Decidable (_ ≤ _))

/-- a pair that is made has views inside of the string, and only the string is read -/
structure BoundsRight (optStr : List UInt8) (expectPrefix : Bool) : Prop where
  views : ∀ c blocks q, (parsePair c optStr expectPrefix blocks).1 = .ok →
    (parsePair c optStr expectPrefix blocks).2.1 = some q →
    ∃ name, parseOption optStr expectPrefix = .ok (name, q.valuePtr.val) ∧ name.base = optStr ∧ name.Inside ∧
      ∀ v, q.valuePtr.val = some (.stringView v) → v.base = optStr ∧ v.Inside
  reads : ∀ i ∈ optionReads optStr expectPrefix, i ≤ optStr.length

section Reads

variable {s chars : List UInt8} {p i : ℕ}

theorem strchrReads_le (h : i ∈ strchrReads s p) : i ≤ s.length := by
  have := (mem_upto.1 h).2
  omega

theorem strpbrkReads_le (hp : p ≤ s.length) (h : i ∈ strpbrkReads s p chars) : i ≤ s.length := by
  have hfind : ((s.drop p).findIdx fun c => c ∈ chars) ≤ (s.drop p).length := List.findIdx_le_length
  rw [List.length_drop] at hfind
  have := (mem_upto.1 h).2
  omega

theorem trimEndReads_le {dataPtr n : ℕ} (h : i ∈ trimEndReads s chars dataPtr n) : i + 1 ≤ n := by
  induction n with
  | zero => cases h
  | succ endPtr ih =>
    unfold trimEndReads at h
    split_ifs at h with hle hspace
    · rcases List.mem_cons.1 h with rfl | h
      · exact le_refl _
      · exact (ih h).trans (Nat.le_succ _)
    · rw [List.mem_singleton] at h
      omega
    · cases h

theorem rawStringSplitReads_le (hp : p ≤ s.length) (h : i ∈ rawStringSplitReads s p chars) : i ≤ s.length := by
  unfold rawStringSplitReads at h
  rcases List.mem_append.1 h with h | h
  · rcases List.mem_append.1 h with h | h
    · exact strchrReads_le h
    · exact strpbrkReads_le hp h
  · exact strchrReads_le h

theorem rawStringTrimReads_le (hp : p ≤ s.length) {maxChars : ℕ} (h : i ∈ rawStringTrimReads s p maxChars chars) :
    i ≤ s.length := by
  have hlead := (List.takeWhile_prefix (fun c => decide (c ∈ chars)) (l := s.drop p)).length_le
  rw [List.length_drop] at hlead
  unfold rawStringTrimReads at h
  dsimp only at h
  rcases List.mem_append.1 h with h | h
  · rcases List.mem_append.1 h with h | h
    · obtain ⟨k, hk, h⟩ := List.mem_flatMap.1 h
      have := List.mem_range.1 hk
      exact strpbrkReads_le (by omega) h
    · exact strchrReads_le h
  · have := trimEndReads_le h
    omega

/-- a view that ends with its string -/
theorem parseValueReads_le {v : NkStringView} (hv : v.dataPtr + v.sizeInBytes = v.base.length) (h : i ∈ parseValueReads v) :
    i ≤ v.base.length := by
  unfold parseValueReads at h
  dsimp only at h
  rcases List.mem_cons.1 h with rfl | h
  · omega
  · split_ifs at h
    · rcases List.mem_append.1 h with h | h
      · have hread := (numberReads_le h).2
        rw [List.length_drop] at hread
        omega
      · have := (mem_upto.1 h).2
        omega
    · rcases List.mem_pair.1 h with rfl | rfl <;> omega
    · have := (mem_upto.1 h).2
      omega

variable {optStr : List UInt8}

theorem parseFromReads_le (expectPrefix : Bool) (h : PrefixOk optStr expectPrefix) (hlen : optStr.length + 1 < 2 ^ 64)
    (hi : i ∈ parseFromReads optStr (if expectPrefix then 1 else 0)) : i ≤ optStr.length := by
  obtain ⟨a, ha, hstart⟩ := optionBody_eq h
  have hle : a.length ≤ optStr.length := by
    have hlength := congrArg List.length ha
    rw [List.length_append] at hlength
    omega
  have hsplit := rawStringSplit_eq ha
  rw [hstart] at hsplit hle
  unfold parseFromReads at hi
  simp only [hsplit, trim_value h hlen] at hi
  rcases List.mem_append.1 hi with hi | hi
  · rcases List.mem_append.1 hi with hi | hi
    · rcases List.mem_append.1 hi with hi | hi
      · exact rawStringSplitReads_le hle hi
      · exact rawStringTrimReads_le hle hi
    · exact rawStringTrimReads_le (Nat.sub_le _ _) hi
  · split_ifs at hi
    · cases hi
    · refine parseValueReads_le ?_ hi
      have hsuffix := ((leftTrimmed_suffix _).trans ((valueText_suffix _).trans (optionBody_suffix h))).length_le
      exact Nat.sub_add_cancel hsuffix

/-- only the string is read -/
theorem optionReads_le {expectPrefix : Bool} (hlen : optStr.length + 1 < 2 ^ 64) (hi : i ∈ optionReads optStr expectPrefix) :
    i ≤ optStr.length := by
  unfold optionReads at hi
  cases expectPrefix with
  | false => exact parseFromReads_le false nofun hlen hi
  | true =>
    rw [if_pos rfl] at hi
    rcases List.mem_append.1 hi with hi | hi
    · exact strpbrkReads_le (Nat.zero_le _) hi
    · by_cases hprefix : optStr.headD 0 ∈ prefixChars
      · have hexpect : expectChars optStr prefixChars = .ok 1 := if_pos hprefix
        rw [hexpect] at hi
        exact parseFromReads_le true (fun _ => hprefix) hlen hi
      · have hexpect : expectChars optStr prefixChars = .error .unexpectedCharacter := if_neg hprefix
        rw [hexpect] at hi
        exact strchrReads_le hi

end Reads

/-! ## Views -/

section Views

variable {optStr pre w : List UInt8} {expectPrefix : Bool} {v : NkStringView}

theorem nameView_inside (h : PrefixOk optStr expectPrefix) : (nameView optStr expectPrefix).Inside := by
  obtain ⟨a, ha, hstart⟩ := optionBody_eq h
  have hlength := congrArg List.length ha
  rw [List.length_append, ← length_name_rest (optionBody optStr expectPrefix)] at hlength
  have hle := List.length_dropWhile_le isSpaceChar (nameText (optionBody optStr expectPrefix))
  unfold NkStringView.Inside nameView
  dsimp only
  rw [← hstart]
  omega

/-- the view of a value that is a text is inside, unless the text is a lone quotation mark -/
theorem textView_inside_iff (hlen : (pre ++ w).length + 1 < 2 ^ 64) (hw : w ≠ []) (h0 : 0 ∉ w)
    (hv : parseValue (viewIn pre w []) = .ok (.stringView v)) :
    v.base = pre ++ w ∧ (v.Inside ↔ w ≠ [chQuote]) := by
  rw [List.length_append] at hlen
  have hpos : 0 < w.length := List.length_pos_iff.2 hw
  rw [parseValue_eq (by omega) hw h0] at hv
  have hsplit : Quoted w ∧ v = ⟨pre ++ (w ++ []), pre.length + 1, sub64 w.length 2⟩ ∨ ¬ Quoted w ∧ v = viewIn pre w [] := by
    by_cases hstart : startsNumber w = true
    · rw [if_pos hstart] at hv
      split_ifs at hv
      cases hv
    · rw [if_neg hstart] at hv
      by_cases hquoted : Quoted w
      · rw [if_pos hquoted] at hv
        cases hv
        exact Or.inl ⟨hquoted, rfl⟩
      · rw [if_neg hquoted] at hv
        cases hv
        exact Or.inr ⟨hquoted, rfl⟩
  unfold NkStringView.Inside
  rcases hsplit with ⟨hquoted, rfl⟩ | ⟨hquoted, rfl⟩
  · rw [List.append_nil]
    refine ⟨rfl, ?_⟩
    dsimp only
    rw [List.length_append]
    by_cases h2 : 2 ≤ w.length
    · rw [sub64_of_le h2 (by omega)]
      refine iff_of_true (by omega) ?_
      rintro rfl
      exact absurd h2 (by decide)
    · -- a lone quotation mark
      obtain ⟨c, rfl⟩ := List.length_eq_one_iff.1 (by omega : w.length = 1)
      have hc : c = chQuote := Option.some.inj hquoted.1
      have hwraps : sub64 [c].length 2 = 2 ^ 64 - 1 := by
        rw [List.length_singleton]
        decide
      refine iff_of_false ?_ fun h => h (by rw [hc])
      rw [hwraps]
      omega
  · unfold viewIn
    rw [List.append_nil]
    refine ⟨rfl, ?_⟩
    dsimp only
    rw [List.length_append]
    refine iff_of_true (le_refl _) ?_
    rintro rfl
    exact hquoted ⟨rfl, rfl⟩

/-- a pair that is made comes from an option that is parsed -/
theorem parsePair_some {c : EnvCalls} {blocks : Ledger ℕ} {q : Dstruct.HashtablePair (List UInt8) EnvEntry}
    (hq : (parsePair c optStr expectPrefix blocks).2.1 = some q) :
    ∃ name, parseOption optStr expectPrefix = .ok (name, q.valuePtr.val) := by
  unfold parsePair at hq
  cases hparse : parseOption optStr expectPrefix with
  | error errCode =>
    rw [hparse] at hq
    cases hq
  | ok x =>
    obtain ⟨name, val⟩ := x
    rw [hparse] at hq
    cases val with
    | none =>
      dsimp only at hq
      split_ifs at hq
      cases hq
      exact ⟨name, rfl⟩
    | some v =>
      dsimp only at hq
      split_ifs at hq
      cases hq
      exact ⟨name, rfl⟩

theorem parseOption_refused (h : ¬ PrefixOk optStr expectPrefix) :
    parseOption optStr expectPrefix = .error .unexpectedCharacter := by
  unfold PrefixOk at h
  obtain ⟨rfl, hhead⟩ := Classical.not_imp.1 h
  have hexpect : expectChars optStr prefixChars = .error .unexpectedCharacter := if_neg hhead
  rw [parseOption, if_pos rfl, hexpect]
  rfl

/-- an option that is parsed: its name and, unless there is none, its value -/
theorem parseOption_ok (hlen : optStr.length + 1 < 2 ^ 64) {name : NkStringView} {val : Option NkVariant}
    (hparse : parseOption optStr expectPrefix = .ok (name, val)) :
    PrefixOk optStr expectPrefix ∧ name = nameView optStr expectPrefix ∧
      (leftTrimmed (optionBody optStr expectPrefix) = [] ∧ val = none ∨
        leftTrimmed (optionBody optStr expectPrefix) ≠ [] ∧
          ∃ pre v, optStr = pre ++ leftTrimmed (optionBody optStr expectPrefix) ∧
            parseValue (viewIn pre (leftTrimmed (optionBody optStr expectPrefix)) []) = .ok v ∧ val = some v) := by
  by_cases h : PrefixOk optStr expectPrefix
  · refine ⟨h, ?_⟩
    obtain ⟨pre, hstr, hview⟩ := valueView_in h
    have heq := parseOption_eq h hlen
    rw [hparse, hview] at heq
    by_cases hw : leftTrimmed (optionBody optStr expectPrefix) = []
    · rw [if_pos hw] at heq
      obtain ⟨hname, hval⟩ := Prod.mk.inj (Except.ok.inj heq)
      exact ⟨hname, Or.inl ⟨hw, hval⟩⟩
    · rw [if_neg hw] at heq
      cases hvalue : parseValue (viewIn pre (leftTrimmed (optionBody optStr expectPrefix)) []) with
      | error errCode =>
        rw [hvalue] at heq
        cases heq
      | ok v =>
        rw [hvalue] at heq
        obtain ⟨hname, hval⟩ := Prod.mk.inj (Except.ok.inj heq)
        exact ⟨hname, Or.inr ⟨hw, pre, v, hstr, hvalue, hval⟩⟩
  · rw [parseOption_refused h] at hparse
    cases hparse

/-- Views and reads stay in the string, whatever the allocator answers, exactly if the option is refused for its prefix or
its value is not a lone quotation mark. -/
theorem bounds_right_iff (h0 : 0 ∉ optStr) (hlen : optStr.length + 1 < 2 ^ 64) :
    BoundsRight optStr expectPrefix ↔
      (PrefixOk optStr expectPrefix → leftTrimmed (optionBody optStr expectPrefix) ≠ [chQuote]) := by
  constructor
  · intro hright h hlone
    obtain ⟨pre, hstr, hview⟩ := valueView_in h
    rw [hlone] at hstr hview
    have hvalue : parseValue (viewIn pre [chQuote] []) =
        .ok (.stringView ⟨pre ++ ([chQuote] ++ []), pre.length + 1, sub64 1 2⟩) :=
      parseValue_eq (by decide) (by decide) (by decide)
    have hparse := parseOption_eq h hlen
    rw [if_neg (by rw [hlone]; nofun), hview, hvalue] at hparse
    have hpair := parsePair_value hparse (c := someCalls) rfl rfl Ledger.new
    obtain ⟨name, -, -, -, hinside⟩ := hright.views someCalls Ledger.new _ hpair.1 hpair.2
    rw [hstr] at hlen
    exact (textView_inside_iff hlen (by decide) (by decide) hvalue).2.1 (hinside _ rfl).2 rfl
  · intro hcond
    refine ⟨?_, fun i hi => optionReads_le hlen hi⟩
    intro c blocks q _ hq
    obtain ⟨name, hparse⟩ := parsePair_some hq
    obtain ⟨h, rfl, ⟨-, hnone⟩ | ⟨hw, pre, v, hstr, hvalue, hval⟩⟩ := parseOption_ok hlen hparse
    · refine ⟨_, hparse, rfl, nameView_inside h, fun v hv => ?_⟩
      rw [hnone] at hv
      cases hv
    · refine ⟨_, hparse, rfl, nameView_inside h, fun v' hv' => ?_⟩
      obtain rfl : v = .stringView v' := Option.some.inj (hval.symm.trans hv')
      have hw0 : 0 ∉ leftTrimmed (optionBody optStr expectPrefix) :=
        fun hmem => h0 (hstr ▸ List.mem_append_right pre hmem)
      have hlen' := hlen
      rw [hstr] at hlen'
      obtain ⟨hbase, hiff⟩ := textView_inside_iff hlen' hw hw0 hvalue
      exact ⟨hbase.trans hstr.symm, hiff.2 (hcond h)⟩

/-- the option -k="" -/
theorem quotes_bounded : BoundsRight [0x2d, 0x6b, 0x3d, 0x22, 0x22] true :=
  (bounds_right_iff (by decide) (by decide)).2 fun _ => by decide

/-- the option -k=" has a view of 2^64 - 1 bytes -/
theorem lone_quote_broken : ¬ BoundsRight [0x2d, 0x6b, 0x3d, 0x22] true := by
  intro hright
  have hparse : parseOption [0x2d, 0x6b, 0x3d, 0x22] true =
      .ok (⟨[0x2d, 0x6b, 0x3d, 0x22], 1, 1⟩, some (.stringView ⟨[0x2d, 0x6b, 0x3d, 0x22], 4, 2 ^ 64 - 1⟩)) := by
    decide
  have hpair := parsePair_value hparse (c := someCalls) rfl rfl Ledger.new
  obtain ⟨name, -, -, -, hinside⟩ := hright.views someCalls Ledger.new _ hpair.1 hpair.2
  exact absurd (hinside _ rfl).2 (by decide)

end Views

end Noriko.Env
