/-
`strtod` in the locale "C": the text of a number, and the nearest binary64.

A text is the list of its bytes up to the `NUL`. The exact value is a rational number, and it is rounded to double precision;
a value that is too large becomes infinite. `strtod` goes as far as the text continues a number, so an exponent that follows
can make any value infinite or zero (`strtod_huge`, `strtod_tiny`).
-/
import Mathlib.Data.List.Induction
import Noriko.Lib.CString
import Noriko.Lib.Rounding

namespace Lib

/-! ## The format -/

inductive Binary64 where
  | finite (negative : Bool) (abs : ℚ)
  | infinite (negative : Bool)
  | nan
deriving DecidableEq, Repr

/-- the nearest number of the format for `q ≥ 0` -/
def toBinary64 (negative : Bool) (q : ℚ) : Binary64 :=
  if (2 : ℚ) ^ (1024 : ℤ) ≤ double q then .infinite negative else .finite negative (double q)

/-! ## Texts -/

def digitOf (c : UInt8) : Option ℕ :=
  if 0x30 ≤ c ∧ c ≤ 0x39 then some (c.toNat - 0x30)
  else if 0x61 ≤ c ∧ c ≤ 0x66 then some (c.toNat - 0x61 + 10)
  else if 0x41 ≤ c ∧ c ≤ 0x46 then some (c.toNat - 0x41 + 10)
  else none

def isDigitOf (base : ℕ) (c : UInt8) : Bool := (digitOf c).any (· < base)

def digitsVal (base : ℕ) (l : List UInt8) : ℕ := l.foldl (fun n c => base * n + (digitOf c).getD 0) 0

/-- an optional sign, and the rest -/
def readSign : List UInt8 → Bool × List UInt8
  | [] => (false, [])
  | c :: s => if c = 0x2b then (false, s) else if c = 0x2d then (true, s) else (false, c :: s)

/-- an exponent, which is 0 if there is none -/
def readExponent (expChars : List UInt8) : List UInt8 → ℤ
  | [] => 0
  | c :: s =>
    if c ∈ expChars then
      let e := digitsVal 10 ((readSign s).2.takeWhile (isDigitOf 10))
      if (readSign s).1 then -e else e
    else 0

/-- digits with an optional point, at least one, and an exponent to base `expBase` -/
def readNumber (base expBase : ℕ) (expChars s : List UInt8) : Option ℚ :=
  let ds := s.takeWhile (isDigitOf base)
  let rest := s.dropWhile (isDigitOf base)
  let point := rest.head? = some 0x2e
  let fs := if point then rest.tail.takeWhile (isDigitOf base) else []
  let rest := if point then rest.tail.dropWhile (isDigitOf base) else rest
  if ds = [] ∧ fs = [] then none
  else some (digitsVal base (ds ++ fs) / (base : ℚ) ^ fs.length * (expBase : ℚ) ^ readExponent expChars rest)

/-- a number after the sign: a hexadecimal one behind 0x, or a decimal one -/
def readValue (s : List UInt8) : Option ℚ :=
  let hex := if (s.take 2).map lower = [0x30, 0x78] then readNumber 16 2 [0x70, 0x50] (s.drop 2) else none
  hex <|> readNumber 10 10 [0x65, 0x45] s

def isSpace (c : UInt8) : Bool := c = 0x20 ∨ 0x09 ≤ c ∧ c ≤ 0x0d

/-- `strtod`; a text that does not start with a number gives 0 -/
def strtod (s : List UInt8) : Binary64 :=
  let x := readSign (s.dropWhile isSpace)
  if (x.2.take 3).map lower = [0x69, 0x6e, 0x66] then .infinite x.1
  else if (x.2.take 3).map lower = [0x6e, 0x61, 0x6e] then .nan
  else match readValue x.2 with
    | some q => toBinary64 x.1 q
    | none => .finite false 0

/-! ## Overflow and underflow -/

theorem toBinary64_huge (negative : Bool) {q : ℚ} (h : (2 : ℚ) ^ (1024 : ℤ) ≤ q) :
    toBinary64 negative q = .infinite negative :=
  if_pos (le_rounded (by decide) h (fits_two_zpow (by decide) (by decide)))

theorem toBinary64_tiny (negative : Bool) {q : ℚ} (h0 : 0 < q) (h : q < (2 : ℚ) ^ (-1075 : ℤ)) :
    toBinary64 negative q = .finite negative 0 := by
  have hhalf : (2 : ℚ) ^ (-1075 : ℤ) = 2 ^ (-1074 : ℤ) / 2 := by
    rw [show (-1075 : ℤ) = -1074 - 1 by rfl, zpow_sub_one₀ two_ne_zero, div_eq_mul_inv]
  have hzero : double q = 0 := rounded_tiny h0 (h.trans_eq hhalf) (by decide)
  have hbig : ¬ (2 : ℚ) ^ (1024 : ℤ) ≤ 0 := not_le.2 (zpow_pos two_pos _)
  rw [toBinary64, hzero, if_neg hbig]

/-! ## Digits behind a point, and an exponent -/

section Dotted

variable {ds fs es : List UInt8} {c : UInt8}

theorem isDigitOf_ten : isDigitOf 10 c = true ↔ 0x30 ≤ c ∧ c ≤ 0x39 := by
  unfold isDigitOf digitOf
  split_ifs with hdec hlow hup
  · simp only [Option.any_some, decide_eq_true_eq, iff_true_right hdec]
    have h1 := UInt8.le_iff_toNat_le.1 hdec.1
    have h2 := UInt8.le_iff_toNat_le.1 hdec.2
    have h39 : (0x39 : UInt8).toNat = 0x39 := rfl
    omega
  · simp [hdec]
  · simp [hdec]
  · simp [hdec]

theorem digit_lt (h : isDigitOf 10 c = true) : (digitOf c).getD 0 < 10 := by
  unfold isDigitOf at h
  cases hd : digitOf c with
  | none => simp
  | some d => simpa [hd] using h

theorem digitsVal_append_one (base : ℕ) (l : List UInt8) (c : UInt8) :
    digitsVal base (l ++ [c]) = base * digitsVal base l + (digitOf c).getD 0 := by
  simp [digitsVal]

theorem one_le_digitsVal (ds fs : List UInt8) : 1 ≤ digitsVal 10 (ds ++ (fs ++ [0x31])) := by
  rw [← List.append_assoc, digitsVal_append_one]
  exact Nat.le_add_left 1 _

theorem digitsVal_lt (h : ∀ c ∈ ds, isDigitOf 10 c = true) : digitsVal 10 ds < 10 ^ ds.length := by
  induction ds using List.reverseRecOn with
  | nil => simp [digitsVal]
  | append_singleton l c ih =>
    have hl := ih fun x hx => h x (List.mem_append_left _ hx)
    have hc := digit_lt (h c (by simp))
    rw [digitsVal_append_one, List.length_append, List.length_singleton, Nat.pow_succ]
    omega

theorem readNumber_dotted (hds : ∀ c ∈ ds, isDigitOf 10 c = true) (hfs : ∀ c ∈ fs, isDigitOf 10 c = true) :
    readNumber 10 10 [0x65, 0x45] (ds ++ 0x2e :: (fs ++ 0x31 :: 0x65 :: es)) =
      some (digitsVal 10 (ds ++ (fs ++ [0x31])) / (10 : ℚ) ^ (fs.length + 1) *
        (10 : ℚ) ^ readExponent [0x65, 0x45] (0x65 :: es)) := by
  have hpoint : isDigitOf 10 0x2e = false := by decide
  have hone : isDigitOf 10 0x31 = true := by decide
  have hexp : isDigitOf 10 0x65 = false := by decide
  have htake : (ds ++ 0x2e :: (fs ++ 0x31 :: 0x65 :: es)).takeWhile (isDigitOf 10) = ds := by
    rw [List.takeWhile_append_of_pos hds]
    simp [hpoint]
  have hdrop : (ds ++ 0x2e :: (fs ++ 0x31 :: 0x65 :: es)).dropWhile (isDigitOf 10) =
      0x2e :: (fs ++ 0x31 :: 0x65 :: es) := by
    rw [List.dropWhile_append_of_pos hds]
    simp [hpoint]
  have htakes : (fs ++ 0x31 :: 0x65 :: es).takeWhile (isDigitOf 10) = fs ++ [0x31] := by
    rw [List.takeWhile_append_of_pos hfs]
    simp [hone, hexp]
  have hdrops : (fs ++ 0x31 :: 0x65 :: es).dropWhile (isDigitOf 10) = 0x65 :: es := by
    rw [List.dropWhile_append_of_pos hfs]
    simp [hone, hexp]
  unfold readNumber
  simp only [htake, hdrop, List.head?_cons, if_true, List.tail_cons, htakes, hdrops]
  simp

theorem lower_of_le (h : c ≤ 0x39) : lower c = c := by
  have hno : ¬ (0x41 ≤ c ∧ c ≤ 0x5a) := fun hup => absurd (UInt8.le_trans hup.1 h) (by decide)
  exact if_neg hno

/-- digits in front of a point: the first byte is a digit or the point -/
theorem dotted_cons (hds : ∀ c ∈ ds, isDigitOf 10 c = true) (s : List UInt8) :
    ∃ c r, ds ++ 0x2e :: s = c :: r ∧ 0x2e ≤ c ∧ c ≤ 0x39 := by
  cases ds with
  | nil => exact ⟨0x2e, s, rfl, by decide, by decide⟩
  | cons d ds =>
    have hd := isDigitOf_ten.1 (hds d List.mem_cons_self)
    exact ⟨d, ds ++ 0x2e :: s, rfl, UInt8.le_trans (by decide) hd.1, hd.2⟩

/-- digits in front of a point are not a hexadecimal number -/
theorem readValue_dotted (hds : ∀ c ∈ ds, isDigitOf 10 c = true) (s : List UInt8) :
    readValue (ds ++ 0x2e :: s) = readNumber 10 10 [0x65, 0x45] (ds ++ 0x2e :: s) := by
  have hhex : (((ds ++ 0x2e :: s).take 2).map lower = [0x30, 0x78]) = False := by
    rw [eq_iff_iff, iff_false]
    intro heq
    rcases ds with _ | ⟨d, _ | ⟨d', ds⟩⟩
    · rcases s with _ | ⟨c, s⟩ <;> simp [lower] at heq
    · simp [lower] at heq
    · have hd' : isDigitOf 10 d' = true := hds d' (by simp)
      simp only [List.cons_append, List.take_succ_cons, List.take_zero, List.map_cons, List.map_nil,
        lower_of_le (isDigitOf_ten.1 hd').2, List.cons.injEq, and_true] at heq
      rw [heq.2] at hd'
      exact absurd hd' (by decide)
  unfold readValue
  simp only [hhex, if_false]
  rfl

/-- an optional sign, and a decimal number with a point -/
theorem strtod_dotted {sign s : List UInt8} {q : ℚ} (hsign : sign = [] ∨ sign = [0x2b] ∨ sign = [0x2d])
    (hds : ∀ c ∈ ds, isDigitOf 10 c = true) (hq : readNumber 10 10 [0x65, 0x45] (ds ++ 0x2e :: s) = some q) :
    strtod (sign ++ (ds ++ 0x2e :: s)) = toBinary64 (sign = [0x2d]) q := by
  rw [← readValue_dotted hds] at hq
  obtain ⟨c, r, hcr, hlo, hhi⟩ := dotted_cons hds s
  rw [hcr] at hq ⊢
  have hplus : c ≠ 0x2b := fun h => absurd (h ▸ hlo) (by decide)
  have hminus : c ≠ 0x2d := fun h => absurd (h ▸ hlo) (by decide)
  have hspace : isSpace c = false := by
    unfold isSpace
    rw [decide_eq_false_iff_not]
    rintro (h | ⟨-, h⟩)
    · exact absurd (h ▸ hlo) (by decide)
    · exact absurd (UInt8.le_trans hlo h) (by decide)
  have hread : readSign ((sign ++ c :: r).dropWhile isSpace) = (decide (sign = [0x2d]), c :: r) := by
    have hs1 : isSpace 0x2b = false := by decide
    have hs2 : isSpace 0x2d = false := by decide
    rcases hsign with rfl | rfl | rfl
    · simp [hspace, readSign, hplus, hminus]
    · simp [hs1, readSign]
    · simp [hs2, readSign]
  have hword : ∀ a l, 0x39 < a → ((c :: r).take 3).map lower ≠ a :: l := by
    intro a l ha heq
    rw [List.take_succ_cons, List.map_cons, lower_of_le hhi, List.cons.injEq] at heq
    exact absurd (heq.1 ▸ hhi) (UInt8.not_le.2 ha)
  unfold strtod
  simp only [hread, hword 0x69 [0x6e, 0x66] (by decide), hword 0x6e [0x61, 0x6e] (by decide), if_false, hq]

/-- the digits of an exponent that no length of a text reaches -/
def nines : List UInt8 := List.replicate 20 0x39

theorem exponent_nines : ∃ n : ℤ, 2 ^ 65 ≤ n ∧ readExponent [0x65, 0x45] (0x65 :: nines) = n ∧
    readExponent [0x65, 0x45] (0x65 :: 0x2d :: nines) = -n :=
  ⟨99999999999999999999, by decide, by decide, by decide⟩

/-- the value in scientific notation -/
theorem dotted_value (m f : ℕ) (n : ℤ) : (m : ℚ) / 10 ^ (f + 1) * 10 ^ n = m * 10 ^ (n - (f + 1)) := by
  rw [zpow_sub₀ (by norm_num), div_mul_eq_mul_div, mul_div_assoc]
  norm_cast

/-- a digit and a large exponent behind a number with a point make it infinite -/
theorem strtod_huge {sign : List UInt8} (hsign : sign = [] ∨ sign = [0x2b] ∨ sign = [0x2d])
    (hds : ∀ c ∈ ds, isDigitOf 10 c = true) (hfs : ∀ c ∈ fs, isDigitOf 10 c = true) (hlen : fs.length < 2 ^ 64) :
    strtod (sign ++ (ds ++ 0x2e :: (fs ++ 0x31 :: 0x65 :: nines))) = .infinite (sign = [0x2d]) := by
  obtain ⟨n, hn, hexp, -⟩ := exponent_nines
  rw [strtod_dotted hsign hds (readNumber_dotted hds hfs), hexp, dotted_value]
  apply toBinary64_huge
  have hone := one_le_digitsVal ds fs
  calc (2 : ℚ) ^ (1024 : ℤ) ≤ 10 ^ (1024 : ℤ) := zpow_le_zpow_left₀ (by norm_num) (by norm_num) (by norm_num)
    _ ≤ 10 ^ (n - (fs.length + 1)) := zpow_le_zpow_right₀ (by norm_num) (by omega)
    _ ≤ digitsVal 10 (ds ++ (fs ++ [0x31])) * 10 ^ (n - (fs.length + 1)) :=
      le_mul_of_one_le_left (zpow_nonneg (by norm_num) _) (by exact_mod_cast hone)

/-- a digit and a small exponent behind a number with a point make it zero -/
theorem strtod_tiny {sign : List UInt8} (hsign : sign = [] ∨ sign = [0x2b] ∨ sign = [0x2d])
    (hds : ∀ c ∈ ds, isDigitOf 10 c = true) (hfs : ∀ c ∈ fs, isDigitOf 10 c = true) (hlen : ds.length < 2 ^ 64) :
    strtod (sign ++ (ds ++ 0x2e :: (fs ++ 0x31 :: 0x65 :: 0x2d :: nines))) = .finite (sign = [0x2d]) 0 := by
  obtain ⟨n, hn, -, hexp⟩ := exponent_nines
  rw [strtod_dotted hsign hds (readNumber_dotted hds hfs), hexp, dotted_value]
  have hall : ∀ c ∈ ds ++ (fs ++ [0x31]), isDigitOf 10 c = true := by
    intro c hc
    rcases List.mem_append.1 hc with hc | hc
    · exact hds c hc
    · rcases List.mem_append.1 hc with hc | hc
      · exact hfs c hc
      · rw [List.mem_singleton.1 hc]
        decide
  have hone := one_le_digitsVal ds fs
  have hlt : (digitsVal 10 (ds ++ (fs ++ [0x31])) : ℚ) < 10 ^ ((ds.length : ℤ) + (fs.length + 1)) := by
    have h := digitsVal_lt hall
    simp only [List.length_append, List.length_singleton] at h
    exact_mod_cast h
  apply toBinary64_tiny
  · exact mul_pos (by exact_mod_cast hone) (zpow_pos (by norm_num) _)
  · calc (digitsVal 10 (ds ++ (fs ++ [0x31])) : ℚ) * 10 ^ (-n - (fs.length + 1))
        < 10 ^ ((ds.length : ℤ) + (fs.length + 1)) * 10 ^ (-n - (fs.length + 1)) :=
          mul_lt_mul_of_pos_right hlt (zpow_pos (by norm_num) _)
      _ = 10 ^ (ds.length - n) := by
        rw [← zpow_add₀ (by norm_num)]
        congr 1
        omega
      _ ≤ 10 ^ (-1075 : ℤ) := zpow_le_zpow_right₀ (by norm_num) (by omega)
      _ ≤ 2 ^ (-1075 : ℤ) := by
        rw [zpow_neg, zpow_neg]
        exact inv_anti₀ (zpow_pos two_pos _) (zpow_le_zpow_left₀ (by norm_num) (by norm_num) (by norm_num))

end Dotted

end Lib
