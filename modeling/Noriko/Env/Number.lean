/-
What `__NkInt_EnvParseNumber` makes of a view into a larger buffer (`env.c`).

The buffer is a string with the view somewhere in it. `afterNumber` is what is left of the view behind a number, so the view
is a number exactly if nothing is left.

Three defects make a view depend on the bytes behind it. If the view ends with the digits in front of a point, the second
loop over digits starts with a counter of 0, which wraps. A `NUL` in the view counts as its end. And `strtod` gets the
address of the view without its size, so a number goes on behind the view. So the function is right exactly for the views
that it has to refuse, and for a byte other than `NUL` (`parseNumber_right_iff`).
-/
import Noriko.Env.Parse
import Noriko.Lib.Strtod
import Mathlib.Data.List.TakeWhile

namespace Noriko.Env

open Lib

/-! ## The call -/

/-- the view of `t` in a buffer -/
def viewIn (pre t post : List UInt8) : NkStringView := ⟨pre ++ (t ++ post), pre.length, t.length⟩

/-- the text at `decPtr` and `charsToGo` when the scan is over -/
def scanNumber (rawVal : NkStringView) : List UInt8 × ℕ :=
  let x := skipOne isSign (rawVal.base.drop rawVal.dataPtr, rawVal.sizeInBytes)
  let x := skipDigits x.1 x.2
  let x := skipOne (fun c => c = chDot) x
  skipDigits x.1 x.2

/-- the number of a variant -/
def NkVariant.number : NkVariant → Option Binary64
  | .double text => some (strtod text)
  | .stringView _ => none

/-- what `__NkInt_EnvParseNumber` returns, and the number that it writes to `*resPtr`, if any -/
def parseNumberTo (rawVal : NkStringView) : NkErrorCode × Option Binary64 :=
  match parseNumber rawVal with
  | .ok v => (.ok, v.number)
  | .error errCode => (errCode, none)

/-- the offsets that a loop over digits reads, from `decPtr` on -/
def skipDigitsReads : List UInt8 → ℕ → ℕ → List ℕ
  | [], _, decPtr => [decPtr]
  | c :: cs, charsToGo, decPtr =>
    decPtr :: if isDigit c ∧ sub64 charsToGo 1 ≠ 0 then skipDigitsReads cs (sub64 charsToGo 1) (decPtr + 1) else []

/-- the offsets that are read until the decision -/
def numberReads (rawVal : NkStringView) : List ℕ :=
  let text := rawVal.base.drop rawVal.dataPtr
  let decPtr := fun x : List UInt8 × ℕ => rawVal.dataPtr + (text.length - x.1.length)
  let x₁ := skipOne isSign (text, rawVal.sizeInBytes)
  let x₂ := skipDigits x₁.1 x₁.2
  let x₃ := skipOne (fun c => c = chDot) x₂
  let x₄ := skipDigits x₃.1 x₃.2
  [rawVal.dataPtr] ++ skipDigitsReads x₁.1 x₁.2 (decPtr x₁) ++ [decPtr x₂] ++ skipDigitsReads x₃.1 x₃.2 (decPtr x₃) ++
    if 0 < x₄.2 then [decPtr x₄] else []

/-! ## Numbers -/

/-- `[+-]?digits*(.digits*)?` -/
def IsNumber (t : List UInt8) : Prop :=
  ∃ sign ds frac, t = sign ++ (ds ++ frac) ∧ (sign = [] ∨ ∃ c, isSign c ∧ sign = [c]) ∧ (∀ c ∈ ds, isDigit c) ∧
    (frac = [] ∨ ∃ fs, frac = chDot :: fs ∧ ∀ c ∈ fs, isDigit c)

def dropOne (p : UInt8 → Bool) : List UInt8 → List UInt8
  | [] => []
  | c :: t => if p c then t else c :: t

/-- what is left behind a number -/
def afterNumber (t : List UInt8) : List UInt8 :=
  (dropOne (fun c => c = chDot) ((dropOne isSign t).dropWhile isDigit)).dropWhile isDigit

/-- the decision is made on the view alone and is the right one, a refusal leaves the result, and the outcome is the same in
all buffers -/
structure NumberRight (t : List UInt8) : Prop where
  inside : ∀ pre post, ∀ i ∈ numberReads (viewIn pre t post), pre.length ≤ i ∧ i < pre.length + t.length
  verdict : ∀ pre post, (parseNumberTo (viewIn pre t post)).1 = .ok ↔ IsNumber t
  untouched : ∀ pre post, (parseNumberTo (viewIn pre t post)).1 ≠ .ok → (parseNumberTo (viewIn pre t post)).2 = none
  alone : ∀ pre post pre' post', parseNumberTo (viewIn pre t post) = parseNumberTo (viewIn pre' t post')

section Grammar

variable {t : List UInt8} {c : UInt8} {p : UInt8 → Bool}

theorem not_digit_of_sign (h : isSign c = true) : isDigit c = false := by
  unfold isSign at h
  rcases of_decide_eq_true h with rfl | rfl <;> rfl

theorem dropOne_eq (p : UInt8 → Bool) (t : List UInt8) :
    ∃ l, t = l ++ dropOne p t ∧ (l = [] ∨ ∃ c, p c = true ∧ l = [c]) := by
  cases t with
  | nil => exact ⟨[], rfl, Or.inl rfl⟩
  | cons c t =>
    by_cases hc : p c = true
    · exact ⟨[c], by simp [dropOne, hc], Or.inr ⟨c, hc, rfl⟩⟩
    · exact ⟨[], by simp [dropOne, hc], Or.inl rfl⟩

theorem dropOne_of_not (h : ∀ c ∈ t.head?, p c = false) : dropOne p t = t := by
  cases t with
  | nil => rfl
  | cons c t =>
    have hc : p c = false := h c rfl
    simp [dropOne, hc]

theorem dropWhile_digits {ds r : List UInt8} (hds : ∀ c ∈ ds, isDigit c = true) (hr : ∀ c ∈ r.head?, isDigit c = false) :
    (ds ++ r).dropWhile isDigit = r := by
  rw [List.dropWhile_append_of_pos hds]
  cases r with
  | nil => rfl
  | cons c r =>
    have hc : isDigit c = false := hr c rfl
    simp [hc]

theorem head_dropWhile (h : (t.dropWhile p).head? = some c) : p c = false := by
  have hhead := List.head?_dropWhile_not p t
  rwa [h] at hhead

theorem not_sign_of_digit (h : isDigit c = true) : isSign c = false := by
  by_contra hsign
  rw [not_digit_of_sign (Bool.not_eq_false _ ▸ hsign)] at h
  cases h

/-- a sign in front of a text without one -/
theorem dropOne_sign {sign l : List UInt8} (hsign : sign = [] ∨ ∃ c, isSign c = true ∧ sign = [c])
    (hl : ∀ c ∈ l.head?, isSign c = false) : dropOne isSign (sign ++ l) = l := by
  rcases hsign with rfl | ⟨c, hc, rfl⟩
  · exact dropOne_of_not hl
  · simp [dropOne, hc]

/-- a text is a number exactly if nothing is left behind a number -/
theorem isNumber_iff (t : List UInt8) : IsNumber t ↔ afterNumber t = [] := by
  unfold afterNumber
  constructor
  · rintro ⟨sign, ds, frac, rfl, hsign, hds, hfrac⟩
    have hfrachead : ∀ c ∈ frac.head?, isDigit c = false := by
      rcases hfrac with rfl | ⟨fs, rfl, -⟩
      · intro c hc
        cases hc
      · intro c hc
        cases hc
        rfl
    have hbody : dropOne isSign (sign ++ (ds ++ frac)) = ds ++ frac := by
      refine dropOne_sign hsign fun c hc => ?_
      rcases ds with _ | ⟨d, ds⟩
      · rcases hfrac with rfl | ⟨fs, rfl, -⟩
        · cases hc
        · cases hc
          rfl
      · cases hc
        exact not_sign_of_digit (hds _ List.mem_cons_self)
    rw [hbody, dropWhile_digits hds hfrachead]
    rcases hfrac with rfl | ⟨fs, rfl, hfs⟩
    · rfl
    · simpa [dropOne] using List.dropWhile_eq_nil_iff.2 hfs
  · intro hnil
    obtain ⟨sign, ht, hsign⟩ := dropOne_eq isSign t
    obtain ⟨dot, hr, hdot⟩ := dropOne_eq (fun c => c = chDot) ((dropOne isSign t).dropWhile isDigit)
    have hfs := List.dropWhile_eq_nil_iff.1 hnil
    refine ⟨sign, (dropOne isSign t).takeWhile isDigit, (dropOne isSign t).dropWhile isDigit, ?_, hsign, ?_, ?_⟩
    · rw [List.takeWhile_append_dropWhile]
      exact ht
    · exact fun c hc => List.mem_takeWhile_imp hc
    · rcases hdot with rfl | ⟨c, hc, rfl⟩
      · -- without a point, no digit follows the digits
        left
        rw [List.nil_append] at hr
        rw [← hr] at hfs
        rcases hl : (dropOne isSign t).dropWhile isDigit with _ | ⟨c, l⟩
        · rfl
        · have hno : isDigit c = false := head_dropWhile (t := dropOne isSign t) (by rw [hl]; rfl)
          have hyes := hfs c (by rw [hl]; exact List.mem_cons_self)
          rw [hno] at hyes
          cases hyes
      · right
        refine ⟨_, ?_, hfs⟩
        rw [of_decide_eq_true hc] at hr
        exact hr

end Grammar

/-! ## The scan -/

section Scan

variable {p : UInt8 → Bool} {c last : UInt8} {r t pre post : List UInt8}

/-- where a scan stands with `r` left of the view: at the last byte, once nothing is left -/
def scanAt (last : UInt8) (r post : List UInt8) : List UInt8 × ℕ := if r = [] then (last :: post, 0) else (r ++ post, r.length)

theorem scanAt_nil : scanAt last [] post = (last :: post, 0) := rfl

theorem scanAt_cons : scanAt last (c :: r) post = (c :: (r ++ post), r.length + 1) := rfl

/-- a suffix has the same last byte -/
theorem getLast_suffix {l : List UInt8} (h : t.getLast? = some last) (ht : t = l ++ r) (hr : r ≠ []) :
    r.getLast? = some last := by
  rw [ht, List.getLast?_append_of_ne_nil l hr] at h
  exact h

theorem skipOne_scanAt (hlen : r.length < 2 ^ 64) (hlast : r.getLast? = some last) :
    skipOne p (scanAt last r post) = scanAt last (dropOne p r) post := by
  cases r with
  | nil => cases hlast
  | cons c r =>
    have hsub : sub64 (r.length + 1) 1 = r.length := sub64_of_le (by omega) hlen
    rw [scanAt_cons]
    by_cases hc : p c = true
    · cases r with
      | nil =>
        cases hlast
        have hone : sub64 1 1 = 0 := by decide
        simp [skipOne, dropOne, hc, hone, scanAt_nil]
      | cons c' r =>
        rw [List.length_cons] at hsub
        simp [skipOne, dropOne, hc, hsub, scanAt_cons]
    · simp [skipOne, dropOne, hc, scanAt_cons]

theorem skipDigits_scanAt (hlen : r.length < 2 ^ 64) (hlast : r.getLast? = some last) :
    skipDigits (scanAt last r post).1 (scanAt last r post).2 = scanAt last (r.dropWhile isDigit) post := by
  induction r with
  | nil => cases hlast
  | cons c r ih =>
    have hsub : sub64 (r.length + 1) 1 = r.length := sub64_of_le (by omega) hlen
    rw [scanAt_cons]
    by_cases hc : isDigit c = true
    · cases r with
      | nil =>
        cases hlast
        have hone : sub64 1 1 = 0 := by decide
        simp [skipDigits, hc, hone, scanAt_nil]
      | cons c' r =>
        have hrest := ih (Nat.lt_of_succ_lt hlen) hlast
        rw [scanAt_cons] at hrest
        rw [List.length_cons] at hsub
        rw [List.dropWhile_cons_of_pos hc, ← hrest, skipDigits]
        simp [hc, hsub]
    · simp [skipDigits, hc, scanAt_cons]

/-- at the last byte of the view, a digit lets the counter wrap, and the loop goes on behind the view -/
theorem skipDigits_wraps (h : isDigit last = true) : skipDigits (last :: post) 0 = skipDigits post (2 ^ 64 - 1) := by
  have hsub : sub64 0 1 = 2 ^ 64 - 1 := by decide
  simp only [skipDigits, h, if_true, hsub]
  rw [if_neg (by decide)]

theorem skipDigits_stop (h : isDigit last = false) (n : ℕ) : skipDigits (last :: post) n = (last :: post, n) := by
  simp [skipDigits, h]

theorem skipOne_stop (h : p last = false) (n : ℕ) : skipOne p (last :: post, n) = (last :: post, n) := by
  simp [skipOne, h]

/-- digits up to the end of the view, and no point -/
def EndsInInteger (t : List UInt8) : Prop := dropOne isSign t ≠ [] ∧ (dropOne isSign t).dropWhile isDigit = []

theorem last_of_dropOne (hlast : t.getLast? = some last) (hnil : dropOne p t = []) : p last = true := by
  obtain ⟨l, ht, hl⟩ := dropOne_eq p t
  rw [hnil, List.append_nil] at ht
  rcases hl with rfl | ⟨c, hc, rfl⟩
  · rw [ht] at hlast
    cases hlast
  · rw [ht] at hlast
    cases hlast
    exact hc

theorem last_of_dropWhile (hlast : t.getLast? = some last) (hnil : t.dropWhile p = []) : p last = true :=
  List.dropWhile_eq_nil_iff.1 hnil last (List.mem_of_getLast? hlast)

theorem dropOne_last (hlast : t.getLast? = some last) (hne : dropOne p t ≠ []) : (dropOne p t).getLast? = some last := by
  obtain ⟨l, ht, -⟩ := dropOne_eq p t
  exact getLast_suffix hlast ht hne

theorem dropWhile_last (hlast : t.getLast? = some last) (hne : t.dropWhile p ≠ []) :
    (t.dropWhile p).getLast? = some last :=
  getLast_suffix hlast (List.takeWhile_append_dropWhile).symm hne

theorem dropOne_length (p : UInt8 → Bool) (t : List UInt8) : (dropOne p t).length ≤ t.length := by
  obtain ⟨l, ht, -⟩ := dropOne_eq p t
  conv_rhs => rw [ht, List.length_append]
  exact Nat.le_add_left _ _

/-- the scan of a view: the first two steps, and what follows -/
theorem scanNumber_start (hlen : t.length < 2 ^ 64) (hlast : t.getLast? = some last) :
    scanNumber (viewIn pre t post) =
      let x := skipDigits (scanAt last (dropOne isSign t) post).1 (scanAt last (dropOne isSign t) post).2
      skipDigits (skipOne (fun c => c = chDot) x).1 (skipOne (fun c => c = chDot) x).2 := by
  have hne : t ≠ [] := by
    rintro rfl
    cases hlast
  have htext : (viewIn pre t post).base.drop (viewIn pre t post).dataPtr = t ++ post := List.drop_left
  have hstart : (t ++ post, (viewIn pre t post).sizeInBytes) = scanAt last t post := (if_neg hne).symm
  unfold scanNumber
  rw [htext, hstart, skipOne_scanAt hlen hlast]

theorem scanNumber_integer (hlen : t.length < 2 ^ 64) (hlast : t.getLast? = some last) (h : EndsInInteger t) :
    scanNumber (viewIn pre t post) = skipDigits post (2 ^ 64 - 1) := by
  obtain ⟨hne, hnil⟩ := h
  have hl := dropOne_last hlast hne
  have hdigit := last_of_dropWhile hl hnil
  have hdot : decide (last = chDot) = false := by
    refine decide_eq_false ?_
    rintro rfl
    cases hdigit
  rw [scanNumber_start hlen hlast, skipDigits_scanAt ((dropOne_length _ _).trans_lt hlen) hl, hnil, scanAt_nil]
  dsimp only
  rw [skipOne_stop hdot, skipDigits_wraps hdigit]

theorem scanNumber_eq (hlen : t.length < 2 ^ 64) (hlast : t.getLast? = some last) (h : ¬ EndsInInteger t) :
    scanNumber (viewIn pre t post) = scanAt last (afterNumber t) post := by
  rw [scanNumber_start hlen hlast]
  dsimp only
  by_cases hsign : dropOne isSign t = []
  · -- a lone sign
    have hl := last_of_dropOne hlast hsign
    have hdigit := not_digit_of_sign hl
    have hdot : decide (last = chDot) = false := by
      refine decide_eq_false ?_
      rintro rfl
      cases hl
    unfold afterNumber
    rw [hsign, scanAt_nil, skipDigits_stop hdigit, skipOne_stop hdot, skipDigits_stop hdigit]
    rfl
  · have hl := dropOne_last hlast hsign
    have hlen₁ := (dropOne_length isSign t).trans_lt hlen
    rw [skipDigits_scanAt hlen₁ hl]
    have hne : (dropOne isSign t).dropWhile isDigit ≠ [] := fun hnil => h ⟨hsign, hnil⟩
    have hl₂ := dropWhile_last hl hne
    have hlen₂ := (List.length_dropWhile_le isDigit (dropOne isSign t)).trans_lt hlen₁
    rw [skipOne_scanAt hlen₂ hl₂]
    unfold afterNumber
    by_cases hdot : dropOne (fun c => c = chDot) ((dropOne isSign t).dropWhile isDigit) = []
    · -- the point is the last byte
      have hl₃ := of_decide_eq_true (last_of_dropOne hl₂ hdot)
      rw [hdot, hl₃, scanAt_nil, skipDigits_stop rfl]
      rfl
    · have hl₃ := dropOne_last hl₂ hdot
      rw [skipDigits_scanAt ((dropOne_length _ _).trans_lt hlen₂) hl₃]

end Scan

/-! ## What is read -/

section Reads

variable {x : List UInt8 × ℕ} {s : List UInt8} {n i : ℕ}

theorem skipOne_length (p : UInt8 → Bool) (x : List UInt8 × ℕ) : (skipOne p x).1.length ≤ x.1.length := by
  unfold skipOne
  split
  · exact le_refl _
  · rename_i c cs heq
    rw [heq]
    split_ifs <;> simp [heq]

theorem skipDigits_length (s : List UInt8) (n : ℕ) : (skipDigits s n).1.length ≤ s.length := by
  induction s generalizing n with
  | nil => exact le_refl _
  | cons c s ih =>
    unfold skipDigits
    split_ifs
    · exact le_refl _
    · exact (ih _).trans (Nat.le_succ _)
    · exact le_refl _

/-- a loop over digits reads from `decPtr` on up to where it stops -/
theorem skipDigitsReads_le {decPtr : ℕ} (h : i ∈ skipDigitsReads s n decPtr) :
    decPtr ≤ i ∧ i + (skipDigits s n).1.length ≤ decPtr + s.length := by
  induction s generalizing n decPtr with
  | nil =>
    rw [skipDigitsReads, List.mem_singleton] at h
    exact ⟨h.ge, by rw [h]; rfl⟩
  | cons c s ih =>
    have hle := skipDigits_length (c :: s) n
    rw [skipDigitsReads, List.mem_cons] at h
    rcases h with rfl | h
    · omega
    · split_ifs at h with hc
      · have hstep : skipDigits (c :: s) n = skipDigits s (sub64 n 1) := by
          rw [skipDigits, if_pos hc.1, if_neg hc.2]
        obtain ⟨hlo, hhi⟩ := ih h
        rw [hstep, List.length_cons]
        omega
      · cases h

/-- everything that is read lies between the start of the view and where the scan stops -/
theorem numberReads_le {v : NkStringView} (h : i ∈ numberReads v) :
    v.dataPtr ≤ i ∧ i + (scanNumber v).1.length ≤ v.dataPtr + (v.base.drop v.dataPtr).length := by
  unfold numberReads at h
  unfold scanNumber
  dsimp only at h ⊢
  set text := v.base.drop v.dataPtr
  set x₁ := skipOne isSign (text, v.sizeInBytes) with hx₁
  set x₂ := skipDigits x₁.1 x₁.2 with hx₂
  set x₃ := skipOne (fun c => decide (c = chDot)) x₂ with hx₃
  set x₄ := skipDigits x₃.1 x₃.2 with hx₄
  have h₁ : x₁.1.length ≤ text.length := skipOne_length isSign (text, v.sizeInBytes)
  have h₂ : x₂.1.length ≤ x₁.1.length := skipDigits_length x₁.1 x₁.2
  have h₃ : x₃.1.length ≤ x₂.1.length := skipOne_length _ x₂
  have h₄ : x₄.1.length ≤ x₃.1.length := skipDigits_length x₃.1 x₃.2
  simp only [List.mem_append, List.mem_singleton] at h
  rcases h with (((h | h) | h) | h) | h
  · omega
  · have hr := skipDigitsReads_le h
    rw [← hx₂] at hr
    omega
  · omega
  · have hr := skipDigitsReads_le h
    rw [← hx₄] at hr
    omega
  · split_ifs at h
    · rw [List.mem_singleton] at h
      omega
    · cases h

end Reads

/-! ## The verdict -/

section Verdict

variable {c last : UInt8} {r t pre post : List UInt8}

/-- the scan ends at a character that is refused -/
def Refuses (x : List UInt8 × ℕ) : Prop := 0 < x.2 ∧ isDigit (x.1.headD 0) = false ∧ x.1.headD 0 ≠ 0

theorem parseNumberTo_refused {v : NkStringView} (h : Refuses (scanNumber v)) :
    parseNumberTo v = (.unexpectedCharacter, none) := by
  have hparse : parseNumber v = .error .unexpectedCharacter := if_pos h
  unfold parseNumberTo
  rw [hparse]

theorem parseNumberTo_accepted {v : NkStringView} (h : ¬ Refuses (scanNumber v)) :
    parseNumberTo v = (.ok, some (strtod (v.base.drop v.dataPtr))) := by
  have hparse : parseNumber v = .ok (.double (v.base.drop v.dataPtr)) := if_neg h
  unfold parseNumberTo
  rw [hparse]
  rfl

theorem exists_last (h : t ≠ []) : ∃ last, t.getLast? = some last := ⟨t.getLast h, List.getLast?_eq_some_getLast h⟩

/-- a view that is not a number: the scan stops at the first byte that does not fit -/
theorem scan_left (hlen : t.length < 2 ^ 64) (h : afterNumber t = c :: r) :
    scanNumber (viewIn pre t post) = (c :: (r ++ post), r.length + 1) := by
  have hne : t ≠ [] := by
    rintro rfl
    cases h
  obtain ⟨last, hlast⟩ := exists_last hne
  have hint : ¬ EndsInInteger t := by
    rintro ⟨-, hnil⟩
    rw [afterNumber, hnil] at h
    cases h
  rw [scanNumber_eq hlen hlast hint, h, scanAt_cons]

/-- a view that ends with a fraction or is a lone sign is accepted, whatever follows -/
theorem scan_number (hlen : t.length < 2 ^ 64) (hne : t ≠ []) (h : afterNumber t = []) (hint : ¬ EndsInInteger t) :
    ¬ Refuses (scanNumber (viewIn pre t post)) := by
  obtain ⟨last, hlast⟩ := exists_last hne
  rw [scanNumber_eq hlen hlast hint, h, scanAt_nil]
  exact fun hrefuses => absurd hrefuses.1 (lt_irrefl 0)

/-- a view that ends with an integer is refused in front of a space, and accepted at the end of the string -/
theorem scan_integer (hlen : t.length < 2 ^ 64) (hne : t ≠ []) (hint : EndsInInteger t) :
    Refuses (scanNumber (viewIn pre t [0x20])) ∧ ¬ Refuses (scanNumber (viewIn pre t [])) := by
  obtain ⟨last, hlast⟩ := exists_last hne
  rw [scanNumber_integer hlen hlast hint, scanNumber_integer hlen hlast hint]
  refine ⟨⟨by decide, by decide, by decide⟩, ?_⟩
  exact fun hrefuses => hrefuses.2.2 rfl

theorem afterNumber_suffix (t : List UInt8) : afterNumber t <:+ t := by
  obtain ⟨l, hl, -⟩ := dropOne_eq (fun c => c = chDot) ((dropOne isSign t).dropWhile isDigit)
  obtain ⟨l', hl', -⟩ := dropOne_eq isSign t
  have hdot : dropOne (fun c => c = chDot) ((dropOne isSign t).dropWhile isDigit) <:+
      (dropOne isSign t).dropWhile isDigit := ⟨l, hl.symm⟩
  have hsign : dropOne isSign t <:+ t := ⟨l', hl'.symm⟩
  exact (List.dropWhile_suffix _).trans (hdot.trans ((List.dropWhile_suffix _).trans hsign))

theorem head_afterNumber (h : afterNumber t = c :: r) : isDigit c = false := by
  refine head_dropWhile (t := dropOne (fun c => c = chDot) ((dropOne isSign t).dropWhile isDigit)) ?_
  exact congrArg List.head? h

/-- at the end of a string, exactly the numbers are accepted -/
theorem refuses_end_iff (hlen : t.length < 2 ^ 64) (hne : t ≠ []) (h0 : 0 ∉ t) :
    Refuses (scanNumber (viewIn pre t [])) ↔ ¬ IsNumber t := by
  rw [isNumber_iff]
  rcases hafter : afterNumber t with _ | ⟨c, r⟩
  · refine iff_of_false ?_ (not_not.2 rfl)
    by_cases hint : EndsInInteger t
    · exact (scan_integer hlen hne hint).2
    · exact scan_number hlen hne hafter hint
  · refine iff_of_true ?_ nofun
    have hmem : c ∈ t := (afterNumber_suffix t).subset (by rw [hafter]; exact List.mem_cons_self)
    rw [scan_left hlen hafter]
    exact ⟨Nat.succ_pos _, head_afterNumber hafter, fun hc => h0 (hc ▸ hmem)⟩

/-- a number that does not end with an integer goes on as a number with a point, for a lone sign after the point -/
theorem number_dotted (hne : t ≠ []) (h : afterNumber t = []) (hint : ¬ EndsInInteger t) :
    ∃ ext sign ds fs, t ++ ext = sign ++ (ds ++ 0x2e :: fs) ∧ ext.length ≤ 1 ∧
      (sign = [] ∨ sign = [0x2b] ∨ sign = [0x2d]) ∧ (∀ c ∈ ds, isDigitOf 10 c = true) ∧
      ∀ c ∈ fs, isDigitOf 10 c = true := by
  have hdigits : ∀ l : List UInt8, (∀ c ∈ l, isDigit c = true) → ∀ c ∈ l, isDigitOf 10 c = true :=
    fun l hl c hc => isDigitOf_ten.2 (of_decide_eq_true (hl c hc))
  obtain ⟨sign, ds, frac, rfl, hsign, hds, hfrac⟩ := (isNumber_iff t).2 h
  have hsigns : sign = [] ∨ sign = [0x2b] ∨ sign = [0x2d] := by
    rcases hsign with rfl | ⟨c, hc, rfl⟩
    · exact Or.inl rfl
    · rcases of_decide_eq_true hc with rfl | rfl
      · exact Or.inr (Or.inl rfl)
      · exact Or.inr (Or.inr rfl)
  rcases hfrac with rfl | ⟨fs, rfl, hfs⟩
  · rw [List.append_nil] at hne hint ⊢
    -- digits alone would be an integer
    have hnone : ds = [] := by
      by_contra hsome
      refine hint ?_
      have hdrop : dropOne isSign (sign ++ ds) = ds :=
        dropOne_sign hsign fun c hc => not_sign_of_digit (hds c (List.mem_of_mem_head? hc))
      rw [EndsInInteger, hdrop]
      exact ⟨hsome, List.dropWhile_eq_nil_iff.2 hds⟩
    exact ⟨[0x2e], sign, [], [], by rw [hnone]; simp, le_refl _, hsigns, by simp, by simp⟩
  · exact ⟨[], sign, ds, fs, List.append_nil _, Nat.zero_le _, hsigns, hdigits ds hds, hdigits fs hfs⟩

/-- two buffers in which the same view has different values -/
theorem number_depends (hlen : t.length < 2 ^ 64) (hne : t ≠ []) (h : afterNumber t = []) (hint : ¬ EndsInInteger t) :
    ∃ post post', strtod (t ++ post) ≠ strtod (t ++ post') := by
  obtain ⟨ext, sign, ds, fs, htext, hext, hsign, hds, hfs⟩ := number_dotted hne h hint
  have hsum := congrArg List.length htext
  simp only [List.length_append, List.length_cons] at hsum
  have hgoes : ∀ more, t ++ (ext ++ more) = sign ++ (ds ++ 0x2e :: (fs ++ more)) := by
    intro more
    rw [← List.append_assoc, htext, List.append_assoc, List.append_assoc, List.cons_append]
  refine ⟨ext ++ 0x31 :: 0x65 :: nines, ext ++ 0x31 :: 0x65 :: 0x2d :: nines, ?_⟩
  rw [hgoes, hgoes, strtod_huge hsign hds hfs (by omega), strtod_tiny hsign hds hfs (by omega)]
  nofun

/-- The function is right about a view exactly if the view is not a number and the first byte that does not fit is not `NUL`. -/
theorem parseNumber_right_iff (hne : t ≠ []) (hlen : t.length < 2 ^ 64) :
    NumberRight t ↔ ∃ c r, afterNumber t = c :: r ∧ c ≠ 0 := by
  constructor
  · intro hright
    rcases hafter : afterNumber t with _ | ⟨c, r⟩
    · exfalso
      have hnumber := (isNumber_iff t).2 hafter
      by_cases hint : EndsInInteger t
      · have hok := (hright.verdict [] [0x20]).2 hnumber
        rw [parseNumberTo_refused (scan_integer hlen hne hint).1] at hok
        cases hok
      · obtain ⟨post, post', hdiffer⟩ := number_depends hlen hne hafter hint
        have hsame := hright.alone [] post [] post'
        rw [parseNumberTo_accepted (scan_number hlen hne hafter hint),
          parseNumberTo_accepted (scan_number hlen hne hafter hint)] at hsame
        exact hdiffer (Option.some.inj (congrArg Prod.snd hsame))
    · refine ⟨c, r, rfl, ?_⟩
      rintro rfl
      have haccepted : ¬ Refuses (scanNumber (viewIn [] t [])) := by
        rw [scan_left hlen hafter]
        exact fun hrefuses => hrefuses.2.2 rfl
      have hnumber := (hright.verdict [] []).1 (by rw [parseNumberTo_accepted haccepted])
      rw [isNumber_iff, hafter] at hnumber
      cases hnumber
  · rintro ⟨c, r, hafter, hc⟩
    have hrefuses : ∀ pre post, Refuses (scanNumber (viewIn pre t post)) := by
      intro pre post
      rw [scan_left hlen hafter]
      exact ⟨Nat.succ_pos _, head_afterNumber hafter, hc⟩
    refine ⟨?_, ?_, ?_, ?_⟩
    · intro pre post i hi
      obtain ⟨hlo, hhi⟩ := numberReads_le hi
      have htext : (viewIn pre t post).base.drop (viewIn pre t post).dataPtr = t ++ post := List.drop_left
      rw [scan_left hlen hafter, htext] at hhi
      simp only [List.length_cons, List.length_append] at hhi
      have hptr : (viewIn pre t post).dataPtr = pre.length := rfl
      omega
    · intro pre post
      rw [parseNumberTo_refused (hrefuses pre post), isNumber_iff, hafter]
      exact iff_of_false nofun nofun
    · intro pre post _
      rw [parseNumberTo_refused (hrefuses pre post)]
    · intro pre post pre' post'
      rw [parseNumberTo_refused (hrefuses pre post), parseNumberTo_refused (hrefuses pre' post')]

/-- a digit and a letter are refused on their own -/
theorem parseNumber_right_letter : NumberRight [0x31, 0x61] :=
  (parseNumber_right_iff (by decide) (by decide)).2 ⟨0x61, [], by decide, by decide⟩

/-- the view of the digit 1 is refused if a space follows, and it is 1 at the end of the string and 12 in front of a 2 -/
theorem digit_view_broken : ¬ NumberRight [0x31] ∧
    parseNumberTo (viewIn [] [0x31] [0x20]) = (.unexpectedCharacter, none) ∧
    parseNumberTo (viewIn [] [0x31] []) = (.ok, some (.finite false 1)) ∧
    parseNumberTo (viewIn [] [0x31] [0x32]) = (.ok, some (.finite false 12)) := by
  refine ⟨fun hright => ?_, by decide +kernel, by decide +kernel, by decide +kernel⟩
  have hok := (hright.verdict [] [0x20]).2 ((isNumber_iff _).2 (by decide))
  exact absurd hok (by decide +kernel)

end Verdict

end Noriko.Env
