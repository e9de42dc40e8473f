/-
Rounding to a binary floating-point format, to nearest and to even from the middle.

A format has `p` bits of precision and `low` as the exponent of its least last place; its numbers are the `Fits p low`.
Rounding gives a number of the format (`fits_rounded`), leaves those as they are (`rounded_of_fits`) and keeps the order
(`rounded_mono`), so a number of the format that bounds a number bounds what it is rounded to (`rounded_le`, `le_rounded`).
Numbers within a factor of two of each other are subtracted exactly (`fits_sub`), and the square root of a rounded square
is the number that was squared (`roundedSqrt_square`). `single` and `double` are the formats of 24 and 53 bits.

There is no largest number here: a result that is too large for the format is left to the user of the library.
-/
import Mathlib.Data.Int.Log
import Mathlib.Tactic

namespace Lib

/-! ## Whole numbers -/

/-- the nearest whole number, and the even one from the middle -/
def nearestEven (q : ℚ) : ℤ :=
  if q - ⌊q⌋ < 1 / 2 ∨ q - ⌊q⌋ = 1 / 2 ∧ ⌊q⌋ % 2 = 0 then ⌊q⌋ else ⌊q⌋ + 1

theorem nearestEven_intCast (n : ℤ) : nearestEven n = n := by
  unfold nearestEven
  rw [Int.floor_intCast, sub_self, if_pos (Or.inl (by norm_num))]

/-- the middle above an even number is rounded down -/
theorem nearestEven_middle {n : ℤ} (h : n % 2 = 0) : nearestEven (n + 1 / 2) = n := by
  have hfloor : ⌊(n : ℚ) + 1 / 2⌋ = n := by
    rw [Int.floor_intCast_add, show ⌊(1 / 2 : ℚ)⌋ = 0 by norm_num, add_zero]
  unfold nearestEven
  rw [hfloor, if_pos (Or.inr ⟨by ring, h⟩)]

theorem abs_nearestEven_sub_le (q : ℚ) : |(nearestEven q : ℚ) - q| ≤ 1 / 2 := by
  have hle := Int.floor_le q
  have hlt := Int.lt_floor_add_one q
  unfold nearestEven
  split_ifs with h
  · have hhalf : q - ⌊q⌋ ≤ 1 / 2 := h.elim le_of_lt fun h => h.1.le
    rw [abs_le]
    constructor <;> linarith
  · have hhalf : 1 / 2 ≤ q - ⌊q⌋ := not_lt.1 fun hlt => h (Or.inl hlt)
    push_cast
    rw [abs_le]
    constructor <;> linarith

/-- the whole number that is nearer than half a unit -/
theorem nearestEven_eq {q : ℚ} {n : ℤ} (h : |q - n| < 1 / 2) : nearestEven q = n := by
  have hround := abs_le.1 (abs_nearestEven_sub_le q)
  have hnear := abs_lt.1 h
  have hlow : (nearestEven q : ℚ) < n + 1 := by linarith [hround.2, hnear.2]
  have hhigh : (n : ℚ) < nearestEven q + 1 := by linarith [hround.1, hnear.1]
  have hlow' : nearestEven q < n + 1 := by exact_mod_cast hlow
  have hhigh' : n < nearestEven q + 1 := by exact_mod_cast hhigh
  omega

theorem nearestEven_mono {q r : ℚ} (h : q ≤ r) : nearestEven q ≤ nearestEven r := by
  have hfloor : ⌊q⌋ ≤ ⌊r⌋ := Int.floor_mono h
  rcases hfloor.lt_or_eq with hlt | heq
  · have hq : nearestEven q ≤ ⌊q⌋ + 1 := by
      unfold nearestEven
      split_ifs <;> omega
    have hr : ⌊r⌋ ≤ nearestEven r := by
      unfold nearestEven
      split_ifs <;> omega
    omega
  · unfold nearestEven
    rw [heq]
    split_ifs with hq hr hr
    · exact le_rfl
    · omega
    · refine absurd ?_ hq
      rcases hr with hr | ⟨hr, heven⟩
      · exact Or.inl (by linarith)
      · rcases lt_or_eq_of_le (show q - ⌊r⌋ ≤ 1 / 2 by linarith) with hlt | hmid
        · exact Or.inl hlt
        · exact Or.inr ⟨hmid, heven⟩
    · exact le_rfl

theorem nearestEven_neg (q : ℚ) : nearestEven (-q) = -nearestEven q := by
  by_cases hint : (⌊q⌋ : ℚ) = q
  · rw [← hint, ← Int.cast_neg, nearestEven_intCast, nearestEven_intCast]
  · -- the floor of the opposite number is one below the opposite of the floor
    have hlt : (⌊q⌋ : ℚ) < q := lt_of_le_of_ne (Int.floor_le q) hint
    have hfloor : ⌊-q⌋ = -⌊q⌋ - 1 := by
      rw [Int.floor_eq_iff]
      have hnext := Int.lt_floor_add_one q
      push_cast
      constructor <;> linarith
    unfold nearestEven
    rw [hfloor]
    push_cast
    rcases lt_trichotomy (q - ⌊q⌋) (1 / 2) with h | h | h
    · rw [if_neg (by rintro (h' | ⟨h', -⟩) <;> linarith), if_pos (Or.inl h)]
      ring
    · have hmid : -q - (-(⌊q⌋ : ℚ) - 1) = 1 / 2 := by linarith
      rw [hmid, h]
      by_cases heven : ⌊q⌋ % 2 = 0
      · rw [if_neg (by rintro (h' | ⟨-, h'⟩) <;> [exact lt_irrefl _ h'; omega]), if_pos (Or.inr ⟨rfl, heven⟩)]
        ring
      · rw [if_pos (Or.inr ⟨rfl, by omega⟩), if_neg (by rintro (h' | ⟨-, h'⟩) <;> [exact lt_irrefl _ h'; omega])]
        ring
    · rw [if_pos (Or.inl (by linarith)), if_neg (by rintro (h' | ⟨h', -⟩) <;> linarith)]
      ring

/-! ## Formats -/

/-- a number with at most `p` bits, the last of them at exponent `low` or above -/
def Fits (p : ℕ) (low : ℤ) (q : ℚ) : Prop := ∃ m e : ℤ, q = m * 2 ^ e ∧ |m| < 2 ^ p ∧ low ≤ e

/-- the exponent of the last place of numbers of this size -/
def placeOf (p : ℕ) (low : ℤ) (q : ℚ) : ℤ := max (Int.log 2 |q| + 1 - p) low

/-- the number of the format that is nearest to `q` -/
def rounded (p : ℕ) (low : ℤ) (q : ℚ) : ℚ := nearestEven (q / 2 ^ placeOf p low q) * 2 ^ placeOf p low q

variable {p : ℕ} {low : ℤ} {q r : ℚ}

/-- the exponent of the leading bit from the powers of two around a number -/
theorem log_eq_of_bounds {k : ℤ} (hlow : 2 ^ k ≤ q) (hhigh : q < 2 ^ (k + 1)) : Int.log 2 q = k := by
  have hpos : 0 < q := lt_of_lt_of_le (by positivity) hlow
  have h1 := (Int.zpow_le_iff_le_log one_lt_two hpos).1 hlow
  have h2 := (Int.lt_zpow_iff_log_lt one_lt_two hpos).1 hhigh
  omega

theorem Fits.abs (h : Fits p low q) : Fits p low |q| := by
  obtain ⟨m, e, rfl, hm, he⟩ := h
  refine ⟨|m|, e, ?_, by rwa [abs_abs], he⟩
  rw [abs_mul, abs_of_pos (by positivity : (0 : ℚ) < 2 ^ e), Int.cast_abs]

theorem Fits.neg (h : Fits p low q) : Fits p low (-q) := by
  obtain ⟨m, e, rfl, hm, he⟩ := h
  exact ⟨-m, e, by push_cast; ring, by rwa [abs_neg], he⟩

theorem rounded_zero : rounded p low 0 = 0 := by
  unfold rounded
  rw [zero_div, ← Int.cast_zero, nearestEven_intCast, Int.cast_zero, zero_mul]

theorem rounded_neg (p : ℕ) (low : ℤ) (q : ℚ) : rounded p low (-q) = -rounded p low q := by
  unfold rounded placeOf
  rw [abs_neg, neg_div, nearestEven_neg]
  push_cast
  ring

/-- a number of the format is a multiple of its last place -/
theorem exists_places (h : Fits p low q) : ∃ n : ℤ, q = n * 2 ^ placeOf p low q := by
  obtain ⟨m, e, rfl, hm, he⟩ := h
  by_cases hm0 : m = 0
  · exact ⟨0, by simp [hm0]⟩
  have hpos : (0 : ℚ) < |(m : ℚ) * 2 ^ e| := by
    rw [abs_pos]
    exact mul_ne_zero (by exact_mod_cast hm0) (zpow_ne_zero _ two_ne_zero)
  have hlog : Int.log 2 |(m : ℚ) * 2 ^ e| < p + e := by
    refine (Int.lt_zpow_iff_log_lt one_lt_two hpos).1 ?_
    rw [abs_mul, abs_of_pos (by positivity : (0 : ℚ) < 2 ^ e), Nat.cast_ofNat, zpow_add₀ two_ne_zero, zpow_natCast]
    refine mul_lt_mul_of_pos_right ?_ (by positivity)
    exact_mod_cast hm
  have hle : placeOf p low (m * 2 ^ e) ≤ e := max_le (by omega) he
  obtain ⟨k, hk⟩ := Int.le.dest hle
  refine ⟨m * 2 ^ k, ?_⟩
  have hexp : (2 : ℚ) ^ e = 2 ^ k * 2 ^ placeOf p low (m * 2 ^ e) := by
    rw [← zpow_natCast, ← zpow_add₀ two_ne_zero]
    congr 1
    omega
  push_cast
  rw [mul_assoc, ← hexp]

theorem rounded_of_fits (h : Fits p low q) : rounded p low q = q := by
  obtain ⟨n, hn⟩ := exists_places h
  have hdiv : q / 2 ^ placeOf p low q = n := (div_eq_iff (zpow_ne_zero _ two_ne_zero)).2 hn
  rw [rounded, hdiv, nearestEven_intCast, ← hn]

/-- in units of the last place a number has at most `p` bits -/
theorem abs_div_placeOf_lt (p : ℕ) (low : ℤ) (q : ℚ) : |q / 2 ^ placeOf p low q| < 2 ^ p := by
  rw [abs_div, abs_of_pos (by positivity : (0 : ℚ) < 2 ^ placeOf p low q), div_lt_iff₀ (by positivity), ← zpow_natCast,
    ← zpow_add₀ two_ne_zero]
  calc |q| < 2 ^ (Int.log 2 |q| + 1) := Int.lt_zpow_succ_log_self one_lt_two _
    _ ≤ 2 ^ ((p : ℤ) + placeOf p low q) := by
      refine zpow_le_zpow_right₀ one_le_two ?_
      have := le_max_left (Int.log 2 |q| + 1 - p) low
      unfold placeOf
      omega

theorem abs_nearestEven_le {n : ℤ} (h : |q| ≤ n) : |nearestEven q| ≤ n := by
  rw [abs_le] at h ⊢
  have hlow := nearestEven_mono h.1
  have hhigh := nearestEven_mono h.2
  rw [← Int.cast_neg, nearestEven_intCast] at hlow
  rw [nearestEven_intCast] at hhigh
  exact ⟨hlow, hhigh⟩

theorem fits_rounded (hp : 0 < p) (low : ℤ) (q : ℚ) : Fits p low (rounded p low q) := by
  have hle : |nearestEven (q / 2 ^ placeOf p low q)| ≤ 2 ^ p := by
    refine abs_nearestEven_le ?_
    exact_mod_cast (abs_div_placeOf_lt p low q).le
  have hlow : low ≤ placeOf p low q := le_max_right _ _
  rcases hle.lt_or_eq with hlt | heq
  · exact ⟨_, _, rfl, hlt, hlow⟩
  · -- rounded up to the next power of two
    obtain ⟨k, rfl⟩ := Nat.exists_eq_add_of_lt hp
    have hsplit : ∀ z : ℤ, |z| = 2 ^ (0 + k + 1) → Fits (0 + k + 1) low (z * 2 ^ placeOf (0 + k + 1) low q) := by
      intro z hz
      have hdvd : (2 : ℤ) ^ (k + 1) ∣ z := by
        rw [← dvd_abs, hz, zero_add]
      obtain ⟨u, rfl⟩ := hdvd
      rw [abs_mul, abs_of_pos (by positivity : (0 : ℤ) < 2 ^ (k + 1)), zero_add] at hz
      have hu : |u| = 1 := by
        have hpos : (0 : ℤ) < 2 ^ (k + 1) := by positivity
        nlinarith [abs_nonneg u]
      refine ⟨2 ^ k * u, placeOf (0 + k + 1) low q + 1, ?_, ?_, by omega⟩
      · push_cast
        rw [zpow_add_one₀ two_ne_zero]
        ring
      · rw [abs_mul, hu, mul_one, abs_of_pos (by positivity)]
        exact pow_lt_pow_right₀ one_lt_two (by omega)
    exact hsplit _ heq

/-! ## Order -/

theorem rounded_nonneg (p : ℕ) (low : ℤ) (h : 0 ≤ q) : 0 ≤ rounded p low q := by
  have hround : nearestEven ((0 : ℤ) : ℚ) ≤ nearestEven (q / 2 ^ placeOf p low q) := by
    refine nearestEven_mono ?_
    push_cast
    positivity
  rw [nearestEven_intCast] at hround
  unfold rounded
  have : (0 : ℚ) ≤ nearestEven (q / 2 ^ placeOf p low q) := by exact_mod_cast hround
  positivity

theorem rounded_mono_of_pos (low : ℤ) (hp : 0 < p) (hq : 0 < q) (h : q ≤ r) : rounded p low q ≤ rounded p low r := by
  have hlog : Int.log 2 |q| ≤ Int.log 2 |r| := by
    rw [abs_of_pos hq, abs_of_pos (hq.trans_le h)]
    exact Int.log_mono_right hq h
  have hplace : placeOf p low q ≤ placeOf p low r := max_le_max (by omega) le_rfl
  rcases hplace.lt_or_eq with hlt | heq
  · -- the rounded numbers lie on the two sides of a power of two
    have hsize : placeOf p low r = Int.log 2 |r| + 1 - p := by
      refine max_eq_left ?_
      have := le_max_right (Int.log 2 |q| + 1 - p) low
      have := max_choice (Int.log 2 |r| + 1 - p) low
      unfold placeOf at hlt
      omega
    have hbelow : (nearestEven (q / 2 ^ placeOf p low q) : ℚ) ≤ 2 ^ p := by
      have hle : |nearestEven (q / 2 ^ placeOf p low q)| ≤ 2 ^ p := by
        refine abs_nearestEven_le ?_
        exact_mod_cast (abs_div_placeOf_lt p low q).le
      exact_mod_cast (le_abs_self _).trans hle
    have habove : (2 : ℚ) ^ (p - 1) ≤ nearestEven (r / 2 ^ placeOf p low r) := by
      have hmono : nearestEven ((2 ^ (p - 1) : ℤ) : ℚ) ≤ nearestEven (r / 2 ^ placeOf p low r) := by
        refine nearestEven_mono ?_
        push_cast
        rw [le_div_iff₀ (by positivity), ← zpow_natCast, ← zpow_add₀ two_ne_zero, hsize]
        have hr := hq.trans_le h
        calc (2 : ℚ) ^ (((p - 1 : ℕ) : ℤ) + (Int.log 2 |r| + 1 - p)) = 2 ^ Int.log 2 |r| := by
              congr 1
              omega
          _ ≤ |r| := Int.zpow_log_le_self one_lt_two (abs_pos.2 hr.ne')
          _ = r := abs_of_pos hr
      rw [nearestEven_intCast] at hmono
      exact_mod_cast hmono
    calc rounded p low q ≤ 2 ^ p * 2 ^ placeOf p low q := mul_le_mul_of_nonneg_right hbelow (by positivity)
      _ = 2 ^ (p - 1) * 2 ^ (placeOf p low q + 1) := by
        rw [zpow_add_one₀ two_ne_zero, ← pow_sub_one_mul hp.ne']
        ring
      _ ≤ 2 ^ (p - 1) * 2 ^ placeOf p low r := by
        refine mul_le_mul_of_nonneg_left ?_ (by positivity)
        exact zpow_le_zpow_right₀ one_le_two (by omega)
      _ ≤ rounded p low r := mul_le_mul_of_nonneg_right habove (by positivity)
  · unfold rounded
    rw [heq]
    refine mul_le_mul_of_nonneg_right ?_ (by positivity)
    exact_mod_cast nearestEven_mono (div_le_div_of_nonneg_right h (by positivity))

theorem rounded_mono (hp : 0 < p) (h : q ≤ r) : rounded p low q ≤ rounded p low r := by
  rcases lt_trichotomy q 0 with hq | rfl | hq
  · rcases lt_or_ge r 0 with hr | hr
    · have hneg := rounded_mono_of_pos low hp (neg_pos.2 hr) (neg_le_neg h)
      rw [rounded_neg, rounded_neg] at hneg
      exact neg_le_neg_iff.1 hneg
    · have hneg := rounded_nonneg p low (neg_nonneg.2 hq.le)
      rw [rounded_neg] at hneg
      linarith [rounded_nonneg p low hr]
  · rw [rounded_zero]
    exact rounded_nonneg p low h
  · exact rounded_mono_of_pos low hp hq h

theorem rounded_le (hp : 0 < p) (h : q ≤ r) (hr : Fits p low r) : rounded p low q ≤ r :=
  (rounded_mono hp h).trans_eq (rounded_of_fits hr)

theorem le_rounded (hp : 0 < p) (h : q ≤ r) (hq : Fits p low q) : q ≤ rounded p low r :=
  (rounded_of_fits hq).symm.trans_le (rounded_mono hp h)

/-- rounding moves a number by at most half of its last place -/
theorem abs_rounded_sub_le (p : ℕ) (low : ℤ) (q : ℚ) : |rounded p low q - q| ≤ 2 ^ placeOf p low q / 2 := by
  have hunit : (0 : ℚ) < 2 ^ placeOf p low q := by positivity
  have hsplit : rounded p low q - q =
      (nearestEven (q / 2 ^ placeOf p low q) - q / 2 ^ placeOf p low q) * 2 ^ placeOf p low q := by
    unfold rounded
    rw [sub_mul, div_mul_cancel₀ _ hunit.ne']
  rw [hsplit, abs_mul, abs_of_pos hunit]
  calc _ ≤ 1 / 2 * 2 ^ placeOf p low q := mul_le_mul_of_nonneg_right (abs_nearestEven_sub_le _) hunit.le
    _ = 2 ^ placeOf p low q / 2 := by ring

/-- a number in the range of one power of two is rounded in units of the last place there -/
theorem rounded_of_bounds {k : ℤ} (hlow : 2 ^ k ≤ q) (hhigh : q < 2 ^ (k + 1)) (hplace : low ≤ k + 1 - p) :
    rounded p low q = nearestEven (q / 2 ^ (k + 1 - p)) * 2 ^ (k + 1 - p) := by
  have hpos : 0 < q := lt_of_lt_of_le (by positivity) hlow
  have hlog : placeOf p low q = k + 1 - p := by
    rw [placeOf, abs_of_pos hpos, log_eq_of_bounds hlow hhigh]
    exact max_eq_left hplace
  rw [rounded, hlog]

/-- less than half of the least number of the format -/
theorem rounded_tiny (h0 : 0 < q) (h : q < 2 ^ low / 2) (hp : 0 < p) : rounded p low q = 0 := by
  have hunit : (0 : ℚ) < 2 ^ low := by positivity
  have hlog : Int.log 2 |q| < low := by
    refine (Int.lt_zpow_iff_log_lt one_lt_two (abs_pos.2 h0.ne')).1 ?_
    rw [abs_of_pos h0, Nat.cast_ofNat]
    linarith
  have hplace : placeOf p low q = low := max_eq_right (by omega)
  have hzero : nearestEven (q / 2 ^ low) = 0 := by
    refine nearestEven_eq ?_
    rw [Int.cast_zero, sub_zero, abs_of_pos (by positivity), div_lt_iff₀ hunit]
    linarith
  rw [rounded, hplace, hzero, Int.cast_zero, zero_mul]

/-! ## Differences and square roots -/

/-- numbers within a factor of two of each other are subtracted without rounding -/
theorem fits_sub (hq : Fits p low q) (hr : Fits p low r) (hqr : q ≤ 2 * r) (hrq : r ≤ 2 * q) : Fits p low (q - r) := by
  have hone : ∀ {m n e f : ℤ}, e ≤ f → (m : ℚ) * 2 ^ e ≤ 2 * (n * 2 ^ f) → (n : ℚ) * 2 ^ f ≤ 2 * (m * 2 ^ e) →
      |m| < 2 ^ p → low ≤ e → Fits p low (m * 2 ^ e - n * 2 ^ f) := by
    intro m n e f hef hmn hnm hm he
    obtain ⟨k, rfl⟩ := Int.le.dest hef
    have hunit : (0 : ℚ) < 2 ^ e := by positivity
    have hcommon : (n : ℚ) * 2 ^ (e + k : ℤ) = (n * 2 ^ k : ℤ) * 2 ^ e := by
      rw [zpow_add₀ two_ne_zero, zpow_natCast]
      push_cast
      ring
    rw [hcommon] at hmn hnm ⊢
    have hmn' : m ≤ 2 * (n * 2 ^ k) := by
      have := (mul_le_mul_iff_of_pos_right hunit).1 (hmn.trans_eq (mul_assoc _ _ _).symm)
      exact_mod_cast this
    have hnm' : n * 2 ^ k ≤ 2 * m := by
      have := (mul_le_mul_iff_of_pos_right hunit).1 (hnm.trans_eq (mul_assoc _ _ _).symm)
      exact_mod_cast this
    refine ⟨m - n * 2 ^ k, e, by push_cast; ring, ?_, he⟩
    rw [abs_lt] at hm ⊢
    constructor <;> linarith
  obtain ⟨m, e, rfl, hm, he⟩ := hq
  obtain ⟨n, f, rfl, hn, hf⟩ := hr
  rcases le_total e f with hef | hfe
  · exact hone hef hqr hrq hm he
  · rw [← neg_sub]
    exact (hone hfe hrq hqr hn hf).neg

/-- the square root, rounded to the format -/
def roundedSqrt (p : ℕ) (low : ℤ) (q : ℚ) : ℚ :=
  let place := max (Int.log 2 q / 2 + 1 - p) low
  let square := q / (2 ^ place * 2 ^ place)
  let root := Nat.sqrt ⌊square⌋₊
  let middle : ℚ := (root + 1 / 2) * (root + 1 / 2)
  (if square < middle ∨ square = middle ∧ root % 2 = 0 then root else root + 1 : ℕ) * 2 ^ place

/-- what is nearer to the square of `m` than to the middle on either side has the root `m` -/
theorem sqrt_near {m : ℕ} (hm : 0 < m) (h : |q - m * m| < m - 1 / 4) :
    (if q < (Nat.sqrt ⌊q⌋₊ + 1 / 2) * (Nat.sqrt ⌊q⌋₊ + 1 / 2) ∨
        q = (Nat.sqrt ⌊q⌋₊ + 1 / 2) * (Nat.sqrt ⌊q⌋₊ + 1 / 2) ∧ Nat.sqrt ⌊q⌋₊ % 2 = 0
      then Nat.sqrt ⌊q⌋₊ else Nat.sqrt ⌊q⌋₊ + 1) = m := by
  obtain ⟨hlow, hhigh⟩ := abs_lt.1 h
  obtain ⟨k, rfl⟩ := Nat.exists_eq_add_of_lt hm
  push_cast at hlow hhigh
  have hk : (0 : ℚ) ≤ k := Nat.cast_nonneg k
  have hq : 0 ≤ q := by nlinarith
  rcases le_or_gt ((k + 1 : ℚ) * (k + 1)) q with hle | hlt
  · have hroot : Nat.sqrt ⌊q⌋₊ = k + 1 := by
      refine (Nat.eq_sqrt.2 ⟨?_, ?_⟩).symm
      · refine Nat.le_floor ?_
        push_cast
        exact hle
      · rw [Nat.floor_lt hq]
        push_cast
        nlinarith
    rw [hroot, if_pos (Or.inl (by push_cast; nlinarith))]
    omega
  · have hroot : Nat.sqrt ⌊q⌋₊ = k := by
      refine (Nat.eq_sqrt.2 ⟨?_, ?_⟩).symm
      · refine Nat.le_floor ?_
        push_cast
        nlinarith
      · rw [Nat.floor_lt hq]
        push_cast
        exact hlt
    rw [hroot, if_neg (by rintro (h' | ⟨h', -⟩) <;> nlinarith)]
    omega

/-- the square of a number with all `p` bits, in units of its last place, and the format's numbers around it -/
theorem rounded_square {m : ℕ} {e : ℤ} (hm : 2 ^ p ≤ 2 * m) (hmp : m < 2 ^ p) (hlow : low ≤ 2 * e) :
    |rounded p low ((m * 2 ^ e) * (m * 2 ^ e)) / (2 ^ e * 2 ^ e) - m * m| < m - 1 / 4 := by
  have hpos : 0 < m := by
    have := Nat.two_pow_pos p
    omega
  have hunit : (0 : ℚ) < 2 ^ e * 2 ^ e := by positivity
  have hsquare : (m * 2 ^ e : ℚ) * (m * 2 ^ e) = (m * m) * (2 ^ e * 2 ^ e) := by ring
  have hspos : (0 : ℚ) < (m * 2 ^ e) * (m * 2 ^ e) := by
    have : (0 : ℚ) < m := by exact_mod_cast hpos
    positivity
  have herr := abs_rounded_sub_le p low ((m * 2 ^ e : ℚ) * (m * 2 ^ e))
  generalize hy : rounded p low ((m * 2 ^ e : ℚ) * (m * 2 ^ e)) = y at herr ⊢
  have hplace : ∀ k : ℕ, (m : ℚ) * m < 2 ^ (p + k) → (2 : ℚ) ^ placeOf p low ((m * 2 ^ e) * (m * 2 ^ e)) ≤
      2 ^ k * (2 ^ e * 2 ^ e) := by
    intro k hk
    rw [← zpow_add₀ two_ne_zero, ← zpow_natCast, ← zpow_add₀ two_ne_zero]
    refine zpow_le_zpow_right₀ one_le_two (max_le ?_ (by omega))
    rw [abs_of_pos hspos]
    have hlog : Int.log 2 ((m * 2 ^ e : ℚ) * (m * 2 ^ e)) < ((p + k : ℕ) : ℤ) + (e + e) := by
      refine (Int.lt_zpow_iff_log_lt one_lt_two hspos).1 ?_
      rw [hsquare, Nat.cast_ofNat, zpow_add₀ two_ne_zero, zpow_natCast, zpow_add₀ two_ne_zero]
      exact mul_lt_mul_of_pos_right hk hunit
    push_cast at hlog
    omega
  have hdiff : |y / (2 ^ e * 2 ^ e) - m * m| ≤ 2 ^ placeOf p low ((m * 2 ^ e) * (m * 2 ^ e)) / 2 / (2 ^ e * 2 ^ e) := by
    have hsub : y / (2 ^ e * 2 ^ e) - m * m = (y - (m * 2 ^ e) * (m * 2 ^ e)) / (2 ^ e * 2 ^ e) := by
      rw [sub_div, hsquare, mul_div_cancel_right₀ _ hunit.ne']
    rw [hsub, abs_div, abs_of_pos hunit]
    exact div_le_div_of_nonneg_right herr hunit.le
  have hscale : ∀ k : ℕ, (m : ℚ) * m < 2 ^ (p + k) → |y / (2 ^ e * 2 ^ e) - m * m| ≤ 2 ^ k / 2 := by
    intro k hk
    refine hdiff.trans ?_
    rw [div_le_iff₀ hunit]
    linarith [hplace k hk]
  have hmq : (2 : ℚ) ^ p ≤ 2 * m := by exact_mod_cast hm
  have hmpq : (m : ℚ) < 2 ^ p := by exact_mod_cast hmp
  have hm1 : (1 : ℚ) ≤ m := by exact_mod_cast hpos
  -- the square has one bit less than twice the bits of the number, or all of them
  rcases lt_or_ge ((m : ℚ) * m) (2 ^ (p + (p - 1))) with hsmall | hlarge
  · refine (hscale _ hsmall).trans_lt ?_
    have hp : p ≠ 0 := by
      rintro rfl
      rw [pow_zero] at hmpq
      linarith
    have hhalf : (2 : ℚ) ^ (p - 1) * 2 = 2 ^ p := pow_sub_one_mul hp 2
    linarith
  · refine (hscale p ?_).trans_lt ?_
    · rw [pow_add]
      exact mul_lt_mul' hmpq.le hmpq (by positivity) (by positivity)
    · have hp : p ≠ 0 := by
        rintro rfl
        rw [pow_zero] at hmpq
        linarith
      have hmore : 2 ^ p < 2 * m := by
        refine lt_of_le_of_ne hm fun heq => ?_
        have heq' : (2 : ℚ) ^ p = 2 * m := by exact_mod_cast heq
        have hhalf : (2 : ℚ) ^ (p - 1) * 2 = 2 ^ p := pow_sub_one_mul hp 2
        rw [pow_add] at hlarge
        nlinarith
      have hmore' : (2 : ℚ) ^ p + 1 ≤ 2 * m := by exact_mod_cast hmore
      linarith

/-- the square root of a rounded square is the number that was squared -/
theorem roundedSqrt_square {m : ℕ} {e : ℤ} (hm : 2 ^ p ≤ 2 * m) (hmp : m < 2 ^ p) (hlow : low ≤ 2 * e) (he : low ≤ e) :
    roundedSqrt p low (rounded p low ((m * 2 ^ e) * (m * 2 ^ e))) = m * 2 ^ e := by
  have hnear := rounded_square hm hmp hlow
  have hp : 0 < p := by
    refine Nat.pos_of_ne_zero ?_
    rintro rfl
    omega
  have hpos : 0 < m := by
    have := Nat.two_pow_pos p
    omega
  have hunit : (0 : ℚ) < 2 ^ e * 2 ^ e := by positivity
  have hbelow : (2 : ℚ) ^ (2 * (e + p - 1)) ≤ rounded p low ((m * 2 ^ e) * (m * 2 ^ e)) := by
    refine le_rounded hp ?_ ⟨1, 2 * (e + p - 1), by simp, ?_, by omega⟩
    · have hhalf : (2 : ℚ) ^ (e + p - 1) ≤ m * 2 ^ e := by
        have hmq : (2 : ℚ) ^ p ≤ 2 * m := by exact_mod_cast hm
        have hexp : (2 : ℚ) ^ (e + p - 1) * 2 = 2 ^ p * 2 ^ e := by
          rw [← zpow_add_one₀ two_ne_zero, ← zpow_natCast, ← zpow_add₀ two_ne_zero]
          congr 1
          omega
        nlinarith [zpow_pos (two_pos (α := ℚ)) e]
      rw [two_mul, zpow_add₀ two_ne_zero]
      exact mul_le_mul hhalf hhalf (by positivity) (by positivity)
    · rw [abs_one]
      exact one_lt_pow₀ one_lt_two hp.ne'
  have habove : rounded p low ((m * 2 ^ e) * (m * 2 ^ e)) < (2 : ℚ) ^ (2 * (e + p)) := by
    have hlt := (abs_lt.1 hnear).2
    rw [sub_lt_iff_lt_add, div_lt_iff₀ hunit] at hlt
    refine hlt.trans_le ?_
    have hmpq : (m : ℚ) + 1 ≤ 2 ^ p := by exact_mod_cast hmp
    have hexp : (2 : ℚ) ^ (2 * (e + p)) = (2 ^ p * 2 ^ p) * (2 ^ e * 2 ^ e) := by
      rw [two_mul, zpow_add₀ two_ne_zero, zpow_add₀ two_ne_zero, zpow_natCast]
      ring
    rw [hexp]
    refine mul_le_mul_of_nonneg_right ?_ hunit.le
    have hm0 : (0 : ℚ) ≤ m := Nat.cast_nonneg m
    nlinarith
  generalize hy : rounded p low ((m * 2 ^ e : ℚ) * (m * 2 ^ e)) = y at hnear hbelow habove ⊢
  have hypos : 0 < y := lt_of_lt_of_le (by positivity) hbelow
  have hlog : Int.log 2 y / 2 = e + p - 1 := by
    have h1 := (Int.zpow_le_iff_le_log one_lt_two hypos).1 hbelow
    have h2 := (Int.lt_zpow_iff_log_lt one_lt_two hypos).1 habove
    omega
  have hplace : max (Int.log 2 y / 2 + 1 - p) low = e := by
    rw [hlog]
    exact (max_eq_left (by omega)).trans (by omega)
  unfold roundedSqrt
  dsimp only
  rw [hplace, sqrt_near hpos hnear]

/-- a number of the format that is not too small has all `p` bits -/
theorem exists_full (h : Fits p low q) (hq : 2 ^ (low + p - 1) ≤ q) :
    ∃ m : ℕ, q = m * 2 ^ placeOf p low q ∧ 2 ^ p ≤ 2 * m ∧ m < 2 ^ p ∧ placeOf p low q = Int.log 2 q + 1 - p := by
  have hpos : 0 < q := lt_of_lt_of_le (by positivity) hq
  have hlog := (Int.zpow_le_iff_le_log one_lt_two hpos).1 hq
  have hplace : placeOf p low q = Int.log 2 q + 1 - p := by
    unfold placeOf
    rw [abs_of_pos hpos]
    exact max_eq_left (by omega)
  obtain ⟨n, hn⟩ := exists_places h
  have hunit : (0 : ℚ) < 2 ^ placeOf p low q := by positivity
  have hn0 : 0 < n := by
    have hprod : (0 : ℚ) < n * 2 ^ placeOf p low q := hpos.trans_eq hn
    exact_mod_cast (mul_pos_iff_of_pos_right hunit).1 hprod
  lift n to ℕ using hn0.le
  refine ⟨n, by exact_mod_cast hn, ?_, ?_, hplace⟩
  · have hle := Int.zpow_log_le_self one_lt_two hpos
    have hexp : ((2 : ℕ) : ℚ) ^ Int.log 2 q * 2 = 2 ^ p * 2 ^ placeOf p low q := by
      rw [Nat.cast_ofNat, ← zpow_add_one₀ two_ne_zero, ← zpow_natCast, ← zpow_add₀ two_ne_zero]
      congr 1
      omega
    have hle' : (2 : ℚ) ^ p * 2 ^ placeOf p low q ≤ 2 * n * 2 ^ placeOf p low q := by
      rw [← hexp, mul_assoc 2]
      have hn' : q = (n : ℚ) * 2 ^ placeOf p low q := by exact_mod_cast hn
      linarith
    have := (mul_le_mul_iff_of_pos_right hunit).1 hle'
    exact_mod_cast this
  · have hlt := abs_div_placeOf_lt p low q
    have hdiv : q / 2 ^ placeOf p low q = n := (div_eq_iff hunit.ne').2 (by exact_mod_cast hn)
    rw [hdiv, Nat.abs_cast] at hlt
    exact_mod_cast hlt

/-! ## Single and double precision -/

/-- the nearest number of single precision -/
def single (q : ℚ) : ℚ := rounded 24 (-149) q

/-- the nearest number of double precision -/
def double (q : ℚ) : ℚ := rounded 53 (-1074) q

theorem single_of_fits (h : Fits 24 (-149) q) : single q = q := rounded_of_fits h

theorem fits_single (q : ℚ) : Fits 24 (-149) (single q) := fits_rounded (by decide) _ q

theorem single_neg (q : ℚ) : single (-q) = -single q := rounded_neg 24 (-149) q

theorem single_mono (h : q ≤ r) : single q ≤ single r := rounded_mono (by decide) h

theorem single_le (h : q ≤ r) (hr : Fits 24 (-149) r) : single q ≤ r := rounded_le (by decide) h hr

theorem le_single (h : q ≤ r) (hq : Fits 24 (-149) q) : q ≤ single r := le_rounded (by decide) h hq

theorem single_zero : single 0 = 0 := rounded_zero

theorem fits_natCast {n : ℕ} (h : n < 2 ^ 24) : Fits 24 (-149) (n : ℚ) :=
  ⟨n, 0, by simp, by rw [Nat.abs_cast]; exact_mod_cast h, by decide⟩

/-- a comparison with a number below 2²⁴ is not changed by the conversion -/
theorem lt_single {t : ℚ} (ht : t < 2 ^ 24) (n : ℕ) : t < single n ↔ t < n := by
  by_cases h : n < 2 ^ 24
  · rw [single_of_fits (fits_natCast h)]
  · have hn : (2 ^ 24 : ℚ) ≤ n := by exact_mod_cast not_lt.1 h
    exact iff_of_true (ht.trans_le (le_single hn ⟨1, 24, by norm_num, by decide, by decide⟩)) (ht.trans_le hn)

/-- a power of two -/
theorem fits_two_zpow {k : ℤ} (hp : 0 < p) (hk : low ≤ k) : Fits p low (2 ^ k) := by
  refine ⟨1, k, by simp, ?_, hk⟩
  rw [abs_one]
  exact one_lt_pow₀ one_lt_two hp.ne'

end Lib
