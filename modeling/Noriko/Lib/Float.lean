/-
Floating-point numbers as bit patterns, and the conversion from single to double precision.

A pattern of a binary interchange format has a sign, an exponent and a mantissa. `FloatNum` is the number that it stands
for, where both zeros are the number 0. The conversion is exact (`binary64_widen`), and the last 29 bits of its result are
not used (`widen_low`).
-/
import Mathlib.Data.Nat.Log
import Mathlib.Tactic

namespace Lib

/-! ## Formats -/

inductive FloatNum where
  | val (q : ℚ)
  | inf (negative : Bool)
  | nan
deriving DecidableEq, Repr

/-- the number with a sign -/
def signed (negative : Bool) (q : ℚ) : ℚ := if negative then -q else q

/-- the number with exponent `e` and mantissa `m` in the format with `p` bits of mantissa, least exponent `low` of their last
place and exponent `eMax` for what is not finite -/
def floatParts (p : ℕ) (low : ℤ) (eMax : ℕ) (negative : Bool) (e m : ℕ) : FloatNum :=
  if e = eMax then (if m = 0 then .inf negative else .nan)
  else if e = 0 then .val (signed negative (m * 2 ^ low))
  else .val (signed negative ((2 ^ p + m) * 2 ^ (low + e - 1)))

def binary32 (bits : ℕ) : FloatNum :=
  floatParts 23 (-149) 255 (bits / 2 ^ 31 % 2 = 1) (bits / 2 ^ 23 % 2 ^ 8) (bits % 2 ^ 23)

def binary64 (bits : ℕ) : FloatNum :=
  floatParts 52 (-1074) 2047 (bits / 2 ^ 63 % 2 = 1) (bits / 2 ^ 52 % 2 ^ 11) (bits % 2 ^ 52)

/-! ## Single to double precision -/

/-- the pattern of double precision with these parts -/
def pack64 (s e m : ℕ) : ℕ := s * 2 ^ 63 + e * 2 ^ 52 + m

/-- `(double)x` for the pattern of a `float` -/
def widen (x : ℕ) : ℕ :=
  let s := x / 2 ^ 31 % 2
  let e := x / 2 ^ 23 % 2 ^ 8
  let m := x % 2 ^ 23
  if e = 255 then pack64 s 2047 (if m = 0 then 0 else (m ||| 2 ^ 22) * 2 ^ 29)
  else if e = 0 then
    if m = 0 then pack64 s 0 0
    -- a subnormal number becomes normal
    else pack64 s (m.log2 + 874) ((m - 2 ^ m.log2) * 2 ^ (52 - m.log2))
  else pack64 s (e + 896) (m * 2 ^ 29)

section Widen

variable {s e m : ℕ}

/-- the number of a pattern by its parts -/
theorem binary64_pack (hs : s < 2) (he : e < 2 ^ 11) (hm : m < 2 ^ 52) :
    binary64 (pack64 s e m) = floatParts 52 (-1074) 2047 (s = 1) e m := by
  have hsign : pack64 s e m / 2 ^ 63 % 2 = s := by
    unfold pack64
    omega
  have hexp : pack64 s e m / 2 ^ 52 % 2 ^ 11 = e := by
    unfold pack64
    omega
  have hman : pack64 s e m % 2 ^ 52 = m := by
    unfold pack64
    omega
  rw [binary64, hsign, hexp, hman]

/-- the leading bit of a mantissa and the rest, with zeros in front of them -/
theorem log2_parts (hm0 : m ≠ 0) (hm : m < 2 ^ 23) :
    m.log2 < 23 ∧ (m - 2 ^ m.log2) * 2 ^ (52 - m.log2) < 2 ^ 52 ∧
      2 ^ 52 + (m - 2 ^ m.log2) * 2 ^ (52 - m.log2) = m * 2 ^ (52 - m.log2) := by
  have hlt : m.log2 < 23 := (Nat.log2_lt hm0).2 hm
  have hself : 2 ^ m.log2 ≤ m := Nat.log2_self_le hm0
  have hnext : m < 2 ^ m.log2 + 2 ^ m.log2 := by
    rw [← Nat.two_mul, ← Nat.pow_succ']
    exact Nat.lt_log2_self
  have hwhole : 2 ^ m.log2 * 2 ^ (52 - m.log2) = 2 ^ 52 := by
    rw [← Nat.pow_add]
    congr 1
    omega
  refine ⟨hlt, ?_, ?_⟩
  · rw [← hwhole]
    exact Nat.mul_lt_mul_of_pos_right (by omega) (Nat.two_pow_pos _)
  · rw [Nat.sub_mul, hwhole]
    have hmul := Nat.mul_le_mul_right (2 ^ (52 - m.log2)) hself
    omega

/-- the conversion keeps the number -/
theorem binary64_widen (x : ℕ) : binary64 (widen x) = binary32 x := by
  have hs : x / 2 ^ 31 % 2 < 2 := Nat.mod_lt _ two_pos
  have he : x / 2 ^ 23 % 2 ^ 8 < 2 ^ 8 := Nat.mod_lt _ (Nat.two_pow_pos 8)
  have hm : x % 2 ^ 23 < 2 ^ 23 := Nat.mod_lt _ (Nat.two_pow_pos 23)
  unfold widen binary32
  generalize x / 2 ^ 31 % 2 = s at hs ⊢
  generalize x / 2 ^ 23 % 2 ^ 8 = e at he ⊢
  generalize x % 2 ^ 23 = m at hm ⊢
  dsimp only
  by_cases hinf : e = 255
  · have hor : m ||| 2 ^ 22 < 2 ^ 23 := Nat.or_lt_two_pow hm (by decide)
    have hpos : (m ||| 2 ^ 22) ≠ 0 := by
      intro h0
      have := @Nat.right_le_or m (2 ^ 22)
      omega
    rw [if_pos hinf, binary64_pack hs (by decide) (by split_ifs <;> omega), floatParts, floatParts, if_pos rfl, if_pos hinf]
    by_cases hm0 : m = 0
    · rw [if_pos hm0, if_pos rfl, if_pos hm0]
    · rw [if_neg hm0, if_neg hm0, if_neg (by omega)]
  · rw [if_neg hinf]
    by_cases he0 : e = 0
    · rw [if_pos he0]
      by_cases hm0 : m = 0
      · rw [if_pos hm0, binary64_pack hs (by decide) (by decide), floatParts, floatParts, if_neg (by decide), if_pos rfl,
          if_neg hinf, if_pos he0, hm0]
        simp
      · obtain ⟨hlog, hfit, hwhole⟩ := log2_parts hm0 hm
        generalize m.log2 = k at hlog hfit hwhole ⊢
        rw [if_neg hm0, binary64_pack hs (by omega) hfit, floatParts, floatParts, if_neg (by omega), if_neg (by omega),
          if_neg hinf, if_pos he0]
        have hcast : ((2 : ℚ) ^ 52 + ((m - 2 ^ k) * 2 ^ (52 - k) : ℕ)) = m * 2 ^ (52 - k) := by
          have hq := congrArg (Nat.cast : ℕ → ℚ) hwhole
          rw [Nat.cast_add, Nat.cast_pow, Nat.cast_ofNat, Nat.cast_mul m, Nat.cast_pow, Nat.cast_ofNat] at hq
          exact hq
        have hplace : ((2 : ℚ) ^ (52 - k)) * 2 ^ ((-1074 : ℤ) + (k + 874 : ℕ) - 1) = 2 ^ (-149 : ℤ) := by
          have hsum : ((52 - k : ℕ) : ℤ) + ((-1074 : ℤ) + (k + 874 : ℕ) - 1) = -149 := by omega
          rw [← zpow_natCast, ← zpow_add₀ two_ne_zero, hsum]
        rw [hcast, mul_assoc, hplace]
    · rw [if_neg he0, binary64_pack hs (by omega) (by omega), floatParts, floatParts, if_neg (by omega), if_neg (by omega),
        if_neg hinf, if_neg he0]
      have hplace : ((2 : ℚ) ^ 52 + (m * 2 ^ 29 : ℕ)) * 2 ^ ((-1074 : ℤ) + (e + 896 : ℕ) - 1) =
          (2 ^ 23 + m) * 2 ^ ((-149 : ℤ) + e - 1) := by
        have hsplit : (-149 : ℤ) + e - 1 = 29 + ((-1074 : ℤ) + (e + 896 : ℕ) - 1) := by
          push_cast
          ring
        rw [hsplit, zpow_add₀ two_ne_zero]
        push_cast
        ring
      rw [hplace]

/-- the last 29 bits of a converted number are not used -/
theorem widen_low (x : ℕ) : widen x % 2 ^ 29 = 0 := by
  have hpack : ∀ s e k, pack64 s e (k * 2 ^ 29) % 2 ^ 29 = 0 := by
    intro s e k
    unfold pack64
    omega
  unfold widen
  dsimp only
  split_ifs with hinf hm0 he0 hm0
  · exact hpack _ _ 0
  · exact hpack _ _ _
  · exact hpack _ _ 0
  · have hlog : (x % 2 ^ 23).log2 < 23 := (Nat.log2_lt hm0).2 (Nat.mod_lt _ (Nat.two_pow_pos 23))
    have hshift : 2 ^ (52 - (x % 2 ^ 23).log2) = 2 ^ (23 - (x % 2 ^ 23).log2) * 2 ^ 29 := by
      rw [← Nat.pow_add]
      congr 1
      omega
    rw [hshift, ← Nat.mul_assoc]
    exact hpack _ _ _
  · exact hpack _ _ _

end Widen

/-! ## Small numbers -/

/-- what lies below the exponent is a subnormal number -/
theorem binary64_small {bits : ℕ} (h : bits < 2 ^ 52) : binary64 bits = .val (bits * 2 ^ (-1074 : ℤ)) := by
  have hsign : bits / 2 ^ 63 % 2 = 0 := by omega
  have hexp : bits / 2 ^ 52 % 2 ^ 11 = 0 := by omega
  rw [binary64, hsign, hexp, Nat.mod_eq_of_lt h, floatParts, if_neg (by decide), if_pos rfl]
  rfl

theorem abs_signed (negative : Bool) {q : ℚ} (h : 0 ≤ q) : |signed negative q| = q := by
  unfold signed
  split_ifs
  · rw [abs_neg, abs_of_nonneg h]
  · exact abs_of_nonneg h

/-- zero has no bits but its sign -/
theorem binary32_eq_zero {bits : ℕ} (h : binary32 bits = .val 0) : bits / 2 ^ 23 % 2 ^ 8 = 0 ∧ bits % 2 ^ 23 = 0 := by
  have habs : ∀ {negative : Bool} {q : ℚ}, signed negative q = 0 → q = 0 := by
    intro negative q hq
    unfold signed at hq
    split_ifs at hq
    · exact neg_eq_zero.1 hq
    · exact hq
  unfold binary32 floatParts at h
  split_ifs at h with hinf hm0 he0
  · refine ⟨he0, ?_⟩
    have hzero := habs (FloatNum.val.inj h)
    rcases mul_eq_zero.1 hzero with hm | hpow
    · exact_mod_cast hm
    · exact absurd hpow (zpow_ne_zero _ two_ne_zero)
  · have hzero := habs (FloatNum.val.inj h)
    exact absurd hzero (by positivity)

/-- the least positive number of single precision -/
theorem le_binary32 {bits : ℕ} {q : ℚ} (h : binary32 bits = .val q) (hq : q ≠ 0) : (2 : ℚ) ^ (-149 : ℤ) ≤ |q| := by
  unfold binary32 floatParts at h
  split_ifs at h with hinf hm0 he0
  · cases FloatNum.val.inj h
    rw [abs_signed _ (by positivity)]
    have hm1 : 1 ≤ bits % 2 ^ 23 := by
      refine Nat.one_le_iff_ne_zero.2 fun hm0 => hq ?_
      rw [hm0]
      simp [signed]
    calc (2 : ℚ) ^ (-149 : ℤ) = 1 * 2 ^ (-149 : ℤ) := (one_mul _).symm
      _ ≤ (bits % 2 ^ 23 : ℕ) * 2 ^ (-149 : ℤ) := by
        refine mul_le_mul_of_nonneg_right ?_ (by positivity)
        exact_mod_cast hm1
  · cases FloatNum.val.inj h
    rw [abs_signed _ (by positivity)]
    have hman : (1 : ℚ) ≤ 2 ^ 23 + (bits % 2 ^ 23 : ℕ) := by
      have hnonneg : (0 : ℚ) ≤ (bits % 2 ^ 23 : ℕ) := Nat.cast_nonneg _
      linarith
    calc (2 : ℚ) ^ (-149 : ℤ) = 1 * 2 ^ (-149 : ℤ) := (one_mul _).symm
      _ ≤ (2 ^ 23 + (bits % 2 ^ 23 : ℕ)) * 2 ^ ((-149 : ℤ) + (bits / 2 ^ 23 % 2 ^ 8 : ℕ) - 1) := by
        refine mul_le_mul hman (zpow_le_zpow_right₀ one_le_two ?_) (by positivity) (by positivity)
        omega

end Lib
