/-
The sizes of a bitmap: stride, allocated bytes and reported bytes.

`NkDIBitmapCreate` computes the stride in 32 bits, the size of the allocation in 64 bits, and `NkDIBitmapGetPixels` and
`NkDIBitmapSave` the size of the pixels in 32 bits again. `calculateStride_toNat` is the stride as a natural number. The
sizes agree, and the stride has room for a row, exactly if neither product wraps (`sizes_iff`).
-/
import Noriko.Bmp.RoundTrip
import Mathlib.Data.Nat.Bitwise
import Mathlib.Order.Bounds.Basic

namespace Noriko.Bmp

open Lib

/-! ## The stride -/

/-- clearing the lowest five bits -/
theorem and_not_31 {x : ℕ} (hx : x < 2 ^ 32) : x &&& (2 ^ 32 - 32) = x / 32 * 32 := by
  have hmask : (2 ^ 32 - 32 : ℕ) = (2 ^ 27 - 1) <<< 5 := by decide
  have hshift : x / 32 * 32 = (x >>> 5) <<< 5 := by
    rw [Nat.shiftLeft_eq, Nat.shiftRight_eq_div_pow]
  rw [hmask, hshift]
  refine Nat.eq_of_testBit_eq fun i => ?_
  rw [Nat.testBit_and, Nat.testBit_shiftLeft, Nat.testBit_shiftLeft, Nat.testBit_two_pow_sub_one, Nat.testBit_shiftRight]
  by_cases hi : 5 ≤ i
  · rw [Nat.add_sub_cancel' hi]
    by_cases hi' : i - 5 < 27
    · simp [hi, hi']
    · have hbit : x.testBit i = false := Nat.testBit_lt_two_pow (hx.trans_le (Nat.pow_le_pow_right (by decide) (by omega)))
      simp [hbit]
  · simp [hi]

/-- the stride is four bytes for every 32 bits of a row that were begun, with the bits counted in 32 bits -/
theorem calculateStride_toNat (bmpWidth : Int32) (bitsPerPx : UInt16) :
    (calculateStride bmpWidth bitsPerPx).toNat =
      (bmpWidth.toUInt32.toNat * bitsPerPx.toNat + 31) % 2 ^ 32 / 32 * 4 := by
  have hmask : (~~~(31 : UInt32)).toNat = 2 ^ 32 - 32 := by decide
  have hlt : (bmpWidth.toUInt32.toNat * bitsPerPx.toNat + 31) % 2 ^ 32 < 2 ^ 32 := Nat.mod_lt _ (by decide)
  unfold calculateStride
  rw [UInt32.toNat_shiftRight, UInt32.toNat_and, hmask, UInt32.toNat_add, UInt32.toNat_mul, UInt16.toNat_toUInt32]
  have h31 : (31 : UInt32).toNat = 31 := rfl
  have h3 : (3 : UInt32).toNat % 32 = 3 := rfl
  rw [h31, h3, Nat.mod_add_mod, and_not_31 hlt, Nat.shiftRight_eq_div_pow]
  omega

/-! ## Validated specifications -/

/-- bits of one row, as a number without bound -/
def rowBits (s : BitmapSpecification) : ℕ := s.bmpWidth.toInt.toNat * s.bitsPerPx.toNat

section Valid

variable {s : BitmapSpecification} {c : Option RgbaColor} {heap : Option (Fresh UInt8)} {b : DIBitmap}

theorem stride_toNat (h : validateSpecification s = .ok) :
    (calculateStride s.bmpWidth s.bitsPerPx).toNat = (rowBits s + 31) % 2 ^ 32 / 32 * 4 := by
  rw [calculateStride_toNat, toNat_toUInt32_of_pos (validateSpecification_ok h).1]
  rfl

theorem height_toNat_lt (s : BitmapSpecification) : s.bmpHeight.toInt.toNat < 2 ^ 31 := by
  have hlt := s.bmpHeight.toInt_lt
  omega

/-- a created bitmap has the bytes its rows need, as 64 bits can count them -/
theorem dibitmapCreate_size (h : dibitmapCreate s c heap = (.ok, some b)) :
    b.pxArray.size = s.bmpHeight.toInt.toNat * (calculateStride s.bmpWidth s.bitsPerPx).toNat := by
  have hstride := (calculateStride s.bmpWidth s.bitsPerPx).toNat_lt
  have hbytes : s.bmpHeight.toInt.toNat * (calculateStride s.bmpWidth s.bitsPerPx).toNat < 2 ^ 64 :=
    calc s.bmpHeight.toInt.toNat * (calculateStride s.bmpWidth s.bitsPerPx).toNat
        ≤ 2 ^ 31 * 2 ^ 32 := Nat.mul_le_mul (height_toNat_lt s).le hstride.le
      _ < 2 ^ 64 := by decide
  unfold dibitmapCreate at h
  split_ifs at h with hvalid
  · exact absurd (congrArg Prod.snd h) (by simp)
  · have hb := congrArg Prod.snd h
    dsimp only at hb
    obtain ⟨buf, hbuf, rfl⟩ := Option.map_eq_some_iff.1 hb
    cases heap with
    | none => cases hbuf
    | some f =>
      obtain rfl := Option.some.inj hbuf
      cases c <;> exact u64_of_lt hbytes

/-- creation succeeds if the heap can serve it -/
theorem dibitmapCreate_some (h : validateSpecification s = .ok) (c : Option RgbaColor) (f : Fresh UInt8) :
    ∃ b, dibitmapCreate s c (some f) = (.ok, some b) := by
  unfold dibitmapCreate
  rw [if_neg (not_not.2 h)]
  exact ⟨_, rfl⟩

/-- both reported sizes are the product of stride and height, cut to 32 bits -/
theorem reported_toNat (h : dibitmapCreate s c heap = (.ok, some b)) :
    (dibitmapPixelSize b).toNat = b.pxArray.size % 2 ^ 32 ∧
      (savedInfoHeader b).biSizeImage.toNat = b.pxArray.size % 2 ^ 32 := by
  obtain ⟨hspec, hheight⟩ := dibitmapCreate_spec h
  have hprod : (calculateStride s.bmpWidth s.bitsPerPx * s.bmpHeight.toUInt32).toNat = b.pxArray.size % 2 ^ 32 := by
    rw [UInt32.toNat_mul, toNat_toUInt32_of_pos hheight, dibitmapCreate_size h, Nat.mul_comm]
  constructor
  · rw [dibitmapPixelSize, hspec]
    exact hprod
  · unfold savedInfoHeader calculateRawArraySize
    rw [hspec]
    exact hprod

end Valid

/-! ## Result -/

/-- the sizes a specification leads to are right: the stride is the shortest row of whole 32-bit words that holds the
pixels, the block has room for all rows, and both reported sizes are the size of the block -/
structure SizesRight (s : BitmapSpecification) : Prop where
  stride : IsLeast {n | 4 ∣ n ∧ rowBits s ≤ 8 * n} (calculateStride s.bmpWidth s.bitsPerPx).toNat
  room : ∀ c heap b, dibitmapCreate s c heap = (.ok, some b) →
    b.bSpec.bmpStride = calculateStride s.bmpWidth s.bitsPerPx ∧
      s.bmpHeight.toInt.toNat * b.bSpec.bmpStride.toNat ≤ b.pxArray.size
  reported : ∀ c heap b, dibitmapCreate s c heap = (.ok, some b) → (dibitmapPixelSize b).toNat = b.pxArray.size
  saved : ∀ c heap b, dibitmapCreate s c heap = (.ok, some b) → (savedInfoHeader b).biSizeImage.toNat = b.pxArray.size ∧
    (savedParts b).flatten.length = fileHeaderBytes + v4HeaderBytes + b.pxArray.size

/-- four bytes for every 32 bits that were begun is the least stride -/
theorem isLeast_stride (bits : ℕ) : IsLeast {n | 4 ∣ n ∧ bits ≤ 8 * n} ((bits + 31) / 32 * 4) := by
  refine ⟨⟨Dvd.intro_left _ rfl, by omega⟩, fun n hn => ?_⟩
  obtain ⟨⟨m, rfl⟩, hle⟩ := hn
  omega

/-- the sizes are right exactly if neither the bits of a row nor the bytes of all rows leave 32 bits -/
theorem sizes_iff (s : BitmapSpecification) (hvalid : validateSpecification s = .ok) :
    SizesRight s ↔ rowBits s + 31 < 2 ^ 32 ∧ s.bmpHeight.toInt.toNat * ((rowBits s + 31) / 32 * 4) < 2 ^ 32 := by
  have hstride := stride_toNat hvalid
  constructor
  · intro h
    -- the computed stride is below 2 ^ 29, so a row that it holds has at most 2 ^ 32 - 32 bits
    have hbits : rowBits s + 31 < 2 ^ 32 := by
      have hholds := h.stride.1.2
      rw [hstride] at hholds
      omega
    rw [Nat.mod_eq_of_lt hbits] at hstride
    refine ⟨hbits, ?_⟩
    obtain ⟨b, hb⟩ := dibitmapCreate_some hvalid none ⟨0, fun _ => 0⟩
    have hsize := h.reported _ _ _ hb
    rw [(reported_toNat hb).1] at hsize
    rw [← hstride, ← dibitmapCreate_size hb, ← hsize]
    exact Nat.mod_lt _ (by decide)
  · rintro ⟨hbits, hbytes⟩
    rw [Nat.mod_eq_of_lt hbits] at hstride
    have hmod : ∀ c heap b, dibitmapCreate s c heap = (.ok, some b) → b.pxArray.size % 2 ^ 32 = b.pxArray.size := by
      intro c heap b hb
      apply Nat.mod_eq_of_lt
      rwa [dibitmapCreate_size hb, hstride]
    refine ⟨?_, fun c heap b hb => ?_, fun c heap b hb => ?_, fun c heap b hb => ?_⟩
    · rw [hstride]
      exact isLeast_stride _
    · have hspec : b.bSpec.bmpStride = calculateStride s.bmpWidth s.bitsPerPx := by rw [(dibitmapCreate_spec hb).1]
      rw [hspec, dibitmapCreate_size hb]
      exact ⟨rfl, le_rfl⟩
    · rw [(reported_toNat hb).1, hmod c heap b hb]
    · have hsaved : (savedInfoHeader b).biSizeImage.toNat = b.pxArray.size := by
        rw [(reported_toNat hb).2, hmod c heap b hb]
      refine ⟨hsaved, ?_⟩
      rw [length_saved, hsaved]
      rfl

theorem sizes_onePixel : SizesRight (onePixel flagNone) :=
  (sizes_iff (onePixel flagNone) rfl).2 ⟨by decide, by decide⟩

/-- one row of 2 ^ 27 pixels of 32 bits -/
def wideRow : BitmapSpecification := ⟨specBytes, 2 ^ 27, 1, 0, 32, flagNone, 0, 0, 0, 0⟩

/-- the stride of a row of 2 ^ 32 bits is computed as 0 -/
theorem sizes_wideRow : ¬ ∀ s, validateSpecification s = .ok → SizesRight s := by
  intro hall
  have hright := hall wideRow (by decide)
  have hholds : rowBits wideRow ≤ 8 * (calculateStride wideRow.bmpWidth wideRow.bitsPerPx).toNat := hright.stride.1.2
  exact absurd hholds (by decide)

end Noriko.Bmp
