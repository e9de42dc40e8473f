/-
Filling a bitmap with a colour (`__NkInt_DIBitmap_Fill`).

One pixel is written, and two loops copy what is there already behind itself, in chunks that double: within the first
row, then row by row. `fillLoop` is such a loop with the spans it writes; it answers nothing if the rounds it is given
do not suffice. `fillLoop_spec` is its invariant: the written prefix repeats a pattern, and the pattern divides what the
next chunk starts behind (3 divides every index of the first loop, but not the row).

The fill is right exactly if the stride is not zero (`fill_iff`). A stride that wraps to zero leaves no byte for the
first pixel.
-/
import Noriko.Bmp.Sizes

namespace Noriko.Bmp

open Lib

/-! ## The loops with their writes -/

/-- `for (i = ..; more(i); i += i)`, copying the first `i` units behind themselves -/
def fillLoop (more : ℕ → Prop) [DecidablePred more] (unit n : ℕ) :
    ℕ → ℕ → (ℕ → UInt8) → Option ((ℕ → UInt8) × List Span)
  | rounds, i, mem =>
    if more i then
      match rounds with
      | 0 => none
      | rounds + 1 =>
        let target := u32 (i * unit)
        let bytes := u32 (unit * min (n - i) i)
        (fillLoop more unit n rounds (u32 (i + i)) (blit mem target mem bytes)).map fun r => (r.1, ⟨target, bytes⟩ :: r.2)
    else some (mem, [])

/-- the test of the second loop, `i < height` on signed operands: from `2 ^ 31` on, `i` is negative -/
def belowHeight (height i : ℕ) : Prop := 2 ^ 31 ≤ i ∨ i < height

instance (height : ℕ) : DecidablePred (belowHeight height) := fun _ => inferInstanceAs (Decidable (_ ∨ _))

/-- `__NkInt_DIBitmap_Fill` with at most `rounds` rounds for each loop: the memory and the spans it writes -/
def fillRun (rounds : ℕ) (s : BitmapSpecification) (rowSize : ℕ) (clearCol : RgbaColor) (mem : ℕ → UInt8) :
    Option ((ℕ → UInt8) × List Span) := do
  let pixelWidth := s.bitsPerPx.toNat / 8
  let pixel := blit mem 0 (fun k => (le 4 (cvtColor clearCol s).toNat).getD k 0) pixelWidth
  let row ← fillLoop (· < rowSize) 1 rowSize rounds pixelWidth pixel
  let all ← fillLoop (belowHeight s.bmpHeight.toInt.toNat) rowSize s.bmpHeight.toInt.toNat rounds 1 row.1
  return (all.1, ⟨0, pixelWidth⟩ :: (row.2 ++ all.2))

/-- byte `k` is written -/
def Covers (writes : List Span) (k : ℕ) : Prop := ∃ a ∈ writes, a.addr ≤ k ∧ k < a.addr + a.size

theorem covers_cons {a : Span} {writes : List Span} {k : ℕ} :
    Covers (a :: writes) k ↔ (a.addr ≤ k ∧ k < a.addr + a.size) ∨ Covers writes k := by
  simp [Covers]

theorem covers_append {l l' : List Span} {k : ℕ} : Covers (l ++ l') k ↔ Covers l k ∨ Covers l' k := by
  simp only [Covers, List.mem_append, or_and_right, exists_or]

/-! ## One loop -/

section Loop

variable {more : ℕ → Prop} [DecidablePred more] {unit n w : ℕ} {pat : ℕ → UInt8}

/-- what a loop leaves that started behind `i` units -/
structure Filled (unit n w i : ℕ) (pat : ℕ → UInt8) (r : (ℕ → UInt8) × List Span) : Prop where
  repeats : Repeats r.1 pat w (n * unit)
  writes : ∀ k, Covers r.2 k ↔ min i n * unit ≤ k ∧ k < n * unit

theorem fillLoop_done {i rounds : ℕ} (h : ¬ more i) (mem : ℕ → UInt8) :
    fillLoop more unit n rounds i mem = some (mem, []) := by
  unfold fillLoop
  rw [if_neg h]

theorem filled_done {i : ℕ} {mem : ℕ → UInt8} (h : n ≤ i) (hrep : Repeats mem pat w (min i n * unit)) :
    Filled unit n w i pat (mem, []) := by
  rw [Nat.min_eq_right h] at hrep
  refine ⟨hrep, fun k => ?_⟩
  rw [Nat.min_eq_right h]
  simp only [Covers, List.not_mem_nil, false_and, exists_false, false_iff]
  omega

/-- a loop that starts with whole repetitions of the pattern ends, and goes on repeating it up to the end -/
theorem fillLoop_spec (hn : n ≤ 2 ^ 30) (hunit : n * unit < 2 ^ 32) (hmore : ∀ i < 2 ^ 31, more i ↔ i < n) (rounds : ℕ)
    {i : ℕ} {mem : ℕ → UInt8} (hi : 0 < i) (hlt : i < 2 ^ 31) (hrounds : n ≤ i * 2 ^ rounds) (hw : w ∣ i * unit)
    (hrep : Repeats mem pat w (min i n * unit)) :
    ∃ r, fillLoop more unit n rounds i mem = some r ∧ r.1 = fillDouble unit n rounds i mem ∧
      Filled unit n w i pat r := by
  induction rounds generalizing i mem with
  | zero =>
    have hend : ¬ i < n := by omega
    exact ⟨(mem, []), fillLoop_done (mt (hmore i hlt).1 hend) mem, rfl, filled_done (not_lt.1 hend) hrep⟩
  | succ rounds ih =>
    by_cases hin : i < n
    · -- the chunk ends where the next one starts, or at the end
      have hchunk : i * unit + unit * min (n - i) i = min (i + i) n * unit := by
        have hsum : i + min (n - i) i = min (i + i) n := by omega
        rw [← hsum, Nat.add_mul, Nat.mul_comm unit]
      have hle : min (i + i) n * unit ≤ n * unit := Nat.mul_le_mul_right _ (Nat.min_le_right _ _)
      have hcap : unit * min (n - i) i ≤ i * unit := by
        rw [Nat.mul_comm i]
        exact Nat.mul_le_mul_left _ (Nat.min_le_right _ _)
      rw [Nat.min_eq_left hin.le] at hrep
      have hnext := hrep.double hw hcap
      rw [hchunk] at hnext
      have htarget : u32 (i * unit) = i * unit := u32_of_lt (by omega)
      have hbytes : u32 (unit * min (n - i) i) = unit * min (n - i) i := u32_of_lt (by omega)
      have hdouble : u32 (i + i) = i + i := u32_of_lt (by omega)
      have hrounds' : n ≤ (i + i) * 2 ^ rounds := by
        rw [Nat.pow_succ] at hrounds
        linarith
      have hw' : w ∣ (i + i) * unit := by
        rw [Nat.add_mul]
        exact Nat.dvd_add hw hw
      obtain ⟨r, hr, hmem, hfilled⟩ := ih (by omega) (by omega) hrounds' hw' hnext
      refine ⟨(r.1, ⟨i * unit, unit * min (n - i) i⟩ :: r.2), ?_, ?_, hfilled.repeats, fun k => ?_⟩
      · rw [fillLoop, if_pos ((hmore i hlt).2 hin)]
        simp only [htarget, hbytes, hdouble, hr, Option.map_some]
      · rw [fillDouble, if_pos hin, htarget, hbytes, hdouble, hmem]
      · rw [covers_cons, hfilled.writes k, Nat.min_eq_left hin.le]
        dsimp only
        omega
    · refine ⟨(mem, []), fillLoop_done (mt (hmore i hlt).1 hin) mem, ?_, filled_done (not_lt.1 hin) hrep⟩
      rw [fillDouble, if_neg hin]

end Loop

/-! ## The whole fill -/

section Fill

variable (s : BitmapSpecification) (rowSize : ℕ) (c : RgbaColor) (mem : ℕ → UInt8)

/-- byte `k` of a row of pixels -/
def rowByte (k : ℕ) : UInt8 := (le 4 (cvtColor c s).toNat).getD (k % (s.bitsPerPx.toNat / 8)) 0

/-- the fill returns, writes the bytes of all rows and no others, and leaves the colour in every row -/
def FillRight : Prop := ∃ rounds r, fillRun rounds s rowSize c mem = some r ∧
  (∀ k, Covers r.2 k ↔ k < s.bmpHeight.toInt.toNat * rowSize) ∧
  ∀ y < s.bmpHeight.toInt.toNat, ∀ k < rowSize, r.1 (y * rowSize + k) = rowByte s c k

variable {s rowSize}

/-- the fill writes its first pixel, whatever the size of a row is -/
theorem fillRun_covers_zero {rounds : ℕ} {r : (ℕ → UInt8) × List Span} (hpixel : 0 < s.bitsPerPx.toNat / 8)
    (h : fillRun rounds s rowSize c mem = some r) : Covers r.2 0 := by
  unfold fillRun at h
  obtain ⟨row, -, h⟩ := Option.bind_eq_some_iff.1 h
  obtain ⟨all, -, h⟩ := Option.bind_eq_some_iff.1 h
  obtain rfl := Option.some.inj h
  refine ⟨_, List.mem_cons_self, Nat.zero_le _, ?_⟩
  rwa [Nat.zero_add]

/-- rows with room for a pixel are filled within 32 rounds, to the memory of `dibitmapFill` -/
theorem fillRun_right (hpixel : 0 < s.bitsPerPx.toNat / 8) (hrow : s.bitsPerPx.toNat / 8 ≤ rowSize)
    (hrow' : rowSize ≤ 2 ^ 30) (hheight : 0 < s.bmpHeight.toInt.toNat) (hheight' : s.bmpHeight.toInt.toNat ≤ 2 ^ 30)
    (hsize : s.bmpHeight.toInt.toNat * rowSize < 2 ^ 32) :
    ∃ r, fillRun 32 s rowSize c mem = some r ∧ r.1 = dibitmapFill s rowSize c mem ∧
      (∀ k, Covers r.2 k ↔ k < s.bmpHeight.toInt.toNat * rowSize) ∧
      ∀ y < s.bmpHeight.toInt.toNat, ∀ k < rowSize, r.1 (y * rowSize + k) = rowByte s c k := by
  set w := s.bitsPerPx.toNat / 8 with hw
  set height := s.bmpHeight.toInt.toNat with hh
  -- the first row repeats the pixel
  have hfirst : Repeats (blit mem 0 (fun k => (le 4 (cvtColor c s).toNat).getD k 0) w)
      (fun k => (le 4 (cvtColor c s).toNat).getD k 0) w (min w rowSize * 1) := by
    intro k hk
    rw [Nat.min_eq_left hrow, Nat.mul_one] at hk
    rw [blit_zero_lt hk, Nat.mod_eq_of_lt hk]
  have hmore : ∀ i < 2 ^ 31, i < rowSize ↔ i < rowSize := fun _ _ => Iff.rfl
  obtain ⟨row, hrun, hmem, hfilled⟩ := fillLoop_spec hrow' (by omega) hmore 32 hpixel (by omega) (by omega)
    (by rw [Nat.mul_one]) hfirst
  -- the rows repeat the first one
  have hrows : Repeats row.1 (rowByte s c) rowSize (min 1 height * rowSize) := by
    intro k hk
    rw [Nat.min_eq_left hheight, Nat.one_mul] at hk
    rw [Nat.mod_eq_of_lt hk]
    exact hfilled.repeats k (by omega)
  have hbelow : ∀ i < 2 ^ 31, belowHeight height i ↔ i < height :=
    fun i hi => or_iff_right (not_le.2 hi)
  obtain ⟨all, hrun', hmem', hfilled'⟩ := fillLoop_spec hheight' hsize hbelow 32 Nat.one_pos (by decide) (by omega)
    (by rw [Nat.one_mul]) hrows
  refine ⟨(all.1, ⟨0, w⟩ :: (row.2 ++ all.2)), ?_, ?_, fun k => ?_, fun y hy k hk => ?_⟩
  · simp only [fillRun, ← hw, ← hh, hrun, hrun', Option.bind_eq_bind, Option.bind_some, Option.pure_def]
  · rw [hmem', hmem]
    rfl
  · have hone : rowSize ≤ height * rowSize := Nat.le_mul_of_pos_left _ hheight
    rw [covers_cons, covers_append, hfilled.writes k, hfilled'.writes k, Nat.min_eq_left hrow, Nat.min_eq_left hheight]
    dsimp only
    omega
  · have hlt : y * rowSize + k < height * rowSize :=
      calc y * rowSize + k < y * rowSize + rowSize := Nat.add_lt_add_left hk _
        _ = (y + 1) * rowSize := (Nat.succ_mul y rowSize).symm
        _ ≤ height * rowSize := Nat.mul_le_mul_right _ hy
    rw [hfilled'.repeats _ hlt, Nat.add_comm, Nat.add_mul_mod_self_right, Nat.mod_eq_of_lt hk]

/-- a fill with the computed stride is right exactly if the stride did not wrap to zero -/
theorem fill_iff (hvalid : validateSpecification s = .ok)
    (hsize : s.bmpHeight.toInt.toNat * (calculateStride s.bmpWidth s.bitsPerPx).toNat < 2 ^ 32) :
    FillRight s (calculateStride s.bmpWidth s.bitsPerPx).toNat c mem ↔
      (calculateStride s.bmpWidth s.bitsPerPx).toNat ≠ 0 := by
  have hstride := stride_toNat hvalid
  obtain ⟨-, hpos, hdepth⟩ := validateSpecification_ok hvalid
  have hheight : 0 < s.bmpHeight.toInt := by simpa using Int32.lt_iff_toInt_lt.1 hpos
  have hpixel : s.bitsPerPx.toNat / 8 = 3 ∨ s.bitsPerPx.toNat / 8 = 4 := by
    rcases hdepth with h | h
    · exact Or.inl (by rw [h]; rfl)
    · exact Or.inr (by rw [h]; rfl)
  constructor
  · rintro ⟨rounds, r, hr, hwrites, -⟩ hzero
    have hcovered := (hwrites 0).1 (fillRun_covers_zero c mem (by omega) hr)
    rw [hzero, Nat.mul_zero] at hcovered
    exact absurd hcovered (lt_irrefl 0)
  · intro hne
    have hfour : 4 ≤ (calculateStride s.bmpWidth s.bitsPerPx).toNat := by omega
    have hheight' : s.bmpHeight.toInt.toNat ≤ 2 ^ 30 := by
      have hle := Nat.mul_le_mul_left s.bmpHeight.toInt.toNat hfour
      omega
    obtain ⟨r, hr, -, hwrites, hbytes⟩ := fillRun_right c mem (by omega) (by omega) (by omega) (by omega) hheight' hsize
    exact ⟨32, r, hr, hwrites, hbytes⟩

/-- one pixel of three bytes in a row of four -/
theorem fill_onePixel : FillRight (onePixel flagNone) 4 ⟨1, 2, 3, 4⟩ fun _ => 0 :=
  (fill_iff (s := onePixel flagNone) ⟨1, 2, 3, 4⟩ (fun _ => 0) rfl (by decide)).2 (by decide)

/-- the pixel of the row whose stride is zero lies outside -/
theorem fill_wideRow : ¬ ∀ s c mem, validateSpecification s = .ok →
    s.bmpHeight.toInt.toNat * (calculateStride s.bmpWidth s.bitsPerPx).toNat < 2 ^ 32 →
    FillRight s (calculateStride s.bmpWidth s.bitsPerPx).toNat c mem := by
  intro hall
  obtain ⟨rounds, r, hr, hwrites, -⟩ := hall wideRow ⟨1, 2, 3, 4⟩ (fun _ => 0) (by decide) (by decide)
  have hcovered := (hwrites 0).1 (fillRun_covers_zero _ _ (by decide) hr)
  exact absurd hcovered (by decide)

end Fill

end Noriko.Bmp
