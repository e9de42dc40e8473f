/-
Centring of the viewport in the client area (`NkCalculateViewportOrigin` of `util.c`) and of a window in the work area
(`NkCalculateInitialWindowPos` of `winhelpers.c`).

A difference of sizes is divided by 2 before it becomes signed. If it is negative, its half is a number near 2⁶³, so only
what is no larger than the area around it is centred. The other sides are right, where nothing is divided
(`placement_exact_iff`).

The position of a window is a distance from the left and upper end of the work area, and it is taken as one from the end of
the screen. So on the screen a window is centred only if the work area begins where the screen does.
-/
import Mathlib.Tactic
import Noriko.Placement

namespace Noriko.Centre

/-! ## The code -/

/-- `RECT`, with a width and a height of type `LONG` -/
structure Rect where
  left : Int32
  top : Int32
  right : Int32
  bottom : Int32
  width_fits : -2 ^ 31 ≤ right.toInt - left.toInt ∧ right.toInt - left.toInt < 2 ^ 31
  height_fits : -2 ^ 31 ≤ bottom.toInt - top.toInt ∧ bottom.toInt - top.toInt < 2 ^ 31

/-- one coordinate of the position; the difference of two `LONG` is converted to an unsigned size -/
def initialCoord (lo hi : Int32) (size : UInt64) : Int64 := (((hi - lo).toInt64.toUInt64 - size) / 2).toInt64

/-- `NkCalculateInitialWindowPos`; `wkArea` is what `SystemParametersInfo` gives -/
def calculateInitialWindowPos (wkArea : Option Rect) (wndSize : NkSize2D) : NkPoint2D :=
  match wkArea with
  | none => ⟨0, 0⟩
  | some r => ⟨initialCoord r.left r.right wndSize.width, initialCoord r.top r.bottom wndSize.height⟩

/-! ## What is right -/

/-- an origin on one axis, for the alignment to its near end, to its far end or to its centre -/
def AxisPlaced (near far vpAlign : ℕ) (origin : ℤ) (viewport client : ℕ) : Prop :=
  if vpAlign &&& near ≠ 0 then origin = 0
  else if vpAlign &&& far ≠ 0 then origin = client - viewport
  else |2 * origin + viewport - client| ≤ 1

structure Placed (vpAlign : ℕ) (vpExtents tileSize clExtents : NkSize2D) : Prop where
  x : AxisPlaced vpAlignLeft vpAlignRight vpAlign (calculateViewportOrigin vpAlign vpExtents tileSize clExtents).xCoord.toInt
    (vpExtents.width.toNat * tileSize.width.toNat) clExtents.width.toNat
  y : AxisPlaced vpAlignTop vpAlignBottom vpAlign (calculateViewportOrigin vpAlign vpExtents tileSize clExtents).yCoord.toInt
    (vpExtents.height.toNat * tileSize.height.toNat) clExtents.height.toNat

/-- the product and the difference fit in 64 bits with sign -/
def AxisFits (viewport client : ℕ) : Prop :=
  viewport < 2 ^ 63 ∧ -2 ^ 63 ≤ (client : ℤ) - viewport ∧ (client : ℤ) - viewport < 2 ^ 63

instance (viewport client : ℕ) : Decidable (AxisFits viewport client) := inferInstanceAs (Decidable (_ ∧ _))

def Fits (vpExtents tileSize clExtents : NkSize2D) : Prop :=
  AxisFits (vpExtents.width.toNat * tileSize.width.toNat) clExtents.width.toNat ∧
    AxisFits (vpExtents.height.toNat * tileSize.height.toNat) clExtents.height.toNat

instance (vpExtents tileSize clExtents : NkSize2D) : Decidable (Fits vpExtents tileSize clExtents) :=
  inferInstanceAs (Decidable (_ ∧ _))

/-- a viewport that is centred on this axis is no larger than the client area -/
def AxisCovers (near far vpAlign viewport client : ℕ) : Prop :=
  vpAlign &&& near = 0 → vpAlign &&& far = 0 → viewport ≤ client

instance (near far vpAlign viewport client : ℕ) : Decidable (AxisCovers near far vpAlign viewport client) :=
  inferInstanceAs (Decidable (_ → _))

def Covers (vpAlign : ℕ) (vpExtents tileSize clExtents : NkSize2D) : Prop :=
  AxisCovers vpAlignLeft vpAlignRight vpAlign (vpExtents.width.toNat * tileSize.width.toNat) clExtents.width.toNat ∧
    AxisCovers vpAlignTop vpAlignBottom vpAlign (vpExtents.height.toNat * tileSize.height.toNat) clExtents.height.toNat

instance (vpAlign : ℕ) (vpExtents tileSize clExtents : NkSize2D) : Decidable (Covers vpAlign vpExtents tileSize clExtents) :=
  inferInstanceAs (Decidable (_ ∧ _))

/-- a position on one axis is that of the centre of the work area, counted from `zero` -/
def AxisCentred (zero pos : ℤ) (lo hi : Int32) (size : UInt64) : Prop :=
  |2 * (pos - zero) + size.toNat - (hi.toInt - lo.toInt)| ≤ 1

/-- centred, if the position is counted from the left and upper end of the work area -/
def CentredInArea (r : Rect) (wndSize : NkSize2D) : Prop :=
  AxisCentred 0 (calculateInitialWindowPos (some r) wndSize).xCoord.toInt r.left r.right wndSize.width ∧
    AxisCentred 0 (calculateInitialWindowPos (some r) wndSize).yCoord.toInt r.top r.bottom wndSize.height

/-- centred, if the position is one on the screen -/
def CentredOnScreen (r : Rect) (wndSize : NkSize2D) : Prop :=
  AxisCentred r.left.toInt (calculateInitialWindowPos (some r) wndSize).xCoord.toInt r.left r.right wndSize.width ∧
    AxisCentred r.top.toInt (calculateInitialWindowPos (some r) wndSize).yCoord.toInt r.top r.bottom wndSize.height

/-- a window that is no larger than the work area -/
def FitsArea (r : Rect) (wndSize : NkSize2D) : Prop :=
  (wndSize.width.toNat : ℤ) ≤ r.right.toInt - r.left.toInt ∧ (wndSize.height.toNat : ℤ) ≤ r.bottom.toInt - r.top.toInt

/-- on one axis the work area begins where the screen does, to within the pixel that is lost by the division -/
def BeginsAtZero (lo hi : Int32) (size : UInt64) : Prop :=
  lo.toInt = 0 ∨ lo.toInt = -1 ∧ (hi.toInt - lo.toInt - size.toNat) % 2 = 1

/-! ## Halves -/

section Halves

variable {u : UInt64} {d : ℤ}

theorem toInt_half (u : UInt64) : (u / 2).toInt64.toInt = u.toNat / 2 := by
  have hhalf : (u / 2).toNat = u.toNat / 2 := UInt64.toNat_div u 2
  have hlt := u.toNat_lt
  have hbits : 2 * (u / 2).toBitVec.toNat < 2 ^ 64 := by
    have hnat : (u / 2).toBitVec.toNat = (u / 2).toNat := rfl
    omega
  have hint : (u / 2).toInt64.toInt = (u / 2).toNat := BitVec.toInt_eq_toNat_of_lt hbits
  rw [hint, hhalf]
  rfl

/-- a signed number is the pattern that is smaller than 2⁶³ on both sides of zero -/
theorem toInt_of_emod (hu : (u.toNat : ℤ) = d % 2 ^ 64) (hlo : -2 ^ 63 ≤ d) (hhi : d < 2 ^ 63) : u.toInt64.toInt = d := by
  have hnat : u.toBitVec.toNat = u.toNat := rfl
  have hint : u.toInt64.toInt = _ := BitVec.toInt_eq_toNat_cond u.toBitVec
  rw [hint, hnat]
  split_ifs <;> omega

theorem toNat_sub_emod (a b : UInt64) : ((a - b).toNat : ℤ) = ((a.toNat : ℤ) - b.toNat) % 2 ^ 64 := by
  have ha := a.toNat_lt
  have hb := b.toNat_lt
  rw [UInt64.toNat_sub]
  omega

theorem toNat_signed (i : Int64) : (i.toUInt64.toNat : ℤ) = i.toInt % 2 ^ 64 := by
  have hnat : i.toUInt64.toNat = i.toBitVec.toNat := rfl
  have hlt := i.toBitVec.isLt
  have hint : i.toInt = _ := BitVec.toInt_eq_toNat_cond i.toBitVec
  rw [hint, hnat]
  split_ifs <;> omega

/-- the half of a difference, counted from `zero`, is right if the difference is not negative, and if `zero` is where the
area begins -/
theorem half_iff (hu : (u.toNat : ℤ) = d % 2 ^ 64) (hd : d < 2 ^ 64) {zero : ℤ} (hlo : -2 ^ 31 ≤ zero) (hhi : zero < 2 ^ 31) :
    |2 * ((u / 2).toInt64.toInt - zero) - d| ≤ 1 ↔ 0 ≤ d ∧ (zero = 0 ∨ zero = -1 ∧ d % 2 = 1) := by
  rw [toInt_half, hu, abs_le]
  by_cases h0 : 0 ≤ d
  · rw [Int.emod_eq_of_lt h0 hd]
    omega
  · -- the half of a negative difference is at least 2⁶³ too large
    have hwrap : d + 2 ^ 64 ≤ d % 2 ^ 64 := by omega
    omega

theorem half_zero_iff (hu : (u.toNat : ℤ) = d % 2 ^ 64) (hd : d < 2 ^ 64) :
    |2 * (u / 2).toInt64.toInt - d| ≤ 1 ↔ 0 ≤ d := by
  have h := @half_iff u d hu hd 0 (by decide) (by decide)
  rw [sub_zero] at h
  exact h.trans (and_iff_left (Or.inl rfl))

end Halves

/-! ## Viewport and window -/

theorem axisPlaced_iff {near far vpAlign : ℕ} {vpExtent tile client : UInt64}
    (hfits : AxisFits (vpExtent.toNat * tile.toNat) client.toNat) :
    AxisPlaced near far vpAlign (originCoord near far vpAlign (vpExtent * tile) client).toInt
      (vpExtent.toNat * tile.toNat) client.toNat ↔
      AxisCovers near far vpAlign (vpExtent.toNat * tile.toNat) client.toNat := by
  have hmul : (vpExtent * tile).toNat = vpExtent.toNat * tile.toNat := by
    rw [UInt64.toNat_mul]
    exact Nat.mod_eq_of_lt (hfits.1.trans (by decide))
  have hu := toNat_sub_emod client (vpExtent * tile)
  rw [hmul] at hu
  unfold AxisPlaced AxisCovers originCoord
  by_cases hnear : vpAlign &&& near = 0
  · by_cases hfar : vpAlign &&& far = 0
    · have hclient := client.toNat_lt
      have hhalf := half_zero_iff hu (by omega)
      rw [if_neg (not_not.2 hnear), if_neg (not_not.2 hnear), if_neg (not_not.2 hfar), if_neg (not_not.2 hfar),
        ← sub_sub_eq_add_sub]
      rw [sub_nonneg, Nat.cast_le] at hhalf
      exact hhalf.trans ⟨fun h _ _ => h, fun h => h hnear hfar⟩
    · rw [if_neg (not_not.2 hnear), if_neg (not_not.2 hnear), if_pos hfar, if_pos hfar, UInt64.div_one,
        toInt_of_emod hu hfits.2.1 hfits.2.2]
      exact iff_of_true rfl fun _ h => absurd h hfar
  · rw [if_pos hnear, if_pos hnear]
    exact iff_of_true rfl fun h => absurd h hnear

/-- what is divided for a coordinate of a window -/
theorem initial_emod {lo hi : Int32} (size : UInt64)
    (hfits : -2 ^ 31 ≤ hi.toInt - lo.toInt ∧ hi.toInt - lo.toInt < 2 ^ 31) :
    (((hi - lo).toInt64.toUInt64 - size).toNat : ℤ) = (hi.toInt - lo.toInt - size.toNat) % 2 ^ 64 := by
  have hsub : (hi - lo).toInt = hi.toInt - lo.toInt := by
    rw [Int32.toInt_sub]
    exact Int.bmod_eq_of_le (by omega) (by omega)
  have hext := toNat_signed (hi - lo).toInt64
  rw [Int32.toInt_toInt64, hsub] at hext
  rw [toNat_sub_emod, hext, Int.emod_sub_emod]

theorem axisCentred_iff {lo hi : Int32} {size : UInt64}
    (hfits : -2 ^ 31 ≤ hi.toInt - lo.toInt ∧ hi.toInt - lo.toInt < 2 ^ 31) :
    (AxisCentred 0 (initialCoord lo hi size).toInt lo hi size ↔ (size.toNat : ℤ) ≤ hi.toInt - lo.toInt) ∧
      (AxisCentred lo.toInt (initialCoord lo hi size).toInt lo hi size ↔
        (size.toNat : ℤ) ≤ hi.toInt - lo.toInt ∧ BeginsAtZero lo hi size) := by
  have hu := initial_emod size hfits
  have hd : hi.toInt - lo.toInt - size.toNat < 2 ^ 64 := by omega
  have harea := half_zero_iff hu hd
  have hscreen := half_iff hu hd lo.le_toInt lo.toInt_lt
  unfold AxisCentred initialCoord
  rw [sub_nonneg] at harea hscreen
  rw [sub_zero, ← sub_sub_eq_add_sub, ← sub_sub_eq_add_sub]
  exact ⟨harea, hscreen⟩

/-- the origin of the viewport is right exactly if the viewport is no larger than the client area on the axes on which it is
centred; a window is centred in the work area exactly if it is no larger, and on the screen exactly if the work area begins
where the screen does, too -/
theorem placement_exact_iff {vpExtents tileSize clExtents : NkSize2D} (hfits : Fits vpExtents tileSize clExtents) (vpAlign : ℕ)
    (r : Rect) (wndSize : NkSize2D) :
    (Placed vpAlign vpExtents tileSize clExtents ↔ Covers vpAlign vpExtents tileSize clExtents) ∧
      (CentredInArea r wndSize ↔ FitsArea r wndSize) ∧
      (CentredOnScreen r wndSize ↔ FitsArea r wndSize ∧ BeginsAtZero r.left r.right wndSize.width ∧
        BeginsAtZero r.top r.bottom wndSize.height) := by
  have hw := @axisCentred_iff r.left r.right wndSize.width r.width_fits
  have hh := @axisCentred_iff r.top r.bottom wndSize.height r.height_fits
  refine ⟨?_, and_congr hw.1 hh.1, (and_congr hw.2 hh.2).trans and_and_and_comm⟩
  constructor
  · intro h
    exact ⟨(axisPlaced_iff hfits.1).1 h.x, (axisPlaced_iff hfits.2).1 h.y⟩
  · intro h
    exact ⟨(axisPlaced_iff hfits.1).2 h.1, (axisPlaced_iff hfits.2).2 h.2⟩

/-- the work area of a display with a task bar of 40 pixels at its lower end -/
def mainArea : Rect := ⟨0, 0, 1920, 1040, by decide, by decide⟩

/-- a viewport of 512 × 384 pixels in the centre of a client area of 800 × 600 -/
theorem placed_larger_client : Placed 18 ⟨32, 24⟩ ⟨16, 16⟩ ⟨800, 600⟩ :=
  (@placement_exact_iff ⟨32, 24⟩ ⟨16, 16⟩ ⟨800, 600⟩ (by decide) 18 mainArea ⟨800, 600⟩).1.2 (by decide)

/-- the same viewport in a client area of 400 × 300 pixels, and a window of 2000 × 1200 in the work area -/
theorem not_centred_smaller : ¬ Placed 18 ⟨32, 24⟩ ⟨16, 16⟩ ⟨400, 300⟩ ∧
    (calculateViewportOrigin 18 ⟨32, 24⟩ ⟨16, 16⟩ ⟨400, 300⟩).xCoord.toInt = 2 ^ 63 - 56 ∧
    ¬ CentredInArea mainArea ⟨2000, 1200⟩ := by
  refine ⟨fun h => ?_, by decide, fun h => ?_⟩
  · have hcover := (@axisPlaced_iff vpAlignLeft vpAlignRight 18 32 16 400 (by decide)).1 h.x
    exact absurd hcover (by decide)
  · have hfit := (@axisCentred_iff mainArea.left mainArea.right 2000 mainArea.width_fits).1.1 h.1
    exact absurd hfit (by decide)

end Noriko.Centre
