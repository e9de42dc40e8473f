/-
The player's movement (`__NkInt_WorldLayer_OnUpdate` of `world.c`).

A player at rest takes the tile next to it in the direction of a pressed key as its target. From then on every update moves
it by the distance of one update until less than that is left, and it is put on the target. All of this is arithmetic in
single precision, where neither the target nor what is left nor the position after a step need be exact.

- `movement_refines`: whatever is pressed and however long the updates are, the player walks on the grid. It is on a tile,
  or between a tile and the one next to it in the direction that it faces; it never passes its target, and it leaves a tile
  only in the direction of a key that is pressed there. The 2²⁴-th tile is the last one: the number of the next tile is
  rounded back to it.
- `movement_arrives`: where a step is larger than what rounding can take back of it, every walk ends, after a number of
  updates that follows from the distance of an update.

The numbers are the finite ones of single precision; durations are not negative. A product that is too large for the format
only occurs in the comparison with what is left, where it is larger in either reading. The animation and the timers do not
change what is modelled.
-/
import Noriko.Def
import Noriko.Lib.Rounding
import Noriko.Lib.Sim

namespace Noriko.Movement

open Lib

/-! ## The code -/

/-- `sqrtf` -/
def sqrtf (q : ℚ) : ℚ := roundedSqrt 24 (-149) q

/-- the literal `0.001`, a number of double precision -/
def thousandth : ℚ := 1152921504606847 / 2 ^ 60

/-- what `IsKeyPressed` says during an update -/
structure Keys where
  lShift : Bool
  alnumA : Bool
  alnumD : Bool
  alnumW : Bool
  alnumS : Bool
deriving DecidableEq, Repr

structure WorldLayer where
  prevPos : NkVec2F
  playerPos : NkVec2F
  targetPos : NkVec2F
  isMoving : Bool
  vel : NkVec2F
  dir : ℤ
  moveSpeed : ℚ
deriving DecidableEq, Repr

/-- what `OnPush` sets -/
def onPush : WorldLayer where
  prevPos := ⟨11 * 32, 9 * 32⟩
  playerPos := ⟨11 * 32, 9 * 32⟩
  targetPos := ⟨11 * 32, 9 * 32⟩
  isMoving := false
  vel := ⟨0, 1⟩
  dir := 0
  moveSpeed := 3 * 32

def axis (back forth : Bool) : ℚ := if back then -1 else if forth then 1 else 0

/-- the branch of a player at rest -/
def takeTarget (keys : Keys) (w : WorldLayer) : WorldLayer :=
  let axisX := axis keys.alnumA keys.alnumD
  let axisY := if axisX ≠ 0 then 0 else axis keys.alnumW keys.alnumS
  let w := { w with vel := ⟨axisX, axisY⟩ }
  if axisX ≠ 0 ∨ axisY ≠ 0 then
    { w with
      dir := if axisX = 1 then 2 else if axisX = -1 then 1 else if axisY = 1 then 0 else if axisY = -1 then 3 else w.dir
      targetPos := ⟨single (w.playerPos.xVal + single (axisX * 32)), single (w.playerPos.yVal + single (axisY * 32))⟩
      isMoving := true }
  else w

/-- the label `lbl_HERE` -/
def arrive (w : WorldLayer) : WorldLayer := { w with playerPos := w.targetPos, isMoving := false }

/-- the branch of a player that moves -/
def approach (updTime : ℚ) (w : WorldLayer) : WorldLayer :=
  let diffX := single (w.targetPos.xVal - w.playerPos.xVal)
  let diffY := single (w.targetPos.yVal - w.playerPos.yVal)
  let square := single (single (diffX * diffX) + single (diffY * diffY))
  let mag := sqrtf square
  let step := single (w.moveSpeed * updTime)
  if thousandth < square then
    if mag < step ∨ mag = 0 then arrive w
    else
      { w with
        prevPos := w.playerPos
        playerPos := ⟨single (w.playerPos.xVal + single (single (diffX / mag) * step)),
          single (w.playerPos.yVal + single (single (diffY / mag) * step))⟩ }
  else arrive w

structure Update where
  keys : Keys
  updTime : ℚ
deriving DecidableEq, Repr

def setSpeed (keys : Keys) (w : WorldLayer) : WorldLayer := { w with moveSpeed := if keys.lShift then 8 * 32 else 4 * 32 }

def onUpdate (w : WorldLayer) (u : Update) : WorldLayer :=
  let w := setSpeed u.keys w
  let w := if w.isMoving = false then takeTarget u.keys w else w
  if w.isMoving = true then approach u.updTime w else w

def worldStep (w : WorldLayer) (u : Update) : Option (WorldLayer × WorldLayer) := some (onUpdate w u, onUpdate w u)

/-! ## Walking on a grid -/

/-- the values of `m_dir` -/
inductive Facing where
  | down | left | right | up
deriving DecidableEq, Repr

def Facing.dir : Facing → ℤ
  | .down => 0
  | .left => 1
  | .right => 2
  | .up => 3

def Facing.dx : Facing → ℤ
  | .left => -1
  | .right => 1
  | _ => 0

def Facing.dy : Facing → ℤ
  | .down => 1
  | .up => -1
  | _ => 0

/-- the direction of the keys that are pressed: the horizontal ones go first -/
def pressed (keys : Keys) : Option Facing :=
  if keys.alnumA then some .left else if keys.alnumD then some .right
  else if keys.alnumW then some .up else if keys.alnumS then some .down else none

/-- the last tile in either direction -/
def lastTile : ℤ := 2 ^ 24

def onMap (n : ℤ) : ℤ := max (-lastTile) (min n lastTile)

/-- a walker on a tile, or on its way from that tile to the next one -/
structure Walk where
  x : ℤ
  y : ℤ
  facing : Facing
  walking : Bool
deriving DecidableEq, Repr

def Walk.nextX (k : Walk) : ℤ := onMap (k.x + k.facing.dx)

def Walk.nextY (k : Walk) : ℤ := onMap (k.y + k.facing.dy)

/-- the walker on the next tile -/
def Walk.reached (k : Walk) : Walk := ⟨k.nextX, k.nextY, k.facing, false⟩

/-- what an update may do to the walker -/
inductive WalkStep : Option Facing → Walk → Walk → Prop
  | stand {k : Walk} : k.walking = false → WalkStep none k k
  | setOff {k : Walk} (d : Facing) : k.walking = false → WalkStep (some d) k { k with facing := d, walking := true }
  | hop {k : Walk} (d : Facing) : k.walking = false → WalkStep (some d) k { k with facing := d }.reached
  | stride {k : Walk} {d : Option Facing} : k.walking = true → WalkStep d k k
  | arrive {k : Walk} {d : Option Facing} : k.walking = true → WalkStep d k k.reached

/-- the corner of a tile -/
def corner (n : ℤ) : ℚ := 32 * n

/-- the layer shows the walker: a player at rest is on its tile, and one that moves is between its tile and the next one -/
structure Shows (w : WorldLayer) (k : Walk) : Prop where
  isMoving : w.isMoving = k.walking
  dir : w.dir = k.facing.dir
  x_le : |k.x| ≤ lastTile
  y_le : |k.y| ≤ lastTile
  fitsX : Fits 24 (-149) w.playerPos.xVal
  fitsY : Fits 24 (-149) w.playerPos.yVal
  rest : k.walking = false → w.playerPos = ⟨corner k.x, corner k.y⟩ ∧ w.targetPos = w.playerPos
  target : k.walking = true → w.targetPos = ⟨corner k.nextX, corner k.nextY⟩
  betweenX : k.walking = true → w.playerPos.xVal ∈ Set.uIcc (corner k.x) (corner k.nextX)
  betweenY : k.walking = true → w.playerPos.yVal ∈ Set.uIcc (corner k.y) (corner k.nextY)

/-- an update moves the walker by a step, and the layer shows the walker afterwards -/
def WalkSpec (k : Walk) (u : Update) (w : WorldLayer) (k' : Walk) : Prop := WalkStep (pressed u.keys) k k' ∧ Shows w k'

/-! ## Along one axis -/

section Axis

variable {n : ℤ} {pos step diff : ℚ}

theorem corner_neg (n : ℤ) : corner (-n) = -corner n := by
  unfold corner
  push_cast
  ring

theorem corner_succ (n : ℤ) : corner (n + 1) = corner n + 32 := by
  unfold corner
  push_cast
  ring

theorem fits_corner (h : |n| ≤ lastTile) : Fits 24 (-149) (corner n) := by
  rcases h.lt_or_eq with hlt | heq
  · refine ⟨n, 5, ?_, hlt, by decide⟩
    rw [corner, mul_comm]
    norm_num
  · rcases (abs_eq (by decide)).1 heq with rfl | rfl
    · exact ⟨2 ^ 23, 6, by norm_num [corner, lastTile], by decide, by decide⟩
    · exact ⟨-2 ^ 23, 6, by norm_num [corner, lastTile], by decide, by decide⟩

theorem onMap_of_le (h : |n| ≤ lastTile) : onMap n = n := by
  obtain ⟨hlow, hhigh⟩ := abs_le.1 h
  rw [onMap, min_eq_left hhigh, max_eq_right hlow]

theorem abs_onMap_le (n : ℤ) : |onMap n| ≤ lastTile :=
  abs_le.2 ⟨le_max_left _ _, max_le (by decide) (min_le_right _ _)⟩

/-- the tile behind the last one is rounded back to it -/
theorem single_behind : single (corner (lastTile + 1)) = corner lastTile := by
  have hlog : Int.log 2 |corner (lastTile + 1)| = 29 := by
    apply log_eq_of_bounds <;> norm_num [corner, lastTile]
  have hplace : placeOf 24 (-149) (corner (lastTile + 1)) = 6 := by
    rw [placeOf, hlog]
    decide
  have hunits : corner (lastTile + 1) / 2 ^ (6 : ℤ) = ((2 ^ 23 : ℤ) : ℚ) + 1 / 2 := by norm_num [corner, lastTile]
  rw [single, rounded, hplace, hunits, nearestEven_middle (by decide)]
  norm_num [corner, lastTile]

/-- the target that is taken from a tile -/
theorem single_next (hn : |n| ≤ lastTile) {d : ℤ} (hd : d = -1 ∨ d = 0 ∨ d = 1) :
    single (corner n + single (d * 32)) = corner (onMap (n + d)) := by
  have hup : ∀ {m : ℤ}, |m| ≤ lastTile → single (corner m + 32) = corner (onMap (m + 1)) := by
    intro m hm
    rw [← corner_succ]
    by_cases hlast : m = lastTile
    · rw [hlast, single_behind]
      rfl
    · have hle : |m + 1| ≤ lastTile := by
        rw [abs_le] at hm ⊢
        omega
      rw [single_of_fits (fits_corner hle), onMap_of_le hle]
  have hfits : Fits 24 (-149) 32 := ⟨1, 5, by norm_num, by decide, by decide⟩
  rcases hd with rfl | rfl | rfl
  · have hneg := hup (m := -n) (by rwa [abs_neg])
    have hmap : onMap (-n + 1) = -onMap (n + -1) := by
      rw [abs_le] at hn
      unfold onMap
      have hpos : (0 : ℤ) ≤ lastTile := by decide
      omega
    rw [hmap, corner_neg, corner_neg] at hneg
    have hsum : corner n + single (((-1 : ℤ) : ℚ) * 32) = -(-corner n + 32) := by
      rw [Int.cast_neg, Int.cast_one, neg_one_mul, single_neg, single_of_fits hfits]
      ring
    rw [hsum, single_neg, hneg, neg_neg]
  · rw [Int.cast_zero, zero_mul, single_zero, add_zero, add_zero, onMap_of_le hn, single_of_fits (fits_corner hn)]
  · rw [Int.cast_one, one_mul, single_of_fits hfits, hup hn]

/-- what is left of the way to the next tile, rounded, does not lead beyond that tile -/
theorem no_overshoot (hn : |n| ≤ lastTile) (hnext : |n + 1| ≤ lastTile) (hpos : Fits 24 (-149) pos) (hlow : corner n ≤ pos)
    (hhigh : pos ≤ corner (n + 1)) : single (pos + single (corner (n + 1) - pos)) ≤ corner (n + 1) := by
  have hexact : Fits 24 (-149) (corner (n + 1) - pos) →
      single (pos + single (corner (n + 1) - pos)) ≤ corner (n + 1) := by
    intro hfits
    rw [single_of_fits hfits, add_sub_cancel, single_of_fits (fits_corner hnext)]
  rw [corner_succ] at hhigh
  rcases lt_trichotomy n 0 with hneg | rfl | hgt
  · rcases lt_or_eq_of_le (show n + 1 ≤ 0 by omega) with hbelow | hzero
    · -- both numbers are negative, and the nearer tile is not less than half as far from 0 as the other
      have hc : corner n ≤ -64 := by
        have : (n : ℚ) ≤ -2 := by exact_mod_cast (show n ≤ -2 by omega)
        unfold corner
        linarith
      have hsub := fits_sub hpos.neg (fits_corner hnext).neg (by rw [corner_succ]; linarith)
        (by rw [corner_succ]; linarith)
      rw [neg_sub_neg] at hsub
      exact hexact hsub
    · refine hexact ?_
      rw [hzero, corner, Int.cast_zero, mul_zero, zero_sub]
      exact hpos.neg
  · -- from the tile at 0 the way is not exact before its middle
    have h32 : corner (0 + 1) = 32 := by norm_num [corner]
    have h0 : corner 0 = 0 := by norm_num [corner]
    rw [h0] at hlow hhigh
    rw [h32]
    have hplace : ∀ {q : ℚ}, 0 ≤ q → q ≤ 32 → placeOf 24 (-149) q ≤ -18 := by
      intro q hq hq32
      refine max_le ?_ (by decide)
      rcases hq.lt_or_eq with hqpos | rfl
      · have hlog : Int.log 2 |q| < 6 := by
          refine (Int.lt_zpow_iff_log_lt one_lt_two (abs_pos.2 hqpos.ne')).1 ?_
          rw [abs_of_pos hqpos]
          exact hq32.trans_lt (by norm_num)
        omega
      · simp
    have herr := abs_rounded_sub_le 24 (-149) (32 - pos)
    have hhalf : (2 : ℚ) ^ placeOf 24 (-149) (32 - pos) ≤ 2 ^ (-18 : ℤ) :=
      zpow_le_zpow_right₀ one_le_two (hplace (by linarith) (by linarith))
    have hsum : pos + single (32 - pos) ≤ 32 + 1 / 2 ^ 19 := by
      have hmove : single (32 - pos) - (32 - pos) ≤ 1 / 2 ^ 19 :=
        calc single (32 - pos) - (32 - pos) ≤ 2 ^ placeOf 24 (-149) (32 - pos) / 2 := (abs_le.1 herr).2
          _ ≤ 2 ^ (-18 : ℤ) / 2 := div_le_div_of_nonneg_right hhalf two_pos.le
          _ = 1 / 2 ^ 19 := by norm_num
      linarith
    refine (single_mono hsum).trans_eq ?_
    have hlog : Int.log 2 |(32 : ℚ) + 1 / 2 ^ 19| = 5 := by
      apply log_eq_of_bounds <;> norm_num
    have hlast : placeOf 24 (-149) (32 + 1 / 2 ^ 19) = -18 := by
      rw [placeOf, hlog]
      decide
    have hunits : ((32 : ℚ) + 1 / 2 ^ 19) / 2 ^ (-18 : ℤ) = ((2 ^ 23 : ℤ) : ℚ) + 1 / 2 := by norm_num
    rw [single, rounded, hlast, hunits, nearestEven_middle (by decide)]
    norm_num
  · have hc : 32 ≤ corner n := by
      have : (1 : ℚ) ≤ n := by exact_mod_cast (show 1 ≤ n by omega)
      unfold corner
      linarith
    exact hexact (fits_sub (fits_corner hnext) hpos (by rw [corner_succ]; linarith) (by rw [corner_succ]; linarith))

/-- the length of a way along an axis that is not taken as its end -/
theorem sqrtf_square (hdiff : Fits 24 (-149) diff) (h : thousandth < single (diff * diff)) :
    sqrtf (single (diff * diff)) = |diff| := by
  have hlarge : (2 : ℚ) ^ (-50 : ℤ) ≤ |diff| := by
    by_contra hsmall
    have hsq : diff * diff ≤ 2 ^ (-100 : ℤ) := by
      rw [← abs_mul_abs_self]
      calc |diff| * |diff| ≤ 2 ^ (-50 : ℤ) * 2 ^ (-50 : ℤ) :=
            mul_le_mul (not_le.1 hsmall).le (not_le.1 hsmall).le (abs_nonneg _) (by positivity)
        _ = 2 ^ (-100 : ℤ) := by norm_num
    have hle : single (diff * diff) ≤ 2 ^ (-100 : ℤ) :=
      rounded_le (by decide) hsq ⟨1, -100, by norm_num, by decide, by decide⟩
    have hlt : (2 : ℚ) ^ (-100 : ℤ) < thousandth := by norm_num [thousandth]
    exact absurd (h.trans_le hle) hlt.not_gt
  obtain ⟨m, hm, hbits, hmax, hplace⟩ := exists_full hdiff.abs ((by norm_num : (2 : ℚ) ^ (-149 + (24 : ℕ) - 1 : ℤ) ≤
    2 ^ (-50 : ℤ)).trans hlarge)
  have hlog := (Int.zpow_le_iff_le_log one_lt_two (lt_of_lt_of_le (by positivity) hlarge)).1 hlarge
  rw [← abs_mul_abs_self, hm]
  exact roundedSqrt_square hbits hmax (by omega) (by omega)

/-- a step towards a tile, where more than it is left -/
theorem stride_up (hn : |n| ≤ lastTile) (hnext : |n + 1| ≤ lastTile) (hpos : Fits 24 (-149) pos) (hlow : corner n ≤ pos)
    (hhigh : pos ≤ corner (n + 1)) (hstep : 0 ≤ step) (hleft : step ≤ single (corner (n + 1) - pos)) :
    pos ≤ single (pos + step) ∧ single (pos + step) ≤ corner (n + 1) := by
  constructor
  · exact le_rounded (by decide) (by linarith) hpos
  · exact (single_mono (by linarith)).trans (no_overshoot hn hnext hpos hlow hhigh)

/-- the move along an axis: towards the target, and not beyond it -/
def moved (pos target step : ℚ) : ℚ := single (pos + if 0 < single (target - pos) then step else -step)

theorem moved_neg (pos target step : ℚ) (hne : single (target - pos) ≠ 0) :
    moved (-pos) (-target) step = -moved pos target step := by
  unfold moved
  rw [← single_neg]
  have hdiff : single (-target - -pos) = -single (target - pos) := by
    rw [← single_neg]
    congr 1
    ring
  rw [hdiff]
  rcases lt_or_gt_of_ne hne with hlt | hgt
  · rw [if_pos (neg_pos.2 hlt), if_neg hlt.not_gt]
    congr 1
    ring
  · rw [if_neg (by linarith), if_pos hgt]
    congr 1
    ring

theorem neg_mem_uIcc {a b q : ℚ} : -q ∈ Set.uIcc (-a) (-b) ↔ q ∈ Set.uIcc a b := by
  rw [Set.mem_uIcc, Set.mem_uIcc, neg_le_neg_iff, neg_le_neg_iff, neg_le_neg_iff, neg_le_neg_iff, or_comm, and_comm,
    and_comm (a := b ≤ q)]

theorem moved_between (hn : |n| ≤ lastTile) {d : ℤ} (hd : d = -1 ∨ d = 1) (hpos : Fits 24 (-149) pos)
    (hmem : pos ∈ Set.uIcc (corner n) (corner (onMap (n + d)))) (hstep : 0 ≤ step)
    (hleft : step ≤ |single (corner (onMap (n + d)) - pos)|) (hne : single (corner (onMap (n + d)) - pos) ≠ 0) :
    moved pos (corner (onMap (n + d))) step ∈ Set.uIcc pos (corner (onMap (n + d))) := by
  have hup : ∀ {m : ℤ} {q : ℚ}, |m| ≤ lastTile → Fits 24 (-149) q → q ∈ Set.uIcc (corner m) (corner (onMap (m + 1))) →
      step ≤ |single (corner (onMap (m + 1)) - q)| → single (corner (onMap (m + 1)) - q) ≠ 0 →
      moved q (corner (onMap (m + 1))) step ∈ Set.uIcc q (corner (onMap (m + 1))) := by
    intro m q hm hq hqmem hqleft hqne
    by_cases hlast : m = lastTile
    · -- at the last tile there is no way
      have hedge : onMap (m + 1) = m := by
        rw [hlast]
        decide
      rw [hedge, Set.uIcc_self, Set.mem_singleton_iff] at hqmem
      rw [hedge, hqmem, sub_self, single_zero] at hqne
      exact absurd rfl hqne
    · have hmnext : |m + 1| ≤ lastTile := by
        rw [abs_le] at hm ⊢
        omega
      rw [onMap_of_le hmnext] at hqmem hqleft hqne ⊢
      rw [Set.uIcc_of_le (by rw [corner_succ]; linarith), Set.mem_Icc] at hqmem
      have hpos' : 0 < single (corner (m + 1) - q) := by
        refine lt_of_le_of_ne ?_ hqne.symm
        exact rounded_nonneg _ _ (by linarith [hqmem.2])
      rw [abs_of_pos hpos'] at hqleft
      rw [moved, if_pos hpos', Set.uIcc_of_le hqmem.2]
      exact stride_up hm hmnext hq hqmem.1 hqmem.2 hstep hqleft
  rcases hd with rfl | rfl
  · have hmirror : -onMap (n + -1) = onMap (-n + 1) := by
      unfold onMap
      have hlast : (0 : ℤ) ≤ lastTile := by decide
      omega
    have hsub : single (corner (onMap (-n + 1)) - -pos) = -single (corner (onMap (n + -1)) - pos) := by
      rw [← single_neg, ← hmirror, corner_neg]
      congr 1
      ring
    have hneg := hup (m := -n) (q := -pos) (by rwa [abs_neg]) hpos.neg
      (by rwa [← hmirror, corner_neg, corner_neg, neg_mem_uIcc])
      (by rwa [hsub, abs_neg]) (by rwa [hsub, neg_ne_zero])
    rwa [← hmirror, corner_neg, moved_neg _ _ _ hne, neg_mem_uIcc] at hneg
  · exact hup hn hpos hmem hleft hne

theorem abs_sub_corner_le {d : ℤ} (hn : |n| ≤ lastTile) (hd : d = -1 ∨ d = 0 ∨ d = 1)
    (hmem : pos ∈ Set.uIcc (corner n) (corner (onMap (n + d)))) : |corner (onMap (n + d)) - pos| ≤ 32 := by
  have hnext : |corner (onMap (n + d)) - corner n| ≤ 32 := by
    have hone : |onMap (n + d) - n| ≤ 1 := by
      rw [abs_le] at hn ⊢
      unfold onMap
      have hlast : (0 : ℤ) ≤ lastTile := by decide
      omega
    have hone' : |((onMap (n + d) - n : ℤ) : ℚ)| ≤ 1 := by exact_mod_cast hone
    have hsub : corner (onMap (n + d)) - corner n = 32 * ((onMap (n + d) - n : ℤ) : ℚ) := by
      unfold corner
      push_cast
      ring
    rw [hsub, abs_mul, abs_of_pos (by norm_num : (0 : ℚ) < 32)]
    linarith
  exact (Set.abs_sub_right_of_mem_uIcc hmem).trans hnext

/-- a step that stays on the way leaves less of it, but for what rounding takes back -/
theorem moved_left {target : ℚ} (hmem : moved pos target step ∈ Set.uIcc pos target)
    (hstep : 0 ≤ step) (hstep32 : step ≤ 32) (hpos : |pos| < 2 ^ 23 + 64) :
    |target - moved pos target step| ≤ |target - pos| - step + 1 / 2 := by
  have herr : ∀ {q : ℚ}, |q| = step → |single (pos + q) - (pos + q)| ≤ 1 / 2 := by
    intro q hq
    have hplace : placeOf 24 (-149) (pos + q) ≤ 0 := by
      refine max_le ?_ (by decide)
      rcases eq_or_ne (pos + q) 0 with h0 | h0
      · simp [h0]
      · have hsum : |pos + q| < ((2 : ℕ) : ℚ) ^ (24 : ℤ) := by
          refine (abs_add_le pos q).trans_lt ?_
          rw [hq]
          norm_num at hpos ⊢
          linarith
        have hlog := (Int.lt_zpow_iff_log_lt one_lt_two (abs_pos.2 h0)).1 hsum
        omega
    calc |single (pos + q) - (pos + q)| ≤ 2 ^ placeOf 24 (-149) (pos + q) / 2 := abs_rounded_sub_le _ _ _
      _ ≤ 2 ^ (0 : ℤ) / 2 := div_le_div_of_nonneg_right (zpow_le_zpow_right₀ one_le_two hplace) two_pos.le
      _ = 1 / 2 := by norm_num
  have hgone : step - 1 / 2 ≤ |moved pos target step - pos| := by
    unfold moved
    split_ifs
    · have hclose := herr (abs_of_nonneg hstep)
      have hle := le_abs_self (single (pos + step) - pos)
      linarith [(abs_le.1 hclose).1]
    · have hclose := herr (q := -step) (by rw [abs_neg, abs_of_nonneg hstep])
      have hle := neg_le_abs (single (pos + -step) - pos)
      linarith [(abs_le.1 hclose).2]
  -- what is gone and what is left add up to the way
  have hsum : |target - moved pos target step| + |moved pos target step - pos| = |target - pos| := by
    rcases Set.mem_uIcc.1 hmem with ⟨h1, h2⟩ | ⟨h1, h2⟩
    · rw [abs_of_nonneg (by linarith), abs_of_nonneg (by linarith), abs_of_nonneg (by linarith)]
      ring
    · rw [abs_of_nonpos (by linarith), abs_of_nonpos (by linarith), abs_of_nonpos (by linarith)]
      ring
  linarith

theorem abs_single_le {q : ℚ} (h : |q| ≤ 32) : |single q| ≤ 32 := by
  have hfits : Fits 24 (-149) 32 := ⟨1, 5, by norm_num, by decide, by decide⟩
  rw [abs_le] at h ⊢
  exact ⟨le_rounded (by decide) h.1 hfits.neg, rounded_le (by decide) h.2 hfits⟩

theorem abs_pos_lt {target : ℚ} (htarget : |target| < 2 ^ 23) (hway : |target - pos| ≤ 32) : |pos| < 2 ^ 23 + 64 := by
  rw [abs_lt] at htarget ⊢
  rw [abs_le] at hway
  constructor <;> linarith

end Axis

/-! ## One update -/

section Step

variable {w : WorldLayer} {k : Walk} {updTime : ℚ}

/-- the layer with the axes exchanged -/
def swap (w : WorldLayer) : WorldLayer :=
  { w with
    prevPos := ⟨w.prevPos.yVal, w.prevPos.xVal⟩
    playerPos := ⟨w.playerPos.yVal, w.playerPos.xVal⟩
    targetPos := ⟨w.targetPos.yVal, w.targetPos.xVal⟩ }

theorem approach_swap (updTime : ℚ) (w : WorldLayer) : approach updTime (swap w) = swap (approach updTime w) := by
  unfold approach
  dsimp only [swap, arrive]
  rw [add_comm (single (single (w.targetPos.yVal - w.playerPos.yVal) * single (w.targetPos.yVal - w.playerPos.yVal)))]
  split_ifs <;> rfl

/-- what an update does to a player that moves along the first axis -/
theorem approach_cases (updTime : ℚ) (hfits : Fits 24 (-149) w.playerPos.yVal)
    (hy : w.targetPos.yVal = w.playerPos.yVal) :
    approach updTime w = arrive w ∨
      single (w.moveSpeed * updTime) ≤ |single (w.targetPos.xVal - w.playerPos.xVal)| ∧
      single (w.targetPos.xVal - w.playerPos.xVal) ≠ 0 ∧
      approach updTime w =
        { w with
          prevPos := w.playerPos
          playerPos :=
            ⟨moved w.playerPos.xVal w.targetPos.xVal (single (w.moveSpeed * updTime)), w.playerPos.yVal⟩ } := by
  have hdiff := fits_single (w.targetPos.xVal - w.playerPos.xVal)
  have hstep := fits_single (w.moveSpeed * updTime)
  have hunfold : approach updTime w = approach updTime w := rfl
  conv at hunfold => rhs; unfold approach
  dsimp only at hunfold
  rw [hy, sub_self, single_zero, mul_zero, single_zero, add_zero, single_of_fits (fits_single _)] at hunfold
  unfold moved
  generalize single (w.targetPos.xVal - w.playerPos.xVal) = diff at hunfold hdiff ⊢
  generalize single (w.moveSpeed * updTime) = step at hunfold hstep ⊢
  by_cases hlong : thousandth < single (diff * diff)
  · rw [if_pos hlong, sqrtf_square hdiff hlong] at hunfold
    by_cases hnear : |diff| < step ∨ |diff| = 0
    · left
      rw [hunfold, if_pos hnear]
    · right
      obtain ⟨hle, hne⟩ := not_or.1 hnear
      have hne' : diff ≠ 0 := fun h => hne (by rw [h, abs_zero])
      refine ⟨not_lt.1 hle, hne', ?_⟩
      have hone : Fits 24 (-149) 1 := ⟨1, 0, by norm_num, by decide, by decide⟩
      have hunit : single (diff / |diff|) * step = if 0 < diff then step else -step := by
        rcases lt_or_gt_of_ne hne' with hneg | hpos
        · rw [if_neg hneg.not_gt, abs_of_neg hneg, div_neg, div_self hne', single_neg, single_of_fits hone, neg_one_mul]
        · rw [if_pos hpos, abs_of_pos hpos, div_self hne', single_of_fits hone, one_mul]
      have hrounded : single (if 0 < diff then step else -step) = if 0 < diff then step else -step := by
        split_ifs
        · exact single_of_fits hstep
        · rw [single_neg, single_of_fits hstep]
      rw [hunfold, if_neg hnear, hunit, hrounded, zero_div, single_zero, zero_mul, single_zero, add_zero,
        single_of_fits hfits]
  · left
    rw [hunfold, if_neg hlong]

theorem Facing.moves (d : Facing) : d.dy = 0 ∧ (d.dx = -1 ∨ d.dx = 1) ∨ d.dx = 0 ∧ (d.dy = -1 ∨ d.dy = 1) := by
  cases d <;> decide

/-- the player on its target -/
theorem arrive_shows (h : Shows w k) (hwalk : k.walking = true) : Shows (arrive w) k.reached where
  isMoving := rfl
  dir := h.dir
  x_le := abs_onMap_le _
  y_le := abs_onMap_le _
  fitsX := by
    rw [arrive, h.target hwalk]
    exact fits_corner (abs_onMap_le _)
  fitsY := by
    rw [arrive, h.target hwalk]
    exact fits_corner (abs_onMap_le _)
  rest := fun _ => ⟨h.target hwalk, rfl⟩
  target := fun hfalse => absurd hfalse Bool.false_ne_true
  betweenX := fun hfalse => absurd hfalse Bool.false_ne_true
  betweenY := fun hfalse => absurd hfalse Bool.false_ne_true

/-- the player at another place between the tiles -/
theorem place_shows (h : Shows w k) (hwalk : k.walking = true) (prev place : NkVec2F)
    (hx : Fits 24 (-149) place.xVal) (hy : Fits 24 (-149) place.yVal)
    (hbx : place.xVal ∈ Set.uIcc (corner k.x) (corner k.nextX))
    (hby : place.yVal ∈ Set.uIcc (corner k.y) (corner k.nextY)) :
    Shows { w with prevPos := prev, playerPos := place } k where
  isMoving := h.isMoving
  dir := h.dir
  x_le := h.x_le
  y_le := h.y_le
  fitsX := hx
  fitsY := hy
  rest := fun hfalse => absurd (hwalk.symm.trans hfalse) (by decide)
  target := h.target
  betweenX := fun _ => hbx
  betweenY := fun _ => hby

/-- a player that moves along one axis is where its target is on the other -/
theorem same_y (h : Shows w k) (hwalk : k.walking = true) (hzero : k.facing.dy = 0) :
    w.targetPos.yVal = w.playerPos.yVal := by
  have hnext : k.nextY = k.y := by rw [Walk.nextY, hzero, add_zero, onMap_of_le h.y_le]
  have hmem := h.betweenY hwalk
  rw [hnext, Set.uIcc_self, Set.mem_singleton_iff] at hmem
  rw [h.target hwalk, hnext, hmem]

theorem same_x (h : Shows w k) (hwalk : k.walking = true) (hzero : k.facing.dx = 0) :
    w.targetPos.xVal = w.playerPos.xVal := by
  have hnext : k.nextX = k.x := by rw [Walk.nextX, hzero, add_zero, onMap_of_le h.x_le]
  have hmem := h.betweenX hwalk
  rw [hnext, Set.uIcc_self, Set.mem_singleton_iff] at hmem
  rw [h.target hwalk, hnext, hmem]

theorem way_le (h : Shows w k) (hwalk : k.walking = true) :
    |w.targetPos.xVal - w.playerPos.xVal| ≤ 32 ∧ |w.targetPos.yVal - w.playerPos.yVal| ≤ 32 := by
  have hdx : k.facing.dx = -1 ∨ k.facing.dx = 0 ∨ k.facing.dx = 1 := by cases k.facing <;> decide
  have hdy : k.facing.dy = -1 ∨ k.facing.dy = 0 ∨ k.facing.dy = 1 := by cases k.facing <;> decide
  rw [h.target hwalk]
  exact ⟨abs_sub_corner_le h.x_le hdx (h.betweenX hwalk), abs_sub_corner_le h.y_le hdy (h.betweenY hwalk)⟩

/-- what is left of the way; one of the parts is 0 -/
def left (w : WorldLayer) : ℚ :=
  |w.targetPos.xVal - w.playerPos.xVal| + |w.targetPos.yVal - w.playerPos.yVal|

/-- an update takes the player to its target, or nearer to it -/
theorem approach_left (h : Shows w k) (hwalk : k.walking = true) (hspeed : 0 ≤ w.moveSpeed * updTime) :
    approach updTime w = arrive w ∨
      Shows (approach updTime w) k ∧ (approach updTime w).targetPos = w.targetPos ∧
        (|w.targetPos.xVal| < 2 ^ 23 → |w.targetPos.yVal| < 2 ^ 23 →
          left (approach updTime w) ≤ left w - single (w.moveSpeed * updTime) + 1 / 2) := by
  have hstep : 0 ≤ single (w.moveSpeed * updTime) := rounded_nonneg _ _ hspeed
  have htarget := h.target hwalk
  obtain ⟨hwayX, hwayY⟩ := way_le h hwalk
  rcases k.facing.moves with ⟨hzero, hd⟩ | ⟨hzero, hd⟩
  · rcases approach_cases updTime h.fitsY (same_y h hwalk hzero) with harrive | ⟨hle, hne, hmove⟩
    · exact Or.inl harrive
    · right
      have hxt : w.targetPos.xVal = corner k.nextX := by rw [htarget]
      rw [hxt] at hle hne hmove hwayX
      have hbetween := moved_between h.x_le hd h.fitsX (h.betweenX hwalk) hstep hle hne
      rw [hmove]
      refine ⟨place_shows h hwalk _ _ (fits_single _) h.fitsY
        (Set.uIcc_subset_uIcc_right (h.betweenX hwalk) hbetween) (h.betweenY hwalk), rfl, fun hx hy => ?_⟩
      rw [hxt] at hx
      have hless := moved_left hbetween hstep (hle.trans (abs_single_le hwayX)) (abs_pos_lt hx hwayX)
      unfold left
      dsimp only
      rw [hxt]
      unfold Walk.nextX
      linarith
  · have hswap : approach updTime w = swap (approach updTime (swap w)) := by rw [approach_swap]; rfl
    rcases approach_cases (w := swap w) updTime h.fitsX (same_x h hwalk hzero) with harrive | ⟨hle, hne, hmove⟩
    · left
      rw [hswap, harrive]
      rfl
    · right
      have hyt : w.targetPos.yVal = corner k.nextY := by rw [htarget]
      dsimp only [swap] at hle hne hmove
      rw [hyt] at hle hne hwayY
      have hbetween := moved_between h.y_le hd h.fitsY (h.betweenY hwalk) hstep hle hne
      have hshape : approach updTime w =
          { w with
            prevPos := w.playerPos
            playerPos :=
              ⟨w.playerPos.xVal, moved w.playerPos.yVal (corner k.nextY) (single (w.moveSpeed * updTime))⟩ } := by
        rw [hswap, ← hyt]
        exact congrArg swap hmove
      rw [hshape]
      refine ⟨place_shows h hwalk _ _ h.fitsX (fits_single _) (h.betweenX hwalk)
        (Set.uIcc_subset_uIcc_right (h.betweenY hwalk) hbetween), rfl, fun hx hy => ?_⟩
      rw [hyt] at hy
      have hless := moved_left hbetween hstep (hle.trans (abs_single_le hwayY)) (abs_pos_lt hy hwayY)
      unfold left
      dsimp only
      rw [hyt]
      unfold Walk.nextY
      linarith

theorem approach_shows (h : Shows w k) (hwalk : k.walking = true) (hspeed : 0 ≤ w.moveSpeed * updTime) :
    Shows (approach updTime w) k ∨ Shows (approach updTime w) k.reached := by
  rcases approach_left h hwalk hspeed with harrive | ⟨hshow, -, -⟩
  · right
    rw [harrive]
    exact arrive_shows h hwalk
  · exact Or.inl hshow

theorem pressed_eq (keys : Keys) :
    (axis keys.alnumA keys.alnumD ≠ 0 ∨ (if axis keys.alnumA keys.alnumD ≠ 0 then 0 else axis keys.alnumW keys.alnumS) ≠ 0 ↔
      (pressed keys).isSome) ∧
    ∀ d, pressed keys = some d → axis keys.alnumA keys.alnumD = d.dx ∧
      (if axis keys.alnumA keys.alnumD ≠ 0 then 0 else axis keys.alnumW keys.alnumS) = d.dy := by
  obtain ⟨lShift, alnumA, alnumD, alnumW, alnumS⟩ := keys
  cases alnumA <;> cases alnumD <;> cases alnumW <;> cases alnumS <;> simp [axis, pressed, Facing.dx, Facing.dy]

/-- the player at rest sets off in the direction that is pressed -/
theorem takeTarget_shows (h : Shows w k) (hrest : k.walking = false) (keys : Keys) :
    (pressed keys = none → Shows (takeTarget keys w) k) ∧
      ∀ d, pressed keys = some d → Shows (takeTarget keys w) { k with facing := d, walking := true } := by
  obtain ⟨hany, hdir⟩ := pressed_eq keys
  obtain ⟨hpos, htarget⟩ := h.rest hrest
  constructor
  · intro hnone
    rw [hnone] at hany
    rw [takeTarget]
    dsimp only
    rw [if_neg fun hsome => Bool.false_ne_true (hany.1 hsome)]
    exact ⟨h.isMoving, h.dir, h.x_le, h.y_le, h.fitsX, h.fitsY, h.rest, h.target, h.betweenX, h.betweenY⟩
  · intro d hd
    rw [hd] at hany
    obtain ⟨hx, hy⟩ := hdir d hd
    rw [takeTarget]
    dsimp only
    rw [if_pos (hany.2 rfl), hy, hx]
    have hdx : d.dx = -1 ∨ d.dx = 0 ∨ d.dx = 1 := by cases d <;> decide
    have hdy : d.dy = -1 ∨ d.dy = 0 ∨ d.dy = 1 := by cases d <;> decide
    refine ⟨rfl, ?_, h.x_le, h.y_le, h.fitsX, h.fitsY, fun hfalse => Bool.noConfusion hfalse, fun _ => ?_, fun _ => ?_,
      fun _ => ?_⟩
    · cases d <;> norm_num [Facing.dx, Facing.dy, Facing.dir]
    · rw [hpos, single_next h.x_le hdx, single_next h.y_le hdy]
      rfl
    · rw [hpos]
      exact Set.left_mem_uIcc
    · rw [hpos]
      exact Set.left_mem_uIcc

theorem setSpeed_shows (h : Shows w k) (keys : Keys) : Shows (setSpeed keys w) k :=
  ⟨h.isMoving, h.dir, h.x_le, h.y_le, h.fitsX, h.fitsY, h.rest, h.target, h.betweenX, h.betweenY⟩

theorem setSpeed_le (w : WorldLayer) (keys : Keys) : 4 * 32 ≤ (setSpeed keys w).moveSpeed := by
  unfold setSpeed
  dsimp only
  split_ifs <;> norm_num

theorem setSpeed_nonneg (w : WorldLayer) (keys : Keys) (hu : 0 ≤ updTime) : 0 ≤ (setSpeed keys w).moveSpeed * updTime :=
  mul_nonneg (le_trans (by norm_num) (setSpeed_le w keys)) hu

theorem onUpdate_walking (h : Shows w k) (hwalk : k.walking = true) (u : Update) :
    onUpdate w u = approach u.updTime (setSpeed u.keys w) := by
  have hmoving := (setSpeed_shows h u.keys).isMoving
  simp [onUpdate, hmoving, hwalk]

/-- one update is one step of the walker -/
theorem onUpdate_shows (h : Shows w k) {u : Update} (hu : 0 ≤ u.updTime) :
    ∃ k', WalkStep (pressed u.keys) k k' ∧ Shows (onUpdate w u) k' := by
  have hshow := setSpeed_shows h u.keys
  have hspeed := setSpeed_nonneg w u.keys hu
  have hmoving := hshow.isMoving
  cases hwalk : k.walking with
  | true =>
    rw [onUpdate_walking h hwalk u]
    rcases approach_shows hshow hwalk hspeed with hstride | harrive
    · exact ⟨k, .stride hwalk, hstride⟩
    · exact ⟨k.reached, .arrive hwalk, harrive⟩
  | false =>
    have hrun : onUpdate w u =
        if (takeTarget u.keys (setSpeed u.keys w)).isMoving = true then
          approach u.updTime (takeTarget u.keys (setSpeed u.keys w))
        else takeTarget u.keys (setSpeed u.keys w) := by simp [onUpdate, hmoving, hwalk]
    obtain ⟨hnone, hsome⟩ := takeTarget_shows hshow hwalk u.keys
    cases hd : pressed u.keys with
    | none =>
      have hstand := hnone hd
      rw [hrun, if_neg (by simp [hstand.isMoving, hwalk])]
      exact ⟨k, .stand hwalk, hstand⟩
    | some d =>
      have hset := hsome d hd
      have hspeed' : 0 ≤ (takeTarget u.keys (setSpeed u.keys w)).moveSpeed * u.updTime := by
        have : (takeTarget u.keys (setSpeed u.keys w)).moveSpeed = (setSpeed u.keys w).moveSpeed := by
          unfold takeTarget
          dsimp only
          split_ifs <;> rfl
        rwa [this]
      rw [hrun, if_pos hset.isMoving]
      rcases approach_shows hset rfl hspeed' with hstride | harrive
      · exact ⟨_, .setOff d hwalk, hstride⟩
      · exact ⟨_, .hop d hwalk, harrive⟩

end Step

/-! ## Every run -/

/-- the walker at the start of the game -/
def start : Walk := ⟨11, 9, .down, false⟩

theorem onPush_shows : Shows onPush start where
  isMoving := rfl
  dir := rfl
  x_le := by decide
  y_le := by decide
  fitsX := ⟨11, 5, by norm_num [onPush], by decide, by decide⟩
  fitsY := ⟨9, 5, by norm_num [onPush], by decide, by decide⟩
  rest := fun _ => ⟨by norm_num [onPush, corner, start], rfl⟩
  target := fun h => absurd h Bool.false_ne_true
  betweenX := fun h => absurd h Bool.false_ne_true
  betweenY := fun h => absurd h Bool.false_ne_true

/-- **The player walks on the grid**, whatever keys are pressed and however long the updates are. -/
theorem movement_refines (us : List Update) (hus : ∀ u ∈ us, 0 ≤ u.updTime) :
    ∃ ws w k, outputs worldStep onPush us = some (ws, w) ∧ SpecRun WalkSpec start us ws k ∧ Shows w k := by
  refine simulates_run ?_ onPush_shows (AllOk.of_mem (fun u hu _ => hus u hu) onPush)
  intro w k u h hu
  obtain ⟨k', hstep, hshow⟩ := onUpdate_shows h hu
  exact ⟨onUpdate w u, onUpdate w u, k', rfl, ⟨hstep, hshow⟩, hshow⟩

/-- two updates to the right and one with no key, of the length that the main loop passes -/
theorem movement_refines_right :
    let u : Update := ⟨⟨false, false, true, false, false⟩, single (8333 / 1000000)⟩
    let us := [u, u, { u with keys := ⟨false, false, false, false, false⟩ }]
    ∃ ws w k, outputs worldStep onPush us = some (ws, w) ∧ SpecRun WalkSpec start us ws k ∧ Shows w k := by
  intro u us
  refine movement_refines us fun v hv => ?_
  have hu : 0 ≤ single (8333 / 1000000) := rounded_nonneg _ _ (by norm_num)
  simp only [us, List.mem_cons, List.not_mem_nil, or_false] at hv
  rcases hv with rfl | rfl | rfl <;> exact hu

/-! ## Every walk ends -/

theorem run_shows {w : WorldLayer} {k : Walk} (h : Shows w k) (us : List Update) (hus : ∀ u ∈ us, 0 ≤ u.updTime) :
    ∃ k', Shows (us.foldl onUpdate w) k' := by
  induction us generalizing w k with
  | nil => exact ⟨k, h⟩
  | cons u us ih =>
    obtain ⟨k', -, hshow⟩ := onUpdate_shows h (hus u List.mem_cons_self)
    exact ih hshow fun v hv => hus v (List.mem_cons_of_mem u hv)

/-- a way of `n` steps, less what rounding can take back of them, is gone after `n + 1` updates -/
theorem arrives_from {step : ℚ} (hstep : 1 / 2 < step) (n : ℕ) {us : List Update} {w : WorldLayer} {k : Walk}
    (h : Shows w k) (hwalk : k.walking = true) (hx : |w.targetPos.xVal| < 2 ^ 23) (hy : |w.targetPos.yVal| < 2 ^ 23)
    (hleft : left w ≤ n * (step - 1 / 2)) (hlen : n < us.length)
    (hus : ∀ u ∈ us, 0 ≤ u.updTime ∧ step ≤ single (4 * 32 * u.updTime)) :
    ∃ j ≤ n, ((us.take (j + 1)).foldl onUpdate w).isMoving = false ∧
      ((us.take (j + 1)).foldl onUpdate w).playerPos = w.targetPos := by
  induction n generalizing us w with
  | zero =>
    obtain ⟨u, us, rfl⟩ := List.exists_cons_of_length_pos hlen
    obtain ⟨hu, hlong⟩ := hus u List.mem_cons_self
    refine ⟨0, le_rfl, ?_⟩
    rw [zero_add, List.take_succ_cons, List.take_zero, List.foldl_cons, List.foldl_nil, onUpdate_walking h hwalk u]
    rcases approach_left (setSpeed_shows h u.keys) hwalk (setSpeed_nonneg w u.keys hu) with harrive | ⟨-, -, hless⟩
    · rw [harrive]
      exact ⟨rfl, rfl⟩
    · -- no way is left that could become less
      have hpos : 0 ≤ left (approach u.updTime (setSpeed u.keys w)) := add_nonneg (abs_nonneg _) (abs_nonneg _)
      have hfar : step ≤ single ((setSpeed u.keys w).moveSpeed * u.updTime) :=
        hlong.trans (single_mono (mul_le_mul_of_nonneg_right (setSpeed_le w u.keys) hu))
      have hsame : left (setSpeed u.keys w) = left w := rfl
      rw [Nat.cast_zero, zero_mul] at hleft
      linarith [hless hx hy]
  | succ n ih =>
    obtain ⟨u, us, rfl⟩ := List.exists_cons_of_length_pos (Nat.zero_lt_of_lt hlen)
    obtain ⟨hu, hlong⟩ := hus u List.mem_cons_self
    rcases approach_left (setSpeed_shows h u.keys) hwalk (setSpeed_nonneg w u.keys hu) with
      harrive | ⟨hshow, htarget, hless⟩
    · refine ⟨0, Nat.zero_le _, ?_⟩
      rw [zero_add, List.take_succ_cons, List.take_zero, List.foldl_cons, List.foldl_nil, onUpdate_walking h hwalk u,
        harrive]
      exact ⟨rfl, rfl⟩
    · have hfar : step ≤ single ((setSpeed u.keys w).moveSpeed * u.updTime) :=
        hlong.trans (single_mono (mul_le_mul_of_nonneg_right (setSpeed_le w u.keys) hu))
      have hsame : left (setSpeed u.keys w) = left w := rfl
      have hsameTarget : (setSpeed u.keys w).targetPos = w.targetPos := rfl
      rw [hsameTarget] at htarget
      have hnext : left (approach u.updTime (setSpeed u.keys w)) ≤ n * (step - 1 / 2) := by
        push_cast at hleft
        linarith [hless hx hy]
      obtain ⟨j, hj, hrest, hplace⟩ := ih hshow (htarget ▸ hx) (htarget ▸ hy) hnext (Nat.lt_of_succ_lt_succ hlen)
        fun v hv => hus v (List.mem_cons_of_mem u hv)
      refine ⟨j + 1, Nat.succ_le_succ hj, ?_⟩
      rw [List.take_succ_cons, List.foldl_cons, onUpdate_walking h hwalk u]
      exact ⟨hrest, hplace.trans htarget⟩

theorem left_le {w : WorldLayer} {k : Walk} (h : Shows w k) (hwalk : k.walking = true) : left w ≤ 32 := by
  obtain ⟨hwayX, hwayY⟩ := way_le h hwalk
  unfold left
  rcases k.facing.moves with ⟨hzero, -⟩ | ⟨hzero, -⟩
  · rw [same_y h hwalk hzero, sub_self, abs_zero, add_zero]
    exact hwayX
  · rw [same_x h hwalk hzero, sub_self, abs_zero, zero_add]
    exact hwayY

/-- **Every walk ends.** A player that moves after any run of updates is at its target after at most `n + 1` more of them,
if they take it more than half a pixel far and `n` of them as far as the next tile, with half a pixel taken off each. -/
theorem movement_arrives (before us : List Update) (step : ℚ) (n : ℕ) (htime : ∀ u ∈ before ++ us, 0 ≤ u.updTime)
    (hstep : 1 / 2 < step) (hfar : ∀ u ∈ us, step ≤ single (4 * 32 * u.updTime)) (hn : 32 ≤ n * (step - 1 / 2))
    (hlen : n < us.length) (hmoving : (before.foldl onUpdate onPush).isMoving = true)
    (hx : |(before.foldl onUpdate onPush).targetPos.xVal| < 2 ^ 23)
    (hy : |(before.foldl onUpdate onPush).targetPos.yVal| < 2 ^ 23) :
    ∃ j ≤ n, (((before ++ us.take (j + 1)).foldl onUpdate onPush).isMoving = false ∧
      ((before ++ us.take (j + 1)).foldl onUpdate onPush).playerPos = (before.foldl onUpdate onPush).targetPos) := by
  obtain ⟨k, hshow⟩ := run_shows onPush_shows before fun u hu => htime u (List.mem_append_left us hu)
  have hwalk : k.walking = true := hshow.isMoving.symm.trans hmoving
  obtain ⟨j, hj, hrest, hplace⟩ := arrives_from hstep n hshow hwalk hx hy ((left_le hshow hwalk).trans hn) hlen
    fun u hu => ⟨htime u (List.mem_append_right before hu), hfar u hu⟩
  refine ⟨j, hj, ?_⟩
  rw [List.foldl_append]
  exact ⟨hrest, hplace⟩

/-- a key that is pressed at the start, and updates of a 64th of a second: 23 of them are enough -/
theorem movement_arrives_right :
    let u : Update := ⟨⟨false, false, true, false, false⟩, 1 / 64⟩
    let us := List.replicate 23 u
    ∃ j ≤ 22, ((([u] ++ us.take (j + 1)).foldl onUpdate onPush).isMoving = false ∧
      (([u] ++ us.take (j + 1)).foldl onUpdate onPush).playerPos = ([u].foldl onUpdate onPush).targetPos) := by
  intro u us
  have hall : ∀ v ∈ [u] ++ us, v = u := by
    intro v hv
    rcases List.mem_append.1 hv with hv | hv
    · exact List.mem_singleton.1 hv
    · exact List.eq_of_mem_replicate hv
  have hfits : Fits 24 (-149) (4 * 32 * u.updTime) := ⟨2, 0, by norm_num [u], by decide, by decide⟩
  refine movement_arrives [u] us 2 22 (fun v hv => ?_) (by norm_num) (fun v hv => ?_) (by norm_num) (by decide)
    (by decide +kernel) (by decide +kernel) (by decide +kernel)
  · rw [hall v hv]
    norm_num [u]
  · rw [hall v (List.mem_append_right [u] hv), single_of_fits hfits]
    norm_num [u]

end Noriko.Movement
