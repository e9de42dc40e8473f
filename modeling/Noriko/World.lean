/-
The tiles that the world layer draws (`__NkInt_WorldLayer_OnRender` of `world.c`).

The map has 32 × 32 tiles of 32 pixels, in four chunks of 16 × 16. Two coordinates run in step along each axis, one on the
screen and one in the world, from origins that C's truncated division gives. A position in front of the map makes the origin
on the screen one tile too far, but the tile that is left out has a negative coordinate in the world and is none of the map.
So what is visible of the map is drawn, once and where it belongs (`world_drawn`).

The player is at an integer position, and `int` is taken as unbounded. The player is drawn behind the tiles, which is not
modelled.
-/
import Mathlib.Tactic
import Noriko.Placement

namespace Noriko.World

/-! ## The code -/

/-- `gl_TestMap1` to `gl_TestMap4` -/
inductive Chunk where
  | testMap1 | testMap2 | testMap3 | testMap4
deriving DecidableEq, Repr

/-- a call of `DrawTexture`: the corner of the tile on the screen, its place in the chunk, and its corner in the atlas, as the
numbers they are before they become `NkFloat` -/
structure DrawCall where
  xCoord : ℤ
  yCoord : ℤ
  chunk : Chunk
  index : ℤ
  srcX : UInt32
  srcY : UInt32
deriving DecidableEq, Repr

/-- `NK_MIN(16 * 32, dim) - 8 * 32`, a number of 64 bits without sign that becomes an `int` -/
def renderDim (dim : UInt64) : ℤ := ((if 512 > dim then dim else 512) - 256).toUInt32.toInt32.toInt

/-- `orix` and `oriy` -/
def screenOrigin (pos : ℤ) : ℤ := (-pos).tmod 32 - 8 * 32

/-- the first value of `tsx` and `tsy` -/
def worldOrigin (pos : ℤ) : ℤ := pos.tdiv 32 * 32 - 8 * 32

/-- the values of `x` and `tsx`, or `y` and `tsy`, of a loop -/
def axisLoop (dim x ts : ℤ) : List (ℤ × ℤ) := if x < dim then (x, ts) :: axisLoop dim (x + 32) (ts + 32) else []
termination_by (dim - x).toNat

def chunkAt (ix iy : ℤ) : Chunk :=
  if ix = 0 then (if iy = 0 then .testMap1 else .testMap3) else (if iy = 0 then .testMap2 else .testMap4)

variable (testMap : Chunk → ℤ → UInt32)

/-- the body of the loops -/
def drawTile (p : (ℤ × ℤ) × (ℤ × ℤ)) : Option DrawCall :=
  let ((x, tsx), (y, tsy)) := p
  -- a tile that is out of range is skipped
  if tsx < 0 ∨ tsx > 31 * 32 ∨ tsy < 0 ∨ tsy > 31 * 32 then none
  else
    let c := chunkAt ((tsx.tdiv 32).tdiv 16) ((tsy.tdiv 32).tdiv 16)
    let i := 16 * (tsy.tdiv 32).tmod 16 + (tsx.tdiv 32).tmod 16
    some ⟨x + 8 * 32, y + 8 * 32, c, i, (32 : UInt32) * (testMap c i &&& 0xFFFF),
      (32 : UInt32) * (testMap c i >>> 16)⟩

/-- the calls of `__NkInt_WorldLayer_OnRender` for the tiles, for a player at `(xVal, yVal)` -/
def onRender (xVal yVal : ℤ) (vpDim : NkSize2D) : List DrawCall :=
  (axisLoop (renderDim vpDim.width) (screenOrigin xVal) (worldOrigin xVal) ×ˢ
    axisLoop (renderDim vpDim.height) (screenOrigin yVal) (worldOrigin yVal)).filterMap (drawTile testMap)

/-! ## What is right -/

/-- the chunk that has tile `(tx, ty)` of the map, and its place there -/
def chunkOf (tx ty : ℕ) : Chunk :=
  if ty < 16 then (if tx < 16 then .testMap1 else .testMap2) else (if tx < 16 then .testMap3 else .testMap4)

def indexOf (tx ty : ℕ) : ℤ := 16 * (ty % 16 : ℕ) + (tx % 16 : ℕ)

/-- the coordinate of a tile on the screen -/
def screenPos (pos : ℤ) (t : ℕ) : ℤ := 32 * t - pos + 256

/-- the call that draws tile `(tx, ty)` -/
def tileCall (xVal yVal : ℤ) (tx ty : ℕ) : DrawCall where
  xCoord := screenPos xVal tx
  yCoord := screenPos yVal ty
  chunk := chunkOf tx ty
  index := indexOf tx ty
  srcX := (32 : UInt32) * (testMap (chunkOf tx ty) (indexOf tx ty) &&& 0xFFFF)
  srcY := (32 : UInt32) * (testMap (chunkOf tx ty) (indexOf tx ty) >>> 16)

/-- a tile has a pixel in the region that is drawn, on one axis -/
def AxisVisible (pos : ℤ) (dim : UInt64) (t : ℕ) : Prop :=
  ∃ s : ℤ, screenPos pos t ≤ s ∧ s < screenPos pos t + 32 ∧ 0 ≤ s ∧ s < min 512 dim.toNat

def Visible (xVal yVal : ℤ) (vpDim : NkSize2D) (tx ty : ℕ) : Prop :=
  AxisVisible xVal vpDim.width tx ∧ AxisVisible yVal vpDim.height ty

/-- the calls draw the tiles of the map that are visible; a region without a pixel may have calls for tiles at its border -/
structure DrawsMap (xVal yVal : ℤ) (vpDim : NkSize2D) (calls : List DrawCall) : Prop where
  only : ∀ c ∈ calls, ∃ tx ty, tx < 32 ∧ ty < 32 ∧ c = tileCall testMap xVal yVal tx ty
  index : ∀ c ∈ calls, 0 ≤ c.index ∧ c.index < 256
  once : ∀ tx ty, tx < 32 → ty < 32 → Visible xVal yVal vpDim tx ty → calls.count (tileCall testMap xVal yVal tx ty) = 1
  visible : 0 < vpDim.width → 0 < vpDim.height → ∀ tx ty, tx < 32 → ty < 32 →
    tileCall testMap xVal yVal tx ty ∈ calls → Visible xVal yVal vpDim tx ty
  nodup : calls.Nodup

/-! ## One axis -/

section Axis

variable {dim x ts pos : ℤ}

theorem mem_axisLoop {p : ℤ × ℤ} :
    p ∈ axisLoop dim x ts ↔ ∃ k : ℕ, p = (x + 32 * k, ts + 32 * k) ∧ x + 32 * k < dim := by
  fun_induction axisLoop dim x ts with
  | case1 x ts h ih =>
    rw [List.mem_cons, ih]
    constructor
    · rintro (rfl | ⟨k, rfl, hk⟩)
      · exact ⟨0, by simp, by simpa using h⟩
      · refine ⟨k + 1, Prod.ext ?_ ?_, ?_⟩ <;> push_cast <;> omega
    · rintro ⟨k, rfl, hk⟩
      cases k with
      | zero => exact Or.inl (by simp)
      | succ k =>
        refine Or.inr ⟨k, Prod.ext ?_ ?_, ?_⟩ <;> push_cast at hk ⊢ <;> omega
  | case2 x ts h =>
    constructor
    · intro hmem
      cases hmem
    · rintro ⟨k, -, hk⟩
      omega

theorem nodup_axisLoop (dim x ts : ℤ) : (axisLoop dim x ts).Nodup := by
  fun_induction axisLoop dim x ts with
  | case1 x ts h ih =>
    refine List.nodup_cons.2 ⟨fun hmem => ?_, ih⟩
    obtain ⟨k, hk, -⟩ := mem_axisLoop.1 hmem
    have hx : x = x + 32 + 32 * k := congrArg Prod.fst hk
    omega
  | case2 => exact List.nodup_nil

theorem renderDim_eq (dim : UInt64) : renderDim dim = min 512 (dim.toNat : ℤ) - 256 := by
  have h512 : (512 : UInt64).toNat = 512 := rfl
  have hmin : (if 512 > dim then dim else 512).toNat = min 512 dim.toNat := by
    by_cases hlt : 512 > dim
    · have hle := UInt64.lt_iff_toNat_lt.1 hlt
      rw [if_pos hlt, min_eq_right (by omega)]
    · have hle := UInt64.le_iff_toNat_le.1 (UInt64.not_lt.1 hlt)
      rw [if_neg hlt, min_eq_left (by omega), h512]
  have hdim : renderDim dim = Int.bmod (((if 512 > dim then dim else 512) - 256).toNat % 2 ^ 32 : ℕ) (2 ^ 32) :=
    BitVec.toInt_eq_toNat_bmod _
  have h256 : (256 : UInt64).toNat = 256 := rfl
  rw [hdim, UInt64.toNat_sub, hmin, h256, Int.bmod_def]
  push_cast
  split_ifs <;> omega

/-- both coordinates are those of the same place -/
theorem origins (pos : ℤ) : screenOrigin pos = worldOrigin pos - pos := by
  unfold screenOrigin worldOrigin
  have h := Int.tmod_add_mul_tdiv pos 32
  rw [Int.neg_tmod]
  omega

/-- the first tile of a loop is one of the world; it is no later than the first that is visible, and for a position on the
map it is that -/
theorem worldOrigin_spec (pos : ℤ) :
    ∃ q : ℤ, worldOrigin pos = 32 * q ∧ (0 ≤ pos → pos - 256 < 32 * q + 32 ∧ 32 * q ≤ pos - 256) ∧ (pos < 0 → q < 0) := by
  refine ⟨pos.tdiv 32 - 8, ?_, fun h0 => ?_, fun hneg => ?_⟩
  · unfold worldOrigin
    ring
  · rw [Int.tdiv_eq_ediv_of_nonneg h0]
    omega
  · have h : 0 ≤ (-pos).tdiv 32 := Int.tdiv_nonneg (by omega) (by decide)
    rw [Int.neg_tdiv] at h
    omega

end Axis

section Tiles

variable {pos xVal yVal : ℤ} {dim : UInt64} {vpDim : NkSize2D} {t tx ty : ℕ}

/-- the values of the two variables of a loop at the tiles of the map -/
def axisPlace (pos : ℤ) (t : ℕ) : ℤ × ℤ := (screenPos pos t - 8 * 32, 32 * t)

theorem axis_tile {p : ℤ × ℤ} (hp : p ∈ axisLoop (renderDim dim) (screenOrigin pos) (worldOrigin pos))
    (hlo : 0 ≤ p.2) (hhi : p.2 ≤ 31 * 32) : ∃ t < 32, p = axisPlace pos t := by
  obtain ⟨k, rfl, -⟩ := mem_axisLoop.1 hp
  obtain ⟨q, hq, -, -⟩ := worldOrigin_spec pos
  have hmap : 0 ≤ q + k ∧ q + k ≤ 31 := by
    dsimp only at hlo hhi
    omega
  refine ⟨(q + k).toNat, by omega, Prod.ext ?_ ?_⟩
  · simp only [axisPlace, screenPos, origins, hq]
    omega
  · simp only [axisPlace, hq]
    omega

/-- a loop gets to a tile that is visible: not too late, for it starts in front of it, and not too early, for it ends behind
it -/
theorem axisPlace_mem (hvis : AxisVisible pos dim t) :
    axisPlace pos t ∈ axisLoop (renderDim dim) (screenOrigin pos) (worldOrigin pos) := by
  obtain ⟨s, hlo, hhi, h0, hdim⟩ := hvis
  obtain ⟨q, hq, hmap, hneg⟩ := worldOrigin_spec pos
  unfold screenPos at hlo hhi
  have hle : q ≤ t := by omega
  refine mem_axisLoop.2 ⟨(t - q).toNat, Prod.ext ?_ ?_, ?_⟩
  · simp only [axisPlace, screenPos, origins, hq]
    omega
  · simp only [axisPlace, hq]
    omega
  · rw [renderDim_eq, origins, hq]
    omega

/-- a loop does not get to a tile that is not visible, unless the region has no pixel -/
theorem axisVisible_of_mem (hdim : 0 < dim)
    (hmem : axisPlace pos t ∈ axisLoop (renderDim dim) (screenOrigin pos) (worldOrigin pos)) : AxisVisible pos dim t := by
  obtain ⟨k, hk, hend⟩ := mem_axisLoop.1 hmem
  obtain ⟨q, hq, hmap, hneg⟩ := worldOrigin_spec pos
  have hworld : 32 * (t : ℤ) = worldOrigin pos + 32 * k := congrArg Prod.snd hk
  have hpos : 0 < dim.toNat := UInt64.lt_iff_toNat_lt.1 hdim
  rw [renderDim_eq, origins] at hend
  refine ⟨max 0 (screenPos pos t), ?_, ?_, ?_, ?_⟩ <;> unfold screenPos <;> omega

theorem chunkAt_eq (hx : tx < 32) (hy : ty < 32) : chunkAt ((tx : ℤ).tdiv 16) ((ty : ℤ).tdiv 16) = chunkOf tx ty := by
  rw [Int.tdiv_eq_ediv_of_nonneg (Int.natCast_nonneg tx), Int.tdiv_eq_ediv_of_nonneg (Int.natCast_nonneg ty)]
  have hix : (tx : ℤ) / 16 = 0 ↔ tx < 16 := by omega
  have hiy : (ty : ℤ) / 16 = 0 ↔ ty < 16 := by omega
  unfold chunkAt chunkOf
  simp only [hix, hiy]
  split_ifs <;> rfl

theorem drawTile_axisPlace (hx : tx < 32) (hy : ty < 32) :
    drawTile testMap (axisPlace xVal tx, axisPlace yVal ty) = some (tileCall testMap xVal yVal tx ty) := by
  have hdx : (32 * (tx : ℤ)).tdiv 32 = tx := Int.mul_tdiv_cancel_left _ (by decide)
  have hdy : (32 * (ty : ℤ)).tdiv 32 = ty := Int.mul_tdiv_cancel_left _ (by decide)
  have hindex : 16 * (ty : ℤ).tmod 16 + (tx : ℤ).tmod 16 = indexOf tx ty := rfl
  have hin : ¬((axisPlace xVal tx).2 < 0 ∨ (axisPlace xVal tx).2 > 31 * 32 ∨
      (axisPlace yVal ty).2 < 0 ∨ (axisPlace yVal ty).2 > 31 * 32) := by
    unfold axisPlace
    omega
  have hdraw : drawTile testMap (axisPlace xVal tx, axisPlace yVal ty) = some _ := if_neg hin
  rw [hdraw]
  simp only [hdx, hdy, chunkAt_eq hx hy, hindex, sub_add_cancel]
  rfl

/-- what the body of the loops does at a place that the loops get to -/
theorem drawTile_eq_some {p : (ℤ × ℤ) × (ℤ × ℤ)} {c : DrawCall}
    (hx : p.1 ∈ axisLoop (renderDim vpDim.width) (screenOrigin xVal) (worldOrigin xVal))
    (hy : p.2 ∈ axisLoop (renderDim vpDim.height) (screenOrigin yVal) (worldOrigin yVal)) :
    drawTile testMap p = some c ↔ ∃ tx ty, tx < 32 ∧ ty < 32 ∧ p = (axisPlace xVal tx, axisPlace yVal ty) ∧
      c = tileCall testMap xVal yVal tx ty := by
  constructor
  · intro hc
    by_cases hout : p.1.2 < 0 ∨ p.1.2 > 31 * 32 ∨ p.2.2 < 0 ∨ p.2.2 > 31 * 32
    · -- the tile is skipped
      have hskip : drawTile testMap p = none := if_pos hout
      rw [hskip] at hc
      cases hc
    · obtain ⟨tx, htx, hpx⟩ := axis_tile hx (by omega) (by omega)
      obtain ⟨ty, hty, hpy⟩ := axis_tile hy (by omega) (by omega)
      have hp : p = (axisPlace xVal tx, axisPlace yVal ty) := Prod.ext hpx hpy
      rw [hp, drawTile_axisPlace testMap htx hty] at hc
      exact ⟨tx, ty, htx, hty, hp, (Option.some.inj hc).symm⟩
  · rintro ⟨tx, ty, htx, hty, rfl, rfl⟩
    exact drawTile_axisPlace testMap htx hty

theorem mem_onRender {c : DrawCall} :
    c ∈ onRender testMap xVal yVal vpDim ↔ ∃ tx ty, tx < 32 ∧ ty < 32 ∧
      axisPlace xVal tx ∈ axisLoop (renderDim vpDim.width) (screenOrigin xVal) (worldOrigin xVal) ∧
      axisPlace yVal ty ∈ axisLoop (renderDim vpDim.height) (screenOrigin yVal) (worldOrigin yVal) ∧
      c = tileCall testMap xVal yVal tx ty := by
  unfold onRender
  rw [List.mem_filterMap]
  constructor
  · rintro ⟨p, hp, hc⟩
    obtain ⟨hx, hy⟩ := List.mem_product.1 hp
    obtain ⟨tx, ty, htx, hty, rfl, rfl⟩ := (drawTile_eq_some testMap hx hy).1 hc
    exact ⟨tx, ty, htx, hty, hx, hy, rfl⟩
  · rintro ⟨tx, ty, htx, hty, hx, hy, rfl⟩
    exact ⟨_, List.mem_product.2 ⟨hx, hy⟩, drawTile_axisPlace testMap htx hty⟩

/-- a call has the coordinates of its tile -/
theorem tileCall_inj {sx sy : ℕ} (h : tileCall testMap xVal yVal tx ty = tileCall testMap xVal yVal sx sy) :
    tx = sx ∧ ty = sy := by
  have hx : screenPos xVal tx = screenPos xVal sx := congrArg DrawCall.xCoord h
  have hy : screenPos yVal ty = screenPos yVal sy := congrArg DrawCall.yCoord h
  unfold screenPos at hx hy
  omega

theorem nodup_onRender : (onRender testMap xVal yVal vpDim).Nodup := by
  unfold onRender
  rw [List.Nodup, List.pairwise_filterMap]
  refine List.Pairwise.imp_of_mem ?_ ((nodup_axisLoop _ _ _).product (nodup_axisLoop _ _ _))
  intro p p' hp hp' hne c hc c' hc' hcc
  obtain ⟨hx, hy⟩ := List.mem_product.1 hp
  obtain ⟨hx', hy'⟩ := List.mem_product.1 hp'
  obtain ⟨tx, ty, -, -, rfl, rfl⟩ := (drawTile_eq_some testMap hx hy).1 hc
  obtain ⟨sx, sy, -, -, rfl, rfl⟩ := (drawTile_eq_some testMap hx' hy').1 hc'
  obtain ⟨rfl, rfl⟩ := tileCall_inj testMap hcc
  exact hne rfl

theorem indexOf_range : 0 ≤ indexOf tx ty ∧ indexOf tx ty < 256 := by
  unfold indexOf
  omega

/-- the loops draw what is visible of the map, for every position of the player and every size of the client area -/
theorem world_drawn (xVal yVal : ℤ) (vpDim : NkSize2D) :
    DrawsMap testMap xVal yVal vpDim (onRender testMap xVal yVal vpDim) where
  only := by
    intro c hc
    obtain ⟨tx, ty, htx, hty, -, -, rfl⟩ := (mem_onRender testMap).1 hc
    exact ⟨tx, ty, htx, hty, rfl⟩
  index := by
    intro c hc
    obtain ⟨tx, ty, -, -, -, -, rfl⟩ := (mem_onRender testMap).1 hc
    exact indexOf_range
  once := by
    intro tx ty htx hty hvis
    have hmem := (mem_onRender testMap).2 ⟨tx, ty, htx, hty, axisPlace_mem hvis.1, axisPlace_mem hvis.2, rfl⟩
    exact List.count_eq_one_of_mem (nodup_onRender testMap) hmem
  visible := by
    intro hwidth hheight tx ty _ _ hmem
    obtain ⟨sx, sy, -, -, hx, hy, hc⟩ := (mem_onRender testMap).1 hmem
    obtain ⟨rfl, rfl⟩ := tileCall_inj testMap hc
    exact ⟨axisVisible_of_mem hwidth hx, axisVisible_of_mem hheight hy⟩
  nodup := nodup_onRender testMap

end Tiles

end Noriko.World
