/-
What the screen shows of the world: the calls of `__NkInt_WorldLayer_OnRender` (`world.c`), drawn by the GDI renderer.

The draw calls of `World` are made on the renderer of `GdiDraw`. `frame_shows` says which colour every pixel of a frame
has in the end: that of the player where the player's picture is not of its key colour, else that of the map at the place
that the pixel stands for, else that of the viewport or the clear colour. The tiles of the map do not overlap, so the order
in which they are drawn does not matter.
-/
import Noriko.GdiDraw
import Noriko.World

namespace Noriko.Frame

open Gdi Lib World

/-! ## The code -/

/-- `NK_MAKE_RGB(255, 0, 255)`, what `OnPush` masks out of the player's texture -/
def playerKey : ColorRef := ⟨255, 0, 255⟩

/-- the parts of the world layer that are drawn: the textures, the player's position as `int`, its direction, and the client
area of the window -/
structure WorldView where
  mainTexAtlas : ℕ
  playerAtlas : ℕ
  plAtlasMask : ℕ
  xVal : ℤ
  yVal : ℤ
  dir : ℤ
  vpDim : NkSize2D

/-- the destination of a tile -/
def tileDst (c : DrawCall) : NkRectF := ⟨c.xCoord, c.yCoord, 32, 32⟩

/-- the part of the atlas that a tile is drawn from -/
def tileSrc (c : DrawCall) : NkRectF := ⟨c.srcX.toNat, c.srcY.toNat, 32, 32⟩

def playerDst : NkRectF := ⟨8 * 32, 8 * 32, 32, 32⟩

/-- the offset of the player's picture, from `__NkInt_WorldLayer_GetAnimPos` -/
def charFrame (dir : ℤ) : NkVec2F := ⟨1 * 32, dir * 32⟩

section Code

variable (testMap : Chunk → ℤ → UInt32) (stretch : Stretch)

/-- the tiles -/
def drawTiles (w : WorldView) (calls : List DrawCall) (s : Screen) : Screen :=
  calls.foldl (fun s c => (drawTexture stretch true (tileDst c) w.mainTexAtlas (some (tileSrc c)) s).2) s

/-- `__NkInt_WorldLayer_OnRender` -/
def renderWorld (w : WorldView) (s : Screen) : Screen :=
  let s := drawTiles stretch w (onRender testMap w.xVal w.yVal w.vpDim) s
  (drawMaskedTexture true playerDst w.playerAtlas (charFrame w.dir) w.plAtlasMask (charFrame w.dir) s).2

/-- a frame of the main loop -/
def renderFrame (deploy : Bool) (w : WorldView) (s : Screen) : Screen :=
  (endDraw true (renderWorld testMap stretch w (beginDraw deploy s).2)).2

end Code

/-! ## What is right -/

/-- the place in a texture of the pixel at `q` of the viewport, for a picture at `(8 * 32, 8 * 32)` -/
def playerTexel (dir : ℤ) (q : ℤ × ℤ) : ℤ × ℤ := (32 + (q.1 - 256), dir * 32 + (q.2 - 256))

/-- the player at a point of the viewport -/
def playerAt (tex : Bitmap) (dir : ℤ) (q : ℤ × ℤ) : Option ColorRef :=
  if (Area.ofSize 256 256 32 32).Has q then
    if (maskOf playerKey tex).pixels (playerTexel dir q) = some white then tex.pixels (playerTexel dir q) else none
  else none

/-- a tile of the map is drawn -/
def Drawn (w : WorldView) (tx ty : ℕ) : Prop := tx < 32 ∧ ty < 32 ∧ Visible w.xVal w.yVal w.vpDim tx ty

/-- the place of the map that a point of the viewport stands for -/
def mapPoint (w : WorldView) (q : ℤ × ℤ) : ℤ × ℤ := (q.1 + w.xVal - 256, q.2 + w.yVal - 256)

/-- a point of the map is in a tile -/
def InTile (r : ℤ × ℤ) (tx ty : ℕ) : Prop := r.1 / 32 = tx ∧ r.2 / 32 = ty

instance (r : ℤ × ℤ) (tx ty : ℕ) : Decidable (InTile r tx ty) := inferInstanceAs (Decidable (_ ∧ _))

/-- the place in the atlas of a point of the map that is in a tile -/
def tileTexel (testMap : Chunk → ℤ → UInt32) (r : ℤ × ℤ) (tx ty : ℕ) : ℤ × ℤ :=
  let tile := testMap (chunkOf tx ty) (indexOf tx ty)
  (32 * (tile.toNat % 2 ^ 16 : ℕ) + r.1 % 32, 32 * (tile.toNat / 2 ^ 16 : ℕ) + r.2 % 32)

/-- the colour behind the map -/
def backgroundAt (deploy : Bool) (g : Geometry) (clearCol : ColorRef) (p : ℤ × ℤ) (old : ColorRef) : ColorRef :=
  if !deploy ∧ g.viewportArea.Has p then white else if g.clientArea.Has p then clearCol else old

/-- the colours of a frame: `q` is a pixel's point in the viewport -/
structure FrameShows (testMap : Chunk → ℤ → UInt32) (w : WorldView) (atlas player : Bitmap) (q : ℤ × ℤ)
    (background col : ColorRef) : Prop where
  onPlayer : ∀ c, playerAt player w.dir q = some c → col = c
  onMap : playerAt player w.dir q = none → ∀ tx ty, Drawn w tx ty → InTile (mapPoint w q) tx ty →
    ∀ c, atlas.pixels (tileTexel testMap (mapPoint w q) tx ty) = some c → col = c
  behind : playerAt player w.dir q = none → (∀ tx ty, Drawn w tx ty → ¬InTile (mapPoint w q) tx ty) → col = background

/-- what is on the map in the region of the world layer is drawn -/
theorem drawn_of_region {w : WorldView} {q : ℤ × ℤ} (hx : 0 ≤ q.1 ∧ q.1 < min 512 w.vpDim.width.toNat)
    (hy : 0 ≤ q.2 ∧ q.2 < min 512 w.vpDim.height.toNat) {tx ty : ℕ} (htx : tx < 32) (hty : ty < 32)
    (hin : InTile (mapPoint w q) tx ty) : Drawn w tx ty := by
  unfold InTile mapPoint at hin
  refine ⟨htx, hty, ⟨q.1, ?_, ?_, hx⟩, ⟨q.2, ?_, ?_, hy⟩⟩ <;> unfold screenPos <;> omega

/-! ## Layers -/

section Layers

variable {testMap : Chunk → ℤ → UInt32} {stretch : Stretch} {w : WorldView} {g : Geometry} {tex : ℤ × ℤ → Option ColorRef}

theorem cInt_intCast (n : ℤ) : cInt (n : ℚ) = n := by
  simp [cInt]

/-- what is drawn for a tile -/
def tileLayer (g : Geometry) (tex : ℤ × ℤ → Option ColorRef) (c : DrawCall) : ℤ × ℤ → Option ColorRef :=
  copy (Area.ofSize (c.xCoord + (origin g).1) (c.yCoord + (origin g).2) 32 32) tex c.srcX.toNat c.srcY.toNat

/-- a tile is not scaled -/
theorem textureLayer_tile (b : Bitmap) (c : DrawCall) :
    textureLayer stretch g (tileDst c) (normSrcRect b (some (tileSrc c))) tex = tileLayer g tex c := by
  have h32 : cInt 32 = 32 := cInt_intCast 32
  have hsrc : normSrcRect b (some (tileSrc c)) = tileSrc c := by
    unfold normSrcRect tileSrc
    norm_num
  have hsame : compareRectangles (tileSrc c) (tileDst c) = true := by
    simp [compareRectangles, tileSrc, tileDst]
  have hx : cInt (c.srcX.toNat : ℚ) = c.srcX.toNat := cInt_intCast c.srcX.toNat
  have hy : cInt (c.srcY.toNat : ℚ) = c.srcY.toNat := cInt_intCast c.srcY.toNat
  rw [hsrc, textureLayer, if_pos hsame, tileLayer]
  simp only [Geometry.dstArea, tileDst, tileSrc, h32, hx, hy, cInt_intCast, origin]

/-- the place in the atlas that a tile is drawn from -/
theorem tileCall_src (testMap : Chunk → ℤ → UInt32) (xVal yVal : ℤ) (tx ty : ℕ) :
    let tile := testMap (chunkOf tx ty) (indexOf tx ty)
    (tileCall testMap xVal yVal tx ty).srcX.toNat = 32 * (tile.toNat % 2 ^ 16) ∧
      (tileCall testMap xVal yVal tx ty).srcY.toNat = 32 * (tile.toNat / 2 ^ 16) := by
  intro tile
  have hlow : (tile &&& 0xFFFF).toNat = tile.toNat % 2 ^ 16 := by
    rw [UInt32.toNat_and]
    exact Nat.and_two_pow_sub_one_eq_mod tile.toNat 16
  have hhigh : (tile >>> 16).toNat = tile.toNat / 2 ^ 16 := by
    rw [UInt32.toNat_shiftRight]
    exact Nat.shiftRight_eq_div_pow tile.toNat 16
  have htile : tile.toNat < 2 ^ 32 := tile.toNat_lt
  have h32 : (32 : UInt32).toNat = 32 := rfl
  constructor
  · show ((32 : UInt32) * (tile &&& 0xFFFF)).toNat = _
    rw [UInt32.toNat_mul, hlow, h32]
    exact Nat.mod_eq_of_lt (by omega)
  · show ((32 : UInt32) * (tile >>> 16)).toNat = _
    rw [UInt32.toNat_mul, hhigh, h32]
    exact Nat.mod_eq_of_lt (by omega)

/-- the layer of a tile has the points of the tile, with the colours of the atlas -/
theorem tileLayer_eq (testMap : Chunk → ℤ → UInt32) (g : Geometry) (tex : ℤ × ℤ → Option ColorRef) (w : WorldView)
    (tx ty : ℕ) (p : ℤ × ℤ) : tileLayer g tex (tileCall testMap w.xVal w.yVal tx ty) p =
      if InTile (mapPoint w (viewportPoint g p)) tx ty then
        tex (tileTexel testMap (mapPoint w (viewportPoint g p)) tx ty) else none := by
  obtain ⟨hx, hy⟩ := tileCall_src testMap w.xVal w.yVal tx ty
  have hxc : (tileCall testMap w.xVal w.yVal tx ty).xCoord = 32 * tx - w.xVal + 256 := rfl
  have hyc : (tileCall testMap w.xVal w.yVal tx ty).yCoord = 32 * ty - w.yVal + 256 := rfl
  unfold tileLayer
  rw [hxc, hyc, hx, hy]
  by_cases hin : InTile (mapPoint w (viewportPoint g p)) tx ty
  · rw [if_pos hin]
    simp only [InTile, mapPoint, viewportPoint] at hin
    rw [copy_of_has]
    · refine congrArg tex (Prod.ext ?_ ?_) <;> simp only [Area.ofSize, tileTexel, mapPoint, viewportPoint] <;> omega
    · simp only [Area.Has, Area.ofSize]
      omega
  · rw [if_neg hin, copy_of_not_has]
    simp only [InTile, mapPoint, viewportPoint] at hin
    simp only [Area.Has, Area.ofSize]
    omega

/-- the layer of the player -/
theorem maskedLayer_eq (g : Geometry) (player : Bitmap) (dir : ℤ) (p : ℤ × ℤ) :
    maskedLayer g playerDst player.pixels (charFrame dir) (maskOf playerKey player).pixels (charFrame dir) p =
      playerAt player dir (viewportPoint g p) := by
  have h32 : cInt 32 = 32 := cInt_intCast 32
  have h256 : cInt (8 * 32) = 256 := by
    norm_num
    exact cInt_intCast 256
  have hdir : cInt (dir * 32 : ℚ) = dir * 32 := by
    rw [← cInt_intCast (dir * 32)]
    push_cast
    rfl
  have hone : cInt (1 * 32) = 32 := by
    norm_num
    exact cInt_intCast 32
  have hdst : g.dstArea playerDst = Area.ofSize (256 + (origin g).1) (256 + (origin g).2) 32 32 := by
    simp only [Geometry.dstArea, playerDst, h32, h256, origin]
  unfold maskedLayer cut playerAt
  simp only [hdst, charFrame, hone, hdir]
  by_cases hin : (Area.ofSize 256 256 32 32).Has (viewportPoint g p)
  · have hhas : (Area.ofSize (256 + (origin g).1) (256 + (origin g).2) 32 32).Has p := by
      simp only [Area.Has, Area.ofSize, viewportPoint] at hin ⊢
      omega
    have hplace : (32 + (p.1 - (256 + (origin g).1)), dir * 32 + (p.2 - (256 + (origin g).2))) =
        playerTexel dir (viewportPoint g p) := by
      refine Prod.ext ?_ ?_ <;> simp only [playerTexel, viewportPoint] <;> omega
    rw [if_pos hin, copy_of_has hhas, copy_of_has hhas, ← hplace]
    rfl
  · have hout : ¬(Area.ofSize (256 + (origin g).1) (256 + (origin g).2) 32 32).Has p := by
      simp only [Area.Has, Area.ofSize, viewportPoint] at hin ⊢
      omega
    rw [if_neg hin, copy_of_not_has hout, copy_of_not_has hout]
    exact if_neg (Option.some_ne_none white).symm

end Layers

/-! ## A frame -/

section Render

variable {testMap : Chunk → ℤ → UInt32} {stretch : Stretch} {ext : ℕ} {s : Screen} {m : Canvas} {w : WorldView}

variable (stretch) in
/-- drawing the tiles paints their layers one after the other, and changes no resource -/
theorem shows_drawTiles (calls : List DrawCall) (h : Shows ext s m) (hatlas : w.mainTexAtlas ∈ s.rd.live) :
    Shows ext (drawTiles stretch w calls s)
        { m with back := paintAll (calls.map (tileLayer m.geometry (m.pic w.mainTexAtlas).pixels)) m.back } ∧
      (drawTiles stretch w calls s).rd.live = s.rd.live := by
  induction calls generalizing s m with
  | nil => exact ⟨h, rfl⟩
  | cons c calls ih =>
    have hdraw := h.drawTexture stretch (tileDst c) hatlas (some (tileSrc c))
    rw [textureLayer_tile] at hdraw
    have hlive : (drawTexture stretch true (tileDst c) w.mainTexAtlas (some (tileSrc c)) s).2.rd.live = s.rd.live :=
      (bind_same _ _ _).live
    obtain ⟨hrest, hsame⟩ := ih hdraw (hlive ▸ hatlas)
    exact ⟨hrest, hsame.trans hlive⟩

variable (testMap stretch) in
/-- what is painted on the back buffer in a frame -/
theorem shows_renderWorld (h : Shows ext s m) (hatlas : w.mainTexAtlas ∈ s.rd.live) (hplayer : w.playerAtlas ∈ s.rd.live)
    (hmask : w.plAtlasMask ∈ s.rd.live) :
    Shows ext (renderWorld testMap stretch w s) { m with
      back := paint (maskedLayer m.geometry playerDst (m.pic w.playerAtlas).pixels (charFrame w.dir)
          (m.pic w.plAtlasMask).pixels (charFrame w.dir))
        (paint (stack ((onRender testMap w.xVal w.yVal w.vpDim).map
          (tileLayer m.geometry (m.pic w.mainTexAtlas).pixels))) m.back) } := by
  obtain ⟨htiles, hlive⟩ := shows_drawTiles stretch (onRender testMap w.xVal w.yVal w.vpDim) h hatlas
  have hdraw := htiles.drawMaskedTexture playerDst (hlive ▸ hplayer) (charFrame w.dir) (hlive ▸ hmask) (charFrame w.dir)
  rw [← paintAll_eq]
  exact hdraw

/-- the calls for tiles are those of the tiles that are drawn -/
theorem mem_onRender_iff (hwidth : 0 < w.vpDim.width) (hheight : 0 < w.vpDim.height) {c : DrawCall} :
    c ∈ onRender testMap w.xVal w.yVal w.vpDim ↔ ∃ tx ty, Drawn w tx ty ∧ c = tileCall testMap w.xVal w.yVal tx ty := by
  rw [mem_onRender]
  constructor
  · rintro ⟨tx, ty, htx, hty, hx, hy, rfl⟩
    exact ⟨tx, ty, ⟨htx, hty, axisVisible_of_mem hwidth hx, axisVisible_of_mem hheight hy⟩, rfl⟩
  · rintro ⟨tx, ty, ⟨htx, hty, hx, hy⟩, rfl⟩
    exact ⟨tx, ty, htx, hty, axisPlace_mem hx, axisPlace_mem hy, rfl⟩

theorem InTile.unique {r : ℤ × ℤ} {tx ty sx sy : ℕ} (h : InTile r tx ty) (h' : InTile r sx sy) : sx = tx ∧ sy = ty :=
  ⟨Int.natCast_inj.1 (h'.1.symm.trans h.1), Int.natCast_inj.1 (h'.2.symm.trans h.2)⟩

variable (testMap) in
/-- the tiles at a pixel: the one tile that is there, or none -/
theorem stack_tiles (hwidth : 0 < w.vpDim.width) (hheight : 0 < w.vpDim.height) (g : Geometry)
    (tex : ℤ × ℤ → Option ColorRef) (p : ℤ × ℤ) :
    (∀ tx ty, Drawn w tx ty → InTile (mapPoint w (viewportPoint g p)) tx ty →
      stack ((onRender testMap w.xVal w.yVal w.vpDim).map (tileLayer g tex)) p =
        tex (tileTexel testMap (mapPoint w (viewportPoint g p)) tx ty)) ∧
    ((∀ tx ty, Drawn w tx ty → ¬InTile (mapPoint w (viewportPoint g p)) tx ty) →
      stack ((onRender testMap w.xVal w.yVal w.vpDim).map (tileLayer g tex)) p = none) := by
  constructor
  · intro tx ty hdrawn hin
    rw [stack_map_eq ((mem_onRender_iff hwidth hheight).2 ⟨tx, ty, hdrawn, rfl⟩), tileLayer_eq, if_pos hin]
    intro c hc hne
    obtain ⟨sx, sy, -, rfl⟩ := (mem_onRender_iff hwidth hheight).1 hc
    rw [tileLayer_eq] at hne
    obtain ⟨rfl, rfl⟩ := hin.unique (of_not_not fun hno => hne (if_neg hno))
    rfl
  · intro hno
    refine stack_eq_none.2 fun l hl => ?_
    obtain ⟨c, hc, rfl⟩ := List.mem_map.1 hl
    obtain ⟨tx, ty, hdrawn, rfl⟩ := (mem_onRender_iff hwidth hheight).1 hc
    rw [tileLayer_eq, if_neg (hno tx ty hdrawn)]

/-- what `BeginDraw` leaves at a pixel of the back buffer -/
theorem background_eq (deploy : Bool) (m : Canvas) (clearCol : ColorRef) {p : ℤ × ℤ} {old : ColorRef}
    (hp : m.back p = some old) :
    (let m := m.onBack (fill m.geometry.clientArea clearCol)
     if deploy then m else m.onBack (fill m.geometry.viewportArea white)).back p =
      some (backgroundAt deploy m.geometry clearCol p old) := by
  have hclear : (m.onBack (fill m.geometry.clientArea clearCol)).back p =
      some (if m.geometry.clientArea.Has p then clearCol else old) := by
    simp only [Canvas.onBack, paint, hp, Option.map_some, fill]
    split_ifs <;> rfl
  unfold backgroundAt
  cases deploy with
  | true => simpa using hclear
  | false =>
    simp only [Bool.false_eq_true, if_false, Canvas.onBack, paint, fill] at hclear ⊢
    rw [hclear, Option.map_some]
    split_ifs <;> simp_all

/-- **The screen shows the world.** Whatever is in the back buffer, after a frame every pixel of it has the colour of the
player, of the map or of what is behind them, and the window shows it. -/
theorem frame_shows (h : Shows ext s m) (hatlas : w.mainTexAtlas ∈ s.rd.live) (hplayer : w.playerAtlas ∈ s.rd.live)
    (hmask : w.plAtlasMask ∈ s.rd.live) (hpic : m.pic w.plAtlasMask = maskOf playerKey (m.pic w.playerAtlas))
    (hwidth : 0 < w.vpDim.width) (hheight : 0 < w.vpDim.height) (deploy : Bool) (p : ℤ × ℤ) (old : ColorRef)
    (hp : (s.bits s.rd.memSel).pixels p = some old) :
    let t := renderFrame testMap stretch deploy w s
    ∃ col, (t.bits t.rd.memSel).pixels p = some col ∧
      FrameShows testMap w (m.pic w.mainTexAtlas) (m.pic w.playerAtlas) (viewportPoint s.rd.geometry p)
        (backgroundAt deploy s.rd.geometry s.clearCol p old) col ∧
      (s.rd.geometry.clientArea.Has p → s.wnd p ≠ none → t.wnd p = some col) := by
  intro t
  have hbegin := h.beginDraw deploy
  have hrd : (beginDraw deploy s).2.rd = s.rd := by
    cases deploy <;> rfl
  have hback := background_eq deploy m s.clearCol (h.back ▸ hp)
  have hfields : ∀ m' : Canvas, m' = (let m := m.onBack (fill m.geometry.clientArea s.clearCol)
      if deploy then m else m.onBack (fill m.geometry.viewportArea white)) →
      m'.geometry = m.geometry ∧ m'.pic = m.pic ∧ m'.wnd = m.wnd := by
    rintro m' rfl
    cases deploy <;> exact ⟨rfl, rfl, rfl⟩
  generalize (let m := m.onBack (fill m.geometry.clientArea s.clearCol)
    if deploy then m else m.onBack (fill m.geometry.viewportArea white)) = m' at hbegin hback hfields
  obtain ⟨hgeo, hpics, hwnd⟩ := hfields m' rfl
  have hend := (shows_renderWorld testMap stretch hbegin (hrd ▸ hatlas) (hrd ▸ hplayer) (hrd ▸ hmask)).endDraw
  rw [hpics, hgeo, hpic] at hend
  -- the player in front of the tiles in front of the background
  set ground := stack ((onRender testMap w.xVal w.yVal w.vpDim).map
    (tileLayer m.geometry (m.pic w.mainTexAtlas).pixels)) with hground
  set front := maskedLayer m.geometry playerDst (m.pic w.playerAtlas).pixels (charFrame w.dir)
    (maskOf playerKey (m.pic w.playerAtlas)).pixels (charFrame w.dir) with hfront
  have hpixel : paint front (paint ground m'.back) p =
      some ((front p).getD ((ground p).getD (backgroundAt deploy m.geometry s.clearCol p old))) := by
    rw [paint, paint, hback, Option.map_some, Option.map_some]
  have hplayerAt : front p = playerAt (m.pic w.playerAtlas) w.dir (viewportPoint m.geometry p) := maskedLayer_eq _ _ _ _
  obtain ⟨htile, hnone⟩ := stack_tiles testMap hwidth hheight m.geometry (m.pic w.mainTexAtlas).pixels p
  rw [hplayerAt] at hpixel
  rw [← h.geometry]
  refine ⟨_, (congrFun hend.back p).symm.trans hpixel, ⟨fun c hc => ?_, fun hno tx ty hdrawn hin c hc => ?_,
    fun hno hout => ?_⟩, fun hclient hin => ?_⟩
  · rw [hc, Option.getD_some]
  · rw [hno, Option.getD_none, hground, htile tx ty hdrawn hin, hc, Option.getD_some]
  · rw [hno, Option.getD_none, hground, hnone hout, Option.getD_none]
  · refine (congrFun hend.wnd p).symm.trans ?_
    refine paint_some ?_ (by rw [hwnd, h.wnd]; exact hin)
    exact (copy_self (hgeo ▸ hclient)).trans hpixel

end Render

/-! ## A frame of a green world -/

def green : ColorRef := ⟨0, 255, 0⟩

/-- a renderer with the three resources of the world layer, at 10, 11 and 12 -/
def worldRenderer : GdiRenderer :=
  { initialized with
    refCount := 4
    res := fun a => if a = 10 then ⟨.texture, 4, 0⟩ else if a = 11 then ⟨.texture, 5, 0⟩ else ⟨.textureMask, 6, 0⟩
    live := [10, 11, 12]
    bmps := (((initialized.bmps.get 4).get 5).get 6) }

theorem worldRenderer_inv : GdiInv 1 [] worldRenderer where
  refs := rfl
  nodup := by decide
  types := by decide
  selected := rfl
  bitmaps := by
    refine (((initialized_inv.bitmaps.get 4).get 5).get 6).perm ?_
    decide
  wndDCs := initialized_inv.wndDCs
  bound := .inl rfl
  defTex := by decide
  apart := by decide
  fresh := fun _ hx => absurd hx List.not_mem_nil

/-- a player with a hole in its picture -/
def playerBitmap : Bitmap :=
  ⟨96, 128, false, fun p => if p = (40, 8) then some playerKey else fill ⟨0, 0, 96, 128⟩ black p⟩

def atlasBitmap : Bitmap := ⟨288, 224, false, fill ⟨0, 0, 288, 224⟩ green⟩

def worldScreen : Screen where
  rd := worldRenderer
  clearCol := black
  bits := fun b =>
    if b = 4 then atlasBitmap else if b = 5 then playerBitmap else if b = 6 then maskOf playerKey playerBitmap
    else ⟨800, 600, false, fill ⟨0, 0, 800, 600⟩ black⟩
  wnd := fill ⟨0, 0, 800, 600⟩ black

def worldCanvas : Canvas where
  geometry := worldRenderer.geometry
  back := fill ⟨0, 0, 800, 600⟩ black
  wnd := fill ⟨0, 0, 800, 600⟩ black
  pic := fun a => if a = 10 then atlasBitmap else if a = 11 then playerBitmap else maskOf playerKey playerBitmap

theorem shows_world : Shows 1 worldScreen worldCanvas where
  inv := worldRenderer_inv
  geometry := rfl
  back := rfl
  wnd := rfl
  pics := by
    intro a ha
    have hcases : a = 10 ∨ a = 11 ∨ a = 12 := by
      simpa [worldScreen, worldRenderer] using ha
    rcases hcases with rfl | rfl | rfl <;> rfl
  colours := by
    intro a ha hty
    have hcases : a = 10 ∨ a = 11 ∨ a = 12 := by
      simpa [worldScreen, worldRenderer] using ha
    rcases hcases with rfl | rfl | rfl
    · rfl
    · rfl
    · cases hty

/-- the pixel at the corner of the viewport -/
theorem frame_shows_corner :
    let w : WorldView := ⟨10, 11, 12, 11 * 32, 9 * 32, 0, ⟨800, 600⟩⟩
    let t := renderFrame (fun _ _ => 2) (fun _ _ _ _ => none) false w worldScreen
    ∃ col, (t.bits t.rd.memSel).pixels (144, 108) = some col ∧
      FrameShows (fun _ _ => 2) w atlasBitmap playerBitmap (viewportPoint worldRenderer.geometry (144, 108))
        (backgroundAt false worldRenderer.geometry black (144, 108) black) col ∧
      (worldRenderer.geometry.clientArea.Has (144, 108) → worldScreen.wnd (144, 108) ≠ none →
        t.wnd (144, 108) = some col) :=
  frame_shows shows_world (by decide) (by decide) (by decide) rfl (by decide) (by decide) false (144, 108) black rfl

end Noriko.Frame
