/-
Drawing of the GDI renderer (`platform/windows/wingdi.c`), pixel by pixel.

The pictures of the bitmaps are added to the renderer's state: what is drawn goes into the bitmap that is selected into
`memDC`, and comes from the one that is selected into `texDC`. A mask is made with both device contexts, in between
whatever else is drawn. Pixels outside of a bitmap are not changed, and nothing is drawn from there. The sums of two `int`
are taken as unbounded, and so is what is done with an `NkFloat`.

- `screen_refines`: over every run in which Windows does what it is asked to, the renderer is a canvas: every resource has
  its picture from when it was made, every call of a draw function draws that picture over the back buffer, or the part of
  it that a mask leaves, and nothing else changes the back buffer or the window. `CanvasSpec` says so for each pixel.
- `normSrcRect_beyond`: a source rectangle that asks for all of a texture is larger than the texture, so these are left out.
-/
import Noriko.Bmp.Bitmap
import Noriko.Gdi
import Noriko.Lib.Raster

namespace Noriko.Gdi

open Lib

/-! ## Data -/

/-- `COLORREF` -/
structure ColorRef where
  red : UInt8
  green : UInt8
  blue : UInt8
deriving DecidableEq, Repr

/-- `RGB` of the components of a colour -/
def rgb (c : Bmp.RgbaColor) : ColorRef := ⟨c.rVal, c.gVal, c.bVal⟩

def black : ColorRef := ⟨0, 0, 0⟩

def white : ColorRef := ⟨255, 255, 255⟩

/-- a bitmap of Windows; one that is monochrome has black and white pixels -/
structure Bitmap where
  width : ℤ
  height : ℤ
  isMono : Bool
  pixels : ℤ × ℤ → Option ColorRef

structure NkRectF where
  xCoord : ℚ
  yCoord : ℚ
  width : ℚ
  height : ℚ
deriving DecidableEq, Repr

/-- the members of the renderer that say where things are -/
structure Geometry where
  vpAlignment : ℕ
  vpExtents : NkSize2D
  dispTileSize : NkSize2D
  bbDim : NkSize2D
  vpOri : NkPoint2D
deriving DecidableEq, Repr

def GdiRenderer.geometry (s : GdiRenderer) : Geometry := ⟨s.vpAlignment, s.vpExtents, s.dispTileSize, s.bbDim, s.vpOri⟩

/-- the renderer, its clear colour, what is in the bitmaps, and what the window shows -/
structure Screen where
  rd : GdiRenderer
  clearCol : ColorRef
  bits : ℕ → Bitmap
  wnd : ℤ × ℤ → Option ColorRef

/-! ## The code -/

/-- `(int)` of an `NkFloat` -/
def cInt (q : ℚ) : ℤ := q.num.tdiv q.den

/-- `(int)` and `(LONG)` of a number of 64 bits -/
def longOf (x : UInt64) : ℤ := x.toUInt32.toInt32.toInt

namespace Geometry

/-- the rectangle of the back buffer -/
def clientArea (g : Geometry) : Area := ⟨0, 0, longOf g.bbDim.width, longOf g.bbDim.height⟩

/-- the rectangle of the viewport's background -/
def viewportArea (g : Geometry) : Area :=
  ⟨longOf g.vpOri.xCoord.toUInt64, longOf g.vpOri.yCoord.toUInt64,
    longOf (g.vpOri.xCoord.toUInt64 + g.vpExtents.width * g.dispTileSize.width),
    longOf (g.vpOri.yCoord.toUInt64 + g.vpExtents.height * g.dispTileSize.height)⟩

/-- where a rectangle of the viewport is in the back buffer -/
def dstArea (g : Geometry) (dstRect : NkRectF) : Area :=
  Area.ofSize (cInt dstRect.xCoord + longOf g.vpOri.xCoord.toUInt64) (cInt dstRect.yCoord + longOf g.vpOri.yCoord.toUInt64)
    (cInt dstRect.width) (cInt dstRect.height)

end Geometry

/-- something is drawn with `memDC` -/
def Screen.draw (l : ℤ × ℤ → Option ColorRef) (s : Screen) : Screen :=
  let b := s.bits s.rd.memSel
  { s with bits := Function.update s.bits s.rd.memSel { b with pixels := paint l b.pixels } }

/-- `__NkInt_GdiRenderer_BeginDraw`; the viewport has a background unless `NK_CONFIG_DEPLOY` is set -/
def beginDraw (deploy : Bool) (s : Screen) : NkErrorCode × Screen :=
  let s := s.draw (fill s.rd.geometry.clientArea s.clearCol)
  (.ok, if deploy then s else s.draw (fill s.rd.geometry.viewportArea white))

/-- `__NkInt_GdiRenderer_EndDraw`; `blt` says whether the window can be drawn on -/
def endDraw (blt : Bool) (s : Screen) : NkErrorCode × Screen :=
  let l := copy s.rd.geometry.clientArea (s.bits s.rd.memSel).pixels 0 0
  (.ok, if blt then { s with wnd := paint l s.wnd } else s)

/-- the source rectangle of `DrawTexture`, for the bitmap of the texture -/
def normSrcRect (tInfo : Bitmap) (srcRect : Option NkRectF) : NkRectF :=
  match srcRect with
  | none => ⟨0, 0, tInfo.width, tInfo.height⟩
  | some r =>
    if r.width = -1 ∨ r.height = -1 then
      ⟨r.xCoord, r.yCoord, if r.width < 0 then tInfo.width - r.width else r.width,
        if r.height < 0 then tInfo.height - r.height else r.height⟩
    else r

/-- `NkRendererCompareRectangles` -/
def compareRectangles (r1 r2 : NkRectF) : Bool := r1.width = r2.width ∧ r1.height = r2.height

/-- the bitmap of a resource is selected into `texDC` if it is not -/
def GdiRenderer.bind (sel : Bool) (resHandle : ℕ) (s : GdiRenderer) : GdiRenderer :=
  if s.texSel ≠ resHandle then { s with texSel := (selectObject sel s.texSel (some resHandle)).2 } else s

/-- what `StretchBlt` draws in an area from a rectangle of a picture -/
abbrev Stretch : Type := Area → Area → (ℤ × ℤ → Option ColorRef) → ℤ × ℤ → Option ColorRef

/-- what is drawn of a texture with the picture `tex` -/
def textureLayer (stretch : Stretch) (g : Geometry) (dstRect normSrc : NkRectF) (tex : ℤ × ℤ → Option ColorRef) :
    ℤ × ℤ → Option ColorRef :=
  if compareRectangles normSrc dstRect then copy (g.dstArea dstRect) tex (cInt normSrc.xCoord) (cInt normSrc.yCoord)
  else
    stretch (g.dstArea dstRect)
      (Area.ofSize (cInt normSrc.xCoord) (cInt normSrc.yCoord) (cInt normSrc.width) (cInt normSrc.height)) tex

/-- `__NkInt_GdiRenderer_DrawTexture` for the texture at `texPtr` -/
def drawTexture (stretch : Stretch) (sel : Bool) (dstRect : NkRectF) (texPtr : ℕ) (srcRect : Option NkRectF) (s : Screen) :
    NkErrorCode × Screen :=
  let resHandle := (s.rd.res texPtr).resHandle
  let normSrc := normSrcRect (s.bits resHandle) srcRect
  let s := { s with rd := s.rd.bind sel resHandle }
  (.ok, s.draw (textureLayer stretch s.rd.geometry dstRect normSrc (s.bits s.rd.texSel).pixels))

/-- what is drawn of a texture with the picture `tex` and a mask with the picture `mask`: the background operation of
`MaskBlt` leaves the destination as it is -/
def maskedLayer (g : Geometry) (dstRect : NkRectF) (tex : ℤ × ℤ → Option ColorRef) (srcOff : NkVec2F)
    (mask : ℤ × ℤ → Option ColorRef) (maskOff : NkVec2F) : ℤ × ℤ → Option ColorRef :=
  cut white (copy (g.dstArea dstRect) mask (cInt maskOff.xVal) (cInt maskOff.yVal))
    (copy (g.dstArea dstRect) tex (cInt srcOff.xVal) (cInt srcOff.yVal))

/-- `__NkInt_GdiRenderer_DrawMaskedTexture` -/
def drawMaskedTexture (sel : Bool) (dstRect : NkRectF) (texPtr : ℕ) (srcOff : NkVec2F) (maskPtr : ℕ) (maskOff : NkVec2F)
    (s : Screen) : NkErrorCode × Screen :=
  let s := { s with rd := s.rd.bind sel (s.rd.res texPtr).resHandle }
  let mask := (s.bits (s.rd.res maskPtr).resHandle).pixels
  (.ok, s.draw (maskedLayer s.rd.geometry dstRect (s.bits s.rd.texSel).pixels srcOff mask maskOff))

/-- `CreateTexture`; `dib` is what `SetDIBits` makes of the device-independent bitmap -/
def screenCreateTexture (c : TextureCalls) (dib : Bitmap) (resourcePtr : Option ℕ) (s : Screen) : NkErrorCode × Screen :=
  let r := createTexture c dib.height resourcePtr s.rd
  (r.1, { s with rd := r.2.2, bits := c.ddTex.elim s.bits fun d => Function.update s.bits d dib })

/-- a pixel that `BitBlt` writes with `NOTSRCCOPY`; on the way from colours to black and white, the background colour of the
source becomes white -/
def notSrcCopy (bkCol : ColorRef) (srcMono dstMono : Bool) (c : ColorRef) : ColorRef :=
  let c := if dstMono && !srcMono then (if c = bkCol then white else black) else c
  ⟨~~~c.red, ~~~c.green, ~~~c.blue⟩

/-- the bitmaps after the blit of `CreateTextureMask`, from what is selected into `texDC` to what `memDC` has selected -/
def blitBits (c : MaskCalls) (resHandle monoBmp : ℕ) (colKey : Bmp.RgbaColor) (s : Screen) : ℕ → Bitmap :=
  let tInfo := s.bits resHandle
  let area := Area.ofSize 0 0 tInfo.width tInfo.height
  let bits := Function.update s.bits monoBmp ⟨tInfo.width, tInfo.height, true, fill area black⟩
  let src := bits (selectObject c.selTex s.rd.texSel (some resHandle)).2
  let dst := (selectObject c.selMem s.rd.memSel (some monoBmp)).2
  let l := copy area (fun p => (src.pixels p).map (notSrcCopy (rgb colKey) src.isMono (bits dst).isMono)) 0 0
  Function.update bits dst { bits dst with pixels := paint l (bits dst).pixels }

def screenCreateTextureMask (c : MaskCalls) (texPtr : ℕ) (colKey : Bmp.RgbaColor) (resourcePtr : Option ℕ) (s : Screen) :
    NkErrorCode × Screen :=
  let r := createTextureMask c texPtr resourcePtr s.rd
  (r.1, { s with rd := r.2.2, bits := c.monoBmp.elim s.bits fun b => blitBits c (s.rd.res texPtr).resHandle b colKey s })

def screenDeleteResource (c : DeleteCalls) (a : ℕ) (s : Screen) : NkErrorCode × Screen :=
  let r := deleteResource c a s.rd
  (r.1, { s with rd := r.2 })

/-- `Resize`; `fresh` is what is in the new back buffer -/
def screenResize (c : ResizeCalls) (clAreaSize : NkSize2D) (fresh : ℤ × ℤ → Option ColorRef) (s : Screen) :
    NkErrorCode × Screen :=
  let r := resize c clAreaSize s.rd
  let new := fun b => Function.update s.bits b ⟨longOf clAreaSize.width, longOf clAreaSize.height, false, fresh⟩
  (r.1, { s with rd := r.2, bits := c.memBmp.elim s.bits new })

/-! ## Runs -/

inductive ScreenOp where
  | beginDraw
  | endDraw (blt : Bool)
  | drawTexture (sel : Bool) (dstRect : NkRectF) (texPtr : ℕ) (srcRect : Option NkRectF)
  | drawMaskedTexture (sel : Bool) (dstRect : NkRectF) (texPtr : ℕ) (srcOff : NkVec2F) (maskPtr : ℕ) (maskOff : NkVec2F)
  | createTexture (c : TextureCalls) (dib : Bitmap) (resourcePtr : Option ℕ)
  | createTextureMask (c : MaskCalls) (texPtr : ℕ) (colKey : Bmp.RgbaColor) (resourcePtr : Option ℕ)
  | deleteResource (c : DeleteCalls) (a : ℕ)
  | resize (c : ResizeCalls) (clAreaSize : NkSize2D) (fresh : ℤ × ℤ → Option ColorRef)

/-- the resource at `a` is live, and of the type that the assertions ask for -/
def Screen.Has (s : Screen) (a : ℕ) (resType : NkRendererResourceType) : Prop :=
  a ∈ s.rd.live ∧ (s.rd.res a).resType = resType

instance (s : Screen) (a : ℕ) (resType : NkRendererResourceType) : Decidable (s.Has a resType) :=
  inferInstanceAs (Decidable (_ ∧ _))

/-- what callers, the pool and Windows keep to -/
def ScreenOp.Legal (s : Screen) : ScreenOp → Prop
  | .beginDraw => True
  | .endDraw _ => True
  | .drawTexture _ _ texPtr _ => s.Has texPtr .texture
  | .drawMaskedTexture _ _ texPtr _ maskPtr _ => s.Has texPtr .texture ∧ s.Has maskPtr .textureMask
  | .createTexture c dib resourcePtr => (GdiOp.createTexture c dib.height resourcePtr).Legal s.rd ∧ dib.isMono = false
  | .createTextureMask c texPtr _ resourcePtr => (GdiOp.createTextureMask c texPtr resourcePtr).Legal s.rd
  | .deleteResource c a => (GdiOp.deleteResource c a).Legal s.rd
  | .resize c clAreaSize _ => (GdiOp.resize c clAreaSize).Legal s.rd

instance (s : Screen) : (o : ScreenOp) → Decidable (o.Legal s)
  | .beginDraw => inferInstanceAs (Decidable True)
  | .endDraw _ => inferInstanceAs (Decidable True)
  | .drawTexture .. => inferInstanceAs (Decidable (Screen.Has ..))
  | .drawMaskedTexture .. => inferInstanceAs (Decidable (_ ∧ _))
  | .createTexture .. => inferInstanceAs (Decidable (_ ∧ _))
  | .createTextureMask c texPtr _ resourcePtr =>
    inferInstanceAs (Decidable ((GdiOp.createTextureMask c texPtr resourcePtr).Legal s.rd))
  | .deleteResource c a => inferInstanceAs (Decidable ((GdiOp.deleteResource c a).Legal s.rd))
  | .resize c clAreaSize _ => inferInstanceAs (Decidable ((GdiOp.resize c clAreaSize).Legal s.rd))

/-- Windows does what it is asked to, and no source rectangle has the width or height `-1` (`normSrcRect_beyond`) -/
def ScreenOp.Works (s : Screen) : ScreenOp → Prop
  | .beginDraw => True
  | .endDraw blt => blt
  | .drawTexture sel _ _ srcRect => sel ∧ ∀ r ∈ srcRect, r.width ≠ -1 ∧ r.height ≠ -1
  | .drawMaskedTexture sel _ _ _ _ _ => sel
  | .createTexture c dib resourcePtr => (GdiOp.createTexture c dib.height resourcePtr).Works s.rd
  | .createTextureMask c texPtr _ resourcePtr =>
    (GdiOp.createTextureMask c texPtr resourcePtr).Works s.rd ∧ c.selTex ∧ c.selMem
  | .deleteResource c a => (GdiOp.deleteResource c a).Works s.rd
  | .resize c clAreaSize _ => (GdiOp.resize c clAreaSize).Works s.rd

section Code

variable (deploy : Bool) (stretch : Stretch)

def ScreenOp.apply (s : Screen) : ScreenOp → NkErrorCode × Screen
  | .beginDraw => Gdi.beginDraw deploy s
  | .endDraw blt => Gdi.endDraw blt s
  | .drawTexture sel dstRect texPtr srcRect => Gdi.drawTexture stretch sel dstRect texPtr srcRect s
  | .drawMaskedTexture sel dstRect texPtr srcOff maskPtr maskOff =>
    Gdi.drawMaskedTexture sel dstRect texPtr srcOff maskPtr maskOff s
  | .createTexture c dib resourcePtr => screenCreateTexture c dib resourcePtr s
  | .createTextureMask c texPtr colKey resourcePtr => screenCreateTextureMask c texPtr colKey resourcePtr s
  | .deleteResource c a => screenDeleteResource c a s
  | .resize c clAreaSize fresh => screenResize c clAreaSize fresh s

def screenStep (s : Screen) (o : ScreenOp) : Option (NkErrorCode × Screen) :=
  if o.Legal s then some (o.apply deploy stretch s) else none

end Code

/-! ## The canvas -/

/-- what a renderer is for: pictures of the resources, a back buffer and a window -/
structure Canvas where
  geometry : Geometry
  back : ℤ × ℤ → Option ColorRef
  wnd : ℤ × ℤ → Option ColorRef
  pic : ℕ → Bitmap

/-- the mask of a picture: black where the picture has the key colour or nothing, else white -/
def maskOf (colKey : ColorRef) (tex : Bitmap) : Bitmap where
  width := tex.width
  height := tex.height
  isMono := true
  pixels := fun p =>
    if (Area.ofSize 0 0 tex.width tex.height).Has p then
      some ((tex.pixels p).elim black fun c => if c = colKey then black else white)
    else none

/-- a layer is painted on the back buffer -/
def Canvas.onBack (m : Canvas) (l : ℤ × ℤ → Option ColorRef) : Canvas := { m with back := paint l m.back }

/-- a resource is created with a picture, or there is an error and nothing is changed -/
def CreateSpec (m : Canvas) (picture : Bitmap) (resourcePtr : Option ℕ) (errCode : NkErrorCode) (m' : Canvas) : Prop :=
  errCode = .ok ∧ (∃ a, (∀ x ∈ resourcePtr, x = a) ∧ m' = { m with pic := Function.update m.pic a picture }) ∨
    errCode ≠ .ok ∧ m' = m

/-! ### What the calls are for -/

/-- the corner of the viewport -/
def origin (g : Geometry) : ℤ × ℤ := (longOf g.vpOri.xCoord.toUInt64, longOf g.vpOri.yCoord.toUInt64)

/-- the point of the viewport that a pixel is -/
def viewportPoint (g : Geometry) (p : ℤ × ℤ) : ℤ × ℤ := (p.1 - (origin g).1, p.2 - (origin g).2)

/-- whole pixels, rounded towards zero -/
def whole (q : ℚ) : ℤ := if 0 ≤ q then ⌊q⌋ else ⌈q⌉

/-- a point is in a rectangle -/
def NkRectF.Has (r : NkRectF) (q : ℤ × ℤ) : Prop :=
  (whole r.xCoord ≤ q.1 ∧ q.1 < whole r.xCoord + whole r.width) ∧
    whole r.yCoord ≤ q.2 ∧ q.2 < whole r.yCoord + whole r.height

/-- the place in a picture that belongs at the point `q`, if the picture is at the corner of `dst` from `(x, y)` on -/
def texelAt (dst : NkRectF) (x y : ℚ) (q : ℤ × ℤ) : ℤ × ℤ :=
  (whole x + (q.1 - whole dst.xCoord), whole y + (q.2 - whole dst.yCoord))

/-- the part of a picture that a source rectangle names: all of it, the rectangle, or all that is right of its corner and
below -/
def partOf (tex : Bitmap) : Option NkRectF → NkRectF
  | none => ⟨0, 0, tex.width, tex.height⟩
  | some r => if r.width = -1 ∧ r.height = -1 then ⟨r.xCoord, r.yCoord, tex.width - r.xCoord, tex.height - r.yCoord⟩ else r

/-- a picture after something was drawn over it: `shown p c` says that `c` is drawn at `p` -/
structure DrawnOver (old : ℤ × ℤ → Option ColorRef) (shown : ℤ × ℤ → ColorRef → Prop) (new : ℤ × ℤ → Option ColorRef) :
    Prop where
  drawn : ∀ p c, old p ≠ none → shown p c → new p = some c
  kept : ∀ p, (∀ c, ¬ shown p c) → new p = old p
  outside : ∀ p, old p = none → new p = none

section Spec

variable (deploy : Bool) (stretch : Stretch) (clearCol : ColorRef)

/-- the colours of a frame that has nothing in it -/
def ShownEmpty (g : Geometry) (p : ℤ × ℤ) (c : ColorRef) : Prop :=
  if ¬ deploy ∧ g.viewportArea.Has p then c = white else g.clientArea.Has p ∧ c = clearCol

/-- the colours of a texture: those of the part that is drawn, or, if that is of another size, what Windows makes of it -/
def ShownTexture (g : Geometry) (dst : NkRectF) (tex : Bitmap) (src : NkRectF) (p : ℤ × ℤ) (c : ColorRef) : Prop :=
  if src.width = dst.width ∧ src.height = dst.height then
    dst.Has (viewportPoint g p) ∧ tex.pixels (texelAt dst src.xCoord src.yCoord (viewportPoint g p)) = some c
  else
    stretch
      (Area.ofSize (whole dst.xCoord + (origin g).1) (whole dst.yCoord + (origin g).2) (whole dst.width) (whole dst.height))
      (Area.ofSize (whole src.xCoord) (whole src.yCoord) (whole src.width) (whole src.height)) tex.pixels p = some c

/-- the colours of a texture where the mask is white -/
def ShownMasked (g : Geometry) (dst : NkRectF) (tex : Bitmap) (srcOff : NkVec2F) (mask : Bitmap) (maskOff : NkVec2F)
    (p : ℤ × ℤ) (c : ColorRef) : Prop :=
  dst.Has (viewportPoint g p) ∧ mask.pixels (texelAt dst maskOff.xVal maskOff.yVal (viewportPoint g p)) = some white ∧
    tex.pixels (texelAt dst srcOff.xVal srcOff.yVal (viewportPoint g p)) = some c

/-- what a call may do to a canvas -/
def CanvasSpec (m : Canvas) : ScreenOp → NkErrorCode → Canvas → Prop
  | .beginDraw, errCode, m' =>
    errCode = .ok ∧ ∃ back, m' = { m with back := back } ∧ DrawnOver m.back (ShownEmpty deploy clearCol m.geometry) back
  | .endDraw _, errCode, m' =>
    errCode = .ok ∧ ∃ wnd, m' = { m with wnd := wnd } ∧
      DrawnOver m.wnd (fun p c => m.geometry.clientArea.Has p ∧ m.back p = some c) wnd
  | .drawTexture _ dstRect texPtr srcRect, errCode, m' =>
    errCode = .ok ∧ ∃ back, m' = { m with back := back } ∧ DrawnOver m.back
      (ShownTexture stretch m.geometry dstRect (m.pic texPtr) (partOf (m.pic texPtr) srcRect)) back
  | .drawMaskedTexture _ dstRect texPtr srcOff maskPtr maskOff, errCode, m' =>
    errCode = .ok ∧ ∃ back, m' = { m with back := back } ∧ DrawnOver m.back
      (ShownMasked m.geometry dstRect (m.pic texPtr) srcOff (m.pic maskPtr) maskOff) back
  | .createTexture _ dib resourcePtr, errCode, m' => CreateSpec m dib resourcePtr errCode m'
  | .createTextureMask _ texPtr colKey resourcePtr, errCode, m' =>
    CreateSpec m (maskOf (rgb colKey) (m.pic texPtr)) resourcePtr errCode m'
  | .deleteResource _ _, errCode, m' => errCode = .ok ∧ m' = m
  | .resize _ clAreaSize fresh, errCode, m' =>
    let g := m.geometry
    errCode = .ok ∧ m' = { m with
      back := fresh
      geometry := { g with
        bbDim := clAreaSize
        vpOri := calculateViewportOrigin g.vpAlignment g.vpExtents g.dispTileSize clAreaSize } }

end Spec

/-- the renderer shows what is on the canvas -/
structure Shows (ext : ℕ) (s : Screen) (m : Canvas) : Prop where
  inv : GdiInv ext [] s.rd
  geometry : m.geometry = s.rd.geometry
  back : m.back = (s.bits s.rd.memSel).pixels
  wnd : m.wnd = s.wnd
  pics : ∀ a ∈ s.rd.live, m.pic a = s.bits (s.rd.res a).resHandle
  colours : ∀ a ∈ s.rd.live, (s.rd.res a).resType = .texture → (m.pic a).isMono = false

/-- a source rectangle that asks for all of a texture from a corner on is larger than what is there, so that the call scales
what is drawn unless the destination is too large as well -/
theorem normSrcRect_beyond (tInfo : Bitmap) {r : NkRectF} (hw : r.width = -1) {dstRect : NkRectF}
    (hx : 0 ≤ r.xCoord) (hfits : r.xCoord + dstRect.width ≤ tInfo.width) :
    tInfo.width < r.xCoord + (normSrcRect tInfo (some r)).width ∧
      compareRectangles (normSrcRect tInfo (some r)) dstRect = false := by
  have hnorm : (normSrcRect tInfo (some r)).width = tInfo.width + 1 := by
    simp [normSrcRect, hw]
  have hne : (normSrcRect tInfo (some r)).width ≠ dstRect.width := by
    intro heq
    linarith
  exact ⟨by linarith, by simp [compareRectangles, hne]⟩

/-! ## Layers and what they show -/

section Shown

variable {old l : ℤ × ℤ → Option ColorRef} {shown : ℤ × ℤ → ColorRef → Prop}

/-- a layer with the colours that are to be shown -/
theorem drawnOver_paint (h : ∀ p c, l p = some c ↔ shown p c) : DrawnOver old shown (paint l old) where
  drawn _ _ hin hc := paint_some ((h _ _).2 hc) hin
  kept p hno := paint_none (Option.eq_none_iff_forall_ne_some.2 fun c hc => hno c ((h p c).1 hc))
  outside p hout := by rw [paint, hout, Option.map_none]

theorem cInt_eq_whole (q : ℚ) : cInt q = whole q := by
  unfold cInt whole
  split_ifs with hq
  · rw [Rat.floor_def', Int.tdiv_eq_ediv_of_nonneg (Rat.num_nonneg.2 hq)]
  · have hnum : 0 ≤ -q.num := by
      have := Rat.num_neg.2 (not_le.1 hq)
      omega
    calc q.num.tdiv q.den = -(-q.num).tdiv q.den := by rw [Int.neg_tdiv, neg_neg]
      _ = -⌊-q⌋ := by rw [Int.tdiv_eq_ediv_of_nonneg hnum, Rat.floor_def', Rat.neg_num, Rat.neg_den]
      _ = ⌈q⌉ := by rw [Int.floor_neg, neg_neg]

/-- the pixels of the destination are those whose points are in the rectangle -/
theorem dstArea_has (g : Geometry) (dst : NkRectF) (p : ℤ × ℤ) : (g.dstArea dst).Has p ↔ dst.Has (viewportPoint g p) := by
  simp only [Geometry.dstArea, Area.Has, Area.ofSize, NkRectF.Has, viewportPoint, origin, cInt_eq_whole]
  omega

/-- what is copied into the destination belongs where it comes to be -/
theorem copy_dstArea {g : Geometry} {dst : NkRectF} {x y : ℚ} {p : ℤ × ℤ} {c : ColorRef} :
    copy (g.dstArea dst) l (cInt x) (cInt y) p = some c ↔
      dst.Has (viewportPoint g p) ∧ l (texelAt dst x y (viewportPoint g p)) = some c := by
  have hplace : (cInt x + (p.1 - (g.dstArea dst).left), cInt y + (p.2 - (g.dstArea dst).top)) =
      texelAt dst x y (viewportPoint g p) := by
    simp only [Geometry.dstArea, Area.ofSize, texelAt, viewportPoint, origin, cInt_eq_whole]
    refine Prod.ext ?_ ?_ <;> dsimp only <;> omega
  rw [copy_eq_some, dstArea_has, hplace]

theorem textureLayer_eq_some {stretch : Stretch} {g : Geometry} {dst src : NkRectF} {tex : Bitmap} {p : ℤ × ℤ}
    {c : ColorRef} : textureLayer stretch g dst src tex.pixels p = some c ↔ ShownTexture stretch g dst tex src p c := by
  unfold textureLayer ShownTexture
  by_cases hsize : src.width = dst.width ∧ src.height = dst.height
  · rw [if_pos (by simpa [compareRectangles] using hsize), if_pos hsize, copy_dstArea]
  · rw [if_neg (by simpa [compareRectangles] using hsize), if_neg hsize]
    simp only [Geometry.dstArea, cInt_eq_whole, origin]

theorem maskedLayer_eq_some {g : Geometry} {dst : NkRectF} {tex mask : Bitmap} {srcOff maskOff : NkVec2F} {p : ℤ × ℤ}
    {c : ColorRef} : maskedLayer g dst tex.pixels srcOff mask.pixels maskOff p = some c ↔
      ShownMasked g dst tex srcOff mask maskOff p c := by
  unfold maskedLayer cut ShownMasked
  rw [← and_assoc, ← copy_dstArea]
  split_ifs with hmask
  · rw [copy_dstArea, and_iff_right hmask, and_iff_right (copy_dstArea.1 hmask).1]
  · simp [hmask]

/-- a source rectangle with a size of its own is taken as it is -/
theorem normSrcRect_eq (tInfo : Bitmap) {srcRect : Option NkRectF} (h : ∀ r ∈ srcRect, r.width ≠ -1 ∧ r.height ≠ -1) :
    normSrcRect tInfo srcRect = partOf tInfo srcRect := by
  cases srcRect with
  | none => rfl
  | some r =>
    have hr := h r rfl
    rw [normSrcRect, partOf, if_neg fun hor => hor.elim hr.1 hr.2, if_neg fun hand => hr.1 hand.1]

/-- the white of the viewport in front of the clear colour -/
theorem background_eq_some {deploy : Bool} {clearCol : ColorRef} {g : Geometry} {p : ℤ × ℤ} {c : ColorRef} :
    (if deploy then fill g.clientArea clearCol
      else atop (fill g.viewportArea white) (fill g.clientArea clearCol)) p = some c ↔
        ShownEmpty deploy clearCol g p c := by
  unfold ShownEmpty
  cases deploy with
  | true => simp [fill_eq_some]
  | false =>
    by_cases hin : g.viewportArea.Has p
    · simp [atop, fill, hin, eq_comm]
    · simp [atop, fill, hin, eq_comm]

end Shown

/-! ## The renderer's state after a call -/

section State

variable {s t u : GdiRenderer} {ext a b : ℕ} {resType : NkRendererResourceType}

/-- nothing that pictures depend on is changed -/
structure SamePictures (s t : GdiRenderer) : Prop where
  geometry : t.geometry = s.geometry
  memSel : t.memSel = s.memSel
  res : t.res = s.res
  live : t.live = s.live

/-- the resource at `a` is new or gets a new bitmap -/
structure Placed (s t : GdiRenderer) (a : ℕ) (resType : NkRendererResourceType) (b : ℕ) : Prop where
  geometry : t.geometry = s.geometry
  memSel : t.memSel = s.memSel
  res : t.res = Function.update s.res a ⟨resType, b, 0⟩
  live : ∀ x ∈ t.live, x = a ∨ x ∈ s.live

theorem replaceResource_placed (h : GdiInv ext [b] s) (hext : 0 < ext) (c : DeleteCalls) (ha : a ∈ s.live) :
    Placed s (replaceResource c a resType b s) a resType b := by
  unfold replaceResource
  rw [internalDeleteResource_eq h hext c ha]
  exact ⟨rfl, rfl, rfl, fun _ hx => Or.inr hx⟩

theorem addResource_placed (s : GdiRenderer) (a : ℕ) (resType : NkRendererResourceType) (b : ℕ) :
    Placed s (addResource a resType b s) a resType b :=
  ⟨rfl, rfl, rfl, fun _ hx => List.mem_cons.1 hx⟩

/-- a resource is placed as it would be in front of what changed no picture -/
theorem Placed.of_same (h : Placed u t a resType b) (hsame : SamePictures s u) : Placed s t a resType b :=
  ⟨h.geometry.trans hsame.geometry, h.memSel.trans hsame.memSel, by rw [h.res, hsame.res],
    fun x hx => (h.live x hx).imp_right fun hold => hsame.live ▸ hold⟩

/-- a call that creates a resource either places it or changes no picture -/
def Creates (s : GdiRenderer) (bmp : Option ℕ) (resType : NkRendererResourceType) (resourcePtr : Option ℕ)
    (errCode : NkErrorCode) (t : GdiRenderer) : Prop :=
  errCode = .ok ∧ (∃ b ∈ bmp, ∃ a, (∀ x ∈ resourcePtr, x = a) ∧ Placed s t a resType b) ∨ errCode ≠ .ok ∧ SamePictures s t

theorem createTexture_creates (h : GdiInv ext [] s) (hext : 0 < ext) {c : TextureCalls} {bmpHeight : ℤ}
    {resourcePtr : Option ℕ} (hl : (GdiOp.createTexture c bmpHeight resourcePtr).Legal s) :
    Creates s c.ddTex .texture resourcePtr (createTexture c bmpHeight resourcePtr s).1
      (createTexture c bmpHeight resourcePtr s).2.2 := by
  obtain ⟨hfresh, hptr⟩ := hl
  unfold createTexture
  cases htex : c.ddTex with
  | none => exact Or.inr ⟨NkErrorCode.noConfusion, rfl, rfl, rfl, rfl⟩
  | some ddTex =>
    have hbmp := h.createBitmap (hfresh ddTex htex)
    have hsame : SamePictures s (s.createBitmap ddTex) := ⟨rfl, rfl, rfl, rfl⟩
    by_cases hlines : c.cLinesCopied = bmpHeight
    · simp only [hlines, ne_eq, not_true_eq_false, if_false]
      cases resourcePtr with
      | some a =>
        have hplaced : Placed _ (replaceResource c.old a .texture ddTex (s.createBitmap ddTex)) a .texture ddTex :=
          replaceResource_placed hbmp hext c.old hptr
        exact Or.inl ⟨rfl, ddTex, rfl, a, fun x hx => (Option.some.inj hx).symm, hplaced.of_same hsame⟩
      | none =>
        by_cases halloc : c.alloc.1 = .ok
        · simp only [appropriateResource, halloc, ne_eq, not_true_eq_false, if_false]
          have hplaced := addResource_placed (s.createBitmap ddTex) c.alloc.2 .texture ddTex
          exact Or.inl ⟨rfl, ddTex, rfl, c.alloc.2, by simp, hplaced.of_same hsame⟩
        · simp only [appropriateResource, halloc, ne_eq, not_false_eq_true, if_true]
          exact Or.inr ⟨halloc, rfl, rfl, rfl, rfl⟩
    · simp only [hlines, ne_eq, not_false_eq_true, if_true]
      exact Or.inr ⟨NkErrorCode.noConfusion, rfl, rfl, rfl, rfl⟩

theorem createTextureMask_creates (h : GdiInv ext [] s) (hext : 0 < ext) {c : MaskCalls} {texPtr : ℕ}
    {resourcePtr : Option ℕ} (hl : (GdiOp.createTextureMask c texPtr resourcePtr).Legal s)
    (hrest : c.monoBmp ≠ none → c.selMem → c.restMem) :
    Creates s c.monoBmp .textureMask resourcePtr (createTextureMask c texPtr resourcePtr s).1
      (createTextureMask c texPtr resourcePtr s).2.2 := by
  obtain ⟨hfresh, hptr, htex, -⟩ := hl
  cases hmono : c.monoBmp with
  | none =>
    unfold createTextureMask
    rw [hmono]
    exact Or.inr ⟨NkErrorCode.noConfusion, rfl, rfl, rfl, rfl⟩
  | some b =>
    have hbmp := h.createBitmap (hfresh b hmono)
    have hrest := hrest (hmono.trans_ne (Option.some_ne_none b))
    have hblit : GdiInv ext [b] (blitMask c (s.res texPtr).resHandle b (s.createBitmap b)) := hbmp.blitMask htex hrest
    have hsame : SamePictures s (blitMask c (s.res texPtr).resHandle b (s.createBitmap b)) := by
      refine ⟨rfl, ?_, rfl, rfl⟩
      rw [blitMask_memSel, if_neg fun hall => hall.2 (hrest hall.1)]
      rfl
    rw [createTextureMask_some hmono]
    cases resourcePtr with
    | some a =>
      have hplaced : Placed _ (replaceResource c.old a .textureMask b _) a .textureMask b :=
        replaceResource_placed hblit hext c.old hptr
      exact Or.inl ⟨rfl, b, rfl, a, fun x hx => (Option.some.inj hx).symm, hplaced.of_same hsame⟩
    | none =>
      by_cases halloc : c.alloc.1 = .ok
      · simp only [halloc, if_true]
        have hplaced :=
          addResource_placed (blitMask c (s.res texPtr).resHandle b (s.createBitmap b)) c.alloc.2 .textureMask b
        exact Or.inl ⟨rfl, b, rfl, c.alloc.2, by simp, hplaced.of_same hsame⟩
      · simp only [halloc, if_false]
        exact Or.inr ⟨halloc, hsame⟩

theorem deleteResource_same (h : GdiInv ext [] s) (hext : 0 < ext) (c : DeleteCalls) (ha : a ∈ s.live) :
    (deleteResource c a s).2.geometry = s.geometry ∧ (deleteResource c a s).2.memSel = s.memSel ∧
      (deleteResource c a s).2.res = s.res ∧ ∀ x ∈ (deleteResource c a s).2.live, x ∈ s.live := by
  unfold deleteResource
  rw [internalDeleteResource_eq h hext c ha]
  exact ⟨rfl, rfl, rfl, fun _ hx => List.mem_of_mem_erase hx⟩

/-- a new back buffer: the viewport is where it belongs in it -/
theorem resize_pictures (h : GdiInv ext [] s) {c : ResizeCalls} (hbmp : c.memBmp = some b) (hsel : c.selNew = true)
    (clAreaSize : NkSize2D) :
    (resize c clAreaSize s).1 = .ok ∧ (resize c clAreaSize s).2.geometry = { s.geometry with
        bbDim := clAreaSize
        vpOri := calculateViewportOrigin s.vpAlignment s.vpExtents s.dispTileSize clAreaSize } ∧
      (resize c clAreaSize s).2.memSel = b ∧ (resize c clAreaSize s).2.res = s.res ∧
      (resize c clAreaSize s).2.live = s.live := by
  unfold resize
  rw [hbmp, dropBackBuffer_eq h, hsel]
  exact ⟨rfl, rfl, rfl, rfl, rfl⟩

/-- binding a texture that is live is all that a draw call does to the renderer -/
theorem GdiInv.bind (h : GdiInv ext [] s) (ha : a ∈ s.live) : GdiInv ext [] (s.bind true (s.res a).resHandle) := by
  unfold GdiRenderer.bind
  split_ifs
  · exact { h with bound := Or.inr (mem_handles ha) }
  · exact h

theorem bind_texSel (s : GdiRenderer) (resHandle : ℕ) : (s.bind true resHandle).texSel = resHandle := by
  unfold GdiRenderer.bind
  split_ifs with hne
  · rfl
  · exact not_not.1 hne

theorem bind_same (sel : Bool) (resHandle : ℕ) (s : GdiRenderer) : SamePictures s (s.bind sel resHandle) := by
  unfold GdiRenderer.bind
  split_ifs <;> exact ⟨rfl, rfl, rfl, rfl⟩

end State

/-! ## One call -/

section Calls

variable {deploy : Bool} {stretch : Stretch} {clearCol : ColorRef} {ext : ℕ} {s s' : Screen} {m : Canvas}
  {errCode : NkErrorCode}

/-- drawing with `memDC` is painting on the back buffer -/
theorem Shows.draw (h : Shows ext s m) (l : ℤ × ℤ → Option ColorRef) : Shows ext (s.draw l) (m.onBack l) where
  inv := h.inv
  geometry := h.geometry
  back := by
    simp only [Canvas.onBack, Screen.draw, h.back, Function.update_self]
  wnd := h.wnd
  pics := fun a ha => by
    have hne : (s.rd.res a).resHandle ≠ s.rd.memSel := fun heq => h.inv.apart.1 (heq ▸ mem_handles ha)
    simp only [Screen.draw, Function.update_of_ne hne]
    exact h.pics a ha
  colours := h.colours

theorem Shows.bind (h : Shows ext s m) {texPtr : ℕ} (htex : texPtr ∈ s.rd.live) :
    Shows ext { s with rd := s.rd.bind true (s.rd.res texPtr).resHandle } m := by
  have hsame := bind_same true (s.rd.res texPtr).resHandle s.rd
  refine ⟨h.inv.bind htex, h.geometry.trans hsame.geometry.symm, ?_, h.wnd, fun a ha => ?_, fun a ha hty => ?_⟩
  · simp only [hsame.memSel]
    exact h.back
  · simp only [hsame.live, hsame.res] at ha ⊢
    exact h.pics a ha
  · simp only [hsame.live, hsame.res] at ha hty
    exact h.colours a ha hty

theorem Shows.beginDraw (h : Shows ext s m) (deploy : Bool) : Shows ext (Gdi.beginDraw deploy s).2
    (let m := m.onBack (fill m.geometry.clientArea s.clearCol)
     if deploy then m else m.onBack (fill m.geometry.viewportArea white)) := by
  have hclear := h.draw (fill s.rd.geometry.clientArea s.clearCol)
  have hgeo : (m.onBack (fill s.rd.geometry.clientArea s.clearCol)).geometry = s.rd.geometry := h.geometry
  simp only [h.geometry, hgeo]
  cases deploy with
  | true => exact hclear
  | false => exact hclear.draw _

theorem beginDraw_clearCol (deploy : Bool) (s : Screen) : (Gdi.beginDraw deploy s).2.clearCol = s.clearCol := by
  cases deploy <;> rfl

theorem Shows.endDraw (h : Shows ext s m) : Shows ext (Gdi.endDraw true s).2
    { m with wnd := paint (copy m.geometry.clientArea m.back 0 0) m.wnd } := by
  refine ⟨h.inv, h.geometry, h.back, ?_, h.pics, h.colours⟩
  simp only [Gdi.endDraw, if_true, h.geometry, h.back, h.wnd]

theorem Shows.drawTexture (h : Shows ext s m) (stretch : Stretch) (dstRect : NkRectF) {texPtr : ℕ}
    (htex : texPtr ∈ s.rd.live) (srcRect : Option NkRectF) :
    Shows ext (Gdi.drawTexture stretch true dstRect texPtr srcRect s).2
      (m.onBack (textureLayer stretch m.geometry dstRect (normSrcRect (m.pic texPtr) srcRect) (m.pic texPtr).pixels)) := by
  have hdraw := (h.bind htex).draw
    (textureLayer stretch m.geometry dstRect (normSrcRect (m.pic texPtr) srcRect) (m.pic texPtr).pixels)
  simp only [Gdi.drawTexture, bind_texSel, (bind_same _ _ _).geometry, ← h.geometry, ← h.pics texPtr htex]
  exact hdraw

theorem Shows.drawMaskedTexture (h : Shows ext s m) (dstRect : NkRectF) {texPtr : ℕ} (htex : texPtr ∈ s.rd.live)
    (srcOff : NkVec2F) {maskPtr : ℕ} (hmask : maskPtr ∈ s.rd.live) (maskOff : NkVec2F) :
    Shows ext (Gdi.drawMaskedTexture true dstRect texPtr srcOff maskPtr maskOff s).2
      (m.onBack (maskedLayer m.geometry dstRect (m.pic texPtr).pixels srcOff (m.pic maskPtr).pixels maskOff)) := by
  have hdraw := (h.bind htex).draw
    (maskedLayer m.geometry dstRect (m.pic texPtr).pixels srcOff (m.pic maskPtr).pixels maskOff)
  simp only [Gdi.drawMaskedTexture, bind_texSel, (bind_same _ _ _).geometry, (bind_same _ _ _).res, ← h.geometry,
    ← h.pics texPtr htex, ← h.pics maskPtr hmask]
  exact hdraw

/-- `BitBlt` with `NOTSRCCOPY` from colours to black and white -/
theorem blitted_eq (colKey : ColorRef) (c : ColorRef) :
    notSrcCopy colKey false true c = if c = colKey then black else white := by
  unfold notSrcCopy
  by_cases hkey : c = colKey
  · rw [if_pos hkey, if_pos hkey]
    show (⟨~~~white.red, ~~~white.green, ~~~white.blue⟩ : ColorRef) = black
    decide
  · rw [if_neg hkey, if_neg hkey]
    show (⟨~~~black.red, ~~~black.green, ~~~black.blue⟩ : ColorRef) = white
    decide

/-- what is in the bitmaps after the blit of a mask: the mask is in the new one -/
theorem blitBits_eq {c : MaskCalls} (hselTex : c.selTex) (hselMem : c.selMem) {resHandle monoBmp : ℕ}
    (hne : resHandle ≠ monoBmp) (colKey : Bmp.RgbaColor) (hcolour : (s.bits resHandle).isMono = false) :
    blitBits c resHandle monoBmp colKey s =
      Function.update s.bits monoBmp (maskOf (rgb colKey) (s.bits resHandle)) := by
  unfold blitBits selectObject
  simp only [hselTex, hselMem, if_true, Function.update_self, Function.update_of_ne hne, hcolour, Function.update_idem]
  congr 1
  unfold maskOf
  congr 1
  funext p
  by_cases hin : (Area.ofSize 0 0 (s.bits resHandle).width (s.bits resHandle).height).Has p
  · have hself (l : ℤ × ℤ → Option ColorRef) :
        copy (Area.ofSize 0 0 (s.bits resHandle).width (s.bits resHandle).height) l 0 0 p = l p := copy_self hin
    rw [if_pos hin, paint, fill, if_pos hin, Option.map_some, hself]
    cases (s.bits resHandle).pixels p with
    | none => rfl
    | some c => simp [blitted_eq]
  · rw [if_neg hin, paint, fill, if_neg hin, Option.map_none]

/-- a call that creates a resource, with its picture in the new bitmap -/
theorem Shows.creates (h : Shows ext s m) {bmp : Option ℕ} {resType : NkRendererResourceType} {resourcePtr : Option ℕ}
    {t : GdiRenderer} (hcreates : Creates s.rd bmp resType resourcePtr errCode t) (hinv : GdiInv ext [] t)
    (hfresh : ∀ b ∈ bmp, s.rd.Fresh b) (picture : Bitmap) (hcolour : resType = .texture → picture.isMono = false) :
    ∃ m', CreateSpec m picture resourcePtr errCode m' ∧
      Shows ext { s with rd := t, bits := bmp.elim s.bits fun b => Function.update s.bits b picture } m' := by
  have hnew : ∀ b ∈ bmp, b ≠ s.rd.memSel ∧ b ∉ s.rd.handles := by
    intro b hb
    have hout := (hfresh b hb).1
    rw [h.inv.owned_eq, List.mem_cons, not_or] at hout
    exact hout
  rcases hcreates with ⟨hok, b, rfl, a, ha, hplaced⟩ | ⟨hne, hsame⟩
  · obtain ⟨hmem, hhandles⟩ := hnew b rfl
    refine ⟨_, Or.inl ⟨hok, a, ha, rfl⟩, hinv, h.geometry.trans hplaced.geometry.symm, ?_, h.wnd, ?_, ?_⟩
    · simp only [hplaced.memSel, Option.elim_some, Function.update_of_ne hmem.symm]
      exact h.back
    · intro x hx
      by_cases hxa : x = a
      · simp only [hxa, hplaced.res, Function.update_self, Option.elim_some]
      · have hlive : x ∈ s.rd.live := (hplaced.live x hx).resolve_left hxa
        have hother : (s.rd.res x).resHandle ≠ b := fun heq => hhandles (heq ▸ mem_handles hlive)
        simp only [hplaced.res, Function.update_of_ne hxa, Option.elim_some, Function.update_of_ne hother]
        exact h.pics x hlive
    · intro x hx hty
      by_cases hxa : x = a
      · simp only [hxa, hplaced.res, Function.update_self] at hty ⊢
        exact hcolour hty
      · have hlive : x ∈ s.rd.live := (hplaced.live x hx).resolve_left hxa
        simp only [hplaced.res, Function.update_of_ne hxa] at hty ⊢
        exact h.colours x hlive hty
  · -- the new bitmap, if there was one, is no resource's
    have hkeep : ∀ x, x = s.rd.memSel ∨ x ∈ s.rd.handles →
        (bmp.elim s.bits fun b => Function.update s.bits b picture) x = s.bits x := by
      intro x hx
      cases bmp with
      | none => rfl
      | some b =>
        obtain ⟨hmem, hhandles⟩ := hnew b rfl
        have hxb : x ≠ b := by
          rintro rfl
          exact hx.elim hmem hhandles
        exact Function.update_of_ne hxb _ _
    refine ⟨m, Or.inr ⟨hne, rfl⟩, hinv, h.geometry.trans hsame.geometry.symm, ?_, h.wnd, ?_, ?_⟩
    · simp only [hsame.memSel, hkeep _ (Or.inl rfl)]
      exact h.back
    · intro x hx
      simp only [hsame.live, hsame.res] at hx ⊢
      rw [hkeep _ (Or.inr (mem_handles hx))]
      exact h.pics x hx
    · intro x hx hty
      simp only [hsame.live, hsame.res] at hx hty
      exact h.colours x hx hty

theorem Shows.createTexture (h : Shows ext s m) (hext : 0 < ext) {c : TextureCalls} {dib : Bitmap}
    {resourcePtr : Option ℕ} (hl : (GdiOp.createTexture c dib.height resourcePtr).Legal s.rd) (hcolour : dib.isMono = false)
    (hworks : (GdiOp.createTexture c dib.height resourcePtr).Works s.rd) :
    ∃ m', CreateSpec m dib resourcePtr (screenCreateTexture c dib resourcePtr s).1 m' ∧
      Shows ext (screenCreateTexture c dib resourcePtr s).2 m' :=
  h.creates (createTexture_creates h.inv hext hl) ((createTexture_spec h.inv hext hl).inv hworks) hl.1 dib fun _ => hcolour

theorem Shows.createTextureMask (h : Shows ext s m) (hext : 0 < ext) {c : MaskCalls} {texPtr : ℕ} {colKey : Bmp.RgbaColor}
    {resourcePtr : Option ℕ} (hl : (GdiOp.createTextureMask c texPtr resourcePtr).Legal s.rd)
    (hgdi : (GdiOp.createTextureMask c texPtr resourcePtr).Works s.rd) (hselTex : c.selTex) (hselMem : c.selMem) :
    ∃ m', CreateSpec m (maskOf (rgb colKey) (m.pic texPtr)) resourcePtr
        (screenCreateTextureMask c texPtr colKey resourcePtr s).1 m' ∧
      Shows ext (screenCreateTextureMask c texPtr colKey resourcePtr s).2 m' := by
  have hinv := (createTextureMask_spec h.inv hext hl).inv hgdi
  have hcreates := createTextureMask_creates h.inv hext hl fun hmono => (hgdi hmono).2.1
  obtain ⟨hfresh, -, htex, hty⟩ := hl
  obtain ⟨m', hspec, hnew⟩ := h.creates hcreates hinv hfresh (maskOf (rgb colKey) (m.pic texPtr)) fun hno => nomatch hno
  have hbits : (c.monoBmp.elim s.bits fun b => blitBits c (s.rd.res texPtr).resHandle b colKey s) =
      c.monoBmp.elim s.bits fun b => Function.update s.bits b (maskOf (rgb colKey) (m.pic texPtr)) := by
    cases hmono : c.monoBmp with
    | none => rfl
    | some b =>
      have hne : (s.rd.res texPtr).resHandle ≠ b := by
        rintro rfl
        exact (hfresh _ hmono).1 (List.mem_append_right _ (mem_handles htex))
      have hcolour := h.colours texPtr htex hty
      rw [h.pics texPtr htex] at hcolour ⊢
      exact blitBits_eq hselTex hselMem hne colKey hcolour
  refine ⟨m', hspec, ?_⟩
  simp only [screenCreateTextureMask, hbits]
  exact hnew

theorem Shows.deleteResource (h : Shows ext s m) (hext : 0 < ext) {c : DeleteCalls} {a : ℕ}
    (hl : (GdiOp.deleteResource c a).Legal s.rd) (hworks : (GdiOp.deleteResource c a).Works s.rd) :
    Shows ext (screenDeleteResource c a s).2 m := by
  have hcall := @deleteResource_spec _ _ a h.inv hext c hl
  obtain ⟨hgeo, hmem, hres, hlive⟩ := deleteResource_same h.inv hext c hl
  refine ⟨hcall.inv hworks, h.geometry.trans hgeo.symm, ?_, h.wnd, fun x hx => ?_, fun x hx hty => ?_⟩
  · simp only [screenDeleteResource, hmem]
    exact h.back
  · simp only [screenDeleteResource, hres]
    exact h.pics x (hlive x hx)
  · simp only [screenDeleteResource, hres] at hty
    exact h.colours x (hlive x hx) hty

theorem Shows.resize (h : Shows ext s m) {c : ResizeCalls} {clAreaSize : NkSize2D} {fresh : ℤ × ℤ → Option ColorRef}
    (hl : (GdiOp.resize c clAreaSize).Legal s.rd) (hworks : (GdiOp.resize c clAreaSize).Works s.rd) :
    (screenResize c clAreaSize fresh s).1 = .ok ∧ Shows ext (screenResize c clAreaSize fresh s).2 { m with
      back := fresh
      geometry := { m.geometry with
        bbDim := clAreaSize
        vpOri := calculateViewportOrigin m.geometry.vpAlignment m.geometry.vpExtents m.geometry.dispTileSize
          clAreaSize } } := by
  obtain ⟨b, hbmp⟩ := Option.ne_none_iff_exists'.1 (show c.memBmp ≠ none from hworks.2.2.1)
  have hcall := resize_some h.inv hbmp (hl b hbmp) clAreaSize
  obtain ⟨hok, hgeo, hmem, hres, hlive⟩ := resize_pictures h.inv hbmp hworks.2.2.2.1 clAreaSize
  refine ⟨hok, hcall.inv hworks, ?_, ?_, h.wnd, fun x hx => ?_, fun x hx hty => ?_⟩
  · simp only [screenResize, hgeo, h.geometry]
    rfl
  · simp only [screenResize, hmem, hbmp, Option.elim_some, Function.update_self]
  · simp only [screenResize, hlive, hres, hbmp, Option.elim_some] at hx ⊢
    have hne : (s.rd.res x).resHandle ≠ b := by
      rintro rfl
      exact (hl _ hbmp).1 (List.mem_append_right _ (mem_handles hx))
    rw [Function.update_of_ne hne]
    exact h.pics x hx
  · simp only [screenResize, hlive, hres] at hx hty
    exact h.colours x hx hty

/-- one call on a canvas -/
theorem screenStep_spec (hext : 0 < ext) (s : Screen) (m : Canvas) (o : ScreenOp) (errCode : NkErrorCode) (s' : Screen)
    (h : Shows ext s m ∧ s.clearCol = clearCol) (hworks : o.Works s)
    (hs : screenStep deploy stretch s o = some (errCode, s')) :
    ∃ m', CanvasSpec deploy stretch clearCol m o errCode m' ∧ Shows ext s' m' ∧ s'.clearCol = clearCol := by
  obtain ⟨hshows, rfl⟩ := h
  unfold screenStep at hs
  split_ifs at hs with hl
  have happly : o.apply deploy stretch s = (errCode, s') := Option.some.inj hs
  cases o with
  | beginDraw =>
    cases happly
    refine ⟨_, ⟨rfl, _, ?_, drawnOver_paint fun p c => background_eq_some⟩, hshows.beginDraw deploy,
      beginDraw_clearCol deploy s⟩
    cases deploy with
    | true => rfl
    | false => exact congrArg (fun back => { m with back := back }) (paint_paint _ _ _)
  | endDraw blt =>
    obtain rfl : blt = true := hworks
    cases happly
    refine ⟨_, ⟨rfl, _, rfl, drawnOver_paint fun p c => ?_⟩, hshows.endDraw, rfl⟩
    by_cases hin : m.geometry.clientArea.Has p
    · rw [and_iff_right hin]
      exact Eq.congr_left (copy_self hin)
    · simp [copy_of_not_has hin, hin]
  | drawTexture sel dstRect texPtr srcRect =>
    obtain ⟨rfl, hsrc⟩ : sel = true ∧ ∀ r ∈ srcRect, r.width ≠ -1 ∧ r.height ≠ -1 := hworks
    cases happly
    refine ⟨_, ⟨rfl, _, rfl, drawnOver_paint fun p c => ?_⟩, hshows.drawTexture stretch dstRect hl.1 srcRect, rfl⟩
    rw [normSrcRect_eq _ hsrc]
    exact textureLayer_eq_some
  | drawMaskedTexture sel dstRect texPtr srcOff maskPtr maskOff =>
    obtain rfl : sel = true := hworks
    cases happly
    exact ⟨_, ⟨rfl, _, rfl, drawnOver_paint fun p c => maskedLayer_eq_some⟩,
      hshows.drawMaskedTexture dstRect hl.1.1 srcOff hl.2.1 maskOff, rfl⟩
  | createTexture c dib resourcePtr =>
    cases happly
    obtain ⟨m', hspec, hnew⟩ := hshows.createTexture hext hl.1 hl.2 hworks
    exact ⟨m', hspec, hnew, rfl⟩
  | createTextureMask c texPtr colKey resourcePtr =>
    cases happly
    obtain ⟨hgdi, hselTex, hselMem⟩ := hworks
    obtain ⟨m', hspec, hnew⟩ := hshows.createTextureMask hext hl hgdi hselTex hselMem
    exact ⟨m', hspec, hnew, rfl⟩
  | deleteResource c a =>
    cases happly
    exact ⟨m, ⟨rfl, rfl⟩, hshows.deleteResource hext hl hworks, rfl⟩
  | resize c clAreaSize fresh =>
    cases happly
    obtain ⟨hok, hnew⟩ := hshows.resize hl hworks
    exact ⟨_, ⟨hok, rfl⟩, hnew, rfl⟩

/-- **The renderer is a canvas.** In every run in which Windows does what it is asked to, each call paints what it says on
the back buffer or shows the back buffer in the window, with the pictures that the resources were made with, whatever
textures and masks are made, replaced and deleted in between. -/
theorem screen_refines (hext : 0 < ext) {ops : List ScreenOp} {codes : List NkErrorCode} (h : Shows ext s m)
    (hworks : AllOk (screenStep deploy stretch) (fun s o => o.Works s) s ops)
    (hrun : outputs (screenStep deploy stretch) s ops = some (codes, s')) :
    ∃ m', SpecRun (CanvasSpec deploy stretch s.clearCol) m ops codes m' ∧ Shows ext s' m' := by
  obtain ⟨m', hspec, hshows, -⟩ := simulated_run (screenStep_spec hext) ⟨h, rfl⟩ hworks hrun
  exact ⟨m', hspec, hshows⟩

end Calls

/-! ## A frame -/

/-- a renderer after `Initialize` whose bitmaps and window are black -/
def blackScreen : Screen where
  rd := initialized
  clearCol := black
  bits := fun _ => ⟨800, 600, false, fill ⟨0, 0, 800, 600⟩ black⟩
  wnd := fill ⟨0, 0, 800, 600⟩ black

def blackCanvas : Canvas where
  geometry := initialized.geometry
  back := fill ⟨0, 0, 800, 600⟩ black
  wnd := fill ⟨0, 0, 800, 600⟩ black
  pic := fun _ => ⟨800, 600, false, fill ⟨0, 0, 800, 600⟩ black⟩

theorem shows_black : Shows 1 blackScreen blackCanvas :=
  ⟨initialized_inv, rfl, rfl, rfl, fun _ hx => absurd hx List.not_mem_nil, fun _ hx => absurd hx List.not_mem_nil⟩

/-- a texture and its mask are made in a frame that draws both -/
def frameOps : List ScreenOp :=
  [.beginDraw,
    .createTexture ⟨some 4, 16, true, (.ok, 10), ⟨true, true⟩⟩ ⟨16, 16, false, fill ⟨0, 0, 16, 16⟩ white⟩ none,
    .drawTexture true ⟨0, 0, 16, 16⟩ 10 none,
    .createTextureMask ⟨some 5, true, true, true, true, (.ok, 11), ⟨true, true⟩⟩ 10 ⟨255, 0, 255, 0⟩ none,
    .drawMaskedTexture true ⟨32, 32, 16, 16⟩ 10 ⟨0, 0⟩ 11 ⟨0, 0⟩,
    .endDraw true]

theorem screen_refines_frame :
    ∃ codes s' m', outputs (screenStep false fun _ _ _ _ => none) blackScreen frameOps = some (codes, s') ∧
      SpecRun (CanvasSpec false (fun _ _ _ _ => none) black) blackCanvas frameOps codes m' ∧ Shows 1 s' m' := by
  have hworks : AllOk (screenStep false fun _ _ _ _ => none) (fun s o => o.Works s) blackScreen frameOps := by
    refine ⟨trivial, fun x hx => ?_⟩
    cases hx
    refine ⟨by simp [ScreenOp.Works, GdiOp.Works], fun x hx => ?_⟩
    cases hx
    refine ⟨⟨rfl, fun r hr => absurd hr (by simp)⟩, fun x hx => ?_⟩
    cases hx
    refine ⟨by simp [ScreenOp.Works, GdiOp.Works], fun x hx => ?_⟩
    cases hx
    refine ⟨rfl, fun x hx => ?_⟩
    cases hx
    exact ⟨rfl, fun x hx => trivial⟩
  obtain ⟨m', hspec, hshows⟩ := screen_refines Nat.one_pos shows_black hworks rfl
  exact ⟨_, _, m', rfl, hspec, hshows⟩

end Noriko.Gdi
