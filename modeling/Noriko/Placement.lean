/-
Placement of the viewport in the client area of a window (`util.c`).

Sizes are unsigned and coordinates signed, both of 64 bits, and the C arithmetic wraps.
-/
import Noriko.Def

namespace Noriko

structure NkPoint2D where
  xCoord : Int64
  yCoord : Int64
deriving DecidableEq, Repr

structure NkSize2D where
  width : UInt64
  height : UInt64
deriving DecidableEq, Repr

/-! ## Viewport alignment (`window.h`) -/

def vpAlignTop : ℕ := 1

def vpAlignBottom : ℕ := 4

def vpAlignLeft : ℕ := 8

def vpAlignRight : ℕ := 32

/-- one coordinate of the origin; `near` and `far` are the bits for the two sides of the axis -/
def originCoord (near far vpAlign : ℕ) (vpExtPx clExtent : UInt64) : Int64 :=
  if vpAlign &&& near ≠ 0 then 0 else ((clExtent - vpExtPx) / (if vpAlign &&& far ≠ 0 then 1 else 2)).toInt64

/-- `NkCalculateViewportOrigin` -/
def calculateViewportOrigin (vpAlign : ℕ) (vpExtents tileSize clExtents : NkSize2D) : NkPoint2D :=
  ⟨originCoord vpAlignLeft vpAlignRight vpAlign (vpExtents.width * tileSize.width) clExtents.width,
    originCoord vpAlignTop vpAlignBottom vpAlign (vpExtents.height * tileSize.height) clExtents.height⟩

end Noriko
