/-
Events and the window that sends them (`event.h`, `event.c`, `window.h`, `window.c`).

An event has a type, the categories of the type, and data that depends on the type. The time stamp is left out, and so is
the pointer to the window, of which there is one. Window modes and flags are sets of bits, as in the header.
-/
import Noriko.Input
import Noriko.Placement

namespace Noriko

/-! ## Events (`event.h`) -/

inductive NkEventType where
  | none | windowOpened | windowClosed | windowGotFocus | windowLostFocus | windowResized | windowMinimized
  | windowMaximized | windowRestored | windowMoved | windowFullscreen | windowShown | windowHidden | keyboardKeyDown
  | keyboardKeyUp | keyboardKeyRepeated | mouseButtonDown | mouseButtonUp | mouseMoved | mouseScrollUp | mouseScrollDown
deriving DecidableEq, Repr

structure NkWindowEvent where
  wndPos : NkPoint2D
  wndSize : NkSize2D
  totalWndSize : NkSize2D
  wndMode : ℕ
deriving DecidableEq, Repr

structure NkKeyboardEvent where
  pKeyCode : Int32
  vNtKeyCode : Int32
  vKeyCode : NkKeyboardKey
deriving DecidableEq, Repr

structure NkMouseEvent where
  curPos : NkPoint2D
  glCurPos : NkPoint2D
  mouseBtn : NkMouseButton
deriving DecidableEq, Repr

/-- the union of `NkEvent` -/
inductive EventData where
  | none
  | wndEvent (e : NkWindowEvent)
  | kbEvent (e : NkKeyboardEvent)
  | mouseEvent (e : NkMouseEvent)
deriving DecidableEq, Repr

structure NkEvent where
  evType : NkEventType
  evCat : ℕ
  data : EventData
deriving DecidableEq, Repr

namespace Window

/-! ## Dispatch (`event.c`) -/

def evCatWindow : ℕ := 2

def evCatInput : ℕ := 4

def evCatKeyboard : ℕ := 8

def evCatMouse : ℕ := 16

/-- the categories in `gl_c_EvTypeTbl` -/
def eventQueryCategories : NkEventType → ℕ
  | .none => 0
  | .windowOpened | .windowClosed | .windowGotFocus | .windowLostFocus | .windowResized | .windowMinimized
  | .windowMaximized | .windowRestored | .windowMoved | .windowFullscreen | .windowShown | .windowHidden => evCatWindow
  | .keyboardKeyDown | .keyboardKeyUp | .keyboardKeyRepeated => evCatInput ||| evCatKeyboard
  | .mouseButtonDown | .mouseButtonUp | .mouseMoved | .mouseScrollUp | .mouseScrollDown => evCatInput ||| evCatMouse

/-- `m_expectData` of `gl_c_EvTypeTbl` -/
def expectData (evType : NkEventType) : Bool := evType ≠ .none

/-- the event that `NkEventDispatch` passes to the layers; that its type is not `NkEv_None` is asserted, and shown for the
callers (`inputEvents_typed`, `exchanged_typed`) -/
def eventDispatch (evType : NkEventType) (data : EventData) : NkEvent :=
  ⟨evType, eventQueryCategories evType, if expectData evType then data else .none⟩

/-! ## Window modes and flags (`window.h`, `window.c`) -/

def modeMinimized : ℕ := 1

def modeMaximized : ℕ := 2

def modeFullscreen : ℕ := 4

def modeNormal : ℕ := 8

def modeVisible : ℕ := 16

def modeHidden : ℕ := 32

/-- `NkWndMode_All` -/
def modeAll : ℕ := modeMinimized ||| modeMaximized ||| modeFullscreen ||| modeNormal ||| modeVisible ||| modeHidden

def flagMessageOnlyWnd : ℕ := 1

def flagAlwaysOnTop : ℕ := 2

def flagMainWindow : ℕ := 4

def flagDragResizable : ℕ := 8

def flagDragMovable : ℕ := 16

/-- `NkWindowMapEventTypeFromWindowMode` -/
def mapEventTypeFromWindowMode (wndMode : ℕ) : NkEventType :=
  if wndMode = modeNormal then .windowRestored
  else if wndMode = modeMaximized then .windowMaximized
  else if wndMode = modeMinimized then .windowMinimized
  else if wndMode = modeFullscreen then .windowFullscreen
  else .none

/-- a bit of a set is one of its digits -/
theorem and_two_pow_iff (n i : ℕ) : n &&& 2 ^ i ≠ 0 ↔ n.testBit i = true := by
  constructor
  · intro h
    by_contra hbit
    refine h (Nat.eq_of_testBit_eq fun j => ?_)
    rw [Nat.testBit_and, Nat.testBit_two_pow, Nat.zero_testBit]
    by_cases hij : i = j
    · subst hij
      simpa using hbit
    · simp [hij]
  · intro h hzero
    have hbit := congrArg (Nat.testBit · i) hzero
    simp [h] at hbit

/-! ## The window (`winwindow.c`) -/

/-- `__NkInt_WindowsWindow`; `W` is what Windows knows of the window -/
structure WindowsWindow (W : Type) where
  nativeHandle : W
  lastMousePos : ℤ × ℤ
  allowedWndModes : ℕ
  currWndMode : ℕ
  wndFlags : ℕ

/-- the part of `__NkInt_WindowsWindow_Initialize` that sets the properties of a window that was created as `w` -/
def setProperties {W : Type} (w : W) (allowedWndModes wndFlags : ℕ) : WindowsWindow W :=
  ⟨w, (0, 0), allowedWndModes &&& (modeAll &&& (modeAll ^^^ modeFullscreen)), 0, wndFlags⟩

end Window

end Noriko
