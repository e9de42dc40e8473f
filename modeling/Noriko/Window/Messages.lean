/-
Input messages (`WM_KEY*`, `WM_*BUTTON*`, `WM_MOUSEMOVE` and `WM_MOUSEWHEEL` in `winwindow.c`).

The window procedure makes an event of an input message, unless the pointer did not move or the wheel did not turn. The
parameters of a message are taken apart as the source does it. Beside it stands what the messages are about: what a user
does (`Action`), how Windows documents the message for it (`encode`), and what the layers should be told of it.

- `input_iff`: for whatever the user does, the layers are told that and nothing else exactly if every action is `Told`. The
  wheel's position is taken for one in the window, a key that is held down with Alt is reported as pressed again, and a
  button is looked up by the set of buttons and keys that are held: the left and the right button are recognized when
  they are pressed alone, and the middle one when it is released while Shift is held.
- `moves_run`: the layers see the pointer where it went, every place once until it leaves it.
-/
import Noriko.Window.Event
import Mathlib.Data.List.Destutter

namespace Noriko.Window

open Input

variable {W : Type}

/-! ## The code -/

inductive MsgId where
  | keyDown | sysKeyDown | keyUp | sysKeyUp | lButtonDown | mButtonDown | rButtonDown | xButtonDown | lButtonUp | mButtonUp
  | rButtonUp | xButtonUp | mouseMove | mouseWheel
deriving DecidableEq, Repr

/-- a message; both parameters are given by their bits -/
structure Message where
  msgId : MsgId
  wParam : ℕ
  lParam : ℕ
deriving DecidableEq, Repr

/-- `__NkInt_WindowsWindow_MapFromNativeInputEvent` -/
def mapFromNativeInputEvent : MsgId → NkEventType
  | .keyDown | .sysKeyDown => .keyboardKeyDown
  | .keyUp | .sysKeyUp => .keyboardKeyUp
  | .lButtonDown | .mButtonDown | .rButtonDown | .xButtonDown => .mouseButtonDown
  | .lButtonUp | .mButtonUp | .rButtonUp | .xButtonUp => .mouseButtonUp
  | .mouseMove | .mouseWheel => .none

/-- `(short)LOWORD(n)` -/
def loShort (n : ℕ) : ℤ := (BitVec.ofNat 16 n).toInt

/-- `(short)HIWORD(n)` -/
def hiShort (n : ℕ) : ℤ := (BitVec.ofNat 16 (n >>> 16)).toInt

/-- `GET_X_LPARAM` and `GET_Y_LPARAM` -/
def pointOf (lParam : ℕ) : ℤ × ℤ := (loShort lParam, hiShort lParam)

def nkPoint (p : ℤ × ℤ) : NkPoint2D := ⟨Int64.ofInt p.1, Int64.ofInt p.2⟩

/-- `(int)n` -/
def toInt (n : ℕ) : ℤ := (BitVec.ofNat 32 n).toInt

-- where the client area of a window is on the screen
variable (origin : W → Int32 × Int32)

/-- `ClientToScreen` -/
def clientToScreen (o : Int32 × Int32) (p : ℤ × ℤ) : ℤ × ℤ := (p.1 + o.1.toInt, p.2 + o.2.toInt)

/-- the event of a key -/
def keyEvent (m : Message) : NkEvent :=
  let evType := if m.msgId = .keyDown ∧ m.lParam &&& (1 <<< 30) ≠ 0 then .keyboardKeyRepeated
    else mapFromNativeInputEvent m.msgId
  eventDispatch evType (.kbEvent
    ⟨Int32.ofInt (toInt (m.lParam &&& 0x00ff0000)), Int32.ofInt (toInt m.wParam), mapFromNativeKey (toInt m.wParam)⟩)

/-- the event of a message with a position -/
def mouseEvent (evType : NkEventType) (w : W) (lParam : ℕ) (mouseBtn : NkMouseButton) : NkEvent :=
  eventDispatch evType (.mouseEvent
    ⟨nkPoint (pointOf lParam), nkPoint (clientToScreen (origin w) (pointOf lParam)), mouseBtn⟩)

/-- what the window procedure does with an input message: the event, if any, and the window -/
def onInput (wnd : WindowsWindow W) (m : Message) : Option NkEvent × WindowsWindow W :=
  match m.msgId with
  | .keyDown | .sysKeyDown | .keyUp | .sysKeyUp => (some (keyEvent m), wnd)
  | .lButtonDown | .mButtonDown | .rButtonDown | .xButtonDown | .lButtonUp | .mButtonUp | .rButtonUp | .xButtonUp =>
    let ntBtn := m.wParam >>> (if m.msgId = .xButtonDown ∨ m.msgId = .xButtonUp then 16 else 0)
    (some (mouseEvent origin (mapFromNativeInputEvent m.msgId) wnd.nativeHandle m.lParam
      (mapFromNativeMouseButton (toInt ntBtn))), wnd)
  | .mouseMove =>
    if wnd.lastMousePos = pointOf m.lParam then (none, wnd)
    else (some (mouseEvent origin .mouseMoved wnd.nativeHandle m.lParam .unknown),
      { wnd with lastMousePos := pointOf m.lParam })
  | .mouseWheel =>
    if m.wParam >>> 16 = 0 then (none, wnd)
    else (some (mouseEvent origin (if hiShort m.wParam > 0 then .mouseScrollUp else .mouseScrollDown)
      wnd.nativeHandle m.lParam .unknown), wnd)

/-- the events of a run of messages -/
def inputEvents : WindowsWindow W → List Message → List NkEvent
  | _, [] => []
  | wnd, m :: ms => (onInput origin wnd m).1.toList ++ inputEvents (onInput origin wnd m).2 ms

/-! ## What a user does -/

/-- the buttons and keys that are held, as the flags of a mouse message -/
structure Held where
  left : Bool
  right : Bool
  shift : Bool
  control : Bool
  middle : Bool
  x1 : Bool
  x2 : Bool
deriving DecidableEq, Repr

/-- `MK_LBUTTON`, `MK_RBUTTON`, `MK_SHIFT`, `MK_CONTROL`, `MK_MBUTTON`, `MK_XBUTTON1` and `MK_XBUTTON2` -/
def Held.flags (h : Held) : ℕ :=
  h.left.toNat + 2 * h.right.toNat + 4 * h.shift.toNat + 8 * h.control.toNat + 16 * h.middle.toNat + 32 * h.x1.toNat +
    64 * h.x2.toNat

inductive Button where
  | left | right | middle | x1 | x2
deriving DecidableEq, Repr

def Held.set (h : Held) (down : Bool) : Button → Held
  | .left => { h with left := down }
  | .right => { h with right := down }
  | .middle => { h with middle := down }
  | .x1 => { h with x1 := down }
  | .x2 => { h with x2 := down }

def Button.nk : Button → NkMouseButton
  | .left => .leftButton
  | .right => .rightButton
  | .middle => .middleButton
  | .x1 => .button4
  | .x2 => .button5

def Button.msgId : Button → Bool → MsgId
  | .left, true => .lButtonDown
  | .left, false => .lButtonUp
  | .right, true => .rButtonDown
  | .right, false => .rButtonUp
  | .middle, true => .mButtonDown
  | .middle, false => .mButtonUp
  | .x1, true | .x2, true => .xButtonDown
  | .x1, false | .x2, false => .xButtonUp

/-- the high word of `wParam`: `XBUTTON1` or `XBUTTON2` -/
def Button.high : Button → ℕ
  | .x1 => 1
  | .x2 => 2
  | _ => 0

/-- what a user does with keyboard and mouse; a key is held together with Alt (`sys`), or was down already (`wasDown`); the
place of the wheel is one on the screen, the others are places in the window -/
inductive Action where
  | key (virtualKey scanCode : UInt8) (extended sys down wasDown : Bool)
  | button (b : Button) (down : Bool) (held : Held) (x y : Int16)
  | move (held : Held) (x y : Int16)
  | wheel (delta : Int16) (held : Held) (x y : Int16)
deriving DecidableEq, Repr

/-- `MAKELPARAM` -/
def makeLParam (x y : Int16) : ℕ := x.toBitVec.toNat + 2 ^ 16 * y.toBitVec.toNat

/-- the message that Windows sends -/
def encode : Action → Message
  | .key virtualKey scanCode extended sys down wasDown =>
    ⟨match sys, down with
      | false, true => .keyDown
      | false, false => .keyUp
      | true, true => .sysKeyDown
      | true, false => .sysKeyUp,
      virtualKey.toNat,
      -- repeat count, scan code, extended key, context, previous state, transition
      1 + scanCode.toNat * 2 ^ 16 + extended.toNat * 2 ^ 24 + sys.toNat * 2 ^ 29 + (!down || wasDown).toNat * 2 ^ 30 +
        (!down).toNat * 2 ^ 31⟩
  | .button b down held x y => ⟨b.msgId down, (held.set down b).flags + 2 ^ 16 * b.high, makeLParam x y⟩
  | .move held x y => ⟨.mouseMove, held.flags, makeLParam x y⟩
  | .wheel delta held x y => ⟨.mouseWheel, held.flags + 2 ^ 16 * delta.toBitVec.toNat, makeLParam x y⟩

/-- the virtual keys of Windows, in runs from a first code on -/
def virtualKeyRuns : List (ℕ × List NkKeyboardKey) := [
  (0x08, [.backspace, .tab]), (0x0d, [.enter]), (0x13, [.pause, .capsLock]), (0x1b, [.escape]), (0x20, [.space]),
  (0x21, [.pageUp, .pageDown, .end, .home, .left, .up, .right, .down]), (0x2c, [.printScreen, .insert, .delete]),
  (0x30, [.alnum0, .alnum1, .alnum2, .alnum3, .alnum4, .alnum5, .alnum6, .alnum7, .alnum8, .alnum9]),
  (0x41, [.alnumA, .alnumB, .alnumC, .alnumD, .alnumE, .alnumF, .alnumG, .alnumH, .alnumI, .alnumJ, .alnumK, .alnumL,
    .alnumM, .alnumN, .alnumO, .alnumP, .alnumQ, .alnumR, .alnumS, .alnumT, .alnumU, .alnumV, .alnumW, .alnumX, .alnumY,
    .alnumZ, .lSuper, .rSuper, .context]),
  (0x60, [.numpad0, .numpad1, .numpad2, .numpad3, .numpad4, .numpad5, .numpad6, .numpad7, .numpad8, .numpad9,
    .numpadMultiply, .numpadPlus, .numpadSeparator, .numpadMinus, .numpadDecimal, .numpadDivide, .f1, .f2, .f3, .f4, .f5,
    .f6, .f7, .f8, .f9, .f10, .f11, .f12]),
  (0x90, [.numLock, .scroll]), (0xa0, [.lShift, .rShift, .lControl, .rControl, .lAlt, .rAlt]),
  (0xba, [.oem1, .oem2, .oem3, .oem4, .oem5, .oem6, .oem7]), (0xdb, [.oem8, .oem9, .oem10, .oem11])]

/-- `VK_SHIFT`, `VK_CONTROL`, `VK_MENU` -/
def sidedKeys : List ℕ := [0x10, 0x11, 0x12]

/-- The key that was used. A message names Shift, Ctrl and Alt without their side: the scan code tells the two Shift keys
apart, and the others are extended keys on the right. -/
def keyOf (virtualKey scanCode : UInt8) (extended : Bool) : NkKeyboardKey :=
  if virtualKey = 0x10 then if scanCode = 0x36 then .rShift else .lShift
  else if virtualKey = 0x11 then if extended then .rControl else .lControl
  else if virtualKey = 0x12 then if extended then .rAlt else .lAlt
  else (virtualKeyRuns.findSome? fun r =>
    if r.1 ≤ virtualKey.toNat then r.2[virtualKey.toNat - r.1]? else none).getD .unknown

/-- what an event says -/
inductive Report where
  | key (evType : NkEventType) (pKeyCode ntKeyCode : Int32) (keyCode : NkKeyboardKey)
  | mouse (evType : NkEventType) (e : NkMouseEvent)
  | other
deriving DecidableEq, Repr

def reportOf (e : NkEvent) : Report :=
  match e.data with
  | .kbEvent k => .key e.evType k.pKeyCode k.vNtKeyCode k.vKeyCode
  | .mouseEvent m => .mouse e.evType m
  | _ => .other

/-- what the layers should be told of a place in the window -/
def dueMouse (evType : NkEventType) (o : Int32 × Int32) (p : ℤ × ℤ) (mouseBtn : NkMouseButton) : Report :=
  .mouse evType ⟨nkPoint p, nkPoint (clientToScreen o p), mouseBtn⟩

/-- what the layers should be told of an action, if anything, and the place of the pointer that they know of then -/
def due (o : Int32 × Int32) (last : ℤ × ℤ) : Action → Option Report × (ℤ × ℤ)
  | .key virtualKey scanCode extended _ down wasDown =>
    (some (.key (if down then if wasDown then .keyboardKeyRepeated else .keyboardKeyDown else .keyboardKeyUp)
      (Int32.ofInt scanCode.toNat) (Int32.ofInt virtualKey.toNat) (keyOf virtualKey scanCode extended)), last)
  | .button b down _ x y =>
    (some (dueMouse (if down then .mouseButtonDown else .mouseButtonUp) o (x.toInt, y.toInt) b.nk), last)
  | .move _ x y =>
    if last = (x.toInt, y.toInt) then (none, last)
    else (some (dueMouse .mouseMoved o (x.toInt, y.toInt) .unknown), (x.toInt, y.toInt))
  | .wheel delta _ x y =>
    if delta = 0 then (none, last)
    else
      -- the place in the window is the one that is at the wheel's place on the screen
      (some (dueMouse (if delta.toInt > 0 then .mouseScrollUp else .mouseScrollDown) o
        (x.toInt - o.1.toInt, y.toInt - o.2.toInt) .unknown), last)

/-- what the layers should be told of a run -/
def dues (o : Int32 × Int32) : ℤ × ℤ → List Action → List Report
  | _, [] => []
  | last, a :: as => (due o last a).1.toList ++ dues o (due o last a).2 as

/-- the actions that the layers are told of as they should be -/
def Told (o : Int32 × Int32) : Action → Prop
  | .key virtualKey scanCode _ sys down wasDown =>
    ¬ (sys ∧ down ∧ wasDown) ∧ scanCode = 0 ∧ virtualKey.toNat ∉ sidedKeys ∧ virtualKey ≠ 0x5d
  | .button .left down held _ _ => down ∧ ¬ held.right ∧ ¬ held.shift ∧ ¬ held.control ∧ ¬ held.middle
  | .button .right down held _ _ => down ∧ ¬ held.left ∧ ¬ held.shift ∧ ¬ held.control ∧ ¬ held.middle
  | .button .middle down held _ _ => ¬ down ∧ held.shift ∧ ¬ held.left ∧ ¬ held.right ∧ ¬ held.control
  | .button .x1 _ _ _ _ | .button .x2 _ _ _ _ => False
  | .move _ _ _ => True
  | .wheel delta _ _ _ => delta = 0 ∨ o = (0, 0)

/-! ## The parameters of a message -/

theorem toInt_small {n : ℕ} (h : n < 2 ^ 31) : toInt n = n := by
  rw [toInt, BitVec.toInt_ofNat', Int.bmod_eq_of_le] <;> omega

theorem ofNat_short (v : BitVec 16) (n : ℕ) : BitVec.ofNat 16 (v.toNat + 2 ^ 16 * n) = v := by
  refine BitVec.eq_of_toNat_eq ?_
  have hlt := v.isLt
  rw [BitVec.toNat_ofNat]
  omega

theorem pointOf_makeLParam (x y : Int16) : pointOf (makeLParam x y) = (x.toInt, y.toInt) := by
  have hlt := x.toBitVec.isLt
  have hhigh : (x.toBitVec.toNat + 2 ^ 16 * y.toBitVec.toNat) >>> 16 = y.toBitVec.toNat + 2 ^ 16 * 0 := by
    rw [Nat.shiftRight_eq_div_pow]
    omega
  rw [pointOf, loShort, hiShort, makeLParam, hhigh, ofNat_short, ofNat_short]
  rfl

theorem Held.flags_lt (h : Held) : h.flags < 2 ^ 7 := by
  have hle : ∀ b : Bool, b.toNat ≤ 1 := fun b => by cases b <;> decide
  have := hle h.left
  have := hle h.right
  have := hle h.shift
  have := hle h.control
  have := hle h.middle
  have := hle h.x1
  have := hle h.x2
  unfold Held.flags
  omega

theorem highWord (h : Held) (n : ℕ) : (h.flags + 2 ^ 16 * n) >>> 16 = n := by
  have hlt := h.flags_lt
  rw [Nat.shiftRight_eq_div_pow]
  omega

/-- the bit of the previous state -/
theorem wasDown_bit (scanCode : UInt8) (extended sys before up : Bool) :
    (1 + scanCode.toNat * 2 ^ 16 + extended.toNat * 2 ^ 24 + sys.toNat * 2 ^ 29 + before.toNat * 2 ^ 30 +
      up.toNat * 2 ^ 31) &&& (1 <<< 30) ≠ 0 ↔ before = true := by
  have hlt : scanCode.toNat < 2 ^ 8 := scanCode.toNat_lt
  have hle : ∀ b : Bool, b.toNat ≤ 1 := fun b => by cases b <;> decide
  have hext := hle extended
  have hsys := hle sys
  have hup := hle up
  rw [Nat.one_shiftLeft, and_two_pow_iff, Nat.testBit_eq_decide_div_mod_eq, decide_eq_true_iff]
  cases before
  · simp only [Bool.toNat_false, Bool.false_eq_true, iff_false]
    omega
  · simp only [Bool.toNat_true, iff_true]
    omega

/-- the button that the flags of a message are taken for -/
theorem button_eq_iff (b : Button) (down : Bool) (held : Held) (o : Int32 × Int32) (x y : Int16) :
    mapFromNativeMouseButton (toInt (((held.set down b).flags + 2 ^ 16 * b.high) >>>
      (if b.msgId down = .xButtonDown ∨ b.msgId down = .xButtonUp then 16 else 0))) = b.nk ↔
        Told o (.button b down held x y) := by
  obtain ⟨l, r, s, c, m, x1, x2⟩ := held
  cases b <;> cases down <;> revert l r s c m x1 x2 <;> simp only [Told] <;> decide +kernel

/-- the bits of the scan code -/
theorem scanCode_bits (scanCode : UInt8) (extended sys before up : Bool) :
    (1 + scanCode.toNat * 2 ^ 16 + extended.toNat * 2 ^ 24 + sys.toNat * 2 ^ 29 + before.toNat * 2 ^ 30 +
      up.toNat * 2 ^ 31) &&& 0x00ff0000 = scanCode.toNat * 2 ^ 16 := by
  have hall : ∀ n : ℕ, n < 256 → ∀ e s b u : Bool, (1 + n * 2 ^ 16 + e.toNat * 2 ^ 24 + s.toNat * 2 ^ 29 +
      b.toNat * 2 ^ 30 + u.toNat * 2 ^ 31) &&& 0x00ff0000 = n * 2 ^ 16 := by decide +kernel
  exact hall _ scanCode.toNat_lt _ _ _ _

/-- the event of a key: with Alt, it is never that of a repeated key, and the scan code stays where the message has it -/
theorem reportOf_key (virtualKey scanCode : UInt8) (extended sys down wasDown : Bool) :
    reportOf (keyEvent (encode (.key virtualKey scanCode extended sys down wasDown))) =
      .key (if down then if wasDown ∧ ¬ sys then .keyboardKeyRepeated else .keyboardKeyDown else .keyboardKeyUp)
        (Int32.ofInt (scanCode.toNat * 2 ^ 16 : ℕ)) (Int32.ofInt virtualKey.toNat) (mapFromNativeKey virtualKey.toNat) := by
  have hsmall : toInt virtualKey.toNat = virtualKey.toNat := toInt_small (by have := virtualKey.toNat_lt; omega)
  have hscan : toInt (scanCode.toNat * 2 ^ 16) = (scanCode.toNat * 2 ^ 16 : ℕ) :=
    toInt_small (by have := scanCode.toNat_lt; omega)
  have hbit := wasDown_bit scanCode extended sys (!down || wasDown) (!down)
  have hcode := scanCode_bits scanCode extended sys (!down || wasDown) (!down)
  rw [keyEvent]
  simp only [encode, hbit, hcode, hsmall, hscan]
  cases sys <;> cases down <;> cases wasDown <;> rfl

/-- the scan code is reported as 65536 times what it is -/
theorem scanCode_eq_iff (scanCode : UInt8) :
    Int32.ofInt (scanCode.toNat * 2 ^ 16 : ℕ) = Int32.ofInt scanCode.toNat ↔ scanCode = 0 := by
  have hall : ∀ n : ℕ, n < 256 → (Int32.ofInt (n * 2 ^ 16 : ℕ) = Int32.ofInt n ↔ n = 0) := by decide +kernel
  rw [hall _ scanCode.toNat_lt, ← UInt8.toNat_inj]
  rfl

/-- the key is the one in the table, but for the keys with two sides and the context menu key -/
theorem key_eq_iff (virtualKey scanCode : UInt8) (extended : Bool) :
    mapFromNativeKey virtualKey.toNat = keyOf virtualKey scanCode extended ↔
      virtualKey.toNat ∉ sidedKeys ∧ virtualKey ≠ 0x5d := by
  have hplain : ∀ n : ℕ, n < 256 → ((mapFromNativeKey n = (virtualKeyRuns.findSome? fun r =>
      if r.1 ≤ n then r.2[n - r.1]? else none).getD .unknown) ↔ n ≠ 0x5d) := by decide +kernel
  have hne : virtualKey ≠ 0x5d ↔ virtualKey.toNat ≠ 0x5d := by
    rw [ne_eq, ← UInt8.toNat_inj]
    rfl
  unfold keyOf
  split_ifs with hshift hright hcontrol hext hmenu hext'
  all_goals first
    | (subst_vars
       exact iff_of_false (by decide) (by decide))
    | skip
  have hsided : virtualKey.toNat ∉ sidedKeys := by
    simp only [sidedKeys, List.mem_cons, List.not_mem_nil, or_false, not_or]
    exact ⟨fun h => hshift (UInt8.toNat_inj.1 h), fun h => hcontrol (UInt8.toNat_inj.1 h),
      fun h => hmenu (UInt8.toNat_inj.1 h)⟩
  rw [and_iff_right hsided, hne]
  exact hplain _ virtualKey.toNat_lt

/-- the places of two events are the same only if their numbers are -/
theorem nkPoint_inj {p q : ℤ × ℤ} (hp : |p.1| < 2 ^ 62 ∧ |p.2| < 2 ^ 62) (hq : |q.1| < 2 ^ 62 ∧ |q.2| < 2 ^ 62)
    (h : nkPoint p = nkPoint q) : p = q := by
  have hof : ∀ a b : ℤ, |a| < 2 ^ 62 → |b| < 2 ^ 62 → Int64.ofInt a = Int64.ofInt b → a = b := by
    intro a b ha hb hab
    have ha' := abs_lt.1 ha
    have hb' := abs_lt.1 hb
    rw [← Int64.toInt_ofInt_of_le (n := a) (by omega) (by omega), hab, Int64.toInt_ofInt_of_le (by omega) (by omega)]
  obtain ⟨hx, hy⟩ := NkPoint2D.mk.inj h
  exact Prod.ext (hof _ _ hp.1 hq.1 hx) (hof _ _ hp.2 hq.2 hy)

theorem abs_short (x : Int16) : |x.toInt| < 2 ^ 61 := by
  have := x.le_toInt
  have := x.toInt_lt
  rw [abs_lt]
  omega

theorem abs_long (x : Int32) : |x.toInt| < 2 ^ 61 := by
  have := x.le_toInt
  have := x.toInt_lt
  rw [abs_lt]
  omega

/-- the wheel's place is right exactly if the client area is in the corner of the screen -/
theorem wheel_place_iff (evType : NkEventType) (o : Int32 × Int32) (x y : Int16) :
    dueMouse evType o (x.toInt, y.toInt) .unknown = dueMouse evType o (x.toInt - o.1.toInt, y.toInt - o.2.toInt) .unknown ↔
      o = (0, 0) := by
  constructor
  · intro h
    have hx := abs_lt.1 (abs_short x)
    have hy := abs_lt.1 (abs_short y)
    have h1 := abs_lt.1 (abs_long o.1)
    have h2 := abs_lt.1 (abs_long o.2)
    have hpoint := congrArg NkMouseEvent.curPos (Report.mouse.inj h).2
    have hsame := nkPoint_inj (by constructor <;> rw [abs_lt] <;> dsimp only <;> omega)
      (by constructor <;> rw [abs_lt] <;> dsimp only <;> omega) hpoint
    obtain ⟨hfst, hsnd⟩ := Prod.mk.inj hsame
    exact Prod.ext (Int32.toInt.inj (by rw [Int32.toInt_zero]; omega)) (Int32.toInt.inj (by rw [Int32.toInt_zero]; omega))
  · rintro rfl
    simp

/-! ## Runs -/

theorem reportOf_mouse {evType : NkEventType} (h : evType ≠ .none) (w : W) (lParam : ℕ) (mouseBtn : NkMouseButton) :
    reportOf (mouseEvent origin evType w lParam mouseBtn) = dueMouse evType (origin w) (pointOf lParam) mouseBtn := by
  simp [mouseEvent, eventDispatch, expectData, h, reportOf, dueMouse]

/-- a step is as it should be: there is an event when there should be one, it says what it should exactly if `told`, and
the pointer is known to be where it is -/
structure StepOk (o : Int32 × Int32) (wnd : WindowsWindow W) (a : Action) (r : Option NkEvent × WindowsWindow W)
    (told : Prop) : Prop where
  isSome : (r.1.map reportOf).isSome = (due o wnd.lastMousePos a).1.isSome
  report : r.1.map reportOf = (due o wnd.lastMousePos a).1 ↔ told
  handle : r.2.nativeHandle = wnd.nativeHandle
  lastMousePos : r.2.lastMousePos = (due o wnd.lastMousePos a).2

theorem onInput_key (wnd : WindowsWindow W) (virtualKey scanCode : UInt8) (extended sys down wasDown : Bool) :
    StepOk (origin wnd.nativeHandle) wnd (.key virtualKey scanCode extended sys down wasDown)
      (onInput origin wnd (encode (.key virtualKey scanCode extended sys down wasDown)))
      (Told (origin wnd.nativeHandle) (.key virtualKey scanCode extended sys down wasDown)) := by
  have hrun : onInput origin wnd (encode (.key virtualKey scanCode extended sys down wasDown)) =
      (some (keyEvent (encode (.key virtualKey scanCode extended sys down wasDown))), wnd) := by
    cases sys <;> cases down <;> rfl
  rw [hrun]
  refine ⟨rfl, ?_, rfl, rfl⟩
  rw [Option.map_some, reportOf_key, due, Option.some.injEq, Report.key.injEq]
  rw [scanCode_eq_iff, key_eq_iff, Told, eq_self_iff_true, true_and]
  refine and_congr_left fun _ => ?_
  cases sys <;> cases down <;> cases wasDown <;> decide

theorem onInput_button (wnd : WindowsWindow W) (b : Button) (down : Bool) (held : Held) (x y : Int16) :
    StepOk (origin wnd.nativeHandle) wnd (.button b down held x y) (onInput origin wnd (encode (.button b down held x y)))
      (Told (origin wnd.nativeHandle) (.button b down held x y)) := by
  have hrun : onInput origin wnd (encode (.button b down held x y)) =
      (some (mouseEvent origin (if down then .mouseButtonDown else .mouseButtonUp) wnd.nativeHandle (makeLParam x y)
        (mapFromNativeMouseButton (toInt (((held.set down b).flags + 2 ^ 16 * b.high) >>>
          (if b.msgId down = .xButtonDown ∨ b.msgId down = .xButtonUp then 16 else 0))))), wnd) := by
    cases b <;> cases down <;> rfl
  rw [hrun]
  refine ⟨rfl, ?_, rfl, rfl⟩
  rw [Option.map_some, reportOf_mouse origin (by cases down <;> decide), pointOf_makeLParam, due, Option.some.injEq,
    dueMouse, dueMouse, Report.mouse.injEq, NkMouseEvent.mk.injEq]
  simp only [true_and]
  exact button_eq_iff b down held (origin wnd.nativeHandle) x y

theorem onInput_move (wnd : WindowsWindow W) (held : Held) (x y : Int16) :
    StepOk (origin wnd.nativeHandle) wnd (.move held x y) (onInput origin wnd (encode (.move held x y))) True := by
  have hpoint : pointOf (encode (.move held x y)).lParam = (x.toInt, y.toInt) := pointOf_makeLParam x y
  have hrun : onInput origin wnd (encode (.move held x y)) = if wnd.lastMousePos = (x.toInt, y.toInt) then (none, wnd)
      else (some (mouseEvent origin .mouseMoved wnd.nativeHandle (encode (.move held x y)).lParam .unknown),
        { wnd with lastMousePos := (x.toInt, y.toInt) }) := by
    rw [← hpoint]
    rfl
  rw [hrun]
  split_ifs with hsame
  · exact ⟨by simp [due, hsame], by simp [due, hsame], rfl, by simp [due, hsame]⟩
  · refine ⟨by simp [due, hsame], ?_, rfl, by simp [due, hsame]⟩
    simp [due, hsame, reportOf_mouse, hpoint]

theorem onInput_wheel (wnd : WindowsWindow W) (delta : Int16) (held : Held) (x y : Int16) :
    StepOk (origin wnd.nativeHandle) wnd (.wheel delta held x y) (onInput origin wnd (encode (.wheel delta held x y)))
      (Told (origin wnd.nativeHandle) (.wheel delta held x y)) := by
  have hhigh : (encode (.wheel delta held x y)).wParam >>> 16 = delta.toBitVec.toNat := highWord held _
  have hshort : hiShort (encode (.wheel delta held x y)).wParam = delta.toInt := by
    rw [hiShort, hhigh, BitVec.ofNat_toNat]
    simp
  have hzero : delta.toBitVec.toNat = 0 ↔ delta = 0 := by
    constructor
    · exact fun h => Int16.toBitVec.inj (BitVec.eq_of_toNat_eq h)
    · rintro rfl
      rfl
  have hrun : onInput origin wnd (encode (.wheel delta held x y)) = if delta = 0 then (none, wnd)
      else (some (mouseEvent origin (if delta.toInt > 0 then .mouseScrollUp else .mouseScrollDown) wnd.nativeHandle
        (makeLParam x y) .unknown), wnd) := by
    rw [← hshort]
    simp only [← hzero, ← hhigh]
    rfl
  rw [hrun]
  by_cases hd : delta = 0
  · rw [if_pos hd]
    exact ⟨by simp [due, hd], by simp [due, hd, Told], rfl, by simp [due, hd]⟩
  · rw [if_neg hd]
    refine ⟨by simp [due, hd], ?_, rfl, by simp [due, hd]⟩
    have htype : (if delta.toInt > 0 then NkEventType.mouseScrollUp else .mouseScrollDown) ≠ .none := by
      split_ifs <;> decide
    simp only [Option.map_some, reportOf_mouse origin htype, pointOf_makeLParam, due, hd, if_false, Option.some.injEq, Told,
      false_or]
    exact wheel_place_iff _ _ x y

theorem onInput_step (wnd : WindowsWindow W) (a : Action) :
    StepOk (origin wnd.nativeHandle) wnd a (onInput origin wnd (encode a)) (Told (origin wnd.nativeHandle) a) := by
  cases a with
  | key virtualKey scanCode extended sys down wasDown =>
    exact onInput_key origin wnd virtualKey scanCode extended sys down wasDown
  | button b down held x y => exact onInput_button origin wnd b down held x y
  | move held x y => exact onInput_move origin wnd held x y
  | wheel delta held x y => exact onInput_wheel origin wnd delta held x y

theorem toList_append_inj {A : Type} {x y : Option A} {xs ys : List A} (h : x.isSome = y.isSome) :
    x.toList ++ xs = y.toList ++ ys ↔ x = y ∧ xs = ys := by
  cases x <;> cases y <;> simp at h ⊢

/-- the places that messages about the pointer name -/
def movesTo (ms : List Message) : List (ℤ × ℤ) :=
  (ms.filter fun m => m.msgId = .mouseMove).map fun m => pointOf m.lParam

/-- the places that the layers are told that the pointer is at -/
def movesSeen (es : List NkEvent) : List NkPoint2D :=
  es.filterMap fun e => match e.evType, e.data with
    | .mouseMoved, .mouseEvent m => some m.curPos
    | _, _ => none

theorem destutter'_tail {A : Type} [DecidableEq A] (a : A) (l : List A) :
    l.destutter' (· ≠ ·) a = a :: (l.destutter' (· ≠ ·) a).tail := by
  induction l with
  | nil => rfl
  | cons b l ih =>
    rw [List.destutter'_cons]
    split_ifs
    · rfl
    · exact ih

theorem mapFromNativeInputEvent_ne (id : MsgId) : mapFromNativeInputEvent id ≠ .mouseMoved := by
  cases id <;> decide

theorem keyEvent_type (m : Message) : (keyEvent m).evType ≠ .mouseMoved := by
  obtain ⟨id, wParam, lParam⟩ := m
  change (if id = .keyDown ∧ lParam &&& (1 <<< 30) ≠ 0 then NkEventType.keyboardKeyRepeated
    else mapFromNativeInputEvent id) ≠ .mouseMoved
  split_ifs
  · decide
  · exact mapFromNativeInputEvent_ne id

/-- the events of input messages have a type, as `NkEventDispatch` asserts -/
theorem inputEvents_typed (wnd : WindowsWindow W) (ms : List Message) :
    ∀ e ∈ inputEvents origin wnd ms, e.evType ≠ .none := by
  have hone (wnd : WindowsWindow W) (m : Message) : ∀ e ∈ (onInput origin wnd m).1.toList, e.evType ≠ .none := by
    obtain ⟨id, wParam, lParam⟩ := m
    intro e he
    rw [Option.mem_toList] at he
    cases id with
    | keyDown =>
      obtain rfl := Option.some.inj he
      change (if MsgId.keyDown = .keyDown ∧ lParam &&& (1 <<< 30) ≠ 0 then NkEventType.keyboardKeyRepeated
        else mapFromNativeInputEvent .keyDown) ≠ .none
      split_ifs <;> decide
    | mouseMove | mouseWheel =>
      simp only [onInput] at he
      split_ifs at he
      all_goals
        obtain rfl := Option.some.inj he
        exact fun htype => nomatch htype
    | _ =>
      obtain rfl := Option.some.inj he
      exact fun htype => nomatch htype
  induction ms generalizing wnd with
  | nil => exact fun e he => absurd he List.not_mem_nil
  | cons m ms ih =>
    intro e he
    rcases List.mem_append.1 he with he | he
    · exact hone wnd m e he
    · exact ih _ e he

/-- a message that is not about the pointer leaves the window alone -/
theorem onInput_other (wnd : WindowsWindow W) {m : Message} (h : m.msgId ≠ .mouseMove) :
    (onInput origin wnd m).2 = wnd ∧ (∀ e ∈ (onInput origin wnd m).1, e.evType ≠ .mouseMoved) ∧
      ∀ p, (onInput origin { wnd with lastMousePos := p } m).1 = (onInput origin wnd m).1 := by
  obtain ⟨id, wParam, lParam⟩ := m
  cases id with
  | mouseMove => exact absurd rfl h
  | keyDown | sysKeyDown | keyUp | sysKeyUp =>
    refine ⟨rfl, fun e he => ?_, fun _ => rfl⟩
    obtain rfl := Option.some.inj he
    exact keyEvent_type _
  | mouseWheel =>
    simp only [onInput]
    split_ifs
    · exact ⟨rfl, fun e he => absurd he (by simp), fun _ => rfl⟩
    all_goals
      refine ⟨rfl, fun e he => ?_, fun _ => rfl⟩
      obtain rfl := Option.some.inj he
      exact fun htype => nomatch htype
  | _ =>
    refine ⟨rfl, fun e he => ?_, fun _ => rfl⟩
    obtain rfl := Option.some.inj he
    exact fun htype => nomatch htype

theorem movesSeen_append (es es' : List NkEvent) : movesSeen (es ++ es') = movesSeen es ++ movesSeen es' :=
  List.filterMap_append ..

theorem movesSeen_other {e : Option NkEvent} (h : ∀ x ∈ e, x.evType ≠ .mouseMoved) : movesSeen e.toList = [] := by
  cases e with
  | none => rfl
  | some x =>
    have hx := h x rfl
    simp only [movesSeen, Option.toList_some, List.filterMap_cons, List.filterMap_nil]
    split
    · rfl
    · next heq =>
      split at heq
      · exact absurd ‹_› hx
      · cases heq

theorem filter_other {e : Option NkEvent} (h : ∀ x ∈ e, x.evType ≠ .mouseMoved) :
    e.toList.filter (fun x => x.evType ≠ .mouseMoved) = e.toList := by
  refine List.filter_eq_self.2 fun x hx => ?_
  exact decide_eq_true (h x (Option.mem_toList.1 hx))

/-- **The pointer.** Of the messages about the pointer the layers get one event for each change of its place, in order; the
other messages are dispatched in order, as if there were no others. -/
theorem moves_run (wnd : WindowsWindow W) (ms : List Message) :
    movesSeen (inputEvents origin wnd ms) = (((movesTo ms).destutter' (· ≠ ·) wnd.lastMousePos).tail).map nkPoint ∧
      (inputEvents origin wnd ms).filter (fun e => e.evType ≠ .mouseMoved) =
        (ms.filter fun m => m.msgId ≠ .mouseMove).filterMap fun m => (onInput origin wnd m).1 := by
  induction ms generalizing wnd with
  | nil => exact ⟨rfl, rfl⟩
  | cons m ms ih =>
    by_cases hm : m.msgId = .mouseMove
    · have hrun : onInput origin wnd m = if wnd.lastMousePos = pointOf m.lParam then (none, wnd)
          else (some (mouseEvent origin .mouseMoved wnd.nativeHandle m.lParam .unknown),
            { wnd with lastMousePos := pointOf m.lParam }) := by
        rw [onInput]
        simp only [hm]
      have hto : movesTo (m :: ms) = pointOf m.lParam :: movesTo ms := by simp [movesTo, hm]
      rw [inputEvents, hrun, hto, List.destutter'_cons, List.filter_cons_of_neg (by simp [hm])]
      by_cases hsame : wnd.lastMousePos = pointOf m.lParam
      · rw [if_pos hsame, if_neg (not_not.2 hsame)]
        exact ih wnd
      · obtain ⟨hseen, hother⟩ := ih { wnd with lastMousePos := pointOf m.lParam }
        rw [if_neg hsame, if_pos hsame]
        constructor
        · rw [movesSeen_append, hseen, List.tail_cons, destutter'_tail, List.map_cons]
          rfl
        · rw [List.filter_append, hother]
          refine List.filterMap_congr fun x hx => ?_
          exact (onInput_other origin wnd (of_decide_eq_true (List.mem_filter.1 hx).2)).2.2 _
    · obtain ⟨hwnd, htype, -⟩ := onInput_other origin wnd hm
      obtain ⟨hseen, hother⟩ := ih wnd
      have hto : movesTo (m :: ms) = movesTo ms := by simp [movesTo, hm]
      rw [inputEvents, hwnd, hto]
      constructor
      · rw [movesSeen_append, movesSeen_other htype, List.nil_append, hseen]
      · rw [List.filter_append, filter_other htype, hother, List.filter_cons_of_pos (by simp [hm]), List.filterMap_cons]
        cases (onInput origin wnd m).1 <;> rfl

end Noriko.Window
