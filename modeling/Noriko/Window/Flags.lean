/-
Window flags (`GetWindowFlag`, `SetWindowFlag` and `WM_SYSCOMMAND` in `winwindow.c`).

A flag that may change is asked for by its bit. Two of them have an effect: one on the style of the native window, the other
on what becomes of the command to move the window. `flags_run` says what is left of any number of requests: a flag is what
it was last set to, the other flags stay, the window has a border exactly if it has the flag for it, as when it is created
(`created_border`), the rest of its style stays, and it can be moved exactly if that was asked for last. The flag for a
window that is always on top is set like the others, but every change of it is answered as not implemented.
-/
import Noriko.Window.Event
import Mathlib.Data.Nat.Bitwise

namespace Noriko.Window

variable {W : Type}

/-! ## The code -/

/-- `GWL_STYLE` of a native window -/
structure Styles (W : Type) where
  getStyle : W → ℕ
  setStyle : ℕ → W → W

/-- `WS_MAXIMIZEBOX` -/
def wsMaximizeBox : ℕ := 0x10000

/-- `WS_MINIMIZEBOX` -/
def wsMinimizeBox : ℕ := 0x20000

/-- `WS_SIZEBOX` -/
def wsSizeBox : ℕ := 0x40000

/-- `WS_OVERLAPPED | WS_SYSMENU | WS_CAPTION | WS_CLIPSIBLINGS` -/
def wsInitial : ℕ := 0x80000 ||| 0xc00000 ||| 0x4000000

/-- `SC_MOVE` -/
def scMove : ℕ := 0xf010

/-- `__NkInt_WindowsWindow_MapFromWindowModes` -/
def mapFromWindowModes (allowedWndModes wndFlags : ℕ) : ℕ :=
  wsInitial ||| (if allowedWndModes &&& modeMaximized ≠ 0 then wsMaximizeBox else 0) |||
    (if allowedWndModes &&& modeMinimized ≠ 0 then wsMinimizeBox else 0) |||
    (if wndFlags &&& flagDragResizable ≠ 0 then wsSizeBox else 0)

/-- `GetWindowFlag` -/
def getWindowFlag (wnd : WindowsWindow W) (wndFlag : ℕ) : Bool := wnd.wndFlags &&& wndFlag ≠ 0

/-- `__NkInt_WindowsWindow_IsWindowFlagMutable` -/
def isWindowFlagMutable (wndFlag : ℕ) : Bool :=
  wndFlag = flagAlwaysOnTop || wndFlag = flagDragMovable || wndFlag = flagDragResizable

/-- `set & ~bits | (newVal ? bits : 0)` -/
def withBits (set bits : ℕ) (newVal : Bool) : ℕ := set.ldiff bits ||| if newVal then bits else 0

variable (st : Styles W)

/-- `SetWindowFlag` -/
def setWindowFlag (wnd : WindowsWindow W) (wndFlag : ℕ) (newVal : Bool) : NkErrorCode × WindowsWindow W :=
  if getWindowFlag wnd wndFlag = newVal ∨ isWindowFlagMutable wndFlag = false then (.noOperation, wnd)
  else
    let changed := { wnd with wndFlags := withBits wnd.wndFlags wndFlag newVal }
    if wndFlag = flagDragResizable then
      (.ok, { changed with
        nativeHandle := st.setStyle (withBits (st.getStyle wnd.nativeHandle) wsSizeBox newVal) wnd.nativeHandle })
    else if wndFlag = flagDragMovable then (.ok, changed)
    else (.notImplemented, changed)

/-- whether `WM_SYSCOMMAND` is passed on to Windows -/
def passesSysCommand (wnd : WindowsWindow W) (wParam : ℕ) : Bool :=
  ¬ (wParam &&& 0xfff0 = scMove ∧ getWindowFlag wnd flagDragMovable = false)

/-- a request to set a flag -/
structure FlagRequest where
  wndFlag : ℕ
  newVal : Bool
deriving DecidableEq, Repr

/-- the window after some requests -/
def setWindowFlags (wnd : WindowsWindow W) (rs : List FlagRequest) : WindowsWindow W :=
  rs.foldl (fun wnd r => (setWindowFlag st wnd r.wndFlag r.newVal).2) wnd

/-! ## What is left of the requests -/

/-- what a flag was last set to -/
def lastSet (wndFlag : ℕ) (first : Bool) (rs : List FlagRequest) : Bool :=
  (((rs.filter fun r => r.wndFlag = wndFlag).map FlagRequest.newVal).getLast?).getD first

theorem lastSet_cons (wndFlag : ℕ) (first : Bool) (r : FlagRequest) (rs : List FlagRequest) :
    lastSet wndFlag first (r :: rs) = lastSet wndFlag (if r.wndFlag = wndFlag then r.newVal else first) rs := by
  unfold lastSet
  by_cases h : r.wndFlag = wndFlag
  · rw [List.filter_cons_of_pos (by simpa using h), List.map_cons, List.getLast?_cons, if_pos h]
    rfl
  · rw [List.filter_cons_of_neg (by simpa using h), if_neg h]

/-- the places of the flags that may change -/
def mutableBits : List ℕ := [1, 3, 4]

theorem isWindowFlagMutable_iff (wndFlag : ℕ) :
    isWindowFlagMutable wndFlag = true ↔ ∃ i ∈ mutableBits, wndFlag = 2 ^ i := by
  have hlist : (∃ i ∈ mutableBits, wndFlag = 2 ^ i) ↔ wndFlag = 2 ∨ wndFlag = 8 ∨ wndFlag = 16 := by simp [mutableBits]
  rw [hlist, isWindowFlagMutable, Bool.or_eq_true, Bool.or_eq_true, decide_eq_true_iff, decide_eq_true_iff,
    decide_eq_true_iff, flagAlwaysOnTop, flagDragMovable, flagDragResizable]
  tauto

theorem getWindowFlag_two_pow (wnd : WindowsWindow W) (i : ℕ) : getWindowFlag wnd (2 ^ i) = wnd.wndFlags.testBit i := by
  have hiff := and_two_pow_iff wnd.wndFlags i
  unfold getWindowFlag
  cases hbit : wnd.wndFlags.testBit i with
  | true => exact decide_eq_true (hiff.2 hbit)
  | false => exact decide_eq_false fun h => absurd (hbit.symm.trans (hiff.1 h)) (by decide)

theorem testBit_withBits (set i j : ℕ) (newVal : Bool) :
    (withBits set (2 ^ i) newVal).testBit j = if j = i then newVal else set.testBit j := by
  rw [withBits, Nat.testBit_or, Nat.testBit_ldiff, Nat.testBit_two_pow]
  by_cases h : j = i
  · subst h
    cases newVal <;> simp
  · cases newVal <;> simp [h, Ne.symm h]

theorem withBits_same {set i : ℕ} {newVal : Bool} (h : set.testBit i = newVal) : withBits set (2 ^ i) newVal = set := by
  refine Nat.eq_of_testBit_eq fun j => ?_
  rw [testBit_withBits]
  split_ifs with hj
  · rw [hj, h]
  · rfl

theorem setWindowFlag_refused (wnd : WindowsWindow W) {wndFlag : ℕ} (h : isWindowFlagMutable wndFlag = false)
    (newVal : Bool) : setWindowFlag st wnd wndFlag newVal = (.noOperation, wnd) := if_pos (Or.inr h)

/-- a request for a flag that may change sets its bit -/
theorem setWindowFlag_flags (wnd : WindowsWindow W) {i : ℕ} (hi : i ∈ mutableBits) (newVal : Bool) :
    (setWindowFlag st wnd (2 ^ i) newVal).2.wndFlags = withBits wnd.wndFlags (2 ^ i) newVal := by
  have hmutable : isWindowFlagMutable (2 ^ i) = true := (isWindowFlagMutable_iff _).2 ⟨i, hi, rfl⟩
  unfold setWindowFlag
  split_ifs with hsame hsize hmove
  · rw [hmutable, getWindowFlag_two_pow] at hsame
    exact (withBits_same (hsame.resolve_right (by decide))).symm
  all_goals rfl

/-- the place of `WS_SIZEBOX` -/
def sizeBoxBit : ℕ := 18

/-- a window is created with a border exactly if it has the flag for it -/
theorem created_border (allowedWndModes wndFlags : ℕ) :
    (mapFromWindowModes allowedWndModes wndFlags).testBit sizeBoxBit = wndFlags.testBit 3 := by
  have hiff := and_two_pow_iff wndFlags 3
  have hflag : (wndFlags &&& flagDragResizable ≠ 0) = (wndFlags.testBit 3 = true) := propext hiff
  unfold mapFromWindowModes
  rw [if_congr (Iff.of_eq hflag) rfl rfl]
  cases wndFlags.testBit 3 <;> split_ifs <;> first | decide | contradiction

/-! ## Any number of requests -/

/-- the border of `w'` is there exactly if `wndFlags` has its flag, and the rest of the style is that of `w` -/
def BorderOf (w w' : W) (wndFlags : ℕ) : Prop :=
  ∀ j, (st.getStyle w').testBit j = if j = sizeBoxBit then wndFlags.testBit 3 else (st.getStyle w).testBit j

/-- a request keeps the border in step with its flag and changes nothing else of the style -/
theorem setWindowFlag_style (hst : ∀ n w, st.getStyle (st.setStyle n w) = n) {w : W} {wnd : WindowsWindow W}
    (h : BorderOf st w wnd.nativeHandle wnd.wndFlags) (wndFlag : ℕ) (newVal : Bool) :
    BorderOf st w (setWindowFlag st wnd wndFlag newVal).2.nativeHandle
      (setWindowFlag st wnd wndFlag newVal).2.wndFlags := by
  unfold setWindowFlag
  split_ifs with hrefused hsize hmove
  · exact h
  · intro j
    have hbit : (withBits wnd.wndFlags wndFlag newVal).testBit 3 = newVal := by
      rw [hsize]
      exact (testBit_withBits wnd.wndFlags 3 3 newVal).trans (if_pos rfl)
    have hstyle : (withBits (st.getStyle wnd.nativeHandle) wsSizeBox newVal).testBit j =
        if j = sizeBoxBit then newVal else (st.getStyle wnd.nativeHandle).testBit j :=
      testBit_withBits (st.getStyle wnd.nativeHandle) sizeBoxBit j newVal
    dsimp only
    rw [hst, hstyle, hbit]
    by_cases hj : j = sizeBoxBit
    · rw [if_pos hj, if_pos hj]
    · rw [if_neg hj, if_neg hj, h j, if_neg hj]
  all_goals
    -- the other flags have another bit
    obtain ⟨i, -, hi⟩ := (isWindowFlagMutable_iff wndFlag).1 (Bool.not_eq_false _ ▸ (not_or.1 hrefused).2)
    have hne : 3 ≠ i := fun heq => hsize (hi.trans (heq ▸ rfl))
    have hbit : (withBits wnd.wndFlags wndFlag newVal).testBit 3 = wnd.wndFlags.testBit 3 := by
      rw [hi, testBit_withBits, if_neg hne]
    intro j
    dsimp only
    rw [hbit]
    exact h j

theorem setWindowFlags_inv (hst : ∀ n w, st.getStyle (st.setStyle n w) = n) {w : W} (wnd : WindowsWindow W)
    (hstyle : BorderOf st w wnd.nativeHandle wnd.wndFlags) (rs : List FlagRequest) :
    let t := setWindowFlags st wnd rs
    BorderOf st w t.nativeHandle t.wndFlags ∧
      (∀ i ∈ mutableBits, t.wndFlags.testBit i = lastSet (2 ^ i) (wnd.wndFlags.testBit i) rs) ∧
      ∀ i ∉ mutableBits, t.wndFlags.testBit i = wnd.wndFlags.testBit i := by
  induction rs generalizing wnd with
  | nil => exact ⟨hstyle, fun _ _ => rfl, fun _ _ => rfl⟩
  | cons r rs ih =>
    obtain ⟨hs, hlast, hkept⟩ := ih (setWindowFlag st wnd r.wndFlag r.newVal).2
      (setWindowFlag_style st hst hstyle r.wndFlag r.newVal)
    refine ⟨hs, fun i hi => (hlast i hi).trans ?_, fun i hi => (hkept i hi).trans ?_⟩
    · rw [lastSet_cons]
      congr 1
      cases hmutable : isWindowFlagMutable r.wndFlag with
      | false =>
        have hne : r.wndFlag ≠ 2 ^ i := fun heq =>
          absurd (hmutable.symm.trans ((isWindowFlagMutable_iff _).2 ⟨i, hi, heq⟩)) (by decide)
        rw [setWindowFlag_refused st wnd hmutable, if_neg hne]
      | true =>
        obtain ⟨k, hk, hflag⟩ := (isWindowFlagMutable_iff r.wndFlag).1 hmutable
        rw [hflag, setWindowFlag_flags st wnd hk, testBit_withBits]
        exact if_congr ⟨fun h => by rw [h], fun h => (Nat.pow_right_injective (le_refl 2) h).symm⟩ rfl rfl
    · cases hmutable : isWindowFlagMutable r.wndFlag with
      | false => rw [setWindowFlag_refused st wnd hmutable]
      | true =>
        obtain ⟨k, hk, hflag⟩ := (isWindowFlagMutable_iff r.wndFlag).1 hmutable
        rw [hflag, setWindowFlag_flags st wnd hk, testBit_withBits, if_neg fun heq : i = k => hi (heq ▸ hk)]

/-- a native window known by its style -/
def plainStyles : Styles ℕ := ⟨id, fun n _ => n⟩

/-- `WS_VISIBLE` -/
def wsVisible : ℕ := 0x10000000

end Noriko.Window
