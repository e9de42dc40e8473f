/-
Window modes (`SetWindowMode`, `WM_WINDOWPOSCHANGED` and `WM_CLOSE` in `winwindow.c`).

`ShowWindow` sends `WM_WINDOWPOSCHANGED` before it returns, and the window procedure answers a message that finds another
mode than the last one with a call of `SetWindowMode`. So the two call each other. What Windows does is a parameter: what a
command makes of a window, and how many messages it sends on the way, all of them after the change.

- `modes_run`: whatever the program, the user and Windows do, the calls return, and what happens is what `ModeSpec` says:
  which requests are refused, which events the layers get, and that a visible window is in the mode that is reported,
  unless that mode is not allowed. A request to hide the window is left out, for its event would have no type, which
  `NkEventDispatch` asserts away (`Asserted`).
- `sizes_exchanged`: the events have the size of the whole window where that of the client area is meant, and the other
  way round.
-/
import Noriko.Window.Event
import Noriko.Lib.Sim
import Mathlib.Data.Nat.Bitwise

namespace Noriko.Window

open Lib

variable {W : Type}

/-! ## The code -/

/-- the commands of `ShowWindow` that are used -/
inductive ShowCmd where
  | hide | showNormal | showMinimized | showMaximized
deriving DecidableEq, Repr

/-- what Windows answers and does -/
structure Desktop (W : Type) where
  isZoomed : W → Bool
  isIconic : W → Bool
  isVisible : W → Bool
  showWindow : ShowCmd → W → W
  /-- the number of `WM_WINDOWPOSCHANGED` messages that `ShowWindow` sends -/
  posChanged : ShowCmd → W → ℕ
  windowRect : W → Option NkSize2D
  clientRect : W → Option NkSize2D

/-- the window, the events that were dispatched, each with the native window of that moment, and the codes that the
application was told to exit with -/
structure WindowSys (W : Type) where
  wnd : WindowsWindow W
  events : List (NkEvent × W)
  exits : List NkErrorCode

/-- Windows changes the window -/
def WindowSys.setNative (s : WindowSys W) (w : W) : WindowSys W := { s with wnd := { s.wnd with nativeHandle := w } }

def WindowSys.setMode (s : WindowSys W) (mode : ℕ) : WindowSys W := { s with wnd := { s.wnd with currWndMode := mode } }

def WindowSys.dispatch (s : WindowSys W) (e : NkEvent) : WindowSys W :=
  { s with events := s.events ++ [(e, s.wnd.nativeHandle)] }

variable (d : Desktop W) (layers : NkEvent → NkErrorCode)

/-- `__NkInt_WindowsWindow_GetNewWindowMode` -/
def getNewWindowMode (w : W) : ℕ :=
  if d.isZoomed w then modeMaximized else if d.isIconic w then modeMinimized else modeNormal

/-- `__NkInt_WindowsWindow_TranslateWindowModeToShowCommand`; no command is `INT_MAX` -/
def translateWindowModeToShowCommand (wndMode : ℕ) : Option ShowCmd :=
  if wndMode = modeHidden then some .hide
  else if wndMode = modeFullscreen ∨ wndMode = modeMaximized then some .showMaximized
  else if wndMode = modeMinimized then some .showMinimized
  else if wndMode = modeNormal then some .showNormal
  else none

/-- `__NkInt_WindowsWindow_GetWindowSize` -/
def getWindowSize (w : W) (isClientArea : Bool) : NkSize2D :=
  (if isClientArea then d.clientRect w else d.windowRect w).getD ⟨0, 0⟩

/-- the same message `n` times -/
def deliver (handle : WindowSys W → Option (WindowSys W)) : ℕ → WindowSys W → Option (WindowSys W)
  | 0, s => some s
  | n + 1, s => (handle s).bind (deliver handle n)

/-- `WM_WINDOWPOSCHANGED`, with the `SetWindowMode` that it calls -/
def onWindowPosChanged (setMode : ℕ → WindowSys W → Option (NkErrorCode × WindowSys W)) (s : WindowSys W) :
    Option (WindowSys W) :=
  if s.wnd.currWndMode ^^^ getNewWindowMode d s.wnd.nativeHandle ≠ 0 then
    (setMode (getNewWindowMode d s.wnd.nativeHandle) s).map Prod.snd
  else some s

/-- the event of `SetWindowMode` -/
def modeEvent (newMode : ℕ) (w : W) : NkEvent :=
  eventDispatch (mapEventTypeFromWindowMode newMode)
    (.wndEvent ⟨⟨0, 0⟩, getWindowSize d w false, getWindowSize d w true, newMode⟩)

/-- `SetWindowMode`, if it returns with at most `depth` calls of it at a time; `layers` is what the layers answer to an
event -/
def setWindowMode : ℕ → ℕ → WindowSys W → Option (NkErrorCode × WindowSys W)
  | 0, _, _ => none
  | depth + 1, newMode, s =>
    if newMode &&& s.wnd.allowedWndModes = 0 then some (.wndModeNotSupported, s)
    else match translateWindowModeToShowCommand newMode with
      | none => some (.notImplemented, s)
      | some newShowCmd =>
        let w := s.wnd.nativeHandle
        (deliver (onWindowPosChanged d (setWindowMode depth)) (d.posChanged newShowCmd w)
          ((s.setMode newMode).setNative (d.showWindow newShowCmd w))).map fun t =>
            let e := modeEvent d newMode t.wnd.nativeHandle
            (layers e, t.dispatch e)

/-- an event with no data but the window -/
def plainEvent (evType : NkEventType) : NkEvent :=
  eventDispatch evType (.wndEvent ⟨⟨0, 0⟩, ⟨0, 0⟩, ⟨0, 0⟩, 0⟩)

/-- the main window takes the application with it -/
def exitIfMain (s : WindowSys W) : WindowSys W :=
  if s.wnd.wndFlags &&& flagMainWindow ≠ 0 then { s with exits := s.exits ++ [.ok] } else s

/-- `WM_CLOSE` -/
def onClose (depth : ℕ) (s : WindowSys W) : Option (WindowSys W) :=
  let w := s.wnd.nativeHandle
  (deliver (onWindowPosChanged d (setWindowMode d layers depth)) (d.posChanged .hide w)
    ((s.dispatch (plainEvent .windowClosed)).setNative (d.showWindow .hide w))).map exitIfMain

/-- what may happen to a window: `SetWindowMode`; a change by the user or by Windows, with as many `WM_WINDOWPOSCHANGED`
and one more; `WM_CLOSE` -/
inductive Stimulus (W : Type) where
  | request (newMode : ℕ)
  | change (w : W) (more : ℕ)
  | close

def windowStep (depth : ℕ) (s : WindowSys W) : Stimulus W → Option (NkErrorCode × WindowSys W)
  | .request newMode => setWindowMode d layers depth newMode s
  | .change w more =>
    (deliver (onWindowPosChanged d (setWindowMode d layers depth)) (more + 1) (s.setNative w)).map fun t => (.ok, t)
  | .close => (onClose d layers depth s).map fun t => (.ok, t)

/-- `NkEventDispatch` asserts that an event has a type, and the one of `NkWndMode_Hidden` has none -/
def Asserted (allowed : ℕ) : Stimulus W → Prop
  | .request newMode => newMode = modeHidden → newMode &&& allowed = 0
  | _ => True

/-! ## What Windows promises, and what is expected of the program -/

/-- The documented effect of the commands. The first `ShowWindow` of a program may follow the `STARTUPINFO` of its launcher
instead; that is the one at the end of `__NkInt_WindowsWindow_Initialize`, and over in the runs here. -/
structure DesktopOk : Prop where
  maximized : ∀ w, d.isZoomed (d.showWindow .showMaximized w) = true
  minimized : ∀ w, d.isZoomed (d.showWindow .showMinimized w) = false ∧ d.isIconic (d.showWindow .showMinimized w) = true
  normal : ∀ w, d.isZoomed (d.showWindow .showNormal w) = false ∧ d.isIconic (d.showWindow .showNormal w) = false
  hidden : ∀ w, d.isZoomed (d.showWindow .hide w) = d.isZoomed w ∧ d.isIconic (d.showWindow .hide w) = d.isIconic w
  visible : ∀ c w, d.isVisible (d.showWindow c w) = decide (c ≠ .hide)
  /-- a window that disappears is told so -/
  told : ∀ w, d.isVisible w = true → 0 < d.posChanged .hide w

/-- the mode that an event has with it -/
def EventData.wndMode : EventData → Option ℕ
  | .wndEvent e => some e.wndMode
  | _ => none

/-- what can be seen of a window: the mode it is in, whether it is visible, the mode that `GetWindowMode` answers, and the
types and modes of the events -/
structure ModeView where
  actual : ℕ
  visible : Bool
  reported : ℕ
  announced : List (NkEventType × Option ℕ)
  exits : List NkErrorCode
deriving DecidableEq, Repr

/-- the window is shown in a mode, and the layers are told -/
def ModeView.shown (v : ModeView) (mode : ℕ) : ModeView :=
  { v with
    actual := mode, visible := true, reported := mode
    announced := v.announced ++ [(mapEventTypeFromWindowMode mode, some mode)] }

/-- the window is told that it was changed: it is shown in the mode that it is in, if that is another one than was reported
and is allowed -/
def ModeView.follow (v : ModeView) (allowed : ℕ) : ModeView :=
  if v.reported = v.actual ∨ v.actual &&& allowed = 0 then v else v.shown v.actual

theorem ModeView.follow_same {v : ModeView} {allowed : ℕ} (h : v.reported = v.actual ∨ v.actual &&& allowed = 0) :
    v.follow allowed = v := if_pos h

theorem ModeView.follow_shown {v : ModeView} {allowed : ℕ} (hne : v.reported ≠ v.actual) (h : v.actual &&& allowed ≠ 0) :
    v.follow allowed = v.shown v.actual := if_neg (not_or.2 ⟨hne, h⟩)

/-- what a window that may be in the modes `allowed` does -/
inductive ModeSpec (allowed : ℕ) (main : Bool) : ModeView → Stimulus W → NkErrorCode → ModeView → Prop
  | refused (v : ModeView) {mode : ℕ} : mode &&& allowed = 0 →
      ModeSpec allowed main v (.request mode) .wndModeNotSupported v
  | without (v : ModeView) {mode : ℕ} : mode &&& allowed ≠ 0 → mode ≠ modeHidden →
      mode ∉ [modeNormal, modeMinimized, modeMaximized] → ModeSpec allowed main v (.request mode) .notImplemented v
  | shown (v : ModeView) {mode : ℕ} (code : NkErrorCode) : mode &&& allowed ≠ 0 →
      mode ∈ [modeNormal, modeMinimized, modeMaximized] → ModeSpec allowed main v (.request mode) code (v.shown mode)
  | changed (v : ModeView) (w : W) (more : ℕ) :
      ModeSpec allowed main v (.change w more) .ok ({ v with
        actual := getNewWindowMode d w, visible := d.isVisible w }.follow allowed)
  | closed (v v' : ModeView) :
      -- a window that was not visible need not be told
      (v' = { v with visible := false, announced := v.announced ++ [(NkEventType.windowClosed, some 0)] }.follow allowed ∨
        v.visible = false ∧ v' = { v with announced := v.announced ++ [(NkEventType.windowClosed, some 0)] }) →
      ModeSpec allowed main v .close .ok (if main then { v' with exits := v'.exits ++ [.ok] } else v')

/-! ## Messages about the position -/

/-- what is seen of a window -/
def view (s : WindowSys W) : ModeView :=
  ⟨getNewWindowMode d s.wnd.nativeHandle, d.isVisible s.wnd.nativeHandle, s.wnd.currWndMode,
    s.events.map fun e => (e.1.evType, EventData.wndMode e.1.data), s.exits⟩

/-- the mode that a window is in, and the event for it -/
def modeOf (w : W) : NkEventType × ℕ :=
  match d.isZoomed w, d.isIconic w with
  | true, _ => (.windowMaximized, modeMaximized)
  | false, true => (.windowMinimized, modeMinimized)
  | false, false => (.windowRestored, modeNormal)

/-- An event and the window as it was then. The event about its end has no data; any other is about the mode that the window
was in, with the size of the whole window in place of that of the client area, and the other way round. -/
inductive Exchanged : NkEvent × W → Prop
  | closed (w : W) : Exchanged (⟨.windowClosed, evCatWindow, .wndEvent ⟨⟨0, 0⟩, ⟨0, 0⟩, ⟨0, 0⟩, 0⟩⟩, w)
  | mode (w : W) : Exchanged (⟨(modeOf d w).1, evCatWindow,
      .wndEvent ⟨⟨0, 0⟩, (d.windowRect w).getD ⟨0, 0⟩, (d.clientRect w).getD ⟨0, 0⟩, (modeOf d w).2⟩⟩, w)

/-- the window `t` has the properties of `s`, and `v` is what is seen of it -/
structure Becomes (s t : WindowSys W) (v : ModeView) : Prop where
  view : view d t = v
  allowed : t.wnd.allowedWndModes = s.wnd.allowedWndModes
  flags : t.wnd.wndFlags = s.wnd.wndFlags
  events : ∀ e ∈ t.events, e ∈ s.events ∨ Exchanged d e

theorem deliver_fixed {handle : WindowSys W → Option (WindowSys W)} {s : WindowSys W} (h : handle s = some s) (n : ℕ) :
    deliver handle n s = some s := by
  induction n with
  | zero => rfl
  | succ n ih => rw [deliver, h, Option.bind_some, ih]

variable {d}

/-- the event of the mode that a window is in -/
theorem exchanged_mode (w : W) : Exchanged d (modeEvent d (getNewWindowMode d w) w, w) := by
  have hmode : modeEvent d (getNewWindowMode d w) w = ⟨(modeOf d w).1, evCatWindow,
      .wndEvent ⟨⟨0, 0⟩, (d.windowRect w).getD ⟨0, 0⟩, (d.clientRect w).getD ⟨0, 0⟩, (modeOf d w).2⟩⟩ := by
    unfold getNewWindowMode modeOf
    cases d.isZoomed w <;> cases d.isIconic w <;> rfl
  rw [hmode]
  exact .mode w

theorem exchanged_typed {e : NkEvent × W} (h : Exchanged d e) : e.1.evType ≠ .none := by
  cases h with
  | closed => exact fun htype => nomatch htype
  | mode w =>
    unfold modeOf
    cases d.isZoomed w <;> cases d.isIconic w <;> exact fun htype => nomatch htype

theorem getNewWindowMode_mem (w : W) : getNewWindowMode d w ∈ [modeNormal, modeMinimized, modeMaximized] := by
  unfold getNewWindowMode
  split_ifs <;> simp

/-- a mode with a command of its own is the one that the command leads to -/
theorem showWindow_mode (h : DesktopOk d) {mode : ℕ} (hm : mode ∈ [modeNormal, modeMinimized, modeMaximized]) :
    ∃ c, translateWindowModeToShowCommand mode = some c ∧
      ∀ w, getNewWindowMode d (d.showWindow c w) = mode ∧ d.isVisible (d.showWindow c w) = true := by
  simp only [List.mem_cons, List.not_mem_nil, or_false] at hm
  rcases hm with rfl | rfl | rfl
  · refine ⟨.showNormal, by decide, fun w => ⟨?_, by rw [h.visible]; rfl⟩⟩
    simp [getNewWindowMode, h.normal w]
  · refine ⟨.showMinimized, by decide, fun w => ⟨?_, by rw [h.visible]; rfl⟩⟩
    simp [getNewWindowMode, h.minimized w]
  · refine ⟨.showMaximized, by decide, fun w => ⟨?_, by rw [h.visible]; rfl⟩⟩
    simp [getNewWindowMode, h.maximized w]

/-- a message that finds the mode that is known changes nothing -/
theorem onWindowPosChanged_same {setMode : ℕ → WindowSys W → Option (NkErrorCode × WindowSys W)} {s : WindowSys W}
    (h : s.wnd.currWndMode = getNewWindowMode d s.wnd.nativeHandle) : onWindowPosChanged d setMode s = some s := by
  rw [onWindowPosChanged, h, Nat.xor_self, if_neg (by simp)]

/-- a message about a mode that is not allowed changes nothing -/
theorem onWindowPosChanged_refused {s : WindowSys W} (depth : ℕ)
    (h : getNewWindowMode d s.wnd.nativeHandle &&& s.wnd.allowedWndModes = 0) :
    onWindowPosChanged d (setWindowMode d layers (depth + 1)) s = some s := by
  rw [onWindowPosChanged]
  split_ifs
  · rw [setWindowMode, if_pos h]
    rfl
  · rfl

/-- a request of a mode that is allowed and has a command: the messages on the way find the new mode -/
theorem setWindowMode_shown (h : DesktopOk d) (depth : ℕ) {mode : ℕ} {s : WindowSys W}
    (hm : mode ∈ [modeNormal, modeMinimized, modeMaximized]) (hallowed : mode &&& s.wnd.allowedWndModes ≠ 0) :
    ∃ code t, setWindowMode d layers (depth + 1) mode s = some (code, t) ∧ Becomes d s t ((view d s).shown mode) := by
  obtain ⟨c, hc, hshow⟩ := showWindow_mode h hm
  have hmode := hshow s.wnd.nativeHandle
  have hsame : onWindowPosChanged d (setWindowMode d layers depth)
      ((s.setMode mode).setNative (d.showWindow c s.wnd.nativeHandle)) =
        some ((s.setMode mode).setNative (d.showWindow c s.wnd.nativeHandle)) := onWindowPosChanged_same hmode.1.symm
  have hset : setWindowMode d layers (depth + 1) mode s =
      some (layers (modeEvent d mode (d.showWindow c s.wnd.nativeHandle)),
        ((s.setMode mode).setNative (d.showWindow c s.wnd.nativeHandle)).dispatch
          (modeEvent d mode (d.showWindow c s.wnd.nativeHandle))) := by
    rw [setWindowMode, if_neg hallowed, hc]
    dsimp only
    rw [deliver_fixed hsame, Option.map_some]
    rfl
  have htype : mapEventTypeFromWindowMode mode ≠ .none := by
    simp only [List.mem_cons, List.not_mem_nil, or_false] at hm
    rcases hm with rfl | rfl | rfl <;> decide
  refine ⟨_, _, hset, ?_, rfl, rfl, fun e he => ?_⟩
  · simp [view, ModeView.shown, hmode, modeEvent, eventDispatch, expectData, htype, EventData.wndMode,
      WindowSys.setMode, WindowSys.setNative, WindowSys.dispatch]
  · rcases List.mem_append.1 he with he | he
    · exact Or.inl he
    · rw [List.mem_singleton.1 he]
      have hevent := exchanged_mode (d := d) (d.showWindow c s.wnd.nativeHandle)
      rw [hmode.1] at hevent
      exact Or.inr hevent

/-- one message or more: the window is shown in the mode that it is in, or nothing happens -/
theorem deliver_follow (h : DesktopOk d) (depth n : ℕ) (s : WindowSys W) :
    ∃ t, deliver (onWindowPosChanged d (setWindowMode d layers (depth + 1))) (n + 1) s = some t ∧
      Becomes d s t ((view d s).follow s.wnd.allowedWndModes) := by
  have hkept : (view d s).follow s.wnd.allowedWndModes = view d s →
      onWindowPosChanged d (setWindowMode d layers (depth + 1)) s = some s →
      ∃ t, deliver (onWindowPosChanged d (setWindowMode d layers (depth + 1))) (n + 1) s = some t ∧
        Becomes d s t ((view d s).follow s.wnd.allowedWndModes) :=
    fun hview hsame => ⟨s, deliver_fixed hsame (n + 1), hview.symm, rfl, rfl, fun _ => Or.inl⟩
  by_cases hsync : s.wnd.currWndMode = getNewWindowMode d s.wnd.nativeHandle
  · exact hkept (ModeView.follow_same (Or.inl hsync)) (onWindowPosChanged_same hsync)
  by_cases hallowed : getNewWindowMode d s.wnd.nativeHandle &&& s.wnd.allowedWndModes = 0
  · exact hkept (ModeView.follow_same (Or.inr hallowed)) (onWindowPosChanged_refused layers depth hallowed)
  obtain ⟨code, t, hset, hbecomes⟩ := setWindowMode_shown layers h depth (getNewWindowMode_mem _) hallowed
  have hfollow : (view d s).follow s.wnd.allowedWndModes = (view d s).shown (getNewWindowMode d s.wnd.nativeHandle) :=
    ModeView.follow_shown hsync hallowed
  refine ⟨t, ?_, hfollow ▸ hbecomes⟩
  have hone : onWindowPosChanged d (setWindowMode d layers (depth + 1)) s = some t := by
    rw [onWindowPosChanged, if_pos (mt Nat.xor_eq_zero_iff.1 hsync), hset]
    rfl
  -- the messages after the first find the mode that is reported
  have hmode : t.wnd.currWndMode = getNewWindowMode d t.wnd.nativeHandle :=
    (congrArg ModeView.reported hbecomes.view).trans (congrArg ModeView.actual hbecomes.view).symm
  rw [deliver, hone, Option.bind_some, deliver_fixed (onWindowPosChanged_same hmode)]

/-- the window disappears, and is told so or was not visible -/
theorem deliver_hide (h : DesktopOk d) (depth : ℕ) (s : WindowSys W) :
    ∃ t v, deliver (onWindowPosChanged d (setWindowMode d layers (depth + 1))) (d.posChanged .hide s.wnd.nativeHandle)
        (s.setNative (d.showWindow .hide s.wnd.nativeHandle)) = some t ∧ Becomes d s t v ∧
      (v = { view d s with visible := false }.follow s.wnd.allowedWndModes ∨
        (view d s).visible = false ∧ v = view d s) := by
  have hhide : view d (s.setNative (d.showWindow .hide s.wnd.nativeHandle)) = { view d s with visible := false } := by
    have hmode : getNewWindowMode d (d.showWindow .hide s.wnd.nativeHandle) = getNewWindowMode d s.wnd.nativeHandle := by
      rw [getNewWindowMode, (h.hidden _).1, (h.hidden _).2]
      rfl
    simp [view, WindowSys.setNative, hmode, h.visible]
  cases hn : d.posChanged .hide s.wnd.nativeHandle with
  | zero =>
    have hvis : (view d s).visible = false := by
      cases hv : d.isVisible s.wnd.nativeHandle with
      | false => exact hv
      | true => exact absurd hn (h.told _ hv).ne'
    refine ⟨_, _, rfl, ⟨hhide, rfl, rfl, fun _ => Or.inl⟩, Or.inr ⟨hvis, ?_⟩⟩
    rw [← hvis]
  | succ n =>
    obtain ⟨t, hrun, hbecomes⟩ := deliver_follow layers h depth n
      (s.setNative (d.showWindow .hide s.wnd.nativeHandle))
    rw [hhide] at hbecomes
    exact ⟨t, _, hrun, ⟨hbecomes.view, hbecomes.allowed, hbecomes.flags, hbecomes.events⟩, Or.inl rfl⟩

/-! ## Runs -/

/-- the main window exits the application when it is closed -/
def isMain (s : WindowSys W) : Bool := s.wnd.wndFlags &&& flagMainWindow ≠ 0

/-- the state shows `v`, and has the properties that never change -/
structure ShowsMode (d : Desktop W) (allowed : ℕ) (main : Bool) (old : List (NkEvent × W)) (s : WindowSys W)
    (v : ModeView) : Prop where
  view : view d s = v
  allowed : s.wnd.allowedWndModes = allowed
  main : isMain s = main
  /-- those that the run did not begin with -/
  events : ∀ e ∈ s.events, e ∈ old ∨ Exchanged d e

/-- what becomes of a window that shows something shows what is seen of it -/
theorem Becomes.shows {s s' t : WindowSys W} {v v' : ModeView} {allowed : ℕ} {main : Bool} {old : List (NkEvent × W)}
    (h : Becomes d s' t v') (hs : ShowsMode d allowed main old s v)
    (hallowed : s'.wnd.allowedWndModes = s.wnd.allowedWndModes) (hflags : s'.wnd.wndFlags = s.wnd.wndFlags)
    (hevents : ∀ e ∈ s'.events, e ∈ s.events ∨ Exchanged d e) : ShowsMode d allowed main old t v' where
  view := h.view
  allowed := (h.allowed.trans hallowed).trans hs.allowed
  main := by rw [← hs.main, isMain, isMain, h.flags, hflags]
  events := by
    intro e he
    rcases h.events e he with he | he
    · rcases hevents e he with he | he
      · exact hs.events e he
      · exact Or.inr he
    · exact Or.inr he

theorem request_spec (h : DesktopOk d) (depth : ℕ) {allowed : ℕ} {main : Bool} {old : List (NkEvent × W)}
    {s : WindowSys W} {v : ModeView} (hs : ShowsMode d allowed main old s v) (hfull : modeFullscreen &&& allowed = 0)
    {mode : ℕ} (hasked : mode = modeHidden → mode &&& allowed = 0) :
    ∃ code t v', setWindowMode d layers (depth + 2) mode s = some (code, t) ∧
      ModeSpec d allowed main v (.request mode) code v' ∧ ShowsMode d allowed main old t v' := by
  have hshow := hs
  obtain ⟨rfl, rfl, -, -⟩ := hs
  by_cases hallowed : mode &&& s.wnd.allowedWndModes = 0
  · exact ⟨_, s, _, by rw [setWindowMode, if_pos hallowed], .refused _ hallowed, hshow⟩
  by_cases hm : mode ∈ [modeNormal, modeMinimized, modeMaximized]
  · obtain ⟨code, t, hset, hbecomes⟩ := setWindowMode_shown layers h (depth + 1) hm hallowed
    exact ⟨code, t, _, hset, .shown _ code hallowed hm, hbecomes.shows hshow rfl rfl fun _ => Or.inl⟩
  have hhide : mode ≠ modeHidden := fun hmode => hallowed (hasked hmode)
  have hnone : translateWindowModeToShowCommand mode = none := by
    have hne : mode ≠ modeFullscreen := fun hmode => hallowed (hmode ▸ hfull)
    simp only [List.mem_cons, List.not_mem_nil, or_false, not_or] at hm
    simp [translateWindowModeToShowCommand, hhide, hne, hm]
  refine ⟨_, s, _, ?_, .without _ hallowed hhide hm, hshow⟩
  rw [setWindowMode, if_neg hallowed, hnone]

theorem exitIfMain_wnd (s : WindowSys W) : (exitIfMain s).wnd = s.wnd := by
  unfold exitIfMain
  split_ifs <;> rfl

theorem exitIfMain_view (s : WindowSys W) :
    view d (exitIfMain s) = if isMain s then { view d s with exits := (view d s).exits ++ [.ok] } else view d s := by
  unfold exitIfMain isMain
  by_cases hmain : s.wnd.wndFlags &&& flagMainWindow = 0 <;> simp [hmain, view]

theorem close_spec (h : DesktopOk d) (depth : ℕ) {allowed : ℕ} {main : Bool} {old : List (NkEvent × W)} {s : WindowSys W}
    {v : ModeView} (hs : ShowsMode d allowed main old s v) :
    ∃ t v', onClose d layers (depth + 1) s = some t ∧ ModeSpec d allowed main v .close .ok v' ∧
      ShowsMode d allowed main old t v' := by
  obtain ⟨t, v', hrun, hbecomes, hv'⟩ := deliver_hide layers h depth (s.dispatch (plainEvent .windowClosed))
  have ht : ShowsMode d allowed main old t v' := hbecomes.shows hs rfl rfl fun e he => by
    rcases List.mem_append.1 he with he | he
    · exact Or.inl he
    · rw [List.mem_singleton.1 he]
      exact Or.inr (.closed _)
  have hview : view d (s.dispatch (plainEvent .windowClosed)) =
      { view d s with announced := (view d s).announced ++ [(NkEventType.windowClosed, some 0)] } := by
    simp [view, WindowSys.dispatch, plainEvent, eventDispatch, expectData, EventData.wndMode]
  rw [hview, hs.view] at hv'
  have hallowed : (s.dispatch (plainEvent .windowClosed)).wnd.allowedWndModes = allowed := hs.allowed
  rw [hallowed] at hv'
  refine ⟨exitIfMain t, _, congrArg (Option.map _) hrun, .closed _ v' hv', ?_, ?_, ?_, ?_⟩
  · rw [exitIfMain_view, ht.view, ht.main]
  · rw [exitIfMain_wnd, ht.allowed]
  · rw [isMain, exitIfMain_wnd]
    exact ht.main
  · unfold exitIfMain
    split_ifs <;> exact ht.events

theorem windowStep_spec (h : DesktopOk d) (depth : ℕ) {allowed : ℕ} {main : Bool} {old : List (NkEvent × W)}
    {s : WindowSys W} {v : ModeView} (hs : ShowsMode d allowed main old s v) (hfull : modeFullscreen &&& allowed = 0)
    {o : Stimulus W} (ho : Asserted allowed o) :
    ∃ code t v', windowStep d layers (depth + 2) s o = some (code, t) ∧ ModeSpec d allowed main v o code v' ∧
      ShowsMode d allowed main old t v' := by
  cases o with
  | request mode => exact request_spec layers h depth hs hfull ho
  | change w more =>
    obtain ⟨t, hrun, hbecomes⟩ := deliver_follow layers h (depth + 1) more (s.setNative w)
    have ht := hbecomes.shows hs rfl rfl fun _ => Or.inl
    obtain ⟨rfl, rfl, -, -⟩ := hs
    exact ⟨_, t, _, by rw [windowStep, hrun]; rfl, .changed _ w more, ht⟩
  | close =>
    obtain ⟨t, v', hclose, hspec, hshow⟩ := close_spec layers h (depth + 1) hs
    exact ⟨_, t, v', by rw [windowStep, hclose]; rfl, hspec, hshow⟩

/-- a window that can be seen is in the mode that is reported, unless it may not be in that mode -/
def Truthful (allowed : ℕ) (v : ModeView) : Prop := v.visible = true → v.reported = v.actual ∨ v.actual &&& allowed = 0

theorem follow_truthful (v : ModeView) (allowed : ℕ) : Truthful allowed (v.follow allowed) := by
  intro _
  unfold ModeView.follow
  split_ifs with h
  · exact h
  · exact Or.inl rfl

theorem modeSpec_truthful {allowed : ℕ} {main : Bool} {v v' : ModeView} {o : Stimulus W} {code : NkErrorCode}
    (h : Truthful allowed v) (hs : ModeSpec d allowed main v o code v') : Truthful allowed v' := by
  cases hs with
  | refused => exact h
  | without => exact h
  | shown => exact fun _ => Or.inl rfl
  | changed => exact follow_truthful _ allowed
  | closed u hu =>
    have hu' : Truthful allowed u := by
      rcases hu with rfl | ⟨hvis, rfl⟩
      · exact follow_truthful _ allowed
      · exact fun hv => absurd (hvis.symm.trans hv) (by decide)
    split_ifs
    · exact hu'
    · exact hu'

/-- the modes that a window is created with -/
theorem allowed_not_fullscreen (modes : ℕ) :
    modeFullscreen &&& (modes &&& (modeAll &&& (modeAll ^^^ modeFullscreen))) = 0 := by
  rw [← Nat.and_assoc, Nat.and_comm modeFullscreen, Nat.and_assoc]
  exact Nat.and_zero modes

theorem run_spec (h : DesktopOk d) {depth : ℕ} (hdepth : 2 ≤ depth) (s : WindowSys W)
    (hfull : modeFullscreen &&& s.wnd.allowedWndModes = 0) {os : List (Stimulus W)}
    (hos : ∀ o ∈ os, Asserted s.wnd.allowedWndModes o) :
    ∃ codes t, outputs (windowStep d layers depth) s os = some (codes, t) ∧
      SpecRun (ModeSpec d s.wnd.allowedWndModes (isMain s)) (view d s) os codes (view d t) ∧
      ∀ e ∈ t.events, e ∈ s.events ∨ Exchanged d e := by
  obtain ⟨k, rfl⟩ := Nat.exists_eq_add_of_le' hdepth
  have hs : ShowsMode d s.wnd.allowedWndModes (isMain s) s.events s (view d s) := ⟨rfl, rfl, rfl, fun _ => Or.inl⟩
  have hok : AllOk (windowStep d layers (k + 2)) (fun _ o => Asserted s.wnd.allowedWndModes o) s os :=
    AllOk.of_mem (fun o ho _ => hos o ho) s
  have hstep : ∀ s' v o, ShowsMode d s.wnd.allowedWndModes (isMain s) s.events s' v → Asserted s.wnd.allowedWndModes o →
      ∃ code t v', windowStep d layers (k + 2) s' o = some (code, t) ∧
        ModeSpec d s.wnd.allowedWndModes (isMain s) v o code v' ∧
        ShowsMode d s.wnd.allowedWndModes (isMain s) s.events t v' :=
    fun _ _ _ hs' ho => windowStep_spec layers h k hs' hfull ho
  obtain ⟨codes, t, v, hrun, hspec, ht⟩ := simulates_run hstep hs hok
  rw [← ht.view] at hspec
  exact ⟨codes, t, hrun, hspec, ht.events⟩

/-- windows known by the command that they were last shown with and by whether they are visible -/
def plainDesktop : Desktop (ShowCmd × Bool) where
  isZoomed w := w.1 = .showMaximized
  isIconic w := w.1 = .showMinimized
  isVisible w := w.2
  showWindow c w := if c = .hide then (w.1, false) else (c, true)
  posChanged c w := if (if c = .hide then (w.1, false) else (c, true)) = w then 0 else 1
  windowRect _ := some ⟨816, 639⟩
  clientRect _ := some ⟨800, 600⟩

theorem plainDesktop_ok : DesktopOk plainDesktop where
  maximized _ := rfl
  minimized _ := ⟨rfl, rfl⟩
  normal _ := ⟨rfl, rfl⟩
  hidden _ := ⟨rfl, rfl⟩
  visible c _ := by cases c <;> rfl
  told := by
    rintro ⟨c, b⟩ hb
    obtain rfl : b = true := hb
    simp [plainDesktop]

/-- a window as it is after `__NkInt_WindowsWindow_Initialize` has shown it -/
def shownWindow : WindowSys (ShowCmd × Bool) :=
  ⟨{ setProperties (.showNormal, true) modeAll flagMainWindow with currWndMode := modeNormal }, [], []⟩

/-- the window is minimized, maximized by the user, asked for a mode that is not allowed, and closed -/
def oneOfEach : List (Stimulus (ShowCmd × Bool)) :=
  [.request modeMinimized, .change (.showMaximized, true) 1, .request modeFullscreen, .close]

theorem oneOfEach_asserted : ∀ o ∈ oneOfEach, Asserted shownWindow.wnd.allowedWndModes o := by
  intro o ho
  simp only [oneOfEach, List.mem_cons, List.not_mem_nil, or_false] at ho
  rcases ho with rfl | rfl | rfl | rfl
  · exact fun hmode => absurd hmode (by decide)
  · trivial
  · exact fun hmode => absurd hmode (by decide)
  · trivial

/-- **Modes over whole runs.** Whatever is asked and whatever the user and Windows do, `SetWindowMode` and the window
procedure return, with at most two calls of `SetWindowMode` at a time, and do what `ModeSpec` says. A window that can be
seen is in the mode that is reported, if it was at first. -/
theorem modes_run (h : DesktopOk d) {depth : ℕ} (hdepth : 2 ≤ depth) (s : WindowSys W)
    (hfull : modeFullscreen &&& s.wnd.allowedWndModes = 0) (hfirst : Truthful s.wnd.allowedWndModes (view d s))
    (os : List (Stimulus W)) (hos : ∀ o ∈ os, Asserted s.wnd.allowedWndModes o) :
    ∃ codes t, outputs (windowStep d layers depth) s os = some (codes, t) ∧
      SpecRun (ModeSpec d s.wnd.allowedWndModes (isMain s)) (view d s) os codes (view d t) ∧
      Truthful s.wnd.allowedWndModes (view d t) := by
  obtain ⟨codes, t, hrun, hspec, -⟩ := run_spec layers h hdepth s hfull hos
  exact ⟨codes, t, hrun, hspec,
    hspec.inv (I := Truthful s.wnd.allowedWndModes) (fun _ _ _ _ => modeSpec_truthful) hfirst⟩

theorem modes_run_each :
    ∃ codes t, outputs (windowStep plainDesktop (fun _ => .noOperation) 2) shownWindow oneOfEach = some (codes, t) ∧
      SpecRun (ModeSpec plainDesktop shownWindow.wnd.allowedWndModes (isMain shownWindow))
        (view plainDesktop shownWindow) oneOfEach codes (view plainDesktop t) ∧
      Truthful shownWindow.wnd.allowedWndModes (view plainDesktop t) :=
  modes_run (fun _ => .noOperation) plainDesktop_ok (le_refl 2) shownWindow (allowed_not_fullscreen modeAll)
    (fun _ => Or.inl (by decide)) oneOfEach oneOfEach_asserted

/-- **Sizes.** Every event of a run is about the end of the window, or it says which mode the window is in when it is
dispatched, with the size of the whole window as `m_wndSize` and that of the client area as `m_totalWndSize`. -/
theorem sizes_exchanged (h : DesktopOk d) {depth : ℕ} (hdepth : 2 ≤ depth) (s : WindowSys W)
    (hfull : modeFullscreen &&& s.wnd.allowedWndModes = 0) (os : List (Stimulus W))
    (hos : ∀ o ∈ os, Asserted s.wnd.allowedWndModes o) :
    ∃ codes t, outputs (windowStep d layers depth) s os = some (codes, t) ∧
      ∀ e ∈ t.events, e ∈ s.events ∨ Exchanged d e := by
  obtain ⟨codes, t, hrun, -, hevents⟩ := run_spec layers h hdepth s hfull hos
  exact ⟨codes, t, hrun, hevents⟩

theorem sizes_exchanged_each :
    ∃ codes t, outputs (windowStep plainDesktop (fun _ => .noOperation) 2) shownWindow oneOfEach = some (codes, t) ∧
      ∀ e ∈ t.events, e ∈ shownWindow.events ∨ Exchanged plainDesktop e :=
  sizes_exchanged (fun _ => .noOperation) plainDesktop_ok (le_refl 2) shownWindow (allowed_not_fullscreen modeAll)
    oneOfEach oneOfEach_asserted

end Noriko.Window
