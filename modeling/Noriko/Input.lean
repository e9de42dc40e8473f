/-
Keys and mouse buttons of the input abstraction (`input.h`, `wininput.c`).

Two tables translate between the key codes of Windows and those of the engine, where a code of Windows is taken modulo the
size of its table. On the keys that have an entry they are inverse to each other (`keys_agree`): such a key is reported as
the one that is polled when the program asks for it, and every key but the context key has a code of Windows. The modifier
keys are polled one by one, and each has its own bit; the context key, which is polled for the bit of the menu key, has no
code, so that code 0 is polled.
-/
import Mathlib.Tactic

namespace Noriko

/-! ## The code -/

/-- virtual key codes of the engine -/
inductive NkKeyboardKey where
  | unknown | backspace | enter | escape | tab | capsLock | lShift | rShift | lControl | rControl | lAlt | rAlt
  | lSuper | rSuper | context | f1 | f2 | f3 | f4 | f5 | f6 | f7 | f8 | f9 | f10 | f11 | f12 | home | end | pageUp
  | pageDown | insert | delete | printScreen | scroll | pause | up | down | left | right | numLock | numpad0
  | numpad1 | numpad2 | numpad3 | numpad4 | numpad5 | numpad6 | numpad7 | numpad8 | numpad9 | numpadPlus
  | numpadMinus | numpadMultiply | numpadDivide | numpadSeparator | numpadDecimal | space | alnum0 | alnum1 | alnum2
  | alnum3 | alnum4 | alnum5 | alnum6 | alnum7 | alnum8 | alnum9 | alnumA | alnumB | alnumC | alnumD | alnumE
  | alnumF | alnumG | alnumH | alnumI | alnumJ | alnumK | alnumL | alnumM | alnumN | alnumO | alnumP | alnumQ
  | alnumR | alnumS | alnumT | alnumU | alnumV | alnumW | alnumX | alnumY | alnumZ | oem1 | oem2 | oem3 | oem4 | oem5
  | oem6 | oem7 | oem8 | oem9 | oem10 | oem11
deriving DecidableEq, Repr

inductive NkMouseButton where
  | unknown | leftButton | middleButton | rightButton | button4 | button5
deriving DecidableEq, Repr

namespace Input

/-- `NK_MAX_NUM_KEY_CODES` -/
def maxNumKeyCodes : ℕ := 0x400

/-- `NK_MAX_NUM_MOUSE_BTNS` -/
def maxNumMouseBtns : ℕ := 0x20

/-- the entries of a table that are not 0 -/
def nt2NkKeyMapping : List (ℕ × NkKeyboardKey) := [
  (0x08, .backspace), (0x09, .tab), (0x0d, .enter), (0x13, .pause), (0x14, .capsLock), (0x1b, .escape),
  (0x20, .space), (0x30, .alnum0), (0x31, .alnum1), (0x32, .alnum2), (0x33, .alnum3), (0x34, .alnum4),
  (0x35, .alnum5), (0x36, .alnum6), (0x37, .alnum7), (0x38, .alnum8), (0x39, .alnum9), (0x41, .alnumA),
  (0x42, .alnumB), (0x43, .alnumC), (0x44, .alnumD), (0x45, .alnumE), (0x46, .alnumF), (0x47, .alnumG),
  (0x48, .alnumH), (0x49, .alnumI), (0x4a, .alnumJ), (0x4b, .alnumK), (0x4c, .alnumL), (0x4d, .alnumM),
  (0x4e, .alnumN), (0x4f, .alnumO), (0x50, .alnumP), (0x51, .alnumQ), (0x52, .alnumR), (0x53, .alnumS),
  (0x54, .alnumT), (0x55, .alnumU), (0x56, .alnumV), (0x57, .alnumW), (0x58, .alnumX), (0x59, .alnumY),
  (0x5a, .alnumZ), (0x21, .pageUp), (0x22, .pageDown), (0x23, .end), (0x24, .home), (0x25, .left), (0x26, .up),
  (0x27, .right), (0x28, .down), (0x2c, .printScreen), (0x2d, .insert), (0x2e, .delete), (0x5b, .lSuper),
  (0x5c, .rSuper), (0x60, .numpad0), (0x61, .numpad1), (0x62, .numpad2), (0x63, .numpad3), (0x64, .numpad4),
  (0x65, .numpad5), (0x66, .numpad6), (0x67, .numpad7), (0x68, .numpad8), (0x69, .numpad9),
  (0x6a, .numpadMultiply), (0x6b, .numpadPlus), (0x6c, .numpadSeparator), (0x6d, .numpadMinus),
  (0x6e, .numpadDecimal), (0x6f, .numpadDivide), (0x70, .f1), (0x71, .f2), (0x72, .f3), (0x73, .f4), (0x74, .f5),
  (0x75, .f6), (0x76, .f7), (0x77, .f8), (0x78, .f9), (0x79, .f10), (0x7a, .f11), (0x7b, .f12), (0x90, .numLock),
  (0x91, .scroll), (0xa0, .lShift), (0xa1, .rShift), (0xa2, .lControl), (0xa3, .rControl), (0xa4, .lAlt),
  (0xa5, .rAlt), (0xba, .oem1), (0xbb, .oem2), (0xbc, .oem3), (0xbd, .oem4), (0xbe, .oem5), (0xbf, .oem6),
  (0xc0, .oem7), (0xdb, .oem8), (0xdc, .oem9), (0xdd, .oem10), (0xde, .oem11)]

def nk2NtKeyMapping : List (NkKeyboardKey × ℕ) := [
  (.backspace, 0x08), (.tab, 0x09), (.enter, 0x0d), (.pause, 0x13), (.capsLock, 0x14), (.escape, 0x1b),
  (.space, 0x20), (.alnum0, 0x30), (.alnum1, 0x31), (.alnum2, 0x32), (.alnum3, 0x33), (.alnum4, 0x34),
  (.alnum5, 0x35), (.alnum6, 0x36), (.alnum7, 0x37), (.alnum8, 0x38), (.alnum9, 0x39), (.alnumA, 0x41),
  (.alnumB, 0x42), (.alnumC, 0x43), (.alnumD, 0x44), (.alnumE, 0x45), (.alnumF, 0x46), (.alnumG, 0x47),
  (.alnumH, 0x48), (.alnumI, 0x49), (.alnumJ, 0x4a), (.alnumK, 0x4b), (.alnumL, 0x4c), (.alnumM, 0x4d),
  (.alnumN, 0x4e), (.alnumO, 0x4f), (.alnumP, 0x50), (.alnumQ, 0x51), (.alnumR, 0x52), (.alnumS, 0x53),
  (.alnumT, 0x54), (.alnumU, 0x55), (.alnumV, 0x56), (.alnumW, 0x57), (.alnumX, 0x58), (.alnumY, 0x59),
  (.alnumZ, 0x5a), (.pageUp, 0x21), (.pageDown, 0x22), (.end, 0x23), (.home, 0x24), (.left, 0x25), (.up, 0x26),
  (.right, 0x27), (.down, 0x28), (.printScreen, 0x2c), (.insert, 0x2d), (.delete, 0x2e), (.lSuper, 0x5b),
  (.rSuper, 0x5c), (.numpad0, 0x60), (.numpad1, 0x61), (.numpad2, 0x62), (.numpad3, 0x63), (.numpad4, 0x64),
  (.numpad5, 0x65), (.numpad6, 0x66), (.numpad7, 0x67), (.numpad8, 0x68), (.numpad9, 0x69),
  (.numpadMultiply, 0x6a), (.numpadPlus, 0x6b), (.numpadSeparator, 0x6c), (.numpadMinus, 0x6d),
  (.numpadDecimal, 0x6e), (.numpadDivide, 0x6f), (.f1, 0x70), (.f2, 0x71), (.f3, 0x72), (.f4, 0x73), (.f5, 0x74),
  (.f6, 0x75), (.f7, 0x76), (.f8, 0x77), (.f9, 0x78), (.f10, 0x79), (.f11, 0x7a), (.f12, 0x7b), (.numLock, 0x90),
  (.scroll, 0x91), (.lShift, 0xa0), (.rShift, 0xa1), (.lControl, 0xa2), (.rControl, 0xa3), (.lAlt, 0xa4),
  (.rAlt, 0xa5), (.oem1, 0xba), (.oem2, 0xbb), (.oem3, 0xbc), (.oem4, 0xbd), (.oem5, 0xbe), (.oem6, 0xbf),
  (.oem7, 0xc0), (.oem8, 0xdb), (.oem9, 0xdc), (.oem10, 0xdd), (.oem11, 0xde)]

def nt2NkMouseBtnMapping : List (ℕ × NkMouseButton) :=
  [(0x01, .leftButton), (0x04, .middleButton), (0x02, .rightButton), (0x05, .button4), (0x06, .button5)]

def nk2NtMouseBtnMapping : List (NkMouseButton × ℕ) :=
  [(.leftButton, 0x01), (.middleButton, 0x04), (.rightButton, 0x02), (.button4, 0x05), (.button5, 0x06)]

/-- `n & (count - 1)` for a signed number `n` and a power of two -/
def masked (n : ℤ) (count : ℕ) : ℕ := (n % count).toNat

def mapFromNativeKey (ntKeyCode : ℤ) : NkKeyboardKey :=
  (nt2NkKeyMapping.lookup (masked ntKeyCode maxNumKeyCodes)).getD .unknown

def mapFromNativeMouseButton (ntMouseBtn : ℤ) : NkMouseButton :=
  (nt2NkMouseBtnMapping.lookup (masked ntMouseBtn maxNumMouseBtns)).getD .unknown

def mapToNativeKey (keyCode : NkKeyboardKey) : ℕ := (nk2NtKeyMapping.lookup keyCode).getD 0

def mapToNativeMouseButton (mouseBtn : NkMouseButton) : ℕ := (nk2NtMouseBtnMapping.lookup mouseBtn).getD 0

/-- what Windows says of the keys and buttons: the high bit of `GetAsyncKeyState` -/
abbrev KeyState := ℕ → Bool

def isKeyPressed (down : KeyState) (keyCode : NkKeyboardKey) : Bool := down (mapToNativeKey keyCode)

def isMouseButtonPressed (down : KeyState) (mouseBtn : NkMouseButton) : Bool := down (mapToNativeMouseButton mouseBtn)

def getModifierKeyStates (down : KeyState) : ℕ :=
  (isKeyPressed down .lShift).toNat <<< 0 ||| (isKeyPressed down .rShift).toNat <<< 1 |||
    (isKeyPressed down .lControl).toNat <<< 2 ||| (isKeyPressed down .rControl).toNat <<< 3 |||
    (isKeyPressed down .context).toNat <<< 4 ||| (isKeyPressed down .lAlt).toNat <<< 5 |||
    (isKeyPressed down .rAlt).toNat <<< 6 ||| (isKeyPressed down .lSuper).toNat <<< 7 |||
    (isKeyPressed down .rSuper).toNat <<< 8

/-! ## The tables -/

/-- the keys of the bits of `NkModifierKeys`, in their order -/
def modifierKeys : List NkKeyboardKey :=
  [.lShift, .rShift, .lControl, .rControl, .context, .lAlt, .rAlt, .lSuper, .rSuper]

theorem lookup_mem {A B : Type} [BEq A] [LawfulBEq A] {l : List (A × B)} {a : A} {b : B} (h : l.lookup a = some b) :
    (a, b) ∈ l := by
  induction l with
  | nil => cases h
  | cons p l ih =>
    rw [List.lookup_cons] at h
    cases hbeq : a == p.1 with
    | true =>
      rw [hbeq] at h
      obtain rfl := eq_of_beq hbeq
      obtain rfl := Option.some.inj h
      exact List.mem_cons_self
    | false =>
      rw [hbeq] at h
      exact List.mem_cons_of_mem p (ih h)

/-- a table of codes that another table takes back -/
theorem lookup_inverse {A B : Type} [BEq A] [LawfulBEq A] [BEq B] {there : List (A × B)} {back : List (B × A)} {a : A}
    {none : B} (hback : ∀ p ∈ there, back.lookup p.2 = some p.1) (h : (there.lookup a).getD none ≠ none) (other : A) :
    (back.lookup ((there.lookup a).getD none)).getD other = a := by
  cases hlook : there.lookup a with
  | none =>
    rw [hlook] at h
    exact absurd rfl h
  | some b => rw [Option.getD_some, hback _ (lookup_mem hlook), Option.getD_some]

theorem testBit_toNat_shiftLeft (b : Bool) (i j : ℕ) : (b.toNat <<< i).testBit j = (b && decide (i = j)) := by
  rw [Nat.testBit_shiftLeft]
  rcases lt_trichotomy j i with h | rfl | h
  · simp [h.not_ge, h.ne']
  · cases b <;> simp
  · obtain ⟨k, rfl⟩ := Nat.exists_eq_add_of_lt h
    have hne : i ≠ i + k + 1 := by omega
    cases b <;> simp [hne, Nat.testBit_succ, show i + k + 1 - i = k + 1 by omega]

/-- a modifier has the bit of its place in the list, and there are no other bits -/
theorem testBit_modifierKeys (down : KeyState) (i : ℕ) :
    (getModifierKeyStates down).testBit i = (modifierKeys[i]?.any (isKeyPressed down)) := by
  unfold getModifierKeyStates
  simp only [Nat.testBit_or, testBit_toNat_shiftLeft]
  match i with
  | 0 | 1 | 2 | 3 | 4 | 5 | 6 | 7 | 8 => simp [modifierKeys]
  | i + 9 => simp [modifierKeys]

/-- both translations agree on what has an entry, an event's key is the one that is polled, only the context key has no
code, and each modifier has its own bit -/
theorem keys_agree :
    (∀ nt : ℤ, mapFromNativeKey nt ≠ .unknown → (mapToNativeKey (mapFromNativeKey nt) : ℤ) = nt % 0x400) ∧
    (∀ k, mapToNativeKey k ≠ 0 → mapFromNativeKey (mapToNativeKey k) = k) ∧
    (∀ k, mapToNativeKey k = 0 ↔ k = .unknown ∨ k = .context) ∧
    (∀ nt : ℤ, mapFromNativeMouseButton nt ≠ .unknown →
      (mapToNativeMouseButton (mapFromNativeMouseButton nt) : ℤ) = nt % 0x20) ∧
    (∀ b, mapFromNativeMouseButton (mapToNativeMouseButton b) = b) ∧
    (∀ (down : KeyState) (nt : ℤ), mapFromNativeKey nt ≠ .unknown →
      isKeyPressed down (mapFromNativeKey nt) = down (nt % 0x400).toNat) ∧
    ∀ (down : KeyState) (i : ℕ), (getModifierKeyStates down).testBit i = modifierKeys[i]?.any (isKeyPressed down) := by
  have hkey : ∀ nt : ℤ, mapFromNativeKey nt ≠ .unknown → mapToNativeKey (mapFromNativeKey nt) = (nt % 0x400).toNat :=
    fun nt h => lookup_inverse (by decide +kernel) h 0
  refine ⟨fun nt h => ?_, fun k h => ?_, fun k => ?_, fun nt h => ?_, fun b => ?_, fun down nt h => ?_,
    testBit_modifierKeys⟩
  · rw [hkey nt h, Int.toNat_of_nonneg (Int.emod_nonneg nt (by decide))]
  · cases k <;> first | rfl | exact absurd rfl h
  · cases k <;> decide
  · have hbtn : mapToNativeMouseButton (mapFromNativeMouseButton nt) = (nt % 0x20).toNat := lookup_inverse (by decide) h 0
    rw [hbtn, Int.toNat_of_nonneg (Int.emod_nonneg nt (by decide))]
  · cases b <;> rfl
  · rw [isKeyPressed, hkey nt h]

end Input

end Noriko
