/-
Comparison of string views (`NkStringViewCompare` of `util.c`).

A view is two words in memory, the address and the number of its bytes. Views of the same size are compared by `strncmp`,
which stops at a `NUL` that both have, while a view can have bytes behind a `NUL`.

The comparison is an equivalence, but it is the equality of the bytes exactly for views without a difference behind a common
`NUL` (`stringViewCompare_right_iff`).
-/
import Noriko.Def
import Noriko.Lib.CString

namespace Noriko

open Lib

/-! ## The code -/

/-- the view that a pointer points to -/
def viewAt (mem : ℕ → UInt8) (svPtr : ℕ) : NkStringView :=
  { dataPtr := field mem svPtr 8, sizeInBytes := field mem (svPtr + 8) 8 }

/-- `NkStringViewCompare` -/
def stringViewCompare (mem : ℕ → UInt8) (sv1Ptr sv2Ptr : ℕ) : ℤ :=
  let sv1 := viewAt mem sv1Ptr
  let sv2 := viewAt mem sv2Ptr
  if sv1Ptr = sv2Ptr ∨ sv1.sizeInBytes = sv2.sizeInBytes then
    if sv1.dataPtr = sv2.dataPtr then 0 else strncmp mem sv1.dataPtr sv2.dataPtr sv1.sizeInBytes
  else 1

/-! ## What it compares -/

/-- the bytes of a view -/
def NkStringView.bytes (mem : ℕ → UInt8) (v : NkStringView) : List UInt8 := cells mem v.dataPtr v.sizeInBytes

/-- a difference behind a common `NUL` -/
def HiddenDifference (l l' : List UInt8) : Prop :=
  ∃ t r r', l = t ++ 0 :: r ∧ l' = t ++ 0 :: r' ∧ r.length = r'.length ∧ r ≠ r'

/-- texts of one size that look equal are equal, or they have a hidden difference -/
theorem hiddenDifference_iff {l l' : List UInt8} (hlen : l.length = l'.length) :
    HiddenDifference l l' ↔ visible l = visible l' ∧ l ≠ l' := by
  constructor
  · rintro ⟨t, r, r', rfl, rfl, -, hne⟩
    refine ⟨?_, fun h => hne (List.cons.inj (List.append_cancel_left h)).2⟩
    clear hlen
    induction t with
    | nil => rfl
    | cons b t ih =>
      by_cases hb : b = 0
      · rw [hb]
        rfl
      · rw [List.cons_append, List.cons_append, visible_cons hb, visible_cons hb, ih]
  · rintro ⟨hvis, hne⟩
    induction l generalizing l' with
    | nil => exact absurd (List.eq_nil_of_length_eq_zero hlen.symm).symm hne
    | cons b l ih =>
      obtain ⟨b', l', rfl⟩ := List.exists_cons_of_length_eq_add_one hlen.symm
      have hlen' : l.length = l'.length := Nat.succ.inj hlen
      by_cases hb : b = 0
      · have hb' : b' = 0 := by
          by_contra hb'
          rw [hb, visible_zero, visible_cons hb'] at hvis
          cases hvis
        subst hb hb'
        exact ⟨[], l, l', rfl, rfl, hlen', fun h => hne (by rw [h])⟩
      · have hb' : b' ≠ 0 := by
          intro hb'
          rw [hb', visible_zero, visible_cons hb] at hvis
          cases hvis
        rw [visible_cons hb, visible_cons hb'] at hvis
        obtain ⟨rfl, hvis'⟩ := List.cons.inj hvis
        obtain ⟨t, r, r', rfl, rfl, hr⟩ := ih hlen' hvis' fun h => hne (by rw [h])
        exact ⟨b :: t, r, r', rfl, rfl, hr⟩

section Compare

variable {mem : ℕ → UInt8} {p q : ℕ}

/-- the comparison sees the size and the bytes in front of the first `NUL` -/
theorem stringViewCompare_eq_zero : stringViewCompare mem p q = 0 ↔
    (viewAt mem p).sizeInBytes = (viewAt mem q).sizeInBytes ∧
      visible ((viewAt mem p).bytes mem) = visible ((viewAt mem q).bytes mem) := by
  unfold stringViewCompare NkStringView.bytes
  by_cases hsize : (viewAt mem p).sizeInBytes = (viewAt mem q).sizeInBytes
  · simp only [hsize, or_true, if_true, true_and]
    by_cases hdata : (viewAt mem p).dataPtr = (viewAt mem q).dataPtr
    · simp [hdata]
    · rw [if_neg hdata, strncmp_eq_zero]
  · have hptr : p ≠ q := by
      rintro rfl
      exact hsize rfl
    simp [hptr, hsize]

/-- views are compared byte by byte -/
def CompareRight (mem : ℕ → UInt8) (sv1Ptr sv2Ptr : ℕ) : Prop :=
  stringViewCompare mem sv1Ptr sv2Ptr = 0 ↔
    (viewAt mem sv1Ptr).sizeInBytes = (viewAt mem sv2Ptr).sizeInBytes ∧
      ∀ i < (viewAt mem sv1Ptr).sizeInBytes, mem ((viewAt mem sv1Ptr).dataPtr + i) = mem ((viewAt mem sv2Ptr).dataPtr + i)

instance (mem : ℕ → UInt8) (sv1Ptr sv2Ptr : ℕ) : Decidable (CompareRight mem sv1Ptr sv2Ptr) :=
  inferInstanceAs (Decidable (_ ↔ _))

/-- views of different sizes hide nothing from each other -/
theorem not_hidden_of_size_ne (h : (viewAt mem p).sizeInBytes ≠ (viewAt mem q).sizeInBytes) :
    ¬ HiddenDifference ((viewAt mem p).bytes mem) ((viewAt mem q).bytes mem) := by
  rintro ⟨t, r, r', hp, hq, hr, -⟩
  have hlp := congrArg List.length hp
  have hlq := congrArg List.length hq
  simp only [NkStringView.bytes, length_cells, List.length_append, List.length_cons] at hlp hlq
  omega

theorem compareRight_iff : CompareRight mem p q ↔
    ¬ HiddenDifference ((viewAt mem p).bytes mem) ((viewAt mem q).bytes mem) := by
  unfold CompareRight
  rw [stringViewCompare_eq_zero]
  by_cases hsize : (viewAt mem p).sizeInBytes = (viewAt mem q).sizeInBytes
  · have hlen : ((viewAt mem p).bytes mem).length = ((viewAt mem q).bytes mem).length := by
      simpa [NkStringView.bytes] using hsize
    have hbytes : (∀ i < (viewAt mem p).sizeInBytes, mem ((viewAt mem p).dataPtr + i) = mem ((viewAt mem q).dataPtr + i)) ↔
        (viewAt mem p).bytes mem = (viewAt mem q).bytes mem := by
      unfold NkStringView.bytes
      rw [← hsize, cells_eq_iff]
    rw [hbytes, hiddenDifference_iff hlen]
    constructor
    · intro h hhidden
      exact hhidden.2 (h.1 ⟨hsize, hhidden.1⟩).2
    · intro h
      refine ⟨fun hvis => ⟨hsize, ?_⟩, fun heq => ⟨hsize, congrArg visible heq.2⟩⟩
      by_contra hne
      exact h ⟨hvis.2, hne⟩
  · have hnone := not_hidden_of_size_ne hsize
    simp [hsize, hnone]

/-- the comparison is an equivalence; it goes by all bytes exactly if no difference is hidden behind a `NUL` -/
theorem stringViewCompare_right_iff (mem : ℕ → UInt8) :
    Equivalence (fun sv1Ptr sv2Ptr => stringViewCompare mem sv1Ptr sv2Ptr = 0) ∧
      ∀ sv1Ptr sv2Ptr, CompareRight mem sv1Ptr sv2Ptr ↔
        ¬ HiddenDifference ((viewAt mem sv1Ptr).bytes mem) ((viewAt mem sv2Ptr).bytes mem) := by
  refine ⟨⟨fun p => ?_, fun {p q} h => ?_, fun {p q r} h h' => ?_⟩, fun p q => compareRight_iff⟩
  · exact stringViewCompare_eq_zero.2 ⟨rfl, rfl⟩
  · obtain ⟨hsize, hvis⟩ := stringViewCompare_eq_zero.1 h
    exact stringViewCompare_eq_zero.2 ⟨hsize.symm, hvis.symm⟩
  · obtain ⟨hsize, hvis⟩ := stringViewCompare_eq_zero.1 h
    obtain ⟨hsize', hvis'⟩ := stringViewCompare_eq_zero.1 h'
    exact stringViewCompare_eq_zero.2 ⟨hsize.trans hsize', hvis.trans hvis'⟩

/-- two views of three bytes, and their bytes: `a`, `NUL`, `b` and `a`, `NUL`, `c` -/
def nulViews : ℕ → UInt8 := fun k => (le 8 32 ++ le 8 3 ++ le 8 35 ++ le 8 3 ++ [0x61, 0, 0x62, 0x61, 0, 0x63]).getD k 0

/-- the two views compare equal although their last bytes differ -/
theorem nulViews_compare : stringViewCompare nulViews 0 16 = 0 ∧ ¬ CompareRight nulViews 0 16 := by decide

end Compare

end Noriko
