/-
Reversing a range of a vector (`NkVectorReverse` of `dstruct/vector.c`).

Two indices start at the ends of the range and move towards each other until they are equal. In a range with an even
number of elements they pass each other and never meet, not even when they wrap, so the call runs out of the range and
does not return. `reverses_iff`: a range is reversed, and a second call restores it, exactly if its number of elements is
odd.
-/
import Noriko.Dstruct.Vector
import Noriko.Lib.Rearrange
import Mathlib.Data.Nat.Bitwise

namespace Noriko.Dstruct

open Lib

variable {E : Type}

/-! ## The code -/

/-- the loop of `NkVectorReverse`, with at most `rounds` rounds: the buffer and the indices it read and wrote -/
def reverseLoop : ℕ → ℕ → ℕ → (ℕ → E) → Option ((ℕ → E) × List ℕ)
  | rounds, i, j, arr =>
    if i ^^^ j ≠ 0 then
      match rounds with
      | 0 => none
      | rounds + 1 =>
        (reverseLoop rounds (u64 (i + 1)) (sub64 j 1) (swapCells arr i j)).map fun r => (r.1, i :: j :: r.2)
    else some (arr, [])

/-- `NkVectorReverse`, if it returns within the given number of rounds: the vector and the indices read and written -/
def vectorReverse (v : Vector E) (sInd eInd rounds : ℕ) : Option (Vector E × List ℕ) :=
  (reverseLoop rounds sInd eInd v.dataPtr.mem).map fun r => ({ v with dataPtr := { v.dataPtr with mem := r.1 } }, r.2)

/-! ## The loop -/

section Loop

variable {i j : ℕ} {arr : ℕ → E}

theorem reverseLoop_eq (h : i = j) (rounds : ℕ) : reverseLoop rounds i j arr = some (arr, []) := by
  unfold reverseLoop
  rw [if_neg (not_not.2 (Nat.xor_eq_zero_iff.2 h))]

theorem reverseLoop_zero (h : i ≠ j) : reverseLoop 0 i j arr = none := by
  unfold reverseLoop
  rw [if_pos (mt Nat.xor_eq_zero_iff.1 h)]

theorem reverseLoop_succ (h : i ≠ j) (rounds : ℕ) : reverseLoop (rounds + 1) i j arr =
    (reverseLoop rounds (u64 (i + 1)) (sub64 j 1) (swapCells arr i j)).map fun r => (r.1, i :: j :: r.2) := by
  conv_lhs => unfold reverseLoop
  rw [if_pos (mt Nat.xor_eq_zero_iff.1 h)]

/-- indices that are an even number of steps apart meet in the middle -/
theorem reverseLoop_even (n : ℕ) (hj : j < 2 ^ 64) (h : j = i + 2 * n) :
    ∃ touched, reverseLoop n i j arr = some (mirror i j arr, touched) ∧ ∀ k ∈ touched, i ≤ k ∧ k ≤ j := by
  induction n generalizing i j arr with
  | zero =>
    have heq : i = j := by omega
    refine ⟨[], ?_, by simp⟩
    rw [reverseLoop_eq heq, heq, mirror_self]
  | succ n ih =>
    have hi1 : u64 (i + 1) = i + 1 := u64_of_lt (by omega)
    have hj1 : sub64 j 1 = j - 1 := sub64_of_le (by omega) hj
    have hj' : j - 1 < 2 ^ 64 := by omega
    have hmeet : j - 1 = i + 1 + 2 * n := by omega
    obtain ⟨touched, hloop, hin⟩ : ∃ touched, reverseLoop n (i + 1) (j - 1) (swapCells arr i j) =
        some (mirror (i + 1) (j - 1) (swapCells arr i j), touched) ∧ ∀ k ∈ touched, i + 1 ≤ k ∧ k ≤ j - 1 := ih hj' hmeet
    refine ⟨i :: j :: touched, ?_, ?_⟩
    · rw [reverseLoop_succ (by omega), hi1, hj1, hloop, mirror_swapCells arr (by omega)]
      rfl
    · intro k hk
      rcases List.mem_cons.1 hk with rfl | hk
      · omega
      rcases List.mem_cons.1 hk with rfl | hk
      · omega
      · have := hin k hk
        omega

/-- indices whose sum is odd never meet: a step changes the parity of both, and so does a wrap -/
theorem reverseLoop_odd (rounds : ℕ) (h : (i + j) % 2 = 1) : reverseLoop rounds i j arr = none := by
  induction rounds generalizing i j arr with
  | zero => exact reverseLoop_zero (by omega)
  | succ rounds ih =>
    have hnext : (u64 (i + 1) + sub64 j 1) % 2 = 1 := by
      unfold sub64 u64
      omega
    rw [reverseLoop_succ (by omega), ih hnext]
    rfl

end Loop

/-! ## Result -/

section Result

variable {v w : Vector E} {sInd eInd : ℕ}

/-- the call returns with the elements of the range in reverse order and touched no others -/
def ReversesTo (v : Vector E) (sInd eInd : ℕ) (w : Vector E) : Prop :=
  ∃ rounds touched, vectorReverse v sInd eInd rounds = some (w, touched) ∧
    (∀ k ≤ eInd - sInd, w.dataPtr.mem (sInd + k) = v.dataPtr.mem (eInd - k)) ∧
    (∀ k, k < sInd ∨ eInd < k → w.dataPtr.mem k = v.dataPtr.mem k) ∧ ∀ k ∈ touched, sInd ≤ k ∧ k ≤ eInd

/-- the range is reversed, and a second call restores the vector -/
def Reverses (v : Vector E) (sInd eInd : ℕ) : Prop := ∃ w, ReversesTo v sInd eInd w ∧ ReversesTo w sInd eInd v

theorem reversesTo_mirror (n : ℕ) (he : eInd < 2 ^ 64) (h : eInd = sInd + 2 * n) :
    ReversesTo v sInd eInd { v with dataPtr := { v.dataPtr with mem := mirror sInd eInd v.dataPtr.mem } } := by
  obtain ⟨touched, hloop, hin⟩ : ∃ touched, reverseLoop n sInd eInd v.dataPtr.mem =
      some (mirror sInd eInd v.dataPtr.mem, touched) ∧ ∀ k ∈ touched, sInd ≤ k ∧ k ≤ eInd := reverseLoop_even n he h
  refine ⟨n, touched, ?_, ?_, ?_, hin⟩
  · rw [vectorReverse, hloop]
    rfl
  · intro k hk
    dsimp only
    rw [mirror_inside _ (by omega) (by omega)]
    congr 1
    omega
  · intro k hk
    exact mirror_outside _ hk

/-- A range of a vector is reversed exactly if its number of elements is odd. -/
theorem reverses_iff (hcount : v.elemCount < 2 ^ 64) (hle : sInd ≤ eInd) (hlt : eInd < v.elemCount) :
    Reverses v sInd eInd ↔ (eInd - sInd) % 2 = 0 := by
  constructor
  · rintro ⟨w, ⟨rounds, touched, hcall, -⟩, -⟩
    by_contra hodd
    obtain ⟨r, hloop, -⟩ := Option.map_eq_some_iff.1 hcall
    rw [reverseLoop_odd rounds (by omega)] at hloop
    cases hloop
  · intro heven
    obtain ⟨n, hn⟩ : ∃ n, eInd = sInd + 2 * n := ⟨(eInd - sInd) / 2, by omega⟩
    refine ⟨_, reversesTo_mirror n (by omega) hn, ?_⟩
    have hback := reversesTo_mirror (v := { v with dataPtr := { v.dataPtr with mem := mirror sInd eInd v.dataPtr.mem } })
      n (by omega) hn
    dsimp only at hback
    rwa [mirror_mirror] at hback

/-- three elements -/
def threeElems : Vector ℕ := ⟨3, 4, ⟨40, 4, 1, 8, 2⟩, false, ⟨64, 32, fun k => 7 + k⟩⟩

theorem reverses_three : Reverses threeElems 0 2 := by
  apply (reverses_iff (by decide) (by decide) (by decide)).2
  decide

/-- the first two elements: the indices pass each other -/
theorem reverses_broken : ¬ ∀ (v : Vector ℕ) (sInd eInd : ℕ), v.elemCount < 2 ^ 64 → sInd ≤ eInd → eInd < v.elemCount →
    Reverses v sInd eInd := by
  intro hall
  obtain ⟨w, ⟨rounds, touched, hcall, -⟩, -⟩ := hall threeElems 0 1 (by decide) (by decide) (by decide)
  obtain ⟨r, hloop, -⟩ := Option.map_eq_some_iff.1 hcall
  rw [reverseLoop_odd rounds (by decide)] at hloop
  cases hloop

end Result

end Noriko.Dstruct
