/-
The partition step of quicksort (`__NkInt_QuicksortSplit` of `sort.c`).

The last element of the range is the pivot. Two indices run towards each other; elements that stand on the wrong side
are exchanged. The scans list the indices they read. `splitLoop` answers nothing if the rounds it is given do not
suffice, as it may happen for ever with a comparator that is no order.

For a total preorder, `quicksortSplit_spec` says that the step returns, stays in the range and separates it. It answers
the first index exactly if the pivot is less than everything before it.
-/
import Noriko.Dstruct.Vector
import Noriko.Lib.Rearrange

namespace Noriko.Sort

open Lib Dstruct

/-! ## The code -/

section Code

variable {E : Type} (fnPred : E → E → ℤ)

/-- `while (i < j && fnPred(ptrArray[i], pivot) <= 0) ++i;` with `n = j - i`: the index and the indices read -/
def scanUp (arr : ℕ → E) (pivot : E) : ℕ → ℕ → ℕ × List ℕ
  | 0, i => (i, [])
  | n + 1, i =>
    if fnPred (arr i) pivot ≤ 0 then
      let r := scanUp arr pivot n (i + 1)
      (r.1, i :: r.2)
    else (i, [i])

/-- `while (j > i && fnPred(ptrArray[j], pivot) > 0) --j;` -/
def scanDown (arr : ℕ → E) (pivot : E) (i : ℕ) : ℕ → ℕ × List ℕ
  | 0 => (0, [])
  | j + 1 =>
    if j + 1 > i then
      if fnPred (arr (j + 1)) pivot > 0 then
        let r := scanDown arr pivot i j
        (r.1, (j + 1) :: r.2)
      else (j + 1, [j + 1])
    else (j + 1, [])

/-- what a partition step leaves: an index, the array and the indices it read or wrote -/
structure Split (E : Type) where
  ind : ℕ
  arr : ℕ → E
  touched : List ℕ

/-- the outer loop; it ends with both indices on `ind` -/
def splitLoop (pivot : E) : ℕ → ℕ → ℕ → (ℕ → E) → Option (Split E)
  | rounds, i, j, arr =>
    if i < j then
      match rounds with
      | 0 => none
      | rounds + 1 =>
        let up := scanUp fnPred arr pivot (j - i) i
        let down := scanDown fnPred arr pivot up.1 j
        let arr' := if fnPred (arr up.1) (arr down.1) > 0 then swapCells arr up.1 down.1 else arr
        (splitLoop pivot rounds up.1 down.1 arr').map fun r =>
          { r with touched := up.2 ++ down.2 ++ [up.1, down.1] ++ r.touched }
    else some ⟨i, arr, []⟩

/-- `__NkInt_QuicksortSplit`, with at most `rounds` rounds of its loop -/
def quicksortSplit (rounds : ℕ) (arr : ℕ → E) (left right : ℕ) : Option (Split E) :=
  let pivot := arr right
  (splitLoop fnPred pivot rounds left (sub64 right 1) arr).map fun r =>
    if fnPred (r.arr r.ind) pivot > 0 then
      ⟨r.ind, swapCells r.arr r.ind right, right :: (r.touched ++ [r.ind, right])⟩
    else ⟨right, r.arr, right :: (r.touched ++ [r.ind])⟩

end Code

/-! ## The scans -/

section Scans

variable {E : Type}

/-- the scan from `i` passes elements that are not above the pivot, and stops before `stop` only at one that is -/
structure ScannedUp (fnPred : E → E → ℤ) (arr : ℕ → E) (pivot : E) (i stop : ℕ) (r : ℕ × List ℕ) : Prop where
  low : i ≤ r.1
  high : r.1 ≤ stop
  passed : ∀ k, i ≤ k → k < r.1 → fnPred (arr k) pivot ≤ 0
  stopped : r.1 < stop → 0 < fnPred (arr r.1) pivot
  reads : ∀ k ∈ r.2, i ≤ k ∧ k < stop

theorem scanUp_spec (fnPred : E → E → ℤ) (arr : ℕ → E) (pivot : E) (n i : ℕ) :
    ScannedUp fnPred arr pivot i (i + n) (scanUp fnPred arr pivot n i) := by
  induction n generalizing i with
  | zero => exact ⟨le_rfl, le_rfl, fun k h1 h2 => absurd h1 (not_le.2 h2), fun h => absurd h (lt_irrefl i), by simp [scanUp]⟩
  | succ n ih =>
    unfold scanUp
    by_cases hle : fnPred (arr i) pivot ≤ 0
    · obtain ⟨hlow, hhigh, hpassed, hstopped, hreads⟩ := ih (i + 1)
      rw [if_pos hle]
      dsimp only
      refine ⟨by omega, by omega, fun k h1 h2 => ?_, fun h => hstopped (by omega), fun k hk => ?_⟩
      · rcases Nat.eq_or_lt_of_le h1 with rfl | hlt
        · exact hle
        · exact hpassed k hlt h2
      · rcases List.mem_cons.1 hk with rfl | hk
        · omega
        · have := hreads k hk
          omega
    · rw [if_neg hle]
      refine ⟨le_rfl, by omega, fun k h1 h2 => absurd h1 (not_le.2 h2), fun _ => not_le.1 hle, fun k hk => ?_⟩
      rw [List.mem_singleton.1 hk]
      omega

theorem scanUp_between (fnPred : E → E → ℤ) (arr : ℕ → E) (pivot : E) {i j : ℕ} (h : i ≤ j) :
    ScannedUp fnPred arr pivot i j (scanUp fnPred arr pivot (j - i) i) := by
  have hspec := scanUp_spec fnPred arr pivot (j - i) i
  rwa [Nat.add_sub_cancel' h] at hspec

/-- the scan from `j` passes elements above the pivot, and stops behind `i` only at one that is not -/
structure ScannedDown (fnPred : E → E → ℤ) (arr : ℕ → E) (pivot : E) (i j : ℕ) (r : ℕ × List ℕ) : Prop where
  low : i ≤ r.1
  high : r.1 ≤ j
  passed : ∀ k, r.1 < k → k ≤ j → 0 < fnPred (arr k) pivot
  stopped : i < r.1 → fnPred (arr r.1) pivot ≤ 0
  reads : ∀ k ∈ r.2, i < k ∧ k ≤ j

theorem scanDown_spec (fnPred : E → E → ℤ) (arr : ℕ → E) (pivot : E) {i j : ℕ} (h : i ≤ j) :
    ScannedDown fnPred arr pivot i j (scanDown fnPred arr pivot i j) := by
  induction j with
  | zero => exact ⟨h, le_rfl, fun k h1 h2 => absurd h1 (not_lt.2 h2), fun hi => absurd hi (not_lt.2 (Nat.zero_le i)),
      by simp [scanDown]⟩
  | succ j ih =>
    unfold scanDown
    by_cases hgt : j + 1 > i
    · rw [if_pos hgt]
      by_cases hpos : fnPred (arr (j + 1)) pivot > 0
      · obtain ⟨hlow, hhigh, hpassed, hstopped, hreads⟩ := ih (by omega)
        rw [if_pos hpos]
        dsimp only
        refine ⟨hlow, by omega, fun k h1 h2 => ?_, hstopped, fun k hk => ?_⟩
        · rcases Nat.eq_or_lt_of_le h2 with rfl | hlt
          · exact hpos
          · exact hpassed k h1 (by omega)
        · rcases List.mem_cons.1 hk with rfl | hk
          · omega
          · have := hreads k hk
            omega
      · rw [if_neg hpos]
        refine ⟨h, le_rfl, fun k h1 h2 => absurd h1 (not_lt.2 h2), fun _ => not_lt.1 hpos, fun k hk => ?_⟩
        rw [List.mem_singleton.1 hk]
        omega
    · rw [if_neg hgt]
      exact ⟨h, le_rfl, fun k h1 h2 => absurd h1 (not_lt.2 h2), fun hi => absurd hi hgt, by simp⟩

end Scans

/-! ## The loop -/

/-- the comparator is a total preorder: its sign is consistent, it is transitive, and equal elements give zero -/
structure TotalPreorder {E : Type} (fnPred : E → E → ℤ) : Prop where
  refl : ∀ x, fnPred x x = 0
  sign : ∀ x y, 0 < fnPred x y ↔ fnPred y x < 0
  trans : ∀ x y z, fnPred x y ≤ 0 → fnPred y z ≤ 0 → fnPred x z ≤ 0

section Loop

variable {E : Type} {fnPred : E → E → ℤ} {a arr : ℕ → E} {s e i j : ℕ}

/-- above the pivot, not above the pivot -/
theorem TotalPreorder.pos_of_pos_of_le (hcmp : TotalPreorder fnPred) {x y p : E} (hx : 0 < fnPred x p)
    (hy : fnPred y p ≤ 0) : 0 < fnPred x y := by
  by_contra hle
  exact absurd (hcmp.trans x y p (not_lt.1 hle) hy) (not_le.2 hx)

/-- what holds whenever the outer loop tests its condition: `a` is the array before the step, and its cell `e` the pivot -/
structure LoopInv (fnPred : E → E → ℤ) (a : ℕ → E) (s e i j : ℕ) (arr : ℕ → E) : Prop where
  low : s ≤ i
  le : i ≤ j
  high : j < e
  rearranged : Rearranged s e a arr
  below : ∀ k, s ≤ k → k < i → fnPred (arr k) (a e) ≤ 0
  above : ∀ k, j < k → k < e → 0 < fnPred (arr k) (a e)
  /-- unless `j` has not moved and nothing was exchanged yet -/
  last : j + 1 = e ∨ 0 < fnPred (arr j) (a e)
  /-- an element that is not above the pivot does not move up -/
  settled : ∀ k, s ≤ k → k < e → fnPred (a k) (a e) ≤ 0 → ∃ m, s ≤ m ∧ m ≤ k ∧ arr m = a k

theorem loopInv_init (fnPred : E → E → ℤ) (a : ℕ → E) (h : s < e) : LoopInv fnPred a s e s (e - 1) a where
  low := le_rfl
  le := by omega
  high := by omega
  rearranged := Rearranged.refl s e a
  below k h1 h2 := absurd h1 (not_le.2 h2)
  above k h1 h2 := by omega
  last := Or.inl (by omega)
  settled k hk _ _ := ⟨k, hk, le_rfl, rfl⟩

/-- the state after one round: both indices have met, or an element on either side was exchanged -/
theorem LoopInv.round (hcmp : TotalPreorder fnPred) (h : LoopInv fnPred a s e i j arr) {up down : ℕ × List ℕ}
    (hup : ScannedUp fnPred arr (a e) i j up) (hdown : ScannedDown fnPred arr (a e) up.1 j down) :
    let arr' := if fnPred (arr up.1) (arr down.1) > 0 then swapCells arr up.1 down.1 else arr
    LoopInv fnPred a s e up.1 down.1 arr' ∧ (up.1 = down.1 ∨ fnPred (arr' up.1) (a e) ≤ 0) := by
  have hi := hup.low
  have hj := hdown.high
  have hle := hdown.low
  have hlow := h.low
  have hhigh := h.high
  have hbelow : ∀ k, s ≤ k → k < up.1 → fnPred (arr k) (a e) ≤ 0 := by
    intro k h1 h2
    by_cases hk : k < i
    · exact h.below k h1 hk
    · exact hup.passed k (not_lt.1 hk) h2
  have habove : ∀ k, down.1 < k → k < e → 0 < fnPred (arr k) (a e) := by
    intro k h1 h2
    by_cases hk : j < k
    · exact h.above k hk h2
    · exact hdown.passed k h1 (not_lt.1 hk)
  intro arr'
  by_cases hmet : up.1 = down.1
  · have hzero : ¬ fnPred (arr up.1) (arr down.1) > 0 := by
      rw [hmet, hcmp.refl]
      exact lt_irrefl 0
    have harr : arr' = arr := if_neg hzero
    rw [harr]
    refine ⟨⟨by omega, hle, by omega, h.rearranged, hbelow, habove, ?_, h.settled⟩, Or.inl hmet⟩
    rw [← hmet]
    by_cases hstop : up.1 < j
    · exact Or.inr (hup.stopped hstop)
    · have heq : up.1 = j := by omega
      rw [heq]
      exact h.last
  · have hlt : up.1 < down.1 := lt_of_le_of_ne hle hmet
    have hbig := hup.stopped (by omega)
    have hsmall := hdown.stopped hlt
    have harr : arr' = swapCells arr up.1 down.1 := if_pos (hcmp.pos_of_pos_of_le hbig hsmall)
    rw [harr]
    refine ⟨⟨by omega, hle, by omega, ?_, fun k h1 h2 => ?_, fun k h1 h2 => ?_, Or.inr ?_, fun k h1 h2 hk => ?_⟩, Or.inr ?_⟩
    · exact h.rearranged.trans (Rearranged.swapCells arr (by omega) (by omega) (by omega) (by omega))
    · rw [swapCells_of_ne arr (by omega) (by omega)]
      exact hbelow k h1 h2
    · rw [swapCells_of_ne arr (by omega) (by omega)]
      exact habove k h1 h2
    · rw [swapCells_right]
      exact hbig
    · -- it may be the one at `down`, which moves to `up`
      obtain ⟨m, hm₁, hm₂, hm⟩ := h.settled k h1 h2 hk
      have hne : m ≠ up.1 := by
        rintro rfl
        rw [hm] at hbig
        exact absurd hk (not_le.2 hbig)
      by_cases hdown : m = down.1
      · refine ⟨up.1, by omega, by omega, ?_⟩
        rw [swapCells_left, ← hdown, hm]
      · exact ⟨m, hm₁, hm₂, (swapCells_of_ne arr hne hdown).trans hm⟩
    · rw [swapCells_left]
      exact hsmall

theorem splitLoop_done (fnPred : E → E → ℤ) (pivot : E) (rounds : ℕ) (h : ¬ i < j) :
    splitLoop fnPred pivot rounds i j arr = some ⟨i, arr, []⟩ := by
  unfold splitLoop
  rw [if_neg h]

/-- what a round touches -/
theorem LoopInv.touched (h : LoopInv fnPred a s e i j arr) {up down : ℕ × List ℕ}
    (hup : ScannedUp fnPred arr (a e) i j up) (hdown : ScannedDown fnPred arr (a e) up.1 j down) :
    ∀ k ∈ up.2 ++ down.2 ++ [up.1, down.1], s ≤ k ∧ k < e := by
  obtain ⟨hup₁, hup₂, -, -, hreads⟩ := hup
  obtain ⟨hdown₁, hdown₂, -, -, hreads'⟩ := hdown
  have hlow := h.low
  have hhigh := h.high
  intro k hk
  simp only [List.mem_append, List.mem_cons, List.not_mem_nil, or_false, or_assoc] at hk
  rcases hk with hk | hk | rfl | rfl
  · have := hreads k hk
    omega
  · have := hreads' k hk
    omega
  · omega
  · omega

/-- a round in which there is something to pass at `i` moves `i` -/
theorem ScannedUp.moved {pivot : E} {up : ℕ × List ℕ} (hup : ScannedUp fnPred arr pivot i j up) (hij : i < j)
    (hpass : fnPred (arr i) pivot ≤ 0) : i < up.1 := by
  by_contra hstay
  have heq : up.1 = i := le_antisymm (not_lt.1 hstay) hup.low
  have hstop := hup.stopped (by omega)
  rw [heq] at hstop
  exact absurd hpass (not_le.2 hstop)

/-- The loop ends within `j - i` rounds, and one more if nothing at `i` is to be passed. -/
theorem splitLoop_spec (hcmp : TotalPreorder fnPred) (rounds : ℕ) (h : LoopInv fnPred a s e i j arr)
    (hrounds : j < i + rounds ∨ j ≤ i + rounds ∧ fnPred (arr i) (a e) ≤ 0) :
    ∃ r, splitLoop fnPred (a e) rounds i j arr = some r ∧ LoopInv fnPred a s e r.ind r.ind r.arr ∧
      ∀ k ∈ r.touched, s ≤ k ∧ k < e := by
  induction rounds generalizing i j arr with
  | zero =>
    have hle := h.le
    have heq : i = j := by omega
    subst heq
    exact ⟨⟨i, arr, []⟩, splitLoop_done fnPred _ 0 (lt_irrefl i), h, by simp⟩
  | succ rounds ih =>
    by_cases hij : i < j
    · have hup := scanUp_between fnPred arr (a e) hij.le
      have hdown := scanDown_spec fnPred arr (a e) hup.high
      have htouched := h.touched hup hdown
      unfold splitLoop
      rw [if_pos hij]
      dsimp only
      set up := scanUp fnPred arr (a e) (j - i) i
      set down := scanDown fnPred arr (a e) up.1 j
      set arr' := if fnPred (arr up.1) (arr down.1) > 0 then swapCells arr up.1 down.1 else arr
      obtain ⟨hinv, hmet⟩ : LoopInv fnPred a s e up.1 down.1 arr' ∧ (up.1 = down.1 ∨ fnPred (arr' up.1) (a e) ≤ 0) :=
        h.round hcmp hup hdown
      have hrest : ∃ r, splitLoop fnPred (a e) rounds up.1 down.1 arr' = some r ∧
          LoopInv fnPred a s e r.ind r.ind r.arr ∧ ∀ k ∈ r.touched, s ≤ k ∧ k < e := by
        rcases hmet with hmet | hsmall
        · rw [← hmet] at hinv ⊢
          exact ⟨⟨up.1, arr', []⟩, splitLoop_done fnPred _ rounds (lt_irrefl _), hinv, by simp⟩
        · refine ih hinv (Or.inr ⟨?_, hsmall⟩)
          have hhigh := hdown.high
          have hlow := hup.low
          rcases hrounds with hlt | ⟨hle, hpass⟩
          · omega
          · have hmoved := hup.moved hij hpass
            omega
      obtain ⟨r, hr, hinv', hrest⟩ := hrest
      rw [hr, Option.map_some]
      refine ⟨_, rfl, hinv', fun k hk => ?_⟩
      rcases List.mem_append.1 hk with hk | hk
      · exact htouched k hk
      · exact hrest k hk
    · have heq : i = j := le_antisymm h.le (not_lt.1 hij)
      subst heq
      exact ⟨⟨i, arr, []⟩, splitLoop_done fnPred _ _ (lt_irrefl i), h, by simp⟩

end Loop

/-! ## The step -/

section Step

variable {E : Type} {fnPred : E → E → ℤ} {a : ℕ → E} {s e : ℕ}

/-- what the step leaves of the range `s` to `e`, both included, of `a` -/
structure SplitDone (fnPred : E → E → ℤ) (a : ℕ → E) (s e : ℕ) (sp : Split E) : Prop where
  low : s ≤ sp.ind
  high : sp.ind ≤ e
  rearranged : Rearranged s (e + 1) a sp.arr
  below : ∀ k, s ≤ k → k < sp.ind → fnPred (sp.arr k) (sp.arr sp.ind) ≤ 0
  above : ∀ k, sp.ind < k → k ≤ e → 0 < fnPred (sp.arr k) (sp.arr sp.ind)
  touched : ∀ k ∈ sp.touched, s ≤ k ∧ k ≤ e
  first : sp.ind = s ↔ ∀ k, s ≤ k → k < e → 0 < fnPred (a k) (a e)
  settled : ∀ k, s ≤ k → k < e → fnPred (a k) (a e) ≤ 0 → ∃ m, s ≤ m ∧ m ≤ k ∧ sp.arr m = a k

/-- the element where the indices met is above the pivot: they are exchanged -/
theorem LoopInv.exchange {arr : ℕ → E} {i : ℕ} (h : LoopInv fnPred a s e i i arr) (hpos : 0 < fnPred (arr i) (a e))
    {touched : List ℕ} (ht : ∀ k ∈ touched, s ≤ k ∧ k ≤ e) : SplitDone fnPred a s e ⟨i, swapCells arr i e, touched⟩ := by
  have hlow := h.low
  have hhigh := h.high
  have hpivot : arr e = a e := h.rearranged.outside (Or.inr le_rfl)
  refine ⟨hlow, hhigh.le, ?_, fun k h1 h2 => ?_, fun k h1 h2 => ?_, ht, ?_, fun k h1 h2 hk => ?_⟩
  · exact (h.rearranged.mono le_rfl (Nat.le_succ e)).trans
      (Rearranged.swapCells arr hlow (by omega) (by omega) (by omega))
  · dsimp only at h2 ⊢
    rw [swapCells_left, hpivot, swapCells_of_ne arr (by omega) (by omega)]
    exact h.below k h1 h2
  · dsimp only at h1 ⊢
    rw [swapCells_left, hpivot]
    rcases Nat.eq_or_lt_of_le h2 with rfl | hlt
    · rw [swapCells_right]
      exact hpos
    · rw [swapCells_of_ne arr (by omega) (by omega)]
      exact h.above k h1 hlt
  · constructor
    · intro (hfirst : i = s) k h1 h2
      refine h.rearranged.symm.forall_range (P := fun x => 0 < fnPred x (a e)) (fun k h1 h2 => ?_) h1 h2
      rcases Nat.eq_or_lt_of_le h1 with rfl | hlt
      · rw [← hfirst]
        exact hpos
      · exact h.above k (by omega) h2
    · intro hall
      by_contra hne
      have hlt : s < i := lt_of_le_of_ne hlow (Ne.symm hne)
      have hs := h.rearranged.forall_range (P := fun x => 0 < fnPred x (a e)) hall le_rfl (by omega)
      exact absurd (h.below s le_rfl hlt) (not_le.2 hs)
  · obtain ⟨m, hm₁, hm₂, hm⟩ := h.settled k h1 h2 hk
    have hne : m ≠ i := by
      rintro rfl
      rw [hm] at hpos
      exact absurd hk (not_le.2 hpos)
    exact ⟨m, hm₁, hm₂, (swapCells_of_ne arr hne (by omega)).trans hm⟩

/-- the element where the indices met is not above the pivot: nothing is, and the pivot stays -/
theorem LoopInv.keep {arr : ℕ → E} {i : ℕ} (h : LoopInv fnPred a s e i i arr) (hle : ¬ 0 < fnPred (arr i) (a e))
    {touched : List ℕ} (ht : ∀ k ∈ touched, s ≤ k ∧ k ≤ e) : SplitDone fnPred a s e ⟨e, arr, touched⟩ := by
  have hlow := h.low
  have hlast : i + 1 = e := h.last.resolve_right hle
  have hpivot : arr e = a e := h.rearranged.outside (Or.inr le_rfl)
  refine ⟨by dsimp only; omega, le_rfl, h.rearranged.mono le_rfl (Nat.le_succ e), fun k h1 h2 => ?_,
    fun k h1 h2 => absurd h1 (not_lt.2 h2), ht, ?_, h.settled⟩
  · dsimp only at h2 ⊢
    rw [hpivot]
    by_cases hk : k < i
    · exact h.below k h1 hk
    · have heq : k = i := by omega
      rw [heq]
      exact not_lt.1 hle
  · constructor
    · intro (hfirst : e = s)
      omega
    · intro hall
      exact absurd (h.rearranged.forall_range (P := fun x => 0 < fnPred x (a e)) hall hlow (by omega)) hle

/-- Within as many rounds as there are elements before the pivot, the step separates the range. -/
theorem quicksortSplit_spec (hcmp : TotalPreorder fnPred) (a : ℕ → E) (hse : s < e) (he : e < 2 ^ 64) (rounds : ℕ)
    (hrounds : e ≤ s + rounds) : ∃ sp, quicksortSplit fnPred rounds a s e = some sp ∧ SplitDone fnPred a s e sp := by
  obtain ⟨r, hr, hinv, htouched⟩ := splitLoop_spec hcmp rounds (loopInv_init fnPred a hse) (Or.inl (by omega))
  unfold quicksortSplit
  dsimp only
  rw [sub64_of_le (by omega) he, hr, Option.map_some]
  have hind : s ≤ r.ind ∧ r.ind ≤ e := ⟨hinv.low, hinv.high.le⟩
  refine ⟨_, rfl, ?_⟩
  by_cases hpos : fnPred (r.arr r.ind) (a e) > 0
  · rw [if_pos hpos]
    refine hinv.exchange hpos fun k hk => ?_
    simp only [List.mem_cons, List.mem_append, List.not_mem_nil, or_false] at hk
    rcases hk with rfl | hk | rfl | rfl
    · exact ⟨hse.le, le_rfl⟩
    · exact ⟨(htouched k hk).1, (htouched k hk).2.le⟩
    · exact hind
    · exact ⟨hse.le, le_rfl⟩
  · rw [if_neg hpos]
    refine hinv.keep hpos fun k hk => ?_
    simp only [List.mem_cons, List.mem_append, List.not_mem_nil, or_false] at hk
    rcases hk with rfl | hk | rfl
    · exact ⟨hse.le, le_rfl⟩
    · exact ⟨(htouched k hk).1, (htouched k hk).2.le⟩
    · exact hind

/-- the pivot is read -/
theorem right_mem_touched {rounds : ℕ} {sp : Split E} (h : quicksortSplit fnPred rounds a s e = some sp) :
    e ∈ sp.touched := by
  obtain ⟨r, -, rfl⟩ := Option.map_eq_some_iff.1 h
  split_ifs <;> exact List.mem_cons_self

end Step

/-! ## Rounds and cells that do not matter -/

section Frame

variable {E : Type} {fnPred : E → E → ℤ} {pivot : E} {a b : ℕ → E} {s e : ℕ}

theorem splitLoop_mono {rounds more i j : ℕ} {r : Split E} (h : splitLoop fnPred pivot rounds i j a = some r)
    (hle : rounds ≤ more) : splitLoop fnPred pivot more i j a = some r := by
  induction rounds generalizing more i j a r with
  | zero =>
    unfold splitLoop at h ⊢
    by_cases hij : i < j
    · rw [if_pos hij] at h
      cases h
    · rw [if_neg hij] at h ⊢
      exact h
  | succ rounds ih =>
    obtain ⟨more, rfl⟩ : ∃ m, more = m + 1 := ⟨more - 1, by omega⟩
    unfold splitLoop at h ⊢
    by_cases hij : i < j
    · rw [if_pos hij] at h ⊢
      obtain ⟨r', hr', rfl⟩ := Option.map_eq_some_iff.1 h
      dsimp only
      rw [ih hr' (by omega), Option.map_some]
    · rw [if_neg hij] at h ⊢
      exact h

/-- more rounds do not change the outcome -/
theorem quicksortSplit_unique {rounds rounds' : ℕ} {sp sp' : Split E} (h : quicksortSplit fnPred rounds a s e = some sp)
    (h' : quicksortSplit fnPred rounds' a s e = some sp') : sp = sp' := by
  obtain ⟨r, hr, rfl⟩ := Option.map_eq_some_iff.1 h
  obtain ⟨r', hr', rfl⟩ := Option.map_eq_some_iff.1 h'
  have hmax := splitLoop_mono hr (le_max_left rounds rounds')
  have hmax' := splitLoop_mono hr' (le_max_right rounds rounds')
  rw [Option.some.inj (hmax.symm.trans hmax')]

theorem splitDone_of_some (hcmp : TotalPreorder fnPred) (hse : s < e) (he : e < 2 ^ 64) {rounds : ℕ} {sp : Split E}
    (h : quicksortSplit fnPred rounds a s e = some sp) : SplitDone fnPred a s e sp := by
  obtain ⟨sp', hsp', hdone⟩ := quicksortSplit_spec hcmp a hse he e (Nat.le_add_left e s)
  rwa [quicksortSplit_unique h hsp']

/-- the cells from `s` to `e` are the same -/
def AgreeOn (s e : ℕ) (a b : ℕ → E) : Prop := ∀ k, s ≤ k → k ≤ e → a k = b k

theorem AgreeOn.mono {s' e' : ℕ} (h : AgreeOn s e a b) (hs : s ≤ s') (he : e' ≤ e) : AgreeOn s' e' a b :=
  fun k h1 h2 => h k (hs.trans h1) (h2.trans he)

theorem AgreeOn.swapCells {i j : ℕ} (h : AgreeOn s e a b) (hi : s ≤ i ∧ i ≤ e) (hj : s ≤ j ∧ j ≤ e) :
    AgreeOn s e (swapCells a i j) (swapCells b i j) := by
  intro k h1 h2
  by_cases hkj : k = j
  · rw [hkj, swapCells_right, swapCells_right, h i hi.1 hi.2]
  · by_cases hki : k = i
    · rw [hki, swapCells_left, swapCells_left, h j hj.1 hj.2]
    · rw [swapCells_of_ne a hki hkj, swapCells_of_ne b hki hkj, h k h1 h2]

theorem scanUp_congr (n : ℕ) {i : ℕ} (h : ∀ k, i ≤ k → k < i + n → a k = b k) :
    scanUp fnPred a pivot n i = scanUp fnPred b pivot n i := by
  induction n generalizing i with
  | zero => rfl
  | succ n ih =>
    unfold scanUp
    rw [h i le_rfl (by omega), ih fun k h1 h2 => h k (by omega) (by omega)]

theorem scanDown_congr {i j : ℕ} (h : ∀ k, i < k → k ≤ j → a k = b k) :
    scanDown fnPred a pivot i j = scanDown fnPred b pivot i j := by
  induction j with
  | zero => rfl
  | succ j ih =>
    unfold scanDown
    by_cases hgt : j + 1 > i
    · rw [if_pos hgt, if_pos hgt, h (j + 1) hgt le_rfl, ih fun k h1 h2 => h k h1 (by omega)]
    · rw [if_neg hgt, if_neg hgt]

theorem splitLoop_congr {rounds i j : ℕ} {r : Split E} (hab : AgreeOn s e a b) (hi : s ≤ i) (hij : i ≤ j) (hj : j ≤ e)
    (h : splitLoop fnPred pivot rounds i j a = some r) :
    ∃ r', splitLoop fnPred pivot rounds i j b = some r' ∧ r'.ind = r.ind ∧ s ≤ r.ind ∧ r.ind ≤ e ∧
      AgreeOn s e r.arr r'.arr := by
  induction rounds generalizing i j a b r with
  | zero =>
    unfold splitLoop at h ⊢
    by_cases hlt : i < j
    · rw [if_pos hlt] at h
      cases h
    · rw [if_neg hlt] at h ⊢
      obtain rfl := Option.some.inj h
      exact ⟨_, rfl, rfl, hi, hij.trans hj, hab⟩
  | succ rounds ih =>
    unfold splitLoop at h ⊢
    by_cases hlt : i < j
    · rw [if_pos hlt] at h ⊢
      dsimp only at h ⊢
      have hup := scanUp_between fnPred a pivot hij
      have hdown := scanDown_spec fnPred a pivot hup.high
      rw [← scanUp_congr (b := b) (j - i) fun k h1 h2 => hab k (by omega) (by omega),
        ← scanDown_congr (b := b) fun k h1 h2 => hab k (by have := hup.low; omega) (by omega)]
      set up := scanUp fnPred a pivot (j - i) i
      set down := scanDown fnPred a pivot up.1 j
      have hup₁ := hup.low
      have hup₂ := hup.high
      have hdown₁ := hdown.low
      have hdown₂ := hdown.high
      obtain ⟨r', hr', rfl⟩ := Option.map_eq_some_iff.1 h
      have hnext : AgreeOn s e (if fnPred (a up.1) (a down.1) > 0 then swapCells a up.1 down.1 else a)
          (if fnPred (b up.1) (b down.1) > 0 then swapCells b up.1 down.1 else b) := by
        rw [← hab up.1 (by omega) (by omega), ← hab down.1 (by omega) (by omega)]
        split_ifs
        · exact hab.swapCells ⟨by omega, by omega⟩ ⟨by omega, by omega⟩
        · exact hab
      obtain ⟨r'', hr'', hind, h1, h2, hagree⟩ := ih hnext (by omega) hdown₁ (by omega) hr'
      rw [hr'', Option.map_some]
      exact ⟨_, rfl, hind, h1, h2, hagree⟩
    · rw [if_neg hlt] at h ⊢
      obtain rfl := Option.some.inj h
      exact ⟨_, rfl, rfl, hi, hij.trans hj, hab⟩

/-- the step only looks at its range -/
theorem quicksortSplit_congr {rounds : ℕ} {sp : Split E} (hse : s < e) (he : e < 2 ^ 64) (hab : AgreeOn s e a b)
    (h : quicksortSplit fnPred rounds a s e = some sp) :
    ∃ sp', quicksortSplit fnPred rounds b s e = some sp' ∧ sp'.ind = sp.ind ∧ AgreeOn s e sp.arr sp'.arr := by
  obtain ⟨r, hr, rfl⟩ := Option.map_eq_some_iff.1 h
  rw [sub64_of_le (by omega) he] at hr
  obtain ⟨r', hr', hind, h1, h2, hagree⟩ := splitLoop_congr hab le_rfl (by omega) (by omega) hr
  unfold quicksortSplit
  dsimp only
  rw [sub64_of_le (by omega) he, ← hab e hse.le le_rfl, hr', Option.map_some, hind, ← hagree r.ind h1 h2]
  refine ⟨_, rfl, ?_⟩
  split_ifs
  · exact ⟨rfl, hagree.swapCells ⟨h1, h2⟩ ⟨hse.le, le_rfl⟩⟩
  · exact ⟨rfl, hagree⟩

end Frame

/-! ## A range that is separated already -/

section Separated

variable {E : Type} {fnPred : E → E → ℤ} {a : ℕ → E} {s e q : ℕ}

/-- the elements that are not above the last one come first, then those that are; `q` is the first of these, or the end -/
structure Separated (fnPred : E → E → ℤ) (a : ℕ → E) (s e q : ℕ) : Prop where
  low : s ≤ q
  high : q ≤ e
  below : ∀ k, s ≤ k → k < q → fnPred (a k) (a e) ≤ 0
  above : ∀ k, q ≤ k → k < e → 0 < fnPred (a k) (a e)

/-- both indices stop at the border, and nothing is exchanged -/
theorem Separated.loop (hcmp : TotalPreorder fnPred) (h : Separated fnPred a s e q) (hse : s < e) (rounds : ℕ) :
    ∃ touched, splitLoop fnPred (a e) (rounds + 1) s (e - 1) a = some ⟨min q (e - 1), a, touched⟩ := by
  have hlow := h.low
  have hhigh := h.high
  by_cases hlt : s < e - 1
  · have hup := scanUp_between fnPred a (a e) hlt.le
    have hdown := scanDown_spec fnPred a (a e) hup.high
    unfold splitLoop
    rw [if_pos hlt]
    dsimp only
    set up := scanUp fnPred a (a e) (e - 1 - s) s
    set down := scanDown fnPred a (a e) up.1 (e - 1)
    have hup₁ := hup.low
    have hup₂ := hup.high
    have hdown₁ := hdown.low
    have hdown₂ := hdown.high
    have hborder : up.1 = min q (e - 1) := by
      apply le_antisymm
      · by_contra hpast
        exact absurd (hup.passed q hlow (by omega)) (not_le.2 (h.above q le_rfl (by omega)))
      · by_contra hshort
        exact absurd (h.below up.1 hup₁ (by omega)) (not_le.2 (hup.stopped (by omega)))
    have hmet : down.1 = up.1 := by
      by_contra hne
      exact absurd (hdown.stopped (by omega)) (not_le.2 (h.above down.1 (by omega) (by omega)))
    have hsame : ¬ fnPred (a up.1) (a up.1) > 0 := by
      rw [hcmp.refl]
      exact lt_irrefl 0
    rw [hmet, if_neg hsame, splitLoop_done fnPred _ rounds (lt_irrefl _), hborder]
    exact ⟨_, rfl⟩
  · rw [splitLoop_done fnPred _ _ hlt]
    have hmin : min q (e - 1) = s := by omega
    rw [hmin]
    exact ⟨_, rfl⟩

/-- the pivot changes places with the first element above it -/
theorem Separated.split (hcmp : TotalPreorder fnPred) (h : Separated fnPred a s e q) (hse : s < e) (he : e < 2 ^ 64)
    (rounds : ℕ) : ∃ sp, quicksortSplit fnPred (rounds + 1) a s e = some sp ∧ sp.ind = q ∧ sp.arr = swapCells a q e := by
  have hlow := h.low
  have hhigh := h.high
  obtain ⟨touched, hloop⟩ := h.loop hcmp hse rounds
  unfold quicksortSplit
  dsimp only
  rw [sub64_of_le (by omega) he, hloop, Option.map_some]
  refine ⟨_, rfl, ?_⟩
  dsimp only
  by_cases hq : q < e
  · have hmin : min q (e - 1) = q := by omega
    rw [hmin, if_pos (h.above q le_rfl hq)]
    exact ⟨rfl, rfl⟩
  · have hmin : min q (e - 1) = e - 1 := by omega
    have hqe : q = e := by omega
    rw [hmin, if_neg (not_lt.2 (h.below (e - 1) (by omega) (by omega))), hqe]
    exact ⟨rfl, (swapCells_self a e).symm⟩

end Separated

/-! ## The element that separates -/

section Pivot

variable {E : Type} {fnPred : E → E → ℤ} {a : ℕ → E} {left right : ℕ}

/-- what is asked of the step: the cells of the range are rearranged, and the former last one separates them -/
structure Partitioned (fnPred : E → E → ℤ) (a : ℕ → E) (left right : ℕ) (sp : Split E) : Prop where
  low : left ≤ sp.ind
  high : sp.ind ≤ right
  rearranged : Rearranged left (right + 1) a sp.arr
  pivot : sp.arr sp.ind = a right
  below : ∀ k, left ≤ k → k < sp.ind → fnPred (sp.arr k) (a right) ≤ 0
  above : ∀ k, sp.ind < k → k ≤ right → 0 < fnPred (sp.arr k) (a right)
  touched : ∀ k ∈ sp.touched, left ≤ k ∧ k ≤ right

/-- the pivot is put where the indices met, or it stays -/
theorem quicksortSplit_pivot (hcmp : TotalPreorder fnPred) (hlt : left < right) (hright : right < 2 ^ 64) {rounds : ℕ}
    {sp : Split E} (hrounds : right ≤ left + rounds) (h : quicksortSplit fnPred rounds a left right = some sp) :
    sp.arr sp.ind = a right := by
  obtain ⟨r, hr, hinv, -⟩ := splitLoop_spec hcmp rounds (loopInv_init fnPred a hlt) (Or.inl (by omega))
  have hpivot : r.arr right = a right := hinv.rearranged.outside (Or.inr le_rfl)
  unfold quicksortSplit at h
  dsimp only at h
  rw [sub64_of_le (by omega) hright, hr, Option.map_some] at h
  cases h
  split_ifs
  · dsimp only
    rw [swapCells_left]
    exact hpivot
  · exact hpivot

/-- For every array, every range in it and every total preorder, the step returns, and it separates the range around its
former last element. -/
theorem split_partitions (hcmp : TotalPreorder fnPred) (a : ℕ → E) (hlt : left < right) (hright : right < 2 ^ 64) :
    ∃ sp, (∀ rounds, right ≤ left + rounds → quicksortSplit fnPred rounds a left right = some sp) ∧
      Partitioned fnPred a left right sp := by
  have hrounds := Nat.le_add_left right left
  obtain ⟨sp, hsp, hdone⟩ := quicksortSplit_spec hcmp a hlt hright right hrounds
  have hpivot := quicksortSplit_pivot hcmp hlt hright hrounds hsp
  refine ⟨sp, fun rounds hle => ?_, hdone.low, hdone.high, hdone.rearranged, hpivot, ?_, ?_, hdone.touched⟩
  · obtain ⟨sp', hsp', -⟩ := quicksortSplit_spec hcmp a hlt hright rounds hle
    rw [hsp', quicksortSplit_unique hsp' hsp]
  · rw [← hpivot]
    exact hdone.below
  · rw [← hpivot]
    exact hdone.above

/-- three numbers with the middle one last -/
theorem split_partitions_three :
    ∃ sp, (∀ rounds, 2 ≤ 0 + rounds →
        quicksortSplit (fun x y : ℤ => x - y) rounds (fun k => [3, 1, 2].getD k 0) 0 2 = some sp) ∧
      Partitioned (fun x y : ℤ => x - y) (fun k => [3, 1, 2].getD k 0) 0 2 sp :=
  split_partitions ⟨sub_self, fun x y => by omega, fun x y z h1 h2 => by omega⟩ (fun k => [3, 1, 2].getD k 0) (by decide)
    (by decide)

end Pivot

end Noriko.Sort
