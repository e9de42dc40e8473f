/-
What quicksort makes of a range, by the elements that are in it (`sort.c`).

The faults of `NkQuicksortPointers` are faults of the recursion: it meets a pair in the wrong order, or a range from index 0
on with its least element at the end. Whether it does depends on how the partition steps move the elements. Here are
conditions on the array itself. `Twinned`, which the partition step keeps on both sides, rules out both faults; it is exact
for the elements of a range, for if it fails, some arrangement of them is not sorted (`sorts_iff`). So is `LeastEarly` for
the elements and the place of the least one, if the range is to be kept (`staysInRange_iff`).
-/
import Noriko.Sort.Quicksort

namespace Noriko.Sort

open Lib Dstruct

variable {E : Type} {fnPred : E → E → ℤ} {a b : ℕ → E} {len s e lo hi p : ℕ}

/-! ## Conditions -/

/-- an element that is less than another one of the range has an equal one elsewhere in the range -/
def Twinned (fnPred : E → E → ℤ) (a : ℕ → E) (lo hi : ℕ) : Prop :=
  ∀ k, lo ≤ k → k < hi → (∃ j, lo ≤ j ∧ j < hi ∧ fnPred (a k) (a j) < 0) →
    ∃ j, lo ≤ j ∧ j < hi ∧ j ≠ k ∧ fnPred (a k) (a j) = 0

/-- the element at `p` is less than all others of the range -/
def LeastAt (fnPred : E → E → ℤ) (a : ℕ → E) (lo hi p : ℕ) : Prop :=
  lo ≤ p ∧ p < hi ∧ ∀ k, lo ≤ k → k < hi → k ≠ p → fnPred (a p) (a k) < 0

/-- the range starts behind index 0, or it has no least element, or this is one of the first two -/
def LeastEarly (fnPred : E → E → ℤ) (a : ℕ → E) (s e : ℕ) : Prop :=
  0 < s ∨ ∀ p, LeastAt fnPred a s (e + 1) p → p < 2

/-! ## Order -/

section Order

variable (hcmp : TotalPreorder fnPred)

include hcmp

theorem TotalPreorder.total (x y : E) : fnPred x y ≤ 0 ∨ fnPred y x ≤ 0 := by
  by_cases hle : fnPred x y ≤ 0
  · exact Or.inl hle
  · exact Or.inr ((hcmp.sign x y).1 (not_le.1 hle)).le

theorem TotalPreorder.not_lt {x y : E} (h : fnPred x y ≤ 0) : ¬ fnPred y x < 0 := by
  rw [← hcmp.sign]
  exact h.not_gt

theorem TotalPreorder.lt_of_lt_of_le {x y z : E} (hxy : fnPred x y < 0) (hyz : fnPred y z ≤ 0) : fnPred x z < 0 := by
  by_contra hxz
  refine hcmp.not_lt (hcmp.trans y z x hyz ?_) hxy
  by_contra hzx
  exact hxz ((hcmp.sign z x).1 (not_le.1 hzx))

theorem TotalPreorder.lt_of_le_of_lt {x y z : E} (hxy : fnPred x y ≤ 0) (hyz : fnPred y z < 0) : fnPred x z < 0 := by
  by_contra hxz
  refine hcmp.not_lt (hcmp.trans z x y ?_ hxy) hyz
  by_contra hzx
  exact hxz ((hcmp.sign z x).1 (not_le.1 hzx))

end Order

/-! ## Ranges with equal elements -/

/-- a rearranged range has the same elements -/
theorem Twinned.rearranged (h : Twinned fnPred a lo hi) (hab : Rearranged lo hi a b) : Twinned fnPred b lo hi := by
  obtain ⟨σ, hσ, rfl⟩ := hab
  have hσ' : ∀ k, k < lo ∨ hi ≤ k → σ.symm k = k := fun k hk => by rw [Equiv.symm_apply_eq, hσ k hk]
  rintro k hk₁ hk₂ ⟨j, hj₁, hj₂, hless⟩
  obtain ⟨hσk₁, hσk₂⟩ := Rearranged.source_mem hσ hk₁ hk₂
  obtain ⟨hσj₁, hσj₂⟩ := Rearranged.source_mem hσ hj₁ hj₂
  obtain ⟨m, hm₁, hm₂, hne, hequal⟩ := h (σ k) hσk₁ hσk₂ ⟨σ j, hσj₁, hσj₂, hless⟩
  obtain ⟨hm₃, hm₄⟩ := Rearranged.source_mem hσ' hm₁ hm₂
  refine ⟨σ.symm m, hm₃, hm₄, fun hsame => hne ?_, ?_⟩
  · rw [← hsame, Equiv.apply_symm_apply]
  · rw [Function.comp_apply, Function.comp_apply, Equiv.apply_symm_apply]
    exact hequal

section Parts

variable {sp : Split E} (hcmp : TotalPreorder fnPred) (h : Twinned fnPred a s (e + 1)) (hdone : SplitDone fnPred a s e sp)

include hcmp h hdone

/-- in the part before the pivot, an element that is less than another is less than the pivot, and so is its equal -/
theorem Twinned.left : Twinned fnPred sp.arr s sp.ind := by
  have hhigh := hdone.high
  rintro k hk₁ hk₂ ⟨j, hj₁, hj₂, hless⟩
  obtain ⟨m, hm₁, hm₂, hne, hequal⟩ :=
    h.rearranged hdone.rearranged k hk₁ (by omega) ⟨j, hj₁, by omega, hless⟩
  refine ⟨m, hm₁, ?_, hne, hequal⟩
  by_contra hm
  have hpivot : fnPred (sp.arr sp.ind) (sp.arr m) ≤ 0 := by
    rcases Nat.eq_or_lt_of_le (not_lt.1 hm) with heq | hlt
    · rw [heq, hcmp.refl]
    · exact ((hcmp.sign _ _).1 (hdone.above m hlt (by omega))).le
  have hbelow := hcmp.trans _ _ _ (hdone.below j hj₁ hj₂) hpivot
  exact absurd hequal (hcmp.lt_of_lt_of_le hless hbelow).ne

/-- the part behind the pivot has all elements above it -/
theorem Twinned.right : Twinned fnPred sp.arr (sp.ind + 1) (e + 1) := by
  have hlow := hdone.low
  rintro k hk₁ hk₂ ⟨j, hj₁, hj₂, hless⟩
  obtain ⟨m, hm₁, hm₂, hne, hequal⟩ :=
    h.rearranged hdone.rearranged k (by omega) hk₂ ⟨j, by omega, hj₂, hless⟩
  refine ⟨m, ?_, hm₂, hne, hequal⟩
  by_contra hm
  have hpivot : fnPred (sp.arr m) (sp.arr sp.ind) ≤ 0 := by
    rcases Nat.eq_or_lt_of_le (Nat.lt_succ_iff.1 (not_le.1 hm)) with heq | hlt
    · rw [heq, hcmp.refl]
    · exact hdone.below m hm₁ hlt
  have habove := (hcmp.sign _ _).1 (hdone.above k (by omega) (by omega))
  exact hcmp.not_lt hequal.le (hcmp.lt_of_le_of_lt hpivot habove)

end Parts

/-- what no call with equal elements is, none of its recursion is -/
theorem Twinned.not_meets (hcmp : TotalPreorder fnPred) {P : Call E → Prop}
    (hP : ∀ c : Call E, Twinned fnPred c.arr c.sInd (c.eInd + 1) → ¬ P c) {c : Call E} (he : c.eInd < 2 ^ 64)
    (h : Twinned fnPred c.arr c.sInd (c.eInd + 1)) : ¬ Meets fnPred P c := by
  intro hmeets
  induction hmeets with
  | @here c hc => exact hP c h hc
  | @left c rounds sp h2 hsp hlt _ ih =>
    have hdone := splitDone_of_some hcmp (by omega) he hsp
    have hhigh := hdone.high
    refine ih (by dsimp only; omega) ?_
    dsimp only
    rw [Nat.sub_add_cancel (by omega)]
    exact h.left hcmp hdone
  | @right c rounds sp h2 hsp hlt _ ih =>
    exact ih he (h.right hcmp (splitDone_of_some hcmp (by omega) he hsp))

theorem Twinned.not_pairWrong (hcmp : TotalPreorder fnPred) (c : Call E) (h : Twinned fnPred c.arr c.sInd (c.eInd + 1)) :
    ¬ Call.PairWrong fnPred c := by
  rintro ⟨hpair, hwrong⟩
  obtain ⟨j, hj₁, hj₂, hne, hequal⟩ := h c.eInd (by omega) (by omega) ⟨c.sInd, by omega, by omega, (hcmp.sign _ _).1 hwrong⟩
  obtain rfl : j = c.sInd := by omega
  exact absurd hequal ((hcmp.sign _ _).1 hwrong).ne

theorem Twinned.not_underruns (hcmp : TotalPreorder fnPred) (c : Call E) (h : Twinned fnPred c.arr c.sInd (c.eInd + 1)) :
    ¬ Call.Underruns fnPred c := by
  rintro ⟨hzero, htwo, hleast⟩
  obtain ⟨j, hj₁, hj₂, hne, hequal⟩ :=
    h c.eInd (by omega) (by omega) ⟨0, by omega, by omega, (hcmp.sign _ _).1 (hleast 0 (by omega))⟩
  exact absurd hequal ((hcmp.sign _ _).1 (hleast j (by omega))).ne

/-! ## Sorted ranges -/

theorem SortedOn.separated (h : SortedOn (fun x y => fnPred x y ≤ 0) s (e + 1) a) (hse : s ≤ e) :
    Separated fnPred a s e e where
  low := hse
  high := le_rfl
  below k h1 h2 := h k e h1 h2 (Nat.lt_succ_self e)
  above _ h1 h2 := absurd h1 (not_le.2 h2)

/-- the partition step leaves a sorted range and separates its last element -/
theorem sorted_not_meets (hcmp : TotalPreorder fnPred) {P : Call E → Prop}
    (hP : ∀ c : Call E, SortedOn (fun x y => fnPred x y ≤ 0) c.sInd (c.eInd + 1) c.arr → ¬ P c) {c : Call E}
    (he : c.eInd < 2 ^ 64) (h : SortedOn (fun x y => fnPred x y ≤ 0) c.sInd (c.eInd + 1) c.arr) : ¬ Meets fnPred P c := by
  intro hmeets
  induction hmeets with
  | @here c hc => exact hP c h hc
  | @left c rounds sp h2 hsp _ _ ih =>
    obtain ⟨sp', hsp', hind, harr⟩ := (SortedOn.separated h (by omega)).split hcmp (by omega) he 0
    rw [quicksortSplit_unique hsp hsp', hind, harr, swapCells_self] at ih
    exact ih (by dsimp only; omega) (h.mono le_rfl (by dsimp only; omega))
  | @right c rounds sp h2 hsp hlt _ _ =>
    obtain ⟨sp', hsp', hind, -⟩ := (SortedOn.separated h (by omega)).split hcmp (by omega) he 0
    rw [quicksortSplit_unique hsp hsp', hind] at hlt
    exact lt_irrefl _ hlt

/-- A sorted range of which the first cells were rearranged: its last elements are separated one by one, so the recursion
comes to the rearranged part. -/
theorem meets_front (hcmp : TotalPreorder fnPred) {P : Call E → Prop} {c : ℕ → E} {m : ℕ}
    (hc : SortedOn (fun x y => fnPred x y ≤ 0) s (e + 1) c) (hb : Rearranged s (m + 1) c b) (hm : s < m) (hme : m ≤ e)
    (he : e < 2 ^ 64) (h : Meets fnPred P ⟨b, s, m⟩) : Meets fnPred P ⟨b, s, e⟩ := by
  induction e, hme using Nat.le_induction with
  | base => exact h
  | succ e hme ih =>
    have hlast : b (e + 1) = c (e + 1) := hb.outside (Or.inr (by omega))
    have hsep : Separated fnPred b s (e + 1) (e + 1) := by
      refine ⟨by omega, le_rfl, fun k h1 h2 => ?_, fun k h1 h2 => absurd h1 (not_le.2 h2)⟩
      rw [hlast]
      by_cases hk : k < m + 1
      · obtain ⟨j, hj₁, hj₂, hsource⟩ := hb.exists_source h1 hk
        rw [hsource]
        exact hc j (e + 1) hj₁ (by omega) (Nat.lt_succ_self _)
      · rw [hb.outside (Or.inr (not_lt.1 hk))]
        exact hc k (e + 1) h1 h2 (Nat.lt_succ_self _)
    obtain ⟨sp, hsp, hind, harr⟩ := hsep.split hcmp (by omega) he 0
    have hrest := ih (hc.mono le_rfl (Nat.le_succ _)) (by omega)
    refine .left (by dsimp only; omega) hsp (by dsimp only; omega) ?_
    rw [hind, harr, swapCells_self]
    exact hrest

/-! ## Bad arrangements -/

section Bad

variable (hcmp : TotalPreorder fnPred)

include hcmp

/-- three elements at the end of a sorted range, each less than the next one: with the first of them put last, it becomes the
pivot and leaves the other two as a pair in the wrong order -/
theorem meets_rotated {c : ℕ → E} {r : ℕ} (hc : SortedOn (fun x y => fnPred x y ≤ 0) s (r + 2 + 1) c) (hsr : s ≤ r)
    (hr : r + 2 < 2 ^ 64) (hprev : fnPred (c r) (c (r + 1)) < 0) (hnext : fnPred (c (r + 1)) (c (r + 2)) < 0) :
    ∃ b, Rearranged s (r + 2 + 1) c b ∧ Meets fnPred (Call.PairWrong fnPred) ⟨b, s, r + 2⟩ := by
  set b := swapCells (swapCells c r (r + 1)) (r + 1) (r + 2) with hbdef
  have hb₀ : b r = c (r + 1) := by
    rw [hbdef, swapCells_of_ne _ (by omega) (by omega), swapCells_left]
  have hb₁ : b (r + 1) = c (r + 2) := by
    rw [hbdef, swapCells_left, swapCells_of_ne _ (by omega) (by omega)]
  have hb₂ : b (r + 2) = c r := by
    rw [hbdef, swapCells_right, swapCells_right]
  have hsep : Separated fnPred b s (r + 2) r := by
    refine ⟨by omega, by omega, fun i h1 h2 => ?_, fun i h1 h2 => ?_⟩
    · rw [hb₂, hbdef, swapCells_of_ne _ (by omega) (by omega), swapCells_of_ne _ (by omega) (by omega)]
      exact hc i r h1 h2 (by omega)
    · rw [hb₂, hcmp.sign]
      rcases Nat.eq_or_lt_of_le h1 with rfl | hlt
      · rw [hb₀]
        exact hprev
      · obtain rfl : i = r + 1 := by omega
        rw [hb₁]
        exact hcmp.lt_of_lt_of_le hprev hnext.le
  obtain ⟨sp, hsp, hind, harr⟩ := hsep.split hcmp (by omega) hr 0
  refine ⟨b, ?_, .right (by dsimp only; omega) hsp (by dsimp only; omega) (.here ?_)⟩
  · refine (Rearranged.swapCells c (i := r) (j := r + 1) (by omega) (by omega) (by omega) (by omega)).trans ?_
    exact Rearranged.swapCells _ (by omega) (by omega) (by omega) (by omega)
  · rw [hind, harr]
    refine ⟨rfl, ?_⟩
    dsimp only
    rw [swapCells_right, swapCells_of_ne _ (by omega) (by omega), hb₀, hb₁, hcmp.sign]
    exact hnext

/-- an element without equal, and one above it: some arrangement leads to them as a pair in the wrong order -/
theorem exists_pairWrong (a : ℕ → E) (hse : s ≤ e) (he : e < 2 ^ 64) (h : ¬ Twinned fnPred a s (e + 1)) :
    ∃ b, Rearranged s (e + 1) a b ∧ Meets fnPred (Call.PairWrong fnPred) ⟨b, s, e⟩ := by
  obtain ⟨n, rfl⟩ : ∃ n, e = s + n := ⟨e - s, by omega⟩
  obtain ⟨c, hac, hc⟩ := exists_sorted hcmp.total hcmp.trans a s (n + 1)
  rw [← Nat.add_assoc] at hac hc
  have hc' : ¬ Twinned fnPred c s (s + n + 1) := fun htwin => h (htwin.rearranged hac.symm)
  unfold Twinned at hc'
  push Not at hc'
  obtain ⟨k, hk₁, hk₂, ⟨j, hj₁, hj₂, hless⟩, halone⟩ := hc'
  have hkj : k < j := by
    by_contra hle
    rcases Nat.eq_or_lt_of_le (not_lt.1 hle) with rfl | hlt
    · rw [hcmp.refl] at hless
      exact lt_irrefl 0 hless
    · exact hcmp.not_lt (hc j k hj₁ hlt hk₂) hless
  have hnext : fnPred (c k) (c (k + 1)) < 0 :=
    lt_of_le_of_ne (hc k (k + 1) hk₁ (Nat.lt_succ_self k) (by omega)) (halone (k + 1) (by omega) (by omega) (by omega))
  rcases Nat.eq_or_lt_of_le hk₁ with rfl | hlt
  · -- it is the least element: the two are the first ones, the wrong way round
    have hb : Rearranged s (s + 1 + 1) c (swapCells c s (s + 1)) :=
      Rearranged.swapCells c le_rfl (by omega) (by omega) (by omega)
    refine ⟨_, hac.trans (hb.mono le_rfl (by omega)), ?_⟩
    refine meets_front hcmp hc hb (by omega) (by omega) he (.here ⟨rfl, ?_⟩)
    dsimp only
    rw [swapCells_left, swapCells_right, hcmp.sign]
    exact hnext
  · -- the one before it is less
    obtain ⟨r, rfl⟩ : ∃ r, k = r + 1 := ⟨k - 1, by omega⟩
    have hprev : fnPred (c r) (c (r + 1)) < 0 := by
      have hle := hc r (r + 1) (by omega) (Nat.lt_succ_self r) hk₂
      have hne := halone r (by omega) (by omega) (by omega)
      exact (hcmp.sign _ _).1 (lt_of_le_of_ne (not_lt.1 (hcmp.not_lt hle)) (Ne.symm hne))
    obtain ⟨b, hb, hmeets⟩ := meets_rotated hcmp (hc.mono le_rfl (by omega)) (by omega) (by omega) hprev hnext
    exact ⟨b, hac.trans (hb.mono le_rfl (by omega)), meets_front hcmp hc hb (by omega) (by omega) he hmeets⟩

end Bad

/-! ## The least element -/

theorem LeastAt.unique (hcmp : TotalPreorder fnPred) {q : ℕ} (hp : LeastAt fnPred a lo hi p)
    (hq : LeastAt fnPred a lo hi q) : q = p := by
  by_contra hne
  exact hcmp.not_lt (hq.2.2 p hp.1 hp.2.1 (Ne.symm hne)).le (hp.2.2 q hq.1 hq.2.1 hne)

/-- it is the same element in a rearranged range -/
theorem LeastAt.source {σ : Equiv.Perm ℕ} (hσ : ∀ k, k < lo ∨ hi ≤ k → σ k = k)
    (h : LeastAt fnPred (a ∘ σ) lo hi p) : LeastAt fnPred a lo hi (σ p) := by
  have hσ' : ∀ k, k < lo ∨ hi ≤ k → σ.symm k = k := fun k hk => by rw [Equiv.symm_apply_eq, hσ k hk]
  obtain ⟨hp₁, hp₂, hleast⟩ := h
  obtain ⟨hp₃, hp₄⟩ := Rearranged.source_mem hσ hp₁ hp₂
  refine ⟨hp₃, hp₄, fun k hk₁ hk₂ hne => ?_⟩
  obtain ⟨hk₃, hk₄⟩ := Rearranged.source_mem hσ' hk₁ hk₂
  have hless := hleast (σ.symm k) hk₃ hk₄ fun hsame => hne (by rw [← hsame, Equiv.apply_symm_apply])
  rw [Function.comp_apply, Function.comp_apply, Equiv.apply_symm_apply] at hless
  exact hless

section Least

variable (hcmp : TotalPreorder fnPred)

include hcmp

/-- the least element of the part before the pivot is that of the range, which has not moved up -/
theorem leastAt_left {sp : Split E} (h2 : s + 2 ≤ e) (hdone : SplitDone fnPred a s e sp)
    (hp : LeastAt fnPred sp.arr s sp.ind p) (hsp : s < p) : ∃ q, LeastAt fnPred a s (e + 1) q ∧ (q < e → p ≤ q) := by
  have hhigh := hdone.high
  obtain ⟨hp₁, hp₂, hleast⟩ := hp
  have hpivot : fnPred (sp.arr p) (sp.arr sp.ind) < 0 :=
    hcmp.lt_of_lt_of_le (hleast s le_rfl (by omega) (by omega)) (hdone.below s le_rfl (by omega))
  have hall : LeastAt fnPred sp.arr s (e + 1) p := by
    refine ⟨hp₁, by omega, fun k hk₁ hk₂ hne => ?_⟩
    rcases Nat.lt_trichotomy k sp.ind with hlt | rfl | hgt
    · exact hleast k hk₁ hlt hne
    · exact hpivot
    · exact hcmp.lt_of_lt_of_le hpivot ((hcmp.sign _ _).1 (hdone.above k hgt (by omega))).le
  obtain ⟨σ, hσ, harr⟩ := hdone.rearranged
  have hq : LeastAt fnPred a s (e + 1) (σ p) := LeastAt.source hσ (harr ▸ hall)
  refine ⟨σ p, hq, fun hlt => ?_⟩
  have hbelow : fnPred (a (σ p)) (a e) ≤ 0 := (hq.2.2 e (by omega) (Nat.lt_succ_self e) (by omega)).le
  obtain ⟨m, hm₁, hm₂, hm⟩ := hdone.settled (σ p) hq.1 hlt hbelow
  have hsame : m = p := by
    by_contra hne
    have hless := hall.2.2 m hm₁ (by omega) hne
    rw [hm, harr, Function.comp_apply, hcmp.refl] at hless
    exact lt_irrefl 0 hless
  omega

/-- the recursion keeps a least element among the first two of a range from index 0 on -/
theorem leastEarly_not_meets {c : Call E} (he : c.eInd < 2 ^ 64) (h : LeastEarly fnPred c.arr c.sInd c.eInd) :
    ¬ Meets fnPred (Call.Underruns fnPred) c := by
  intro hmeets
  induction hmeets with
  | @here c hc =>
    obtain ⟨hzero, htwo, hleast⟩ := hc
    rcases h with hpos | hearly
    · omega
    · refine absurd (hearly c.eInd ⟨by omega, Nat.lt_succ_self _, fun k _ hk hne => ?_⟩) (by omega)
      exact (hcmp.sign _ _).1 (hleast k (by omega))
  | @left c rounds sp h2 hsp hlt _ ih =>
    have hdone := splitDone_of_some hcmp (by omega) he hsp
    have hhigh := hdone.high
    refine ih (by dsimp only; omega) ?_
    rcases Nat.eq_zero_or_pos c.sInd with hzero | hpos
    · refine Or.inr fun p hp => ?_
      dsimp only at hp
      rw [Nat.sub_add_cancel (by omega)] at hp
      by_contra hlate
      obtain ⟨q, hq, hle⟩ := leastAt_left hcmp h2 hdone hp (by omega)
      have hearly := h.resolve_left (by omega) q hq
      omega
    · exact Or.inl hpos
  | right _ _ _ hm _ => exact absurd (underruns_zero hm) (Nat.succ_ne_zero _)

/-- a least element behind the first two: some arrangement that leaves it there leads to it as the last of a range -/
theorem exists_underruns (a : ℕ → E) (hp : LeastAt fnPred a 0 (e + 1) p) (hlate : 2 ≤ p) (he : e < 2 ^ 64) :
    ∃ b, Rearranged 0 (e + 1) a b ∧ b p = a p ∧ Meets fnPred (Call.Underruns fnPred) ⟨b, 0, e⟩ := by
  have hpe := hp.2.1
  obtain ⟨c, hac, hc⟩ := exists_sorted hcmp.total hcmp.trans a 0 (e + 1)
  rw [Nat.zero_add] at hac hc
  obtain ⟨σ, hσ, rfl⟩ := hac
  -- sorted, the least element is the first
  have hσ' : ∀ k, k < 0 ∨ e + 1 ≤ k → σ.symm k = k := fun k hk => by rw [Equiv.symm_apply_eq, hσ k hk]
  have hleast : LeastAt fnPred (a ∘ σ) 0 (e + 1) (σ.symm p) := by
    refine LeastAt.source hσ' ?_
    rw [Function.comp_assoc, Equiv.self_comp_symm, Function.comp_id]
    exact hp
  have hfirst : σ.symm p = 0 := by
    by_contra hne
    have hpos : 0 < σ.symm p := Nat.pos_of_ne_zero hne
    exact hcmp.not_lt (hc 0 _ le_rfl hpos hleast.2.1) (hleast.2.2 0 le_rfl (by omega) (by omega))
  rw [hfirst] at hleast
  have hσp : σ 0 = p := by rw [← hfirst, Equiv.apply_symm_apply]
  have hb : Rearranged 0 (p + 1) (a ∘ σ) (swapCells (a ∘ σ) 0 p) :=
    Rearranged.swapCells _ le_rfl (by omega) (by omega) (by omega)
  refine ⟨_, Rearranged.trans ⟨σ, hσ, rfl⟩ (hb.mono le_rfl (by omega)), ?_, ?_⟩
  · rw [swapCells_right, Function.comp_apply, hσp]
  · refine meets_front hcmp hc hb (by omega) (by omega) he (.here ⟨rfl, hlate, fun k hk => ?_⟩)
    dsimp only at hk ⊢
    rw [swapCells_right, hcmp.sign]
    by_cases hk₀ : k = 0
    · rw [hk₀, swapCells_left]
      exact hleast.2.2 p (by omega) (by omega) (by omega)
    · rw [swapCells_of_ne _ hk₀ hk.ne]
      exact hleast.2.2 k (by omega) (by omega) hk₀

end Least

/-! ## Results -/

/-- integers, compared by their difference -/
def diff (x y : ℤ) : ℤ := x - y

theorem totalPreorder_diff : TotalPreorder diff where
  refl x := sub_self x
  sign x y := by
    unfold diff
    omega
  trans x y z h1 h2 := by
    unfold diff at h1 h2 ⊢
    omega

def cells (l : List ℤ) (k : ℕ) : ℤ := l.getD k 0

/-- Quicksort sorts every arrangement of the elements of a range exactly if each of them that is less than another one has
an equal one, and it sorts what is in order already; so does the sort of a vector. -/
theorem sorts_iff (hcmp : TotalPreorder fnPred) (hlen : len < 2 ^ 64) (hse : s ≤ e) (he : e < len) :
    ((∀ b, Rearranged s (e + 1) a b → Sorts fnPred len b s e) ↔ Twinned fnPred a s (e + 1)) ∧
    (SortedOn (fun x y => fnPred x y ≤ 0) s (e + 1) a → Sorts fnPred len a s e) ∧
    ∀ v : Vector E, v.dataPtr.mem = a → v.dataPtr.size / ptrBytes = len →
      Twinned fnPred a s (e + 1) ∨ SortedOn (fun x y => fnPred x y ≤ 0) s (e + 1) a → VectorSorts fnPred v s e := by
  have htwinned (b : ℕ → E) (hb : Twinned fnPred b s (e + 1)) : Sorts fnPred len b s e :=
    (sorts_of hcmp hlen hse he).2 ⟨Twinned.not_meets hcmp (Twinned.not_pairWrong hcmp) (by dsimp only; omega) hb,
      Twinned.not_meets hcmp (Twinned.not_underruns hcmp) (by dsimp only; omega) hb⟩
  have hsorted (b : ℕ → E) (hb : SortedOn (fun x y => fnPred x y ≤ 0) s (e + 1) b) : Sorts fnPred len b s e := by
    refine (sorts_of hcmp hlen hse he).2 ⟨?_, ?_⟩
    · refine sorted_not_meets hcmp (fun c hc hwrong => ?_) (by dsimp only; omega) hb
      obtain ⟨hpair, hwrong⟩ := hwrong
      exact absurd (hc c.sInd c.eInd le_rfl (by omega) (Nat.lt_succ_self _)) (not_le.2 hwrong)
    · refine sorted_not_meets hcmp (fun c hc hunder => ?_) (by dsimp only; omega) hb
      obtain ⟨hzero, htwo, hleast⟩ := hunder
      exact absurd (hc 0 c.eInd (by omega) (by omega) (Nat.lt_succ_self _)) (not_le.2 (hleast 0 (by omega)))
  refine ⟨⟨fun hall => ?_, fun h b hb => htwinned b (h.rearranged hb)⟩, hsorted a, ?_⟩
  · by_contra h
    obtain ⟨b, hb, hmeets⟩ := exists_pairWrong hcmp a hse (by omega) h
    exact ((sorts_of hcmp hlen hse he).1 (hall b hb)).1 hmeets
  · rintro v rfl rfl h
    exact (vectorSorts_iff v).2 (h.elim (htwinned _) (hsorted _))

/-- two equal elements and one above them, and a pair that is in order already -/
theorem sorts_twinned : Sorts diff 3 (cells [5, 1, 1]) 0 2 ∧ Sorts diff 2 (cells [1, 2]) 0 1 := by
  constructor
  · refine (sorts_iff totalPreorder_diff (by decide) (by decide) (by decide)).1.2 (fun k _ hk hless => ?_) _
      (Rearranged.refl _ _ _)
    obtain ⟨j, -, hj, hless⟩ := hless
    interval_cases k
    · interval_cases j <;> exact absurd hless (by decide)
    · exact ⟨2, by decide, by decide, by decide, by decide⟩
    · exact ⟨1, by decide, by decide, by decide, by decide⟩
  · refine (sorts_iff totalPreorder_diff (by decide) (by decide) (by decide)).2.1 fun i j _ hij hj => ?_
    obtain rfl : i = 0 := by omega
    obtain rfl : j = 1 := by omega
    decide

/-- two elements in the wrong order stay so -/
theorem sorts_broken : ¬ ∀ (fnPred : ℤ → ℤ → ℤ) (len : ℕ) (a : ℕ → ℤ) (s e : ℕ), TotalPreorder fnPred → len < 2 ^ 64 →
    s ≤ e → e < len → Sorts fnPred len a s e := by
  intro hall
  obtain ⟨rounds, r, hr, -, hsorted⟩ :=
    hall diff 2 (cells [2, 1]) 0 1 totalPreorder_diff (by decide) (by decide) (by decide)
  obtain ⟨code, rfl⟩ := (doesNothing_small diff 2 (by decide) (by decide) (by decide)).result hr
  have hle : diff (cells [2, 1] 0) (cells [2, 1] 1) ≤ 0 := hsorted 0 1 (by decide) (by decide) (by decide)
  exact absurd hle (by decide)

/-- Quicksort stays in its range for every arrangement that leaves the least element at its place exactly if the range
starts behind index 0 or this is one of its first two, or there is no least one. -/
theorem staysInRange_iff (hcmp : TotalPreorder fnPred) (hlen : len < 2 ^ 64) (hse : s ≤ e) (he : e < len) :
    (∀ b, Rearranged s (e + 1) a b → (∀ p, LeastAt fnPred a s (e + 1) p → b p = a p) → StaysInRange fnPred len b s e) ↔
      LeastEarly fnPred a s e := by
  constructor
  · intro hall
    by_contra h
    obtain ⟨hzero, hlate⟩ := not_or.1 h
    push Not at hlate
    obtain ⟨p, hp, hlate⟩ := hlate
    obtain rfl : s = 0 := by omega
    obtain ⟨b, hb, hkept, hmeets⟩ := exists_underruns hcmp a hp hlate (by omega)
    refine (staysInRange_of hcmp hlen hse he).1 (hall b hb fun q hq => ?_) hmeets
    rw [hp.unique hcmp hq]
    exact hkept
  · rintro h b ⟨σ, hσ, rfl⟩ hkept
    refine (staysInRange_of hcmp hlen hse he).2 (leastEarly_not_meets hcmp (by dsimp only; omega) ?_)
    refine h.imp_right fun hearly p hp => ?_
    dsimp only at hp
    have hq := LeastAt.source hσ hp
    -- the least element of the arrangement is where it was
    have hsame : p = σ p := by
      by_contra hne
      have hless := hp.2.2 (σ p) hq.1 hq.2.1 (Ne.symm hne)
      rw [hkept (σ p) hq, Function.comp_apply, hcmp.refl] at hless
      exact lt_irrefl 0 hless
    rw [hsame]
    exact hearly (σ p) hq

/-- the least element is the second one -/
theorem staysInRange_second : StaysInRange diff 3 (cells [3, 1, 2]) 0 2 := by
  refine (staysInRange_iff totalPreorder_diff (by decide) (by decide) (by decide)).2 (Or.inr fun p hp => ?_) _
    (Rearranged.refl _ _ _) fun _ _ => rfl
  obtain ⟨-, hp, hleast⟩ := hp
  interval_cases p
  · decide
  · decide
  · exact absurd (hleast 1 (by decide) (by decide) (by decide)) (by decide)

/-- the least of three elements is the last -/
theorem staysInRange_broken : ¬ ∀ (fnPred : ℤ → ℤ → ℤ) (len : ℕ) (a : ℕ → ℤ) (s e : ℕ), TotalPreorder fnPred →
    len < 2 ^ 64 → s ≤ e → e < len → StaysInRange fnPred len a s e := by
  intro hall
  obtain ⟨rounds, r, hr, -⟩ := hall diff 3 (cells [2, 3, 1]) 0 2 totalPreorder_diff (by decide) (by decide) (by decide)
  refine not_underruns totalPreorder_diff (by decide) (by decide) (by decide) hr (.here ⟨rfl, by decide, ?_⟩)
  intro k hk
  interval_cases k <;> decide

end Noriko.Sort
