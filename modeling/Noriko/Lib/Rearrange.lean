/-
Rearranging and sorting a range of an array.

An array is a function from indices. `Rearranged lo hi a b` says that `b` has the cells `lo ≤ k < hi` of `a` in another
order and all other cells unchanged. What holds of all cells of the range holds of the rearranged ones, and two sorted
ranges around a cell that separates them are one sorted range (`SortedOn.join`). `mirror lo hi a` is `a` with the cells
`lo ≤ k ≤ hi` the other way round.
-/
import Mathlib.Logic.Equiv.Basic
import Mathlib.Tactic

namespace Lib

variable {A : Type*} {lo hi : ℕ} {a b c : ℕ → A}

/-! ## Rearrangements -/

/-- exchanges two cells -/
def swapCells (a : ℕ → A) (i j : ℕ) : ℕ → A := Function.update (Function.update a i (a j)) j (a i)

theorem swapCells_eq (a : ℕ → A) (i j : ℕ) : swapCells a i j = a ∘ Equiv.swap i j := by
  funext k
  rw [Function.comp_apply, Equiv.swap_apply_def, swapCells]
  by_cases hj : k = j
  · subst hj
    rw [Function.update_self, if_pos rfl]
    by_cases hi : k = i
    · rw [if_pos hi, hi]
    · rw [if_neg hi]
  · rw [Function.update_of_ne hj, if_neg hj]
    by_cases hi : k = i
    · rw [hi, Function.update_self, if_pos rfl]
    · rw [Function.update_of_ne hi, if_neg hi]

@[simp] theorem swapCells_left (a : ℕ → A) (i j : ℕ) : swapCells a i j i = a j := by
  simp [swapCells_eq]

@[simp] theorem swapCells_right (a : ℕ → A) (i j : ℕ) : swapCells a i j j = a i := by
  simp [swapCells_eq]

@[simp] theorem swapCells_self (a : ℕ → A) (i : ℕ) : swapCells a i i = a := by
  rw [swapCells_eq, Equiv.swap_self, Equiv.coe_refl, Function.comp_id]

theorem swapCells_of_ne (a : ℕ → A) {i j k : ℕ} (hi : k ≠ i) (hj : k ≠ j) : swapCells a i j k = a k := by
  rw [swapCells_eq, Function.comp_apply, Equiv.swap_apply_of_ne_of_ne hi hj]

/-- `b` is `a` with the cells `lo ≤ k < hi` in another order -/
def Rearranged (lo hi : ℕ) (a b : ℕ → A) : Prop :=
  ∃ σ : Equiv.Perm ℕ, (∀ k, k < lo ∨ hi ≤ k → σ k = k) ∧ b = a ∘ σ

namespace Rearranged

theorem refl (lo hi : ℕ) (a : ℕ → A) : Rearranged lo hi a a := ⟨Equiv.refl ℕ, fun _ _ => rfl, rfl⟩

theorem trans (h : Rearranged lo hi a b) (h' : Rearranged lo hi b c) : Rearranged lo hi a c := by
  obtain ⟨σ, hσ, rfl⟩ := h
  obtain ⟨τ, hτ, rfl⟩ := h'
  refine ⟨τ.trans σ, fun k hk => ?_, rfl⟩
  rw [Equiv.trans_apply, hτ k hk, hσ k hk]

theorem symm (h : Rearranged lo hi a b) : Rearranged lo hi b a := by
  obtain ⟨σ, hσ, rfl⟩ := h
  refine ⟨σ.symm, fun k hk => ?_, ?_⟩
  · rw [Equiv.symm_apply_eq, hσ k hk]
  · rw [Function.comp_assoc, Equiv.self_comp_symm, Function.comp_id]

theorem mono {lo' hi' : ℕ} (h : Rearranged lo hi a b) (hlo : lo' ≤ lo) (hhi : hi ≤ hi') : Rearranged lo' hi' a b := by
  obtain ⟨σ, hσ, rfl⟩ := h
  exact ⟨σ, fun k hk => hσ k (by omega), rfl⟩

theorem swapCells (a : ℕ → A) {i j : ℕ} (hi₁ : lo ≤ i) (hi₂ : i < hi) (hj₁ : lo ≤ j) (hj₂ : j < hi) :
    Rearranged lo hi a (swapCells a i j) := by
  refine ⟨Equiv.swap i j, fun k hk => Equiv.swap_apply_of_ne_of_ne ?_ ?_, swapCells_eq a i j⟩
  · intro h
    omega
  · intro h
    omega

/-- cells outside of the range are unchanged -/
theorem outside (h : Rearranged lo hi a b) {k : ℕ} (hk : k < lo ∨ hi ≤ k) : b k = a k := by
  obtain ⟨σ, hσ, rfl⟩ := h
  exact congrArg a (hσ k hk)

/-- inside the range, cells come from the range -/
theorem source_mem {σ : Equiv.Perm ℕ} (hσ : ∀ k, k < lo ∨ hi ≤ k → σ k = k) {k : ℕ} (hlo : lo ≤ k) (hhi : k < hi) :
    lo ≤ σ k ∧ σ k < hi := by
  by_contra hk
  -- a cell outside is its own source
  have hfix := σ.injective (hσ (σ k) (by omega))
  omega

/-- every cell of the range comes from the range -/
theorem exists_source (h : Rearranged lo hi a b) {k : ℕ} (hlo : lo ≤ k) (hhi : k < hi) :
    ∃ j, lo ≤ j ∧ j < hi ∧ b k = a j := by
  obtain ⟨σ, hσ, rfl⟩ := h
  obtain ⟨hlo', hhi'⟩ := source_mem hσ hlo hhi
  exact ⟨σ k, hlo', hhi', rfl⟩

/-- what holds of all cells of the range holds of the rearranged ones -/
theorem forall_range {P : A → Prop} (h : Rearranged lo hi a b) (ha : ∀ k, lo ≤ k → k < hi → P (a k)) {k : ℕ}
    (hlo : lo ≤ k) (hhi : k < hi) : P (b k) := by
  obtain ⟨j, hj, hj', hsource⟩ := h.exists_source hlo hhi
  rw [hsource]
  exact ha j hj hj'

end Rearranged

/-! ## Reversed ranges -/

/-- the cells `lo ≤ k ≤ hi` in reverse order -/
def mirror (lo hi : ℕ) (a : ℕ → A) : ℕ → A := fun k => if lo ≤ k ∧ k ≤ hi then a (lo + hi - k) else a k

theorem mirror_inside (a : ℕ → A) {k : ℕ} (hlo : lo ≤ k) (hhi : k ≤ hi) : mirror lo hi a k = a (lo + hi - k) :=
  if_pos ⟨hlo, hhi⟩

theorem mirror_outside (a : ℕ → A) {k : ℕ} (hk : k < lo ∨ hi < k) : mirror lo hi a k = a k :=
  if_neg (by omega)

@[simp] theorem mirror_self (lo : ℕ) (a : ℕ → A) : mirror lo lo a = a := by
  funext k
  by_cases hk : k = lo
  · rw [hk, mirror_inside a le_rfl le_rfl, Nat.add_sub_cancel]
  · exact mirror_outside a (by omega)

/-- a range is reversed by exchanging its ends and reversing what is between them -/
theorem mirror_swapCells (a : ℕ → A) (h : lo < hi) : mirror (lo + 1) (hi - 1) (swapCells a lo hi) = mirror lo hi a := by
  funext k
  by_cases hk : lo ≤ k ∧ k ≤ hi
  · rw [mirror_inside a hk.1 hk.2]
    by_cases hend : k = lo ∨ k = hi
    · rw [mirror_outside _ (by omega)]
      rcases hend with rfl | rfl
      · rw [swapCells_left, Nat.add_sub_cancel_left]
      · rw [swapCells_right, Nat.add_sub_cancel]
    · have hsum : lo + 1 + (hi - 1) - k = lo + hi - k := by omega
      rw [mirror_inside _ (by omega) (by omega), hsum, swapCells_of_ne a (by omega) (by omega)]
  · rw [mirror_outside a (by omega), mirror_outside _ (by omega), swapCells_of_ne a (by omega) (by omega)]

theorem mirror_mirror (a : ℕ → A) : mirror lo hi (mirror lo hi a) = a := by
  funext k
  by_cases hk : lo ≤ k ∧ k ≤ hi
  · rw [mirror_inside _ hk.1 hk.2, mirror_inside a (by omega) (by omega)]
    congr 1
    omega
  · rw [mirror_outside _ (by omega), mirror_outside a (by omega)]

/-! ## Sorted ranges -/

/-- the cells `lo ≤ k < hi` are in the order `le` -/
def SortedOn (le : A → A → Prop) (lo hi : ℕ) (a : ℕ → A) : Prop :=
  ∀ i j, lo ≤ i → i < j → j < hi → le (a i) (a j)

variable {le : A → A → Prop}

theorem SortedOn.mono {lo' hi' : ℕ} (h : SortedOn le lo hi a) (hlo : lo ≤ lo') (hhi : hi' ≤ hi) :
    SortedOn le lo' hi' a :=
  fun i j hi hij hj => h i j (hlo.trans hi) hij (hj.trans_le hhi)

theorem sortedOn_empty (le : A → A → Prop) (a : ℕ → A) (h : hi ≤ lo + 1) : SortedOn le lo hi a := by
  intro i j h1 h2 h3
  omega

theorem SortedOn.congr (h : SortedOn le lo hi a) (hab : ∀ k, lo ≤ k → k < hi → b k = a k) : SortedOn le lo hi b := by
  intro i j hi hij hj
  rw [hab i hi (hij.trans hj), hab j (hi.trans hij.le) hj]
  exact h i j hi hij hj

/-- ranges that are sorted on both sides of a cell between them -/
theorem SortedOn.join {p : ℕ} (trans : ∀ x y z, le x y → le y z → le x z) (hl : SortedOn le lo p a)
    (hr : SortedOn le (p + 1) hi a) (hlow : ∀ k, lo ≤ k → k < p → le (a k) (a p))
    (hhigh : ∀ k, p < k → k < hi → le (a p) (a k)) : SortedOn le lo hi a := by
  intro i j hi hij hj
  rcases lt_trichotomy i p with hip | rfl | hpi
  · rcases lt_trichotomy j p with hjp | rfl | hpj
    · exact hl i j hi hij hjp
    · exact hlow i hi hip
    · exact trans _ _ _ (hlow i hi hip) (hhigh j hpj hj)
  · exact hhigh j hij hj
  · exact hr i j hpi hij hj

section Exists

variable (total : ∀ x y, le x y ∨ le y x) (trans : ∀ x y z, le x y → le y z → le x z)

include total trans

/-- a range has a greatest cell -/
theorem exists_greatest_cell (a : ℕ → A) (lo n : ℕ) :
    ∃ m, lo ≤ m ∧ m ≤ lo + n ∧ ∀ k, lo ≤ k → k ≤ lo + n → le (a k) (a m) := by
  induction n with
  | zero =>
    refine ⟨lo, le_rfl, le_rfl, fun k h1 h2 => ?_⟩
    obtain rfl : k = lo := by omega
    exact (total _ _).elim id id
  | succ n ih =>
    obtain ⟨m, hm₁, hm₂, hm⟩ := ih
    rcases total (a (lo + n + 1)) (a m) with hle | hle
    · refine ⟨m, hm₁, by omega, fun k h1 h2 => ?_⟩
      by_cases hk : k = lo + n + 1
      · rw [hk]
        exact hle
      · exact hm k h1 (by omega)
    · refine ⟨lo + n + 1, by omega, by omega, fun k h1 h2 => ?_⟩
      by_cases hk : k = lo + n + 1
      · rw [hk]
        exact (total _ _).elim id id
      · exact trans _ _ _ (hm k h1 (by omega)) hle

/-- a range can be sorted -/
theorem exists_sorted (a : ℕ → A) (lo n : ℕ) : ∃ b, Rearranged lo (lo + n) a b ∧ SortedOn le lo (lo + n) b := by
  induction n generalizing a with
  | zero => exact ⟨a, Rearranged.refl lo lo a, sortedOn_empty le a (Nat.le_succ lo)⟩
  | succ n ih =>
    -- a greatest cell is put last
    obtain ⟨m, hm₁, hm₂, hm⟩ := exists_greatest_cell total trans a lo n
    have hswap : Rearranged lo (lo + n + 1) a (swapCells a m (lo + n)) :=
      Rearranged.swapCells a hm₁ (by omega) (by omega) (by omega)
    obtain ⟨b, hb, hsorted⟩ := ih (swapCells a m (lo + n))
    have hlast : b (lo + n) = a m := (hb.outside (Or.inr le_rfl)).trans (swapCells_right a m _)
    have hall := hswap.trans (hb.mono le_rfl (Nat.le_succ _))
    refine ⟨b, hall, fun i j hi hij hj => ?_⟩
    by_cases hend : j = lo + n
    · rw [hend, hlast]
      exact hall.forall_range (P := fun x => le x (a m)) (fun k h1 h2 => hm k h1 (by omega)) hi (by omega)
    · exact hsorted i j hi hij (by omega)

end Exists

end Lib
