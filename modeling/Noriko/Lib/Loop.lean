/-
Counting loops over natural-number indices, and how a half-open range of indices changes a count.

`upto lo hi` lists the indices of `for (i = lo; i < hi; i++)`. A loop that stops at the first index with a property is
`find?` on it; a loop that keeps the last such index is `lastIn`.
-/
import Mathlib.Tactic

namespace Lib

/-- the indices of `for (i = lo; i < hi; i++)` -/
def upto (lo hi : ℕ) : List ℕ := List.range' lo (hi - lo)

theorem mem_upto {lo hi i : ℕ} : i ∈ upto lo hi ↔ lo ≤ i ∧ i < hi := by
  simp only [upto, List.mem_range'_1]
  omega

theorem upto_cons {lo hi : ℕ} (h : lo < hi) : upto lo hi = lo :: upto (lo + 1) hi := by
  obtain ⟨n, rfl⟩ : ∃ n, hi = lo + (n + 1) := ⟨hi - lo - 1, by omega⟩
  have h1 : lo + (n + 1) - lo = n + 1 := by omega
  have h2 : lo + (n + 1) - (lo + 1) = n := by omega
  rw [upto, upto, h1, h2, List.range'_succ]

theorem upto_nil {lo hi : ℕ} (h : hi ≤ lo) : upto lo hi = [] := by
  simp [upto, Nat.sub_eq_zero_of_le h]

theorem find?_upto_eq_some {lo hi k : ℕ} {p : ℕ → Bool} :
    (upto lo hi).find? p = some k ↔ (lo ≤ k ∧ k < hi) ∧ p k = true ∧ ∀ j, lo ≤ j → j < k → p j = false := by
  rw [upto, List.find?_range'_eq_some, ← upto, mem_upto]
  simp only [Bool.not_eq_true', and_left_comm]

theorem find?_upto_eq_none {lo hi : ℕ} {p : ℕ → Bool} :
    (upto lo hi).find? p = none ↔ ∀ j, lo ≤ j → j < hi → p j = false := by
  simp only [List.find?_eq_none, mem_upto, Bool.not_eq_true, and_imp]

/-! ## The last index with a property -/

/-- `for (i = lo; i < hi; i++) if (p(i)) acc = i;` -/
def lastIn (p : ℕ → Bool) (lo hi acc : ℕ) : ℕ := (upto lo hi).foldl (fun acc i => if p i then i else acc) acc

/-- `lastIn` keeps the start value exactly when no index of the range qualifies, else it ends on one that does -/
theorem lastIn_spec (p : ℕ → Bool) (lo hi acc : ℕ) :
    ((∀ j, lo ≤ j → j < hi → p j = false) ∧ lastIn p lo hi acc = acc) ∨
      (lo ≤ lastIn p lo hi acc ∧ lastIn p lo hi acc < hi ∧ p (lastIn p lo hi acc) = true) := by
  by_cases h : lo < hi
  · have hrec : lastIn p lo hi acc = lastIn p (lo + 1) hi (if p lo then lo else acc) := by
      rw [lastIn, upto_cons h, List.foldl_cons, ← lastIn]
    have ih := lastIn_spec p (lo + 1) hi (if p lo then lo else acc)
    rw [← hrec] at ih
    rcases ih with ⟨hnone, heq⟩ | ⟨h1, h2, h3⟩
    · by_cases hp : p lo = true
      · rw [if_pos hp] at heq
        exact Or.inr ⟨heq.ge, by omega, by rw [heq]; exact hp⟩
      · rw [if_neg hp] at heq
        refine Or.inl ⟨fun j hj1 hj2 => ?_, heq⟩
        rcases Nat.eq_or_lt_of_le hj1 with rfl | hlt
        · simpa using hp
        · exact hnone j hlt hj2
    · exact Or.inr ⟨by omega, h2, h3⟩
  · rw [lastIn, upto_nil (by omega)]
    exact Or.inl ⟨fun j hj1 hj2 => by omega, rfl⟩
termination_by hi - lo

/-- the last index of the range wins whenever it qualifies -/
theorem lastIn_of_last {p : ℕ → Bool} {lo hi : ℕ} (acc : ℕ) (h : lo ≤ hi) (hp : p hi = true) :
    lastIn p lo (hi + 1) acc = hi := by
  have hsplit : upto lo (hi + 1) = upto lo hi ++ [hi] := by
    have h1 : hi + 1 - lo = (hi - lo) + 1 := by omega
    have h2 : lo + (hi - lo) = hi := by omega
    rw [upto, upto, h1, List.range'_concat, Nat.one_mul, h2]
  simp [lastIn, hsplit, hp]

/-! ## Counting the indices of a range -/

/-- a property gained on `[lo, lo + n)`, where it failed before, adds `n` to its count below `m` -/
theorem card_filter_gain {p q : ℕ → Prop} [DecidablePred p] [DecidablePred q] {m lo n : ℕ} (hm : lo + n ≤ m)
    (hp : ∀ k, lo ≤ k → k < lo + n → ¬ p k) (hq : ∀ k < m, q k ↔ p k ∨ (lo ≤ k ∧ k < lo + n)) :
    ((Finset.range m).filter q).card = ((Finset.range m).filter p).card + n := by
  have hunion : (Finset.range m).filter q = (Finset.range m).filter p ∪ Finset.Ico lo (lo + n) := by
    ext k
    simp only [Finset.mem_filter, Finset.mem_range, Finset.mem_union, Finset.mem_Ico]
    constructor
    · rintro ⟨hk, hqk⟩
      rcases (hq k hk).1 hqk with h | h
      · exact Or.inl ⟨hk, h⟩
      · exact Or.inr h
    · rintro (⟨hk, h⟩ | h)
      · exact ⟨hk, (hq k hk).2 (Or.inl h)⟩
      · exact ⟨by omega, (hq k (by omega)).2 (Or.inr h)⟩
  have hdisj : Disjoint ((Finset.range m).filter p) (Finset.Ico lo (lo + n)) := by
    rw [Finset.disjoint_left]
    intro k hk hk'
    rw [Finset.mem_Ico] at hk'
    exact hp k hk'.1 hk'.2 (Finset.mem_filter.1 hk).2
  rw [hunion, Finset.card_union_of_disjoint hdisj, Nat.card_Ico]
  omega

end Lib
