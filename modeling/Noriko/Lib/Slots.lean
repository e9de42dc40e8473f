/-
Slot arrays: lists of cells of which some hold an entry, and cyclic walks over their indices.

`contents f l` are the entries of the cells of `l`, where `f` tells what a cell holds. Writing to one cell changes the
contents by that cell only (`contents_set`), up to order. `cyc n i` is the index behind `i` in an array of `n` cells whose
last cell is followed by the first.
-/
import Mathlib.Tactic
import Mathlib.Data.List.Perm.Basic

namespace Lib

variable {C E : Type*}

/-! ## Contents -/

/-- the entries of an array, in the order of the cells -/
def contents (f : C → Option E) (l : List C) : List E := l.filterMap f

/-- the contents are those of one cell and those of all others -/
theorem contents_split {f : C → Option E} {l : List C} {i : ℕ} (hi : i < l.length) :
    (contents f l).Perm ((f l[i]).toList ++ contents f (l.eraseIdx i)) := by
  have h := (List.getElem_cons_eraseIdx_perm hi).symm.filterMap f
  refine h.trans (List.Perm.of_eq ?_)
  cases hf : f l[i] <;> simp [contents, hf]

theorem contents_set {f : C → Option E} {l : List C} {i : ℕ} (hi : i < l.length) (c : C) :
    (contents f (l.set i c)).Perm ((f c).toList ++ contents f (l.eraseIdx i)) := by
  have h := (List.set_perm_cons_eraseIdx hi c).filterMap f
  refine h.trans (List.Perm.of_eq ?_)
  cases hf : f c <;> simp [contents, hf]

/-- writing an entry to an empty cell adds it -/
theorem contents_fill {f : C → Option E} {l : List C} {i : ℕ} {c : C} {e : E} (hi : i < l.length) (hempty : f l[i] = none)
    (hc : f c = some e) : (contents f (l.set i c)).Perm (e :: contents f l) := by
  have h := contents_set (f := f) hi c
  have h' := contents_split (f := f) hi
  rw [hc] at h
  rw [hempty] at h'
  exact h.trans (h'.symm.cons e)

/-- writing an entry over another one exchanges them -/
theorem contents_swap {f : C → Option E} {l : List C} {i : ℕ} {c : C} {d e : E} (hi : i < l.length)
    (hold : f l[i] = some d) (hc : f c = some e) : (d :: contents f (l.set i c)).Perm (e :: contents f l) := by
  have h := contents_set (f := f) hi c
  have h' := contents_split (f := f) hi
  rw [hc] at h
  rw [hold] at h'
  exact (h.cons d).trans ((List.Perm.swap e d _).trans (h'.symm.cons e))

/-- emptying a cell takes its entry away -/
theorem contents_drop {f : C → Option E} {l : List C} {i : ℕ} {c : C} {d : E} (hi : i < l.length)
    (hold : f l[i] = some d) (hc : f c = none) : (d :: contents f (l.set i c)).Perm (contents f l) := by
  have h := contents_set (f := f) hi c
  have h' := contents_split (f := f) hi
  rw [hc] at h
  rw [hold] at h'
  exact (h.cons d).trans h'.symm

theorem mem_contents {f : C → Option E} {l : List C} {e : E} :
    e ∈ contents f l ↔ ∃ i, ∃ hi : i < l.length, f l[i] = some e := by
  rw [contents, List.mem_filterMap]
  constructor
  · rintro ⟨c, hc, he⟩
    obtain ⟨i, hi, rfl⟩ := List.getElem_of_mem hc
    exact ⟨i, hi, he⟩
  · rintro ⟨i, hi, he⟩
    exact ⟨l[i], List.getElem_mem hi, he⟩

/-- an array with fewer entries than cells has an empty cell -/
theorem exists_empty {f : C → Option E} {l : List C} (h : (contents f l).length < l.length) :
    ∃ i, ∃ hi : i < l.length, f l[i] = none := by
  by_contra hfull
  push Not at hfull
  refine absurd h (Nat.not_lt.2 (le_of_eq ?_))
  rw [contents, List.length_filterMap_eq_countP, eq_comm, List.countP_eq_length]
  intro c hc
  obtain ⟨i, hi, rfl⟩ := List.getElem_of_mem hc
  exact Option.isSome_iff_ne_none.2 (hfull i hi)

/-! ## Cyclic walks -/

/-- the index behind `i` in an array of `n` cells -/
def cyc (n i : ℕ) : ℕ := if n - 1 ≤ i then 0 else i + 1

theorem cyc_lt {n i : ℕ} (hi : i < n) : cyc n i < n := by
  unfold cyc
  split_ifs <;> omega

theorem cyc_eq_mod {n i : ℕ} (hi : i < n) : cyc n i = (i + 1) % n := by
  unfold cyc
  split_ifs with h
  · have heq : i + 1 = n := by omega
    rw [heq, Nat.mod_self]
  · exact (Nat.mod_eq_of_lt (by omega)).symm

/-- the cell `d` steps ahead is `d - 1` steps ahead of the next one -/
theorem cyc_add_mod {n i : ℕ} (hi : i < n) (d : ℕ) : (cyc n i + d) % n = (i + (d + 1)) % n := by
  rw [cyc_eq_mod hi, Nat.mod_add_mod, Nat.add_assoc, Nat.add_comm 1 d]

/-- every cell is ahead of every other by less than the length of the array -/
theorem exists_dist {n i j : ℕ} (hi : i < n) (hj : j < n) : ∃ d < n, (i + d) % n = j := by
  by_cases h : i ≤ j
  · refine ⟨j - i, by omega, ?_⟩
    rw [Nat.add_sub_cancel' h, Nat.mod_eq_of_lt hj]
  · refine ⟨j + n - i, by omega, ?_⟩
    have heq : i + (j + n - i) = j + n := by omega
    rw [heq, Nat.add_mod_right, Nat.mod_eq_of_lt hj]

end Lib
