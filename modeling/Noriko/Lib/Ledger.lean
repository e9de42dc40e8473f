/-
Ledgers of resources that are obtained and given back.

A ledger lists what was obtained and what was given back, newest first. `Owns l held` is the balance: what was obtained is
what was given back together with what is held, up to order. A program balances its books when it ends with `Owns l []`.
-/
import Mathlib.Tactic
import Mathlib.Data.List.Perm.Basic

namespace Lib

variable {R : Type}

structure Ledger (R : Type) where
  got : List R
  freed : List R
deriving DecidableEq, Repr

namespace Ledger

def new : Ledger R := ⟨[], []⟩

/-- `r` is obtained -/
def get (l : Ledger R) (r : R) : Ledger R := { l with got := r :: l.got }

/-- `r` is given back -/
def put (l : Ledger R) (r : R) : Ledger R := { l with freed := r :: l.freed }

/-- what was obtained was given back or is held, each once -/
def Owns (l : Ledger R) (held : List R) : Prop := l.got.Perm (l.freed ++ held)

variable {l : Ledger R} {held held' : List R} {r : R}

theorem owns_new : Owns (new : Ledger R) [] := List.Perm.refl _

theorem Owns.get (h : Owns l held) (r : R) : Owns (l.get r) (r :: held) :=
  (h.cons r).trans List.perm_middle.symm

theorem owns_put : Owns (l.put r) held ↔ Owns l (r :: held) := by
  have hmid : (r :: (l.freed ++ held)).Perm (l.freed ++ r :: held) := List.perm_middle.symm
  exact ⟨fun h => h.trans hmid, fun h => h.trans hmid.symm⟩

theorem owns_get : Owns (l.get r) (r :: held) ↔ Owns l held := by
  have hmid : (r :: (l.freed ++ held)).Perm (l.freed ++ r :: held) := List.perm_middle.symm
  refine ⟨fun h => ?_, fun h => h.get r⟩
  exact (h.trans hmid.symm).cons_inv

/-- the resources `rs` are obtained, one after the other -/
def getAll (l : Ledger R) (rs : List R) : Ledger R := rs.foldl get l

/-- the resources `rs` are given back, one after the other -/
def putAll (l : Ledger R) (rs : List R) : Ledger R := rs.foldl put l

@[simp] theorem putAll_got (l : Ledger R) (rs : List R) : (l.putAll rs).got = l.got := by
  induction rs generalizing l with
  | nil => rfl
  | cons r rs ih => exact ih (l.put r)

theorem putAll_freed (l : Ledger R) (rs : List R) : (l.putAll rs).freed.Perm (rs ++ l.freed) := by
  induction rs generalizing l with
  | nil => exact .refl _
  | cons r rs ih => exact (ih (l.put r)).trans List.perm_middle

theorem Owns.getAll (h : Owns l held) (rs : List R) : Owns (l.getAll rs) (rs ++ held) := by
  induction rs generalizing l held with
  | nil => exact h
  | cons r rs ih =>
    have hmid : (rs ++ r :: held).Perm (r :: (rs ++ held)) := List.perm_middle
    exact (ih (h.get r)).trans (hmid.append_left _)

theorem owns_putAll {rs : List R} : Owns (l.putAll rs) held ↔ Owns l (rs ++ held) := by
  induction rs generalizing l with
  | nil => exact Iff.rfl
  | cons r rs ih =>
    rw [putAll, List.foldl_cons, ← putAll, ih, owns_put, List.cons_append]

theorem Owns.perm (h : Owns l held) (hp : held.Perm held') : Owns l held' :=
  h.trans (hp.append_left l.freed)

/-- there is one balance -/
theorem Owns.unique (h : Owns l held) (h' : Owns l held') : held.Perm held' :=
  (List.perm_append_left_iff l.freed).1 (h.symm.trans h')

/-- a resource that may be given back is no longer held exactly if it is -/
theorem Owns.put_iff (h : Owns l (r :: held)) (p : Prop) [Decidable p] : Owns (if p then l.put r else l) held ↔ p := by
  by_cases hp : p
  · rw [if_pos hp, owns_put]
    exact iff_of_true h hp
  · rw [if_neg hp]
    refine iff_of_false (fun h' => ?_) hp
    have hlen := (h.unique h').length_eq
    simp at hlen

/-- the books of a program that holds nothing any more -/
theorem owns_nil : Owns l [] ↔ l.got.Perm l.freed := by
  rw [Owns, List.append_nil]

end Ledger

/-! ## Resources in the cells of a table -/

variable {K : Type} {f : K → Option R} {ks : List K} {k : K} {r : R}

/-- what the cells `ks` of a table hold -/
def held (f : K → Option R) (ks : List K) : List R := ks.filterMap f

theorem held_nil (h : ∀ k ∈ ks, f k = none) : held f ks = [] := List.filterMap_eq_nil_iff.2 h

variable [DecidableEq K]

/-- one cell and all others -/
theorem held_split (f : K → Option R) (hk : k ∈ ks) : (held f ks).Perm ((f k).toList ++ held f (ks.erase k)) := by
  have h := (List.perm_cons_erase hk).filterMap f
  refine h.trans (List.Perm.of_eq ?_)
  cases hf : f k <;> simp [held, hf]

/-- a table with at most one cell that is not empty -/
theorem held_single (hnd : ks.Nodup) (hk : k ∈ ks) (hother : ∀ x ∈ ks, x ≠ k → f x = none) : held f ks = (f k).toList := by
  have hrest : held f (ks.erase k) = [] := by
    refine held_nil fun x hx => ?_
    obtain ⟨hne, hin⟩ := hnd.mem_erase_iff.1 hx
    exact hother x hin hne
  have hperm := held_split f hk
  rw [hrest, List.append_nil] at hperm
  revert hperm
  cases f k with
  | none => exact List.perm_nil.1
  | some r => exact List.perm_singleton.1

/-- writing one cell leaves the others alone -/
theorem held_update (hnd : ks.Nodup) (v : Option R) : held (Function.update f k v) (ks.erase k) = held f (ks.erase k) := by
  refine List.filterMap_congr fun x hx => ?_
  have hne : x ≠ k := by
    rintro rfl
    exact hnd.not_mem_erase hx
  rw [Function.update_of_ne hne]

/-- filling an empty cell -/
theorem held_fill (hnd : ks.Nodup) (hk : k ∈ ks) (hempty : f k = none) :
    (held (Function.update f k (some r)) ks).Perm (r :: held f ks) := by
  have hnew := held_split (Function.update f k (some r)) hk
  have hold := held_split f hk
  rw [held_update hnd, Function.update_self] at hnew
  rw [hempty] at hold
  exact hnew.trans (hold.symm.cons r)

end Lib
