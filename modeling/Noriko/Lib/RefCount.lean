/-
Reference-counted objects, seen through their counters.

An object exists as long as its count is positive. `release` runs the destructor when the count falls to 0 or below, and a
method called on an object that does not exist is a fault. Counts are signed, as a caller may release more references than
there are.
-/
import Mathlib.Tactic

namespace Lib

/-- the counters of all objects -/
@[ext]
structure Refs (O : Type*) where
  count : O → ℤ
  /-- how often the destructor of an object has run -/
  destroyed : O → ℕ
  /-- calls of methods of objects that do not exist -/
  faults : ℕ

namespace Refs

variable {O : Type*}

/-- the object exists -/
def Alive (r : Refs O) (o : O) : Prop := 0 < r.count o

instance (r : Refs O) (o : O) : Decidable (r.Alive o) := inferInstanceAs (Decidable (_ < _))

/-- some method of the object is called -/
def call (r : Refs O) (o : O) : Refs O := if r.Alive o then r else { r with faults := r.faults + 1 }

theorem call_of_alive {r : Refs O} {o : O} (h : r.Alive o) : r.call o = r := if_pos h

@[simp] theorem call_count (r : Refs O) (o : O) : (r.call o).count = r.count := by
  unfold call
  split_ifs <;> rfl

@[simp] theorem call_destroyed (r : Refs O) (o : O) : (r.call o).destroyed = r.destroyed := by
  unfold call
  split_ifs <;> rfl

variable [DecidableEq O]

/-- a new object with one reference -/
def create (r : Refs O) (o : O) : Refs O := { r with count := Function.update r.count o 1 }

def addRef (r : Refs O) (o : O) : Refs O :=
  { r.call o with count := Function.update r.count o (r.count o + 1) }

/-- whether the next release destroys the object -/
def LastRef (r : Refs O) (o : O) : Prop := r.count o ≤ 1

instance (r : Refs O) (o : O) : Decidable (r.LastRef o) := inferInstanceAs (Decidable (_ ≤ _))

def release (r : Refs O) (o : O) : Refs O :=
  { r.call o with
    count := Function.update r.count o (r.count o - 1)
    destroyed := if r.LastRef o then Function.update r.destroyed o (r.destroyed o + 1) else r.destroyed }

/-! ## Counters after one operation -/

variable {r : Refs O} {o x : O}

@[simp] theorem create_count_self : (r.create o).count o = 1 := Function.update_self o 1 r.count

@[simp] theorem create_count_of_ne (h : x ≠ o) : (r.create o).count x = r.count x := Function.update_of_ne h 1 r.count

@[simp] theorem create_destroyed : (r.create o).destroyed = r.destroyed := rfl

@[simp] theorem addRef_count_self : (r.addRef o).count o = r.count o + 1 := Function.update_self o _ r.count

@[simp] theorem addRef_count_of_ne (h : x ≠ o) : (r.addRef o).count x = r.count x := Function.update_of_ne h _ r.count

@[simp] theorem addRef_destroyed : (r.addRef o).destroyed = r.destroyed := call_destroyed r o

theorem addRef_faults (h : r.Alive o) : (r.addRef o).faults = r.faults := by
  unfold addRef
  rw [call_of_alive h]

@[simp] theorem release_count_self : (r.release o).count o = r.count o - 1 := Function.update_self o _ r.count

@[simp] theorem release_count_of_ne (h : x ≠ o) : (r.release o).count x = r.count x := Function.update_of_ne h _ r.count

theorem release_faults (h : r.Alive o) : (r.release o).faults = r.faults := by
  unfold release
  rw [call_of_alive h]

/-- a release that leaves a reference destroys nothing -/
theorem release_destroyed_of_lt (h : 1 < r.count o) : (r.release o).destroyed = r.destroyed := if_neg (not_le.2 h)

/-- the release of the last reference runs the destructor -/
theorem release_destroyed_self (h : r.LastRef o) : (r.release o).destroyed o = r.destroyed o + 1 := by
  have heq : (r.release o).destroyed = Function.update r.destroyed o (r.destroyed o + 1) := if_pos h
  rw [heq, Function.update_self]

theorem release_destroyed_of_ne (h : x ≠ o) : (r.release o).destroyed x = r.destroyed x := by
  unfold release
  dsimp only
  split_ifs
  · rw [Function.update_of_ne h]
  · rfl

/-! ## Operations that cancel or commute -/

/-- a reference that is added and dropped again leaves no trace -/
theorem addRef_release (h : r.Alive o) : (r.addRef o).release o = r := by
  have hpos : 0 < r.count o := h
  have hlt : 1 < (r.addRef o).count o := by
    rw [addRef_count_self]
    omega
  refine Refs.ext (funext fun x => ?_) ?_ ?_
  · by_cases hx : x = o
    · rw [hx, release_count_self, addRef_count_self]
      omega
    · rw [release_count_of_ne hx, addRef_count_of_ne hx]
  · rw [release_destroyed_of_lt hlt, addRef_destroyed]
  · rw [release_faults (lt_trans one_pos hlt), addRef_faults h]

/-- a new object and the release of another one -/
theorem create_release (h : o ≠ x) : (r.create o).release x = (r.release x).create o := by
  have hcount : (r.create o).count x = r.count x := create_count_of_ne h.symm
  refine Refs.ext (funext fun y => ?_) ?_ ?_
  · by_cases hy : y = o
    · rw [hy, release_count_of_ne h, create_count_self, create_count_self]
    · by_cases hyx : y = x
      · rw [hyx, release_count_self, create_count_of_ne h.symm, create_count_of_ne h.symm, release_count_self]
      · rw [release_count_of_ne hyx, create_count_of_ne hy, create_count_of_ne hy, release_count_of_ne hyx]
  · have hlast : (r.create o).LastRef x ↔ r.LastRef x := by
      unfold LastRef
      rw [hcount]
    simp only [release, hlast]
    rfl
  · have halive : (r.create o).Alive x ↔ r.Alive x := by
      unfold Alive
      rw [hcount]
    simp only [release, call, halive]
    split_ifs <;> rfl

/-- references on two objects -/
theorem addRef_release_of_ne (h : o ≠ x) : (r.addRef x).release o = (r.release o).addRef x := by
  have hcount : (r.addRef x).count o = r.count o := addRef_count_of_ne h
  have hcount' : (r.release o).count x = r.count x := release_count_of_ne h.symm
  refine Refs.ext (funext fun y => ?_) ?_ ?_
  · by_cases hy : y = o
    · rw [hy, release_count_self, addRef_count_of_ne h, addRef_count_of_ne h, release_count_self]
    · by_cases hyx : y = x
      · rw [hyx, release_count_of_ne h.symm, addRef_count_self, addRef_count_self, hcount']
      · rw [release_count_of_ne hy, addRef_count_of_ne hyx, addRef_count_of_ne hyx, release_count_of_ne hy]
  · have hlast : (r.addRef x).LastRef o ↔ r.LastRef o := by
      unfold LastRef
      rw [hcount]
    rw [addRef_destroyed]
    simp only [release, hlast, addRef_destroyed]
  · have halive : (r.addRef x).Alive o ↔ r.Alive o := by
      unfold Alive
      rw [hcount]
    have halive' : (r.release o).Alive x ↔ r.Alive x := by
      unfold Alive
      rw [hcount']
    simp only [release, addRef, call] at halive halive' ⊢
    by_cases ho : r.Alive o <;> by_cases hx : r.Alive x <;> simp_all

/-! ## An object that loses its only reference -/

theorem create_alive : (r.create o).Alive o := by
  unfold Alive
  rw [create_count_self]
  exact one_pos

theorem create_release_count : ((r.create o).release o).count o = 0 := by
  rw [release_count_self, create_count_self]
  rfl

theorem create_release_destroyed : ((r.create o).release o).destroyed o = r.destroyed o + 1 := by
  have hlast : (r.create o).LastRef o := create_count_self.le
  rw [release_destroyed_self hlast, create_destroyed]

end Refs

end Lib
