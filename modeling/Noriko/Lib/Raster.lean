/-
Painting on pictures.

A layer says for every point of the plane which colour is there, if any. A picture is a layer that is nothing outside of its
frame. Painting a layer on a picture changes the points of the picture where the layer has a colour; what is outside stays
outside. Several layers painted one after the other are one layer, in which the last colour at a point counts
(`paintAll_eq`), and where the layers are apart the order does not matter (`stack_map_eq`).
-/
import Mathlib.Tactic

namespace Lib

variable {C A : Type*} {l picture : ℤ × ℤ → Option C} {p : ℤ × ℤ} {c : C}

/-! ## Painting -/

/-- `l` on `picture` -/
def paint (l picture : ℤ × ℤ → Option C) : ℤ × ℤ → Option C := fun p => (picture p).map fun old => (l p).getD old

/-- `l₂` in front of `l₁` -/
def atop (l₂ l₁ : ℤ × ℤ → Option C) : ℤ × ℤ → Option C := fun p => (l₂ p).or (l₁ p)

theorem paint_paint (l₂ l₁ picture : ℤ × ℤ → Option C) : paint l₂ (paint l₁ picture) = paint (atop l₂ l₁) picture := by
  funext p
  unfold paint atop
  cases picture p with
  | none => rfl
  | some old => cases l₂ p <;> rfl

theorem paint_some (h : l p = some c) (hin : picture p ≠ none) : paint l picture p = some c := by
  obtain ⟨old, hold⟩ := Option.ne_none_iff_exists'.1 hin
  rw [paint, hold, h, Option.map_some, Option.getD_some]

theorem paint_none (h : l p = none) : paint l picture p = picture p := by
  rw [paint, h]
  cases picture p <;> rfl

/-- layers as one, the first of them at the bottom -/
def stack : List (ℤ × ℤ → Option C) → ℤ × ℤ → Option C
  | [] => fun _ => none
  | l :: ls => atop (stack ls) l

/-- layers painted one after the other -/
def paintAll (ls : List (ℤ × ℤ → Option C)) (picture : ℤ × ℤ → Option C) : ℤ × ℤ → Option C :=
  ls.foldl (fun picture l => paint l picture) picture

theorem paintAll_eq (ls : List (ℤ × ℤ → Option C)) (picture : ℤ × ℤ → Option C) :
    paintAll ls picture = paint (stack ls) picture := by
  induction ls generalizing picture with
  | nil =>
    funext p
    exact (paint_none rfl).symm
  | cons l ls ih => rw [paintAll, List.foldl_cons, ← paintAll, ih, paint_paint, stack]

theorem stack_eq_none {ls : List (ℤ × ℤ → Option C)} : stack ls p = none ↔ ∀ l ∈ ls, l p = none := by
  induction ls with
  | nil => simp [stack]
  | cons l ls ih => rw [stack, atop, Option.or_eq_none_iff, ih, List.forall_mem_cons, and_comm]

/-- where one layer of a family has a colour only, that is the colour of the stack -/
theorem stack_map_eq {f : A → ℤ × ℤ → Option C} {as : List A} {a : A} (ha : a ∈ as)
    (honly : ∀ b ∈ as, f b p ≠ none → b = a) : stack (as.map f) p = f a p := by
  induction as with
  | nil => cases ha
  | cons b as ih =>
    rw [List.map_cons, stack, atop]
    by_cases hlater : a ∈ as
    · rw [ih hlater fun x hx => honly x (List.mem_cons_of_mem b hx)]
      cases hfa : f a p with
      | some c => rfl
      | none =>
        by_contra hb
        have hba : b = a := honly b List.mem_cons_self hb
        exact hb (hba ▸ hfa)
    · obtain rfl : a = b := (List.mem_cons.1 ha).resolve_right hlater
      have hrest : stack (as.map f) p = none := by
        refine stack_eq_none.2 fun l hl => ?_
        obtain ⟨x, hx, rfl⟩ := List.mem_map.1 hl
        by_contra hxp
        exact hlater (honly x (List.mem_cons_of_mem a hx) hxp ▸ hx)
      rw [hrest, Option.none_or]

/-! ## Areas -/

/-- the points from the left and upper edge to the right and lower one, the latter not included -/
structure Area where
  left : ℤ
  top : ℤ
  right : ℤ
  bottom : ℤ
deriving DecidableEq, Repr

def Area.Has (a : Area) (p : ℤ × ℤ) : Prop := (a.left ≤ p.1 ∧ p.1 < a.right) ∧ a.top ≤ p.2 ∧ p.2 < a.bottom

instance (a : Area) (p : ℤ × ℤ) : Decidable (a.Has p) := inferInstanceAs (Decidable (_ ∧ _))

def Area.ofSize (x y width height : ℤ) : Area := ⟨x, y, x + width, y + height⟩

/-- one colour in an area -/
def fill (a : Area) (c : C) : ℤ × ℤ → Option C := fun p => if a.Has p then some c else none

/-- what is in an area of the size of `a` elsewhere, from `(x, y)` on -/
def copy (a : Area) (l : ℤ × ℤ → Option C) (x y : ℤ) : ℤ × ℤ → Option C :=
  fun p => if a.Has p then l (x + (p.1 - a.left), y + (p.2 - a.top)) else none

/-- what is in a layer where another one is of the colour `c` -/
def cut (c : A) (mask : ℤ × ℤ → Option A) (l : ℤ × ℤ → Option C) [DecidableEq A] : ℤ × ℤ → Option C :=
  fun p => if mask p = some c then l p else none

theorem copy_of_has {a : Area} (h : a.Has p) (x y : ℤ) : copy a l x y p = l (x + (p.1 - a.left), y + (p.2 - a.top)) :=
  if_pos h

theorem copy_of_not_has {a : Area} (h : ¬a.Has p) (x y : ℤ) : copy a l x y p = none := if_neg h

theorem copy_eq_some {a : Area} {x y : ℤ} :
    copy a l x y p = some c ↔ a.Has p ∧ l (x + (p.1 - a.left), y + (p.2 - a.top)) = some c := by
  unfold copy
  split_ifs with hin <;> simp [hin]

/-- an area that is copied to where it is -/
theorem copy_self {a : Area} (h : a.Has p) : copy a l a.left a.top p = l p := by
  rw [copy_of_has h, add_sub_cancel, add_sub_cancel]

theorem fill_eq_some {a : Area} {c' : C} : fill a c p = some c' ↔ a.Has p ∧ c' = c := by
  unfold fill
  split_ifs with hin <;> simp [hin, eq_comm]

end Lib
