/-
Trees of linked nodes: each node has the list of its children, and a link to its parent.

Nodes are names of any type, as the addresses of a heap are. What belongs to the tree is what can be reached from the root by
children (`InTree`); the links of other nodes mean nothing. `WellLinked` says that the two kinds of links agree. To put a leaf
in among the children of a node, and to cut a child off with all that is below it, keep the links well.
-/
import Mathlib.Tactic
import Mathlib.Logic.Relation

namespace Lib

/-- the links of a tree -/
structure Links (α : Type*) where
  root : α
  children : α → List α
  parent : α → Option α

namespace Links

variable {α : Type*} {t : Links α} {x y z : α} {l : List α} {i : ℕ}

def InTree (t : Links α) : α → Prop := Relation.ReflTransGen (fun x y => y ∈ t.children x) t.root

structure WellLinked (t : Links α) : Prop where
  root : t.parent t.root = none
  parent : ∀ x y, t.InTree x → y ∈ t.children x → t.parent y = some x
  nodup : ∀ x, t.InTree x → (t.children x).Nodup

theorem inTree_root (t : Links α) : t.InTree t.root := .refl

theorem InTree.child (hx : t.InTree x) (hy : y ∈ t.children x) : t.InTree y := hx.tail hy

/-- what holds of the root and of the children of what it holds of, holds in the tree -/
theorem InTree.induct (hx : t.InTree x) {P : α → Prop} (hroot : P t.root)
    (hchild : ∀ x y, t.InTree x → P x → y ∈ t.children x → P y) : P x := by
  induction hx with
  | refl => exact hroot
  | tail hz hy ih => exact hchild _ _ hz ih hy

theorem InTree.eq_root_or_child (hy : t.InTree y) : y = t.root ∨ ∃ x, t.InTree x ∧ y ∈ t.children x := by
  cases hy with
  | refl => exact Or.inl rfl
  | tail hx hy => exact Or.inr ⟨_, hx, hy⟩

theorem WellLinked.ne_root (h : t.WellLinked) (hx : t.InTree x) (hy : y ∈ t.children x) : y ≠ t.root := by
  rintro rfl
  have hparent := h.parent x t.root hx hy
  rw [h.root] at hparent
  cases hparent

/-- the new child, between those in front of it and those behind it -/
theorem insertIdx_eq_append (hi : i ≤ l.length) : l.insertIdx i y = l.take i ++ [y] ++ l.drop i := by
  induction i generalizing l with
  | zero => simp
  | succ i ih =>
    cases l with
    | nil => cases hi
    | cons z l => simp [ih (Nat.le_of_succ_le_succ hi)]

/-! ## A leaf is put in -/

variable [DecidableEq α]

/-- `y` becomes a leaf, as child `i` of `x` -/
def insert (t : Links α) (x : α) (i : ℕ) (y : α) : Links α where
  root := t.root
  children := Function.update (Function.update t.children y []) x ((t.children x).insertIdx i y)
  parent := Function.update t.parent y (some x)

theorem children_insert_self : (t.insert x i y).children x = (t.children x).insertIdx i y := Function.update_self ..

theorem children_insert_new (hne : y ≠ x) : (t.insert x i y).children y = [] :=
  (Function.update_of_ne hne ..).trans (Function.update_self ..)

theorem children_insert_of_ne (hx : z ≠ x) (hy : z ≠ y) : (t.insert x i y).children z = t.children z :=
  (Function.update_of_ne hx ..).trans (Function.update_of_ne hy ..)

theorem mem_children_insert (hne : y ≠ x) (hi : i ≤ (t.children x).length) {w : α}
    (hw : w ∈ (t.insert x i y).children z) : w = y ∧ z = x ∨ w ∈ t.children z := by
  by_cases hx : z = x
  · subst hx
    rw [children_insert_self] at hw
    exact ((List.mem_insertIdx hi).1 hw).imp (fun heq => ⟨heq, rfl⟩) id
  · by_cases hy : z = y
    · subst hy
      rw [children_insert_new hne] at hw
      cases hw
    · rw [children_insert_of_ne hx hy] at hw
      exact Or.inr hw

theorem inTree_insert (hne : y ≠ x) (hi : i ≤ (t.children x).length) (hz : (t.insert x i y).InTree z) :
    t.InTree z ∨ z = y := by
  refine hz.induct (P := fun z => t.InTree z ∨ z = y) (Or.inl t.inTree_root) fun z w _ ih hw => ?_
  rcases mem_children_insert hne hi hw with ⟨rfl, -⟩ | hmem
  · exact Or.inr rfl
  · rcases ih with hz | rfl
    · exact Or.inl (hz.child hmem)
    · rw [children_insert_new hne] at hw
      cases hw

theorem WellLinked.insert (h : t.WellLinked) (hx : t.InTree x) (hy : ¬t.InTree y) (hi : i ≤ (t.children x).length) :
    (t.insert x i y).WellLinked := by
  have hne : y ≠ x := by
    rintro rfl
    exact hy hx
  have hlinks : ∀ z w, t.InTree z → w ∈ t.children z → (t.insert x i y).parent w = some z := by
    intro z w hz hw
    have hwy : w ≠ y := by
      rintro rfl
      exact hy (hz.child hw)
    exact (Function.update_of_ne hwy ..).trans (h.parent z w hz hw)
  refine ⟨?_, fun z w hz hw => ?_, fun z hz => ?_⟩
  · have hroot : t.root ≠ y := by
      rintro rfl
      exact hy t.inTree_root
    exact (Function.update_of_ne hroot ..).trans h.root
  · rcases mem_children_insert hne hi hw with ⟨rfl, rfl⟩ | hmem
    · exact Function.update_self ..
    · rcases inTree_insert hne hi hz with hz | rfl
      · exact hlinks z w hz hmem
      · rw [children_insert_new hne] at hw
        cases hw
  · rcases inTree_insert hne hi hz with hold | rfl
    · by_cases hzx : z = x
      · subst hzx
        have hmem : y ∉ t.children z := fun hmem => hy (hold.child hmem)
        rw [children_insert_self, (List.perm_insertIdx y _ hi).nodup_iff]
        exact List.nodup_cons.2 ⟨hmem, h.nodup z hold⟩
      · have hzy : z ≠ y := by
          rintro rfl
          exact hy hold
        rw [children_insert_of_ne hzx hzy]
        exact h.nodup z hold
    · rw [children_insert_new hne]
      exact List.nodup_nil

/-! ## A child is cut off -/

/-- child `i` of `x` is no longer a child -/
def erase (t : Links α) (x : α) (i : ℕ) : Links α :=
  { t with children := Function.update t.children x ((t.children x).eraseIdx i) }

theorem children_erase_sublist : ((t.erase x i).children z).Sublist (t.children z) := by
  by_cases hz : z = x
  · subst hz
    have hself : (t.erase z i).children z = (t.children z).eraseIdx i := Function.update_self ..
    rw [hself]
    exact List.eraseIdx_sublist ..
  · have hother : (t.erase x i).children z = t.children z := Function.update_of_ne hz ..
    rw [hother]

theorem inTree_erase (hz : (t.erase x i).InTree z) : t.InTree z :=
  hz.induct (P := t.InTree) t.inTree_root fun _ _ _ ih hw => ih.child (children_erase_sublist.subset hw)

theorem WellLinked.erase (h : t.WellLinked) : (t.erase x i).WellLinked where
  root := h.root
  parent z w hz hw := h.parent z w (inTree_erase hz) (children_erase_sublist.subset hw)
  nodup z hz := (h.nodup z (inTree_erase hz)).sublist children_erase_sublist

end Links

end Lib
