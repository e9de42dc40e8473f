/-
What changes of the layer stack leave in its place.

A handler may pop and push while a pass over the stack is on. `Placed` says which layers such changes leave where they were
up to a position, and in their order behind it. Layers that are popped behind the position, and layers that are pushed
behind the last one, do (`acts_placed`); an insertion in front of other layers does not, for `NkVectorInsert` overwrites
them.
-/
import Noriko.Layer.Push
import Noriko.Dstruct.VectorErase

namespace Noriko.Layer

open Lib Dstruct

variable {L : Type}

/-- The layers of `u` that were not pushed are layers of `w`, in the order of `w`; at a position up to `i` it is the layer
that `w` has there. -/
def Placed (i : ℕ) (w u : Vector L) (pushed : List L) : Prop :=
  ∃ f : ℕ → ℕ, StrictMono f ∧ (∀ q ≤ i, f q = q) ∧
    ∀ q < u.elemCount, u.dataPtr.mem q ∈ pushed ∨ f q < w.elemCount ∧ w.dataPtr.mem (f q) = u.dataPtr.mem q

/-- a layer behind position `i` is popped, or a layer is pushed behind the last one and the buffer has or is given room -/
def StackAct.Behind (i : ℕ) (w : Vector L) : StackAct L → Prop
  | .insert _ index _ _ => index = w.elemCount ∧ (w.elemCount + 1) * ptrBytes ≤ roomFor w (w.elemCount + 1)
  | .erase index => i < index

def ActsBehind (i : ℕ) : Vector L → List (StackAct L) → Prop
  | _, [] => True
  | w, a :: acts => a.Behind i w ∧ ActsBehind i (a.apply w) acts

section Behind

variable {i : ℕ} {u v w : Vector L} {pushed pushed' : List L}

theorem Placed.refl (i : ℕ) (w : Vector L) : Placed i w w [] :=
  ⟨id, strictMono_id, fun _ _ => rfl, fun _ hq => Or.inr ⟨hq, rfl⟩⟩

theorem Placed.trans (hvw : Placed i v w pushed) (hwu : Placed i w u pushed') : Placed i v u (pushed ++ pushed') := by
  obtain ⟨f, hf, hfix, hfrom⟩ := hvw
  obtain ⟨g, hg, hgfix, hgfrom⟩ := hwu
  refine ⟨f ∘ g, hf.comp hg, fun q hq => ?_, fun q hq => ?_⟩
  · rw [Function.comp_apply, hgfix q hq, hfix q hq]
  · rcases hgfrom q hq with hnew | ⟨hlt, hsame⟩
    · exact Or.inl (List.mem_append_right _ hnew)
    · have hold := hfrom (g q) hlt
      rw [hsame] at hold
      exact hold.imp_left (List.mem_append_left _)

/-- the layer at each position, from the layers as a list -/
theorem placed_of_elems (f : ℕ → ℕ) (hf : StrictMono f) (hfix : ∀ q ≤ i, f q = q)
    (hfrom : ∀ q < u.elemCount, (∃ l ∈ pushed, u.elems[q]? = some l) ∨ u.elems[q]? = w.elems[f q]?) :
    Placed i w u pushed := by
  refine ⟨f, hf, hfix, fun q hq => ?_⟩
  have hcell : u.elems[q]? = some (u.dataPtr.mem q) := by
    rw [getElem?_elems, if_pos hq]
  rcases hfrom q hq with ⟨l, hl, hnew⟩ | hsame
  · rw [hcell, Option.some_inj] at hnew
    exact Or.inl (hnew ▸ hl)
  · rw [hcell, getElem?_elems] at hsame
    split_ifs at hsame with hlt
    exact Or.inr ⟨hlt, (Option.some_inj.1 hsame).symm⟩

theorem erase_placed (hw : Sound w) {index : ℕ} (hi : i < index) :
    Sound (vectorErase w index).vec ∧ Placed i w (vectorErase w index).vec [] := by
  by_cases hlt : index < w.elemCount
  · have helems : (vectorErase w index).vec.elems = _ := eraseMulti_elems hlt Nat.one_pos
    have hwindow : windowCount w index 1 = 1 := by
      unfold windowCount
      omega
    rw [hwindow] at helems
    have hpos : min 1 (w.elemCount - index) > 0 := by omega
    have hsize : (vectorErase w index).vec.dataPtr.size = w.dataPtr.size := by
      simp only [vectorErase, vectorEraseMulti, if_pos hpos]
      rfl
    have hcount : (vectorErase w index).vec.elemCount = w.elemCount - 1 := by
      simp only [vectorErase, vectorEraseMulti, if_pos hpos]
      omega
    refine ⟨⟨?_, hsize ▸ hw.size⟩, ?_⟩
    · rw [hcount, hsize]
      exact (Nat.mul_le_mul_right _ (Nat.sub_le _ _)).trans hw.buffer
    · refine placed_of_elems (fun q => if q < index then q else q + 1) (fun p q hpq => ?_) (fun q hq => ?_) fun q hq => ?_
      · dsimp only
        split_ifs <;> omega
      · exact if_pos (by omega)
      · right
        have hlen : (w.elems.take index).length = index := by
          rw [List.length_take, length_elems]
          omega
        rw [helems, List.getElem?_append, hlen]
        split_ifs with hq
        · rw [List.getElem?_take_of_lt hq]
        · rw [List.getElem?_drop]
          congr 1
          omega
  · -- no layer there
    have hnone : ¬ min 1 (w.elemCount - index) > 0 := by omega
    have hsame : (vectorErase w index).vec = w := by
      simp only [vectorErase, vectorEraseMulti, if_neg hnone]
    rw [hsame]
    exact ⟨hw, Placed.refl i w⟩

theorem append_placed (hw : Sound w) (hroom : (w.elemCount + 1) * ptrBytes ≤ roomFor w (w.elemCount + 1)) (l : L)
    (mem : ℕ → L) (heap : Option (Fresh L)) :
    Sound (vectorInsert w l w.elemCount mem heap).2 ∧
      Placed i w (vectorInsert w l w.elemCount mem heap).2 ((StackAct.insert l w.elemCount mem heap).pushed w) := by
  have hlt := hw.count_lt
  by_cases hok : (vectorInsert w l w.elemCount mem heap).1 = .ok
  · have hrun : vectorInsert w l w.elemCount mem heap = (.ok, (vectorInsert w l w.elemCount mem heap).2) :=
      Prod.ext hok rfl
    set u := (vectorInsert w l w.elemCount mem heap).2
    obtain ⟨hcount, hsize⟩ := insertMulti_room (by omega : w.elemCount + 1 < 2 ^ 64) Nat.one_pos hrun
    have helems := insert_elems hw (le_refl _) hrun (hsize ▸ hroom)
    rw [Nat.sub_self, List.range_zero, List.map_nil, List.append_nil, ← length_elems, List.take_length] at helems
    have hbound : roomFor w (w.elemCount + 1) < 2 ^ 64 := by
      unfold roomFor
      split_ifs
      · exact hw.size
      · exact Nat.mod_lt _ (by norm_num)
    have hpushed : (StackAct.insert l w.elemCount mem heap).pushed w = [l] := if_pos hok
    refine ⟨⟨?_, ?_⟩, ?_⟩
    · rw [hcount, hsize]
      exact hroom
    · rw [hsize]
      exact hbound
    · rw [hpushed]
      refine placed_of_elems id strictMono_id (fun _ _ => rfl) fun q hq => ?_
      by_cases hlast : q < w.elemCount
      · right
        rw [helems, List.getElem?_append_left (by rw [length_elems]; exact hlast)]
        rfl
      · left
        have hqe : q = w.elems.length := by
          rw [length_elems]
          omega
        exact ⟨l, List.mem_singleton_self l, by rw [helems, hqe, List.getElem?_concat_length]⟩
  · rw [(insert_code hw l w.elemCount mem heap).2 hok]
    have hpushed : (StackAct.insert l w.elemCount mem heap).pushed w = [] := if_neg hok
    rw [hpushed]
    exact ⟨hw, Placed.refl i w⟩

/-- changes behind a position leave the layers up to it, and the order behind it -/
theorem acts_placed (acts : List (StackAct L)) (hw : Sound w) (hacts : ActsBehind i w acts) :
    Sound (applyActs w acts) ∧ Placed i w (applyActs w acts) (pushedBy w acts) := by
  induction acts generalizing w with
  | nil => exact ⟨hw, Placed.refl i w⟩
  | cons a acts ih =>
    obtain ⟨ha, hrest⟩ := hacts
    have hact : Sound (a.apply w) ∧ Placed i w (a.apply w) (a.pushed w) := by
      cases a with
      | insert l index mem heap =>
        obtain ⟨rfl, hroom⟩ := ha
        exact append_placed hw hroom l mem heap
      | erase index => exact erase_placed hw ha
    obtain ⟨hsound, hplaced⟩ := ih hact.1 hrest
    exact ⟨hsound, hact.2.trans hplaced⟩

end Behind

end Noriko.Layer
