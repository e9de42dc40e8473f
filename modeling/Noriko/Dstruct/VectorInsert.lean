/-
What `NkVectorInsertMulti` and `NkVectorInsert` do to the contents of a vector (`dstruct/vector.c`).

The call means to shift the elements from `index` on to the right, but the `memmove` reads from `elemArray`. So the tail
becomes a copy of the beginning of `elemArray`, and of what lies behind it if the tail is longer. The size of a new buffer
is cut to 64 bits. `insert_iff`: the elements are inserted, with no access outside, exactly if the tail is a beginning of
the array, and the buffer has room. An insertion at the end meets the former.
-/
import Noriko.Dstruct.VectorOwn

namespace Noriko.Dstruct

open Lib

variable {E : Type}

/-! ## The code -/

/-- the bytes of `elemArray` that an insertion reads once there is room, for the shift and for the copy -/
def insertReads (v : Vector E) (index nElems : ℕ) : List Span :=
  [⟨0, (v.elemCount - index) * ptrBytes⟩, ⟨0, nElems * ptrBytes⟩]

/-- the bytes of the buffer that it writes -/
def insertWrites (v : Vector E) (index nElems : ℕ) : List Span :=
  [⟨(index + nElems) * ptrBytes, (v.elemCount - index) * ptrBytes⟩, ⟨index * ptrBytes, nElems * ptrBytes⟩]

/-! ## Elements -/

section Elems

variable {v w : Vector E} {i n : ℕ}

theorem length_elems (v : Vector E) : v.elems.length = v.elemCount := by
  simp [Vector.elems]

theorem take_elems (h : i ≤ v.elemCount) : v.elems.take i = (List.range i).map v.dataPtr.mem := by
  rw [Vector.elems, ← List.map_take, List.take_range, Nat.min_eq_left h]

theorem drop_elems (h : i ≤ v.elemCount) :
    v.elems.drop i = (List.range (v.elemCount - i)).map fun k => v.dataPtr.mem (i + k) := by
  obtain ⟨m, hm⟩ : ∃ m, v.elemCount = i + m := ⟨v.elemCount - i, by omega⟩
  rw [Vector.elems, hm, List.range_add, List.map_append, List.map_map, List.drop_left' (by simp), Nat.add_sub_cancel_left]
  rfl

/-- elements in front of `i`, `n` elements from there on, and the rest -/
theorem elems_split (h : i + n ≤ v.elemCount) : v.elems = (List.range i).map v.dataPtr.mem ++
    (List.range n).map (fun k => v.dataPtr.mem (i + k)) ++
    (List.range (v.elemCount - (i + n))).map fun k => v.dataPtr.mem (i + n + k) := by
  rw [← drop_elems h, ← take_elems (by omega : i ≤ v.elemCount)]
  have hmid : (List.range n).map (fun k => v.dataPtr.mem (i + k)) = (v.elems.drop i).take n := by
    rw [drop_elems (by omega), ← List.map_take, List.take_range, Nat.min_eq_left (by omega)]
  rw [hmid, List.append_assoc, ← List.drop_drop, List.take_append_drop, List.take_append_drop]

end Elems

/-! ## Insertion -/

/-- the elements are in the buffer -/
structure Sound (v : Vector E) : Prop where
  buffer : v.elemCount * ptrBytes ≤ v.dataPtr.size
  size : v.dataPtr.size < 2 ^ 64

/-- `ys` is inserted at `index`, nothing outside of it is read and nothing outside of the buffer is written -/
structure Inserted (v : Vector E) (index : ℕ) (ys : List E) (w : Vector E) : Prop where
  elems : w.elems = v.elems.take index ++ ys ++ v.elems.drop index
  count : w.elemCount = v.elemCount + ys.length
  reads : ∀ a ∈ insertReads v index ys.length, a.Within ⟨0, ys.length * ptrBytes⟩
  writes : ∀ a ∈ insertWrites v index ys.length, a.Within ⟨0, w.dataPtr.size⟩

/-- the capacity of a buffer that has to grow -/
def grownCap (v : Vector E) (reqSize : ℕ) : ℕ := max v.vecProps.maxCap (max reqSize (capAfterGrowing v))

/-- the size of the buffer once there is room for `reqSize` elements -/
def roomFor (v : Vector E) (reqSize : ℕ) : ℕ :=
  if reqSize ≤ v.elemCap then v.dataPtr.size else u64 (grownCap v reqSize * ptrBytes)

/-- the elements from `index` on are the first of `ys`, and the buffer has room or is given room for all elements -/
def Insertable (v : Vector E) (index : ℕ) (ys : List E) : Prop :=
  v.elems.drop index <+: ys ∧ (v.elemCount + ys.length) * ptrBytes ≤ roomFor v (v.elemCount + ys.length)

section Insert

variable {v w : Vector E} {index nElems : ℕ} {elemArray : ℕ → E} {heap : Option (Fresh E)}

theorem Sound.count_lt (h : Sound v) : v.elemCount < 2 ^ 61 := by
  have hbuf := h.buffer
  have hsize := h.size
  unfold ptrBytes at hbuf
  omega

/-- making room: nothing to do, or a buffer of the new capacity that has the cells of the old one as far as they fit -/
theorem growTo_ok {reqSize : ℕ} (h : growTo v reqSize heap = (.ok, w)) :
    (reqSize ≤ v.elemCap ∧ w = v) ∨ (v.elemCap < reqSize ∧ w.elemCount = v.elemCount ∧
      w.dataPtr.size = u64 (grownCap v reqSize * ptrBytes) ∧
      ∀ k, (k + 1) * ptrBytes ≤ v.dataPtr.size → (k + 1) * ptrBytes ≤ w.dataPtr.size →
        w.dataPtr.mem k = v.dataPtr.mem k) := by
  rcases growTo_cases v reqSize heap with ⟨hle, hg⟩ | ⟨-, -, hg⟩ | ⟨b, hlt, -, hsize, hkeep, hg⟩
  · obtain rfl : v = w := congrArg Prod.snd (hg.symm.trans h)
    exact Or.inl ⟨hle, rfl⟩
  · cases hg.symm.trans h
  · cases hg.symm.trans h
    exact Or.inr ⟨hlt, rfl, hsize, hkeep⟩

/-- an insertion that succeeds writes to the buffer that growing leaves -/
theorem insertMulti_ok (hcount : v.elemCount + nElems < 2 ^ 64) (hn : 0 < nElems)
    (h : vectorInsertMulti v index elemArray nElems heap = (.ok, w)) :
    ∃ g, growTo v (v.elemCount + nElems) heap = (.ok, g) ∧
      w = { (g.write (index + nElems) elemArray (v.elemCount - index)).write index elemArray nElems with
        elemCount := v.elemCount + nElems } := by
  unfold vectorInsertMulti at h
  rw [u64_of_lt hcount] at h
  dsimp only at h
  rw [if_neg (by omega)] at h
  rcases hg : growTo v (v.elemCount + nElems) heap with ⟨code, g⟩
  rw [hg] at h
  split_ifs at h with hcode
  · cases h
    exact absurd rfl hcode
  · have hok : code = .ok := not_not.1 hcode
    cases h
    exact ⟨g, by rw [hok], rfl⟩

/-- the cells after an insertion: those in front of `index`, the array, and the beginning of the array once more -/
theorem insertMulti_cells (hcount : v.elemCount + nElems < 2 ^ 64) (hn : 0 < nElems)
    (h : vectorInsertMulti v index elemArray nElems heap = (.ok, w)) :
    (∀ k < nElems, w.dataPtr.mem (index + k) = elemArray k) ∧
      (∀ k < v.elemCount - index, w.dataPtr.mem (index + nElems + k) = elemArray k) := by
  obtain ⟨g, -, rfl⟩ := insertMulti_ok hcount hn h
  refine ⟨?_, ?_⟩
  · intro k hk
    simp only [Vector.write, blit]
    rw [if_pos (by omega), Nat.add_sub_cancel_left]
  · intro k hk
    simp only [Vector.write, blit]
    rw [if_neg (by omega), if_pos (by omega), Nat.add_sub_cancel_left]

/-- the room that an insertion finds or makes -/
theorem insertMulti_room (hcount : v.elemCount + nElems < 2 ^ 64) (hn : 0 < nElems)
    (h : vectorInsertMulti v index elemArray nElems heap = (.ok, w)) :
    w.elemCount = v.elemCount + nElems ∧ w.dataPtr.size = roomFor v (v.elemCount + nElems) := by
  obtain ⟨g, hg, rfl⟩ := insertMulti_ok hcount hn h
  refine ⟨rfl, ?_⟩
  unfold roomFor
  rcases growTo_ok hg with ⟨hfit, rfl⟩ | ⟨hbig, -, hsize, -⟩
  · rw [if_pos hfit]
    rfl
  · rw [if_neg (not_le.2 hbig)]
    exact hsize

/-- with room for all elements, those in front of `index` stay -/
theorem insertMulti_front (hv : Sound v) (hcount : v.elemCount + nElems < 2 ^ 64) (hn : 0 < nElems)
    (hi : index ≤ v.elemCount) (h : vectorInsertMulti v index elemArray nElems heap = (.ok, w))
    (hroom : (v.elemCount + nElems) * ptrBytes ≤ w.dataPtr.size) {k : ℕ} (hk : k < index) :
    w.dataPtr.mem k = v.dataPtr.mem k := by
  obtain ⟨g, hg, rfl⟩ := insertMulti_ok hcount hn h
  have hsame : ((g.write (index + nElems) elemArray (v.elemCount - index)).write index elemArray nElems).dataPtr.mem k =
      g.dataPtr.mem k := by
    simp only [Vector.write, blit]
    rw [if_neg (by omega), if_neg (by omega)]
  refine hsame.trans ?_
  have hbuf := hv.buffer
  simp only [Vector.write] at hroom
  rcases growTo_ok hg with ⟨-, rfl⟩ | ⟨-, -, -, hkeep⟩
  · rfl
  · refine hkeep k ?_ ?_
    · exact (Nat.mul_le_mul_right _ (by omega : k + 1 ≤ v.elemCount)).trans hbuf
    · exact (Nat.mul_le_mul_right _ (by omega : k + 1 ≤ v.elemCount + nElems)).trans hroom

/-- with room for all elements, the array is inserted exactly if the tail repeats it -/
theorem insertMulti_elems (hv : Sound v) (hcount : v.elemCount + nElems < 2 ^ 64) (hn : 0 < nElems)
    (hi : index ≤ v.elemCount) (h : vectorInsertMulti v index elemArray nElems heap = (.ok, w))
    (hroom : (v.elemCount + nElems) * ptrBytes ≤ w.dataPtr.size) :
    w.elems = v.elems.take index ++ (List.range nElems).map elemArray ++ v.elems.drop index ↔
      ∀ k < v.elemCount - index, elemArray k = v.dataPtr.mem (index + k) := by
  obtain ⟨hnew, htail⟩ := insertMulti_cells hcount hn h
  obtain ⟨hwc, -⟩ := insertMulti_room hcount hn h
  have hlen : w.elemCount - (index + nElems) = v.elemCount - index := by omega
  have hfront : (List.range index).map w.dataPtr.mem = (List.range index).map v.dataPtr.mem := by
    refine List.map_congr_left fun k hk => ?_
    exact insertMulti_front hv hcount hn hi h hroom (List.mem_range.1 hk)
  have hmid : (List.range nElems).map (fun k => w.dataPtr.mem (index + k)) = (List.range nElems).map elemArray :=
    List.map_congr_left fun k hk => hnew k (List.mem_range.1 hk)
  rw [elems_split (i := index) (n := nElems) (by omega), hlen, take_elems hi, drop_elems hi, hfront, hmid,
    List.append_cancel_left_eq, List.map_inj_left]
  simp only [List.mem_range]
  exact forall₂_congr fun k hk => by rw [htail k hk]

/-- a tail that is no longer than the array and repeats it is a beginning of it -/
theorem tail_repeats_iff {ys : List E} (hys : Holds elemArray 0 ys) (hi : index ≤ v.elemCount) :
    (v.elemCount - index ≤ ys.length ∧ ∀ k < v.elemCount - index, elemArray k = v.dataPtr.mem (index + k)) ↔
      v.elems.drop index <+: ys := by
  have hget : ∀ k (hk : k < ys.length), elemArray k = ys[k] := by
    intro k hk
    have hcell := hys k hk
    rwa [Nat.zero_add] at hcell
  rw [drop_elems hi, List.prefix_iff_getElem]
  simp only [List.length_map, List.length_range, List.getElem_map, List.getElem_range]
  constructor
  · rintro ⟨hlen, hsame⟩
    refine ⟨hlen, fun k hk => ?_⟩
    rw [← hsame k hk, hget k (by omega)]
  · rintro ⟨hlen, hsame⟩
    refine ⟨hlen, fun k hk => ?_⟩
    rw [hsame k hk, hget k (by omega)]

theorem inserted_iff {ys : List E} (hv : Sound v) (hi : index ≤ v.elemCount) (hne : ys ≠ [])
    (hlen : ys.length * ptrBytes < 2 ^ 64) (hys : Holds elemArray 0 ys)
    (h : vectorInsertMulti v index elemArray ys.length heap = (.ok, w)) :
    Inserted v index ys w ↔ Insertable v index ys := by
  have hlt := hv.count_lt
  have hn : 0 < ys.length := List.length_pos_iff.2 hne
  have hcount : v.elemCount + ys.length < 2 ^ 64 := by
    unfold ptrBytes at hlen
    omega
  have hmap : (List.range ys.length).map elemArray = ys := by
    refine List.ext_getElem (by simp) fun k h1 h2 => ?_
    rw [List.getElem_map, List.getElem_range]
    have hcell := hys k h2
    rwa [Nat.zero_add] at hcell
  obtain ⟨hwc, hroom⟩ := insertMulti_room hcount hn h
  -- a tail that is read from the array is within it exactly if it is no longer
  have hreads : (∀ a ∈ insertReads v index ys.length, a.Within ⟨0, ys.length * ptrBytes⟩) ↔
      v.elemCount - index ≤ ys.length := by
    simp only [insertReads, List.forall_mem_cons, List.not_mem_nil, false_imp_iff, implies_true, and_true, Span.Within,
      ptrBytes]
    omega
  have hwrites : (∀ a ∈ insertWrites v index ys.length, a.Within ⟨0, w.dataPtr.size⟩) ↔
      (v.elemCount + ys.length) * ptrBytes ≤ roomFor v (v.elemCount + ys.length) := by
    rw [← hroom]
    simp only [insertWrites, List.forall_mem_cons, List.not_mem_nil, false_imp_iff, implies_true, and_true, Span.Within,
      ptrBytes]
    omega
  have helems := insertMulti_elems hv hcount hn hi h
  rw [hmap, hroom] at helems
  unfold Insertable
  rw [← tail_repeats_iff hys hi]
  constructor
  · rintro ⟨he, -, hr, hw⟩
    have hfits := hwrites.1 hw
    exact ⟨⟨hreads.1 hr, (helems hfits).1 he⟩, hfits⟩
  · rintro ⟨⟨hshort, hsame⟩, hfits⟩
    exact ⟨(helems hfits).2 hsame, hwc, hreads.2 hshort, hwrites.2 hfits⟩

/-- An insertion that succeeds is right exactly if the elements from `index` on are the first of the array and the buffer
has room; so is the insertion of one element. -/
theorem insert_iff (hv : Sound v) (hi : index ≤ v.elemCount) :
    (∀ ys elemArray heap w, ys ≠ [] → ys.length * ptrBytes < 2 ^ 64 → Holds elemArray 0 ys →
      vectorInsertMulti v index elemArray ys.length heap = (.ok, w) → (Inserted v index ys w ↔ Insertable v index ys)) ∧
    ∀ elemPtr stack heap w, vectorInsert v elemPtr index stack heap = (.ok, w) →
      (Inserted v index [elemPtr] w ↔ Insertable v index [elemPtr]) := by
  refine ⟨fun ys elemArray heap w hne hlen hys h => inserted_iff hv hi hne hlen hys h, ?_⟩
  intro elemPtr stack heap w h
  refine inserted_iff hv hi (List.cons_ne_nil _ _) (by simp [ptrBytes]) (holds_cons.2 ⟨?_, holds_nil _ _⟩) h
  exact Function.update_self ..

/-- one element and room for two -/
def oneElem : Vector ℕ := ⟨1, 2, ⟨40, 2, 1, 2, 2⟩, false, ⟨64, 16, fun _ => 7⟩⟩

theorem sound_oneElem : Sound oneElem := ⟨by decide, by decide⟩

/-- an element is appended -/
theorem insert_end : ∃ w, vectorInsert oneElem 8 1 (fun _ => 0) none = (.ok, w) ∧ Inserted oneElem 1 [8] w := by
  refine ⟨_, rfl, ((insert_iff sound_oneElem (by decide)).2 8 (fun _ => 0) none _ rfl).2 ⟨?_, by decide⟩⟩
  simp [Vector.elems, oneElem]

/-- an element is inserted in front of another one, which is lost -/
theorem insert_broken : ¬ ∀ (v : Vector ℕ) (index : ℕ) (ys : List ℕ) (elemArray : ℕ → ℕ) (heap : Option (Fresh ℕ))
    (w : Vector ℕ), Sound v → index ≤ v.elemCount → ys ≠ [] → ys.length * ptrBytes < 2 ^ 64 → Holds elemArray 0 ys →
    vectorInsertMulti v index elemArray ys.length heap = (.ok, w) → Inserted v index ys w := by
  intro hall
  have hys : Holds (fun _ => 8) 0 [8] := holds_cons.2 ⟨rfl, holds_nil _ _⟩
  have hins := hall oneElem 0 [8] (fun _ => 8) none _ sound_oneElem (by decide) (by decide) (by decide) hys rfl
  exact absurd hins.elems (by decide)

end Insert

end Noriko.Dstruct
