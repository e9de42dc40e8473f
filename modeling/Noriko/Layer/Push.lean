/-
What `NkLayerstackPush` tells a layer about its neighbours, and what it makes of the stack (`layer.c`).

`whereInd` takes part in the index arithmetic before `NK_AS_NORMAL` is resolved, and the layer behind is looked up one
position too far. So the neighbours are right in an empty stack and for the position behind the last layer, if that is not
given as `NK_AS_NORMAL`; and where the stack holds one layer twice in a row. `NkVectorInsert` then overwrites the layers from
the position on instead of shifting them.

`pushOutcome` is the call in closed form (`layerstackPush_run`), with the stack that `OnPush` leaves, which may be another
one. `push_right_iff` is the exact condition.
-/
import Noriko.Layer.Layer
import Noriko.Dstruct.VectorInsert

namespace Noriko.Layer

open Lib Dstruct Sync

variable {L : Type}

/-! ## The call -/

/-- `NkLayerstackPush` to its end: the code, and how many references to the layer are added -/
def layerstackPushRef (layerRef : L) (whereInd : ℕ) (onPush : Option L → Option L → Method L) (mem : ℕ → L)
    (heap : Option (Fresh L)) : Sync (LayerSys L) (NkErrorCode × ℕ) := do
  let errCode ← layerstackPush layerRef whereInd onPush mem heap
  return (errCode, if errCode = .ok then 1 else 0)

/-- the index of `beforeRef`, if the vector is accessed -/
def beforeIndex (whereInd elemCount : ℕ) : Option ℕ :=
  if elemCount = 0 ∨ whereInd = 0 then none else some (whereInd - 1)

/-- the index of `afterRef`, if the vector is accessed -/
def afterIndex (whereInd elemCount : ℕ) : Option ℕ :=
  if elemCount = 0 ∨ elemCount ≤ u64 (whereInd + 1) then none else some (u64 (whereInd + 1))

/-- the accesses to the vector, in order -/
def pushAccesses (whereInd elemCount : ℕ) : List Access :=
  ((beforeIndex whereInd elemCount).toList ++ (afterIndex whereInd elemCount).toList).map fun i => ⟨i, elemCount⟩

section Outcome

variable (v : Vector L) (layerRef : L) (whereInd : ℕ) (onPush : Option L → Option L → Method L)

def beforeOf : Option L := (beforeIndex whereInd v.elemCount).map v.dataPtr.mem

def afterOf : Option L := (afterIndex whereInd v.elemCount).map v.dataPtr.mem

/-- the code of `OnPush` -/
def replyOf : NkErrorCode := (onPush (beforeOf v whereInd) (afterOf v whereInd) 0 layerRef v).1

/-- the stack that `OnPush` leaves -/
def foundOf : Vector L := applyActs v (onPush (beforeOf v whereInd) (afterOf v whereInd) 0 layerRef v).2

/-- the call of `OnPush` -/
def pushCall : MethodCall L :=
  let r := onPush (beforeOf v whereInd) (afterOf v whereInd) 0 layerRef v
  ⟨layerRef, v, r.1, pushedBy v r.2⟩

/-- the index for `NkVectorInsert` on the stack `w` -/
def insertIndex (whereInd : ℕ) (w : Vector L) : ℕ := if whereInd ≠ asNormal then whereInd else w.elemCount

structure PushOutcome (L : Type) where
  code : NkErrorCode
  stack : Vector L
  addRefs : ℕ

/-- what the call makes of the stack -/
def pushOutcome (mem : ℕ → L) (heap : Option (Fresh L)) : PushOutcome L :=
  let found := foundOf v layerRef whereInd onPush
  let reply := replyOf v layerRef whereInd onPush
  if reply ≠ .ok then ⟨reply, found, 0⟩
  else
    let r := vectorInsert found layerRef (insertIndex whereInd found) mem heap
    ⟨r.1, r.2, if r.1 = .ok then 1 else 0⟩

end Outcome

section Run

variable {v : Vector L} {whereInd n : ℕ} {accesses : List Access} {calls : List (MethodCall L)}

theorem beforeRef_run (b : Bool) : (beforeRef whereInd v : Sync (LayerSys L) (Option L)) ⟨b, n, ⟨v, accesses, calls⟩⟩ =
    .returns (beforeOf v whereInd)
      ⟨b, n, ⟨v, accesses ++ (beforeIndex whereInd v.elemCount).toList.map fun i => ⟨i, v.elemCount⟩, calls⟩⟩ := by
  unfold beforeRef beforeOf beforeIndex
  by_cases h : v.elemCount = 0 ∨ whereInd = 0
  · simp only [if_pos h, Option.toList_none, List.map_nil, List.append_nil]
    rfl
  · simp only [if_neg h]
    rfl

theorem afterRef_run (b : Bool) : (afterRef whereInd v : Sync (LayerSys L) (Option L)) ⟨b, n, ⟨v, accesses, calls⟩⟩ =
    .returns (afterOf v whereInd)
      ⟨b, n, ⟨v, accesses ++ (afterIndex whereInd v.elemCount).toList.map fun i => ⟨i, v.elemCount⟩, calls⟩⟩ := by
  unfold afterRef afterOf afterIndex
  by_cases h : v.elemCount = 0 ∨ v.elemCount ≤ u64 (whereInd + 1)
  · simp only [if_pos h, Option.toList_none, List.map_nil, List.append_nil]
    rfl
  · simp only [if_neg h]
    rfl

/-- up to the call of `OnPush`, which runs while the mutex is free -/
theorem push_start_run {A : Type} (layerRef : L) (onPush : Option L → Option L → Method L)
    (f : NkErrorCode → Sync (LayerSys L) A) :
    (do
      lock
      let s ← get
      let before ← beforeRef whereInd s.layerStack
      let after ← afterRef whereInd s.layerStack
      unlock
      let errCode ← callback (invoke (onPush before after) 0 layerRef)
      f errCode : Sync (LayerSys L) A) ⟨false, n, ⟨v, accesses, calls⟩⟩ =
    f (replyOf v layerRef whereInd onPush) ⟨false, n, ⟨foundOf v layerRef whereInd onPush,
      accesses ++ pushAccesses whereInd v.elemCount, calls ++ [pushCall v layerRef whereInd onPush]⟩⟩ := by
  refine (lock_get_run rfl _).trans ?_
  refine (bind_run (beforeRef_run true)).trans ?_
  refine (bind_run (afterRef_run true)).trans ?_
  rw [List.append_assoc, ← List.map_append]
  rfl

theorem push_run (layerRef : L) (onPush : Option L → Option L → Method L) (mem : ℕ → L) (heap : Option (Fresh L)) :
    let o := pushOutcome v layerRef whereInd onPush mem heap
    layerstackPush layerRef whereInd onPush mem heap ⟨false, n, ⟨v, accesses, calls⟩⟩ =
      .returns o.code ⟨false, n, ⟨o.stack, accesses ++ pushAccesses whereInd v.elemCount,
        calls ++ [pushCall v layerRef whereInd onPush]⟩⟩ := by
  refine (push_start_run layerRef onPush _).trans ?_
  unfold pushOutcome
  by_cases hreply : replyOf v layerRef whereInd onPush = .ok
  · simp only [hreply, ne_eq, not_true_eq_false, if_false]
    rfl
  · simp only [ne_eq, hreply, not_false_eq_true, if_true]
    rfl

/-- references are added exactly if the call succeeds, and then it is one -/
theorem addRefs_eq (v : Vector L) (layerRef : L) (whereInd : ℕ) (onPush : Option L → Option L → Method L) (mem : ℕ → L)
    (heap : Option (Fresh L)) : (pushOutcome v layerRef whereInd onPush mem heap).addRefs =
      if (pushOutcome v layerRef whereInd onPush mem heap).code = .ok then 1 else 0 := by
  unfold pushOutcome
  by_cases hreply : replyOf v layerRef whereInd onPush = .ok
  · simp [hreply]
  · simp [hreply]

/-- the call returns with the mutex free, and with the outcome, the accesses and the call of `OnPush` in closed form -/
theorem layerstackPush_run (layerRef : L) (onPush : Option L → Option L → Method L) (mem : ℕ → L)
    (heap : Option (Fresh L)) :
    let o := pushOutcome v layerRef whereInd onPush mem heap
    layerstackPushRef layerRef whereInd onPush mem heap ⟨false, n, ⟨v, accesses, calls⟩⟩ =
      .returns (o.code, o.addRefs) ⟨false, n, ⟨o.stack, accesses ++ pushAccesses whereInd v.elemCount,
        calls ++ [pushCall v layerRef whereInd onPush]⟩⟩ := by
  refine (bind_run (push_run layerRef onPush mem heap)).trans ?_
  rw [addRefs_eq]
  rfl

end Run

/-! ## What a push should do -/

/-- the position that `whereInd` means -/
def position (whereInd : ℕ) (v : Vector L) : ℕ := if whereInd = asNormal then v.elemCount else whereInd

/-- the layer gets to know its neighbours-to-be, no index is outside of the stack, and the stack has the layer at its
position and a reference to it, or everything is as before -/
structure PushRight (v : Vector L) (layerRef : L) (whereInd : ℕ) (onPush : Option L → Option L → Method L) (mem : ℕ → L)
    (heap : Option (Fresh L)) : Prop where
  before : beforeOf v whereInd = if position whereInd v = 0 then none else v.elems[position whereInd v - 1]?
  after : afterOf v whereInd = v.elems[position whereInd v]?
  inside : ∀ a ∈ pushAccesses whereInd v.elemCount, a.index < a.count
  pushed : (pushOutcome v layerRef whereInd onPush mem heap).code = .ok →
    (pushOutcome v layerRef whereInd onPush mem heap).stack.elems =
        v.elems.take (position whereInd v) ++ [layerRef] ++ v.elems.drop (position whereInd v) ∧
      (pushOutcome v layerRef whereInd onPush mem heap).addRefs = 1 ∧
      ∀ a ∈ insertWrites v (position whereInd v) 1,
        a.Within ⟨0, (pushOutcome v layerRef whereInd onPush mem heap).stack.dataPtr.size⟩
  refused : (pushOutcome v layerRef whereInd onPush mem heap).code ≠ .ok →
    (pushOutcome v layerRef whereInd onPush mem heap).stack.elems = v.elems ∧
      (pushOutcome v layerRef whereInd onPush mem heap).addRefs = 0

/-- an empty stack, the position behind the last layer, or two equal layers from the position on -/
def NeighboursRight (v : Vector L) (whereInd : ℕ) : Prop :=
  v.elemCount = 0 ∨ whereInd = v.elemCount ∨
    whereInd + 1 < v.elemCount ∧ v.dataPtr.mem whereInd = v.dataPtr.mem (whereInd + 1)

/-- there is memory for one more layer on the stack `w` -/
def HasMemory (w : Vector L) (heap : Option (Fresh L)) : Prop := w.elemCount + 1 ≤ w.elemCap ∨ heap.isSome

instance (w : Vector L) (heap : Option (Fresh L)) : Decidable (HasMemory w heap) := inferInstanceAs (Decidable (_ ∨ _))

/-- the stack `w` has as many layers as `v` and the same in front of the position; the layers of `v` from there on are what
the shift copies, the new layer and what lies behind its pointer; and the buffer has room -/
structure Shifts (v w : Vector L) (layerRef : L) (pos : ℕ) (mem : ℕ → L) : Prop where
  count : w.elemCount = v.elemCount
  front : w.elems.take pos = v.elems.take pos
  tail : ∀ k < v.elemCount - pos, (if k = 0 then layerRef else mem k) = v.dataPtr.mem (pos + k)
  room : (v.elemCount + 1) * ptrBytes ≤ roomFor w (v.elemCount + 1)

/-- the neighbours are right; if `OnPush` agrees and there is memory, the insertion into the stack that it leaves gives the
old stack with the layer, and else it leaves the layers of the stack -/
def Pushable (v : Vector L) (layerRef : L) (whereInd : ℕ) (onPush : Option L → Option L → Method L) (mem : ℕ → L)
    (heap : Option (Fresh L)) : Prop :=
  NeighboursRight v whereInd ∧
    if replyOf v layerRef whereInd onPush = .ok ∧ HasMemory (foundOf v layerRef whereInd onPush) heap then
      Shifts v (foundOf v layerRef whereInd onPush) layerRef (position whereInd v) mem
    else (foundOf v layerRef whereInd onPush).elems = v.elems

/-! ## Neighbours -/

section Neighbours

variable {v : Vector L} {whereInd : ℕ}

theorem getElem?_elems (v : Vector L) (i : ℕ) : v.elems[i]? = if i < v.elemCount then some (v.dataPtr.mem i) else none := by
  unfold Vector.elems
  split_ifs with hi
  · simp [hi]
  · simp [Nat.le_of_not_lt hi]

/-- the neighbours that are passed are the right ones, and the accesses are inside, exactly in three cases -/
theorem neighboursRight_iff (hv : Sound v) (hpos : whereInd ≤ v.elemCount ∨ whereInd = asNormal) :
    (beforeOf v whereInd = (if position whereInd v = 0 then none else v.elems[position whereInd v - 1]?) ∧
      afterOf v whereInd = v.elems[position whereInd v]? ∧
      ∀ a ∈ pushAccesses whereInd v.elemCount, a.index < a.count) ↔ NeighboursRight v whereInd := by
  have hcount := hv.count_lt
  have hmax : asNormal = 2 ^ 64 - 1 := rfl
  unfold NeighboursRight
  by_cases hempty : v.elemCount = 0
  · refine iff_of_true ⟨?_, ?_, ?_⟩ (Or.inl hempty)
    · simp [beforeOf, beforeIndex, hempty, getElem?_elems]
    · simp [afterOf, afterIndex, hempty, getElem?_elems]
    · simp [pushAccesses, beforeIndex, afterIndex, hempty]
  · rw [or_iff_right hempty]
    rcases hpos with hle | rfl
    · have hne : whereInd ≠ asNormal := by omega
      have hu : u64 (whereInd + 1) = whereInd + 1 := u64_of_lt (by omega)
      have hbefore : beforeOf v whereInd = if whereInd = 0 then none else v.elems[whereInd - 1]? := by
        unfold beforeOf beforeIndex
        by_cases h0 : whereInd = 0
        · simp [h0]
        · rw [if_neg (by omega), if_neg h0, getElem?_elems, if_pos (by omega)]
          rfl
      have hinside : ∀ a ∈ pushAccesses whereInd v.elemCount, a.index < a.count := by
        intro a ha
        obtain ⟨i, hi, rfl⟩ := List.mem_map.1 ha
        rcases List.mem_append.1 hi with hi | hi
        · unfold beforeIndex at hi
          split_ifs at hi
          · cases hi
          · simp only [Option.toList_some, List.mem_singleton] at hi
            show i < v.elemCount
            omega
        · unfold afterIndex at hi
          split_ifs at hi
          · cases hi
          · simp only [Option.toList_some, List.mem_singleton] at hi
            show i < v.elemCount
            omega
      have hpos : position whereInd v = whereInd := if_neg hne
      rw [hpos, and_iff_right hbefore, and_iff_left hinside]
      unfold afterOf afterIndex
      rw [hu, getElem?_elems]
      rcases Nat.lt_trichotomy (whereInd + 1) v.elemCount with hlt | heq | hgt
      · rw [if_neg (by omega), if_pos (by omega), Option.map_some, Option.some_inj]
        constructor
        · intro h
          exact Or.inr ⟨hlt, h.symm⟩
        · rintro (h | ⟨-, h⟩)
          · omega
          · exact h.symm
      · rw [if_pos (Or.inr (by omega)), if_pos (by omega)]
        refine iff_of_false nofun ?_
        omega
      · rw [if_pos (Or.inr (by omega)), if_neg (by omega)]
        exact iff_of_true rfl (Or.inl (by omega))
    · -- the index of the layer in front is computed from `NK_AS_NORMAL` itself
      refine iff_of_false ?_ (by omega)
      rintro ⟨-, -, hinside⟩
      have hout := hinside ⟨asNormal - 1, v.elemCount⟩ (by
        simp [pushAccesses, beforeIndex, hempty, hmax])
      have hout : asNormal - 1 < v.elemCount := hout
      omega

end Neighbours

/-! ## Insertion -/

section Insertion

variable {v w u : Vector L} {layerRef : L} {pos : ℕ} {mem : ℕ → L} {heap : Option (Fresh L)}

theorem insert_code (hw : Sound w) (layerRef : L) (index : ℕ) (mem : ℕ → L) (heap : Option (Fresh L)) :
    ((vectorInsert w layerRef index mem heap).1 = .ok ↔ HasMemory w heap) ∧
      ((vectorInsert w layerRef index mem heap).1 ≠ .ok → (vectorInsert w layerRef index mem heap).2 = w) := by
  have hcount := hw.count_lt
  have hu : u64 (w.elemCount + 1) = w.elemCount + 1 := u64_of_lt (by omega)
  unfold HasMemory vectorInsert vectorInsertMulti
  simp only [hu]
  rw [if_neg (by omega)]
  rcases growTo_cases w (w.elemCount + 1) heap with ⟨hle, hg⟩ | ⟨hlt, rfl, hg⟩ | ⟨b, -, hheap, -, -, hg⟩
  · rw [hg]
    exact ⟨iff_of_true rfl (Or.inl hle), fun hne => absurd rfl hne⟩
  · rw [hg]
    refine ⟨iff_of_false nofun ?_, fun _ => rfl⟩
    rintro (hle | hsome)
    · omega
    · cases hsome
  · rw [hg]
    exact ⟨iff_of_true rfl (Or.inr (Option.isSome_iff_ne_none.2 hheap)), fun hne => absurd rfl hne⟩

/-- the layers after an insertion: those in front of `index`, the new layer, and what the shift copies -/
theorem insert_elems (hw : Sound w) {index : ℕ} (hi : index ≤ w.elemCount)
    (h : vectorInsert w layerRef index mem heap = (.ok, u)) (hroom : (w.elemCount + 1) * ptrBytes ≤ u.dataPtr.size) :
    u.elems = w.elems.take index ++ [layerRef] ++
      (List.range (w.elemCount - index)).map fun k => Function.update mem 0 layerRef k := by
  have hcount := hw.count_lt
  have hfit : w.elemCount + 1 < 2 ^ 64 := by omega
  obtain ⟨hnew, htail⟩ := insertMulti_cells hfit Nat.one_pos h
  obtain ⟨huc, -⟩ := insertMulti_room hfit Nat.one_pos h
  have hlen : u.elemCount - (index + 1) = w.elemCount - index := by omega
  have hfront : (List.range index).map u.dataPtr.mem = (List.range index).map w.dataPtr.mem := by
    refine List.map_congr_left fun k hk => ?_
    exact insertMulti_front hw hfit Nat.one_pos hi h hroom (List.mem_range.1 hk)
  have hmid : (List.range 1).map (fun k => u.dataPtr.mem (index + k)) = [layerRef] := by
    have h0 := hnew 0 Nat.one_pos
    rw [Nat.add_zero] at h0
    simpa using h0
  rw [elems_split (i := index) (n := 1) (by omega), hlen, take_elems hi, hfront, hmid]
  congr 1
  exact List.map_congr_left fun k hk => htail k (List.mem_range.1 hk)

/-- the insertion into the stack `w` gives `v` with the new layer exactly if the layers of `v` are found there and are what
the shift copies -/
theorem insert_shifts_iff (hw : Sound w) {whereInd : ℕ} (hpos : whereInd ≤ v.elemCount ∨ whereInd = asNormal)
    (h : vectorInsert w layerRef (insertIndex whereInd w) mem heap = (.ok, u)) :
    (u.elems = v.elems.take (position whereInd v) ++ [layerRef] ++ v.elems.drop (position whereInd v) ∧
      ∀ a ∈ insertWrites v (position whereInd v) 1, a.Within ⟨0, u.dataPtr.size⟩) ↔
      Shifts v w layerRef (position whereInd v) mem := by
  have hcount := hw.count_lt
  obtain ⟨huc, hroom⟩ := insertMulti_room (by omega : w.elemCount + 1 < 2 ^ 64) Nat.one_pos h
  have hle : position whereInd v ≤ v.elemCount := by
    unfold position
    split_ifs with hn
    · exact le_refl _
    · exact hpos.resolve_right hn
  have hwrites : (∀ a ∈ insertWrites v (position whereInd v) 1, a.Within ⟨0, u.dataPtr.size⟩) ↔
      (v.elemCount + 1) * ptrBytes ≤ u.dataPtr.size := by
    simp only [insertWrites, List.forall_mem_cons, List.not_mem_nil, false_imp_iff, implies_true, and_true, Span.Within,
      ptrBytes]
    omega
  rw [hwrites]
  -- without as many layers as before, the result has another length
  by_cases hsame : w.elemCount = v.elemCount
  · have hindex : insertIndex whereInd w = position whereInd v := by
      unfold insertIndex position
      rw [ite_not, hsame]
    rw [hindex] at h
    have hlen : (w.elems.take (position whereInd v)).length = (v.elems.take (position whereInd v)).length := by
      rw [List.length_take, List.length_take, length_elems, length_elems, hsame]
    have hsplit : (v.elemCount + 1) * ptrBytes ≤ u.dataPtr.size →
        (u.elems = v.elems.take (position whereInd v) ++ [layerRef] ++ v.elems.drop (position whereInd v) ↔
          w.elems.take (position whereInd v) = v.elems.take (position whereInd v) ∧
          ∀ k < v.elemCount - position whereInd v,
            (if k = 0 then layerRef else mem k) = v.dataPtr.mem (position whereInd v + k)) := by
      intro hfits
      rw [insert_elems hw (hsame ▸ hle) h (hsame ▸ hfits), hsame, drop_elems hle, List.append_assoc, List.append_assoc,
        List.append_eq_append_iff_of_size_eq_left hlen, List.append_cancel_left_eq, List.map_inj_left]
      simp only [List.mem_range, Function.update_apply]
    rw [hsame] at hroom
    constructor
    · intro hall
      have hparts := (hsplit hall.2).1 hall.1
      exact ⟨hsame, hparts.1, hparts.2, hroom ▸ hall.2⟩
    · intro hall
      have hfits : (v.elemCount + 1) * ptrBytes ≤ u.dataPtr.size := hroom ▸ hall.room
      exact ⟨(hsplit hfits).2 ⟨hall.front, hall.tail⟩, hfits⟩
  · refine iff_of_false ?_ fun hall => hsame hall.count
    rintro ⟨helems, -⟩
    have hlength := congrArg List.length helems
    simp only [List.length_append, length_elems, List.length_take, List.length_drop, List.length_singleton] at hlength
    omega

end Insertion

/-! ## The condition -/

section Condition

variable {v : Vector L} {layerRef : L} {whereInd : ℕ} {onPush : Option L → Option L → Method L} {mem : ℕ → L}
  {heap : Option (Fresh L)}

/-- the stack `w` that `OnPush` leaves is the one that the insertion gets -/
theorem pushOutcome_ok {w : Vector L} (hw : foundOf v layerRef whereInd onPush = w)
    (hreply : replyOf v layerRef whereInd onPush = .ok) :
    let r := vectorInsert w layerRef (insertIndex whereInd w) mem heap
    pushOutcome v layerRef whereInd onPush mem heap = ⟨r.1, r.2, if r.1 = .ok then 1 else 0⟩ := by
  unfold pushOutcome
  simp only [hw, hreply, ne_eq, not_true_eq_false, if_false]

/-- the stack and the count are as they should be exactly if the insertion shifts, or leaves the stack -/
theorem pushOutcome_right_iff {w : Vector L} {o : PushOutcome L} (hw : Sound w)
    (hpos : whereInd ≤ v.elemCount ∨ whereInd = asNormal) (hfound : foundOf v layerRef whereInd onPush = w)
    (ho : pushOutcome v layerRef whereInd onPush mem heap = o) :
    ((o.code = .ok → o.stack.elems = v.elems.take (position whereInd v) ++ [layerRef] ++ v.elems.drop (position whereInd v) ∧
        o.addRefs = 1 ∧ ∀ a ∈ insertWrites v (position whereInd v) 1, a.Within ⟨0, o.stack.dataPtr.size⟩) ∧
      (o.code ≠ .ok → o.stack.elems = v.elems ∧ o.addRefs = 0)) ↔
      if replyOf v layerRef whereInd onPush = .ok ∧ HasMemory w heap then Shifts v w layerRef (position whereInd v) mem
      else w.elems = v.elems := by
  by_cases hreply : replyOf v layerRef whereInd onPush = .ok
  · obtain ⟨hcode, hkeep⟩ := insert_code hw layerRef (insertIndex whereInd w) mem heap
    rw [pushOutcome_ok hfound hreply] at ho
    by_cases hmem : HasMemory w heap
    · have hok := hcode.2 hmem
      have hstack : vectorInsert w layerRef (insertIndex whereInd w) mem heap = (.ok, o.stack) := by
        rw [← ho]
        exact Prod.ext hok rfl
      rw [if_pos ⟨hreply, hmem⟩, ← insert_shifts_iff hw hpos hstack]
      have hocode : o.code = .ok := by
        rw [← ho]
        exact hok
      have hrefs : o.addRefs = 1 := by
        rw [← ho]
        exact if_pos hok
      constructor
      · intro hall
        have hparts := hall.1 hocode
        exact ⟨hparts.1, hparts.2.2⟩
      · intro hall
        exact ⟨fun _ => ⟨hall.1, hrefs, hall.2⟩, fun hne => absurd hocode hne⟩
    · have hno : (vectorInsert w layerRef (insertIndex whereInd w) mem heap).1 ≠ .ok := fun hok => hmem (hcode.1 hok)
      rw [if_neg fun hall => hmem hall.2, ← ho]
      simp only [hno, hkeep hno, if_false, false_imp_iff, ne_eq, not_false_eq_true, true_imp_iff, and_true, true_and]
  · have hrefused : o = ⟨replyOf v layerRef whereInd onPush, w, 0⟩ := by
      rw [← ho, pushOutcome]
      simp only [ne_eq, hreply, not_false_eq_true, if_true, hfound]
    rw [if_neg fun hall => hreply hall.1, hrefused]
    simp [hreply]

/-- A push is right exactly if the neighbours are and the insertion into what `OnPush` leaves shifts, or leaves the stack -/
theorem push_right_iff (hv : Sound v) (hw : Sound (foundOf v layerRef whereInd onPush))
    (hpos : whereInd ≤ v.elemCount ∨ whereInd = asNormal) :
    (∀ n accesses calls, layerstackPushRef layerRef whereInd onPush mem heap ⟨false, n, ⟨v, accesses, calls⟩⟩ =
      .returns ((pushOutcome v layerRef whereInd onPush mem heap).code,
          (pushOutcome v layerRef whereInd onPush mem heap).addRefs)
        ⟨false, n, ⟨(pushOutcome v layerRef whereInd onPush mem heap).stack,
          accesses ++ pushAccesses whereInd v.elemCount, calls ++ [pushCall v layerRef whereInd onPush]⟩⟩) ∧
    (PushRight v layerRef whereInd onPush mem heap ↔ Pushable v layerRef whereInd onPush mem heap) := by
  refine ⟨fun n accesses calls => layerstackPush_run layerRef onPush mem heap, ?_⟩
  unfold Pushable
  rw [← neighboursRight_iff hv hpos, ← pushOutcome_right_iff hw hpos rfl rfl]
  constructor
  · rintro ⟨hbefore, hafter, hinside, hpushed, hrefused⟩
    exact ⟨⟨hbefore, hafter, hinside⟩, hpushed, hrefused⟩
  · rintro ⟨⟨hbefore, hafter, hinside⟩, hpushed, hrefused⟩
    exact ⟨hbefore, hafter, hinside, hpushed, hrefused⟩

/-- a layer that agrees and leaves the stack alone -/
def agrees : Option ℕ → Option ℕ → Method ℕ := fun _ _ _ _ _ => (.ok, [])

/-- a second layer is pushed behind the first one, by its index -/
theorem push_right_behind : PushRight oneElem 8 1 agrees (fun _ => 0) none := by
  have hfound : Sound (foundOf oneElem 8 1 agrees) := sound_oneElem
  refine (push_right_iff sound_oneElem hfound (Or.inl (by decide))).2.2 ⟨Or.inr (Or.inl rfl), ?_⟩
  rw [if_pos ⟨rfl, Or.inl (by decide)⟩]
  exact ⟨rfl, rfl, fun k hk => absurd hk (Nat.not_lt_zero k), by decide⟩

/-- a second layer is pushed to the end, given as `NK_AS_NORMAL`: the index of the layer in front is outside of the stack -/
theorem push_end_broken : ¬ ∀ (v : Vector ℕ) (layerRef whereInd : ℕ) (onPush : Option ℕ → Option ℕ → Method ℕ)
    (mem : ℕ → ℕ) (heap : Option (Fresh ℕ)), Sound v → Sound (foundOf v layerRef whereInd onPush) →
    (whereInd ≤ v.elemCount ∨ whereInd = asNormal) → PushRight v layerRef whereInd onPush mem heap := by
  intro hall
  have hright := hall oneElem 8 asNormal agrees (fun _ => 0) none sound_oneElem sound_oneElem (Or.inr rfl)
  have hindex := hright.inside ⟨asNormal - 1, 1⟩ (by decide)
  exact absurd hindex (by decide)

end Condition

end Noriko.Layer
