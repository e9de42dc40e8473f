/-
Ownership of the elements of a vector with a destructor: the books of what was inserted and what was destroyed.

A call is right (`OwnOk`) if the elements before it and those it inserts are, up to order, the elements after it and those
it destroyed, and if the destructor is only called on slots below the count. The erasing calls and `NkVectorClear` pass
the end of the range as if it were excluded, but `__NkInt_VectorTryFreeRange` includes it, so they destroy one element too
many. An insertion that is not at the end overwrites the tail, and `NkVectorEraseIf` lowers the count by the number of all
elements erased so far in every round.

`Keeps` is the condition under which a call is right. `own_run` is the result for whole runs up to `NkVectorDestroy`;
`own_broken` is the erasure of one of two elements.
-/
import Noriko.Dstruct.VectorCap

namespace Noriko.Dstruct

open Lib

variable {E : Type}

/-! ## Calls and their effect on the elements -/

/-- the elements of the vector, in order -/
def Vector.elems (v : Vector E) : List E := (List.range v.elemCount).map v.dataPtr.mem

inductive OwnOp (E : Type) where
  | insertMulti (index : ℕ) (elemArray : ℕ → E) (nElems : ℕ) (heap : Option (Fresh E))
  | erase (index : ℕ)
  | eraseMulti (sInd maxN : ℕ)
  | eraseIf (sInd maxN : ℕ) (fnPred : ℕ → Vector E → ℕ → Bool) (rounds : ℕ)
  | clear (heap : Option (Fresh E))

structure OwnEffect (E : Type) where
  vec : Vector E
  inserted : List E
  destroyed : List E
  /-- slots the destructor was called on, with the element count at that moment -/
  freed : List (ℕ × ℕ)

/-- the slots of `tryFreeRange` -/
def freedRange (v : Vector E) (sInd eInd : ℕ) : List (ℕ × ℕ) :=
  if v.fnDest then (upto sInd (eInd + 1)).map fun i => (i, v.elemCount) else []

def eraseEffect (v : Vector E) (sInd maxN : ℕ) : OwnEffect E :=
  let r := vectorEraseMulti v sInd maxN
  let lenToDel := min maxN (v.elemCount - sInd)
  ⟨r.vec, [], r.destroyed, if lenToDel > 0 then freedRange v sInd (sInd + lenToDel) else []⟩

/-- the effect of a call, if it returns -/
def ownExec (v : Vector E) : OwnOp E → Option (OwnEffect E)
  | .insertMulti index elemArray nElems heap =>
    let r := vectorInsertMulti v index elemArray nElems heap
    some ⟨r.2, if r.1 = .ok then (List.range nElems).map elemArray else [], [], []⟩
  | .erase index => some (eraseEffect v index 1)
  | .eraseMulti sInd maxN => some (eraseEffect v sInd maxN)
  | .eraseIf sInd maxN fnPred rounds =>
    (vectorEraseIf v sInd maxN fnPred rounds).map fun r => ⟨r.2.vec, [], r.2.destroyed, r.2.freed⟩
  | .clear heap => some ⟨(vectorClear v heap).2.1, [], (vectorClear v heap).2.2, freedRange v 0 v.elemCount⟩

/-- asserted and documented preconditions; `NkVectorEraseIf` gets enough rounds to look at its range -/
def OwnLegal (v : Vector E) : OwnOp E → Prop
  | .insertMulti index _ nElems _ => index ≤ v.elemCount ∧ nElems < 2 ^ 64
  | .erase index => index < v.elemCount
  | .eraseMulti sInd maxN => sInd < v.elemCount ∧ maxN < 2 ^ 64
  | .eraseIf sInd maxN _ rounds => sInd ≤ v.elemCount ∧ maxN < 2 ^ 64 ∧ min maxN (v.elemCount - sInd) < rounds
  | .clear _ => True

/-! ## Books -/

/-- what leaves the vector is destroyed, and nothing else is -/
structure OwnOk (v : Vector E) (e : OwnEffect E) : Prop where
  balance : (e.vec.elems ++ e.destroyed).Perm (v.elems ++ e.inserted)
  slots : ∀ x ∈ e.freed, x.1 < x.2

/-- the call returns and is right -/
def CallRight (v : Vector E) (o : OwnOp E) : Prop := ∃ e, ownExec v o = some e ∧ OwnOk v e

/-- the call fails, or it appends to the vector with a buffer whose size does not wrap, or it erases nothing -/
def Keeps (v : Vector E) : OwnOp E → Prop
  | .insertMulti index _ nElems heap => nElems = 0 ∨ 2 ^ 64 ≤ v.elemCount + nElems ∨
      (v.elemCap < v.elemCount + nElems ∧ heap = none) ∨ (index = v.elemCount ∧ (v.elemCount + nElems ≤ v.elemCap ∨
        max v.vecProps.maxCap (max (v.elemCount + nElems) (capAfterGrowing v)) < 2 ^ 61))
  | .erase _ => False
  | .eraseMulti _ maxN => maxN = 0
  | .eraseIf sInd maxN fnPred _ => ∀ n < min maxN (v.elemCount - sInd), fnPred n v (sInd + n) = false
  | .clear _ => False

/-- the vector and everything that was inserted and destroyed so far -/
structure Owner (E : Type) where
  vec : Vector E
  inserted : List E
  destroyed : List E

def ownStep (s : Owner E) (o : OwnOp E) : Option (Owner E) :=
  (ownExec s.vec o).map fun e => ⟨e.vec, s.inserted ++ e.inserted, s.destroyed ++ e.destroyed⟩

/-- the buffer has room for the capacity -/
structure OwnInv (v : Vector E) : Prop where
  dest : v.fnDest = true
  count : v.elemCount ≤ v.elemCap
  cap : v.elemCap < 2 ^ 61
  buffer : v.elemCap * ptrBytes ≤ v.dataPtr.size

/-! ## Insertion -/

/-- the elements of a vector whose first cells are those of `v`, followed by the array -/
theorem elems_append {v w : Vector E} {n : ℕ} {elemArray : ℕ → E} (hcount : w.elemCount = v.elemCount + n)
    (hold : ∀ k < v.elemCount, w.dataPtr.mem k = v.dataPtr.mem k)
    (hnew : ∀ k < n, w.dataPtr.mem (v.elemCount + k) = elemArray k) :
    w.elems = v.elems ++ (List.range n).map elemArray := by
  unfold Vector.elems
  rw [hcount, List.range_add, List.map_append, List.map_map]
  congr 1
  · exact List.map_congr_left fun k hk => hold k (List.mem_range.1 hk)
  · exact List.map_congr_left fun k hk => hnew k (List.mem_range.1 hk)

/-- making room keeps the elements if the new size does not wrap -/
theorem growTo_keeps {v : Vector E} (h : OwnInv v) {reqSize : ℕ} (heap : Option (Fresh E))
    (hfits : reqSize ≤ v.elemCap ∨ max v.vecProps.maxCap (max reqSize (capAfterGrowing v)) < 2 ^ 61) :
    growTo v reqSize heap = (.memoryReallocation, v) ∨
      ∃ w, growTo v reqSize heap = (.ok, w) ∧ OwnInv w ∧ w.elemCount = v.elemCount ∧ reqSize ≤ w.elemCap ∧
        ∀ k < v.elemCount, w.dataPtr.mem k = v.dataPtr.mem k := by
  have hcount := h.count
  rcases growTo_cases v reqSize heap with ⟨hle, hg⟩ | ⟨-, -, hg⟩ | ⟨b, hlt, -, hsize, hkeep, hg⟩
  · exact Or.inr ⟨v, hg, h, rfl, hle, fun _ _ => rfl⟩
  · exact Or.inl hg
  · have hcap := hfits.resolve_left (not_le.2 hlt)
    rw [u64_ptr hcap] at hsize
    have hreq : reqSize ≤ max v.vecProps.maxCap (max reqSize (capAfterGrowing v)) :=
      (le_max_left _ _).trans (le_max_right _ _)
    refine Or.inr ⟨_, hg, ⟨h.dest, by dsimp only; omega, hcap, hsize.ge⟩, rfl, hreq, fun k hk => ?_⟩
    refine hkeep k ?_ ?_
    · exact (Nat.mul_le_mul_right _ (by omega : k + 1 ≤ v.elemCap)).trans h.buffer
    · rw [hsize]
      exact Nat.mul_le_mul_right _ (by omega)

/-- an insertion fails and changes nothing, or the array is appended -/
theorem insertMulti_appends {v : Vector E} (h : OwnInv v) {index nElems : ℕ} {elemArray : ℕ → E}
    {heap : Option (Fresh E)} (hl : OwnLegal v (.insertMulti index elemArray nElems heap))
    (hk : Keeps v (.insertMulti index elemArray nElems heap)) :
    ((vectorInsertMulti v index elemArray nElems heap).1 ≠ .ok ∧
      (vectorInsertMulti v index elemArray nElems heap).2 = v) ∨
    ((vectorInsertMulti v index elemArray nElems heap).1 = .ok ∧
      OwnInv (vectorInsertMulti v index elemArray nElems heap).2 ∧
      (vectorInsertMulti v index elemArray nElems heap).2.elems = v.elems ++ (List.range nElems).map elemArray) := by
  obtain ⟨hindex, hn⟩ := hl
  have hcount := h.count
  have hcap := h.cap
  by_cases hfail : nElems = 0 ∨ 2 ^ 64 ≤ v.elemCount + nElems
  · left
    have hreq : u64 (v.elemCount + nElems) ≤ v.elemCount := by
      unfold u64
      omega
    rw [vectorInsertMulti, if_pos hreq]
    exact ⟨by simp, rfl⟩
  · have hsum : u64 (v.elemCount + nElems) = v.elemCount + nElems := u64_of_lt (by omega)
    have hgo : vectorInsertMulti v index elemArray nElems heap =
        if (growTo v (v.elemCount + nElems) heap).1 ≠ .ok then growTo v (v.elemCount + nElems) heap
        else (.ok, { (((growTo v (v.elemCount + nElems) heap).2.write (index + nElems) elemArray
          (v.elemCount - index)).write index elemArray nElems) with elemCount := v.elemCount + nElems }) := by
      rw [vectorInsertMulti, hsum, if_neg (by omega)]
    rw [hgo]
    by_cases hnone : v.elemCap < v.elemCount + nElems ∧ heap = none
    · left
      obtain ⟨hlt, rfl⟩ := hnone
      rcases growTo_cases v (v.elemCount + nElems) none with ⟨hle, -⟩ | ⟨-, -, hg⟩ | ⟨b, -, hne, -⟩
      · omega
      · rw [hg, if_pos (by simp)]
        exact ⟨by simp, rfl⟩
      · exact absurd rfl hne
    · have hend : index = v.elemCount ∧ (v.elemCount + nElems ≤ v.elemCap ∨
          max v.vecProps.maxCap (max (v.elemCount + nElems) (capAfterGrowing v)) < 2 ^ 61) := by
        rcases hk with hk | hk | hk | hk
        · exact absurd (Or.inl hk) hfail
        · exact absurd (Or.inr hk) hfail
        · exact absurd hk hnone
        · exact hk
      obtain ⟨rfl, hfits⟩ := hend
      rcases growTo_keeps h heap hfits with hg | ⟨w, hg, hw, hwc, hwcap, hmem⟩
      · left
        rw [hg, if_pos (by simp)]
        exact ⟨by simp, rfl⟩
      · right
        rw [hg, if_neg (by simp)]
        refine ⟨rfl, ⟨hw.dest, hwcap, hw.cap, hw.buffer⟩, elems_append rfl (fun k hk => ?_) (fun k hk => ?_)⟩
        · simp only [Vector.write, blit, if_neg (by omega : ¬ (v.elemCount ≤ k ∧ k < v.elemCount + nElems)),
            if_neg (by omega : ¬ (v.elemCount + nElems ≤ k ∧ k < v.elemCount + nElems + (v.elemCount - v.elemCount)))]
          exact hmem k hk
        · simp only [Vector.write, blit, if_pos (by omega : v.elemCount ≤ v.elemCount + k ∧
            v.elemCount + k < v.elemCount + nElems), Nat.add_sub_cancel_left]

/-! ## Erasing nothing -/

/-- where the loop of `NkVectorEraseIf` stands before the first match -/
def eraseIfAt (v : Vector E) (i : ℕ) : EraseIfState E := ⟨v, i, 0, [], [], []⟩

theorem eraseIfRound_skip {v : Vector E} (hcount : v.elemCount < 2 ^ 64) (i : ℕ) :
    eraseIfRound (eraseIfAt v i) false = eraseIfAt v (i + 1) := by
  have hsame : sub64 v.elemCount 0 = v.elemCount := sub64_of_le (Nat.zero_le _) hcount
  simp only [eraseIfAt, eraseIfRound, Bool.false_eq_true, if_false, hsame]

/-- rounds without a match only move the index -/
theorem eraseIfLoop_skip {fnPred : ℕ → Vector E → ℕ → Bool} {v : Vector E} {i stop n : ℕ} (hcount : v.elemCount < 2 ^ 64)
    (k : ℕ) (hstop : i + k ≤ stop) (hnone : ∀ j < k, fnPred (n + j) v (i + j) = false) (rounds : ℕ) :
    eraseIfLoop fnPred stop (rounds + k) n (eraseIfAt v i) = eraseIfLoop fnPred stop rounds (n + k) (eraseIfAt v (i + k)) := by
  induction k generalizing rounds with
  | zero => rfl
  | succ k ih =>
    have hrounds : rounds + (k + 1) = rounds + 1 + k := by omega
    have hlt : (eraseIfAt v (i + k)).i < stop := hstop
    have hpred : fnPred (n + k) (eraseIfAt v (i + k)).vec (eraseIfAt v (i + k)).i = false := hnone k (Nat.lt_succ_self k)
    rw [hrounds, ih (by omega) (fun j hj => hnone j (by omega)), eraseIfLoop, if_pos hlt, hpred, eraseIfRound_skip hcount]
    rfl

/-- a loop without a match leaves the vector alone -/
theorem eraseIfLoop_none {fnPred : ℕ → Vector E → ℕ → Bool} {v : Vector E} (hcount : v.elemCount < 2 ^ 64) {left : ℕ}
    (i n : ℕ) (hnone : ∀ k < left, fnPred (n + k) v (i + k) = false) {rounds : ℕ} (hr : left < rounds) :
    eraseIfLoop fnPred (i + left) rounds n (eraseIfAt v i) = some (eraseIfAt v (i + left)) := by
  obtain ⟨more, rfl⟩ : ∃ more, rounds = more + 1 + left := ⟨rounds - left - 1, by omega⟩
  have hend : ¬ (eraseIfAt v (i + left)).i < i + left := lt_irrefl _
  rw [eraseIfLoop_skip hcount left le_rfl hnone, eraseIfLoop, if_neg hend]

theorem vectorEraseIf_none {fnPred : ℕ → Vector E → ℕ → Bool} {v : Vector E} (hcount : v.elemCount < 2 ^ 64)
    {sInd maxN rounds : ℕ} (hl : OwnLegal v (.eraseIf sInd maxN fnPred rounds))
    (hk : Keeps v (.eraseIf sInd maxN fnPred rounds)) :
    vectorEraseIf v sInd maxN fnPred rounds =
      some (.ok, ⟨v, sInd + min maxN (v.elemCount - sInd), 0, [], [], []⟩) := by
  obtain ⟨hsInd, hmaxN, hrounds⟩ := hl
  have hlen : sub64 v.elemCount sInd = v.elemCount - sInd := sub64_of_le (by omega) hcount
  have hstop : u64 (sInd + min maxN (v.elemCount - sInd)) = sInd + min maxN (v.elemCount - sInd) :=
    u64_of_lt (by omega)
  have hloop := eraseIfLoop_none hcount sInd 0 (fun k hk' => by rw [Nat.zero_add]; exact hk k hk') hrounds
  unfold vectorEraseIf
  dsimp only
  rw [hlen, hstop]
  exact congrArg (Option.map fun s => (NkErrorCode.ok, s)) hloop

/-! ## One call -/

theorem OwnOk.of_same {v : Vector E} : OwnOk v ⟨v, [], [], []⟩ := ⟨.refl _, fun _ hx => absurd hx (by simp)⟩

/-- a call under the condition returns, is right and destroys nothing -/
theorem ownExec_keeps {v : Vector E} (h : OwnInv v) {o : OwnOp E} (hl : OwnLegal v o) (hk : Keeps v o) :
    ∃ e, ownExec v o = some e ∧ OwnOk v e ∧ OwnInv e.vec := by
  cases o with
  | insertMulti index elemArray nElems heap =>
    refine ⟨_, rfl, ?_⟩
    rcases insertMulti_appends h hl hk with ⟨hcode, hsame⟩ | ⟨hcode, hinv, helems⟩
    · rw [if_neg hcode, hsame]
      exact ⟨.of_same, h⟩
    · rw [if_pos hcode]
      refine ⟨⟨?_, fun _ hx => absurd hx (by simp)⟩, hinv⟩
      rw [List.append_nil]
      exact .of_eq helems
  | erase index => exact hk.elim
  | eraseMulti sInd maxN =>
    have hzero : maxN = 0 := hk
    subst hzero
    refine ⟨⟨v, [], [], []⟩, ?_, .of_same, h⟩
    rw [ownExec, eraseEffect, vectorEraseMulti]
    simp
  | eraseIf sInd maxN fnPred rounds =>
    have hcount : v.elemCount < 2 ^ 64 := by
      have h₁ := h.count
      have h₂ := h.cap
      omega
    refine ⟨⟨v, [], [], []⟩, ?_, .of_same, h⟩
    rw [ownExec, vectorEraseIf_none hcount hl hk]
    rfl
  | clear heap => exact hk.elim

/-- destroying a range up to and including the element behind it is never right -/
theorem not_ownOk_of_length {v : Vector E} {e : OwnEffect E} (hlen : v.elemCount < e.vec.elemCount + e.destroyed.length)
    (hins : e.inserted = []) : ¬ OwnOk v e := by
  intro hok
  have hl := hok.balance.length_eq
  rw [List.length_append, List.length_append, hins, List.length_nil] at hl
  unfold Vector.elems at hl
  rw [List.length_map, List.length_map, List.length_range, List.length_range] at hl
  omega

theorem tryFreeRange_length {v : Vector E} (h : v.fnDest = true) (sInd eInd : ℕ) :
    (tryFreeRange v sInd eInd).2.length = eInd + 1 - sInd := by
  rw [tryFreeRange, if_pos h, List.length_map, upto, List.length_range']

/-- every erasure of at least one element destroys one too many -/
theorem eraseEffect_wrong {v : Vector E} (h : v.fnDest = true) {sInd maxN : ℕ} (hs : sInd < v.elemCount)
    (hn : 0 < maxN) : ¬ OwnOk v (eraseEffect v sInd maxN) := by
  have hpos : min maxN (v.elemCount - sInd) > 0 := by omega
  refine not_ownOk_of_length ?_ rfl
  have hfree := tryFreeRange_length h sInd (sInd + min maxN (v.elemCount - sInd))
  simp only [eraseEffect, vectorEraseMulti, if_pos hpos, hfree]
  omega

theorem clear_wrong {v : Vector E} (h : v.fnDest = true) (heap : Option (Fresh E)) :
    ∀ e, ownExec v (.clear heap) = some e → ¬ OwnOk v e := by
  intro e he
  cases he
  refine not_ownOk_of_length ?_ rfl
  have hfree := tryFreeRange_length h 0 v.elemCount
  simp only [vectorClear, hfree]
  omega

/-! ## Runs -/

theorem vectorDestroy_eq {v : Vector E} (h : v.fnDest = true) : vectorDestroy v = v.elems := by
  unfold vectorDestroy tryFreeRange Vector.elems
  split_ifs with hpos
  · have hend : v.elemCount - 1 + 1 - 0 = v.elemCount := by omega
    rw [upto, hend, List.range_eq_range']
  · have hzero : v.elemCount = 0 := by omega
    rw [hzero]
    rfl

/-- books and invariant of a run -/
def Booked (s : Owner E) : Prop := OwnInv s.vec ∧ (s.vec.elems ++ s.destroyed).Perm s.inserted

theorem ownStep_booked {s t : Owner E} {o : OwnOp E} (h : Booked s) (hl : OwnLegal s.vec o) (hk : Keeps s.vec o)
    (hs : ownStep s o = some t) : Booked t := by
  obtain ⟨hinv, hbooks⟩ := h
  obtain ⟨e, he, hok, hinv'⟩ := ownExec_keeps hinv hl hk
  rw [ownStep, he] at hs
  cases hs
  refine ⟨hinv', ?_⟩
  -- what the call destroyed goes behind the elements it left, and is exchanged for what it inserted
  calc List.Perm (e.vec.elems ++ (s.destroyed ++ e.destroyed)) (e.vec.elems ++ (e.destroyed ++ s.destroyed)) :=
        List.perm_append_comm.append_left _
    List.Perm _ ((s.vec.elems ++ e.inserted) ++ s.destroyed) := by
        rw [← List.append_assoc]
        exact hok.balance.append_right _
    List.Perm _ ((s.vec.elems ++ s.destroyed) ++ e.inserted) := by
        rw [List.append_assoc, List.append_assoc]
        exact List.perm_append_comm.append_left _
    List.Perm _ (s.inserted ++ e.inserted) := hbooks.append_right _

theorem ownInv_created {p : VectorProperties} {c : NkErrorCode} {heap : Option (Fresh E)} {v : Vector E}
    (h61 : p.initialCap < 2 ^ 61) (hc : vectorCreate p true c heap = (.ok, some v)) : OwnInv v ∧ v.elems = [] := by
  simp only [vectorCreate] at hc
  split_ifs at hc with hpool
  · cases hc
  · cases heap with
    | none => cases hc
    | some f =>
      cases hc
      refine ⟨⟨rfl, Nat.zero_le _, h61, ?_⟩, rfl⟩
      dsimp only
      rw [Nat.mul_comm ptrBytes, u64_ptr h61]

/-- Along every run of calls that meet the condition, what was inserted is in the vector or was destroyed, and destroying
the vector then destroys what is in it, so that every element is destroyed once. A further call that meets the condition
is right too; an erasure of at least one element and a clear are not. -/
theorem own_run {p : VectorProperties} {c : NkErrorCode} {heap : Option (Fresh E)} {v : Vector E} {s : Owner E}
    {ops : List (OwnOp E)} (h61 : p.initialCap < 2 ^ 61) (hc : vectorCreate p true c heap = (.ok, some v))
    (hrun : Runs ownStep (fun s o => OwnLegal s.vec o ∧ Keeps s.vec o) ⟨v, [], []⟩ ops s) :
    (s.vec.elems ++ s.destroyed).Perm s.inserted ∧ vectorDestroy s.vec = s.vec.elems ∧
      (s.destroyed ++ vectorDestroy s.vec).Perm s.inserted ∧
      (∀ o, OwnLegal s.vec o → Keeps s.vec o → CallRight s.vec o) ∧
      (∀ sInd maxN, sInd < s.vec.elemCount → 0 < maxN → ¬ CallRight s.vec (.eraseMulti sInd maxN)) ∧
      ∀ heap, ¬ CallRight s.vec (.clear heap) := by
  obtain ⟨hinv₀, hnil⟩ := ownInv_created h61 hc
  have hstart : Booked (⟨v, [], []⟩ : Owner E) := by
    refine ⟨hinv₀, ?_⟩
    dsimp only
    rw [hnil]
    rfl
  obtain ⟨hinv, hbooks⟩ : Booked s :=
    hrun.inv (fun _ _ _ hs ho hstep => ownStep_booked hs ho.1 ho.2 hstep) hstart
  have hdestroy := vectorDestroy_eq hinv.dest
  refine ⟨hbooks, hdestroy, ?_, fun o hl hk => ?_, fun sInd maxN hs hn hright => ?_, fun heap hright => ?_⟩
  · rw [hdestroy]
    exact List.perm_append_comm.trans hbooks
  · obtain ⟨e, he, hok, -⟩ := ownExec_keeps hinv hl hk
    exact ⟨e, he, hok⟩
  · obtain ⟨e, he, hok⟩ := hright
    cases he
    exact eraseEffect_wrong hinv.dest hs hn hok
  · obtain ⟨e, he, hok⟩ := hright
    exact clear_wrong hinv.dest heap e he hok

/-- a vector with room for two elements and a destructor -/
def ownedVector : Vector ℕ := ⟨0, 2, ⟨40, 2, 1, 2, 2⟩, true, ⟨64, 16, fun _ => 0⟩⟩

theorem ownedVector_created :
    vectorCreate ⟨40, 2, 1, 2, 2⟩ true .ok (some ⟨64, fun _ => 0⟩) = (.ok, some ownedVector) := rfl

/-- two elements are appended and destroyed with the vector -/
theorem own_run_append : ∃ s, Runs ownStep (fun s o => OwnLegal s.vec o ∧ Keeps s.vec o) ⟨ownedVector, [], []⟩
    [.insertMulti 0 (fun k => 7 + k) 2 none] s ∧ (s.destroyed ++ vectorDestroy s.vec).Perm s.inserted ∧
    s.inserted = [7, 8] := by
  set o : OwnOp ℕ := .insertMulti 0 (fun k => 7 + k) 2 none
  have ho : OwnLegal ownedVector o ∧ Keeps ownedVector o :=
    ⟨⟨by decide, by decide⟩, Or.inr (Or.inr (Or.inr ⟨rfl, Or.inl (by decide)⟩))⟩
  have hrun : Runs ownStep (fun s o => OwnLegal s.vec o ∧ Keeps s.vec o) ⟨ownedVector, [], []⟩ [o] _ :=
    .cons ho rfl (.nil _)
  exact ⟨_, hrun, (own_run (by decide) ownedVector_created hrun).2.2.1, by decide +kernel⟩

/-- two elements are appended and the first one is erased: the destructor is also called on the second, which stays -/
theorem own_broken : ¬ ∀ ops s, Runs ownStep (fun s o => OwnLegal s.vec o) ⟨ownedVector, [], []⟩ ops s →
    ∀ o, OwnLegal s.vec o → CallRight s.vec o := by
  intro h
  set o : OwnOp ℕ := .insertMulti 0 (fun k => 7 + k) 2 none
  have ho : OwnLegal ownedVector o := ⟨by decide, by decide⟩
  have hrun : Runs ownStep (fun s o => OwnLegal s.vec o) ⟨ownedVector, [], []⟩ [o] _ := .cons ho rfl (.nil _)
  obtain ⟨e, he, hok⟩ := h _ _ hrun (.erase 0) (by decide +kernel : _ < _)
  cases he
  refine eraseEffect_wrong ?_ ?_ ?_ hok
  · rfl
  · decide +kernel
  · decide

end Noriko.Dstruct
