/-
What the erasing calls do to the contents of a vector and to the caller's array (`NkVectorEraseMulti` and
`NkVectorEraseIf` of `dstruct/vector.c`).

`NkVectorEraseMulti` removes the right elements. If it destroyed them, it means to set the caller's array to `NULL`, but
clears memory at the address that the first slot of the array holds. `eraseMulti_iff`: the call is right exactly if there
is no destructor, or the array holds its own address. Pointers are numbers here, and the caller's memory is bytes.

`NkVectorEraseIf` passes the vector to its predicate instead of the element, and does not move on after a match, so it
stays there for ever. It is right exactly if nothing is to be looked at, or all elements of the window are the vector
itself and no match (`eraseIf_iff`).
-/
import Noriko.Dstruct.VectorInsert
import Noriko.Dstruct.VectorScan

namespace Noriko.Dstruct

open Lib

/-! ## Erasing a range -/

section EraseMulti

/-- a slot of an array of pointers in memory -/
def slotAt (mem : ℕ → UInt8) (arr k : ℕ) : ℕ := field mem (arr + k * ptrBytes) ptrBytes

/-- the bytes of an array of pointers -/
def pointerBytes (xs : List ℕ) : List UInt8 := (xs.map (le ptrBytes)).flatten

/-- what a call leaves: the vector, the caller's memory, and where it wrote to the latter -/
structure EraseOut where
  vec : Vector ℕ
  mem : ℕ → UInt8
  written : List Span

/-- `NkVectorEraseMulti` with the memory of the caller, whose array is at address `elemArray` -/
def vectorEraseMultiOut (v : Vector ℕ) (sInd maxN elemArray : ℕ) (mem : ℕ → UInt8) : EraseOut :=
  let r := vectorEraseMulti v sInd maxN
  if r.code ≠ .ok then ⟨r.vec, mem, []⟩
  else if v.fnDest then
    -- memset(*elemArray, 0, ..): the target is what the first slot holds
    ⟨r.vec, blit mem (slotAt mem elemArray 0) (fun _ => 0) r.zeroed, [⟨slotAt mem elemArray 0, r.zeroed⟩]⟩
  else
    ⟨r.vec, blit mem elemArray (fun k => (pointerBytes r.copied).getD k 0) (r.copied.length * ptrBytes),
      [⟨elemArray, r.copied.length * ptrBytes⟩]⟩

/-- the window is erased; the array has the erased elements in its first slots or, if there is a destructor, is `NULL` in
all slots; nothing is written outside of it -/
structure ErasesRight (v : Vector ℕ) (sInd maxN elemArray : ℕ) (mem : ℕ → UInt8) (o : EraseOut) : Prop where
  elems : o.vec.elems = v.elems.take sInd ++ v.elems.drop (sInd + windowCount v sInd maxN)
  reported : v.fnDest = false → ∀ k < windowCount v sInd maxN, slotAt o.mem elemArray k = v.dataPtr.mem (sInd + k)
  cleared : v.fnDest = true → ∀ k < maxN, slotAt o.mem elemArray k = 0
  inside : ∀ a ∈ o.written, a.Within ⟨elemArray, maxN * ptrBytes⟩

variable {v : Vector ℕ} {sInd maxN elemArray : ℕ} {mem : ℕ → UInt8}

theorem eraseMulti_elems {E : Type} {v : Vector E} (hs : sInd < v.elemCount) (hn : 0 < maxN) :
    (vectorEraseMulti v sInd maxN).vec.elems = v.elems.take sInd ++ v.elems.drop (sInd + windowCount v sInd maxN) := by
  have hpos : min maxN (v.elemCount - sInd) > 0 := by omega
  have hend : sInd + windowCount v sInd maxN ≤ v.elemCount := by
    unfold windowCount
    omega
  have hvec : (vectorEraseMulti v sInd maxN).vec =
      { v.write sInd (fun k => v.dataPtr.mem (sInd + windowCount v sInd maxN + k))
          (v.elemCount - sInd - windowCount v sInd maxN) with elemCount := v.elemCount - windowCount v sInd maxN } := by
    simp only [vectorEraseMulti, if_pos hpos]
    rfl
  set w := (vectorEraseMulti v sInd maxN).vec
  have hcount : w.elemCount = v.elemCount - windowCount v sInd maxN := by rw [hvec]
  have hcell : ∀ k, w.dataPtr.mem k = blit v.dataPtr.mem sInd
      (fun k => v.dataPtr.mem (sInd + windowCount v sInd maxN + k)) (v.elemCount - sInd - windowCount v sInd maxN) k := by
    intro k
    rw [hvec]
    rfl
  rw [← List.take_append_drop sInd w.elems, take_elems (by omega), drop_elems (by omega), take_elems hs.le, drop_elems hend]
  congr 1
  · refine List.map_congr_left fun k hk => (hcell k).trans (if_neg ?_)
    rw [List.mem_range] at hk
    omega
  · have hlen : w.elemCount - sInd = v.elemCount - (sInd + windowCount v sInd maxN) := by omega
    rw [hlen]
    refine List.map_congr_left fun k hk => ?_
    rw [List.mem_range] at hk
    rw [hcell, blit, if_pos (by omega), Nat.add_sub_cancel_left]

/-- an array in memory, slot by slot -/
theorem slotAt_copied {xs : List ℕ} (hxs : ∀ x ∈ xs, x < 2 ^ 64) (arr : ℕ) {k : ℕ} (hk : k < xs.length) :
    slotAt (blit mem arr (fun j => (pointerBytes xs).getD j 0) (xs.length * ptrBytes)) arr k = xs[k] := by
  have hslot : (xs.map (le ptrBytes))[k]? = some (le ptrBytes xs[k]) := by
    simp [hk]
  have hoff : (((xs.map (le ptrBytes)).take k).map List.length).sum = k * ptrBytes := by
    rw [← List.map_take, List.map_map, List.map_congr_left (g := fun _ => ptrBytes) (by simp), List.map_const',
      List.sum_replicate, smul_eq_mul, List.length_take, Nat.min_eq_left hk.le]
  have hfits : k * ptrBytes + ptrBytes ≤ xs.length * ptrBytes := by
    rw [← Nat.succ_mul]
    exact Nat.mul_le_mul_right _ hk
  unfold slotAt pointerBytes
  rw [field_blit hfits, field_flatten hslot hoff]
  exact Nat.mod_eq_of_lt (hxs _ (List.getElem_mem hk))

/-- the elements of the window -/
def erased (v : Vector ℕ) (sInd maxN : ℕ) : List ℕ :=
  (List.range (windowCount v sInd maxN)).map fun k => v.dataPtr.mem (sInd + k)

theorem eraseMulti_code (hs : sInd < v.elemCount) (hn : 0 < maxN) : (vectorEraseMulti v sInd maxN).code = .ok := by
  have hpos : min maxN (v.elemCount - sInd) > 0 := by omega
  simp only [vectorEraseMulti, if_pos hpos]

theorem eraseMultiOut_kept (hs : sInd < v.elemCount) (hn : 0 < maxN) (hdest : v.fnDest = false) :
    vectorEraseMultiOut v sInd maxN elemArray mem =
      ⟨(vectorEraseMulti v sInd maxN).vec,
        blit mem elemArray (fun k => (pointerBytes (erased v sInd maxN)).getD k 0) ((erased v sInd maxN).length * ptrBytes),
        [⟨elemArray, (erased v sInd maxN).length * ptrBytes⟩]⟩ := by
  have hpos : min maxN (v.elemCount - sInd) > 0 := by omega
  have hcopied : (vectorEraseMulti v sInd maxN).copied = erased v sInd maxN := by
    simp only [vectorEraseMulti, if_pos hpos, tryFreeRange, hdest, Bool.false_eq_true, if_false, if_true]
    rw [upto, Nat.add_sub_cancel_left, List.range'_eq_map_range, List.map_map]
    rfl
  unfold vectorEraseMultiOut
  dsimp only
  rw [if_neg (not_not.2 (eraseMulti_code hs hn)), if_neg (by rw [hdest]; decide), hcopied]

theorem eraseMultiOut_destroyed (hs : sInd < v.elemCount) (hn : 0 < maxN) (hmaxN : maxN * ptrBytes < 2 ^ 64)
    (hdest : v.fnDest = true) :
    vectorEraseMultiOut v sInd maxN elemArray mem =
      ⟨(vectorEraseMulti v sInd maxN).vec, blit mem (slotAt mem elemArray 0) (fun _ => 0) (maxN * ptrBytes),
        [⟨slotAt mem elemArray 0, maxN * ptrBytes⟩]⟩ := by
  have hpos : min maxN (v.elemCount - sInd) > 0 := by omega
  have hzeroed : (vectorEraseMulti v sInd maxN).zeroed = maxN * ptrBytes := by
    simp only [vectorEraseMulti, if_pos hpos, tryFreeRange, hdest, if_true]
    rw [if_pos (by decide), u64_of_lt hmaxN]
  unfold vectorEraseMultiOut
  dsimp only
  rw [if_neg (not_not.2 (eraseMulti_code hs hn)), if_pos hdest, hzeroed]

/-- without a destructor, the erased elements are handed to the caller -/
theorem erasesRight_kept (hs : sInd < v.elemCount) (hn : 0 < maxN) (hptr : ∀ k < v.elemCount, v.dataPtr.mem k < 2 ^ 64)
    (hdest : v.fnDest = false) :
    ErasesRight v sInd maxN elemArray mem (vectorEraseMultiOut v sInd maxN elemArray mem) := by
  have hlen : (erased v sInd maxN).length = windowCount v sInd maxN := by
    simp [erased]
  have hwin : windowCount v sInd maxN ≤ maxN ∧ sInd + windowCount v sInd maxN ≤ v.elemCount := by
    unfold windowCount
    omega
  have hxs : ∀ x ∈ erased v sInd maxN, x < 2 ^ 64 := by
    intro x hx
    obtain ⟨j, hj, rfl⟩ := List.mem_map.1 hx
    rw [List.mem_range] at hj
    exact hptr _ (by omega)
  rw [eraseMultiOut_kept hs hn hdest]
  refine ⟨eraseMulti_elems hs hn, ?_, ?_, ?_⟩
  · intro _ k hk
    rw [slotAt_copied hxs elemArray (by omega)]
    simp [erased]
  · intro htrue
    rw [hdest] at htrue
    cases htrue
  · intro a ha
    rw [List.mem_singleton.1 ha, hlen]
    exact ⟨le_rfl, Nat.add_le_add_left (Nat.mul_le_mul_right _ hwin.1) _⟩

/-- with a destructor, the array is cleared only if it is what its first slot points to -/
theorem erasesRight_destroyed_iff (hs : sInd < v.elemCount) (hn : 0 < maxN) (hmaxN : maxN * ptrBytes < 2 ^ 64)
    (hdest : v.fnDest = true) :
    ErasesRight v sInd maxN elemArray mem (vectorEraseMultiOut v sInd maxN elemArray mem) ↔
      slotAt mem elemArray 0 = elemArray := by
  rw [eraseMultiOut_destroyed hs hn hmaxN hdest]
  constructor
  · rintro ⟨-, -, -, hinside⟩
    obtain ⟨hlow, hhigh⟩ := hinside _ (List.mem_singleton_self _)
    dsimp only at hlow hhigh
    omega
  · intro hself
    refine ⟨eraseMulti_elems hs hn, ?_, ?_, ?_⟩
    · intro hfalse
      rw [hdest] at hfalse
      cases hfalse
    · intro _ k hk
      have hfits : k * ptrBytes + ptrBytes ≤ maxN * ptrBytes := by
        rw [← Nat.succ_mul]
        exact Nat.mul_le_mul_right _ hk
      rw [hself]
      exact (field_blit hfits).trans (field_zero _ _)
    · intro a ha
      rw [List.mem_singleton.1 ha, hself]
      exact ⟨le_rfl, le_rfl⟩

/-- The range is erased and reported right exactly if there is no destructor, or if the array holds its own address in its
first slot. -/
theorem eraseMulti_iff (hs : sInd < v.elemCount) (hn : 0 < maxN) (hmaxN : maxN * ptrBytes < 2 ^ 64)
    (hptr : ∀ k < v.elemCount, v.dataPtr.mem k < 2 ^ 64) :
    ErasesRight v sInd maxN elemArray mem (vectorEraseMultiOut v sInd maxN elemArray mem) ↔
      v.fnDest = false ∨ slotAt mem elemArray 0 = elemArray := by
  cases hdest : v.fnDest with
  | false => exact iff_of_true (erasesRight_kept hs hn hptr hdest) (Or.inl rfl)
  | true => rw [erasesRight_destroyed_iff hs hn hmaxN hdest, or_iff_right (by decide)]

/-- the first of two elements is erased and handed to the caller -/
theorem eraseMulti_kept :
    ErasesRight twoElems 0 1 4096 (fun _ => 0) (vectorEraseMultiOut twoElems 0 1 4096 fun _ => 0) := by
  refine (eraseMulti_iff (by decide) (by decide) (by decide) ?_).2 (Or.inl rfl)
  intro k hk
  have hk2 : k < 2 := hk
  show 7 + k < 2 ^ 64
  omega

/-- two elements with a destructor: the first one is erased, and the bytes from address zero on are cleared, which the
slot of the array holds -/
theorem eraseMulti_broken : ¬ ∀ (v : Vector ℕ) (sInd maxN elemArray : ℕ) (mem : ℕ → UInt8), sInd < v.elemCount → 0 < maxN →
    maxN * ptrBytes < 2 ^ 64 → (∀ k < v.elemCount, v.dataPtr.mem k < 2 ^ 64) →
    ErasesRight v sInd maxN elemArray mem (vectorEraseMultiOut v sInd maxN elemArray mem) := by
  intro hall
  have hright := hall { twoElems with fnDest := true } 0 1 4096 (fun _ => 0) (by decide) (by decide) (by decide) ?_
  · have hself := (erasesRight_destroyed_iff (by decide) (by decide) (by decide) rfl).1 hright
    have hzero : slotAt (fun _ => 0) 4096 0 = 0 := field_zero _ _
    rw [hzero] at hself
    cases hself
  · intro k hk
    have hk2 : k < 2 := hk
    show 7 + k < 2 ^ 64
    omega

end EraseMulti

/-! ## Erasing the matches of a predicate -/

section EraseIf

variable {E : Type} {v : Vector E} {self : E} {sInd maxN stop : ℕ} {fnPred : E → ℕ → Bool}

/-- the states in which the rounds of `NkVectorEraseIf` are made -/
def eraseIfRounds (fnPred : ℕ → Vector E → ℕ → Bool) (stop : ℕ) : ℕ → ℕ → EraseIfState E → List (EraseIfState E)
  | 0, _, _ => []
  | rounds + 1, n, s =>
    if s.i < stop then s :: eraseIfRounds fnPred stop rounds (n + 1) (eraseIfRound s (fnPred n s.vec s.i)) else []

/-- the index where the loop of `NkVectorEraseIf` ends -/
def eraseIfStop (v : Vector E) (sInd maxN : ℕ) : ℕ := u64 (sInd + min maxN (sub64 v.elemCount sInd))

/-- the predicate as the code calls it, with the vector `self` in place of the element -/
def calledPred (self : E) (fnPred : E → ℕ → Bool) : ℕ → Vector E → ℕ → Bool := fun _ _ i => fnPred self i

/-- whether an element of the vector is to be erased -/
def ToErase (v : Vector E) (sInd maxN : ℕ) (fnPred : E → ℕ → Bool) (i : ℕ) : Prop :=
  i ∈ window v sInd maxN ∧ fnPred (v.dataPtr.mem i) i = true

instance (v : Vector E) (sInd maxN : ℕ) (fnPred : E → ℕ → Bool) (i : ℕ) : Decidable (ToErase v sInd maxN fnPred i) :=
  inferInstanceAs (Decidable (_ ∧ _))

/-- the elements that are not to be erased -/
def survivors (v : Vector E) (sInd maxN : ℕ) (fnPred : E → ℕ → Bool) : List E :=
  ((List.range v.elemCount).filter fun i => ¬ ToErase v sInd maxN fnPred i).map v.dataPtr.mem

/-- the call returns; the predicate was called once for each element of the window, with the element and its position; the
matches are gone and the others are in their old order; every element was read below the count -/
def ErasesMatches (v : Vector E) (self : E) (sInd maxN : ℕ) (fnPred : E → ℕ → Bool) : Prop :=
  ∃ rounds s, vectorEraseIf v sInd maxN (calledPred self fnPred) rounds = some (.ok, s) ∧
    let trace := eraseIfRounds (calledPred self fnPred) (eraseIfStop v sInd maxN) rounds 0 (eraseIfAt v sInd)
    (trace.map fun t => (self, t.i)).Perm ((window v sInd maxN).map fun i => (v.dataPtr.mem i, i)) ∧
    s.vec.elems = survivors v sInd maxN fnPred ∧ s.vec.elemCount = (survivors v sInd maxN fnPred).length ∧
    ∀ t ∈ trace, t.i < t.vec.elemCount

/-- the states of rounds without a match -/
theorem eraseIfRounds_skip (hcount : v.elemCount < 2 ^ 64) (k : ℕ) (hstop : sInd + k ≤ stop)
    (hnone : ∀ j < k, fnPred self (sInd + j) = false) (rounds n : ℕ) :
    eraseIfRounds (calledPred self fnPred) stop (rounds + k) n (eraseIfAt v sInd) =
      ((List.range k).map fun j => eraseIfAt v (sInd + j)) ++
        eraseIfRounds (calledPred self fnPred) stop rounds (n + k) (eraseIfAt v (sInd + k)) := by
  induction k generalizing rounds with
  | zero => rfl
  | succ k ih =>
    have hrounds : rounds + (k + 1) = rounds + 1 + k := by omega
    have hlt : (eraseIfAt v (sInd + k)).i < stop := hstop
    have hpred : calledPred self fnPred (n + k) (eraseIfAt v (sInd + k)).vec (eraseIfAt v (sInd + k)).i = false :=
      hnone k (Nat.lt_succ_self k)
    rw [hrounds, ih (by omega) (fun j hj => hnone j (by omega)), eraseIfRounds, if_pos hlt, hpred, eraseIfRound_skip hcount,
      List.range_succ, List.map_append, List.append_assoc]
    rfl

/-- a match keeps the loop where it is -/
theorem eraseIfLoop_stuck (s : EraseIfState E) (hi : s.i < stop) (hmatch : fnPred self s.i = true) (rounds n : ℕ) :
    eraseIfLoop (calledPred self fnPred) stop rounds n s = none := by
  induction rounds generalizing s n with
  | zero => rfl
  | succ rounds ih =>
    have hpred : calledPred self fnPred n s.vec s.i = true := hmatch
    have hsame : (eraseIfRound s true).i = s.i := rfl
    rw [eraseIfLoop, if_pos hi, hpred]
    exact ih (eraseIfRound s true) (by rw [hsame]; exact hi) (by rw [hsame]; exact hmatch) (n + 1)

/-- rounds in which nothing matches do not end a loop that is not through -/
theorem eraseIfLoop_early (hcount : v.elemCount < 2 ^ 64) {rounds : ℕ} (hle : sInd + rounds ≤ stop)
    (hnone : ∀ j < rounds, fnPred self (sInd + j) = false) :
    eraseIfLoop (calledPred self fnPred) stop rounds 0 (eraseIfAt v sInd) = none := by
  have hskip : eraseIfLoop (calledPred self fnPred) stop (0 + rounds) 0 (eraseIfAt v sInd) = none :=
    eraseIfLoop_skip hcount rounds hle hnone 0
  rwa [Nat.zero_add] at hskip

/-- a loop that meets a match does not return -/
theorem eraseIfLoop_match (hcount : v.elemCount < 2 ^ 64) {k : ℕ} (hk : sInd + k < stop)
    (hmatch : fnPred self (sInd + k) = true) (rounds : ℕ) :
    eraseIfLoop (calledPred self fnPred) stop rounds 0 (eraseIfAt v sInd) = none := by
  -- the first match decides
  have hex : ∃ k, sInd + k < stop ∧ fnPred self (sInd + k) = true := ⟨k, hk, hmatch⟩
  have hfirst := Nat.find_spec hex
  have hbefore : ∀ j < Nat.find hex, fnPred self (sInd + j) = false := by
    intro j hj
    by_contra hp
    exact Nat.find_min hex hj ⟨by omega, by simpa using hp⟩
  set m := Nat.find hex
  by_cases hle : rounds ≤ m
  · exact eraseIfLoop_early hcount (by omega) fun j hj => hbefore j (by omega)
  · obtain ⟨more, rfl⟩ : ∃ more, rounds = more + m := ⟨rounds - m, by omega⟩
    have hskip : eraseIfLoop (calledPred self fnPred) stop (more + m) 0 (eraseIfAt v sInd) =
        eraseIfLoop (calledPred self fnPred) stop more (0 + m) (eraseIfAt v (sInd + m)) :=
      eraseIfLoop_skip hcount m hfirst.1.le hbefore more
    rw [hskip]
    exact eraseIfLoop_stuck (eraseIfAt v (sInd + m)) hfirst.1 hfirst.2 _ _

/-- a loop without a match goes once through its range -/
theorem eraseIfRounds_through (hcount : v.elemCount < 2 ^ 64) {k : ℕ} (hstop : stop = sInd + k)
    (hnone : ∀ j < k, fnPred self (sInd + j) = false) {rounds : ℕ} {s : EraseIfState E}
    (h : eraseIfLoop (calledPred self fnPred) stop rounds 0 (eraseIfAt v sInd) = some s) :
    eraseIfRounds (calledPred self fnPred) stop rounds 0 (eraseIfAt v sInd) =
      (List.range k).map fun j => eraseIfAt v (sInd + j) := by
  by_cases hle : rounds ≤ k
  · rw [eraseIfLoop_early hcount (by omega) fun j hj => hnone j (by omega)] at h
    cases h
  · obtain ⟨more, rfl⟩ : ∃ more, rounds = more + 1 + k := ⟨rounds - k - 1, by omega⟩
    have hend : ¬ (eraseIfAt v (sInd + k)).i < stop := not_lt.2 hstop.le
    rw [eraseIfRounds_skip hcount k hstop.ge hnone (more + 1) 0, eraseIfRounds, if_neg hend, List.append_nil]

/-- the end of the loop: that of the window, or before its start, or outside of the vector -/
theorem eraseIfStop_cases (maxN : ℕ) (hcount : v.elemCount < 2 ^ 64) (hs : sInd < 2 ^ 64) :
    (sInd ≤ v.elemCount ∧ eraseIfStop v sInd maxN = sInd + windowCount v sInd maxN) ∨
      (v.elemCount < sInd ∧ ((maxN = 0 ∨ 2 ^ 64 ≤ sInd + maxN) ∧ eraseIfStop v sInd maxN ≤ sInd ∨
        (¬ (maxN = 0 ∨ 2 ^ 64 ≤ sInd + maxN) ∧ sInd < eraseIfStop v sInd maxN))) := by
  unfold eraseIfStop windowCount
  by_cases hle : sInd ≤ v.elemCount
  · rw [sub64_of_le hle hcount, u64_of_lt (by omega)]
    exact Or.inl ⟨hle, rfl⟩
  · have hsub : sub64 v.elemCount sInd = 2 ^ 64 + v.elemCount - sInd := by
      rw [sub64, u64_of_lt hs, u64_of_lt (by omega)]
    refine Or.inr ⟨not_le.1 hle, ?_⟩
    rw [hsub, u64]
    omega

theorem survivors_all (h : ∀ i ∈ window v sInd maxN, fnPred (v.dataPtr.mem i) i = false) :
    survivors v sInd maxN fnPred = v.elems := by
  have hall : ∀ i, ¬ ToErase v sInd maxN fnPred i := by
    rintro i ⟨hi, hp⟩
    rw [h i hi] at hp
    cases hp
  simp [survivors, Vector.elems, hall]

/-- inside of the vector: the predicate was called on the elements exactly if they are the vector, and no match ends it -/
theorem erasesMatches_inside (hcount : v.elemCount < 2 ^ 64)
    (hstop : eraseIfStop v sInd maxN = sInd + windowCount v sInd maxN) :
    ErasesMatches v self sInd maxN fnPred ↔
      ∀ i ∈ window v sInd maxN, v.dataPtr.mem i = self ∧ fnPred self i = false := by
  have hwin : window v sInd maxN = (List.range (windowCount v sInd maxN)).map fun j => sInd + j := by
    rw [window, upto, Nat.add_sub_cancel_left, List.range'_eq_map_range]
  constructor
  · rintro ⟨rounds, s, hcall, hperm, -⟩
    obtain ⟨t, hloop, -⟩ := Option.map_eq_some_iff.1 hcall
    have hnone : ∀ j < windowCount v sInd maxN, fnPred self (sInd + j) = false := by
      intro j hj
      by_contra hp
      have hbelow : sInd + j < eraseIfStop v sInd maxN := by omega
      have hstuck := eraseIfLoop_match (v := v) hcount hbelow (by simpa using hp) rounds
      exact absurd (hstuck.symm.trans hloop) (by simp)
    intro i hi
    have hcalled : (v.dataPtr.mem i, i) ∈ (eraseIfRounds (calledPred self fnPred) (eraseIfStop v sInd maxN) rounds 0
        (eraseIfAt v sInd)).map fun t => (self, t.i) := hperm.mem_iff.2 (List.mem_map_of_mem hi)
    obtain ⟨u, -, hu⟩ := List.mem_map.1 hcalled
    rw [hwin] at hi
    obtain ⟨j, hj, rfl⟩ := List.mem_map.1 hi
    exact ⟨(congrArg Prod.fst hu).symm, hnone j (List.mem_range.1 hj)⟩
  · intro h
    have hnone : ∀ j < windowCount v sInd maxN, fnPred self (sInd + j) = false := by
      intro j hj
      refine (h (sInd + j) ?_).2
      rw [hwin]
      exact List.mem_map_of_mem (List.mem_range.2 hj)
    have hloop : eraseIfLoop (calledPred self fnPred) (eraseIfStop v sInd maxN) (windowCount v sInd maxN + 1) 0
        (eraseIfAt v sInd) = some (eraseIfAt v (eraseIfStop v sInd maxN)) := by
      rw [hstop]
      exact eraseIfLoop_none hcount sInd 0 hnone (Nat.lt_succ_self _)
    have htrace := eraseIfRounds_through hcount hstop hnone hloop
    have hall : survivors v sInd maxN fnPred = v.elems := by
      refine survivors_all fun i hi => ?_
      rw [(h i hi).1]
      exact (h i hi).2
    refine ⟨windowCount v sInd maxN + 1, eraseIfAt v (eraseIfStop v sInd maxN), ?_, ?_, hall.symm, ?_, ?_⟩
    · exact Option.map_eq_some_iff.2 ⟨_, hloop, rfl⟩
    · rw [htrace, hwin, List.map_map, List.map_map]
      refine List.Perm.of_eq (List.map_congr_left fun j hj => ?_)
      have hself := (h (sInd + j) (by rw [hwin]; exact List.mem_map_of_mem hj)).1
      simp only [Function.comp_apply, hself]
      rfl
    · rw [hall, length_elems]
      rfl
    · rw [htrace]
      intro t ht
      obtain ⟨j, hj, rfl⟩ := List.mem_map.1 ht
      rw [List.mem_range] at hj
      unfold windowCount at hj
      show sInd + j < v.elemCount
      omega

/-- A call erases exactly the matches of its window exactly if the window is inside of the vector, or nothing is looked at,
and all elements of the window are the vector itself and no match. -/
theorem eraseIf_iff (hcount : v.elemCount < 2 ^ 64) (hs : sInd < 2 ^ 64) :
    ErasesMatches v self sInd maxN fnPred ↔
      (∀ i ∈ window v sInd maxN, v.dataPtr.mem i = self ∧ fnPred self i = false) ∧
        (sInd ≤ v.elemCount ∨ maxN = 0 ∨ 2 ^ 64 ≤ sInd + maxN) := by
  rcases eraseIfStop_cases maxN hcount hs with ⟨hle, hstop⟩ | ⟨hlt, ⟨hskip, hstop⟩ | ⟨hrun, hstop⟩⟩
  · rw [erasesMatches_inside hcount hstop, and_iff_left (Or.inl hle)]
  · -- the loop is not entered
    have hwin : window v sInd maxN = [] := by
      unfold window windowCount
      exact upto_nil (by omega)
    have hend : ¬ (eraseIfAt v sInd).i < eraseIfStop v sInd maxN := not_lt.2 hstop
    have htrace : eraseIfRounds (calledPred self fnPred) (eraseIfStop v sInd maxN) 1 0 (eraseIfAt v sInd) = [] := by
      rw [eraseIfRounds, if_neg hend]
    have hloop : eraseIfLoop (calledPred self fnPred) (eraseIfStop v sInd maxN) 1 0 (eraseIfAt v sInd) =
        some (eraseIfAt v sInd) := by
      rw [eraseIfLoop, if_neg hend]
    have hall : survivors v sInd maxN fnPred = v.elems := by
      refine survivors_all fun i hi => ?_
      rw [hwin] at hi
      cases hi
    refine iff_of_true ⟨1, eraseIfAt v sInd, Option.map_eq_some_iff.2 ⟨_, hloop, rfl⟩, ?_, hall.symm, ?_, ?_⟩
      ⟨?_, Or.inr hskip⟩
    · rw [htrace, hwin]
      exact .nil
    · rw [hall, length_elems]
      rfl
    · rw [htrace]
      exact fun t ht => absurd ht List.not_mem_nil
    · rw [hwin]
      exact fun i hi => absurd hi List.not_mem_nil
  · -- the first element that is read lies behind the last one
    refine iff_of_false ?_ (fun h => h.2.elim (not_le.2 hlt) hrun)
    rintro ⟨rounds, s, hcall, -, -, -, hreads⟩
    cases rounds with
    | zero => cases hcall
    | succ rounds =>
      have hin : (eraseIfAt v sInd).i < eraseIfStop v sInd maxN := hstop
      have hfirst := hreads (eraseIfAt v sInd) (by rw [eraseIfRounds, if_pos hin]; exact List.mem_cons_self)
      have hbelow : sInd < v.elemCount := hfirst
      omega

/-- a vector that holds itself, which is no match -/
theorem eraseIf_self : ErasesMatches (E := ℕ) ⟨1, 1, ⟨40, 1, 1, 8, 2⟩, false, ⟨64, 8, fun _ => 48⟩⟩ 48 0 1
    fun x _ => x = 7 := by
  refine (eraseIf_iff (by decide) (by decide)).2 ⟨?_, Or.inl (by decide)⟩
  intro i _
  exact ⟨rfl, rfl⟩

/-- the predicate is true: the call stays at the first element for ever -/
theorem eraseIf_broken : ¬ ∀ (v : Vector ℕ) (self sInd maxN : ℕ) (fnPred : ℕ → ℕ → Bool), v.elemCount < 2 ^ 64 →
    sInd ≤ v.elemCount → ErasesMatches v self sInd maxN fnPred := by
  intro hall
  obtain ⟨rounds, s, hcall, -⟩ := hall twoElems 48 0 2 (fun x _ => x = 7 ∨ x = 48) (by decide) (by decide)
  obtain ⟨t, hloop, -⟩ := Option.map_eq_some_iff.1 hcall
  have hstuck : eraseIfLoop (calledPred 48 fun x _ => x = 7 ∨ x = 48) (eraseIfStop twoElems 0 2) rounds 0
      (eraseIfAt twoElems 0) = none := eraseIfLoop_stuck (eraseIfAt twoElems 0) (by decide) (by decide) rounds 0
  exact absurd (hstuck.symm.trans hloop) (by simp)

end EraseIf

end Noriko.Dstruct
