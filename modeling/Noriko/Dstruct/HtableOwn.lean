/-
Ownership of the pairs of a hash table with an element destructor.

A pair that an insertion really stores (`addedPairs`: its key was in the table neither before nor earlier in the array) is
in a slot until it is erased or extracted, however often it is displaced or moved to another array on the way. The
destructor is called once for every erased pair, once with the key alone for every extracted pair, and by
`NkHashtableDestroy` once for every pair that is left. `pairs_run` says so for every run of calls.

Nothing is assumed of the capacities here but their widths: whenever an insertion returns, the books are right.
-/
import Noriko.Dstruct.HtableMap
import Noriko.Lib.Run

namespace Noriko.Dstruct

open Lib

variable {K V : Type}

/-! ## The destructor -/

/-- the call for an erased pair -/
def eraseCall (p : HashtableProperties) (q : HashtablePair K V) : FreeCall K V :=
  ⟨if p.keyType = .int64 ∨ p.keyType = .uint64 then none else some q.keyVal, some q.valuePtr⟩

/-- the call for an extracted pair -/
def extractCall (q : HashtablePair K V) : FreeCall K V := ⟨some q.keyVal, none⟩

/-- the call for a pair that is destroyed with the table -/
def destroyCall (q : HashtablePair K V) : FreeCall K V := ⟨some q.keyVal, some q.valuePtr⟩

/-- the values that a list of destructor calls got -/
def passedValues (calls : List (FreeCall K V)) : List V := calls.filterMap FreeCall.valPtr

/-- the calls without a value -/
def keyOnly (calls : List (FreeCall K V)) : List (FreeCall K V) := calls.filter fun c => c.valPtr.isNone

section Passed

variable (l : List (HashtablePair K V))

theorem passedValues_erase (p : HashtableProperties) :
    passedValues (l.map (eraseCall p)) = l.map HashtablePair.valuePtr := by
  rw [passedValues, List.filterMap_map]
  exact congrFun (List.filterMap_eq_map (f := HashtablePair.valuePtr)) l

theorem passedValues_destroy : passedValues (l.map destroyCall) = l.map HashtablePair.valuePtr := by
  rw [passedValues, List.filterMap_map]
  exact congrFun (List.filterMap_eq_map (f := HashtablePair.valuePtr)) l

theorem passedValues_extract : passedValues (l.map extractCall) = [] := by
  rw [passedValues, List.filterMap_map, List.filterMap_eq_nil_iff]
  exact fun _ _ => rfl

theorem keyOnly_erase (p : HashtableProperties) : keyOnly (l.map (eraseCall p)) = [] := by
  rw [keyOnly, List.filter_map, List.map_eq_nil_iff, List.filter_eq_nil_iff]
  exact fun _ _ => by simp [eraseCall]

theorem keyOnly_destroy : keyOnly (l.map destroyCall) = [] := by
  rw [keyOnly, List.filter_map, List.map_eq_nil_iff, List.filter_eq_nil_iff]
  exact fun _ _ => by simp [destroyCall]

theorem keyOnly_extract : keyOnly (l.map extractCall) = l.map extractCall := by
  rw [keyOnly, List.filter_eq_self]
  rintro c hc
  obtain ⟨q, -, rfl⟩ := List.mem_map.1 hc
  rfl

end Passed

/-- a loop over the slots that handles the used ones and stops once it has counted all of them -/
theorem usedLoop_eq {B : Type} {elemCount : ℕ} {f : HashtablePair K V → B}
    {loop : List (HashtableExtPair K V) → ℕ → List B} (hnil : ∀ j, loop [] j = [])
    (hcons : ∀ s rest j, loop (s :: rest) j =
      if j < elemCount then if s.isUsed = false then loop rest j else f s.regPair :: loop rest (j + 1) else [])
    (elems : List (HashtableExtPair K V)) (j : ℕ) (h : j + (stored elems).length = elemCount) :
    loop elems j = (stored elems).map f := by
  induction elems generalizing j with
  | nil => exact hnil j
  | cons s rest ih =>
    rw [hcons]
    cases hused : s.isUsed with
    | false =>
      have hstored : stored (s :: rest) = stored rest := List.filterMap_cons_none (entry_of_free hused)
      rw [hstored] at h ⊢
      rw [if_pos rfl]
      split_ifs with hj
      · exact ih j h
      · have hnone : stored rest = [] := List.length_eq_zero_iff.1 (by omega)
        rw [hnone]
        rfl
    | true =>
      have hstored : stored (s :: rest) = s.regPair :: stored rest := List.filterMap_cons_some (entry_of_used hused)
      rw [hstored, List.length_cons] at h
      rw [if_pos (by omega), if_neg (by decide), ih (j + 1) (by omega), hstored]
      rfl

theorem freeElemsLoop_eq {elemCount : ℕ} (elems : List (HashtableExtPair K V)) (j : ℕ)
    (h : j + (stored elems).length = elemCount) :
    freeElemsLoop elemCount elems j = (stored elems).map destroyCall :=
  usedLoop_eq (fun _ => rfl) (fun _ _ _ => rfl) elems j h

/-- destroying a table calls the destructor once for every pair in it -/
theorem hashtableDestroy_eq {ht : Hashtable K V} (hcount : ht.elemCount = (stored ht.elemArray).length)
    (hfree : ht.htProps.fnElemFree = true) : hashtableDestroy ht = (stored ht.elemArray).map destroyCall := by
  rw [hashtableDestroy, freeElems, if_pos hfree]
  exact freeElemsLoop_eq _ 0 (by omega)

/-! ## Values -/

section Values

variable [DecidableEq V]

/-- how many pairs of a list have the value -/
def pointing (l : List (HashtablePair K V)) (v : V) : ℤ := (l.countP fun q => q.valuePtr = v : ℕ)

theorem pointing_perm {l l' : List (HashtablePair K V)} (h : l.Perm l') (v : V) : pointing l v = pointing l' v := by
  unfold pointing
  rw [h.countP_eq]

theorem pointing_cons (q : HashtablePair K V) (l : List (HashtablePair K V)) (v : V) :
    pointing (q :: l) v = pointing l v + if v = q.valuePtr then 1 else 0 := by
  unfold pointing
  rw [List.countP_cons]
  by_cases hv : v = q.valuePtr
  · simp [hv]
  · simp [hv, Ne.symm hv]

end Values

/-- a table in good order holds some map -/
theorem exists_simulates {p : HashtableProperties} {ht : Hashtable K V} (h : HtInv ht) (hp : ht.htProps = p) :
    ∃ m : Map K V, Simulates p ht m := by
  have hkeys : (((stored ht.elemArray).map toSigma : List _) : Multiset (Sigma fun _ : K => V)).NodupKeys := by
    rw [Multiset.coe_nodupKeys, List.NodupKeys, List.keys, List.map_map]
    exact h.keys
  exact ⟨⟨_, hkeys⟩, hp, h, rfl⟩

/-! ## Insertion -/

section Insert

variable [DecidableEq K]

/-- the pairs of an array whose keys are not known already -/
def addedPairs : List K → List (HashtablePair K V) → List (HashtablePair K V)
  | _, [] => []
  | known, q :: pairs =>
    if q.keyVal ∈ known then addedPairs known pairs else q :: addedPairs (q.keyVal :: known) pairs

theorem addedPairs_congr (pairs : List (HashtablePair K V)) {known known' : List K}
    (h : ∀ k, k ∈ known ↔ k ∈ known') : addedPairs known pairs = addedPairs known' pairs := by
  induction pairs generalizing known known' with
  | nil => rfl
  | cons q pairs ih =>
    have hcons : ∀ k, k ∈ q.keyVal :: known ↔ k ∈ q.keyVal :: known' := by
      intro k
      rw [List.mem_cons, List.mem_cons, h k]
    rw [addedPairs, addedPairs, ih h, ih hcons]
    simp only [h q.keyVal]

theorem addedPairs_nodup (pairs : List (HashtablePair K V)) {known : List K} (h : known.Nodup) :
    ((addedPairs known pairs).map HashtablePair.keyVal ++ known).Nodup := by
  induction pairs generalizing known with
  | nil => exact h
  | cons q pairs ih =>
    rw [addedPairs]
    split_ifs with hk
    · exact ih h
    · exact List.perm_middle.nodup_iff.1 (ih (List.nodup_cons.2 ⟨hk, h⟩))

/-- the keys in the used slots -/
def storedKeys (elems : List (HashtableExtPair K V)) : List K := (stored elems).map HashtablePair.keyVal

variable [Inhabited K] [Inhabited V] {H : HashFn K} {ht : Hashtable K V}

theorem contains_storedKeys (hlen : ht.elemArray.length = ht.currCap) (hpos : 0 < ht.currCap)
    (hlt : ht.currCap < 2 ^ 32) (k : K) : hashtableContains H ht k = decide (k ∈ storedKeys ht.elemArray) := by
  unfold hashtableContains storedKeys
  rcases locKey_spec H hlen hpos k with ⟨hi, hused, hkey⟩ | ⟨heq, hnone⟩
  · have hmem : k ∈ (stored ht.elemArray).map HashtablePair.keyVal :=
      List.mem_map.2 ⟨_, mem_stored.2 ⟨_, hlen.symm ▸ hi, hused, rfl⟩, hkey⟩
    have hne : locKey H ht.currCap ht.elemArray k ≠ uint32Max := by
      unfold uint32Max
      omega
    simp only [hmem, hne, ne_eq, not_false_eq_true]
  · have hmem : k ∉ (stored ht.elemArray).map HashtablePair.keyVal := by
      intro hk
      obtain ⟨q, hq, hqk⟩ := List.mem_map.1 hk
      exact hnone q hq hqk
    simp only [heq, hmem, ne_eq, not_true_eq_false]

theorem contains_iff (hlen : ht.elemArray.length = ht.currCap) (hpos : 0 < ht.currCap) (hlt : ht.currCap < 2 ^ 32) (k : K) :
    hashtableContains H ht k = true ↔ k ∈ storedKeys ht.elemArray := by
  rw [contains_storedKeys hlen hpos hlt, decide_eq_true_iff]

/-- whenever the insertion loop ends, it has added the pairs whose keys are new -/
theorem insertPairs_some (pairs : List (HashtablePair K V)) {added total : ℕ} {ht ht' : Hashtable K V}
    (hlen : ht.elemArray.length = ht.currCap) (hpos : 0 < ht.currCap) (hlt : ht.currCap < 2 ^ 32)
    (hadded : added ≤ (stored ht.elemArray).length) (h : insertPairs H pairs added ht = some (total, ht')) :
    ∃ elems, ht' = { ht with elemArray := elems } ∧ elems.length = ht.currCap ∧
      total = added + (addedPairs (storedKeys ht.elemArray) pairs).length ∧
      (stored elems).Perm (addedPairs (storedKeys ht.elemArray) pairs ++ stored ht.elemArray) := by
  induction pairs generalizing added ht with
  | nil =>
    cases h
    exact ⟨ht'.elemArray, rfl, hlen, rfl, .refl _⟩
  | cons q pairs ih =>
    rw [insertPairs, contains_storedKeys hlen hpos hlt] at h
    by_cases hk : q.keyVal ∈ storedKeys ht.elemArray
    · rw [if_pos (decide_eq_true hk)] at h
      rw [addedPairs, if_pos hk]
      exact ih hlen hpos hlt hadded h
    · rw [if_neg (by simpa using hk)] at h
      cases hins : robinHoodInsertSingle H ht.currCap ht.elemArray q with
      | none =>
        rw [hins] at h
        cases h
      | some x =>
        obtain ⟨b, elems₁⟩ := x
        obtain ⟨-, hlen₁, hperm₁⟩ := robinHoodInsertSingle_some hlen hpos hins
        rw [hins] at h
        dsimp only at h
        have hlength := hperm₁.length_eq
        have hle := length_stored_le elems₁
        rw [List.length_cons] at hlength
        rw [u32_of_lt (by omega)] at h
        -- the keys known from here on are those of the new array
        have hknown : addedPairs (q.keyVal :: storedKeys ht.elemArray) pairs = addedPairs (storedKeys elems₁) pairs := by
          refine addedPairs_congr pairs fun k => ?_
          exact (hperm₁.map HashtablePair.keyVal).mem_iff.symm
        set ht₁ : Hashtable K V := { ht with elemArray := elems₁ }
        have hlen' : ht₁.elemArray.length = ht₁.currCap := hlen₁
        have hadded' : added + 1 ≤ (stored ht₁.elemArray).length := by
          change added + 1 ≤ (stored elems₁).length
          omega
        obtain ⟨elems, rfl, hl, htotal, hperm⟩ := ih hlen' hpos hlt hadded' h
        refine ⟨elems, rfl, hl, ?_, ?_⟩
        · rw [addedPairs, if_neg hk, hknown, List.length_cons, htotal]
          change added + 1 + (addedPairs (storedKeys elems₁) pairs).length = _
          omega
        · rw [addedPairs, if_neg hk, hknown]
          exact hperm.trans ((hperm₁.append_left _).trans List.perm_middle)

/-- whenever the last part of an insertion returns, the pairs with new keys are in the table -/
theorem insertAndCount_some {pairs : List (HashtablePair K V)} {ht' : Hashtable K V} {c : NkErrorCode} (h : HtInv ht)
    (hr : insertAndCount H pairs ht = some (c, ht')) :
    c = .ok ∧ HtInv ht' ∧ ht'.htProps = ht.htProps ∧
      (stored ht'.elemArray).Perm (addedPairs (storedKeys ht.elemArray) pairs ++ stored ht.elemArray) := by
  obtain ⟨⟨total, ht₁⟩, hrun, heq⟩ := Option.map_eq_some_iff.1 hr
  obtain ⟨elems, rfl, hlen, htotal, hperm⟩ :=
    insertPairs_some pairs h.length h.cap_pos h.cap_lt (Nat.zero_le _) hrun
  cases heq
  have hlt := h.cap_lt
  have hcount := h.count
  have hle := length_stored_le elems
  have hlength := hperm.length_eq
  rw [List.length_append] at hlength
  have hnew : u32 (ht.elemCount + total) = (stored elems).length := by
    rw [u32_of_lt (by omega)]
    omega
  have hkeys : ((stored elems).map HashtablePair.keyVal).Nodup := by
    have hmap := hperm.map HashtablePair.keyVal
    rw [List.map_append] at hmap
    exact hmap.nodup_iff.2 (addedPairs_nodup pairs h.keys)
  exact ⟨rfl, ⟨hlen, hkeys, hnew, hnew.trans_le (hle.trans_eq hlen), h.cap_pos, hlt⟩, rfl, hperm⟩

/-- whenever an insertion returns, it failed and changed nothing, or the pairs with new keys are in the table -/
theorem insertMulti_some {p : HashtableProperties} (hmin : p.minCap < 2 ^ 32) (hmax : p.maxCap < 2 ^ 32) (h : HtInv ht)
    (hp : ht.htProps = p) {pairs : List (HashtablePair K V)} {heap : Bool} {ht' : Hashtable K V} {c : NkErrorCode}
    (hr : hashtableInsertMulti H ht pairs heap = some (c, ht')) :
    (c ≠ .ok ∧ ht' = ht) ∨ (c = .ok ∧ HtInv ht' ∧ ht'.htProps = p ∧
      (stored ht'.elemArray).Perm (addedPairs (storedKeys ht.elemArray) pairs ++ stored ht.elemArray)) := by
  have hbound := h.bound
  have hlt := h.cap_lt
  have hpos := h.cap_pos
  unfold hashtableInsertMulti at hr
  rw [hp] at hr
  by_cases hwrap : 2 ^ 32 ≤ ht.elemCount + pairs.length
  · rw [if_pos (Or.inl (checkedUint32Add_wraps (by omega) hwrap))] at hr
    cases hr
    exact Or.inl ⟨by decide, rfl⟩
  · rw [checkedUint32Add_of_lt (by omega)] at hr
    dsimp only at hr
    simp only [Bool.true_eq_false, false_or] at hr
    split_ifs at hr with hlimit hload
    · cases hr
      exact Or.inl ⟨by decide, rfl⟩
    · have hsome := pos_of_loadExceeded hload
      rw [not_lt] at hlimit
      cases hadj : (newCapacity p (ht.elemCount + pairs.length)).bind fun newCap => adjustCapacity H ht newCap heap with
      | none =>
        rw [hadj] at hr
        cases hr
      | some x =>
        obtain ⟨code, ht₁⟩ := x
        rw [hadj] at hr
        dsimp only at hr
        obtain ⟨newCap, hnew, hadj⟩ := Option.bind_eq_some_iff.1 hadj
        obtain ⟨hroom, hcap32⟩ := newCapacity_some hnew
        have hcap : 0 < newCap := lt_of_lt_of_le hsome (hroom hlimit)
        rcases adjustCapacity_some h.count hcap hadj with ⟨hcode, rfl⟩ | ⟨rfl, new, rfl, hlen, hperm⟩
        · rw [if_pos hcode] at hr
          cases hr
          exact Or.inl ⟨hcode, rfl⟩
        · rw [if_neg (by decide)] at hr
          have hkeys : storedKeys new = (stored new).map HashtablePair.keyVal := rfl
          have hmap := hperm.map HashtablePair.keyVal
          have hlength := hperm.length_eq
          have hle := length_stored_le new
          have hcount := h.count
          have h₁ : HtInv ({ ht with currCap := newCap, elemArray := new }) :=
            ⟨hlen, hmap.nodup_iff.2 h.keys, hcount.trans hlength.symm, by dsimp only; omega, hcap, hcap32 hmin hmax⟩
          obtain ⟨rfl, hinv, hprops, hp'⟩ := insertAndCount_some h₁ hr
          have hsame : addedPairs (storedKeys new) pairs = addedPairs (storedKeys ht.elemArray) pairs :=
            addedPairs_congr pairs fun k => hmap.mem_iff
          refine Or.inr ⟨rfl, hinv, hprops.trans hp, hp'.trans ?_⟩
          dsimp only
          rw [hsame]
          exact hperm.append_left _
    · obtain ⟨rfl, hinv, hprops, hperm⟩ := insertAndCount_some h hr
      exact Or.inr ⟨rfl, hinv, hprops.trans hp, hperm⟩

end Insert

/-! ## Taking pairs out -/

section Remove

variable [DecidableEq K] [Inhabited K] [Inhabited V] {H : HashFn K} {ht : Hashtable K V}

/-- the stored pair with a key -/
def pairOf (ht : Hashtable K V) (k : K) : Option (HashtablePair K V) :=
  (stored ht.elemArray).find? fun q => q.keyVal = k

omit [Inhabited K] [Inhabited V] in
theorem pairOf_eq (h : HtInv ht) {q : HashtablePair K V} (hq : q ∈ stored ht.elemArray) :
    pairOf ht q.keyVal = some q := by
  cases hfind : pairOf ht q.keyVal with
  | none =>
    have hnone := List.find?_eq_none.1 hfind q hq
    simp at hnone
  | some r =>
    have hkey : r.keyVal = q.keyVal := by simpa using List.find?_some hfind
    rw [List.inj_on_of_nodup_map h.keys (List.mem_of_find?_eq_some hfind) hq hkey]

/-- a key is found in the slot of its pair, or no pair has it -/
theorem locKey_pairOf (h : HtInv ht) (k : K) :
    (∃ i < ht.currCap, locKey H ht.currCap ht.elemArray k = i ∧ i ≠ uint32Max ∧
      (slot ht.elemArray i).isUsed = true ∧ pairOf ht k = some (slot ht.elemArray i).regPair) ∨
    (locKey H ht.currCap ht.elemArray k = uint32Max ∧ pairOf ht k = none) := by
  rcases locKey_spec H h.length h.cap_pos k with ⟨hi, hused, hkey⟩ | ⟨heq, hnone⟩
  · left
    have hlt := h.cap_lt
    have hpair := pairOf_eq h (mem_stored.2 ⟨_, h.length.symm ▸ hi, hused, rfl⟩)
    rw [hkey] at hpair
    refine ⟨_, hi, rfl, ?_, hused, hpair⟩
    unfold uint32Max
    omega
  · right
    refine ⟨heq, List.find?_eq_none.2 fun q hq => ?_⟩
    simpa using hnone q hq

/-- the search answers with the value of the key's pair -/
theorem hashtableAt_pairOf (h : HtInv ht) (k : K) : hashtableAt H ht k =
    if (pairOf ht k).isSome then (.ok, (pairOf ht k).map HashtablePair.valuePtr) else (.itemNotFound, none) := by
  unfold hashtableAt
  rcases locKey_pairOf (H := H) h k with ⟨i, -, heq, hne, -, hpair⟩ | ⟨heq, hpair⟩
  · rw [heq, if_neg hne, hpair]
    rfl
  · rw [heq, if_pos rfl, hpair]
    rfl

/-- erasing takes the pair of the key out and calls the destructor for it -/
theorem hashtableErase_own (h : HtInv ht) (hfree : ht.htProps.fnElemFree = true) (k : K) :
    HtInv (hashtableErase H ht k).2.2 ∧ (hashtableErase H ht k).2.2.htProps = ht.htProps ∧
      (hashtableErase H ht k).2.1 = (pairOf ht k).toList.map (eraseCall ht.htProps) ∧
      ((pairOf ht k).toList ++ stored (hashtableErase H ht k).2.2.elemArray).Perm (stored ht.elemArray) := by
  unfold hashtableErase
  rcases locKey_pairOf (H := H) h k with ⟨i, hi, heq, hne, hused, hpair⟩ | ⟨heq, hpair⟩
  · obtain ⟨hinv, hperm⟩ := releaseSlot_inv h hi hused
    rw [heq, if_neg hne, hpair]
    dsimp only
    rw [if_pos hfree]
    exact ⟨hinv, rfl, rfl, hperm⟩
  · rw [heq, if_pos rfl, hpair]
    exact ⟨h, rfl, rfl, .refl _⟩

/-- extracting does the same, but the destructor gets the key alone -/
theorem hashtableExtract_own (h : HtInv ht) (hfree : ht.htProps.fnElemFree = true) (k : K) :
    HtInv (hashtableExtract H ht k).2.2.2 ∧ (hashtableExtract H ht k).2.2.2.htProps = ht.htProps ∧
      (hashtableExtract H ht k).2.2.1 = (pairOf ht k).toList.map extractCall ∧
      ((pairOf ht k).toList ++ stored (hashtableExtract H ht k).2.2.2.elemArray).Perm (stored ht.elemArray) := by
  unfold hashtableExtract
  rcases locKey_pairOf (H := H) h k with ⟨i, hi, heq, hne, hused, hpair⟩ | ⟨heq, hpair⟩
  · obtain ⟨hinv, hperm⟩ := releaseSlot_inv h hi hused
    rw [heq, if_neg hne, hpair]
    dsimp only
    rw [if_pos hfree]
    exact ⟨hinv, rfl, rfl, hperm⟩
  · rw [heq, if_pos rfl, hpair]
    exact ⟨h, rfl, rfl, .refl _⟩

/-- erasing takes out one pair and passes it to the destructor, or no pair has the key -/
theorem hashtableErase_cases (h : HtInv ht) (hfree : ht.htProps.fnElemFree = true) (k : K) :
    (∃ q ∈ stored ht.elemArray, q.keyVal = k ∧
      (stored ht.elemArray).Perm (q :: stored (hashtableErase H ht k).2.2.elemArray) ∧
      (hashtableErase H ht k).2.1 = [eraseCall ht.htProps q]) ∨
    ((∀ q ∈ stored ht.elemArray, q.keyVal ≠ k) ∧
      (stored (hashtableErase H ht k).2.2.elemArray).Perm (stored ht.elemArray) ∧ (hashtableErase H ht k).2.1 = []) := by
  obtain ⟨-, -, hcalls, hperm⟩ := hashtableErase_own (H := H) h hfree k
  cases hpair : pairOf ht k with
  | none =>
    rw [hpair] at hcalls hperm
    have hnone := List.find?_eq_none.1 hpair
    refine Or.inr ⟨fun q hq => ?_, hperm, hcalls⟩
    simpa using hnone q hq
  | some q =>
    rw [hpair] at hcalls hperm
    have hkey : q.keyVal = k := by simpa using List.find?_some hpair
    exact Or.inl ⟨q, List.mem_of_find?_eq_some hpair, hkey, hperm.symm, hcalls⟩

/-- whenever an insertion of one pair returns, it failed and changed nothing, found the key, or added the pair -/
theorem hashtableInsert_cases {p : HashtableProperties} (hmin : p.minCap < 2 ^ 32) (hmax : p.maxCap < 2 ^ 32)
    (h : HtInv ht) (hp : ht.htProps = p) {q : HashtablePair K V} {heap : Bool} {ht' : Hashtable K V} {c : NkErrorCode}
    (hr : hashtableInsert H ht q heap = some (c, ht')) :
    (c ≠ .ok ∧ ht' = ht) ∨ (c = .ok ∧ HtInv ht' ∧ ht'.htProps = p ∧
      (((∃ r ∈ stored ht.elemArray, r.keyVal = q.keyVal) ∧ (stored ht'.elemArray).Perm (stored ht.elemArray)) ∨
        ((∀ r ∈ stored ht.elemArray, r.keyVal ≠ q.keyVal) ∧
          (stored ht'.elemArray).Perm (q :: stored ht.elemArray)))) := by
  rcases insertMulti_some hmin hmax h hp hr with ⟨hc, rfl⟩ | ⟨hc, hinv, hprops, hperm⟩
  · exact Or.inl ⟨hc, rfl⟩
  · refine Or.inr ⟨hc, hinv, hprops, ?_⟩
    rw [addedPairs] at hperm
    by_cases hk : q.keyVal ∈ storedKeys ht.elemArray
    · rw [if_pos hk] at hperm
      exact Or.inl ⟨List.mem_map.1 hk, hperm⟩
    · rw [if_neg hk] at hperm
      exact Or.inr ⟨fun r hr heq => hk (List.mem_map.2 ⟨r, hr, heq⟩), hperm⟩

/-- an insertion of one pair whose new capacity fits 32 bits succeeds exactly if the limit allows it and the heap can
serve the growth it needs -/
theorem hashtableInsert_code {p : HashtableProperties} (hmin : p.minCap < 2 ^ 32) (hmax : p.maxCap < 2 ^ 32)
    (h : HtInv ht) (hp : ht.htProps = p) (hfits : InsertFits ht 1) (q : HashtablePair K V) (heap : Bool) :
    ∃ c ht', hashtableInsert H ht q heap = some (c, ht') ∧
      (c = .ok ↔ ht.elemCount + 1 ≤ p.maxCap ∧ (loadExceeded (ht.elemCount + 1) ht.currCap → heap = true)) := by
  obtain ⟨m, hs⟩ := exists_simulates h hp
  have hcard : ht.elemCount = m.keys.card := h.count.trans hs.rep.card
  have hfits' : InsertFits ht [q].length := hfits
  obtain ⟨c, ht', m', hrun, hspec, -⟩ := hashtableInsertMulti_spec (H := H) hmin hmax hs hfits' heap
  refine ⟨c, ht', hrun, ?_⟩
  unfold InsertSpec at hspec
  rw [← hcard, List.length_singleton] at hspec
  split_ifs at hspec with hlimit
  · have hcode : c = .capLimitExceeded := by
      cases hspec.1
      rfl
    rw [hcode]
    refine ⟨fun hc => (by cases hc), fun hroom => ?_⟩
    omega
  · rw [not_or] at hlimit
    by_cases hload : loadExceeded (ht.elemCount + 1) ht.currCap
    · cases heap with
      | false =>
        -- the array cannot be allocated
        have hcode : c = .memoryAllocation := by
          obtain ⟨newCap, hnew⟩ := exists_newCapacity p (hfits (by rw [hp]; omega) hload)
          unfold hashtableInsertMulti at hrun
          rw [List.length_singleton, checkedUint32Add_of_lt (by omega), hp] at hrun
          dsimp only at hrun
          rw [if_neg (by simp only [Bool.true_eq_false, false_or]; omega), if_pos hload, hnew] at hrun
          cases hrun
          rfl
        rw [hcode]
        exact ⟨fun hc => (by cases hc), fun hroom => absurd (hroom.2 hload) (by decide)⟩
      | true =>
        have hcode : c = .ok := by
          rcases hspec with ⟨hc, -⟩ | ⟨hheap, -⟩
          · cases hc
            rfl
          · cases hheap
        exact ⟨fun _ => ⟨by omega, fun _ => rfl⟩, fun _ => hcode⟩
    · have hcode : c = .ok := by
        unfold hashtableInsertMulti at hrun
        rw [List.length_singleton, checkedUint32Add_of_lt (by omega), hp] at hrun
        dsimp only at hrun
        rw [if_neg (by simp only [Bool.true_eq_false, false_or]; omega), if_neg hload] at hrun
        obtain ⟨x, -, heq⟩ := Option.map_eq_some_iff.1 hrun
        exact (congrArg Prod.fst heq).symm
      exact ⟨fun _ => ⟨by omega, fun hload' => absurd hload' hload⟩, fun _ => hcode⟩

end Remove

/-! ## Runs -/

/-- a table with the books of its pairs: those that were stored, erased and extracted so far, and the destructor calls -/
structure HtOwner (K V : Type) where
  table : Hashtable K V
  everStored : List (HashtablePair K V)
  erased : List (HashtablePair K V)
  extracted : List (HashtablePair K V)
  calls : List (FreeCall K V)

section Runs

variable [DecidableEq K] [Inhabited K] [Inhabited V]

def HtOwner.afterInsert (s : HtOwner K V) (pairs : List (HashtablePair K V)) (r : NkErrorCode × Hashtable K V) :
    HtOwner K V :=
  { s with
    table := r.2
    everStored := s.everStored ++ if r.1 = .ok then addedPairs (storedKeys s.table.elemArray) pairs else [] }

/-- one call with its bookkeeping, if it returns -/
def htOwnStep (H : HashFn K) (s : HtOwner K V) : HtOp K V → Option (HtOwner K V)
  | .insert pair heap => (hashtableInsert H s.table pair heap).map (s.afterInsert [pair])
  | .insertMulti pairs heap => (hashtableInsertMulti H s.table pairs heap).map (s.afterInsert pairs)
  | .erase k => some { s with
      table := (hashtableErase H s.table k).2.2
      erased := (pairOf s.table k).toList ++ s.erased
      calls := s.calls ++ (hashtableErase H s.table k).2.1 }
  | .extract k => some { s with
      table := (hashtableExtract H s.table k).2.2.2
      extracted := (pairOf s.table k).toList ++ s.extracted
      calls := s.calls ++ (hashtableExtract H s.table k).2.2.1 }
  | _ => some s

/-- every pair that was stored is in exactly one place, and the destructor was called for what left the table -/
structure PairsOwned (p : HashtableProperties) (s : HtOwner K V) : Prop where
  inv : HtInv s.table
  props : s.table.htProps = p
  places : s.everStored.Perm (stored s.table.elemArray ++ (s.erased ++ s.extracted))
  calls : s.calls.Perm (s.erased.map (eraseCall p) ++ s.extracted.map extractCall)

/-- what is taken out of one list goes in front of another -/
theorem moved_perm {α : Type} {out new old : List α} (h : (out ++ new).Perm old) (rest : List α) :
    (old ++ rest).Perm (new ++ (out ++ rest)) := by
  calc List.Perm (old ++ rest) ((out ++ new) ++ rest) := h.symm.append_right _
    List.Perm _ ((new ++ out) ++ rest) := List.perm_append_comm.append_right _
    List.Perm _ (new ++ (out ++ rest)) := .of_eq (List.append_assoc _ _ _)

variable {H : HashFn K} {p : HashtableProperties}

theorem afterInsert_owned (hmin : p.minCap < 2 ^ 32) (hmax : p.maxCap < 2 ^ 32) {s : HtOwner K V}
    (h : PairsOwned p s) {pairs : List (HashtablePair K V)} {heap : Bool} {r : NkErrorCode × Hashtable K V}
    (hr : hashtableInsertMulti H s.table pairs heap = some r) : PairsOwned p (s.afterInsert pairs r) := by
  obtain ⟨c, ht'⟩ := r
  rcases insertMulti_some hmin hmax h.inv h.props hr with ⟨hc, rfl⟩ | ⟨rfl, hinv, hprops, hperm⟩
  · have hsame : s.afterInsert pairs (c, s.table) = s := by
      rw [HtOwner.afterInsert, if_neg hc, List.append_nil]
    rw [hsame]
    exact h
  · refine ⟨hinv, hprops, ?_, h.calls⟩
    unfold HtOwner.afterInsert
    rw [if_pos rfl]
    dsimp only
    calc List.Perm (s.everStored ++ addedPairs (storedKeys s.table.elemArray) pairs)
          ((stored s.table.elemArray ++ (s.erased ++ s.extracted)) ++ addedPairs (storedKeys s.table.elemArray) pairs) :=
          h.places.append_right _
      List.Perm _ ((addedPairs (storedKeys s.table.elemArray) pairs ++ stored s.table.elemArray) ++
          (s.erased ++ s.extracted)) := by
          rw [List.append_assoc _ (stored s.table.elemArray)]
          exact List.perm_append_comm
      List.Perm _ (stored ht'.elemArray ++ (s.erased ++ s.extracted)) := hperm.symm.append_right _

theorem htOwnStep_owned (hmin : p.minCap < 2 ^ 32) (hmax : p.maxCap < 2 ^ 32) (hfree : p.fnElemFree = true)
    {s t : HtOwner K V} (h : PairsOwned p s) {o : HtOp K V} (hs : htOwnStep H s o = some t) : PairsOwned p t := by
  have hfree' : s.table.htProps.fnElemFree = true := by rw [h.props, hfree]
  cases o with
  | insert pair heap =>
    obtain ⟨r, hr, rfl⟩ := Option.map_eq_some_iff.1 hs
    exact afterInsert_owned hmin hmax h hr
  | insertMulti pairs heap =>
    obtain ⟨r, hr, rfl⟩ := Option.map_eq_some_iff.1 hs
    exact afterInsert_owned hmin hmax h hr
  | erase k =>
    cases hs
    obtain ⟨hinv, hprops, hcalls, hperm⟩ := hashtableErase_own (H := H) h.inv hfree' k
    rw [h.props] at hcalls
    refine ⟨hinv, hprops.trans h.props, h.places.trans ?_, ?_⟩
    · dsimp only
      rw [List.append_assoc]
      exact moved_perm hperm (s.erased ++ s.extracted)
    · dsimp only
      rw [hcalls, List.map_append, List.append_assoc]
      exact List.perm_append_comm.trans (h.calls.append_left _)
  | extract k =>
    cases hs
    obtain ⟨hinv, hprops, hcalls, hperm⟩ := hashtableExtract_own (H := H) h.inv hfree' k
    refine ⟨hinv, hprops.trans h.props, h.places.trans ?_, ?_⟩
    · dsimp only
      refine (moved_perm hperm (s.erased ++ s.extracted)).trans (List.Perm.append_left _ ?_)
      exact List.perm_append_comm_assoc _ _ _
    · dsimp only
      rw [hcalls, List.map_append]
      refine (List.perm_append_comm.trans (h.calls.append_left _)).trans ?_
      exact List.perm_append_comm_assoc _ _ _
  | _ =>
    cases hs
    exact h

/-- the books of a new table -/
def newOwner (p : HashtableProperties) : HtOwner K V := ⟨hashtableCreate p, [], [], [], []⟩

omit [DecidableEq K] in
theorem newOwner_owned (hpos : 0 < p.initCap) (hlt : p.initCap < 2 ^ 32) : PairsOwned p (newOwner p : HtOwner K V) := by
  have hs := simulates_create (K := K) (V := V) hpos hlt
  have hnil : stored (newOwner p : HtOwner K V).table.elemArray = [] := stored_replicate _
  refine ⟨hs.inv, hs.props, ?_, .refl _⟩
  rw [hnil]
  exact .refl _

/-- a call whose new capacity fits 32 bits returns -/
theorem htOwnStep_returns (hmin : p.minCap < 2 ^ 32) (hmax : p.maxCap < 2 ^ 32) {s : HtOwner K V} (h : PairsOwned p s)
    {o : HtOp K V} (ho : Fits s.table o) : ∃ t, htOwnStep H s o = some t := by
  obtain ⟨m, hs⟩ := exists_simulates h.inv h.props
  cases o with
  | insert pair heap =>
    have ho' : InsertFits s.table [pair].length := ho
    obtain ⟨c, ht', m', hrun, -⟩ := hashtableInsertMulti_spec (H := H) hmin hmax hs ho' heap
    exact ⟨_, by rw [htOwnStep, hashtableInsert, hrun]; rfl⟩
  | insertMulti pairs heap =>
    obtain ⟨c, ht', m', hrun, -⟩ := hashtableInsertMulti_spec (H := H) hmin hmax hs ho heap
    exact ⟨_, by rw [htOwnStep, hrun]; rfl⟩
  | _ => exact ⟨_, rfl⟩

/-- After every run of calls that return, a pair that was stored is in the table, erased or extracted, and the destructor
was called once for each erased pair and once, with the key alone, for each extracted one. Destroying the table then
calls it once for each pair that is left, so that over the whole run the values passed are those of all pairs stored but
not extracted. Every call whose new capacity fits 32 bits returns. -/
theorem pairs_run (hpos : 0 < p.initCap) (hlt : p.initCap < 2 ^ 32) (hmin : p.minCap < 2 ^ 32) (hmax : p.maxCap < 2 ^ 32)
    (hfree : p.fnElemFree = true) {ops : List (HtOp K V)} {s : HtOwner K V}
    (hrun : Runs (htOwnStep H) (fun _ _ => True) (newOwner p) ops s) :
    s.everStored.Perm (stored s.table.elemArray ++ (s.erased ++ s.extracted)) ∧
      s.calls.Perm (s.erased.map (eraseCall p) ++ s.extracted.map extractCall) ∧
      hashtableDestroy s.table = (stored s.table.elemArray).map destroyCall ∧
      (passedValues (s.calls ++ hashtableDestroy s.table) ++ s.extracted.map HashtablePair.valuePtr).Perm
        (s.everStored.map HashtablePair.valuePtr) ∧
      (keyOnly (s.calls ++ hashtableDestroy s.table)).Perm (s.extracted.map extractCall) ∧
      ∀ o, Fits s.table o → ∃ t, htOwnStep H s o = some t := by
  have h : PairsOwned p s :=
    hrun.inv (fun _ _ _ h _ hs => htOwnStep_owned hmin hmax hfree h hs) (newOwner_owned hpos hlt)
  have hdestroy := hashtableDestroy_eq h.inv.count (by rw [h.props, hfree])
  refine ⟨h.places, h.calls, hdestroy, ?_, ?_, fun o ho => htOwnStep_returns hmin hmax h ho⟩
  · have hcalls := h.calls.filterMap FreeCall.valPtr
    rw [List.filterMap_append, ← passedValues, ← passedValues, ← passedValues, passedValues_erase,
      passedValues_extract, List.append_nil] at hcalls
    have hsplit : passedValues (s.calls ++ hashtableDestroy s.table) =
        passedValues s.calls ++ (stored s.table.elemArray).map HashtablePair.valuePtr := by
      rw [passedValues, List.filterMap_append, ← passedValues, ← passedValues, hdestroy, passedValues_destroy]
    have hplaces := h.places.map HashtablePair.valuePtr
    rw [List.map_append, List.map_append] at hplaces
    refine List.Perm.trans ?_ hplaces.symm
    rw [hsplit, ← List.append_assoc]
    exact (List.perm_append_comm.trans (hcalls.append_left _)).append_right _
  · have hcalls := h.calls.filter fun c => c.valPtr.isNone
    rw [List.filter_append, ← keyOnly, ← keyOnly, ← keyOnly, keyOnly_erase, keyOnly_extract, List.nil_append] at hcalls
    have hsplit : keyOnly (s.calls ++ hashtableDestroy s.table) = keyOnly s.calls := by
      rw [keyOnly, List.filter_append, ← keyOnly, ← keyOnly, hdestroy, keyOnly_destroy, List.append_nil]
    rw [hsplit]
    exact hcalls

end Runs

/-- a pair is inserted and extracted -/
theorem pairs_run_extract : ∃ s, Runs (htOwnStep modHash) (fun _ _ => True) (newOwner growingProps)
    [.insert (⟨5, 7⟩ : HashtablePair ℕ ℕ) true, .extract 5] s ∧
    s.everStored.Perm (stored s.table.elemArray ++ (s.erased ++ s.extracted)) ∧
    (keyOnly (s.calls ++ hashtableDestroy s.table)).Perm (s.extracted.map extractCall) := by
  have hnew := newOwner_owned (K := ℕ) (V := ℕ) (p := growingProps) (by decide) (by decide)
  have hfits : Fits (newOwner growingProps).table (.insert (⟨5, 7⟩ : HashtablePair ℕ ℕ) true) := by
    intro _ _
    decide
  obtain ⟨s₁, hs₁⟩ := htOwnStep_returns (H := modHash) (by decide) (by decide) hnew hfits
  have hrun : Runs (htOwnStep modHash) (fun _ _ => True) (newOwner growingProps)
    [.insert (⟨5, 7⟩ : HashtablePair ℕ ℕ) true, .extract 5] _ := .cons trivial hs₁ (.cons trivial rfl (.nil _))
  obtain ⟨hplaces, -, -, -, hkeys, -⟩ := pairs_run (by decide) (by decide) (by decide) (by decide) rfl hrun
  exact ⟨_, hrun, hplaces, hkeys⟩

end Noriko.Dstruct
