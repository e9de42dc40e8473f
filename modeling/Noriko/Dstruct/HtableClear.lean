/-
Clearing a hash table (`NkHashtableClear` of `htable.c`).

The call destroys the elements, moves them to an array of the minimal capacity, and then zeroes that array. The move is
not needed, and it does two things: it hashes the keys after the destructor has had them, and it does not end if there are
more elements than the minimal capacity, as the insertion loop then runs in a full array. So a clear is right exactly if no
element is moved, or there is no destructor and the new array has room (`clear_iff`).

The keys that are hashed and the calls of the destructor are one list of events, in the order of the source.
-/
import Noriko.Dstruct.HtableOwn

namespace Noriko.Dstruct

open Lib

variable {K V : Type}

/-! ## The call -/

/-- what happens to the keys of a table while it is cleared -/
inductive ClearEvent (K V : Type) where
  | destroyed (call : FreeCall K V)
  | hashed (k : K)
deriving DecidableEq, Repr

/-- the keys that the loop of `__NkInt_HashtableAdjustCapacity` hashes: those of the used slots, `j` of which are done -/
def hashedKeys (elemCount : ℕ) : List (HashtableExtPair K V) → ℕ → List K
  | [], _ => []
  | s :: rest, j =>
    if j < elemCount then
      if s.isUsed = false then hashedKeys elemCount rest j
      else s.regPair.keyVal :: hashedKeys elemCount rest (j + 1)
    else []

/-- `NkHashtableClear`: the events and the table after them, if it returns; `heap` tells whether the new array can be
allocated -/
def hashtableClear [Inhabited K] [Inhabited V] (H : HashFn K) (ht : Hashtable K V) (heap : Bool) :
    Option (List (ClearEvent K V) × Hashtable K V) :=
  let destroyed := (freeElems ht).map ClearEvent.destroyed
  let hashed := if heap then (hashedKeys ht.elemCount ht.elemArray 0).map ClearEvent.hashed else []
  -- the code of the move is ignored: if it failed, the old array is zeroed
  (adjustCapacity H ht ht.htProps.minCap heap).map fun r =>
    (destroyed ++ hashed, { r.2 with elemCount := 0, elemArray := List.replicate r.2.currCap zeroSlot })

/-! ## What a clear owes -/

/-- the calls of the destructor -/
def destroyedCalls (events : List (ClearEvent K V)) : List (FreeCall K V) :=
  events.filterMap fun
    | .destroyed call => some call
    | .hashed _ => none

/-- no key is hashed after the destructor has had it -/
def NotUsedAfterFree (events : List (ClearEvent K V)) : Prop :=
  events.Pairwise fun
    | .destroyed call, .hashed k => call.keyPtr ≠ some k
    | _, _ => True

/-- the clear returns and leaves an empty table, of the minimal capacity unless the array could not be allocated; the
destructor, if there is one, had every pair once, and no key was used after that -/
def ClearRight [Inhabited K] [Inhabited V] (H : HashFn K) (ht : Hashtable K V) (heap : Bool) : Prop :=
  ∃ events ht', hashtableClear H ht heap = some (events, ht') ∧ HtInv ht' ∧ ht'.htProps = ht.htProps ∧
    ht'.elemCount = 0 ∧ (∀ s ∈ ht'.elemArray, s.isUsed = false) ∧
    ht'.currCap = (if heap then ht.htProps.minCap else ht.currCap) ∧
    (ht.htProps.fnElemFree = true → (destroyedCalls events).Perm ((stored ht.elemArray).map destroyCall)) ∧
    NotUsedAfterFree events

/-- nothing is moved, or there is no destructor and room for everything that is moved -/
def ClearsSafely (ht : Hashtable K V) (heap : Bool) : Prop :=
  heap = false ∨ ht.elemCount = 0 ∨ (ht.htProps.fnElemFree = false ∧ ht.elemCount ≤ ht.htProps.minCap)

/-! ## Events -/

theorem hashedKeys_eq {elemCount : ℕ} (elems : List (HashtableExtPair K V)) (j : ℕ)
    (h : j + (stored elems).length = elemCount) :
    hashedKeys elemCount elems j = (stored elems).map HashtablePair.keyVal :=
  usedLoop_eq (fun _ => rfl) (fun _ _ _ => rfl) elems j h

theorem destroyedCalls_append (calls : List (FreeCall K V)) (keys : List K) :
    destroyedCalls (calls.map ClearEvent.destroyed ++ keys.map ClearEvent.hashed) = calls := by
  simp [destroyedCalls, List.filterMap_map]

/-- destructor calls before hashed keys: the calls must be about other keys -/
theorem notUsedAfterFree_iff (calls : List (FreeCall K V)) (keys : List K) :
    NotUsedAfterFree (calls.map ClearEvent.destroyed ++ keys.map ClearEvent.hashed) ↔
      ∀ c ∈ calls, ∀ k ∈ keys, c.keyPtr ≠ some k := by
  unfold NotUsedAfterFree
  rw [List.pairwise_append, List.pairwise_map, List.pairwise_map]
  have hcalls : calls.Pairwise fun _ _ => True := List.pairwise_of_forall fun _ _ => trivial
  have hkeys : keys.Pairwise fun _ _ => True := List.pairwise_of_forall fun _ _ => trivial
  simp only [hcalls, hkeys, true_and, List.forall_mem_map]

/-! ## Tables that a run leads to -/

section Tables

variable [Inhabited K] [Inhabited V] {H : HashFn K} {p : HashtableProperties} {ht : Hashtable K V}

theorem zeroed_free {n : ℕ} {s : HashtableExtPair K V} (hs : s ∈ List.replicate n zeroSlot) : s.isUsed = false := by
  rw [List.eq_of_mem_replicate hs]
  rfl

/-- a zeroed array is that of an empty table -/
theorem htInv_zeroed {cap : ℕ} (hpos : 0 < cap) (hlt : cap < 2 ^ 32) (p : HashtableProperties) :
    HtInv (⟨0, cap, p, List.replicate cap zeroSlot⟩ : Hashtable K V) := by
  have hempty := stored_replicate (K := K) (V := V) cap
  refine ⟨List.length_replicate, ?_, ?_, Nat.zero_le _, hpos, hlt⟩
  · rw [hempty]
    exact List.nodup_nil
  · rw [hempty]
    rfl

/-- a move that returns has found room for every pair -/
theorem adjustCapacity_room (hcount : ht.elemCount = (stored ht.elemArray).length) {newCap : ℕ} (hpos : 0 < newCap)
    {code : NkErrorCode} {ht' : Hashtable K V} (h : adjustCapacity H ht newCap true = some (code, ht')) :
    ht.elemCount ≤ newCap := by
  rw [adjustCapacity, if_neg (by decide)] at h
  cases hrun : transfer H newCap ht.elemCount ht.elemArray 0 (List.replicate newCap zeroSlot) with
  | none =>
    rw [hrun] at h
    cases h
  | some x =>
    obtain ⟨b, new⟩ := x
    obtain ⟨-, hlen, hperm⟩ := transfer_some hpos ht.elemArray ((Nat.zero_add _).trans hcount.symm)
      List.length_replicate hrun
    rw [stored_replicate, List.append_nil] at hperm
    rw [hcount, ← hperm.length_eq, ← hlen]
    exact length_stored_le new

/-! ## When a clear is right -/

/-- without a new array the table is emptied in place -/
theorem clearRight_inPlace (h : HtInv ht) : ClearRight H ht false := by
  refine ⟨_, _, rfl, htInv_zeroed h.cap_pos h.cap_lt _, rfl, rfl, fun s hs => zeroed_free hs, rfl, fun hfree => ?_, ?_⟩
  · rw [freeElems, if_pos hfree, freeElemsLoop_eq _ 0 (by rw [Nat.zero_add, h.count])]
    exact .of_eq (destroyedCalls_append _ [])
  · exact (notUsedAfterFree_iff (freeElems ht) []).2 fun _ _ k hk => absurd hk List.not_mem_nil

/-- a move that finds room leaves an empty table; the keys it hashes are those that were destroyed -/
theorem clearRight_moved (h : HtInv ht) (hpos : 0 < ht.htProps.minCap) (hlt : ht.htProps.minCap < 2 ^ 32)
    (hroom : ht.elemCount ≤ ht.htProps.minCap) :
    ClearRight H ht true ↔ ht.htProps.fnElemFree = false ∨ stored ht.elemArray = [] := by
  have hstart : 0 + (stored ht.elemArray).length = ht.elemCount := by rw [Nat.zero_add, h.count]
  have hkeys := hashedKeys_eq ht.elemArray 0 hstart
  obtain ⟨new, hadj, -, -⟩ := (adjustCapacity_spec H h.count hpos hroom true).resolve_left fun hc => by cases hc.1
  have hclear : hashtableClear H ht true = some
      ((freeElems ht).map ClearEvent.destroyed ++ ((stored ht.elemArray).map HashtablePair.keyVal).map ClearEvent.hashed,
        ⟨0, ht.htProps.minCap, ht.htProps, List.replicate ht.htProps.minCap zeroSlot⟩) := by
    rw [hashtableClear, hadj, hkeys]
    rfl
  constructor
  · rintro ⟨events, ht', heq, -, -, -, -, -, -, hsafe⟩
    rw [hclear] at heq
    cases heq
    rw [notUsedAfterFree_iff] at hsafe
    by_contra hboth
    rw [not_or, Bool.not_eq_false] at hboth
    -- the first pair that is stored: its key is destroyed, then hashed
    obtain ⟨q, hq⟩ := List.exists_mem_of_ne_nil _ hboth.2
    rw [freeElems, if_pos hboth.1, freeElemsLoop_eq _ 0 hstart] at hsafe
    exact hsafe _ (List.mem_map_of_mem hq) q.keyVal (List.mem_map_of_mem hq) rfl
  · intro hsafe
    refine ⟨_, _, hclear, htInv_zeroed hpos hlt _, rfl, rfl, fun s hs => zeroed_free hs, rfl, fun hfree => ?_, ?_⟩
    · rw [destroyedCalls_append, freeElems, if_pos hfree, freeElemsLoop_eq _ 0 hstart]
    · rw [notUsedAfterFree_iff]
      intro c hc k hk
      rcases hsafe with hnone | hempty
      · rw [freeElems, if_neg (by rw [hnone]; decide)] at hc
        cases hc
      · rw [hempty] at hk
        cases hk

/-! ## Runs -/

variable [DecidableEq K]

theorem htStep_inv (hmin : p.minCap < 2 ^ 32) (hmax : p.maxCap < 2 ^ 32) {ht ht' : Hashtable K V}
    (h : HtInv ht ∧ ht.htProps = p) {o : HtOp K V} {r : HtResult K V} (hs : htStep H ht o = some (r, ht')) :
    HtInv ht' ∧ ht'.htProps = p := by
  have hinsert : ∀ pairs heap c u, hashtableInsertMulti H ht pairs heap = some (c, u) → HtInv u ∧ u.htProps = p := by
    intro pairs heap c u hr
    rcases insertMulti_some hmin hmax h.1 h.2 hr with ⟨-, rfl⟩ | ⟨-, hinv, hprops, -⟩
    · exact h
    · exact ⟨hinv, hprops⟩
  cases o with
  | insert pair heap =>
    obtain ⟨x, hr, heq⟩ := Option.map_eq_some_iff.1 hs
    cases heq
    exact hinsert _ _ _ _ hr
  | insertMulti pairs heap =>
    obtain ⟨x, hr, heq⟩ := Option.map_eq_some_iff.1 hs
    cases heq
    exact hinsert _ _ _ _ hr
  | erase k =>
    cases hs
    unfold hashtableErase
    rcases locKey_pairOf (H := H) h.1 k with ⟨i, hi, heq, hne, hused, -⟩ | ⟨heq, -⟩
    · rw [heq, if_neg hne]
      exact ⟨(releaseSlot_inv h.1 hi hused).1, h.2⟩
    · rw [heq, if_pos rfl]
      exact h
  | extract k =>
    cases hs
    unfold hashtableExtract
    rcases locKey_pairOf (H := H) h.1 k with ⟨i, hi, heq, hne, hused, -⟩ | ⟨heq, -⟩
    · rw [heq, if_neg hne]
      exact ⟨(releaseSlot_inv h.1 hi hused).1, h.2⟩
    · rw [heq, if_pos rfl]
      exact h
  | _ =>
    cases hs
    exact h

/-- After every run of calls on a new table, a clear is right exactly if nothing is moved, or there is no destructor and
the minimal capacity has room for all elements. -/
theorem clear_iff (hp : ValidProps p) {ops : List (HtOp K V)} {rs : List (HtResult K V)}
    (hrun : outputs (htStep H) (hashtableCreate p) ops = some (rs, ht)) (heap : Bool) :
    ClearRight H ht heap ↔ ClearsSafely ht heap := by
  obtain ⟨h, hprops⟩ : HtInv ht ∧ ht.htProps = p := by
    have hcreate := simulates_create (K := K) (V := V) hp.initCap.1 hp.initCap.2
    refine outputs_inv (I := fun ht => HtInv ht ∧ ht.htProps = p) ?_ hrun ⟨hcreate.inv, hcreate.props⟩
    exact fun s o r t hs hstep => htStep_inv (hp.minCap.2.trans_lt hp.maxCap) hp.maxCap hs hstep
  have hpos : 0 < ht.htProps.minCap := by rw [hprops]; exact hp.minCap.1
  have hlt : ht.htProps.minCap < 2 ^ 32 := by rw [hprops]; exact hp.minCap.2.trans_lt hp.maxCap
  have hempty : ht.elemCount = 0 ↔ stored ht.elemArray = [] := by
    rw [h.count, List.length_eq_zero_iff]
  unfold ClearsSafely
  cases heap with
  | false => exact ⟨fun _ => Or.inl rfl, fun _ => clearRight_inPlace h⟩
  | true =>
    rw [hempty]
    constructor
    · intro hright
      obtain ⟨events, ht', hclear, -⟩ := id hright
      obtain ⟨⟨code, u⟩, hadj, -⟩ := Option.map_eq_some_iff.1 hclear
      have hroom := adjustCapacity_room h.count hpos hadj
      rcases (clearRight_moved h hpos hlt hroom).1 hright with hnone | hnil
      · exact Or.inr (Or.inr ⟨hnone, hroom⟩)
      · exact Or.inr (Or.inl hnil)
    · rintro (hfalse | hnil | ⟨hnone, hroom⟩)
      · cases hfalse
      · refine (clearRight_moved h hpos hlt ?_).2 (Or.inr hnil)
        rw [hempty.2 hnil]
        exact Nat.zero_le _
      · exact (clearRight_moved h hpos hlt hroom).2 (Or.inl hnone)

end Tables

/-- a table of eight slots that shrinks to one, with a destructor -/
def shrinkingProps : HashtableProperties := ⟨8, 1, 8, .uint64, true⟩

theorem validProps_shrinking : ValidProps shrinkingProps := ⟨by decide, by decide, by decide⟩

/-- one pair in a table of eight slots -/
def onePair : Hashtable ℕ ℕ := ⟨1, 8, shrinkingProps,
  [⟨⟨0, 5⟩, true, 0⟩, zeroSlot, zeroSlot, zeroSlot, zeroSlot, zeroSlot, zeroSlot, zeroSlot]⟩

/-- two pairs in a table of eight slots -/
def twoPairs : Hashtable ℕ ℕ := ⟨2, 8, shrinkingProps,
  [⟨⟨0, 5⟩, true, 0⟩, ⟨⟨1, 6⟩, true, 0⟩, zeroSlot, zeroSlot, zeroSlot, zeroSlot, zeroSlot, zeroSlot]⟩

theorem outputs_twoPairs : outputs (htStep modHash) (hashtableCreate shrinkingProps)
    [.insert (⟨0, 5⟩ : HashtablePair ℕ ℕ) true, .insert ⟨1, 6⟩ true] = some ([.code .ok, .code .ok], twoPairs) := by
  have hfirst : hashtableInsert modHash (hashtableCreate shrinkingProps) (⟨0, 5⟩ : HashtablePair ℕ ℕ) true =
      some (.ok, onePair) := by decide +kernel
  have hsecond : hashtableInsert modHash onePair ⟨1, 6⟩ true = some (.ok, twoPairs) := by decide +kernel
  simp only [outputs, htStep, hfirst, hsecond, Option.map_some, Option.bind_some]

/-- without memory for the new array the two elements are destroyed and the array is zeroed -/
theorem clear_iff_inPlace : ClearsSafely twoPairs false ∧ ClearRight modHash twoPairs false :=
  ⟨Or.inl rfl, (clear_iff validProps_shrinking outputs_twoPairs false).2 (Or.inl rfl)⟩

/-- the second of two elements finds no slot in the array of minimal capacity -/
theorem clear_hangs : outputs (htStep modHash) (hashtableCreate shrinkingProps)
      [.insert (⟨0, 5⟩ : HashtablePair ℕ ℕ) true, .insert ⟨1, 6⟩ true] = some ([.code .ok, .code .ok], twoPairs) ∧
    hashtableClear modHash twoPairs true = none ∧ ¬ ClearRight modHash twoPairs true := by
  have hnone : hashtableClear modHash twoPairs true = none := rfl
  refine ⟨outputs_twoPairs, hnone, ?_⟩
  rintro ⟨events, ht', hclear, -⟩
  rw [hnone] at hclear
  cases hclear

end Noriko.Dstruct
