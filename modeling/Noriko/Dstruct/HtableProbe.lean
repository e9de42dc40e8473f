/-
The loops of the hash table.

`stored` are the pairs of the used slots. Inserting adds its pair to them, whatever is displaced on the way, as long as a
slot is free (`robinHoodInsertSingle_spec`); in a full array the loop goes round for ever (`robinHoodLoop_full`).
The search looks at every slot, so it finds a key wherever insertions and deletions left it (`locKey_spec`). Moving to
another array keeps all pairs (`adjustCapacity_spec`).
-/
import Noriko.Dstruct.Htable

namespace Noriko.Dstruct

open Lib

variable {K V : Type}

/-! ## Stored pairs -/

/-- what a slot holds -/
def entry (s : HashtableExtPair K V) : Option (HashtablePair K V) := if s.isUsed then some s.regPair else none

/-- the pairs in the used slots -/
def stored (elems : List (HashtableExtPair K V)) : List (HashtablePair K V) := contents entry elems

theorem entry_of_used {s : HashtableExtPair K V} (h : s.isUsed = true) : entry s = some s.regPair := by
  rw [entry, if_pos h]

theorem entry_of_free {s : HashtableExtPair K V} (h : s.isUsed = false) : entry s = none := by
  rw [entry, h]
  rfl

theorem length_stored_le (elems : List (HashtableExtPair K V)) : (stored elems).length ≤ elems.length :=
  List.length_filterMap_le _ _

section Zeroed

variable [Inhabited K] [Inhabited V]

theorem slot_eq {elems : List (HashtableExtPair K V)} {i : ℕ} (hi : i < elems.length) : slot elems i = elems[i] :=
  List.getD_eq_getElem _ _ hi

theorem slot_set_of_ne {elems : List (HashtableExtPair K V)} {i j : ℕ} (h : i ≠ j) (s : HashtableExtPair K V) :
    slot (elems.set i s) j = slot elems j := by
  unfold slot
  rw [List.getD_eq_getElem?_getD, List.getElem?_set_ne h, ← List.getD_eq_getElem?_getD]

theorem stored_replicate (n : ℕ) : stored (List.replicate n (zeroSlot : HashtableExtPair K V)) = [] := by
  have hnone : entry (zeroSlot : HashtableExtPair K V) = none := rfl
  rw [stored, contents, List.filterMap_eq_nil_iff]
  intro s hs
  rw [List.eq_of_mem_replicate hs, hnone]

theorem mem_stored {elems : List (HashtableExtPair K V)} {p : HashtablePair K V} :
    p ∈ stored elems ↔ ∃ i < elems.length, (slot elems i).isUsed = true ∧ (slot elems i).regPair = p := by
  rw [stored, mem_contents]
  constructor
  · rintro ⟨i, hi, he⟩
    refine ⟨i, hi, ?_⟩
    rw [slot_eq hi]
    cases hu : elems[i].isUsed with
    | false => simp [entry, hu] at he
    | true =>
      rw [entry_of_used hu] at he
      exact ⟨rfl, Option.some.inj he⟩
  · rintro ⟨i, hi, hu, hp⟩
    rw [slot_eq hi] at hu hp
    exact ⟨i, hi, by rw [entry_of_used hu, hp]⟩

/-! ## Insertion -/

variable {cap : ℕ}

/-- if the slot `d` steps ahead is free, the loop ends within `d + 1` rounds -/
theorem robinHoodLoop_ends {rounds d : ℕ} (hd : d < rounds) {elems : List (HashtableExtPair K V)} {i : ℕ} (hi : i < cap)
    (hfree : (slot elems ((i + d) % cap)).isUsed = false) (psa : ℕ) (p : HashtablePair K V) :
    ∃ elems', robinHoodLoop cap rounds elems i psa p = some elems' := by
  induction rounds generalizing d elems i psa p with
  | zero => omega
  | succ rounds ih =>
    rw [robinHoodLoop]
    by_cases hused : (slot elems i).isUsed = false
    · rw [if_pos hused]
      exact ⟨_, rfl⟩
    · rw [if_neg hused]
      -- slot `i` is used, so the free slot is at least one step ahead, and it stays free
      obtain ⟨d, rfl⟩ : ∃ d', d = d' + 1 := by
        refine Nat.exists_eq_succ_of_ne_zero ?_
        rintro rfl
        rw [Nat.add_zero, Nat.mod_eq_of_lt hi] at hfree
        exact hused hfree
      have hne : i ≠ (i + (d + 1)) % cap := by
        intro heq
        rw [← heq] at hfree
        exact hused hfree
      rw [← cyc_add_mod hi] at hfree hne
      split_ifs with hpsa
      · exact ih (by omega) (cyc_lt hi) hfree _ p
      · refine ih (by omega : d < rounds) (cyc_lt hi) ?_ _ _
        rw [slot_set_of_ne hne]
        exact hfree

/-- whenever the loop ends, it has added the pair it carries -/
theorem robinHoodLoop_some {rounds : ℕ} {elems elems' : List (HashtableExtPair K V)} {i psa : ℕ}
    {p : HashtablePair K V} (hlen : elems.length = cap) (hi : i < cap)
    (h : robinHoodLoop cap rounds elems i psa p = some elems') :
    elems'.length = cap ∧ (stored elems').Perm (p :: stored elems) := by
  induction rounds generalizing elems i psa p with
  | zero => cases h
  | succ rounds ih =>
    have hil : i < elems.length := hlen.symm ▸ hi
    have hnew : entry (⟨p, true, psa⟩ : HashtableExtPair K V) = some p := rfl
    rw [robinHoodLoop] at h
    split_ifs at h with hused hpsa
    · cases h
      rw [slot_eq hil] at hused
      exact ⟨by rw [List.length_set, hlen], contents_fill hil (entry_of_free hused) hnew⟩
    · exact ih hlen (cyc_lt hi) h
    · obtain ⟨hlen', hperm⟩ := ih (by rw [List.length_set, hlen]) (cyc_lt hi) h
      rw [Bool.not_eq_false] at hused
      rw [slot_eq hil] at hused hperm
      exact ⟨hlen', hperm.trans (contents_swap hil (entry_of_used hused) hnew)⟩

/-- without a free slot the loop does not end, however many rounds it gets -/
theorem robinHoodLoop_full (rounds : ℕ) {elems : List (HashtableExtPair K V)} {i : ℕ} (hlen : elems.length = cap)
    (hi : i < cap) (hfull : ∀ j < cap, (slot elems j).isUsed = true) (psa : ℕ) (p : HashtablePair K V) :
    robinHoodLoop cap rounds elems i psa p = none := by
  induction rounds generalizing elems i psa p with
  | zero => rfl
  | succ rounds ih =>
    rw [robinHoodLoop, if_neg (by rw [hfull i hi]; decide)]
    split_ifs with hpsa
    · exact ih hlen (cyc_lt hi) hfull _ p
    · refine ih (by rw [List.length_set, hlen]) (cyc_lt hi) (fun j hj => ?_) _ _
      by_cases heq : i = j
      · subst heq
        rw [slot_eq (by rw [List.length_set, hlen]; exact hi), List.getElem_set_self]
      · rw [slot_set_of_ne heq]
        exact hfull j hj

theorem robinHoodInsertSingle_some {H : HashFn K} {elems elems' : List (HashtableExtPair K V)} {b : Bool}
    {p : HashtablePair K V} (hlen : elems.length = cap) (hpos : 0 < cap)
    (h : robinHoodInsertSingle H cap elems p = some (b, elems')) :
    b = true ∧ elems'.length = cap ∧ (stored elems').Perm (p :: stored elems) := by
  rw [robinHoodInsertSingle, if_neg (by omega)] at h
  obtain ⟨l, hl, heq⟩ := Option.map_eq_some_iff.1 h
  cases heq
  exact ⟨rfl, robinHoodLoop_some hlen (H.hash_lt p.keyVal hpos) hl⟩

/-- an array with room takes one more pair -/
theorem robinHoodInsertSingle_spec (H : HashFn K) {elems : List (HashtableExtPair K V)} (hlen : elems.length = cap)
    (hroom : (stored elems).length < cap) (p : HashtablePair K V) :
    ∃ elems', robinHoodInsertSingle H cap elems p = some (true, elems') ∧ elems'.length = cap ∧
      (stored elems').Perm (p :: stored elems) := by
  have hpos : 0 < cap := by omega
  obtain ⟨j, hj, hfree⟩ := exists_empty (f := entry) (l := elems) (hlen.symm ▸ hroom)
  obtain ⟨d, hd, hdist⟩ := exists_dist (H.hash_lt p.keyVal hpos) (hlen ▸ hj)
  have hused : (slot elems ((H.hash p.keyVal cap + d) % cap)).isUsed = false := by
    rw [hdist, slot_eq hj]
    cases hu : elems[j].isUsed with
    | false => rfl
    | true => simp [entry, hu] at hfree
  obtain ⟨elems', hrun⟩ := robinHoodLoop_ends hd (H.hash_lt p.keyVal hpos) hused 0 p
  have hins : robinHoodInsertSingle H cap elems p = some (true, elems') := by
    rw [robinHoodInsertSingle, if_neg (by omega), hrun, Option.map_some]
  exact ⟨elems', hins, (robinHoodInsertSingle_some hlen hpos hins).2⟩

/-! ## Growth -/

/-- the loop ends if the target has room for the pairs of all used slots that are left -/
theorem transfer_ends (H : HashFn K) {newCap elemCount : ℕ} (old : List (HashtableExtPair K V)) (j : ℕ)
    (new : List (HashtableExtPair K V)) (hlen : new.length = newCap)
    (hroom : (stored new).length + (stored old).length ≤ newCap) :
    ∃ x, transfer H newCap elemCount old j new = some x := by
  induction old generalizing j new with
  | nil => exact ⟨_, rfl⟩
  | cons s rest ih =>
    rw [transfer]
    split_ifs with hj hused
    · have hstored : stored (s :: rest) = stored rest := List.filterMap_cons_none (entry_of_free hused)
      rw [hstored] at hroom
      exact ih j new hlen hroom
    · rw [Bool.not_eq_false] at hused
      have hstored : stored (s :: rest) = s.regPair :: stored rest := List.filterMap_cons_some (entry_of_used hused)
      rw [hstored, List.length_cons] at hroom
      obtain ⟨new', hins, hlen', hperm⟩ :=
        robinHoodInsertSingle_spec H hlen (by omega : (stored new).length < newCap) s.regPair
      have hlength := hperm.length_eq
      rw [List.length_cons] at hlength
      rw [hins]
      exact ih (j + 1) new' hlen' (by omega)
    · exact ⟨_, rfl⟩

/-- whenever the loop ends, it has moved all pairs -/
theorem transfer_some {H : HashFn K} {newCap elemCount : ℕ} (hpos : 0 < newCap) (old : List (HashtableExtPair K V))
    {j : ℕ} {new new' : List (HashtableExtPair K V)} {b : Bool} (hcount : j + (stored old).length = elemCount)
    (hlen : new.length = newCap) (h : transfer H newCap elemCount old j new = some (b, new')) :
    b = true ∧ new'.length = newCap ∧ (stored new').Perm (stored old ++ stored new) := by
  induction old generalizing j new with
  | nil =>
    cases h
    exact ⟨rfl, hlen, .refl _⟩
  | cons s rest ih =>
    rw [transfer] at h
    cases hused : s.isUsed with
    | false =>
      have hstored : stored (s :: rest) = stored rest := List.filterMap_cons_none (entry_of_free hused)
      rw [hstored] at hcount ⊢
      rw [if_pos hused] at h
      split_ifs at h with hj
      · exact ih hcount hlen h
      · have hnil : stored rest = [] := List.length_eq_zero_iff.1 (by omega)
        cases h
        rw [hnil]
        exact ⟨rfl, hlen, .refl _⟩
    | true =>
      have hstored : stored (s :: rest) = s.regPair :: stored rest := List.filterMap_cons_some (entry_of_used hused)
      rw [hstored, List.length_cons] at hcount
      rw [if_pos (by omega), if_neg (by rw [hused]; decide)] at h
      cases hins : robinHoodInsertSingle H newCap new s.regPair with
      | none =>
        rw [hins] at h
        cases h
      | some x =>
        obtain ⟨b₁, new₁⟩ := x
        obtain ⟨rfl, hlen₁, hperm₁⟩ := robinHoodInsertSingle_some hlen hpos hins
        rw [hins] at h
        obtain ⟨hb, hlen', hperm⟩ := ih (by omega : j + 1 + (stored rest).length = elemCount) hlen₁ h
        refine ⟨hb, hlen', ?_⟩
        rw [hstored]
        exact hperm.trans ((hperm₁.append_left _).trans List.perm_middle)

/-- whenever a change of the capacity returns, it failed and changed nothing, or it kept all pairs -/
theorem adjustCapacity_some {H : HashFn K} {ht ht' : Hashtable K V} {newCap : ℕ} {heap : Bool} {code : NkErrorCode}
    (hcount : ht.elemCount = (stored ht.elemArray).length) (hpos : 0 < newCap)
    (h : adjustCapacity H ht newCap heap = some (code, ht')) :
    (code ≠ .ok ∧ ht' = ht) ∨ (code = .ok ∧ ∃ new, ht' = { ht with currCap := newCap, elemArray := new } ∧
      new.length = newCap ∧ (stored new).Perm (stored ht.elemArray)) := by
  rw [adjustCapacity] at h
  split_ifs at h with hheap
  · cases h
    exact Or.inl ⟨by decide, rfl⟩
  · cases hrun : transfer H newCap ht.elemCount ht.elemArray 0 (List.replicate newCap zeroSlot) with
    | none =>
      rw [hrun] at h
      cases h
    | some x =>
      obtain ⟨b, new⟩ := x
      obtain ⟨rfl, hlen, hperm⟩ := transfer_some hpos ht.elemArray ((Nat.zero_add _).trans hcount.symm)
        List.length_replicate hrun
      rw [stored_replicate, List.append_nil] at hperm
      rw [hrun] at h
      cases h
      exact Or.inr ⟨rfl, new, rfl, hlen, hperm⟩

/-- a change to a capacity with room for all pairs returns, and fails only for want of memory -/
theorem adjustCapacity_spec (H : HashFn K) {ht : Hashtable K V} (hcount : ht.elemCount = (stored ht.elemArray).length)
    {newCap : ℕ} (hpos : 0 < newCap) (hroom : ht.elemCount ≤ newCap) (heap : Bool) :
    (heap = false ∧ adjustCapacity H ht newCap heap = some (.memoryAllocation, ht)) ∨
      ∃ new, adjustCapacity H ht newCap heap = some (.ok, { ht with currCap := newCap, elemArray := new }) ∧
        new.length = newCap ∧ (stored new).Perm (stored ht.elemArray) := by
  cases heap with
  | false => exact Or.inl ⟨rfl, rfl⟩
  | true =>
    right
    have hempty := stored_replicate (K := K) (V := V) newCap
    have hfits : (stored (List.replicate newCap (zeroSlot : HashtableExtPair K V))).length +
        (stored ht.elemArray).length ≤ newCap := by
      rw [hempty, List.length_nil, Nat.zero_add, ← hcount]
      exact hroom
    obtain ⟨⟨b, new⟩, hrun⟩ :=
      transfer_ends H ht.elemArray 0 (List.replicate newCap zeroSlot) List.length_replicate hfits
    obtain ⟨rfl, hlen, hperm⟩ := transfer_some hpos ht.elemArray ((Nat.zero_add _).trans hcount.symm)
      List.length_replicate hrun
    rw [hempty, List.append_nil] at hperm
    exact ⟨new, by rw [adjustCapacity, if_neg (by decide), hrun], hlen, hperm⟩

/-! ## Search -/

variable [DecidableEq K]

/-- the search from `i` on stops at the first of the next `rounds` slots that holds the key -/
theorem locLoop_spec (elems : List (HashtableExtPair K V)) (k : K) (rounds : ℕ) {i : ℕ} (hi : i < cap) :
    (locLoop cap elems k rounds i < cap ∧ (slot elems (locLoop cap elems k rounds i)).isUsed = true ∧
      (slot elems (locLoop cap elems k rounds i)).regPair.keyVal = k) ∨
    (locLoop cap elems k rounds i = uint32Max ∧ ∀ d < rounds, (slot elems ((i + d) % cap)).isUsed = true →
      (slot elems ((i + d) % cap)).regPair.keyVal ≠ k) := by
  induction rounds generalizing i with
  | zero => exact Or.inr ⟨rfl, fun d hd => absurd hd (Nat.not_lt_zero d)⟩
  | succ rounds ih =>
    rw [locLoop]
    split_ifs with hfound
    · exact Or.inl ⟨hi, hfound.1, hfound.2.symm⟩
    · rcases ih (cyc_lt hi) with h | ⟨heq, hnone⟩
      · exact Or.inl h
      · refine Or.inr ⟨heq, fun d hd hused hkey => ?_⟩
        cases d with
        | zero =>
          rw [Nat.add_zero, Nat.mod_eq_of_lt hi] at hused hkey
          exact hfound ⟨hused, hkey.symm⟩
        | succ d =>
          rw [← cyc_add_mod hi] at hused hkey
          exact hnone d (by omega) hused hkey

/-- a key is found in a slot that holds it, or no stored pair has it -/
theorem locKey_spec (H : HashFn K) {elems : List (HashtableExtPair K V)} (hlen : elems.length = cap) (hpos : 0 < cap)
    (k : K) :
    (locKey H cap elems k < cap ∧ (slot elems (locKey H cap elems k)).isUsed = true ∧
      (slot elems (locKey H cap elems k)).regPair.keyVal = k) ∨
    (locKey H cap elems k = uint32Max ∧ ∀ p ∈ stored elems, p.keyVal ≠ k) := by
  rcases locLoop_spec elems k cap (H.hash_lt k hpos) with h | ⟨heq, hnone⟩
  · exact Or.inl h
  · refine Or.inr ⟨heq, fun p hp => ?_⟩
    obtain ⟨j, hj, hused, rfl⟩ := mem_stored.1 hp
    obtain ⟨d, hd, hdist⟩ := exists_dist (H.hash_lt k hpos) (hlen ▸ hj)
    have hkey := hnone d hd
    rw [hdist] at hkey
    exact hkey hused

end Zeroed

end Noriko.Dstruct
