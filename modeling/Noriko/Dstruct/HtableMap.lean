/-
The hash table as a finite map.

`MapSpec` is the map a caller sees: a key that is present is not inserted again, erasing and extracting take exactly one
key out, and the only failures of an insertion are the capacity limit and a want of memory. A table simulates a map if
its used slots hold the pairs of the map (`Represents`) and its counters are right (`HtInv`).

Every run of calls on a new table is a run of the map (`map_run`), as long as no insertion asks for an array whose size,
the number of elements divided by the target load factor, does not fit 32 bits (`Fits`). Past that, the quotient is cut,
the new array can be too small for its elements, and the call does not return (`map_lost`).
-/
import Noriko.Dstruct.HtableProbe
import Noriko.Lib.Sim
import Mathlib.Data.Finmap
import Mathlib.Algebra.Order.Floor.Semifield

namespace Noriko.Dstruct

open Lib

variable {K V : Type}

/-! ## The abstract map -/

abbrev Map (K V : Type) := Finmap fun _ : K => V

def toSigma (p : HashtablePair K V) : Sigma fun _ : K => V := ⟨p.keyVal, p.valuePtr⟩

/-- `order` lists the pairs of the map, each once -/
def Enumerates (order : List (HashtablePair K V)) (m : Map K V) : Prop :=
  ((order.map toSigma : List _) : Multiset _) = m.entries

/-- calls the callback on the pairs of a list until it returns something else than `NkErr_Ok` -/
def visit (fnIter : List (HashtablePair K V) → HashtablePair K V → NkErrorCode) :
    List (HashtablePair K V) → NkErrorCode → List (HashtablePair K V) → NkErrorCode × List (HashtablePair K V)
  | [], code, visited => (code, visited)
  | p :: ps, _, visited =>
    if fnIter visited p ≠ .ok then (fnIter visited p, visited ++ [p]) else visit fnIter ps .ok (visited ++ [p])

section Spec

variable [DecidableEq K]

/-- a key that is present keeps its value -/
def insertNew (m : Map K V) (p : HashtablePair K V) : Map K V :=
  if p.keyVal ∈ m then m else m.insert p.keyVal p.valuePtr

/-- inserting `pairs` into a map of at most `maxCap` pairs -/
def InsertSpec (maxCap : ℕ) (m : Map K V) (pairs : List (HashtablePair K V)) (heap : Bool) (r : HtResult K V)
    (m' : Map K V) : Prop :=
  if maxCap < m.keys.card + pairs.length ∨ 2 ^ 32 ≤ m.keys.card + pairs.length then
    r = .code .capLimitExceeded ∧ m' = m
  else (r = .code .ok ∧ m' = pairs.foldl insertNew m) ∨ (heap = false ∧ r = .code .memoryAllocation ∧ m' = m)

/-- what a call on a map may return, and the map after it -/
def MapSpec (maxCap : ℕ) (m : Map K V) : HtOp K V → HtResult K V → Map K V → Prop
  | .insert pair heap, r, m' => InsertSpec maxCap m [pair] heap r m'
  | .insertMulti pairs heap, r, m' => InsertSpec maxCap m pairs heap r m'
  | .erase k, r, m' => r = .code (if k ∈ m then .ok else .itemNotFound) ∧ m' = m.erase k
  | .extract k, r, m' => r = .value (if k ∈ m then .ok else .itemNotFound) (m.lookup k) ∧ m' = m.erase k
  | .at_ k, r, m' => r = .value (if k ∈ m then .ok else .itemNotFound) (m.lookup k) ∧ m' = m
  | .contains k, r, m' => r = .found (decide (k ∈ m)) ∧ m' = m
  | .count, r, m' => r = .number m.keys.card ∧ m' = m
  | .forEach fnIter, r, m' => m' = m ∧ ∃ order, Enumerates order m ∧
      r = .visited (visit fnIter order .noOperation []).1 (visit fnIter order .noOperation []).2 ∧
      ((visit fnIter order .noOperation []).1 = .ok → Enumerates (visit fnIter order .noOperation []).2 m)

end Spec

/-! ## Tables and maps -/

/-- the used slots hold the pairs of the map -/
def Represents (elems : List (HashtableExtPair K V)) (m : Map K V) : Prop := Enumerates (stored elems) m

/-- the used slots have different keys, and the counters are right -/
structure HtInv (ht : Hashtable K V) : Prop where
  length : ht.elemArray.length = ht.currCap
  keys : ((stored ht.elemArray).map HashtablePair.keyVal).Nodup
  count : ht.elemCount = (stored ht.elemArray).length
  bound : ht.elemCount ≤ ht.currCap
  cap_pos : 0 < ht.currCap
  cap_lt : ht.currCap < 2 ^ 32

/-- the table has the properties `p` and holds the map -/
structure Simulates (p : HashtableProperties) (ht : Hashtable K V) (m : Map K V) : Prop where
  props : ht.htProps = p
  inv : HtInv ht
  rep : Represents ht.elemArray m

/-- properties a table may be created with -/
structure ValidProps (p : HashtableProperties) : Prop where
  initCap : 1 ≤ p.initCap ∧ p.initCap < 2 ^ 32
  minCap : 1 ≤ p.minCap ∧ p.minCap ≤ p.maxCap
  maxCap : p.maxCap < 2 ^ 32

/-- the least element count whose quotient does not fit 32 bits -/
def growLimit : ℕ := 1503238465

/-- an insertion of `n` pairs does not grow the table, or there are too few elements for a quotient that does not fit 32
bits -/
def InsertFits (ht : Hashtable K V) (n : ℕ) : Prop :=
  ht.elemCount + n ≤ ht.htProps.maxCap → loadExceeded (ht.elemCount + n) ht.currCap → ht.elemCount + n < growLimit

/-- the condition on a call -/
def Fits (ht : Hashtable K V) : HtOp K V → Prop
  | .insert _ _ => InsertFits ht 1
  | .insertMulti pairs _ => InsertFits ht pairs.length
  | _ => True

/-! ## Representation -/

section Represents

variable {elems elems' : List (HashtableExtPair K V)} {m : Map K V} {p : HashtablePair K V}

theorem Represents.perm (h : Represents elems m) (hp : (stored elems').Perm (stored elems)) : Represents elems' m :=
  (Multiset.coe_eq_coe.2 (hp.map toSigma)).trans h

theorem Represents.keys_nodup (h : Represents elems m) : ((stored elems).map HashtablePair.keyVal).Nodup := by
  have hkeys := m.nodupKeys
  rw [← h, Multiset.coe_nodupKeys, List.NodupKeys] at hkeys
  rwa [List.keys, List.map_map] at hkeys

theorem Represents.card (h : Represents elems m) : (stored elems).length = m.keys.card := by
  have hcard : m.keys.card = m.entries.card := Multiset.card_map _ _
  rw [hcard, ← h, Multiset.coe_card, List.length_map]

variable [DecidableEq K]

theorem Represents.lookup (h : Represents elems m) (hp : p ∈ stored elems) : m.lookup p.keyVal = some p.valuePtr := by
  refine Finmap.lookup_eq_some_iff.2 ?_
  have hmem : toSigma p ∈ ((stored elems).map toSigma : Multiset _) := Multiset.mem_coe.2 (List.mem_map_of_mem hp)
  rw [← h]
  exact hmem

theorem Represents.mem_iff (h : Represents elems m) {k : K} : k ∈ m ↔ ∃ p ∈ stored elems, p.keyVal = k := by
  constructor
  · intro hk
    obtain ⟨v, hv⟩ := Finmap.mem_iff.1 hk
    have hmem := Finmap.lookup_eq_some_iff.1 hv
    rw [← h] at hmem
    obtain ⟨p, hp, heq⟩ := List.mem_map.1 (Multiset.mem_coe.1 hmem)
    exact ⟨p, hp, congrArg Sigma.fst heq⟩
  · rintro ⟨p, hp, rfl⟩
    exact Finmap.mem_of_lookup_eq_some (h.lookup hp)

theorem Represents.insert (h : Represents elems m) (hp : (stored elems').Perm (p :: stored elems))
    (hnew : p.keyVal ∉ m) : Represents elems' (m.insert p.keyVal p.valuePtr) := by
  unfold Represents Enumerates
  rw [Finmap.entries_insert_of_notMem hnew, ← h, Multiset.coe_eq_coe.2 (hp.map toSigma)]
  rfl

theorem Represents.erase (h : Represents elems m) (hp : (p :: stored elems').Perm (stored elems)) :
    Represents elems' (m.erase p.keyVal) := by
  have hlook := h.lookup (hp.subset List.mem_cons_self)
  have hback : (m.erase p.keyVal).insert p.keyVal p.valuePtr = m := by
    refine Finmap.ext_lookup fun k => ?_
    by_cases hk : k = p.keyVal
    · subst hk
      rw [Finmap.lookup_insert, hlook]
    · rw [Finmap.lookup_insert_of_ne _ hk, Finmap.lookup_erase_ne hk]
  have hentries := Finmap.entries_insert_of_notMem (b := p.valuePtr) (Finmap.notMem_erase_self (s := m) (a := p.keyVal))
  rw [hback, ← h, ← Multiset.coe_eq_coe.2 (hp.map toSigma)] at hentries
  exact (Multiset.cons_inj_right _).1 hentries

theorem erase_of_notMem {k : K} (hk : k ∉ m) : m.erase k = m := by
  refine Finmap.ext_lookup fun x => ?_
  by_cases hx : x = k
  · rw [hx, Finmap.lookup_erase, Finmap.lookup_eq_none.2 hk]
  · rw [Finmap.lookup_erase_ne hx]

end Represents

/-! ## Capacity -/

section Capacity

variable {p : HashtableProperties} {n c : ℕ}

/-- a table with as many elements as slots is grown -/
theorem loadExceeded_of_le (hc : 0 < c) (h : c ≤ n) : loadExceeded n c := by
  have hone : (1 : ℚ) ≤ single c := le_single (by exact_mod_cast hc) (fits_natCast (n := 1) (by decide))
  have hle : single c ≤ single n := single_mono (by exact_mod_cast h)
  have hquot : (1 : ℚ) ≤ single n / single c := (one_le_div (by linarith)).2 hle
  have hround : (1 : ℚ) ≤ single (single n / single c) := le_single hquot (fits_natCast (n := 1) (by decide))
  unfold loadExceeded
  linarith

/-- and one without elements is not -/
theorem pos_of_loadExceeded (h : loadExceeded n c) : 0 < n := by
  rw [Nat.pos_iff_ne_zero]
  rintro rfl
  unfold loadExceeded at h
  rw [Nat.cast_zero, single_zero, zero_div, single_zero] at h
  norm_num at h

theorem tarLoadFactor_eq : tarLoadFactor = 11744051 / 2 ^ 25 := by
  have hnear : nearestEven ((35 / 100 : ℚ) / 2 ^ (-2 + 1 - (24 : ℕ) : ℤ)) = 11744051 := by
    apply nearestEven_eq
    norm_num [abs_lt]
  rw [tarLoadFactor, single, rounded_of_bounds (k := -2) (by norm_num) (by norm_num) (by decide), hnear]
  norm_num

/-- the quotient is not below the element count -/
theorem le_targetLoad (n : ℕ) : (n : ℚ) ≤ targetLoad n := by
  rcases Nat.eq_zero_or_pos n with rfl | hn
  · rw [targetLoad, Nat.cast_zero, single_zero, zero_div, single_zero]
  · -- one power of two below the count, the next one above it
    have hlow : (2 : ℚ) ^ (n.log2 : ℤ) ≤ n := by exact_mod_cast Nat.log2_self_le hn.ne'
    have hhigh : (n : ℚ) ≤ 2 ^ ((n.log2 : ℤ) + 1) := by exact_mod_cast Nat.lt_log2_self.le
    have hsingle : (2 : ℚ) ^ (n.log2 : ℤ) ≤ single n := le_single hlow (fits_two_zpow (by decide) (by omega))
    refine hhigh.trans (le_single ?_ (fits_two_zpow (by decide) (by omega)))
    rw [tarLoadFactor_eq, le_div_iff₀ (by norm_num), zpow_add_one₀ two_ne_zero]
    have hpos : (0 : ℚ) < 2 ^ (n.log2 : ℤ) := by positivity
    linarith

theorem single_growLimit : single growLimit = 1503238528 := by
  have hnear : nearestEven ((growLimit : ℚ) / 2 ^ (30 + 1 - (24 : ℕ) : ℤ)) = 11744051 := by
    apply nearestEven_eq
    norm_num [growLimit, abs_lt]
  rw [single, rounded_of_bounds (k := 30) (by norm_num [growLimit]) (by norm_num [growLimit]) (by decide), hnear]
  norm_num

/-- the last count below the limit lies in the middle, and is rounded down -/
theorem single_pred_growLimit : single (growLimit - 1 : ℕ) = 1503238400 := by
  have hmiddle : ((growLimit - 1 : ℕ) : ℚ) / 2 ^ (30 + 1 - (24 : ℕ) : ℤ) = ((11744050 : ℤ) : ℚ) + 1 / 2 := by
    norm_num [growLimit]
  rw [single, rounded_of_bounds (k := 30) (by norm_num [growLimit]) (by norm_num [growLimit]) (by decide), hmiddle,
    nearestEven_middle (by decide)]
  norm_num

theorem targetLoad_lt_iff : targetLoad n < 2 ^ 32 ↔ n < growLimit := by
  constructor
  · intro h
    by_contra hge
    have hsingle : single growLimit ≤ single n := single_mono (by exact_mod_cast not_lt.1 hge)
    rw [single_growLimit] at hsingle
    have hquot : (2 : ℚ) ^ (32 : ℤ) ≤ single n / tarLoadFactor := by
      rw [tarLoadFactor_eq, le_div_iff₀ (by norm_num)]
      refine le_trans ?_ hsingle
      norm_num
    have hround : (2 : ℚ) ^ (32 : ℤ) ≤ targetLoad n := le_single hquot (fits_two_zpow (by decide) (by decide))
    exact absurd h (not_lt.2 hround)
  · intro h
    have hsingle : single n ≤ single (growLimit - 1 : ℕ) := single_mono (by exact_mod_cast Nat.le_pred_of_lt h)
    rw [single_pred_growLimit] at hsingle
    -- the greatest number of the format below the power of two
    have hfits : Lib.Fits 24 (-149) ((2 ^ 24 - 1) * 2 ^ 8) := ⟨2 ^ 24 - 1, 8, by norm_num, by decide, by decide⟩
    have hquot : single n / tarLoadFactor ≤ (2 ^ 24 - 1) * 2 ^ 8 := by
      rw [tarLoadFactor_eq, div_le_iff₀ (by norm_num)]
      refine hsingle.trans ?_
      norm_num
    refine (single_le hquot hfits).trans_lt ?_
    norm_num

/-- a new capacity has room for all elements, within the limits -/
theorem newCapacity_some (h : newCapacity p n = some c) :
    (n ≤ p.maxCap → n ≤ c) ∧ (p.minCap < 2 ^ 32 → p.maxCap < 2 ^ 32 → c < 2 ^ 32) := by
  unfold newCapacity at h
  split_ifs at h
  cases h
  have hfloor : n ≤ ⌊targetLoad n⌋₊ := Nat.le_floor (le_targetLoad n)
  refine ⟨fun hmax => ?_, fun hmin hmax => ?_⟩
  · exact le_trans (le_min hfloor hmax) (le_max_left _ _)
  · exact max_lt (lt_of_le_of_lt (min_le_right _ _) hmax) hmin

/-- below the limit there is a new capacity -/
theorem exists_newCapacity (p : HashtableProperties) (h : n < growLimit) : ∃ c, newCapacity p n = some c :=
  ⟨_, if_pos (targetLoad_lt_iff.2 h)⟩

end Capacity

/-! ## The operations -/

section Release

variable [Inhabited K] [Inhabited V] {ht : Hashtable K V}

/-- a slot that is released holds its pair no more, and the counters stay right -/
theorem releaseSlot_inv (h : HtInv ht) {i : ℕ} (hi : i < ht.currCap) (hused : (slot ht.elemArray i).isUsed = true) :
    HtInv (releaseSlot ht i) ∧
      ((slot ht.elemArray i).regPair :: stored (releaseSlot ht i).elemArray).Perm (stored ht.elemArray) := by
  have hil : i < ht.elemArray.length := h.length.symm ▸ hi
  have hfree : entry { slot ht.elemArray i with isUsed := false } = none := entry_of_free rfl
  have hold : entry ht.elemArray[i] = some (slot ht.elemArray i).regPair := by
    rw [← slot_eq hil]
    exact entry_of_used hused
  have hperm : ((slot ht.elemArray i).regPair :: stored (releaseSlot ht i).elemArray).Perm (stored ht.elemArray) :=
    contents_drop hil hold hfree
  have hkeys := (hperm.map HashtablePair.keyVal).nodup_iff.2 h.keys
  have hlength := hperm.length_eq
  have hcount := h.count
  have hbound := h.bound
  have hlt := h.cap_lt
  rw [List.length_cons] at hlength
  have hnew : sub32 ht.elemCount 1 = (stored (releaseSlot ht i).elemArray).length := by
    rw [sub32_of_le (by omega) (by omega)]
    omega
  refine ⟨⟨List.length_set.trans h.length, (List.nodup_cons.1 hkeys).2, hnew, hnew.trans_le ?_, h.cap_pos, hlt⟩, hperm⟩
  exact (by omega : (stored (releaseSlot ht i).elemArray).length ≤ ht.currCap)

end Release

section Ops

variable [DecidableEq K] [Inhabited K] [Inhabited V] {H : HashFn K} {p : HashtableProperties} {ht : Hashtable K V}
  {m : Map K V}

/-- a key is found exactly if it is in the map, and in a slot that holds it -/
theorem locKey_cases (hlen : ht.elemArray.length = ht.currCap) (hpos : 0 < ht.currCap) (hlt : ht.currCap < 2 ^ 32)
    (hrep : Represents ht.elemArray m) (k : K) :
    (k ∈ m ∧ ∃ i < ht.currCap, locKey H ht.currCap ht.elemArray k = i ∧ i ≠ uint32Max ∧
      (slot ht.elemArray i).isUsed = true ∧ (slot ht.elemArray i).regPair.keyVal = k ∧
      m.lookup k = some (slot ht.elemArray i).regPair.valuePtr) ∨
    (k ∉ m ∧ locKey H ht.currCap ht.elemArray k = uint32Max) := by
  rcases locKey_spec H hlen hpos k with ⟨hi, hused, hkey⟩ | ⟨heq, hnone⟩
  · left
    set i := locKey H ht.currCap ht.elemArray k
    have hmem : (slot ht.elemArray i).regPair ∈ stored ht.elemArray :=
      mem_stored.2 ⟨i, hlen.symm ▸ hi, hused, rfl⟩
    have hlook := hrep.lookup hmem
    rw [hkey] at hlook
    refine ⟨Finmap.mem_of_lookup_eq_some hlook, i, hi, rfl, ?_, hused, hkey, hlook⟩
    unfold uint32Max
    omega
  · right
    refine ⟨fun hk => ?_, heq⟩
    obtain ⟨q, hq, hqk⟩ := hrep.mem_iff.1 hk
    exact hnone q hq hqk

theorem hashtableContains_eq (hlen : ht.elemArray.length = ht.currCap) (hpos : 0 < ht.currCap)
    (hlt : ht.currCap < 2 ^ 32) (hrep : Represents ht.elemArray m) (k : K) :
    hashtableContains H ht k = decide (k ∈ m) := by
  unfold hashtableContains
  rcases locKey_cases (H := H) hlen hpos hlt hrep k with ⟨hk, i, -, heq, hne, -⟩ | ⟨hk, heq⟩
  · rw [heq]
    simp [hk, hne]
  · rw [heq]
    simp [hk]

/-- the insertion loop adds the pairs whose keys are new, if there is room for all -/
theorem insertPairs_spec (pairs : List (HashtablePair K V)) (added : ℕ) {ht : Hashtable K V} {m : Map K V}
    (hlen : ht.elemArray.length = ht.currCap) (hpos : 0 < ht.currCap) (hlt : ht.currCap < 2 ^ 32)
    (hrep : Represents ht.elemArray m) (hroom : (stored ht.elemArray).length + pairs.length ≤ ht.currCap)
    (hadded : added + pairs.length < 2 ^ 32) :
    ∃ n elems, insertPairs H pairs added ht = some (added + n, { ht with elemArray := elems }) ∧
      elems.length = ht.currCap ∧ (stored elems).length = (stored ht.elemArray).length + n ∧ n ≤ pairs.length ∧
      Represents elems (pairs.foldl insertNew m) := by
  induction pairs generalizing added ht m with
  | nil => exact ⟨0, ht.elemArray, rfl, hlen, rfl, le_rfl, hrep⟩
  | cons q pairs ih =>
    rw [List.length_cons] at hroom hadded
    have hcont := hashtableContains_eq (H := H) hlen hpos hlt hrep q.keyVal
    rw [insertPairs, hcont, List.foldl_cons]
    by_cases hk : q.keyVal ∈ m
    · rw [if_pos (decide_eq_true hk), insertNew, if_pos hk]
      obtain ⟨n, elems, hrun, hl, hc, hn, hr⟩ := ih added hlen hpos hlt hrep (by omega) (by omega)
      exact ⟨n, elems, hrun, hl, hc, by rw [List.length_cons]; omega, hr⟩
    · obtain ⟨elems₁, hins, hlen₁, hperm⟩ :=
        robinHoodInsertSingle_spec H hlen (by omega : (stored ht.elemArray).length < ht.currCap) q
      have hcount := hperm.length_eq
      rw [List.length_cons] at hcount
      have hrep₁ : Represents elems₁ (insertNew m q) := by
        rw [insertNew, if_neg hk]
        exact hrep.insert hperm hk
      rw [if_neg (by simpa using hk), hins]
      set ht₁ : Hashtable K V := { ht with elemArray := elems₁ }
      have hcap : ht₁.currCap = ht.currCap := rfl
      have hlen' : ht₁.elemArray.length = ht₁.currCap := hlen₁
      have hrep' : Represents ht₁.elemArray (insertNew m q) := hrep₁
      have hstored : (stored ht₁.elemArray).length = (stored ht.elemArray).length + 1 := hcount
      obtain ⟨n, elems, hrun, hl, hc, hn, hr⟩ :=
        ih (added + 1) hlen' hpos hlt hrep' (by omega) (by omega)
      refine ⟨n + 1, elems, ?_, hl, ?_, by rw [List.length_cons]; omega, hr⟩
      · dsimp only
        rw [u32_of_lt (by omega), hrun, Nat.add_assoc, Nat.add_comm 1 n]
      · omega

/-- the last part of an insertion, in a table with room for all pairs -/
theorem insertAndCount_spec (hs : Simulates p ht m) (pairs : List (HashtablePair K V))
    (hroom : ht.elemCount + pairs.length ≤ ht.currCap) :
    ∃ ht', insertAndCount H pairs ht = some (.ok, ht') ∧ Simulates p ht' (pairs.foldl insertNew m) := by
  obtain ⟨hprops, hinv, hrep⟩ := hs
  have hlt := hinv.cap_lt
  have hcount := hinv.count
  obtain ⟨n, elems, hrun, hl, hc, hn, hr⟩ := insertPairs_spec (H := H) pairs 0 hinv.length hinv.cap_pos hinv.cap_lt hrep
    (by omega) (by omega)
  have hnew : u32 (ht.elemCount + (0 + n)) = (stored elems).length := by
    rw [u32_of_lt (by omega)]
    omega
  refine ⟨{ ht with elemCount := u32 (ht.elemCount + (0 + n)), elemArray := elems }, ?_, hprops, ?_, hr⟩
  · rw [insertAndCount, hrun]
    rfl
  · exact ⟨hl, hr.keys_nodup, hnew, hnew.trans_le ((length_stored_le elems).trans_eq hl), hinv.cap_pos, hlt⟩

theorem checkedUint32Add_of_lt {a b : ℕ} (h : a + b < 2 ^ 32) : checkedUint32Add a b = (true, a + b) := by
  have hle : b ≤ uint32Max - a := by
    unfold uint32Max
    omega
  rw [checkedUint32Add, u32_of_lt h, decide_eq_true hle]

theorem checkedUint32Add_wraps {a b : ℕ} (ha : a < 2 ^ 32) (h : 2 ^ 32 ≤ a + b) : (checkedUint32Add a b).1 = false := by
  refine decide_eq_false ?_
  unfold uint32Max
  omega

theorem hashtableInsertMulti_spec (hmin : p.minCap < 2 ^ 32) (hmax : p.maxCap < 2 ^ 32) (hs : Simulates p ht m)
    {pairs : List (HashtablePair K V)} (hfits : InsertFits ht pairs.length) (heap : Bool) :
    ∃ c ht' m', hashtableInsertMulti H ht pairs heap = some (c, ht') ∧ InsertSpec p.maxCap m pairs heap (.code c) m' ∧
      Simulates p ht' m' := by
  have hpos := hs.inv.cap_pos
  have hbound := hs.inv.bound
  have hlt := hs.inv.cap_lt
  have hcard : ht.elemCount = m.keys.card := hs.inv.count.trans hs.rep.card
  unfold InsertFits at hfits
  rw [hs.props] at hfits
  unfold hashtableInsertMulti InsertSpec
  rw [← hcard, hs.props]
  by_cases hlimit : p.maxCap < ht.elemCount + pairs.length ∨ 2 ^ 32 ≤ ht.elemCount + pairs.length
  · -- the limit is exceeded, or the sum wraps
    have hcond : (checkedUint32Add ht.elemCount pairs.length).1 = false ∨
        p.maxCap < (checkedUint32Add ht.elemCount pairs.length).2 := by
      by_cases hwrap : 2 ^ 32 ≤ ht.elemCount + pairs.length
      · exact Or.inl (checkedUint32Add_wraps (by omega) hwrap)
      · rw [checkedUint32Add_of_lt (by omega)]
        exact Or.inr (by omega)
    exact ⟨_, ht, m, if_pos hcond, by rw [if_pos hlimit]; exact ⟨rfl, rfl⟩, hs⟩
  · rw [checkedUint32Add_of_lt (by omega)]
    dsimp only
    rw [if_neg (by simp only [Bool.true_eq_false, false_or]; omega)]
    simp only [if_neg hlimit]
    by_cases hload : loadExceeded (ht.elemCount + pairs.length) ht.currCap
    · obtain ⟨newCap, hcap⟩ := exists_newCapacity p (hfits (by omega) hload)
      rw [if_pos hload, hcap, Option.bind_some]
      have hroom : ht.elemCount + pairs.length ≤ newCap := (newCapacity_some hcap).1 (by omega)
      have hsome := pos_of_loadExceeded hload
      rcases adjustCapacity_spec H hs.inv.count (by omega) (by omega : ht.elemCount ≤ newCap) heap with
        ⟨hheap, hadj⟩ | ⟨new, hadj, hlen, hperm⟩
      · rw [hadj]
        exact ⟨_, ht, m, rfl, Or.inr ⟨hheap, rfl, rfl⟩, hs⟩
      · rw [hadj]
        have hrep := hs.rep.perm hperm
        have hsim : Simulates p { ht with currCap := newCap, elemArray := new } m :=
          ⟨hs.props, ⟨hlen, hrep.keys_nodup, hs.inv.count.trans hperm.length_eq.symm, by dsimp only; omega,
            by dsimp only; omega, (newCapacity_some hcap).2 hmin hmax⟩, hrep⟩
        obtain ⟨ht', hrun, hs'⟩ := insertAndCount_spec (H := H) hsim pairs hroom
        exact ⟨.ok, ht', _, hrun, Or.inl ⟨rfl, rfl⟩, hs'⟩
    · rw [if_neg hload]
      have hless := mt (loadExceeded_of_le hpos) hload
      obtain ⟨ht', hrun, hs'⟩ := insertAndCount_spec (H := H) hs pairs (by omega)
      exact ⟨.ok, ht', _, hrun, Or.inl ⟨rfl, rfl⟩, hs'⟩

/-- taking a pair out of its slot -/
theorem releaseSlot_sim (hs : Simulates p ht m) {i : ℕ} (hi : i < ht.currCap)
    (hused : (slot ht.elemArray i).isUsed = true) :
    Simulates p (releaseSlot ht i) (m.erase (slot ht.elemArray i).regPair.keyVal) := by
  obtain ⟨hinv, hperm⟩ := releaseSlot_inv hs.inv hi hused
  exact ⟨hs.props, hinv, hs.rep.erase hperm⟩

theorem locKey_sim (hs : Simulates p ht m) (k : K) :
    (k ∈ m ∧ ∃ i < ht.currCap, locKey H ht.currCap ht.elemArray k = i ∧ i ≠ uint32Max ∧
      (slot ht.elemArray i).isUsed = true ∧ (slot ht.elemArray i).regPair.keyVal = k ∧
      m.lookup k = some (slot ht.elemArray i).regPair.valuePtr) ∨
    (k ∉ m ∧ locKey H ht.currCap ht.elemArray k = uint32Max) :=
  locKey_cases hs.inv.length hs.inv.cap_pos hs.inv.cap_lt hs.rep k

theorem hashtableErase_spec (hs : Simulates p ht m) (k : K) :
    (hashtableErase H ht k).1 = (if k ∈ m then .ok else .itemNotFound) ∧
      Simulates p (hashtableErase H ht k).2.2 (m.erase k) := by
  unfold hashtableErase
  rcases locKey_sim (H := H) hs k with ⟨hk, i, hi, heq, hne, hused, hkey, -⟩ | ⟨hk, heq⟩
  · rw [heq, if_neg hne, if_pos hk]
    refine ⟨rfl, ?_⟩
    rw [← hkey]
    exact releaseSlot_sim hs hi hused
  · rw [heq, if_pos rfl, if_neg hk, erase_of_notMem hk]
    exact ⟨rfl, hs⟩

theorem hashtableExtract_spec (hs : Simulates p ht m) (k : K) :
    (hashtableExtract H ht k).1 = (if k ∈ m then .ok else .itemNotFound) ∧
      (hashtableExtract H ht k).2.1 = m.lookup k ∧ Simulates p (hashtableExtract H ht k).2.2.2 (m.erase k) := by
  unfold hashtableExtract
  rcases locKey_sim (H := H) hs k with ⟨hk, i, hi, heq, hne, hused, hkey, hlook⟩ | ⟨hk, heq⟩
  · rw [heq, if_neg hne, if_pos hk]
    refine ⟨rfl, hlook.symm, ?_⟩
    rw [← hkey]
    exact releaseSlot_sim hs hi hused
  · rw [heq, if_pos rfl, if_neg hk, erase_of_notMem hk]
    exact ⟨rfl, (Finmap.lookup_eq_none.2 hk).symm, hs⟩

theorem hashtableAt_spec (hs : Simulates p ht m) (k : K) :
    hashtableAt H ht k = (if k ∈ m then .ok else .itemNotFound, m.lookup k) := by
  unfold hashtableAt
  rcases locKey_sim (H := H) hs k with ⟨hk, i, -, heq, hne, -, -, hlook⟩ | ⟨hk, heq⟩
  · rw [heq, if_neg hne, if_pos hk, hlook]
  · rw [heq, if_pos rfl, if_neg hk, Finmap.lookup_eq_none.2 hk]

end Ops

/-! ## Iteration -/

section Visit

variable {fnIter : List (HashtablePair K V) → HashtablePair K V → NkErrorCode}

/-- the loop visits the stored pairs in the order of their slots -/
theorem forEachLoop_eq (elems : List (HashtableExtPair K V)) (code : NkErrorCode) (visited : List (HashtablePair K V)) :
    forEachLoop fnIter elems code visited = visit fnIter (stored elems) code visited := by
  induction elems generalizing code visited with
  | nil => rfl
  | cons s rest ih =>
    cases hused : s.isUsed with
    | false =>
      have hstored : stored (s :: rest) = stored rest := List.filterMap_cons_none (entry_of_free hused)
      rw [forEachLoop, if_pos hused, hstored, ih]
    | true =>
      have hstored : stored (s :: rest) = s.regPair :: stored rest := List.filterMap_cons_some (entry_of_used hused)
      rw [forEachLoop, if_neg (by rw [hused]; decide), hstored, visit, ih]

/-- an iteration that ends with `NkErr_Ok` has visited everything -/
theorem visit_ok (todo : List (HashtablePair K V)) (code : NkErrorCode) (visited : List (HashtablePair K V))
    (h : (visit fnIter todo code visited).1 = .ok) : (visit fnIter todo code visited).2 = visited ++ todo := by
  induction todo generalizing code visited with
  | nil => exact (List.append_nil _).symm
  | cons q todo ih =>
    rw [visit] at h ⊢
    split_ifs at h ⊢ with hcode
    · exact absurd h hcode
    · rw [ih _ _ h, List.append_assoc]
      rfl

theorem hashtableForEach_eq {ht : Hashtable K V} (h : ht.elemCount = (stored ht.elemArray).length) :
    hashtableForEach ht fnIter = visit fnIter (stored ht.elemArray) .noOperation [] := by
  unfold hashtableForEach
  split_ifs with hpos
  · exact forEachLoop_eq _ _ _
  · have hnil : stored ht.elemArray = [] := List.length_eq_zero_iff.1 (by omega)
    rw [hnil]
    rfl

end Visit

/-! ## Runs -/

section Runs

variable [Inhabited K] [Inhabited V] {p : HashtableProperties} {ht : Hashtable K V} {m : Map K V}

theorem simulates_create (hpos : 0 < p.initCap) (hlt : p.initCap < 2 ^ 32) :
    Simulates p (hashtableCreate p : Hashtable K V) ∅ := by
  have hempty := stored_replicate (K := K) (V := V) p.initCap
  have hrep : Represents (hashtableCreate p : Hashtable K V).elemArray ∅ := by
    unfold Represents Enumerates hashtableCreate
    rw [hempty]
    rfl
  refine ⟨rfl, ⟨List.length_replicate, hrep.keys_nodup, ?_, Nat.zero_le _, hpos, hlt⟩, hrep⟩
  unfold hashtableCreate
  rw [hempty]
  rfl

variable [DecidableEq K]

/-- every call that fits returns what the map returns -/
theorem htStep_sim (H : HashFn K) (hmin : p.minCap < 2 ^ 32) (hmax : p.maxCap < 2 ^ 32) (hs : Simulates p ht m) {o : HtOp K V} (ho : Fits ht o) :
    ∃ r ht' m', htStep H ht o = some (r, ht') ∧ MapSpec p.maxCap m o r m' ∧ Simulates p ht' m' := by
  cases o with
  | insert pair heap =>
    have ho' : InsertFits ht [pair].length := ho
    obtain ⟨c, ht', m', hrun, hspec, hs'⟩ := hashtableInsertMulti_spec (H := H) hmin hmax hs ho' heap
    exact ⟨.code c, ht', m', by rw [htStep, hashtableInsert, hrun]; rfl, hspec, hs'⟩
  | insertMulti pairs heap =>
    obtain ⟨c, ht', m', hrun, hspec, hs'⟩ := hashtableInsertMulti_spec (H := H) hmin hmax hs ho heap
    exact ⟨.code c, ht', m', by rw [htStep, hrun]; rfl, hspec, hs'⟩
  | erase k =>
    obtain ⟨hcode, hs'⟩ := hashtableErase_spec (H := H) hs k
    exact ⟨_, _, _, rfl, ⟨by rw [hcode], rfl⟩, hs'⟩
  | extract k =>
    obtain ⟨hcode, hval, hs'⟩ := hashtableExtract_spec (H := H) hs k
    exact ⟨_, _, _, rfl, ⟨by rw [hcode, hval], rfl⟩, hs'⟩
  | at_ k => exact ⟨_, _, m, rfl, ⟨by rw [hashtableAt_spec hs], rfl⟩, hs⟩
  | contains k =>
    have hcont := hashtableContains_eq (H := H) hs.inv.length hs.inv.cap_pos hs.inv.cap_lt hs.rep k
    exact ⟨_, _, m, rfl, ⟨by rw [hcont], rfl⟩, hs⟩
  | count => exact ⟨_, _, m, rfl, ⟨by rw [hashtableCount, hs.inv.count, hs.rep.card], rfl⟩, hs⟩
  | forEach fnIter =>
    refine ⟨_, _, m, rfl, ⟨rfl, stored ht.elemArray, hs.rep, by rw [hashtableForEach_eq hs.inv.count], fun hok => ?_⟩, hs⟩
    rw [visit_ok _ _ _ hok]
    exact hs.rep

/-- Every run of calls on a new table returns from every call with the results of a finite map and ends in a table that
holds that map, if no insertion of the run grows the table for 1503238465 elements or more. -/
theorem map_run (H : HashFn K) (hp : ValidProps p) {ops : List (HtOp K V)}
    (hfits : AllOk (htStep H) Fits (hashtableCreate p) ops) :
    ∃ rs ht m, outputs (htStep H) (hashtableCreate p) ops = some (rs, ht) ∧ SpecRun (MapSpec p.maxCap) ∅ ops rs m ∧
      Simulates p ht m :=
  simulates_run (fun _ _ _ hs ho => htStep_sim H (hp.minCap.2.trans_lt hp.maxCap) hp.maxCap hs ho)
    (simulates_create hp.initCap.1 hp.initCap.2) hfits

end Runs

/-- keys are numbers, hashed by their remainder -/
def modHash : HashFn ℕ := ⟨fun k cap => k % cap, fun k _ h => Nat.mod_lt k h⟩

/-- a table that starts with one slot and may grow without limit -/
def growingProps : HashtableProperties := ⟨1, 1, 2 ^ 32 - 1, .uint64, true⟩

theorem validProps_growing : ValidProps growingProps := ⟨by decide, by decide, by decide⟩

/-- a pair is inserted and found -/
theorem map_run_insert : ∃ rs ht m, outputs (htStep modHash) (hashtableCreate growingProps)
    [.insert (⟨5, 7⟩ : HashtablePair ℕ ℕ) true, .at_ 5] = some (rs, ht) ∧
    SpecRun (MapSpec growingProps.maxCap) ∅ [.insert (⟨5, 7⟩ : HashtablePair ℕ ℕ) true, .at_ 5] rs m ∧
    Simulates growingProps ht m := by
  refine map_run modHash validProps_growing ⟨fun _ _ => ?_, fun _ _ => ⟨trivial, fun _ _ => trivial⟩⟩
  decide

/-- the pairs of an array with two different keys; the second pair is repeated so often that the quotient does not fit -/
def manyPairs : List (HashtablePair ℕ ℕ) := ⟨0, 0⟩ :: List.replicate (growLimit - 1) ⟨1, 0⟩

theorem length_manyPairs : manyPairs.length = growLimit := by
  rw [manyPairs, List.length_cons, List.length_replicate]
  rfl

/-- the new capacity cannot be computed -/
theorem insertMulti_many : hashtableInsertMulti modHash (hashtableCreate growingProps) manyPairs true = none := by
  have hload : loadExceeded growLimit 1 := loadExceeded_of_le (by decide) (by decide)
  have hcap : newCapacity growingProps growLimit = none := if_neg (mt targetLoad_lt_iff.1 (lt_irrefl _))
  have hsum : checkedUint32Add (hashtableCreate growingProps : Hashtable ℕ ℕ).elemCount growLimit = (true, growLimit) :=
    checkedUint32Add_of_lt (by decide)
  have hone : (hashtableCreate growingProps : Hashtable ℕ ℕ).currCap = 1 := rfl
  have hprops : (hashtableCreate growingProps : Hashtable ℕ ℕ).htProps = growingProps := rfl
  unfold hashtableInsertMulti
  rw [length_manyPairs, hsum, hone, hprops]
  dsimp only
  rw [if_neg (by decide), if_pos hload, hcap]
  rfl

/-- without the condition, a call on a new table does not return -/
theorem map_lost : ValidProps growingProps ∧ ¬ ∀ ops : List (HtOp ℕ ℕ), ∃ rs ht m,
    outputs (htStep modHash) (hashtableCreate growingProps) ops = some (rs, ht) ∧
    SpecRun (MapSpec growingProps.maxCap) ∅ ops rs m ∧ Simulates growingProps ht m := by
  refine ⟨validProps_growing, fun hall => ?_⟩
  obtain ⟨rs, ht, m, hrun, -⟩ := hall [.insertMulti manyPairs true]
  rw [outputs, htStep, insertMulti_many] at hrun
  cases hrun

end Noriko.Dstruct
