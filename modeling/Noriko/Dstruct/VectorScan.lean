/-
Walking through a vector without changing it (`NkVectorForEach`, `NkVectorFindIf`, `NkVectorFind` and `NkVectorFilter` of
`dstruct/vector.c`).

All three loops have the wrong bound or step. `NkVectorForEach` includes the end of its window, so it goes one element too
far unless a callback stops it (`forEach_iff`). `NkVectorFindIf` never moves its index: it looks at the first element of
the range only, for ever if that is no match, and at none if the range has one element (`find_iff`). `NkVectorFilter`
takes `maxN` for the end of the window instead of its length, so it misses matches from index `maxN` on (`filter_iff`).

Elements are pointers, and `0` is `NULL`. A callback may depend on the calls made before it; a predicate is a function of
the element and its index.
-/
import Noriko.Dstruct.Vector

namespace Noriko.Dstruct

open Lib

variable {E : Type}

/-! ## The code -/

/-- the loop of `NkVectorForEach`, with at most `rounds` rounds: the code, and the elements the callback was called on with
their indices -/
def vecForEachLoop (fnCallback : List (E × ℕ) → E → ℕ → NkErrorCode) (mem : ℕ → E) (stop : ℕ) :
    ℕ → ℕ → List (E × ℕ) → Option (NkErrorCode × List (E × ℕ))
  | rounds, i, visited =>
    if i ≤ stop then
      match rounds with
      | 0 => none
      | rounds + 1 =>
        if fnCallback visited (mem i) i ≠ .ok then some (fnCallback visited (mem i) i, visited ++ [(mem i, i)])
        else vecForEachLoop fnCallback mem stop rounds (u64 (i + 1)) (visited ++ [(mem i, i)])
    else some (.ok, visited)

/-- `NkVectorForEach`, if it returns within the given number of rounds -/
def vectorForEach (v : Vector E) (sInd maxN : ℕ) (fnCallback : List (E × ℕ) → E → ℕ → NkErrorCode) (rounds : ℕ) :
    Option (NkErrorCode × List (E × ℕ)) :=
  let realCount := min maxN (sub64 v.elemCount sInd)
  vecForEachLoop fnCallback v.dataPtr.mem (u64 (sInd + realCount)) rounds sInd []

/-- the loop of `NkVectorFindIf`, with at most `rounds` rounds; nothing changes `i` -/
def findLoop [Zero E] (fnPred : E → ℕ → Bool) (mem : ℕ → E) (isLeftToRight : Bool) (endIndex : ℕ) :
    ℕ → ℕ → Option E
  | rounds, i =>
    if (if isLeftToRight then i < endIndex else i > endIndex) then
      match rounds with
      | 0 => none
      | rounds + 1 =>
        if fnPred (mem i) i then some (mem i) else findLoop fnPred mem isLeftToRight endIndex rounds i
    else some 0

/-- `NkVectorFindIf`, if it returns within the given number of rounds -/
def vectorFindIf [Zero E] (v : Vector E) (sInd eInd : ℕ) (isLeftToRight : Bool) (fnPred : E → ℕ → Bool) (rounds : ℕ) :
    Option E :=
  let startIndex := if isLeftToRight then sInd else eInd
  let endIndex := if isLeftToRight then eInd else sInd
  findLoop fnPred v.dataPtr.mem isLeftToRight endIndex rounds startIndex

/-- `__NkInt_VectorDefaultPred` -/
def vectorDefaultPred [DecidableEq E] (extraParam : E) (elemPtr : E) (_ : ℕ) : Bool := decide (elemPtr = extraParam)

/-- `NkVectorFind` -/
def vectorFind [Zero E] [DecidableEq E] (v : Vector E) (elemPtr : E) (sInd eInd : ℕ) (isLeftToRight : Bool) (rounds : ℕ) :
    Option E :=
  vectorFindIf v sInd eInd isLeftToRight (vectorDefaultPred elemPtr) rounds

/-- the caller's array while `NkVectorFilter` fills it, and the slots that were written -/
structure FilterState (E : Type) where
  sub : ℕ → E
  outIndex : ℕ
  written : List ℕ

/-- one round of `NkVectorFilter` -/
def filterRound (fnPred : E → ℕ → Bool) (mem : ℕ → E) (s : FilterState E) (i : ℕ) : FilterState E :=
  if fnPred (mem i) i then
    ⟨Function.update s.sub s.outIndex (mem i), u64 (s.outIndex + 1), s.written ++ [s.outIndex]⟩
  else s

/-- `NkVectorFilter`: the caller's array and the slots that were written -/
def vectorFilter [Zero E] (v : Vector E) (sInd maxN : ℕ) (sub : ℕ → E) (fnPred : E → ℕ → Bool) : (ℕ → E) × List ℕ :=
  let s := (upto sInd (min maxN v.elemCount)).foldl (filterRound fnPred v.dataPtr.mem) ⟨sub, 0, []⟩
  let zeroed := u64 (sub64 maxN s.outIndex * ptrBytes) / ptrBytes
  (blit s.sub s.outIndex (fun _ => 0) zeroed, s.written ++ List.range' s.outIndex zeroed)

/-! ## Iteration -/

section ForEach

variable {v : Vector E} {sInd maxN : ℕ} {fnCallback : List (E × ℕ) → E → ℕ → NkErrorCode}

/-- the number of elements in the window -/
def windowCount (v : Vector E) (sInd maxN : ℕ) : ℕ := min maxN (v.elemCount - sInd)

/-- the first `k` elements from `sInd` on, with their indices -/
def visits (v : Vector E) (sInd k : ℕ) : List (E × ℕ) := (List.range k).map fun j => (v.dataPtr.mem (sInd + j), sInd + j)

/-- what the callback returns for element `k` of the window, if it was called on those before it -/
def answer (fnCallback : List (E × ℕ) → E → ℕ → NkErrorCode) (v : Vector E) (sInd k : ℕ) : NkErrorCode :=
  fnCallback (visits v sInd k) (v.dataPtr.mem (sInd + k)) (sInd + k)

/-- the call returns; it stopped at the first element of the window whose callback failed, with its code, or it went
through the window; no element from the count on was read -/
def ForEachRight (v : Vector E) (sInd maxN : ℕ) (fnCallback : List (E × ℕ) → E → ℕ → NkErrorCode) : Prop :=
  ∃ rounds code visited, vectorForEach v sInd maxN fnCallback rounds = some (code, visited) ∧
    (∀ x ∈ visited, x.2 < v.elemCount) ∧
    ((∃ k < windowCount v sInd maxN, (∀ j < k, answer fnCallback v sInd j = .ok) ∧ answer fnCallback v sInd k ≠ .ok ∧
        code = answer fnCallback v sInd k ∧ visited = visits v sInd (k + 1)) ∨
      ((∀ j < windowCount v sInd maxN, answer fnCallback v sInd j = .ok) ∧ code = .ok ∧
        visited = visits v sInd (windowCount v sInd maxN)))

theorem length_visits (v : Vector E) (sInd k : ℕ) : (visits v sInd k).length = k := by
  simp [visits]

theorem visits_succ (v : Vector E) (sInd k : ℕ) :
    visits v sInd (k + 1) = visits v sInd k ++ [(v.dataPtr.mem (sInd + k), sInd + k)] := by
  simp [visits, List.range_succ]

/-- one round on element `k`, after rounds on all before it -/
theorem vecForEachLoop_round {stop k : ℕ} (hk : sInd + k ≤ stop) (rounds : ℕ) :
    vecForEachLoop fnCallback v.dataPtr.mem stop (rounds + 1) (sInd + k) (visits v sInd k) =
      if answer fnCallback v sInd k ≠ .ok then some (answer fnCallback v sInd k, visits v sInd (k + 1))
      else vecForEachLoop fnCallback v.dataPtr.mem stop rounds (u64 (sInd + k + 1)) (visits v sInd (k + 1)) := by
  conv_lhs => unfold vecForEachLoop
  rw [if_pos hk, visits_succ]
  rfl

/-- callbacks that return `NkErr_Ok` lead on to the next element -/
theorem vecForEachLoop_skip {stop : ℕ} (hstop : stop < 2 ^ 64) (k : ℕ) (hk : sInd + k ≤ stop)
    (hok : ∀ j < k, answer fnCallback v sInd j = .ok) (rounds : ℕ) :
    vecForEachLoop fnCallback v.dataPtr.mem stop (rounds + k) sInd [] =
      vecForEachLoop fnCallback v.dataPtr.mem stop rounds (sInd + k) (visits v sInd k) := by
  induction k generalizing rounds with
  | zero => rfl
  | succ k ih =>
    have hnext : u64 (sInd + k + 1) = sInd + (k + 1) := u64_of_lt (by omega)
    have hrounds : rounds + (k + 1) = rounds + 1 + k := by omega
    rw [hrounds, ih (by omega) (fun j hj => hok j (by omega)), vecForEachLoop_round (by omega), hnext,
      if_neg (not_not.2 (hok k (by omega)))]

/-- what was visited stays visited -/
theorem vecForEachLoop_length {mem : ℕ → E} {stop rounds i : ℕ} {visited visited' : List (E × ℕ)} {code : NkErrorCode}
    (h : vecForEachLoop fnCallback mem stop rounds i visited = some (code, visited')) :
    visited.length ≤ visited'.length := by
  induction rounds generalizing i visited with
  | zero =>
    unfold vecForEachLoop at h
    split_ifs at h
    cases h
    exact le_rfl
  | succ rounds ih =>
    unfold vecForEachLoop at h
    split_ifs at h
    · cases h
      simp
    · have hnext := ih h
      rw [List.length_append] at hnext
      exact (Nat.le_add_right _ _).trans hnext
    · cases h
      exact le_rfl

/-- a window that no callback stops is left only after a further element -/
theorem vecForEachLoop_beyond {stop n : ℕ} (hstop : stop < 2 ^ 64) (hn : stop = sInd + n)
    (hok : ∀ j < n, answer fnCallback v sInd j = .ok) {rounds : ℕ} {code : NkErrorCode} {visited : List (E × ℕ)}
    (h : vecForEachLoop fnCallback v.dataPtr.mem stop rounds sInd [] = some (code, visited)) : n < visited.length := by
  -- if the rounds do not reach the end of the window, there is no result
  by_cases hlt : rounds ≤ n
  · exfalso
    have hskip := vecForEachLoop_skip hstop rounds (by omega) (fun j hj => hok j (by omega)) 0
    rw [Nat.zero_add, h] at hskip
    unfold vecForEachLoop at hskip
    rw [if_pos (by omega)] at hskip
    cases hskip
  · obtain ⟨more, rfl⟩ : ∃ more, rounds = more + 1 + n := ⟨rounds - n - 1, by omega⟩
    rw [vecForEachLoop_skip hstop n (by omega) hok, vecForEachLoop_round (by omega)] at h
    split_ifs at h
    · cases h
      rw [length_visits]
      exact Nat.lt_succ_self n
    · have hlen := vecForEachLoop_length h
      rw [length_visits] at hlen
      exact hlen

theorem vectorForEach_eq (hcount : v.elemCount < 2 ^ 64) (hs : sInd < v.elemCount) (rounds : ℕ) :
    vectorForEach v sInd maxN fnCallback rounds =
      vecForEachLoop fnCallback v.dataPtr.mem (sInd + windowCount v sInd maxN) rounds sInd [] := by
  have hsub : sub64 v.elemCount sInd = v.elemCount - sInd := sub64_of_le hs.le hcount
  have hstop : u64 (sInd + windowCount v sInd maxN) = sInd + windowCount v sInd maxN := by
    apply u64_of_lt
    unfold windowCount
    omega
  unfold vectorForEach
  dsimp only
  rw [hsub, ← windowCount, hstop]

/-- The iteration visits exactly its window exactly if a callback stops it there. -/
theorem forEach_iff (hcount : v.elemCount < 2 ^ 64) (hs : sInd < v.elemCount) :
    ForEachRight v sInd maxN fnCallback ↔ ∃ k < windowCount v sInd maxN, answer fnCallback v sInd k ≠ .ok := by
  have hend : sInd + windowCount v sInd maxN ≤ v.elemCount := by
    unfold windowCount
    omega
  constructor
  · rintro ⟨rounds, code, visited, hcall, -, ⟨k, hk, -, hne, -⟩ | ⟨hok, -, rfl⟩⟩
    · exact ⟨k, hk, hne⟩
    · rw [vectorForEach_eq hcount hs] at hcall
      have hlen := vecForEachLoop_beyond (by omega) rfl hok hcall
      rw [length_visits] at hlen
      exact absurd hlen (lt_irrefl _)
  · intro hstops
    -- the first callback that fails
    have hfirst := Nat.find_spec hstops
    have hbefore := fun j (hj : j < Nat.find hstops) => Nat.find_min hstops hj
    set k := Nat.find hstops
    obtain ⟨hk, hne⟩ := hfirst
    have hok : ∀ j < k, answer fnCallback v sInd j = .ok := by
      intro j hj
      by_contra hfail
      exact hbefore j hj ⟨by omega, hfail⟩
    refine ⟨1 + k, _, _, ?_, ?_, Or.inl ⟨k, hk, hok, hne, rfl, rfl⟩⟩
    · rw [vectorForEach_eq hcount hs, vecForEachLoop_skip (by omega) k (by omega) hok]
      exact (vecForEachLoop_round (by omega) 0).trans (if_pos hne)
    · intro x hx
      obtain ⟨j, hj, rfl⟩ := List.mem_map.1 hx
      rw [List.mem_range] at hj
      dsimp only
      omega

/-- two elements in a buffer for three -/
def twoElems : Vector ℕ := ⟨2, 3, ⟨40, 3, 1, 8, 2⟩, false, ⟨64, 24, fun k => 7 + k⟩⟩

/-- a callback that fails on the last element -/
theorem forEach_stopped : ForEachRight twoElems 0 2 fun _ _ i => if i = 1 then .itemNotFound else .ok := by
  apply (forEach_iff (by decide) (by decide)).2
  exact ⟨1, by decide, by decide⟩

/-- a callback that fails on no element is called on two, where one was asked for -/
theorem forEach_broken : ¬ ∀ (v : Vector ℕ) (sInd maxN : ℕ) (fnCallback : List (ℕ × ℕ) → ℕ → ℕ → NkErrorCode),
    v.elemCount < 2 ^ 64 → sInd < v.elemCount → ForEachRight v sInd maxN fnCallback := by
  intro hall
  obtain ⟨rounds, code, visited, hcall, -, ⟨k, -, -, hne, -⟩ | ⟨hok, -, rfl⟩⟩ :=
    hall twoElems 0 1 (fun _ _ _ => .ok) (by decide) (by decide)
  · exact hne rfl
  · rw [vectorForEach_eq (by decide) (by decide)] at hcall
    have hlen := vecForEachLoop_beyond (by decide) rfl hok hcall
    rw [length_visits] at hlen
    exact absurd hlen (lt_irrefl _)

end ForEach

/-! ## Searching -/

section Find

variable [Zero E] {v : Vector E} {sInd eInd : ℕ} {isLeftToRight : Bool} {fnPred : E → ℕ → Bool}

/-- the indices of the range in the order of the search -/
def scanOrder (sInd eInd : ℕ) (isLeftToRight : Bool) : List ℕ :=
  if isLeftToRight then upto sInd (eInd + 1) else (upto sInd (eInd + 1)).reverse

/-- the first match of the search, or `NULL` -/
def firstMatch (v : Vector E) (sInd eInd : ℕ) (isLeftToRight : Bool) (fnPred : E → ℕ → Bool) : E :=
  (((scanOrder sInd eInd isLeftToRight).find? fun i => fnPred (v.dataPtr.mem i) i).map v.dataPtr.mem).getD 0

/-- the search returns the first match -/
def FindsFirst (search : ℕ → Option E) (v : Vector E) (sInd eInd : ℕ) (isLeftToRight : Bool) (fnPred : E → ℕ → Bool) :
    Prop :=
  ∃ rounds, search rounds = some (firstMatch v sInd eInd isLeftToRight fnPred)

/-- the index where the search starts -/
def scanStart (sInd eInd : ℕ) (isLeftToRight : Bool) : ℕ := if isLeftToRight then sInd else eInd

/-- there are further elements and the search starts on a match, or its only element is no match or `NULL` -/
def FoundAtStart (v : Vector E) (sInd eInd : ℕ) (isLeftToRight : Bool) (fnPred : E → ℕ → Bool) : Prop :=
  (sInd < eInd ∧ fnPred (v.dataPtr.mem (scanStart sInd eInd isLeftToRight)) (scanStart sInd eInd isLeftToRight) = true) ∨
    (sInd = eInd ∧ (fnPred (v.dataPtr.mem sInd) sInd = true → v.dataPtr.mem sInd = 0))

theorem scanOrder_cons (h : sInd ≤ eInd) (isLeftToRight : Bool) :
    ∃ rest, scanOrder sInd eInd isLeftToRight = scanStart sInd eInd isLeftToRight :: rest := by
  cases isLeftToRight with
  | true => exact ⟨_, upto_cons (Nat.lt_succ_of_le h)⟩
  | false =>
    have hlast : upto sInd (eInd + 1) = upto sInd eInd ++ [eInd] := by
      have hlen : eInd + 1 - sInd = (eInd - sInd) + 1 := by omega
      have hend : sInd + (eInd - sInd) = eInd := by omega
      rw [upto, upto, hlen, List.range'_concat, Nat.one_mul, hend]
    refine ⟨(upto sInd eInd).reverse, ?_⟩
    simp [scanOrder, scanStart, hlast]

/-- a match where the search starts is the first one -/
theorem firstMatch_start (h : sInd ≤ eInd)
    (hp : fnPred (v.dataPtr.mem (scanStart sInd eInd isLeftToRight)) (scanStart sInd eInd isLeftToRight) = true) :
    firstMatch v sInd eInd isLeftToRight fnPred = v.dataPtr.mem (scanStart sInd eInd isLeftToRight) := by
  obtain ⟨rest, hcons⟩ := scanOrder_cons h isLeftToRight
  unfold firstMatch
  rw [hcons, List.find?_cons_of_pos (p := fun i => fnPred (v.dataPtr.mem i) i) hp]
  rfl

theorem scanOrder_single (sInd : ℕ) (isLeftToRight : Bool) : scanOrder sInd sInd isLeftToRight = [sInd] := by
  have hone : upto sInd (sInd + 1) = [sInd] := by
    rw [upto_cons (Nat.lt_succ_self sInd), upto_nil le_rfl]
  cases isLeftToRight with
  | true => exact hone
  | false => simp [scanOrder, hone]

/-- an index that is not at the end of the range is looked at, once or for ever -/
theorem findLoop_start {mem : ℕ → E} {endIndex i : ℕ} (hgo : if isLeftToRight then i < endIndex else i > endIndex)
    (rounds : ℕ) : findLoop fnPred mem isLeftToRight endIndex rounds i =
      if fnPred (mem i) i = true ∧ rounds ≠ 0 then some (mem i) else none := by
  induction rounds with
  | zero =>
    unfold findLoop
    rw [if_pos hgo, if_neg (fun hc => hc.2 rfl)]
  | succ rounds ih =>
    unfold findLoop
    rw [if_pos hgo]
    by_cases hp : fnPred (mem i) i = true
    · rw [if_pos ⟨hp, Nat.succ_ne_zero rounds⟩]
      exact if_pos hp
    · rw [if_neg (fun hc => hp hc.1)] at ih ⊢
      exact (if_neg hp).trans ih

/-- a search over more than one element looks at the first one only -/
theorem vectorFindIf_many (h : sInd < eInd) (rounds : ℕ) :
    vectorFindIf v sInd eInd isLeftToRight fnPred rounds =
      if fnPred (v.dataPtr.mem (scanStart sInd eInd isLeftToRight)) (scanStart sInd eInd isLeftToRight) = true ∧
          rounds ≠ 0 then some (v.dataPtr.mem (scanStart sInd eInd isLeftToRight))
      else none := by
  apply findLoop_start
  cases isLeftToRight with
  | true => simpa [scanStart] using h
  | false => simpa [scanStart] using h

/-- a search over one element looks at none -/
theorem vectorFindIf_single (sInd : ℕ) (rounds : ℕ) :
    vectorFindIf v sInd sInd isLeftToRight fnPred rounds = some 0 := by
  unfold vectorFindIf findLoop
  cases isLeftToRight <;> simp

theorem findsFirst_iff (hle : sInd ≤ eInd) :
    FindsFirst (vectorFindIf v sInd eInd isLeftToRight fnPred) v sInd eInd isLeftToRight fnPred ↔
      FoundAtStart v sInd eInd isLeftToRight fnPred := by
  unfold FoundAtStart FindsFirst
  rcases Nat.eq_or_lt_of_le hle with rfl | hlt
  · rw [or_iff_right (fun h => lt_irrefl _ h.1), and_iff_right rfl]
    unfold firstMatch
    simp only [vectorFindIf_single, scanOrder_single, exists_const, Option.some.injEq]
    cases hp : fnPred (v.dataPtr.mem sInd) sInd with
    | true => simp [hp, eq_comm]
    | false => simp [hp]
  · rw [or_iff_left (fun h => hlt.ne h.1), and_iff_right hlt]
    simp only [vectorFindIf_many hlt]
    constructor
    · rintro ⟨rounds, hfound⟩
      by_contra hp
      rw [if_neg (fun hc => hp hc.1)] at hfound
      cases hfound
    · intro hp
      refine ⟨1, ?_⟩
      rw [if_pos ⟨hp, Nat.one_ne_zero⟩, firstMatch_start hle hp]

/-- A search, with a predicate or for a pointer, finds the first match of its range exactly if there are several elements
and it starts on a match, or if the only element is no match or `NULL`. -/
theorem find_iff [DecidableEq E] (hle : sInd ≤ eInd) :
    (FindsFirst (vectorFindIf v sInd eInd isLeftToRight fnPred) v sInd eInd isLeftToRight fnPred ↔
      FoundAtStart v sInd eInd isLeftToRight fnPred) ∧
    ∀ elemPtr, FindsFirst (vectorFind v elemPtr sInd eInd isLeftToRight) v sInd eInd isLeftToRight
        (vectorDefaultPred elemPtr) ↔ FoundAtStart v sInd eInd isLeftToRight (vectorDefaultPred elemPtr) :=
  ⟨findsFirst_iff hle, fun _ => findsFirst_iff hle⟩

/-- the first of two elements, searched for from the left -/
theorem find_first : FindsFirst (vectorFind twoElems 7 0 1 true) twoElems 0 1 true (vectorDefaultPred 7) := by
  have hiff := (@find_iff ℕ _ twoElems 0 1 true (fun _ _ => true) _ (by decide)).2 7
  apply hiff.2
  exact Or.inl ⟨by decide, by decide⟩

/-- the search for the second of two elements does not return -/
theorem find_broken : ¬ ∀ (v : Vector ℕ) (sInd eInd : ℕ) (isLeftToRight : Bool) (fnPred : ℕ → ℕ → Bool), sInd ≤ eInd →
    eInd < v.elemCount →
    FindsFirst (vectorFindIf v sInd eInd isLeftToRight fnPred) v sInd eInd isLeftToRight fnPred := by
  intro hall
  obtain ⟨rounds, hfound⟩ := hall twoElems 0 1 true (vectorDefaultPred 8) (by decide) (by decide)
  rw [vectorFindIf_many (by decide), if_neg (by simp [vectorDefaultPred, twoElems, scanStart])] at hfound
  cases hfound

end Find

/-! ## Filtering -/

section Filter

variable {v : Vector E} {sInd maxN : ℕ} {fnPred : E → ℕ → Bool}

/-- the elements at the given indices that satisfy the predicate -/
def matching (v : Vector E) (fnPred : E → ℕ → Bool) (l : List ℕ) : List E :=
  (l.filter fun i => fnPred (v.dataPtr.mem i) i).map v.dataPtr.mem

/-- the indices of the window -/
def window (v : Vector E) (sInd maxN : ℕ) : List ℕ := upto sInd (sInd + windowCount v sInd maxN)

theorem matching_cons (i : ℕ) (l : List ℕ) : matching v fnPred (i :: l) =
    if fnPred (v.dataPtr.mem i) i then v.dataPtr.mem i :: matching v fnPred l else matching v fnPred l := by
  unfold matching
  rw [List.filter_cons]
  split_ifs <;> rfl

theorem length_matching_le (v : Vector E) (fnPred : E → ℕ → Bool) (l : List ℕ) :
    (matching v fnPred l).length ≤ l.length := by
  rw [matching, List.length_map]
  exact List.length_filter_le _ _

/-- the rounds put the matches one behind the other -/
theorem filterRounds_spec (v : Vector E) (fnPred : E → ℕ → Bool) (l : List ℕ) (s : FilterState E)
    (h : s.outIndex + l.length < 2 ^ 64) :
    let t := l.foldl (filterRound fnPred v.dataPtr.mem) s
    t.outIndex = s.outIndex + (matching v fnPred l).length ∧ Holds t.sub s.outIndex (matching v fnPred l) ∧
      (∀ k, k < s.outIndex → t.sub k = s.sub k) ∧
      t.written = s.written ++ List.range' s.outIndex (matching v fnPred l).length := by
  induction l generalizing s with
  | nil => exact ⟨rfl, holds_nil _ _, fun _ _ => rfl, (List.append_nil _).symm⟩
  | cons i l ih =>
    rw [List.length_cons] at h
    rw [List.foldl_cons, matching_cons]
    by_cases hp : fnPred (v.dataPtr.mem i) i = true
    · have hround : filterRound fnPred v.dataPtr.mem s i =
          ⟨Function.update s.sub s.outIndex (v.dataPtr.mem i), s.outIndex + 1, s.written ++ [s.outIndex]⟩ := by
        rw [filterRound, if_pos hp, u64_of_lt (by omega)]
      rw [if_pos hp, hround]
      obtain ⟨hout, hholds, hold, hwritten⟩ :=
        ih ⟨Function.update s.sub s.outIndex (v.dataPtr.mem i), s.outIndex + 1, s.written ++ [s.outIndex]⟩
          (by dsimp only; omega)
      dsimp only at hout hholds hold hwritten ⊢
      refine ⟨?_, holds_cons.2 ⟨?_, hholds⟩, ?_, ?_⟩
      · rw [hout, List.length_cons]
        omega
      · rw [hold _ (Nat.lt_succ_self _), Function.update_self]
      · intro k hk
        rw [hold k (by omega), Function.update_of_ne (by omega)]
      · rw [hwritten, List.length_cons, List.range'_succ, List.append_assoc]
        rfl
    · have hround : filterRound fnPred v.dataPtr.mem s i = s := if_neg hp
      rw [if_neg hp, hround]
      exact ih s (by omega)

/-- the window is the part that the loop goes through and the part from `maxN` on -/
theorem window_split (hs : sInd < v.elemCount) :
    window v sInd maxN = upto sInd (min maxN v.elemCount) ++
      upto (max sInd (min maxN v.elemCount)) (sInd + windowCount v sInd maxN) := by
  unfold window windowCount upto
  by_cases hlt : min maxN v.elemCount ≤ sInd
  · rw [Nat.sub_eq_zero_of_le hlt, max_eq_left hlt]
    rfl
  · have hmid : max sInd (min maxN v.elemCount) = sInd + (min maxN v.elemCount - sInd) := by omega
    have hsum : sInd + min maxN (v.elemCount - sInd) - sInd = (min maxN v.elemCount - sInd) +
        (sInd + min maxN (v.elemCount - sInd) - max sInd (min maxN v.elemCount)) := by omega
    rw [hsum, ← List.range'_append_1, hmid]

variable [Zero E]

/-- the caller's array of `maxN` slots holds the matches of the window, then `NULL`, and no other slot is written -/
def FilterRight (v : Vector E) (sInd maxN : ℕ) (sub : ℕ → E) (fnPred : E → ℕ → Bool) : Prop :=
  (∀ k < maxN, (vectorFilter v sInd maxN sub fnPred).1 k = (matching v fnPred (window v sInd maxN)).getD k 0) ∧
    ∀ k ∈ (vectorFilter v sInd maxN sub fnPred).2, k < maxN

theorem vectorFilter_spec (v : Vector E) (sInd : ℕ) (fnPred : E → ℕ → Bool) (hmaxN : maxN * ptrBytes < 2 ^ 64)
    (sub : ℕ → E) :
    (∀ k < maxN, (vectorFilter v sInd maxN sub fnPred).1 k =
      (matching v fnPred (upto sInd (min maxN v.elemCount))).getD k 0) ∧
    ∀ k ∈ (vectorFilter v sInd maxN sub fnPred).2, k < maxN := by
  have hmax : maxN < 2 ^ 61 := by
    unfold ptrBytes at hmaxN
    omega
  have hlen : (upto sInd (min maxN v.elemCount)).length ≤ maxN := by
    rw [upto, List.length_range']
    omega
  obtain ⟨hout, hholds, -, hwritten⟩ := filterRounds_spec v fnPred (upto sInd (min maxN v.elemCount))
    ⟨sub, 0, []⟩ (by dsimp only; omega)
  have hfound := (length_matching_le v fnPred _).trans hlen
  unfold vectorFilter
  dsimp only at hout hholds hwritten ⊢
  set found := matching v fnPred (upto sInd (min maxN v.elemCount))
  rw [Nat.zero_add] at hout
  have hzeroed : u64 (sub64 maxN found.length * ptrBytes) / ptrBytes = maxN - found.length := by
    rw [sub64_of_le hfound (by omega), u64_of_lt (by unfold ptrBytes; omega), Nat.mul_div_cancel _ (by decide)]
  rw [hout, hzeroed, hwritten]
  refine ⟨?_, ?_⟩
  · intro k hk
    unfold blit
    by_cases hlt : k < found.length
    · have hcell := hholds k hlt
      rw [Nat.zero_add] at hcell
      rw [if_neg (by omega), hcell, List.getD_eq_getElem _ _ hlt]
    · rw [if_pos (by omega), List.getD_eq_default _ _ (not_lt.1 hlt)]
  · intro k hk
    rw [List.nil_append, List.mem_append, List.mem_range'_1, List.mem_range'_1] at hk
    omega

/-- more entries do not show in an array padded with `NULL` exactly if they are `NULL` -/
theorem padded_append_iff {l l' : List E} {n : ℕ} (hn : (l ++ l').length ≤ n) :
    (∀ k < n, l.getD k 0 = (l ++ l').getD k 0) ↔ ∀ x ∈ l', x = 0 := by
  rw [List.length_append] at hn
  constructor
  · intro h x hx
    obtain ⟨j, hj, rfl⟩ := List.getElem_of_mem hx
    have hcell := h (l.length + j) (by omega)
    rw [List.getD_eq_default _ _ (Nat.le_add_right _ _), List.getD_append_right _ _ _ _ (Nat.le_add_right _ _),
      Nat.add_sub_cancel_left, List.getD_eq_getElem _ _ hj] at hcell
    exact hcell.symm
  · intro h k hk
    by_cases hlt : k < l.length
    · rw [List.getD_append _ _ _ _ hlt]
    · rw [List.getD_eq_default _ _ (not_lt.1 hlt), List.getD_append_right _ _ _ _ (not_lt.1 hlt)]
      by_cases hj : k - l.length < l'.length
      · rw [List.getD_eq_getElem _ _ hj, h _ (List.getElem_mem hj)]
      · rw [List.getD_eq_default _ _ (not_lt.1 hj)]

/-- The filter is right exactly if every match of the window from index `maxN` on is `NULL`. -/
theorem filter_iff (hs : sInd < v.elemCount) (hmaxN : maxN * ptrBytes < 2 ^ 64) (sub : ℕ → E) :
    FilterRight v sInd maxN sub fnPred ↔ ∀ i, sInd ≤ i → maxN ≤ i → i < sInd + windowCount v sInd maxN →
      fnPred (v.dataPtr.mem i) i = true → v.dataPtr.mem i = 0 := by
  obtain ⟨hcells, hwritten⟩ := vectorFilter_spec v sInd fnPred hmaxN sub
  set seen := matching v fnPred (upto sInd (min maxN v.elemCount))
  set missed := matching v fnPred (upto (max sInd (min maxN v.elemCount)) (sInd + windowCount v sInd maxN)) with hmissed
  have hsplit : matching v fnPred (window v sInd maxN) = seen ++ missed := by
    rw [window_split hs, matching, List.filter_append, List.map_append]
    rfl
  have hlen : (seen ++ missed).length ≤ maxN := by
    rw [← hsplit]
    refine (length_matching_le v fnPred _).trans ?_
    rw [window, upto, List.length_range', windowCount]
    omega
  have hright : FilterRight v sInd maxN sub fnPred ↔ ∀ x ∈ missed, x = 0 := by
    unfold FilterRight
    rw [hsplit, and_iff_left hwritten, ← padded_append_iff hlen]
    refine forall₂_congr fun k hk => ?_
    rw [hcells k hk]
  rw [hright]
  simp only [hmissed, matching, List.mem_map, List.mem_filter, mem_upto, forall_exists_index, and_imp]
  have hwin : sInd + windowCount v sInd maxN ≤ v.elemCount := by
    unfold windowCount
    omega
  constructor
  · intro h i h1 h2 h3 hp
    exact h _ i (by omega) h3 hp rfl
  · rintro h x i h1 h3 hp rfl
    exact h i (by omega) (by omega) h3 hp

/-- the filter from the first element on -/
theorem filter_whole : FilterRight twoElems 0 2 (fun _ => 1) fun x _ => x = 8 := by
  apply (filter_iff (by decide) (by decide) _).2
  intro i h0 h1 h2
  exact absurd h2 (not_lt.2 h1)

/-- the second of two elements is asked for: the loop ends at index one, where it starts -/
theorem filter_broken : ¬ ∀ (v : Vector ℕ) (sInd maxN : ℕ) (sub : ℕ → ℕ) (fnPred : ℕ → ℕ → Bool), sInd < v.elemCount →
    maxN * ptrBytes < 2 ^ 64 → FilterRight v sInd maxN sub fnPred := by
  intro hall
  have hfirst := (hall twoElems 1 1 (fun _ => 1) (fun _ _ => true) (by decide) (by decide)).1 0 (by decide)
  exact absurd hfirst (by decide)

end Filter

end Noriko.Dstruct
