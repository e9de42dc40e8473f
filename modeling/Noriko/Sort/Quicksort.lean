/-
Quicksort on an array of pointers (`NkQuicksortPointers` of `sort.c`) and `NkVectorSort`.

The array has `len` cells. A run lists the indices it touches and the ranges of its recursive calls; there is no run if
the rounds do not suffice or a cell outside of the array is touched. The bounds of a range are `NkSize`, so the range in
front of index 0 ends at `SIZE_MAX` and is not empty.

Two things go wrong. A range of two elements is taken for one that needs no sorting (`Call.PairWrong`), and a range that
starts at index 0 with its least element at the end leads to the range 0 to `SIZE_MAX` (`Call.Underruns`). The second is
all that can make the code leave its range (`staysInRange_of`), and both together are all that can make it fail to
sort (`sorts_of`).
-/
import Noriko.Sort.Split

namespace Noriko.Sort

open Lib Dstruct

/-! ## The code -/

section Code

variable {E : Type} (fnPred : E → E → ℤ)

structure SortRun (E : Type) where
  code : NkErrorCode
  arr : ℕ → E
  /-- indices read or written -/
  touched : List ℕ
  /-- first and last index of each recursive call -/
  calls : List (ℕ × ℕ)

/-- `NkQuicksortPointers` on an array of `len` cells; `rounds` limits the depth of the recursion and the rounds of each
partition step -/
def quicksortPointers (len : ℕ) : ℕ → (ℕ → E) → ℕ → ℕ → Option (SortRun E)
  | rounds, arr, sInd, eInd =>
    if sub64 eInd sInd < 2 then some ⟨.noOperation, arr, [], []⟩
    else if sInd < eInd then
      match rounds with
      | 0 => none
      | rounds + 1 => do
        let sp ← quicksortSplit fnPred (rounds + 1) arr sInd eInd
        if ∀ k ∈ sp.touched, k < len then
          let l ← quicksortPointers len rounds sp.arr sInd (sub64 sp.ind 1)
          let r ← quicksortPointers len rounds l.arr (u64 (sp.ind + 1)) eInd
          return ⟨.ok, r.arr, sp.touched ++ (l.touched ++ r.touched),
            (sInd, sub64 sp.ind 1) :: (l.calls ++ (u64 (sp.ind + 1), eInd) :: r.calls)⟩
        else none
    else some ⟨.invalidRange, arr, [], []⟩

/-- `NkVectorSort` -/
def vectorSort (rounds : ℕ) (v : Vector E) (sInd eInd : ℕ) : Option (Vector E) :=
  (quicksortPointers fnPred (v.dataPtr.size / ptrBytes) rounds v.dataPtr.mem sInd eInd).map fun r =>
    { v with dataPtr := { v.dataPtr with mem := r.arr } }

end Code

/-! ## The calls of a run -/

section Calls

variable {E : Type} (fnPred : E → E → ℤ)

/-- the array and the range of a call -/
structure Call (E : Type) where
  arr : ℕ → E
  sInd : ℕ
  eInd : ℕ

/-- two elements in the wrong order -/
def Call.PairWrong (c : Call E) : Prop := c.eInd = c.sInd + 1 ∧ 0 < fnPred (c.arr c.sInd) (c.arr c.eInd)

/-- the last of three or more elements from index 0 on is less than all others -/
def Call.Underruns (c : Call E) : Prop :=
  c.sInd = 0 ∧ 2 ≤ c.eInd ∧ ∀ k < c.eInd, 0 < fnPred (c.arr k) (c.arr c.eInd)

/-- `P` holds of the call, or of a call on one of the ranges into which the partition step separates it, and so on -/
inductive Meets (P : Call E → Prop) : Call E → Prop
  | here {c : Call E} : P c → Meets P c
  | left {c : Call E} {rounds : ℕ} {sp : Split E} : c.sInd + 2 ≤ c.eInd →
      quicksortSplit fnPred rounds c.arr c.sInd c.eInd = some sp → c.sInd < sp.ind →
      Meets P ⟨sp.arr, c.sInd, sp.ind - 1⟩ → Meets P c
  | right {c : Call E} {rounds : ℕ} {sp : Split E} : c.sInd + 2 ≤ c.eInd →
      quicksortSplit fnPred rounds c.arr c.sInd c.eInd = some sp → sp.ind < c.eInd →
      Meets P ⟨sp.arr, sp.ind + 1, c.eInd⟩ → Meets P c

variable {fnPred} {P : Call E → Prop} {a b : ℕ → E} {s e : ℕ}

theorem meets_small (h : e < s + 2) : Meets fnPred P ⟨a, s, e⟩ ↔ P ⟨a, s, e⟩ := by
  constructor
  · intro hm
    cases hm with
    | here hP => exact hP
    | left h2 => exact absurd h (not_lt.2 h2)
    | right h2 => exact absurd h (not_lt.2 h2)
  · exact .here

theorem meets_large {rounds : ℕ} {sp : Split E} (h : s + 2 ≤ e) (hsp : quicksortSplit fnPred rounds a s e = some sp) :
    Meets fnPred P ⟨a, s, e⟩ ↔ P ⟨a, s, e⟩ ∨ (s < sp.ind ∧ Meets fnPred P ⟨sp.arr, s, sp.ind - 1⟩) ∨
      (sp.ind < e ∧ Meets fnPred P ⟨sp.arr, sp.ind + 1, e⟩) := by
  constructor
  · intro hm
    cases hm with
    | here hP => exact Or.inl hP
    | left _ hsp' hlt hm =>
      rw [quicksortSplit_unique hsp' hsp] at hlt hm
      exact Or.inr (Or.inl ⟨hlt, hm⟩)
    | right _ hsp' hlt hm =>
      rw [quicksortSplit_unique hsp' hsp] at hlt hm
      exact Or.inr (Or.inr ⟨hlt, hm⟩)
  · rintro (hP | ⟨hlt, hm⟩ | ⟨hlt, hm⟩)
    · exact .here hP
    · exact .left h hsp hlt hm
    · exact .right h hsp hlt hm

/-- a range that does not start at index 0 never comes to one that does -/
theorem underruns_zero {c : Call E} (h : Meets fnPred (Call.Underruns fnPred) c) : c.sInd = 0 := by
  induction h with
  | here hP => exact hP.1
  | left _ _ _ _ ih => exact ih
  | right _ _ _ _ ih => exact absurd ih (Nat.succ_ne_zero _)

/-- cells outside of the range do not matter -/
theorem meets_pairWrong_congr (hcmp : TotalPreorder fnPred) {c : Call E} (h : Meets fnPred (Call.PairWrong fnPred) c)
    (he : c.eInd < 2 ^ 64) (hb : AgreeOn c.sInd c.eInd c.arr b) :
    Meets fnPred (Call.PairWrong fnPred) ⟨b, c.sInd, c.eInd⟩ := by
  induction h generalizing b with
  | @here c hP =>
    obtain ⟨heq, hpos⟩ := hP
    refine .here ⟨heq, ?_⟩
    dsimp only
    rwa [← hb c.sInd le_rfl (by omega), ← hb c.eInd (by omega) le_rfl]
  | @left c rounds sp h2 hsp hlt _ ih =>
    have hdone := splitDone_of_some hcmp (by omega) he hsp
    have hhigh := hdone.high
    obtain ⟨sp', hsp', hind, hagree⟩ := quicksortSplit_congr (by omega) he hb hsp
    have hm := ih (by dsimp only; omega) (hagree.mono le_rfl (by dsimp only; omega))
    rw [← hind] at hm hlt
    exact .left h2 hsp' hlt hm
  | @right c rounds sp h2 hsp hlt _ ih =>
    have hdone := splitDone_of_some hcmp (by omega) he hsp
    have hlow := hdone.low
    obtain ⟨sp', hsp', hind, hagree⟩ := quicksortSplit_congr (by omega) he hb hsp
    have hm := ih he (hagree.mono (by dsimp only; omega) le_rfl)
    rw [← hind] at hm hlt
    exact .right h2 hsp' hlt hm

end Calls

/-! ## One call -/

section OneCall

variable {E : Type} {fnPred : E → E → ℤ} {a b : ℕ → E} {len rounds s e ind : ℕ} {r : SortRun E}

/-- a call that returns at once -/
def DoesNothing (fnPred : E → E → ℤ) (len s e : ℕ) : Prop :=
  ∃ code, ∀ rounds a, quicksortPointers fnPred len rounds a s e = some ⟨code, a, [], []⟩

theorem DoesNothing.result (h : DoesNothing fnPred len s e) (hr : quicksortPointers fnPred len rounds a s e = some r) :
    ∃ code, r = ⟨code, a, [], []⟩ := by
  obtain ⟨code, hcode⟩ := h
  exact ⟨code, Option.some.inj (hr.symm.trans (hcode rounds a))⟩

theorem DoesNothing.returns (h : DoesNothing fnPred len s e) (rounds : ℕ) (a : ℕ → E) :
    ∃ r, quicksortPointers fnPred len rounds a s e = some r := by
  obtain ⟨code, hcode⟩ := h
  exact ⟨_, hcode rounds a⟩

/-- one element, or two -/
theorem doesNothing_small (fnPred : E → E → ℤ) (len : ℕ) (h1 : s ≤ e) (h2 : e < s + 2) (he : e < 2 ^ 64) :
    DoesNothing fnPred len s e := by
  refine ⟨.noOperation, fun rounds a => ?_⟩
  unfold quicksortPointers
  rw [if_pos]
  rw [sub64_of_le h1 he]
  omega

theorem doesNothing_empty (fnPred : E → E → ℤ) (len : ℕ) (h : e < s) : DoesNothing fnPred len s e := by
  by_cases hwrap : sub64 e s < 2
  · refine ⟨.noOperation, fun rounds a => ?_⟩
    unfold quicksortPointers
    rw [if_pos hwrap]
  · refine ⟨.invalidRange, fun rounds a => ?_⟩
    unfold quicksortPointers
    rw [if_neg hwrap, if_neg (by omega)]

theorem large_guards (h : s + 2 ≤ e) (he : e < 2 ^ 64) : ¬ sub64 e s < 2 ∧ s < e := by
  rw [sub64_of_le (by omega) he]
  omega

/-- a call on three or more elements that returns -/
theorem run_large (h : s + 2 ≤ e) (he : e < 2 ^ 64) (hr : quicksortPointers fnPred len rounds a s e = some r) :
    ∃ n sp l r', rounds = n + 1 ∧ quicksortSplit fnPred (n + 1) a s e = some sp ∧
      quicksortPointers fnPred len n sp.arr s (sub64 sp.ind 1) = some l ∧
      quicksortPointers fnPred len n l.arr (u64 (sp.ind + 1)) e = some r' ∧
      r = ⟨.ok, r'.arr, sp.touched ++ (l.touched ++ r'.touched),
        (s, sub64 sp.ind 1) :: (l.calls ++ (u64 (sp.ind + 1), e) :: r'.calls)⟩ := by
  obtain ⟨h1, h2⟩ := large_guards h he
  unfold quicksortPointers at hr
  rw [if_neg h1, if_pos h2] at hr
  cases rounds with
  | zero => cases hr
  | succ n =>
    obtain ⟨sp, hsp, hr⟩ := Option.bind_eq_some_iff.1 hr
    split_ifs at hr
    obtain ⟨l, hl, hr⟩ := Option.bind_eq_some_iff.1 hr
    obtain ⟨r', hr', hr⟩ := Option.bind_eq_some_iff.1 hr
    exact ⟨n, sp, l, r', rfl, hsp, hl, hr', (Option.some.inj hr).symm⟩

/-- a call whose parts return -/
theorem large_run {n : ℕ} {sp : Split E} {l r' : SortRun E} (h : s + 2 ≤ e) (he : e < 2 ^ 64)
    (hsp : quicksortSplit fnPred (n + 1) a s e = some sp) (htouched : ∀ k ∈ sp.touched, k < len)
    (hl : quicksortPointers fnPred len n sp.arr s (sub64 sp.ind 1) = some l)
    (hr : quicksortPointers fnPred len n l.arr (u64 (sp.ind + 1)) e = some r') :
    ∃ r, quicksortPointers fnPred len (n + 1) a s e = some r := by
  obtain ⟨h1, h2⟩ := large_guards h he
  unfold quicksortPointers
  rw [if_neg h1, if_pos h2]
  simp only [hsp, Option.bind_eq_bind, Option.bind_some, if_pos htouched, hl, hr, Option.pure_def]
  exact ⟨_, rfl⟩

/-- the range from 0 to `SIZE_MAX` reads outside of the array -/
theorem underrun_none (fnPred : E → E → ℤ) (hlen : len < 2 ^ 64) (rounds : ℕ) (a : ℕ → E) :
    quicksortPointers fnPred len rounds a 0 (sub64 0 1) = none := by
  have hmax : sub64 0 1 = 2 ^ 64 - 1 := by decide
  rw [hmax]
  cases hr : quicksortPointers fnPred len rounds a 0 (2 ^ 64 - 1) with
  | none => rfl
  | some r =>
    obtain ⟨h1, h2⟩ := large_guards (s := 0) (e := 2 ^ 64 - 1) (by omega) (by omega)
    unfold quicksortPointers at hr
    rw [if_neg h1, if_pos h2] at hr
    cases rounds with
    | zero => cases hr
    | succ n =>
      obtain ⟨sp, hsp, hr⟩ := Option.bind_eq_some_iff.1 hr
      split_ifs at hr with hguard
      have hright := hguard _ (right_mem_touched hsp)
      omega

/-- the call on the part before `ind` -/
theorem left_call (fnPred : E → E → ℤ) (len : ℕ) (hs : s ≤ ind) (hind : ind < 2 ^ 64) :
    (s < ind ∧ sub64 ind 1 = ind - 1) ∨ (s = ind ∧ sub64 ind 1 < s ∧ DoesNothing fnPred len s (sub64 ind 1)) ∨
      (s = ind ∧ s = 0) := by
  rcases Nat.eq_or_lt_of_le hs with rfl | hlt
  · rcases Nat.eq_zero_or_pos s with rfl | hpos
    · exact Or.inr (Or.inr ⟨rfl, rfl⟩)
    · have hlt : sub64 s 1 < s := by
        rw [sub64_of_le hpos hind]
        omega
      exact Or.inr (Or.inl ⟨rfl, hlt, doesNothing_empty fnPred len hlt⟩)
  · exact Or.inl ⟨hlt, sub64_of_le (by omega) hind⟩

/-- the call on the part behind `ind` -/
theorem right_call (fnPred : E → E → ℤ) (len : ℕ) (hind : ind ≤ e) (he : e + 1 < 2 ^ 64) :
    u64 (ind + 1) = ind + 1 ∧ (ind < e ∨ (ind = e ∧ DoesNothing fnPred len (ind + 1) e)) := by
  refine ⟨u64_of_lt (by omega), ?_⟩
  rcases Nat.eq_or_lt_of_le hind with rfl | hlt
  · exact Or.inr ⟨rfl, doesNothing_empty fnPred len (Nat.lt_succ_self ind)⟩
  · exact Or.inl hlt

end OneCall

/-! ## Whole runs -/

section Runs

variable {E : Type} {fnPred : E → E → ℤ} {a b : ℕ → E} {len rounds s e lo hi : ℕ} {r : SortRun E}

/-- a recursive call is on a range inside, or on an empty one, which returns at once -/
def Inside (fnPred : E → E → ℤ) (len lo hi : ℕ) (c : ℕ × ℕ) : Prop :=
  (lo ≤ c.1 ∧ c.1 ≤ c.2 ∧ c.2 < hi) ∨ (c.2 < c.1 ∧ DoesNothing fnPred len c.1 c.2)

theorem Inside.mono {lo' hi' : ℕ} {c : ℕ × ℕ} (h : Inside fnPred len lo hi c) (hlo : lo' ≤ lo) (hhi : hi ≤ hi') :
    Inside fnPred len lo' hi' c :=
  h.imp_left fun h => ⟨hlo.trans h.1, h.2.1, h.2.2.trans_le hhi⟩

/-- what a run on the cells `lo ≤ k < hi` of `b` leaves; they are sorted unless `wrong` -/
structure Ran (fnPred : E → E → ℤ) (len : ℕ) (b : ℕ → E) (lo hi : ℕ) (r : SortRun E) (wrong : Prop) : Prop where
  rearranged : Rearranged lo hi b r.arr
  touched : ∀ k ∈ r.touched, lo ≤ k ∧ k < hi
  calls : ∀ c ∈ r.calls, Inside fnPred len lo hi c
  sorted : SortedOn (fun x y => fnPred x y ≤ 0) lo hi r.arr ↔ ¬ wrong

theorem ran_nothing {wrong : Prop} {code : NkErrorCode}
    (h : SortedOn (fun x y => fnPred x y ≤ 0) lo hi b ↔ ¬ wrong) :
    Ran fnPred len b lo hi ⟨code, b, [], []⟩ wrong :=
  ⟨Rearranged.refl lo hi b, by simp, by simp, h⟩

/-- the runs on both sides of the pivot make a run on the whole range -/
theorem Ran.join (hcmp : TotalPreorder fnPred) {sp : Split E} {l r : SortRun E} {wrong wrong' : Prop} {c c' : ℕ × ℕ}
    (hdone : SplitDone fnPred a s e sp) (hl : Ran fnPred len sp.arr s sp.ind l wrong)
    (hr : Ran fnPred len l.arr (sp.ind + 1) (e + 1) r wrong') (hc : Inside fnPred len s sp.ind c)
    (hc' : Inside fnPred len (sp.ind + 1) (e + 1) c') :
    Ran fnPred len a s (e + 1) ⟨.ok, r.arr, sp.touched ++ (l.touched ++ r.touched), c :: (l.calls ++ c' :: r.calls)⟩
      (wrong ∨ wrong') := by
  have hlow := hdone.low
  have hhigh := hdone.high
  -- the pivot and the part before it are not touched by the second call, nor the part behind it by the first
  have hkept : ∀ k, k ≤ sp.ind → r.arr k = l.arr k := fun k hk => hr.rearranged.outside (Or.inl (by omega))
  have hpivot : r.arr sp.ind = sp.arr sp.ind :=
    (hkept _ le_rfl).trans (hl.rearranged.outside (Or.inr le_rfl))
  refine ⟨?_, fun k hk => ?_, fun d hd => ?_, ?_⟩
  · exact hdone.rearranged.trans ((hl.rearranged.mono le_rfl (by omega)).trans (hr.rearranged.mono (by omega) le_rfl))
  · simp only [List.mem_append] at hk
    rcases hk with hk | hk | hk
    · have := hdone.touched k hk
      omega
    · have := hl.touched k hk
      omega
    · have := hr.touched k hk
      omega
  · simp only [List.mem_cons, List.mem_append] at hd
    rcases hd with rfl | hd | rfl | hd
    · exact hc.mono le_rfl (by omega)
    · exact (hl.calls d hd).mono le_rfl (by omega)
    · exact hc'.mono (by omega) le_rfl
    · exact (hr.calls d hd).mono (by omega) le_rfl
  · rw [not_or, ← hl.sorted, ← hr.sorted]
    constructor
    · intro h
      refine ⟨?_, h.mono (by omega) le_rfl⟩
      exact (h.mono le_rfl (by omega)).congr fun k h1 h2 => (hkept k h2.le).symm
    · intro ⟨h1, h2⟩
      refine SortedOn.join hcmp.trans (h1.congr fun k h1 h2 => hkept k h2.le) h2 (fun k hk1 hk2 => ?_) fun k hk1 hk2 => ?_
      · dsimp only
        rw [hpivot, hkept k hk2.le]
        exact hl.rearranged.forall_range (P := fun x => fnPred x (sp.arr sp.ind) ≤ 0) hdone.below hk1 hk2
      · dsimp only
        rw [hpivot]
        refine hr.rearranged.forall_range (P := fun x => fnPred (sp.arr sp.ind) x ≤ 0) (fun k h1 h2 => ?_) hk1 hk2
        rw [hl.rearranged.outside (Or.inr (by omega))]
        exact ((hcmp.sign _ _).1 (hdone.above k h1 (by omega))).le

/-- the call on the part before the pivot, if it returns -/
theorem ran_left (hlen : len < 2 ^ 64) {sp : Split E} {l : SortRun E} (hdone : SplitDone fnPred a s e sp) (he : e < len)
    (hl : quicksortPointers fnPred len rounds sp.arr s (sub64 sp.ind 1) = some l)
    (ih : s < sp.ind → quicksortPointers fnPred len rounds sp.arr s (sp.ind - 1) = some l →
      Ran fnPred len sp.arr s (sp.ind - 1 + 1) l (Meets fnPred (Call.PairWrong fnPred) ⟨sp.arr, s, sp.ind - 1⟩)) :
    Ran fnPred len sp.arr s sp.ind l (s < sp.ind ∧ Meets fnPred (Call.PairWrong fnPred) ⟨sp.arr, s, sp.ind - 1⟩) ∧
      Inside fnPred len s sp.ind (s, sub64 sp.ind 1) := by
  have hhigh := hdone.high
  rcases left_call fnPred len hdone.low (by omega) with ⟨hlt, hpred⟩ | ⟨heq, hbefore, hnothing⟩ | ⟨heq, hzero⟩
  · rw [hpred] at hl ⊢
    have hran := ih hlt hl
    rw [Nat.sub_add_cancel (by omega)] at hran
    rw [and_iff_right hlt]
    exact ⟨hran, Or.inl ⟨le_rfl, by dsimp only; omega, by dsimp only; omega⟩⟩
  · obtain ⟨code, rfl⟩ := hnothing.result hl
    refine ⟨ran_nothing (iff_of_true (sortedOn_empty _ _ (by omega)) fun hwrong => ?_), Or.inr ⟨hbefore, hnothing⟩⟩
    exact absurd hwrong.1 (by omega)
  · rw [← heq, hzero, underrun_none fnPred hlen] at hl
    cases hl

/-- the call on the part behind the pivot, if it returns -/
theorem ran_right (hlen : len < 2 ^ 64) {ind : ℕ} (hind : ind ≤ e) (he : e < len)
    (hr : quicksortPointers fnPred len rounds b (u64 (ind + 1)) e = some r)
    (ih : ind < e → quicksortPointers fnPred len rounds b (ind + 1) e = some r →
      Ran fnPred len b (ind + 1) (e + 1) r (Meets fnPred (Call.PairWrong fnPred) ⟨b, ind + 1, e⟩)) :
    Ran fnPred len b (ind + 1) (e + 1) r (ind < e ∧ Meets fnPred (Call.PairWrong fnPred) ⟨b, ind + 1, e⟩) ∧
      Inside fnPred len (ind + 1) (e + 1) (u64 (ind + 1), e) := by
  obtain ⟨hsucc, hcall⟩ := right_call fnPred len hind (by omega)
  rw [hsucc] at hr ⊢
  rcases hcall with hlt | ⟨heq, hnothing⟩
  · rw [and_iff_right hlt]
    exact ⟨ih hlt hr, Or.inl ⟨le_rfl, hlt, Nat.lt_succ_self e⟩⟩
  · obtain ⟨code, rfl⟩ := hnothing.result hr
    refine ⟨ran_nothing (iff_of_true (sortedOn_empty _ _ (by omega)) fun hwrong => ?_),
      Or.inr ⟨Nat.lt_succ_of_le heq.ge, hnothing⟩⟩
    exact absurd hwrong.1 (by omega)

/-- one or two elements: nothing is done, which is wrong for a pair in the wrong order -/
theorem ran_small (hse : s ≤ e) (hsmall : e < s + 2) (he : e < 2 ^ 64)
    (h : quicksortPointers fnPred len rounds a s e = some r) :
    Ran fnPred len a s (e + 1) r (Meets fnPred (Call.PairWrong fnPred) ⟨a, s, e⟩) := by
  obtain ⟨code, rfl⟩ := (doesNothing_small fnPred len hse hsmall he).result h
  apply ran_nothing
  rw [meets_small hsmall]
  rcases Nat.eq_or_lt_of_le hse with rfl | hlt
  · refine iff_of_true (sortedOn_empty _ _ le_rfl) fun hwrong => ?_
    exact absurd hwrong.1 (by dsimp only; omega)
  · obtain rfl : e = s + 1 := by omega
    constructor
    · intro hsorted hwrong
      exact absurd (hsorted s (s + 1) le_rfl hlt (Nat.lt_succ_self _)) (not_le.2 hwrong.2)
    · intro hright i j h1 h2 h3
      obtain rfl : i = s := by omega
      obtain rfl : j = i + 1 := by omega
      exact not_lt.1 fun hpos => hright ⟨rfl, hpos⟩

/-- Whatever a run that returns leaves: the range rearranged, and sorted unless a pair was left in the wrong order. -/
theorem ran (hcmp : TotalPreorder fnPred) (hlen : len < 2 ^ 64) (hse : s ≤ e) (he : e < len)
    (h : quicksortPointers fnPred len rounds a s e = some r) :
    Ran fnPred len a s (e + 1) r (Meets fnPred (Call.PairWrong fnPred) ⟨a, s, e⟩) := by
  induction rounds using Nat.strong_induction_on generalizing a s e r with
  | _ rounds ih =>
    by_cases hsmall : e < s + 2
    · exact ran_small hse hsmall (by omega) h
    · obtain ⟨n, sp, l, r', rfl, hsp, hl, hr', rfl⟩ := run_large (by omega) (by omega) h
      have hdone := splitDone_of_some hcmp (by omega) (by omega) hsp
      have hhigh := hdone.high
      obtain ⟨hleft, hcall⟩ := ran_left hlen hdone he hl fun hlt hl =>
        ih n (Nat.lt_succ_self n) (by omega) (by omega) hl
      obtain ⟨hright, hcall'⟩ := ran_right hlen hhigh he hr' fun hlt hr' =>
        ih n (Nat.lt_succ_self n) (by omega) he hr'
      -- the second call finds its range as the partition step left it
      have hagree : AgreeOn (sp.ind + 1) e sp.arr l.arr :=
        fun k h1 _ => (hleft.rearranged.outside (Or.inr (by omega))).symm
      have hpart : Meets fnPred (Call.PairWrong fnPred) ⟨l.arr, sp.ind + 1, e⟩ ↔
          Meets fnPred (Call.PairWrong fnPred) ⟨sp.arr, sp.ind + 1, e⟩ :=
        ⟨fun hm => meets_pairWrong_congr hcmp hm (by dsimp only; omega) fun k h1 h2 => (hagree k h1 h2).symm,
          fun hm => meets_pairWrong_congr hcmp hm (by dsimp only; omega) hagree⟩
      have hhere : ¬ Call.PairWrong fnPred ⟨a, s, e⟩ := fun hwrong => absurd hwrong.1 (by dsimp only; omega)
      rw [meets_large (by omega) hsp, or_iff_right hhere, ← hpart]
      exact Ran.join hcmp hdone hleft hright hcall hcall'

/-- a run that returns has met no range with its least element at the end -/
theorem not_underruns (hcmp : TotalPreorder fnPred) (hlen : len < 2 ^ 64) (hse : s ≤ e) (he : e < len)
    (h : quicksortPointers fnPred len rounds a s e = some r) : ¬ Meets fnPred (Call.Underruns fnPred) ⟨a, s, e⟩ := by
  induction rounds using Nat.strong_induction_on generalizing a s e r with
  | _ rounds ih =>
    by_cases hsmall : e < s + 2
    · rw [meets_small hsmall]
      rintro ⟨hzero, htwo, -⟩
      dsimp only at hzero htwo
      omega
    · obtain ⟨n, sp, l, r', rfl, hsp, hl, -, -⟩ := run_large (by omega) (by omega) h
      have hdone := splitDone_of_some hcmp (by omega) (by omega) hsp
      have hhigh := hdone.high
      rw [meets_large (by omega) hsp]
      rintro (⟨hzero, -, hall⟩ | ⟨hlt, hm⟩ | ⟨hlt, hm⟩)
      · dsimp only at hzero hall
        have hfirst : sp.ind = s := hdone.first.2 fun k _ hk => hall k hk
        rw [hfirst, hzero, underrun_none fnPred hlen] at hl
        cases hl
      · rw [sub64_of_le (by omega) (by omega)] at hl
        exact ih n (Nat.lt_succ_self n) (by omega) (by omega) hl hm
      · exact absurd (underruns_zero hm) (Nat.succ_ne_zero _)

/-- a run that meets no such range returns, with as many rounds as there are elements behind the first -/
theorem returns (hcmp : TotalPreorder fnPred) (hlen : len < 2 ^ 64) (hse : s ≤ e) (he : e < len)
    (hrounds : e ≤ s + rounds) (hfree : ¬ Meets fnPred (Call.Underruns fnPred) ⟨a, s, e⟩) :
    ∃ r, quicksortPointers fnPred len rounds a s e = some r := by
  induction rounds generalizing a s e with
  | zero =>
    exact (doesNothing_small fnPred len hse (by omega) (by omega)).returns 0 a
  | succ n ih =>
    by_cases hsmall : e < s + 2
    · exact (doesNothing_small fnPred len hse hsmall (by omega)).returns (n + 1) a
    · obtain ⟨sp, hsp, hdone⟩ := quicksortSplit_spec hcmp a (by omega) (by omega) (n + 1) hrounds
      have hlow := hdone.low
      have hhigh := hdone.high
      rw [meets_large (by omega) hsp, not_or, not_or] at hfree
      obtain ⟨hhere, hleft, -⟩ := hfree
      obtain ⟨l, hl⟩ : ∃ l, quicksortPointers fnPred len n sp.arr s (sub64 sp.ind 1) = some l := by
        rcases left_call fnPred len hlow (by omega) with ⟨hlt, hpred⟩ | ⟨-, -, hnothing⟩ | ⟨heq, hzero⟩
        · rw [hpred]
          exact ih (by omega) (by omega) (by omega) fun hm => hleft ⟨hlt, hm⟩
        · exact hnothing.returns n sp.arr
        · refine absurd ⟨hzero, ?_, fun k hk => ?_⟩ hhere
          · dsimp only
            omega
          · exact hdone.first.1 heq.symm k (by omega) hk
      obtain ⟨r', hr'⟩ : ∃ r', quicksortPointers fnPred len n l.arr (u64 (sp.ind + 1)) e = some r' := by
        obtain ⟨hsucc, hcall⟩ := right_call fnPred len hhigh (by omega)
        rw [hsucc]
        rcases hcall with hlt | ⟨-, hnothing⟩
        · exact ih hlt he (by omega) fun hm => absurd (underruns_zero hm) (Nat.succ_ne_zero _)
        · exact hnothing.returns n l.arr
      exact large_run (by omega) (by omega) hsp (fun k hk => by have := hdone.touched k hk; omega) hl hr'

end Runs

/-! ## Results -/

section Results

variable {E : Type} (fnPred : E → E → ℤ)

/-- the call returns, and the elements of the range are those from before, in non-decreasing order -/
def Sorts (len : ℕ) (a : ℕ → E) (s e : ℕ) : Prop := ∃ rounds r, quicksortPointers fnPred len rounds a s e = some r ∧
  Rearranged s (e + 1) a r.arr ∧ SortedOn (fun x y => fnPred x y ≤ 0) s (e + 1) r.arr

/-- likewise for the elements of a vector, of which nothing else changes -/
def VectorSorts (v : Vector E) (s e : ℕ) : Prop :=
  ∃ rounds mem, vectorSort fnPred rounds v s e = some { v with dataPtr := { v.dataPtr with mem := mem } } ∧
    Rearranged s (e + 1) v.dataPtr.mem mem ∧ SortedOn (fun x y => fnPred x y ≤ 0) s (e + 1) mem

/-- the call returns, its recursive calls are on ranges inside or do nothing, and it touches no cell outside -/
def StaysInRange (len : ℕ) (a : ℕ → E) (s e : ℕ) : Prop :=
  ∃ rounds r, quicksortPointers fnPred len rounds a s e = some r ∧ (∀ c ∈ r.calls, Inside fnPred len s (e + 1) c) ∧
    ∀ k ∈ r.touched, s ≤ k ∧ k ≤ e

variable {fnPred} {len s e : ℕ} {a : ℕ → E}

theorem vectorSorts_iff (v : Vector E) :
    VectorSorts fnPred v s e ↔ Sorts fnPred (v.dataPtr.size / ptrBytes) v.dataPtr.mem s e := by
  constructor
  · rintro ⟨rounds, mem, hrun, hrest⟩
    obtain ⟨r, hr, heq⟩ := Option.map_eq_some_iff.1 hrun
    have hmem : r.arr = mem := congrArg (fun w : Vector E => w.dataPtr.mem) heq
    rw [← hmem] at hrest
    exact ⟨rounds, r, hr, hrest⟩
  · rintro ⟨rounds, r, hr, hrest⟩
    refine ⟨rounds, r.arr, ?_, hrest⟩
    rw [vectorSort, hr, Option.map_some]

/-- Quicksort sorts exactly if its recursion meets no pair in the wrong order and no range from index 0 on with its least
element at the end. -/
theorem sorts_of (hcmp : TotalPreorder fnPred) (hlen : len < 2 ^ 64) (hse : s ≤ e) (he : e < len) :
    Sorts fnPred len a s e ↔
      ¬ Meets fnPred (Call.PairWrong fnPred) ⟨a, s, e⟩ ∧ ¬ Meets fnPred (Call.Underruns fnPred) ⟨a, s, e⟩ := by
  constructor
  · rintro ⟨rounds, r, hr, -, hsorted⟩
    exact ⟨(ran hcmp hlen hse he hr).sorted.1 hsorted, not_underruns hcmp hlen hse he hr⟩
  · rintro ⟨hpairs, hfree⟩
    obtain ⟨r, hr⟩ := returns hcmp hlen hse he (Nat.le_add_left e s) hfree
    have hran := ran hcmp hlen hse he hr
    exact ⟨e, r, hr, hran.rearranged, hran.sorted.2 hpairs⟩

/-- Quicksort stays in its range exactly if its recursion meets no range from index 0 on with its least element at the
end. -/
theorem staysInRange_of (hcmp : TotalPreorder fnPred) (hlen : len < 2 ^ 64) (hse : s ≤ e) (he : e < len) :
    StaysInRange fnPred len a s e ↔ ¬ Meets fnPred (Call.Underruns fnPred) ⟨a, s, e⟩ := by
  constructor
  · rintro ⟨rounds, r, hr, -⟩
    exact not_underruns hcmp hlen hse he hr
  · intro hfree
    obtain ⟨r, hr⟩ := returns hcmp hlen hse he (Nat.le_add_left e s) hfree
    have hran := ran hcmp hlen hse he hr
    exact ⟨e, r, hr, hran.calls, fun k hk => ⟨(hran.touched k hk).1, Nat.lt_succ_iff.1 (hran.touched k hk).2⟩⟩

end Results

end Noriko.Sort
