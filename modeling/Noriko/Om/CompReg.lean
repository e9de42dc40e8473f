/-
The component registry of the application (`application.c`): `NkApplicationQueryInstance` and
`NkApplicationReplaceInstance`.

The registry is a hash table from class ids to NkOM instances whose element destructor releases the instance. Replacing an
instance erases the entry of its class, inserts the new instance and takes a reference on it. The books keep apart the
references that the registry holds (`held`) and those that a query hands to its caller. The table hashes the address of a
class id, so a class id stands for one such object of the program, and equal ids at two addresses are outside of the model.

The reference on the new instance is taken whether or not it could be inserted. `compReg_run` says that the registry holds
exactly one reference for every entry as long as there is room for every instance that is registered (`Roomy`), and only
then. A failed insertion is the only way to break the books.
-/
import Noriko.Dstruct.HtableOwn
import Noriko.Lib.RefCount
import Noriko.Lib.Sim

namespace Noriko.Om

open Lib Dstruct

variable {K O : Type}

/-! ## The registry -/

/-- the properties of the component registry -/
def compRegProps : HashtableProperties := ⟨16, 16, 1024, .uuid, true⟩

/-- `mp_compReg` and the counters of the instances; `held` are the references that the registry has taken and not
dropped -/
structure CompReg (K O : Type) where
  compReg : Hashtable K O
  refs : Refs O
  held : O → ℤ

inductive CompOp (K O : Type) where
  | query (clsId : K)
  | replace (clsId : K) (newCompRef : Option O) (heap : Bool)

section Calls

variable [DecidableEq O]

/-- `Release` by `__NkInt_NkOM_CompRegDestFn` -/
def compRegDest (s : CompReg K O) (c : FreeCall K O) : CompReg K O :=
  match c.valPtr with
  | some o => { s with refs := s.refs.release o, held := Function.update s.held o (s.held o - 1) }
  | none => s

/-- `AddRef` on an instance that was registered -/
def compRegAdd (s : CompReg K O) (o : O) : CompReg K O :=
  { s with refs := s.refs.addRef o, held := Function.update s.held o (s.held o + 1) }

/-- `__NkInt_NkOM_PreShutdown`: the registry is destroyed -/
def compRegDestroy (s : CompReg K O) : CompReg K O := (hashtableDestroy s.compReg).foldl compRegDest s

variable [DecidableEq K] [Inhabited K] [Inhabited O]

/-- `NkApplicationQueryInstance` -/
def applicationQueryInstance (H : HashFn K) (clsId : K) (s : CompReg K O) : Option O × CompReg K O :=
  match hashtableAt H s.compReg clsId with
  | (.ok, some o) => (some o, { s with refs := s.refs.addRef o })
  | _ => (none, s)

/-- `NkHashtableErase` on the component registry -/
def compRegErase (H : HashFn K) (clsId : K) (s : CompReg K O) : CompReg K O :=
  let r := hashtableErase H s.compReg clsId
  r.2.1.foldl compRegDest { s with compReg := r.2.2 }

/-- `NkApplicationReplaceInstance`; the code of the insertion is only logged -/
def applicationReplaceInstance (H : HashFn K) (clsId : K) (newCompRef : Option O) (heap : Bool) (s : CompReg K O) :
    Option (CompReg K O) :=
  let s := compRegErase H clsId s
  match newCompRef with
  | none => some s
  | some o => (hashtableInsert H s.compReg ⟨clsId, o⟩ heap).map fun r => compRegAdd { s with compReg := r.2 } o

/-- one call: the instance it returns and the registry after it, if it returns -/
def compStep (H : HashFn K) (s : CompReg K O) : CompOp K O → Option (Option O × CompReg K O)
  | .query clsId => some (applicationQueryInstance H clsId s)
  | .replace clsId newCompRef heap => (applicationReplaceInstance H clsId newCompRef heap s).map fun t => (none, t)

end Calls

/-! ## Entries -/

structure CompInv (s : CompReg K O) : Prop where
  table : HtInv s.compReg
  props : s.compReg.htProps = compRegProps

/-- the instance registered for a class -/
def instanceOf [DecidableEq K] (s : CompReg K O) (clsId : K) : Option O :=
  (pairOf s.compReg clsId).map HashtablePair.valuePtr

/-- the registry holds one reference for every entry -/
def HeldRight [DecidableEq O] (s : CompReg K O) : Prop := ∀ o, s.held o = pointing (stored s.compReg.elemArray) o

/-- 1 if the instance is the given one -/
def one [DecidableEq O] (x : Option O) (o : O) : ℤ := if x = some o then 1 else 0

section Registry

variable [DecidableEq K] [Inhabited K] [DecidableEq O] [Inhabited O] {H : HashFn K} {s t : CompReg K O}

omit [Inhabited K] [Inhabited O] [DecidableEq O] in
theorem instanceOf_eq (h : CompInv s) {q : HashtablePair K O} (hq : q ∈ stored s.compReg.elemArray) :
    instanceOf s q.keyVal = some q.valuePtr := by
  unfold instanceOf
  rw [pairOf_eq h.table hq]
  rfl

omit [Inhabited K] [Inhabited O] [DecidableEq O] in
theorem instanceOf_none {clsId : K} (h : ∀ q ∈ stored s.compReg.elemArray, q.keyVal ≠ clsId) :
    instanceOf s clsId = none := by
  have hnone : pairOf s.compReg clsId = none := List.find?_eq_none.2 fun q hq => by simpa using h q hq
  unfold instanceOf
  rw [hnone]
  rfl

omit [DecidableEq K] [Inhabited K] [Inhabited O] in
theorem one_some (x o : O) : one (some x) o = if o = x then 1 else 0 := by
  unfold one
  simp only [Option.some.injEq, eq_comm]

/-! ## Erasing -/

omit [DecidableEq O] in
/-- what is left in the table after the entry of a class was erased -/
theorem erase_others (h : CompInv s) (clsId : K) :
    (stored (hashtableErase H s.compReg clsId).2.2.elemArray).Perm
      ((stored s.compReg.elemArray).filter fun q => q.keyVal ≠ clsId) := by
  have hfree : s.compReg.htProps.fnElemFree = true := by
    rw [h.props]
    rfl
  rcases hashtableErase_cases (H := H) h.table hfree clsId with ⟨q, hq, hkey, hperm, -⟩ | ⟨hnone, hperm, -⟩
  · have hkeys := (hperm.map HashtablePair.keyVal).nodup_iff.1 h.table.keys
    rw [List.map_cons, List.nodup_cons] at hkeys
    have hrest : (stored (hashtableErase H s.compReg clsId).2.2.elemArray).filter (fun r => r.keyVal ≠ clsId) =
        stored (hashtableErase H s.compReg clsId).2.2.elemArray := by
      rw [List.filter_eq_self]
      intro r hr
      refine decide_eq_true fun heq => hkeys.1 ?_
      exact List.mem_map.2 ⟨r, hr, heq.trans hkey.symm⟩
    have hfilter := hperm.filter fun r => decide (r.keyVal ≠ clsId)
    rw [List.filter_cons_of_neg (by simp [hkey]), hrest] at hfilter
    exact hfilter.symm
  · have hall : (stored s.compReg.elemArray).filter (fun q => q.keyVal ≠ clsId) = stored s.compReg.elemArray := by
      rw [List.filter_eq_self]
      exact fun r hr => decide_eq_true (hnone r hr)
    rw [hall]
    exact hperm

/-- the erased instance loses one reference of the registry -/
theorem compRegErase_spec (h : CompInv s) (clsId : K) : CompInv (compRegErase H clsId s) ∧
    (∀ o, (compRegErase H clsId s).refs.count o = s.refs.count o - one (instanceOf s clsId) o) ∧
    (∀ o, (compRegErase H clsId s).held o = s.held o - one (instanceOf s clsId) o) ∧
    ∀ o, pointing (stored (compRegErase H clsId s).compReg.elemArray) o =
      pointing (stored s.compReg.elemArray) o - one (instanceOf s clsId) o := by
  have hfree : s.compReg.htProps.fnElemFree = true := by
    rw [h.props]
    rfl
  obtain ⟨hinv, hprops, -, -⟩ := hashtableErase_own (H := H) h.table hfree clsId
  have hprops' := hprops.trans h.props
  unfold compRegErase
  dsimp only
  rcases hashtableErase_cases (H := H) h.table hfree clsId with ⟨q, hq, hkey, hperm, hcalls⟩ | ⟨hnone, hperm, hcalls⟩
  · have hinst := instanceOf_eq h hq
    rw [hkey] at hinst
    rw [hcalls, hinst]
    refine ⟨⟨hinv, hprops'⟩, fun o => ?_, fun o => ?_, fun o => ?_⟩
    · change (s.refs.release q.valuePtr).count o = _
      rw [one_some]
      by_cases ho : o = q.valuePtr
      · rw [ho, Refs.release_count_self, if_pos rfl]
      · rw [Refs.release_count_of_ne ho, if_neg ho, sub_zero]
    · change Function.update s.held q.valuePtr (s.held q.valuePtr - 1) o = _
      rw [one_some]
      by_cases ho : o = q.valuePtr
      · rw [ho, Function.update_self, if_pos rfl]
      · rw [Function.update_of_ne ho, if_neg ho, sub_zero]
    · change pointing (stored (hashtableErase H s.compReg clsId).2.2.elemArray) o = _
      rw [pointing_perm hperm, pointing_cons, one_some]
      ring
  · rw [hcalls, instanceOf_none hnone]
    have hzero : ∀ o : O, one (none : Option O) o = 0 := fun _ => rfl
    refine ⟨⟨hinv, hprops'⟩, fun o => ?_, fun o => ?_, fun o => ?_⟩
    · rw [hzero, sub_zero]
      rfl
    · rw [hzero, sub_zero]
      rfl
    · rw [hzero, sub_zero]
      exact pointing_perm hperm o

/-- erasing leaves the array as large as it is, with the entries of the other classes -/
theorem compRegErase_table (h : CompInv s) (clsId : K) :
    (compRegErase H clsId s).compReg = (hashtableErase H s.compReg clsId).2.2 ∧
      (compRegErase H clsId s).compReg.currCap = s.compReg.currCap ∧
      (compRegErase H clsId s).compReg.elemCount =
        ((stored s.compReg.elemArray).filter fun q => q.keyVal ≠ clsId).length := by
  have hfold : ∀ (calls : List (FreeCall K O)) (s : CompReg K O), (calls.foldl compRegDest s).compReg = s.compReg := by
    intro calls
    induction calls with
    | nil => exact fun _ => rfl
    | cons c calls ih =>
      intro s
      rw [List.foldl_cons, ih]
      unfold compRegDest
      split <;> rfl
  have htable : (compRegErase H clsId s).compReg = (hashtableErase H s.compReg clsId).2.2 := hfold _ _
  have hcap : (hashtableErase H s.compReg clsId).2.2.currCap = s.compReg.currCap := by
    unfold hashtableErase
    dsimp only
    split_ifs <;> rfl
  refine ⟨htable, by rw [htable, hcap], ?_⟩
  rw [(compRegErase_spec h clsId).1.table.count, htable, (erase_others h clsId).length_eq]

/-! ## The calls -/

theorem query_spec (h : CompInv s) (clsId : K) : (applicationQueryInstance H clsId s).1 = instanceOf s clsId ∧
    (applicationQueryInstance H clsId s).2.compReg = s.compReg ∧ (applicationQueryInstance H clsId s).2.held = s.held ∧
    ∀ o, (applicationQueryInstance H clsId s).2.refs.count o = s.refs.count o + one (instanceOf s clsId) o := by
  unfold applicationQueryInstance instanceOf
  rw [hashtableAt_pairOf h.table]
  cases hpair : pairOf s.compReg clsId with
  | none => exact ⟨rfl, rfl, rfl, fun o => (add_zero _).symm⟩
  | some q =>
    refine ⟨rfl, rfl, rfl, fun o => ?_⟩
    change (s.refs.addRef q.valuePtr).count o = s.refs.count o + one (some q.valuePtr) o
    rw [one_some]
    by_cases ho : o = q.valuePtr
    · rw [ho, Refs.addRef_count_self, if_pos rfl]
    · rw [Refs.addRef_count_of_ne ho, if_neg ho, add_zero]

/-- the table takes an instance for the class: the other classes leave a place, and the heap serves the growth if they
load the array too much -/
def HasRoom (s : CompReg K O) (clsId : K) (heap : Bool) : Prop :=
  let others := ((stored s.compReg.elemArray).filter fun q => q.keyVal ≠ clsId).length
  others + 1 ≤ 1024 ∧ (loadExceeded (others + 1) s.compReg.currCap → heap = true)

omit [DecidableEq K] [Inhabited K] [DecidableEq O] [Inhabited O] in
/-- the limit keeps every new capacity far below 32 bits -/
theorem compReg_fits {ht : Hashtable K O} (hp : ht.htProps = compRegProps) : InsertFits ht 1 := by
  intro hmax _
  rw [hp] at hmax
  exact lt_of_le_of_lt hmax (by decide)

/-- replacing always returns; the new instance gets a reference in any case, but an entry only if there is room -/
theorem replace_spec (h : CompInv s) (clsId : K) (o : O) (heap : Bool) :
    ∃ t, applicationReplaceInstance H clsId (some o) heap s = some t ∧ CompInv t ∧
      (∀ x, t.refs.count x = s.refs.count x - one (instanceOf s clsId) x + one (some o) x) ∧
      (∀ x, t.held x = s.held x - one (instanceOf s clsId) x + one (some o) x) ∧
      (HasRoom s clsId heap → ∀ x, pointing (stored t.compReg.elemArray) x =
        pointing (stored s.compReg.elemArray) x - one (instanceOf s clsId) x + one (some o) x) ∧
      (¬ HasRoom s clsId heap → ∀ x, pointing (stored t.compReg.elemArray) x =
        pointing (stored s.compReg.elemArray) x - one (instanceOf s clsId) x) := by
  obtain ⟨hinv, hcount, hheld, hpoint⟩ := compRegErase_spec (H := H) h clsId
  obtain ⟨htable, hcap, helems⟩ := compRegErase_table (H := H) h clsId
  obtain ⟨c, ht, hins, hcode⟩ := hashtableInsert_code (H := H) (by decide) (by decide) hinv.table hinv.props
    (compReg_fits hinv.props) ⟨clsId, o⟩ heap
  have hroom : c = .ok ↔ HasRoom s clsId heap := by
    rw [hcode, helems, hcap]
    exact Iff.rfl
  have hcount' : ∀ x, (compRegAdd { compRegErase H clsId s with compReg := ht } o).refs.count x =
      s.refs.count x - one (instanceOf s clsId) x + one (some o) x := by
    intro x
    rw [← hcount, one_some]
    change ((compRegErase H clsId s).refs.addRef o).count x = _
    by_cases hx : x = o
    · rw [hx, Refs.addRef_count_self, if_pos rfl]
    · rw [Refs.addRef_count_of_ne hx, if_neg hx, add_zero]
  have hheld' : ∀ x, (compRegAdd { compRegErase H clsId s with compReg := ht } o).held x =
      s.held x - one (instanceOf s clsId) x + one (some o) x := by
    intro x
    rw [← hheld, one_some]
    change Function.update (compRegErase H clsId s).held o ((compRegErase H clsId s).held o + 1) x = _
    by_cases hx : x = o
    · rw [hx, Function.update_self, if_pos rfl]
    · rw [Function.update_of_ne hx, if_neg hx, add_zero]
  refine ⟨compRegAdd { compRegErase H clsId s with compReg := ht } o, ?_, ?_⟩
  · unfold applicationReplaceInstance
    dsimp only
    rw [hins]
    rfl
  have hgone : ∀ q ∈ stored (compRegErase H clsId s).compReg.elemArray, q.keyVal ≠ clsId := by
    intro q hq
    rw [htable, (erase_others h clsId).mem_iff] at hq
    exact of_decide_eq_true (List.mem_filter.1 hq).2
  rcases hashtableInsert_cases (by decide) (by decide) hinv.table hinv.props hins with
    ⟨hc, rfl⟩ | ⟨hc, hinv', hprops', ⟨⟨q, hq, hkey⟩, -⟩ | ⟨-, hperm⟩⟩
  · -- the instance is not registered but has its reference
    refine ⟨⟨hinv.table, hinv.props⟩, hcount', hheld', fun hr => absurd (hroom.2 hr) hc, fun _ x => hpoint x⟩
  · exact absurd hkey (hgone q hq)
  · refine ⟨⟨hinv', hprops'⟩, hcount', hheld', fun _ x => ?_, fun hr => absurd (hroom.1 hc) hr⟩
    change pointing (stored ht.elemArray) x = _
    rw [pointing_perm hperm, pointing_cons, hpoint, one_some]

omit [DecidableEq K] [Inhabited K] [Inhabited O] in
/-- a registry whose books are right drops all its references when it is destroyed -/
theorem compRegDestroy_held (h : CompInv s) (hheld : HeldRight s) (o : O) : (compRegDestroy s).held o = 0 := by
  have hfold : ∀ (l : List (HashtablePair K O)) (s : CompReg K O),
      ((l.map destroyCall).foldl compRegDest s).held o = s.held o - pointing l o := by
    intro l
    induction l with
    | nil => exact fun s => (sub_zero _).symm
    | cons q l ih =>
      intro s
      rw [List.map_cons, List.foldl_cons, ih, pointing_cons]
      change Function.update s.held q.valuePtr (s.held q.valuePtr - 1) o - _ = _
      by_cases ho : o = q.valuePtr
      · rw [ho, Function.update_self, if_pos rfl]
        ring
      · rw [Function.update_of_ne ho, if_neg ho, add_zero]
  unfold compRegDestroy
  rw [hashtableDestroy_eq h.table.count (by rw [h.props]; rfl), hfold, hheld o, sub_self]

/-! ## Runs -/

/-- the condition on a call: an instance is only registered where there is room for it -/
def Roomy (s : CompReg K O) : CompOp K O → Prop
  | .replace clsId (some _) heap => HasRoom s clsId heap
  | _ => True

/-- a query adds one reference on what it returns; the replaced instance loses one reference and the new one gets one -/
def CountsRight (s : CompReg K O) : CompOp K O → Option O → CompReg K O → Prop
  | .query clsId, r, t => r = instanceOf s clsId ∧ ∀ o, t.refs.count o = s.refs.count o + one r o
  | .replace clsId newCompRef _, _, t =>
    ∀ o, t.refs.count o = s.refs.count o - one (instanceOf s clsId) o + one newCompRef o

theorem compStep_inv (h : CompInv s) {op : CompOp K O} {r : Option O} (hs : compStep H s op = some (r, t)) :
    CompInv t := by
  cases op with
  | query clsId =>
    have hq : applicationQueryInstance H clsId s = (r, t) := Option.some.inj hs
    have htable : t.compReg = s.compReg := by
      have hsame := (query_spec (H := H) h clsId).2.1
      rwa [hq] at hsame
    exact ⟨by rw [htable]; exact h.table, by rw [htable]; exact h.props⟩
  | replace clsId newCompRef heap =>
    obtain ⟨u, hu, heq⟩ := Option.map_eq_some_iff.1 hs
    cases heq
    cases newCompRef with
    | none =>
      cases hu
      exact (compRegErase_spec h clsId).1
    | some o =>
      obtain ⟨v, hv, hinv, -⟩ := replace_spec (H := H) h clsId o heap
      rw [hv] at hu
      cases hu
      exact hinv

/-- the counts are always right; the registry's own books are right after a call exactly if there was room -/
theorem compStep_kept (h : CompInv s) (hheld : HeldRight s) {op : CompOp K O} {r : Option O}
    (hs : compStep H s op = some (r, t)) : HeldRight t ∧ CountsRight s op r t ↔ Roomy s op := by
  cases op with
  | query clsId =>
    have hq : applicationQueryInstance H clsId s = (r, t) := Option.some.inj hs
    obtain ⟨hres, htable, hsame, hcount⟩ := query_spec (H := H) h clsId
    rw [hq] at hres htable hsame hcount
    refine ⟨fun _ => trivial, fun _ => ⟨fun o => ?_, hres, fun o => by rw [hcount, ← hres]⟩⟩
    rw [hsame, htable]
    exact hheld o
  | replace clsId newCompRef heap =>
    obtain ⟨u, hu, heq⟩ := Option.map_eq_some_iff.1 hs
    cases heq
    cases newCompRef with
    | none =>
      cases hu
      obtain ⟨-, hcount, hheld', hpoint⟩ := compRegErase_spec (H := H) h clsId
      refine ⟨fun _ => trivial, fun _ => ⟨fun o => ?_, fun o => ?_⟩⟩
      · rw [hheld', hpoint, hheld o]
      · rw [hcount]
        exact (add_zero _).symm
    | some o =>
      obtain ⟨v, hv, -, hcount, hheld', hin, hout⟩ := replace_spec (H := H) h clsId o heap
      rw [hv] at hu
      cases hu
      constructor
      · rintro ⟨hright, -⟩
        by_contra hroom
        have ho := hright o
        rw [hheld', hheld o, hout hroom o, one_some, if_pos rfl] at ho
        omega
      · intro hroom
        refine ⟨fun x => ?_, hcount⟩
        rw [hheld', hheld x, hin hroom x]

/-- every call returns -/
theorem compStep_returns (H : HashFn K) (h : CompInv s) (op : CompOp K O) : ∃ x, compStep H s op = some x := by
  cases op with
  | query clsId => exact ⟨_, rfl⟩
  | replace clsId newCompRef heap =>
    cases newCompRef with
    | none => exact ⟨_, rfl⟩
    | some o =>
      obtain ⟨v, hv, -⟩ := replace_spec (H := H) h clsId o heap
      exact ⟨_, by rw [compStep, hv]; rfl⟩

/-- In every run of queries and replacements, each of which returns, the registry holds one reference for every entry and
every call counts right exactly if there is room for every instance that is registered. -/
theorem compReg_run (h : CompInv s) (hheld : HeldRight s) (ops : List (CompOp K O)) :
    (EachStep (compStep H) (fun s op r t => HeldRight t ∧ CountsRight s op r t) s ops ↔
      EachStep (compStep H) (fun s op _ _ => Roomy s op) s ops) ∧
    ∀ op, ∃ x, compStep H s op = some x := by
  have hstep : ∀ (s : CompReg K O) (op : CompOp K O) (r : Option O) (t : CompReg K O), CompInv s ∧ HeldRight s →
      compStep H s op = some (r, t) → (HeldRight t ∧ CountsRight s op r t ↔ Roomy s op) :=
    fun _ _ _ _ hs hrun => compStep_kept hs.1 hs.2 hrun
  refine ⟨eachStep_iff hstep (fun s op r t hs hrun hkept => ⟨compStep_inv hs.1 hrun, hkept.1⟩) ⟨h, hheld⟩ ops, ?_⟩
  exact compStep_returns H h

end Registry

/-- nothing is registered; every instance has one reference of its own -/
def emptyCompReg : CompReg ℕ ℕ := ⟨hashtableCreate compRegProps, ⟨fun _ => 1, fun _ => 0, 0⟩, fun _ => 0⟩

theorem compInv_empty : CompInv emptyCompReg := ⟨(simulates_create (by decide) (by decide)).inv, rfl⟩

theorem stored_emptyCompReg : stored emptyCompReg.compReg.elemArray = [] := stored_replicate 16

theorem heldRight_empty : HeldRight emptyCompReg := by
  intro o
  rw [stored_emptyCompReg]
  rfl

/-- an instance is registered and queried -/
theorem compReg_run_query : EachStep (compStep modHash) (fun s op r t => HeldRight t ∧ CountsRight s op r t) emptyCompReg
    [.replace 5 (some 1) true, .query 5] := by
  refine (compReg_run compInv_empty heldRight_empty _).1.2 fun _ _ _ => ⟨?_, fun _ _ _ => ⟨trivial, trivial⟩⟩
  refine ⟨?_, fun _ => rfl⟩
  rw [stored_emptyCompReg]
  decide

/-- eleven instances are registered; the array must grow for the twelfth, and the heap cannot serve it -/
def twelveInstances : List (CompOp ℕ ℕ) :=
  (List.range 11).map (fun k => .replace k (some k) true) ++ [.replace 11 (some 11) false]

/-- the twelfth instance has a reference of the registry and no entry -/
theorem compReg_broken : CompInv emptyCompReg ∧ HeldRight emptyCompReg ∧
    ¬ EachStep (compStep modHash) (fun s op r t => HeldRight t ∧ CountsRight s op r t) emptyCompReg twelveInstances := by
  refine ⟨compInv_empty, heldRight_empty, fun hrun => ?_⟩
  have heval : (outputs (compStep modHash) emptyCompReg twelveInstances).map
      (fun x => (x.2.held 11, pointing (stored x.2.compReg.elemArray) 11)) = some (1, 0) := by decide +kernel
  obtain ⟨⟨rs, t⟩, hout, heq⟩ := Option.map_eq_some_iff.1 heval
  have hright : HeldRight t := hrun.last (fun _ _ _ _ h => h.1) hout heldRight_empty
  obtain ⟨hheld, hpoint⟩ := Prod.mk.inj heq
  have h11 := hright 11
  rw [hheld, hpoint] at h11
  cases h11

end Noriko.Om
