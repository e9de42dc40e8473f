/-
Queries of the environment store (`NkEnvGetValue` of `env.c`).

An option without a value is stored with `NULL` for its value, and the query copies the value without a look at the pointer.
The engine itself asks for such an option after start-up (`__NkInt_Env_PostStartup` of `application.c`).

A query is right exactly if the key is not defined, or if the string that defines it has a value that is not a lone quotation
mark, whose view is not well-formed (`envGetValue_right_iff`).
-/
import Noriko.Env.Bounds

namespace Noriko.Env

open Lib Dstruct

/-! ## The call -/

/-- a variant, which can be empty (`NkVarTy_None`) -/
inductive QueryVariant where
  | empty
  | value (v : NkVariant)
deriving DecidableEq

/-- what becomes of a query: it returns, with what it wrote to `*valPtr`, or it follows a `NULL` -/
inductive QueryOutcome where
  | returns (errCode : NkErrorCode) (valPtr : Option QueryVariant)
  | nullPointer
deriving DecidableEq

/-- `NkVariantCopy`; a pointer that is `NULL` is followed as it is -/
def variantCopy (srcPtr : Option NkVariant) : QueryOutcome :=
  match srcPtr with
  | none => .nullPointer
  | some v => .returns .ok (some (.value v))

/-- `NkEnvGetValue` -/
def envGetValue (H : HashFn (List UInt8)) (s : EnvState) (keyStr : List UInt8) : QueryOutcome :=
  match hashtableAt H s.envStore keyStr with
  | (.ok, some varPtr) => variantCopy varPtr.val
  | (errCode, _) => .returns errCode none

/-! ## What a query should do -/

/-- a number, or a view that is a part of its string -/
def NkVariant.WellFormed : NkVariant → Prop
  | .double _ => True
  | .stringView v => v.Inside

/-- the answer for a key with this definition: an error, the empty variant for a definition without a value, or its value -/
def QueryRight (H : HashFn (List UInt8)) (s : EnvState) (keyStr : List UInt8) : Option (Option NkVariant) → Prop
  | none => ∃ errCode, errCode ≠ .ok ∧ envGetValue H s keyStr = .returns errCode none
  | some none => envGetValue H s keyStr = .returns .ok (some .empty)
  | some (some v) => envGetValue H s keyStr = .returns .ok (some (.value v)) ∧ v.WellFormed

/-- the first string that was parsed to the key and stored -/
def firstDefinition (k : List UInt8) (l : List (EnvOp × EnvOutcome)) : Option EnvOp :=
  (l.find? fun x => (definition k x).isSome).map Prod.fst

/-- the option has a value, and it is not a lone quotation mark -/
def HasValue (o : EnvOp) : Prop :=
  leftTrimmed (optionBody o.optStr o.hasPrefix) ≠ [] ∧ leftTrimmed (optionBody o.optStr o.hasPrefix) ≠ [chQuote]

instance (o : EnvOp) : Decidable (HasValue o) := inferInstanceAs (Decidable (_ ∧ _))

section Query

variable {H : HashFn (List UInt8)} {s : EnvState} {k : List UInt8} {pre w : List UInt8} {v : NkVariant}

/-- a query in terms of the map that the store is -/
theorem envGetValue_eq (h : HtInv s.envStore) (k : List UInt8) :
    envGetValue H s k = (s.lookup H k).elim (.returns .itemNotFound none) variantCopy := by
  unfold envGetValue EnvState.lookup
  rw [hashtableAt_pairOf h]
  cases pairOf s.envStore k with
  | none => rfl
  | some q => rfl

theorem queryRight_iff (h : HtInv s.envStore) :
    QueryRight H s k (s.lookup H k) ↔ ∀ val, s.lookup H k = some val → ∃ v, val = some v ∧ v.WellFormed := by
  have heq := envGetValue_eq (H := H) h k
  cases hlook : s.lookup H k with
  | none =>
    rw [hlook] at heq
    exact iff_of_true ⟨.itemNotFound, nofun, heq⟩ nofun
  | some val =>
    rw [hlook] at heq
    cases val with
    | none =>
      refine iff_of_false ?_ fun hall => ?_
      · intro hright
        cases heq.symm.trans hright
      · obtain ⟨v, hv, -⟩ := hall none rfl
        cases hv
    | some v =>
      constructor
      · intro hright val hval
        cases hval
        exact ⟨v, rfl, hright.2⟩
      · intro hall
        obtain ⟨v', hv', hwf⟩ := hall (some v) rfl
        cases hv'
        exact ⟨heq, hwf⟩

/-- a value is well-formed unless its text is a lone quotation mark -/
theorem value_wellFormed_iff (hlen : (pre ++ w).length + 1 < 2 ^ 64) (hw : w ≠ []) (h0 : 0 ∉ w)
    (hv : parseValue (viewIn pre w []) = .ok v) : v.WellFormed ↔ w ≠ [chQuote] := by
  cases v with
  | stringView v => exact (textView_inside_iff hlen hw h0 hv).2
  | double text =>
    refine iff_of_true trivial ?_
    rintro rfl
    have hquote := @parseValue_eq pre [chQuote] (by decide) (by decide) (by decide)
    cases hv.symm.trans hquote

/-- the string of a definition has a value that is not a lone quotation mark exactly if the value is well-formed -/
theorem definition_wellFormed_iff {o : EnvOp} {r : EnvOutcome} {val : Option NkVariant} (h0 : 0 ∉ o.optStr)
    (hlen : o.optStr.length + 1 < 2 ^ 64) (hdef : definition k (o, r) = some val) :
    (∃ v, val = some v ∧ v.WellFormed) ↔ HasValue o := by
  have hparsed : ∃ q, (parsePair o.calls o.optStr o.hasPrefix Ledger.new).2.1 = some q ∧ q.valuePtr.val = val := by
    unfold definition EnvOp.parsed at hdef
    split_ifs at hdef
    obtain ⟨p, hp, hkey⟩ := Option.bind_eq_some_iff.1 hdef
    obtain ⟨q, hq, rfl⟩ := Option.map_eq_some_iff.1 hp
    split_ifs at hkey
    exact ⟨q, hq, Option.some.inj hkey⟩
  obtain ⟨q, hq, rfl⟩ := hparsed
  obtain ⟨name, hparse⟩ := parsePair_some hq
  obtain ⟨-, -, ⟨hw, hnone⟩ | ⟨hw, pre, v, hstr, hvalue, hval⟩⟩ := parseOption_ok hlen hparse
  · rw [hnone]
    refine iff_of_false ?_ fun h => h.1 hw
    rintro ⟨v, hv, -⟩
    cases hv
  · have hw0 : 0 ∉ leftTrimmed (optionBody o.optStr o.hasPrefix) := fun hmem => h0 (hstr ▸ List.mem_append_right pre hmem)
    rw [hstr] at hlen
    have hiff := value_wellFormed_iff hlen hw hw0 hvalue
    rw [hval]
    constructor
    · rintro ⟨v', hv', hwf⟩
      cases hv'
      exact ⟨hw, hiff.1 hwf⟩
    · intro h
      exact ⟨v, rfl, hiff.2 h.2⟩

/-- the first definition is that of the first string -/
theorem findSome_definition (k : List UInt8) (l : List (EnvOp × EnvOutcome)) {val : Option NkVariant}
    (h : l.findSome? (definition k) = some val) :
    ∃ o r, (o, r) ∈ l ∧ firstDefinition k l = some o ∧ definition k (o, r) = some val := by
  induction l with
  | nil => cases h
  | cons x l ih =>
    rw [List.findSome?_cons] at h
    cases hx : definition k x with
    | some val' =>
      rw [hx] at h
      cases h
      exact ⟨x.1, x.2, List.mem_cons_self, by simp [firstDefinition, hx], hx⟩
    | none =>
      rw [hx] at h
      obtain ⟨o, r, hmem, hfirst, hdef⟩ := ih h
      refine ⟨o, r, List.mem_cons_of_mem x hmem, ?_, hdef⟩
      rw [← hfirst]
      simp [firstDefinition, hx]

/-- the store after start-up: the table is in good order, and a key has its first definition -/
theorem envStartup_store {create errCode : NkErrorCode} {envp : Option EnvStrings} {argv : EnvStrings} {rs : List EnvOutcome}
    (hrun : envStartup H create envp argv = some (errCode, some s, rs)) (k : List UInt8) :
    HtInv s.envStore ∧ s.lookup H k = ((envOps envp argv).zip rs).findSome? (definition k) := by
  by_cases hcreate : create = .ok
  · subst hcreate
    rw [envStartup_eq] at hrun
    obtain ⟨⟨rs', t⟩, hout, heq⟩ := Option.map_eq_some_iff.1 hrun
    cases heq
    obtain ⟨hspec, hinv⟩ := outputs_firstWins newStore_inv hout
    have hvalues := firstWins_values hspec k
    rw [newStore_lookup, Option.none_or] at hvalues
    exact ⟨hinv.table, hvalues⟩
  · have hnone : envStartup H create envp argv = some (create, none, []) := if_pos hcreate
    cases hnone.symm.trans hrun

/-- After every start-up, a query is right exactly if the key is not defined, or if the string that defines it has a value
other than a lone quotation mark. -/
theorem envGetValue_right_iff {create errCode : NkErrorCode} {envp : Option EnvStrings} {argv : EnvStrings}
    {rs : List EnvOutcome} (hrun : envStartup H create envp argv = some (errCode, some s, rs))
    (hstr : ∀ o ∈ envOps envp argv, 0 ∉ o.optStr ∧ o.optStr.length + 1 < 2 ^ 64) (k : List UInt8) :
    QueryRight H s k (((envOps envp argv).zip rs).findSome? (definition k)) ↔
      ∀ o, firstDefinition k ((envOps envp argv).zip rs) = some o → HasValue o := by
  obtain ⟨htable, hlook⟩ := envStartup_store hrun k
  rw [← hlook, queryRight_iff htable, hlook]
  cases hfirst : ((envOps envp argv).zip rs).findSome? (definition k) with
  | none =>
    refine iff_of_true nofun fun o ho => ?_
    obtain ⟨x, hx, -⟩ := Option.map_eq_some_iff.1 ho
    have hsome := List.find?_some hx
    rw [List.findSome?_eq_none_iff.1 hfirst x (List.mem_of_find?_eq_some hx)] at hsome
    cases hsome
  | some val =>
    obtain ⟨o, r, hmem, ho, hdef⟩ := findSome_definition k _ hfirst
    obtain ⟨h0, hlen⟩ := hstr o (List.of_mem_zip hmem).1
    have hiff := definition_wellFormed_iff h0 hlen hdef
    constructor
    · intro hall o' ho'
      cases ho.symm.trans ho'
      exact hiff.1 (hall val rfl)
    · intro hall val' hval'
      cases hval'
      exact hiff.2 (hall o ho)

/-- the key k is asked for -/
theorem number_query_right : ∃ s rs, envStartup firstSlot .ok none numberArgs = some (.ok, some s, rs) ∧
    QueryRight firstSlot s [0x6b] (((envOps none numberArgs).zip rs).findSome? (definition [0x6b])) := by
  have hreturns : (outputs (parseOptionString firstSlot) newStore (envOps none numberArgs)).isSome = true := by
    decide +kernel
  obtain ⟨⟨rs, s⟩, hout⟩ := Option.isSome_iff_exists.1 hreturns
  have hrun : envStartup firstSlot .ok none numberArgs = some (.ok, some s, rs) := by
    rw [envStartup_eq, hout]
    rfl
  refine ⟨s, rs, hrun, (envGetValue_right_iff hrun (by decide) [0x6b]).2 fun o ho => ?_⟩
  obtain ⟨x, hx, rfl⟩ := Option.map_eq_some_iff.1 ho
  have hvalues : ∀ o ∈ envOps none numberArgs, HasValue o := by decide
  exact hvalues _ (List.of_mem_zip (List.mem_of_find?_eq_some hx)).1

/-- the key that the engine asks for -/
def attachedKey : List UInt8 := [0x61, 0x74, 0x74, 0x61, 0x63, 0x68, 0x65, 0x64]

/-- started with the option -attached -/
def attachedArgs : EnvStrings := [(plentyCalls, []), (plentyCalls, 0x2d :: attachedKey)]

/-- the query of the engine follows a `NULL` -/
theorem attached_query_broken : ¬ ∀ s rs, envStartup firstSlot .ok none attachedArgs = some (.ok, some s, rs) →
    QueryRight firstSlot s attachedKey (((envOps none attachedArgs).zip rs).findSome? (definition attachedKey)) := by
  intro hall
  have hquery : ((envStartup firstSlot .ok none attachedArgs).bind fun x => x.2.1.map fun s =>
      (x.1, envGetValue firstSlot s attachedKey)) = some (.ok, .nullPointer) := by
    decide +kernel
  obtain ⟨⟨errCode, store, rs⟩, hrun, hmap⟩ := Option.bind_eq_some_iff.1 hquery
  obtain ⟨s, rfl, heq⟩ := Option.map_eq_some_iff.1 hmap
  obtain ⟨rfl, hnull⟩ := Prod.mk.inj heq
  have hright := hall s rs hrun
  revert hright
  rcases ((envOps none attachedArgs).zip rs).findSome? (definition attachedKey) with _ | _ | v
  · rintro ⟨errCode, -, heq⟩
    cases hnull.symm.trans heq
  · intro heq
    cases hnull.symm.trans heq
  · rintro ⟨heq, -⟩
    cases hnull.symm.trans heq

end Query

end Noriko.Env
