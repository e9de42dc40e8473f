/-
Refinement of a specification by a machine whose operations return results.

`step s o = none` means that operation `o` does not return from state `s`; else it returns a result and the state after
it. A specification says which result and which new abstract state an operation may have. `simulates_run` carries a
forward simulation from one operation to whole runs: the machine returns from every operation, with results that the
specification allows. `EachStep` asks something of every step of a run, and `eachStep_iff` carries an equivalence from
steps to runs.
-/
import Mathlib.Tactic

namespace Lib

variable {S M O R : Type*}

/-- the results of a run and the state after it, if every operation returns -/
def outputs (step : S → O → Option (R × S)) : S → List O → Option (List R × S)
  | s, [] => some ([], s)
  | s, o :: ops => (step s o).bind fun x => (outputs step x.2 ops).map fun y => (x.1 :: y.1, y.2)

theorem outputs_append (step : S → O → Option (R × S)) (s : S) (ops ops' : List O) :
    outputs step s (ops ++ ops') =
      (outputs step s ops).bind fun x => (outputs step x.2 ops').map fun y => (x.1 ++ y.1, y.2) := by
  induction ops generalizing s with
  | nil => simp [outputs]
  | cons o ops ih =>
    simp only [outputs, List.cons_append]
    cases step s o with
    | none => rfl
    | some x =>
      simp only [Option.bind_some, ih x.2]
      cases outputs step x.2 ops with
      | none => rfl
      | some y => cases hrest : outputs step y.2 ops' <;> simp [hrest]

/-- what every operation keeps holds at the end of a run that returns -/
theorem outputs_inv {step : S → O → Option (R × S)} {I : S → Prop}
    (hstep : ∀ s o r t, I s → step s o = some (r, t) → I t) {ops : List O} {s t : S} {rs : List R}
    (hrun : outputs step s ops = some (rs, t)) (h : I s) : I t := by
  induction ops generalizing s rs with
  | nil =>
    cases hrun
    exact h
  | cons o ops ih =>
    obtain ⟨⟨r, u⟩, hs, hrest⟩ := Option.bind_eq_some_iff.1 hrun
    obtain ⟨⟨rs', v⟩, hrun', heq⟩ := Option.map_eq_some_iff.1 hrest
    cases heq
    exact ih hrun' (hstep s o r u h hs)

/-- every operation of the run is allowed by `ok` in the state before it -/
def AllOk (step : S → O → Option (R × S)) (ok : S → O → Prop) : S → List O → Prop
  | _, [] => True
  | s, o :: ops => ok s o ∧ ∀ x, step s o = some x → AllOk step ok x.2 ops

/-- a run of the specification -/
inductive SpecRun (spec : M → O → R → M → Prop) : M → List O → List R → M → Prop
  | nil (m : M) : SpecRun spec m [] [] m
  | cons {m m' m'' : M} {o : O} {r : R} {ops : List O} {rs : List R} : spec m o r m' → SpecRun spec m' ops rs m'' →
      SpecRun spec m (o :: ops) (r :: rs) m''

/-- operations that are allowed in every state -/
theorem AllOk.of_mem {step : S → O → Option (R × S)} {ok : S → O → Prop} {ops : List O} (h : ∀ o ∈ ops, ∀ s, ok s o)
    (s : S) : AllOk step ok s ops := by
  induction ops generalizing s with
  | nil => trivial
  | cons o ops ih =>
    exact ⟨h o List.mem_cons_self s, fun x _ => ih (fun o' ho' => h o' (List.mem_cons_of_mem o ho')) x.2⟩

/-- what every step of a specification keeps holds after a run of it -/
theorem SpecRun.inv {spec : M → O → R → M → Prop} {I : M → Prop} (hstep : ∀ m o r m', I m → spec m o r m' → I m') {m m' : M}
    {ops : List O} {rs : List R} (h : SpecRun spec m ops rs m') (h0 : I m) : I m' := by
  induction h with
  | nil m => exact h0
  | cons hs _ ih => exact ih (hstep _ _ _ _ h0 hs)

/-- a forward simulation of single operations is one of runs -/
theorem simulates_run {step : S → O → Option (R × S)} {ok : S → O → Prop} {spec : M → O → R → M → Prop}
    {Sim : S → M → Prop}
    (hstep : ∀ s m o, Sim s m → ok s o → ∃ r s' m', step s o = some (r, s') ∧ spec m o r m' ∧ Sim s' m')
    {ops : List O} {s : S} {m : M} (hsim : Sim s m) (hok : AllOk step ok s ops) :
    ∃ rs s' m', outputs step s ops = some (rs, s') ∧ SpecRun spec m ops rs m' ∧ Sim s' m' := by
  induction ops generalizing s m with
  | nil => exact ⟨[], s, m, rfl, .nil m, hsim⟩
  | cons o ops ih =>
    obtain ⟨ho, hrest⟩ := hok
    obtain ⟨r, s', m', hs, hspec, hsim'⟩ := hstep s m o hsim ho
    obtain ⟨rs, s'', m'', hout, hrun, hsim''⟩ := ih hsim' (hrest _ hs)
    refine ⟨r :: rs, s'', m'', ?_, .cons hspec hrun, hsim''⟩
    rw [outputs, hs, Option.bind_some, hout, Option.map_some]

/-- a run that returns is one of the specification, if every step of it is -/
theorem simulated_run {step : S → O → Option (R × S)} {ok : S → O → Prop} {spec : M → O → R → M → Prop}
    {Sim : S → M → Prop}
    (hstep : ∀ s m o r s', Sim s m → ok s o → step s o = some (r, s') → ∃ m', spec m o r m' ∧ Sim s' m')
    {ops : List O} {s s' : S} {m : M} {rs : List R} (hsim : Sim s m) (hok : AllOk step ok s ops)
    (hrun : outputs step s ops = some (rs, s')) : ∃ m', SpecRun spec m ops rs m' ∧ Sim s' m' := by
  induction ops generalizing s m rs with
  | nil =>
    cases hrun
    exact ⟨m, .nil m, hsim⟩
  | cons o ops ih =>
    obtain ⟨⟨r, u⟩, hs, hrest⟩ := Option.bind_eq_some_iff.1 hrun
    obtain ⟨⟨rs', v⟩, hrun', heq⟩ := Option.map_eq_some_iff.1 hrest
    cases heq
    obtain ⟨m', hspec, hsim'⟩ := hstep s m o r u hsim hok.1 hs
    obtain ⟨m'', hrun'', hsim''⟩ := ih hsim' (hok.2 _ hs) hrun'
    exact ⟨m'', .cons hspec hrun'', hsim''⟩

/-! ## What every step of a run does -/

/-- every operation of the run that returns meets `P` with the states before and after it -/
def EachStep (step : S → O → Option (R × S)) (P : S → O → R → S → Prop) : S → List O → Prop
  | _, [] => True
  | s, o :: ops => ∀ r t, step s o = some (r, t) → P s o r t ∧ EachStep step P t ops

/-- a run is checked step by step along its states -/
theorem EachStep.cons {step : S → O → Option (R × S)} {P : S → O → R → S → Prop} {s t : S} {o : O} {r : R} {ops : List O}
    (hs : step s o = some (r, t)) (hp : P s o r t) (h : EachStep step P t ops) : EachStep step P s (o :: ops) := by
  intro r' t' hs'
  rw [hs] at hs'
  cases hs'
  exact ⟨hp, h⟩

/-- what holds of every step from a state of the invariant holds of every run -/
theorem EachStep.of_inv {step : S → O → Option (R × S)} {P : S → O → R → S → Prop} {I : S → Prop}
    (hstep : ∀ s o r t, I s → step s o = some (r, t) → P s o r t ∧ I t) {s : S} (h : I s) (ops : List O) :
    EachStep step P s ops := by
  induction ops generalizing s with
  | nil => trivial
  | cons o ops ih =>
    intro r t hs
    obtain ⟨hp, hi⟩ := hstep s o r t h hs
    exact ⟨hp, ih hi⟩

/-- what every step establishes holds at the end of the run -/
theorem EachStep.last {step : S → O → Option (R × S)} {P : S → O → R → S → Prop} {I : S → Prop}
    (hP : ∀ s o r t, P s o r t → I t) {ops : List O} {s t : S} {rs : List R} (h : EachStep step P s ops)
    (hrun : outputs step s ops = some (rs, t)) (h0 : I s) : I t := by
  induction ops generalizing s rs with
  | nil =>
    cases hrun
    exact h0
  | cons o ops ih =>
    obtain ⟨⟨r, u⟩, hs, hrest⟩ := Option.bind_eq_some_iff.1 hrun
    obtain ⟨⟨rs', v⟩, hrun', heq⟩ := Option.map_eq_some_iff.1 hrest
    cases heq
    obtain ⟨hp, h'⟩ := h r u hs
    exact ih h' hrun' (hP s o r u hp)

/-- two properties that agree on single steps agree on runs; the invariant may use that the steps so far met the first -/
theorem eachStep_iff {step : S → O → Option (R × S)} {P Q : S → O → R → S → Prop} {I : S → Prop}
    (hiff : ∀ s o r t, I s → step s o = some (r, t) → (P s o r t ↔ Q s o r t))
    (hinv : ∀ s o r t, I s → step s o = some (r, t) → P s o r t → I t) {s : S} (h : I s) (ops : List O) :
    EachStep step P s ops ↔ EachStep step Q s ops := by
  induction ops generalizing s with
  | nil => exact Iff.rfl
  | cons o ops ih =>
    refine forall₂_congr fun r t => forall_congr' fun hs => ?_
    rw [hiff s o r t h hs]
    refine and_congr_right fun hq => ?_
    exact ih (hinv s o r t h hs ((hiff s o r t h hs).2 hq))

end Lib
