/-
Runs of a state machine whose operations may fail to return.

`step s o = none` means that operation `o` does not return from state `s`. A run allows an operation only if `ok` holds
of it in the state before it, so one machine can be run under different rules of use. `Runs.inv` is the induction every
invariant goes through.
-/
import Mathlib.Tactic

namespace Lib

variable {S O : Type*} {step : S → O → Option S} {ok : S → O → Prop}

/-- the operations `ops`, each allowed by `ok` in the state before it, take `s` to `t` -/
inductive Runs (step : S → O → Option S) (ok : S → O → Prop) : S → List O → S → Prop
  | nil (s : S) : Runs step ok s [] s
  | cons {s t u : S} {o : O} {ops : List O} : ok s o → step s o = some t → Runs step ok t ops u →
      Runs step ok s (o :: ops) u

/-- what holds first and is kept by every allowed operation holds after every run -/
theorem Runs.inv {I : S → Prop} (hstep : ∀ s o t, I s → ok s o → step s o = some t → I t) {s t : S} {ops : List O}
    (h : Runs step ok s ops t) (h0 : I s) : I t := by
  induction h with
  | nil s => exact h0
  | cons ho hs _ ih => exact ih (hstep _ _ _ h0 ho hs)

end Lib
