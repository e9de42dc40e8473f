/-
Loops of the form `while (!done(s)) s = body(s);` that may run forever.

A loop is run for at most `fuel` rounds, and `none` means that it is not done by then. What the body keeps holds at the end
(`whileLoop_inv`), a loop that counts something down ends (`whileLoop_ends`), and a loop that cannot leave states that are
not done never ends (`whileLoop_never`).
-/
import Mathlib.Tactic

namespace Lib

variable {S : Type*} {done : S → Bool} {body : S → S} {s t : S} {fuel : ℕ}

/-- `while (!done(s)) s = body(s);` for at most `fuel` tests of the condition -/
def whileLoop (done : S → Bool) (body : S → S) : ℕ → S → Option S
  | 0, _ => none
  | fuel + 1, s => if done s then some s else whileLoop done body fuel (body s)

theorem whileLoop_inv {I : S → Prop} (hbody : ∀ s, done s = false → I s → I (body s)) (h0 : I s)
    (h : whileLoop done body fuel s = some t) : I t ∧ done t = true := by
  induction fuel generalizing s with
  | zero => cases h
  | succ fuel ih =>
    unfold whileLoop at h
    cases hdone : done s with
    | true =>
      rw [hdone, if_pos rfl] at h
      obtain rfl := Option.some.inj h
      exact ⟨h0, hdone⟩
    | false =>
      rw [hdone, if_neg Bool.false_ne_true] at h
      exact ih (hbody s hdone h0) h

/-- a loop that is not done goes on behind its body -/
theorem whileLoop_step (hdone : done s = false) (h : whileLoop done body fuel s = some t) :
    ∃ fuel', whileLoop done body fuel' (body s) = some t := by
  cases fuel with
  | zero => cases h
  | succ fuel =>
    rw [whileLoop, hdone, if_neg Bool.false_ne_true] at h
    exact ⟨fuel, h⟩

theorem whileLoop_done (hdone : done s = true) (h : whileLoop done body fuel s = some t) : t = s := by
  cases fuel with
  | zero => cases h
  | succ fuel =>
    rw [whileLoop, hdone, if_pos rfl] at h
    exact (Option.some.inj h).symm

theorem whileLoop_ends {I : S → Prop} (left : S → ℕ)
    (hbody : ∀ s, done s = false → I s → I (body s) ∧ left (body s) < left s) (h0 : I s) :
    ∃ fuel t, whileLoop done body fuel s = some t := by
  induction hn : left s using Nat.strong_induction_on generalizing s with
  | _ n ih =>
    cases hdone : done s with
    | true => exact ⟨1, s, by rw [whileLoop, hdone, if_pos rfl]⟩
    | false =>
      obtain ⟨hinv, hless⟩ := hbody s hdone h0
      obtain ⟨fuel, t, ht⟩ := ih _ (hn ▸ hless) hinv rfl
      exact ⟨fuel + 1, t, by rw [whileLoop, hdone, if_neg Bool.false_ne_true, ht]⟩

theorem whileLoop_never {I : S → Prop} (hdone : ∀ s, I s → done s = false) (hbody : ∀ s, I s → I (body s)) (h0 : I s)
    (fuel : ℕ) : whileLoop done body fuel s = none := by
  induction fuel generalizing s with
  | zero => rfl
  | succ fuel ih => rw [whileLoop, hdone s h0, if_neg Bool.false_ne_true, ih (hbody s h0)]

end Lib
