/-
Computations on data behind a plain mutex, as one thread runs them.

`lock` on a mutex that is held waits for ever, as the thread itself holds it. `unlock` on a mutex that is free is a misuse.
A callback runs code from outside while the mutex is free; it may call the component again, so it may change the data, and
it would wait if the mutex were held.

`Goes b m b'` is the rule of the library: from a mutex in state `b`, the computation returns, misuses nothing and leaves
the mutex in state `b'`. It composes along `bind`.
-/
import Mathlib.Tactic

namespace Lib

/-- data behind a mutex, with the number of misuses of the mutex -/
structure Guarded (S : Type) where
  held : Bool
  misuses : ℕ
  data : S

/-- how a computation ends -/
inductive Outcome (S A : Type) where
  | returns (a : A) (g : Guarded S)
  /-- it waits for a mutex that it holds itself -/
  | waits
  /-- it runs for ever for another reason -/
  | loops

/-- a computation on guarded data -/
def Sync (S A : Type) : Type := Guarded S → Outcome S A

variable {S A B : Type}

instance : Monad (Sync S) where
  pure a := fun g => .returns a g
  bind m f := fun g =>
    match m g with
    | .returns a g' => f a g'
    | .waits => .waits
    | .loops => .loops

namespace Sync

def lock : Sync S Unit := fun g => if g.held then .waits else .returns () { g with held := true }

def unlock : Sync S Unit := fun g =>
  .returns () (if g.held then { g with held := false } else { g with misuses := g.misuses + 1 })

def get : Sync S S := fun g => .returns g.data g

def set (s : S) : Sync S Unit := fun g => .returns () { g with data := s }

def forever : Sync S A := fun _ => .loops

/-- code from outside, which returns a value and may change the data -/
def callback (f : S → A × S) : Sync S A := fun g =>
  if g.held then .waits else .returns (f g.data).1 { g with data := (f g.data).2 }

/-- run for the effect only -/
def ignore (m : Sync S A) : Sync S Unit := do
  let _ ← m
  return ()

/-! ## Symbolic execution -/

variable {g : Guarded S}

theorem bind_run {m : Sync S A} {f : A → Sync S B} {a : A} {g' : Guarded S} (h : m g = .returns a g') :
    (m >>= f) g = f a g' := by
  change (match m g with | .returns a g' => f a g' | .waits => .waits | .loops => .loops) = _
  rw [h]

theorem bind_loops {m : Sync S A} (f : A → Sync S B) (h : m g = .loops) : (m >>= f) g = .loops := by
  change (match m g with | .returns a g' => f a g' | .waits => .waits | .loops => .loops) = _
  rw [h]

theorem lock_run (h : g.held = false) : (lock : Sync S Unit) g = .returns () { g with held := true } := by
  unfold lock
  rw [if_neg (by rw [h]; decide)]

theorem unlock_run (h : g.held = true) : (unlock : Sync S Unit) g = .returns () { g with held := false } := by
  unfold unlock
  rw [if_pos h]

theorem callback_run (h : g.held = false) (f : S → A × S) :
    callback f g = .returns (f g.data).1 { g with data := (f g.data).2 } := by
  unfold callback
  rw [if_neg (by rw [h]; decide)]

/-- a call that starts by locking and reading the data -/
theorem lock_get_run (h : g.held = false) (f : S → Sync S A) :
    (do lock; let s ← get; f s : Sync S A) g = f g.data { g with held := true } := by
  rw [bind_run (lock_run h), bind_run (m := get) rfl]

/-! ## The state of the mutex -/

/-- from `g`, the computation returns with the mutex in state `b` and without a misuse -/
def Ends (g : Guarded S) (m : Sync S A) (b : Bool) : Prop := ∃ a d, m g = .returns a ⟨b, g.misuses, d⟩

def Goes (b : Bool) (m : Sync S A) (b' : Bool) : Prop := ∀ g, g.held = b → Ends g m b'

/-- what a call owes to its mutex: it never waits, and when it returns the mutex is free and was not misused -/
def LockSafe (m : Sync S A) (g : Guarded S) : Prop :=
  m g ≠ .waits ∧ ∀ a g', m g = .returns a g' → g'.held = false ∧ g'.misuses = g.misuses

theorem Ends.not_waits {m : Sync S A} {b : Bool} (h : Ends g m b) : m g ≠ .waits := by
  obtain ⟨a, d, h⟩ := h
  intro hw
  rw [h] at hw
  cases hw

theorem Ends.not_loops {m : Sync S A} {b : Bool} (h : Ends g m b) : m g ≠ .loops := by
  obtain ⟨a, d, h⟩ := h
  intro hl
  rw [h] at hl
  cases hl

theorem Ends.lockSafe {m : Sync S A} (h : Ends g m false) : LockSafe m g := by
  refine ⟨h.not_waits, fun a' g' h' => ?_⟩
  obtain ⟨a, d, h⟩ := h
  rw [h] at h'
  cases h'
  exact ⟨rfl, rfl⟩

/-- a computation that runs for ever without waiting is safe for the mutex -/
theorem lockSafe_loops {m : Sync S A} (h : m g = .loops) : LockSafe m g := by
  refine ⟨fun hw => ?_, fun a g' h' => ?_⟩
  · rw [h] at hw
    cases hw
  · rw [h] at h'
    cases h'

/-- a call that returns with the mutex held is not safe -/
theorem Ends.not_lockSafe {m : Sync S A} (h : Ends g m true) : ¬ LockSafe m g := by
  obtain ⟨a, d, h⟩ := h
  intro hsafe
  have hheld : true = false := (hsafe.2 a _ h).1
  cases hheld

namespace Goes

variable {b b' b'' : Bool}

theorem pure (a : A) : Goes b (Pure.pure a : Sync S A) b := by
  rintro ⟨held, n, d⟩ rfl
  exact ⟨a, d, rfl⟩

theorem get : Goes b (Sync.get : Sync S S) b := by
  rintro ⟨held, n, d⟩ rfl
  exact ⟨d, d, rfl⟩

theorem set (s : S) : Goes b (Sync.set s) b := by
  rintro ⟨held, n, d⟩ rfl
  exact ⟨(), s, rfl⟩

theorem lock : Goes false (Sync.lock : Sync S Unit) true := by
  rintro ⟨held, n, d⟩ h
  exact ⟨(), d, lock_run h⟩

theorem unlock : Goes true (Sync.unlock : Sync S Unit) false := by
  rintro ⟨held, n, d⟩ h
  exact ⟨(), d, unlock_run h⟩

theorem callback (f : S → A × S) : Goes false (Sync.callback f) false := by
  rintro ⟨held, n, d⟩ h
  refine ⟨(f d).1, (f d).2, ?_⟩
  rw [callback_run h]
  cases h
  rfl

theorem bind {m : Sync S A} {f : A → Sync S B} (hm : Goes b m b') (hf : ∀ a, Goes b' (f a) b'') :
    Goes b (m >>= f) b'' := by
  intro g hg
  obtain ⟨a, d, h⟩ := hm g hg
  obtain ⟨x, e, h'⟩ := hf a ⟨b', g.misuses, d⟩ rfl
  exact ⟨x, e, (bind_run h).trans h'⟩

theorem ite {p : Prop} [Decidable p] {m m' : Sync S A} (h : p → Goes b m b') (h' : ¬ p → Goes b m' b') :
    Goes b (if p then m else m') b' := by
  split_ifs with hp
  · exact h hp
  · exact h' hp

end Goes

theorem Ends.ignore {m : Sync S A} {b : Bool} (h : Ends g m b) : Ends g m.ignore b := by
  obtain ⟨a, d, h⟩ := h
  exact ⟨(), d, bind_run h⟩

/-! ## The calls of a component -/

section Calls

variable {C : Type} {call : C → Sync S Unit}

/-- the call leaves its mutex in order, and no call of the component that comes next waits -/
def Balanced (call : C → Sync S Unit) (c : C) (g : Guarded S) : Prop :=
  LockSafe (call c) g ∧ ∀ g', call c g = .returns () g' → ∀ next, call next g' ≠ .waits

/-- calls that never wait on a free mutex only have to leave it free -/
theorem balanced_iff (hfree : ∀ c (g : Guarded S), g.held = false → call c g ≠ .waits) {c : C} :
    Balanced call c g ↔ LockSafe (call c) g := by
  refine ⟨fun h => h.1, fun h => ⟨h, fun g' hrun next => ?_⟩⟩
  exact hfree next g' (h.2 () g' hrun).1

end Calls

end Sync

end Lib
