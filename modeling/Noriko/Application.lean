/-
Startup and shutdown of the components (`application.c`).

A component is known by the outcome of its callbacks: `none` for a callback that is not there, else the code it returns.
`NkApplicationStartup` runs three stages of each component in the order of the table and stops at the first error;
`NkApplicationShutdown` should run the opposite stages of those that succeeded, in reverse. What succeeded is recorded in
one component index and in one array of three flags, `compSucc`, that all components share.

The application specification is taken as valid. The trace is the log the code writes: one entry for each stage, and one
for each registration of an NkOM component. `touched` lists the indices used on `compSucc`; entries from 3 on lie behind
the array.

Both records are wrong for what the shutdown makes of them: component index 0 also means that nothing was started, and
every stage of the shutdown is recorded behind the array. `mirrors_iff` is the exact condition under which the shutdown
still mirrors the startup.
-/
import Noriko.Def
import Mathlib.Tactic

namespace Noriko.Application

/-! ## Data -/

inductive CompCallbackIndex where
  | preStartup | startup | postStartup | preShutdown | shutdown | postShutdown
deriving DecidableEq, Repr

/-- the value of the enumerator -/
def CompCallbackIndex.value : CompCallbackIndex → ℕ
  | .preStartup => 0
  | .startup => 1
  | .postStartup => 2
  | .preShutdown => 3
  | .shutdown => 4
  | .postShutdown => 5

def queryOppositeCbIndex : CompCallbackIndex → CompCallbackIndex
  | .preStartup => .postShutdown
  | .startup => .shutdown
  | .postStartup => .preShutdown
  | .preShutdown => .postStartup
  | .shutdown => .startup
  | .postShutdown => .preStartup

structure ExtComponent where
  callback : CompCallbackIndex → Option NkErrorCode
  isNkOM : Bool

/-- a missing callback counts as a success -/
def ExtComponent.outcome (c : ExtComponent) (cb : CompCallbackIndex) : NkErrorCode := (c.callback cb).getD .ok

inductive AppEvent where
  | stage (index : ℕ) (cb : CompCallbackIndex) (called : Bool) (code : NkErrorCode)
  | registered (index : ℕ)
  | unregistered (index : ℕ)
deriving DecidableEq, Repr

/-- `m_initErrInfo` of the application, with the trace and the indices used on `compSucc` -/
structure AppState where
  compIndex : ℕ
  compSucc : ℕ → Bool
  trace : List AppEvent
  touched : List ℕ

def initState : AppState := ⟨0, fun _ => false, [], []⟩

/-! ## Invoking callbacks -/

/-- `__NkInt_Application_InvokeCompCallback`; index and flag are recorded for every stage -/
def invokeCompCallback (c : ExtComponent) (index : ℕ) (cb : CompCallbackIndex) (s : AppState) :
    NkErrorCode × AppState :=
  (c.outcome cb,
    { compIndex := index
      compSucc := Function.update s.compSucc cb.value (c.outcome cb = .ok)
      trace := s.trace ++ [.stage index cb (c.callback cb).isSome (c.outcome cb)]
      touched := s.touched ++ [cb.value] })

/-- runs stages until one fails -/
def invokeStages (c : ExtComponent) (index : ℕ) : List CompCallbackIndex → AppState → NkErrorCode × AppState
  | [], s => (.ok, s)
  | cb :: rest, s =>
    let r := invokeCompCallback c index cb s
    if r.1 ≠ .ok then r else invokeStages c index rest r.2

/-! ## Startup -/

def startupStages : List CompCallbackIndex := [.preStartup, .startup, .postStartup]

/-- adds an NkOM component to the registry -/
def register (c : ExtComponent) (index : ℕ) (s : AppState) : AppState :=
  if c.isNkOM then { s with trace := s.trace ++ [.registered index] } else s

/-- the loop of `NkApplicationStartup` over the components from `index` on -/
def startupFrom (index : ℕ) : List ExtComponent → AppState → NkErrorCode × AppState
  | [], s => (.ok, s)
  | c :: rest, s =>
    let r := invokeStages c index startupStages s
    if r.1 ≠ .ok then r else startupFrom (index + 1) rest (register c index r.2)

def applicationStartup (table : List ExtComponent) : NkErrorCode × AppState := startupFrom 0 table initState

/-! ## Shutdown -/

/-- the stages of one component, from flag 2 down; a set flag runs the opposite stage -/
def shutdownStages (c : ExtComponent) (index : ℕ) : List CompCallbackIndex → AppState → NkErrorCode × AppState
  | [], s => (.ok, s)
  | cb :: rest, s =>
    let s := { s with touched := s.touched ++ [cb.value] }
    if s.compSucc cb.value then
      let r := invokeCompCallback c index (queryOppositeCbIndex cb) s
      if r.1 ≠ .ok then r else shutdownStages c index rest r.2
    else shutdownStages c index rest s

def unregister (c : ExtComponent) (index : ℕ) (s : AppState) : AppState :=
  if c.isNkOM then { s with trace := s.trace ++ [.unregistered index] } else s

/-- the loop of `NkApplicationShutdown` over the components `n - 1` down to 0 -/
def shutdownFrom (table : ℕ → ExtComponent) : ℕ → AppState → NkErrorCode × AppState
  | 0, s => (.ok, s)
  | n + 1, s =>
    let r := shutdownStages (table n) n startupStages.reverse (unregister (table n) n s)
    if r.1 ≠ .ok then r else shutdownFrom table n r.2

/-- the component table as an array; no entry past its end is ever read -/
def entry (table : List ExtComponent) (i : ℕ) : ExtComponent := table.getD i ⟨fun _ => none, false⟩

def applicationShutdown (table : List ExtComponent) (s : AppState) : NkErrorCode × AppState :=
  if s.compIndex = 0 then (.ok, s) else shutdownFrom (entry table) (s.compIndex + 1) s

/-! ## What the shutdown should do -/

/-- the stages that completed, in order -/
def completed (trace : List AppEvent) : List (ℕ × CompCallbackIndex) :=
  trace.filterMap fun
    | .stage index cb _ .ok => some (index, cb)
    | _ => none

/-- the callbacks that were called, in order -/
def called (trace : List AppEvent) : List (ℕ × CompCallbackIndex) :=
  trace.filterMap fun
    | .stage index cb true _ => some (index, cb)
    | _ => none

/-- the opposite callbacks of completed stages, in reverse order, as far as they are there -/
def mirrored (table : List ExtComponent) (done : List (ℕ × CompCallbackIndex)) : List (ℕ × CompCallbackIndex) :=
  (done.reverse.map fun d => (d.1, queryOppositeCbIndex d.2)).filter fun d => ((entry table d.1).callback d.2).isSome

/-- the shutdown calls the mirrored callbacks and no others, and `compSucc` is used within its bounds -/
def Mirrors (table : List ExtComponent) : Prop :=
  let s := (applicationStartup table).2
  let t := (applicationShutdown table s).2
  called (t.trace.drop s.trace.length) = mirrored table (completed s.trace) ∧ ∀ k ∈ t.touched, k < 3

/-- startup does not get past the first component, and no stage this component completes has an opposite callback -/
def NothingToMirror : List ExtComponent → Prop
  | [] => True
  | c :: rest => (rest = [] ∨ ∃ cb ∈ startupStages, c.outcome cb ≠ .ok) ∧
      ∀ cb ∈ startupStages.takeWhile (fun cb => c.outcome cb = .ok), c.callback (queryOppositeCbIndex cb) = none

/-! ## The stages of one component -/

section Stages

variable (c : ExtComponent) (index : ℕ)

theorem invokeStages_ok {cb : CompCallbackIndex} (h : c.outcome cb = .ok) (rest : List CompCallbackIndex)
    (s : AppState) :
    invokeStages c index (cb :: rest) s = invokeStages c index rest (invokeCompCallback c index cb s).2 :=
  if_neg (not_not.2 h)

theorem invokeStages_fail {cb : CompCallbackIndex} (h : c.outcome cb ≠ .ok) (rest : List CompCallbackIndex)
    (s : AppState) : invokeStages c index (cb :: rest) s = invokeCompCallback c index cb s :=
  if_pos h

theorem invokeStages_code (l : List CompCallbackIndex) (s : AppState) :
    (invokeStages c index l s).1 = .ok ↔ ∀ cb ∈ l, c.outcome cb = .ok := by
  induction l generalizing s with
  | nil => simp [invokeStages]
  | cons cb rest ih =>
    by_cases h : c.outcome cb = .ok
    · rw [invokeStages_ok c index h, ih, List.forall_mem_cons]
      exact ⟨fun hr => ⟨h, hr⟩, fun hr => hr.2⟩
    · rw [invokeStages_fail c index h]
      exact ⟨fun hr => absurd hr h, fun hr => hr cb List.mem_cons_self⟩

theorem invokeStages_compIndex {l : List CompCallbackIndex} (hl : l ≠ []) (s : AppState) :
    (invokeStages c index l s).2.compIndex = index := by
  induction l generalizing s with
  | nil => exact absurd rfl hl
  | cons cb rest ih =>
    by_cases h : c.outcome cb = .ok
    · rw [invokeStages_ok c index h]
      cases rest with
      | nil => rfl
      | cons cb' rest' => exact ih (by simp) _
    · rw [invokeStages_fail c index h]
      rfl

theorem completed_append (t u : List AppEvent) : completed (t ++ u) = completed t ++ completed u :=
  List.filterMap_append

theorem completed_stage (cb : CompCallbackIndex) (called : Bool) (code : NkErrorCode) :
    completed [.stage index cb called code] = if code = .ok then [(index, cb)] else [] := by
  cases code <;> rfl

/-- the stages before the first failure are the ones that complete -/
theorem invokeStages_completed (l : List CompCallbackIndex) (s : AppState) :
    completed (invokeStages c index l s).2.trace =
      completed s.trace ++ (l.takeWhile (fun cb => c.outcome cb = .ok)).map (fun cb => (index, cb)) := by
  induction l generalizing s with
  | nil => simp [invokeStages]
  | cons cb rest ih =>
    by_cases h : c.outcome cb = .ok
    · rw [invokeStages_ok c index h, ih]
      simp [invokeCompCallback, completed_append, completed_stage, h]
    · rw [invokeStages_fail c index h]
      simp [invokeCompCallback, completed_append, completed_stage, h]

theorem invokeStages_touched (l : List CompCallbackIndex) (s : AppState) {k : ℕ}
    (hk : k ∈ (invokeStages c index l s).2.touched) : k ∈ s.touched ∨ ∃ cb ∈ l, k = cb.value := by
  induction l generalizing s with
  | nil => exact Or.inl hk
  | cons cb rest ih =>
    have hhead : k ∈ (invokeCompCallback c index cb s).2.touched → k ∈ s.touched ∨ ∃ cb' ∈ cb :: rest, k = cb'.value := by
      intro hk
      rcases List.mem_append.1 hk with hk | hk
      · exact Or.inl hk
      · exact Or.inr ⟨cb, List.mem_cons_self, List.mem_singleton.1 hk⟩
    by_cases h : c.outcome cb = .ok
    · rw [invokeStages_ok c index h] at hk
      rcases ih _ hk with hk | ⟨cb', hcb, hk⟩
      · exact hhead hk
      · exact Or.inr ⟨cb', List.mem_cons_of_mem _ hcb, hk⟩
    · rw [invokeStages_fail c index h] at hk
      exact hhead hk

/-- the flags after the three startup stages: all are set after a success -/
theorem startup_flags_ok (s : AppState) (h : (invokeStages c index startupStages s).1 = .ok) {j : ℕ} (hj : j < 3) :
    (invokeStages c index startupStages s).2.compSucc j = true := by
  obtain ⟨h0, h1, h2⟩ : c.outcome .preStartup = .ok ∧ c.outcome .startup = .ok ∧ c.outcome .postStartup = .ok := by
    simpa [startupStages] using (invokeStages_code c index startupStages s).1 h
  rw [startupStages, invokeStages_ok c index h0, invokeStages_ok c index h1, invokeStages_ok c index h2]
  simp only [invokeStages, invokeCompCallback, h0, h1, h2, CompCallbackIndex.value, Function.update_apply]
  interval_cases j <;> rfl

/-- a component that fails leaves at least one flag set if all were set before -/
theorem startup_flags_any (s : AppState) (h : ∀ j < 3, s.compSucc j = true) :
    ∃ j < 3, (invokeStages c index startupStages s).2.compSucc j = true := by
  by_cases h0 : c.outcome .preStartup = .ok
  · refine ⟨0, by decide, ?_⟩
    rw [startupStages, invokeStages_ok c index h0]
    by_cases h1 : c.outcome .startup = .ok
    · rw [invokeStages_ok c index h1]
      by_cases h2 : c.outcome .postStartup = .ok
      · rw [invokeStages_ok c index h2]
        simp [invokeStages, invokeCompCallback, h0, CompCallbackIndex.value]
      · rw [invokeStages_fail c index h2]
        simp [invokeCompCallback, h0, CompCallbackIndex.value]
    · rw [invokeStages_fail c index h1]
      simp [invokeCompCallback, h0, CompCallbackIndex.value]
  · -- the first stage fails: the flags of the other two are those of the component before
    refine ⟨1, by decide, ?_⟩
    rw [startupStages, invokeStages_fail c index h0]
    simp [invokeCompCallback, CompCallbackIndex.value, h]

end Stages

/-! ## The whole startup -/

@[simp] theorem register_compIndex (c : ExtComponent) (i : ℕ) (s : AppState) :
    (register c i s).compIndex = s.compIndex := by
  unfold register
  split_ifs <;> rfl

@[simp] theorem register_compSucc (c : ExtComponent) (i : ℕ) (s : AppState) :
    (register c i s).compSucc = s.compSucc := by
  unfold register
  split_ifs <;> rfl

@[simp] theorem register_touched (c : ExtComponent) (i : ℕ) (s : AppState) :
    (register c i s).touched = s.touched := by
  unfold register
  split_ifs <;> rfl

@[simp] theorem completed_register (c : ExtComponent) (i : ℕ) (s : AppState) :
    completed (register c i s).trace = completed s.trace := by
  unfold register
  split_ifs
  · rw [completed_append]
    exact List.append_nil _
  · rfl

theorem startupFrom_ok {c : ExtComponent} {i : ℕ} {s : AppState} (rest : List ExtComponent)
    (h : (invokeStages c i startupStages s).1 = .ok) : startupFrom i (c :: rest) s =
      startupFrom (i + 1) rest (register c i (invokeStages c i startupStages s).2) :=
  if_neg (not_not.2 h)

theorem startupFrom_fail {c : ExtComponent} {i : ℕ} {s : AppState} (rest : List ExtComponent)
    (h : (invokeStages c i startupStages s).1 ≠ .ok) :
    startupFrom i (c :: rest) s = invokeStages c i startupStages s :=
  if_pos h

/-- startup uses the flags within their bounds -/
theorem startupFrom_touched (table : List ExtComponent) (i : ℕ) (s : AppState) (h : ∀ k ∈ s.touched, k < 3) :
    ∀ k ∈ (startupFrom i table s).2.touched, k < 3 := by
  induction table generalizing i s with
  | nil => exact h
  | cons c rest ih =>
    have hstage : ∀ k ∈ (invokeStages c i startupStages s).2.touched, k < 3 := by
      intro k hk
      rcases invokeStages_touched c i startupStages s hk with hk | ⟨cb, hcb, rfl⟩
      · exact h k hk
      · exact (by decide : ∀ cb ∈ startupStages, cb.value < 3) cb hcb
    by_cases hc : (invokeStages c i startupStages s).1 = .ok
    · rw [startupFrom_ok rest hc]
      exact ih _ _ (by simpa using hstage)
    · rw [startupFrom_fail rest hc]
      exact hstage

/-- past a component that succeeded, startup ends with a set flag whatever happens -/
theorem startupFrom_flag (table : List ExtComponent) (htab : table ≠ []) (i : ℕ) (s : AppState)
    (h : ∀ j < 3, s.compSucc j = true) :
    i ≤ (startupFrom i table s).2.compIndex ∧ ∃ j < 3, (startupFrom i table s).2.compSucc j = true := by
  induction table generalizing i s with
  | nil => exact absurd rfl htab
  | cons c rest ih =>
    have hidx := invokeStages_compIndex c i (l := startupStages) (by simp [startupStages]) s
    by_cases hc : (invokeStages c i startupStages s).1 = .ok
    · have hflags := fun j (hj : j < 3) => startup_flags_ok c i s hc hj
      rw [startupFrom_ok rest hc]
      cases rest with
      | nil =>
        simp only [startupFrom, register_compIndex, register_compSucc, hidx]
        exact ⟨le_rfl, 0, by decide, hflags 0 (by decide)⟩
      | cons c' rest' =>
        obtain ⟨h1, h2⟩ := ih (by simp) (i + 1) (register c i (invokeStages c i startupStages s).2)
          (by simpa using hflags)
        exact ⟨by omega, h2⟩
    · rw [startupFrom_fail rest hc]
      exact ⟨hidx.ge, startup_flags_any c i s h⟩

/-! ## The whole shutdown -/

theorem shutdownStages_mono (c : ExtComponent) (i : ℕ) (l : List CompCallbackIndex) (s : AppState) {k : ℕ}
    (hk : k ∈ s.touched) : k ∈ (shutdownStages c i l s).2.touched := by
  induction l generalizing s with
  | nil => exact hk
  | cons cb rest ih =>
    set s' : AppState := { s with touched := s.touched ++ [cb.value] }
    have hk' : k ∈ s'.touched := List.mem_append_left _ hk
    have hinv : k ∈ (invokeCompCallback c i (queryOppositeCbIndex cb) s').2.touched := List.mem_append_left _ hk'
    simp only [shutdownStages]
    split_ifs with hflag hcode
    · exact hinv
    · exact ih _ hinv
    · exact ih _ hk'

theorem shutdownFrom_mono (table : ℕ → ExtComponent) (n : ℕ) (s : AppState) {k : ℕ} (hk : k ∈ s.touched) :
    k ∈ (shutdownFrom table n s).2.touched := by
  induction n generalizing s with
  | zero => exact hk
  | succ n ih =>
    have hstage : k ∈ (shutdownStages (table n) n startupStages.reverse (unregister (table n) n s)).2.touched := by
      refine shutdownStages_mono _ _ _ _ ?_
      unfold unregister
      split_ifs <;> exact hk
    simp only [shutdownFrom]
    split_ifs with hcode
    · exact hstage
    · exact ih _ hstage

/-- a set flag makes the shutdown record a stage behind the array -/
theorem shutdownStages_outside (c : ExtComponent) (i : ℕ) (l : List CompCallbackIndex) (s : AppState)
    (hl : ∀ cb ∈ l, 3 ≤ (queryOppositeCbIndex cb).value) (hflag : ∃ cb ∈ l, s.compSucc cb.value = true) :
    ∃ k ∈ (shutdownStages c i l s).2.touched, 3 ≤ k := by
  induction l generalizing s with
  | nil =>
    obtain ⟨cb, hcb, -⟩ := hflag
    cases hcb
  | cons cb rest ih =>
    simp only [shutdownStages]
    by_cases hset : s.compSucc cb.value = true
    · rw [if_pos hset]
      set s' : AppState := { s with touched := s.touched ++ [cb.value] }
      have hinv : (queryOppositeCbIndex cb).value ∈
          (invokeCompCallback c i (queryOppositeCbIndex cb) s').2.touched :=
        List.mem_append_right _ (List.mem_singleton_self _)
      refine ⟨(queryOppositeCbIndex cb).value, ?_, hl cb List.mem_cons_self⟩
      split_ifs with hcode
      · exact hinv
      · exact shutdownStages_mono _ _ _ _ hinv
    · rw [if_neg hset]
      refine ih _ (fun cb' h => hl cb' (List.mem_cons_of_mem _ h)) ?_
      obtain ⟨cb', hcb', hset'⟩ := hflag
      rcases List.mem_cons.1 hcb' with rfl | hcb'
      · exact absurd hset' hset
      · exact ⟨cb', hcb', hset'⟩

theorem shutdown_outside (table : List ExtComponent) {s : AppState} (hidx : s.compIndex ≠ 0)
    (hflag : ∃ j < 3, s.compSucc j = true) : ∃ k ∈ (applicationShutdown table s).2.touched, 3 ≤ k := by
  obtain ⟨j, hj, hset⟩ := hflag
  rw [applicationShutdown, if_neg hidx, shutdownFrom]
  set n := s.compIndex
  have hset' : ∃ cb ∈ startupStages.reverse, (unregister (entry table n) n s).compSucc cb.value = true := by
    have hsame : (unregister (entry table n) n s).compSucc = s.compSucc := by
      unfold unregister
      split_ifs <;> rfl
    rw [hsame]
    interval_cases j
    · exact ⟨.preStartup, by decide, hset⟩
    · exact ⟨.startup, by decide, hset⟩
    · exact ⟨.postStartup, by decide, hset⟩
  obtain ⟨k, hk, hk3⟩ := shutdownStages_outside (entry table n) n startupStages.reverse _ (by decide) hset'
  refine ⟨k, ?_, hk3⟩
  split_ifs with hcode
  · exact hk
  · exact shutdownFrom_mono _ _ _ hk

/-! ## When the shutdown mirrors the startup -/

theorem mirrored_eq_nil {table : List ExtComponent} {done : List (ℕ × CompCallbackIndex)} :
    mirrored table done = [] ↔ ∀ d ∈ done, (entry table d.1).callback (queryOppositeCbIndex d.2) = none := by
  unfold mirrored
  rw [List.filter_eq_nil_iff, List.forall_mem_map]
  simp

/-- startup that stays at the first component: the index stays 0, and what completes is a prefix of its stages -/
theorem startup_first {c : ExtComponent} {rest : List ExtComponent}
    (h : rest = [] ∨ ∃ cb ∈ startupStages, c.outcome cb ≠ .ok) :
    (applicationStartup (c :: rest)).2.compIndex = 0 ∧ completed (applicationStartup (c :: rest)).2.trace =
      (startupStages.takeWhile (fun cb => c.outcome cb = .ok)).map (fun cb => (0, cb)) := by
  have hidx := invokeStages_compIndex c 0 (l := startupStages) (by simp [startupStages]) initState
  have hdone := invokeStages_completed c 0 startupStages initState
  unfold applicationStartup
  by_cases hc : (invokeStages c 0 startupStages initState).1 = .ok
  · obtain rfl : rest = [] := by
      rcases h with h | ⟨cb, hcb, hne⟩
      · exact h
      · exact absurd ((invokeStages_code c 0 startupStages initState).1 hc cb hcb) hne
    rw [startupFrom_ok [] hc]
    simp only [startupFrom, register_compIndex, completed_register]
    exact ⟨hidx, hdone⟩
  · rw [startupFrom_fail rest hc]
    exact ⟨hidx, hdone⟩

theorem mirrors_of_compIndex {table : List ExtComponent} (h : (applicationStartup table).2.compIndex = 0) :
    Mirrors table ↔ mirrored table (completed (applicationStartup table).2.trace) = [] := by
  have hs : (applicationShutdown table (applicationStartup table).2).2 = (applicationStartup table).2 := by
    rw [applicationShutdown, if_pos h]
  simp only [Mirrors, hs, List.drop_length]
  constructor
  · rintro ⟨hcalls, -⟩
    exact hcalls.symm
  · intro hnil
    exact ⟨hnil.symm, startupFrom_touched table 0 initState (by simp [initState])⟩

/-- Shutdown mirrors startup, and uses its records within their bounds, exactly if startup does not get past the first
component and no stage this component completes has an opposite callback. -/
theorem mirrors_iff (table : List ExtComponent) : Mirrors table ↔ NothingToMirror table := by
  cases table with
  | nil => exact (mirrors_of_compIndex rfl).trans ⟨fun _ => trivial, fun _ => rfl⟩
  | cons c rest =>
    by_cases hfirst : rest = [] ∨ ∃ cb ∈ startupStages, c.outcome cb ≠ .ok
    · obtain ⟨hidx, hdone⟩ := startup_first hfirst
      rw [mirrors_of_compIndex hidx, hdone, mirrored_eq_nil]
      simp only [List.forall_mem_map]
      exact ⟨fun h => ⟨hfirst, h⟩, fun h => h.2⟩
    · -- the first component succeeds and a second one is tried: its shutdown is recorded behind the array
      refine ⟨fun h => ?_, fun h => absurd h.1 hfirst⟩
      rw [not_or] at hfirst
      have hok : (invokeStages c 0 startupStages initState).1 = .ok :=
        (invokeStages_code ..).2 (fun cb hcb => by_contra fun hne => hfirst.2 ⟨cb, hcb, hne⟩)
      have hflags : ∀ j < 3, (register c 0 (invokeStages c 0 startupStages initState).2).compSucc j = true := by
        intro j hj
        rw [register_compSucc]
        exact startup_flags_ok c 0 initState hok hj
      obtain ⟨hidx, hset⟩ := startupFrom_flag rest hfirst.1 1 _ hflags
      have hst : (applicationStartup (c :: rest)).2 =
          (startupFrom 1 rest (register c 0 (invokeStages c 0 startupStages initState).2)).2 := by
        rw [applicationStartup, startupFrom_ok rest hok]
      rw [← hst] at hidx hset
      obtain ⟨k, hk, hk3⟩ := shutdown_outside (c :: rest) (by omega) hset
      have := h.2 k hk
      omega

/-- a component with all callbacks, of which one may fail -/
def fullComponent (failing : Option CompCallbackIndex) : ExtComponent :=
  ⟨fun cb => some (if some cb = failing then .componentState else .ok), false⟩

/-- the startup stage of the second of two components fails: its pre-shutdown runs although its post-startup did not,
the shutdown of the first component does not run, and each stage is recorded behind the array -/
theorem mirrors_broken :
    (let s := (applicationStartup [fullComponent none, fullComponent (some .startup)]).2
      let t := (applicationShutdown [fullComponent none, fullComponent (some .startup)] s).2
      called (t.trace.drop s.trace.length) = [(1, .preShutdown), (1, .postShutdown), (0, .preShutdown),
        (0, .postShutdown)] ∧ 5 ∈ t.touched) ∧
    ¬ ∀ table : List ExtComponent, (∀ c ∈ table, ∀ cb ∈ [CompCallbackIndex.preShutdown, .shutdown, .postShutdown],
      c.outcome cb = .ok) → Mirrors table := by
  refine ⟨by decide, fun h => ?_⟩
  have hm := h [fullComponent none, fullComponent (some .startup)] (by decide)
  exact absurd (hm.2 5 (by decide)) (by decide)

end Noriko.Application
