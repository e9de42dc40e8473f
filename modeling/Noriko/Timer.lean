/-
Elapsed timers (`timer.c`), which are the only timers.

The clock is given by its readings, in the order in which the code asks for them. The context is zero before the start-up of
the component, which stores the overhead of a reading, the average of 1000 differences, and nothing else. So the frequency
stays 0, and every measurement divides by 0 (`measures_never`). Besides that, the overhead is taken from a span without a
look at which of them is larger.

Numbers of type `NkDouble` are rational numbers, infinity or NaN; a quotient is not rounded.
-/
import Noriko.Lib.Float
import Noriko.Lib.Run

namespace Noriko.Timer

open Lib

/-! ## The code -/

/-- `__NkInt_Timer`, an elapsed timer -/
structure NkTimer where
  isRunning : Bool
  startTime : UInt64
  endTime : UInt64
deriving DecidableEq, Repr

/-- `__NkInt_TimingDeviceContext` -/
structure TimingDeviceContext where
  timerFrequency : UInt64
  globalBias : UInt64
deriving DecidableEq, Repr

inductive NkTimerPrecision where
  | nanoseconds | microseconds | milliseconds | seconds
deriving DecidableEq, Repr

/-- the units of a second -/
def NkTimerPrecision.units : NkTimerPrecision → ℕ
  | .nanoseconds => 1000000000
  | .microseconds => 1000000
  | .milliseconds => 1000
  | .seconds => 1

variable (clock : ℕ → UInt64)

/-- `diffSum` after `n` rounds; the next reading is the one with index `reads` -/
def diffSum (reads : ℕ) : ℕ → UInt64
  | 0 => 0
  | n + 1 => diffSum reads n + (clock (reads + 2 * n + 1) - clock (reads + 2 * n))

/-- `__NkInt_Timer_GetOverhead` -/
def getOverhead (reads : ℕ) : UInt64 := diffSum clock reads 1000 / 1000

/-- `__NkInt_Timer_InitializeStaticContext` -/
def initializeStaticContext (reads : ℕ) (cxt : TimingDeviceContext) : TimingDeviceContext :=
  { cxt with globalBias := getOverhead clock reads }

/-- `NkTimerStart` at the time `now` -/
def timerStart (now : UInt64) (t : NkTimer) : NkTimer := { t with startTime := now, isRunning := true }

/-- `NkTimerStop` -/
def timerStop (now : UInt64) (t : NkTimer) : NkTimer := { t with endTime := now, isRunning := false }

/-- `NkTimerRestart`, which reads the clock twice -/
def timerRestart (now next : UInt64) (t : NkTimer) : NkTimer := timerStart next (timerStop now t)

/-- `NkTimerCreate` -/
def timerCreate (isAutoStart : Bool) (now : UInt64) : NkTimer :=
  if isAutoStart then timerStart now ⟨false, 0, 0⟩ else ⟨false, 0, 0⟩

section Measurement

variable (cxt : TimingDeviceContext) (t : NkTimer) (now : UInt64)

/-- the end of the span, for a clock that reads `now` -/
def measuredEnd : UInt64 := if t.isRunning then now else t.endTime

def timeDiff : UInt64 := measuredEnd t now - t.startTime - cxt.globalBias

/-- what the difference is divided by -/
def divisor (precId : NkTimerPrecision) : ℚ := cxt.timerFrequency.toNat / precId.units

/-- the quotient of two numbers that have no sign of zero -/
def divDouble (x y : ℚ) : FloatNum :=
  if y = 0 then (if x = 0 then .nan else .inf (x < 0)) else .val (x / y)

/-- `NkElapsedTimerGetAs` -/
def elapsedTimerGetAs (precId : NkTimerPrecision) : FloatNum := divDouble (timeDiff cxt t now).toNat (divisor cxt precId)

end Measurement

/-! ## Runs -/

inductive Op where
  | create (isAutoStart : Bool)
  | start
  | stop
  | restart
  | getAs (precId : NkTimerPrecision)
deriving DecidableEq, Repr

/-- the context, the index of the next reading, and the timer, once it is created; `started` says whether it has been started
since then -/
structure TimerState where
  cxt : TimingDeviceContext
  reads : ℕ
  timer : Option NkTimer
  started : Bool
deriving DecidableEq, Repr

/-- after the start-up of the component, which begins with the reading `first` -/
def startup (first : ℕ) : TimerState := ⟨initializeStaticContext clock first ⟨0, 0⟩, first + 2000, none, false⟩

/-- a call with the timer -/
def step (s : TimerState) : Op → Option TimerState
  | .create isAutoStart =>
    some { s with
      reads := s.reads + if isAutoStart then 1 else 0
      timer := some (timerCreate isAutoStart (clock s.reads))
      started := isAutoStart }
  | .start => s.timer.map fun t =>
    { s with reads := s.reads + 1, timer := some (timerStart (clock s.reads) t), started := true }
  | .stop => s.timer.map fun t => { s with reads := s.reads + 1, timer := some (timerStop (clock s.reads) t) }
  | .restart => s.timer.map fun t =>
    { s with reads := s.reads + 2, timer := some (timerRestart (clock s.reads) (clock (s.reads + 1)) t) }
  | .getAs _ => s.timer.map fun t => { s with reads := s.reads + if t.isRunning then 1 else 0 }

/-- the conditions of the assertions -/
def Valid (s : TimerState) : Op → Prop
  | .create _ => True
  | .start => ∃ t, s.timer = some t ∧ t.isRunning = false
  | .stop => ∃ t, s.timer = some t ∧ t.isRunning = true
  | .restart => ∃ t, s.timer = some t ∧ t.isRunning = true
  | .getAs _ => s.timer.isSome = true

/-! ## What is right -/

/-- a clock that does not go back -/
def NonDecreasing : Prop := ∀ i j, i ≤ j → clock i ≤ clock j

/-- the order of numbers; NaN is not compared -/
def LeNum : FloatNum → FloatNum → Prop
  | .val p, .val q => p ≤ q
  | .val _, .inf negative => negative = false
  | .inf negative, .val _ => negative = true
  | .inf m, .inf n => n = true → m = true
  | _, _ => False

/-- the difference of a measurement is the span without the overhead, or zero if that is longer -/
def SpanRight (s : TimerState) (t : NkTimer) : Prop :=
  (timeDiff s.cxt t (clock s.reads)).toNat =
    (measuredEnd t (clock s.reads)).toNat - t.startTime.toNat - s.cxt.globalBias.toNat

/-- a measurement of a timer, made next, with a clock of `frequency` ticks a second -/
structure MeasuresRight (frequency : UInt64) (s : TimerState) (t : NkTimer) (precId : NkTimerPrecision) : Prop where
  span : SpanRight clock s t
  divides : s.cxt.timerFrequency ≠ 0 ∧ s.cxt.timerFrequency = frequency
  mono : t.isRunning = true → ∀ i j, s.reads ≤ i → i ≤ j →
    LeNum (elapsedTimerGetAs s.cxt t (clock i) precId) (elapsedTimerGetAs s.cxt t (clock j) precId)

/-! ## Invariants -/

/-- the frequency is not set, and a timer that has been started was so before the next reading and before its end -/
structure Inv (s : TimerState) : Prop where
  frequency : s.cxt.timerFrequency = 0
  before : ∀ t, s.timer = some t → s.started = true → ∀ i, s.reads ≤ i → t.startTime ≤ clock i
  ordered : ∀ t, s.timer = some t → s.started = true → t.isRunning = false → t.startTime ≤ t.endTime
  running : ∀ t, s.timer = some t → t.isRunning = true → s.started = true

variable {clock}

theorem inv_startup (first : ℕ) : Inv clock (startup clock first) := by
  refine ⟨rfl, ?_, ?_, ?_⟩ <;> intro t ht <;> cases ht

/-- a timer that is started with the reading `i` -/
theorem inv_timerStart (hclock : NonDecreasing clock) {cxt : TimingDeviceContext} (hfreq : cxt.timerFrequency = 0) (i : ℕ)
    (t : NkTimer) : Inv clock ⟨cxt, i + 1, some (timerStart (clock i) t), true⟩ := by
  refine ⟨hfreq, ?_, ?_, fun _ _ _ => rfl⟩
  · intro u hu _ j hj
    cases hu
    exact hclock i j (Nat.le_of_succ_le hj)
  · intro u hu _ hrun
    cases hu
    cases hrun

theorem inv_step (hclock : NonDecreasing clock) {s s' : TimerState} {o : Op} (h : Inv clock s) (hok : Valid s o)
    (hs : step clock s o = some s') : Inv clock s' := by
  cases o with
  | create isAutoStart =>
    cases hs
    cases isAutoStart with
    | false =>
      refine ⟨h.frequency, ?_, ?_, ?_⟩
      · intro t ht hstarted
        cases hstarted
      · intro t ht hstarted
        cases hstarted
      · intro t ht hrun
        cases ht
        cases hrun
    | true => exact inv_timerStart hclock h.frequency s.reads ⟨false, 0, 0⟩
  | start =>
    obtain ⟨t, ht, hrun⟩ := hok
    rw [step, ht] at hs
    cases hs
    exact inv_timerStart hclock h.frequency s.reads t
  | stop =>
    obtain ⟨t, ht, hrun⟩ := hok
    rw [step, ht] at hs
    cases hs
    refine ⟨h.frequency, ?_, ?_, ?_⟩
    · intro u hu hstarted i hi
      cases hu
      exact h.before t ht hstarted i (Nat.le_of_succ_le hi)
    · intro u hu hstarted _
      cases hu
      exact h.before t ht hstarted s.reads (le_refl _)
    · intro u hu hrun
      cases hu
      cases hrun
  | restart =>
    obtain ⟨t, ht, hrun⟩ := hok
    have hstarted := h.running t ht hrun
    rw [step, ht] at hs
    cases hs
    rw [hstarted]
    exact inv_timerStart hclock h.frequency (s.reads + 1) (timerStop (clock s.reads) t)
  | getAs precId =>
    obtain ⟨t, ht⟩ := Option.isSome_iff_exists.1 hok
    rw [step, ht] at hs
    cases hs
    refine ⟨h.frequency, ?_, ?_, ?_⟩
    · intro u hu hstarted i hi
      cases hu
      exact h.before t ht hstarted i (Nat.le_of_add_right_le hi)
    · intro u hu
      cases hu
      exact h.ordered t ht
    · intro u hu
      cases hu
      exact h.running t ht

theorem inv_run (hclock : NonDecreasing clock) {first : ℕ} {ops : List Op} {s : TimerState}
    (hrun : Runs (step clock) Valid (startup clock first) ops s) : Inv clock s :=
  hrun.inv (fun _ _ _ h hok hs => inv_step hclock h hok hs) (inv_startup first)

/-! ## Measurements -/

section Measurements

variable {s : TimerState} {t : NkTimer}

theorem start_le_end (h : Inv clock s) (ht : s.timer = some t) (hstarted : s.started = true) :
    t.startTime.toNat ≤ (measuredEnd t (clock s.reads)).toNat := by
  unfold measuredEnd
  split_ifs with hrunning
  · exact UInt64.le_iff_toNat_le.1 (h.before t ht hstarted s.reads (le_refl _))
  · exact UInt64.le_iff_toNat_le.1 (h.ordered t ht hstarted (by simpa using hrunning))

/-- a difference wraps exactly if the overhead is longer than the span -/
theorem spanRight_iff (h : Inv clock s) (ht : s.timer = some t) (hstarted : s.started = true) :
    SpanRight clock s t ↔
      s.cxt.globalBias.toNat ≤ (measuredEnd t (clock s.reads)).toNat - t.startTime.toNat := by
  have hle := start_le_end h ht hstarted
  have hend := (measuredEnd t (clock s.reads)).toNat_lt
  have hbias := s.cxt.globalBias.toNat_lt
  unfold SpanRight timeDiff
  rw [UInt64.toNat_sub, UInt64.toNat_sub_of_le _ _ (UInt64.le_iff_toNat_le.2 hle)]
  omega

/-- every quotient has the divisor 0 -/
theorem elapsed_of_inv (h : Inv clock s) (t : NkTimer) (now : UInt64) (precId : NkTimerPrecision) :
    elapsedTimerGetAs s.cxt t now precId = if timeDiff s.cxt t now = 0 then .nan else .inf false := by
  have hdivisor : divisor s.cxt precId = 0 := by
    rw [divisor, h.frequency]
    exact zero_div _
  rw [elapsedTimerGetAs, divDouble, if_pos hdivisor]
  by_cases hzero : timeDiff s.cxt t now = 0
  · rw [if_pos hzero, hzero]
    rfl
  · have hne : ((timeDiff s.cxt t now).toNat : ℚ) ≠ 0 := by
      rw [Nat.cast_ne_zero]
      exact fun h0 => hzero (UInt64.toNat_inj.1 h0)
    rw [if_neg hne, if_neg hzero, decide_eq_false (Nat.cast_nonneg _).not_gt]

theorem not_measuresRight (h : Inv clock s) (frequency : UInt64) (t : NkTimer) (precId : NkTimerPrecision) :
    ¬ MeasuresRight clock frequency s t precId := fun hright => hright.divides.1 h.frequency

end Measurements

/-- after the start-up and any valid calls, no measurement of a timer that has been started is right: it divides by 0, so its
value is infinity or NaN, and its difference is right exactly if the overhead is no longer than the span -/
theorem measures_never (hclock : NonDecreasing clock) {first : ℕ} {ops : List Op} {s : TimerState}
    (hrun : Runs (step clock) Valid (startup clock first) ops s) {t : NkTimer} (ht : s.timer = some t)
    (hstarted : s.started = true) (frequency : UInt64) (precId : NkTimerPrecision) :
    ¬ MeasuresRight clock frequency s t precId ∧
      (elapsedTimerGetAs s.cxt t (clock s.reads) precId =
        if timeDiff s.cxt t (clock s.reads) = 0 then .nan else .inf false) ∧
      (SpanRight clock s t ↔
        s.cxt.globalBias.toNat ≤ (measuredEnd t (clock s.reads)).toNat - t.startTime.toNat) := by
  have h := inv_run hclock hrun
  exact ⟨not_measuresRight h frequency t precId, elapsed_of_inv h t _ precId, spanRight_iff h ht hstarted⟩

/-- a timer that is started with a clock that stands still -/
theorem measures_never_still :
    ¬ MeasuresRight (fun _ => 7) 10000000 ⟨(startup (fun _ => 7) 0).cxt, 2001, some ⟨true, 7, 0⟩, true⟩ ⟨true, 7, 0⟩
      .milliseconds :=
  (@measures_never (fun _ => 7) (fun _ _ _ => UInt64.le_refl 7) 0 [.create true] _ (.cons trivial rfl (.nil _)) _ rfl rfl
    10000000 .milliseconds).1

/-- a clock with 10 ticks between two readings of the start-up, and none afterwards -/
def lateClock (i : ℕ) : UInt64 := if i < 2000 then UInt64.ofNat (10 * i) else 20000

theorem nonDecreasing_lateClock : NonDecreasing lateClock := by
  have hval : ∀ i, (lateClock i).toNat = min (10 * i) 20000 := by
    intro i
    unfold lateClock
    split_ifs with h
    · rw [UInt64.toNat_ofNat', Nat.mod_eq_of_lt (by omega)]
      omega
    · show 20000 = _
      omega
  intro i j hij
  rw [UInt64.le_iff_toNat_le, hval, hval]
  omega

/-- the overhead, if all rounds of the start-up have the same -/
theorem diffSum_const {first : ℕ} {d : UInt64} {n : ℕ}
    (h : ∀ k < n, clock (first + 2 * k + 1) - clock (first + 2 * k) = d) : diffSum clock first n = UInt64.ofNat n * d := by
  induction n with
  | zero => exact UInt64.zero_mul.symm
  | succ n ih =>
    rw [diffSum, ih fun k hk => h k (Nat.lt_succ_of_lt hk), h n (Nat.lt_succ_self n), UInt64.ofNat_add, UInt64.add_mul]
    exact congrArg _ (UInt64.one_mul d).symm

/-- the state after the start-up and the start of a timer -/
def lateState : TimerState := ⟨⟨0, 10⟩, 2001, some ⟨true, 20000, 0⟩, true⟩

theorem runs_lateState : Runs (step lateClock) Valid (startup lateClock 0) [.create true] lateState := by
  have hbias : getOverhead lateClock 0 = 10 := by
    rw [getOverhead, @diffSum_const lateClock 0 10 1000]
    · rfl
    · intro k hk
      unfold lateClock
      rw [if_pos (by omega), if_pos (by omega), Nat.mul_add 10 _ 1, UInt64.ofNat_add, UInt64.add_comm,
        UInt64.add_sub_cancel]
      rfl
  refine .cons trivial ?_ (.nil _)
  rw [startup, initializeStaticContext, hbias]
  rfl

/-- the first measurement of a timer gives infinity, and the difference that is divided by 0 is 2⁶⁴ − 10 -/
theorem elapsed_lost : NonDecreasing lateClock ∧ Runs (step lateClock) Valid (startup lateClock 0) [.create true] lateState ∧
    ¬ MeasuresRight lateClock 10000000 lateState ⟨true, 20000, 0⟩ .milliseconds ∧
    elapsedTimerGetAs lateState.cxt ⟨true, 20000, 0⟩ (lateClock 2001) .milliseconds = .inf false ∧
    (timeDiff lateState.cxt ⟨true, 20000, 0⟩ (lateClock 2001)).toNat = 2 ^ 64 - 10 := by
  have h := inv_run nonDecreasing_lateClock runs_lateState
  refine ⟨nonDecreasing_lateClock, runs_lateState, not_measuresRight h _ _ _, ?_, rfl⟩
  rw [elapsed_of_inv h]
  rfl

end Noriko.Timer
