/-
The main loop (`NkApplicationRun` of `application.c`).

A frame reads the clock, adds the time since the frame before to the lag, but no more than a maximum, and catches up: as long
as the lag is more than the ticks of an update, the layers are updated and the whole ticks of an update are taken from the
lag. The unsigned difference of two readings is bounded by the maximum, whatever the clock reads.

Numbers of type `NkFloat` are rational numbers here, and the lag is converted to such a number for a comparison (`conv`). So
the ticks of an update are compared as they are, and taken away without their fraction. The accounts are always right, for
every clock and every number of frames (`main_loop_accounted`). They are the same with the lag in single precision as long as
an update has less than 2²⁴ ticks (`accounted_single`).

The window, the renderer and the layers are not looked at but for the order of the calls.
-/
import Noriko.Def
import Noriko.Lib.Rounding

namespace Noriko.MainLoop

open Lib

/-! ## The code -/

/-- what a frame gets: the reading of the clock, and the results of `__NkInt_Application_PlatformLoop` -/
structure Frame where
  currTime : UInt64
  isLeave : Bool
  errCode : NkErrorCode

/-- a call of the loop; an update has the lag that it is made at beside it -/
inductive Event where
  | platformLoop
  | onUpdate (timestep : ℚ) (currLag : UInt64)
  | beginDraw
  | onRender (aheadBy : ℚ)
  | endDraw
deriving DecidableEq

/-- the constants of the loop -/
structure Timing where
  tiFreq : ℚ
  ticksPerUpdate : ℚ
  maxElapsed : UInt64

/-- the constants, of the frequency of the clock -/
def timing (tiFreq : ℚ) : Timing where
  tiFreq := tiFreq
  ticksPerUpdate := 8333 / 1000 / 1000 * tiFreq
  maxElapsed := UInt64.ofNat ⌊16 / 1000 * tiFreq⌋₊

/-- `(NkUint64)ticksPerUpdate` -/
def Timing.wholeTicks (c : Timing) : UInt64 := UInt64.ofNat ⌊c.ticksPerUpdate⌋₊

structure LoopState where
  prevTime : UInt64
  currLag : UInt64
  trace : List Event
  /-- the error code that the loop was left with -/
  result : Option NkErrorCode

def initState (prevTime : UInt64) : LoopState := ⟨prevTime, 0, [], none⟩

variable (conv : UInt64 → ℚ) (c : Timing)

/-- `while (currLag > ticksPerUpdate)`: the lag afterwards and the updates, if the loop ends -/
def catchUp : ℕ → UInt64 → Option (UInt64 × List Event)
  | 0, _ => none
  | fuel + 1, currLag =>
    if c.ticksPerUpdate < conv currLag then
      (catchUp fuel (currLag - c.wholeTicks)).map fun r =>
        (r.1, .onUpdate (c.ticksPerUpdate / c.tiFreq) currLag :: r.2)
    else some (currLag, [])

/-- one round of the loop, if it ends; a lag that decreases is gone after as many updates as it has ticks -/
def runFrame (s : LoopState) (f : Frame) : Option LoopState :=
  if s.result.isSome then some s
  else
    let elapsedTime := if f.currTime - s.prevTime > c.maxElapsed then c.maxElapsed else f.currTime - s.prevTime
    let currLag := s.currLag + elapsedTime
    if f.isLeave then some ⟨f.currTime, currLag, s.trace ++ [.platformLoop], some f.errCode⟩
    else
      (catchUp conv c (currLag.toNat + 1) currLag).map fun r =>
        ⟨f.currTime, r.1,
          s.trace ++ .platformLoop :: r.2 ++ [.beginDraw, .onRender (conv r.1 / c.ticksPerUpdate), .endDraw], none⟩

/-- `NkApplicationRun`, up to some frame -/
def applicationRun (prevTime : UInt64) (frames : List Frame) : Option LoopState :=
  frames.foldlM (runFrame conv c) (initState prevTime)

/-! ## What is right -/

def Event.isUpdate : Event → Bool
  | .onUpdate _ _ => true
  | _ => false

/-- the number of updates -/
def updates (trace : List Event) : ℕ := trace.countP Event.isUpdate

/-- the times since the frame before, no more than the maximum; there is none after the frame that leaves the loop -/
def elapsedTimes (maxElapsed : UInt64) : UInt64 → List Frame → List ℕ
  | _, [] => []
  | prevTime, f :: fs =>
    min (f.currTime - prevTime).toNat maxElapsed.toNat :: if f.isLeave then [] else elapsedTimes maxElapsed f.currTime fs

/-- the ticks of an update can be taken from the lag of every update -/
def NoWrap (trace : List Event) : Prop := ∀ timestep currLag, .onUpdate timestep currLag ∈ trace → c.wholeTicks ≤ currLag

/-- what the loop has done in some frames -/
structure Accounted (prevTime : UInt64) (frames : List Frame) (s : LoopState) : Prop where
  noWrap : NoWrap c s.trace
  lag_le : s.result = none → (s.currLag.toNat : ℚ) ≤ c.ticksPerUpdate
  total : (elapsedTimes c.maxElapsed prevTime frames).sum = ⌊c.ticksPerUpdate⌋₊ * updates s.trace + s.currLag.toNat

/-! ## One frame -/

/-- an update has a tick, the lag and the time of a frame fit in 64 bits, and comparisons are exact -/
structure Exact : Prop where
  compare : ∀ lag : UInt64, c.ticksPerUpdate < conv lag ↔ c.ticksPerUpdate < lag.toNat
  one_le : 1 ≤ c.ticksPerUpdate
  fits : ⌊c.ticksPerUpdate⌋₊ + c.maxElapsed.toNat < 2 ^ 64

variable {conv : UInt64 → ℚ} {c : Timing}

theorem Exact.wholeTicks (h : Exact conv c) : c.wholeTicks.toNat = ⌊c.ticksPerUpdate⌋₊ := by
  have hfits := h.fits
  rw [Timing.wholeTicks, UInt64.toNat_ofNat']
  exact Nat.mod_eq_of_lt (by omega)

theorem Exact.pos (h : Exact conv c) : 1 ≤ ⌊c.ticksPerUpdate⌋₊ := (Nat.one_le_floor_iff _).2 h.one_le

theorem updates_append (l m : List Event) : updates (l ++ m) = updates l + updates m := List.countP_append

/-- what the inner loop does with a lag -/
structure CaughtUp (c : Timing) (currLag : UInt64) (r : UInt64 × List Event) : Prop where
  noWrap : NoWrap c r.2
  lag_le : (r.1.toNat : ℚ) ≤ c.ticksPerUpdate
  total : currLag.toNat = ⌊c.ticksPerUpdate⌋₊ * updates r.2 + r.1.toNat

/-- the inner loop ends, since every update takes at least one tick from the lag -/
theorem catchUp_spec (h : Exact conv c) {fuel : ℕ} {currLag : UInt64} (hfuel : currLag.toNat < fuel) :
    ∃ r, catchUp conv c fuel currLag = some r ∧ CaughtUp c currLag r := by
  induction fuel generalizing currLag with
  | zero => exact absurd hfuel (Nat.not_lt_zero _)
  | succ fuel ih =>
    unfold catchUp
    by_cases hlt : c.ticksPerUpdate < conv currLag
    · have hticks : c.ticksPerUpdate < currLag.toNat := (h.compare currLag).1 hlt
      have hle : c.wholeTicks ≤ currLag := by
        rw [UInt64.le_iff_toNat_le, h.wholeTicks]
        exact Nat.floor_le_of_le hticks.le
      have hsub : (currLag - c.wholeTicks).toNat = currLag.toNat - ⌊c.ticksPerUpdate⌋₊ := by
        rw [UInt64.toNat_sub_of_le _ _ hle, h.wholeTicks]
      have hnat := UInt64.le_iff_toNat_le.1 hle
      rw [h.wholeTicks] at hnat
      have hpos := h.pos
      obtain ⟨r, hr, hcaught⟩ := ih (by rw [hsub]; omega)
      rw [if_pos hlt, hr]
      refine ⟨_, rfl, ?_, hcaught.lag_le, ?_⟩
      · intro timestep lag hmem
        rcases List.mem_cons.1 hmem with heq | hmem
        · cases heq
          exact hle
        · exact hcaught.noWrap timestep lag hmem
      · have htotal := hcaught.total
        have hone : updates (.onUpdate (c.ticksPerUpdate / c.tiFreq) currLag :: r.2) = updates r.2 + 1 :=
          List.countP_cons_of_pos rfl
        rw [hsub] at htotal
        show currLag.toNat = _ * updates (_ :: r.2) + r.1.toNat
        rw [hone, Nat.mul_succ]
        omega
    · rw [if_neg hlt]
      refine ⟨_, rfl, fun timestep lag hmem => ?_, ?_, ?_⟩
      · cases hmem
      · exact not_lt.1 fun hticks => hlt ((h.compare currLag).2 hticks)
      · exact (Nat.zero_add _).symm

/-- what a frame does to a loop that has not been left -/
structure Stepped (c : Timing) (s : LoopState) (f : Frame) (t : LoopState) : Prop where
  prevTime : t.prevTime = f.currTime
  result : t.result = if f.isLeave then some f.errCode else none
  noWrap : NoWrap c s.trace → NoWrap c t.trace
  lag_le : t.result = none → (t.currLag.toNat : ℚ) ≤ c.ticksPerUpdate
  total : ⌊c.ticksPerUpdate⌋₊ * updates s.trace + s.currLag.toNat + min (f.currTime - s.prevTime).toNat c.maxElapsed.toNat =
    ⌊c.ticksPerUpdate⌋₊ * updates t.trace + t.currLag.toNat

theorem noWrap_append {l m : List Event} (hl : NoWrap c l) (hm : NoWrap c m) : NoWrap c (l ++ m) := by
  intro timestep currLag hmem
  rcases List.mem_append.1 hmem with hmem | hmem
  · exact hl timestep currLag hmem
  · exact hm timestep currLag hmem

/-- `NK_MIN` of the time since the frame before and the maximum -/
theorem toNat_elapsed (a b : UInt64) : (if a > b then b else a).toNat = min a.toNat b.toNat := by
  by_cases hgt : a > b
  · rw [if_pos hgt, min_eq_right (UInt64.lt_iff_toNat_lt.1 hgt).le]
  · rw [if_neg hgt, min_eq_left (UInt64.le_iff_toNat_le.1 (UInt64.not_lt.1 hgt))]

theorem runFrame_spec (h : Exact conv c) {s : LoopState} (hrun : s.result = none)
    (hlag : (s.currLag.toNat : ℚ) ≤ c.ticksPerUpdate) (f : Frame) :
    ∃ t, runFrame conv c s f = some t ∧ Stepped c s f t := by
  have helapsed := toNat_elapsed (f.currTime - s.prevTime) c.maxElapsed
  have hsum : (s.currLag + if f.currTime - s.prevTime > c.maxElapsed then c.maxElapsed else f.currTime - s.prevTime).toNat =
      s.currLag.toNat + min (f.currTime - s.prevTime).toNat c.maxElapsed.toNat := by
    have hfits := h.fits
    have hfloor := Nat.le_floor hlag
    have hmin := Nat.min_le_right (f.currTime - s.prevTime).toNat c.maxElapsed.toNat
    rw [UInt64.toNat_add, helapsed]
    exact Nat.mod_eq_of_lt (by omega)
  have hplatform : NoWrap c [.platformLoop] := by
    intro timestep currLag hmem
    rw [List.mem_singleton] at hmem
    cases hmem
  unfold runFrame
  rw [if_neg (by rw [hrun]; decide)]
  by_cases hleave : f.isLeave = true
  · rw [if_pos hleave]
    refine ⟨_, rfl, rfl, (if_pos hleave).symm, fun hs => noWrap_append hs hplatform, fun hnone => ?_, ?_⟩
    · cases hnone
    · dsimp only
      rw [updates_append, hsum, ← Nat.add_assoc]
      rfl
  · rw [if_neg hleave]
    obtain ⟨r, hr, hcaught⟩ := catchUp_spec h (Nat.lt_succ_self (s.currLag +
      if f.currTime - s.prevTime > c.maxElapsed then c.maxElapsed else f.currTime - s.prevTime).toNat)
    rw [hr]
    refine ⟨_, rfl, rfl, (if_neg hleave).symm, fun hs => ?_, fun _ => hcaught.lag_le, ?_⟩
    · refine noWrap_append (noWrap_append hs (noWrap_append hplatform hcaught.noWrap)) ?_
      intro timestep currLag hmem
      simp at hmem
    · have htotal := hcaught.total
      have hupdates : updates (s.trace ++ .platformLoop :: r.2 ++
          [.beginDraw, .onRender (conv r.1 / c.ticksPerUpdate), .endDraw]) = updates s.trace + updates r.2 := by
        rw [updates_append, updates_append]
        rfl
      rw [hsum] at htotal
      dsimp only
      rw [hupdates, Nat.mul_add, Nat.add_assoc, htotal, Nat.add_assoc]

/-! ## All frames -/

theorem foldlM_left {s : LoopState} (hleft : s.result.isSome = true) (frames : List Frame) :
    frames.foldlM (runFrame conv c) s = some s := by
  induction frames with
  | nil => rfl
  | cons f fs ih =>
    have hstep : runFrame conv c s f = some s := if_pos hleft
    rw [List.foldlM_cons, hstep]
    exact ih

/-- the accounts of some more frames -/
theorem run_from (h : Exact conv c) (frames : List Frame) {s : LoopState} (hrun : s.result = none)
    (hlag : (s.currLag.toNat : ℚ) ≤ c.ticksPerUpdate) (hs : NoWrap c s.trace) :
    ∃ t, frames.foldlM (runFrame conv c) s = some t ∧ NoWrap c t.trace ∧
      (t.result = none → (t.currLag.toNat : ℚ) ≤ c.ticksPerUpdate) ∧
      ⌊c.ticksPerUpdate⌋₊ * updates s.trace + s.currLag.toNat + (elapsedTimes c.maxElapsed s.prevTime frames).sum =
        ⌊c.ticksPerUpdate⌋₊ * updates t.trace + t.currLag.toNat := by
  induction frames generalizing s with
  | nil => exact ⟨s, rfl, hs, fun _ => hlag, rfl⟩
  | cons f fs ih =>
    obtain ⟨u, hu, hstep⟩ := runFrame_spec h hrun hlag f
    have hresult := hstep.result
    have htotal := hstep.total
    rw [List.foldlM_cons, hu, elapsedTimes, List.sum_cons, ← Nat.add_assoc, htotal, ← hstep.prevTime]
    by_cases hleave : f.isLeave = true
    · rw [if_pos hleave] at hresult
      refine ⟨u, foldlM_left (by rw [hresult]; rfl) fs, hstep.noWrap hs, hstep.lag_le, ?_⟩
      rw [if_pos hleave]
      rfl
    · rw [if_neg hleave] at hresult
      obtain ⟨t, ht, hwrap, hlag', hsum⟩ := ih hresult (hstep.lag_le hresult) (hstep.noWrap hs)
      rw [if_neg hleave]
      exact ⟨t, ht, hwrap, hlag', hsum⟩

theorem run_accounted (h : Exact conv c) (prevTime : UInt64) (frames : List Frame) :
    ∃ s, applicationRun conv c prevTime frames = some s ∧ Accounted c prevTime frames s := by
  have hlag : ((0 : UInt64).toNat : ℚ) ≤ c.ticksPerUpdate := le_trans (by norm_num) h.one_le
  obtain ⟨t, ht, hwrap, hle, hsum⟩ := run_from h frames (s := initState prevTime) rfl hlag fun timestep currLag hmem => by
    cases hmem
  refine ⟨t, ht, hwrap, hle, ?_⟩
  rw [← hsum]
  exact (Nat.zero_add _).symm

/-- the lag as it is -/
def exactLag (currLag : UInt64) : ℚ := currLag.toNat

/-- the lag in single precision -/
def singleLag (currLag : UInt64) : ℚ := single currLag.toNat

/-- what a frame adds to the lag fits, for every frequency of 64 bits -/
theorem timing_fits {tiFreq : ℚ} (h0 : 0 ≤ tiFreq) (hfreq : tiFreq ≤ 2 ^ 64) :
    ⌊(timing tiFreq).ticksPerUpdate⌋₊ + (timing tiFreq).maxElapsed.toNat < 2 ^ 64 := by
  have hticks : (⌊(timing tiFreq).ticksPerUpdate⌋₊ : ℚ) ≤ 8333 / 1000 / 1000 * tiFreq :=
    Nat.floor_le (mul_nonneg (by norm_num) h0)
  have hmax : ((timing tiFreq).maxElapsed.toNat : ℚ) ≤ 16 / 1000 * tiFreq := by
    have hmod : (timing tiFreq).maxElapsed.toNat ≤ ⌊16 / 1000 * tiFreq⌋₊ := by
      rw [timing, UInt64.toNat_ofNat']
      exact Nat.mod_le _ _
    exact (Nat.cast_le.2 hmod).trans (Nat.floor_le (by positivity))
  have hsum : ((⌊(timing tiFreq).ticksPerUpdate⌋₊ + (timing tiFreq).maxElapsed.toNat : ℕ) : ℚ) < (2 ^ 64 : ℕ) := by
    push_cast
    linarith
  exact_mod_cast hsum

/-- in single precision the accounts are the same, as long as an update has less than 2²⁴ ticks -/
theorem accounted_single {c : Timing} (h1 : 1 ≤ c.ticksPerUpdate) (hlt : c.ticksPerUpdate < 2 ^ 24)
    (hfits : ⌊c.ticksPerUpdate⌋₊ + c.maxElapsed.toNat < 2 ^ 64) (prevTime : UInt64) (frames : List Frame) :
    ∃ s, applicationRun singleLag c prevTime frames = some s ∧ Accounted c prevTime frames s :=
  run_accounted ⟨fun _ => lt_single hlt _, h1, hfits⟩ prevTime frames

/-- for every frequency with a tick for an update, every clock and every number of frames, the loop comes to the end of the
frames, no subtraction from the lag wraps, the lag is no more than the ticks of an update after a frame, and the times of the
frames are those of the updates and the lag -/
theorem main_loop_accounted {tiFreq : ℚ} (hfreq : tiFreq ≤ 2 ^ 64) (h1 : 1 ≤ (timing tiFreq).ticksPerUpdate)
    (prevTime : UInt64) (frames : List Frame) :
    ∃ s, applicationRun exactLag (timing tiFreq) prevTime frames = some s ∧
      Accounted (timing tiFreq) prevTime frames s := by
  have h0 : 0 ≤ tiFreq := by
    have hticks : 1 ≤ 8333 / 1000 / 1000 * tiFreq := h1
    linarith
  exact run_accounted ⟨fun _ => Iff.rfl, h1, timing_fits h0 hfreq⟩ prevTime frames

/-- a clock of 10 MHz that goes back once, and a frame that leaves the loop -/
theorem main_loop_accounted_10mhz :
    ∃ s, applicationRun exactLag (timing 10000000) 5000
        [⟨100000, false, .ok⟩, ⟨99000, false, .ok⟩, ⟨180000, true, .ok⟩] = some s ∧
      Accounted (timing 10000000) 5000 [⟨100000, false, .ok⟩, ⟨99000, false, .ok⟩, ⟨180000, true, .ok⟩] s :=
  main_loop_accounted (by norm_num) (by norm_num [timing]) 5000 _

end Noriko.MainLoop
