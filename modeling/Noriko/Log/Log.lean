/-
The log component (`log.c`): installing and uninstalling devices, and messages.

The parts of a call that run under the mutex are functions on the context (`installChoose`, `installWrite`, `findDevice`,
`uninstallErase`); the calls are put together from them, with the mutex and the methods of the devices in between. A method
is a callback: it returns a code, and the context may have changed when it returns, since it may log or install something
itself. Formatting a message has no effect on the component and is left out, as are the reference counts of the devices.

`logNDev` slots hold the devices. A slot index from there on is never used.
-/
import Noriko.Def
import Noriko.Dstruct.Vector
import Noriko.Lib.Mutex

namespace Noriko.Log

open Lib Dstruct Sync

/-- `NK_LOG_NDEV` -/
def logNDev : ℕ := 64

/-- `__NkInt_LogContext` without its mutex -/
structure LogContext (D : Type) where
  nOfDev : ℕ
  glMinLevel : ℕ
  glMaxLevel : ℕ
  devArray : ℕ → Option D

variable {D : Type}

/-! ## Under the mutex -/

/-- the first locked part of `NkLogInstallDevice`: its code, and the first free slot unless the call ends here. It returns
`NkErr_Ok` and no slot if no slot is free although the count says so. -/
def installChoose (c : LogContext D) : NkErrorCode × Option ℕ :=
  if logNDev ≤ c.nOfDev then (.capLimitExceeded, none)
  else (.ok, (List.range logNDev).find? fun i => (c.devArray i).isNone)

/-- the second locked part of `NkLogInstallDevice`, for the slot chosen in the first -/
def installWrite (c : LogContext D) (i : ℕ) (devRef : D) : LogContext D :=
  { c with devArray := Function.update c.devArray i (some devRef), nOfDev := u64 (c.nOfDev + 1) }

/-- `__NkInt_LogFindDevice`; `none` for `SIZE_MAX` -/
def findDevice [DecidableEq D] (c : LogContext D) (devRef : D) : Option ℕ :=
  (List.range logNDev).find? fun i => c.devArray i = some devRef

/-- the second locked part of `NkLogUninstallDevice`, for the slot found in the first -/
def uninstallErase (c : LogContext D) (devIndex : ℕ) : LogContext D :=
  { c with devArray := Function.update c.devArray devIndex none, nOfDev := sub64 c.nOfDev 1 }

/-! ## The calls -/

/-- `NkLogInstallDevice` -/
def logInstallDevice (devRef : D) (onInstall : LogContext D → NkErrorCode × LogContext D) :
    Sync (LogContext D) NkErrorCode := do
  lock
  let c ← get
  match installChoose c with
  | (errorCode, none) => do
    unlock
    return errorCode
  | (_, some i) => do
    unlock
    let errorCode ← callback onInstall
    lock
    if errorCode ≠ .ok then do
      unlock
      return errorCode
    else do
      let c ← get
      set (installWrite c i devRef)
      unlock
      return errorCode

/-- `NkLogUninstallDevice` once the device was found -/
def uninstallFound (devIndex : ℕ) (onUninstall : LogContext D → NkErrorCode × LogContext D) :
    Sync (LogContext D) NkErrorCode := do
  unlock
  let _ ← callback onUninstall
  lock
  let c ← get
  set (uninstallErase c devIndex)
  unlock
  return .ok

/-- `NkLogUninstallDevice`; a device that is not found ends the call under the mutex -/
def logUninstallDevice [DecidableEq D] (devRef : D) (onUninstall : LogContext D → NkErrorCode × LogContext D) :
    Sync (LogContext D) NkErrorCode := do
  lock
  let c ← get
  match findDevice c devRef with
  | none => return .itemNotFound
  | some devIndex => uninstallFound devIndex onUninstall

/-- the loop of `NkLogMessage` over the slots from `i` on, `j` devices being done -/
def messageLoop (onMessage : D → ℕ → LogContext D → Unit × LogContext D) : ℕ → ℕ → ℕ → Sync (LogContext D) Unit
  | 0, _, _ => unlock
  | rounds + 1, i, j => do
    let c ← get
    if j < c.nOfDev then
      match c.devArray i with
      | none => messageLoop onMessage rounds (i + 1) j
      | some currDev => do
        unlock
        callback (onMessage currDev i)
        lock
        messageLoop onMessage rounds (i + 1) (j + 1)
    else unlock

/-- `NkLogMessage` -/
def logMessage (lvlId : ℕ) (onMessage : D → ℕ → LogContext D → Unit × LogContext D) : Sync (LogContext D) Unit := do
  lock
  let c ← get
  if ¬ (c.glMinLevel ≤ lvlId ∧ lvlId ≤ c.glMaxLevel) ∨ c.nOfDev = 0 then unlock
  else messageLoop onMessage logNDev 0 0

/-! ## The mutex -/

theorem goes_install (devRef : D) (onInstall : LogContext D → NkErrorCode × LogContext D) :
    Goes false (logInstallDevice devRef onInstall) false := by
  refine .bind .lock fun _ => .bind .get fun c => ?_
  cases hchoose : installChoose c with
  | mk errorCode slot =>
    cases slot with
    | none => exact .bind .unlock fun _ => .pure errorCode
    | some i =>
      refine .bind .unlock fun _ => .bind (.callback onInstall) fun code => .bind .lock fun _ => ?_
      refine .ite (fun _ => .bind .unlock fun _ => .pure code) fun _ => ?_
      exact .bind .get fun c => .bind (.set _) fun _ => .bind .unlock fun _ => .pure code

theorem goes_messageLoop (onMessage : D → ℕ → LogContext D → Unit × LogContext D) (rounds i j : ℕ) :
    Goes true (messageLoop onMessage rounds i j) false := by
  induction rounds generalizing i j with
  | zero => exact .unlock
  | succ rounds ih =>
    refine .bind .get fun c => .ite (fun _ => ?_) fun _ => .unlock
    cases c.devArray i with
    | none => exact ih (i + 1) j
    | some currDev =>
      exact .bind .unlock fun _ => .bind (.callback _) fun _ => .bind .lock fun _ => ih (i + 1) (j + 1)

theorem goes_message (lvlId : ℕ) (onMessage : D → ℕ → LogContext D → Unit × LogContext D) :
    Goes false (logMessage lvlId onMessage) false :=
  .bind .lock fun _ => .bind .get fun _ => .ite (fun _ => .unlock) fun _ => goes_messageLoop onMessage logNDev 0 0

theorem goes_uninstallFound (devIndex : ℕ) (onUninstall : LogContext D → NkErrorCode × LogContext D) :
    Goes true (uninstallFound devIndex onUninstall) false :=
  .bind .unlock fun _ => .bind (.callback _) fun _ => .bind .lock fun _ => .bind .get fun _ => .bind (.set _) fun _ =>
    .bind .unlock fun _ => .pure _

section Uninstall

variable [DecidableEq D] {g : Guarded (LogContext D)} {devRef : D}
  (onUninstall : LogContext D → NkErrorCode × LogContext D)

/-- a device that is not installed: the call returns with the mutex held -/
theorem uninstall_absent (hg : g.held = false) (h : findDevice g.data devRef = none) :
    logUninstallDevice devRef onUninstall g = .returns .itemNotFound ⟨true, g.misuses, g.data⟩ := by
  unfold logUninstallDevice
  rw [lock_get_run hg, h]
  rfl

theorem uninstall_found (hg : g.held = false) {i : ℕ} (h : findDevice g.data devRef = some i) :
    Ends g (logUninstallDevice devRef onUninstall) false := by
  unfold Ends logUninstallDevice
  rw [lock_get_run hg, h]
  exact goes_uninstallFound i onUninstall { g with held := true } rfl

end Uninstall

end Noriko.Log
