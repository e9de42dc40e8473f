/-
The device table of the log component when calls overlap.

Each locked part of `NkLogInstallDevice` and `NkLogUninstallDevice` is one step. Between the two parts of a call its method
runs, and any number of other calls may begin or end there, in other threads or from within the method. The slot that the
first part chose is remembered (`Pending`). Locked parts of `NkLogMessage` change nothing here and are left out.

`installed` and `removed` record for which devices an installation returned `NkErr_Ok` and an uninstallation completed.
They are only written.

The slot may have changed hands until the second part uses it. `TableKept` is what is asked of a step, `Undisturbed` when a
step does it: an installation finds its slot still empty, an uninstallation finds its own device there.
-/
import Noriko.Lib.Sim
import Noriko.Lib.Slots
import Noriko.Log.Log

namespace Noriko.Log

open Lib Dstruct Sync

variable {D : Type}

/-- a call whose method runs, with the slot it remembers -/
inductive Pending (D : Type) where
  | install (devRef : D) (i : ℕ)
  | uninstall (devRef : D) (devIndex : ℕ)

def Pending.slot : Pending D → ℕ
  | .install _ i => i
  | .uninstall _ devIndex => devIndex

structure LogSys (D : Type) where
  cxt : LogContext D
  /-- a call returned without unlocking -/
  held : Bool
  pending : List (Pending D)
  installed : List D
  removed : List D

/-- a locked part of a call; the second part of a call is named by its place among the pending ones -/
inductive LogOp (D : Type) where
  | beginInstall (devRef : D)
  /-- the method returned `code` -/
  | endInstall (k : ℕ) (code : NkErrorCode)
  | beginUninstall (devRef : D)
  | endUninstall (k : ℕ)

variable [DecidableEq D]

/-- a locked part, with the code if the call returns; `none` if it waits for the mutex or is not there -/
def logStep (s : LogSys D) (o : LogOp D) : Option (Option NkErrorCode × LogSys D) :=
  if s.held then none
  else
    match o with
    | .beginInstall devRef =>
      match installChoose s.cxt with
      | (code, none) => some (some code, if code = .ok then { s with installed := devRef :: s.installed } else s)
      | (_, some i) => some (none, { s with pending := .install devRef i :: s.pending })
    | .endInstall k code =>
      match s.pending[k]? with
      | some (.install devRef i) =>
        if code ≠ .ok then some (some code, { s with pending := s.pending.eraseIdx k })
        else some (some code, { s with
          cxt := installWrite s.cxt i devRef
          pending := s.pending.eraseIdx k
          installed := devRef :: s.installed })
      | _ => none
    | .beginUninstall devRef =>
      match findDevice s.cxt devRef with
      | none => some (some .itemNotFound, { s with held := true })
      | some devIndex => some (none, { s with pending := .uninstall devRef devIndex :: s.pending })
    | .endUninstall k =>
      match s.pending[k]? with
      | some (.uninstall devRef devIndex) => some (some .ok, { s with
          cxt := uninstallErase s.cxt devIndex
          pending := s.pending.eraseIdx k
          removed := devRef :: s.removed })
      | _ => none

/-! ## The steps are the locked parts of the calls -/

section Calls

variable {s : LogSys D} {n : ℕ} {devRef : D}

/-- the outcome of a call whose first part is `first` and whose second part is `second`, after the method -/
def inParts (n : ℕ) (method : LogContext D → NkErrorCode × LogContext D)
    (first : Option (Option NkErrorCode × LogSys D)) (second : NkErrorCode → LogOp D) :
    Outcome (LogContext D) NkErrorCode :=
  match first with
  | none => .waits
  | some (some code, t) => .returns code ⟨t.held, n, t.cxt⟩
  | some (none, t) =>
    let r := method t.cxt
    match logStep { t with cxt := r.2 } (second r.1) with
    | some (some code, u) => .returns code ⟨u.held, n, u.cxt⟩
    | _ => .waits

theorem logInstallDevice_parts (onInstall : LogContext D → NkErrorCode × LogContext D) :
    logInstallDevice devRef onInstall ⟨s.held, n, s.cxt⟩ =
      inParts n onInstall (logStep s (.beginInstall devRef)) (.endInstall 0) := by
  obtain ⟨c, held, pending, installed, removed⟩ := s
  cases held with
  | true => rfl
  | false =>
    unfold logInstallDevice
    rw [lock_get_run rfl]
    simp only [logStep, Bool.false_eq_true, if_false]
    rcases hchoose : installChoose c with ⟨code, _ | i⟩
    · dsimp only
      split_ifs <;> rfl
    · dsimp only [inParts]
      rw [bind_run (unlock_run rfl), bind_run (callback_run rfl onInstall), bind_run (lock_run rfl)]
      simp only [logStep, Bool.false_eq_true, if_false, List.getElem?_cons_zero]
      split_ifs <;> rfl

theorem logUninstallDevice_parts (onUninstall : LogContext D → NkErrorCode × LogContext D) :
    logUninstallDevice devRef onUninstall ⟨s.held, n, s.cxt⟩ =
      inParts n onUninstall (logStep s (.beginUninstall devRef)) (fun _ => .endUninstall 0) := by
  obtain ⟨c, held, pending, installed, removed⟩ := s
  cases held with
  | true => rfl
  | false =>
    unfold logUninstallDevice
    rw [lock_get_run rfl]
    simp only [logStep, Bool.false_eq_true, if_false]
    cases hfind : findDevice c devRef with
    | none => rfl
    | some devIndex => rfl

end Calls

/-! ## The table -/

def slots (c : LogContext D) : List (Option D) := (List.range logNDev).map c.devArray

/-- the devices in the table, slot by slot -/
def devices (c : LogContext D) : List D := contents id (slots c)

section Table

variable {c : LogContext D} {i : ℕ} {d : D}

omit [DecidableEq D]

theorem slots_length (c : LogContext D) : (slots c).length = logNDev := by
  simp [slots]

theorem slots_update (i : ℕ) (x : Option D) {c' : LogContext D} (h : c'.devArray = Function.update c.devArray i x) :
    slots c' = (slots c).set i x := by
  apply List.ext_getElem
  · simp [slots]
  · intro j hj hj'
    simp only [slots, h, List.getElem_map, List.getElem_range, List.getElem_set]
    by_cases hij : i = j
    · simp [hij]
    · simp [hij, Function.update_of_ne (Ne.symm hij)]

theorem devices_length_le (c : LogContext D) : (devices c).length ≤ logNDev := by
  rw [← slots_length c]
  exact List.length_filterMap_le id (slots c)

theorem mem_devices : d ∈ devices c ↔ ∃ i < logNDev, c.devArray i = some d := by
  simp [devices, contents, slots]

/-- a device in an empty slot is one more -/
theorem devices_write (devRef : D) (hi : i < logNDev) (hempty : c.devArray i = none) :
    (devices (installWrite c i devRef)).Perm (devRef :: devices c) := by
  have hi' : i < (slots c).length := by rwa [slots_length]
  rw [devices, slots_update i (some devRef) rfl]
  exact contents_fill hi' (by simpa [slots] using hempty) rfl

/-- a device in the slot of another one takes its place -/
theorem devices_overwrite (devRef : D) (hi : i < logNDev) (hold : c.devArray i = some d) :
    (d :: devices (installWrite c i devRef)).Perm (devRef :: devices c) := by
  have hi' : i < (slots c).length := by rwa [slots_length]
  rw [devices, slots_update i (some devRef) rfl]
  exact contents_swap hi' (by simpa [slots] using hold) rfl

theorem devices_erase (hi : i < logNDev) (hold : c.devArray i = some d) :
    (d :: devices (uninstallErase c i)).Perm (devices c) := by
  have hi' : i < (slots c).length := by rwa [slots_length]
  rw [devices, slots_update i none rfl]
  exact contents_drop hi' (by simpa [slots] using hold) rfl

/-- with a right count, a slot is offered exactly below the limit -/
theorem installChoose_cases (hcount : c.nOfDev = (devices c).length) :
    installChoose c = (.capLimitExceeded, none) ∨ ∃ i < logNDev, installChoose c = (.ok, some i) := by
  unfold installChoose
  by_cases hfull : logNDev ≤ c.nOfDev
  · rw [if_pos hfull]
    exact Or.inl rfl
  · rw [if_neg hfull]
    right
    have hroom : (contents id (slots c)).length < (slots c).length := by
      rw [slots_length]
      change (devices c).length < _
      omega
    obtain ⟨i, hi, hempty⟩ := exists_empty hroom
    cases hfind : (List.range logNDev).find? fun i => (c.devArray i).isNone with
    | none =>
      exfalso
      rw [List.find?_eq_none] at hfind
      rw [slots_length] at hi
      exact hfind i (List.mem_range.2 hi) (by simpa [slots] using hempty)
    | some j => exact ⟨j, List.mem_range.1 (List.mem_of_find?_eq_some hfind), rfl⟩

end Table

theorem findDevice_lt {c : LogContext D} {devRef : D} {i : ℕ} (h : findDevice c devRef = some i) : i < logNDev :=
  List.mem_range.1 (List.mem_of_find?_eq_some h)

/-! ## What a step owes to the table -/

/-- the count is right, and the table holds what was installed and not removed since -/
structure Consistent (s : LogSys D) : Prop where
  count : s.cxt.nOfDev = (devices s.cxt).length
  ledger : (devices s.cxt ++ s.removed).Perm s.installed

/-- the table is consistent behind the step, no device was written over another, and an uninstallation that completed
emptied a slot of its device and no other slot -/
structure TableKept (s : LogSys D) (o : LogOp D) (_ : Option NkErrorCode) (t : LogSys D) : Prop where
  consistent : Consistent t
  kept : ∀ i d d', s.cxt.devArray i = some d → t.cxt.devArray i = some d' → d' = d
  own : ∀ k devRef devIndex, o = .endUninstall k → s.pending[k]? = some (.uninstall devRef devIndex) →
    ∃ i < logNDev, s.cxt.devArray i = some devRef ∧ t.cxt.devArray = Function.update s.cxt.devArray i none

/-- the remembered slot is still as the first part of the call left it -/
def Undisturbed (s : LogSys D) : LogOp D → Prop
  | .endInstall k code => ∀ devRef i, s.pending[k]? = some (.install devRef i) → code = .ok → s.cxt.devArray i = none
  | .endUninstall k => ∀ devRef i, s.pending[k]? = some (.uninstall devRef i) → s.cxt.devArray i = some devRef
  | _ => True

structure TableInv (s : LogSys D) : Prop where
  consistent : Consistent s
  slots : ∀ p ∈ s.pending, p.slot < logNDev

/-! ## Steps -/

section Step

variable {s t : LogSys D} {o : LogOp D} {r : Option NkErrorCode}

omit [DecidableEq D] in
theorem TableInv.erase_slots (h : TableInv s) (k : ℕ) : ∀ p ∈ s.pending.eraseIdx k, p.slot < logNDev :=
  fun p hp => h.slots p (List.mem_of_mem_eraseIdx hp)

omit [DecidableEq D] in
theorem TableInv.slot_lt (h : TableInv s) {k : ℕ} {p : Pending D} (hk : s.pending[k]? = some p) : p.slot < logNDev :=
  h.slots p (List.mem_of_getElem? hk)

/-- the second part of an installation follows a first part that offered it a slot -/
theorem logStep_endInstall {k : ℕ} {code : NkErrorCode} (hs : logStep s (.endInstall k code) = some (r, t)) :
    ∃ devRef i, s.pending[k]? = some (.install devRef i) ∧
      t = if code ≠ .ok then { s with pending := s.pending.eraseIdx k }
        else { s with
          cxt := installWrite s.cxt i devRef
          pending := s.pending.eraseIdx k
          installed := devRef :: s.installed } := by
  simp only [logStep] at hs
  split at hs
  · cases hs
  split at hs
  · rename_i devRef i hk
    refine ⟨devRef, i, hk, ?_⟩
    split_ifs at hs ⊢ <;> exact (Prod.mk.inj (Option.some.inj hs)).2.symm
  · cases hs

/-- the second part of an uninstallation follows a first part that found the device -/
theorem logStep_endUninstall {k : ℕ} (hs : logStep s (.endUninstall k) = some (r, t)) :
    ∃ devRef i, s.pending[k]? = some (.uninstall devRef i) ∧ t = { s with
      cxt := uninstallErase s.cxt i
      pending := s.pending.eraseIdx k
      removed := devRef :: s.removed } := by
  simp only [logStep] at hs
  split at hs
  · cases hs
  split at hs
  · rename_i devRef i hk
    exact ⟨devRef, i, hk, (Prod.mk.inj (Option.some.inj hs)).2.symm⟩
  · cases hs

/-- what a step can do: leave the table alone, write the slot of an installation, or clear that of an uninstallation -/
theorem logStep_cases (h : TableInv s) (hs : logStep s o = some (r, t)) :
    (t.cxt = s.cxt ∧ t.installed = s.installed ∧ t.removed = s.removed ∧ (∀ p ∈ t.pending, p.slot < logNDev) ∧
      Undisturbed s o ∧ ∀ k, o ≠ .endUninstall k) ∨
    (∃ k devRef i, o = .endInstall k .ok ∧ s.pending[k]? = some (.install devRef i) ∧ t = { s with
      cxt := installWrite s.cxt i devRef
      pending := s.pending.eraseIdx k
      installed := devRef :: s.installed }) ∨
    (∃ k devRef i, o = .endUninstall k ∧ s.pending[k]? = some (.uninstall devRef i) ∧ t = { s with
      cxt := uninstallErase s.cxt i
      pending := s.pending.eraseIdx k
      removed := devRef :: s.removed }) := by
  cases o with
  | beginInstall devRef =>
    left
    unfold logStep at hs
    split at hs
    · cases hs
    rcases installChoose_cases h.consistent.count with hfull | ⟨i, hlt, hi⟩
    · simp only [hfull] at hs
      cases hs
      exact ⟨rfl, rfl, rfl, h.slots, trivial, nofun⟩
    · simp only [hi] at hs
      cases hs
      exact ⟨rfl, rfl, rfl, List.forall_mem_cons.2 ⟨hlt, h.slots⟩, trivial, nofun⟩
  | beginUninstall devRef =>
    left
    unfold logStep at hs
    split at hs
    · cases hs
    cases hfind : findDevice s.cxt devRef with
    | none =>
      simp only [hfind] at hs
      cases hs
      exact ⟨rfl, rfl, rfl, h.slots, trivial, nofun⟩
    | some i =>
      simp only [hfind] at hs
      cases hs
      exact ⟨rfl, rfl, rfl, List.forall_mem_cons.2 ⟨findDevice_lt hfind, h.slots⟩, trivial, nofun⟩
  | endInstall k code =>
    obtain ⟨devRef, i, hk, rfl⟩ := logStep_endInstall hs
    by_cases hcode : code = .ok
    · subst hcode
      exact Or.inr (Or.inl ⟨k, devRef, i, rfl, hk, if_neg (not_not.2 rfl)⟩)
    · rw [if_pos hcode]
      exact Or.inl ⟨rfl, rfl, rfl, h.erase_slots k, fun _ _ _ hok => absurd hok hcode, nofun⟩
  | endUninstall k =>
    obtain ⟨devRef, i, hk, rfl⟩ := logStep_endUninstall hs
    exact Or.inr (Or.inr ⟨k, devRef, i, rfl, hk, rfl⟩)

omit [DecidableEq D] in
theorem tableKept_same (h : Consistent s) (hcxt : t.cxt = s.cxt) (hin : t.installed = s.installed)
    (hout : t.removed = s.removed) (hno : ∀ k, o ≠ .endUninstall k) : TableKept s o r t := by
  refine ⟨⟨?_, ?_⟩, ?_, ?_⟩
  · rw [hcxt]
    exact h.count
  · rw [hcxt, hin, hout]
    exact h.ledger
  · intro i d d' hd hd'
    rw [hcxt, hd] at hd'
    cases hd'
    rfl
  · intro k devRef devIndex ho
    exact absurd ho (hno k)

omit [DecidableEq D] in
/-- an installation may write its slot exactly if it is empty -/
theorem tableKept_write_iff (h : Consistent s) {k i : ℕ} {devRef : D} (hi : i < logNDev) :
    TableKept s (.endInstall k .ok) r { s with
      cxt := installWrite s.cxt i devRef
      pending := s.pending.eraseIdx k
      installed := devRef :: s.installed } ↔ s.cxt.devArray i = none := by
  have hle := devices_length_le s.cxt
  have hcount := h.count
  have hlim : logNDev < 2 ^ 63 := by decide
  have hnext : u64 (s.cxt.nOfDev + 1) = s.cxt.nOfDev + 1 := u64_of_lt (by omega)
  constructor
  · -- an occupied slot would leave the count one too high
    intro hkept
    cases hold : s.cxt.devArray i with
    | none => rfl
    | some d =>
      have hlen := (devices_overwrite devRef hi hold).length_eq
      have hcount' : u64 (s.cxt.nOfDev + 1) = (devices (installWrite s.cxt i devRef)).length := hkept.consistent.count
      simp only [List.length_cons] at hlen
      omega
  · intro hempty
    have hperm := devices_write devRef hi hempty
    refine ⟨⟨?_, ?_⟩, ?_, nofun⟩
    · have hlen := hperm.length_eq
      rw [List.length_cons] at hlen
      change u64 (s.cxt.nOfDev + 1) = _
      rw [hnext, hlen, hcount]
    · exact (hperm.append_right s.removed).trans (h.ledger.cons devRef)
    · intro j d d' hd hd'
      have hne : j ≠ i := by
        rintro rfl
        rw [hempty] at hd
        cases hd
      simp only [installWrite, Function.update_of_ne hne, hd] at hd'
      cases hd'
      rfl

omit [DecidableEq D] in
/-- an uninstallation may clear its slot exactly if its device is there -/
theorem tableKept_erase_iff (h : Consistent s) {k i : ℕ} {devRef : D} (hk : s.pending[k]? = some (.uninstall devRef i))
    (hi : i < logNDev) : TableKept s (.endUninstall k) r { s with
      cxt := uninstallErase s.cxt i
      pending := s.pending.eraseIdx k
      removed := devRef :: s.removed } ↔ s.cxt.devArray i = some devRef := by
  constructor
  · -- the slot that was emptied is the remembered one, as no other changed
    intro hkept
    obtain ⟨j, -, hj, heq⟩ := hkept.own k devRef i rfl hk
    by_cases hij : j = i
    · rw [← hij]
      exact hj
    · exfalso
      have hj' := congrFun heq j
      simp [uninstallErase, Function.update_of_ne hij, hj] at hj'
  · intro hold
    have hle := devices_length_le s.cxt
    have hlim : logNDev < 2 ^ 63 := by decide
    have hperm := devices_erase hi hold
    have hlen := hperm.length_eq
    rw [List.length_cons] at hlen
    refine ⟨⟨?_, ?_⟩, ?_, ?_⟩
    · change sub64 s.cxt.nOfDev 1 = (devices (uninstallErase s.cxt i)).length
      rw [h.count, ← hlen]
      unfold sub64 u64
      omega
    · have hmid : (devices (uninstallErase s.cxt i) ++ devRef :: s.removed).Perm (devices s.cxt ++ s.removed) :=
        List.perm_middle.trans (hperm.append_right s.removed)
      exact hmid.trans h.ledger
    · intro j d d' hd hd'
      by_cases hij : j = i
      · simp [uninstallErase, hij] at hd'
      · simp only [uninstallErase, Function.update_of_ne hij, hd] at hd'
        cases hd'
        rfl
    · intro k' devRef' devIndex ho hk'
      cases ho
      rw [hk] at hk'
      cases hk'
      exact ⟨i, hi, hold, rfl⟩

/-- a step does what it owes to the table exactly if its slot was left alone meanwhile -/
theorem logStep_kept (h : TableInv s) (hs : logStep s o = some (r, t)) : TableKept s o r t ↔ Undisturbed s o := by
  rcases logStep_cases h hs with ⟨hcxt, hin, hout, -, hun, hno⟩ | ⟨k, d, i, rfl, hk, rfl⟩ | ⟨k, d, i, rfl, hk, rfl⟩
  · exact iff_of_true (tableKept_same h.consistent hcxt hin hout hno) hun
  · have hi : i < logNDev := h.slot_lt hk
    rw [tableKept_write_iff h.consistent hi]
    constructor
    · intro hempty devRef i' hk' _
      rw [hk] at hk'
      cases hk'
      exact hempty
    · intro hun
      exact hun d i hk rfl
  · rw [tableKept_erase_iff h.consistent hk (h.slot_lt hk)]
    constructor
    · intro hold devRef i' hk'
      rw [hk] at hk'
      cases hk'
      exact hold
    · intro hun
      exact hun d i hk

theorem logStep_inv (h : TableInv s) (hs : logStep s o = some (r, t)) (hkept : TableKept s o r t) : TableInv t := by
  refine ⟨hkept.consistent, ?_⟩
  rcases logStep_cases h hs with ⟨-, -, -, hslots, -⟩ | ⟨k, d, i, -, -, rfl⟩ | ⟨k, d, i, -, -, rfl⟩
  · exact hslots
  · exact h.erase_slots k
  · exact h.erase_slots k

end Step

/-! ## Runs -/

/-- a device that was installed more often than removed is in the table -/
theorem Consistent.in_table {s : LogSys D} (h : Consistent s) {d : D}
    (hd : s.removed.count d < s.installed.count d) : ∃ i < logNDev, s.cxt.devArray i = some d := by
  have hcount := h.ledger.count_eq d
  rw [List.count_append] at hcount
  exact mem_devices.1 (List.count_pos_iff.1 (by omega))

/-- the component before its first call -/
def emptyLog (glMinLevel glMaxLevel : ℕ) : LogSys D :=
  ⟨⟨0, glMinLevel, glMaxLevel, fun _ => none⟩, false, [], [], []⟩

omit [DecidableEq D] in
theorem tableInv_empty (glMinLevel glMaxLevel : ℕ) : TableInv (emptyLog glMinLevel glMaxLevel : LogSys D) := by
  have hnone : devices (emptyLog glMinLevel glMaxLevel : LogSys D).cxt = [] := by
    rw [List.eq_nil_iff_forall_not_mem]
    intro d hd
    obtain ⟨i, -, h⟩ := mem_devices.1 hd
    cases h
  refine ⟨⟨?_, ?_⟩, nofun⟩
  · rw [hnone]
    rfl
  · rw [hnone]
    exact List.Perm.refl _

/-- However the calls overlap, every step does what it owes to the table exactly if every second part of a call finds its
slot as the first part left it. The state reached then is consistent, and every device that was installed and not removed
is in the table. -/
theorem table_run (glMinLevel glMaxLevel : ℕ) (ops : List (LogOp D)) :
    (EachStep logStep TableKept (emptyLog glMinLevel glMaxLevel) ops ↔
      EachStep logStep (fun s o _ _ => Undisturbed s o) (emptyLog glMinLevel glMaxLevel) ops) ∧
    ∀ rs t, EachStep logStep (fun s o _ _ => Undisturbed s o) (emptyLog glMinLevel glMaxLevel) ops →
      outputs logStep (emptyLog glMinLevel glMaxLevel) ops = some (rs, t) →
      Consistent t ∧ ∀ d, t.removed.count d < t.installed.count d → ∃ i < logNDev, t.cxt.devArray i = some d := by
  have hinit : TableInv (emptyLog glMinLevel glMaxLevel : LogSys D) := tableInv_empty glMinLevel glMaxLevel
  have hiff : EachStep logStep TableKept (emptyLog glMinLevel glMaxLevel) ops ↔
      EachStep logStep (fun s o _ _ => Undisturbed s o) (emptyLog glMinLevel glMaxLevel) ops :=
    eachStep_iff (I := TableInv) (fun _ _ _ _ h hs => logStep_kept h hs) (fun _ _ _ _ h hs hkept => logStep_inv h hs hkept)
      hinit ops
  refine ⟨hiff, fun rs t hun hrun => ?_⟩
  have hlast : Consistent t :=
    EachStep.last (fun s o r t hkept => hkept.consistent) (hiff.2 hun) hrun hinit.consistent
  exact ⟨hlast, fun d hd => hlast.in_table hd⟩

/-- two installations one after the other, and the first device leaves -/
theorem table_run_two :
    let ops : List (LogOp ℕ) :=
      [.beginInstall 1, .endInstall 0 .ok, .beginInstall 2, .endInstall 0 .ok, .beginUninstall 1, .endUninstall 0]
    EachStep logStep TableKept (emptyLog 0 0) ops ∧
      ∃ rs t, outputs logStep (emptyLog 0 0) ops = some (rs, t) ∧ ∃ i < logNDev, t.cxt.devArray i = some 2 := by
  intro ops
  have hun : EachStep logStep (fun s o _ _ => Undisturbed s o) (emptyLog 0 0) ops := by
    refine .cons rfl trivial (.cons rfl ?_ (.cons rfl trivial (.cons rfl ?_ (.cons rfl trivial (.cons rfl ?_ trivial)))))
    · intro devRef i hk _
      cases hk
      rfl
    · intro devRef i hk _
      cases hk
      rfl
    · intro devRef i hk
      cases hk
      rfl
  obtain ⟨rs, t, hrun, hmore⟩ : ∃ rs t, outputs logStep (emptyLog 0 0) ops = some (rs, t) ∧
      t.removed.count 2 < t.installed.count 2 := ⟨_, _, rfl, by decide⟩
  exact ⟨(table_run 0 0 ops).1.2 hun, rs, t, hrun, ((table_run 0 0 ops).2 rs t hun hrun).2 2 hmore⟩

/-- two installations choose the same slot while the method of the first one runs; the second to finish writes its device
over the other -/
theorem table_overwritten :
    let ops : List (LogOp ℕ) := [.beginInstall 1, .beginInstall 2, .endInstall 0 .ok, .endInstall 0 .ok]
    (∃ rs t, outputs logStep (emptyLog 0 0) ops = some (rs, t) ∧ t.cxt.nOfDev = 2 ∧ devices t.cxt = [1]) ∧
      ¬ EachStep logStep TableKept (emptyLog 0 0) ops := by
  intro ops
  refine ⟨⟨_, _, rfl, rfl, by decide⟩, fun h => ?_⟩
  have hlast := ((((h _ _ rfl).2 _ _ rfl).2 _ _ rfl).2 _ _ rfl).1
  have heq : 1 = 2 := hlast.kept 0 2 1 rfl rfl
  cases heq

end Noriko.Log
