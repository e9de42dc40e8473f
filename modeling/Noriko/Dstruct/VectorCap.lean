/-
The capacity contract of the vector: the count stays within the capacity, the capacity within the limits of the
properties and within the real buffer, the hard limit is reported, and a failed call changes nothing.

`NkVectorInsertMulti` combines the limit with `NK_MAX`, so a resize goes to at least `maxCap` and never fails for the
limit; `NkVectorClear` resets count and capacity before the reallocation that may fail. `Within` is the condition that a
call meets neither. `capacity_run` is the result: along runs of such calls the contract holds, and at their end it holds
for a further call exactly if the call meets the condition. `capacity_exceeded` is an insertion of three elements into a
vector of at most two.
-/
import Noriko.Dstruct.Vector
import Noriko.Lib.Run

namespace Noriko.Dstruct

open Lib

variable {E : Type}

/-! ## The vector as a machine -/

inductive VecOp (E : Type) where
  | insertMulti (index : ℕ) (elemArray : ℕ → E) (nElems : ℕ) (heap : Option (Fresh E))
  | eraseMulti (sInd maxN : ℕ)
  | clear (heap : Option (Fresh E))

/-- the code a call returns and the vector it leaves -/
def vecExec (v : Vector E) : VecOp E → NkErrorCode × Vector E
  | .insertMulti index elemArray nElems heap => vectorInsertMulti v index elemArray nElems heap
  | .eraseMulti sInd maxN => ((vectorEraseMulti v sInd maxN).code, (vectorEraseMulti v sInd maxN).vec)
  | .clear heap => ((vectorClear v heap).1, (vectorClear v heap).2.1)

def vecStep (v : Vector E) (o : VecOp E) : Option (Vector E) := some (vecExec v o).2

/-- the asserted preconditions of the calls -/
def VecLegal (v : Vector E) : VecOp E → Prop
  | .insertMulti index _ nElems _ => index ≤ v.elemCount ∧ nElems < 2 ^ 64
  | .eraseMulti sInd maxN => sInd < v.elemCount ∧ maxN < 2 ^ 64
  | .clear _ => True

/-! ## The contract -/

structure Bounds (v : Vector E) : Prop where
  count : v.elemCount ≤ v.elemCap
  lower : v.vecProps.minCap ≤ v.elemCap
  upper : v.elemCap ≤ v.vecProps.maxCap
  /-- the real buffer holds the capacity -/
  buffer : v.elemCap * ptrBytes ≤ v.dataPtr.size

/-- an insertion of at least one element reports a wrap of the count, and else fails for the limit exactly if the new
count exceeds it -/
def LimitReported (v : Vector E) (code : NkErrorCode) : VecOp E → Prop
  | .insertMulti _ _ nElems _ => 1 ≤ nElems →
      (2 ^ 64 ≤ v.elemCount + nElems → code = .unsignedWrapAround) ∧
      (v.elemCount + nElems < 2 ^ 64 → (code = .capLimitExceeded ↔ v.vecProps.maxCap < v.elemCount + nElems))
  | _ => True

/-- what the contract says of one call -/
structure CallOk (v : Vector E) (o : VecOp E) : Prop where
  bounds : Bounds (vecExec v o).2
  limit : LimitReported v (vecExec v o).1 o
  atomic : (vecExec v o).1 ≠ .ok → (vecExec v o).2 = v

/-- the call does not resize past the limit, and does not clear the vector while the heap fails -/
def Within (v : Vector E) : VecOp E → Prop
  | .insertMulti _ _ nElems heap => nElems = 0 ∨ 2 ^ 64 ≤ v.elemCount + nElems ∨
      v.elemCount + nElems ≤ v.elemCap ∨ (v.elemCount + nElems ≤ v.vecProps.maxCap ∧
        (heap = none ∨ (capAfterGrowing v ≤ v.vecProps.maxCap ∧ v.vecProps.maxCap < 2 ^ 61)))
  | .eraseMulti _ _ => True
  | .clear heap => heap ≠ none ∨ (v.elemCount = 0 ∧ v.elemCap = v.vecProps.minCap)

/-- the invariant: the contract's bounds, and limits that come from valid properties -/
structure VecInv (v : Vector E) : Prop where
  bounds : Bounds v
  props : v.vecProps.minCap < 2 ^ 61 ∧ v.vecProps.minCap ≤ v.vecProps.maxCap ∧ v.vecProps.maxCap < 2 ^ 64

theorem VecInv.of_props {v w : Vector E} (h : VecInv v) (hp : w.vecProps = v.vecProps) (hb : Bounds w) : VecInv w :=
  ⟨hb, by rw [hp]; exact h.props⟩

theorem u64_ptr {n : ℕ} (h : n < 2 ^ 61) : u64 (n * ptrBytes) = n * ptrBytes :=
  u64_of_lt (by simp only [ptrBytes]; omega)

/-! ## Growing -/

/-- making room for more elements: nothing to do, no memory, or a buffer of the new capacity that has the cells of the old
one as far as they fit; never the limit -/
theorem growTo_cases (v : Vector E) (reqSize : ℕ) (heap : Option (Fresh E)) :
    (reqSize ≤ v.elemCap ∧ growTo v reqSize heap = (.ok, v)) ∨
    (v.elemCap < reqSize ∧ heap = none ∧ growTo v reqSize heap = (.memoryReallocation, v)) ∨
    (∃ b, v.elemCap < reqSize ∧ heap ≠ none ∧
      b.size = u64 (max v.vecProps.maxCap (max reqSize (capAfterGrowing v)) * ptrBytes) ∧
      (∀ k, (k + 1) * ptrBytes ≤ v.dataPtr.size → (k + 1) * ptrBytes ≤ b.size → b.mem k = v.dataPtr.mem k) ∧
      growTo v reqSize heap =
        (.ok, { v with elemCap := max v.vecProps.maxCap (max reqSize (capAfterGrowing v)), dataPtr := b })) := by
  unfold growTo
  by_cases hreq : reqSize > v.elemCap
  · right
    rw [if_pos hreq]
    simp only
    have hmax : ¬ max v.vecProps.maxCap (max reqSize (capAfterGrowing v)) < reqSize := by omega
    rw [if_neg hmax]
    cases heap with
    | none => exact Or.inl ⟨hreq, rfl, rfl⟩
    | some f => exact Or.inr ⟨_, hreq, by simp, rfl, fun k hold hnew => if_pos ⟨hold, hnew⟩, rfl⟩
  · rw [if_neg hreq]
    exact Or.inl ⟨by omega, rfl⟩

/-! ## One call -/

theorem clear_callOk_iff {v : Vector E} (h : VecInv v) (heap : Option (Fresh E)) :
    CallOk v (.clear heap) ↔ Within v (.clear heap) := by
  obtain ⟨hmin, hle, -⟩ := h.props
  cases heap with
  | none =>
    constructor
    · intro hok
      have hsame := hok.atomic (by simp [vecExec, vectorClear, resizeBuffer, gpRealloc])
      refine Or.inr ⟨?_, ?_⟩
      · exact (congrArg Vector.elemCount hsame).symm
      · exact (congrArg Vector.elemCap hsame).symm
    · rintro (hne | ⟨hcnt, hcap⟩)
      · exact absurd rfl hne
      · have hsame : (vecExec v (.clear none)).2 = v := by
          obtain ⟨cnt, cap, props, dest, buf⟩ := v
          simp only at hcnt hcap
          subst hcnt hcap
          rfl
        exact ⟨by rw [hsame]; exact h.bounds, trivial, fun _ => hsame⟩
  | some f =>
    refine ⟨fun _ => Or.inl (by simp), fun _ => ⟨⟨Nat.zero_le _, le_rfl, hle, ?_⟩, trivial, fun hc => absurd rfl hc⟩⟩
    exact (u64_ptr hmin).ge

/-- the contract for a call whose outcome is known -/
theorem callOk_iff {v w : Vector E} {o : VecOp E} {code : NkErrorCode} (hr : vecExec v o = (code, w)) :
    CallOk v o ↔ Bounds w ∧ LimitReported v code o ∧ (code ≠ .ok → w = v) := by
  constructor
  · rintro ⟨hbounds, hlimit, hatomic⟩
    rw [hr] at hbounds hlimit hatomic
    exact ⟨hbounds, hlimit, hatomic⟩
  · rintro ⟨hbounds, hlimit, hatomic⟩
    refine ⟨?_, ?_, ?_⟩
    · rw [hr]
      exact hbounds
    · rw [hr]
      exact hlimit
    · rw [hr]
      exact hatomic

theorem eraseMulti_callOk {v : Vector E} (h : VecInv v) (sInd maxN : ℕ) : CallOk v (.eraseMulti sInd maxN) := by
  have hb := h.bounds
  by_cases hlen : min maxN (v.elemCount - sInd) > 0
  · have hr : vecExec v (.eraseMulti sInd maxN) = (.ok, { v.write sInd
        (fun k => v.dataPtr.mem (sInd + min maxN (v.elemCount - sInd) + k))
        (v.elemCount - sInd - min maxN (v.elemCount - sInd)) with
        elemCount := v.elemCount - min maxN (v.elemCount - sInd) }) := by
      simp only [vecExec, vectorEraseMulti, if_pos hlen]
    rw [callOk_iff hr]
    exact ⟨⟨(Nat.sub_le ..).trans hb.count, hb.lower, hb.upper, hb.buffer⟩, trivial, fun hc => absurd rfl hc⟩
  · have hr : vecExec v (.eraseMulti sInd maxN) = (.noOperation, v) := by
      simp only [vecExec, vectorEraseMulti, if_neg hlen]
    rw [callOk_iff hr]
    exact ⟨hb, trivial, fun _ => rfl⟩

/-- what an insertion that does not wrap does to count, capacity and buffer -/
theorem insertMulti_cases {v : Vector E} {n : ℕ} (index : ℕ) (elemArray : ℕ → E) (heap : Option (Fresh E))
    (hn : 1 ≤ n) (hw : v.elemCount + n < 2 ^ 64) :
    (v.elemCap < v.elemCount + n ∧ heap = none ∧
      vectorInsertMulti v index elemArray n heap = (.memoryReallocation, v)) ∨
    (∃ w, vectorInsertMulti v index elemArray n heap = (.ok, w) ∧ w.elemCount = v.elemCount + n ∧
      w.vecProps = v.vecProps ∧
      ((v.elemCount + n ≤ v.elemCap ∧ w.elemCap = v.elemCap ∧ w.dataPtr.size = v.dataPtr.size) ∨
        (v.elemCap < v.elemCount + n ∧ heap ≠ none ∧
          w.elemCap = max v.vecProps.maxCap (max (v.elemCount + n) (capAfterGrowing v)) ∧
          w.dataPtr.size = u64 (w.elemCap * ptrBytes)))) := by
  unfold vectorInsertMulti
  simp only [u64_of_lt hw]
  rw [if_neg (by omega)]
  rcases growTo_cases v (v.elemCount + n) heap with ⟨hle, hg⟩ | ⟨hlt, hheap, hg⟩ | ⟨b, hlt, hheap, hsize, -, hg⟩
  · rw [hg, if_neg (by simp)]
    exact Or.inr ⟨_, rfl, rfl, rfl, Or.inl ⟨hle, rfl, rfl⟩⟩
  · rw [hg, if_pos (by simp)]
    exact Or.inl ⟨hlt, hheap, rfl⟩
  · rw [hg, if_neg (by simp)]
    exact Or.inr ⟨_, rfl, rfl, rfl, Or.inr ⟨hlt, hheap, rfl, hsize⟩⟩

theorem insertMulti_wraps {v : Vector E} {n : ℕ} (index : ℕ) (elemArray : ℕ → E) (heap : Option (Fresh E))
    (hn : n < 2 ^ 64) (hv : v.elemCount < 2 ^ 64) (hw : n = 0 ∨ 2 ^ 64 ≤ v.elemCount + n) :
    vectorInsertMulti v index elemArray n heap = (.unsignedWrapAround, v) := by
  have hreq : u64 (v.elemCount + n) ≤ v.elemCount := by
    rw [u64]
    omega
  unfold vectorInsertMulti
  simp only
  rw [if_pos hreq]

/-- a call that does not report the limit must not exceed it -/
theorem limitReported_iff {v : Vector E} {index n : ℕ} {elemArray : ℕ → E} {heap : Option (Fresh E)} {code : NkErrorCode}
    (hn : 1 ≤ n) (hw : v.elemCount + n < 2 ^ 64) (hcode : code ≠ .capLimitExceeded) :
    LimitReported v code (.insertMulti index elemArray n heap) ↔ v.elemCount + n ≤ v.vecProps.maxCap := by
  constructor
  · intro h
    by_contra hlt
    exact hcode (((h hn).2 hw).2 (by omega))
  · intro hle _
    exact ⟨fun hwrap => by omega, fun _ => ⟨fun hc => absurd hc hcode, fun hlt => by omega⟩⟩

theorem insertMulti_callOk_iff {v : Vector E} (h : VecInv v) {index n : ℕ} {elemArray : ℕ → E}
    {heap : Option (Fresh E)} (hl : VecLegal v (.insertMulti index elemArray n heap)) :
    CallOk v (.insertMulti index elemArray n heap) ↔ Within v (.insertMulti index elemArray n heap) := by
  have hb := h.bounds
  obtain ⟨-, -, hmax⟩ := h.props
  have hcnt : v.elemCount < 2 ^ 64 := hb.count.trans_lt (hb.upper.trans_lt hmax)
  by_cases hwrap : n = 0 ∨ 2 ^ 64 ≤ v.elemCount + n
  · -- the count wraps, or nothing is inserted: the call refuses and leaves the vector alone
    have hr : vecExec v (.insertMulti index elemArray n heap) = (.unsignedWrapAround, v) :=
      insertMulti_wraps index elemArray heap hl.2 hcnt hwrap
    rw [callOk_iff hr]
    exact iff_of_true ⟨hb, fun _ => ⟨fun _ => rfl, fun hlt => by omega⟩, fun _ => rfl⟩ (hwrap.imp id Or.inl)
  · obtain ⟨hn, hw⟩ : 1 ≤ n ∧ v.elemCount + n < 2 ^ 64 := by omega
    rcases insertMulti_cases index elemArray heap hn hw with ⟨hlt, rfl, hr⟩ | ⟨w, hr, hwc, hwp, hcap⟩
    · -- no memory: right unless the limit should have been reported
      have hr : vecExec v (.insertMulti index elemArray n none) = (.memoryReallocation, v) := hr
      rw [callOk_iff hr, limitReported_iff hn hw (by decide)]
      constructor
      · rintro ⟨-, hle, -⟩
        exact Or.inr (Or.inr (Or.inr ⟨hle, Or.inl rfl⟩))
      · rintro (h0 | h1 | h2 | ⟨hle, -⟩)
        · omega
        · omega
        · omega
        · exact ⟨hb, hle, fun _ => rfl⟩
    · -- the call succeeds: the new count must be within the limit, and the new capacity too
      have hr : vecExec v (.insertMulti index elemArray n heap) = (.ok, w) := hr
      rw [callOk_iff hr, limitReported_iff hn hw (by decide)]
      rcases hcap with ⟨hfit, hwcap, hwsize⟩ | ⟨hlt, hheap, hwcap, hwsize⟩
      · refine iff_of_true ⟨⟨by omega, ?_, ?_, ?_⟩, hfit.trans hb.upper, fun hc => absurd rfl hc⟩ (Or.inr (Or.inr (Or.inl hfit)))
        · rw [hwp, hwcap]
          exact hb.lower
        · rw [hwp, hwcap]
          exact hb.upper
        · rw [hwcap, hwsize]
          exact hb.buffer
      · constructor
        · rintro ⟨hbw, hle, -⟩
          have hup := hbw.upper
          have hbuf := hbw.buffer
          rw [hwp] at hup
          rw [hwsize, u64] at hbuf
          simp only [ptrBytes] at hbuf
          exact Or.inr (Or.inr (Or.inr ⟨hle, Or.inr ⟨by omega, by omega⟩⟩))
        · rintro (h0 | h1 | h2 | ⟨hle, hnone | ⟨hgrow, h61⟩⟩)
          · omega
          · omega
          · omega
          · exact absurd hnone hheap
          · have hnew : w.elemCap = v.vecProps.maxCap := by omega
            refine ⟨⟨by omega, by rw [hwp, hnew]; exact h.props.2.1, by rw [hwp, hnew], ?_⟩, hle, fun hc => absurd rfl hc⟩
            rw [hwsize, hnew, u64_ptr h61]

/-! ## Whole runs -/

/-- A legal call keeps the contract exactly if it stays within the limits. -/
theorem callOk_iff_within {v : Vector E} (h : VecInv v) {o : VecOp E} (hl : VecLegal v o) : CallOk v o ↔ Within v o := by
  cases o with
  | insertMulti index elemArray n heap => exact insertMulti_callOk_iff h hl
  | eraseMulti sInd maxN => exact ⟨fun _ => trivial, fun _ => eraseMulti_callOk h sInd maxN⟩
  | clear heap => exact clear_callOk_iff h heap

theorem vecExec_vecProps {v : Vector E} (h : VecInv v) {o : VecOp E} (hl : VecLegal v o) :
    (vecExec v o).2.vecProps = v.vecProps := by
  cases o with
  | insertMulti index elemArray n heap =>
    have hcnt : v.elemCount < 2 ^ 64 := h.bounds.count.trans_lt (h.bounds.upper.trans_lt h.props.2.2)
    simp only [vecExec]
    by_cases hwrap : n = 0 ∨ 2 ^ 64 ≤ v.elemCount + n
    · rw [insertMulti_wraps index elemArray heap hl.2 hcnt hwrap]
    · rcases insertMulti_cases (v := v) (n := n) index elemArray heap (by omega) (by omega) with
        ⟨-, -, hr⟩ | ⟨w, hr, -, hwp, -⟩
      · rw [hr]
      · rw [hr]
        exact hwp
  | eraseMulti sInd maxN =>
    simp only [vecExec, vectorEraseMulti]
    split_ifs <;> rfl
  | clear heap => rfl

theorem vecStep_inv {v w : Vector E} {o : VecOp E} (h : VecInv v) (hl : VecLegal v o) (hin : Within v o)
    (hs : vecStep v o = some w) : VecInv w := by
  cases hs
  exact h.of_props (vecExec_vecProps h hl) ((callOk_iff_within h hl).2 hin).bounds

/-- a created vector keeps the bounds if the size of its first buffer does not wrap -/
theorem vecInv_created {p : VectorProperties} {d : Bool} {c : NkErrorCode} {heap : Option (Fresh E)} {v : Vector E}
    (hp : validateProperties p) (h61 : p.initialCap < 2 ^ 61) (hc : vectorCreate p d c heap = (.ok, some v)) :
    VecInv v := by
  obtain ⟨-, ⟨hlo, hhi⟩, ⟨-, hmin⟩, hmax, -⟩ := hp
  simp only [vectorCreate] at hc
  split_ifs at hc with hpool
  · cases hc
  · cases heap with
    | none => cases hc
    | some f =>
      cases hc
      refine ⟨⟨Nat.zero_le _, hlo, hhi, ?_⟩, hlo.trans_lt h61, hmin, ?_⟩
      · exact (show p.initialCap * ptrBytes ≤ u64 (ptrBytes * p.initialCap) by rw [Nat.mul_comm ptrBytes, u64_ptr h61])
      · exact hmax.trans (by decide)

/-- Every vector that is created from valid properties, with a first buffer whose size does not wrap, keeps the
capacity contract in every state of every run of calls that stay within the limits; there, a further call keeps it
exactly if it stays within the limits too. -/
theorem capacity_run {p : VectorProperties} {d : Bool} {c : NkErrorCode} {heap : Option (Fresh E)} {v w : Vector E}
    {ops : List (VecOp E)} (hp : validateProperties p) (h61 : p.initialCap < 2 ^ 61)
    (hc : vectorCreate p d c heap = (.ok, some v))
    (hrun : Runs vecStep (fun v o => VecLegal v o ∧ Within v o) v ops w) :
    Bounds w ∧ ∀ o, VecLegal w o → (CallOk w o ↔ Within w o) := by
  have h : VecInv w :=
    hrun.inv (fun _ _ _ hs ho hstep => vecStep_inv hs ho.1 ho.2 hstep) (vecInv_created hp h61 hc)
  exact ⟨h.bounds, fun o hl => callOk_iff_within h hl⟩

/-- a vector of one to two elements -/
def smallProps : VectorProperties := ⟨40, 1, 1, 2, 2⟩

def smallVector : Vector ℕ := ⟨0, 1, smallProps, false, ⟨64, 8, fun _ => 0⟩⟩

theorem smallVector_created :
    vectorCreate smallProps false .ok (some ⟨64, fun _ => 0⟩) = (.ok, some smallVector) := rfl

/-- two single insertions fill the vector up to its limit -/
theorem capacity_small : ∃ w, Runs vecStep (fun v o => VecLegal v o ∧ Within v o) smallVector
    [.insertMulti 0 (fun _ => 7) 1 none, .insertMulti 0 (fun _ => 8) 1 (some ⟨128, fun _ => 0⟩)] w ∧ Bounds w ∧
    w.elemCount = 2 ∧ w.elemCap = 2 := by
  set o₁ : VecOp ℕ := .insertMulti 0 (fun _ => 7) 1 none
  set o₂ : VecOp ℕ := .insertMulti 0 (fun _ => 8) 1 (some ⟨128, fun _ => 0⟩)
  have h₁ : VecLegal smallVector o₁ ∧ Within smallVector o₁ :=
    ⟨⟨by decide, by decide⟩, Or.inr (Or.inr (Or.inl (by decide)))⟩
  have h₂ : VecLegal (vecExec smallVector o₁).2 o₂ ∧ Within (vecExec smallVector o₁).2 o₂ :=
    ⟨⟨by decide, by decide⟩, Or.inr (Or.inr (Or.inr ⟨by decide, Or.inr ⟨by decide +kernel, by decide⟩⟩))⟩
  have hrun : Runs vecStep (fun v o => VecLegal v o ∧ Within v o) smallVector [o₁, o₂]
    (vecExec (vecExec smallVector o₁).2 o₂).2 := .cons h₁ rfl (.cons h₂ rfl (.nil _))
  exact ⟨_, hrun, (capacity_run (by decide +kernel) (by decide) smallVector_created hrun).1, by decide +kernel,
    by decide +kernel⟩

/-- three elements are inserted into a vector of at most two: the call succeeds and the capacity becomes three -/
theorem capacity_exceeded : validateProperties smallProps ∧
    ¬ ∀ ops w, Runs vecStep VecLegal smallVector ops w → ∀ o, VecLegal w o → CallOk w o := by
  refine ⟨by decide +kernel, fun h => ?_⟩
  have hl : VecLegal smallVector (.insertMulti 0 (fun _ => 7) 3 (some ⟨128, fun _ => 0⟩)) := ⟨by decide, by decide⟩
  have hok := h [] smallVector (.nil _) _ hl
  have hup := hok.bounds.upper
  revert hup
  decide +kernel

end Noriko.Dstruct
