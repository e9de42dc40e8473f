/-
The random number generator (`__NkInt_PRNGXoshiro256`, `NkPRNGNext` and `NkUuidGenerate` of `util.c`).

The state are the four words of the seed array. A lock is held during each step, so a run is a sequence of calls, and only
the number of steps that they make matters for the state (`run_eq`).

The step has an inverse. Undoing the shift of `s1` takes the most: a word that was mixed with itself, shifted by 17, comes
back from four shifted copies (`unmix_mix`). Zero is a fixed point, so no other state leads to it
(`prng_never_degenerates`).
-/
import Noriko.Uuid

namespace Noriko.Prng

open Lib

/-! ## The code -/

/-- `m_seedArr` of the context, as four words -/
@[ext]
structure RandContext where
  s0 : UInt64
  s1 : UInt64
  s2 : UInt64
  s3 : UInt64
deriving DecidableEq, Repr

/-- `__NkInt_PRNGXoshiro256`: the number and the next state -/
def xoshiro256 (r : RandContext) : UInt64 × RandContext :=
  let dst := r.s0 + r.s3
  let t := r.s1 <<< 17
  let s2 := r.s2 ^^^ r.s0
  let s3 := r.s3 ^^^ r.s1
  let s1 := r.s1 ^^^ s2
  let s0 := r.s0 ^^^ s3
  let s2 := s2 ^^^ t
  let s3 := s3 <<< 45 ||| s3 >>> 19
  (dst, ⟨s0, s1, s2, s3⟩)

/-- `NkPRNGNext` -/
def prngNext (r : RandContext) : UInt64 × RandContext := xoshiro256 r

/-- the version in byte 6 and the variant in byte 8 -/
def stampVersion (bytes : List UInt8) : List UInt8 :=
  (bytes.set 6 (0x40 ||| bytes.getD 6 0 &&& 0x0f)).set 8 (0x80 ||| bytes.getD 8 0 &&& 0x3f)

/-- `NkUuidGenerate` -/
def uuidGenerate (r : RandContext) : NkUuid × RandContext :=
  let n0 := xoshiro256 r
  let n1 := xoshiro256 n0.2
  (⟨stampVersion (le 8 n0.1.toNat ++ le 8 n1.1.toNat), by simp [stampVersion]⟩, n1.2)

/-- the calls that use the generator -/
inductive PrngOp where
  | next
  | generate
deriving DecidableEq, Repr

def prngStep (r : RandContext) : PrngOp → RandContext
  | .next => (prngNext r).2
  | .generate => (uuidGenerate r).2

def run (r : RandContext) (ops : List PrngOp) : RandContext := ops.foldl prngStep r

/-- the seed is all zero -/
def zeroState : RandContext := ⟨0, 0, 0, 0⟩

/-! ## The inverse -/

def mix (x : UInt64) : UInt64 := x ^^^ x <<< 17

def unmix (y : UInt64) : UInt64 := y ^^^ y <<< 17 ^^^ y <<< 34 ^^^ y <<< 51

def rotl (x : UInt64) : UInt64 := x <<< 45 ||| x >>> 19

def rotr (x : UInt64) : UInt64 := x >>> 45 ||| x <<< 19

/-- the state in front of a step -/
def undo (r : RandContext) : RandContext :=
  let s3 := rotr r.s3
  let s0 := r.s0 ^^^ s3
  let s1 := unmix (r.s1 ^^^ r.s2)
  let s2 := r.s1 ^^^ s1
  ⟨s0, s1, s2 ^^^ s0, s3 ^^^ s1⟩

theorem rotr_rotl (x : UInt64) : rotr (rotl x) = x := by
  refine UInt64.toBitVec_inj.1 (BitVec.eq_of_getLsbD_eq fun i hi => ?_)
  have hout : x.toBitVec.getLsbD (19 + (45 + i)) = false := BitVec.getLsbD_of_ge _ _ (by omega)
  by_cases hlow : i < 19
  · have hin : 45 + i < 64 := by omega
    simp [rotr, rotl, hout, hlow, hin, BitVec.getLsbD_eq_getElem hi]
  · have hin : ¬ 45 + i < 64 := by omega
    have hback : 19 + (i - 19) = i := by omega
    have hhigh : i - 19 < 45 := by omega
    simp [rotr, rotl, hout, hlow, hin, hback, hhigh, hi]

theorem rotl_rotr (x : UInt64) : rotl (rotr x) = x := by
  refine UInt64.toBitVec_inj.1 (BitVec.eq_of_getLsbD_eq fun i hi => ?_)
  have hout : x.toBitVec.getLsbD (45 + (19 + i)) = false := BitVec.getLsbD_of_ge _ _ (by omega)
  by_cases hlow : i < 45
  · have hin : 19 + i < 64 := by omega
    simp [rotr, rotl, hout, hlow, hin, BitVec.getLsbD_eq_getElem hi]
  · have hin : ¬ 19 + i < 64 := by omega
    have hback : 45 + (i - 45) = i := by omega
    have hhigh : i - 45 < 19 := by omega
    simp [rotr, rotl, hout, hlow, hin, hback, hhigh, hi]

/-- neighbours of a chain cancel -/
theorem xor_chain (a b c : UInt64) : a ^^^ b ^^^ (b ^^^ c) = a ^^^ c := by
  rw [UInt64.xor_assoc, ← UInt64.xor_assoc b, UInt64.xor_self, UInt64.zero_xor]

theorem xor_cancel (a b : UInt64) : a ^^^ b ^^^ b = a := by
  rw [UInt64.xor_assoc, UInt64.xor_self, UInt64.xor_zero]

/-- shifts add up, and 68 places leave nothing -/
theorem shift_shift (x : UInt64) :
    x <<< 17 <<< 17 = x <<< 34 ∧ x <<< 17 <<< 34 = x <<< 51 ∧ x <<< 34 <<< 17 = x <<< 51 ∧ x <<< 17 <<< 51 = 0 ∧
      x <<< 51 <<< 17 = 0 := by
  refine ⟨?_, ?_, ?_, ?_, ?_⟩ <;> refine UInt64.toBitVec_inj.1 ?_ <;> simp [← BitVec.shiftLeft_add]

theorem unmix_mix (x : UInt64) : unmix (mix x) = x := by
  obtain ⟨h34, h51, -, h68, -⟩ := shift_shift x
  rw [unmix, mix, UInt64.shiftLeft_xor, UInt64.shiftLeft_xor, UInt64.shiftLeft_xor, h34, h51, h68]
  calc x ^^^ x <<< 17 ^^^ (x <<< 17 ^^^ x <<< 34) ^^^ (x <<< 34 ^^^ x <<< 51) ^^^ (x <<< 51 ^^^ 0)
      _ = x ^^^ x <<< 34 ^^^ (x <<< 34 ^^^ x <<< 51) ^^^ (x <<< 51 ^^^ 0) := by rw [xor_chain]
      _ = x ^^^ x <<< 51 ^^^ (x <<< 51 ^^^ 0) := by rw [xor_chain x]
      _ = x := by rw [xor_chain, UInt64.xor_zero]

theorem mix_unmix (y : UInt64) : mix (unmix y) = y := by
  obtain ⟨h34, -, h51, -, h68⟩ := shift_shift y
  rw [mix, unmix, UInt64.shiftLeft_xor, UInt64.shiftLeft_xor, UInt64.shiftLeft_xor, h34, h51, h68, UInt64.xor_zero]
  calc y ^^^ y <<< 17 ^^^ y <<< 34 ^^^ y <<< 51 ^^^ (y <<< 17 ^^^ y <<< 34 ^^^ y <<< 51)
      _ = y ^^^ (y <<< 17 ^^^ y <<< 34 ^^^ y <<< 51) ^^^ (y <<< 17 ^^^ y <<< 34 ^^^ y <<< 51) := by
        simp only [UInt64.xor_assoc]
      _ = y := xor_cancel y _

theorem undo_step (r : RandContext) : undo (xoshiro256 r).2 = r := by
  have hs3 : rotr (rotl (r.s3 ^^^ r.s1)) = r.s3 ^^^ r.s1 := rotr_rotl _
  have hs1 : unmix (r.s1 ^^^ (r.s2 ^^^ r.s0) ^^^ (r.s2 ^^^ r.s0 ^^^ r.s1 <<< 17)) = r.s1 := by
    rw [xor_chain]
    exact unmix_mix r.s1
  have hs2 : r.s1 ^^^ (r.s2 ^^^ r.s0) ^^^ r.s1 ^^^ r.s0 = r.s2 := by
    rw [UInt64.xor_comm r.s1, xor_cancel, xor_cancel]
  unfold undo xoshiro256
  dsimp only
  rw [hs1]
  unfold rotl at hs3
  rw [hs3, xor_cancel, hs2, xor_cancel]

theorem step_undo (r : RandContext) : (xoshiro256 (undo r)).2 = r := by
  set s1 := unmix (r.s1 ^^^ r.s2) with hs1
  have hmix : s1 ^^^ s1 <<< 17 = r.s1 ^^^ r.s2 := mix_unmix _
  have hs2 : r.s1 ^^^ s1 ^^^ s1 <<< 17 = r.s2 := by
    rw [UInt64.xor_assoc, hmix, ← UInt64.xor_assoc, UInt64.xor_self, UInt64.zero_xor]
  have hback : s1 ^^^ (r.s1 ^^^ s1) = r.s1 := by
    rw [UInt64.xor_comm, xor_cancel]
  have hs3 : rotr r.s3 <<< 45 ||| rotr r.s3 >>> 19 = r.s3 := rotl_rotr r.s3
  unfold undo xoshiro256
  dsimp only
  rw [← hs1, xor_cancel, xor_cancel, xor_cancel, hback, hs2, hs3]

theorem xoshiro256_bijective : Function.Bijective fun r => (xoshiro256 r).2 :=
  Function.bijective_iff_has_inverse.2 ⟨undo, undo_step, step_undo⟩

/-! ## Runs -/

/-- the steps that a call makes -/
def PrngOp.steps : PrngOp → ℕ
  | .next => 1
  | .generate => 2

theorem prngStep_eq (r : RandContext) (o : PrngOp) : prngStep r o = (fun r => (xoshiro256 r).2)^[o.steps] r := by
  cases o with
  | next => rfl
  | generate => rfl

/-- a run is as many steps as its calls make -/
theorem run_eq (r : RandContext) (ops : List PrngOp) :
    run r ops = (fun r => (xoshiro256 r).2)^[(ops.map PrngOp.steps).sum] r := by
  induction ops generalizing r with
  | nil => rfl
  | cons o ops ih =>
    have hfirst : run r (o :: ops) = run (prngStep r o) ops := rfl
    rw [hfirst, ih, prngStep_eq, ← Function.iterate_add_apply, List.map_cons, List.sum_cons, Nat.add_comm]

theorem run_injective (ops : List PrngOp) : Function.Injective fun r => run r ops := by
  have hiter := xoshiro256_bijective.injective.iterate (ops.map PrngOp.steps).sum
  intro r r' h
  simp only [run_eq] at h
  exact hiter h

/-- the state that is all zero stays so -/
theorem run_zeroState (ops : List PrngOp) : run zeroState ops = zeroState := by
  rw [run_eq]
  exact Function.iterate_fixed rfl _

/-- the step is a bijection; from a seed that is not all zero no calls lead to a state that is, and calls keep different states
apart -/
theorem prng_never_degenerates :
    Function.Bijective (fun r => (xoshiro256 r).2) ∧
      ∀ ops : List PrngOp, (∀ r, r ≠ zeroState → run r ops ≠ zeroState) ∧
        ∀ r r', r ≠ r' → run r ops ≠ run r' ops := by
  refine ⟨xoshiro256_bijective, fun ops => ⟨fun r hr hzero => ?_, fun r r' hne heq => ?_⟩⟩
  · rw [← run_zeroState ops] at hzero
    exact hr (run_injective ops hzero)
  · exact hne (run_injective ops heq)

/-- a generated UUID is of version 4 and of the variant that goes with it, whatever the state -/
theorem uuidGenerate_version (r : RandContext) :
    (uuidGenerate r).1.asByte.getD 6 0 >>> 4 = 4 ∧ (uuidGenerate r).1.asByte.getD 8 0 >>> 6 = 2 := by
  have hversion : ∀ b : UInt8, (0x40 ||| b &&& 0x0f) >>> 4 = 4 := Uuid.forall_uint8 (by decide +kernel)
  have hvariant : ∀ b : UInt8, (0x80 ||| b &&& 0x3f) >>> 6 = 2 := Uuid.forall_uint8 (by decide +kernel)
  simp [uuidGenerate, stampVersion, hversion, hvariant]

end Noriko.Prng
