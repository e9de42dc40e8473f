/-
Failed insertions and changes of the capacity of a hash table (`htable.c`).

`NkHashtableInsertMulti` checks the limits and rehashes before it inserts, and the insertions themselves cannot fail, so
an error comes before the first change. `__NkInt_HashtableAdjustCapacity` fills a new array beside the old one and
exchanges them at the end. `bulk_atomic` says both of every table that any calls lead to, clears among them.
-/
import Noriko.Dstruct.HtableClear
import Noriko.Lib.Run

namespace Noriko.Dstruct

open Lib

variable {K V : Type}

/-! ## Changing the capacity -/

section Rehash

variable [Inhabited K] [Inhabited V] {H : HashFn K} {ht ht' : Hashtable K V}

/-- a change to a capacity with room for all pairs returns; it fails and leaves the table as it is, or the table has the
new capacity and the pairs it had -/
def RehashKeeps (H : HashFn K) (ht : Hashtable K V) : Prop :=
  ∀ newCap heap, 0 < newCap → ht.elemCount ≤ newCap → ∃ code ht', adjustCapacity H ht newCap heap = some (code, ht') ∧
    (code ≠ .ok → ht' = ht) ∧
    (code = .ok → (stored ht'.elemArray).Perm (stored ht.elemArray) ∧ ht'.elemCount = ht.elemCount ∧
      ht'.currCap = newCap ∧ ht'.elemArray.length = newCap ∧ ht'.htProps = ht.htProps)

theorem rehashKeeps_of_inv (h : HtInv ht) : RehashKeeps H ht := by
  intro newCap heap hpos hroom
  rcases adjustCapacity_spec H h.count hpos hroom heap with ⟨-, hfail⟩ | ⟨new, hok, hlen, hperm⟩
  · exact ⟨_, _, hfail, fun _ => rfl, fun hcode => by cases hcode⟩
  · exact ⟨_, _, hok, fun hcode => absurd rfl hcode, fun _ => ⟨hperm, rfl, rfl, hlen, rfl⟩⟩

theorem hashtableClear_inv (h : HtInv ht) (hpos : 0 < ht.htProps.minCap) (hlt : ht.htProps.minCap < 2 ^ 32) {heap : Bool}
    {events : List (ClearEvent K V)} (hr : hashtableClear H ht heap = some (events, ht')) :
    HtInv ht' ∧ ht'.htProps = ht.htProps := by
  obtain ⟨⟨code, u⟩, hadj, heq⟩ := Option.map_eq_some_iff.1 hr
  cases heq
  rcases adjustCapacity_some h.count hpos hadj with ⟨-, rfl⟩ | ⟨-, new, rfl, -, -⟩
  · exact ⟨htInv_zeroed h.cap_pos h.cap_lt _, rfl⟩
  · exact ⟨htInv_zeroed hpos hlt _, rfl⟩

end Rehash

/-! ## Tables that are in use -/

inductive HtCall (K V : Type) where
  | op (o : HtOp K V)
  | clear (heap : Bool)

/-- `NkGPAlloc` asserts that it is asked for memory, so a table is cleared only if its minimal capacity is not zero -/
def HtCallLegal (ht : Hashtable K V) : HtCall K V → Prop
  | .op _ => True
  | .clear _ => 0 < ht.htProps.minCap

section Calls

variable [DecidableEq K] [Inhabited K] [Inhabited V] {H : HashFn K} {p : HashtableProperties} {ht ht' : Hashtable K V}

/-- the table after a call, if it returns -/
def htCallStep (H : HashFn K) (ht : Hashtable K V) : HtCall K V → Option (Hashtable K V)
  | .op o => (htStep H ht o).map Prod.snd
  | .clear heap => (hashtableClear H ht heap).map Prod.snd

theorem htCallStep_inv (hmin : p.minCap < 2 ^ 32) (hmax : p.maxCap < 2 ^ 32) (h : HtInv ht ∧ ht.htProps = p)
    {c : HtCall K V} (hl : HtCallLegal ht c) (hs : htCallStep H ht c = some ht') : HtInv ht' ∧ ht'.htProps = p := by
  cases c with
  | op o =>
    obtain ⟨⟨r, u⟩, hstep, rfl⟩ := Option.map_eq_some_iff.1 hs
    exact htStep_inv hmin hmax h hstep
  | clear heap =>
    obtain ⟨⟨events, u⟩, hclear, rfl⟩ := Option.map_eq_some_iff.1 hs
    rw [← h.2] at hmin
    obtain ⟨hinv, hprops⟩ := hashtableClear_inv h.1 hl hmin hclear
    exact ⟨hinv, hprops.trans h.2⟩

/-- an insertion of several pairs that fails leaves the table as it is -/
def InsertAtomic (H : HashFn K) (ht : Hashtable K V) : Prop :=
  ∀ pairs heap code ht', hashtableInsertMulti H ht pairs heap = some (code, ht') → code ≠ .ok → ht' = ht

/-- In every table that calls lead to, a failed insertion of several pairs changes nothing, and a change of the capacity
keeps all pairs or, if it fails, everything. -/
theorem bulk_atomic (hinit : 0 < p.initCap) (hinit' : p.initCap < 2 ^ 32) (hmin : p.minCap < 2 ^ 32)
    (hmax : p.maxCap < 2 ^ 32) {calls : List (HtCall K V)}
    (hrun : Runs (htCallStep H) HtCallLegal (hashtableCreate p) calls ht) : InsertAtomic H ht ∧ RehashKeeps H ht := by
  have hstart : HtInv (hashtableCreate p : Hashtable K V) ∧ (hashtableCreate p : Hashtable K V).htProps = p :=
    ⟨htInv_zeroed hinit hinit' p, rfl⟩
  obtain ⟨h, hprops⟩ : HtInv ht ∧ ht.htProps = p :=
    hrun.inv (I := fun ht => HtInv ht ∧ ht.htProps = p)
      (fun _ _ _ hs hl hstep => htCallStep_inv hmin hmax hs hl hstep) hstart
  refine ⟨?_, rehashKeeps_of_inv h⟩
  intro pairs heap code ht' hr hcode
  rcases insertMulti_some hmin hmax h hprops hr with ⟨-, hsame⟩ | ⟨hok, -⟩
  · exact hsame
  · exact absurd hok hcode

end Calls

/-- a table of eight slots for at most two pairs -/
def limitedProps : HashtableProperties := ⟨8, 1, 2, .uint64, false⟩

/-- that table with two pairs -/
def fullTable : Hashtable ℕ ℕ := ⟨2, 8, limitedProps,
  [⟨⟨0, 5⟩, true, 0⟩, ⟨⟨1, 6⟩, true, 0⟩, zeroSlot, zeroSlot, zeroSlot, zeroSlot, zeroSlot, zeroSlot]⟩

/-- a third pair is refused, and the table with two stays as it is -/
theorem bulk_atomic_limited :
    Runs (htCallStep modHash) HtCallLegal (hashtableCreate limitedProps)
        [.op (.insertMulti [⟨0, 5⟩, ⟨1, 6⟩] true)] fullTable ∧
      hashtableInsertMulti modHash fullTable [⟨2, 7⟩] true = some (.capLimitExceeded, fullTable) ∧
      InsertAtomic modHash fullTable ∧ RehashKeeps modHash fullTable := by
  have hinsert : hashtableInsertMulti modHash (hashtableCreate limitedProps) [(⟨0, 5⟩ : HashtablePair ℕ ℕ), ⟨1, 6⟩] true =
      some (.ok, fullTable) := by decide +kernel
  have hstep : htCallStep modHash (hashtableCreate limitedProps) (.op (.insertMulti [⟨0, 5⟩, ⟨1, 6⟩] true)) =
      some fullTable := by
    simp only [htCallStep, htStep, hinsert, Option.map_some]
  have hrun : Runs (htCallStep modHash) HtCallLegal (hashtableCreate limitedProps)
      [.op (.insertMulti [⟨0, 5⟩, ⟨1, 6⟩] true)] fullTable := .cons trivial hstep (.nil _)
  exact ⟨hrun, by decide +kernel, bulk_atomic (by decide) (by decide) (by decide) (by decide) hrun⟩

end Noriko.Dstruct
