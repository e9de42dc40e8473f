/-
Probe distances of the hash table.

Every used slot stores how far its pair lies behind its home, the slot its key hashes to. Erasing a pair only clears a
flag, so there are holes in the probe chains and neighbours say nothing about each other. The distances stay exact all the
same. The pair that the insertion loop carries has come at most as far as the loop: a pair that is displaced was closer to
its home than the one that takes its slot. The loop ends at the first free slot, before it has gone round, so no distance
reaches the capacity (`robinHoodLoop_exact`).
-/
import Noriko.Dstruct.HtableMap

namespace Noriko.Dstruct

open Lib

variable {K V : Type} [Inhabited K] [Inhabited V]

/-! ## Exact distances -/

/-- every used slot stores the distance of its pair from its home -/
def OffsetsExact (H : HashFn K) (cap : ℕ) (elems : List (HashtableExtPair K V)) : Prop :=
  ∀ i < cap, (slot elems i).isUsed = true →
    ((slot elems i).offset : ℤ) = ((i : ℤ) - H.hash (slot elems i).regPair.keyVal cap) % cap

/-- slot arrays that insertions into arrays with a free slot and erasures lead to, from an empty array -/
inductive Reachable (H : HashFn K) (cap : ℕ) : List (HashtableExtPair K V) → Prop
  | empty : Reachable H cap (List.replicate cap zeroSlot)
  | insert {elems elems' : List (HashtableExtPair K V)} {b : Bool} (p : HashtablePair K V) :
      Reachable H cap elems → (∃ i < cap, (slot elems i).isUsed = false) →
      robinHoodInsertSingle H cap elems p = some (b, elems') → Reachable H cap elems'
  | erase {elems : List (HashtableExtPair K V)} (i : ℕ) : Reachable H cap elems →
      Reachable H cap (elems.set i { slot elems i with isUsed := false })

variable {H : HashFn K} {cap : ℕ}

/-- a distance below the capacity is exact if it leads from the home to the slot -/
theorem dist_eq_iff {home off i : ℕ} (hi : i < cap) :
    (off : ℤ) = ((i : ℤ) - home) % cap ↔ off < cap ∧ (home + off) % cap = i := by
  have hpos : (0 : ℤ) < cap := by omega
  constructor
  · intro heq
    have hlt := Int.emod_lt_of_pos ((i : ℤ) - home) hpos
    refine ⟨by omega, ?_⟩
    have hcast : (((home + off) % cap : ℕ) : ℤ) = i := by
      push_cast
      rw [heq, Int.add_emod_emod, add_sub_cancel]
      exact Int.emod_eq_of_lt (by omega) (by omega)
    exact_mod_cast hcast
  · rintro ⟨hlt, heq⟩
    have hcast : ((i : ℕ) : ℤ) = ((home : ℤ) + off) % cap := by
      rw [← heq]
      push_cast
      rfl
    rw [hcast, Int.emod_sub_emod, add_sub_cancel_left]
    exact (Int.emod_eq_of_lt (by omega) (by omega)).symm

theorem slot_set_self {elems : List (HashtableExtPair K V)} {i : ℕ} (hi : i < elems.length)
    (s : HashtableExtPair K V) : slot (elems.set i s) i = s := by
  rw [slot_eq (by rwa [List.length_set]), List.getElem_set_self]

theorem offsetsExact_replicate : OffsetsExact H cap (List.replicate cap (zeroSlot : HashtableExtPair K V)) := by
  intro i hi hused
  rw [slot_eq (by rwa [List.length_replicate]), List.getElem_replicate] at hused
  cases hused

/-- one slot changes -/
theorem OffsetsExact.set {elems : List (HashtableExtPair K V)} (h : OffsetsExact H cap elems)
    (hlen : elems.length = cap) {j : ℕ} {s : HashtableExtPair K V} (hj : j < cap)
    (hs : s.isUsed = true → (s.offset : ℤ) = ((j : ℤ) - H.hash s.regPair.keyVal cap) % cap) :
    OffsetsExact H cap (elems.set j s) := by
  intro i hi
  by_cases hij : j = i
  · rw [← hij, slot_set_self (hlen.symm ▸ hj)]
    exact hs
  · rw [slot_set_of_ne hij]
    exact h i hi

/-! ## The insertion loop -/

/-- the loop keeps the distances exact: the pair it carries is `psa` slots behind its home and has at most the rounds that
are left to go, so it is placed before it has gone round -/
theorem robinHoodLoop_exact (hcap : cap < 2 ^ 32) {rounds : ℕ} {elems elems' : List (HashtableExtPair K V)} {i psa : ℕ}
    {p : HashtablePair K V} (hlen : elems.length = cap) (hi : i < cap) (hex : OffsetsExact H cap elems)
    (hpsa : psa + rounds ≤ cap) (hhome : (H.hash p.keyVal cap + psa) % cap = i)
    (h : robinHoodLoop cap rounds elems i psa p = some elems') : OffsetsExact H cap elems' := by
  induction rounds generalizing elems i psa p with
  | zero => cases h
  | succ rounds ih =>
    have hlt : psa < cap := by omega
    have hset : OffsetsExact H cap (elems.set i ⟨p, true, psa⟩) :=
      hex.set hlen hi fun _ => (dist_eq_iff hi).2 ⟨hlt, hhome⟩
    rw [robinHoodLoop] at h
    split_ifs at h with hused hle
    · cases h
      exact hset
    · rw [u32_of_lt (by omega)] at h
      refine ih hlen (cyc_lt hi) hex (by omega) ?_ h
      rw [← Nat.add_assoc, ← Nat.mod_add_mod, hhome, cyc_eq_mod hi]
    · -- the displaced pair was closer to its home, so it has not come as far as the one that was carried
      rw [Bool.not_eq_false] at hused
      obtain ⟨-, hold⟩ := (dist_eq_iff hi).1 (hex i hi hused)
      rw [u32_of_lt (by omega)] at h
      refine ih (by rw [List.length_set, hlen]) (cyc_lt hi) hset (by omega) ?_ h
      rw [← Nat.add_assoc, ← Nat.mod_add_mod, hold, cyc_eq_mod hi]

/-- the loop takes the first free slot it meets, and every used slot stays used -/
theorem robinHoodLoop_used {rounds : ℕ} {elems elems' : List (HashtableExtPair K V)} {i psa : ℕ}
    {p : HashtablePair K V} (hlen : elems.length = cap) (hi : i < cap)
    (h : robinHoodLoop cap rounds elems i psa p = some elems') :
    ∃ j < cap, (slot elems j).isUsed = false ∧
      ∀ k, (slot elems' k).isUsed = true ↔ k = j ∨ (slot elems k).isUsed = true := by
  induction rounds generalizing elems i psa p with
  | zero => cases h
  | succ rounds ih =>
    have hone : ∀ k, (slot (elems.set i ⟨p, true, psa⟩) k).isUsed = true ↔ k = i ∨ (slot elems k).isUsed = true := by
      intro k
      by_cases hki : k = i
      · rw [hki, slot_set_self (hlen.symm ▸ hi)]
        simp
      · rw [slot_set_of_ne (Ne.symm hki)]
        simp [hki]
    rw [robinHoodLoop] at h
    split_ifs at h with hused hle
    · cases h
      exact ⟨i, hi, hused, hone⟩
    · exact ih hlen (cyc_lt hi) h
    · rw [Bool.not_eq_false] at hused
      have hsame : ∀ k, (slot (elems.set i ⟨p, true, psa⟩) k).isUsed = (slot elems k).isUsed := by
        intro k
        rw [Bool.eq_iff_iff, hone k]
        exact ⟨fun hk => hk.elim (fun heq => heq ▸ hused) id, Or.inr⟩
      obtain ⟨j, hj, hfree, hall⟩ := ih (by rw [List.length_set, hlen]) (cyc_lt hi) h
      simp only [hsame] at hfree hall
      exact ⟨j, hj, hfree, hall⟩

/-! ## Whole histories -/

theorem Reachable.exact (hcap : cap < 2 ^ 32) {elems : List (HashtableExtPair K V)} (h : Reachable H cap elems) :
    elems.length = cap ∧ OffsetsExact H cap elems := by
  induction h with
  | empty => exact ⟨List.length_replicate, offsetsExact_replicate⟩
  | @insert elems elems' b p _ hfree hins ih =>
    obtain ⟨i, hi, -⟩ := hfree
    have hpos : 0 < cap := by omega
    refine ⟨(robinHoodInsertSingle_some ih.1 hpos hins).2.1, ?_⟩
    rw [robinHoodInsertSingle, if_neg (by omega)] at hins
    obtain ⟨l, hl, heq⟩ := Option.map_eq_some_iff.1 hins
    cases heq
    have hhome := H.hash_lt p.keyVal hpos
    refine robinHoodLoop_exact hcap ih.1 hhome ih.2 (by omega) ?_ hl
    rw [Nat.add_zero, Nat.mod_eq_of_lt hhome]
  | @erase elems i _ ih =>
    refine ⟨by rw [List.length_set, ih.1], ?_⟩
    by_cases hi : i < cap
    · exact ih.2.set ih.1 hi fun hused => by cases hused
    · rw [List.set_eq_of_length_le (by omega)]
      exact ih.2

/-- Insertion into an array with a free slot ends within as many probes as there are slots, keeps every pair, uses one
more slot, and leaves every pair at the distance from its home that its slot stores. -/
theorem robinHood_lossless (hcap : cap < 2 ^ 32) {elems : List (HashtableExtPair K V)} (hr : Reachable H cap elems)
    (hfree : ∃ i < cap, (slot elems i).isUsed = false) (p : HashtablePair K V) :
    ∃ elems', robinHoodInsertSingle H cap elems p = some (true, elems') ∧
      (∃ rounds ≤ cap, robinHoodLoop cap rounds elems (H.hash p.keyVal cap) 0 p = some elems') ∧
      (stored elems').Perm (p :: stored elems) ∧
      (∃! j, j < cap ∧ (slot elems j).isUsed = false ∧ (slot elems' j).isUsed = true) ∧
      (∀ j, (slot elems j).isUsed = true → (slot elems' j).isUsed = true) ∧
      ∀ i < cap, (slot elems' i).isUsed = true → (slot elems' i).offset < cap ∧
        ((slot elems' i).offset : ℤ) = ((i : ℤ) - H.hash (slot elems' i).regPair.keyVal cap) % cap := by
  obtain ⟨hlen, hex⟩ := hr.exact hcap
  obtain ⟨i, hi, hempty⟩ := hfree
  have hpos : 0 < cap := by omega
  have hhome := H.hash_lt p.keyVal hpos
  obtain ⟨d, hd, hdist⟩ := exists_dist hhome hi
  rw [← hdist] at hempty
  obtain ⟨elems', hrun⟩ := robinHoodLoop_ends hd hhome hempty 0 p
  have hins : robinHoodInsertSingle H cap elems p = some (true, elems') := by
    rw [robinHoodInsertSingle, if_neg (by omega), hrun, Option.map_some]
  obtain ⟨j, hj, hjfree, hused⟩ := robinHoodLoop_used hlen hhome hrun
  have hafter : OffsetsExact H cap elems' := by
    refine robinHoodLoop_exact hcap hlen hhome hex (by omega) ?_ hrun
    rw [Nat.add_zero, Nat.mod_eq_of_lt hhome]
  refine ⟨elems', hins, ⟨cap, le_rfl, hrun⟩, (robinHoodLoop_some hlen hhome hrun).2, ?_, ?_, ?_⟩
  · refine ⟨j, ⟨hj, hjfree, (hused j).2 (Or.inl rfl)⟩, ?_⟩
    rintro k ⟨-, hkfree, hk⟩
    refine ((hused k).1 hk).resolve_right fun hkused => ?_
    rw [hkfree] at hkused
    cases hkused
  · intro k hk
    exact (hused k).2 (Or.inr hk)
  · intro k hk hkused
    have hk' := hafter k hk hkused
    exact ⟨((dist_eq_iff hk).1 hk').1, hk'⟩

/-- two pairs with home 0 of which the first was erased: the second is in slot 1, behind a hole -/
def holeArray : List (HashtableExtPair ℕ ℕ) := [⟨⟨0, 10⟩, false, 0⟩, ⟨⟨3, 11⟩, true, 1⟩, zeroSlot]

theorem reachable_hole : Reachable modHash 3 holeArray := by
  have hfirst : Reachable modHash 3 [⟨⟨0, 10⟩, true, 0⟩, zeroSlot, zeroSlot] :=
    .insert (⟨0, 10⟩ : HashtablePair ℕ ℕ) .empty ⟨0, by decide, rfl⟩ rfl
  have hsecond : Reachable modHash 3 [⟨⟨0, 10⟩, true, 0⟩, ⟨⟨3, 11⟩, true, 1⟩, zeroSlot] :=
    .insert (⟨3, 11⟩ : HashtablePair ℕ ℕ) hfirst ⟨1, by decide, rfl⟩ rfl
  exact .erase 0 hsecond

/-- a pair with home 1 goes to slot 2, as the pair in slot 1 is farther from its home -/
theorem robinHood_lossless_hole : ∃ elems', robinHoodInsertSingle modHash 3 holeArray ⟨4, 12⟩ = some (true, elems') ∧
    (∃ rounds ≤ 3, robinHoodLoop 3 rounds holeArray (modHash.hash 4 3) 0 ⟨4, 12⟩ = some elems') ∧
    (stored elems').Perm (⟨4, 12⟩ :: stored holeArray) ∧
    (∃! j, j < 3 ∧ (slot holeArray j).isUsed = false ∧ (slot elems' j).isUsed = true) ∧
    (∀ j, (slot holeArray j).isUsed = true → (slot elems' j).isUsed = true) ∧
    ∀ i < 3, (slot elems' i).isUsed = true → (slot elems' i).offset < 3 ∧
      ((slot elems' i).offset : ℤ) = ((i : ℤ) - modHash.hash (slot elems' i).regPair.keyVal 3) % (3 : ℕ) :=
  robinHood_lossless (by decide) reachable_hole ⟨0, by decide, rfl⟩ ⟨4, 12⟩

end Noriko.Dstruct
