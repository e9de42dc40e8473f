/-
Reading a UUID from arbitrary text (`NkUuidFromString` of `util.c`).

The string is at address 0; a `char` is signed, so a character that is not ASCII is a negative index. What the table has
behind its ends does not matter: the indices are listed, and the loop does not depend on what is read there.

The loop looks for the terminator in front of a hyphen and a pair of characters, but not within the pair. A text that ends
there is read behind its end, and if it is the 16th pair, half a byte is taken for a whole one. So arbitrary text is read
safely exactly if its first 16 pairs are ASCII and it does not end within one of them (`parse_safe_iff`).
-/
import Noriko.Uuid

namespace Noriko.UuidSafety

open Lib Uuid

/-! ## The code -/

/-- the index of a character into `gl_c_NibbleTable` -/
def tableIndex (c : UInt8) : ℤ := c.toInt8.toInt

/-- the pointer behind an optional hyphen -/
def skipHyphen (mem : ℕ → UInt8) (p : ℕ) : ℕ := if mem p = chHyphen then p + 1 else p

/-- the addresses that the loop of `NkUuidFromString` reads, as in `readLoop` -/
def readLoopReads (mem : ℕ → UInt8) : ℕ → ℕ → List ℕ
  | 0, _ => []
  | rounds + 1, p =>
    p :: if mem p = 0 then []
      else skipHyphen mem p :: (skipHyphen mem p + 1) :: readLoopReads mem rounds (skipHyphen mem p + 2)

/-- the indices that it uses -/
def readLoopIndices (mem : ℕ → UInt8) : ℕ → ℕ → List ℤ
  | 0, _ => []
  | rounds + 1, p =>
    if mem p = 0 then []
    else tableIndex (mem (skipHyphen mem p)) :: tableIndex (mem (skipHyphen mem p + 1)) ::
      readLoopIndices mem rounds (skipHyphen mem p + 2)

/-! ## What is right -/

def dropHyphen : List UInt8 → List UInt8
  | [] => []
  | c :: s => if c = chHyphen then s else c :: s

/-- the number of bytes that a text encodes, of the first `rounds`: pairs of characters with an optional hyphen in front -/
def encoded : ℕ → List UInt8 → ℕ
  | 0, _ => 0
  | rounds + 1, s =>
    match dropHyphen s with
    | _ :: _ :: rest => encoded rounds rest + 1
    | _ => 0

/-- the text `s` at address 0 is read safely -/
structure ParseSafe (mem : ℕ → UInt8) (s : List UInt8) : Prop where
  reads : ∀ i ∈ readLoopReads mem 16 0, i ≤ s.length
  indices : ∀ i ∈ readLoopIndices mem 16 0, 0 ≤ i ∧ i < 128
  short : encoded 16 s < 16 → uuidFromString mem = (.inParameter, zeroUuid)

/-- the first `rounds` pairs of a text are ASCII, and it ends in front of a pair or behind them -/
def complete : ℕ → List UInt8 → Bool
  | 0, _ => true
  | rounds + 1, s =>
    s.isEmpty ||
      match dropHyphen s with
      | a :: b :: rest => decide (a < 0x80) && decide (b < 0x80) && complete rounds rest
      | _ => false

/-! ## One pair -/

section Pair

variable {mem : ℕ → UInt8} {p rounds : ℕ} {s : List UInt8}

theorem tableIndex_inside_iff (c : UInt8) : (0 ≤ tableIndex c ∧ tableIndex c < 128) ↔ c < 0x80 :=
  forall_uint8 (P := fun c => (0 ≤ tableIndex c ∧ tableIndex c < 128) ↔ c < 0x80) (by decide +kernel) c

/-- behind an optional hyphen stands the rest of the text -/
theorem skipHyphen_spec (hs : Holds mem p (s ++ [0])) (hne : 0 ∉ s) (hs0 : s ≠ []) :
    mem p ≠ 0 ∧ Holds mem (skipHyphen mem p) (dropHyphen s ++ [0]) ∧ 0 ∉ dropHyphen s ∧
      skipHyphen mem p + (dropHyphen s).length = p + s.length := by
  cases s with
  | nil => exact absurd rfl hs0
  | cons c s =>
    obtain ⟨hfirst, hrest⟩ := holds_cons.1 hs
    have hc : c ≠ 0 := fun h => hne (h ▸ List.mem_cons_self)
    have hnul : 0 ∉ s := fun h => hne (List.mem_cons_of_mem c h)
    refine ⟨hfirst ▸ hc, ?_⟩
    have hdrop : dropHyphen (c :: s) = if c = chHyphen then s else c :: s := rfl
    rw [skipHyphen, hfirst, hdrop]
    split_ifs
    · refine ⟨hrest, hnul, ?_⟩
      rw [List.length_cons]
      omega
    · exact ⟨hs, hne, rfl⟩

theorem readLoop_succ (h : mem p ≠ 0) :
    readLoop mem (rounds + 1) p =
      byteOf (mem (skipHyphen mem p), mem (skipHyphen mem p + 1)) :: readLoop mem rounds (skipHyphen mem p + 2) := by
  rw [readLoop, if_neg h]
  rfl

theorem readLoopReads_succ (h : mem p ≠ 0) :
    readLoopReads mem (rounds + 1) p =
      p :: skipHyphen mem p :: (skipHyphen mem p + 1) :: readLoopReads mem rounds (skipHyphen mem p + 2) := by
  rw [readLoopReads, if_neg h]

theorem readLoopIndices_succ (h : mem p ≠ 0) :
    readLoopIndices mem (rounds + 1) p =
      tableIndex (mem (skipHyphen mem p)) :: tableIndex (mem (skipHyphen mem p + 1)) ::
        readLoopIndices mem rounds (skipHyphen mem p + 2) := by
  rw [readLoopIndices, if_neg h]

end Pair

/-! ## The loop -/

section Loop

variable {mem : ℕ → UInt8} {p rounds : ℕ} {s : List UInt8}

/-- a pair behind an optional hyphen -/
theorem pair_spec {a b : UInt8} {rest : List UInt8} (hs : Holds mem p (s ++ [0])) (hne : 0 ∉ s)
    (hd : dropHyphen s = a :: b :: rest) :
    mem p ≠ 0 ∧ mem (skipHyphen mem p) = a ∧ mem (skipHyphen mem p + 1) = b ∧
      Holds mem (skipHyphen mem p + 2) (rest ++ [0]) ∧ 0 ∉ rest ∧ p ≤ skipHyphen mem p ∧
      skipHyphen mem p + 2 + rest.length = p + s.length := by
  have hs0 : s ≠ [] := by
    rintro rfl
    cases hd
  obtain ⟨hp, hrest, hnul, hlen⟩ := skipHyphen_spec hs hne hs0
  rw [hd] at hrest hnul hlen
  obtain ⟨ha, hrest⟩ := holds_cons.1 hrest
  obtain ⟨hb, hrest⟩ := holds_cons.1 hrest
  have hle : p ≤ skipHyphen mem p := by
    unfold skipHyphen
    split_ifs
    · exact Nat.le_succ p
    · exact le_refl p
  rw [List.length_cons, List.length_cons] at hlen
  exact ⟨hp, ha, hb, hrest, fun h => hnul (List.mem_cons_of_mem a (List.mem_cons_of_mem b h)), hle, by omega⟩

/-- complete pairs are read within the text, one byte each -/
theorem loop_complete (hs : Holds mem p (s ++ [0])) (hne : 0 ∉ s) (h : complete rounds s = true) :
    (∀ i ∈ readLoopReads mem rounds p, i ≤ p + s.length) ∧
      (∀ i ∈ readLoopIndices mem rounds p, 0 ≤ i ∧ i < 128) ∧ (readLoop mem rounds p).length = encoded rounds s := by
  induction rounds generalizing p s with
  | zero => exact ⟨by simp [readLoopReads], by simp [readLoopIndices], rfl⟩
  | succ rounds ih =>
    rw [complete, Bool.or_eq_true] at h
    rcases h with hnil | hpair
    · obtain rfl := List.isEmpty_iff.1 hnil
      have hnul : mem p = 0 := (holds_cons.1 hs).1
      rw [readLoopReads, readLoopIndices, readLoop, if_pos hnul, if_pos hnul, if_pos hnul]
      exact ⟨by simp, by simp, rfl⟩
    · rcases hd : dropHyphen s with _ | ⟨a, _ | ⟨b, rest⟩⟩
      · simp [hd] at hpair
      · simp [hd] at hpair
      · simp only [hd, Bool.and_eq_true, decide_eq_true_eq] at hpair
        obtain ⟨⟨ha, hb⟩, hrest⟩ := hpair
        obtain ⟨hp, hma, hmb, hholds, hnul, hle, hlen⟩ := pair_spec hs hne hd
        obtain ⟨hreads, hindices, hbytes⟩ := ih hholds hnul hrest
        rw [readLoopReads_succ hp, readLoopIndices_succ hp, readLoop_succ hp, encoded, hd, hma, hmb]
        refine ⟨?_, ?_, congrArg (· + 1) hbytes⟩
        · intro i hi
          simp only [List.mem_cons] at hi
          rcases hi with rfl | rfl | rfl | hi
          · exact Nat.le_add_right _ _
          · omega
          · omega
          · rw [← hlen]
            exact hreads i hi
        · intro i hi
          simp only [List.mem_cons] at hi
          rcases hi with rfl | rfl | hi
          · exact (tableIndex_inside_iff a).2 ha
          · exact (tableIndex_inside_iff b).2 hb
          · exact hindices i hi

/-- where a pair is not complete, something is read behind the text or the table, or the last byte is taken for whole -/
theorem loop_incomplete (hs : Holds mem p (s ++ [0])) (hne : 0 ∉ s) (h : complete rounds s = false) :
    (∃ i ∈ readLoopReads mem rounds p, p + s.length < i) ∨ (∃ i ∈ readLoopIndices mem rounds p, ¬ (0 ≤ i ∧ i < 128)) ∨
      (encoded rounds s < rounds ∧ (readLoop mem rounds p).length = rounds) := by
  induction rounds generalizing p s with
  | zero => cases h
  | succ rounds ih =>
    rw [complete, Bool.or_eq_false_iff] at h
    obtain ⟨hsome, hpair⟩ := h
    have hs0 : s ≠ [] := by
      rintro rfl
      cases hsome
    rcases hd : dropHyphen s with _ | ⟨a, _ | ⟨b, rest⟩⟩
    · -- a hyphen at the end
      obtain ⟨hp, -, -, hlen⟩ := skipHyphen_spec hs hne hs0
      rw [hd, List.length_nil] at hlen
      refine Or.inl ⟨skipHyphen mem p + 1, ?_, by omega⟩
      rw [readLoopReads_succ hp]
      simp
    · -- one character at the end
      obtain ⟨hp, -, -, hlen⟩ := skipHyphen_spec hs hne hs0
      rw [hd, List.length_singleton] at hlen
      cases rounds with
      | zero =>
        refine Or.inr (Or.inr ⟨?_, ?_⟩)
        · rw [encoded, hd]
          exact Nat.zero_lt_one
        · rw [readLoop_succ hp]
          rfl
      | succ rounds =>
        refine Or.inl ⟨skipHyphen mem p + 2, ?_, by omega⟩
        rw [readLoopReads_succ hp, readLoopReads]
        simp
    · obtain ⟨hp, hma, hmb, hholds, hnul, hle, hlen⟩ := pair_spec hs hne hd
      rw [readLoopReads_succ hp, readLoopIndices_succ hp, readLoop_succ hp, encoded, hd, hma, hmb]
      by_cases ha : a < 0x80
      · by_cases hb : b < 0x80
        · have hrest : complete rounds rest = false := by simpa [hd, ha, hb] using hpair
          rcases ih hholds hnul hrest with ⟨i, hi, hlt⟩ | ⟨i, hi, hout⟩ | ⟨hfewer, hall⟩
          · exact Or.inl ⟨i, by simp [hi], by omega⟩
          · exact Or.inr (Or.inl ⟨i, by simp [hi], hout⟩)
          · exact Or.inr (Or.inr ⟨Nat.succ_lt_succ hfewer, congrArg (· + 1) hall⟩)
        · exact Or.inr (Or.inl ⟨tableIndex b, by simp, fun hin => hb ((tableIndex_inside_iff b).1 hin)⟩)
      · exact Or.inr (Or.inl ⟨tableIndex a, by simp, fun hin => ha ((tableIndex_inside_iff a).1 hin)⟩)

end Loop

/-! ## Arbitrary text -/

theorem parseSafe_of_complete {mem : ℕ → UInt8} {s : List UInt8} (hs : Holds mem 0 (s ++ [0])) (hne : 0 ∉ s)
    (h : complete 16 s = true) : ParseSafe mem s := by
  obtain ⟨hreads, hindices, hbytes⟩ := loop_complete hs hne h
  refine ⟨fun i hi => ?_, hindices, fun hfewer => ?_⟩
  · have hle := hreads i hi
    omega
  · have hsize : ¬ (readLoop mem 16 0).length = 16 := by
      rw [hbytes]
      omega
    rw [uuidFromString, dif_neg hsize]

theorem not_parseSafe_of_incomplete {mem : ℕ → UInt8} {s : List UInt8} (hs : Holds mem 0 (s ++ [0])) (hne : 0 ∉ s)
    (h : complete 16 s = false) : ¬ ParseSafe mem s := by
  intro hsafe
  rcases loop_incomplete hs hne h with ⟨i, hi, hlt⟩ | ⟨i, hi, hout⟩ | ⟨hfewer, hall⟩
  · have hle := hsafe.reads i hi
    omega
  · exact hout (hsafe.indices i hi)
  · have hshort := hsafe.short hfewer
    rw [uuidFromString, dif_pos hall] at hshort
    cases congrArg Prod.fst hshort

/-- text is read safely exactly if its first 16 pairs are ASCII and it does not end within one of them -/
theorem parse_safe_iff {mem : ℕ → UInt8} {s : List UInt8} (hs : Holds mem 0 (s ++ [0])) (hne : 0 ∉ s) :
    ParseSafe mem s ↔ complete 16 s = true := by
  refine ⟨fun hsafe => ?_, parseSafe_of_complete hs hne⟩
  by_contra hcomplete
  exact not_parseSafe_of_incomplete hs hne (Bool.not_eq_true _ ▸ hcomplete) hsafe

/-- `"0f-1e"` -/
theorem parse_safe_short : ParseSafe (fun k => [0x30, 0x66, 0x2d, 0x31, 0x65].getD k 0) [0x30, 0x66, 0x2d, 0x31, 0x65] :=
  (@parse_safe_iff (fun k => [0x30, 0x66, 0x2d, 0x31, 0x65].getD k 0) [0x30, 0x66, 0x2d, 0x31, 0x65] (by unfold Holds; decide)
    (by decide)).2 (by decide)

/-- `"0"` and `"-"` are read behind their end, and `"é0"` is looked up in front of the table -/
theorem parse_unsafe :
    ¬ ParseSafe (fun k => [0x30].getD k 0) [0x30] ∧ ¬ ParseSafe (fun k => [0x2d].getD k 0) [0x2d] ∧
      ¬ ParseSafe (fun k => [0xe9, 0x30].getD k 0) [0xe9, 0x30] := by
  refine ⟨?_, ?_, ?_⟩
  · exact not_parseSafe_of_incomplete (by unfold Holds; decide) (by decide) (by decide)
  · exact not_parseSafe_of_incomplete (by unfold Holds; decide) (by decide) (by decide)
  · exact not_parseSafe_of_incomplete (by unfold Holds; decide) (by decide) (by decide)

end Noriko.UuidSafety
