/-
Views of a part of a string (`NkStringCreateView` of `dstruct/string.c`).

A view starts where the walk over `start` code points ends, and a second walk from there finds its end. The second walk
is asked for `maxCount - 1` code points, as if its end were the last code point of the view; but the size is the distance
to that end, so the last code point is not in it. Only a walk that is stopped by the `NUL` ends where it should. Both
walks have no result on a character that is not ASCII.

A view has the extent that was asked for exactly if the text is ASCII and ends before `maxCount` code points
(`view_iff`).
-/
import Noriko.Dstruct.Utf8

namespace Noriko.Dstruct

open Lib

/-! ## The code -/

/-- `__NkInt_String_CalcSubstr`, if all indices are of the table of character sizes -/
def stringCalcSubstr (mem : ℕ → UInt8) (strPtr start maxCount : ℕ) : Option NkStringView := do
  let startPtr ← stringGoto mem start strPtr
  let endPtr ← stringGoto mem (sub32 maxCount 1) startPtr.1
  return { dataPtr := startPtr.1, sizeInBytes := endPtr.1 - startPtr.1 }

/-- `NkStringCreateView` -/
def stringCreateView (s : StrState) (start maxCount : ℕ) : Option (NkErrorCode × NkStringView) :=
  (stringCalcSubstr s.mem s.str.charBuf start maxCount).map fun view => (.ok, view)

/-! ## Walking through a text -/

section Goto

variable {mem : ℕ → UInt8} {p off : ℕ} {cs : List Char}

/-- a walk over ASCII characters ends behind the last of them, and one that comes to another character has no result -/
theorem goto_cases (off : ℕ) (h : Holds mem p (utf8Text cs ++ [0])) (hne : ∀ b ∈ utf8Text cs, b ≠ 0) :
    ((∀ c ∈ cs.take off, c.toNat < 128) ∧ ∃ reads, stringGoto mem off p = some (p + min off cs.length, reads)) ∨
      ((∃ c ∈ cs.take off, 128 ≤ c.toNat) ∧ stringGoto mem off p = none) := by
  induction off generalizing p cs with
  | zero =>
    rw [Nat.zero_min]
    exact Or.inl ⟨by simp, [p], rfl⟩
  | succ off ih =>
    cases cs with
    | nil =>
      have hnul : mem p = 0 := (holds_cons.1 h).1
      unfold stringGoto
      rw [if_neg (not_not.2 hnul)]
      exact Or.inl ⟨by simp, [p], rfl⟩
    | cons c cs =>
      obtain ⟨hbyte, hhead⟩ := charSize_head h hne
      rw [utf8Text_cons] at hne
      unfold stringGoto
      rw [if_pos hbyte, List.take_succ_cons, List.length_cons]
      rcases hhead with ⟨hlow, hone, hrest⟩ | ⟨hhigh, hnone⟩
      · rcases ih hrest (fun b hb => hne b (List.mem_append_right _ hb)) with ⟨hascii, reads, hgoto⟩ | ⟨hother, hgoto⟩
        · have hend : p + 1 + min off cs.length = p + min (off + 1) (cs.length + 1) := by omega
          refine Or.inl ⟨List.forall_mem_cons.2 ⟨hlow, hascii⟩, p :: reads, ?_⟩
          simp only [hone, Option.bind_eq_bind, Option.bind_some, hgoto, Option.pure_def, hend]
        · obtain ⟨d, hd, hhigh⟩ := hother
          refine Or.inr ⟨⟨d, List.mem_cons_of_mem _ hd, hhigh⟩, ?_⟩
          simp only [hone, Option.bind_eq_bind, Option.bind_some, hgoto, Option.bind_none]
      · refine Or.inr ⟨⟨c, List.mem_cons_self, hhigh⟩, ?_⟩
        simp only [hnone, Option.bind_eq_bind, Option.bind_none]

theorem goto_ascii (h : Holds mem p (utf8Text cs ++ [0])) (hne : ∀ b ∈ utf8Text cs, b ≠ 0)
    (hascii : ∀ c ∈ cs.take off, c.toNat < 128) : ∃ reads, stringGoto mem off p = some (p + min off cs.length, reads) := by
  rcases goto_cases off h hne with ⟨-, hgoto⟩ | ⟨⟨c, hmem, hhigh⟩, -⟩
  · exact hgoto
  · exact absurd (hascii c hmem) (not_lt.2 hhigh)

/-- a walk that has a result goes over ASCII characters only -/
theorem ascii_of_goto {r : ℕ × List ℕ} (h : Holds mem p (utf8Text cs ++ [0])) (hne : ∀ b ∈ utf8Text cs, b ≠ 0)
    (hr : stringGoto mem off p = some r) : ∀ c ∈ cs.take off, c.toNat < 128 := by
  rcases goto_cases off h hne with ⟨hascii, -⟩ | ⟨-, hnone⟩
  · exact hascii
  · cases hnone.symm.trans hr

theorem length_le_utf8Text (cs : List Char) : cs.length ≤ (utf8Text cs).length := by
  induction cs with
  | nil => exact le_rfl
  | cons c cs ih =>
    have hpos : 0 < (String.utf8EncodeChar c).length := by
      rw [String.length_utf8EncodeChar]
      exact c.utf8Size_pos
    rw [utf8Text_cons, List.length_append, List.length_cons]
    omega

theorem utf8Text_append (cs ds : List Char) : utf8Text (cs ++ ds) = utf8Text cs ++ utf8Text ds := List.flatMap_append

theorem length_utf8Text_ascii (h : ∀ c ∈ cs, c.toNat < 128) : (utf8Text cs).length = cs.length := by
  rw [utf8Text_ascii h, List.length_map]

/-- behind `k` ASCII characters stands the rest of the text -/
theorem holds_drop {k : ℕ} (h : Holds mem p (utf8Text cs ++ [0])) (hascii : ∀ c ∈ cs.take k, c.toNat < 128) :
    Holds mem (p + min k cs.length) (utf8Text (cs.drop k) ++ [0]) := by
  rw [← List.take_append_drop k cs, utf8Text_append, List.append_assoc, holds_append, length_utf8Text_ascii hascii,
    List.length_take] at h
  exact h.2

theorem nonzero_drop (hne : ∀ b ∈ utf8Text cs, b ≠ 0) (k : ℕ) : ∀ b ∈ utf8Text (cs.drop k), b ≠ 0 := by
  intro b hb
  apply hne b
  rw [← List.take_append_drop k cs, utf8Text_append]
  exact List.mem_append_right _ hb

end Goto

/-! ## Result -/

section Result

variable {s : StrState} {cs : List Char} {start maxCount : ℕ}

/-- the code points that a view is asked to cover -/
def asked (cs : List Char) (start maxCount : ℕ) : List Char :=
  (cs.drop (min start cs.length)).take (min maxCount (cs.length - min start cs.length))

/-- the view begins at code point `min start length`, is as large as the code points it is asked to cover and lies inside
of the text -/
def ViewRight (s : StrState) (cs : List Char) (start maxCount : ℕ) : Prop :=
  ∃ view, stringCreateView s start maxCount = some (.ok, view) ∧
    view.dataPtr = codeStart s cs (min start cs.length) ∧
    view.sizeInBytes = (utf8Text (asked cs start maxCount)).length ∧
    s.str.charBuf ≤ view.dataPtr ∧ view.dataPtr + view.sizeInBytes ≤ s.str.charBuf + (utf8Text cs).length

/-- what the code makes of ASCII characters: the view ends one code point before the last that was asked for, or at the
`NUL` -/
theorem createView_ascii (hc : Content s (utf8Text cs)) (hmax : 1 ≤ maxCount) (hmax' : maxCount < 2 ^ 32)
    (hstart : ∀ c ∈ cs.take start, c.toNat < 128) (hrest : ∀ c ∈ (cs.drop start).take (maxCount - 1), c.toNat < 128) :
    stringCreateView s start maxCount =
      some (.ok, ⟨s.str.charBuf + min start cs.length, min (maxCount - 1) (cs.length - start)⟩) := by
  obtain ⟨reads, hfirst⟩ := goto_ascii hc.holds hc.nonzero hstart
  obtain ⟨reads', hsecond⟩ := goto_ascii (holds_drop hc.holds hstart) (nonzero_drop hc.nonzero start) hrest
  rw [List.length_drop] at hsecond
  unfold stringCreateView stringCalcSubstr
  rw [sub32_of_le hmax hmax']
  simp only [hfirst, hsecond, Option.bind_eq_bind, Option.bind_some, Option.pure_def, Option.map_some,
    Nat.add_sub_cancel_left]

/-- a view that is made goes over ASCII characters only -/
theorem ascii_of_createView (hc : Content s (utf8Text cs)) (hmax : 1 ≤ maxCount) (hmax' : maxCount < 2 ^ 32)
    {r : NkErrorCode × NkStringView} (h : stringCreateView s start maxCount = some r) :
    (∀ c ∈ cs.take start, c.toNat < 128) ∧ ∀ c ∈ (cs.drop start).take (maxCount - 1), c.toNat < 128 := by
  obtain ⟨view, hview, -⟩ := Option.map_eq_some_iff.1 h
  obtain ⟨startPtr, hfirst, hview⟩ := Option.bind_eq_some_iff.1 hview
  obtain ⟨endPtr, hsecond, -⟩ := Option.bind_eq_some_iff.1 hview
  rw [sub32_of_le hmax hmax'] at hsecond
  have hstart := ascii_of_goto hc.holds hc.nonzero hfirst
  refine ⟨hstart, ?_⟩
  obtain ⟨reads, hfirst'⟩ := goto_ascii hc.holds hc.nonzero hstart
  obtain rfl : (s.str.charBuf + min start cs.length, reads) = startPtr := Option.some.inj (hfirst'.symm.trans hfirst)
  exact ascii_of_goto (holds_drop hc.holds hstart) (nonzero_drop hc.nonzero start) hsecond

theorem length_asked (cs : List Char) (start maxCount : ℕ) :
    (asked cs start maxCount).length = min maxCount (cs.length - start) := by
  unfold asked
  rw [List.length_take, List.length_drop]
  omega

/-- A view has the extent that was asked for exactly if the text is ASCII and has fewer than `maxCount` code points from
`start` on. -/
theorem view_iff (hc : Content s (utf8Text cs)) (hmax : 1 ≤ maxCount) (hmax' : maxCount < 2 ^ 32) :
    ViewRight s cs start maxCount ↔ (∀ c ∈ cs, c.toNat < 128) ∧ cs.length - start < maxCount := by
  constructor
  · rintro ⟨view, hview, -, hsize, -, -⟩
    obtain ⟨hstart, hrest⟩ := ascii_of_createView hc hmax hmax' hview
    have hmade := createView_ascii hc hmax hmax' hstart hrest
    have hsame := Option.some.inj (hmade.symm.trans hview)
    obtain rfl : _ = view := congrArg Prod.snd hsame
    -- a code point has a byte at least
    have hbytes := length_le_utf8Text (asked cs start maxCount)
    rw [← hsize, length_asked] at hbytes
    dsimp only at hbytes
    have hlt : cs.length - start < maxCount := by omega
    refine ⟨?_, hlt⟩
    intro c hmem
    rw [← List.take_append_drop start cs] at hmem
    rcases List.mem_append.1 hmem with hmem | hmem
    · exact hstart c hmem
    · apply hrest c
      rwa [List.take_of_length_le]
      rw [List.length_drop]
      omega
  · rintro ⟨hascii, hlt⟩
    have hstart : ∀ c ∈ cs.take start, c.toNat < 128 := fun c hmem => hascii c (List.mem_of_mem_take hmem)
    have hrest : ∀ c ∈ (cs.drop start).take (maxCount - 1), c.toNat < 128 :=
      fun c hmem => hascii c (List.mem_of_mem_drop (List.mem_of_mem_take hmem))
    refine ⟨_, createView_ascii hc hmax hmax' hstart hrest, ?_, ?_, Nat.le_add_right _ _, ?_⟩
    · rw [codeStart_ascii hascii (Nat.min_le_right _ _)]
    · have hcovered : ∀ c ∈ asked cs start maxCount, c.toNat < 128 :=
        fun c hmem => hascii c (List.mem_of_mem_drop (List.mem_of_mem_take hmem))
      rw [length_utf8Text_ascii hcovered, length_asked]
      dsimp only
      omega
    · rw [length_utf8Text_ascii hascii]
      dsimp only
      omega

/-- "B" of "AB", with room for one more code point -/
theorem view_rest : ViewRight twoChars ['A', 'B'] 1 2 := by
  apply (view_iff content_twoChars (by decide) (by decide)).2
  exact ⟨by simp, by decide⟩

/-- the view of one code point is empty -/
theorem view_broken : ¬ ∀ s cs start maxCount, Content s (utf8Text cs) → start < 2 ^ 32 → 1 ≤ maxCount →
    maxCount < 2 ^ 32 → ViewRight s cs start maxCount := by
  intro hall
  obtain ⟨view, hview, -, hsize, -⟩ := hall twoChars ['A', 'B'] 0 1 content_twoChars (by decide) (by decide) (by decide)
  have hempty : stringCreateView twoChars 0 1 = some (.ok, ⟨4096, 0⟩) := rfl
  obtain rfl : _ = view := congrArg Prod.snd (Option.some.inj (hempty.symm.trans hview))
  exact absurd hsize (by decide)

end Result

end Noriko.Dstruct
