/-
Moving through the code points of a string (`NkStringGetLength`, `NkStringAt` and `NkStringIterate` of
`dstruct/string.c`).

All three advance by a table of character sizes. Its index is a `char`, which is signed on the platform the code is
written for, so a byte from 0x80 on asks for an entry in front of the table; there is no result then. The functions list
the addresses of the bytes they read. `NkStringAt` compares the pointer with `'\0'` instead of the byte, so it never sees
the end of the text.

Navigation is exact for a text of ASCII characters and an offset up to its length, and for no other (`navigates_iff`).
-/
import Noriko.Dstruct.StringContent

namespace Noriko.Dstruct

open Lib

/-! ## The code -/

/-- `gl_c_Utf8CharSizes` -/
def utf8CharSizes : List ℕ :=
  List.replicate 128 1 ++ List.replicate 66 0 ++ List.replicate 30 2 ++ List.replicate 16 3 ++ List.replicate 5 4 ++
    List.replicate 11 0

/-- `__NkInt_String_CharSize`, if its index is one of the table -/
def charSize (encChar : UInt8) : Option ℕ :=
  if 0 ≤ encChar.toInt8.toInt then utf8CharSizes[encChar.toInt8.toInt.toNat]? else none

/-- `__NkInt_String_Goto`: the pointer and the addresses read -/
def stringGoto (mem : ℕ → UInt8) : ℕ → ℕ → Option (ℕ × List ℕ)
  | 0, u8Str => some (u8Str, [u8Str])
  | off + 1, u8Str =>
    if mem u8Str ≠ 0 then do
      let size ← charSize (mem u8Str)
      let r ← stringGoto mem off (u8Str + size)
      return (r.1, u8Str :: r.2)
    else some (u8Str, [u8Str])

/-- `__NkInt_String_Strlen`, with at most `rounds` rounds of its loop -/
def stringStrlen (mem : ℕ → UInt8) : ℕ → ℕ → ℕ → Option (ℕ × List ℕ)
  | rounds, strPtr, currLen =>
    if mem strPtr ≠ 0 then
      match rounds with
      | 0 => none
      | rounds + 1 => do
        let size ← charSize (mem strPtr)
        let r ← stringStrlen mem rounds (strPtr + size) (u32 (currLen + 1))
        return (r.1, strPtr :: r.2)
    else some (currLen, [strPtr])

/-- `NkStringGetLength` -/
def stringGetLength (s : StrState) (rounds : ℕ) : Option (ℕ × List ℕ) := stringStrlen s.mem rounds s.str.charBuf 0

/-- the loop of `NkStringAt`; no pointer for `NULL` -/
def atLoop (mem : ℕ → UInt8) : ℕ → ℕ → Option (Option ℕ × List ℕ)
  | 0, currIter => some (some currIter, [])
  | off + 1, currIter => do
    let size ← charSize (mem currIter)
    -- the pointer, not the byte, is compared with zero
    if currIter + size = 0 then return (none, [currIter])
    else
      let r ← atLoop mem off (currIter + size)
      return (r.1, currIter :: r.2)

/-- `NkStringAt` -/
def stringAt (s : StrState) (off : ℕ) : Option (Option ℕ × List ℕ) := atLoop s.mem off s.str.charBuf

/-- `NkStringIterate` -/
def stringIterate (mem : ℕ → UInt8) (strPtr : ℕ) : Option (Option ℕ × List ℕ) :=
  if mem strPtr = 0 then some (none, [strPtr])
  else (stringGoto mem 1 strPtr).map fun r => (some r.1, strPtr :: r.2)

/-- calls of `NkStringIterate` until it returns `NULL`, at most `rounds` of them: the pointers it was called with and the
addresses read -/
def iterateAll (mem : ℕ → UInt8) : ℕ → ℕ → Option (List ℕ × List ℕ)
  | 0, _ => none
  | rounds + 1, strPtr => do
    let r ← stringIterate mem strPtr
    match r.1 with
    | none => return ([strPtr], r.2)
    | some next =>
      let rest ← iterateAll mem rounds next
      return (strPtr :: rest.1, r.2 ++ rest.2)

/-! ## Character sizes -/

theorem toInt8_toInt (b : UInt8) : b.toInt8.toInt = if b.toNat < 128 then (b.toNat : ℤ) else b.toNat - 256 := by
  have hcond := BitVec.toInt_eq_toNat_cond b.toBitVec
  have hint : b.toInt8.toInt = b.toBitVec.toInt := rfl
  have hnat : b.toNat = b.toBitVec.toNat := rfl
  rw [hint, hcond, hnat]
  split_ifs <;> omega

theorem charSize_ascii {b : UInt8} (h : b.toNat < 128) : charSize b = some 1 := by
  unfold charSize
  rw [toInt8_toInt, if_pos h, if_pos (Int.natCast_nonneg _), Int.toNat_natCast]
  unfold utf8CharSizes
  simp only [List.append_assoc]
  rw [List.getElem?_append_left (by simpa using h), List.getElem?_replicate_of_lt h]

/-- a byte of a longer character asks for an entry in front of the table -/
theorem charSize_high {b : UInt8} (h : 128 ≤ b.toNat) : charSize b = none := by
  have hlt := b.toNat_lt
  unfold charSize
  rw [toInt8_toInt, if_neg (not_lt.2 h), if_neg (by omega)]

/-! ## Text -/

/-- the bytes of a text -/
def utf8Text (cs : List Char) : List UInt8 := cs.flatMap String.utf8EncodeChar

theorem utf8Text_cons (c : Char) (cs : List Char) : utf8Text (c :: cs) = String.utf8EncodeChar c ++ utf8Text cs :=
  List.flatMap_cons

theorem encode_ascii {c : Char} (h : c.toNat < 128) : String.utf8EncodeChar c = [UInt8.ofNat c.toNat] := by
  unfold String.utf8EncodeChar
  exact if_pos (Nat.lt_succ_iff.1 h)

/-- a character from 0x80 on starts with a byte from 0x80 on -/
theorem encode_high {c : Char} (h : 128 ≤ c.toNat) : ∃ b l, String.utf8EncodeChar c = b :: l ∧ 128 ≤ b.toNat := by
  have hval : ¬ c.val.toNat ≤ 0x7f := Nat.not_le.2 h
  unfold String.utf8EncodeChar
  dsimp only
  rw [if_neg hval]
  split_ifs
  · exact ⟨_, _, rfl, by rw [UInt8.toNat_ofNat']; omega⟩
  · exact ⟨_, _, rfl, by rw [UInt8.toNat_ofNat']; omega⟩
  · exact ⟨_, _, rfl, by rw [UInt8.toNat_ofNat']; omega⟩

/-! ## ASCII text -/

section Ascii

variable {mem : ℕ → UInt8} {p off n rounds : ℕ} {l : List UInt8}

theorem strlen_ascii (h : Holds mem p (l ++ [0])) (hl : ∀ b ∈ l, b ≠ 0 ∧ b.toNat < 128) (hn : n < 2 ^ 32) :
    stringStrlen mem l.length p n = some (u32 (n + l.length), List.range' p (l.length + 1)) := by
  induction l generalizing p n with
  | nil =>
    have hnul : mem p = 0 := (holds_cons.1 h).1
    unfold stringStrlen
    rw [if_neg (not_not.2 hnul), List.length_nil, Nat.add_zero, u32_of_lt hn]
    rfl
  | cons b l ih =>
    obtain ⟨hbyte, hrest⟩ := holds_cons.1 h
    obtain ⟨hne, hascii⟩ := hl b List.mem_cons_self
    have hlen : u32 (u32 (n + 1) + l.length) = u32 (n + (l.length + 1)) := by
      unfold u32
      omega
    unfold stringStrlen
    rw [hbyte, if_pos hne, List.length_cons]
    simp only [charSize_ascii hascii, Option.bind_eq_bind, Option.bind_some,
      ih hrest (fun b hb => hl b (List.mem_cons_of_mem _ hb)) (u32_lt _), Option.pure_def, hlen]
    rfl

theorem at_ascii (hp : 0 < p) (h : Holds mem p (l ++ [0])) (hl : ∀ b ∈ l, b.toNat < 128) (hoff : off ≤ l.length) :
    atLoop mem off p = some (some (p + off), List.range' p off) := by
  induction off generalizing p l with
  | zero => rfl
  | succ off ih =>
    cases l with
    | nil => cases hoff
    | cons b l =>
      obtain ⟨hbyte, hrest⟩ := holds_cons.1 h
      have hnext : atLoop mem off (p + 1) = some (some (p + 1 + off), List.range' (p + 1) off) :=
        ih (Nat.succ_pos p) hrest (fun b hb => hl b (List.mem_cons_of_mem _ hb)) (Nat.le_of_succ_le_succ hoff)
      unfold atLoop
      rw [hbyte]
      simp only [charSize_ascii (hl b List.mem_cons_self), Option.bind_eq_bind, Option.bind_some, Nat.succ_ne_zero,
        if_false, hnext, Option.pure_def]
      rw [Nat.add_right_comm p 1 off]
      rfl

theorem iterate_ascii (h : Holds mem p (l ++ [0])) (hl : ∀ b ∈ l, b ≠ 0 ∧ b.toNat < 128) :
    ∃ reads, iterateAll mem (l.length + 1) p = some (List.range' p (l.length + 1), reads) ∧
      ∀ a ∈ reads, p ≤ a ∧ a ≤ p + l.length := by
  induction l generalizing p with
  | nil =>
    have hnul : mem p = 0 := (holds_cons.1 h).1
    refine ⟨[p], ?_, by simp⟩
    unfold iterateAll stringIterate
    rw [if_pos hnul]
    rfl
  | cons b l ih =>
    obtain ⟨hbyte, hrest⟩ := holds_cons.1 h
    obtain ⟨hne, hascii⟩ := hl b List.mem_cons_self
    obtain ⟨reads, hnext, hreads⟩ := ih hrest fun b hb => hl b (List.mem_cons_of_mem _ hb)
    have hstep : stringIterate mem p = some (some (p + 1), [p, p, p + 1]) := by
      unfold stringIterate stringGoto
      rw [hbyte, if_neg hne, if_pos hne]
      simp only [charSize_ascii hascii, Option.bind_eq_bind, Option.bind_some, stringGoto, Option.pure_def, Option.map_some]
    refine ⟨[p, p, p + 1] ++ reads, ?_, fun a ha => ?_⟩
    · unfold iterateAll
      simp only [hstep, Option.bind_eq_bind, Option.bind_some, List.length_cons, hnext, Option.pure_def]
      rfl
    · simp only [List.cons_append, List.nil_append, List.mem_cons] at ha
      rw [List.length_cons]
      rcases ha with rfl | rfl | rfl | ha
      · omega
      · omega
      · omega
      · have := hreads a ha
        omega

end Ascii

/-! ## Any text -/

section Text

variable {mem : ℕ → UInt8} {p off n rounds : ℕ} {cs : List Char}

/-- the first character of a text at an address: an ASCII character is one byte, and another has no size in the table -/
theorem charSize_head {c : Char} (h : Holds mem p (utf8Text (c :: cs) ++ [0])) (hne : ∀ b ∈ utf8Text (c :: cs), b ≠ 0) :
    mem p ≠ 0 ∧ ((c.toNat < 128 ∧ charSize (mem p) = some 1 ∧ Holds mem (p + 1) (utf8Text cs ++ [0])) ∨
      (128 ≤ c.toNat ∧ charSize (mem p) = none)) := by
  rw [utf8Text_cons, List.append_assoc] at h
  rw [utf8Text_cons] at hne
  rcases lt_or_ge c.toNat 128 with hlow | hhigh
  · rw [encode_ascii hlow] at h hne
    obtain ⟨hbyte, hrest⟩ := holds_cons.1 h
    rw [hbyte]
    refine ⟨hne _ (by simp), Or.inl ⟨hlow, charSize_ascii ?_, hrest⟩⟩
    rw [UInt8.toNat_ofNat']
    omega
  · obtain ⟨b, l, hcode, hb⟩ := encode_high hhigh
    rw [hcode] at h hne
    have hbyte : mem p = b := (holds_cons.1 h).1
    rw [hbyte]
    exact ⟨hne b (by simp), Or.inr ⟨hhigh, charSize_high hb⟩⟩

/-- the length of a text with another character is not found -/
theorem ascii_of_strlen {r : ℕ × List ℕ} (h : Holds mem p (utf8Text cs ++ [0])) (hne : ∀ b ∈ utf8Text cs, b ≠ 0)
    (hr : stringStrlen mem rounds p n = some r) : ∀ c ∈ cs, c.toNat < 128 := by
  induction cs generalizing p n rounds r with
  | nil => simp
  | cons c cs ih =>
    obtain ⟨hbyte, hhead⟩ := charSize_head h hne
    rw [utf8Text_cons] at hne
    unfold stringStrlen at hr
    rw [if_pos hbyte] at hr
    cases rounds with
    | zero => cases hr
    | succ rounds =>
      obtain ⟨size, hsize, hr⟩ := Option.bind_eq_some_iff.1 hr
      obtain ⟨r', hr', -⟩ := Option.bind_eq_some_iff.1 hr
      rcases hhead with ⟨hlow, hone, hrest⟩ | ⟨-, hnone⟩
      · obtain rfl : 1 = size := Option.some.inj (hone.symm.trans hsize)
        intro d hd
        rcases List.mem_cons.1 hd with rfl | hd
        · exact hlow
        · exact ih hrest (fun b hb => hne b (List.mem_append_right _ hb)) hr' d hd
      · cases hnone.symm.trans hsize

/-- the length is counted in 32 bits -/
theorem strlen_lt {r : ℕ × List ℕ} (hn : n < 2 ^ 32) (hr : stringStrlen mem rounds p n = some r) : r.1 < 2 ^ 32 := by
  induction rounds generalizing p n r with
  | zero =>
    unfold stringStrlen at hr
    split_ifs at hr
    obtain rfl := Option.some.inj hr
    exact hn
  | succ rounds ih =>
    unfold stringStrlen at hr
    split_ifs at hr
    · obtain ⟨size, -, hr⟩ := Option.bind_eq_some_iff.1 hr
      obtain ⟨r', hr', hr⟩ := Option.bind_eq_some_iff.1 hr
      obtain rfl := Option.some.inj hr
      have hnext := ih (u32_lt _) hr'
      exact hnext
    · obtain rfl := Option.some.inj hr
      exact hn

/-- a pointer that is not `NULL` never becomes `NULL` -/
theorem at_ne_null {r : Option ℕ × List ℕ} (hp : 0 < p) (h : atLoop mem off p = some r) : r.1 ≠ none := by
  induction off generalizing p r with
  | zero =>
    obtain rfl := Option.some.inj h
    exact Option.some_ne_none _
  | succ off ih =>
    obtain ⟨size, -, h⟩ := Option.bind_eq_some_iff.1 h
    rw [if_neg (by omega)] at h
    obtain ⟨r', hr', h⟩ := Option.bind_eq_some_iff.1 h
    obtain rfl := Option.some.inj h
    have hnext := ih (by omega) hr'
    exact hnext

theorem utf8Text_ascii (h : ∀ c ∈ cs, c.toNat < 128) : utf8Text cs = cs.map fun c => UInt8.ofNat c.toNat := by
  induction cs with
  | nil => rfl
  | cons c cs ih =>
    rw [utf8Text_cons, encode_ascii (h c List.mem_cons_self), ih fun d hd => h d (List.mem_cons_of_mem _ hd)]
    rfl

end Text

/-! ## Result -/

section Result

variable {s : StrState} {cs : List Char} {off : ℕ}

/-- the address of code point `i`, and of the `NUL` behind the last one -/
def codeStart (s : StrState) (cs : List Char) (i : ℕ) : ℕ := s.str.charBuf + (utf8Text (cs.take i)).length

/-- nothing is read but the text and its `NUL` -/
def InText (s : StrState) (cs : List Char) (reads : List ℕ) : Prop :=
  ∀ a ∈ reads, s.str.charBuf ≤ a ∧ a ≤ s.str.charBuf + (utf8Text cs).length

/-- the length is the number of code points, an offset leads to its code point or to `NULL`, and the iteration comes to
every code point once and to the `NUL`, where it ends -/
structure Navigates (s : StrState) (cs : List Char) (off : ℕ) : Prop where
  length : ∃ rounds reads, stringGetLength s rounds = some (cs.length, reads) ∧ InText s cs reads
  at_ : ∃ r reads, stringAt s off = some (r, reads) ∧ InText s cs reads ∧
    (off < cs.length → r = some (codeStart s cs off)) ∧ (cs.length < off → r = none)
  iterate : ∃ rounds reads, iterateAll s.mem rounds s.str.charBuf =
    some ((List.range (cs.length + 1)).map (codeStart s cs), reads) ∧ InText s cs reads

theorem codeStart_ascii (h : ∀ c ∈ cs, c.toNat < 128) {i : ℕ} (hi : i ≤ cs.length) :
    codeStart s cs i = s.str.charBuf + i := by
  unfold codeStart
  rw [utf8Text_ascii fun c hc => h c (List.mem_of_mem_take hc), List.length_map, List.length_take, Nat.min_eq_left hi]

theorem navigates_of_ascii (hp : 0 < s.str.charBuf) (hc : Content s (utf8Text cs)) (h : ∀ c ∈ cs, c.toNat < 128)
    (hlen : cs.length < 2 ^ 32) (hoff : off ≤ cs.length) : Navigates s cs off := by
  have hbytes := utf8Text_ascii h
  have hbytelen : (utf8Text cs).length = cs.length := by
    rw [hbytes, List.length_map]
  have hl : ∀ b ∈ utf8Text cs, b ≠ 0 ∧ b.toNat < 128 := by
    intro b hb
    refine ⟨hc.nonzero b hb, ?_⟩
    rw [hbytes] at hb
    obtain ⟨c, hcs, rfl⟩ := List.mem_map.1 hb
    rw [UInt8.toNat_ofNat']
    have := h c hcs
    omega
  have hrange : ∀ n ≤ cs.length + 1, InText s cs (List.range' s.str.charBuf n) := by
    intro n hn a ha
    rw [List.mem_range'_1] at ha
    omega
  refine ⟨?_, ?_, ?_⟩
  · have hstrlen := strlen_ascii hc.holds hl (by decide : 0 < 2 ^ 32)
    rw [Nat.zero_add, hbytelen, u32_of_lt hlen] at hstrlen
    exact ⟨_, _, hstrlen, hrange _ le_rfl⟩
  · have hoff' : off ≤ (utf8Text cs).length := by rwa [hbytelen]
    have hat := at_ascii hp hc.holds (fun b hb => (hl b hb).2) hoff'
    refine ⟨_, _, hat, hrange off (by omega), fun hlt => ?_, fun hgt => absurd hgt (not_lt.2 hoff)⟩
    rw [codeStart_ascii h hlt.le]
  · obtain ⟨reads, hiter, hreads⟩ := iterate_ascii hc.holds hl
    have hvisited : (List.range (cs.length + 1)).map (codeStart s cs) = List.range' s.str.charBuf (cs.length + 1) := by
      rw [List.range'_eq_map_range]
      refine List.map_congr_left fun i hi => ?_
      exact codeStart_ascii h (Nat.lt_succ_iff.1 (List.mem_range.1 hi))
    rw [hbytelen, ← hvisited] at hiter
    exact ⟨_, reads, hiter, hreads⟩

/-- Navigation is exact for ASCII text and offsets up to its length, and for no other. -/
theorem navigates_iff (hp : 0 < s.str.charBuf) (hc : Content s (utf8Text cs)) :
    Navigates s cs off ↔ (∀ c ∈ cs, c.toNat < 128) ∧ cs.length < 2 ^ 32 ∧ off ≤ cs.length := by
  constructor
  · rintro ⟨⟨rounds, reads, hlength, -⟩, ⟨r, reads', hat, -, -, hnull⟩, -⟩
    refine ⟨ascii_of_strlen hc.holds hc.nonzero hlength, strlen_lt (by decide : 0 < 2 ^ 32) hlength, ?_⟩
    by_contra hgt
    exact at_ne_null hp hat (hnull (not_le.1 hgt))
  · rintro ⟨hascii, hlen, hoff⟩
    exact navigates_of_ascii hp hc hascii hlen hoff

/-- a string that holds "AB" -/
def twoChars : StrState := ⟨⟨3, 2, 4096⟩, ⟨4096, 3⟩, fun a => cstr [65, 66] (a - 4096)⟩

theorem content_twoChars : Content twoChars (utf8Text ['A', 'B']) := by
  have hbytes : utf8Text ['A', 'B'] = [65, 66] := rfl
  rw [hbytes]
  exact ⟨rfl, by decide,
    holds_cons.2 ⟨by decide, holds_cons.2 ⟨by decide, holds_cons.2 ⟨by decide, holds_nil _ _⟩⟩⟩, by simp⟩

theorem navigates_twoChars : Navigates twoChars ['A', 'B'] 1 := by
  exact (navigates_iff (by decide) content_twoChars).2 ⟨by simp, by decide, by decide⟩

/-- a string that holds "é" -/
def accented : StrState := ⟨⟨3, 2, 4096⟩, ⟨4096, 3⟩, fun a => cstr [0xC3, 0xA9] (a - 4096)⟩

/-- the size of "é" is looked up in front of the table -/
theorem navigates_broken : ¬ ∀ s cs off, 0 < s.str.charBuf → Content s (utf8Text cs) → off < 2 ^ 32 → Navigates s cs off := by
  intro hall
  have hbytes : utf8Text ['é'] = [0xC3, 0xA9] := rfl
  have hcontent : Content accented (utf8Text ['é']) := by
    rw [hbytes]
    exact ⟨rfl, by decide,
      holds_cons.2 ⟨by decide, holds_cons.2 ⟨by decide, holds_cons.2 ⟨by decide, holds_nil _ _⟩⟩⟩, by simp⟩
  obtain ⟨rounds, reads, hlength, -⟩ := (hall accented ['é'] 0 (by decide) hcontent (by decide)).length
  have hascii := ascii_of_strlen hcontent.holds hcontent.nonzero hlength 'é' List.mem_cons_self
  exact absurd hascii (by decide)

end Result

end Noriko.Dstruct
