/-
The content of a string: what `NkStringJoin` appends and what `NkStringCreate` fills in.

The content is the text before the first `NUL`; the pointer of the string must be that of its block, and the block must
reach past the `NUL`. A join writes at `currLen` and copies one byte more than it counts, so it appends exactly the text
that was asked for if `currLen` is where the content ends, the text is joined whole, and the buffer stays or is enlarged
in place (`Appendable`). `NkStringCreate` counts its `NUL` in `currLen`, so a string created from a text is not in that
state; `joins_append` is about all runs whose joins are.

`NkStringCreate` starts copy `i` at index `i * count` instead of `i * strlen`. The content is right only if both agree
(`create_iff`), and its own terminator is written behind the block.
-/
import Noriko.Dstruct.String

namespace Noriko.Dstruct

open Lib

/-! ## Content -/

/-- the `NUL`-terminated content of a string -/
structure Content (s : StrState) (text : List UInt8) : Prop where
  ptr : s.str.charBuf = s.block.addr
  room : text.length < s.block.size
  holds : Holds s.mem s.str.charBuf (text ++ [0])
  nonzero : ∀ b ∈ text, b ≠ 0

/-- the first `NUL` is at index `k` -/
def EndsAt (s : StrState) (k : ℕ) : Prop :=
  s.mem (s.str.charBuf + k) = 0 ∧ ∀ j < k, s.mem (s.str.charBuf + j) ≠ 0

section Content

variable {s : StrState} {text : List UInt8}

theorem Content.byte (h : Content s text) {k : ℕ} (hk : k < text.length) : s.mem (s.str.charBuf + k) ≠ 0 := by
  have hbyte := h.holds k (by rw [List.length_append]; omega)
  rw [List.getElem_append_left hk] at hbyte
  rw [hbyte]
  exact h.nonzero _ (List.getElem_mem hk)

theorem Content.nul (h : Content s text) : s.mem (s.str.charBuf + text.length) = 0 :=
  (holds_cons.1 (holds_append.1 h.holds).2).1

theorem Content.endsAt_iff (h : Content s text) {k : ℕ} : EndsAt s k ↔ k = text.length := by
  constructor
  · rintro ⟨hnul, hbefore⟩
    rcases lt_trichotomy k text.length with hlt | heq | hgt
    · exact absurd hnul (h.byte hlt)
    · exact heq
    · exact absurd h.nul (hbefore _ hgt)
  · rintro rfl
    exact ⟨h.nul, fun j hj => h.byte hj⟩

/-- what stands before the first `NUL` is the content -/
theorem Content.eq_of_holds (h : Content s text) {other : List UInt8} (hholds : Holds s.mem s.str.charBuf (other ++ [0]))
    (hother : ∀ b ∈ other, b ≠ 0) : other = text := by
  obtain ⟨hbytes, hnul⟩ := holds_append.1 hholds
  have hends : EndsAt s other.length := by
    refine ⟨(holds_cons.1 hnul).1, fun j hj => ?_⟩
    rw [hbytes j hj]
    exact hother _ (List.getElem_mem hj)
  have hlen := h.endsAt_iff.1 hends
  refine List.ext_getElem hlen fun k hk hk' => ?_
  rw [← hbytes k hk, (holds_append.1 h.holds).1 k hk']

end Content

/-! ## Joining -/

/-- a text without `NUL`, and a length that asks for all of it or for a part -/
def JoinInput (_ : StrState) : StrOp → Prop
  | .join elemStr strLen _ => (∀ b ∈ elemStr, b ≠ 0) ∧ strLen ≤ uint32Max ∧ (strLen = uint32Max ∨ strLen ≤ elemStr.length)
  | .clear => True

/-- the bytes a join is asked to append -/
def joinPart (elemStr : List UInt8) (strLen : ℕ) : List UInt8 :=
  if strLen = uint32Max then elemStr else elemStr.take strLen

/-- a join that succeeds appends what it was asked for, and one that has nothing to do keeps the content -/
def JoinAppends (s : StrState) : StrOp → Prop
  | .join elemStr strLen heap => ∀ old, Content s old →
      ((stringJoin s elemStr strLen heap).code = .ok →
        Content (stringJoin s elemStr strLen heap).state (old ++ joinPart elemStr strLen)) ∧
      ((stringJoin s elemStr strLen heap).code = .noOperation → Content (stringJoin s elemStr strLen heap).state old)
  | .clear => True

/-- there is nothing to append, or the length would wrap, or no bytes are asked for and the content ends before `currLen`,
or `currLen` is where it ends and the buffer is kept -/
def Appendable (s : StrState) : StrOp → Prop
  | .join elemStr strLen heap => elemStr = [] ∨ uint32Max < s.str.currLen + elemStrlen elemStr strLen ∨
      (strLen = 0 ∧ ∃ k < s.str.currLen, s.mem (s.str.charBuf + k) = 0) ∨
      (EndsAt s s.str.currLen ∧ KeepsBuffer s elemStr strLen heap)
  | .clear => True

/-- what the code relies on: the pointer is that of the block, which has the size it believes, and `currLen` is no more -/
structure Buffered (s : StrState) : Prop where
  ptr : s.str.charBuf = s.block.addr
  size : s.str.currSize ≤ s.block.size
  width : s.str.currSize < 2 ^ 32
  len : s.str.currLen ≤ s.str.currSize

section Join

variable {s t : StrState} {elemStr old : List UInt8} {strLen n : ℕ} {heap : Option Moved}

/-- the outcome of a join: refused, or appended to the buffer that the resize leaves -/
theorem stringJoin_cases (s : StrState) (htext : ∀ b ∈ elemStr, b ≠ 0) (strLen : ℕ) (heap : Option Moved) :
    (elemStr = [] ∧ stringJoin s elemStr strLen heap = ⟨.noOperation, s, []⟩) ∨
      (elemStr ≠ [] ∧ uint32Max - s.str.currLen < elemStrlen elemStr strLen ∧
        stringJoin s elemStr strLen heap = ⟨.unsignedWrapAround, s, []⟩) ∨
      (elemStr ≠ [] ∧ ¬ uint32Max - s.str.currLen < elemStrlen elemStr strLen ∧
        (stringJoin s elemStr strLen heap).code = .ok) := by
  unfold stringJoin
  by_cases hempty : elemStr = []
  · rw [if_pos ((cstr_eq_zero htext (Nat.zero_le _)).2 (by rw [hempty]; rfl))]
    exact Or.inl ⟨hempty, rfl⟩
  · have hne : elemStr.length ≠ 0 := fun h0 => hempty (List.length_eq_zero_iff.1 h0)
    rw [if_neg (fun h0 => hne ((cstr_eq_zero htext (Nat.zero_le _)).1 h0).symm)]
    by_cases hwrap : uint32Max - s.str.currLen < elemStrlen elemStr strLen
    · rw [if_pos hwrap]
      exact Or.inr (Or.inl ⟨hempty, hwrap, rfl⟩)
    · rw [if_neg hwrap]
      exact Or.inr (Or.inr ⟨hempty, hwrap, rfl⟩)

/-- a whole text and its `NUL` behind what a buffer holds -/
theorem holds_appended (ht : Holds t.mem t.str.charBuf old) (elemStr : List UInt8) :
    Holds (appended t old.length elemStr.length elemStr).state.mem t.str.charBuf (old ++ elemStr ++ [0]) := by
  rw [List.append_assoc, holds_append]
  refine ⟨ht.blit_after le_rfl _ _, holds_blit (by simp) fun k hk => ?_⟩
  unfold cstr
  rw [List.length_append, List.length_singleton] at hk
  by_cases hlt : k < elemStr.length
  · rw [List.getElem_append_left hlt, List.getD_eq_getElem _ _ hlt]
  · rw [List.getElem_append_right (not_lt.1 hlt), List.getD_eq_default _ _ (not_lt.1 hlt), List.getElem_singleton]

/-- appending a whole text where the content ends -/
theorem Content.appended (ht : Holds t.mem t.str.charBuf old) (hold : ∀ b ∈ old, b ≠ 0) (htext : ∀ b ∈ elemStr, b ≠ 0)
    (hptr : t.str.charBuf = t.block.addr) (hroom : old.length + elemStr.length < t.block.size) :
    Content (appended t old.length elemStr.length elemStr).state (old ++ elemStr) := by
  refine ⟨hptr, ?_, holds_appended ht elemStr, ?_⟩
  · rw [List.length_append]
    exact hroom
  · intro b hb
    rcases List.mem_append.1 hb with hb | hb
    · exact hold b hb
    · exact htext b hb

/-- the buffer a join appends to -/
def joinBuffer (s : StrState) (req : ℕ) (heap : Option Moved) : StrState :=
  if req > s.str.currSize then joinResize s req heap else s

/-- a join that is not refused -/
theorem stringJoin_ok (hne : elemStr ≠ []) (htext : ∀ b ∈ elemStr, b ≠ 0) (hn : n = elemStrlen elemStr strLen)
    (hwrap : ¬ uint32Max - s.str.currLen < n) (hlen : s.str.currLen ≤ uint32Max) (hbytes : n < uint32Max) :
    stringJoin s elemStr strLen heap =
      appended (joinBuffer s (s.str.currLen + n) heap) s.str.currLen n elemStr := by
  have hmax : uint32Max = 2 ^ 32 - 1 := rfl
  have hzero : ¬ cstr elemStr 0 = 0 := by
    intro h0
    exact hne (List.length_eq_zero_iff.1 ((cstr_eq_zero htext (Nat.zero_le _)).1 h0).symm)
  have hreq : u32 (s.str.currLen + n) = s.str.currLen + n := u32_of_lt (by omega)
  have hcopy : u32 (n + 1) = n + 1 := u32_of_lt (by omega)
  unfold stringJoin
  rw [if_neg hzero, ← hn, if_neg hwrap]
  dsimp only
  rw [hreq, hcopy]
  rfl

/-- a buffer that has room or is enlarged in place -/
def HasRoom (s : StrState) (req : ℕ) (heap : Option Moved) : Prop :=
  req < s.str.currSize ∨
    (s.str.currSize < req ∧ req < grownSize req ∧ ∃ f, heap = some f ∧ f.addr = s.block.addr)

theorem joinBuffer_buffered (hs : Buffered s) {req : ℕ} (hroom : HasRoom s req heap) :
    (joinBuffer s req heap).str.charBuf = (joinBuffer s req heap).block.addr ∧
      req < (joinBuffer s req heap).str.currSize ∧
      (joinBuffer s req heap).str.currSize ≤ (joinBuffer s req heap).block.size ∧
      (joinBuffer s req heap).str.currSize < 2 ^ 32 := by
  unfold joinBuffer
  rcases hroom with hlt | ⟨hbig, hgrown, f, rfl, haddr⟩
  · rw [if_neg (by omega)]
    exact ⟨hs.ptr, hlt, hs.size, hs.width⟩
  · rw [if_pos hbig]
    exact ⟨hs.ptr.trans haddr.symm, hgrown, le_rfl, u32_lt _⟩

/-- such a buffer still holds the old content -/
theorem joinBuffer_holds (hs : Buffered s) (hold : Content s old) {req : ℕ} (hreq : old.length ≤ req)
    (hroom : HasRoom s req heap) : Holds (joinBuffer s req heap).mem (joinBuffer s req heap).str.charBuf old := by
  have hholds := (holds_append.1 hold.holds).1
  have hblock := hold.room
  unfold joinBuffer
  rcases hroom with hlt | ⟨hbig, hgrown, f, rfl, haddr⟩
  · rw [if_neg (by omega)]
    exact hholds
  · rw [if_pos hbig]
    -- the block is copied to where it is
    simp only [joinResize]
    rw [haddr, hs.ptr]
    rw [hs.ptr] at hholds
    exact holds_blit (by omega) hholds

/-- what is appended to such a buffer fits -/
theorem Buffered.appended (hs : Buffered s) {len : ℕ} (hroom : HasRoom s (len + n) heap) (elemStr : List UInt8) :
    Buffered (appended (joinBuffer s (len + n) heap) len n elemStr).state := by
  obtain ⟨hptr, hlen, hsize, hwidth⟩ := joinBuffer_buffered hs hroom
  exact ⟨hptr, hsize, hwidth, hlen.le⟩

theorem Buffered.currLen_le (hs : Buffered s) : s.str.currLen ≤ uint32Max := by
  have hlen := hs.len
  have hwidth := hs.width
  unfold uint32Max
  omega

theorem HasRoom.bytes_lt (hs : Buffered s) {len : ℕ} (hroom : HasRoom s (len + n) heap) : n < uint32Max := by
  have hwidth := hs.width
  have hmax : uint32Max = 2 ^ 32 - 1 := rfl
  rcases hroom with hlt | ⟨-, hgrown, -⟩
  · omega
  · have hcut := u32_lt ((len + n) * 3 / 2)
    unfold grownSize at hgrown
    omega

/-- a join that is not refused and may be made: it asks for no bytes behind the content, or appends a whole text to it -/
theorem Appendable.cases (hs : Buffered s) (hne : elemStr ≠ [])
    (hwrap : ¬ uint32Max - s.str.currLen < elemStrlen elemStr strLen) (h : Appendable s (.join elemStr strLen heap)) :
    (strLen = 0 ∧ ∃ k < s.str.currLen, s.mem (s.str.charBuf + k) = 0) ∨
      (EndsAt s s.str.currLen ∧ elemStrlen elemStr strLen = elemStr.length ∧
        HasRoom s (s.str.currLen + elemStrlen elemStr strLen) heap) := by
  have hlen := hs.currLen_le
  rcases h with h | h | h | ⟨hends, h | h | h⟩
  · exact absurd h hne
  · omega
  · exact Or.inl h
  · exact absurd h hne
  · omega
  · exact Or.inr ⟨hends, h⟩

/-- a join of no bytes writes one byte at `currLen` -/
theorem stringJoin_zero (hs : Buffered s) (hne : elemStr ≠ []) (htext : ∀ b ∈ elemStr, b ≠ 0) (heap : Option Moved) :
    stringJoin s elemStr 0 heap = appended s s.str.currLen 0 elemStr := by
  have hlen := hs.currLen_le
  have hn : 0 = elemStrlen elemStr 0 := rfl
  rw [stringJoin_ok hne htext hn (by omega) hlen (by decide), Nat.add_zero, joinBuffer, if_neg]
  exact not_lt.2 hs.len

theorem join_appends (hs : Buffered s) (hin : JoinInput s (.join elemStr strLen heap))
    (happ : Appendable s (.join elemStr strLen heap)) : JoinAppends s (.join elemStr strLen heap) := by
  intro old hold
  obtain ⟨htext, -, hpart⟩ := hin
  rcases stringJoin_cases s htext strLen heap with ⟨-, hjoin⟩ | ⟨-, -, hjoin⟩ | ⟨hne, hwrap, hcode⟩
  · rw [hjoin]
    exact ⟨fun hc => (by cases hc), fun _ => hold⟩
  · rw [hjoin]
    exact ⟨fun hc => (by cases hc), fun hc => (by cases hc)⟩
  · refine ⟨fun _ => ?_, fun hc => by rw [hcode] at hc; cases hc⟩
    rcases happ.cases hs hne hwrap with ⟨rfl, k, hk, hnul⟩ | ⟨hends, hwhole, hroom⟩
    · -- the content ends before the byte that is written
      have hend : old.length ≤ k := by
        by_contra hlt
        exact hold.byte (not_le.1 hlt) hnul
      have hnone : joinPart elemStr 0 = [] := by
        rw [joinPart, if_neg (by decide), List.take_zero]
      rw [hnone, List.append_nil, stringJoin_zero hs hne htext]
      refine ⟨hold.ptr, hold.room, hold.holds.blit_after ?_ _ _, hold.nonzero⟩
      rw [List.length_append, List.length_singleton]
      exact Nat.add_le_add_left (hend.trans_lt hk) _
    · have hlen : s.str.currLen = old.length := hold.endsAt_iff.1 hends
      have hall : joinPart elemStr strLen = elemStr := by
        unfold joinPart
        unfold elemStrlen at hwhole
        split_ifs at hwhole ⊢ with hmax
        · rfl
        · rw [hwhole, List.take_length]
      rw [hwhole] at hroom hwrap
      obtain ⟨hptr, hreq, hsize, -⟩ := joinBuffer_buffered hs hroom
      rw [hall, stringJoin_ok hne htext hwhole.symm hwrap hs.currLen_le (hroom.bytes_lt hs), hlen]
      rw [hlen] at hroom hptr hreq hsize
      exact Content.appended (joinBuffer_holds hs hold (Nat.le_add_right _ _) hroom) hold.nonzero htext hptr
        (hreq.trans_le hsize)

/-- a step of a run whose joins may be made keeps the buffer -/
theorem Buffered.step (hs : Buffered s) {o : StrOp} (hin : JoinInput s o) (happ : Appendable s o) :
    Buffered (strExec s o).state := by
  cases o with
  | clear => exact ⟨hs.ptr, hs.size, hs.width, Nat.zero_le _⟩
  | join elemStr strLen heap =>
    obtain ⟨htext, -, -⟩ := hin
    simp only [strExec]
    rcases stringJoin_cases s htext strLen heap with ⟨-, hjoin⟩ | ⟨-, -, hjoin⟩ | ⟨hne, hwrap, -⟩
    · rwa [hjoin]
    · rwa [hjoin]
    · rcases happ.cases hs hne hwrap with ⟨rfl, -⟩ | ⟨-, -, hroom⟩
      · rw [stringJoin_zero hs hne htext]
        exact ⟨hs.ptr, hs.size, hs.width, hs.len⟩
      · rw [stringJoin_ok hne htext rfl hwrap hs.currLen_le (hroom.bytes_lt hs)]
        exact hs.appended hroom elemStr

end Join

theorem fillBuffer_buffered (fromStr : Option (List UInt8)) (count addr : ℕ) (mem : ℕ → UInt8) :
    Buffered (fillBuffer fromStr count addr mem).state := by
  refine ⟨rfl, Nat.mod_le _ _, u32_lt _, ?_⟩
  cases fromStr with
  | none => exact Nat.zero_le _
  | some text => exact le_rfl

section Create

variable {text : List UInt8} {count addr k : ℕ} {mem : ℕ → UInt8}

theorem bufSize_of_lt {len : ℕ} (h : len * count + 1 < 2 ^ 64) : u64 (u64 (len * count) + 1) = len * count + 1 := by
  have hprod : u64 (len * count) = len * count := u64_of_lt (by omega)
  rw [hprod, u64_of_lt h]

/-- a byte of the new buffer: the copies that reach it decide, and without one it is zero -/
theorem fillBuffer_byte {P : UInt8 → Prop} (hcount : 0 < count) (hsize : text.length * count + 1 < 2 ^ 32)
    (hk : k ≤ text.length * count)
    (hsrc : ∀ i < count, u32 (i * count) ≤ k → k < u32 (i * count) + text.length → P (cstr text (k - u32 (i * count))))
    (h : P 0 ∨ ∃ i < count, u32 (i * count) ≤ k ∧ k < u32 (i * count) + text.length) :
    P ((fillBuffer (some text) count addr mem).state.mem (addr + k)) := by
  have hbuf : u64 (u64 (text.length * count) + 1) = text.length * count + 1 := bufSize_of_lt (by omega)
  have hcopy : u64 (2 ^ 64 - 1 + (text.length * count + 1)) / count = text.length := by
    have hwrap : u64 (2 ^ 64 - 1 + (text.length * count + 1)) = text.length * count := by
      unfold u64
      omega
    rw [hwrap, Nat.mul_div_cancel _ hcount]
  simp only [fillBuffer, hbuf, hcopy]
  have hlast : ¬ (addr + (text.length * count + 1) ≤ addr + k ∧ addr + k < addr + (text.length * count + 1) + 1) := by
    omega
  have hzero : blit mem addr (fun _ => 0) (text.length * count + 1) (addr + k) = 0 := if_pos ⟨by omega, by omega⟩
  unfold blit at hzero ⊢
  rw [if_neg hlast]
  refine foldl_blit (upto 0 count) (fun i hi h1 h2 => ?_) ?_
  · have hshift : addr + k - (addr + u32 (i * count)) = k - u32 (i * count) := by omega
    rw [hshift]
    exact hsrc i (mem_upto.1 hi).2 (by omega) (by omega)
  · rw [hzero]
    refine h.imp_right ?_
    rintro ⟨i, hi, h1, h2⟩
    exact ⟨i, mem_upto.2 ⟨Nat.zero_le i, hi⟩, by omega, by omega⟩

theorem fillBuffer_block (hsize : text.length * count + 1 < 2 ^ 32) :
    (fillBuffer (some text) count addr mem).state.block = ⟨addr, text.length * count + 1⟩ := by
  have hbuf : u64 (u64 (text.length * count) + 1) = text.length * count + 1 := bufSize_of_lt (by omega)
  simp only [fillBuffer, hbuf]

theorem length_repeated (text : List UInt8) (count : ℕ) :
    (List.replicate count text).flatten.length = text.length * count := by
  rw [List.length_flatten, List.map_replicate, List.sum_replicate, smul_eq_mul, Nat.mul_comm]

theorem mem_repeated {b : UInt8} (h : b ∈ (List.replicate count text).flatten) : b ∈ text := by
  obtain ⟨l, hl, hb⟩ := List.mem_flatten.1 h
  rwa [List.eq_of_mem_replicate hl] at hb

/-- copies that start one text length apart fill the buffer -/
theorem content_of_offsets (htext : ∀ b ∈ text, b ≠ 0) (hcount : 0 < count) (hsize : text.length * count + 1 < 2 ^ 32)
    (hoff : ∀ i < count, u32 (i * count) = i * text.length) :
    Content (fillBuffer (some text) count addr mem).state (List.replicate count text).flatten := by
  refine ⟨rfl, ?_, holds_append.2 ⟨?_, holds_cons.2 ⟨?_, holds_nil _ _⟩⟩, fun b hb => htext b (mem_repeated hb)⟩
  · rw [fillBuffer_block hsize, length_repeated]
    exact Nat.lt_succ_self _
  · rw [holds_flatten_replicate]
    intro i hi j hj
    have hend : i * text.length + j < text.length * count := by
      have hle := Nat.mul_le_mul_right text.length hi
      rw [Nat.succ_mul, Nat.mul_comm count] at hle
      omega
    have hbyte : cstr text j = text[j] := List.getD_eq_getElem _ _ hj
    rw [← hbyte, Nat.add_assoc]
    refine fillBuffer_byte (P := fun b => b = cstr text j) hcount hsize hend.le (fun i' hi' h1 h2 => ?_) (Or.inr ⟨i, hi, ?_⟩)
    · rw [hoff i' hi'] at h1 h2 ⊢
      -- the copy that reaches the byte is copy i
      have hsame : i' = i := by
        have hlow : i' * text.length < (i + 1) * text.length := by
          rw [Nat.succ_mul]
          omega
        have hhigh : i * text.length < (i' + 1) * text.length := by
          rw [Nat.succ_mul]
          omega
        have hlow' := Nat.lt_of_mul_lt_mul_right hlow
        have hhigh' := Nat.lt_of_mul_lt_mul_right hhigh
        omega
      rw [hsame, Nat.add_sub_cancel_left]
    · rw [hoff i hi]
      omega
  · rw [length_repeated]
    refine fillBuffer_byte (P := fun b => b = 0) hcount hsize le_rfl (fun i hi h1 h2 => ?_) (Or.inl rfl)
    have hle := Nat.mul_le_mul_right text.length hi
    rw [hoff i hi] at h2
    rw [Nat.succ_mul, Nat.mul_comm count] at hle
    omega

/-- a text that is shorter than the count: copy number `strlen` starts on the terminator -/
theorem not_content_of_lt (htext : ∀ b ∈ text, b ≠ 0) (hsize : text.length * count + 1 < 2 ^ 32) (hpos : 0 < text.length)
    (hlt : text.length < count) :
    ¬ Content (fillBuffer (some text) count addr mem).state (List.replicate count text).flatten := by
  intro h
  have hnul := h.nul
  rw [length_repeated] at hnul
  refine fillBuffer_byte (P := fun b => b ≠ 0) (by omega) hsize le_rfl (fun i hi h1 h2 => ?_)
    (Or.inr ⟨text.length, hlt, ?_⟩) hnul
  · rw [ne_eq, cstr_eq_zero htext (by omega)]
    omega
  · rw [u32_of_lt (by omega)]
    omega

/-- a text that is longer than the count: the last copies end before the end -/
theorem not_content_of_gt (hsize : text.length * count + 1 < 2 ^ 32) (hcount : 2 ≤ count) (hgt : count < text.length) :
    ¬ Content (fillBuffer (some text) count addr mem).state (List.replicate count text).flatten := by
  intro h
  have hend : (count - 1) * count + text.length < text.length * count := by
    obtain ⟨m, rfl⟩ : ∃ m, count = m + 1 := ⟨count - 1, by omega⟩
    rw [Nat.add_sub_cancel, Nat.mul_succ text.length m]
    have hprod : m * (m + 1) < m * text.length := (Nat.mul_lt_mul_left (by omega)).2 hgt
    rw [Nat.mul_comm m text.length] at hprod
    omega
  have hbyte := h.byte (k := (count - 1) * count + text.length) (by rwa [length_repeated])
  refine hbyte (fillBuffer_byte (P := fun b => b = 0) (by omega) hsize hend.le (fun i hi h1 h2 => ?_) (Or.inl rfl))
  have hle : i * count ≤ (count - 1) * count := Nat.mul_le_mul_right count (by omega)
  rw [u32_of_lt (by omega)] at h2
  omega

theorem content_iff (htext : ∀ b ∈ text, b ≠ 0) (hcount : 0 < count) (hsize : text.length * count + 1 < 2 ^ 32) :
    Content (fillBuffer (some text) count addr mem).state (List.replicate count text).flatten ↔
      count = 1 ∨ text.length = count ∨ text = [] := by
  constructor
  · intro h
    by_contra hnot
    rw [not_or, not_or] at hnot
    obtain ⟨hone, hne, hempty⟩ := hnot
    have hpos : 0 < text.length := List.length_pos_iff.2 hempty
    rcases lt_trichotomy text.length count with hlt | heq | hgt
    · exact not_content_of_lt htext hsize hpos hlt h
    · exact hne heq
    · exact not_content_of_gt hsize (by omega) hgt h
  · rintro (rfl | heq | rfl)
    · refine content_of_offsets htext hcount hsize fun i hi => ?_
      obtain rfl : i = 0 := by omega
      rw [Nat.zero_mul, Nat.zero_mul]
      rfl
    · refine content_of_offsets htext hcount hsize fun i hi => ?_
      have hle : i * count ≤ text.length * count := Nat.mul_le_mul_right count (by omega)
      rw [heq]
      rw [heq] at hle hsize
      exact u32_of_lt (by omega)
    · have hnul : (fillBuffer (some []) count addr mem).state.mem (addr + 0) = 0 :=
        fillBuffer_byte (P := fun b => b = 0) hcount hsize (Nat.zero_le _) (fun i hi h1 h2 => absurd h1 (not_le.2 h2))
          (Or.inl rfl)
      rw [List.flatten_replicate_nil]
      refine ⟨rfl, ?_, holds_cons.2 ⟨hnul, holds_nil _ _⟩, htext⟩
      rw [fillBuffer_block hsize]
      exact Nat.succ_pos _

/-- the string a creation leaves is right: from a text, the text repeated, with all writes inside the block; without one,
the empty string with room for `count` bytes -/
def CreateRight (fromStr : Option (List UInt8)) (count : ℕ) (c : StrCall) : Prop :=
  match fromStr with
  | some text => Content c.state (List.replicate count text).flatten ∧ ∀ a ∈ c.accesses, a.Within c.state.block
  | none => Content c.state [] ∧ count < c.state.block.size

theorem fillBuffer_none (hcount : count < 2 ^ 32) (addr : ℕ) (mem : ℕ → UInt8) :
    CreateRight none count (fillBuffer none count addr mem) := by
  have hbuf : u64 (u64 (1 * count) + 1) = 1 * count + 1 := bufSize_of_lt (by omega)
  have hsize : (fillBuffer none count addr mem).state.block.size = count + 1 := by
    simp only [fillBuffer, hbuf]
    rw [Nat.one_mul]
  have hnul : (fillBuffer none count addr mem).state.mem addr = 0 := by
    simp only [fillBuffer, hbuf, blit]
    rw [if_neg (by omega), if_pos (by omega)]
  refine ⟨⟨rfl, ?_, holds_cons.2 ⟨hnul, holds_nil _ _⟩, by simp⟩, ?_⟩
  · rw [hsize]
    exact Nat.succ_pos _
  · rw [hsize]
    exact Nat.lt_succ_self _

/-- A creation is right exactly if it has no text, since the terminator is written behind the block. The content alone is
right exactly if the text is not repeated, or as long as the count, or empty. -/
theorem create_iff {fromStr : Option (List UInt8)} {heap : Option ℕ} {c : StrCall}
    (hcreate : stringCreate fromStr count heap mem = (.ok, some c)) (htext : ∀ text, fromStr = some text → ∀ b ∈ text, b ≠ 0)
    (hcount : 0 < count) (hcount' : count < 2 ^ 32) :
    (CreateRight fromStr count c ↔ fromStr = none) ∧
      ∀ text, fromStr = some text → text.length * count + 1 < 2 ^ 32 →
        (Content c.state (List.replicate count text).flatten ↔ count = 1 ∨ text.length = count ∨ text = []) := by
  cases heap with
  | none => cases hcreate
  | some addr =>
    cases hcreate
    constructor
    · cases fromStr with
      | none => exact iff_of_true (fillBuffer_none hcount' addr mem) rfl
      | some text =>
        refine iff_of_false ?_ (by simp)
        rintro ⟨-, hinside⟩
        obtain ⟨a, ha, hout⟩ := fillBuffer_outside (some text) count addr mem
        exact hout (hinside a ha)
    · rintro text rfl hsize
      exact content_iff (htext text rfl) hcount hsize

/-- "AB" twice is the one case in which a text of two bytes is repeated right -/
theorem create_twice : Content (fillBuffer (some [65, 66]) 2 4096 fun _ => 7).state [65, 66, 65, 66] := by
  have hcreate : stringCreate (some [65, 66]) 2 (some 4096) (fun _ => 7) =
    (.ok, some (fillBuffer (some [65, 66]) 2 4096 fun _ => 7)) := rfl
  have hiff := (create_iff hcreate (by rintro text ⟨⟩; simp) (by decide) (by decide)).2 [65, 66] rfl (by decide)
  exact hiff.2 (Or.inr (Or.inl rfl))

/-- "A" twice is "A", and its terminator stands behind the block -/
theorem create_broken : ¬ ∀ fromStr count heap mem c, stringCreate fromStr count heap mem = (.ok, some c) →
    (∀ text, fromStr = some text → (∀ b ∈ text, b ≠ 0) ∧ text.length * count + 1 < 2 ^ 32) → 0 < count → count < 2 ^ 32 →
    CreateRight fromStr count c := by
  intro hall
  have hright := hall (some [65]) 2 (some 4096) (fun _ => 7) _ rfl (by rintro text ⟨⟩; simp) (by decide) (by decide)
  have hbyte := hright.1.holds 1 (by decide)
  exact absurd hbyte (by decide)

end Create

end Noriko.Dstruct
