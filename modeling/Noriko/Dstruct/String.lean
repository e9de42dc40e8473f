/-
The string type (`dstruct/string.c`): creation, clearing and joining, and its representation invariant.

A string knows the address, the size and the length of its buffer. Beside them the state holds what is true of the
memory: the block that is really allocated, and its bytes. Each call returns the ranges of the string's memory that it
touches, so that an access outside the block can be seen. A source text is the list of its bytes before the `NUL`.

`NkStringCreate` writes the terminator at index `bufSize`, one byte past the buffer it has just allocated, so no string
is created within its bounds (`repKept_iff`). `join_keeps_iff` is the exact condition for `NkStringJoin`: there must be
room for the terminator without a resize, or the reallocation must succeed in place. `rep_run` puts the latter over whole
runs from a string that is represented right.
-/
import Noriko.Heap
import Noriko.Lib.Bytes
import Noriko.Lib.Loop
import Noriko.Lib.Run

namespace Noriko.Dstruct

open Lib

/-! ## Data -/

structure NkString where
  currSize : ℕ
  /-- length in bytes; the source means it to include the `NUL` -/
  currLen : ℕ
  /-- address of the buffer -/
  charBuf : ℕ
deriving DecidableEq, Repr

structure StrState where
  str : NkString
  /-- the block that is allocated -/
  block : Span
  mem : ℕ → UInt8

structure StrCall where
  code : NkErrorCode
  state : StrState
  accesses : List Span

/-- a text as memory: its bytes, then the `NUL` -/
def cstr (text : List UInt8) (k : ℕ) : UInt8 := text.getD k 0

/-- what a reallocation that succeeds answers: the new address and the bytes found past the old contents -/
structure Moved where
  addr : ℕ
  mem : ℕ → UInt8

/-! ## The calls -/

/-- `NkStringCreate` once it has a buffer, which comes zeroed, at address `addr` -/
def fillBuffer (fromStr : Option (List UInt8)) (count addr : ℕ) (mem : ℕ → UInt8) : StrCall :=
  let strlen := match fromStr with
    | some text => text.length
    | none => 1
  let bufSize := u64 (u64 (strlen * count) + 1)
  let n := u64 (2 ^ 64 - 1 + bufSize) / count
  let zeroed := blit mem addr (fun _ => 0) bufSize
  -- copy i starts at i * count, as an NkUint32
  let filled := match fromStr with
    | some text => (upto 0 count).foldl (fun m i => blit m (addr + u32 (i * count)) (cstr text) n) zeroed
    | none => zeroed
  { code := .ok
    state :=
      { str :=
          { currSize := u32 bufSize
            currLen := if fromStr.isSome then u32 bufSize else 0
            charBuf := addr }
        block := ⟨addr, bufSize⟩
        mem := blit filled (addr + bufSize) (fun _ => 0) 1 }
    accesses := (if fromStr.isSome then (upto 0 count).map (fun i => ⟨addr + u32 (i * count), n⟩) else []) ++
      [⟨addr + bufSize, 1⟩] }

/-- `NkStringCreate`; the heap answers with an address or fails -/
def stringCreate (fromStr : Option (List UInt8)) (count : ℕ) (heap : Option ℕ) (mem : ℕ → UInt8) :
    NkErrorCode × Option StrCall :=
  match heap with
  | none => (.memoryAllocation, none)
  | some addr => (.ok, some (fillBuffer fromStr count addr mem))

/-- `NkStringClear` -/
def stringClear (s : StrState) : StrCall where
  code := .ok
  state := { s with str := { s.str with currLen := 0 }, mem := blit s.mem s.str.charBuf (fun _ => 0) 1 }
  accesses := [⟨s.str.charBuf, 1⟩]

/-- `(NkUint32)(reqBufSize * 1.5f)`, in exact arithmetic -/
def grownSize (reqBufSize : ℕ) : ℕ := u32 (reqBufSize * 3 / 2)

/-- the resize of `NkStringJoin`: the new address stays in a local variable, and the code tests that variable instead
of the error code -/
def joinResize (s : StrState) (reqBufSize : ℕ) (heap : Option Moved) : StrState :=
  let str := { s.str with currSize := grownSize reqBufSize }
  match heap with
  | none => { s with str := str }
  | some f =>
    { str := str
      block := ⟨f.addr, grownSize reqBufSize⟩
      mem := blit (blit s.mem f.addr f.mem (grownSize reqBufSize)) f.addr (fun k => s.mem (s.block.addr + k))
        (min s.block.size (grownSize reqBufSize)) }

/-- the number of bytes `NkStringJoin` appends -/
def elemStrlen (elemStr : List UInt8) (strLen : ℕ) : ℕ := if strLen = uint32Max then u32 elemStr.length else strLen

/-- `NkStringJoin` -/
def stringJoin (s : StrState) (elemStr : List UInt8) (strLen : ℕ) (heap : Option Moved) : StrCall :=
  if cstr elemStr 0 = 0 then ⟨.noOperation, s, []⟩
  else
    let n := elemStrlen elemStr strLen
    if uint32Max - s.str.currLen < n then ⟨.unsignedWrapAround, s, []⟩
    else
      let reqBufSize := u32 (s.str.currLen + n)
      let t := if reqBufSize > s.str.currSize then joinResize s reqBufSize heap else s
      { code := .ok
        state := { t with
          str := { t.str with currLen := u32 (s.str.currLen + n) }
          mem := blit t.mem (t.str.charBuf + s.str.currLen) (cstr elemStr) (u32 (n + 1)) }
        accesses := [⟨t.str.charBuf + s.str.currLen, u32 (n + 1)⟩] }

/-! ## The representation invariant -/

structure Rep (s : StrState) : Prop where
  ptr : s.str.charBuf = s.block.addr
  size : s.block.size = s.str.currSize
  room : s.str.currLen + 1 ≤ s.str.currSize
  nul : s.mem (s.str.charBuf + s.str.currLen) = 0

inductive StrOp where
  | join (elemStr : List UInt8) (strLen : ℕ) (heap : Option Moved)
  | clear

def strExec (s : StrState) : StrOp → StrCall
  | .join elemStr strLen heap => stringJoin s elemStr strLen heap
  | .clear => stringClear s

def strStep (s : StrState) (o : StrOp) : Option StrState := some (strExec s o).state

/-- a text has no `NUL` inside, and at most its own length is joined -/
def StrLegal (_ : StrState) : StrOp → Prop
  | .join elemStr strLen _ => (∀ b ∈ elemStr, b ≠ 0) ∧ elemStr.length < 2 ^ 32 - 1 ∧
      (strLen = uint32Max ∨ strLen ≤ elemStr.length)
  | .clear => True

/-- a call keeps the invariant, touches nothing outside the block that is allocated when it touches it, and changes
nothing if it fails -/
structure StrCallOk (s : StrState) (c : StrCall) : Prop where
  rep : Rep c.state
  inside : ∀ a ∈ c.accesses, a.Within c.state.block
  atomic : c.code ≠ .ok → c.state = s

/-- a string that a creation hands out is represented right, from the creation itself on and in every run -/
def RepKept (r : NkErrorCode × Option StrCall) : Prop :=
  ∀ c, r.2 = some c → (∀ a ∈ c.accesses, a.Within c.state.block) ∧
    ∀ ops t, Runs strStep StrLegal c.state ops t → Rep t ∧ ∀ o, StrLegal t o → StrCallOk t (strExec t o)

/-! ## Joining -/

/-- the join neither fills the buffer to the last byte nor needs a reallocation that fails or moves it, and it appends
the whole text -/
def KeepsBuffer (s : StrState) (elemStr : List UInt8) (strLen : ℕ) (heap : Option Moved) : Prop :=
  elemStr = [] ∨ uint32Max < s.str.currLen + elemStrlen elemStr strLen ∨
    (elemStrlen elemStr strLen = elemStr.length ∧ (s.str.currLen + elemStrlen elemStr strLen < s.str.currSize ∨
      (s.str.currSize < s.str.currLen + elemStrlen elemStr strLen ∧
        s.str.currLen + elemStrlen elemStr strLen < grownSize (s.str.currLen + elemStrlen elemStr strLen) ∧
        ∃ f, heap = some f ∧ f.addr = s.block.addr)))

theorem cstr_eq_zero {text : List UInt8} (h : ∀ b ∈ text, b ≠ 0) {k : ℕ} (hk : k ≤ text.length) :
    cstr text k = 0 ↔ k = text.length := by
  unfold cstr
  rcases Nat.eq_or_lt_of_le hk with rfl | hlt
  · simp
  · rw [List.getD_eq_getElem _ _ hlt]
    exact ⟨fun h0 => absurd h0 (h _ (List.getElem_mem hlt)), fun h0 => absurd h0 (by omega)⟩

theorem elemStrlen_le {elemStr : List UInt8} {strLen : ℕ}
    (h : strLen = uint32Max ∨ strLen ≤ elemStr.length) : elemStrlen elemStr strLen ≤ elemStr.length := by
  unfold elemStrlen
  split_ifs with hmax
  · exact Nat.mod_le _ _
  · exact h.resolve_left hmax

/-- appending `n` bytes and the byte after them to a buffer -/
def appended (t : StrState) (len n : ℕ) (elemStr : List UInt8) : StrCall where
  code := .ok
  state := { t with
    str := { t.str with currLen := len + n }
    mem := blit t.mem (t.str.charBuf + len) (cstr elemStr) (n + 1) }
  accesses := [⟨t.str.charBuf + len, n + 1⟩]

theorem appended_ok_iff (s t : StrState) (len n : ℕ) (elemStr : List UInt8) :
    StrCallOk s (appended t len n elemStr) ↔ t.str.charBuf = t.block.addr ∧ t.block.size = t.str.currSize ∧
      len + n + 1 ≤ t.str.currSize ∧ cstr elemStr n = 0 := by
  have hnul : (appended t len n elemStr).state.mem (t.str.charBuf + (len + n)) = cstr elemStr n := by
    simp only [appended, blit]
    rw [if_pos (by omega)]
    congr 1
    omega
  constructor
  · rintro ⟨⟨hptr, hsize, hroom, hn⟩, -, -⟩
    exact ⟨hptr, hsize, hroom, hnul.symm.trans hn⟩
  · rintro ⟨hptr, hsize, hroom, hn⟩
    refine ⟨⟨hptr, hsize, hroom, hnul.trans hn⟩, fun a ha => ?_, fun hc => absurd rfl hc⟩
    rw [List.mem_singleton.1 ha]
    simp only [Span.Within, appended]
    omega

/-- a buffer of the size it claims, with room for `req` bytes and the one after them -/
def FitsBuffer (t : StrState) (req : ℕ) : Prop :=
  t.str.charBuf = t.block.addr ∧ t.block.size = t.str.currSize ∧ req < t.str.currSize

/-- a resize leaves such a buffer exactly if it gets memory at the old address and enough of it -/
theorem joinResize_fits_iff {s : StrState} (h : Rep s) {req : ℕ} (hbig : s.str.currSize < req) (heap : Option Moved) :
    FitsBuffer (joinResize s req heap) req ↔ req < grownSize req ∧ ∃ f, heap = some f ∧ f.addr = s.block.addr := by
  cases heap with
  | none =>
    -- the size is raised, the block is not
    have hsize := h.size
    constructor
    · rintro ⟨-, hsz, hrm⟩
      simp only [joinResize] at hsz hrm
      omega
    · rintro ⟨-, f, hf, -⟩
      cases hf
  | some f =>
    have hptr := h.ptr
    constructor
    · rintro ⟨hp, -, hrm⟩
      exact ⟨hrm, f, rfl, hp.symm.trans hptr⟩
    · rintro ⟨hrm, f', hf, hp⟩
      cases hf
      exact ⟨hptr.trans hp.symm, rfl, hrm⟩

/-- the buffer a join writes to -/
theorem joined_fits_iff {s : StrState} (h : Rep s) (req : ℕ) (heap : Option Moved) :
    FitsBuffer (if req > s.str.currSize then joinResize s req heap else s) req ↔ req < s.str.currSize ∨
      (s.str.currSize < req ∧ req < grownSize req ∧ ∃ f, heap = some f ∧ f.addr = s.block.addr) := by
  by_cases hbig : req > s.str.currSize
  · rw [if_pos hbig, joinResize_fits_iff h hbig]
    exact ⟨fun hf => Or.inr ⟨hbig, hf⟩, fun hf => (hf.resolve_left (Nat.lt_asymm hbig)).2⟩
  · rw [if_neg hbig]
    exact ⟨fun hf => Or.inl hf.2.2, fun hf => ⟨h.ptr, h.size, hf.resolve_right fun hc => hbig hc.1⟩⟩

/-- From a string that is represented right, a join keeps the representation exactly if it keeps the buffer. -/
theorem join_keeps_iff {s : StrState} (h : Rep s) (hs : s.str.currSize < 2 ^ 32) {elemStr : List UInt8} {strLen : ℕ} {heap : Option Moved}
    (hl : StrLegal s (.join elemStr strLen heap)) :
    StrCallOk s (stringJoin s elemStr strLen heap) ↔ KeepsBuffer s elemStr strLen heap := by
  obtain ⟨htext, hlen, hstr⟩ := hl
  have hn := elemStrlen_le hstr
  unfold stringJoin KeepsBuffer
  set n := elemStrlen elemStr strLen
  have hunchanged : ∀ c, StrCallOk s ⟨c, s, []⟩ := fun c => ⟨h, by simp, fun _ => rfl⟩
  by_cases hempty : elemStr = []
  · rw [if_pos ((cstr_eq_zero htext (Nat.zero_le _)).2 (by rw [hempty]; rfl))]
    exact ⟨fun _ => Or.inl hempty, fun _ => hunchanged _⟩
  · have hne : elemStr.length ≠ 0 := fun h0 => hempty (List.length_eq_zero_iff.1 h0)
    rw [if_neg (fun h0 => hne ((cstr_eq_zero htext (Nat.zero_le _)).1 h0).symm)]
    by_cases hwrap : uint32Max - s.str.currLen < n
    · rw [if_pos hwrap]
      exact ⟨fun _ => Or.inr (Or.inl (by omega)), fun _ => hunchanged _⟩
    · rw [if_neg hwrap]
      have hroom := h.room
      have hmax : uint32Max = 2 ^ 32 - 1 := rfl
      have hreq : u32 (s.str.currLen + n) = s.str.currLen + n := u32_of_lt (by omega)
      have hn1 : u32 (n + 1) = n + 1 := u32_of_lt (by omega)
      have hnot : ¬ uint32Max < s.str.currLen + n := by omega
      rw [hreq, hn1]
      -- the call appends to the buffer that the resize leaves
      refine (appended_ok_iff s _ s.str.currLen n elemStr).trans ?_
      rw [cstr_eq_zero htext hn]
      have hfits := joined_fits_iff h (s.str.currLen + n) heap
      constructor
      · rintro ⟨hp, hsz, hrm, hwhole⟩
        exact Or.inr (Or.inr ⟨hwhole, hfits.1 ⟨hp, hsz, hrm⟩⟩)
      · rintro (h0 | h0 | ⟨hwhole, hbuf⟩)
        · exact absurd h0 hempty
        · exact absurd h0 hnot
        · obtain ⟨hp, hsz, hrm⟩ := hfits.2 hbuf
          exact ⟨hp, hsz, hrm, hwhole⟩

theorem clear_keeps {s : StrState} (h : Rep s) : StrCallOk s (stringClear s) := by
  obtain ⟨hptr, hsize, hroom, -⟩ := h
  refine ⟨⟨hptr, hsize, ?_, ?_⟩, fun a ha => ?_, fun hc => absurd rfl hc⟩
  · simp only [stringClear]
    omega
  · simp [stringClear, blit]
  · rw [List.mem_singleton.1 ha]
    simp only [Span.Within, stringClear]
    omega

/-- clears, and joins that keep the buffer -/
def StrKeeps (s : StrState) : StrOp → Prop
  | .join elemStr strLen heap => KeepsBuffer s elemStr strLen heap
  | .clear => True

theorem currSize_lt {s : StrState} (h : s.str.currSize < 2 ^ 32) (o : StrOp) :
    (strExec s o).state.str.currSize < 2 ^ 32 := by
  cases o with
  | clear => exact h
  | join elemStr strLen heap =>
    simp only [strExec, stringJoin]
    split_ifs with hempty hwrap hbig
    · exact h
    · exact h
    · cases heap <;> exact u32_lt _
    · exact h

/-- A string that is represented right stays so along every run of clears and of joins that keep the buffer. -/
theorem rep_run {s t : StrState} {ops : List StrOp} (h : Rep s) (hs : s.str.currSize < 2 ^ 32)
    (hrun : Runs strStep (fun s o => StrLegal s o ∧ StrKeeps s o) s ops t) : Rep t := by
  refine (hrun.inv (I := fun s => Rep s ∧ s.str.currSize < 2 ^ 32) ?_ ⟨h, hs⟩).1
  rintro s o t ⟨h, hs⟩ ⟨hl, hk⟩ hstep
  cases hstep
  refine ⟨?_, currSize_lt hs o⟩
  cases o with
  | clear => exact (clear_keeps h).rep
  | join elemStr strLen heap => exact ((join_keeps_iff h hs hl).2 hk).rep

/-! ## Creation -/

theorem fillBuffer_outside (fromStr : Option (List UInt8)) (count addr : ℕ) (mem : ℕ → UInt8) :
    ∃ a ∈ (fillBuffer fromStr count addr mem).accesses, ¬ a.Within (fillBuffer fromStr count addr mem).state.block := by
  refine ⟨_, List.mem_append_right _ (List.mem_singleton_self _), ?_⟩
  rintro ⟨-, hend⟩
  simp only [fillBuffer] at hend
  omega

/-- No string that `NkStringCreate` hands out keeps the invariant, since the creation itself writes past the buffer: the
invariant is kept exactly if the heap fails and there is no string. -/
theorem repKept_iff (fromStr : Option (List UInt8)) (count : ℕ) (heap : Option ℕ) (mem : ℕ → UInt8) :
    RepKept (stringCreate fromStr count heap mem) ↔ heap = none := by
  cases heap with
  | none => exact ⟨fun _ => rfl, fun _ c hc => by cases hc⟩
  | some addr =>
    refine ⟨fun h => ?_, fun h => by cases h⟩
    obtain ⟨a, ha, hout⟩ := fillBuffer_outside fromStr count addr mem
    exact absurd ((h _ rfl).1 a ha) hout

/-- a copy of "A": the block has two bytes, and the terminator is written behind it -/
theorem repKept_broken : (fillBuffer (some [65]) 1 4096 (fun _ => 0)).state.block = ⟨4096, 2⟩ ∧
    ⟨4098, 1⟩ ∈ (fillBuffer (some [65]) 1 4096 (fun _ => 0)).accesses ∧
    ¬ RepKept (stringCreate (some [65]) 1 (some 4096) (fun _ => 0)) := by
  refine ⟨by decide, by decide, fun h => ?_⟩
  exact absurd ((h _ rfl).1 ⟨4098, 1⟩ (by decide)) (by decide)

end Noriko.Dstruct
