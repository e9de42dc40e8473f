/-
Building a path from its parts (`NkPathBuild` of `path.c`).

The result string is created with room for 64 bytes, and the parts are joined to it one by one: the components of the
stem with separators between them, then up to five strings that are present or not. A part is a view, but the joins are
asked for the whole `NUL`-terminated text behind its `mp_dataPtr`. The first join that does not return `NkErr_Ok` ends the
call, and the string is destroyed.

The path is right as long as the buffer of the creation suffices. A longer path is written behind the block by one byte, or
to the old address of a block that was moved. An empty part is no error of the join, which does nothing then, but it ends
the call. So a path is built whatever the heap answers exactly if every part that is joined ends at its size and is not
empty, and the path has at most 64 bytes (`build_iff`).
-/
import Noriko.Dstruct.StringContent

namespace Noriko.Path

open Lib Dstruct

/-! ## The code -/

/-- `gl_c_DefPathSize` -/
def defPathSize : ℕ := 64

/-- an `NkStringView` as the joins see it: the bytes from `mp_dataPtr` up to a `NUL`, and the size -/
structure PathView where
  cText : List UInt8
  sizeInBytes : ℕ
deriving DecidableEq, Repr

/-- the text that is viewed -/
def PathView.text (v : PathView) : List UInt8 := v.cText.take v.sizeInBytes

/-- `NK_MAKE_STRING_VIEW` -/
def makeStringView (str : List UInt8) : PathView := ⟨str, str.length⟩

/-- `__NkInt_StandardPaths_QueryNativeSeparator` -/
def nativeSeparator : PathView := makeStringView [92]

/-- the arguments of `NkPathBuild`; a missing one is `NULL`, and the array of the stem ends before its `NULL` -/
structure PathArgs where
  sepCh : Option PathView
  stemCompArr : Option (List PathView)
  fileName : Option PathView
  extStr : Option PathView
deriving DecidableEq, Repr

/-- `stemCompArr != NULL && stemCompArr[0] != NULL` -/
def PathArgs.hasStem (a : PathArgs) : Bool := (a.stemCompArr.getD []) ≠ []

/-- the separator that is used -/
def PathArgs.sep (a : PathArgs) : PathView := a.sepCh.getD nativeSeparator

/-- what the loop over the stem joins: each component, and a separator if there is a next one -/
def stemViews (sepCh : PathView) : List PathView → List PathView
  | [] => []
  | [comp] => [comp]
  | comp :: next :: comps => comp :: sepCh :: stemViews sepCh (next :: comps)

/-- `tailStrs` -/
def tailStrs (a : PathArgs) : List (Option PathView) :=
  [ if a.fileName.isSome ∧ a.hasStem then some a.sep else none,
    a.fileName,
    if a.extStr.isSome ∧ a.fileName = none ∧ a.hasStem then some a.sep else none,
    if a.extStr = none then none else some (makeStringView [46]),
    a.extStr ]

/-- the views that are joined, in order -/
def pathViews (a : PathArgs) : List PathView := stemViews a.sep (a.stemCompArr.getD []) ++ (tailStrs a).filterMap id

/-- the answers of the heap: to the creation, and to the resize of each join, if it makes one -/
structure PathHeap where
  create : Option ℕ
  resize : ℕ → Option Moved

/-- joins until one does not return `NkErr_Ok`; the length that is passed asks for the whole text, whatever the size -/
def joinViews (resize : ℕ → Option Moved) : ℕ → List PathView → StrState → NkErrorCode × StrState
  | _, [], s => (.ok, s)
  | i, v :: views, s =>
    let c := stringJoin s v.cText uint32Max (resize i)
    if c.code ≠ .ok then (c.code, c.state) else joinViews resize (i + 1) views c.state

/-- `NkStringDestroy`: the block that is still allocated afterwards -/
def stringDestroy (s : StrState) : Option Span := if s.str.charBuf = s.block.addr then none else some s.block

/-- what a call leaves: its code, the string of a call that succeeds and the block that is allocated -/
structure PathResult where
  code : NkErrorCode
  resStr : Option StrState
  allocated : Option Span

/-- `NkPathBuild` -/
def pathBuild (a : PathArgs) (heap : PathHeap) (mem : ℕ → UInt8) : PathResult :=
  if ¬ a.hasStem ∧ a.fileName = none ∧ a.extStr = none then ⟨.inParameter, none, none⟩
  else
    match stringCreate none defPathSize heap.create mem with
    | (errCode, none) => ⟨errCode, none, none⟩
    | (_, some c) =>
      let r := joinViews heap.resize 0 (pathViews a) c.state
      if r.1 = .ok then ⟨.ok, some r.2, some r.2.block⟩ else ⟨r.1, none, stringDestroy r.2⟩

/-! ## What it is for -/

/-- the path: the components of the stem with separators between them, the file name behind a separator if there is a
stem, and the extension behind a dot, and behind a separator if there is a stem but no file name -/
def pathText (a : PathArgs) : List UInt8 :=
  a.sep.text.intercalate ((a.stemCompArr.getD []).map PathView.text) ++
    (a.fileName.elim [] fun name => (if a.hasStem then a.sep.text else []) ++ name.text) ++
    a.extStr.elim [] fun ext => (if a.hasStem ∧ a.fileName = none then a.sep.text else []) ++ [46] ++ ext.text

/-- no allocation fails -/
def PathHeap.Succeeds (heap : PathHeap) : Prop := heap.create ≠ none ∧ ∀ i, heap.resize i ≠ none

/-- the path is built whenever no allocation fails, and a call that fails leaves nothing allocated -/
structure Builds (a : PathArgs) : Prop where
  built : ∀ heap mem, heap.Succeeds → ∃ s, (pathBuild a heap mem).code = .ok ∧ (pathBuild a heap mem).resStr = some s ∧
    Content s (pathText a)
  clean : ∀ heap mem, (pathBuild a heap mem).code ≠ .ok → (pathBuild a heap mem).allocated = none

/-! ## The texts of the views -/

theorem flatten_stemViews (sepCh : PathView) (comps : List PathView) :
    ((stemViews sepCh comps).map PathView.text).flatten = sepCh.text.intercalate (comps.map PathView.text) := by
  induction comps with
  | nil => rfl
  | cons comp comps ih =>
    cases comps with
    | nil => simp [stemViews]
    | cons next comps =>
      rw [stemViews, List.map_cons, List.map_cons, List.flatten_cons, List.flatten_cons, ih, List.map_cons, List.map_cons,
        List.map_cons, List.intercalate_cons_cons, List.append_assoc]

/-- the viewed texts make up the path -/
theorem flatten_pathViews (a : PathArgs) : ((pathViews a).map PathView.text).flatten = pathText a := by
  have hdot : (makeStringView [46]).text = [46] := rfl
  have htail : (((tailStrs a).filterMap id).map PathView.text).flatten =
      (a.fileName.elim [] fun name => (if a.hasStem then a.sep.text else []) ++ name.text) ++
        a.extStr.elim [] fun ext => (if a.hasStem ∧ a.fileName = none then a.sep.text else []) ++ [46] ++ ext.text := by
    unfold tailStrs
    by_cases hstem : a.hasStem
    · cases a.fileName <;> cases a.extStr <;> simp [hstem, hdot]
    · cases a.fileName <;> cases a.extStr <;> simp [hstem, hdot]
  rw [pathViews, List.map_append, List.flatten_append, flatten_stemViews, htail, pathText, List.append_assoc]

/-- a view of a text without `NUL` that an `NkUint32` can count -/
structure PathView.Legal (v : PathView) : Prop where
  text : ∀ b ∈ v.cText, b ≠ 0
  inside : v.sizeInBytes ≤ v.cText.length
  short : v.cText.length < uint32Max

/-- the text ends where the view does, and is not empty -/
def PathView.Whole (v : PathView) : Prop := v.sizeInBytes = v.cText.length ∧ v.cText ≠ []

theorem PathView.Whole.text_eq {v : PathView} (h : v.Whole) : v.text = v.cText := by
  rw [PathView.text, h.1, List.take_length]

/-- views whose texts together are as long as what is joined end at their sizes -/
theorem ends_of_flatten {views : List PathView} (hlegal : ∀ v ∈ views, v.Legal)
    (h : (views.map PathView.cText).flatten.length ≤ (views.map PathView.text).flatten.length) :
    ∀ v ∈ views, v.sizeInBytes = v.cText.length := by
  have hle : ∀ views : List PathView,
      (views.map PathView.text).flatten.length ≤ (views.map PathView.cText).flatten.length := by
    intro views
    induction views with
    | nil => exact le_rfl
    | cons v views ih =>
      simp only [List.map_cons, List.flatten_cons, List.length_append, PathView.text]
      exact Nat.add_le_add (List.length_take_le' ..) ih
  induction views with
  | nil => exact fun v hv => absurd hv List.not_mem_nil
  | cons v views ih =>
    have hinside := (hlegal v List.mem_cons_self).inside
    have hrest := hle views
    have hlen : v.text.length = v.sizeInBytes := List.length_take_of_le hinside
    simp only [List.map_cons, List.flatten_cons, List.length_append, hlen] at h
    intro w hw
    rcases List.mem_cons.1 hw with rfl | hw
    · omega
    · exact ih (fun w hw => hlegal w (List.mem_cons_of_mem _ hw)) (by omega) w hw

/-! ## Joining -/

section Join

variable {resize : ℕ → Option Moved} {s : StrState} {old str : List UInt8} {views : List PathView}

/-- a buffer that holds a text up to `currLen` -/
structure Filled (s : StrState) (old : List UInt8) : Prop where
  buffered : Buffered s
  content : Content s old
  len : s.str.currLen = old.length

/-- a text that fits is appended, and the buffer stays -/
theorem Filled.join (h : Filled s old) (hne : str ≠ []) (htext : ∀ b ∈ str, b ≠ 0)
    (hfit : old.length + str.length < s.str.currSize) (heap : Option Moved) :
    (stringJoin s str uint32Max heap).code = .ok ∧ Filled (stringJoin s str uint32Max heap).state (old ++ str) ∧
      (stringJoin s str uint32Max heap).state.str.currSize = s.str.currSize := by
  have hwidth := h.buffered.width
  have hmax : uint32Max = 2 ^ 32 - 1 := rfl
  have hn : str.length = elemStrlen str uint32Max := by
    rw [elemStrlen, if_pos rfl, u32_of_lt (by omega)]
  have hbuffer : joinBuffer s (old.length + str.length) heap = s := if_neg (by omega)
  have hlen := h.len
  rw [stringJoin_ok hne htext hn (by omega) (by omega) (by omega), hlen, hbuffer]
  refine ⟨rfl, ⟨⟨h.buffered.ptr, h.buffered.size, hwidth, hfit.le⟩, ?_, List.length_append.symm⟩, rfl⟩
  have hold := (holds_append.1 h.content.holds).1
  exact Content.appended hold h.content.nonzero htext h.content.ptr (hfit.trans_le h.buffered.size)

/-- texts that fit are appended one behind the other -/
theorem Filled.joinViews (h : Filled s old) (resize : ℕ → Option Moved) (hne : ∀ v ∈ views, v.cText ≠ [])
    (htext : ∀ v ∈ views, v.Legal) (hfit : old.length + (views.map PathView.cText).flatten.length < s.str.currSize) (i : ℕ) :
    (joinViews resize i views s).1 = .ok ∧
      Content (joinViews resize i views s).2 (old ++ (views.map PathView.cText).flatten) := by
  induction views generalizing s old i with
  | nil =>
    rw [List.map_nil, List.flatten_nil, List.append_nil]
    exact ⟨rfl, h.content⟩
  | cons v views ih =>
    rw [List.map_cons, List.flatten_cons, List.length_append] at hfit
    obtain ⟨hcode, hnext, hsize⟩ := h.join (hne v List.mem_cons_self) (htext v List.mem_cons_self).text (by omega) (resize i)
    unfold Path.joinViews
    rw [if_neg (not_not.2 hcode), List.map_cons, List.flatten_cons, ← List.append_assoc]
    apply ih hnext
    · exact fun w hw => hne w (List.mem_cons_of_mem _ hw)
    · exact fun w hw => htext w (List.mem_cons_of_mem _ hw)
    · rw [List.length_append, hsize]
      omega

/-- joins that all succeed are of texts that are not empty -/
theorem nonempty_of_joinViews {i : ℕ} (h : (joinViews resize i views s).1 = .ok) : ∀ v ∈ views, v.cText ≠ [] := by
  induction views generalizing s i with
  | nil => simp
  | cons v views ih =>
    unfold joinViews at h
    by_cases hcode : (stringJoin s v.cText uint32Max (resize i)).code = .ok
    · rw [if_neg (not_not.2 hcode)] at h
      intro w hw
      rcases List.mem_cons.1 hw with rfl | hw
      · intro hempty
        rw [hempty] at hcode
        cases hcode
      · exact ih h w hw
    · rw [if_pos hcode] at h
      exact absurd h hcode

end Join

/-! ## A heap that moves blocks -/

section Moving

variable {addr size : ℕ} {f : Moved} {s : StrState} {joined : List UInt8} {views : List PathView}

/-- the string has its first pointer, and its block is the first one or was moved -/
structure Kept (addr size : ℕ) (f : Moved) (s : StrState) : Prop where
  ptr : s.str.charBuf = addr
  block : s.block = ⟨addr, size⟩ ∨ s.block.addr = f.addr

theorem Kept.join (h : Kept addr size f s) (str : List UInt8) :
    Kept addr size f (stringJoin s str uint32Max (some f)).state := by
  obtain ⟨hptr, hblock⟩ := h
  unfold stringJoin
  dsimp only
  split_ifs
  · exact ⟨hptr, hblock⟩
  · exact ⟨hptr, hblock⟩
  · exact ⟨hptr, Or.inr rfl⟩
  · exact ⟨hptr, hblock⟩

/-- the block was moved, or it holds what was joined so far -/
structure Traced (addr size : ℕ) (f : Moved) (s : StrState) (joined : List UInt8) : Prop where
  kept : Kept addr size f s
  text : s.block.addr ≠ f.addr → s.str.currLen = joined.length ∧ Holds s.mem addr (joined ++ [0])

theorem Traced.join (h : Traced addr size f s joined) {str : List UInt8} (hne : str ≠ []) (htext : ∀ b ∈ str, b ≠ 0)
    (hshort : str.length < uint32Max) (hok : (stringJoin s str uint32Max (some f)).code = .ok) :
    Traced addr size f (stringJoin s str uint32Max (some f)).state (joined ++ str) := by
  refine ⟨h.kept.join str, ?_⟩
  rcases stringJoin_cases s htext uint32Max (some f) with ⟨hempty, -⟩ | ⟨-, -, hjoin⟩ | ⟨-, hwrap, -⟩
  · exact absurd hempty hne
  · rw [hjoin] at hok
    cases hok
  · have hmax : uint32Max = 2 ^ 32 - 1 := rfl
    have hsome : 0 < str.length := List.length_pos_iff.2 hne
    have hn : str.length = elemStrlen str uint32Max := by
      rw [elemStrlen, if_pos rfl, u32_of_lt (by omega)]
    rw [← hn] at hwrap
    rw [stringJoin_ok hne htext hn hwrap (by omega) hshort]
    unfold joinBuffer
    split_ifs with hbig
    · -- the buffer is resized, and the heap moves the block
      exact fun hstay => absurd rfl hstay
    · intro hstay
      obtain ⟨hlen, hholds⟩ := h.text hstay
      rw [hlen]
      refine ⟨List.length_append.symm, ?_⟩
      have hold : Holds s.mem s.str.charBuf joined := by
        rw [h.kept.ptr]
        exact (holds_append.1 hholds).1
      rw [← h.kept.ptr]
      exact holds_appended hold str

theorem Traced.joinViews (h : Traced addr size f s joined) (hlegal : ∀ v ∈ views, v.Legal) {i : ℕ}
    (hok : (joinViews (fun _ => some f) i views s).1 = .ok) :
    Traced addr size f (joinViews (fun _ => some f) i views s).2 (joined ++ (views.map PathView.cText).flatten) := by
  induction views generalizing s joined i with
  | nil =>
    rw [List.map_nil, List.flatten_nil, List.append_nil]
    exact h
  | cons v views ih =>
    have hne := nonempty_of_joinViews hok v List.mem_cons_self
    have hv := hlegal v List.mem_cons_self
    unfold Path.joinViews at hok ⊢
    dsimp only at hok ⊢
    split_ifs at hok ⊢ with hcode
    · exact absurd hok hcode
    · rw [List.map_cons, List.flatten_cons, ← List.append_assoc]
      exact ih (h.join hne hv.text hv.short (not_not.1 hcode)) (fun w hw => hlegal w (List.mem_cons_of_mem _ hw)) hok

/-- a content that is right lies in the first block, and is what was joined -/
theorem Traced.content (h : Traced addr size f s joined) (hmoved : f.addr ≠ addr) (hjoined : ∀ b ∈ joined, b ≠ 0)
    {text : List UInt8} (hc : Content s text) : text.length < size ∧ joined = text := by
  have hroom := hc.room
  have hptr := hc.ptr
  rw [h.kept.ptr] at hptr
  rcases h.kept.block with hblock | hblock
  · rw [hblock] at hroom
    have hstay : s.block.addr ≠ f.addr := fun heq => hmoved (heq.symm.trans hptr.symm)
    have hholds := (h.text hstay).2
    rw [← h.kept.ptr] at hholds
    exact ⟨hroom, hc.eq_of_holds hholds hjoined⟩
  · exact absurd (hblock.symm.trans hptr.symm) hmoved

end Moving

/-! ## Result -/

section Result

variable {a : PathArgs}

/-- there is something to build, and the views are legal -/
structure PathArgs.Legal (a : PathArgs) : Prop where
  present : a.hasStem ∨ a.fileName ≠ none ∨ a.extStr ≠ none
  views : ∀ v ∈ pathViews a, v.Legal

/-- a call that has something to build and memory for a string -/
theorem pathBuild_create (h : a.Legal) {heap : PathHeap} {addr : ℕ} (hheap : heap.create = some addr) (mem : ℕ → UInt8) :
    pathBuild a heap mem =
      let r := joinViews heap.resize 0 (pathViews a) (fillBuffer none defPathSize addr mem).state
      if r.1 = .ok then ⟨.ok, some r.2, some r.2.block⟩ else ⟨r.1, none, stringDestroy r.2⟩ := by
  have hsome : ¬ (¬ a.hasStem ∧ a.fileName = none ∧ a.extStr = none) := by
    rintro ⟨hstem, hname, hext⟩
    rcases h.present with h | h | h
    · exact hstem h
    · exact h hname
    · exact h hext
  unfold pathBuild
  rw [if_neg hsome, hheap]
  rfl

theorem filled_create (addr : ℕ) (mem : ℕ → UInt8) : Filled (fillBuffer none defPathSize addr mem).state [] := by
  have hright : CreateRight none defPathSize (fillBuffer none defPathSize addr mem) := fillBuffer_none (by decide) addr mem
  exact ⟨fillBuffer_buffered none defPathSize addr mem, hright.1, rfl⟩

/-- a path whose views are whole is built of what is joined -/
theorem flatten_whole (h : ∀ v ∈ pathViews a, v.Whole) : ((pathViews a).map PathView.cText).flatten = pathText a := by
  rw [← flatten_pathViews]
  congr 1
  exact List.map_congr_left fun v hv => (h v hv).text_eq.symm

/-- a heap that moves the block at each resize -/
def movingHeap : PathHeap := ⟨some 4096, fun _ => some ⟨8192, fun _ => 0⟩⟩

theorem movingHeap_succeeds : movingHeap.Succeeds := ⟨by simp [movingHeap], by simp [movingHeap]⟩

/-- a path that is built although the block may be moved fits the first block, and nothing but the viewed texts was joined -/
theorem whole_of_built (h : a.Legal) {s : StrState} (hres : (pathBuild a movingHeap fun _ => 0).resStr = some s)
    (hcontent : Content s (pathText a)) :
    (∀ v ∈ pathViews a, v.Whole) ∧ (pathText a).length ≤ defPathSize := by
  have hcreate : movingHeap.create = some 4096 := rfl
  rw [pathBuild_create h hcreate] at hres
  dsimp only [movingHeap] at hres
  split_ifs at hres with hok
  obtain rfl := Option.some.inj hres
  have hfirst : Traced 4096 65 ⟨8192, fun _ => 0⟩ (fillBuffer none defPathSize 4096 fun _ => 0).state [] :=
    ⟨⟨rfl, Or.inl rfl⟩, fun _ => ⟨rfl, (filled_create 4096 fun _ => 0).content.holds⟩⟩
  have hbytes : ∀ b ∈ ((pathViews a).map PathView.cText).flatten, b ≠ 0 := by
    intro b hb
    obtain ⟨text, htext, hb⟩ := List.mem_flatten.1 hb
    obtain ⟨v, hv, rfl⟩ := List.mem_map.1 htext
    exact (h.views v hv).text b hb
  obtain ⟨hlt, hjoined⟩ := (hfirst.joinViews h.views hok).content (by decide) hbytes hcontent
  have hends := ends_of_flatten h.views (by
    rw [flatten_pathViews, ← hjoined]
    exact le_rfl)
  exact ⟨fun v hv => ⟨hends v hv, nonempty_of_joinViews hok v hv⟩, Nat.lt_succ_iff.1 hlt⟩

/-- a path of whole views that fits the first block is built, whatever the joins are answered -/
theorem built_of_whole (h : a.Legal) (hwhole : ∀ v ∈ pathViews a, v.Whole) (hlen : (pathText a).length ≤ defPathSize)
    {heap : PathHeap} {addr : ℕ} (hheap : heap.create = some addr) (mem : ℕ → UInt8) :
    ∃ s, (pathBuild a heap mem).code = .ok ∧ (pathBuild a heap mem).resStr = some s ∧ Content s (pathText a) := by
  have hfit : ([] : List UInt8).length + ((pathViews a).map PathView.cText).flatten.length <
      (fillBuffer none defPathSize addr mem).state.str.currSize := by
    rw [flatten_whole hwhole, List.length_nil, Nat.zero_add]
    exact Nat.lt_succ_iff.2 hlen
  obtain ⟨hok, hcontent⟩ := (filled_create addr mem).joinViews heap.resize (fun v hv => (hwhole v hv).2) h.views hfit 0
  rw [flatten_whole hwhole, List.nil_append] at hcontent
  rw [pathBuild_create h hheap]
  dsimp only
  rw [if_pos hok]
  exact ⟨_, rfl, rfl, hcontent⟩

/-- A path is built, whatever the heap answers, exactly if all views that are joined end where their texts do and are not
empty, and the path has at most 64 bytes. -/
theorem build_iff (h : a.Legal) : Builds a ↔ (∀ v ∈ pathViews a, v.Whole) ∧ (pathText a).length ≤ defPathSize := by
  constructor
  · rintro ⟨hbuilt, -⟩
    obtain ⟨s, -, hres, hcontent⟩ := hbuilt movingHeap (fun _ => 0) movingHeap_succeeds
    exact whole_of_built h hres hcontent
  · rintro ⟨hwhole, hlen⟩
    refine ⟨fun heap mem hsucceeds => ?_, fun heap mem hcode => ?_⟩
    · obtain ⟨addr, haddr⟩ := Option.ne_none_iff_exists'.1 hsucceeds.1
      exact built_of_whole h hwhole hlen haddr mem
    · -- only the creation can fail
      cases hheap : heap.create with
      | some addr =>
        obtain ⟨s, hok, -, -⟩ := built_of_whole h hwhole hlen hheap mem
        exact absurd hok hcode
      | none =>
        unfold pathBuild
        rw [hheap]
        split_ifs
        · rfl
        · rfl

theorem makeStringView_legal {str : List UInt8} (htext : ∀ b ∈ str, b ≠ 0) (hshort : str.length < uint32Max) :
    (makeStringView str).Legal := ⟨htext, le_rfl, hshort⟩

/-- the parts of `C:\a.txt` -/
def shortArgs : PathArgs where
  sepCh := none
  stemCompArr := some [makeStringView [67, 58]]
  fileName := some (makeStringView [97])
  extStr := some (makeStringView [116, 120, 116])

theorem build_short : Builds shortArgs := by
  have hviews : pathViews shortArgs = [[67, 58], [92], [97], [46], [116, 120, 116]].map makeStringView := rfl
  have hstrs : ∀ str ∈ ([[67, 58], [92], [97], [46], [116, 120, 116]] : List (List UInt8)),
      (∀ b ∈ str, b ≠ 0) ∧ str.length < uint32Max ∧ str ≠ [] := by simp [uint32Max]
  have hlegal : shortArgs.Legal := by
    refine ⟨Or.inl rfl, fun v hv => ?_⟩
    rw [hviews] at hv
    obtain ⟨str, hstr, rfl⟩ := List.mem_map.1 hv
    exact makeStringView_legal (hstrs str hstr).1 (hstrs str hstr).2.1
  refine (build_iff hlegal).2 ⟨fun v hv => ?_, by decide⟩
  rw [hviews] at hv
  obtain ⟨str, hstr, rfl⟩ := List.mem_map.1 hv
  exact ⟨rfl, (hstrs str hstr).2.2⟩

/-- a file name of 70 bytes -/
def longName : PathArgs := ⟨none, none, some (makeStringView (List.replicate 70 65)), none⟩

/-- the file name needs a resize, and the string still points to the block that was there before it -/
theorem build_broken : ¬ ∀ a : PathArgs, a.Legal → Builds a := by
  intro hall
  have hlegal : longName.Legal := by
    have hviews : pathViews longName = [makeStringView (List.replicate 70 65)] := rfl
    refine ⟨Or.inr (Or.inl (Option.some_ne_none _)), fun v hv => ?_⟩
    rw [hviews] at hv
    rw [List.mem_singleton.1 hv]
    refine makeStringView_legal (fun b hb => ?_) (by decide)
    rw [List.eq_of_mem_replicate hb]
    decide
  obtain ⟨s, -, hres, hcontent⟩ := (hall longName hlegal).built movingHeap (fun _ => 0) movingHeap_succeeds
  have hstr : (pathBuild longName movingHeap fun _ => 0).resStr.map (fun s => (s.str.charBuf, s.block.addr)) =
    some (4096, 8192) := by decide
  rw [hres, Option.map_some] at hstr
  obtain ⟨hbuf, hblock⟩ := Prod.mk.inj (Option.some.inj hstr)
  have hptr := hcontent.ptr
  rw [hbuf, hblock] at hptr
  exact absurd hptr (by decide)

end Result

end Noriko.Path
