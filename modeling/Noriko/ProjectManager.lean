/-
Opening a project (`ProjectManager::openProject` of `project.cpp`).

The file is read by Qt's `QXmlStreamReader`, which is not part of the source. It is a parameter, and `Documented` says what
the code may rely on: the reader goes from token to token of the document in the file, comes to `EndDocument` behind the last
token of a well-formed document, and stays at `Invalid` once it has found an error.

The loop of the parser stops at `EndDocument` and nowhere else. So it ends exactly for a well-formed document in which none of
the five elements that are read has an element within it; every other file makes it run forever (`open_iff`).
-/
import Noriko.Lib.While
import Noriko.Uuid

namespace Noriko.ProjectManager

open Lib

/-! ## The reader -/

/-- a token of a document -/
inductive Token where
  | startDocument
  | startElement (name : String)
  | endElement (name : String)
  | characters (text : String)
  | comment
  | dtd
  | entityReference (name text : String)
  | processingInstruction
deriving DecidableEq, Repr

/-- what is in a file: the tokens that can be read, and whether the document ends behind them or there is an error -/
structure Document where
  tokens : List Token
  wellFormed : Bool
deriving DecidableEq, Repr

/-- the current token of a reader -/
inductive Current where
  | noToken
  | token (t : Token)
  | endDocument
  | invalid
deriving DecidableEq, Repr

/-- where a reader is: at a token, with those that are still to come -/
structure View where
  current : Current
  rest : List Token
  wellFormed : Bool
deriving DecidableEq, Repr

/-- the calls of `QXmlStreamReader` on a reader of type `σ` -/
structure XmlReader (σ : Type) where
  ofFile : List UInt8 → σ
  isEndDocument : σ → Bool
  name : σ → String
  readElementText : σ → String × σ
  readNext : σ → σ

def Token.name : Token → String
  | .startElement name => name
  | .endElement name => name
  | .entityReference name _ => name
  | _ => ""

def View.name (v : View) : String :=
  match v.current with
  | .token t => t.name
  | _ => ""

/-- the position behind `rest` -/
def View.after (wellFormed : Bool) : List Token → View
  | t :: rest => ⟨.token t, rest, wellFormed⟩
  | [] => ⟨if wellFormed then .endDocument else .invalid, [], wellFormed⟩

def View.next (v : View) : View :=
  match v.current with
  | .invalid => v
  | _ => View.after v.wellFormed v.rest

/-- the text in front of the next tag -/
def textOf : List Token → String
  | .characters text :: rest => text ++ textOf rest
  | .entityReference _ text :: rest => text ++ textOf rest
  | .comment :: rest => textOf rest
  | .processingInstruction :: rest => textOf rest
  | _ => ""

/-- the position behind a text: a tag that ends it, or the error of one that does not -/
def afterText (wellFormed : Bool) : List Token → View
  | .characters _ :: rest => afterText wellFormed rest
  | .entityReference _ _ :: rest => afterText wellFormed rest
  | .comment :: rest => afterText wellFormed rest
  | .processingInstruction :: rest => afterText wellFormed rest
  | .endElement name :: rest => ⟨.token (.endElement name), rest, wellFormed⟩
  | rest => ⟨.invalid, rest, wellFormed⟩

def View.elementText (v : View) : String × View :=
  match v.current with
  | .token (.startElement _) => (textOf v.rest, afterText v.wellFormed v.rest)
  | _ => ("", v)

/-- the documented behaviour of a reader whose position is `view`, on a file that has `document` in it -/
structure Documented {σ : Type} (R : XmlReader σ) (document : List UInt8 → Document) (view : σ → View) : Prop where
  ofFile : ∀ content, view (R.ofFile content) = ⟨.noToken, (document content).tokens, (document content).wellFormed⟩
  isEndDocument : ∀ s, R.isEndDocument s = true ↔ (view s).current = .endDocument
  name : ∀ s, (view s).current ≠ .invalid → R.name s = (view s).name
  readElementText : ∀ s, (R.readElementText s).1 = (view s).elementText.1 ∧
    view (R.readElementText s).2 = (view s).elementText.2
  readNext : ∀ s, (view s).current ≠ .endDocument → view (R.readNext s) = (view s).next

/-! ## The code -/

/-- a project, with the members that it is made of -/
structure Project where
  uuid : NkUuid
  workingTitle : String
  authoringOrg : String
  productDescription : String
  qualifiedPath : String
deriving DecidableEq

/-- the local variables of `openProject` -/
structure Params where
  uuidStr : String
  wkTitle : String
  author : String
  brDesc : String
  rootPath : String
deriving DecidableEq, Repr

/-- the return value, the list of projects after the call, and the text of the message box if there is one -/
structure Opened where
  ret : Bool
  projVec : List Project
  message : Option String
deriving DecidableEq

def noFileText (projFilePath : String) : String :=
  "Could not open project file \"" ++ projFilePath ++ "\".\n\nCheck if the file path is valid and file permissions."

def malformedText (projFilePath : String) : String :=
  "Could not open project file \"" ++ projFilePath ++ "\". File is malformed."

def noInstanceText (projFilePath : String) : String :=
  "Could not instantiate project instance from project file " ++ projFilePath ++
    ". Check whether the file and all the data fields are encoded properly."

section Code

variable {σ : Type} (R : XmlReader σ) (cStr : String → ℕ → UInt8)

/-- the constructor of `Project`: what `NkUuidFromString` refuses is thrown. The bytes of a string are those at `cStr`. -/
def newProject (p : Params) : Except NkErrorCode Project :=
  let (cvtRes, uuidRep) := Uuid.uuidFromString (cStr p.uuidStr)
  if cvtRes ≠ .ok then .error cvtRes else .ok ⟨uuidRep, p.wkTitle, p.author, p.brDesc, p.rootPath⟩

/-- `if (currName == name) param = xmlReader.readElementText();` -/
def readParam (currName name : String) (set : Params → String → Params) (s : Params × σ) : Params × σ :=
  if currName = name then (set s.1 (R.readElementText s.2).1, (R.readElementText s.2).2) else s

/-- the body of the loop -/
def parseBody (s : Params × σ) : Params × σ :=
  let currName := R.name s.2
  let s := readParam R currName "uuid" (fun p text => { p with uuidStr := text }) s
  let s := readParam R currName "working_title" (fun p text => { p with wkTitle := text }) s
  let s := readParam R currName "project_author" (fun p text => { p with author := text }) s
  let s := readParam R currName "product_description" (fun p text => { p with brDesc := text }) s
  let s := readParam R currName "rootpath" (fun p text => { p with rootPath := text }) s
  (s.1, R.readNext s.2)

def parse (fuel : ℕ) (content : List UInt8) : Option (Params × σ) :=
  whileLoop (fun s => R.isEndDocument s.2) (parseBody R) fuel (⟨"", "", "", "", ""⟩, R.ofFile content)

/-- what follows the loop -/
def finishOpen (projFilePath : String) (projVec : List Project) (p : Params) : Opened :=
  if p.wkTitle = "" ∨ p.rootPath = "" then ⟨false, projVec, some (malformedText projFilePath)⟩
  else
    match newProject cStr p with
    | .ok newProj => ⟨true, projVec ++ [newProj], none⟩
    | .error _ => ⟨false, projVec, some (noInstanceText projFilePath)⟩

/-- `openProject`, with at most `fuel` rounds of the loop. `file` is the content of a file that can be opened. -/
def openProject (fuel : ℕ) (projFilePath : String) (file : Option (List UInt8)) (projVec : List Project) : Option Opened :=
  match file with
  | none => some ⟨false, projVec, some (noFileText projFilePath)⟩
  | some content => (parse R fuel content).map fun s => finishOpen cStr projFilePath projVec s.1

end Code

/-! ## What is right -/

def paramNames : List String := ["uuid", "working_title", "project_author", "product_description", "rootpath"]

/-- the text of the last element of a name, if there is one -/
def lastText (name : String) : List Token → Option String
  | [] => none
  | .startElement n :: rest => (lastText name rest).or (if n = name then some (textOf rest) else none)
  | _ :: rest => lastText name rest

/-- a well-formed document with a title and a root path that are not empty -/
structure Valid (d : Document) : Prop where
  wellFormed : d.wellFormed = true
  title : ∃ text ≠ "", lastText "working_title" d.tokens = some text
  rootPath : ∃ text ≠ "", lastText "rootpath" d.tokens = some text

/-- the call returns, and with `true` for valid documents only -/
structure OpensRight {σ : Type} (R : XmlReader σ) (cStr : String → ℕ → UInt8) (document : List UInt8 → Document)
    (projFilePath : String) (file : Option (List UInt8)) (projVec : List Project) : Prop where
  returns : ∃ fuel r, openProject R cStr fuel projFilePath file projVec = some r
  checked : ∀ fuel r, openProject R cStr fuel projFilePath file projVec = some r → r.ret = true →
    ∃ content, file = some content ∧ Valid (document content)

/-- a text comes to the end of its element -/
def TextEnds : List Token → Prop
  | .characters _ :: rest => TextEnds rest
  | .entityReference _ _ :: rest => TextEnds rest
  | .comment :: rest => TextEnds rest
  | .processingInstruction :: rest => TextEnds rest
  | .endElement _ :: _ => True
  | _ => False

/-- there are no elements within the elements that are read -/
def Readable : List Token → Prop
  | [] => True
  | .startElement name :: rest => (name ∈ paramNames → TextEnds rest) ∧ Readable rest
  | _ :: rest => Readable rest

/-! ## Positions -/

section Positions

variable {v : View} {wellFormed : Bool} {rest : List Token}

/-- the tokens that the loop has not been at -/
def View.pending (v : View) : List Token :=
  match v.current with
  | .token t => t :: v.rest
  | .noToken => v.rest
  | _ => []

/-- the position after a round -/
def View.read (v : View) : View := (if v.name ∈ paramNames then v.elementText.2 else v).next

/-- nothing wrong is ahead -/
def View.Good (v : View) : Prop :=
  v.current = .endDocument ∨ v.current ≠ .invalid ∧ v.wellFormed = true ∧ Readable v.pending

/-- the tokens ahead, and the end of the document -/
def View.left (v : View) : ℕ := v.rest.length + if v.current = .endDocument then 0 else 1

theorem pending_after : (View.after wellFormed rest).pending = rest := by
  cases rest with
  | cons t rest => rfl
  | nil => cases wellFormed <;> rfl

theorem good_after : (View.after wellFormed rest).Good ↔ wellFormed = true ∧ Readable rest := by
  cases rest with
  | cons t rest => simp [View.Good, View.after, View.pending]
  | nil => cases wellFormed <;> simp [View.Good, View.after, View.pending, Readable]

theorem left_after (hwf : wellFormed = true) : (View.after wellFormed rest).left = rest.length := by
  cases rest with
  | cons t rest => simp [View.left, View.after]
  | nil => simp [View.left, View.after, hwf]

theorem next_eq (h : v.current ≠ .invalid) : v.next = View.after v.wellFormed v.rest := by
  unfold View.next
  split
  · contradiction
  · rfl

/-- behind the text of an element the loop goes on, unless something else is in the element -/
theorem good_afterText :
    (afterText wellFormed rest).next.Good ↔ wellFormed = true ∧ TextEnds rest ∧ Readable rest := by
  fun_induction afterText wellFormed rest with
  | case1 _ _ ih | case2 _ _ _ ih | case3 _ ih | case4 _ ih => simpa only [TextEnds, Readable] using ih
  | case5 name rest =>
    rw [next_eq (by simp), good_after]
    simp [TextEnds, Readable]
  | case6 rest h1 h2 h3 h4 h5 =>
    have hends : ¬TextEnds rest := by
      rw [TextEnds] <;> simp_all
    simp [View.Good, View.next, hends]

theorem length_afterText (wellFormed : Bool) (hends : TextEnds rest) :
    (afterText wellFormed rest).current ≠ .invalid ∧ (afterText wellFormed rest).wellFormed = wellFormed ∧
      (afterText wellFormed rest).rest.length ≤ rest.length := by
  fun_induction afterText wellFormed rest with
  | case1 _ _ ih | case2 _ _ _ ih | case3 _ ih | case4 _ ih =>
    obtain ⟨hvalid, hwf, hle⟩ := ih hends
    exact ⟨hvalid, hwf, Nat.le_succ_of_le hle⟩
  | case5 name rest => simp
  | case6 rest h1 h2 h3 h4 h5 =>
    rw [TextEnds] at hends <;> simp_all

/-- a text has no element in it -/
theorem lastText_afterText (name : String) (hends : TextEnds rest) :
    lastText name (afterText wellFormed rest).rest = lastText name rest := by
  fun_induction afterText wellFormed rest with
  | case1 _ _ ih | case2 _ _ _ ih | case3 _ ih | case4 _ ih => exact ih hends
  | case5 name rest => rfl
  | case6 rest h1 h2 h3 h4 h5 =>
    rw [TextEnds] at hends <;> simp_all

/-- a round either goes on behind the current token or behind the text of an element that is read -/
theorem read_cases (hvalid : v.current ≠ .invalid) :
    (∃ name ∈ paramNames, v.current = .token (.startElement name) ∧ v.read = (afterText v.wellFormed v.rest).next) ∨
      (∀ name ∈ paramNames, v.current ≠ .token (.startElement name)) ∧ v.read = View.after v.wellFormed v.rest := by
  by_cases hstart : ∃ name ∈ paramNames, v.current = .token (.startElement name)
  · obtain ⟨name, hname, hv⟩ := hstart
    refine Or.inl ⟨name, hname, hv, ?_⟩
    simp [View.read, View.name, Token.name, View.elementText, hv, hname]
  · have hno : ∀ name ∈ paramNames, v.current ≠ .token (.startElement name) := fun name hname hv => hstart ⟨name, hname, hv⟩
    refine Or.inr ⟨hno, ?_⟩
    rw [← next_eq hvalid, View.read]
    split_ifs with hname
    · have htext : v.elementText.2 = v := by
        unfold View.elementText
        split
        · rename_i n hv
          rw [View.name, hv] at hname
          exact absurd hv (hno n hname)
        · rfl
      rw [htext]
    · rfl

theorem read_invalid (h : v.current = .invalid) : v.read = v := by
  simp [View.read, View.elementText, View.next, h]

/-- what is pending behind the current token is what makes the position good -/
theorem readable_pending (hend : v.current ≠ .endDocument) (hvalid : v.current ≠ .invalid)
    (hno : ∀ name ∈ paramNames, v.current ≠ .token (.startElement name)) : Readable v.pending ↔ Readable v.rest := by
  unfold View.pending
  cases hv : v.current with
  | noToken => rfl
  | token t =>
    cases t with
    | startElement name =>
      have hname : name ∉ paramNames := fun hmem => hno name hmem hv
      simp [Readable, hname]
    | _ => rfl
  | endDocument => exact absurd hv hend
  | invalid => exact absurd hv hvalid

theorem textEnds_rest {name : String} (hreadable : Readable v.pending) (hname : name ∈ paramNames)
    (hv : v.current = .token (.startElement name)) : TextEnds v.rest := by
  rw [View.pending, hv] at hreadable
  exact hreadable.1 hname

/-- a round does not change whether something wrong is ahead -/
theorem good_read (hend : v.current ≠ .endDocument) : v.read.Good ↔ v.Good := by
  by_cases hvalid : v.current = .invalid
  · rw [read_invalid hvalid]
  · have hgood : v.Good ↔ v.wellFormed = true ∧ Readable v.pending := by
      simp [View.Good, hend, hvalid]
    rcases read_cases hvalid with ⟨name, hname, hv, hread⟩ | ⟨hno, hread⟩
    · rw [hread, good_afterText, hgood, View.pending, hv]
      simp [Readable, hname]
    · rw [hread, good_after, hgood, readable_pending hend hvalid hno]

theorem left_read (hend : v.current ≠ .endDocument) (hgood : v.Good) : v.read.left < v.left := by
  obtain ⟨hvalid, hwf, hreadable⟩ := hgood.resolve_left hend
  have hleft : v.left = v.rest.length + 1 := by
    simp [View.left, hend]
  rcases read_cases hvalid with ⟨name, hname, hv, hread⟩ | ⟨hno, hread⟩
  · obtain ⟨hvalid', hwf', hle⟩ := length_afterText v.wellFormed (textEnds_rest hreadable hname hv)
    rw [hread, next_eq hvalid', left_after (hwf'.trans hwf)]
    omega
  · rw [hread, left_after hwf]
    omega

/-! ## The text of a parameter -/

/-- a parameter has the last text of its element that was read, or none if something else of that name came later -/
def Tracks (all : List Token) (name param : String) (v : View) : Prop :=
  ∃ last, lastText name all = (lastText name v.pending).or last ∧ (param = "" ∨ last = some param)

theorem lastText_read {name : String} (hname : name ∈ paramNames) (hend : v.current ≠ .endDocument) (hgood : v.Good) :
    lastText name v.pending = (lastText name v.read.pending).or
      (if v.current = .token (.startElement name) then some (textOf v.rest) else none) := by
  obtain ⟨hvalid, hwf, hreadable⟩ := hgood.resolve_left hend
  rcases read_cases hvalid with ⟨n, hn, hv, hread⟩ | ⟨hno, hread⟩
  · have hends := textEnds_rest hreadable hn hv
    obtain ⟨hvalid', -, -⟩ := length_afterText v.wellFormed hends
    rw [hread, next_eq hvalid', pending_after, lastText_afterText name hends, View.pending, hv]
    simp [lastText]
  · rw [hread, pending_after, if_neg (hno name hname), Option.or_none, View.pending]
    cases hv : v.current with
    | noToken => rfl
    | token t =>
      cases t with
      | startElement n =>
        have hne : n ≠ name := fun heq => hno name hname (heq ▸ hv)
        simp [lastText, hne]
      | _ => rfl
    | endDocument => exact absurd hv hend
    | invalid => exact absurd hv hvalid

theorem tracks_read {all : List Token} {name param : String} (hname : name ∈ paramNames) (hend : v.current ≠ .endDocument)
    (hgood : v.Good) (h : Tracks all name param v) :
    Tracks all name (if v.name = name then v.elementText.1 else param) v.read := by
  obtain ⟨last, hall, hparam⟩ := h
  rw [lastText_read hname hend hgood] at hall
  by_cases hstart : v.current = .token (.startElement name)
  · have hname : v.name = name := by
      simp [View.name, Token.name, hstart]
    have htext : v.elementText.1 = textOf v.rest := by
      simp [View.elementText, hstart]
    refine ⟨some (textOf v.rest), ?_, Or.inr ?_⟩
    · rw [hall, if_pos hstart, Option.or_assoc, Option.some_or]
    · rw [if_pos hname, htext]
  · rw [if_neg hstart, Option.or_none] at hall
    refine ⟨last, hall, ?_⟩
    split_ifs with hv
    · -- an end of an element or a reference: the text is empty
      left
      unfold View.elementText
      split
      · rename_i n hn
        rw [View.name, hn] at hv
        exact absurd (hv ▸ hn) hstart
      · rfl
    · exact hparam

end Positions

/-! ## The loop -/

section Parse

variable {σ : Type} {R : XmlReader σ} {cStr : String → ℕ → UInt8} {document : List UInt8 → Document} {view : σ → View}

/-- the names are different, so a round reads one parameter at most -/
theorem parseBody_eq (s : Params × σ) :
    (parseBody R s).1.wkTitle = (if R.name s.2 = "working_title" then (R.readElementText s.2).1 else s.1.wkTitle) ∧
      (parseBody R s).1.rootPath = (if R.name s.2 = "rootpath" then (R.readElementText s.2).1 else s.1.rootPath) ∧
      (parseBody R s).2 = R.readNext (if R.name s.2 ∈ paramNames then (R.readElementText s.2).2 else s.2) := by
  by_cases hname : R.name s.2 ∈ paramNames
  · rw [if_pos hname]
    simp only [paramNames, List.mem_cons, List.not_mem_nil, or_false] at hname
    rcases hname with h | h | h | h | h <;> simp [parseBody, readParam, h]
  · rw [if_neg hname]
    simp only [paramNames, List.mem_cons, List.not_mem_nil, or_false, not_or] at hname
    obtain ⟨h1, h2, h3, h4, h5⟩ := hname
    simp [parseBody, readParam, h1, h2, h3, h4, h5]

theorem afterText_ne_endDocument (wellFormed : Bool) (rest : List Token) :
    (afterText wellFormed rest).current ≠ .endDocument := by
  fun_induction afterText wellFormed rest with
  | case1 _ _ ih | case2 _ _ _ ih | case3 _ ih | case4 _ ih => exact ih
  | case5 | case6 => simp

theorem elementText_ne_endDocument {v : View} (hend : v.current ≠ .endDocument) : v.elementText.2.current ≠ .endDocument := by
  unfold View.elementText
  split
  · exact afterText_ne_endDocument v.wellFormed v.rest
  · exact hend

theorem view_parseBody (h : Documented R document view) {s : Params × σ} (hend : (view s.2).current ≠ .endDocument) :
    view (parseBody R s).2 = (view s.2).read := by
  obtain ⟨-, -, hsnd⟩ := parseBody_eq (R := R) s
  have htext := (h.readElementText s.2).2
  have hend' : (view (R.readElementText s.2).2).current ≠ .endDocument := by
    rw [htext]
    exact elementText_ne_endDocument hend
  rw [hsnd]
  by_cases hvalid : (view s.2).current = .invalid
  · -- the name says nothing, but no call moves the reader
    have hstay : (view s.2).elementText.2 = view s.2 := by
      simp [View.elementText, hvalid]
    rw [read_invalid hvalid]
    split_ifs
    · rw [h.readNext _ hend', htext, hstay, View.next, hvalid]
    · rw [h.readNext _ hend, View.next, hvalid]
  · rw [h.name s.2 hvalid, View.read]
    split_ifs
    · rw [h.readNext _ hend', htext]
    · exact h.readNext _ hend

/-- what holds in front of every round, for a file with the tokens `all` -/
structure LoopInv (view : σ → View) (all : List Token) (s : Params × σ) : Prop where
  good : (view s.2).Good
  title : Tracks all "working_title" s.1.wkTitle (view s.2)
  rootPath : Tracks all "rootpath" s.1.rootPath (view s.2)

theorem isEndDocument_false (h : Documented R document view) {s : σ} :
    R.isEndDocument s = false ↔ (view s).current ≠ .endDocument := by
  rw [Ne, ← h.isEndDocument, Bool.not_eq_true]

theorem loopInv_parseBody (h : Documented R document view) {all : List Token} {s : Params × σ}
    (hend : R.isEndDocument s.2 = false) (hinv : LoopInv view all s) : LoopInv view all (parseBody R s) := by
  rw [isEndDocument_false h] at hend
  obtain ⟨hvalid, -, -⟩ := hinv.good.resolve_left hend
  obtain ⟨htitle, hroot, -⟩ := parseBody_eq (R := R) s
  rw [h.name s.2 hvalid, (h.readElementText s.2).1] at htitle hroot
  refine ⟨?_, ?_, ?_⟩
  · rw [view_parseBody h hend]
    exact (good_read hend).2 hinv.good
  · rw [view_parseBody h hend, htitle]
    exact tracks_read (by decide) hend hinv.good hinv.title
  · rw [view_parseBody h hend, hroot]
    exact tracks_read (by decide) hend hinv.good hinv.rootPath

theorem tracks_start {all : List Token} {name : String} {wellFormed : Bool} : Tracks all name "" ⟨.noToken, all, wellFormed⟩ :=
  ⟨none, Option.or_none.symm, Or.inl rfl⟩

/-- at the end of the document a parameter that is not empty is the text of its element -/
theorem Tracks.lastText_eq {all : List Token} {name param : String} {v : View} (h : Tracks all name param v)
    (hend : v.current = .endDocument) (hne : param ≠ "") : lastText name all = some param := by
  obtain ⟨last, hall, hparam⟩ := h
  rw [hall, View.pending, hend, hparam.resolve_left hne]
  rfl

theorem good_start {tokens : List Token} {wellFormed : Bool} :
    (⟨.noToken, tokens, wellFormed⟩ : View).Good ↔ wellFormed = true ∧ Readable tokens := by
  simp [View.Good, View.pending]

theorem parse_ends (h : Documented R document view) {content : List UInt8} (hwf : (document content).wellFormed = true)
    (hreadable : Readable (document content).tokens) : ∃ fuel s, parse R fuel content = some s := by
  refine whileLoop_ends (fun s => (view s.2).left) (fun s hdone hgood => ?_) (I := fun s => (view s.2).Good) ?_
  · rw [isEndDocument_false h] at hdone
    rw [view_parseBody h hdone]
    exact ⟨(good_read hdone).2 hgood, left_read hdone hgood⟩
  · show (view (R.ofFile content)).Good
    rw [h.ofFile]
    exact good_start.2 ⟨hwf, hreadable⟩

theorem parse_never (h : Documented R document view) {content : List UInt8}
    (hbad : ¬((document content).wellFormed = true ∧ Readable (document content).tokens)) (fuel : ℕ) :
    parse R fuel content = none := by
  have hdone : ∀ s : Params × σ, ¬(view s.2).Good → R.isEndDocument s.2 = false := by
    intro s hs
    rw [isEndDocument_false h]
    exact fun hend => hs (Or.inl hend)
  refine whileLoop_never hdone (fun s hs => ?_) ?_ fuel
  · have hend := (isEndDocument_false h).1 (hdone s hs)
    rw [view_parseBody h hend, good_read hend]
    exact hs
  · show ¬(view (R.ofFile content)).Good
    rw [h.ofFile, good_start]
    exact hbad

/-- what the loop has read when it ends -/
theorem parse_spec (h : Documented R document view) {content : List UInt8} {fuel : ℕ} {s : Params × σ}
    (hparse : parse R fuel content = some s) : (document content).wellFormed = true ∧
      (s.1.wkTitle ≠ "" → lastText "working_title" (document content).tokens = some s.1.wkTitle) ∧
      (s.1.rootPath ≠ "" → lastText "rootpath" (document content).tokens = some s.1.rootPath) := by
  have hgood : (document content).wellFormed = true ∧ Readable (document content).tokens := by
    by_contra hbad
    rw [parse_never h hbad] at hparse
    cases hparse
  have hstart : LoopInv view (document content).tokens (⟨"", "", "", "", ""⟩, R.ofFile content) := by
    refine ⟨?_, ?_, ?_⟩ <;> simp only [h.ofFile]
    · exact good_start.2 hgood
    · exact tracks_start
    · exact tracks_start
  obtain ⟨hinv, hdone⟩ := whileLoop_inv (fun s hend hinv => loopInv_parseBody h hend hinv) hstart hparse
  have hend := (h.isEndDocument s.2).1 hdone
  exact ⟨hgood.1, hinv.title.lastText_eq hend, hinv.rootPath.lastText_eq hend⟩

theorem finishOpen_true {projFilePath : String} {projVec : List Project} {p : Params}
    (h : (finishOpen cStr projFilePath projVec p).ret = true) : p.wkTitle ≠ "" ∧ p.rootPath ≠ "" := by
  unfold finishOpen at h
  by_cases hempty : p.wkTitle = "" ∨ p.rootPath = ""
  · rw [if_pos hempty] at h
    cases h
  · exact not_or.1 hempty

/-- a project is opened as it should be exactly if its file is not one that the loop cannot get through -/
theorem open_iff (h : Documented R document view) (projFilePath : String) (file : Option (List UInt8))
    (projVec : List Project) :
    OpensRight R cStr document projFilePath file projVec ↔
      ∀ content, file = some content → (document content).wellFormed = true ∧ Readable (document content).tokens := by
  constructor
  · rintro ⟨⟨fuel, r, hr⟩, -⟩ content rfl
    by_contra hbad
    rw [openProject, parse_never h hbad] at hr
    cases hr
  · intro hfile
    cases file with
    | none => exact ⟨⟨0, _, rfl⟩, fun fuel r hr hret => by cases hr; cases hret⟩
    | some content =>
      obtain ⟨hwf, hreadable⟩ := hfile content rfl
      refine ⟨?_, fun fuel r hr hret => ?_⟩
      · obtain ⟨fuel, s, hs⟩ := parse_ends h hwf hreadable
        exact ⟨fuel, _, by rw [openProject, hs, Option.map_some]⟩
      · obtain ⟨s, hs, rfl⟩ := Option.map_eq_some_iff.1 hr
        obtain ⟨-, htitle, hroot⟩ := parse_spec h hs
        obtain ⟨hne1, hne2⟩ := finishOpen_true hret
        exact ⟨content, rfl, hwf, ⟨_, hne1, htitle hne1⟩, ⟨_, hne2, hroot hne2⟩⟩

end Parse

/-! ## A file of each kind -/

/-- the reader whose positions are the documented ones -/
def viewReader (document : List UInt8 → Document) : XmlReader View where
  ofFile content := ⟨.noToken, (document content).tokens, (document content).wellFormed⟩
  isEndDocument v := v.current = .endDocument
  name := View.name
  readElementText := View.elementText
  readNext := View.next

theorem documented_viewReader (document : List UInt8 → Document) : Documented (viewReader document) document id where
  ofFile _ := rfl
  isEndDocument _ := decide_eq_true_iff
  name _ _ := rfl
  readElementText _ := ⟨rfl, rfl⟩
  readNext _ _ := rfl

/-- `<p><working_title>a</working_title><rootpath>b</rootpath></p>` -/
def sampleFile : List UInt8 :=
  "<p><working_title>a</working_title><rootpath>b</rootpath></p>".toUTF8.toList

def sampleDocument (content : List UInt8) : Document :=
  if content = sampleFile then
    ⟨[.startDocument, .startElement "p", .startElement "working_title", .characters "a", .endElement "working_title",
      .startElement "rootpath", .characters "b", .endElement "rootpath", .endElement "p"], true⟩
  else ⟨[], false⟩

theorem open_iff_sample :
    OpensRight (viewReader sampleDocument) (fun _ _ => 0) sampleDocument "a.nkproj" (some sampleFile) [] := by
  refine (open_iff (documented_viewReader sampleDocument) "a.nkproj" (some sampleFile) []).2 fun content hfile => ?_
  obtain rfl := Option.some.inj hfile
  have hdoc : sampleDocument sampleFile = _ := if_pos rfl
  rw [hdoc]
  simp [Readable, TextEnds, paramNames]

/-- the loop never ends for an empty file -/
theorem open_empty_file :
    (∀ fuel, openProject (viewReader fun _ => ⟨[], false⟩) (fun _ _ => 0) fuel "a.nkproj" (some []) [] = none) ∧
      ¬OpensRight (viewReader fun _ => ⟨[], false⟩) (fun _ _ => 0) (fun _ => ⟨[], false⟩) "a.nkproj" (some []) [] := by
  have hnone : ∀ fuel, openProject (viewReader fun _ => ⟨[], false⟩) (fun _ _ => 0) fuel "a.nkproj" (some []) [] = none := by
    intro fuel
    rw [openProject, parse_never (documented_viewReader fun _ => ⟨[], false⟩) (fun h => Bool.false_ne_true h.1) fuel,
      Option.map_none]
  refine ⟨hnone, fun h => ?_⟩
  obtain ⟨fuel, r, hr⟩ := h.returns
  rw [hnone fuel] at hr
  cases hr

end Noriko.ProjectManager
