/-
Project files: what `createProject` of `project.cpp` writes and what `openProject` reads back.

A file is written by Qt's `QXmlStreamWriter`, which is not part of the source. It is a parameter, and `ReadBack` says what
its documentation promises for the tokens of a file that was written by some calls: one start tag, one text and one end tag
for each text element, and nothing but characters between the elements (the automatic formatting). A text may be in pieces.
That holds for texts that a document can have in it (`Plain`). An error on the way is not noticed: `createProject` has added
the project, and the file has whatever could be written. Directories are left out; `mkpath` may leave some when it fails.

- `parse_readBack`: the loop of `openProject` gets every text element back from any such file, whatever the calls were.
- `uuidFromString_qString`: the UUID comes back from its text.
- `projects_refine`: over every run, the manager and the disk behave as a store that keeps the last project created under a
  path. Opening a file of that store that could be written appends the project itself if its title and its path are not
  empty.
-/
import Noriko.Lib.Sim
import Noriko.ProjectManager

namespace Noriko.ProjectManager

open Lib

/-! ## The code -/

/-- the calls of `QXmlStreamWriter` -/
inductive WriterCall where
  | setAutoFormatting (enable : Bool)
  | setAutoFormattingIndent (spacesOrTabs : ℤ)
  | writeStartDocument
  | writeStartElement (name : String)
  | writeTextElement (name text : String)
  | writeEndElement
  | writeEndDocument
deriving DecidableEq, Repr

/-- what the code uses of Qt's strings and directories -/
structure Qt where
  cStr : String → ℕ → UInt8
  ofCStr : List UInt8 → String
  trimmed : String → String
  replace : String → String → String → String
  absolutePath : String → String
  toNativeSeparators : String → String

/-- `uuidToString` of `UniversallyNamedItem`: the text is in a buffer of 100 bytes that starts as zeros -/
def uuidToString (qt : Qt) (u : NkUuid) : String := qt.ofCStr ((List.range 100).map (Uuid.uuidToString u fun _ => 0))

/-- `writeRootXmlDocument`: the return value and the calls; there is no document without a device -/
def writeRootXmlDocument (qt : Qt) (p : Project) (ioDev : Bool) : Bool × List WriterCall :=
  if !ioDev then (false, [])
  else
    (true, [.setAutoFormatting true, .setAutoFormattingIndent 4, .writeStartDocument, .writeStartElement "nkproject",
      .writeTextElement "uuid" (uuidToString qt p.uuid), .writeTextElement "working_title" p.workingTitle,
      .writeTextElement "project_author" p.authoringOrg, .writeTextElement "product_description" p.productDescription,
      .writeTextElement "rootpath" p.qualifiedPath, .writeEndElement, .writeEndDocument])

def convertWorkingTitle (qt : Qt) (wkTitle : String) : String := qt.replace (qt.trimmed wkTitle) " " "_"

def createProjectPath (qt : Qt) (wkTitle parDir : String) : String := parDir ++ "/" ++ convertWorkingTitle qt wkTitle

/-- the project that `createProject` makes -/
def createdProject (qt : Qt) (wkTitle author prodDesc dirRoot : String) (uuid : NkUuid) : Project :=
  ⟨uuid, wkTitle, author, prodDesc, qt.toNativeSeparators (qt.absolutePath (createProjectPath qt wkTitle dirRoot))⟩

/-- the path of the file of a project -/
def projectFile (qt : Qt) (p : Project) : String :=
  p.qualifiedPath ++ "/" ++ convertWorkingTitle qt p.workingTitle ++ ".nkproj"

def noDirectoryText (path : String) : String :=
  "Could not create project directory \"" ++ path ++
    "\".\n\nCheck root directory permissions, path formatting, or disk space."

def notWritableText (path : String) : String :=
  "Could not open project file \"" ++ path ++ "\".\n\nCheck directory permissions and disk space."

def notWrittenText (wkTitle : String) : String :=
  "Could not create project file for project \"" ++ wkTitle ++ "\". Invalid I/O device."

/-- the projects of the manager, and the files on the disk. Paths that name the same file are the same `F`. -/
structure Manager (F : Type) where
  projVec : List Project
  files : F → Option (List UInt8)

/-- a call, with what the file system and the generator of UUIDs do in it; `short` is what is in the file if it is not what
was to be written -/
inductive ManagerCall where
  | createProject (wkTitle author prodDesc dirRoot : String) (uuid : NkUuid) (mkpath canOpen : Bool)
      (short : Option (List UInt8))
  | openProject (projFilePath : String) (canOpen : Bool) (fuel : ℕ)

section Code

variable {σ F : Type} [DecidableEq F] (qt : Qt) (R : XmlReader σ) (writer : List WriterCall → List UInt8)
  (fileAt : String → F)

/-- `int_WriteProjectFile`: the return value, the files and the message boxes -/
def intWriteProjectFile (canOpen : Bool) (short : Option (List UInt8)) (files : F → Option (List UInt8)) (p : Project) :
    Bool × (F → Option (List UInt8)) × List String :=
  if !canOpen then (false, files, [notWritableText (projectFile qt p)])
  else
    let (ret, calls) := writeRootXmlDocument qt p true
    -- the writer and the device are not asked for errors
    (ret, Function.update files (fileAt (projectFile qt p)) (some (short.getD (writer calls))), [])

/-- `createProject` -/
def createProject (s : Manager F) (wkTitle author prodDesc dirRoot : String) (uuid : NkUuid) (mkpath canOpen : Bool)
    (short : Option (List UInt8)) : (Bool × List String) × Manager F :=
  if !mkpath then ((false, [noDirectoryText (qt.absolutePath (createProjectPath qt wkTitle dirRoot))]), s)
  else
    let proj := createdProject qt wkTitle author prodDesc dirRoot uuid
    let (ret, files, messages) := intWriteProjectFile qt writer fileAt canOpen short s.files proj
    if !ret then ((false, messages ++ [notWrittenText wkTitle]), ⟨s.projVec, files⟩)
    else ((true, messages), ⟨s.projVec ++ [proj], files⟩)

/-- a call: its return value with the message boxes, and the state after it -/
def managerStep (s : Manager F) : ManagerCall → Option ((Bool × List String) × Manager F)
  | .createProject wkTitle author prodDesc dirRoot uuid mkpath canOpen short =>
    some (createProject qt writer fileAt s wkTitle author prodDesc dirRoot uuid mkpath canOpen short)
  | .openProject projFilePath canOpen fuel =>
    let file := if canOpen then s.files (fileAt projFilePath) else none
    (openProject R qt.cStr fuel projFilePath file s.projVec).map fun r =>
      ((r.ret, r.message.toList), { s with projVec := r.projVec })

end Code

/-! ## What Qt promises -/

/-- the tokens of what was written by some calls, with the elements that are open in front of them -/
inductive ReadBack : List String → List WriterCall → List Token → Prop
  | setAutoFormatting {opened calls tokens} (enable : Bool) : ReadBack opened calls tokens →
      ReadBack opened (.setAutoFormatting enable :: calls) tokens
  | setAutoFormattingIndent {opened calls tokens} (spacesOrTabs : ℤ) : ReadBack opened calls tokens →
      ReadBack opened (.setAutoFormattingIndent spacesOrTabs :: calls) tokens
  | startDocument {opened calls tokens} : ReadBack opened calls tokens →
      ReadBack opened (.writeStartDocument :: calls) (.startDocument :: tokens)
  | startElement {opened calls tokens} (name : String) (blanks : List String) : ReadBack (name :: opened) calls tokens →
      ReadBack opened (.writeStartElement name :: calls) (blanks.map .characters ++ .startElement name :: tokens)
  | textElement {opened calls tokens} (name text : String) (blanks pieces : List String)
      (htext : String.join pieces = text) : ReadBack opened calls tokens →
      ReadBack opened (.writeTextElement name text :: calls)
        (blanks.map .characters ++ .startElement name :: (pieces.map .characters ++ .endElement name :: tokens))
  | endElement {opened calls tokens} (name : String) (blanks : List String) : ReadBack opened calls tokens →
      ReadBack (name :: opened) (.writeEndElement :: calls) (blanks.map .characters ++ .endElement name :: tokens)
  | endDocument (blanks : List String) : ReadBack [] [.writeEndDocument] (blanks.map .characters)

/-- what is in a file that was written by some calls -/
structure Kept (d : Document) (calls : List WriterCall) : Prop where
  wellFormed : d.wellFormed = true
  readBack : ReadBack [] calls d.tokens

/-- a text that a document can have in it, and that is the same when it is read: no carriage return, which is read as the
end of a line, and no other control character -/
def Plain (text : String) : Prop :=
  ∀ c ∈ text.toList, c = '\t' ∨ c = '\n' ∨ 0x20 ≤ c.toNat ∧ c.toNat ≠ 0xfffe ∧ c.toNat ≠ 0xffff

instance (text : String) : Decidable (Plain text) := inferInstanceAs (Decidable (∀ c ∈ text.toList, _))

/-- all texts of a project are such texts; that of its UUID is one -/
def PlainProject (p : Project) : Prop :=
  Plain p.workingTitle ∧ Plain p.authoringOrg ∧ Plain p.productDescription ∧ Plain p.qualifiedPath

instance (p : Project) : Decidable (PlainProject p) := inferInstanceAs (Decidable (_ ∧ _))

/-- a C string of ASCII characters becomes a `QString`, and that becomes the same C string -/
def Qt.KeepsAscii (qt : Qt) : Prop :=
  ∀ l rest : List UInt8, (∀ c ∈ l, c ≠ 0 ∧ c < 0x80) → Holds (qt.cStr (qt.ofCStr (l ++ 0 :: rest))) 0 (l ++ [0])

/-! ## The text of a UUID -/

section Uuid

variable {qt : Qt}

theorem isHex_lt {c : UInt8} : Uuid.IsHex c → c < 0x80 :=
  Uuid.forall_uint8 (P := fun c => Uuid.IsHex c → c < 0x80) (by decide +kernel) c

/-- the text of a UUID is made of digits and hyphens -/
theorem mem_layout {ps : List (UInt8 × UInt8)} {i : ℕ} {c : UInt8} (hhex : Uuid.HexPairs ps) (hc : c ∈ Uuid.layout ps i) :
    c = Uuid.chHyphen ∨ Uuid.IsHex c := by
  induction ps generalizing i with
  | nil => cases hc
  | cons q ps ih =>
    have hrest : Uuid.HexPairs ps := fun x hx => hhex x (List.mem_cons_of_mem q hx)
    obtain ⟨hfst, hsnd⟩ := hhex q List.mem_cons_self
    rw [Uuid.layout, List.mem_append, List.mem_cons, List.mem_cons] at hc
    rcases hc with hc | rfl | rfl | hc
    · split_ifs at hc
      · exact Or.inl (List.mem_singleton.1 hc)
      · cases hc
    · exact Or.inr hfst
    · exact Or.inr hsnd
    · exact ih hrest hc

theorem ascii_text (u : NkUuid) : ∀ c ∈ Uuid.text u, c ≠ 0 ∧ c < 0x80 := by
  intro c hc
  rcases mem_layout (Uuid.hexPairs_digits u.asByte) hc with rfl | hhex
  · decide
  · exact ⟨hhex.ne.1, isHex_lt hhex⟩

/-- the buffer of `uuidToString`: the text and zeros -/
theorem buffer_eq (u : NkUuid) :
    (List.range 100).map (Uuid.uuidToString u fun _ => 0) = Uuid.text u ++ 0 :: List.replicate 63 0 := by
  obtain ⟨hholds, hrest⟩ := Uuid.uuidToString_spec u fun _ => 0
  have hlen := Uuid.length_text u
  refine List.ext_getElem (by simp [hlen]) fun k hk _ => ?_
  rw [List.length_map, List.length_range] at hk
  rw [List.getElem_map, List.getElem_range]
  by_cases hin : k < 37
  · have hcell := hholds k (by rw [List.length_append, hlen]; simpa using hin)
    rw [Nat.zero_add] at hcell
    rw [hcell]
    by_cases htext : k < 36
    · rw [List.getElem_append_left (by omega), List.getElem_append_left (by omega)]
    · obtain rfl : k = 36 := by omega
      rw [List.getElem_append_right (by omega), List.getElem_append_right (by omega)]
      simp [hlen]
  · obtain ⟨d, rfl⟩ := Nat.exists_eq_add_of_le (Nat.le_of_not_lt hin)
    rw [hrest _ (by omega), List.getElem_append_right (by omega), List.getElem_cons, dif_neg (by omega),
      List.getElem_replicate]

/-- the UUID that `uuidToString` gives the text of is read from it -/
theorem uuidFromString_qString (hqt : qt.KeepsAscii) (u : NkUuid) :
    Uuid.uuidFromString (qt.cStr (uuidToString qt u)) = (.ok, u) := by
  have hmem : Holds (qt.cStr (uuidToString qt u)) 0 (Uuid.text u ++ [0]) := by
    rw [uuidToString, buffer_eq]
    exact hqt (Uuid.text u) (List.replicate 63 0) (ascii_text u)
  have hlen : (u.asByte.map Uuid.digits).length = 16 := by
    rw [List.length_map, u.size]
  have hread := Uuid.uuidFromString_layout hlen (Uuid.hexPairs_digits _) (holds_append.1 hmem).1
  have hbytes : (u.asByte.map Uuid.digits).map Uuid.byteOf = u.asByte := by
    rw [List.map_map]
    exact List.map_id'' Uuid.byteOf_digits _
  simpa only [hbytes] using hread

end Uuid

/-! ## Reading what was written -/

/-- the loop sets the parameter of an element it has read the text of -/
def Params.set (p : Params) (name text : String) : Params where
  uuidStr := if name = "uuid" then text else p.uuidStr
  wkTitle := if name = "working_title" then text else p.wkTitle
  author := if name = "project_author" then text else p.author
  brDesc := if name = "product_description" then text else p.brDesc
  rootPath := if name = "rootpath" then text else p.rootPath

/-- the parameters behind some calls -/
def readCalls : List WriterCall → Params → Params
  | [], p => p
  | .writeTextElement name text :: calls, p => readCalls calls (p.set name text)
  | _ :: calls, p => readCalls calls p

section Read

variable {σ : Type} {R : XmlReader σ} {document : List UInt8 → Document} {view : σ → View} {wellFormed : Bool}
  {name : String} {rest : List Token}

theorem empty_notMem : "" ∉ paramNames := by decide

theorem set_other (p : Params) (text : String) (hname : name ∉ paramNames) : p.set name text = p := by
  simp only [paramNames, List.mem_cons, List.not_mem_nil, or_false, not_or] at hname
  obtain ⟨h1, h2, h3, h4, h5⟩ := hname
  simp [Params.set, h1, h2, h3, h4, h5]

/-- a round reads one parameter at most -/
theorem parseBody_set (s : Params × σ) :
    parseBody R s =
      if R.name s.2 ∈ paramNames then (s.1.set (R.name s.2) (R.readElementText s.2).1, R.readNext (R.readElementText s.2).2)
      else (s.1, R.readNext s.2) := by
  by_cases hname : R.name s.2 ∈ paramNames
  · rw [if_pos hname]
    simp only [paramNames, List.mem_cons, List.not_mem_nil, or_false] at hname
    rcases hname with h | h | h | h | h <;> simp [parseBody, readParam, Params.set, h]
  · rw [if_neg hname]
    simp only [paramNames, List.mem_cons, List.not_mem_nil, or_false, not_or] at hname
    obtain ⟨h1, h2, h3, h4, h5⟩ := hname
    simp [parseBody, readParam, h1, h2, h3, h4, h5]

theorem textOf_pieces (pieces : List String) :
    textOf (pieces.map .characters ++ .endElement name :: rest) = String.join pieces := by
  induction pieces with
  | nil => rfl
  | cons piece pieces ih => rw [List.map_cons, List.cons_append, textOf, ih, String.join_cons]

theorem afterText_pieces (pieces : List String) :
    afterText wellFormed (pieces.map .characters ++ .endElement name :: rest) =
      ⟨.token (.endElement name), rest, wellFormed⟩ := by
  induction pieces with
  | nil => rfl
  | cons piece pieces ih => rw [List.map_cons, List.cons_append, afterText, ih]

theorem textEnds_pieces (pieces : List String) : TextEnds (pieces.map .characters ++ .endElement name :: rest) := by
  induction pieces with
  | nil => trivial
  | cons piece pieces ih => exact ih

theorem readable_blanks (blanks : List String) : Readable (blanks.map .characters ++ rest) ↔ Readable rest := by
  induction blanks with
  | nil => rfl
  | cons blank blanks ih => exact ih

/-- no element that is read has anything but its text in it -/
theorem readable_of_readBack {opened : List String} {calls : List WriterCall} {tokens : List Token}
    (h : ReadBack opened calls tokens) (hcalls : ∀ n, .writeStartElement n ∈ calls → n ∉ paramNames) : Readable tokens := by
  induction h with
  | setAutoFormatting _ _ ih | setAutoFormattingIndent _ _ ih | startDocument _ ih =>
    exact ih fun n hn => hcalls n (List.mem_cons_of_mem _ hn)
  | startElement name blanks _ ih =>
    rw [readable_blanks]
    exact ⟨fun hname => absurd hname (hcalls name List.mem_cons_self), ih fun n hn => hcalls n (List.mem_cons_of_mem _ hn)⟩
  | textElement name text blanks pieces _ _ ih =>
    rw [readable_blanks]
    refine ⟨fun _ => textEnds_pieces pieces, ?_⟩
    rw [readable_blanks]
    exact ih fun n hn => hcalls n (List.mem_cons_of_mem _ hn)
  | endElement name blanks _ ih =>
    rw [readable_blanks]
    exact ih fun n hn => hcalls n (List.mem_cons_of_mem _ hn)
  | endDocument blanks =>
    rw [← List.append_nil (blanks.map Token.characters), readable_blanks]
    trivial

/-- the loop from a state that is at `rest` on: every end of it is one from `s` -/
def Leads (R : XmlReader σ) (s s' : Params × σ) : Prop :=
  ∀ fuel t, whileLoop (fun s => R.isEndDocument s.2) (parseBody R) fuel s = some t →
    ∃ fuel', whileLoop (fun s => R.isEndDocument s.2) (parseBody R) fuel' s' = some t

theorem Leads.refl (s : Params × σ) : Leads R s s := fun fuel _ ht => ⟨fuel, ht⟩

theorem Leads.trans {s s' s'' : Params × σ} (h : Leads R s s') (h' : Leads R s' s'') : Leads R s s'' := by
  intro fuel t ht
  obtain ⟨fuel', ht'⟩ := h fuel t ht
  exact h' fuel' t ht'

theorem leads_parseBody (h : Documented R document view) {s : Params × σ} (hend : (view s.2).current ≠ .endDocument) :
    Leads R s (parseBody R s) :=
  fun _ _ ht => whileLoop_step ((isEndDocument_false h).2 hend) ht

/-- a token whose name is not one of the five is passed -/
theorem leads_token (h : Documented R document view) {s : Params × σ} {token : Token} (hname : token.name ∉ paramNames)
    (hv : view s.2 = View.after wellFormed (token :: rest)) :
    ∃ x, Leads R s (s.1, x) ∧ view x = View.after wellFormed rest := by
  have hend : (view s.2).current ≠ .endDocument := by
    rw [hv]
    simp [View.after]
  have hvalid : (view s.2).current ≠ .invalid := by
    rw [hv]
    simp [View.after]
  have hother : R.name s.2 ∉ paramNames := by
    rwa [h.name s.2 hvalid, hv]
  have hbody : parseBody R s = (s.1, R.readNext s.2) := by
    rw [parseBody_set, if_neg hother]
  refine ⟨R.readNext s.2, hbody ▸ leads_parseBody h hend, ?_⟩
  rw [h.readNext s.2 hend, hv]
  rfl

theorem leads_blanks (h : Documented R document view) (blanks : List String) {s : Params × σ}
    (hv : view s.2 = View.after wellFormed (blanks.map .characters ++ rest)) :
    ∃ x, Leads R s (s.1, x) ∧ view x = View.after wellFormed rest := by
  induction blanks generalizing s with
  | nil => exact ⟨s.2, Leads.refl s, hv⟩
  | cons blank blanks ih =>
    obtain ⟨x, hleads, hx⟩ := leads_token h (show (Token.characters blank).name ∉ paramNames from empty_notMem) hv
    obtain ⟨y, hleads', hy⟩ := ih (s := (s.1, x)) hx
    exact ⟨y, hleads.trans hleads', hy⟩

/-- one of the five elements is read, and so is any other that has a text in it -/
theorem leads_element (h : Documented R document view) (pieces : List String) {s : Params × σ}
    (hv : view s.2 = View.after wellFormed (.startElement name :: (pieces.map .characters ++ .endElement name :: rest))) :
    ∃ x, Leads R s (s.1.set name (String.join pieces), x) ∧ view x = View.after wellFormed rest := by
  by_cases hname : name ∈ paramNames
  · have hend : (view s.2).current ≠ .endDocument := by
      rw [hv]
      simp [View.after]
    have hvalid : (view s.2).current ≠ .invalid := by
      rw [hv]
      simp [View.after]
    have hthis : R.name s.2 = name := by
      rw [h.name s.2 hvalid, hv]
      rfl
    obtain ⟨htext, hafter⟩ := h.readElementText s.2
    have hsnd : view (R.readElementText s.2).2 = ⟨.token (.endElement name), rest, wellFormed⟩ := by
      rw [hafter, hv]
      exact afterText_pieces pieces
    have hfst : (R.readElementText s.2).1 = String.join pieces := by
      rw [htext, hv]
      exact textOf_pieces pieces
    have hbody : parseBody R s = (s.1.set name (String.join pieces), R.readNext (R.readElementText s.2).2) := by
      rw [parseBody_set, if_pos (hthis ▸ hname), hthis, hfst]
    refine ⟨R.readNext (R.readElementText s.2).2, hbody ▸ leads_parseBody h hend, ?_⟩
    rw [h.readNext _ (by rw [hsnd]; simp), hsnd]
    rfl
  · -- the start, the text and the end are passed one after the other
    rw [set_other s.1 _ hname]
    obtain ⟨x, hleads, hx⟩ := leads_token h (show (Token.startElement name).name ∉ paramNames from hname) hv
    obtain ⟨y, hleads', hy⟩ := leads_blanks h pieces (s := (s.1, x)) hx
    obtain ⟨z, hleads'', hz⟩ := leads_token h (s := (s.1, y)) (show (Token.endElement name).name ∉ paramNames from hname) hy
    exact ⟨z, (hleads.trans hleads').trans hleads'', hz⟩

/-- what was written by some calls is read back from where they start -/
theorem leads_readBack (h : Documented R document view) {opened : List String} {calls : List WriterCall}
    {tokens : List Token} (hread : ReadBack opened calls tokens) (hopened : ∀ n ∈ opened, n ∉ paramNames)
    (hcalls : ∀ n, .writeStartElement n ∈ calls → n ∉ paramNames) {s : Params × σ}
    (hv : view s.2 = View.after wellFormed tokens) :
    ∃ x, Leads R s (readCalls calls s.1, x) ∧ view x = View.after wellFormed [] := by
  induction hread generalizing s with
  | setAutoFormatting _ _ ih | setAutoFormattingIndent _ _ ih =>
    exact ih hopened (fun n hn => hcalls n (List.mem_cons_of_mem _ hn)) hv
  | startDocument _ ih =>
    obtain ⟨x, hleads, hx⟩ := leads_token h (by decide : Token.startDocument.name ∉ paramNames) hv
    obtain ⟨y, hleads', hy⟩ := ih hopened (fun n hn => hcalls n (List.mem_cons_of_mem _ hn)) (s := (s.1, x)) hx
    exact ⟨y, hleads.trans hleads', hy⟩
  | startElement name blanks _ ih =>
    have hname : name ∉ paramNames := hcalls name List.mem_cons_self
    obtain ⟨x, hleads, hx⟩ := leads_blanks h blanks hv
    have hstart : (Token.startElement name).name ∉ paramNames := hname
    obtain ⟨y, hleads', hy⟩ := leads_token h (s := (s.1, x)) hstart hx
    obtain ⟨z, hleads'', hz⟩ := ih (List.forall_mem_cons.2 ⟨hname, hopened⟩)
      (fun n hn => hcalls n (List.mem_cons_of_mem _ hn)) (s := (s.1, y)) hy
    exact ⟨z, (hleads.trans hleads').trans hleads'', hz⟩
  | textElement name text blanks pieces htext _ ih =>
    obtain ⟨x, hleads, hx⟩ := leads_blanks h blanks hv
    obtain ⟨y, hleads', hy⟩ := leads_element h pieces (s := (s.1, x)) hx
    obtain ⟨z, hleads'', hz⟩ := ih hopened (fun n hn => hcalls n (List.mem_cons_of_mem _ hn))
      (s := (s.1.set name (String.join pieces), y)) hy
    rw [htext] at hleads' hleads''
    exact ⟨z, (hleads.trans hleads').trans hleads'', hz⟩
  | endElement name blanks _ ih =>
    obtain ⟨hname, hopened'⟩ := List.forall_mem_cons.1 hopened
    obtain ⟨x, hleads, hx⟩ := leads_blanks h blanks hv
    obtain ⟨y, hleads', hy⟩ := leads_token h (s := (s.1, x)) (show (Token.endElement name).name ∉ paramNames from hname) hx
    obtain ⟨z, hleads'', hz⟩ := ih hopened' (fun n hn => hcalls n (List.mem_cons_of_mem _ hn)) (s := (s.1, y)) hy
    exact ⟨z, (hleads.trans hleads').trans hleads'', hz⟩
  | endDocument blanks =>
    rw [← List.append_nil (blanks.map Token.characters)] at hv
    exact leads_blanks h blanks hv

/-- the loop ends for a file that was written, with the texts of the calls -/
theorem parse_readBack (h : Documented R document view) {content : List UInt8} {calls : List WriterCall}
    (hkept : Kept (document content) calls) (hcalls : ∀ n, .writeStartElement n ∈ calls → n ∉ paramNames) :
    (∃ fuel s, parse R fuel content = some s) ∧
      ∀ fuel s, parse R fuel content = some s → s.1 = readCalls calls ⟨"", "", "", "", ""⟩ := by
  obtain ⟨hwf, hread⟩ := hkept
  refine ⟨parse_ends h hwf (readable_of_readBack hread hcalls), fun fuel s hs => ?_⟩
  -- the first round is at no token
  have hstart : view (R.ofFile content) = ⟨.noToken, (document content).tokens, true⟩ := by
    rw [h.ofFile, hwf]
  have hend : (view (R.ofFile content)).current ≠ .endDocument := by
    rw [hstart]
    simp
  have hname : R.name (R.ofFile content) ∉ paramNames := by
    rw [h.name _ (by rw [hstart]; simp), hstart]
    exact empty_notMem
  have hbody : parseBody R (⟨"", "", "", "", ""⟩, R.ofFile content) =
      (⟨"", "", "", "", ""⟩, R.readNext (R.ofFile content)) := by
    rw [parseBody_set, if_neg hname]
  have hnext : view (R.readNext (R.ofFile content)) = View.after true (document content).tokens := by
    rw [h.readNext _ hend, hstart]
    rfl
  obtain ⟨x, hleads, hx⟩ := leads_readBack h hread (by simp) hcalls
    (s := (⟨"", "", "", "", ""⟩, R.readNext (R.ofFile content))) hnext
  obtain ⟨fuel', hlast⟩ := ((hbody ▸ leads_parseBody h hend : Leads R _ _).trans hleads) fuel s hs
  have hdone : R.isEndDocument x = true := by
    rw [h.isEndDocument, hx]
    rfl
  rw [whileLoop_done (s := (readCalls calls ⟨"", "", "", "", ""⟩, x)) hdone hlast]

end Read

/-! ## The store of projects -/

/-- a file of the disk: that of a project that was created, or another one -/
inductive Content where
  | project (p : Project)
  | other

/-- the projects of the manager, and what the files are -/
structure Store (F : Type) where
  projVec : List Project
  saved : F → Option Content

/-- a project that is not refused when it is opened -/
def Openable (p : Project) : Prop := p.workingTitle ≠ "" ∧ p.qualifiedPath ≠ ""

section Store

variable {σ F : Type} [DecidableEq F] (qt : Qt) (R : XmlReader σ) (writer : List WriterCall → List UInt8)
  (fileAt : String → F) (document : List UInt8 → Document)

/-- what a call that returns may do to a store: creating a project replaces the file at its path, and opening it appends it
again, if it could be written -/
def StoreSpec (m : Store F) : ManagerCall → Bool × List String → Store F → Prop
  | .createProject wkTitle author prodDesc dirRoot uuid mkpath canOpen short, r, m' =>
    if mkpath && canOpen then
      let p := createdProject qt wkTitle author prodDesc dirRoot uuid
      let content := if short = none ∧ PlainProject p then .project p else .other
      r = (true, []) ∧ m' = ⟨m.projVec ++ [p], Function.update m.saved (fileAt (projectFile qt p)) (some content)⟩
    else r.1 = false ∧ r.2 ≠ [] ∧ m' = m
  | .openProject projFilePath canOpen _, r, m' =>
    match if canOpen then m.saved (fileAt projFilePath) else none with
    | none => r = (false, [noFileText projFilePath]) ∧ m' = m
    | some (.project p) =>
      (Openable p → r = (true, []) ∧ m' = { m with projVec := m.projVec ++ [p] }) ∧
        (¬Openable p → r = (false, [malformedText projFilePath]) ∧ m' = m)
    | some .other =>
      r.1 = true ∧ (∃ p, m' = { m with projVec := m.projVec ++ [p] }) ∨ r.1 = false ∧ r.2 ≠ [] ∧ m' = m

/-- the manager and the disk are the store -/
structure Stores (s : Manager F) (m : Store F) : Prop where
  projVec : m.projVec = s.projVec
  missing : ∀ f, m.saved f = none ↔ s.files f = none
  kept : ∀ f p, m.saved f = some (.project p) →
    ∃ content, s.files f = some content ∧ Kept (document content) (writeRootXmlDocument qt p true).2

/-- what the writer makes of a project with plain texts is read as documented -/
def CallKept : ManagerCall → Prop
  | .createProject wkTitle author prodDesc dirRoot uuid _ _ _ =>
    let p := createdProject qt wkTitle author prodDesc dirRoot uuid
    let calls := (writeRootXmlDocument qt p true).2
    PlainProject p → Kept (document (writer calls)) calls
  | .openProject _ _ _ => True

variable {qt R writer fileAt document} {view : σ → View}

theorem createProject_true (s : Manager F) (wkTitle author prodDesc dirRoot : String) (uuid : NkUuid)
    (short : Option (List UInt8)) :
    let p := createdProject qt wkTitle author prodDesc dirRoot uuid
    let content := short.getD (writer (writeRootXmlDocument qt p true).2)
    createProject qt writer fileAt s wkTitle author prodDesc dirRoot uuid true true short =
      ((true, []), ⟨s.projVec ++ [p], Function.update s.files (fileAt (projectFile qt p)) (some content)⟩) := rfl

variable (qt writer fileAt) in
theorem createProject_false (s : Manager F) (wkTitle author prodDesc dirRoot : String) (uuid : NkUuid)
    {mkpath canOpen : Bool} (short : Option (List UInt8)) (h : (mkpath && canOpen) = false) :
    ∃ messages ≠ [], createProject qt writer fileAt s wkTitle author prodDesc dirRoot uuid mkpath canOpen short =
      ((false, messages), s) := by
  cases mkpath with
  | false => exact ⟨_, by simp, rfl⟩
  | true =>
    cases canOpen with
    | false => exact ⟨_, by simp, rfl⟩
    | true => cases h

theorem finishOpen_project (hqt : qt.KeepsAscii) (projFilePath : String) (projVec : List Project) (p : Project) :
    finishOpen qt.cStr projFilePath projVec
        ⟨uuidToString qt p.uuid, p.workingTitle, p.authoringOrg, p.productDescription, p.qualifiedPath⟩ =
      if p.workingTitle = "" ∨ p.qualifiedPath = "" then ⟨false, projVec, some (malformedText projFilePath)⟩
      else ⟨true, projVec ++ [p], none⟩ := by
  have hnew : newProject qt.cStr
      ⟨uuidToString qt p.uuid, p.workingTitle, p.authoringOrg, p.productDescription, p.qualifiedPath⟩ = .ok p := by
    simp [newProject, uuidFromString_qString hqt]
  simp only [finishOpen, hnew]

/-- the file of a project: the call returns, and with the project itself -/
theorem openProject_kept (h : Documented R document view) (hqt : qt.KeepsAscii) {content : List UInt8} {p : Project}
    (hkept : Kept (document content) (writeRootXmlDocument qt p true).2) (projFilePath : String) (projVec : List Project) :
    (∃ fuel r, openProject R qt.cStr fuel projFilePath (some content) projVec = some r) ∧
      ∀ fuel r, openProject R qt.cStr fuel projFilePath (some content) projVec = some r →
        r = if p.workingTitle = "" ∨ p.qualifiedPath = "" then ⟨false, projVec, some (malformedText projFilePath)⟩
          else ⟨true, projVec ++ [p], none⟩ := by
  have hcalls : ∀ n, .writeStartElement n ∈ (writeRootXmlDocument qt p true).2 → n ∉ paramNames := by
    intro n hn
    obtain rfl : n = "nkproject" := by simpa [writeRootXmlDocument] using hn
    decide
  have hread : readCalls (writeRootXmlDocument qt p true).2 ⟨"", "", "", "", ""⟩ =
      ⟨uuidToString qt p.uuid, p.workingTitle, p.authoringOrg, p.productDescription, p.qualifiedPath⟩ := by
    simp [writeRootXmlDocument, readCalls, Params.set]
  obtain ⟨⟨fuel, s, hs⟩, hval⟩ := parse_readBack h hkept hcalls
  constructor
  · exact ⟨fuel, _, by rw [openProject, hs, Option.map_some]⟩
  · intro fuel r hr
    obtain ⟨s, hs, rfl⟩ := Option.map_eq_some_iff.1 hr
    rw [hval fuel s hs, hread, finishOpen_project hqt]

/-- any file: one project is appended, or none -/
theorem finishOpen_cases (cStr : String → ℕ → UInt8) (projFilePath : String) (projVec : List Project) (q : Params) :
    (∃ p, finishOpen cStr projFilePath projVec q = ⟨true, projVec ++ [p], none⟩) ∨
      ∃ message, finishOpen cStr projFilePath projVec q = ⟨false, projVec, some message⟩ := by
  unfold finishOpen
  split_ifs
  · exact Or.inr ⟨_, rfl⟩
  · split
    · exact Or.inl ⟨_, rfl⟩
    · exact Or.inr ⟨_, rfl⟩

/-- a file is replaced, by that of a project if it reads back as one -/
theorem stores_create {s : Manager F} {m : Store F} (hsim : Stores qt document s m) (p : Project) {content : List UInt8}
    {c : Content} (hkept : ∀ q, c = .project q → Kept (document content) (writeRootXmlDocument qt q true).2) (f : F) :
    Stores qt document ⟨s.projVec ++ [p], Function.update s.files f (some content)⟩
      ⟨m.projVec ++ [p], Function.update m.saved f (some c)⟩ := by
  refine ⟨by rw [hsim.projVec], fun g => ?_, fun g q hq => ?_⟩
  · by_cases hg : g = f
    · simp [hg]
    · simp only [Function.update_of_ne hg, hsim.missing]
  · by_cases hg : g = f
    · simp only [hg, Function.update_self] at hq ⊢
      exact ⟨content, rfl, hkept q (Option.some.inj hq)⟩
    · simp only [Function.update_of_ne hg] at hq ⊢
      exact hsim.kept g q hq

omit [DecidableEq F] in
/-- opening changes the list only -/
theorem stores_open {s : Manager F} {m : Store F} (hsim : Stores qt document s m) (p : Project) :
    Stores qt document { s with projVec := s.projVec ++ [p] } { m with projVec := m.projVec ++ [p] } :=
  ⟨by rw [hsim.projVec], hsim.missing, hsim.kept⟩

theorem openProject_step (h : Documented R document view) (hqt : qt.KeepsAscii) {s s' : Manager F} {m : Store F}
    {r : Bool × List String} {projFilePath : String} {canOpen : Bool} {fuel : ℕ} (hsim : Stores qt document s m)
    (hs : managerStep qt R writer fileAt s (.openProject projFilePath canOpen fuel) = some (r, s')) :
    ∃ m', StoreSpec qt fileAt m (.openProject projFilePath canOpen fuel) r m' ∧ Stores qt document s' m' := by
  obtain ⟨o, ho, heq⟩ := Option.map_eq_some_iff.1 hs
  cases heq
  simp only [StoreSpec]
  cases hfile : if canOpen then m.saved (fileAt projFilePath) else none with
  | none =>
    have hnone : (if canOpen then s.files (fileAt projFilePath) else none) = none := by
      cases canOpen with
      | false => rfl
      | true => exact (hsim.missing _).1 hfile
    rw [hnone] at ho
    cases ho
    exact ⟨m, ⟨rfl, rfl⟩, hsim⟩
  | some found =>
    have hcan : canOpen = true := by
      by_contra hcan
      rw [if_neg hcan] at hfile
      cases hfile
    rw [if_pos hcan] at hfile ho
    cases found with
    | project p =>
      obtain ⟨content, hcontent, hkept⟩ := hsim.kept _ p hfile
      rw [hcontent] at ho
      have hval := (openProject_kept h hqt hkept projFilePath s.projVec).2 fuel o ho
      by_cases hopen : Openable p
      · rw [if_neg (not_or.2 hopen)] at hval
        rw [hval]
        exact ⟨_, ⟨fun _ => ⟨rfl, rfl⟩, fun hno => absurd hopen hno⟩, stores_open hsim p⟩
      · rw [if_pos (by by_contra hne; exact hopen (not_or.1 hne))] at hval
        rw [hval]
        exact ⟨m, ⟨fun hyes => absurd hyes hopen, fun _ => ⟨rfl, rfl⟩⟩, hsim⟩
    | other =>
      obtain ⟨content, hcontent⟩ : ∃ content, s.files (fileAt projFilePath) = some content := by
        rw [← Option.ne_none_iff_exists', ne_eq, ← hsim.missing, hfile]
        simp
      rw [hcontent] at ho
      obtain ⟨x, -, hx⟩ := Option.map_eq_some_iff.1 ho
      rcases finishOpen_cases qt.cStr projFilePath s.projVec x.1 with ⟨p, hp⟩ | ⟨message, hp⟩
      · rw [← hx, hp]
        exact ⟨_, Or.inl ⟨rfl, p, rfl⟩, stores_open hsim p⟩
      · rw [← hx, hp]
        exact ⟨m, Or.inr ⟨rfl, by simp, rfl⟩, hsim⟩

theorem managerStep_spec (h : Documented R document view) (hqt : qt.KeepsAscii) (s : Manager F) (m : Store F)
    (call : ManagerCall) (r : Bool × List String) (s' : Manager F) (hsim : Stores qt document s m)
    (hkept : CallKept qt writer document call) (hs : managerStep qt R writer fileAt s call = some (r, s')) :
    ∃ m', StoreSpec qt fileAt m call r m' ∧ Stores qt document s' m' := by
  cases call with
  | createProject wkTitle author prodDesc dirRoot uuid mkpath canOpen short =>
    have hres := Option.some.inj hs
    simp only [StoreSpec]
    cases hboth : mkpath && canOpen with
    | true =>
      obtain ⟨rfl, rfl⟩ := Bool.and_eq_true_iff.1 hboth
      rw [createProject_true] at hres
      cases hres
      refine ⟨_, ⟨rfl, rfl⟩, stores_create hsim _ (fun q hq => ?_) _⟩
      split_ifs at hq with hall
      obtain rfl := Content.project.inj hq
      rw [hall.1]
      exact hkept hall.2
    | false =>
      obtain ⟨messages, hne, heq⟩ :=
        createProject_false qt writer fileAt s wkTitle author prodDesc dirRoot uuid short hboth
      rw [heq] at hres
      cases hres
      exact ⟨m, by rw [if_neg Bool.false_ne_true]; exact ⟨rfl, hne, rfl⟩, hsim⟩
  | openProject projFilePath canOpen fuel => exact openProject_step h hqt hsim hs

/-- **Projects that are saved are opened.** Over every run of calls that return, the manager and the disk behave as a store
of projects: creating one replaces the file at its path, and if all of it could be written and its texts are plain, opening
that file ends and gives the project itself, with its UUID and its texts, unless its title or its path is empty. -/
theorem projects_refine (h : Documented R document view) (hqt : qt.KeepsAscii) {calls : List ManagerCall} {s s' : Manager F}
    {m : Store F} {rs : List (Bool × List String)} (hsim : Stores qt document s m)
    (hkept : ∀ call ∈ calls, CallKept qt writer document call)
    (hrun : outputs (managerStep qt R writer fileAt) s calls = some (rs, s')) :
    ∃ m', SpecRun (StoreSpec qt fileAt) m calls rs m' ∧ Stores qt document s' m' ∧
      ∀ path p, m'.saved (fileAt path) = some (.project p) →
        ∃ fuel x, managerStep qt R writer fileAt s' (.openProject path true fuel) = some x := by
  obtain ⟨m', hspec, hsim'⟩ := simulated_run (managerStep_spec h hqt) hsim
    (AllOk.of_mem (fun call hcall _ => hkept call hcall) s) hrun
  refine ⟨m', hspec, hsim', fun path p hp => ?_⟩
  obtain ⟨content, hcontent, hd⟩ := hsim'.kept _ p hp
  obtain ⟨⟨fuel, r, hr⟩, -⟩ := openProject_kept h hqt hd path s'.projVec
  exact ⟨fuel, _, by rw [managerStep, if_pos rfl, hcontent, hr, Option.map_some]⟩

end Store

/-! ## A project that is created and opened -/

/-- `QString` for texts of ASCII characters, on a system whose paths have slashes -/
def asciiQt : Qt where
  cStr s k := (s.toList.map fun c => UInt8.ofNat c.toNat).getD k 0
  ofCStr l := String.ofList ((l.takeWhile fun c => c ≠ 0).map fun c => Char.ofNat c.toNat)
  trimmed s := String.ofList ((s.toList.dropWhile Char.isWhitespace).reverse.dropWhile Char.isWhitespace).reverse
  replace s before after := String.ofList (s.toList.flatMap fun c => if [c] = before.toList then after.toList else [c])
  absolutePath := id
  toNativeSeparators := id

theorem byte_char {c : UInt8} : c < 0x80 → UInt8.ofNat (Char.ofNat c.toNat).toNat = c :=
  Uuid.forall_uint8 (P := fun c => c < 0x80 → UInt8.ofNat (Char.ofNat c.toNat).toNat = c) (by decide +kernel) c

theorem keepsAscii_asciiQt : asciiQt.KeepsAscii := by
  intro l rest hl k hk
  have htake : (l ++ 0 :: rest).takeWhile (fun c => decide (c ≠ 0)) = l := by
    rw [List.takeWhile_append_of_pos fun c hc => decide_eq_true (hl c hc).1, List.takeWhile_cons_of_neg (by simp),
      List.append_nil]
  have hback : (l.map fun c => Char.ofNat c.toNat).map (fun c => UInt8.ofNat c.toNat) = l := by
    rw [List.map_map]
    exact (List.map_congr_left fun c hc => byte_char (hl c hc).2).trans (List.map_id l)
  simp only [asciiQt, htake, String.toList_ofList, hback, Nat.zero_add]
  rw [List.length_append, List.length_singleton] at hk
  by_cases hin : k < l.length
  · rw [List.getElem_append_left hin, List.getD_eq_getElem l 0 hin]
  · rw [List.getElem_append_right (by omega), List.getD_eq_default l 0 (by omega)]
    simp

def sampleProject : Project := createdProject asciiQt "My Game" "me" "a game" "/home/me" Uuid.zeroUuid

def sampleCalls : List WriterCall := (writeRootXmlDocument asciiQt sampleProject true).2

def nkprojFile : List UInt8 :=
  ("<?xml version=\"1.0\" encoding=\"UTF-8\"?>\n<nkproject>\n    <uuid>00000000-0000-0000-0000-000000000000</uuid>\n" ++
    "    <working_title>My Game</working_title>\n    <project_author>me</project_author>\n" ++
    "    <product_description>a game</product_description>\n    <rootpath>/home/me/My_Game</rootpath>\n" ++
    "</nkproject>\n").toUTF8.toList

def nkprojTokens : List Token :=
  [.startDocument, .characters "\n", .startElement "nkproject",
    .characters "\n    ", .startElement "uuid", .characters "00000000-0000-0000-0000-000000000000", .endElement "uuid",
    .characters "\n    ", .startElement "working_title", .characters "My Game", .endElement "working_title",
    .characters "\n    ", .startElement "project_author", .characters "me", .endElement "project_author",
    .characters "\n    ", .startElement "product_description", .characters "a game", .endElement "product_description",
    .characters "\n    ", .startElement "rootpath", .characters "/home/me/My_Game", .endElement "rootpath",
    .characters "\n", .endElement "nkproject", .characters "\n"]

def nkprojWriter (calls : List WriterCall) : List UInt8 := if calls = sampleCalls then nkprojFile else []

def nkprojDocument (content : List UInt8) : Document := if content = nkprojFile then ⟨nkprojTokens, true⟩ else ⟨[], false⟩

theorem kept_sample : Kept (nkprojDocument (nkprojWriter sampleCalls)) sampleCalls := by
  have hdoc : nkprojDocument (nkprojWriter sampleCalls) = ⟨nkprojTokens, true⟩ := by
    rw [nkprojWriter, if_pos rfl, nkprojDocument, if_pos rfl]
  have hpieces : ∀ text : String, String.join [text] = text := fun text => by simp
  have huuid : String.join ["00000000-0000-0000-0000-000000000000"] = uuidToString asciiQt Uuid.zeroUuid := by
    decide +kernel
  have hroot : String.join ["/home/me/My_Game"] = sampleProject.qualifiedPath := by decide +kernel
  rw [hdoc]
  refine ⟨rfl, .setAutoFormatting true (.setAutoFormattingIndent 4 (.startDocument (.startElement "nkproject" ["\n"]
    (.textElement "uuid" _ ["\n    "] ["00000000-0000-0000-0000-000000000000"] huuid
    (.textElement "working_title" _ ["\n    "] ["My Game"] (hpieces _)
    (.textElement "project_author" _ ["\n    "] ["me"] (hpieces _)
    (.textElement "product_description" _ ["\n    "] ["a game"] (hpieces _)
    (.textElement "rootpath" _ ["\n    "] ["/home/me/My_Game"] hroot
    (.endElement "nkproject" ["\n"] (.endDocument ["\n"]))))))))))⟩

/-- the project is created, and opening its file appends it again -/
theorem projects_refine_sample :
    let create := ManagerCall.createProject "My Game" "me" "a game" "/home/me" Uuid.zeroUuid true true none
    ∃ fuel rs s' m', outputs (managerStep asciiQt (viewReader nkprojDocument) nkprojWriter id) ⟨[], fun _ => none⟩
        [create, .openProject "/home/me/My_Game/My_Game.nkproj" true fuel] = some (rs, s') ∧
      SpecRun (StoreSpec asciiQt id) ⟨[], fun _ => none⟩
        [create, .openProject "/home/me/My_Game/My_Game.nkproj" true fuel] rs m' ∧
      s'.projVec = [sampleProject, sampleProject] ∧ m'.projVec = s'.projVec := by
  intro create
  have hreader := documented_viewReader nkprojDocument
  have hpath : projectFile asciiQt sampleProject = "/home/me/My_Game/My_Game.nkproj" := by decide +kernel
  have hopen : ¬(sampleProject.workingTitle = "" ∨ sampleProject.qualifiedPath = "") := by decide +kernel
  have hsim : Stores asciiQt nkprojDocument (⟨[], fun _ => none⟩ : Manager String) ⟨[], fun _ => none⟩ :=
    ⟨rfl, fun f => iff_of_true rfl rfl, fun f p hp => by cases hp⟩
  obtain ⟨⟨fuel, r, hr⟩, hval⟩ := openProject_kept hreader keepsAscii_asciiQt kept_sample
    "/home/me/My_Game/My_Game.nkproj" [sampleProject]
  have hproj := hval fuel r hr
  rw [if_neg hopen] at hproj
  have hrun : outputs (managerStep asciiQt (viewReader nkprojDocument) nkprojWriter id) ⟨[], fun _ => none⟩
      [create, .openProject "/home/me/My_Game/My_Game.nkproj" true fuel] = some ([(true, []), (true, [])],
        ⟨[sampleProject, sampleProject], Function.update (fun _ => none) (projectFile asciiQt sampleProject)
          (some (nkprojWriter sampleCalls))⟩) := by
    have hfile : (Function.update (fun _ : String => none) (projectFile asciiQt sampleProject)
        (some (nkprojWriter sampleCalls))) "/home/me/My_Game/My_Game.nkproj" = some (nkprojWriter sampleCalls) := by
      rw [← hpath, Function.update_self]
    have hcreate : managerStep asciiQt (viewReader nkprojDocument) nkprojWriter id ⟨[], fun _ => none⟩ create =
        some ((true, []), ⟨[sampleProject], Function.update (fun _ => none) (projectFile asciiQt sampleProject)
          (some (nkprojWriter sampleCalls))⟩) := rfl
    rw [outputs, hcreate, Option.bind_some, outputs, managerStep]
    simp only [if_true, id, hfile, hr, hproj]
    rfl
  have hkept : ∀ call ∈ [create, .openProject "/home/me/My_Game/My_Game.nkproj" true fuel],
      CallKept asciiQt nkprojWriter nkprojDocument call :=
    List.forall_mem_cons.2 ⟨fun _ => kept_sample, List.forall_mem_singleton.2 trivial⟩
  obtain ⟨m', hspec, hsim', -⟩ := projects_refine hreader keepsAscii_asciiQt hsim hkept hrun
  exact ⟨fuel, _, _, m', hrun, hspec, rfl, hsim'.projVec⟩

end Noriko.ProjectManager
