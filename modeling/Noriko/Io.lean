/-
File handles (`NkIFile` of `io.c`).

The C library is the environment: a call that opens a stream answers with one or fails, and the other calls report success
or the number of bytes. A mode is a number, any combination of the bits of `NkStreamIOMode`. `streams` is the ledger of the
streams that were obtained and closed, `opened` remembers the mode of the `Open` that the current stream comes from.

`Open` translates the mode to that of `fopen`, or opens a temporary file and stores a mode of its own; `Read` and `Write`
look at the stored mode again. The two agree for plain reading and writing only: a temporary file and a file opened for
appending are refused what they were opened for (`files_run_iff`).
-/
import Noriko.Def
import Noriko.Lib.Ledger
import Noriko.Lib.Sim

namespace Noriko.Io

open Lib

/-! ## Modes -/

def mdUnknown : ℕ := 0

def mdRead : ℕ := 1

def mdWrite : ℕ := 2

def mdAppend : ℕ := 4

def mdBinary : ℕ := 16

def mdTempFile : ℕ := 32

def mdMustNotExist : ℕ := 64

/-- the letter of the basic mode -/
def basicMode (mode : ℕ) : Option String :=
  if mode &&& (mdRead ||| mdWrite ||| mdAppend) = mdRead then some "r"
  else if mode &&& (mdRead ||| mdWrite ||| mdAppend) = mdWrite then some "w"
  else if mode &&& (mdRead ||| mdWrite ||| mdAppend) = mdAppend then some "a"
  else none

/-- `__NkInt_File_CompileIOModeIdent` -/
def compileIOModeIdent (mode : ℕ) : Bool × String :=
  match basicMode mode with
  | none => (false, "")
  | some id =>
    let id := if mode &&& mdRead ≠ 0 ∧ mode &&& mdWrite ≠ 0 then id ++ "+" else id
    let id := if mode &&& mdBinary ≠ 0 then id ++ "b" else id
    if mode &&& mdMustNotExist ≠ 0 then (mode &&& mdWrite ≠ 0, id ++ "x") else (true, id)

/-! ## Files -/

structure NkFile where
  refCount : ℤ
  strMode : ℕ
  fileDsc : Option ℕ
  streams : Ledger ℕ

/-- what the factory hands out -/
def newFile : NkFile := ⟨1, mdUnknown, none, Ledger.new⟩

/-- the answers of `tmpfile_s` and `fopen_s` -/
structure OpenIo where
  tmpfile : Option ℕ
  fopen : String → String → Option ℕ

/-- `__NkInt_File_Open` -/
def fileOpen (q : OpenIo) (pathStr : String) (mode : ℕ) (f : NkFile) : NkErrorCode × NkFile :=
  let onError : NkFile := { f with fileDsc := none, strMode := mdUnknown }
  if f.fileDsc ≠ none then (.objectState, f)
  else if mode &&& mdTempFile ≠ 0 then
    match q.tmpfile with
    | none => (.openFile, onError)
    | some d => (.ok, { f with fileDsc := some d, strMode := mdTempFile, streams := f.streams.get d })
  else if (compileIOModeIdent mode).1 then
    match q.fopen pathStr (compileIOModeIdent mode).2 with
    | none => (.openFile, onError)
    | some d => (.ok, { f with fileDsc := some d, strMode := mode, streams := f.streams.get d })
  else (.invStreamMode, onError)

/-- `__NkInt_File_Close`; the result of `fclose` is not looked at -/
def fileClose (f : NkFile) : NkFile :=
  match f.fileDsc with
  | none => f
  | some d => { f with fileDsc := none, strMode := mdUnknown, streams := f.streams.put d }

/-- `Read` and `Write` of `s` bytes, which need bit `gate` of the mode; `done` is the number of bytes transferred. The code
and the stored number of bytes. -/
def transfer (gate s done : ℕ) (f : NkFile) : NkErrorCode × Option ℕ :=
  if f.fileDsc = none ∨ f.strMode &&& gate = 0 then (if f.fileDsc = none then .objectState else .invStreamMode, none)
  else (if done = s then .ok else .errorDuringDiskIo, some done)

/-- `__NkInt_File_Read` -/
def fileRead (s done : ℕ) (f : NkFile) : NkErrorCode × Option ℕ := transfer mdRead s done f

/-- `__NkInt_File_Write` -/
def fileWrite (s done : ℕ) (f : NkFile) : NkErrorCode × Option ℕ := transfer mdWrite s done f

/-- `__NkInt_File_MapFromSeekOrigin`; `none` for `INT_MAX` -/
def mapFromSeekOrigin (origin : ℕ) : Option ℕ := if origin ≤ 2 then some origin else none

/-- `__NkInt_File_Seek`; `fseek` tells whether the position can be set -/
def fileSeek (fseek : ℤ → ℕ → Bool) (origin : ℕ) (offset : ℤ) (f : NkFile) : NkErrorCode :=
  if f.fileDsc = none then .objectState
  else
    match mapFromSeekOrigin origin with
    | none => .invSeekOrigin
    | some sOri => if fseek offset sOri then .ok else .streamSeek

/-- `__NkInt_File_Flush` -/
def fileFlush (fflush : Bool) (f : NkFile) : NkErrorCode :=
  if f.fileDsc = none then .objectState else if fflush then .ok else .streamFlush

structure NkStreamStat where
  structSize : ℕ
  type : ℕ
  ioMode : ℕ
  crTime : ℕ
  mdTime : ℕ
  aTime : ℕ
  size : ℕ
  currOff : ℤ
deriving DecidableEq, Repr

/-- what `_fstat64` and `_ftelli64` report -/
structure NativeStat where
  ctime : ℕ
  mtime : ℕ
  atime : ℕ
  size : ℕ
  tell : ℤ

/-- `__NkInt_File_GetStat` -/
def fileGetStat (fstat : Option NativeStat) (f : NkFile) : NkErrorCode × NkStreamStat :=
  if f.fileDsc = none then (.objectState, ⟨0, 0, 0, 0, 0, 0, 0, 0⟩)
  else
    match fstat with
    | none => (.openFile, ⟨0, 0, 0, 0, 0, 0, 0, 0⟩)
    | some n => (.ok, ⟨56, 2, f.strMode, n.ctime, n.mtime, n.atime, n.size, n.tell⟩)

/-- `__NkInt_File_Release` -/
def fileRelease (f : NkFile) : NkFile :=
  let f := { f with refCount := f.refCount - 1 }
  if f.refCount ≤ 0 then fileClose f else f

/-! ## Runs -/

inductive FileOp where
  | openFile (q : OpenIo) (pathStr : String) (mode : ℕ)
  | read (s done : ℕ)
  | write (s done : ℕ)
  | seek (fseek : ℤ → ℕ → Bool) (origin : ℕ) (offset : ℤ)
  | flush (fflush : Bool)
  | getStat (fstat : Option NativeStat)
  | close
  | addRef
  | release

structure FileRun where
  file : NkFile
  /-- the mode of the last successful `Open`, until the next `Close` or the final `Release` -/
  opened : Option ℕ

/-- what a call does; code and state -/
def FileOp.apply (s : FileRun) : FileOp → NkErrorCode × FileRun
  | .openFile q pathStr mode =>
    let r := fileOpen q pathStr mode s.file
    (r.1, ⟨r.2, if r.1 = .ok then some mode else s.opened⟩)
  | .read n done => ((fileRead n done s.file).1, s)
  | .write n done => ((fileWrite n done s.file).1, s)
  | .seek fseek origin offset => (fileSeek fseek origin offset s.file, s)
  | .flush fflush => (fileFlush fflush s.file, s)
  | .getStat fstat => ((fileGetStat fstat s.file).1, s)
  | .close => (.ok, ⟨fileClose s.file, none⟩)
  | .addRef => (.ok, { s with file := { s.file with refCount := s.file.refCount + 1 } })
  | .release => (.ok, ⟨fileRelease s.file, if s.file.refCount ≤ 1 then none else s.opened⟩)

/-- one call on a file that exists -/
def fileStep (s : FileRun) (o : FileOp) : Option (NkErrorCode × FileRun) :=
  if 0 < s.file.refCount then some (o.apply s) else none

/-- opened for reading, or a temporary file -/
def Readable (mode : ℕ) : Prop := mode &&& mdRead ≠ 0 ∨ mode &&& mdTempFile ≠ 0

/-- opened for writing or appending, or a temporary file -/
def Writable (mode : ℕ) : Prop := mode &&& mdWrite ≠ 0 ∨ mode &&& mdAppend ≠ 0 ∨ mode &&& mdTempFile ≠ 0

/-- what every call owes: the file holds a stream exactly while one is open, every stream is closed once, an `Open` that
fails changes nothing, as one on an open file does, and the stream can be used for what it was opened for -/
structure FileKept (s : FileRun) (o : FileOp) (errCode : NkErrorCode) (t : FileRun) : Prop where
  holds : t.file.fileDsc.isSome = t.opened.isSome
  streams : t.file.streams.Owns t.file.fileDsc.toList
  refused : ∀ q pathStr mode, o = .openFile q pathStr mode → s.file.fileDsc ≠ none → errCode ≠ .ok
  unchanged : ∀ q pathStr mode, o = .openFile q pathStr mode → errCode ≠ .ok → t = s
  reads : ∀ mode, t.opened = some mode → ∀ n done, (fileRead n done t.file).1 ≠ .invStreamMode ↔ Readable mode
  writes : ∀ mode, t.opened = some mode → ∀ n done, (fileWrite n done t.file).1 ≠ .invStreamMode ↔ Writable mode

/-- the C library opens a stream for the mode -/
def Obtains (q : OpenIo) (pathStr : String) (mode : ℕ) : Prop :=
  if mode &&& mdTempFile ≠ 0 then q.tmpfile ≠ none
  else (compileIOModeIdent mode).1 ∧ q.fopen pathStr (compileIOModeIdent mode).2 ≠ none

/-- a stream that the call opens is neither a temporary file nor opened for appending -/
def OpensPlain (s : FileRun) : FileOp → Prop
  | .openFile q pathStr mode => s.file.fileDsc = none → Obtains q pathStr mode → mode &&& mdTempFile = 0 ∧ mode &&& mdAppend = 0
  | _ => True

/-! ## The gates -/

theorem transfer_accepts {gate : ℕ} {f : NkFile} (n done : ℕ) :
    (transfer gate n done f).1 ≠ .invStreamMode ↔ (f.fileDsc ≠ none → f.strMode &&& gate ≠ 0) := by
  unfold transfer
  split_ifs <;> simp_all

/-- the basic mode is one bit: a mode for appending is not one for writing -/
theorem append_not_write {mode : ℕ} (hid : (compileIOModeIdent mode).1) (happ : mode &&& mdAppend ≠ 0) :
    mode &&& mdWrite = 0 := by
  have hbit : ∀ b, (mode &&& 7) &&& b = mode &&& (7 &&& b) := fun b => Nat.and_assoc mode 7 b
  have hbasic : mode &&& 7 = 1 ∨ mode &&& 7 = 2 ∨ mode &&& 7 = 4 := by
    by_contra hnone
    push Not at hnone
    have hnot : basicMode mode = none :=
      (if_neg hnone.1).trans ((if_neg hnone.2.1).trans (if_neg hnone.2.2))
    simp [compileIOModeIdent, hnot] at hid
  have happ' := hbit 4
  have hwrite := hbit 2
  rcases hbasic with hb | hb | hb <;> rw [hb] at happ' hwrite
  · exact absurd happ'.symm happ
  · exact absurd happ'.symm happ
  · exact hwrite.symm

/-! ## The invariant -/

/-- closed, or opened in a plain mode that was stored as it was asked for -/
inductive FileInv : FileRun → Prop
  | closed {f : NkFile} (hdsc : f.fileDsc = none) (hmode : f.strMode = mdUnknown) (hown : f.streams.Owns []) :
      FileInv ⟨f, none⟩
  | opened {f : NkFile} {d : ℕ} (hdsc : f.fileDsc = some d) (htemp : f.strMode &&& mdTempFile = 0)
      (happ : f.strMode &&& mdAppend = 0) (hown : f.streams.Owns [d]) : FileInv ⟨f, some f.strMode⟩

/-- a new handle is closed -/
theorem newFile_inv : FileInv ⟨newFile, none⟩ := .closed rfl rfl Ledger.owns_new

/-- the reference count is not part of it -/
theorem FileInv.recount {f : NkFile} {mode : Option ℕ} (h : FileInv ⟨f, mode⟩) (n : ℤ) :
    FileInv ⟨{ f with refCount := n }, mode⟩ := by
  cases h with
  | closed hdsc hmode hown => exact .closed hdsc hmode hown
  | opened hdsc htemp happ hown => exact @FileInv.opened { f with refCount := n } _ hdsc htemp happ hown

theorem fileClose_inv {s : FileRun} (h : FileInv s) : FileInv ⟨fileClose s.file, none⟩ := by
  cases h with
  | closed hdsc hmode hown =>
    simp only [fileClose, hdsc]
    exact .closed hdsc hmode hown
  | opened hdsc htemp happ hown =>
    simp only [fileClose, hdsc]
    exact .closed rfl rfl (Ledger.owns_put.2 hown)

theorem fileRelease_inv {s : FileRun} (h : FileInv s) :
    FileInv ⟨fileRelease s.file, if s.file.refCount ≤ 1 then none else s.opened⟩ := by
  have hless := h.recount (s.file.refCount - 1)
  unfold fileRelease
  by_cases hlast : s.file.refCount ≤ 1
  · have hzero : s.file.refCount - 1 ≤ 0 := by linarith
    rw [if_pos hlast, if_pos hzero]
    exact fileClose_inv hless
  · have hpos : ¬ s.file.refCount - 1 ≤ 0 := by linarith
    rw [if_neg hlast, if_neg hpos]
    exact hless

/-! ## `Open` -/

theorem fileOpen_open {q : OpenIo} {pathStr : String} {mode : ℕ} {f : NkFile} (h : f.fileDsc ≠ none) :
    fileOpen q pathStr mode f = (.objectState, f) := if_pos h

/-- on a closed handle, `Open` obtains a stream or leaves the handle alone -/
theorem fileOpen_closed (q : OpenIo) (pathStr : String) (mode : ℕ) {f : NkFile} (hdsc : f.fileDsc = none)
    (hmode : f.strMode = mdUnknown) :
    (Obtains q pathStr mode ∧ ∃ d, fileOpen q pathStr mode f = (.ok, { f with
        fileDsc := some d, strMode := if mode &&& mdTempFile ≠ 0 then mdTempFile else mode, streams := f.streams.get d })) ∨
      (¬ Obtains q pathStr mode ∧ ∃ errCode, errCode ≠ .ok ∧ fileOpen q pathStr mode f = (errCode, f)) := by
  have hsame : { f with fileDsc := none, strMode := mdUnknown } = f := by
    rw [← hdsc, ← hmode]
  unfold fileOpen Obtains
  rw [if_neg (not_not.2 hdsc), hsame]
  -- a temporary file ignores the other bits, any other mode has to compile
  by_cases htemp : mode &&& mdTempFile ≠ 0
  · simp only [if_pos htemp]
    cases htmp : q.tmpfile with
    | none => exact .inr ⟨fun h => h rfl, .openFile, NkErrorCode.noConfusion, rfl⟩
    | some d => exact .inl ⟨Option.some_ne_none d, d, rfl⟩
  · simp only [if_neg htemp]
    by_cases hid : (compileIOModeIdent mode).1 = true
    · rw [if_pos hid]
      cases hopen : q.fopen pathStr (compileIOModeIdent mode).2 with
      | none => exact .inr ⟨fun h => h.2 rfl, .openFile, NkErrorCode.noConfusion, rfl⟩
      | some d => exact .inl ⟨⟨hid, Option.some_ne_none d⟩, d, rfl⟩
    · rw [if_neg hid]
      exact .inr ⟨fun h => hid h.1, .invStreamMode, NkErrorCode.noConfusion, rfl⟩

/-! ## One call -/

theorem fileStep_some {s t : FileRun} {o : FileOp} {errCode : NkErrorCode} (h : fileStep s o = some (errCode, t)) :
    o.apply s = (errCode, t) := by
  unfold fileStep at h
  split_ifs at h
  exact Option.some.inj h

/-- an `Open` that opens nothing leaves everything alone -/
theorem openFile_idle {s : FileRun} {q : OpenIo} {pathStr : String} {mode : ℕ} (h : FileInv s)
    (hno : s.file.fileDsc = none → ¬ Obtains q pathStr mode) :
    ∃ errCode, errCode ≠ .ok ∧ (FileOp.openFile q pathStr mode).apply s = (errCode, s) := by
  have hsame : ∃ errCode, errCode ≠ .ok ∧ fileOpen q pathStr mode s.file = (errCode, s.file) := by
    cases h with
    | closed hdsc hmode hown =>
      rcases fileOpen_closed q pathStr mode hdsc hmode with ⟨hyes, -⟩ | ⟨-, hfail⟩
      · exact absurd hyes (hno hdsc)
      · exact hfail
    | opened hdsc htemp happ hown =>
      have hopen := hdsc.trans_ne (Option.some_ne_none _)
      exact ⟨.objectState, NkErrorCode.noConfusion, fileOpen_open hopen⟩
  obtain ⟨errCode, hne, hopen⟩ := hsame
  refine ⟨errCode, hne, ?_⟩
  simp only [FileOp.apply, hopen, if_neg hne]

/-- an `Open` that opens a stream remembers the mode -/
theorem openFile_opens {s : FileRun} {q : OpenIo} {pathStr : String} {mode : ℕ} (h : FileInv s)
    (hdsc : s.file.fileDsc = none) (hyes : Obtains q pathStr mode) :
    ∃ d, s.file.streams.Owns [] ∧ (FileOp.openFile q pathStr mode).apply s = (.ok, ⟨{ s.file with
      fileDsc := some d, strMode := if mode &&& mdTempFile ≠ 0 then mdTempFile else mode,
      streams := s.file.streams.get d }, some mode⟩) := by
  cases h with
  | closed _ hmode hown =>
    rcases fileOpen_closed q pathStr mode hdsc hmode with ⟨-, d, hopen⟩ | ⟨hno, -⟩
    · refine ⟨d, hown, ?_⟩
      simp only [FileOp.apply, hopen, if_true]
    · exact absurd hyes hno
  | opened hsome htemp happ hown => exact absurd (hsome.symm.trans hdsc) (Option.some_ne_none _)

/-- a stream that is opened in a plain mode keeps the invariant, and every other call does -/
theorem fileStep_inv {s t : FileRun} {o : FileOp} {errCode : NkErrorCode} (h : FileInv s)
    (hs : fileStep s o = some (errCode, t)) (ho : OpensPlain s o) : FileInv t := by
  have hs := fileStep_some hs
  cases o with
  | openFile q pathStr mode =>
    by_cases hyes : s.file.fileDsc = none ∧ Obtains q pathStr mode
    · obtain ⟨d, hown, hopen⟩ := openFile_opens h hyes.1 hyes.2
      obtain ⟨htemp, happ⟩ := ho hyes.1 hyes.2
      rw [hopen] at hs
      cases hs
      simp only [htemp, ne_eq, not_true_eq_false, if_false]
      exact @FileInv.opened ⟨s.file.refCount, mode, some d, s.file.streams.get d⟩ d rfl htemp happ (hown.get d)
    · obtain ⟨e, -, hidle⟩ := openFile_idle h (fun hdsc hob => hyes ⟨hdsc, hob⟩)
      rw [hidle] at hs
      cases hs
      exact h
  | close =>
    cases hs
    exact fileClose_inv h
  | addRef =>
    cases hs
    exact h.recount _
  | release =>
    cases hs
    exact fileRelease_inv h
  | read n done | write n done | seek fseek origin offset | flush fflush | getStat fstat =>
    cases hs
    exact h

/-- what the invariant says of the state after a call -/
theorem FileInv.kept {s t : FileRun} {o : FileOp} {errCode : NkErrorCode} (h : FileInv t)
    (hopen : ∀ q pathStr mode, o = .openFile q pathStr mode → errCode ≠ .ok → t = s)
    (hrefused : ∀ q pathStr mode, o = .openFile q pathStr mode → s.file.fileDsc ≠ none → errCode ≠ .ok) :
    FileKept s o errCode t := by
  cases h with
  | closed hdsc hmode hown =>
    refine ⟨by simp [hdsc], by simpa [hdsc] using hown, hrefused, hopen, ?_, ?_⟩
    · intro mode hmode'
      exact absurd hmode'.symm (Option.some_ne_none mode)
    · intro mode hmode'
      exact absurd hmode'.symm (Option.some_ne_none mode)
  | @opened f d hdsc htemp happ hown =>
    refine ⟨by simp [hdsc], by simpa [hdsc] using hown, hrefused, hopen, ?_, ?_⟩
    · intro mode hmode' n done
      cases hmode'
      exact (transfer_accepts n done).trans (by simp [Readable, hdsc, htemp])
    · intro mode hmode' n done
      cases hmode'
      exact (transfer_accepts n done).trans (by simp [Writable, hdsc, htemp, happ])

/-- a call that opens no special stream does all it owes -/
theorem fileStep_kept {s t : FileRun} {o : FileOp} {errCode : NkErrorCode} (h : FileInv s)
    (hs : fileStep s o = some (errCode, t)) (ho : OpensPlain s o) : FileKept s o errCode t := by
  refine (fileStep_inv h hs ho).kept ?_ ?_
  · rintro q pathStr mode rfl hne
    have hs := fileStep_some hs
    by_cases hyes : s.file.fileDsc = none ∧ Obtains q pathStr mode
    · obtain ⟨d, -, hopen⟩ := openFile_opens h hyes.1 hyes.2
      rw [hopen] at hs
      cases hs
      exact absurd rfl hne
    · obtain ⟨e, -, hidle⟩ := openFile_idle h (fun hdsc hob => hyes ⟨hdsc, hob⟩)
      rw [hidle] at hs
      cases hs
      rfl
  · rintro q pathStr mode rfl hdsc
    obtain ⟨e, hne, hidle⟩ := @openFile_idle s q pathStr mode h (fun hnone => absurd hnone hdsc)
    have hs := fileStep_some hs
    rw [hidle] at hs
    cases hs
    exact hne

/-- a temporary file cannot be read, and a file opened for appending cannot be written -/
theorem fileStep_special {s t : FileRun} {o : FileOp} {errCode : NkErrorCode} (h : FileInv s)
    (hs : fileStep s o = some (errCode, t)) (hkept : FileKept s o errCode t) : OpensPlain s o := by
  cases o with
  | openFile q pathStr mode =>
    intro hdsc hyes
    obtain ⟨d, -, hopen⟩ := openFile_opens h hdsc hyes
    have hs := fileStep_some hs
    rw [hopen] at hs
    cases hs
    have htemp : mode &&& mdTempFile = 0 := by
      by_contra htemp
      have hread := (hkept.reads mode rfl 1 1).2 (.inr htemp)
      have hbit := (transfer_accepts 1 1).1 hread (Option.some_ne_none d)
      rw [if_pos htemp] at hbit
      have hzero : mdTempFile &&& mdRead = 0 := by decide
      exact hbit hzero
    refine ⟨htemp, ?_⟩
    by_contra happ
    have hwrite := (hkept.writes mode rfl 1 1).2 (.inr (.inl happ))
    have hbit := (transfer_accepts 1 1).1 hwrite (Option.some_ne_none d)
    rw [if_neg (not_not.2 htemp)] at hbit
    unfold Obtains at hyes
    rw [if_neg (not_not.2 htemp)] at hyes
    exact hbit (append_not_write hyes.1 happ)
  | read n done | write n done | seek fseek origin offset | flush fflush | getStat fstat | close | addRef | release =>
    trivial

/-! ## Whole runs -/

/-- every call of a run does what it owes exactly when no stream is opened as a temporary file or for appending -/
theorem files_run_iff (s : FileRun) (ops : List FileOp) (h : FileInv s) :
    EachStep fileStep FileKept s ops ↔ EachStep fileStep (fun s o _ _ => OpensPlain s o) s ops := by
  refine eachStep_iff ?_ ?_ h ops
  · intro s o errCode t hinv hs
    exact ⟨fileStep_special hinv hs, fileStep_kept hinv hs⟩
  · intro s o errCode t hinv hs hkept
    exact fileStep_inv hinv hs (fileStep_special hinv hs hkept)

/-- stream `d` is opened, whatever is asked for -/
def opensStream (d : ℕ) : OpenIo := ⟨some d, fun _ _ => some d⟩

/-- a file is written, closed, read and released -/
theorem files_run_written_and_read : EachStep fileStep FileKept ⟨newFile, none⟩
    [.openFile (opensStream 3) "save.bin" (mdWrite ||| mdBinary), .write 4 4, .close,
      .openFile (opensStream 3) "save.bin" mdRead, .read 4 2, .release] := by
  refine (files_run_iff _ _ newFile_inv).2 ?_
  refine EachStep.cons rfl (fun _ _ => ⟨rfl, rfl⟩) ?_
  refine EachStep.cons rfl trivial ?_
  refine EachStep.cons rfl trivial ?_
  refine EachStep.cons rfl (fun _ _ => ⟨rfl, rfl⟩) ?_
  refine EachStep.cons rfl trivial ?_
  exact EachStep.cons rfl trivial trivial

/-- a temporary file is opened, and its first `Read` is refused for its mode -/
theorem temporary_file_not_readable :
    ¬ EachStep fileStep FileKept ⟨newFile, none⟩ [.openFile (opensStream 3) "tmp" mdTempFile, .read 4 4] := by
  intro h
  have hkept := (h _ _ rfl).1
  exact (hkept.reads mdTempFile rfl 4 4).2 (.inr (by decide)) rfl

end Noriko.Io
