/-
The rollback of a failed construction, for the two classes whose objects are initialized by `NkOMCreateInstance`: the
SQLite statement (`db.c`) and the GDI renderer (`wingdi.c`).

Both factories hand out zeroed memory, so a member that `Initialize` has not set is `NULL`. The native libraries are the
environment: a creating call answers with a handle or fails. SQLite stores `NULL` in the statement pointer if it cannot
compile a statement, and finalizing or deleting a `NULL` handle does nothing.

`Release` runs the destructor of a fully initialized object on whatever `Initialize` has left behind. The pointer to the
parent, the database or the window, is the last member to be set, and both destructors follow it without a test: no
failure of `Initialize` is rolled back safely (`rollback_never`). The renderer also loses the handles it got before the
failure (`gdiLost`).
-/
import Noriko.Om.CreateInstance

namespace Noriko.Om

open Lib Dstruct

/-! ## The native side -/

/-- the interfaces that the classes are asked for -/
inductive Iid where
  | base | initializable | sqlStatement | renderer | gdiRenderer
  | other (n : ℕ)
deriving DecidableEq, Repr

/-- the members of the objects, the native objects in use and the references on databases and windows -/
structure Native (Mem O : Type) where
  members : O → Mem
  live : List ℕ
  parentRefs : O → ℤ
  /-- how often a `NULL` member was followed -/
  nullFollows : ℕ

variable {Mem K O : Type}

/-- a native call that returns a handle, or `NULL` -/
def Native.acquire (w : Native Mem O) (h : Option ℕ) : Native Mem O := { w with live := h.toList ++ w.live }

/-- a handle is given back; `NULL` is ignored -/
def Native.dispose (w : Native Mem O) (h : Option ℕ) : Native Mem O :=
  { w with live := h.elim w.live fun x => w.live.erase x }

section Parent

variable [DecidableEq O]

def Native.setMembers (w : Native Mem O) (o : O) (m : Mem) : Native Mem O :=
  { w with members := Function.update w.members o m }

def Native.addParentRef (w : Native Mem O) (p : O) : Native Mem O :=
  { w with parentRefs := Function.update w.parentRefs p (w.parentRefs p + 1) }

/-- `Release` of the parent that a member points to -/
def Native.releaseParent (w : Native Mem O) : Option O → Native Mem O
  | some p => { w with parentRefs := Function.update w.parentRefs p (w.parentRefs p - 1) }
  | none => { w with nullFollows := w.nullFollows + 1 }

end Parent

/-! ## SQLite statements -/

structure StmtMembers (O : Type) where
  stmtPtr : Option ℕ
  dbConn : Option O
deriving DecidableEq, Repr

/-- `__NkInt_Sqlite3StmtInit` -/
structure StmtInit (O : Type) where
  dbConn : ℕ
  sqlStr : String
  nkomDbConn : O

/-- what the methods of a statement use of a program with the states `S`: the members of statements, the native statements
that SQLite gives and takes, and the references on database handles -/
structure StmtEnv (S O : Type) where
  members : S → O → StmtMembers O
  setMembers : S → O → StmtMembers O → S
  acquire : S → Option ℕ → S
  dispose : S → Option ℕ → S
  addParentRef : S → O → S
  releaseParent : S → Option O → S

/-- `__NkInt_Sqlite3Stmt_Initialize`; `stmt` is what `sqlite3_prepare_v2` has stored. `none` stands for a failure, and a text
without a statement, for which SQLite succeeds and stores `NULL` as well, is not told apart from one. -/
def stmtInitializeOf {S : Type} (E : StmtEnv S O) (stmt : Option ℕ) (self nkomDbConn : O) (s : S) : NkErrorCode × S :=
  let s := E.setMembers (E.acquire s stmt) self { E.members s self with stmtPtr := stmt }
  if stmt = none then (.compileSqlStatement, s)
  else
    let s := E.addParentRef s nkomDbConn
    (.ok, E.setMembers s self { E.members s self with dbConn := some nkomDbConn })

/-- what `__NkInt_Sqlite3Stmt_Release` does with the last reference -/
def stmtDestroyOf {S : Type} (E : StmtEnv S O) (self : O) (s : S) : S :=
  E.releaseParent (E.dispose s (E.members s self).stmtPtr) (E.members s self).dbConn

section Sqlite

variable [DecidableEq O]

def nativeStmts : StmtEnv (Native (StmtMembers O) O) O where
  members := Native.members
  setMembers := Native.setMembers
  acquire := Native.acquire
  dispose := Native.dispose
  addParentRef := Native.addParentRef
  releaseParent := Native.releaseParent

/-- `prepare` is `sqlite3_prepare_v2` -/
def stmtInitialize (prepare : ℕ → String → Option ℕ) (self : O) (initStruct : StmtInit O)
    (w : Native (StmtMembers O) O) : NkErrorCode × Native (StmtMembers O) O :=
  stmtInitializeOf nativeStmts (prepare initStruct.dbConn initStruct.sqlStr) self initStruct.nkomDbConn w

def stmtDestroy (self : O) (w : Native (StmtMembers O) O) : Native (StmtMembers O) O := stmtDestroyOf nativeStmts self w

/-- `__NkInt_Sqlite3Stmt_QueryInterface`: the index is tested as if 0 meant that the interface is missing -/
def stmtQueryInterface (iId : Iid) : NkErrorCode :=
  if omQueryImplementationIndex [.base, .initializable, .sqlStatement] iId ≠ 0 then .ok else .interfaceNotImpl

/-- the factory and the statement class; `alloc` is the lookup of the class and `NkPoolAlloc` -/
def stmtMethods (classes : O → List K) (alloc : K → NkErrorCode × O) (prepare : ℕ → String → Option ℕ) :
    Methods K Iid (StmtInit O) O (Native (StmtMembers O) O) where
  iidInitializable := .initializable
  queryInstantiableClasses := classes
  createInstance := fun _ k _ w => ((alloc k).1, (alloc k).2, w.setMembers (alloc k).2 ⟨none, none⟩)
  queryInterface := fun _ iId w => (stmtQueryInterface iId, none, w)
  onInitialize := stmtInitialize prepare
  destroy := stmtDestroy

end Sqlite

/-! ## The GDI renderer -/

/-- `__NkInt_GdiResources`, the handles -/
structure GdiResources where
  memDC : Option ℕ
  texDC : Option ℕ
  memBmp : Option ℕ
  oldBmp : Option ℕ
  defTexBmp : Option ℕ
  clearBr : Option ℕ
  vpBkgndBr : Option ℕ
deriving DecidableEq, Repr

structure GdiMembers (O : Type) where
  wndRef : Option O
  gdiRes : GdiResources
deriving DecidableEq, Repr

def zeroGdiResources : GdiResources := ⟨none, none, none, none, none, none, none⟩

/-- what the native calls of `__NkInt_GdiRenderer_CreateBasicResources` return; `oldBmp` and `defTexBmp` belong to the
device contexts they come from -/
structure GdiCalls where
  wndDC : Option ℕ
  memDC : Option ℕ
  memBmp : Option ℕ
  oldBmp : Option ℕ
  texDC : Option ℕ
  defTexBmp : Option ℕ
  clBrush : Option ℕ
  vpBrush : Option ℕ
deriving DecidableEq, Repr

/-- `__NkInt_GdiRenderer_CreateBasicResources` before `lbl_END`; `deploy` is `NK_CONFIG_DEPLOY` -/
def gdiAcquireAll (deploy : Bool) (n : GdiCalls) (w : Native (GdiMembers O) O) :
    NkErrorCode × GdiResources × Native (GdiMembers O) O :=
  let w := w.acquire n.memDC
  if n.memDC = none then (.createMemDC, zeroGdiResources, w)
  else
    let w := w.acquire n.memBmp
    if n.memBmp = none then (.createCompBitmap, zeroGdiResources, w)
    else
      let w := w.acquire n.texDC
      if n.texDC = none then (.createMemDC, zeroGdiResources, w)
      else
        let w := w.acquire n.clBrush
        if n.clBrush = none then (.createBrush, zeroGdiResources, w)
        else if deploy then (.ok, ⟨n.memDC, n.texDC, n.memBmp, n.oldBmp, n.defTexBmp, n.clBrush, none⟩, w)
        else
          let w := w.acquire n.vpBrush
          if n.vpBrush = none then (.createBrush, zeroGdiResources, w.dispose n.clBrush)
          else (.ok, ⟨n.memDC, n.texDC, n.memBmp, n.oldBmp, n.defTexBmp, n.clBrush, n.vpBrush⟩, w)

/-- `__NkInt_GdiRenderer_CreateBasicResources`: the window's device context is given back at `lbl_END`, nothing else -/
def gdiCreateBasicResources (deploy : Bool) (n : GdiCalls) (w : Native (GdiMembers O) O) :
    NkErrorCode × GdiResources × Native (GdiMembers O) O :=
  let r := gdiAcquireAll deploy n (w.acquire n.wndDC)
  (r.1, r.2.1, r.2.2.dispose n.wndDC)

section Gdi

variable [DecidableEq O]

/-- `__NkInt_GdiRenderer_Initialize`; the parameter is the window of the renderer specification -/
def gdiInitialize (deploy : Bool) (n : GdiCalls) (self wndRef : O) (w : Native (GdiMembers O) O) :
    NkErrorCode × Native (GdiMembers O) O :=
  let r := gdiCreateBasicResources deploy n w
  if r.1 ≠ .ok then (r.1, r.2.2) else (.ok, (r.2.2.addParentRef wndRef).setMembers self ⟨some wndRef, r.2.1⟩)

/-- `__NkInt_GdiRenderer_Destroy`; selecting objects into the device contexts creates and deletes nothing -/
def gdiDestroy (deploy : Bool) (self : O) (w : Native (GdiMembers O) O) : Native (GdiMembers O) O :=
  let m := w.members self
  let w := (w.dispose m.gdiRes.memBmp).dispose m.gdiRes.clearBr
  let w := if deploy then w else w.dispose m.gdiRes.vpBkgndBr
  ((w.dispose m.gdiRes.memDC).dispose m.gdiRes.texDC).releaseParent m.wndRef

/-- `__NkInt_GdiRenderer_QueryInterface` -/
def gdiQueryInterface (iId : Iid) : NkErrorCode :=
  if omQueryImplementationIndex [.base, .initializable, .renderer, .gdiRenderer] iId ≠ sizeMax then .ok
  else .interfaceNotImpl

/-- the factory and the renderer class; `alloc` is the lookup of the class and `NkGPAlloc` -/
def gdiMethods (deploy : Bool) (classes : O → List K) (alloc : K → NkErrorCode × O) (n : GdiCalls) :
    Methods K Iid O O (Native (GdiMembers O) O) where
  iidInitializable := .initializable
  queryInstantiableClasses := classes
  createInstance := fun _ k _ w => ((alloc k).1, (alloc k).2, w.setMembers (alloc k).2 ⟨none, zeroGdiResources⟩)
  queryInterface := fun _ iId w => (gdiQueryInterface iId, none, w)
  onInitialize := gdiInitialize deploy n
  destroy := gdiDestroy deploy

end Gdi

/-! ## A failed initialization -/

section Failed

variable {I P W : Type} [DecidableEq K] [Inhabited K] [DecidableEq O] [Inhabited O] {H : HashFn K}
  {M : Methods K I P O W} {s : Runtime K O W}

omit [DecidableEq K] [Inhabited K] [Inhabited O] in
/-- a failed `Initialize` of an object with one reference: the query adds a second one, so the first release does not
destroy the object but the second one does -/
theorem initializeOf_failed {o : O} {p : P} {w₂ w₃ : W} {x : Option (Iface O I)} {c : NkErrorCode}
    (hone : s.refs.count o = 1) (hquery : M.queryInterface o M.iidInitializable s.world = (.ok, x, w₂))
    (hinit : M.onInitialize o p w₂ = (c, w₃)) (hc : c ≠ .ok) :
    (initializeOf (objectCalls M p) o s).1 = c ∧ (initializeOf (objectCalls M p) o s).2.world = M.destroy o w₃ := by
  have hq : queryInterface M o M.iidInitializable s =
      (.ok, some ⟨o, M.iidInitializable⟩, { s with refs := s.refs.addRef o, world := w₂ }) := by
    unfold queryInterface
    rw [hquery]
    rfl
  have hi : initializeOf (objectCalls M p) o s = (c, release M (release M
      { s with refs := (s.refs.addRef o).call o, world := w₃ } o) o) := by
    unfold initializeOf objectCalls callInitialize
    dsimp only
    rw [hq]
    dsimp only
    rw [if_pos rfl, hinit]
    dsimp only
    rw [if_pos hc]
  have htwo : (s.refs.addRef o).count o = 2 := by
    rw [Refs.addRef_count_self, hone]
    rfl
  have hfirst : ¬ ((s.refs.addRef o).call o).LastRef o := by
    unfold Refs.LastRef
    rw [Refs.call_count, htwo]
    decide
  have hsecond : (((s.refs.addRef o).call o).release o).LastRef o := by
    unfold Refs.LastRef
    rw [Refs.release_count_self, Refs.call_count, htwo]
    decide
  rw [hi]
  refine ⟨rfl, ?_⟩
  unfold release
  dsimp only
  rw [if_pos hsecond, if_neg hfirst]

/-- the object is destroyed in the state that `Initialize` has left -/
theorem failedInit_world (hreg : RegistryAlive H s) (hfresh : CreatesFresh M s) {clsId : K} {ctrlInst : Option O} {f o : O}
    {w₁ w₂ w₃ : W} {x : Option (Iface O I)} {c : NkErrorCode} {p : P}
    (hat : (hashtableAt H s.classReg clsId).2 = some f)
    (hcreate : M.createInstance f clsId ctrlInst s.world = (.ok, o, w₁))
    (hquery : M.queryInterface o M.iidInitializable w₁ = (.ok, x, w₂)) (hinit : M.onInitialize o p w₂ = (c, w₃))
    (hc : c ≠ .ok) (iId : I) :
    (omCreateInstance H M clsId ctrlInst iId p s).1 = c ∧
      (omCreateInstance H M clsId ctrlInst iId p s).2.2.world = M.destroy o w₃ := by
  have hrefs := createInstance_release (hreg clsId f hat) hfresh clsId ctrlInst
  have hworld := createInstance_release_world (hreg clsId f hat) hfresh clsId ctrlInst
  rcases omQueryFactoryForClass_cases (H := H) (s := s) clsId with ⟨f', hat', hfac⟩ | ⟨hat', -⟩
  · rw [hat] at hat'
    cases hat'
    have hcode : (createInstance M f clsId ctrlInst (addRef s f)).1 = .ok := congrArg Prod.fst hcreate
    have hobj : (createInstance M f clsId ctrlInst (addRef s f)).2.1 = o := congrArg (fun r => r.2.1) hcreate
    rw [hcreate] at hrefs hworld
    rw [if_pos rfl] at hrefs
    rw [omCreateInstance_eq, hfac]
    dsimp only
    rw [if_neg (not_not.2 hcode), hobj]
    generalize release M (createInstance M f clsId ctrlInst (addRef s f)).2.2 f = s₁ at *
    dsimp only at hrefs hworld
    have hone : s₁.refs.count o = 1 := by
      rw [hrefs, Refs.create_count_self]
    obtain ⟨hi, hdestroyed⟩ := initializeOf_failed hone (by rw [hworld]; exact hquery) hinit hc
    rw [hi, if_pos hc]
    exact ⟨rfl, hdestroyed⟩
  · rw [hat] at hat'
    cases hat'

end Failed

/-- what the rollback of a failed call owes: no member that is `NULL` was followed, and the native objects in use and all
reference counts are as before -/
structure RollbackSafe (s t : Runtime K O (Native Mem O)) : Prop where
  follows : t.world.nullFollows = s.world.nullFollows
  live : t.world.live.Perm s.world.live
  parents : t.world.parentRefs = s.world.parentRefs
  refs : t.refs.count = s.refs.count

/-- one of the native calls of the renderer's initialization fails -/
def GdiCalls.Fails (n : GdiCalls) (deploy : Bool) : Prop :=
  n.memDC = none ∨ n.memBmp = none ∨ n.texDC = none ∨ n.clBrush = none ∨ (deploy = false ∧ n.vpBrush = none)

instance (n : GdiCalls) (deploy : Bool) : Decidable (n.Fails deploy) := inferInstanceAs (Decidable (_ ∨ _))

/-- the handles that were created before the failure and are never given back -/
def gdiLost (n : GdiCalls) : List ℕ :=
  if n.memDC = none then []
  else if n.memBmp = none then n.memDC.toList
  else n.texDC.toList ++ (n.memBmp.toList ++ n.memDC.toList)

/-! ### The renderer -/

section Gdi

variable {deploy : Bool} {n : GdiCalls}

/-- a failure leaves the handles created before it behind and no member set -/
theorem gdiAcquireAll_fails (h : n.Fails deploy) (w : Native (GdiMembers O) O) : ∃ c,
    c ≠ .ok ∧ gdiAcquireAll deploy n w = (c, zeroGdiResources, { w with live := gdiLost n ++ w.live }) := by
  unfold gdiAcquireAll gdiLost Native.acquire Native.dispose
  unfold GdiCalls.Fails at h
  cases hdc : n.memDC with
  | none => exact ⟨.createMemDC, by decide, rfl⟩
  | some memDC =>
    cases hbmp : n.memBmp with
    | none => exact ⟨.createCompBitmap, by decide, rfl⟩
    | some memBmp =>
      cases htex : n.texDC with
      | none => exact ⟨.createMemDC, by decide, rfl⟩
      | some texDC =>
        cases hcl : n.clBrush with
        | none => exact ⟨.createBrush, by decide, rfl⟩
        | some clBrush =>
          simp only [hdc, hbmp, htex, hcl, reduceCtorEq, false_or] at h
          refine ⟨.createBrush, by decide, ?_⟩
          rw [h.1, h.2]
          simp

theorem gdiCreateBasicResources_fails (h : n.Fails deploy) (w : Native (GdiMembers O) O) : ∃ c live,
    c ≠ .ok ∧ gdiCreateBasicResources deploy n w = (c, zeroGdiResources, { w with live := live }) ∧
      live.Perm (gdiLost n ++ w.live) := by
  obtain ⟨c, hc, heq⟩ := gdiAcquireAll_fails h (w.acquire n.wndDC)
  unfold gdiCreateBasicResources
  rw [heq]
  refine ⟨c, _, hc, rfl, ?_⟩
  unfold Native.acquire
  cases n.wndDC with
  | none => exact .refl _
  | some x =>
    have hmid : (gdiLost n ++ x :: w.live).Perm (x :: (gdiLost n ++ w.live)) := List.perm_middle
    have herase := hmid.erase x
    rw [List.erase_cons_head] at herase
    exact herase

variable [DecidableEq O]

/-- the destructor of a renderer none of whose members is set -/
theorem gdiDestroy_zero (deploy : Bool) {self : O} {w : Native (GdiMembers O) O} (h : w.members self = ⟨none, zeroGdiResources⟩) :
    gdiDestroy deploy self w = { w with nullFollows := w.nullFollows + 1 } := by
  unfold gdiDestroy
  rw [h]
  cases deploy <;> rfl

end Gdi

section Never

variable [DecidableEq K] [Inhabited K] [DecidableEq O] [Inhabited O] {H : HashFn K}

variable {clsId : K} {ctrlInst : Option O}

omit [DecidableEq O] in
/-- a call that creates an object has found its factory -/
theorem created_factory {I P W : Type} {M : Methods K I P O W} {s : Runtime K O W}
    (h : created H M clsId ctrlInst s ≠ none) : ∃ f, (hashtableAt H s.classReg clsId).2 = some f ∧
      (M.createInstance f clsId ctrlInst s.world).1 = .ok := by
  obtain ⟨o, ho⟩ := Option.ne_none_iff_exists'.1 h
  obtain ⟨f, hf, hobj⟩ := Option.bind_eq_some_iff.1 ho
  dsimp only at hobj
  split_ifs at hobj with hcode
  exact ⟨f, hf, hcode⟩

section Classes

variable {classes : O → List K} {alloc : K → NkErrorCode × O}

/-- a statement that cannot be compiled -/
theorem stmt_rollback {prepare : ℕ → String → Option ℕ} {s : Runtime K O (Native (StmtMembers O) O)}
    (hreg : RegistryAlive H s) (hfresh : CreatesFresh (stmtMethods classes alloc prepare) s)
    (hcreated : created H (stmtMethods classes alloc prepare) clsId ctrlInst s ≠ none) {init : StmtInit O}
    (hfail : prepare init.dbConn init.sqlStr = none) (iId : Iid) :
    (omCreateInstance H (stmtMethods classes alloc prepare) clsId ctrlInst iId init s).1 = .compileSqlStatement ∧
      (omCreateInstance H (stmtMethods classes alloc prepare) clsId ctrlInst iId init s).2.2.world.nullFollows =
        s.world.nullFollows + 1 := by
  obtain ⟨f, hat, hcode⟩ := created_factory hcreated
  have hok : (alloc clsId).1 = .ok := hcode
  have hcreate : (stmtMethods classes alloc prepare).createInstance f clsId ctrlInst s.world =
      (.ok, (alloc clsId).2, s.world.setMembers (alloc clsId).2 ⟨none, none⟩) := by
    rw [← hok]
    rfl
  have hinit (w : Native (StmtMembers O) O) : (stmtMethods classes alloc prepare).onInitialize (alloc clsId).2 init w =
      (.compileSqlStatement, w.setMembers (alloc clsId).2 { w.members (alloc clsId).2 with stmtPtr := none }) := by
    unfold stmtMethods stmtInitialize stmtInitializeOf nativeStmts
    dsimp only
    rw [hfail]
    rfl
  obtain ⟨hcode', hworld⟩ := failedInit_world hreg hfresh hat hcreate rfl (hinit _) (by decide) iId
  refine ⟨hcode', ?_⟩
  rw [hworld]
  unfold stmtMethods stmtDestroy stmtDestroyOf nativeStmts Native.setMembers
  simp [Native.dispose, Native.releaseParent]

/-- a renderer for which some native call fails -/
theorem gdi_rollback {deploy : Bool} {n : GdiCalls} {s : Runtime K O (Native (GdiMembers O) O)}
    (hreg : RegistryAlive H s) (hfresh : CreatesFresh (gdiMethods deploy classes alloc n) s)
    (hcreated : created H (gdiMethods deploy classes alloc n) clsId ctrlInst s ≠ none) (hfail : n.Fails deploy)
    (wndRef : O) (iId : Iid) :
    (omCreateInstance H (gdiMethods deploy classes alloc n) clsId ctrlInst iId wndRef s).1 ≠ .ok ∧
      (omCreateInstance H (gdiMethods deploy classes alloc n) clsId ctrlInst iId wndRef s).2.2.world.nullFollows =
        s.world.nullFollows + 1 ∧
      (omCreateInstance H (gdiMethods deploy classes alloc n) clsId ctrlInst iId wndRef s).2.2.world.live.Perm
        (gdiLost n ++ s.world.live) := by
  obtain ⟨f, hat, hcode⟩ := created_factory hcreated
  have hok : (alloc clsId).1 = .ok := hcode
  have hcreate : (gdiMethods deploy classes alloc n).createInstance f clsId ctrlInst s.world =
      (.ok, (alloc clsId).2, s.world.setMembers (alloc clsId).2 ⟨none, zeroGdiResources⟩) := by
    rw [← hok]
    rfl
  obtain ⟨c, live, hc, hres, hperm⟩ :=
    gdiCreateBasicResources_fails hfail (s.world.setMembers (alloc clsId).2 ⟨none, zeroGdiResources⟩)
  have hinit : (gdiMethods deploy classes alloc n).onInitialize (alloc clsId).2 wndRef
      (s.world.setMembers (alloc clsId).2 ⟨none, zeroGdiResources⟩) =
      (c, { s.world.setMembers (alloc clsId).2 ⟨none, zeroGdiResources⟩ with live := live }) := by
    unfold gdiMethods gdiInitialize
    dsimp only
    rw [hres, if_pos hc]
  obtain ⟨hcode', hworld⟩ := failedInit_world hreg hfresh hat hcreate rfl hinit hc iId
  have hmembers : ({ s.world.setMembers (alloc clsId).2 ⟨none, zeroGdiResources⟩ with live := live } :
      Native (GdiMembers O) O).members (alloc clsId).2 = ⟨none, zeroGdiResources⟩ := Function.update_self _ _ _
  rw [hcode', hworld]
  have hdestroy := gdiDestroy_zero deploy hmembers
  refine ⟨hc, ?_, ?_⟩
  · exact congrArg Native.nullFollows hdestroy
  · exact (List.Perm.of_eq (congrArg Native.live hdestroy)).trans hperm

/-- No failed initialization is rolled back safely: neither for a statement that cannot be compiled nor for a renderer,
whichever of its native calls fails. -/
theorem rollback_never :
    (∀ (prepare : ℕ → String → Option ℕ) (s : Runtime K O (Native (StmtMembers O) O)) (init : StmtInit O) (iId : Iid),
      RegistryAlive H s → CreatesFresh (stmtMethods classes alloc prepare) s →
      created H (stmtMethods classes alloc prepare) clsId ctrlInst s ≠ none →
      prepare init.dbConn init.sqlStr = none →
      ¬ RollbackSafe s (omCreateInstance H (stmtMethods classes alloc prepare) clsId ctrlInst iId init s).2.2) ∧
    (∀ (deploy : Bool) (n : GdiCalls) (s : Runtime K O (Native (GdiMembers O) O)) (wndRef : O) (iId : Iid),
      RegistryAlive H s → CreatesFresh (gdiMethods deploy classes alloc n) s →
      created H (gdiMethods deploy classes alloc n) clsId ctrlInst s ≠ none → n.Fails deploy →
      ¬ RollbackSafe s (omCreateInstance H (gdiMethods deploy classes alloc n) clsId ctrlInst iId wndRef s).2.2) := by
  constructor
  · intro prepare s init iId hreg hfresh hcreated hfail hsafe
    have hfollows := (stmt_rollback hreg hfresh hcreated hfail iId).2
    rw [hsafe.follows] at hfollows
    exact absurd hfollows (Nat.ne_of_lt (Nat.lt_succ_self _))
  · intro deploy n s wndRef iId hreg hfresh hcreated hfail hsafe
    have hfollows := (gdi_rollback hreg hfresh hcreated hfail wndRef iId).2.1
    rw [hsafe.follows] at hfollows
    exact absurd hfollows (Nat.ne_of_lt (Nat.lt_succ_self _))

end Classes

end Never

/-! ### Instances -/

/-- the statement class; no statement can be compiled -/
def brokenStmt : Methods ℕ Iid (StmtInit ℕ) ℕ (Native (StmtMembers ℕ) ℕ) :=
  stmtMethods (fun _ => [5]) (fun _ => (.ok, 2)) (fun _ _ => none)

/-- the second device context cannot be created -/
def noTexDC : GdiCalls := ⟨some 10, some 11, some 12, some 13, none, none, none, none⟩

/-- the renderer class, when the second device context cannot be created -/
def brokenGdi : Methods ℕ Iid ℕ ℕ (Native (GdiMembers ℕ) ℕ) :=
  gdiMethods false (fun _ => [5]) (fun _ => (.ok, 2)) noTexDC

def stmtWorld : Native (StmtMembers ℕ) ℕ := ⟨fun _ => ⟨none, none⟩, [], fun _ => 1, 0⟩

def gdiWorld : Native (GdiMembers ℕ) ℕ := ⟨fun _ => ⟨none, zeroGdiResources⟩, [], fun _ => 1, 0⟩

/-- both classes, with failing native calls -/
theorem rollback_never_instances :
    ¬ RollbackSafe (plainRuntime stmtWorld)
      (omCreateInstance modHash brokenStmt 5 none .sqlStatement ⟨0, "SELECT", 7⟩ (plainRuntime stmtWorld)).2.2 ∧
    ¬ RollbackSafe (plainRuntime gdiWorld)
      (omCreateInstance modHash brokenGdi 5 none .renderer 7 (plainRuntime gdiWorld)).2.2 := by
  have hfresh : ∀ {I P W : Type} (M : Methods ℕ I P ℕ W) (w : W), (∀ f k c v, (M.createInstance f k c v).2.1 = 2) →
      CreatesFresh M (plainRuntime w) := by
    intro I P W M w h f k c _
    rw [h f k c]
    exact (lt_irrefl 0 : ¬ (0 : ℤ) < 0)
  exact ⟨rollback_never.1 _ _ _ _ (registryAlive_plain _) (hfresh _ _ fun _ _ _ _ => rfl) (by decide) rfl,
    rollback_never.2 _ _ _ _ _ (registryAlive_plain _) (hfresh _ _ fun _ _ _ _ => rfl) (by decide) (by decide)⟩

/-- the renderer follows its unset window, and its first device context and its bitmap are lost -/
theorem rollback_broken :
    (omCreateInstance modHash brokenGdi 5 none .renderer 7 (plainRuntime gdiWorld)).2.2.world.live = [12, 11] ∧
    ¬ RollbackSafe (plainRuntime gdiWorld)
      (omCreateInstance modHash brokenGdi 5 none .renderer 7 (plainRuntime gdiWorld)).2.2 := by
  refine ⟨rfl, fun hsafe => ?_⟩
  have hfollows : (1 : ℕ) = 0 := hsafe.follows
  cases hfollows

end Noriko.Om
