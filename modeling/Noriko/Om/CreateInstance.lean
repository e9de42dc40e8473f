/-
The reference-count protocol of `NkOMCreateInstance`.

A call makes up to five call-outs and may end after each of them. `createInstance_refs` gives the counters of all objects
after every combination of their outcomes: they are those before the call, plus a new object with one reference if the
call succeeds, plus a new object that was destroyed again if it fails after the object was created.

Assumed of the environment: a registered factory exists (`RegistryAlive`), and a factory hands out an object that did not
exist before (`CreatesFresh`).
-/
import Noriko.Dstruct.HtableMap
import Noriko.Om.Runtime

namespace Noriko.Om

open Lib Dstruct

variable {K I P O W : Type} [DecidableEq O]

/-! ## One object -/

section Object

variable {M : Methods K I P O W} {s : Runtime K O W} {o : O}

/-- a query adds a reference, or it fails and does not -/
theorem queryInterface_cases (h : s.refs.Alive o) (iId : I) :
    ((queryInterface M o iId s).1 = .ok ∧ (queryInterface M o iId s).2.1 = some ⟨o, iId⟩ ∧
      (queryInterface M o iId s).2.2.refs = s.refs.addRef o) ∨
    ((queryInterface M o iId s).1 ≠ .ok ∧ (queryInterface M o iId s).2.2.refs = s.refs) := by
  unfold queryInterface
  dsimp only
  split_ifs with hcode
  · exact Or.inl ⟨rfl, rfl, rfl⟩
  · exact Or.inr ⟨hcode, Refs.call_of_alive h⟩

/-- initialization leaves the counters alone, or it fails and the object has lost its reference -/
theorem initializeOf_refs (h : s.refs.Alive o) (initParam : P) :
    let i := initializeOf (objectCalls M initParam) o s
    (i.1 = .ok ∧ i.2.refs = s.refs) ∨ (i.1 ≠ .ok ∧ i.2.refs = s.refs.release o) := by
  unfold initializeOf objectCalls
  dsimp only
  rcases queryInterface_cases (M := M) h M.iidInitializable with ⟨hok, -, hrefs⟩ | ⟨hfail, hrefs⟩
  · rw [if_pos hok]
    have halive : (s.refs.addRef o).Alive o := by
      unfold Refs.Alive
      rw [Refs.addRef_count_self]
      exact lt_trans h (lt_add_one _)
    have hinit : (callInitialize M o initParam (queryInterface M o M.iidInitializable s).2.2).2.refs =
        s.refs.addRef o := by
      unfold callInitialize
      dsimp only
      rw [hrefs, Refs.call_of_alive halive]
    split_ifs with hcode
    · right
      refine ⟨hcode, ?_⟩
      unfold release
      dsimp only
      rw [hinit, Refs.addRef_release h]
    · left
      refine ⟨not_not.1 hcode, ?_⟩
      unfold release
      dsimp only
      rw [hinit, Refs.addRef_release h]
  · rw [if_neg hfail]
    exact Or.inl ⟨rfl, hrefs⟩

/-- the last query hands out the requested interface, or the object loses its reference -/
theorem queryResultOf_refs (h : s.refs.Alive o) (initParam : P) (iId : I) :
    let q := queryResultOf (objectCalls M initParam) o iId s
    (q.1 = .ok ∧ q.2.1 = some ⟨o, iId⟩ ∧ q.2.2.refs = s.refs) ∨
      (q.1 ≠ .ok ∧ q.2.1 = none ∧ q.2.2.refs = s.refs.release o) := by
  unfold queryResultOf objectCalls
  dsimp only
  rcases queryInterface_cases (M := M) h iId with ⟨hok, hres, hrefs⟩ | ⟨hfail, hrefs⟩
  · left
    rw [if_neg (not_not.2 hok)]
    refine ⟨hok, hres, ?_⟩
    unfold release
    dsimp only
    rw [hrefs, Refs.addRef_release h]
  · right
    rw [if_pos hfail]
    refine ⟨hfail, rfl, ?_⟩
    unfold release
    dsimp only
    rw [hrefs]

end Object

/-! ## The call -/

section Call

variable [DecidableEq K] [Inhabited K] [Inhabited O]

/-- every factory in the registry exists -/
def RegistryAlive (H : HashFn K) (s : Runtime K O W) : Prop :=
  ∀ k f, (hashtableAt H s.classReg k).2 = some f → s.refs.Alive f

/-- a factory hands out an object that does not exist yet -/
def CreatesFresh (M : Methods K I P O W) (s : Runtime K O W) : Prop :=
  ∀ f k ctrlInst, (M.createInstance f k ctrlInst s.world).1 = .ok →
    ¬ s.refs.Alive (M.createInstance f k ctrlInst s.world).2.1

/-- the object that a call creates, if its factory is found and succeeds -/
def created (H : HashFn K) (M : Methods K I P O W) (clsId : K) (ctrlInst : Option O) (s : Runtime K O W) : Option O :=
  (hashtableAt H s.classReg clsId).2.bind fun f =>
    let r := M.createInstance f clsId ctrlInst s.world
    if r.1 = .ok then some r.2.1 else none

variable {H : HashFn K} {M : Methods K I P O W} {s : Runtime K O W}

/-- the search for a factory finds one and adds a reference, or it fails -/
theorem omQueryFactoryForClass_cases (clsId : K) :
    (∃ f, (hashtableAt H s.classReg clsId).2 = some f ∧ omQueryFactoryForClass H clsId s = (.ok, some f, addRef s f)) ∨
    ((hashtableAt H s.classReg clsId).2 = none ∧ omQueryFactoryForClass H clsId s = (.classNotReg, none, s)) := by
  unfold omQueryFactoryForClass hashtableAt
  dsimp only
  split_ifs with hfound
  · exact Or.inr ⟨rfl, rfl⟩
  · exact Or.inl ⟨_, rfl, rfl⟩

omit [DecidableEq K] [Inhabited K] [Inhabited O] in
/-- the factory has its old count again after it was used -/
theorem createInstance_release {f : O} (hf : s.refs.Alive f) (hfresh : CreatesFresh M s) (clsId : K)
    (ctrlInst : Option O) :
    (release M (createInstance M f clsId ctrlInst (addRef s f)).2.2 f).refs =
      if (M.createInstance f clsId ctrlInst s.world).1 = .ok then
        s.refs.create (M.createInstance f clsId ctrlInst s.world).2.1
      else s.refs := by
  have halive : (s.refs.addRef f).Alive f := by
    unfold Refs.Alive
    rw [Refs.addRef_count_self]
    exact lt_trans hf (lt_add_one _)
  unfold release createInstance addRef
  dsimp only
  rw [Refs.call_of_alive halive]
  split_ifs with hcode
  · have hne : (M.createInstance f clsId ctrlInst s.world).2.1 ≠ f := by
      intro heq
      have hdead := hfresh f clsId ctrlInst hcode
      rw [heq] at hdead
      exact hdead hf
    rw [Refs.create_release hne, Refs.addRef_release hf]
  · exact Refs.addRef_release hf

omit [DecidableEq K] [Inhabited K] [Inhabited O] in
/-- the factory is not destroyed when it is released -/
theorem createInstance_release_world {f : O} (hf : s.refs.Alive f) (hfresh : CreatesFresh M s) (clsId : K)
    (ctrlInst : Option O) : (release M (createInstance M f clsId ctrlInst (addRef s f)).2.2 f).world =
      (M.createInstance f clsId ctrlInst s.world).2.2 := by
  have hcount : (createInstance M f clsId ctrlInst (addRef s f)).2.2.refs.count f = s.refs.count f + 1 := by
    have hrefs := congrArg (fun r => r.count f) (createInstance_release hf hfresh clsId ctrlInst)
    unfold release at hrefs
    dsimp only at hrefs
    rw [Refs.release_count_self] at hrefs
    split_ifs at hrefs with hcode
    · have hne : f ≠ (M.createInstance f clsId ctrlInst s.world).2.1 := by
        intro heq
        have hdead := hfresh f clsId ctrlInst hcode
        rw [← heq] at hdead
        exact hdead hf
      rw [Refs.create_count_of_ne hne] at hrefs
      omega
    · omega
  have hnot : ¬ (createInstance M f clsId ctrlInst (addRef s f)).2.2.refs.LastRef f := by
    have hpos : 0 < s.refs.count f := hf
    unfold Refs.LastRef
    omega
  unfold release
  rw [if_neg hnot]
  rfl

/-- the counters of all objects after a call, and its results -/
theorem createInstance_refs (hreg : RegistryAlive H s) (hfresh : CreatesFresh M s) (clsId : K) (ctrlInst : Option O)
    (iId : I) (initParam : P) {code : NkErrorCode} {res : Option (Iface O I)} {t : Runtime K O W}
    (hrun : omCreateInstance H M clsId ctrlInst iId initParam s = (code, res, t)) :
    (created H M clsId ctrlInst s = none ∧ code ≠ .ok ∧ res = none ∧ t.refs = s.refs) ∨
    ∃ o, created H M clsId ctrlInst s = some o ∧
      ((code = .ok ∧ res = some ⟨o, iId⟩ ∧ t.refs = s.refs.create o) ∨
        (code ≠ .ok ∧ res = none ∧ t.refs = (s.refs.create o).release o)) := by
  rw [omCreateInstance_eq] at hrun
  unfold created
  rcases omQueryFactoryForClass_cases (H := H) (s := s) clsId with ⟨f, hat, hquery⟩ | ⟨hat, hquery⟩
  · rw [hquery] at hrun
    rw [hat, Option.bind_some]
    have hrefs := createInstance_release (hreg clsId f hat) hfresh clsId ctrlInst
    have hcode : (createInstance M f clsId ctrlInst (addRef s f)).1 = (M.createInstance f clsId ctrlInst s.world).1 := rfl
    have hobj : (createInstance M f clsId ctrlInst (addRef s f)).2.1 =
        (M.createInstance f clsId ctrlInst s.world).2.1 := rfl
    dsimp only at hrun ⊢
    rw [hcode, hobj] at hrun
    by_cases hcreate : (M.createInstance f clsId ctrlInst s.world).1 = .ok
    · rw [if_pos hcreate] at hrefs ⊢
      rw [if_neg (not_not.2 hcreate)] at hrun
      generalize (M.createInstance f clsId ctrlInst s.world).2.1 = o at *
      generalize release M (createInstance M f clsId ctrlInst (addRef s f)).2.2 f = s₁ at *
      have halive : s₁.refs.Alive o := by
        rw [hrefs]
        exact Refs.create_alive
      refine Or.inr ⟨o, rfl, ?_⟩
      rcases initializeOf_refs (M := M) halive initParam with ⟨hinit, hsame⟩ | ⟨hinit, hgone⟩
      · rw [if_neg (not_not.2 hinit)] at hrun
        have halive' : (initializeOf (objectCalls M initParam) o s₁).2.refs.Alive o := by rwa [hsame]
        have hlast := queryResultOf_refs (M := M) halive' initParam iId
        rw [hrun, hsame, hrefs] at hlast
        exact hlast
      · rw [if_pos hinit] at hrun
        cases hrun
        exact Or.inr ⟨hinit, rfl, by rw [hgone, hrefs]⟩
    · rw [if_neg hcreate] at hrefs ⊢
      rw [if_pos hcreate] at hrun
      cases hrun
      exact Or.inl ⟨rfl, hcreate, rfl, hrefs⟩
  · rw [hquery] at hrun
    rw [hat]
    cases hrun
    exact Or.inl ⟨rfl, by decide, rfl, rfl⟩

omit [DecidableEq O] in
/-- the created object is none of those that existed before -/
theorem created_fresh (hfresh : CreatesFresh M s) {clsId : K} {ctrlInst : Option O} {o : O}
    (h : created H M clsId ctrlInst s = some o) : ¬ s.refs.Alive o := by
  obtain ⟨f, -, hf⟩ := Option.bind_eq_some_iff.1 h
  dsimp only at hf
  split_ifs at hf with hcode
  cases hf
  exact hfresh f clsId ctrlInst hcode

/-- Whatever the outcomes of the call-outs: a call that succeeds returns the requested interface of an object with one
reference; a call that fails returns `NULL`, and an object it created was destroyed exactly once. All other objects, the
factory among them, keep their counts, and no method of an object that does not exist was called. -/
theorem createInstance_protocol (hreg : RegistryAlive H s) (hfresh : CreatesFresh M s) (clsId : K) (ctrlInst : Option O)
    (iId : I) (initParam : P) {code : NkErrorCode} {res : Option (Iface O I)} {t : Runtime K O W}
    (hrun : omCreateInstance H M clsId ctrlInst iId initParam s = (code, res, t)) :
    (code = .ok → ∃ o, created H M clsId ctrlInst s = some o ∧ res = some ⟨o, iId⟩ ∧ t.refs.count o = 1 ∧
      t.refs.destroyed o = s.refs.destroyed o) ∧
    (code ≠ .ok → res = none ∧ ∀ o, created H M clsId ctrlInst s = some o →
      t.refs.count o = 0 ∧ t.refs.destroyed o = s.refs.destroyed o + 1) ∧
    (∀ x, created H M clsId ctrlInst s ≠ some x →
      t.refs.count x = s.refs.count x ∧ t.refs.destroyed x = s.refs.destroyed x) ∧
    (∀ f, (hashtableAt H s.classReg clsId).2 = some f → t.refs.count f = s.refs.count f) ∧
    t.refs.faults = s.refs.faults := by
  have hfac : ∀ f, (hashtableAt H s.classReg clsId).2 = some f → created H M clsId ctrlInst s ≠ some f :=
    fun f hat hnew => created_fresh hfresh hnew (hreg clsId f hat)
  rcases createInstance_refs hreg hfresh clsId ctrlInst iId initParam hrun with
    ⟨hnone, hcode, hres, hrefs⟩ | ⟨o, hsome, ⟨hcode, hres, hrefs⟩ | ⟨hcode, hres, hrefs⟩⟩
  · -- nothing was created
    rw [hrefs]
    refine ⟨fun h => absurd h hcode, fun _ => ⟨hres, fun o ho => ?_⟩, fun _ _ => ⟨rfl, rfl⟩, fun _ _ => rfl, rfl⟩
    rw [hnone] at ho
    cases ho
  · -- the object is handed out
    have hother : ∀ x, created H M clsId ctrlInst s ≠ some x → (s.refs.create o).count x = s.refs.count x := by
      intro x hx
      exact Refs.create_count_of_ne fun heq => hx (heq ▸ hsome)
    rw [hrefs]
    refine ⟨fun _ => ⟨o, hsome, hres, Refs.create_count_self, rfl⟩, fun h => absurd hcode h, fun x hx => ⟨hother x hx, rfl⟩,
      fun f hat => hother f (hfac f hat), rfl⟩
  · -- the object is destroyed again
    have hother : ∀ x, created H M clsId ctrlInst s ≠ some x →
        ((s.refs.create o).release o).count x = s.refs.count x ∧
          ((s.refs.create o).release o).destroyed x = s.refs.destroyed x := by
      intro x hx
      have hne : x ≠ o := fun heq => hx (heq ▸ hsome)
      exact ⟨(Refs.release_count_of_ne hne).trans (Refs.create_count_of_ne hne), Refs.release_destroyed_of_ne hne⟩
    rw [hrefs]
    refine ⟨fun h => absurd h hcode, fun _ => ⟨hres, fun x hx => ?_⟩, hother, fun f hat => (hother f (hfac f hat)).1,
      Refs.release_faults Refs.create_alive⟩
    rw [hsome] at hx
    cases hx
    exact ⟨Refs.create_release_count, Refs.create_release_destroyed⟩

end Call

/-- objects are numbers; factory 1 creates object 2 and makes class 5, and the parameter tells whether `Initialize`
succeeds -/
def plainMethods : Methods ℕ ℕ Bool ℕ Unit where
  iidInitializable := 0
  queryInstantiableClasses := fun _ => [5]
  createInstance := fun _ _ _ w => (.ok, 2, w)
  queryInterface := fun _ _ w => (.ok, none, w)
  onInitialize := fun _ p w => (if p then .ok else .unknown, w)
  destroy := fun _ w => w

/-- class 5 is registered -/
def plainTable : Hashtable ℕ ℕ := ⟨1, 1, growingProps, [⟨⟨5, 1⟩, true, 0⟩]⟩

theorem hashtableAt_plain {k f : ℕ} (h : (hashtableAt modHash plainTable k).2 = some f) : f = 1 := by
  have hloc : locKey modHash plainTable.currCap plainTable.elemArray k = if k = 5 then 0 else uint32Max := by
    have hzero : modHash.hash k 1 = 0 := Nat.mod_one k
    simp [locKey, locLoop, slot, plainTable, hzero]
  unfold hashtableAt at h
  dsimp only at h
  rw [hloc] at h
  by_cases hk : k = 5
  · rw [if_pos hk, if_neg (by decide)] at h
    cases h
    rfl
  · rw [if_neg hk, if_pos rfl] at h
    cases h

/-- the registered factory is the only object -/
def plainRuntime (w : W) : Runtime ℕ ℕ W where
  classReg := plainTable
  refs := ⟨fun o => if o = 1 then 1 else 0, fun _ => 0, 0⟩
  world := w

theorem registryAlive_plain (w : W) : RegistryAlive modHash (plainRuntime w) := by
  intro k f hf
  rw [hashtableAt_plain hf]
  exact one_pos

/-- the object is created, cannot be initialized and is destroyed -/
theorem createInstance_protocol_failedInit : ∃ t : Runtime ℕ ℕ Unit,
    omCreateInstance modHash plainMethods 5 none 3 false (plainRuntime ()) = (.unknown, none, t) ∧
      t.refs.count 2 = 0 ∧ t.refs.destroyed 2 = 1 ∧ t.refs.count 1 = 1 ∧ t.refs.faults = 0 := by
  have hfresh : CreatesFresh plainMethods (plainRuntime ()) := by
    intro f k ctrlInst _
    exact (by decide : ¬ (plainRuntime ()).refs.Alive 2)
  have hrun : omCreateInstance modHash plainMethods 5 none 3 false (plainRuntime ()) = (.unknown, none, _) := rfl
  obtain ⟨-, hfail, -, hfac, hfaults⟩ :=
    createInstance_protocol (registryAlive_plain ()) hfresh 5 none 3 false hrun
  have hdead := (hfail (by decide)).2 2 rfl
  exact ⟨_, hrun, hdead.1, hdead.2, hfac 1 rfl, hfaults⟩

end Noriko.Om
