/-
References and ownership in the class registry: runs of `NkOMInstallClassFactory` and `NkOMUninstallClassFactory` by any
factories, with insertions that may fail at any class.

What a call does to the registry is said once: an installation is a sequence of insertions (`Inserts`), after which it
returns or rolls back, and the rollback is a whole uninstallation. Everything else is read off from that.

Balance. `drift` is the count of a factory less the entries that point to it; it stays the same as long as every reference
of the registry belongs to an entry. Installing takes a reference for an id that was registered already, and uninstalling
drops one for every id and one more, next to those that the table's destructor drops. So an uninstallation, and with it
the rollback, always breaks the balance (`balance_run`).

Ownership. Insertion ignores an id that is registered, but erasing goes by the id alone, whoever it belongs to
(`owner_run`).
-/
import Noriko.Dstruct.HtableOwn
import Noriko.Om.CreateInstance

namespace Noriko.Om

open Lib Dstruct

variable {K I P O W : Type}

/-! ## The registry -/

/-- the properties of the class registry -/
def classRegProps : HashtableProperties := ⟨16, 16, uint32Max, .uuid, true⟩

/-- the entries of the registry -/
def registered (s : Runtime K O W) : List (HashtablePair K O) := stored s.classReg.elemArray

structure RegInv (s : Runtime K O W) : Prop where
  table : HtInv s.classReg
  props : s.classReg.htProps = classRegProps

/-- the number of entries that point to the factory -/
def entriesOf [DecidableEq O] (s : Runtime K O W) (f : O) : ℤ := pointing (registered s) f

/-- the references on the factory that belong to no entry -/
def drift [DecidableEq O] (s : Runtime K O W) (f : O) : ℤ := s.refs.count f - entriesOf s f

/-- calls on the registry; the table of an installation can grow in round `i` if `heap i` -/
inductive OmOp (O : Type) where
  | install (clsFac : O) (heap : ℕ → Bool)
  | uninstall (clsFac : O)

section Registry

variable [DecidableEq K] [Inhabited K] [DecidableEq O] [Inhabited O] {H : HashFn K} {M : Methods K I P O W}
  {s t : Runtime K O W} {f : O}

/-- one call: its code and the state after it, if it returns -/
def omStep (H : HashFn K) (M : Methods K I P O W) (s : Runtime K O W) : OmOp O → Option (NkErrorCode × Runtime K O W)
  | .install clsFac heap => omInstallClassFactory H M clsFac heap s
  | .uninstall clsFac => some (omUninstallClassFactory H M clsFac s)

/-! ## References -/

omit [DecidableEq K] [Inhabited K] [Inhabited O] in
theorem release_drift (g : O) : drift (release M s f) g = drift s g - if g = f then 1 else 0 := by
  unfold drift entriesOf registered release
  dsimp only
  by_cases hg : g = f
  · rw [hg, Refs.release_count_self, if_pos rfl]
    ring
  · rw [Refs.release_count_of_ne hg, if_neg hg, sub_zero]

omit [DecidableEq K] [Inhabited K] [Inhabited O] in
theorem addRef_drift (g : O) : drift (addRef s f) g = drift s g + if g = f then 1 else 0 := by
  unfold drift entriesOf registered addRef
  dsimp only
  by_cases hg : g = f
  · rw [hg, Refs.addRef_count_self, if_pos rfl]
    ring
  · rw [Refs.addRef_count_of_ne hg, if_neg hg, add_zero]

omit [DecidableEq K] [Inhabited K] [Inhabited O] in
/-- entries of a registry with one more pair -/
theorem entriesOf_cons {p : HashtablePair K O} (h : (registered t).Perm (p :: registered s)) (g : O) :
    entriesOf t g = entriesOf s g + if g = p.valuePtr then 1 else 0 := by
  unfold entriesOf
  rw [pointing_perm h, pointing_cons]

omit [DecidableEq K] [Inhabited K] [Inhabited O] in
/-- the same entries in another order -/
theorem drift_perm (h : (registered t).Perm (registered s)) (hrefs : t.refs = s.refs) (g : O) : drift t g = drift s g := by
  unfold drift entriesOf
  rw [pointing_perm h, hrefs]

omit [DecidableEq K] [Inhabited K] [Inhabited O] in
/-- an entry without a reference of its own -/
theorem drift_cons {p : HashtablePair K O} (h : (registered t).Perm (p :: registered s)) (hrefs : t.refs = s.refs)
    (g : O) : drift t g = drift s g - if g = p.valuePtr then 1 else 0 := by
  unfold drift
  rw [entriesOf_cons h g, hrefs]
  ring

/-! ## Erasing -/

/-- an entry that is erased takes its reference with it -/
theorem eraseClass_cases (h : RegInv s) (k : K) : RegInv (eraseClass H M s k) ∧
    ((∃ q ∈ registered s, q.keyVal = k ∧ (registered s).Perm (q :: registered (eraseClass H M s k)) ∧
        (eraseClass H M s k).refs = s.refs.release q.valuePtr) ∨
      ((∀ q ∈ registered s, q.keyVal ≠ k) ∧ (registered (eraseClass H M s k)).Perm (registered s) ∧
        (eraseClass H M s k).refs = s.refs)) := by
  have hfree : s.classReg.htProps.fnElemFree = true := by
    rw [h.props]
    rfl
  obtain ⟨hinv, hprops, -, -⟩ := hashtableErase_own (H := H) h.table hfree k
  have hprops' := hprops.trans h.props
  unfold eraseClass
  dsimp only
  rcases hashtableErase_cases (H := H) h.table hfree k with ⟨q, hq, hkey, hperm, hcalls⟩ | ⟨hnone, hperm, hcalls⟩
  · rw [hcalls]
    exact ⟨⟨hinv, hprops'⟩, Or.inl ⟨q, hq, hkey, hperm, rfl⟩⟩
  · rw [hcalls]
    exact ⟨⟨hinv, hprops'⟩, Or.inr ⟨hnone, hperm, rfl⟩⟩

theorem eraseClass_drift (h : RegInv s) (k : K) (g : O) : drift (eraseClass H M s k) g = drift s g := by
  rcases (eraseClass_cases (H := H) (M := M) h k).2 with ⟨q, -, -, hperm, hrefs⟩ | ⟨-, hperm, hrefs⟩
  · unfold drift
    rw [entriesOf_cons hperm g, hrefs]
    by_cases hg : g = q.valuePtr
    · rw [hg, Refs.release_count_self, if_pos rfl]
      ring
    · rw [Refs.release_count_of_ne hg, if_neg hg, add_zero]
  · exact drift_perm hperm hrefs g

/-- what is left after an id was erased -/
theorem mem_eraseClass (h : RegInv s) (k : K) (q : HashtablePair K O) :
    q ∈ registered (eraseClass H M s k) ↔ q ∈ registered s ∧ q.keyVal ≠ k := by
  rcases (eraseClass_cases (H := H) (M := M) h k).2 with ⟨p, -, hkey, hperm, -⟩ | ⟨hnone, hperm, -⟩
  · have hnodup := (hperm.map HashtablePair.keyVal).nodup_iff.1 h.table.keys
    rw [List.map_cons, hkey, List.nodup_cons] at hnodup
    rw [hperm.mem_iff, List.mem_cons]
    constructor
    · intro hq
      refine ⟨Or.inr hq, ?_⟩
      rintro rfl
      exact hnodup.1 (List.mem_map_of_mem hq)
    · rintro ⟨rfl | hq, hne⟩
      · exact absurd hkey hne
      · exact hq
  · rw [hperm.mem_iff]
    exact ⟨fun hq => ⟨hq, hnone q hq⟩, fun hq => hq.1⟩

/-! ## Uninstalling -/

/-- every id is erased, and every round drops one reference on top -/
theorem uninstallLoop_spec (h : RegInv s) (ks : List K) : RegInv (uninstallLoop H M f ks s) ∧
    (∀ g, drift (uninstallLoop H M f ks s) g = drift s g - if g = f then (ks.length : ℤ) else 0) ∧
    ∀ q, q ∈ registered (uninstallLoop H M f ks s) ↔ q ∈ registered s ∧ q.keyVal ∉ ks := by
  induction ks generalizing s with
  | nil =>
    refine ⟨h, fun g => ?_, fun q => ?_⟩
    · simp [uninstallLoop]
    · simp [uninstallLoop]
  | cons k ks ih =>
    have herase := (eraseClass_cases (H := H) (M := M) h k).1
    have h' : RegInv (release M (eraseClass H M s k) f) := ⟨herase.table, herase.props⟩
    obtain ⟨hinv, hdrift, hmem⟩ := ih h'
    refine ⟨hinv, fun g => ?_, fun q => ?_⟩
    · rw [uninstallLoop, hdrift, release_drift, eraseClass_drift h, List.length_cons]
      split_ifs <;> push_cast <;> ring
    · have hrelease : registered (release M (eraseClass H M s k) f) = registered (eraseClass H M s k) := rfl
      rw [uninstallLoop, hmem, hrelease, mem_eraseClass h, List.mem_cons, not_or, and_assoc]

theorem uninstall_spec (h : RegInv s) : RegInv (omUninstallClassFactory H M f s).2 ∧
    (∀ g, drift (omUninstallClassFactory H M f s).2 g =
      drift s g - if g = f then ((M.queryInstantiableClasses f).length + 1 : ℤ) else 0) ∧
    ∀ q, q ∈ registered (omUninstallClassFactory H M f s).2 ↔
      q ∈ registered s ∧ q.keyVal ∉ M.queryInstantiableClasses f := by
  obtain ⟨hinv, hdrift, hmem⟩ := uninstallLoop_spec (H := H) (M := M) (f := f) h (M.queryInstantiableClasses f)
  refine ⟨⟨hinv.table, hinv.props⟩, fun g => ?_, hmem⟩
  unfold omUninstallClassFactory
  dsimp only
  rw [release_drift, hdrift]
  split_ifs <;> ring

/-! ## Installing -/

/-- `NkHashtableInsert` of one class returned `code` and made the registry that of `t` -/
def InsertsOne (H : HashFn K) (f : O) (k : K) (s : Runtime K O W) (code : NkErrorCode) (t : Runtime K O W) : Prop :=
  ∃ heap ht, hashtableInsert H s.classReg ⟨k, f⟩ heap = some (code, ht) ∧ t = { s with classReg := ht }

/-- the classes are inserted one after the other, each with a reference -/
inductive Inserts (H : HashFn K) (f : O) : Runtime K O W → List K → Runtime K O W → Prop
  | nil (s : Runtime K O W) : Inserts H f s [] s
  | cons {s t u : Runtime K O W} {k : K} {ks : List K} : InsertsOne H f k s .ok t → Inserts H f (addRef t f) ks u →
      Inserts H f s (k :: ks) u

/-- the index of the first insertion that fails, from class `i` on -/
def firstFailure (H : HashFn K) (f : O) (heap : ℕ → Bool) : List K → ℕ → Hashtable K O → Option ℕ
  | [], _, _ => none
  | k :: ks, i, ht =>
    match hashtableInsert H ht ⟨k, f⟩ (heap i) with
    | none => none
    | some (errCode, ht') => if errCode ≠ .ok then some i else firstFailure H f heap ks (i + 1) ht'

/-- an installation inserts all classes, or those up to the first failure -/
theorem installLoop_cases {heap : ℕ → Bool} {ks : List K} {i : ℕ} {c : NkErrorCode}
    (hr : installLoop H M f heap ks i s = some (c, t)) :
    (c = .ok ∧ firstFailure H f heap ks i s.classReg = none ∧ Inserts H f s ks t) ∨
    ∃ done k rest u v, ks = done ++ k :: rest ∧ c ≠ .ok ∧
      firstFailure H f heap ks i s.classReg = some (i + done.length) ∧ Inserts H f s done u ∧ InsertsOne H f k u c v ∧
      t = if 0 < i + done.length then (omUninstallClassFactory H M f v).2 else v := by
  induction ks generalizing i s with
  | nil =>
    cases hr
    exact Or.inl ⟨rfl, rfl, .nil _⟩
  | cons k ks ih =>
    rw [installLoop] at hr
    rw [firstFailure]
    cases hins : hashtableInsert H s.classReg ⟨k, f⟩ (heap i) with
    | none =>
      rw [hins] at hr
      cases hr
    | some r =>
      obtain ⟨code, ht⟩ := r
      rw [hins] at hr
      dsimp only at hr ⊢
      by_cases hcode : code = .ok
      · rw [if_neg (not_not.2 hcode)] at hr ⊢
        have hone : InsertsOne H f k s .ok { s with classReg := ht } := ⟨heap i, ht, hcode ▸ hins, rfl⟩
        rcases ih hr with ⟨hc, hfail, hrest⟩ | ⟨done, k', rest, u, v, hks, hc, hfail, hdone, hlast, ht'⟩
        · exact Or.inl ⟨hc, hfail, .cons hone hrest⟩
        · have hlen : i + 1 + done.length = i + (k :: done).length := by
            rw [List.length_cons]
            omega
          rw [hlen] at hfail ht'
          exact Or.inr ⟨k :: done, k', rest, u, v, by rw [hks, List.cons_append], hc, hfail, .cons hone hdone, hlast, ht'⟩
      · rw [if_pos hcode] at hr ⊢
        cases hr
        exact Or.inr ⟨[], k, ks, s, _, rfl, hcode, rfl, .nil s, ⟨heap i, ht, hins, rfl⟩, rfl⟩

omit [DecidableEq O] in
/-- an insertion fails and changes nothing, finds the id registered, or adds the entry -/
theorem insertsOne_cases (h : RegInv s) {k : K} {c : NkErrorCode} (hi : InsertsOne H f k s c t) :
    (c ≠ .ok ∧ t = s) ∨ (c = .ok ∧ RegInv t ∧ t.refs = s.refs ∧
      (((∃ q ∈ registered s, q.keyVal = k) ∧ (registered t).Perm (registered s)) ∨
        ((∀ q ∈ registered s, q.keyVal ≠ k) ∧ (registered t).Perm (⟨k, f⟩ :: registered s)))) := by
  obtain ⟨heap, ht, hins, rfl⟩ := hi
  rcases hashtableInsert_cases (by decide) (by decide) h.table h.props hins with
    ⟨hc, rfl⟩ | ⟨hc, hinv, hprops, hcases⟩
  · exact Or.inl ⟨hc, rfl⟩
  · exact Or.inr ⟨hc, ⟨hinv, hprops⟩, rfl, hcases⟩

/-- the ids of a list are new to the registry and different -/
def NewIds (s : Runtime K O W) (ks : List K) : Prop := ks.Nodup ∧ ∀ q ∈ registered s, q.keyVal ∉ ks

omit [DecidableEq K] [Inhabited K] [DecidableEq O] [Inhabited O] in
/-- an id that is new, followed by ids that are new to the registry with it -/
theorem newIds_cons {k : K} {ks : List K} (hnew : ∀ q ∈ registered s, q.keyVal ≠ k)
    (hperm : (registered t).Perm (⟨k, f⟩ :: registered s)) : NewIds t ks ↔ NewIds s (k :: ks) := by
  unfold NewIds
  simp only [hperm.mem_iff, List.mem_cons, forall_eq_or_imp, List.nodup_cons, not_or]
  constructor
  · rintro ⟨hnd, hk, hall⟩
    exact ⟨⟨hk, hnd⟩, fun q hq => ⟨hnew q hq, hall q hq⟩⟩
  · rintro ⟨⟨hk, hnd⟩, hall⟩
    exact ⟨hnd, hk, fun q hq => (hall q hq).2⟩

/-- inserted classes: the entries after them, and a surplus reference for every id that was known -/
theorem inserts_spec {ks : List K} (hi : Inserts H f s ks t) (h : RegInv s) : RegInv t ∧
    (∃ surplus : ℕ, surplus ≤ ks.length ∧ (surplus = 0 ↔ NewIds s ks) ∧
      ∀ g, drift t g = drift s g + if g = f then (surplus : ℤ) else 0) ∧
    (∀ q ∈ registered s, q ∈ registered t) ∧ ∀ q ∈ registered t, q ∈ registered s ∨ q.keyVal ∈ ks := by
  induction hi with
  | nil s =>
    refine ⟨h, ⟨0, le_rfl, ?_, fun g => by simp⟩, fun q hq => hq, fun q hq => Or.inl hq⟩
    simp [NewIds]
  | @cons s t u k ks hone _ ih =>
    rcases insertsOne_cases h hone with ⟨hc, -⟩ | ⟨-, hinv, hrefs, ⟨⟨q, hq, hkey⟩, hperm⟩ | ⟨hnew, hperm⟩⟩
    · exact absurd rfl hc
    · -- the id was registered: the reference has no entry
      obtain ⟨hu, ⟨n, hn, -, hdrift⟩, hsub, hmem⟩ := ih ⟨hinv.table, hinv.props⟩
      refine ⟨hu, ⟨n + 1, Nat.succ_le_succ hn, ?_, fun g => ?_⟩, fun p hp => hsub p (hperm.mem_iff.2 hp), fun p hp => ?_⟩
      · refine ⟨fun h0 => absurd h0 (Nat.succ_ne_zero n), fun hnew => ?_⟩
        exact absurd (hkey ▸ List.mem_cons_self) (hnew.2 q hq)
      · rw [hdrift, addRef_drift, drift_perm hperm hrefs]
        split_ifs <;> push_cast <;> ring
      · exact (hmem p hp).imp hperm.mem_iff.1 (List.mem_cons_of_mem _)
    · -- the entry is new
      obtain ⟨hu, ⟨n, hn, hnew', hdrift⟩, hsub, hmem⟩ := ih ⟨hinv.table, hinv.props⟩
      refine ⟨hu, ⟨n, hn.trans (Nat.le_succ _), hnew'.trans (newIds_cons (t := addRef t f) hnew hperm), fun g => ?_⟩,
        fun p hp => hsub p (hperm.mem_iff.2 (List.mem_cons_of_mem _ hp)), fun p hp => ?_⟩
      · rw [hdrift, addRef_drift, drift_cons hperm hrefs]
        split_ifs <;> ring
      · rcases hmem p hp with hp' | hp'
        · rcases List.mem_cons.1 (hperm.mem_iff.1 hp') with rfl | hp''
          · exact Or.inr List.mem_cons_self
          · exact Or.inl hp''
        · exact Or.inr (List.mem_cons_of_mem _ hp')

/-- an installation that returns: all classes are inserted, nothing happened, or everything with an id of the factory is
gone and more references were dropped than taken -/
theorem install_spec (h : RegInv s) {heap : ℕ → Bool} {c : NkErrorCode}
    (hr : omInstallClassFactory H M f heap s = some (c, t)) : RegInv t ∧
    ((c = .ok ∧ firstFailure H f heap (M.queryInstantiableClasses f) 0 s.classReg = none ∧
        (∃ surplus : ℕ, surplus ≤ (M.queryInstantiableClasses f).length ∧
          (surplus = 0 ↔ NewIds s (M.queryInstantiableClasses f)) ∧
          ∀ g, drift t g = drift s g + if g = f then (surplus : ℤ) else 0) ∧
        (∀ q ∈ registered s, q ∈ registered t) ∧
        ∀ q ∈ registered t, q ∈ registered s ∨ q.keyVal ∈ M.queryInstantiableClasses f) ∨
      (c ≠ .ok ∧ firstFailure H f heap (M.queryInstantiableClasses f) 0 s.classReg = some 0 ∧ t = s) ∨
      (c ≠ .ok ∧ (∃ j, firstFailure H f heap (M.queryInstantiableClasses f) 0 s.classReg = some (j + 1)) ∧
        drift t f < drift s f ∧
        ∀ q, q ∈ registered t ↔ q ∈ registered s ∧ q.keyVal ∉ M.queryInstantiableClasses f)) := by
  rcases installLoop_cases hr with ⟨hc, hfail, hall⟩ | ⟨done, k, rest, u, v, hks, hc, hfail, hdone, hlast, ht⟩
  · obtain ⟨hinv, hsurplus, hsub, hmem⟩ := inserts_spec hall h
    exact ⟨hinv, Or.inl ⟨hc, hfail, hsurplus, hsub, hmem⟩⟩
  · obtain ⟨hu, ⟨n, hn, -, hdrift⟩, hsub, hmem⟩ := inserts_spec hdone h
    have hv : v = u := by
      rcases insertsOne_cases hu hlast with ⟨-, hv⟩ | ⟨hok, -⟩
      · exact hv
      · exact absurd hok hc
    subst hv
    rw [Nat.zero_add] at hfail ht
    cases done with
    | nil =>
      cases hdone
      rw [ht]
      exact ⟨h, Or.inr (Or.inl ⟨hc, hfail, rfl⟩)⟩
    | cons d ds =>
      have hlen := congrArg List.length hks
      rw [List.length_append, List.length_cons, List.length_cons] at hlen
      rw [List.length_cons] at hn
      rw [if_pos (by rw [List.length_cons]; omega)] at ht
      obtain ⟨hinv, hun, hleft⟩ := uninstall_spec (H := H) (M := M) (f := f) hu
      rw [ht]
      refine ⟨hinv, Or.inr (Or.inr ⟨hc, ⟨ds.length, hfail⟩, ?_, fun q => ?_⟩)⟩
      · rw [hun, hdrift, if_pos rfl, if_pos rfl, hlen]
        push_cast
        have hle : (n : ℤ) ≤ ds.length + 1 := by exact_mod_cast hn
        omega
      · rw [hleft]
        constructor
        · rintro ⟨hq, hout⟩
          refine ⟨(hmem q hq).resolve_right fun hin => hout ?_, hout⟩
          rw [hks]
          exact List.mem_append_left _ hin
        · rintro ⟨hq, hout⟩
          exact ⟨hsub q hq, hout⟩

theorem omStep_inv (h : RegInv s) {o : OmOp O} {c : NkErrorCode} (hs : omStep H M s o = some (c, t)) : RegInv t := by
  cases o with
  | install f heap => exact (install_spec h hs).1
  | uninstall f =>
    cases hs
    exact (uninstall_spec h).1

end Registry

/-! ## An empty registry -/

/-- an empty registry; every factory has one reference of its own -/
def emptyRuntime : Runtime ℕ ℕ Unit := ⟨hashtableCreate classRegProps, ⟨fun _ => 1, fun _ => 0, 0⟩, ()⟩

/-- the factory is installed, and the table can grow -/
def installOp (f : ℕ) : OmOp ℕ := .install f fun _ => true

theorem regInv_empty : RegInv emptyRuntime := ⟨(simulates_create (by decide) (by decide)).inv, rfl⟩

theorem registered_empty : registered emptyRuntime = [] := stored_replicate 16

/-- class 5 is registered for factory 1 -/
theorem installed_one : ∃ t, omStep modHash plainMethods emptyRuntime (installOp 1) = some (.ok, t) ∧
    registered t = [⟨5, 1⟩] := by
  have heval : (omStep modHash plainMethods emptyRuntime (installOp 1)).map (fun r => (r.1, registered r.2)) =
    some (.ok, [⟨5, 1⟩]) := by decide +kernel
  obtain ⟨⟨c, t⟩, hs, heq⟩ := Option.map_eq_some_iff.1 heval
  obtain ⟨rfl, hreg⟩ := Prod.mk.inj heq
  exact ⟨t, hs, hreg⟩

/-! ## Balance -/

section Balance

variable [DecidableEq K] [Inhabited K] [DecidableEq O] [Inhabited O] {H : HashFn K} {M : Methods K I P O W}
  {s t : Runtime K O W}

/-- the registry's share of every count is the number of entries that point to the factory; `others` are the references
held elsewhere -/
def Balanced (others : O → ℤ) (s : Runtime K O W) : Prop := ∀ f, s.refs.count f - others f = entriesOf s f

omit [DecidableEq K] [Inhabited K] [Inhabited O] in
theorem balanced_iff_drift {others : O → ℤ} : Balanced others s ↔ ∀ f, drift s f = others f := by
  unfold Balanced drift
  constructor
  · intro h f
    rw [← h f]
    ring
  · intro h f
    rw [← h f]
    ring

/-- the condition on a call: it is an installation of ids that are new and different, none of which cannot be inserted,
or of which the first one cannot -/
def KeepsBalance (H : HashFn K) (M : Methods K I P O W) (s : Runtime K O W) : OmOp O → Prop
  | .install f heap =>
    match firstFailure H f heap (M.queryInstantiableClasses f) 0 s.classReg with
    | none => NewIds s (M.queryInstantiableClasses f)
    | some j => j = 0
  | .uninstall _ => False

/-- a call leaves the drift of every factory as it was exactly if it meets the condition -/
theorem omStep_drift (h : RegInv s) {o : OmOp O} {c : NkErrorCode} (hs : omStep H M s o = some (c, t)) :
    (∀ g, drift t g = drift s g) ↔ KeepsBalance H M s o := by
  cases o with
  | install f heap =>
    dsimp only [KeepsBalance]
    rcases (install_spec h hs).2 with ⟨-, hfail, ⟨n, -, hnew, hdrift⟩, -⟩ | ⟨-, hfail, rfl⟩ | ⟨-, ⟨j, hfail⟩, hlt, -⟩
    · rw [hfail]
      dsimp only
      rw [← hnew]
      constructor
      · intro hsame
        have hf := hdrift f
        rw [hsame f, if_pos rfl] at hf
        omega
      · intro h0 g
        rw [hdrift, h0]
        simp
    · rw [hfail]
      exact ⟨fun _ => rfl, fun _ _ => rfl⟩
    · rw [hfail]
      exact ⟨fun hsame => absurd (hsame f) (ne_of_lt hlt), fun h0 => absurd h0 (Nat.succ_ne_zero j)⟩
  | uninstall f =>
    cases hs
    refine ⟨fun hsame => ?_, False.elim⟩
    have hf := (uninstall_spec (H := H) (M := M) (f := f) h).2.1 f
    have hsame' := hsame f
    unfold omUninstallClassFactory at hf
    rw [hsame', if_pos rfl] at hf
    omega

omit [DecidableEq K] [Inhabited K] [Inhabited O] in
/-- a registry whose entries are all in another one has no more of any factory -/
theorem entriesOf_le (h : RegInv t) (hsub : ∀ q ∈ registered t, q ∈ registered s) (g : O) :
    entriesOf t g ≤ entriesOf s g := by
  have hnodup : (registered t).Nodup := List.Nodup.of_map _ h.table.keys
  have hle := (hnodup.subperm hsub).countP_le fun q => q.valuePtr = g
  unfold entriesOf pointing
  exact_mod_cast hle

/-- In every run of installations and uninstallations, the registry's share of the counts equals the entries in every
state reached exactly if every call meets the condition. A factory that is installed and uninstalled always ends with
fewer references than it had. -/
theorem balance_run :
    (∀ (others : O → ℤ) (s : Runtime K O W) (ops : List (OmOp O)), RegInv s → Balanced others s →
      (EachStep (omStep H M) (fun _ _ _ t => Balanced others t) s ops ↔
        EachStep (omStep H M) (fun s o _ _ => KeepsBalance H M s o) s ops)) ∧
    ∀ (s t : Runtime K O W) (f : O) (heap : ℕ → Bool), RegInv s → omInstallClassFactory H M f heap s = some (.ok, t) →
      (omUninstallClassFactory H M f t).2.refs.count f < s.refs.count f := by
  constructor
  · intro others s ops h hb
    have hstep : ∀ (s : Runtime K O W) (o : OmOp O) (c : NkErrorCode) (t : Runtime K O W),
        RegInv s ∧ Balanced others s → omStep H M s o = some (c, t) →
        (Balanced others t ↔ KeepsBalance H M s o) := by
      intro s o c t hs hrun
      rw [← omStep_drift hs.1 hrun, balanced_iff_drift]
      have hb := balanced_iff_drift.1 hs.2
      simp only [hb]
    exact eachStep_iff hstep (fun s o c t hs hrun hb => ⟨omStep_inv hs.1 hrun, hb⟩) ⟨h, hb⟩ ops
  · intro s t f heap h hr
    obtain ⟨ht, hcases⟩ := install_spec h hr
    rcases hcases with ⟨-, -, ⟨n, hn, -, hdrift⟩, -, hmem⟩ | ⟨hc, -⟩ | ⟨hc, -⟩
    · obtain ⟨hu, hun, hleft⟩ := uninstall_spec (H := H) (M := M) (f := f) ht
      -- what is left of the entries was there before the installation
      have hsub : ∀ q ∈ registered (omUninstallClassFactory H M f t).2, q ∈ registered s := by
        intro q hq
        obtain ⟨hq', hout⟩ := (hleft q).1 hq
        exact (hmem q hq').resolve_right hout
      have hle := entriesOf_le hu hsub f
      have hd := hun f
      rw [hdrift, if_pos rfl, if_pos rfl] at hd
      unfold drift at hd
      have hn' : (n : ℤ) ≤ (M.queryInstantiableClasses f).length := by exact_mod_cast hn
      omega
    · exact absurd rfl hc
    · exact absurd rfl hc

end Balance

theorem balanced_empty : Balanced (fun _ => 1) emptyRuntime := by
  intro f
  unfold entriesOf
  rw [registered_empty]
  rfl

theorem newIds_empty : firstFailure modHash 1 (fun _ => true) [5] 0 emptyRuntime.classReg = none ∧
    NewIds emptyRuntime [5] := by
  refine ⟨by decide +kernel, by decide, fun q hq => ?_⟩
  rw [registered_empty] at hq
  cases hq

/-- a new class is installed in balance, and uninstalling it takes the factory's own reference -/
theorem balance_run_install :
    EachStep (omStep modHash plainMethods) (fun _ _ _ t => Balanced (fun _ => 1) t) emptyRuntime [installOp 1] ∧
    ∃ t, omStep modHash plainMethods emptyRuntime (installOp 1) = some (.ok, t) ∧
      (omUninstallClassFactory modHash plainMethods 1 t).2.refs.count 1 < 1 := by
  obtain ⟨t, ht, -⟩ := installed_one
  refine ⟨(balance_run.1 _ _ _ regInv_empty balanced_empty).2 fun _ _ _ => ⟨?_, trivial⟩, t, ht,
    balance_run.2 emptyRuntime t 1 _ regInv_empty ht⟩
  unfold installOp KeepsBalance
  have hnew := newIds_empty
  have hids : plainMethods.queryInstantiableClasses 1 = [5] := rfl
  dsimp only
  rw [hids, hnew.1]
  exact hnew.2

/-- a class is installed and uninstalled: the registry has no entry and has dropped two references too many -/
theorem balance_broken : RegInv emptyRuntime ∧ Balanced (fun _ => 1) emptyRuntime ∧
    ¬ EachStep (omStep modHash plainMethods) (fun _ _ _ t => Balanced (fun _ => 1) t) emptyRuntime
      [installOp 1, .uninstall 1] := by
  refine ⟨regInv_empty, balanced_empty, fun hrun => ?_⟩
  obtain ⟨t, ht, -⟩ := installed_one
  obtain ⟨hb, hrun'⟩ := hrun .ok t ht
  have hb' := (hrun' .ok _ rfl).1
  have hsame : ∀ g, drift (omUninstallClassFactory modHash plainMethods 1 t).2 g = drift t g := by
    intro g
    rw [balanced_iff_drift.1 hb g]
    exact balanced_iff_drift.1 hb' g
  have hstep : omStep modHash plainMethods t (.uninstall 1) =
    some (omUninstallClassFactory modHash plainMethods 1 t) := rfl
  exact (omStep_drift (omStep_inv regInv_empty ht) hstep).1 hsame

/-! ## Ownership -/

section Ownership

variable [DecidableEq K] [Inhabited K] [DecidableEq O] [Inhabited O] {H : HashFn K} {M : Methods K I P O W}
  {s t : Runtime K O W}

/-- what a call owes to the owners: an entry goes only when its own factory is uninstalled, and an installation that fails
leaves the entries as they were -/
structure OwnersKept (s : Runtime K O W) (o : OmOp O) (c : NkErrorCode) (t : Runtime K O W) : Prop where
  removed : ∀ q ∈ registered s, q ∉ registered t → o = .uninstall q.valuePtr
  failed : ∀ f heap, o = .install f heap → c ≠ .ok → ∀ q, q ∈ registered t ↔ q ∈ registered s

/-- the condition on a call: no id of a factory that is uninstalled points to another one, and none of a factory whose
installation fails after its first class is registered yet -/
def RespectsOwners (H : HashFn K) (M : Methods K I P O W) (s : Runtime K O W) : OmOp O → Prop
  | .install f heap => (∃ j, firstFailure H f heap (M.queryInstantiableClasses f) 0 s.classReg = some (j + 1)) →
      ∀ q ∈ registered s, q.keyVal ∉ M.queryInstantiableClasses f
  | .uninstall f => ∀ q ∈ registered s, q.keyVal ∈ M.queryInstantiableClasses f → q.valuePtr = f

theorem omStep_owners (h : RegInv s) {o : OmOp O} {c : NkErrorCode} (hs : omStep H M s o = some (c, t)) :
    OwnersKept s o c t ↔ RespectsOwners H M s o := by
  cases o with
  | install f heap =>
    dsimp only [RespectsOwners]
    rcases (install_spec h hs).2 with ⟨hc, hfail, -, hsub, -⟩ | ⟨hc, hfail, rfl⟩ | ⟨hc, hfail, -, hleft⟩
    · refine ⟨fun _ hlate => ?_, fun _ => ⟨fun q hq hout => absurd (hsub q hq) hout, fun _ _ _ hc' => absurd hc hc'⟩⟩
      obtain ⟨j, hj⟩ := hlate
      rw [hfail] at hj
      cases hj
    · refine ⟨fun _ hlate => ?_, fun _ => ⟨fun q hq hout => absurd hq hout, fun _ _ _ _ _ => Iff.rfl⟩⟩
      obtain ⟨j, hj⟩ := hlate
      rw [hfail] at hj
      cases hj
    · constructor
      · intro hkept _ q hq hin
        exact ((hleft q).1 ((hkept.failed f heap rfl hc q).2 hq)).2 hin
      · intro hnew
        have hsame : ∀ q, q ∈ registered t ↔ q ∈ registered s := by
          intro q
          rw [hleft]
          exact ⟨fun hq => hq.1, fun hq => ⟨hq, hnew hfail q hq⟩⟩
        exact ⟨fun q hq hout => absurd ((hsame q).2 hq) hout, fun _ _ _ _ => hsame⟩
  | uninstall f =>
    cases hs
    have hleft := (uninstall_spec (H := H) (M := M) (f := f) h).2.2
    unfold omUninstallClassFactory at hleft
    constructor
    · intro hkept q hq hin
      have hgone : OmOp.uninstall f = OmOp.uninstall q.valuePtr := hkept.removed q hq fun hq' => ((hleft q).1 hq').2 hin
      cases hgone
      rfl
    · intro hown
      refine ⟨fun q hq hout => ?_, fun _ _ ho => by cases ho⟩
      have hin : q.keyVal ∈ M.queryInstantiableClasses f := by
        by_contra hin
        exact hout ((hleft q).2 ⟨hq, hin⟩)
      rw [hown q hq hin]

/-- In every run of installations and uninstallations, every call removes only entries of the factory it uninstalls, and
every failed installation leaves the registry as it was, exactly if every call meets the condition. -/
theorem owner_run (h : RegInv s) (ops : List (OmOp O)) : EachStep (omStep H M) OwnersKept s ops ↔
    EachStep (omStep H M) (fun s o _ _ => RespectsOwners H M s o) s ops := by
  have hstep : ∀ (s : Runtime K O W) (o : OmOp O) (c : NkErrorCode) (t : Runtime K O W), RegInv s →
      omStep H M s o = some (c, t) → (OwnersKept s o c t ↔ RespectsOwners H M s o) :=
    fun _ _ _ _ hs hrun => omStep_owners hs hrun
  exact eachStep_iff hstep (fun _ _ _ _ hs hrun _ => omStep_inv hs hrun) h ops

end Ownership

/-- a class is installed and uninstalled by its own factory -/
theorem owner_run_install : EachStep (omStep modHash plainMethods) OwnersKept emptyRuntime
    [installOp 1, .uninstall 1] := by
  refine (owner_run regInv_empty _).2 fun c t hs => ⟨fun hlate => ?_, fun _ _ _ => ⟨fun q hq _ => ?_, trivial⟩⟩
  · intro q hq
    rw [registered_empty] at hq
    cases hq
  · obtain ⟨t', ht', hreg⟩ := installed_one
    rw [ht'] at hs
    cases hs
    rw [hreg] at hq
    cases List.mem_singleton.1 hq
    rfl

/-- factories 1 and 2 make the same class; uninstalling 2 takes the entry of 1 -/
theorem owner_broken : RegInv emptyRuntime ∧ ¬ EachStep (omStep modHash plainMethods) OwnersKept emptyRuntime
    [installOp 1, .uninstall 2] := by
  refine ⟨regInv_empty, fun hrun => ?_⟩
  obtain ⟨t, ht, hreg⟩ := installed_one
  have hkept := ((hrun .ok t ht).2 .ok _ rfl).1
  have hown := (omStep_owners (omStep_inv regInv_empty ht) rfl).1 hkept
  have hsame : (1 : ℕ) = 2 := hown ⟨5, 1⟩ (by rw [hreg]; exact List.mem_cons_self) List.mem_cons_self
  cases hsame

end Noriko.Om
