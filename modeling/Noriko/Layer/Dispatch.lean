/-
The passes over a layer stack that changes while they run.

A pass takes the layer count once and visits that many positions, one in each round; the methods may have changed the stack
since. `stackAt` is the stack before a round and `passed` the state that the pass has reached then, both from what the
methods do. The loops of `Noriko.Layer` run through these states (`eventLoop_run`, `updateLoop_run`, `renderLoop_run`), so
what they read and call is known in closed form.

`EventRight` is what is asked of a dispatch. It gets that if the handlers keep their place (`EventKeeps`): one that does
not handle the event changes nothing up to its own position, and behind it not the order and not below the number of layers
at the start. Popping behind the own position and pushing behind the last layer are such changes (`acts_placed`); a single
layer popped is not (`lone_pop_outside`).
-/
import Noriko.Layer.Place

namespace Noriko.Layer

open Lib Dstruct Sync

variable {L : Type}

/-! ## Rounds -/

section Rounds

variable (method : Method L) (pos : ℕ → ℕ) (v : Vector L)

/-- the stack before round `k`, where round `j` visits position `pos j` -/
def stackAt : ℕ → Vector L
  | 0 => v
  | k + 1 =>
    applyActs (stackAt k) (method (pos k) ((stackAt k).dataPtr.mem (pos k)) (stackAt k)).2

/-- the layer that round `k` visits -/
def layerOf (k : ℕ) : L := (stackAt method pos v k).dataPtr.mem (pos k)

def accessOf (k : ℕ) : Access := ⟨pos k, (stackAt method pos v k).elemCount⟩

def callOf (k : ℕ) : MethodCall L :=
  let r := method (pos k) (layerOf method pos v k) (stackAt method pos v k)
  ⟨layerOf method pos v k, stackAt method pos v k, r.1, pushedBy (stackAt method pos v k) r.2⟩

/-- the state after `m` rounds -/
def passed (m : ℕ) : LayerSys L where
  layerStack := stackAt method pos v m
  accesses := (List.range m).map (accessOf method pos v)
  calls := (List.range m).map (callOf method pos v)

theorem passed_succ (k : ℕ) : passed method pos v (k + 1) =
    (invoke method (pos k) (layerOf method pos v k)
      { passed method pos v k with
        accesses := (passed method pos v k).accesses ++ [⟨pos k, (passed method pos v k).layerStack.elemCount⟩] }).2 := by
  simp [passed, invoke, List.range_succ, stackAt, layerOf, accessOf, callOf]

/-- one round of a loop: the layer is read, its method runs while the mutex is free, and the loop goes on with the code -/
theorem round_run {A : Type} (n k : ℕ) (f : NkErrorCode → Sync (LayerSys L) A) :
    (do
      let currLayer ← layerAt (pos k)
      unlock
      let code ← callback (invoke method (pos k) currLayer)
      lock
      f code : Sync (LayerSys L) A) ⟨true, n, passed method pos v k⟩ =
        f (callOf method pos v k).code ⟨true, n, passed method pos v (k + 1)⟩ := by
  rw [passed_succ]
  rfl

/-! ## Loops -/

/-- a layer got the method or was pushed in one of the first `m` rounds -/
def MetBy (m : ℕ) (l : L) : Prop :=
  ∃ j < m, layerOf method pos v j = l ∨ l ∈ (callOf method pos v j).pushed

end Rounds

/-- the event gets to round `k`: there were more than `k` layers, and no handler before handled it -/
def EventReaches (onEvent : Method L) (v : Vector L) (k : ℕ) : Prop :=
  k < v.elemCount ∧ ∀ j < k, (callOf onEvent id v j).code ≠ .ok

/-- the loop serves the rounds that the event gets to, and reports whether it was handled -/
theorem eventLoop_run (onEvent : Method L) (v : Vector L) (n : ℕ) {rounds k : ℕ} (hrounds : k + rounds = v.elemCount)
    (hk : ∀ j < k, (callOf onEvent id v j).code ≠ .ok) :
    ∃ code m, eventLoop onEvent rounds k ⟨true, n, passed onEvent id v k⟩ =
        .returns code ⟨false, n, passed onEvent id v m⟩ ∧
      (∀ j, j < m ↔ EventReaches onEvent v j) ∧ (code = .ok ↔ ∃ j < m, (callOf onEvent id v j).code = .ok) := by
  induction rounds generalizing k with
  | zero =>
    refine ⟨.noOperation, k, rfl, fun j => ?_, ?_⟩
    · constructor
      · intro hj
        exact ⟨by omega, fun i hi => hk i (by omega)⟩
      · intro hj
        have hlt := hj.1
        omega
    · constructor
      · exact nofun
      · rintro ⟨j, hj, hcode⟩
        exact absurd hcode (hk j hj)
  | succ rounds ih =>
    have hround := round_run onEvent id v n k fun code =>
      if code = .ok then (do unlock; return .ok : Sync (LayerSys L) NkErrorCode) else eventLoop onEvent rounds (k + 1)
    by_cases hcode : (callOf onEvent id v k).code = .ok
    · rw [if_pos hcode] at hround
      refine ⟨.ok, k + 1, hround, fun j => ?_, ?_⟩
      · constructor
        · intro hj
          exact ⟨by omega, fun i hi => hk i (by omega)⟩
        · intro hj
          by_contra hlate
          exact hj.2 k (by omega) hcode
      · exact iff_of_true rfl ⟨k, by omega, hcode⟩
    · rw [if_neg hcode] at hround
      obtain ⟨code, m, hrun, hreach, hres⟩ := @ih (k + 1) (by omega) (fun j hj => by
        by_cases hjk : j = k
        · rw [hjk]
          exact hcode
        · exact hk j (by omega))
      exact ⟨code, m, hround.trans hrun, hreach, hres⟩

theorem updateLoop_run (onUpdate : Method L) (v : Vector L) (n rounds k : ℕ) :
    updateLoop onUpdate rounds k ⟨true, n, passed onUpdate id v k⟩ =
      .returns .ok ⟨false, n, passed onUpdate id v (k + rounds)⟩ := by
  induction rounds generalizing k with
  | zero => rfl
  | succ rounds ih =>
    have hround := round_run onUpdate id v n k fun _ => updateLoop onUpdate rounds (k + 1)
    refine hround.trans ((ih (k + 1)).trans ?_)
    rw [Nat.add_assoc, Nat.add_comm 1]

/-- `NkLayerstackOnRender` goes from the last position down -/
def renderPos (v : Vector L) (k : ℕ) : ℕ := v.elemCount - 1 - k

theorem renderLoop_run (onRender : Method L) (v : Vector L) (n : ℕ) {rounds k : ℕ} (hrounds : k + rounds = v.elemCount) :
    renderLoop onRender rounds ⟨true, n, passed onRender (renderPos v) v k⟩ =
      .returns .ok ⟨false, n, passed onRender (renderPos v) v v.elemCount⟩ := by
  induction rounds generalizing k with
  | zero =>
    have hend : k = v.elemCount := by omega
    rw [hend]
    rfl
  | succ i ih =>
    have hpos : renderPos v k = i := by
      unfold renderPos
      omega
    have hround := round_run onRender (renderPos v) v n k fun _ => renderLoop onRender i
    rw [hpos] at hround
    exact hround.trans (@ih (k + 1) (by omega))

/-! ## What a dispatch owes to the layers -/

/-- a layer is among those that got the method or were pushed -/
def Met (calls : List (MethodCall L)) (l : L) : Prop := ∃ c ∈ calls, c.layer = l ∨ l ∈ c.pushed

/-- every access is below the element count of that moment -/
def Inside (t : LayerSys L) : Prop := ∀ a ∈ t.accesses, a.index < a.count

/-- When a layer gets the event, every layer before it in the stack had it or was pushed meanwhile; if the event is not
handled, this goes for the whole stack in the end. -/
def InOrder (code : NkErrorCode) (t : LayerSys L) : Prop :=
  (∀ k a c, t.accesses[k]? = some a → t.calls[k]? = some c →
    c.layer = c.stack.dataPtr.mem a.index ∧ ∀ q < a.index, Met (t.calls.take k) (c.stack.dataPtr.mem q)) ∧
  (code ≠ .ok → ∀ q < t.layerStack.elemCount, Met t.calls (t.layerStack.dataPtr.mem q))

/-- no layer gets the event twice, unless it was pushed meanwhile -/
def Once (t : LayerSys L) : Prop :=
  ∀ k c, t.calls[k]? = some c → (∃ e ∈ t.calls.take k, e.layer = c.layer) → ∃ e ∈ t.calls.take k, c.layer ∈ e.pushed

structure EventRight (code : NkErrorCode) (t : LayerSys L) : Prop where
  inside : Inside t
  inOrder : InOrder code t
  /-- nobody gets the event after it was handled -/
  stops : ∀ k c, t.calls[k]? = some c → c.code = .ok → k + 1 = t.calls.length
  once : Once t
  result : code = .ok ↔ ∃ c ∈ t.calls, c.code = .ok

section Passed

variable {method : Method L} {pos : ℕ → ℕ} {v : Vector L} {m k : ℕ}

theorem call_passed {c : MethodCall L} :
    (passed method pos v m).calls[k]? = some c ↔ k < m ∧ callOf method pos v k = c := by
  simp [passed, List.getElem?_eq_some_iff]

theorem access_passed {a : Access} :
    (passed method pos v m).accesses[k]? = some a ↔ k < m ∧ accessOf method pos v k = a := by
  simp [passed, List.getElem?_eq_some_iff]

theorem take_passed (hk : k ≤ m) : (passed method pos v m).calls.take k = (passed method pos v k).calls := by
  simp [passed, ← List.map_take, List.take_range, Nat.min_eq_left hk]

theorem met_passed {l : L} : Met (passed method pos v m).calls l ↔ MetBy method pos v m l := by
  simp [Met, MetBy, passed, callOf]

theorem inside_passed : Inside (passed method pos v m) ↔ ∀ k < m, pos k < (stackAt method pos v k).elemCount := by
  simp [Inside, passed, accessOf]

theorem once_passed : Once (passed method pos v m) ↔ ∀ k < m,
    (∃ j < k, layerOf method pos v j = layerOf method pos v k) →
      ∃ j < k, layerOf method pos v k ∈ (callOf method pos v j).pushed := by
  have hcalls (k : ℕ) (hk : k < m) : (∃ e ∈ (passed method pos v m).calls.take k, e.layer = layerOf method pos v k) ↔
      ∃ j < k, layerOf method pos v j = layerOf method pos v k := by
    rw [take_passed hk.le]
    simp [passed, callOf]
  have hpushed (k : ℕ) (hk : k < m) :
      (∃ e ∈ (passed method pos v m).calls.take k, layerOf method pos v k ∈ e.pushed) ↔
        ∃ j < k, layerOf method pos v k ∈ (callOf method pos v j).pushed := by
    rw [take_passed hk.le]
    simp [passed]
  constructor
  · intro h k hk hagain
    exact (hpushed k hk).1 (h k _ (call_passed.2 ⟨hk, rfl⟩) ((hcalls k hk).2 hagain))
  · intro h k c hc hagain
    obtain ⟨hk, rfl⟩ := call_passed.1 hc
    exact (hpushed k hk).2 (h k hk ((hcalls k hk).1 hagain))

theorem inOrder_passed {code : NkErrorCode} : InOrder code (passed method pos v m) ↔
    (∀ k < m, ∀ q < pos k, MetBy method pos v k ((stackAt method pos v k).dataPtr.mem q)) ∧
    (code ≠ .ok → ∀ q < (stackAt method pos v m).elemCount,
      MetBy method pos v m ((stackAt method pos v m).dataPtr.mem q)) := by
  refine and_congr ?_ (imp_congr_right fun _ => forall₂_congr fun q _ => met_passed)
  constructor
  · intro h k hk q hq
    obtain ⟨-, hmet⟩ := h k _ _ (access_passed.2 ⟨hk, rfl⟩) (call_passed.2 ⟨hk, rfl⟩)
    have hmet' := hmet q hq
    rw [take_passed hk.le, met_passed] at hmet'
    exact hmet'
  · intro h k a c ha hc
    obtain ⟨hk, rfl⟩ := access_passed.1 ha
    obtain ⟨-, rfl⟩ := call_passed.1 hc
    refine ⟨rfl, fun q hq => ?_⟩
    rw [take_passed hk.le, met_passed]
    exact h k hk q hq

end Passed

/-! ## The passes -/

/-- a dispatch serves the rounds that the event gets to; an event that is not handled goes through all of them -/
theorem event_served (onEvent : Method L) (v : Vector L) (n : ℕ) :
    ∃ code m, layerstackOnEvent onEvent ⟨false, n, ⟨v, [], []⟩⟩ = .returns code ⟨false, n, passed onEvent id v m⟩ ∧
      (∀ k, k < m ↔ EventReaches onEvent v k) ∧ (code = .ok ↔ ∃ k < m, (callOf onEvent id v k).code = .ok) ∧
      (code ≠ .ok → m = v.elemCount) := by
  obtain ⟨code, m, hrun, hreach, hres⟩ := @eventLoop_run L onEvent v n v.elemCount 0 (by omega) (by omega)
  refine ⟨code, m, ?_, hreach, hres, fun hcode => ?_⟩
  · unfold layerstackOnEvent
    rw [lock_get_run rfl]
    exact hrun
  · have hnone : ∀ j < m, (callOf onEvent id v j).code ≠ .ok := fun j hj hok => hcode (hres.2 ⟨j, hj, hok⟩)
    apply le_antisymm
    · by_contra hlt
      exact lt_irrefl _ ((hreach v.elemCount).1 (by omega)).1
    · by_contra hlt
      exact lt_irrefl m ((hreach m).2 ⟨by omega, hnone⟩)

/-- a dispatch is right if there is a layer at each position it visits, the layers in front of it are done with, no layer
but a pushed one comes a second time, and none is left out in the end -/
theorem event_right_of {onEvent : Method L} {v : Vector L} {n : ℕ}
    (hinside : ∀ k, EventReaches onEvent v k → k < (stackAt onEvent id v k).elemCount)
    (hbefore : ∀ k, EventReaches onEvent v k → ∀ q < k, MetBy onEvent id v k ((stackAt onEvent id v k).dataPtr.mem q))
    (hfresh : ∀ k, EventReaches onEvent v k → (∃ j < k, layerOf onEvent id v j = layerOf onEvent id v k) →
      ∃ j < k, layerOf onEvent id v k ∈ (callOf onEvent id v j).pushed)
    (hrest : (∀ k < v.elemCount, (callOf onEvent id v k).code ≠ .ok) →
      ∀ q < (stackAt onEvent id v v.elemCount).elemCount,
        MetBy onEvent id v v.elemCount ((stackAt onEvent id v v.elemCount).dataPtr.mem q)) :
    ∃ code t, layerstackOnEvent onEvent ⟨false, n, ⟨v, [], []⟩⟩ = .returns code ⟨false, n, t⟩ ∧ EventRight code t := by
  obtain ⟨code, m, hrun, hreach, hres, hend⟩ := event_served onEvent v n
  refine ⟨code, passed onEvent id v m, hrun, ?_, ?_, ?_, ?_, ?_⟩
  · exact inside_passed.2 fun k hk => hinside k ((hreach k).1 hk)
  · refine inOrder_passed.2 ⟨fun k hk => hbefore k ((hreach k).1 hk), fun hcode => ?_⟩
    rw [hend hcode]
    refine hrest fun k hk hok => ?_
    rw [← hend hcode] at hk
    exact hcode (hres.2 ⟨k, hk, hok⟩)
  · -- a round behind one that handled the event is not reached
    intro k c hc hcode
    obtain ⟨hk, rfl⟩ := call_passed.1 hc
    by_contra hne
    have hnext : k + 1 < m := by
      simp only [passed, List.length_map, List.length_range] at hne
      omega
    exact ((hreach (k + 1)).1 hnext).2 k (by omega) hcode
  · exact once_passed.2 fun k hk => hfresh k ((hreach k).1 hk)
  · rw [hres]
    simp [passed]

/-! ## What the methods may do -/

section Condition

variable (method : Method L) (i : ℕ) (w : Vector L)

/-- the code of the method for position `i` of the stack `w` -/
def codeAt : NkErrorCode := (method i (w.dataPtr.mem i) w).1

/-- the stack that it leaves -/
def leaves : Vector L := applyActs w (method i (w.dataPtr.mem i) w).2

/-- the layers that it pushes -/
def pushes : List L := pushedBy w (method i (w.dataPtr.mem i) w).2

/-- What a handler does that is called for position `i` of `w` and does not handle the event, in a dispatch that started
with `n` layers. As long as rounds follow, it changes nothing up to its own position, does not change the order behind it
and leaves `n` layers at least; in the last round it need only bring in no layer without pushing it. -/
structure KeepsPlace (n : ℕ) : Prop where
  placed : i + 1 < n → Placed i w (leaves method i w) (pushes method i w)
  count : i + 1 < n → Sound (leaves method i w) ∧ n ≤ (leaves method i w).elemCount
  last : i + 1 = n → ∀ q < (leaves method i w).elemCount, (leaves method i w).dataPtr.mem q ∈ pushes method i w ∨
    ∃ p < w.elemCount, w.dataPtr.mem p = (leaves method i w).dataPtr.mem q

end Condition

/-- a handler keeps its place in every stack with `n` layers or more, unless it handles the event -/
def EventKeeps (onEvent : Method L) (n : ℕ) : Prop :=
  ∀ i w, i < n → Sound w → n ≤ w.elemCount → codeAt onEvent i w ≠ .ok → KeepsPlace onEvent i w n

/-- an update of a stack with `n` layers or more leaves as many -/
def UpdateKeeps (onUpdate : Method L) (n : ℕ) : Prop :=
  ∀ i w, i + 1 < n → Sound w → n ≤ w.elemCount → Sound (leaves onUpdate i w) ∧ n ≤ (leaves onUpdate i w).elemCount

/-- the method for position `i + 1` leaves a layer at position `i` -/
def RenderKeeps (onRender : Method L) (n : ℕ) : Prop :=
  ∀ i w, i + 1 < n → Sound w → i + 1 < w.elemCount →
    Sound (leaves onRender (i + 1) w) ∧ i < (leaves onRender (i + 1) w).elemCount

/-! ## Handlers that keep their place -/

section Keeps

variable {onEvent : Method L} {v : Vector L} {k : ℕ}

/-- a layer was pushed in one of the first `k` rounds -/
def PushedIn (onEvent : Method L) (v : Vector L) (k : ℕ) (l : L) : Prop :=
  ∃ j < k, l ∈ (callOf onEvent id v j).pushed

theorem PushedIn.succ {l : L} (h : PushedIn onEvent v k l) : PushedIn onEvent v (k + 1) l := by
  obtain ⟨j, hj, hl⟩ := h
  exact ⟨j, by omega, hl⟩

theorem pushedIn_last {l : L} (h : l ∈ pushes onEvent k (stackAt onEvent id v k)) : PushedIn onEvent v (k + 1) l :=
  ⟨k, Nat.lt_succ_self k, h⟩

/-- before round `k`: the layers in front of position `k` were served or pushed, and the layers that were not pushed stand
where `f` says in the stack at the start, the served ones among them -/
structure InPlace (onEvent : Method L) (v : Vector L) (k : ℕ) : Prop where
  sound : Sound (stackAt onEvent id v k)
  count : v.elemCount ≤ (stackAt onEvent id v k).elemCount
  served : ∀ q < k, (stackAt onEvent id v k).dataPtr.mem q = layerOf onEvent id v q ∨
    PushedIn onEvent v k ((stackAt onEvent id v k).dataPtr.mem q)
  origin : ∃ f : ℕ → ℕ, StrictMono f ∧
    (∀ q < (stackAt onEvent id v k).elemCount, PushedIn onEvent v k ((stackAt onEvent id v k).dataPtr.mem q) ∨
      f q < v.elemCount ∧ v.dataPtr.mem (f q) = (stackAt onEvent id v k).dataPtr.mem q) ∧
    ∀ j < k, PushedIn onEvent v k (layerOf onEvent id v j) ∨
      f j < v.elemCount ∧ v.dataPtr.mem (f j) = layerOf onEvent id v j

theorem inPlace_start (hv : Sound v) : InPlace onEvent v 0 where
  sound := hv
  count := le_refl _
  served q hq := absurd hq (Nat.not_lt_zero q)
  origin := ⟨id, strictMono_id, fun _ hq => Or.inr ⟨hq, rfl⟩, fun j hj => absurd hj (Nat.not_lt_zero j)⟩

theorem inPlace_step (h : InPlace onEvent v k) (hk : k + 1 < v.elemCount)
    (hkeep : KeepsPlace onEvent k (stackAt onEvent id v k) v.elemCount) : InPlace onEvent v (k + 1) := by
  have hcount := h.count
  obtain ⟨hsound, hleft⟩ := hkeep.count hk
  obtain ⟨g, hg, hfix, hfrom⟩ := hkeep.placed hk
  obtain ⟨f, hf, hpos, hserved⟩ := h.origin
  have hleft : v.elemCount ≤ (stackAt onEvent id v (k + 1)).elemCount := hleft
  refine ⟨hsound, hleft, fun q hq => ?_, f ∘ g, hf.comp hg, fun q hq => ?_, fun j hj => ?_⟩
  · -- up to position `k` a layer stays unless it is replaced by a pushed one
    rcases hfrom q (by omega) with hnew | ⟨-, hsame⟩
    · exact Or.inr (pushedIn_last hnew)
    · rw [hfix q (by omega)] at hsame
      by_cases hqk : q = k
      · subst hqk
        exact Or.inl hsame.symm
      · have hold := h.served q (by omega)
        rw [hsame] at hold
        exact hold.imp_right PushedIn.succ
  · rcases hfrom q hq with hnew | ⟨hlt, hsame⟩
    · exact Or.inl (pushedIn_last hnew)
    · have hold := hpos (g q) hlt
      rw [hsame] at hold
      exact hold.imp_left PushedIn.succ
  · have hgj : g j = j := hfix j (by omega)
    rw [Function.comp_apply, hgj]
    by_cases hjk : j = k
    · subst hjk
      exact (hpos j (by omega)).imp_left PushedIn.succ
    · exact (hserved j (by omega)).imp_left PushedIn.succ

theorem inPlace_run (hv : Sound v) (hkeeps : EventKeeps onEvent v.elemCount) (hk : EventReaches onEvent v k) :
    InPlace onEvent v k := by
  induction k with
  | zero => exact inPlace_start hv
  | succ k ih =>
    obtain ⟨hlt, hcodes⟩ := hk
    have hin := ih ⟨by omega, fun j hj => hcodes j (by omega)⟩
    exact inPlace_step hin hlt (hkeeps k _ (by omega) hin.sound hin.count (hcodes k (Nat.lt_succ_self k)))

theorem InPlace.metBy (h : InPlace onEvent v k) {q : ℕ} (hq : q < k) :
    MetBy onEvent id v k ((stackAt onEvent id v k).dataPtr.mem q) := by
  rcases h.served q hq with hsame | ⟨j, hj, hpushed⟩
  · exact ⟨q, hq, Or.inl hsame.symm⟩
  · exact ⟨j, hj, Or.inr hpushed⟩

/-- a layer that was served before comes from two positions of the stack at the start, or it was pushed -/
theorem InPlace.fresh (h : InPlace onEvent v k) (hk : k < v.elemCount)
    (hdiff : ∀ p q, p < q → q < v.elemCount → v.dataPtr.mem p ≠ v.dataPtr.mem q)
    (hagain : ∃ j < k, layerOf onEvent id v j = layerOf onEvent id v k) :
    PushedIn onEvent v k (layerOf onEvent id v k) := by
  obtain ⟨f, hf, hpos, hserved⟩ := h.origin
  obtain ⟨j, hj, hsame⟩ := hagain
  rcases hpos k (lt_of_lt_of_le hk h.count) with hpushed | ⟨hlt, hnow⟩
  · exact hpushed
  · rcases hserved j hj with hpushed | ⟨-, hthen⟩
    · rw [hsame] at hpushed
      exact hpushed
    · exact absurd (hthen.trans (hsame.trans hnow.symm)) (hdiff (f j) (f k) (hf hj) hlt)

/-- after the last round, a layer behind the served ones was pushed, for its position at the start would be outside -/
theorem InPlace.rest (h : InPlace onEvent v k) (hk : k + 1 = v.elemCount)
    (hkeep : KeepsPlace onEvent k (stackAt onEvent id v k) v.elemCount) {q : ℕ}
    (hq : q < (stackAt onEvent id v (k + 1)).elemCount) :
    MetBy onEvent id v (k + 1) ((stackAt onEvent id v (k + 1)).dataPtr.mem q) := by
  rcases hkeep.last hk q hq with hnew | ⟨p, hp, hsame⟩
  · exact ⟨k, Nat.lt_succ_self k, Or.inr hnew⟩
  · have hsame : (stackAt onEvent id v k).dataPtr.mem p = (stackAt onEvent id v (k + 1)).dataPtr.mem q := hsame
    rw [← hsame]
    rcases Nat.lt_trichotomy p k with hlt | rfl | hgt
    · obtain ⟨j, hj, hmet⟩ := h.metBy hlt
      exact ⟨j, by omega, hmet⟩
    · exact ⟨p, Nat.lt_succ_self p, Or.inl rfl⟩
    · obtain ⟨f, hf, hpos, -⟩ := h.origin
      rcases hpos p hp with ⟨j, hj, hpushed⟩ | ⟨hlt, -⟩
      · exact ⟨j, by omega, Or.inr hpushed⟩
      · have hle : p ≤ f p := hf.le_apply
        omega

end Keeps

/-! ## The condition -/

theorem event_right {onEvent : Method L} {v : Vector L} {n : ℕ} (hv : Sound v)
    (hdiff : ∀ p q, p < q → q < v.elemCount → v.dataPtr.mem p ≠ v.dataPtr.mem q)
    (hkeeps : EventKeeps onEvent v.elemCount) :
    ∃ code t, layerstackOnEvent onEvent ⟨false, n, ⟨v, [], []⟩⟩ = .returns code ⟨false, n, t⟩ ∧ EventRight code t := by
  refine event_right_of (fun k hk => ?_) (fun k hk q hq => ?_) (fun k hk => ?_) fun hnone q hq => ?_
  · exact lt_of_lt_of_le hk.1 (inPlace_run hv hkeeps hk).count
  · exact (inPlace_run hv hkeeps hk).metBy hq
  · exact (inPlace_run hv hkeeps hk).fresh hk.1 hdiff
  · rcases hcount : v.elemCount with - | m
    · rw [hcount] at hq
      have hq : q < v.elemCount := hq
      omega
    · have hreach : EventReaches onEvent v m := ⟨by omega, fun j hj => hnone j (by omega)⟩
      have hin := inPlace_run hv hkeeps hreach
      rw [hcount] at hq
      exact hin.rest hcount.symm (hkeeps m _ (by omega) hin.sound hin.count (hnone m (by omega))) hq

theorem update_right {onUpdate : Method L} {v : Vector L} {n : ℕ} (hv : Sound v)
    (hkeeps : UpdateKeeps onUpdate v.elemCount) :
    ∃ code t, layerstackOnUpdate onUpdate ⟨false, n, ⟨v, [], []⟩⟩ = .returns code ⟨false, n, t⟩ ∧ Inside t := by
  have hcount (k : ℕ) (hk : k < v.elemCount) :
      Sound (stackAt onUpdate id v k) ∧ v.elemCount ≤ (stackAt onUpdate id v k).elemCount := by
    induction k with
    | zero => exact ⟨hv, le_refl _⟩
    | succ k ih =>
      obtain ⟨hsound, hle⟩ := ih (by omega)
      exact hkeeps k _ hk hsound hle
  refine ⟨.ok, passed onUpdate id v v.elemCount, ?_, inside_passed.2 fun k hk => lt_of_lt_of_le hk (hcount k hk).2⟩
  have hrun := updateLoop_run onUpdate v n v.elemCount 0
  rw [Nat.zero_add] at hrun
  unfold layerstackOnUpdate
  rw [lock_get_run rfl]
  exact hrun

theorem render_right {onRender : Method L} {v : Vector L} {n : ℕ} (hv : Sound v)
    (hkeeps : RenderKeeps onRender v.elemCount) :
    ∃ code t, layerstackOnRender onRender ⟨false, n, ⟨v, [], []⟩⟩ = .returns code ⟨false, n, t⟩ ∧ Inside t := by
  have hinside (k : ℕ) (hk : k < v.elemCount) : Sound (stackAt onRender (renderPos v) v k) ∧
      renderPos v k < (stackAt onRender (renderPos v) v k).elemCount := by
    induction k with
    | zero =>
      refine ⟨hv, ?_⟩
      show v.elemCount - 1 - 0 < v.elemCount
      omega
    | succ k ih =>
      obtain ⟨hsound, hlt⟩ := ih (by omega)
      have hpos : renderPos v k = renderPos v (k + 1) + 1 := by
        unfold renderPos
        omega
      have hleft := hkeeps (renderPos v (k + 1)) _ (by unfold renderPos; omega) hsound (hpos ▸ hlt)
      rw [← hpos] at hleft
      exact hleft
  unfold layerstackOnRender
  rw [lock_get_run rfl]
  by_cases hnone : v.elemCount = 0
  · refine ⟨.noOperation, ⟨v, [], []⟩, ?_, fun a ha => absurd ha (List.not_mem_nil)⟩
    simp only [hnone, if_true]
    rfl
  · refine ⟨.ok, passed onRender (renderPos v) v v.elemCount, ?_, inside_passed.2 fun k hk => (hinside k hk).2⟩
    have hrun := renderLoop_run onRender v n (Nat.zero_add v.elemCount)
    simp only [hnone, if_false]
    exact hrun

/-- For all stacks and methods: a dispatch through pairwise different layers accesses no index outside of the stack and
serves the layers in order, once and up to the first that handles the event, if its handlers keep their place; the other two
passes read inside of the stack if the methods leave enough layers. -/
theorem dispatch_right (L : Type) :
    (∀ (onEvent : Method L) (v : Vector L) (n : ℕ), Sound v →
      (∀ p q, p < q → q < v.elemCount → v.dataPtr.mem p ≠ v.dataPtr.mem q) → EventKeeps onEvent v.elemCount →
        ∃ code t, layerstackOnEvent onEvent ⟨false, n, ⟨v, [], []⟩⟩ = .returns code ⟨false, n, t⟩ ∧ EventRight code t) ∧
    (∀ (onUpdate : Method L) (v : Vector L) (n : ℕ), Sound v → UpdateKeeps onUpdate v.elemCount →
      ∃ code t, layerstackOnUpdate onUpdate ⟨false, n, ⟨v, [], []⟩⟩ = .returns code ⟨false, n, t⟩ ∧ Inside t) ∧
    (∀ (onRender : Method L) (v : Vector L) (n : ℕ), Sound v → RenderKeeps onRender v.elemCount →
      ∃ code t, layerstackOnRender onRender ⟨false, n, ⟨v, [], []⟩⟩ = .returns code ⟨false, n, t⟩ ∧ Inside t) :=
  ⟨fun _ _ _ hv hdiff hkeeps => event_right hv hdiff hkeeps, fun _ _ _ hv hkeeps => update_right hv hkeeps,
    fun _ _ _ hv hkeeps => render_right hv hkeeps⟩

/-! ## Changes behind the own position -/

/-- a handler keeps its place if it pops behind its own position only, pushes behind the last layer only, and does not pop
more than it pushes -/
theorem eventKeeps_of_behind {onEvent : Method L} {n : ℕ} (hbehind : ∀ i w, i < n → Sound w → n ≤ w.elemCount →
    ActsBehind i w (onEvent i (w.dataPtr.mem i) w).2 ∧ n ≤ (leaves onEvent i w).elemCount) : EventKeeps onEvent n := by
  intro i w hi hw hcount _
  obtain ⟨hacts, hleft⟩ := hbehind i w hi hw hcount
  obtain ⟨hsound, hplaced⟩ := acts_placed _ hw hacts
  refine ⟨fun _ => hplaced, fun _ => ⟨hsound, hleft⟩, fun _ q hq => ?_⟩
  obtain ⟨f, -, -, hfrom⟩ := hplaced
  exact (hfrom q hq).imp_right fun hold => ⟨f q, hold⟩

/-- a dispatch whose only change is that one layer is popped, before the last round, accesses an index outside of the
stack -/
theorem lone_pop_outside {onEvent : Method L} {v : Vector L} {n i index : ℕ} (hi : i + 1 < v.elemCount)
    (hindex : index < v.elemCount) (hpop : ∀ l w, (onEvent i l w).2 = [.erase index])
    (hstill : ∀ j l w, j ≠ i → (onEvent j l w).2 = []) (hcodes : ∀ j l w, (onEvent j l w).1 ≠ .ok) :
    ∃ code t, layerstackOnEvent onEvent ⟨false, n, ⟨v, [], []⟩⟩ = .returns code ⟨false, n, t⟩ ∧ ¬ Inside t := by
  obtain ⟨code, m, hrun, hreach, -, -⟩ := event_served onEvent v n
  have hbefore (k : ℕ) (hk : k ≤ i) : stackAt onEvent id v k = v := by
    induction k with
    | zero => rfl
    | succ k ih =>
      have hprev := ih (by omega)
      rw [stackAt, hprev, id_eq, hstill k _ _ (by omega), applyActs, List.foldl_nil]
  have hafter (k : ℕ) : (stackAt onEvent id v (i + 1 + k)).elemCount = v.elemCount - 1 := by
    induction k with
    | zero =>
      have hpos : min 1 (v.elemCount - index) > 0 := by omega
      rw [Nat.add_zero, stackAt, hbefore i (le_refl i), id_eq, hpop]
      simp only [applyActs, List.foldl_cons, List.foldl_nil, StackAct.apply, vectorErase, vectorEraseMulti, if_pos hpos]
      omega
    | succ k ih =>
      rw [← Nat.add_assoc, stackAt, id_eq, hstill _ _ _ (by omega), applyActs, List.foldl_nil]
      exact ih
  refine ⟨code, passed onEvent id v m, hrun, fun hin => ?_⟩
  -- the last round
  have hlast := inside_passed.1 hin (v.elemCount - 1) ((hreach _).2 ⟨by omega, fun j _ => hcodes j _ _⟩)
  have hcount := hafter (v.elemCount - 1 - (i + 1))
  rw [Nat.add_sub_cancel' (by omega)] at hcount
  rw [hcount, id_eq] at hlast
  exact lt_irrefl _ hlast

/-- layers 1 and 2 -/
def twoLayers : Vector ℕ := ⟨2, 8, ⟨32, 8, 8, 64, 3 / 2⟩, false, ⟨4096, 64, fun k => k + 1⟩⟩

theorem sound_twoLayers : Sound twoLayers := ⟨by decide, by decide⟩

/-- in the first round, while there is room, layer 9 is pushed behind the last and the next layer popped -/
def replaceNext : Method ℕ := fun i _ w =>
  (.noOperation, if i = 0 ∧ w.elemCount + 1 ≤ w.elemCap ∧ (w.elemCount + 1) * ptrBytes ≤ w.dataPtr.size then
    [.insert 9 w.elemCount (fun _ => 0) none, .erase 1] else [])

theorem replaceNext_behind (i : ℕ) {w : Vector ℕ} (hw : Sound w) (hcount : 2 ≤ w.elemCount) :
    ActsBehind i w (replaceNext i (w.dataPtr.mem i) w).2 ∧ 2 ≤ (leaves replaceNext i w).elemCount := by
  by_cases hroom : i = 0 ∧ w.elemCount + 1 ≤ w.elemCap ∧ (w.elemCount + 1) * ptrBytes ≤ w.dataPtr.size
  · have hacts (l : ℕ) : (replaceNext i l w).2 = [.insert 9 w.elemCount (fun _ => 0) none, .erase 1] := if_pos hroom
    obtain ⟨rfl, hcap, hfits⟩ := hroom
    have hpush : (vectorInsert w 9 w.elemCount (fun _ => 0) none).1 = .ok := (insert_code hw ..).1.2 (Or.inl hcap)
    have hlt := hw.count_lt
    have hlen : (vectorInsert w 9 w.elemCount (fun _ => 0) none).2.elemCount = w.elemCount + 1 :=
      (insertMulti_room (by omega : w.elemCount + 1 < 2 ^ 64) Nat.one_pos (Prod.ext hpush rfl)).1
    rw [leaves, hacts]
    refine ⟨⟨⟨rfl, ?_⟩, Nat.one_pos, trivial⟩, ?_⟩
    · rw [roomFor, if_pos hcap]
      exact hfits
    · have hpos : min 1 ((vectorInsert w 9 w.elemCount (fun _ => 0) none).2.elemCount - 1) > 0 := by omega
      simp only [applyActs, List.foldl_cons, List.foldl_nil, StackAct.apply, vectorErase, vectorEraseMulti, if_pos hpos]
      omega
  · have hacts (l : ℕ) : (replaceNext i l w).2 = [] := if_neg hroom
    rw [leaves, hacts]
    exact ⟨trivial, hcount⟩

/-- a method that removes its own layer -/
def popSelf : Method ℕ := fun i _ _ => (.ok, [.erase i])

theorem popSelf_keeps (n : ℕ) : RenderKeeps popSelf n := by
  intro i w _ hw hlt
  obtain ⟨hsound, -⟩ := erase_placed hw (Nat.lt_succ_self i)
  refine ⟨hsound, ?_⟩
  have hpos : min 1 (w.elemCount - (i + 1)) > 0 := by omega
  simp only [leaves, popSelf, applyActs, List.foldl_cons, List.foldl_nil, StackAct.apply, vectorErase, vectorEraseMulti,
    if_pos hpos]
  omega

/-- layer 1 puts layer 9 in the place of layer 2, which then gets the event or the update; when the layers are drawn, each
is popped by its own method -/
theorem dispatch_replaced :
    (∃ code t, layerstackOnEvent replaceNext ⟨false, 0, ⟨twoLayers, [], []⟩⟩ = .returns code ⟨false, 0, t⟩ ∧
      EventRight code t) ∧
    (∃ code t, layerstackOnUpdate replaceNext ⟨false, 0, ⟨twoLayers, [], []⟩⟩ = .returns code ⟨false, 0, t⟩ ∧ Inside t) ∧
    ∃ code t, layerstackOnRender popSelf ⟨false, 0, ⟨twoLayers, [], []⟩⟩ = .returns code ⟨false, 0, t⟩ ∧ Inside t := by
  obtain ⟨hevent, hupdate, hrender⟩ := dispatch_right ℕ
  refine ⟨hevent replaceNext twoLayers 0 sound_twoLayers (fun p q hpq _ heq => ?_) ?_,
    hupdate replaceNext twoLayers 0 sound_twoLayers ?_, hrender popSelf twoLayers 0 sound_twoLayers (popSelf_keeps 2)⟩
  · have heq : p + 1 = q + 1 := heq
    omega
  · exact eventKeeps_of_behind fun i w _ hw hcount => replaceNext_behind i hw hcount
  · intro i w _ hw hcount
    obtain ⟨hacts, hleft⟩ := replaceNext_behind i hw hcount
    exact ⟨(acts_placed _ hw hacts).1, hleft⟩

/-- a method that removes the first layer -/
def popFirst : Method ℕ := fun _ _ _ => (.noOperation, [.erase 0])

/-- layer 1 is popped by its own handler; the second round then reads behind the only layer left -/
theorem dispatch_outside : ∃ t, layerstackOnEvent popFirst ⟨false, 0, ⟨twoLayers, [], []⟩⟩ =
      .returns .noOperation ⟨false, 0, t⟩ ∧ t.accesses = [⟨0, 2⟩, ⟨1, 1⟩] ∧ ¬ EventRight .noOperation t := by
  refine ⟨_, rfl, rfl, fun h => ?_⟩
  have hlt : 1 < 1 := h.inside ⟨1, 1⟩ (List.mem_cons_of_mem _ (List.mem_cons_self ..))
  exact lt_irrefl 1 hlt

end Noriko.Layer
