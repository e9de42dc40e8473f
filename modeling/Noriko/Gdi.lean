/-
Resources of the GDI renderer (`platform/windows/wingdi.c`).

Windows is the environment: a call that creates a bitmap answers with a handle that no bitmap has that is alive, or fails,
and a call that selects, deletes or releases reports whether it did. Windows does not delete a bitmap that is selected into
a device context. The renderer draws into the bitmap of `memDC` and reads textures from that of `texDC`. Pixels, colours and
brushes are left out. `res` is the memory of the resource blocks, `live` lists those that are allocated; each holds a
reference on the renderer. `bmps` and `wndDCs` are the ledgers of the bitmaps and of the window's device contexts.

`Resize` deletes the back buffer before it has a new one, and returns at once if it gets none; `CreateTextureMask` forgets
the mask if there is no memory for a resource. These, and calls of Windows that do not give back or select what they should,
are what can go wrong (`gdi_run_iff`).
-/
import Noriko.Placement
import Noriko.Lib.Ledger
import Noriko.Lib.Sim

namespace Noriko.Gdi

open Lib

/-! ## The renderer -/

inductive NkRendererResourceType where
  | none | texture | textureMask
deriving DecidableEq, Repr

/-- a resource of this renderer, which `mp_rdRef` points to -/
structure NkRendererResource where
  resType : NkRendererResourceType
  resHandle : ℕ
  resFlags : ℕ
deriving DecidableEq, Repr

structure GdiRenderer where
  refCount : ℤ
  vpAlignment : ℕ
  vpExtents : NkSize2D
  dispTileSize : NkSize2D
  memBmp : Option ℕ
  oldBmp : ℕ
  defTexBmp : ℕ
  bbDim : NkSize2D
  vpOri : NkPoint2D
  /-- the bitmap that is selected into `memDC` -/
  memSel : ℕ
  /-- the bitmap that is selected into `texDC` -/
  texSel : ℕ
  res : ℕ → NkRendererResource
  live : List ℕ
  bmps : Ledger ℕ
  wndDCs : Ledger ℕ

variable {s t : GdiRenderer}

/-! ## Calls of Windows -/

/-- `SelectObject` for a device context that `sel` is selected into: result and new selection -/
def selectObject (ok : Bool) (sel : ℕ) (obj : Option ℕ) : Option ℕ × ℕ :=
  match obj with
  | none => (none, sel)
  | some b => if ok then (some sel, b) else (none, sel)

/-- `DeleteObject` for a bitmap -/
def GdiRenderer.deleteObject (ok : Bool) (b : ℕ) (s : GdiRenderer) : GdiRenderer :=
  { s with bmps := if ok ∧ b ≠ s.memSel ∧ b ≠ s.texSel then s.bmps.put b else s.bmps }

/-- a new bitmap -/
def GdiRenderer.createBitmap (b : ℕ) (s : GdiRenderer) : GdiRenderer := { s with bmps := s.bmps.get b }

/-! ## References -/

/-- `__NkInt_GdiRenderer_AddRef` -/
def GdiRenderer.addRef (s : GdiRenderer) : GdiRenderer := { s with refCount := s.refCount + 1 }

/-- `__NkInt_GdiRenderer_Destroy`, the bitmaps -/
def GdiRenderer.destroy (s : GdiRenderer) : GdiRenderer :=
  { s with texSel := s.defTexBmp, memSel := s.oldBmp, bmps := s.memBmp.elim s.bmps s.bmps.put }

/-- `__NkInt_GdiRenderer_Release` -/
def GdiRenderer.release (s : GdiRenderer) : GdiRenderer :=
  let s := { s with refCount := s.refCount - 1 }
  if s.refCount ≤ 0 then s.destroy else s

/-! ## Resources -/

/-- whether a resource can be unbound and its bitmap deleted -/
structure DeleteCalls where
  selDef : Bool
  del : Bool

/-- `__NkInt_GdiRenderer_InternalDeleteResource` for the block at `a` -/
def internalDeleteResource (c : DeleteCalls) (a : ℕ) (s : GdiRenderer) : GdiRenderer :=
  let r := s.res a
  match r.resType with
  | .texture | .textureMask =>
    let s := if s.texSel = r.resHandle then
        { s with texSel := (selectObject c.selDef s.texSel (some s.defTexBmp)).2 } else s
    (s.deleteObject c.del r.resHandle).release
  | .none => s

/-- `__NkInt_GdiRenderer_AppropriateResource`: code, `*resPtr` and renderer; `alloc` is the answer of `NkPoolAlloc` -/
def appropriateResource (c : DeleteCalls) (alloc : NkErrorCode × ℕ) (resPtr : Option ℕ) (s : GdiRenderer) :
    NkErrorCode × Option ℕ × GdiRenderer :=
  match resPtr with
  | some a => (.ok, some a, internalDeleteResource c a s)
  | none => if alloc.1 ≠ .ok then (alloc.1, none, s) else (.ok, some alloc.2, { s with live := alloc.2 :: s.live })

/-- the (re-)initialization of the block at `a`, with a reference on the renderer -/
def initResource (a : ℕ) (resType : NkRendererResourceType) (resHandle : ℕ) (s : GdiRenderer) : GdiRenderer :=
  { s.addRef with res := Function.update s.res a ⟨resType, resHandle, 0⟩ }

/-- the answers to the calls of one `CreateTexture`; `old` is for the resource that is replaced -/
structure TextureCalls where
  ddTex : Option ℕ
  cLinesCopied : ℤ
  del : Bool
  alloc : NkErrorCode × ℕ
  old : DeleteCalls

/-- `__NkInt_GdiRenderer_CreateTexture` for a bitmap of `bmpHeight` lines -/
def createTexture (c : TextureCalls) (bmpHeight : ℤ) (resourcePtr : Option ℕ) (s : GdiRenderer) :
    NkErrorCode × Option ℕ × GdiRenderer :=
  match c.ddTex with
  | none => (.createCompBitmap, resourcePtr, s)
  | some ddTex =>
    let s := s.createBitmap ddTex
    if c.cLinesCopied ≠ bmpHeight then (.createDDBFromDIB, resourcePtr, s.deleteObject c.del ddTex)
    else
      let r := appropriateResource c.old c.alloc resourcePtr s
      if r.1 ≠ .ok then (r.1, r.2.1, r.2.2.deleteObject c.del ddTex)
      else (.ok, r.2.1, r.2.1.elim r.2.2 fun a => initResource a .texture ddTex r.2.2)

/-- the answers to the calls of one `CreateTextureMask` -/
structure MaskCalls where
  monoBmp : Option ℕ
  selTex : Bool
  selMem : Bool
  restMem : Bool
  restTex : Bool
  alloc : NkErrorCode × ℕ
  old : DeleteCalls

/-- the texture and the mask are selected for the blit, and then what was selected before -/
def blitMask (c : MaskCalls) (resHandle monoBmp : ℕ) (s : GdiRenderer) : GdiRenderer :=
  let oldObj := selectObject c.selTex s.texSel (some resHandle)
  let oldBmp := selectObject c.selMem s.memSel (some monoBmp)
  { s with
    memSel := (selectObject c.restMem oldBmp.2 oldBmp.1).2
    texSel := (selectObject c.restTex oldObj.2 oldObj.1).2 }

/-- `__NkInt_GdiRenderer_CreateTextureMask` for the texture at `texPtr` -/
def createTextureMask (c : MaskCalls) (texPtr : ℕ) (resourcePtr : Option ℕ) (s : GdiRenderer) :
    NkErrorCode × Option ℕ × GdiRenderer :=
  match c.monoBmp with
  | none => (.createCompBitmap, resourcePtr, s)
  | some monoBmp =>
    let s := blitMask c (s.res texPtr).resHandle monoBmp (s.createBitmap monoBmp)
    let r := appropriateResource c.old c.alloc resourcePtr s
    if r.1 ≠ .ok then (r.1, r.2.1, r.2.2)
    else (.ok, r.2.1, r.2.1.elim r.2.2 fun a => initResource a .textureMask monoBmp r.2.2)

/-- `__NkInt_GdiRenderer_DeleteResource` for the block at `a` -/
def deleteResource (c : DeleteCalls) (a : ℕ) (s : GdiRenderer) : NkErrorCode × GdiRenderer :=
  let s := internalDeleteResource c a s
  (.ok, { s with live := s.live.erase a })

/-! ## The back buffer -/

/-- the answers to the calls of one `Resize` -/
structure ResizeCalls where
  selOld : Bool
  del : Bool
  wndDC : Option ℕ
  memBmp : Option ℕ
  selNew : Bool
  relDC : Bool

/-- the old bitmap is unselected and deleted -/
def dropBackBuffer (c : ResizeCalls) (s : GdiRenderer) : GdiRenderer :=
  let s := { s with memSel := (selectObject c.selOld s.memSel (some s.oldBmp)).2 }
  s.memBmp.elim s fun b => s.deleteObject c.del b

/-- `__NkInt_GdiRenderer_Resize` -/
def resize (c : ResizeCalls) (clAreaSize : NkSize2D) (s : GdiRenderer) : NkErrorCode × GdiRenderer :=
  let s := dropBackBuffer c s
  let s := { s with wndDCs := c.wndDC.elim s.wndDCs s.wndDCs.get, memBmp := c.memBmp }
  match c.memBmp with
  | none => (.createCompBitmap, s)
  | some b =>
    let s := s.createBitmap b
    (.ok, { s with
      memSel := (selectObject c.selNew s.memSel (some b)).2
      wndDCs := c.wndDC.elim s.wndDCs fun d => if c.relDC then s.wndDCs.put d else s.wndDCs
      bbDim := clAreaSize
      vpOri := calculateViewportOrigin s.vpAlignment s.vpExtents s.dispTileSize clAreaSize })

/-! ## Runs -/

inductive GdiOp where
  | createTexture (c : TextureCalls) (bmpHeight : ℤ) (resourcePtr : Option ℕ)
  | createTextureMask (c : MaskCalls) (texPtr : ℕ) (resourcePtr : Option ℕ)
  | deleteResource (c : DeleteCalls) (a : ℕ)
  | resize (c : ResizeCalls) (clAreaSize : NkSize2D)

/-- the bitmaps of the live resources -/
def GdiRenderer.handles (s : GdiRenderer) : List ℕ := s.live.map fun a => (s.res a).resHandle

/-- the back buffer and the bitmaps of the live resources -/
def GdiRenderer.owned (s : GdiRenderer) : List ℕ := s.memBmp.toList ++ s.handles

/-- a handle that no bitmap of the renderer has -/
def GdiRenderer.Fresh (s : GdiRenderer) (b : ℕ) : Prop := b ∉ s.owned ∧ b ≠ s.oldBmp ∧ b ≠ s.defTexBmp

instance (b : ℕ) : Decidable (s.Fresh b) := inferInstanceAs (Decidable (_ ∧ _))

/-- a resource pointer is `NULL` or that of a live resource, and memory is handed out once -/
def GdiRenderer.PtrOk (s : GdiRenderer) (alloc : NkErrorCode × ℕ) (resourcePtr : Option ℕ) : Prop :=
  match resourcePtr with
  | some a => a ∈ s.live
  | none => alloc.1 = .ok → alloc.2 ∉ s.live

instance (alloc : NkErrorCode × ℕ) : (resourcePtr : Option ℕ) → Decidable (s.PtrOk alloc resourcePtr)
  | some a => inferInstanceAs (Decidable (a ∈ s.live))
  | none => inferInstanceAs (Decidable (alloc.1 = .ok → alloc.2 ∉ s.live))

/-- what callers, the pool and Windows keep to -/
def GdiOp.Legal (s : GdiRenderer) : GdiOp → Prop
  | .createTexture c _ resourcePtr => (∀ b ∈ c.ddTex, s.Fresh b) ∧ s.PtrOk c.alloc resourcePtr
  | .createTextureMask c texPtr resourcePtr =>
    (∀ b ∈ c.monoBmp, s.Fresh b) ∧ s.PtrOk c.alloc resourcePtr ∧ texPtr ∈ s.live ∧ (s.res texPtr).resType = .texture
  | .deleteResource _ a => a ∈ s.live
  | .resize c _ => ∀ b ∈ c.memBmp, s.Fresh b

instance : (o : GdiOp) → Decidable (o.Legal s)
  | .createTexture .. => inferInstanceAs (Decidable (_ ∧ _))
  | .createTextureMask .. => inferInstanceAs (Decidable (_ ∧ _))
  | .deleteResource .. => inferInstanceAs (Decidable (_ ∈ _))
  | .resize c _ => inferInstanceAs (Decidable (∀ b ∈ c.memBmp, s.Fresh b))

def GdiOp.apply (s : GdiRenderer) : GdiOp → NkErrorCode × GdiRenderer
  | .createTexture c bmpHeight resourcePtr =>
    ((Gdi.createTexture c bmpHeight resourcePtr s).1, (Gdi.createTexture c bmpHeight resourcePtr s).2.2)
  | .createTextureMask c texPtr resourcePtr =>
    ((Gdi.createTextureMask c texPtr resourcePtr s).1, (Gdi.createTextureMask c texPtr resourcePtr s).2.2)
  | .deleteResource c a => Gdi.deleteResource c a s
  | .resize c clAreaSize => Gdi.resize c clAreaSize s

def gdiStep (s : GdiRenderer) (o : GdiOp) : Option (NkErrorCode × GdiRenderer) :=
  if o.Legal s then some (o.apply s) else none

/-- the back buffer exists and is drawn into -/
def GdiRenderer.Selected (s : GdiRenderer) : Prop := s.memBmp = some s.memSel

/-- what every call owes when `ext` references are held by others than the resources -/
structure GdiKept (ext : ℕ) (s : GdiRenderer) (errCode : NkErrorCode) (t : GdiRenderer) : Prop where
  refs : t.refCount = ext + t.live.length
  bitmaps : t.bmps.Owns t.owned
  wndDCs : t.wndDCs.Owns []
  backBuffer : errCode ≠ .ok → t.Selected
  unchanged : errCode ≠ .ok → t.res = s.res ∧ t.live = s.live

/-- Windows unbinds the resource at `a`, if it is the one `texSel` that is bound, and deletes its bitmap -/
def DeleteCalls.Work (c : DeleteCalls) (s : GdiRenderer) (texSel a : ℕ) : Prop :=
  (texSel = (s.res a).resHandle → c.selDef) ∧ c.del

instance (c : DeleteCalls) (texSel a : ℕ) : Decidable (c.Work s texSel a) := inferInstanceAs (Decidable (_ ∧ _))

/-- the bitmap that is bound after a mask was made: the texture, if it was bound and the one before it was not again -/
def MaskCalls.texSel (c : MaskCalls) (s : GdiRenderer) (texPtr : ℕ) : ℕ :=
  if c.selTex ∧ ¬ c.restTex then (s.res texPtr).resHandle else s.texSel

/-- the calls that give back and select do so, a mask gets memory for its resource, and a new back buffer exists -/
def GdiOp.Works (s : GdiRenderer) : GdiOp → Prop
  | .createTexture c bmpHeight resourcePtr =>
    c.ddTex ≠ none →
      if c.cLinesCopied = bmpHeight ∧ (resourcePtr = none → c.alloc.1 = .ok) then
        ∀ a ∈ resourcePtr, c.old.Work s s.texSel a
      else c.del
  | .createTextureMask c texPtr resourcePtr =>
    c.monoBmp ≠ none → (resourcePtr = none → c.alloc.1 = .ok) ∧ (c.selMem → c.restMem) ∧
      ∀ a ∈ resourcePtr, c.old.Work s (c.texSel s texPtr) a
  | .deleteResource c a => c.Work s s.texSel a
  | .resize c _ => c.selOld ∧ c.del ∧ c.memBmp ≠ none ∧ c.selNew ∧ (c.wndDC ≠ none → c.relDC)

/-! ## The invariant -/

/-- the books are balanced but for the bitmaps `extra`, which no resource has yet; what is bound to `texDC` is the default or
a resource -/
structure GdiInv (ext : ℕ) (extra : List ℕ) (s : GdiRenderer) : Prop where
  refs : s.refCount = ext + s.live.length
  nodup : s.live.Nodup
  types : ∀ a ∈ s.live, (s.res a).resType ≠ .none
  selected : s.Selected
  bitmaps : s.bmps.Owns (extra ++ s.owned)
  wndDCs : s.wndDCs.Owns []
  bound : s.texSel = s.defTexBmp ∨ s.texSel ∈ s.handles
  defTex : s.defTexBmp ∉ s.handles
  apart : s.memSel ∉ s.handles ∧ s.memSel ≠ s.oldBmp ∧ s.memSel ≠ s.defTexBmp
  fresh : ∀ b ∈ extra, s.Fresh b

variable {ext a b : ℕ} {extra : List ℕ} {resType : NkRendererResourceType}

theorem GdiInv.owned_eq (h : GdiInv ext extra s) : s.owned = s.memSel :: s.handles := by
  rw [GdiRenderer.owned, show s.memBmp = some s.memSel from h.selected]
  rfl

theorem GdiInv.memSel_ne_texSel (h : GdiInv ext extra s) : s.memSel ≠ s.texSel := by
  intro heq
  rcases h.bound with hdef | hres
  · exact h.apart.2.2 (heq.trans hdef)
  · exact h.apart.1 (heq ▸ hres)

theorem mem_handles (ha : a ∈ s.live) : (s.res a).resHandle ∈ s.handles := List.mem_map_of_mem ha

/-- a bitmap that no resource has yet is not selected -/
theorem GdiInv.fresh_unselected (h : GdiInv ext extra s) (hb : b ∈ extra) : b ≠ s.memSel ∧ b ≠ s.texSel := by
  have hfresh := h.fresh b hb
  have hout := hfresh.1
  rw [h.owned_eq, List.mem_cons, not_or] at hout
  refine ⟨hout.1, fun heq => ?_⟩
  rcases h.bound with hdef | hres
  · exact hfresh.2.2 (heq.trans hdef)
  · exact hout.2 (heq ▸ hres)

/-- what the invariant says after a call that succeeds or changes no resource -/
theorem GdiInv.kept {errCode : NkErrorCode} (h : GdiInv ext [] t)
    (hsame : errCode ≠ .ok → t.res = s.res ∧ t.live = s.live) : GdiKept ext s errCode t ∧ t.Selected :=
  ⟨⟨h.refs, h.bitmaps, h.wndDCs, fun _ => h.selected, hsame⟩, h.selected⟩

/-! ## Bitmaps -/

theorem GdiInv.createBitmap (h : GdiInv ext [] s) (hb : s.Fresh b) : GdiInv ext [b] (s.createBitmap b) :=
  { h with
    bitmaps := h.bitmaps.get b
    fresh := by
      intro x hx
      rw [List.mem_singleton.1 hx]
      exact hb }

/-- a bitmap that no resource has yet is deleted exactly if Windows does so -/
theorem deleteObject_bitmaps (h : GdiInv ext [b] s) (ok : Bool) :
    (s.deleteObject ok b).bmps.Owns (s.deleteObject ok b).owned ↔ ok := by
  have hfree := h.fresh_unselected (List.mem_singleton_self b)
  refine (h.bitmaps.put_iff _).trans ?_
  exact ⟨fun hall => hall.1, fun hok => ⟨hok, hfree.1, hfree.2⟩⟩

theorem GdiInv.deleteObject (h : GdiInv ext [b] s) : GdiInv ext [] (s.deleteObject true b) :=
  { h with
    bitmaps := (deleteObject_bitmaps h true).2 rfl
    fresh := fun _ hx => absurd hx List.not_mem_nil }

/-! ## Resources -/

/-- the one branch for textures and masks -/
theorem internalDeleteResource_of_type (hty : (s.res a).resType ≠ .none) (c : DeleteCalls) :
    internalDeleteResource c a s = ((if s.texSel = (s.res a).resHandle then
      { s with texSel := (selectObject c.selDef s.texSel (some s.defTexBmp)).2 } else s).deleteObject c.del
        (s.res a).resHandle).release := by
  unfold internalDeleteResource
  cases hres : (s.res a).resType with
  | none => exact absurd hres hty
  | texture | textureMask => simp only [hres]

/-- a resource that is deleted gives back its reference, and its bitmap if Windows works -/
theorem internalDeleteResource_eq (h : GdiInv ext extra s) (hext : 0 < ext) (c : DeleteCalls) (ha : a ∈ s.live) :
    internalDeleteResource c a s = { s with
      refCount := s.refCount - 1
      texSel := if s.texSel = (s.res a).resHandle ∧ c.selDef then s.defTexBmp else s.texSel
      bmps := if c.Work s s.texSel a then s.bmps.put (s.res a).resHandle else s.bmps } := by
  have hmem : (s.res a).resHandle ≠ s.memSel := fun heq => h.apart.1 (heq ▸ mem_handles ha)
  have hdef : (s.res a).resHandle ≠ s.defTexBmp := fun heq => h.defTex (heq ▸ mem_handles ha)
  have hpos : ¬ s.refCount - 1 ≤ 0 := by
    have hlen := List.length_pos_of_mem ha
    rw [h.refs]
    omega
  rw [internalDeleteResource_of_type (h.types a ha)]
  by_cases hbound : s.texSel = (s.res a).resHandle
  · cases hsel : c.selDef <;>
      simp [selectObject, GdiRenderer.deleteObject, GdiRenderer.release, DeleteCalls.Work, hbound, hsel, hpos, hmem, hdef]
  · simp [GdiRenderer.deleteObject, GdiRenderer.release, DeleteCalls.Work, hbound, hpos, hmem, Ne.symm hbound]

/-- the bitmaps of the live resources other than the one at `a` -/
def GdiRenderer.otherHandles (s : GdiRenderer) (a : ℕ) : List ℕ := (s.live.erase a).map fun x => (s.res x).resHandle

theorem handles_perm (ha : a ∈ s.live) : s.handles.Perm ((s.res a).resHandle :: s.otherHandles a) :=
  (List.perm_cons_erase ha).map fun x => (s.res x).resHandle

theorem otherHandles_subset (ha : a ∈ s.live) : s.otherHandles a ⊆ s.handles := fun _ hx =>
  (handles_perm ha).mem_iff.2 (List.mem_cons_of_mem _ hx)

/-- once the resource at `a` is unbound, the texture context has the default bitmap or that of another resource -/
theorem GdiInv.unbound {new : List ℕ} (h : GdiInv ext new s) {c : DeleteCalls} (ha : a ∈ s.live)
    (hc : c.Work s s.texSel a) {sel : ℕ}
    (hsel : sel = if s.texSel = (s.res a).resHandle ∧ c.selDef then s.defTexBmp else s.texSel) :
    sel = s.defTexBmp ∨ sel ∈ s.otherHandles a := by
  subst hsel
  by_cases hbound : s.texSel = (s.res a).resHandle
  · left
    exact if_pos ⟨hbound, hc.1 hbound⟩
  · rw [if_neg fun hall => hbound hall.1]
    refine h.bound.imp_right fun hres => ?_
    exact (List.mem_cons.1 ((handles_perm ha).mem_iff.1 hres)).resolve_left hbound

theorem initResource_otherHandles (hnd : s.live.Nodup) :
    (initResource a resType b s).otherHandles a = s.otherHandles a := by
  refine List.map_congr_left fun x hx => ?_
  have hne : x ≠ a := fun heq => hnd.not_mem_erase (heq ▸ hx)
  simp only [initResource, Function.update_of_ne hne]

/-- the block at `a` has the new bitmap, the others keep theirs -/
theorem initResource_handles (hnd : s.live.Nodup) (ha : a ∈ s.live) :
    (initResource a resType b s).handles.Perm (b :: s.otherHandles a) := by
  have hperm := @handles_perm (initResource a resType b s) a ha
  rw [initResource_otherHandles hnd] at hperm
  simpa [initResource] using hperm

theorem initResource_types (htypes : ∀ x ∈ s.live, x ≠ a → (s.res x).resType ≠ .none) (hty : resType ≠ .none) :
    ∀ x ∈ (initResource a resType b s).live, ((initResource a resType b s).res x).resType ≠ .none := by
  intro x hx
  by_cases hxa : x = a
  · simpa [initResource, hxa] using hty
  · simpa [initResource, Function.update_of_ne hxa] using htypes x hx hxa

/-- the block of a live resource gets a new bitmap -/
def replaceResource (c : DeleteCalls) (a : ℕ) (resType : NkRendererResourceType) (b : ℕ) (s : GdiRenderer) : GdiRenderer :=
  initResource a resType b (internalDeleteResource c a s)

/-- the new bitmap and the bitmaps before it are the old bitmap and the bitmaps after it -/
theorem replaceResource_owned (h : GdiInv ext [b] s) (hext : 0 < ext) (c : DeleteCalls) (ha : a ∈ s.live) :
    (b :: s.owned).Perm ((s.res a).resHandle :: (replaceResource c a resType b s).owned) := by
  have hnew : (replaceResource c a resType b s).handles.Perm (b :: s.otherHandles a) := by
    unfold replaceResource
    rw [internalDeleteResource_eq h hext c ha]
    exact initResource_handles h.nodup ha
  have hmem : (replaceResource c a resType b s).memBmp = s.memBmp := by
    unfold replaceResource
    rw [internalDeleteResource_eq h hext c ha]
    rfl
  have hold := handles_perm ha
  unfold GdiRenderer.owned
  rw [hmem]
  calc List.Perm (b :: (s.memBmp.toList ++ s.handles))
        (b :: (s.memBmp.toList ++ (s.res a).resHandle :: s.otherHandles a)) := (hold.append_left _).cons b
    List.Perm _ (b :: (s.res a).resHandle :: (s.memBmp.toList ++ s.otherHandles a)) := List.perm_middle.cons b
    List.Perm _ ((s.res a).resHandle :: b :: (s.memBmp.toList ++ s.otherHandles a)) := List.Perm.swap _ _ _
    List.Perm _ ((s.res a).resHandle :: (s.memBmp.toList ++ b :: s.otherHandles a)) := List.perm_middle.symm.cons _
    List.Perm _ _ := (hnew.symm.append_left _).cons _

/-- exactly if Windows works, the bitmap that is replaced is deleted -/
theorem replaceResource_bitmaps (h : GdiInv ext [b] s) (hext : 0 < ext) (c : DeleteCalls) (ha : a ∈ s.live) :
    (replaceResource c a resType b s).bmps.Owns (replaceResource c a resType b s).owned ↔ c.Work s s.texSel a := by
  have hown := h.bitmaps.perm (@replaceResource_owned s ext a b resType h hext c ha)
  have hbmps : (replaceResource c a resType b s).bmps =
      if c.Work s s.texSel a then s.bmps.put (s.res a).resHandle else s.bmps := by
    unfold replaceResource
    rw [internalDeleteResource_eq h hext c ha]
    rfl
  rw [hbmps]
  exact hown.put_iff _

theorem GdiInv.replaceResource (h : GdiInv ext [b] s) (hext : 0 < ext) {c : DeleteCalls} (ha : a ∈ s.live)
    (hty : resType ≠ .none) (hc : c.Work s s.texSel a) : GdiInv ext [] (replaceResource c a resType b s) := by
  have hfresh := h.fresh b (List.mem_singleton_self b)
  have hbmps := (@replaceResource_bitmaps s ext a b resType h hext c ha).2 hc
  have hout := hfresh.1
  rw [h.owned_eq, List.mem_cons, not_or] at hout
  unfold Gdi.replaceResource at hbmps ⊢
  rw [internalDeleteResource_eq h hext c ha] at hbmps ⊢
  set u : GdiRenderer := { s with
    refCount := s.refCount - 1
    texSel := if s.texSel = (s.res a).resHandle ∧ c.selDef then s.defTexBmp else s.texSel
    bmps := if c.Work s s.texSel a then s.bmps.put (s.res a).resHandle else s.bmps }
  have hperm : (initResource a resType b u).handles.Perm (b :: s.otherHandles a) := initResource_handles h.nodup ha
  have hnotin : ∀ x, x ≠ b → x ∉ s.handles → x ∉ (initResource a resType b u).handles := by
    intro x hxb hx hin
    rcases List.mem_cons.1 (hperm.mem_iff.1 hin) with heq | hother
    · exact hxb heq
    · exact hx (otherHandles_subset ha hother)
  exact
    { refs := by
        change s.refCount - 1 + 1 = ext + s.live.length
        rw [h.refs]
        ring
      nodup := h.nodup
      types := initResource_types (fun x hx _ => h.types x hx) hty
      selected := h.selected
      bitmaps := hbmps
      wndDCs := h.wndDCs
      bound := (h.unbound ha hc rfl).imp_right fun hother => hperm.mem_iff.2 (List.mem_cons_of_mem b hother)
      defTex := hnotin _ hfresh.2.2.symm h.defTex
      apart := ⟨hnotin _ (Ne.symm hout.1) h.apart.1, h.apart.2⟩
      fresh := fun _ hx => absurd hx List.not_mem_nil }

/-- a new block gets a bitmap -/
def addResource (a : ℕ) (resType : NkRendererResourceType) (b : ℕ) (s : GdiRenderer) : GdiRenderer :=
  initResource a resType b { s with live := a :: s.live }

theorem addResource_handles (ha : a ∉ s.live) : (addResource a resType b s).handles = b :: s.handles := by
  have hrest : s.live.map (fun x => (Function.update s.res a ⟨resType, b, 0⟩ x).resHandle) = s.handles := by
    refine List.map_congr_left fun x hx => ?_
    have hne : x ≠ a := fun heq => ha (heq ▸ hx)
    simp only [Function.update_of_ne hne]
  change (a :: s.live).map (fun x => (Function.update s.res a ⟨resType, b, 0⟩ x).resHandle) = b :: s.handles
  rw [List.map_cons, hrest, Function.update_self]

theorem GdiInv.addResource (h : GdiInv ext [b] s) (ha : a ∉ s.live) (hty : resType ≠ .none) :
    GdiInv ext [] (addResource a resType b s) := by
  have hfresh := h.fresh b (List.mem_singleton_self b)
  have hout := hfresh.1
  rw [h.owned_eq, List.mem_cons, not_or] at hout
  have hhandles := @addResource_handles s a b resType ha
  have hnotin : ∀ x, x ≠ b → x ∉ s.handles → x ∉ (Gdi.addResource a resType b s).handles := by
    intro x hxb hx
    rw [hhandles, List.mem_cons, not_or]
    exact ⟨hxb, hx⟩
  exact
    { refs := by
        change s.refCount + 1 = ext + ((a :: s.live).length : ℤ)
        rw [h.refs, List.length_cons]
        push_cast
        ring
      nodup := List.nodup_cons.2 ⟨ha, h.nodup⟩
      types := by
        refine initResource_types (fun x hx hne => ?_) hty
        exact h.types x ((List.mem_cons.1 hx).resolve_left hne)
      selected := h.selected
      bitmaps := by
        have hperm : (b :: s.owned).Perm (Gdi.addResource a resType b s).owned := by
          unfold GdiRenderer.owned
          rw [hhandles]
          exact List.perm_middle.symm
        exact h.bitmaps.perm hperm
      wndDCs := h.wndDCs
      bound := by
        rw [hhandles]
        exact h.bound.imp_right (List.mem_cons_of_mem b)
      defTex := hnotin _ hfresh.2.2.symm h.defTex
      apart := ⟨hnotin _ (Ne.symm hout.1) h.apart.1, h.apart.2⟩
      fresh := fun _ hx => absurd hx List.not_mem_nil }

/-- exactly if Windows works, the bitmap of a resource that is deleted goes with it -/
theorem deleteResource_bitmaps (h : GdiInv ext [] s) (hext : 0 < ext) (c : DeleteCalls) (ha : a ∈ s.live) :
    (deleteResource c a s).2.bmps.Owns (deleteResource c a s).2.owned ↔ c.Work s s.texSel a := by
  have hperm : s.owned.Perm ((s.res a).resHandle :: (s.memBmp.toList ++ s.otherHandles a)) :=
    ((handles_perm ha).append_left _).trans List.perm_middle
  unfold deleteResource
  rw [internalDeleteResource_eq h hext c ha]
  exact (h.bitmaps.perm hperm).put_iff _

theorem GdiInv.deleteResource (h : GdiInv ext [] s) (hext : 0 < ext) {c : DeleteCalls} (ha : a ∈ s.live)
    (hc : c.Work s s.texSel a) : GdiInv ext [] (deleteResource c a s).2 := by
  have hbmps := (deleteResource_bitmaps h hext c ha).2 hc
  have hsub := otherHandles_subset ha
  unfold Gdi.deleteResource at hbmps ⊢
  rw [internalDeleteResource_eq h hext c ha] at hbmps ⊢
  exact
    { refs := by
        have hlen := List.length_erase_of_mem ha
        have hpos := List.length_pos_of_mem ha
        change s.refCount - 1 = ext + ((s.live.erase a).length : ℤ)
        rw [h.refs, hlen, Nat.cast_pred hpos]
        ring
      nodup := h.nodup.erase a
      types := fun x hx => h.types x (List.mem_of_mem_erase hx)
      selected := h.selected
      bitmaps := hbmps
      wndDCs := h.wndDCs
      bound := h.unbound ha hc rfl
      defTex := fun hin => h.defTex (hsub hin)
      apart := ⟨fun hin => h.apart.1 (hsub hin), h.apart.2⟩
      fresh := fun _ hx => absurd hx List.not_mem_nil }

/-! ## Whole calls -/

/-- a call that is right exactly if `works`; a failure changes no resource -/
structure CallSpec (ext : ℕ) (s : GdiRenderer) (errCode : NkErrorCode) (t : GdiRenderer) (works : Prop) : Prop where
  inv : works → GdiInv ext [] t
  unchanged : errCode ≠ .ok → t.res = s.res ∧ t.live = s.live
  needed : t.bmps.Owns t.owned → t.wndDCs.Owns [] → t.Selected → works

theorem CallSpec.kept_iff {errCode : NkErrorCode} {works : Prop} (h : CallSpec ext s errCode t works) :
    GdiKept ext s errCode t ∧ t.Selected ↔ works := by
  refine ⟨fun hkept => ?_, fun hworks => (h.inv hworks).kept h.unchanged⟩
  exact h.needed hkept.1.bitmaps hkept.1.wndDCs hkept.2

/-- the same call under an equivalent condition -/
theorem CallSpec.congr {errCode : NkErrorCode} {works works' : Prop} (h : CallSpec ext s errCode t works)
    (hiff : works ↔ works') : CallSpec ext s errCode t works' :=
  ⟨fun hw => h.inv (hiff.2 hw), h.unchanged, fun hb hd hs => hiff.1 (h.needed hb hd hs)⟩

/-- a call that did nothing -/
theorem GdiInv.idle (h : GdiInv ext [] s) (errCode : NkErrorCode) : CallSpec ext s errCode s True :=
  ⟨fun _ => h, fun _ => ⟨rfl, rfl⟩, fun _ _ _ => trivial⟩

theorem GdiInv.replaces (h : GdiInv ext [b] t) (hext : 0 < ext) (c : DeleteCalls) (ha : a ∈ t.live)
    (hty : resType ≠ .none) : CallSpec ext s .ok (Gdi.replaceResource c a resType b t) (c.Work t t.texSel a) :=
  ⟨h.replaceResource hext ha hty, fun hne => absurd rfl hne, fun hb _ _ => (replaceResource_bitmaps h hext c ha).1 hb⟩

theorem GdiInv.adds (h : GdiInv ext [b] t) (ha : a ∉ t.live) (hty : resType ≠ .none) :
    CallSpec ext s .ok (Gdi.addResource a resType b t) True :=
  ⟨fun _ => h.addResource ha hty, fun hne => absurd rfl hne, fun _ _ _ => trivial⟩

/-- a bitmap that is given up again -/
theorem GdiInv.abandons (h : GdiInv ext [b] (s.createBitmap b)) (errCode : NkErrorCode) (ok : Bool) :
    CallSpec ext s errCode ((s.createBitmap b).deleteObject ok b) (ok = true) := by
  refine ⟨fun hok => ?_, fun _ => ⟨rfl, rfl⟩, fun hb _ _ => (deleteObject_bitmaps h ok).1 hb⟩
  rw [hok]
  exact h.deleteObject

theorem createTexture_spec (h : GdiInv ext [] s) (hext : 0 < ext) {c : TextureCalls} {bmpHeight : ℤ} {resourcePtr : Option ℕ}
    (hl : (GdiOp.createTexture c bmpHeight resourcePtr).Legal s) :
    CallSpec ext s (createTexture c bmpHeight resourcePtr s).1 (createTexture c bmpHeight resourcePtr s).2.2
      ((GdiOp.createTexture c bmpHeight resourcePtr).Works s) := by
  obtain ⟨hfresh, hptr⟩ := hl
  unfold createTexture GdiOp.Works
  cases htex : c.ddTex with
  | none =>
    refine (h.idle _).congr ?_
    simp [htex]
  | some ddTex =>
    have hbmp := h.createBitmap (hfresh ddTex htex)
    by_cases hlines : c.cLinesCopied = bmpHeight
    · simp only [hlines, ne_eq, not_true_eq_false, if_false, true_and]
      cases resourcePtr with
      | some a =>
        refine (hbmp.replaces hext c.old hptr NkRendererResourceType.noConfusion).congr ?_
        simp [DeleteCalls.Work, GdiRenderer.createBitmap, htex]
      | none =>
        by_cases halloc : c.alloc.1 = .ok
        · simp only [appropriateResource, halloc, ne_eq, not_true_eq_false, if_false]
          refine (hbmp.adds (hptr halloc) NkRendererResourceType.noConfusion).congr ?_
          simp
        · simp only [appropriateResource, halloc, ne_eq, not_false_eq_true, if_true]
          refine (hbmp.abandons _ c.del).congr ?_
          simp [htex]
    · simp only [hlines, ne_eq, not_false_eq_true, if_true]
      refine (hbmp.abandons _ c.del).congr ?_
      simp [htex]

/-! ## Masks -/

theorem blitMask_memSel (c : MaskCalls) (resHandle monoBmp : ℕ) (s : GdiRenderer) :
    (blitMask c resHandle monoBmp s).memSel = if c.selMem ∧ ¬ c.restMem then monoBmp else s.memSel := by
  unfold blitMask selectObject
  cases c.selMem <;> cases c.restMem <;> rfl

theorem blitMask_texSel (c : MaskCalls) (resHandle monoBmp : ℕ) (s : GdiRenderer) :
    (blitMask c resHandle monoBmp s).texSel = if c.selTex ∧ ¬ c.restTex then resHandle else s.texSel := by
  unfold blitMask selectObject
  cases c.selTex <;> cases c.restTex <;> rfl

/-- if the back buffer is selected again, a blit changes at most what is bound -/
theorem GdiInv.blitMask (h : GdiInv ext [b] s) {c : MaskCalls} (ha : a ∈ s.live) (hc : c.selMem → c.restMem) :
    GdiInv ext [b] (blitMask c (s.res a).resHandle b s) := by
  have hmem : (Gdi.blitMask c (s.res a).resHandle b s).memSel = s.memSel := by
    rw [blitMask_memSel, if_neg]
    exact fun hall => hall.2 (hc hall.1)
  exact
    { h with
      selected := by
        rw [GdiRenderer.Selected, hmem]
        exact h.selected
      bound := by
        rw [blitMask_texSel]
        split_ifs
        · exact .inr (mem_handles ha)
        · exact h.bound
      apart := by
        rw [hmem]
        exact h.apart }

/-- a bitmap that no resource has after the call is lost -/
theorem GdiInv.loses (h : GdiInv ext [b] t) (hres : t.res = s.res) (hlive : t.live = s.live) (errCode : NkErrorCode) :
    CallSpec ext s errCode t False := by
  refine ⟨False.elim, fun _ => ⟨hres, hlive⟩, fun hb _ _ => ?_⟩
  have hlen := (h.bitmaps.unique hb).length_eq
  simp at hlen

theorem internalDeleteResource_mem (hty : (s.res a).resType ≠ .none) (hpos : 1 < s.refCount) (c : DeleteCalls) :
    (internalDeleteResource c a s).memSel = s.memSel ∧ (internalDeleteResource c a s).memBmp = s.memBmp := by
  have hlast : ¬ s.refCount - 1 ≤ 0 := by linarith
  rw [internalDeleteResource_of_type hty]
  split_ifs <;> simp [GdiRenderer.deleteObject, GdiRenderer.release, hlast]

/-- the mask is put in a resource -/
theorem createTextureMask_some {c : MaskCalls} (hmono : c.monoBmp = some b) (texPtr : ℕ) (resourcePtr : Option ℕ) :
    createTextureMask c texPtr resourcePtr s =
      let u := blitMask c (s.res texPtr).resHandle b (s.createBitmap b)
      match resourcePtr with
      | some a => (.ok, some a, replaceResource c.old a .textureMask b u)
      | none => if c.alloc.1 = .ok then (.ok, some c.alloc.2, addResource c.alloc.2 .textureMask b u)
        else (c.alloc.1, none, u) := by
  unfold createTextureMask
  rw [hmono]
  cases resourcePtr with
  | some a => rfl
  | none =>
    by_cases halloc : c.alloc.1 = .ok
    · simp only [appropriateResource, halloc, ne_eq, not_true_eq_false, if_false, if_true]
      rfl
    · simp only [appropriateResource, halloc, ne_eq, not_false_eq_true, if_true, if_false]

/-- a mask whose blit leaves it selected takes the place of the back buffer -/
theorem createTextureMask_unrestored (h : GdiInv ext [] s) (hext : 0 < ext) {c : MaskCalls} {texPtr : ℕ}
    {resourcePtr : Option ℕ} (hl : (GdiOp.createTextureMask c texPtr resourcePtr).Legal s) (hmono : c.monoBmp = some b)
    (hsel : c.selMem ∧ ¬ c.restMem) : ¬ (createTextureMask c texPtr resourcePtr s).2.2.Selected := by
  have hbmp := h.createBitmap (hl.1 b hmono)
  have hne := (hbmp.fresh_unselected (List.mem_singleton_self b)).1
  set u := blitMask c (s.res texPtr).resHandle b (s.createBitmap b) with hu
  have hmem : u.memSel = b := by rw [hu, blitMask_memSel, if_pos hsel]
  have hbuf : u.memBmp = some s.memSel := h.selected
  have hout : ∀ t : GdiRenderer, t.memSel = u.memSel → t.memBmp = u.memBmp → ¬ t.Selected := by
    intro t hts htb hsel
    rw [GdiRenderer.Selected, hts, htb, hmem, hbuf] at hsel
    exact hne (Option.some.inj hsel).symm
  rw [createTextureMask_some hmono]
  cases resourcePtr with
  | some a =>
    have hpos : 1 < u.refCount := by
      have hlen := List.length_pos_of_mem (show a ∈ s.live from hl.2.1)
      change 1 < s.refCount
      rw [h.refs]
      omega
    have hty : (u.res a).resType ≠ .none := h.types a hl.2.1
    obtain ⟨hts, htb⟩ := internalDeleteResource_mem hty hpos c.old
    exact hout _ hts htb
  | none =>
    dsimp only
    split_ifs
    · exact hout _ rfl rfl
    · exact hout _ rfl rfl

theorem createTextureMask_unchanged {c : MaskCalls} {texPtr : ℕ} {resourcePtr : Option ℕ}
    (hne : (createTextureMask c texPtr resourcePtr s).1 ≠ .ok) :
    (createTextureMask c texPtr resourcePtr s).2.2.res = s.res ∧
      (createTextureMask c texPtr resourcePtr s).2.2.live = s.live := by
  cases hmono : c.monoBmp with
  | none =>
    unfold createTextureMask
    rw [hmono]
    exact ⟨rfl, rfl⟩
  | some b =>
    rw [createTextureMask_some hmono] at hne ⊢
    cases resourcePtr with
    | some a => exact absurd rfl hne
    | none =>
      dsimp only at hne ⊢
      split_ifs at hne ⊢
      · exact absurd rfl hne
      · exact ⟨rfl, rfl⟩

theorem createTextureMask_spec (h : GdiInv ext [] s) (hext : 0 < ext) {c : MaskCalls} {texPtr : ℕ} {resourcePtr : Option ℕ}
    (hl : (GdiOp.createTextureMask c texPtr resourcePtr).Legal s) :
    CallSpec ext s (createTextureMask c texPtr resourcePtr s).1 (createTextureMask c texPtr resourcePtr s).2.2
      ((GdiOp.createTextureMask c texPtr resourcePtr).Works s) := by
  have hlost := fun b hmono hsel => @createTextureMask_unrestored s ext b h hext c texPtr resourcePtr hl hmono hsel
  obtain ⟨hfresh, hptr, htex, -⟩ := hl
  unfold GdiOp.Works
  cases hmono : c.monoBmp with
  | none =>
    unfold createTextureMask
    rw [hmono]
    refine (h.idle _).congr ?_
    simp [hmono]
  | some b =>
    have hbmp := h.createBitmap (hfresh b hmono)
    by_cases hsel : c.selMem → c.restMem
    · have hblit : GdiInv ext [b] (blitMask c (s.res texPtr).resHandle b (s.createBitmap b)) := hbmp.blitMask htex hsel
      rw [createTextureMask_some hmono]
      cases resourcePtr with
      | some a =>
        refine (hblit.replaces hext c.old hptr NkRendererResourceType.noConfusion).congr ?_
        rw [blitMask_texSel]
        simp [hmono, eq_true hsel, DeleteCalls.Work, MaskCalls.texSel, GdiRenderer.createBitmap, blitMask]
      | none =>
        by_cases halloc : c.alloc.1 = .ok
        · simp only [halloc, if_true]
          refine (hblit.adds (hptr halloc) NkRendererResourceType.noConfusion).congr ?_
          simp [eq_true hsel]
        · simp only [halloc, if_false]
          refine (@GdiInv.loses s _ ext b hblit rfl rfl _).congr ?_
          simp [hmono]
    · have hopen : c.selMem ∧ ¬ c.restMem := Classical.not_imp.1 hsel
      refine ⟨fun hworks => ?_, createTextureMask_unchanged, fun _ _ hback => absurd hback (hlost b hmono hopen)⟩
      exact absurd (hworks (hmono.trans_ne (Option.some_ne_none b))).2.1 hsel

theorem deleteResource_spec (h : GdiInv ext [] s) (hext : 0 < ext) {c : DeleteCalls} (ha : a ∈ s.live) :
    CallSpec ext s (deleteResource c a s).1 (deleteResource c a s).2 ((GdiOp.deleteResource c a).Works s) :=
  ⟨h.deleteResource hext ha, fun hne => absurd rfl hne, fun hb _ _ => (deleteResource_bitmaps h hext c ha).1 hb⟩

/-! ## The back buffer -/

theorem dropBackBuffer_eq (h : GdiInv ext [] s) (c : ResizeCalls) :
    dropBackBuffer c s = { s with
      memSel := if c.selOld then s.oldBmp else s.memSel
      bmps := if c.selOld ∧ c.del then s.bmps.put s.memSel else s.bmps } := by
  have hbuf : s.memBmp = some s.memSel := h.selected
  have hold := h.apart.2.1
  have htex := h.memSel_ne_texSel
  unfold dropBackBuffer
  cases hsel : c.selOld <;> simp [selectObject, GdiRenderer.deleteObject, hbuf, hold, htex]

theorem resize_none (h : GdiInv ext [] s) {c : ResizeCalls} (hbmp : c.memBmp = none) (clAreaSize : NkSize2D) :
    CallSpec ext s (resize c clAreaSize s).1 (resize c clAreaSize s).2 ((GdiOp.resize c clAreaSize).Works s) := by
  unfold resize
  rw [hbmp, dropBackBuffer_eq h]
  refine ⟨fun hw => absurd hbmp hw.2.2.1, fun _ => ⟨rfl, rfl⟩, fun _ _ hback => ?_⟩
  exact absurd hback.symm (Option.some_ne_none _)

theorem resize_bitmaps (h : GdiInv ext [] s) {c : ResizeCalls} (hbmp : c.memBmp = some b) (clAreaSize : NkSize2D) :
    (resize c clAreaSize s).2.bmps.Owns (resize c clAreaSize s).2.owned ↔ c.selOld ∧ c.del := by
  have hown : s.bmps.Owns (s.memSel :: s.handles) := by
    rw [← h.owned_eq]
    exact h.bitmaps
  unfold resize
  rw [hbmp, dropBackBuffer_eq h]
  exact Ledger.owns_get.trans (hown.put_iff _)

theorem resize_wndDCs (h : GdiInv ext [] s) {c : ResizeCalls} (hbmp : c.memBmp = some b) (clAreaSize : NkSize2D) :
    (resize c clAreaSize s).2.wndDCs.Owns [] ↔ (c.wndDC ≠ none → c.relDC) := by
  unfold resize
  rw [hbmp, dropBackBuffer_eq h]
  cases hdc : c.wndDC with
  | none => exact iff_of_true h.wndDCs fun hne => absurd rfl hne
  | some d => exact ((h.wndDCs.get d).put_iff _).trans ⟨fun hr _ => hr, fun hr => hr (Option.some_ne_none d)⟩

theorem resize_selected (h : GdiInv ext [] s) {c : ResizeCalls} (hbmp : c.memBmp = some b) (hb : s.Fresh b)
    (clAreaSize : NkSize2D) : (resize c clAreaSize s).2.Selected ↔ c.selNew := by
  have hmem : b ≠ s.memSel := by
    intro heq
    refine hb.1 ?_
    rw [h.owned_eq, heq]
    exact List.mem_cons_self
  unfold resize
  rw [hbmp, dropBackBuffer_eq h]
  cases hnew : c.selNew with
  | true => simp [GdiRenderer.Selected, GdiRenderer.createBitmap, selectObject]
  | false =>
    cases hold : c.selOld <;> simp [GdiRenderer.Selected, GdiRenderer.createBitmap, selectObject, hmem, hb.2.1]

theorem resize_some (h : GdiInv ext [] s) {c : ResizeCalls} (hbmp : c.memBmp = some b) (hb : s.Fresh b)
    (clAreaSize : NkSize2D) :
    CallSpec ext s (resize c clAreaSize s).1 (resize c clAreaSize s).2 ((GdiOp.resize c clAreaSize).Works s) := by
  have hbitmaps := resize_bitmaps h hbmp clAreaSize
  have hdcs := resize_wndDCs h hbmp clAreaSize
  have hselected := resize_selected h hbmp hb clAreaSize
  -- nothing else than the back buffer is changed
  have hsame : (resize c clAreaSize s).1 = .ok ∧ (resize c clAreaSize s).2.refCount = s.refCount ∧
      (resize c clAreaSize s).2.live = s.live ∧ (resize c clAreaSize s).2.res = s.res ∧
      (resize c clAreaSize s).2.texSel = s.texSel ∧ (resize c clAreaSize s).2.defTexBmp = s.defTexBmp ∧
      (resize c clAreaSize s).2.oldBmp = s.oldBmp ∧ (resize c clAreaSize s).2.memBmp = some b := by
    unfold resize
    rw [hbmp, dropBackBuffer_eq h]
    exact ⟨rfl, rfl, rfl, rfl, rfl, rfl, rfl, rfl⟩
  generalize resize c clAreaSize s = r at hbitmaps hdcs hselected hsame ⊢
  obtain ⟨hok, hrefs, hlive, hres, htex, hdef, hold, hbuf⟩ := hsame
  have hhandles : r.2.handles = s.handles := by rw [GdiRenderer.handles, hlive, hres, GdiRenderer.handles]
  refine ⟨fun hw => ?_, fun hne => absurd hok hne, fun howns hgave hback => ?_⟩
  · have hback := hselected.2 hw.2.2.2.1
    have hmem : r.2.memSel = b := Option.some.inj (hback.symm.trans hbuf)
    have hout : b ∉ s.handles := by
      intro hin
      exact hb.1 (List.mem_append_right _ hin)
    exact
      { refs := by rw [hrefs, hlive, h.refs]
        nodup := by rw [hlive]; exact h.nodup
        types := by rw [hlive, hres]; exact h.types
        selected := hback
        bitmaps := hbitmaps.2 ⟨hw.1, hw.2.1⟩
        wndDCs := hdcs.2 hw.2.2.2.2
        bound := by rw [htex, hdef, hhandles]; exact h.bound
        defTex := by rw [hdef, hhandles]; exact h.defTex
        apart := by rw [hmem, hhandles, hold, hdef]; exact ⟨hout, hb.2⟩
        fresh := fun _ hx => absurd hx List.not_mem_nil }
  · obtain ⟨hsel, hdel⟩ := hbitmaps.1 howns
    exact ⟨hsel, hdel, hbmp.trans_ne (Option.some_ne_none b), hselected.1 hback, hdcs.1 hgave⟩

/-! ## Whole runs -/

theorem gdiStep_spec (hext : 0 < ext) {o : GdiOp} {errCode : NkErrorCode} (h : GdiInv ext [] s)
    (hs : gdiStep s o = some (errCode, t)) : CallSpec ext s errCode t (o.Works s) := by
  unfold gdiStep at hs
  split_ifs at hs with hl
  have happly : o.apply s = (errCode, t) := Option.some.inj hs
  cases o with
  | createTexture c bmpHeight resourcePtr =>
    cases happly
    exact createTexture_spec h hext hl
  | createTextureMask c texPtr resourcePtr =>
    cases happly
    exact createTextureMask_spec h hext hl
  | deleteResource c a =>
    have hspec := @deleteResource_spec s ext a h hext c hl
    rw [show deleteResource c a s = (errCode, t) from happly] at hspec
    exact hspec
  | resize c clAreaSize =>
    have hspec : CallSpec ext s (resize c clAreaSize s).1 (resize c clAreaSize s).2 ((GdiOp.resize c clAreaSize).Works s) := by
      cases hbmp : c.memBmp with
      | none => exact resize_none h hbmp clAreaSize
      | some b => exact resize_some h hbmp (hl b hbmp) clAreaSize
    rw [show resize c clAreaSize s = (errCode, t) from happly] at hspec
    exact hspec

/-- in a run on a renderer that others hold a reference on, every call does what it owes and leaves the back buffer selected
exactly when `Works` holds of every call -/
theorem gdi_run_iff (ext : ℕ) (hext : 0 < ext) (s : GdiRenderer) (ops : List GdiOp) (h : GdiInv ext [] s) :
    EachStep gdiStep (fun s _ errCode t => GdiKept ext s errCode t ∧ t.Selected) s ops ↔
      EachStep gdiStep (fun s o _ _ => o.Works s) s ops := by
  refine eachStep_iff ?_ ?_ h ops
  · intro s o errCode t hinv hs
    exact (gdiStep_spec hext hinv hs).kept_iff
  · intro s o errCode t hinv hs hkept
    have hspec := gdiStep_spec hext hinv hs
    exact hspec.inv (hspec.kept_iff.1 hkept)

/-- a renderer after `Initialize`: bitmap 3 is the back buffer, 1 and 2 came with the device contexts -/
def initialized : GdiRenderer where
  refCount := 1
  vpAlignment := 0
  vpExtents := ⟨32, 24⟩
  dispTileSize := ⟨16, 16⟩
  memBmp := some 3
  oldBmp := 1
  defTexBmp := 2
  bbDim := ⟨800, 600⟩
  vpOri := calculateViewportOrigin 0 ⟨32, 24⟩ ⟨16, 16⟩ ⟨800, 600⟩
  memSel := 3
  texSel := 2
  res := fun _ => ⟨.none, 0, 0⟩
  live := []
  bmps := Ledger.new.get 3
  wndDCs := Ledger.new

theorem initialized_inv : GdiInv 1 [] initialized where
  refs := rfl
  nodup := List.nodup_nil
  types := fun _ hx => absurd hx List.not_mem_nil
  selected := rfl
  bitmaps := Ledger.owns_new.get 3
  wndDCs := Ledger.owns_new
  bound := .inl rfl
  defTex := List.not_mem_nil
  apart := by decide
  fresh := fun _ hx => absurd hx List.not_mem_nil

/-- a texture, its mask, a texture in the same place, a texture that fails and a new size -/
theorem gdi_run_textures :
    EachStep gdiStep (fun s _ errCode t => GdiKept 1 s errCode t ∧ t.Selected) initialized
      [.createTexture ⟨some 4, 8, true, (.ok, 10), ⟨true, true⟩⟩ 8 none,
        .createTextureMask ⟨some 5, true, true, true, true, (.ok, 11), ⟨true, true⟩⟩ 10 none,
        .createTexture ⟨some 6, 8, true, (.ok, 12), ⟨true, true⟩⟩ 8 (some 10),
        .createTexture ⟨some 7, 3, true, (.ok, 12), ⟨true, true⟩⟩ 8 none,
        .resize ⟨true, true, some 20, some 7, true, true⟩ ⟨640, 480⟩] := by
  refine (gdi_run_iff 1 Nat.one_pos _ _ initialized_inv).2 ?_
  refine EachStep.cons rfl (by simp [GdiOp.Works]) ?_
  refine EachStep.cons rfl (by simp [GdiOp.Works]) ?_
  refine EachStep.cons rfl (by simp [GdiOp.Works, DeleteCalls.Work]) ?_
  refine EachStep.cons rfl (by simp [GdiOp.Works]) ?_
  exact EachStep.cons rfl (by simp [GdiOp.Works]) trivial

/-- if there is no bitmap for the new size, the renderer has no back buffer and the window's device context is kept -/
theorem resize_loses_back_buffer :
    ¬ EachStep gdiStep (fun s _ errCode t => GdiKept 1 s errCode t) initialized
      [.resize ⟨true, true, some 20, none, true, true⟩ ⟨640, 480⟩] := by
  intro h
  have hkept := (h _ _ rfl).1
  have hback : none = some 1 := hkept.backBuffer NkErrorCode.noConfusion
  exact Option.some_ne_none 1 hback.symm

end Noriko.Gdi
