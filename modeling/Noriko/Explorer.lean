/-
The model of the project explorer (`ExplorerItem` and `ExplorerModel` of `explorer.cpp`).

An item has pointers to its children and one to its parent. Views have rows and pointers to items, and get from one to the
other by `index` and `parent`, which look for an item among the children of its parent. An allocator picks the address of a
new item; it is one that no item of the tree has.

`insertRows` is made for one row only, but the check of the number of rows lacks its `return`. It announces all rows and puts
in one. So the tree model is right after every run, as long as no item has more rows than an `int` can count, and a call of
`insertRows` does what it says exactly if it is for one row (`tree_model`).
-/
import Noriko.Lib.LinkedTree
import Noriko.Lib.Run

namespace Noriko.Explorer

open Lib

/-! ## The code -/

/-- the address of an item -/
abbrev Ptr := ℕ

/-- `ExplorerItem::Type` -/
inductive ItemType where
  | generic | session | project | filter
deriving DecidableEq, Repr

structure ExplorerItem where
  itemType : ItemType
  childItems : List Ptr
  parentItem : Option Ptr
deriving DecidableEq, Repr

/-- the items in memory, and the root -/
structure ExplorerModel where
  item : Ptr → ExplorerItem
  rootItem : Ptr

/-- an index of this model -/
structure QModelIndex where
  row : Int32
  column : Int32
  internalPointer : Option Ptr
deriving DecidableEq, Repr

/-- `QModelIndex{}` -/
def QModelIndex.invalid : QModelIndex := ⟨-1, -1, none⟩

def QModelIndex.isValid (i : QModelIndex) : Prop := 0 ≤ i.row ∧ 0 ≤ i.column

instance (i : QModelIndex) : Decidable i.isValid := inferInstanceAs (Decidable (_ ∧ _))

def createIndex (row column : Int32) (ptr : Ptr) : QModelIndex := ⟨row, column, some ptr⟩

def ExplorerItem.getChildCount (x : ExplorerItem) : ℕ := x.childItems.length

def ExplorerItem.getChildAt (x : ExplorerItem) (rowPos : Int32) : Option Ptr :=
  if rowPos < 0 ∨ rowPos.toInt ≥ x.childItems.length then none else x.childItems[rowPos.toInt.toNat]?

section Model

variable (s : ExplorerModel)

/-- `x->getItemRow()`; the number of children if `x` is not found -/
def getItemRow (x : Ptr) : Int32 :=
  match (s.item x).parentItem with
  | none => 0
  | some p => Int32.ofNat ((s.item p).childItems.idxOf x)

def getItemPointer (modelIndex : QModelIndex) : Ptr :=
  if modelIndex.isValid then modelIndex.internalPointer.getD s.rootItem else s.rootItem

def index (rowPos colPos : Int32) (parIndex : QModelIndex) : QModelIndex :=
  if parIndex.isValid ∧ parIndex.column ≠ 0 then .invalid
  else
    match (s.item (getItemPointer s parIndex)).getChildAt rowPos with
    | some childItem => createIndex rowPos colPos childItem
    | none => .invalid

def parent (childIndex : QModelIndex) : QModelIndex :=
  if ¬childIndex.isValid then .invalid
  else
    match (s.item (getItemPointer s childIndex)).parentItem with
    | some parentItem =>
      if parentItem ≠ s.rootItem then createIndex (getItemRow s parentItem) 0 parentItem else .invalid
    | none => .invalid

def rowCount (parIndex : QModelIndex) : Int32 :=
  if parIndex.isValid ∧ parIndex.column > 0 then 0
  else Int32.ofNat (s.item (getItemPointer s parIndex)).getChildCount

def columnCount (_parIndex : QModelIndex) : Int32 := 1

def setItem (x : Ptr) (it : ExplorerItem) : ExplorerModel := { s with item := Function.update s.item x it }

/-- `x->insertChildItem(where2Insert, childItem)` -/
def insertChildItem (x : Ptr) (where2Insert : Int32) (childItem : Ptr) : ExplorerModel :=
  setItem s x { s.item x with childItems := (s.item x).childItems.insertIdx where2Insert.toInt.toNat childItem }

/-- `x->removeChildItem(where2Remove)` -/
def removeChildItem (x : Ptr) (where2Remove : Int32) : ExplorerModel :=
  setItem s x { s.item x with childItems := (s.item x).childItems.eraseIdx where2Remove.toInt.toNat }

/-- the return value of `insertRows`, the rows that are announced, and the tree after the call -/
structure Inserted where
  ret : Bool
  announced : Option (Int32 × Int32)
  model : ExplorerModel

/-- `insertRows`, with the address of the new item -/
def insertRows (newItem : Ptr) (where2Insert numOfRows : Int32) (parIndex : QModelIndex) : Inserted :=
  let itemPtr := getItemPointer s parIndex
  -- `if (itemPtr == nullptr || numOfRows > 1) false;` has no effect
  { ret := true
    announced := some (where2Insert, where2Insert + numOfRows - 1)
    model := insertChildItem (setItem s newItem ⟨.generic, [], some itemPtr⟩) itemPtr where2Insert newItem }

end Model

/-- the tree that the constructor makes; the items are numbered as there, from the root on -/
def initialModel : ExplorerModel where
  item
    | 0 => ⟨.generic, [1], none⟩
    | 1 => ⟨.filter, [2, 5, 6], some 0⟩
    | 2 => ⟨.filter, [3, 4], some 1⟩
    | 3 => ⟨.filter, [], some 2⟩
    | 4 => ⟨.filter, [], some 2⟩
    | 5 => ⟨.filter, [], some 1⟩
    | 6 => ⟨.filter, [], some 1⟩
    | _ => ⟨.generic, [], none⟩
  rootItem := 0

/-! ## Runs -/

/-- the links of the items -/
def links (s : ExplorerModel) : Links Ptr where
  root := s.rootItem
  children x := (s.item x).childItems
  parent x := (s.item x).parentItem

def InTree (s : ExplorerModel) (x : Ptr) : Prop := (links s).InTree x

/-- the indices that one gets from the model: that of the root, those of rows and columns, and those of parents -/
inductive Obtained (s : ExplorerModel) : QModelIndex → Prop
  | root : Obtained s .invalid
  | index {p : QModelIndex} {r c : Int32} : Obtained s p → 0 ≤ c → c < columnCount p → Obtained s (index s r c p)
  | parent {i : QModelIndex} : Obtained s i → Obtained s (parent s i)

inductive Op where
  | insertRows (newItem : Ptr) (where2Insert numOfRows : Int32) (parIndex : QModelIndex)
  | removeChildItem (x : Ptr) (where2Remove : Int32)

def step (s : ExplorerModel) : Op → Option ExplorerModel
  | .insertRows newItem where2Insert numOfRows parIndex => some (insertRows s newItem where2Insert numOfRows parIndex).model
  | .removeChildItem x where2Remove => some (removeChildItem s x where2Remove)

/-- what `insertRows` may be called with -/
structure InsertArgs (s : ExplorerModel) (newItem : Ptr) (where2Insert : Int32) (parIndex : QModelIndex) : Prop where
  fresh : ¬InTree s newItem
  obtained : Obtained s parIndex
  nonneg : 0 ≤ where2Insert
  le : where2Insert ≤ rowCount s parIndex

/-- rows are added anywhere, and items of the tree are removed with all that is below them -/
def Allowed (s : ExplorerModel) : Op → Prop
  | .insertRows newItem where2Insert _ parIndex => InsertArgs s newItem where2Insert parIndex
  | .removeChildItem x where2Remove =>
    InTree s x ∧ 0 ≤ where2Remove ∧ where2Remove.toInt < (s.item x).childItems.length

/-! ## What is right -/

structure TreeModel (s : ExplorerModel) : Prop where
  parent_index : ∀ p r, Obtained s p → (index s r 0 p).isValid → parent s (index s r 0 p) = p
  index_parent : ∀ i, Obtained s i → index s i.row 0 (parent s i) = i
  rowCount : ∀ p, Obtained s p → ({r : Int32 | (index s r 0 p).isValid}.ncard : ℤ) = (rowCount s p).toInt

/-- there are `n` new items at row `w` of `x`, and nothing else is different -/
structure Added (s : ExplorerModel) (x : Ptr) (w : ℕ) (n : ℤ) (s' : ExplorerModel) : Prop where
  rootItem : s'.rootItem = s.rootItem
  itemType : (s'.item x).itemType = (s.item x).itemType
  parentItem : (s'.item x).parentItem = (s.item x).parentItem
  rows : ∃ new : List Ptr, (new.length : ℤ) = n ∧ new.Nodup ∧
    (s'.item x).childItems = (s.item x).childItems.take w ++ new ++ (s.item x).childItems.drop w ∧
    ∀ y ∈ new, ¬InTree s y ∧ s'.item y = ⟨.generic, [], some x⟩
  kept : ∀ y, InTree s y → y ≠ x → s'.item y = s.item y

/-- nothing is done and `false` returned, or the rows are added that have been announced -/
def InsertExact (s : ExplorerModel) (where2Insert numOfRows : Int32) (parIndex : QModelIndex) (r : Inserted) : Prop :=
  r.ret = false ∧ r.announced = none ∧ r.model = s ∨
    r.ret = true ∧ r.announced = some (where2Insert, where2Insert + numOfRows - 1) ∧
      Added s (getItemPointer s parIndex) where2Insert.toInt.toNat numOfRows.toInt r.model

/-! ## Rows -/

section Rows

variable {s : ExplorerModel} {x y : Ptr} {p : QModelIndex} {r : Int32}

theorem getChildAt_eq_some {it : ExplorerItem} :
    it.getChildAt r = some y ↔ 0 ≤ r.toInt ∧ it.childItems[r.toInt.toNat]? = some y := by
  unfold ExplorerItem.getChildAt
  have hneg : r < 0 ↔ r.toInt < 0 := Int32.lt_iff_toInt_lt
  simp only [hneg]
  split_ifs with hout
  · constructor
    · intro h
      cases h
    · rintro ⟨h0, hy⟩
      obtain ⟨hlt, -⟩ := List.getElem?_eq_some_iff.1 hy
      omega
  · have h0 : 0 ≤ r.toInt := by omega
    simp [h0]

theorem getChildAt_mem {it : ExplorerItem} (h : it.getChildAt r = some y) : y ∈ it.childItems :=
  List.mem_of_getElem? (getChildAt_eq_some.1 h).2

/-- a position that an `int` can have is a row -/
theorem toInt_ofNat {k : ℕ} (hk : k < 2 ^ 31) : (Int32.ofNat k).toInt = k := Int32.toInt_ofNat_of_lt hk

theorem ofNat_toInt_toNat (h0 : 0 ≤ r.toInt) : Int32.ofNat r.toInt.toNat = r := by
  have hlt := r.toInt_lt
  apply Int32.toInt.inj
  rw [toInt_ofNat (by omega)]
  omega

theorem isValid_createIndex (h0 : 0 ≤ r.toInt) (y : Ptr) : (createIndex r 0 y).isValid :=
  ⟨Int32.le_iff_toInt_le.2 h0, Int32.le_refl 0⟩

theorem getItemPointer_createIndex (h0 : 0 ≤ r.toInt) (y : Ptr) : getItemPointer s (createIndex r 0 y) = y :=
  if_pos (isValid_createIndex h0 y)

theorem not_isValid_invalid : ¬QModelIndex.invalid.isValid := by decide

theorem getItemPointer_invalid : getItemPointer s .invalid = s.rootItem := if_neg not_isValid_invalid

/-- the children of an item below the first 2³¹ have rows -/
theorem ncard_rows (n : ℕ) : {r : Int32 | 0 ≤ r.toInt ∧ r.toInt < n}.ncard = min n (2 ^ 31) := by
  have himage : {r : Int32 | 0 ≤ r.toInt ∧ r.toInt < n} = Int32.ofNat '' (Finset.range (min n (2 ^ 31)) : Set ℕ) := by
    apply Set.ext
    intro r
    have hlt := r.toInt_lt
    simp only [Set.mem_ofPred_eq, Set.mem_image, Finset.coe_range, Set.mem_Iio, lt_min_iff]
    constructor
    · rintro ⟨h0, hn⟩
      exact ⟨r.toInt.toNat, by omega, ofNat_toInt_toNat h0⟩
    · rintro ⟨k, ⟨hn, hk⟩, rfl⟩
      rw [toInt_ofNat hk]
      omega
  have hinj : Set.InjOn Int32.ofNat (Finset.range (min n (2 ^ 31)) : Set ℕ) := by
    intro k hk l hl heq
    rw [Finset.coe_range, Set.mem_Iio, lt_min_iff] at hk hl
    have hint := congrArg Int32.toInt heq
    rw [toInt_ofNat hk.2, toInt_ofNat hl.2] at hint
    exact_mod_cast hint
  rw [himage, hinj.ncard_image, Set.ncard_coe_finset, Finset.card_range]

end Rows

/-! ## The invariant -/

/-- the links of the tree agree, and every position is a row -/
structure ExplorerInv (s : ExplorerModel) : Prop where
  wellLinked : (links s).WellLinked
  fits : ∀ x, InTree s x → (s.item x).childItems.length ≤ 2 ^ 31

section Inv

variable {s : ExplorerModel} {x y : Ptr} {p i : QModelIndex} {r : Int32}

theorem inTree_root : InTree s s.rootItem := Links.inTree_root (links s)

theorem InTree.child (hx : InTree s x) (hy : y ∈ (s.item x).childItems) : InTree s y := Links.InTree.child hx hy

theorem parentItem_of_mem (h : ExplorerInv s) (hx : InTree s x) (hy : y ∈ (s.item x).childItems) :
    (s.item y).parentItem = some x := h.wellLinked.parent x y hx hy

/-- the search among the children finds the row of an item -/
theorem getItemRow_eq (h : ExplorerInv s) (hx : InTree s x) (hy : (s.item x).getChildAt r = some y) :
    getItemRow s y = r := by
  obtain ⟨h0, hget⟩ := getChildAt_eq_some.1 hy
  obtain ⟨hlt, rfl⟩ := List.getElem?_eq_some_iff.1 hget
  have hnodup : (s.item x).childItems.Nodup := h.wellLinked.nodup x hx
  rw [getItemRow, parentItem_of_mem h hx (getChildAt_mem hy)]
  dsimp only
  rw [hnodup.idxOf_getElem, ofNat_toInt_toNat h0]

/-- an item of the tree other than the root is in a row of its parent -/
theorem exists_row (h : ExplorerInv s) (hy : InTree s y) (hroot : y ≠ s.rootItem) :
    ∃ x, InTree s x ∧ (s.item x).getChildAt (getItemRow s y) = some y := by
  obtain ⟨x, hx, hmem⟩ := (Links.InTree.eq_root_or_child hy).resolve_left hroot
  have hlt : (s.item x).childItems.idxOf y < (s.item x).childItems.length := List.idxOf_lt_length_of_mem hmem
  have hfits := h.fits x hx
  refine ⟨x, hx, getChildAt_eq_some.2 ?_⟩
  rw [getItemRow, parentItem_of_mem h hx hmem]
  dsimp only
  rw [toInt_ofNat (by omega), Int.toNat_natCast, List.getElem?_eq_getElem hlt, List.getElem_idxOf hlt]
  exact ⟨Int.natCast_nonneg _, rfl⟩

/-- an index with an item of the tree, at the row that it has in its parent -/
def AtRow (s : ExplorerModel) (i : QModelIndex) : Prop :=
  ∃ x r y, InTree s x ∧ (s.item x).getChildAt r = some y ∧ i = createIndex r 0 y

theorem inTree_getItemPointer (hp : p = .invalid ∨ AtRow s p) : InTree s (getItemPointer s p) := by
  rcases hp with rfl | ⟨x, r, y, hx, hy, rfl⟩
  · rw [getItemPointer_invalid]
    exact inTree_root
  · rw [getItemPointer_createIndex (getChildAt_eq_some.1 hy).1]
    exact hx.child (getChildAt_mem hy)

theorem index_some (hp : p = .invalid ∨ AtRow s p) (hy : (s.item (getItemPointer s p)).getChildAt r = some y) :
    index s r 0 p = createIndex r 0 y := by
  have hcol : ¬(p.isValid ∧ p.column ≠ 0) := by
    rcases hp with rfl | ⟨x, r, y, -, -, rfl⟩
    · exact fun h => not_isValid_invalid h.1
    · exact fun h => h.2 rfl
  rw [index, if_neg hcol, hy]

theorem index_none (hy : (s.item (getItemPointer s p)).getChildAt r = none) : index s r 0 p = .invalid := by
  unfold index
  rw [hy, ite_self]

theorem parent_createIndex (hx : InTree s x) (hy : (s.item x).getChildAt r = some y) (h : ExplorerInv s) :
    parent s (createIndex r 0 y) = if x ≠ s.rootItem then createIndex (getItemRow s x) 0 x else .invalid := by
  have h0 := (getChildAt_eq_some.1 hy).1
  rw [parent, if_neg (not_not.2 (isValid_createIndex h0 y)), getItemPointer_createIndex h0,
    parentItem_of_mem h hx (getChildAt_mem hy)]

theorem parent_invalid : parent s .invalid = .invalid := if_pos not_isValid_invalid

/-- what one gets from the model -/
theorem obtained_cases (h : ExplorerInv s) (hi : Obtained s i) : i = .invalid ∨ AtRow s i := by
  induction hi with
  | root => exact Or.inl rfl
  | @index p r c hp hc0 hc1 ih =>
    have hc : c = 0 := by
      have hlo : 0 ≤ c.toInt := Int32.le_iff_toInt_le.1 hc0
      have hhi : c.toInt < 1 := Int32.lt_iff_toInt_lt.1 hc1
      exact Int32.toInt.inj (by omega : c.toInt = 0)
    subst hc
    cases hy : (s.item (getItemPointer s p)).getChildAt r with
    | none => exact Or.inl (index_none hy)
    | some y => exact Or.inr ⟨_, r, y, inTree_getItemPointer ih, hy, index_some ih hy⟩
  | @parent i hi ih =>
    rcases ih with rfl | ⟨x, r, y, hx, hy, rfl⟩
    · exact Or.inl parent_invalid
    · rw [parent_createIndex hx hy h]
      split_ifs with hroot
      · obtain ⟨z, hz, hrow⟩ := exists_row h hx hroot
        exact Or.inr ⟨z, _, x, hz, hrow, rfl⟩
      · exact Or.inl rfl

theorem isValid_index (hp : p = .invalid ∨ AtRow s p) :
    (index s r 0 p).isValid ↔ 0 ≤ r.toInt ∧ r.toInt < (s.item (getItemPointer s p)).childItems.length := by
  cases hy : (s.item (getItemPointer s p)).getChildAt r with
  | none =>
    rw [index_none hy]
    refine iff_of_false not_isValid_invalid fun hr => ?_
    have hlt : r.toInt.toNat < (s.item (getItemPointer s p)).childItems.length := by omega
    have hsome := getChildAt_eq_some.2 ⟨hr.1, List.getElem?_eq_getElem hlt⟩
    rw [hy] at hsome
    cases hsome
  | some y =>
    obtain ⟨h0, hget⟩ := getChildAt_eq_some.1 hy
    obtain ⟨hlt, -⟩ := List.getElem?_eq_some_iff.1 hget
    rw [index_some hp hy]
    exact iff_of_true (isValid_createIndex h0 y) ⟨h0, by omega⟩

/-- the pointer and the row of an index fit -/
theorem createIndex_getItemPointer (h : ExplorerInv s) (hp : p = .invalid ∨ AtRow s p) :
    (if getItemPointer s p ≠ s.rootItem then createIndex (getItemRow s (getItemPointer s p)) 0 (getItemPointer s p)
      else .invalid) = p := by
  rcases hp with rfl | ⟨x, r, y, hx, hy, rfl⟩
  · rw [getItemPointer_invalid, if_neg (not_not.2 rfl)]
  · have hroot : y ≠ s.rootItem := h.wellLinked.ne_root hx (getChildAt_mem hy)
    rw [getItemPointer_createIndex (getChildAt_eq_some.1 hy).1, if_pos hroot, getItemRow_eq h hx hy]

theorem parent_index (h : ExplorerInv s) (hp : p = .invalid ∨ AtRow s p) (hvalid : (index s r 0 p).isValid) :
    parent s (index s r 0 p) = p := by
  cases hy : (s.item (getItemPointer s p)).getChildAt r with
  | none =>
    rw [index_none hy] at hvalid
    exact absurd hvalid not_isValid_invalid
  | some y => rw [index_some hp hy, parent_createIndex (inTree_getItemPointer hp) hy h, createIndex_getItemPointer h hp]

theorem index_parent (h : ExplorerInv s) (hi : i = .invalid ∨ AtRow s i) : index s i.row 0 (parent s i) = i := by
  rcases hi with rfl | ⟨x, r, y, hx, hy, rfl⟩
  · rw [parent_invalid]
    exact index_none (if_pos (Or.inl (by decide)))
  · have hp : parent s (createIndex r 0 y) = .invalid ∧ x = s.rootItem ∨
        AtRow s (parent s (createIndex r 0 y)) ∧ getItemPointer s (parent s (createIndex r 0 y)) = x := by
      rw [parent_createIndex hx hy h]
      split_ifs with hroot
      · obtain ⟨z, hz, hrow⟩ := exists_row h hx hroot
        exact Or.inr ⟨⟨z, _, x, hz, hrow, rfl⟩, getItemPointer_createIndex (getChildAt_eq_some.1 hrow).1 x⟩
      · exact Or.inl ⟨rfl, not_not.1 hroot⟩
    rcases hp with ⟨hp, rfl⟩ | ⟨hp, hptr⟩
    · rw [hp]
      exact index_some (Or.inl rfl) (getItemPointer_invalid.symm ▸ hy)
    · exact index_some (Or.inr hp) (hptr.symm ▸ hy)

theorem rowCount_eq (hp : p = .invalid ∨ AtRow s p) :
    rowCount s p = Int32.ofNat (s.item (getItemPointer s p)).childItems.length := by
  refine if_neg ?_
  rcases hp with rfl | ⟨x, r, y, -, -, rfl⟩
  · exact fun h => not_isValid_invalid h.1
  · exact fun h => Int32.lt_irrefl h.2

/-- the number of rows is right as long as it is an `int` -/
theorem rowCount_iff (hp : p = .invalid ∨ AtRow s p) :
    ({r : Int32 | (index s r 0 p).isValid}.ncard : ℤ) = (rowCount s p).toInt ↔
      (s.item (getItemPointer s p)).childItems.length < 2 ^ 31 := by
  have hlt := (rowCount s p).toInt_lt
  simp only [isValid_index hp]
  rw [ncard_rows]
  constructor
  · intro heq
    omega
  · intro hfits
    rw [rowCount_eq hp, toInt_ofNat hfits, min_eq_left hfits.le]

end Inv

/-! ## The operations -/

section Ops

variable {s : ExplorerModel} {x newItem : Ptr} {p : QModelIndex} {w n : Int32}

/-- the row of an insertion is one of the list, and there is still room -/
theorem InsertArgs.fits (h : ExplorerInv s) (hargs : InsertArgs s newItem w p) :
    w.toInt.toNat ≤ (s.item (getItemPointer s p)).childItems.length ∧
      (s.item (getItemPointer s p)).childItems.length < 2 ^ 31 := by
  have hp := obtained_cases h hargs.obtained
  have hfits := h.fits _ (inTree_getItemPointer hp)
  have h0 : 0 ≤ w.toInt := Int32.le_iff_toInt_le.1 hargs.nonneg
  have hle := Int32.le_iff_toInt_le.1 hargs.le
  rw [rowCount_eq hp] at hle
  rcases Nat.lt_or_eq_of_le hfits with hlt | hfull
  · rw [toInt_ofNat hlt] at hle
    exact ⟨by omega, hlt⟩
  · -- with 2³¹ rows the number of rows is negative
    have hneg : (Int32.ofNat (2 ^ 31)).toInt < 0 := by decide
    rw [hfull] at hle
    omega

theorem InsertArgs.ne (h : ExplorerInv s) (hargs : InsertArgs s newItem w p) : newItem ≠ getItemPointer s p := by
  intro heq
  exact hargs.fresh (heq ▸ inTree_getItemPointer (obtained_cases h hargs.obtained))

theorem links_setItem (s : ExplorerModel) (x : Ptr) (it : ExplorerItem) : links (setItem s x it) =
    ⟨s.rootItem, Function.update (links s).children x it.childItems, Function.update (links s).parent x it.parentItem⟩ := by
  unfold links setItem
  rw [Links.mk.injEq]
  exact ⟨rfl, Function.comp_update ExplorerItem.childItems s.item x it,
    Function.comp_update ExplorerItem.parentItem s.item x it⟩

theorem setItem_item_of_ne {y : Ptr} (hne : y ≠ x) (it : ExplorerItem) : (setItem s x it).item y = s.item y :=
  Function.update_of_ne hne ..

/-- the items after an insertion -/
theorem item_insertRows (hne : newItem ≠ getItemPointer s p) : (insertRows s newItem w n p).model.item =
    Function.update (Function.update s.item newItem ⟨.generic, [], some (getItemPointer s p)⟩) (getItemPointer s p)
      { s.item (getItemPointer s p) with
        childItems := (s.item (getItemPointer s p)).childItems.insertIdx w.toInt.toNat newItem } := by
  show Function.update _ _ _ = _
  rw [setItem_item_of_ne hne.symm]
  rfl

theorem links_insertRows (hne : newItem ≠ getItemPointer s p) : links (insertRows s newItem w n p).model =
    (links s).insert (getItemPointer s p) w.toInt.toNat newItem := by
  have hparent : Function.update (Function.update (links s).parent newItem (some (getItemPointer s p))) (getItemPointer s p)
      (s.item (getItemPointer s p)).parentItem = Function.update (links s).parent newItem (some (getItemPointer s p)) := by
    rw [Function.update_eq_self_iff, Function.update_of_ne hne.symm]
    rfl
  unfold insertRows insertChildItem
  rw [links_setItem, links_setItem, setItem_item_of_ne hne.symm]
  dsimp only
  rw [hparent]
  rfl

theorem explorerInv_insertRows (h : ExplorerInv s) (hargs : InsertArgs s newItem w p) :
    ExplorerInv (insertRows s newItem w n p).model := by
  have hne := hargs.ne h
  have hp := inTree_getItemPointer (obtained_cases h hargs.obtained)
  obtain ⟨hw, hroom⟩ := hargs.fits h
  have hlinks := links_insertRows (w := w) (n := n) hne
  refine ⟨?_, fun y hy => ?_⟩
  · rw [hlinks]
    exact h.wellLinked.insert hp hargs.fresh hw
  · rw [item_insertRows hne]
    by_cases hx : y = getItemPointer s p
    · subst hx
      rw [Function.update_self]
      dsimp only
      rw [List.length_insertIdx_of_le_length hw]
      exact hroom
    · rw [Function.update_of_ne hx]
      by_cases hnew : y = newItem
      · subst hnew
        rw [Function.update_self]
        exact Nat.zero_le _
      · rw [Function.update_of_ne hnew]
        rw [InTree, hlinks] at hy
        exact h.fits y ((Links.inTree_insert hne hw hy).resolve_right hnew)

theorem links_removeChildItem : links (removeChildItem s x w) = (links s).erase x w.toInt.toNat := by
  have hparent : Function.update (links s).parent x (s.item x).parentItem = (links s).parent := Function.update_eq_self ..
  unfold removeChildItem
  rw [links_setItem]
  dsimp only
  rw [hparent]
  rfl

theorem explorerInv_removeChildItem (h : ExplorerInv s) : ExplorerInv (removeChildItem s x w) := by
  have hlinks := links_removeChildItem (s := s) (x := x) (w := w)
  refine ⟨?_, fun y hy => ?_⟩
  · rw [hlinks]
    exact h.wellLinked.erase
  · rw [InTree, hlinks] at hy
    have hsub : (links (removeChildItem s x w)).children y = _ := congrArg (fun t => Links.children t y) hlinks
    have hle := Links.children_erase_sublist (t := links s) (x := x) (i := w.toInt.toNat) (z := y)
    rw [← hsub] at hle
    exact hle.length_le.trans (h.fits y (Links.inTree_erase hy))

/-- what `insertRows` does is what it says, for one row and no other number -/
theorem insertExact_iff (h : ExplorerInv s) (hargs : InsertArgs s newItem w p) :
    InsertExact s w n p (insertRows s newItem w n p) ↔ n = 1 := by
  have hne := hargs.ne h
  obtain ⟨hw, -⟩ := hargs.fits h
  have hchildren : ((insertRows s newItem w n p).model.item (getItemPointer s p)).childItems =
      (s.item (getItemPointer s p)).childItems.insertIdx w.toInt.toNat newItem := by
    rw [item_insertRows hne, Function.update_self]
  constructor
  · rintro (⟨hret, -⟩ | ⟨-, -, hadded⟩)
    · cases hret
    · obtain ⟨new, hnew, -, hrows, -⟩ := hadded.rows
      have hlen := congrArg List.length (hchildren.symm.trans hrows)
      rw [List.length_insertIdx_of_le_length hw, List.length_append, List.length_append, List.length_take,
        List.length_drop] at hlen
      have hone : n.toInt = 1 := by omega
      exact Int32.toInt.inj hone
  · rintro rfl
    refine Or.inr ⟨rfl, rfl, ?_⟩
    refine ⟨rfl, ?_, ?_, ⟨[newItem], rfl, List.nodup_singleton newItem, ?_, fun y hy => ?_⟩, fun y hy hx => ?_⟩
    · rw [item_insertRows hne, Function.update_self]
    · rw [item_insertRows hne, Function.update_self]
    · rw [hchildren, Links.insertIdx_eq_append hw]
    · obtain rfl := List.mem_singleton.1 hy
      rw [item_insertRows hne, Function.update_of_ne hne, Function.update_self]
      exact ⟨hargs.fresh, rfl⟩
    · have hnew : y ≠ newItem := by
        rintro rfl
        exact hargs.fresh hy
      rw [item_insertRows hne, Function.update_of_ne hx, Function.update_of_ne hnew]

end Ops

/-! ## Every run -/

theorem initial_item (x : Ptr) :
    (∀ y ∈ (initialModel.item x).childItems, (initialModel.item y).parentItem = some x ∧ y ≤ 6) ∧
      (initialModel.item x).childItems.Nodup ∧ (initialModel.item x).childItems.length ≤ 3 := by
  match x with
  | 0 | 1 | 2 | 3 | 4 | 5 | 6 => decide
  | _ + 7 => simp [initialModel]

theorem explorerInv_initial : ExplorerInv initialModel where
  wellLinked := ⟨rfl, fun x y _ hy => ((initial_item x).1 y hy).1, fun x _ => (initial_item x).2.1⟩
  fits x _ := (initial_item x).2.2.trans (by decide)

theorem inTree_initial {x : Ptr} (hx : InTree initialModel x) : x ≤ 6 :=
  Links.InTree.induct hx (P := fun x => x ≤ 6) (Nat.zero_le 6) fun x y _ _ hy => ((initial_item x).1 y hy).2

theorem explorerInv_step {s t : ExplorerModel} {o : Op} (h : ExplorerInv s) (hok : Allowed s o) (hstep : step s o = some t) :
    ExplorerInv t := by
  cases o with
  | insertRows newItem where2Insert numOfRows parIndex =>
    obtain rfl := Option.some.inj hstep
    exact explorerInv_insertRows h hok
  | removeChildItem x where2Remove =>
    obtain rfl := Option.some.inj hstep
    exact explorerInv_removeChildItem h

theorem treeModel_iff {s : ExplorerModel} (h : ExplorerInv s) :
    TreeModel s ↔ ∀ p, Obtained s p → (s.item (getItemPointer s p)).childItems.length < 2 ^ 31 := by
  constructor
  · intro htree p hp
    exact (rowCount_iff (obtained_cases h hp)).1 (htree.rowCount p hp)
  · intro hfits
    exact ⟨fun p r hp hvalid => Explorer.parent_index h (obtained_cases h hp) hvalid,
      fun i hi => Explorer.index_parent h (obtained_cases h hi),
      fun p hp => (rowCount_iff (obtained_cases h hp)).2 (hfits p hp)⟩

/-- after every run the tree model is right, as long as each row has a number, and rows are inserted as they should be
exactly one by one -/
theorem tree_model {s : ExplorerModel} {ops : List Op} (hrun : Runs step Allowed initialModel ops s) :
    (TreeModel s ↔ ∀ p, Obtained s p → (s.item (getItemPointer s p)).childItems.length < 2 ^ 31) ∧
      ∀ newItem where2Insert numOfRows parIndex, InsertArgs s newItem where2Insert parIndex →
        (InsertExact s where2Insert numOfRows parIndex (insertRows s newItem where2Insert numOfRows parIndex) ↔
          numOfRows = 1) := by
  have h : ExplorerInv s := hrun.inv (fun _ _ _ h hok hstep => explorerInv_step h hok hstep) explorerInv_initial
  exact ⟨treeModel_iff h, fun _ _ _ _ hargs => insertExact_iff h hargs⟩

/-- a row in front of the others, and the first item below `a1` removed -/
def editedModel : ExplorerModel := removeChildItem (insertRows initialModel 7 0 1 .invalid).model 1 0

theorem insertArgs_initial : InsertArgs initialModel 7 0 .invalid where
  fresh h := absurd (inTree_initial h) (by decide)
  obtained := Obtained.root
  nonneg := by decide
  le := by decide

theorem tree_model_edited : TreeModel editedModel := by
  have hrun : Runs step Allowed initialModel [.insertRows 7 0 1 .invalid, .removeChildItem 1 0] editedModel := by
    refine .cons insertArgs_initial rfl (.cons ⟨?_, by decide, by decide⟩ rfl (.nil _))
    exact inTree_root.child (by decide)
  refine (tree_model hrun).1.2 fun p _ => ?_
  have hitem : ∀ x, (editedModel.item x).childItems.length < 2 ^ 31 := by
    intro x
    match x with
    | 0 | 1 | 2 | 3 | 4 | 5 | 6 | 7 => decide
    | _ + 8 => exact (show ([] : List Ptr).length < 2 ^ 31 by decide)
  exact hitem _

/-- two rows are announced and one is put in -/
theorem insert_two_rows : InsertArgs initialModel 7 0 .invalid ∧
    ¬InsertExact initialModel 0 2 .invalid (insertRows initialModel 7 0 2 .invalid) := by
  refine ⟨insertArgs_initial, fun h => ?_⟩
  have htwo := (insertExact_iff explorerInv_initial insertArgs_initial).1 h
  exact absurd htwo (by decide)

end Noriko.Explorer
