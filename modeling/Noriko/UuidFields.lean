/-
The text of a UUID and its blocks (`NkUuidToString` and `NkUuidFromString` of `util.c`).

A UUID is defined by its blocks, and its text in the sources are their digits: 8 for the first block, 4 for the second and
the third, 4 and 12 for the last. `NkUuidToString` goes through the bytes in memory instead, and on a little-endian machine
these are the bytes of each block from the lowest one on. So the text is that of the blocks, in either direction, exactly if
the bytes of each block read the same from both ends (`textAgrees_iff`).
-/
import Noriko.Om.Classes

namespace Noriko.UuidFields

open Lib Uuid Om

/-! ## What is right -/

/-- the last `n` hexadecimal digits of a number, most significant first -/
def hexText (n v : ℕ) : List UInt8 := (List.range n).reverse.map fun k => hexDigit (UInt8.ofNat (v / 16 ^ k % 16))

/-- the digits of the blocks, separated by hyphens -/
def blockText (fBlock : UInt32) (sBlock tBlock : UInt16) (ffBlock : UInt64) : List UInt8 :=
  [chHyphen].intercalate [hexText 8 fBlock.toNat, hexText 4 sBlock.toNat, hexText 4 tBlock.toNat,
    hexText 4 (ffBlock.toNat / 2 ^ 48), hexText 12 (ffBlock.toNat % 2 ^ 48)]

/-- the text that is written is that of the blocks, and the blocks are read from it -/
structure TextAgrees (fBlock : UInt32) (sBlock tBlock : UInt16) (ffBlock : UInt64) : Prop where
  toString : ∀ strBuf, Holds (uuidToString (uuidOf fBlock sBlock tBlock ffBlock) strBuf) 0
    (blockText fBlock sBlock tBlock ffBlock ++ [0])
  fromString : ∀ mem, Holds mem 0 (blockText fBlock sBlock tBlock ffBlock ++ [0]) →
    uuidFromString mem = (.ok, uuidOf fBlock sBlock tBlock ffBlock)

/-- the `n` bytes of a number read the same from both ends -/
def SameReversed (n v : ℕ) : Prop := (le n v).reverse = le n v

instance (n v : ℕ) : Decidable (SameReversed n v) := inferInstanceAs (Decidable (_ = _))

/-! ## Digits -/

theorem hexText_succ (n v : ℕ) : hexText (n + 1) v = hexText n (v / 16) ++ [hexDigit (UInt8.ofNat (v % 16))] := by
  unfold hexText
  rw [List.range_succ_eq_map, List.reverse_cons, List.map_append, ← List.map_reverse, List.map_map, List.map_singleton,
    Nat.pow_zero, Nat.div_one]
  refine congrArg (· ++ _) (List.map_congr_left fun k _ => ?_)
  rw [Function.comp_apply, Nat.div_div_eq_div_mul, ← Nat.pow_succ']

theorem digits_ofNat (v : ℕ) :
    digits (UInt8.ofNat v) = (hexDigit (UInt8.ofNat (v / 16 % 16)), hexDigit (UInt8.ofNat (v % 16))) := by
  have hlow : ∀ b : Fin 256, digits (UInt8.ofNat b.val) =
      (hexDigit (UInt8.ofNat (b.val / 16 % 16)), hexDigit (UInt8.ofNat (b.val % 16))) := by decide +kernel
  have hbyte : UInt8.ofNat v = UInt8.ofNat (v % 256) := by
    refine UInt8.toNat.inj ?_
    rw [UInt8.toNat_ofNat', UInt8.toNat_ofNat', Nat.mod_mod]
  have h := hlow ⟨v % 256, Nat.mod_lt _ (by decide)⟩
  rw [hbyte, h]
  have hhigh : v % 256 / 16 % 16 = v / 16 % 16 := by omega
  have hend : v % 256 % 16 = v % 16 := by omega
  rw [hhigh, hend]

/-- the digits of a number are those of its bytes, highest byte first -/
theorem hexText_bytes (n v : ℕ) : hexText (2 * n) v = flat ((le n v).reverse.map digits) := by
  induction n generalizing v with
  | zero => rfl
  | succ n ih =>
    have hrest : (le (n + 1) v).reverse = (le n (v / 256)).reverse ++ [UInt8.ofNat v] := by
      rw [le, List.reverse_cons]
    have hbyte : flat ([UInt8.ofNat v].map digits) = [hexDigit (UInt8.ofNat (v / 16 % 16)), hexDigit (UInt8.ofNat (v % 16))] := by
      rw [List.map_singleton, digits_ofNat]
      rfl
    rw [Nat.mul_succ, hexText_succ, hexText_succ, Nat.div_div_eq_div_mul, ih, hrest, List.map_append, flat_append, hbyte,
      List.append_assoc]
    rfl

/-! ## Blocks -/

section Blocks

variable {fBlock : UInt32} {sBlock tBlock : UInt16} {ffBlock : UInt64}

/-- the UUID whose text is that of the blocks -/
def swappedUuid (fBlock : UInt32) (sBlock tBlock : UInt16) (ffBlock : UInt64) : NkUuid where
  asByte := (le 4 fBlock.toNat).reverse ++ ((le 2 sBlock.toNat).reverse ++ ((le 2 tBlock.toNat).reverse ++
    (le 8 ffBlock.toNat).reverse))
  size := by simp

theorem blockText_eq (fBlock : UInt32) (sBlock tBlock : UInt16) (ffBlock : UInt64) :
    blockText fBlock sBlock tBlock ffBlock = text (swappedUuid fBlock sBlock tBlock ffBlock) := by
  have hlast : (le 8 ffBlock.toNat).reverse =
      (le 2 (ffBlock.toNat / 2 ^ 48)).reverse ++ (le 6 (ffBlock.toNat % 2 ^ 48)).reverse := by
    have hparts : le 8 ffBlock.toNat = le 6 ffBlock.toNat ++ le 2 (ffBlock.toNat / 2 ^ 48) := le_add 6 2 ffBlock.toNat
    have hlow : le 6 (ffBlock.toNat % 2 ^ 48) = le 6 ffBlock.toNat := le_mod 6 ffBlock.toNat
    rw [hparts, hlow, List.reverse_append]
  rw [text, swappedUuid]
  dsimp only
  rw [hlast, List.map_append, List.map_append, List.map_append, List.map_append,
    layout_groups (by simp) (by simp) (by simp) (by simp) (by simp), ← hexText_bytes, ← hexText_bytes, ← hexText_bytes,
    ← hexText_bytes, ← hexText_bytes]
  rfl

/-- a UUID is read from its text -/
theorem uuidFromString_text {mem : ℕ → UInt8} {u : NkUuid} (h : Holds mem 0 (text u ++ [0])) : uuidFromString mem = (.ok, u) := by
  have hlen : (u.asByte.map digits).length = 16 := by rw [List.length_map, u.size]
  have hbytes : (u.asByte.map digits).map byteOf = u.asByte := by
    rw [List.map_map]
    exact List.map_id'' byteOf_digits _
  have hread := uuidFromString_layout hlen (hexPairs_digits _) (holds_append.1 h).1
  simpa only [hbytes] using hread

/-- the memory determines the UUID whose text it holds -/
theorem eq_of_text {mem : ℕ → UInt8} {u u' : NkUuid} (h : Holds mem 0 (text u ++ [0])) (h' : Holds mem 0 (text u' ++ [0])) :
    u = u' :=
  congrArg Prod.snd ((uuidFromString_text h).symm.trans (uuidFromString_text h'))

theorem uuidOf_eq_swapped_iff :
    uuidOf fBlock sBlock tBlock ffBlock = swappedUuid fBlock sBlock tBlock ffBlock ↔
      SameReversed 4 fBlock.toNat ∧ SameReversed 2 sBlock.toNat ∧ SameReversed 2 tBlock.toNat ∧
        SameReversed 8 ffBlock.toNat := by
  rw [NkUuid.ext_iff, uuidOf, swappedUuid]
  dsimp only
  rw [List.append_assoc, List.append_assoc]
  constructor
  · intro h
    obtain ⟨hf, h⟩ := List.append_inj h (by simp)
    obtain ⟨hs, h⟩ := List.append_inj h (by simp)
    obtain ⟨ht, hff⟩ := List.append_inj h (by simp)
    exact ⟨hf.symm, hs.symm, ht.symm, hff.symm⟩
  · rintro ⟨hf, hs, ht, hff⟩
    rw [hf, hs, ht, hff]

theorem textAgrees_iff_swapped :
    TextAgrees fBlock sBlock tBlock ffBlock ↔
      uuidOf fBlock sBlock tBlock ffBlock = swappedUuid fBlock sBlock tBlock ffBlock := by
  constructor
  · intro h
    have hblocks := h.toString fun _ => 0
    rw [blockText_eq] at hblocks
    exact eq_of_text (uuidToString_spec _ _).1 hblocks
  · intro heq
    refine ⟨fun strBuf => ?_, fun mem hmem => ?_⟩
    · rw [blockText_eq, heq]
      exact (uuidToString_spec _ strBuf).1
    · rw [blockText_eq] at hmem
      rw [heq]
      exact uuidFromString_text hmem

end Blocks

/-- text and blocks agree exactly if the bytes of each block read the same from both ends -/
theorem textAgrees_iff (fBlock : UInt32) (sBlock tBlock : UInt16) (ffBlock : UInt64) :
    TextAgrees fBlock sBlock tBlock ffBlock ↔
      SameReversed 4 fBlock.toNat ∧ SameReversed 2 sBlock.toNat ∧ SameReversed 2 tBlock.toNat ∧
        SameReversed 8 ffBlock.toNat :=
  textAgrees_iff_swapped.trans uuidOf_eq_swapped_iff

/-- the id of the statement interface is logged as `"b3277c6d-..."`, not as `"6d7c27b3-..."` -/
theorem text_disagrees : ¬ TextAgrees 0x6d7c27b3 0xa5ed 0x40d5 0xaa4da5c5ef8bf978 := by
  rw [textAgrees_iff_swapped]
  decide

end Noriko.UuidFields
