/-
Saving a bitmap and loading it again.

`Loaded.spec_saved` and `Loaded.pixels_saved` say what `NkDIBitmapLoad` makes of the bytes that `NkDIBitmapSave` writes,
for every bitmap. The headers come back member by member (`field_flatten`), the pixels are found behind them.

For a bitmap without flags this is the bitmap that was saved (`save_load_plain`). The flags themselves are not restored,
so the pixel format of a bitmap survives exactly if it has no flags (`formatKept_iff`).
-/
import Noriko.Bmp.Load

namespace Noriko.Bmp

open Lib

/-! ## Members of the saved file -/

theorem mem32_of_field {mem : ℕ → UInt8} {off : ℕ} {v : UInt32} (h : field mem off 4 = v.toNat % 256 ^ 4) :
    mem32 mem off = v := by
  rw [mem32, h]
  simp

theorem mem16_of_field {mem : ℕ → UInt8} {off : ℕ} {v : UInt16} (h : field mem off 2 = v.toNat % 256 ^ 2) :
    mem16 mem off = v := by
  rw [mem16, h]
  simp

theorem FileHeader.length_parts (h : FileHeader) : h.parts.flatten.length = 14 := by
  simp [FileHeader.parts]

theorem V4InfoHeader.length_parts (h : V4InfoHeader) : h.parts.flatten.length = 72 + h.colorEndPt.length := by
  simp only [V4InfoHeader.parts, List.flatten_cons, List.flatten_nil, List.length_append, List.length_nil, length_le]
  omega

section Saved

variable (b : DIBitmap)

theorem length_saved : (savedParts b).flatten.length = 122 + (savedInfoHeader b).biSizeImage.toNat := by
  have hend : (savedInfoHeader b).colorEndPt.length = 36 := List.length_replicate
  rw [savedParts, List.flatten_append, List.flatten_append, List.length_append, List.length_append,
    FileHeader.length_parts, V4InfoHeader.length_parts, hend, List.flatten_singleton, List.length_map,
    List.length_range]

/-- the file as memory -/
def savedMem (k : ℕ) : UInt8 := (savedParts b).flatten.getD k 0

/-- a 32-bit member, found at its place in the file -/
theorem saved_mem32 (i : ℕ) {off : ℕ} {v : UInt32} (h : (savedParts b)[i]? = some (le 4 v.toNat))
    (hoff : (((savedParts b).take i).map List.length).sum = off) : mem32 (savedMem b) off = v :=
  mem32_of_field (field_flatten h hoff)

theorem saved_offBytes : mem32 (savedMem b) 10 = 122 :=
  saved_mem32 b 3 rfl (by simp [savedParts, FileHeader.parts])

/-- the members of the info header that loading uses -/
theorem saved_infoHeader :
    mem32 (savedMem b) 14 = 108 ∧ mem32 (savedMem b) 18 = (savedInfoHeader b).biWidth.toUInt32 ∧
      mem32 (savedMem b) 22 = (savedInfoHeader b).biHeight.toUInt32 ∧
      mem16 (savedMem b) 28 = (savedInfoHeader b).biBitCount ∧
      mem32 (savedMem b) 30 = (savedInfoHeader b).biCompression ∧
      mem32 (savedMem b) 34 = (savedInfoHeader b).biSizeImage ∧
      mem32 (savedMem b) 54 = (savedInfoHeader b).redMask ∧ mem32 (savedMem b) 66 = (savedInfoHeader b).alphaMask := by
  refine ⟨saved_mem32 b 4 rfl ?_, saved_mem32 b 5 rfl ?_, saved_mem32 b 6 rfl ?_,
    mem16_of_field (field_flatten (i := 8) rfl ?_), saved_mem32 b 9 rfl ?_, saved_mem32 b 10 rfl ?_,
    saved_mem32 b 15 rfl ?_, saved_mem32 b 18 rfl ?_⟩ <;>
  simp [savedParts, FileHeader.parts, V4InfoHeader.parts]

/-- the pixels stand behind the headers -/
theorem saved_pixels {k : ℕ} (hk : k < (savedInfoHeader b).biSizeImage.toNat) :
    savedMem b (122 + k) = b.pxArray.mem k := by
  have hend : (savedInfoHeader b).colorEndPt.length = 36 := List.length_replicate
  have hpart : (savedParts b)[24]? =
    some ((List.range (savedInfoHeader b).biSizeImage.toNat).map b.pxArray.mem) := rfl
  have htake : (savedParts b).take 24 = (savedFileHeader b).parts ++ (savedInfoHeader b).parts := rfl
  have hoff : (((savedParts b).take 24).map List.length).sum = 122 := by
    rw [htake, ← List.length_flatten, List.flatten_append, List.length_append, FileHeader.length_parts,
      V4InfoHeader.length_parts, hend]
  have hmap := map_getD_flatten hpart hoff
  rw [List.length_map, List.length_range] at hmap
  have hat := congrArg (fun l => l[k]?) hmap
  simp only [List.getElem?_map, List.getElem?_range' hk, List.getElem?_range hk, Option.map_some, Nat.one_mul] at hat
  exact Option.some.inj hat

end Saved

/-! ## Loading a saved file -/

section Load

variable {b b' : DIBitmap} {stack : StackMem} {r : LoadResult}

theorem saved_accepted (b : DIBitmap) (stack : StackMem) : Accepted (savedParts b).flatten stack := by
  right
  have hlen := length_saved b
  have hpos : min fileHeaderBytes (savedParts b).flatten.length = 14 := by
    unfold fileHeaderBytes
    omega
  have hsize : 0 + 4 ≤ (⟨(savedParts b).flatten, 14⟩ : Stream).avail 4 := by
    simp only [Stream.avail]
    omega
  rw [sizeField, hpos, mem32_read _ _ hsize]
  exact congrArg UInt32.toNat (saved_infoHeader b).1

/-- the specification comes from the header that was saved -/
theorem Loaded.spec_saved (h : Loaded (savedParts b).flatten stack r b') :
    b'.bSpec = loadedSpec (savedInfoHeader b) ∧ pxBufSize r.dibHead = pxBufSize (savedInfoHeader b) := by
  have hlen := length_saved b
  obtain ⟨mem, hd⟩ := h.dibHead
  have havail : (⟨(savedParts b).flatten, fileHeaderBytes⟩ : Stream).avail v4HeaderBytes = 108 := by
    simp only [Stream.avail, fileHeaderBytes, v4HeaderBytes]
    omega
  have h32 : ∀ off, off + 4 ≤ 108 → mem32 ((⟨(savedParts b).flatten, fileHeaderBytes⟩ : Stream).read mem
      v4HeaderBytes) off = mem32 (savedMem b) (14 + off) := by
    intro off hoff
    exact mem32_read _ _ (by omega)
  have h16 : mem16 ((⟨(savedParts b).flatten, fileHeaderBytes⟩ : Stream).read mem v4HeaderBytes) 14 =
      mem16 (savedMem b) 28 := mem16_read _ _ (by omega)
  obtain ⟨hsize, hwidth, hheight, hdepth, hcompr, himage, hred, halpha⟩ := saved_infoHeader b
  have hsize' : r.dibHead.biSize = (savedInfoHeader b).biSize := by
    rw [hd]
    exact (h32 0 (by omega)).trans hsize
  have hwidth' : r.dibHead.biWidth = (savedInfoHeader b).biWidth := by
    rw [hd]
    exact congrArg UInt32.toInt32 ((h32 4 (by omega)).trans hwidth)
  have hheight' : r.dibHead.biHeight = (savedInfoHeader b).biHeight := by
    rw [hd]
    exact congrArg UInt32.toInt32 ((h32 8 (by omega)).trans hheight)
  have hdepth' : r.dibHead.biBitCount = (savedInfoHeader b).biBitCount := by
    rw [hd]
    exact h16.trans hdepth
  have hcompr' : r.dibHead.biCompression = (savedInfoHeader b).biCompression := by
    rw [hd]
    exact (h32 16 (by omega)).trans hcompr
  have himage' : r.dibHead.biSizeImage = (savedInfoHeader b).biSizeImage := by
    rw [hd]
    exact (h32 20 (by omega)).trans himage
  have hred' : r.dibHead.redMask = (savedInfoHeader b).redMask := by
    rw [hd]
    exact (h32 40 (by omega)).trans hred
  have halpha' : r.dibHead.alphaMask = (savedInfoHeader b).alphaMask := by
    rw [hd]
    exact (h32 52 (by omega)).trans halpha
  constructor
  · rw [h.bSpec]
    unfold loadedSpec
    rw [hsize', hwidth', hheight', hdepth', hcompr', hred', halpha']
  · unfold pxBufSize
    rw [himage', hwidth', hheight', hdepth']

/-- the pixels come back -/
theorem Loaded.pixels_saved (h : Loaded (savedParts b).flatten stack r b') {k : ℕ}
    (hk : k < (savedInfoHeader b).biSizeImage.toNat) : b'.pxArray.mem k = b.pxArray.mem k := by
  have hlen := length_saved b
  obtain ⟨mem, hmem⟩ := h.pixels
  have hstart : pixelStart (savedParts b).flatten = 122 := by
    have hoff : mem32 (fileMem (savedParts b).flatten) 10 = 122 := saved_offBytes b
    unfold pixelStart
    rw [hoff]
    rfl
  have hbuf : pxBufSize r.dibHead = (savedInfoHeader b).biSizeImage := by
    rw [h.spec_saved.2, pxBufSize, if_pos]
    intro hzero
    rw [hzero] at hk
    exact absurd hk (Nat.not_lt_zero k)
  have havail : k < (⟨(savedParts b).flatten, 122⟩ : Stream).avail (pxBufSize r.dibHead).toNat := by
    rw [hbuf]
    simp only [Stream.avail]
    omega
  rw [hmem, pixelStream_eq (by omega), hstart, Stream.read_of_lt _ _ havail]
  exact saved_pixels b hk

end Load

/-! ## Created bitmaps -/

section Created

variable {s : BitmapSpecification} {c : Option RgbaColor} {heap : Option (Fresh UInt8)} {b : DIBitmap}

theorem validateSpecification_ok (h : validateSpecification s = .ok) :
    0 < s.bmpWidth ∧ 0 < s.bmpHeight ∧ (s.bitsPerPx = 24 ∨ s.bitsPerPx = 32) := by
  unfold validateSpecification at h
  dsimp only at h
  split_ifs at h with hdepth hheight hwidth
  exact ⟨hwidth, hheight, hdepth⟩

/-- the specification is the one that was asked for, with the stride filled in -/
theorem dibitmapCreate_spec (h : dibitmapCreate s c heap = (.ok, some b)) :
    b.bSpec = { s with bmpStride := calculateStride s.bmpWidth s.bitsPerPx } ∧ 0 < s.bmpHeight := by
  unfold dibitmapCreate at h
  split_ifs at h with hvalid
  · exact absurd (congrArg Prod.snd h) (by simp)
  · rw [not_not] at hvalid
    have hb := congrArg Prod.snd h
    dsimp only at hb
    obtain ⟨buf, -, rfl⟩ := Option.map_eq_some_iff.1 hb
    exact ⟨rfl, (validateSpecification_ok hvalid).2.1⟩

theorem toNat_toUInt32_of_pos {x : Int32} (h : 0 < x) : x.toUInt32.toNat = x.toInt.toNat := by
  have hpos : 0 < x.toInt := by simpa using Int32.lt_iff_toInt_lt.1 h
  have hcond := BitVec.toInt_eq_toNat_cond x.toBitVec
  have hlt := x.toBitVec.isLt
  have hint : x.toInt = x.toBitVec.toInt := rfl
  have hnat : x.toUInt32.toNat = x.toBitVec.toNat := rfl
  split_ifs at hcond <;> omega

theorem getAdjustedHeight_none (x : Int32) : getAdjustedHeight x.toUInt32 flagNone.toUInt32 = x := by
  have hzero : ¬ flagNone.toUInt32 &&& ~~~flagFlipped.toUInt32 ≠ 0 := by decide
  rw [getAdjustedHeight, if_neg hzero, UInt32.mul_one]
  rfl

/-- for a bitmap that does not reach 4 GiB, the image size is the number of bytes its rows take -/
theorem biSizeImage_toNat (hc : dibitmapCreate s c heap = (.ok, some b))
    (hsize : b.bSpec.bmpStride.toNat * b.bSpec.bmpHeight.toInt.toNat < 2 ^ 32) :
    (calculateRawArraySize b.bSpec.bmpWidth b.bSpec.bmpHeight b.bSpec.bitsPerPx).toNat =
      b.bSpec.bmpStride.toNat * b.bSpec.bmpHeight.toInt.toNat := by
  obtain ⟨hspec, hheight⟩ := dibitmapCreate_spec hc
  have hstride : calculateStride b.bSpec.bmpWidth b.bSpec.bitsPerPx = b.bSpec.bmpStride := by rw [hspec]
  have hpos : 0 < b.bSpec.bmpHeight := by rwa [hspec]
  rw [calculateRawArraySize, hstride, UInt32.toNat_mul, toNat_toUInt32_of_pos hpos, Nat.mod_eq_of_lt hsize]

end Created

/-! ## Results -/

/-- a bitmap is saved and the file that is written is loaded; all calls of the environment succeed -/
def reload (b : DIBitmap) (stack : StackMem) (f : Fresh UInt8) : LoadResult :=
  dibitmapLoad (dibitmapSave b true).2 stack (some f)

theorem reload_loaded (b : DIBitmap) (stack : StackMem) (f : Fresh UInt8) :
    ∃ b', Loaded (savedParts b).flatten stack (reload b stack f) b' :=
  loadStream_ok (saved_accepted b stack) f

/-- `b'` shows what `b` shows: the same dimensions and format, and the same bytes in all rows -/
structure SamePicture (b b' : DIBitmap) : Prop where
  width : b'.bSpec.bmpWidth = b.bSpec.bmpWidth
  height : b'.bSpec.bmpHeight = b.bSpec.bmpHeight
  stride : b'.bSpec.bmpStride = b.bSpec.bmpStride
  depth : b'.bSpec.bitsPerPx = b.bSpec.bitsPerPx
  flags : b'.bSpec.bmpFlags = b.bSpec.bmpFlags
  size : b'.pxArray.size = b.bSpec.bmpStride.toNat * b.bSpec.bmpHeight.toInt.toNat
  pixels : ∀ k < b.bSpec.bmpStride.toNat * b.bSpec.bmpHeight.toInt.toNat, b'.pxArray.mem k = b.pxArray.mem k

/-- the rows are stored last row first: by the flag, or by a negative height -/
def rowsReversed (s : BitmapSpecification) : Bool := (s.bmpFlags &&& flagFlipped ≠ 0) ^^ (s.bmpHeight < 0)

/-- `b'` has the pixel format of `b` -/
structure FormatKept (b b' : DIBitmap) : Prop where
  width : b'.bSpec.bmpWidth.toInt.natAbs = b.bSpec.bmpWidth.toInt.natAbs
  height : b'.bSpec.bmpHeight.toInt.natAbs = b.bSpec.bmpHeight.toInt.natAbs
  orientation : rowsReversed b'.bSpec = rowsReversed b.bSpec
  masks : b.bSpec.bmpFlags &&& flagUseBitmasks ≠ 0 → b'.bSpec.redMask = b.bSpec.redMask ∧
    b'.bSpec.greenMask = b.bSpec.greenMask ∧ b'.bSpec.blueMask = b.bSpec.blueMask ∧
    b'.bSpec.alphaMask = b.bSpec.alphaMask
  flags : b'.bSpec.bmpFlags = b.bSpec.bmpFlags
  size : (dibitmapPixelSize b').toNat = b'.bSpec.bmpStride.toNat * b'.bSpec.bmpHeight.toInt.natAbs

section Results

variable {s : BitmapSpecification} {c : Option RgbaColor} {heap : Option (Fresh UInt8)} {b : DIBitmap}

/-- without flags, a saved image size of zero is computed again to the same value -/
theorem pxBufSize_plain (h : b.bSpec.bmpFlags = flagNone) :
    pxBufSize (savedInfoHeader b) = (savedInfoHeader b).biSizeImage := by
  have hheight : (savedInfoHeader b).biHeight = b.bSpec.bmpHeight := by
    unfold savedInfoHeader
    rw [h]
    exact getAdjustedHeight_none _
  unfold pxBufSize
  rw [hheight]
  split_ifs <;> rfl

/-- a bitmap without flags comes back with its specification -/
theorem reload_plain_spec (hc : dibitmapCreate s c heap = (.ok, some b)) (hflags : s.bmpFlags = flagNone)
    (px : Buffer UInt8) : loadedSpec (savedInfoHeader { b with pxArray := px }) =
      { b.bSpec with structSize := specBytes, redMask := 0, greenMask := 0, blueMask := 0, alphaMask := 0 } := by
  obtain ⟨hspec, -⟩ := dibitmapCreate_spec hc
  have hf : b.bSpec.bmpFlags = flagNone := by rw [hspec, hflags]
  have hstride : calculateStride b.bSpec.bmpWidth b.bSpec.bitsPerPx = b.bSpec.bmpStride := by rw [hspec]
  have hrgb : mapToCompressionMethod flagNone.toUInt32 ≠ biBitfields := by decide
  unfold loadedSpec savedInfoHeader
  simp only [hf, getAdjustedHeight_none, hstride, hrgb, if_false, false_and]
  rfl

/-- saving a bitmap without flags and loading it gives the same picture, whatever its pixels are -/
theorem save_load_plain (hc : dibitmapCreate s c heap = (.ok, some b)) (hflags : s.bmpFlags = flagNone)
    (hsize : b.bSpec.bmpStride.toNat * b.bSpec.bmpHeight.toInt.toNat < 2 ^ 32) (px : ℕ → UInt8) (stack : StackMem)
    (f : Fresh UInt8) :
    let b₁ : DIBitmap := { b with pxArray := { b.pxArray with mem := px } }
    (dibitmapSave b₁ true).1 = .ok ∧ (reload b₁ stack f).code = .ok ∧
      ∃ b', (reload b₁ stack f).bitmap = some b' ∧ SamePicture b₁ b' := by
  intro b₁
  obtain ⟨b', hl⟩ := reload_loaded b₁ stack f
  obtain ⟨hspec, hbuf⟩ := hl.spec_saved
  have hplain := reload_plain_spec hc hflags b₁.pxArray
  have hf : b₁.bSpec.bmpFlags = flagNone :=
    (congrArg (fun t => t.bmpFlags) (dibitmapCreate_spec hc).1).trans hflags
  have himage := biSizeImage_toNat hc hsize
  rw [hplain] at hspec
  refine ⟨rfl, hl.code, b', hl.bitmap, ?_⟩
  refine ⟨by rw [hspec], by rw [hspec], by rw [hspec], by rw [hspec], by rw [hspec], ?_, fun k hk => ?_⟩
  · rw [hl.size, hbuf, pxBufSize_plain hf]
    exact himage
  · exact hl.pixels_saved (hk.trans_eq himage.symm)

/-- the smallest bitmap -/
def onePixel (flags : UInt16) : BitmapSpecification := ⟨specBytes, 1, 1, 0, 24, flags, 0, 0, 0, 0⟩

def onePixelBitmap (flags : UInt16) : DIBitmap := ⟨{ onePixel flags with bmpStride := 4 }, ⟨0, 4, fun _ => 0⟩⟩

theorem onePixel_created (flags : UInt16) :
    dibitmapCreate (onePixel flags) none (some ⟨0, fun _ => 0⟩) = (.ok, some (onePixelBitmap flags)) := by
  have hvalid : validateSpecification (onePixel flags) = .ok := rfl
  have hstride : calculateStride 1 24 = 4 := rfl
  have hbytes : u64 ((1 : Int32).toInt.toNat * (4 : UInt32).toNat) = 4 := by decide
  unfold dibitmapCreate
  rw [if_neg (not_not.2 hvalid)]
  simp only [onePixel, hstride, hbytes, gpAlloc, Option.map_some]
  rfl

theorem save_load_plain_onePixel :
    ∃ b', (reload { onePixelBitmap flagNone with pxArray := ⟨0, 4, fun _ => 7⟩ } ⟨fun _ => 1, fun _ => 2⟩
      ⟨8, fun _ => 3⟩).bitmap = some b' ∧
      SamePicture { onePixelBitmap flagNone with pxArray := ⟨0, 4, fun _ => 7⟩ } b' :=
  (save_load_plain (onePixel_created flagNone) rfl (by decide) (fun _ => 7) ⟨fun _ => 1, fun _ => 2⟩
    ⟨8, fun _ => 3⟩).2.2

/-- the pixel format survives exactly if no flag is set: loading never sets one -/
theorem formatKept_iff (hc : dibitmapCreate s c heap = (.ok, some b))
    (hsize : b.bSpec.bmpStride.toNat * b.bSpec.bmpHeight.toInt.toNat < 2 ^ 32) (stack : StackMem) (f : Fresh UInt8) :
    ((dibitmapSave b true).1 = .ok ∧ (reload b stack f).code = .ok ∧
      ∃ b', (reload b stack f).bitmap = some b' ∧ FormatKept b b') ↔ s.bmpFlags = flagNone := by
  obtain ⟨b', hl⟩ := reload_loaded b stack f
  obtain ⟨hspec, -⟩ := hl.spec_saved
  obtain ⟨hcreated, hpos⟩ := dibitmapCreate_spec hc
  have hflags : b.bSpec.bmpFlags = s.bmpFlags := by rw [hcreated]
  constructor
  · rintro ⟨-, -, b'', hb'', hkept⟩
    obtain rfl : b' = b'' := Option.some.inj (hl.bitmap.symm.trans hb'')
    rw [← hflags, ← hkept.flags, hspec]
    rfl
  · intro hnone
    have hplain := hspec.trans (reload_plain_spec hc hnone b.pxArray)
    refine ⟨rfl, hl.code, b', hl.bitmap, ?_⟩
    have hheight : 0 < b.bSpec.bmpHeight := by rwa [hcreated]
    have hnat : b.bSpec.bmpHeight.toInt.natAbs = b.bSpec.bmpHeight.toInt.toNat := by
      have hint : 0 < b.bSpec.bmpHeight.toInt := by simpa using Int32.lt_iff_toInt_lt.1 hheight
      omega
    refine ⟨by rw [hplain], by rw [hplain], ?_, ?_, by rw [hplain], ?_⟩
    · rw [hplain]
      rfl
    · intro hmasks
      rw [hflags, hnone] at hmasks
      exact absurd rfl hmasks
    · rw [dibitmapPixelSize, hplain]
      dsimp only
      rw [hnat, UInt32.toNat_mul, toNat_toUInt32_of_pos hheight, Nat.mod_eq_of_lt hsize]

theorem formatKept_onePixel :
    ∃ b', (reload (onePixelBitmap flagNone) ⟨fun _ => 1, fun _ => 2⟩ ⟨8, fun _ => 3⟩).bitmap = some b' ∧
      FormatKept (onePixelBitmap flagNone) b' :=
  ((formatKept_iff (onePixel_created flagNone) (by decide) ⟨fun _ => 1, fun _ => 2⟩ ⟨8, fun _ => 3⟩).2 rfl).2.2

/-- a flipped bitmap comes back without the flag -/
theorem formatKept_broken : ¬ ∀ s c heap b stack f, dibitmapCreate s c heap = (.ok, some b) →
    b.bSpec.bmpStride.toNat * b.bSpec.bmpHeight.toInt.toNat < 2 ^ 32 →
    (reload b stack f).code = .ok ∧ ∃ b', (reload b stack f).bitmap = some b' ∧ FormatKept b b' := by
  intro hall
  obtain ⟨-, b'', hb'', hkept⟩ := hall _ _ _ _ ⟨fun _ => 0, fun _ => 0⟩ ⟨8, fun _ => 0⟩
    (onePixel_created flagFlipped) (by decide)
  obtain ⟨b', hl⟩ := reload_loaded (onePixelBitmap flagFlipped) ⟨fun _ => 0, fun _ => 0⟩ ⟨8, fun _ => 0⟩
  obtain rfl : b' = b'' := Option.some.inj (hl.bitmap.symm.trans hb'')
  have hflags := hkept.flags
  rw [hl.spec_saved.1] at hflags
  exact absurd hflags (by decide)

end Results

end Noriko.Bmp
