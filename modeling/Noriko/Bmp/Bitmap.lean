/-
Device-independent bitmaps (`bmp.c`): specification, creation, saving and loading.

The integers have the widths of the source, so all arithmetic wraps as it does there. A file is the list of its bytes.
The headers are read into structures that live on the stack and are not initialised, and the pixels into a heap block;
what these hold before is an input of `dibitmapLoad`. The code ignores how many bytes each `fread` delivers; `LoadResult`
keeps these numbers.

The width of `long` in `fseek` is 32 bits, as on the platform the code is written for.
-/
import Noriko.Heap
import Noriko.Lib.Bytes

namespace Noriko.Bmp

open Lib

/-! ## Data -/

def flagNone : UInt16 := 0

def flagFlipped : UInt16 := 1

def flagUseBitmasks : UInt16 := 2

def flagSuppAlpha : UInt16 := 3

def biRgb : UInt32 := 0

def biBitfields : UInt32 := 3

structure BitmapSpecification where
  structSize : UInt64
  bmpWidth : Int32
  bmpHeight : Int32
  bmpStride : UInt32
  bitsPerPx : UInt16
  bmpFlags : UInt16
  redMask : UInt32
  greenMask : UInt32
  blueMask : UInt32
  alphaMask : UInt32
deriving DecidableEq

/-- `sizeof(NkBitmapSpecification)` -/
def specBytes : UInt64 := 40

structure DIBitmap where
  bSpec : BitmapSpecification
  pxArray : Buffer UInt8

structure RgbaColor where
  rVal : UInt8
  gVal : UInt8
  bVal : UInt8
  aVal : UInt8
deriving DecidableEq

/-! ## Sizes and formats -/

def calculateStride (bmpWidth : Int32) (bitsPerPx : UInt16) : UInt32 :=
  (bmpWidth.toUInt32 * bitsPerPx.toUInt32 + 31 &&& ~~~31) >>> 3

/-- the height as it is saved: negated if a flag other than `Flipped` is set -/
def getAdjustedHeight (bmpHeight bmpFlags : UInt32) : Int32 :=
  (bmpHeight * if bmpFlags &&& ~~~flagFlipped.toUInt32 ≠ 0 then -1 else 1).toInt32

def mapToCompressionMethod (bmpFlags : UInt32) : UInt32 :=
  if bmpFlags &&& flagUseBitmasks.toUInt32 ≠ 0 then biBitfields else biRgb

def calculateRawArraySize (bmpWidth bmpHeight : Int32) (bitsPerPx : UInt16) : UInt32 :=
  calculateStride bmpWidth bitsPerPx * bmpHeight.toUInt32

/-- the byte `v` in all four places -/
def spread (v : UInt8) : UInt32 := v.toUInt32 <<< 24 ||| v.toUInt32 <<< 16 ||| v.toUInt32 <<< 8 ||| v.toUInt32

def cvtColor (cCol : RgbaColor) (s : BitmapSpecification) : UInt32 :=
  (if s.bmpFlags &&& flagUseBitmasks ≠ 0 then
      spread cCol.rVal &&& s.redMask ||| spread cCol.gVal &&& s.greenMask ||| spread cCol.bVal &&& s.blueMask
    else (0xFF000000 : UInt32) ||| cCol.rVal.toUInt32 <<< 16 ||| cCol.gVal.toUInt32 <<< 8 ||| cCol.bVal.toUInt32) |||
  if s.bmpFlags &&& flagSuppAlpha ≠ 0 then spread cCol.aVal &&& s.alphaMask else 0

/-- `for (i = ..; i < n; i += i)` copying the first `i` units behind themselves; `i` doubles, so 32 rounds are enough -/
def fillDouble (unit n : ℕ) : ℕ → ℕ → (ℕ → UInt8) → ℕ → UInt8
  | 0, _, mem => mem
  | rounds + 1, i, mem =>
    if i < n then fillDouble unit n rounds (u32 (i + i)) (blit mem (u32 (i * unit)) mem (u32 (unit * min (n - i) i)))
    else mem

/-- `__NkInt_DIBitmap_Fill`: one pixel, then the first row, then all rows -/
def dibitmapFill (s : BitmapSpecification) (rowSize : ℕ) (clearCol : RgbaColor) (mem : ℕ → UInt8) : ℕ → UInt8 :=
  let pixelWidth := s.bitsPerPx.toNat / 8
  let pixel := blit mem 0 (fun k => (le 4 (cvtColor clearCol s).toNat).getD k 0) pixelWidth
  let row := fillDouble 1 rowSize 32 pixelWidth pixel
  fillDouble rowSize s.bmpHeight.toInt.toNat 32 1 row

/-! ## Creation -/

/-- a later check that fails overwrites the code of an earlier one -/
def validateSpecification (s : BitmapSpecification) : NkErrorCode :=
  let errCode := if 0 < s.bmpWidth then .ok else .invImageDimensions
  let errCode := if 0 < s.bmpHeight then errCode else .invImageDimensions
  if s.bitsPerPx = 24 ∨ s.bitsPerPx = 32 then errCode else .invBitDepth

/-- `NkDIBitmapCreate` -/
def dibitmapCreate (s : BitmapSpecification) (clearCol : Option RgbaColor) (heap : Option (Fresh UInt8)) :
    NkErrorCode × Option DIBitmap :=
  if validateSpecification s ≠ .ok then (validateSpecification s, none)
  else
    let rowSize := calculateStride s.bmpWidth s.bitsPerPx
    let r := gpAlloc (u64 (s.bmpHeight.toInt.toNat * rowSize.toNat)) heap
    (r.1, r.2.map fun b =>
      { bSpec := { s with bmpStride := rowSize }
        pxArray := match clearCol with
          | some c => { b with mem := dibitmapFill s rowSize.toNat c b.mem }
          | none => b })

/-- the size that `NkDIBitmapGetPixels` reports -/
def dibitmapPixelSize (b : DIBitmap) : UInt32 := b.bSpec.bmpStride * b.bSpec.bmpHeight.toUInt32

/-! ## Headers -/

structure FileHeader where
  bfType : UInt16
  bfSize : UInt32
  bfReserved : UInt32
  bfOffBytes : UInt32
deriving DecidableEq

/-- `sizeof(__NkInt_BitmapFileHeader)`, which is packed -/
def fileHeaderBytes : ℕ := 14

/-- `sizeof(__NkInt_BitmapInfoHeader)` -/
def infoHeaderBytes : ℕ := 40

/-- `sizeof(__NkInt_BitmapV4InfoHeader)` -/
def v4HeaderBytes : ℕ := 108

structure V4InfoHeader where
  biSize : UInt32
  biWidth : Int32
  biHeight : Int32
  biPlanes : UInt16
  biBitCount : UInt16
  biCompression : UInt32
  biSizeImage : UInt32
  biXPelsPerMeter : Int32
  biYPelsPerMeter : Int32
  blClrUsed : UInt32
  blClrImportant : UInt32
  redMask : UInt32
  greenMask : UInt32
  blueMask : UInt32
  alphaMask : UInt32
  csType : UInt32
  colorEndPt : List UInt8
  gammaRed : UInt32
  gammaGreen : UInt32
  gammaBlue : UInt32
deriving DecidableEq

/-- the members in the order of the file -/
def FileHeader.parts (h : FileHeader) : List (List UInt8) :=
  [le 2 h.bfType.toNat, le 4 h.bfSize.toNat, le 4 h.bfReserved.toNat, le 4 h.bfOffBytes.toNat]

def V4InfoHeader.parts (h : V4InfoHeader) : List (List UInt8) :=
  [le 4 h.biSize.toNat, le 4 h.biWidth.toUInt32.toNat, le 4 h.biHeight.toUInt32.toNat, le 2 h.biPlanes.toNat,
    le 2 h.biBitCount.toNat, le 4 h.biCompression.toNat, le 4 h.biSizeImage.toNat,
    le 4 h.biXPelsPerMeter.toUInt32.toNat, le 4 h.biYPelsPerMeter.toUInt32.toNat, le 4 h.blClrUsed.toNat,
    le 4 h.blClrImportant.toNat, le 4 h.redMask.toNat, le 4 h.greenMask.toNat, le 4 h.blueMask.toNat,
    le 4 h.alphaMask.toNat, le 4 h.csType.toNat, h.colorEndPt, le 4 h.gammaRed.toNat, le 4 h.gammaGreen.toNat,
    le 4 h.gammaBlue.toNat]

/-- a 32-bit member of a structure in memory -/
def mem32 (mem : ℕ → UInt8) (off : ℕ) : UInt32 := UInt32.ofNat (field mem off 4)

/-- a 16-bit member of a structure in memory -/
def mem16 (mem : ℕ → UInt8) (off : ℕ) : UInt16 := UInt16.ofNat (field mem off 2)

def FileHeader.ofMem (mem : ℕ → UInt8) : FileHeader := ⟨mem16 mem 0, mem32 mem 2, mem32 mem 6, mem32 mem 10⟩

def V4InfoHeader.ofMem (mem : ℕ → UInt8) : V4InfoHeader where
  biSize := mem32 mem 0
  biWidth := (mem32 mem 4).toInt32
  biHeight := (mem32 mem 8).toInt32
  biPlanes := mem16 mem 12
  biBitCount := mem16 mem 14
  biCompression := mem32 mem 16
  biSizeImage := mem32 mem 20
  biXPelsPerMeter := (mem32 mem 24).toInt32
  biYPelsPerMeter := (mem32 mem 28).toInt32
  blClrUsed := mem32 mem 32
  blClrImportant := mem32 mem 36
  redMask := mem32 mem 40
  greenMask := mem32 mem 44
  blueMask := mem32 mem 48
  alphaMask := mem32 mem 52
  csType := mem32 mem 56
  colorEndPt := (List.range' 60 36).map mem
  gammaRed := mem32 mem 96
  gammaGreen := mem32 mem 100
  gammaBlue := mem32 mem 104

/-! ## Saving -/

def savedFileHeader (b : DIBitmap) : FileHeader where
  bfType := 0x4D42
  bfSize := 14 + 108 + calculateRawArraySize b.bSpec.bmpWidth b.bSpec.bmpHeight b.bSpec.bitsPerPx
  bfReserved := 0
  bfOffBytes := 14 + 108

def savedInfoHeader (b : DIBitmap) : V4InfoHeader where
  biSize := 108
  biWidth := b.bSpec.bmpWidth
  biHeight := getAdjustedHeight b.bSpec.bmpHeight.toUInt32 b.bSpec.bmpFlags.toUInt32
  biPlanes := 1
  biBitCount := b.bSpec.bitsPerPx
  biCompression := mapToCompressionMethod b.bSpec.bmpFlags.toUInt32
  biSizeImage := calculateRawArraySize b.bSpec.bmpWidth b.bSpec.bmpHeight b.bSpec.bitsPerPx
  biXPelsPerMeter := 0
  biYPelsPerMeter := 0
  blClrUsed := 0
  blClrImportant := 0
  redMask := b.bSpec.redMask
  greenMask := b.bSpec.greenMask
  blueMask := b.bSpec.blueMask
  alphaMask := b.bSpec.alphaMask
  csType := 0xFFFFFFFF
  colorEndPt := List.replicate 36 0
  gammaRed := 0
  gammaGreen := 0
  gammaBlue := 0

/-- the three writes: file header, info header, pixels -/
def savedParts (b : DIBitmap) : List (List UInt8) :=
  (savedFileHeader b).parts ++ (savedInfoHeader b).parts ++
    [(List.range (savedInfoHeader b).biSizeImage.toNat).map b.pxArray.mem]

/-- `NkDIBitmapSave`: the code and the file; `opened` tells whether the file can be opened, and writing succeeds -/
def dibitmapSave (b : DIBitmap) (opened : Bool) : NkErrorCode × Option (List UInt8) :=
  if opened then (.ok, some (savedParts b).flatten) else (.openFile, none)

/-! ## Loading -/

/-- what the stack holds where the two headers are placed -/
structure StackMem where
  fileHead : ℕ → UInt8
  dibHead : ℕ → UInt8

structure LoadResult where
  code : NkErrorCode
  bitmap : Option DIBitmap
  fileHead : FileHeader
  dibHead : V4InfoHeader
  /-- bytes of the file header, of the info header and of the pixel array that came from the file -/
  fileGot : ℕ
  dibGot : ℕ
  pxGot : ℕ

/-- `fseek` to a position that was stored as an unsigned number: a negative `long` fails and changes nothing -/
def seekTo (s : Stream) (offset : UInt32) : Stream :=
  if 0 ≤ offset.toInt32 then { s with pos := offset.toNat } else s

def pxBufSize (h : V4InfoHeader) : UInt32 :=
  if h.biSizeImage ≠ 0 then h.biSizeImage else calculateRawArraySize h.biWidth h.biHeight h.biBitCount

/-- the specification a loaded bitmap gets; the line that copies the red mask stands there three times -/
def loadedSpec (h : V4InfoHeader) : BitmapSpecification where
  structSize := specBytes
  bmpWidth := h.biWidth
  bmpHeight := h.biHeight
  bmpStride := calculateStride h.biWidth h.biBitCount
  bitsPerPx := h.biBitCount
  bmpFlags := 0
  redMask := if h.biCompression = biBitfields then h.redMask else 0
  greenMask := 0
  blueMask := 0
  alphaMask := if h.biCompression = biBitfields ∧ h.biSize.toNat = v4HeaderBytes then h.alphaMask else 0

/-- `NkDIBitmapLoad` of a file that was opened -/
def loadStream (file : List UInt8) (stack : StackMem) (heap : Option (Fresh UInt8)) : LoadResult :=
  let s₀ : Stream := ⟨file, 0⟩
  let fileMem := s₀.read stack.fileHead fileHeaderBytes
  let fileGot := s₀.avail fileHeaderBytes
  let s₁ := s₀.advance fileHeaderBytes
  let sizeMem := s₁.read stack.dibHead 4
  let s₂ : Stream := { s₁ with pos := fileHeaderBytes }
  let fileHead := FileHeader.ofMem fileMem
  if (mem32 sizeMem 0).toNat = infoHeaderBytes ∨ (mem32 sizeMem 0).toNat = v4HeaderBytes then
    -- all 108 bytes are read, also behind the shorter header
    let dibMem := s₂.read sizeMem v4HeaderBytes
    let dibGot := s₂.avail v4HeaderBytes
    let dibHead := V4InfoHeader.ofMem dibMem
    let s₃ := seekTo (s₂.advance v4HeaderBytes) fileHead.bfOffBytes
    match gpAlloc (pxBufSize dibHead).toNat heap with
    | (code, none) => ⟨code, none, fileHead, dibHead, fileGot, dibGot, 0⟩
    | (_, some b) =>
      { code := .ok
        bitmap := some ⟨loadedSpec dibHead, { b with mem := s₃.read b.mem (pxBufSize dibHead).toNat }⟩
        fileHead := fileHead
        dibHead := dibHead
        fileGot := fileGot
        dibGot := dibGot
        pxGot := s₃.avail (pxBufSize dibHead).toNat }
  else ⟨.unsupportedFileFormat, none, fileHead, V4InfoHeader.ofMem sizeMem, fileGot, s₁.avail 4, 0⟩

/-- `NkDIBitmapLoad`; no file if it cannot be opened -/
def dibitmapLoad (file : Option (List UInt8)) (stack : StackMem) (heap : Option (Fresh UInt8)) : LoadResult :=
  match file with
  | none => ⟨.openFile, none, FileHeader.ofMem stack.fileHead, V4InfoHeader.ofMem stack.dibHead, 0, 0, 0⟩
  | some file => loadStream file stack heap

end Noriko.Bmp
