/-
Loading an untrusted bitmap file.

`LoadSafe` is what a caller of `NkDIBitmapLoad` relies on: the load fails, or the members of the headers it used came from
the file, the dimensions are positive, the depth is 24 or 32, and the pixel buffer holds as many bytes from the file as
`NkDIBitmapGetPixels` reports. The code checks none of this beyond the size field of the info header, so it holds exactly
for files that are well formed by themselves (`loadSafe_iff`).
-/
import Noriko.Bmp.Bitmap

namespace Noriko.Bmp

open Lib

/-! ## What a caller relies on -/

/-- the members that the code uses lie in what was read: up to `biSizeImage`, and the masks it copies -/
def UsedFieldsRead (r : LoadResult) : Prop :=
  fileHeaderBytes ≤ r.fileGot ∧ 24 ≤ r.dibGot ∧ (r.dibHead.biCompression = biBitfields →
    44 ≤ r.dibGot ∧ (r.dibHead.biSize.toNat = v4HeaderBytes → 56 ≤ r.dibGot))

structure LoadedSafe (r : LoadResult) (b : DIBitmap) : Prop where
  fields : UsedFieldsRead r
  width : 0 < b.bSpec.bmpWidth
  height : 0 < b.bSpec.bmpHeight
  depth : b.bSpec.bitsPerPx = 24 ∨ b.bSpec.bitsPerPx = 32
  buffer : (dibitmapPixelSize b).toNat ≤ b.pxArray.size
  pixels : (dibitmapPixelSize b).toNat ≤ r.pxGot

def LoadSafe (r : LoadResult) : Prop := r.code = .ok → ∃ b, r.bitmap = some b ∧ LoadedSafe r b

/-! ## Well-formed files -/

/-- the file as memory -/
def fileMem (file : List UInt8) (k : ℕ) : UInt8 := file.getD k 0

/-- the info header as it stands in the file -/
def infoHeaderOf (file : List UInt8) : V4InfoHeader := V4InfoHeader.ofMem (fun k => fileMem file (fileHeaderBytes + k))

/-- end of the last header member that is used -/
def headerEnd (file : List UInt8) : ℕ :=
  fileHeaderBytes + if (infoHeaderOf file).biCompression = biBitfields then
    if (infoHeaderOf file).biSize.toNat = v4HeaderBytes then 56 else 44 else 24

/-- where the pixels are read: at the offset the file gives, or behind the headers if that offset is not one -/
def pixelStart (file : List UInt8) : ℕ :=
  if 0 ≤ (mem32 (fileMem file) 10).toInt32 then (mem32 (fileMem file) 10).toNat
  else min file.length (fileHeaderBytes + v4HeaderBytes)

/-- the size of the pixel array by its dimensions -/
def pixelBytes (file : List UInt8) : ℕ := (calculateRawArraySize (infoHeaderOf file).biWidth (infoHeaderOf file).biHeight
  (infoHeaderOf file).biBitCount).toNat

/-- the used header members are there, the dimensions are positive, the depth is supported, and the image size and the
rest of the file cover the pixels -/
structure WellFormed (file : List UInt8) : Prop where
  header : headerEnd file ≤ file.length
  width : 0 < (infoHeaderOf file).biWidth
  height : 0 < (infoHeaderOf file).biHeight
  depth : (infoHeaderOf file).biBitCount = 24 ∨ (infoHeaderOf file).biBitCount = 32
  buffer : pixelBytes file ≤ (pxBufSize (infoHeaderOf file)).toNat
  pixels : pixelBytes file ≤ min (pxBufSize (infoHeaderOf file)).toNat (file.length - pixelStart file)

/-- the size of the info header as the code sees it, with what the stack held where the file ends too early -/
def sizeField (file : List UInt8) (stack : StackMem) : ℕ :=
  (mem32 ((⟨file, min fileHeaderBytes file.length⟩ : Stream).read stack.dibHead 4) 0).toNat

/-- the code takes the header for one of the two it supports -/
def Accepted (file : List UInt8) (stack : StackMem) : Prop :=
  sizeField file stack = infoHeaderBytes ∨ sizeField file stack = v4HeaderBytes

/-! ## Members in memory and in the file -/

theorem mem32_read (s : Stream) (mem : ℕ → UInt8) {n off : ℕ} (h : off + 4 ≤ s.avail n) :
    mem32 (s.read mem n) off = mem32 (fileMem s.file) (s.pos + off) := by
  unfold mem32
  rw [s.field_read mem h]
  rfl

theorem mem16_read (s : Stream) (mem : ℕ → UInt8) {n off : ℕ} (h : off + 2 ≤ s.avail n) :
    mem16 (s.read mem n) off = mem16 (fileMem s.file) (s.pos + off) := by
  unfold mem16
  rw [s.field_read mem h]
  rfl

theorem field_shift (mem : ℕ → UInt8) (d off n : ℕ) : field (fun k => mem (d + k)) off n = field mem (d + off) n := by
  unfold field
  rw [List.range'_eq_map_range, List.range'_eq_map_range, List.map_map, List.map_map]
  congr 2
  funext k
  simp only [Function.comp_apply, Nat.add_assoc]

/-- the members up to `biSizeImage` of an info header that was read at least that far -/
theorem infoHeader_read {file : List UInt8} (mem : ℕ → UInt8) {n : ℕ}
    (h : 24 ≤ (⟨file, fileHeaderBytes⟩ : Stream).avail n) :
    let d := V4InfoHeader.ofMem ((⟨file, fileHeaderBytes⟩ : Stream).read mem n)
    d.biSize = (infoHeaderOf file).biSize ∧ d.biWidth = (infoHeaderOf file).biWidth ∧
      d.biHeight = (infoHeaderOf file).biHeight ∧ d.biBitCount = (infoHeaderOf file).biBitCount ∧
      d.biCompression = (infoHeaderOf file).biCompression ∧ d.biSizeImage = (infoHeaderOf file).biSizeImage := by
  have h32 : ∀ off, off + 4 ≤ 24 → mem32 ((⟨file, fileHeaderBytes⟩ : Stream).read mem n) off =
      mem32 (fun k => fileMem file (fileHeaderBytes + k)) off := by
    intro off hoff
    rw [mem32_read _ _ (by omega), mem32, mem32, field_shift]
  have h16 : mem16 ((⟨file, fileHeaderBytes⟩ : Stream).read mem n) 14 =
      mem16 (fun k => fileMem file (fileHeaderBytes + k)) 14 := by
    rw [mem16_read _ _ (by omega), mem16, mem16, field_shift]
  refine ⟨h32 0 (by omega), ?_, ?_, h16, h32 16 (by omega), h32 20 (by omega)⟩
  · exact congrArg UInt32.toInt32 (h32 4 (by omega))
  · exact congrArg UInt32.toInt32 (h32 8 (by omega))

/-! ## The three ways a load can end -/

section Cases

variable {file : List UInt8} {stack : StackMem}

theorem accepted_iff : Accepted file stack ↔
    let sizeMem := ((⟨file, 0⟩ : Stream).advance fileHeaderBytes).read stack.dibHead 4
    (mem32 sizeMem 0).toNat = infoHeaderBytes ∨ (mem32 sizeMem 0).toNat = v4HeaderBytes := by
  unfold Accepted sizeField Stream.advance Stream.avail
  simp only [Nat.zero_add, Nat.sub_zero]

theorem loadStream_rejected (h : ¬ Accepted file stack) (heap : Option (Fresh UInt8)) :
    (loadStream file stack heap).code = .unsupportedFileFormat := by
  rw [accepted_iff] at h
  unfold loadStream
  rw [if_neg h]

theorem loadStream_noMemory (h : Accepted file stack) : (loadStream file stack none).code = .memoryAllocation := by
  rw [accepted_iff] at h
  unfold loadStream
  rw [if_pos h]
  rfl

/-- the stream where the pixels are read -/
def pixelStream (file : List UInt8) (stack : StackMem) : Stream :=
  seekTo ((⟨file, fileHeaderBytes⟩ : Stream).advance v4HeaderBytes)
    (FileHeader.ofMem ((⟨file, 0⟩ : Stream).read stack.fileHead fileHeaderBytes)).bfOffBytes

/-- a load that succeeded, in terms of the file -/
structure Loaded (file : List UInt8) (stack : StackMem) (r : LoadResult) (b : DIBitmap) : Prop where
  code : r.code = .ok
  bitmap : r.bitmap = some b
  -- `mem` is what the read of the whole info header finds in its place
  dibHead : ∃ mem, r.dibHead = V4InfoHeader.ofMem ((⟨file, fileHeaderBytes⟩ : Stream).read mem v4HeaderBytes)
  bSpec : b.bSpec = loadedSpec r.dibHead
  size : b.pxArray.size = (pxBufSize r.dibHead).toNat
  fileGot : r.fileGot = (⟨file, 0⟩ : Stream).avail fileHeaderBytes
  dibGot : r.dibGot = (⟨file, fileHeaderBytes⟩ : Stream).avail v4HeaderBytes
  pxGot : r.pxGot = (pixelStream file stack).avail (pxBufSize r.dibHead).toNat
  pixels : ∃ mem, b.pxArray.mem = (pixelStream file stack).read mem (pxBufSize r.dibHead).toNat

theorem loadStream_ok (h : Accepted file stack) (f : Fresh UInt8) :
    ∃ b, Loaded file stack (loadStream file stack (some f)) b := by
  rw [accepted_iff] at h
  unfold loadStream
  rw [if_pos h]
  simp only [gpAlloc, Stream.advance_file]
  refine ⟨_, rfl, rfl, ⟨_, rfl⟩, rfl, ?_, rfl, rfl, ?_, f.mem, ?_⟩
  · dsimp only
  · dsimp only [pixelStream]
  · dsimp only [pixelStream]

/-- the pixels are read from `pixelStart` on -/
theorem pixelStream_eq (h : 38 ≤ file.length) : pixelStream file stack = ⟨file, pixelStart file⟩ := by
  have hoff : (FileHeader.ofMem ((⟨file, 0⟩ : Stream).read stack.fileHead fileHeaderBytes)).bfOffBytes =
      mem32 (fileMem file) 10 := by
    refine (mem32_read _ _ ?_).trans (by rw [Nat.zero_add])
    simp only [Stream.avail, fileHeaderBytes]
    omega
  have hpos : fileHeaderBytes + min v4HeaderBytes (file.length - fileHeaderBytes) =
      min file.length (fileHeaderBytes + v4HeaderBytes) := by
    unfold fileHeaderBytes v4HeaderBytes
    omega
  unfold pixelStream
  rw [hoff]
  unfold seekTo pixelStart
  split_ifs
  · rfl
  · unfold Stream.advance Stream.avail
    rw [hpos]

/-- no file that ends before `biSizeImage` is well formed -/
theorem WellFormed.length_le (h : WellFormed file) : 38 ≤ file.length := by
  refine le_trans ?_ h.header
  unfold headerEnd fileHeaderBytes
  split_ifs <;> omega

variable {r : LoadResult} {b : DIBitmap}

theorem Loaded.length_le (h : Loaded file stack r b) (hf : UsedFieldsRead r) : 38 ≤ file.length := by
  have hgot := hf.2.1
  rw [h.dibGot, Stream.avail, fileHeaderBytes] at hgot
  simp only at hgot
  omega

/-- the members the code uses are those of the file -/
theorem Loaded.header (h : Loaded file stack r b) (hlen : 38 ≤ file.length) :
    r.dibHead.biSize = (infoHeaderOf file).biSize ∧ r.dibHead.biWidth = (infoHeaderOf file).biWidth ∧
      r.dibHead.biHeight = (infoHeaderOf file).biHeight ∧ r.dibHead.biBitCount = (infoHeaderOf file).biBitCount ∧
      r.dibHead.biCompression = (infoHeaderOf file).biCompression ∧
      r.dibHead.biSizeImage = (infoHeaderOf file).biSizeImage := by
  obtain ⟨mem, hd⟩ := h.dibHead
  rw [hd]
  refine infoHeader_read mem ?_
  unfold Stream.avail fileHeaderBytes v4HeaderBytes
  simp only
  omega

/-- all header members that are used came from the file if the file reaches to the last of them -/
theorem Loaded.usedFieldsRead_iff (h : Loaded file stack r b) (hlen : 38 ≤ file.length) :
    UsedFieldsRead r ↔ headerEnd file ≤ file.length := by
  obtain ⟨hsize, -, -, -, hcompr, -⟩ := h.header hlen
  unfold UsedFieldsRead headerEnd
  rw [h.fileGot, h.dibGot, hcompr, hsize]
  unfold Stream.avail
  by_cases hb : (infoHeaderOf file).biCompression = biBitfields
  · by_cases h4 : (infoHeaderOf file).biSize.toNat = v4HeaderBytes
    · simp only [hb, h4, if_true, true_implies]
      unfold fileHeaderBytes v4HeaderBytes
      omega
    · simp only [hb, h4, if_true, if_false, true_implies, false_implies, and_true]
      unfold fileHeaderBytes v4HeaderBytes
      omega
  · simp only [hb, if_false, false_implies, and_true]
    unfold fileHeaderBytes v4HeaderBytes
    omega

theorem Loaded.pxBufSize_eq (h : Loaded file stack r b) (hlen : 38 ≤ file.length) :
    pxBufSize r.dibHead = pxBufSize (infoHeaderOf file) := by
  obtain ⟨-, hwidth, hheight, hdepth, -, himage⟩ := h.header hlen
  unfold pxBufSize
  rw [himage, hwidth, hheight, hdepth]

/-- the size that is reported is the one by the dimensions in the file -/
theorem Loaded.pixelSize_eq (h : Loaded file stack r b) (hlen : 38 ≤ file.length) :
    (dibitmapPixelSize b).toNat = pixelBytes file := by
  obtain ⟨-, hwidth, hheight, hdepth, -, -⟩ := h.header hlen
  unfold dibitmapPixelSize pixelBytes calculateRawArraySize
  rw [h.bSpec]
  unfold loadedSpec
  rw [hwidth, hheight, hdepth]

theorem Loaded.safe_iff (h : Loaded file stack r b) (hlen : 38 ≤ file.length) :
    LoadedSafe r b ↔ WellFormed file := by
  obtain ⟨-, hwidth, hheight, hdepth, -, -⟩ := h.header hlen
  have hw : b.bSpec.bmpWidth = (infoHeaderOf file).biWidth := by rw [h.bSpec, ← hwidth]; rfl
  have hh : b.bSpec.bmpHeight = (infoHeaderOf file).biHeight := by rw [h.bSpec, ← hheight]; rfl
  have hd : b.bSpec.bitsPerPx = (infoHeaderOf file).biBitCount := by rw [h.bSpec, ← hdepth]; rfl
  have hbuf : b.pxArray.size = (pxBufSize (infoHeaderOf file)).toNat := by rw [h.size, h.pxBufSize_eq hlen]
  have hgot : r.pxGot = min (pxBufSize (infoHeaderOf file)).toNat (file.length - pixelStart file) := by
    rw [h.pxGot, h.pxBufSize_eq hlen, pixelStream_eq hlen, Stream.avail]
  have hpx := h.pixelSize_eq hlen
  constructor
  · intro ⟨hfields, hwidth, hheight, hdepth, hbuffer, hpixels⟩
    rw [hw] at hwidth
    rw [hh] at hheight
    rw [hd] at hdepth
    rw [hpx, hbuf] at hbuffer
    rw [hpx, hgot] at hpixels
    exact ⟨(h.usedFieldsRead_iff hlen).1 hfields, hwidth, hheight, hdepth, hbuffer, hpixels⟩
  · intro ⟨hheader, hwidth, hheight, hdepth, hbuffer, hpixels⟩
    rw [← hw] at hwidth
    rw [← hh] at hheight
    rw [← hd] at hdepth
    rw [← hpx, ← hbuf] at hbuffer
    rw [← hpx, ← hgot] at hpixels
    exact ⟨(h.usedFieldsRead_iff hlen).2 hheader, hwidth, hheight, hdepth, hbuffer, hpixels⟩

/-- a load that succeeds is safe exactly for a well-formed file -/
theorem loadSafe_ok_iff (h : Accepted file stack) (f : Fresh UInt8) :
    LoadSafe (loadStream file stack (some f)) ↔ WellFormed file := by
  obtain ⟨b, hb⟩ := loadStream_ok h f
  constructor
  · intro hsafe
    obtain ⟨b', hb', hl⟩ := hsafe hb.code
    obtain rfl : b = b' := Option.some.inj (hb.bitmap.symm.trans hb')
    exact (hb.safe_iff (hb.length_le hl.fields)).1 hl
  · intro hw _
    exact ⟨b, hb.bitmap, (hb.safe_iff hw.length_le).2 hw⟩

end Cases

/-! ## Result -/

/-- a load is safe exactly if it fails (the file cannot be opened, its header size is not supported, there is no memory)
or the file is well formed -/
theorem loadSafe_iff (file : Option (List UInt8)) (stack : StackMem) (heap : Option (Fresh UInt8)) :
    LoadSafe (dibitmapLoad file stack heap) ↔
      heap = none ∨ ∀ bytes, file = some bytes → ¬ Accepted bytes stack ∨ WellFormed bytes := by
  cases file with
  | none =>
    have hcode : (dibitmapLoad none stack heap).code = .openFile := rfl
    simp [LoadSafe, hcode]
  | some bytes =>
    have hload : dibitmapLoad (some bytes) stack heap = loadStream bytes stack heap := rfl
    rw [hload]
    by_cases hacc : Accepted bytes stack
    · cases heap with
      | none => simp [LoadSafe, loadStream_noMemory hacc]
      | some f => simp [loadSafe_ok_iff hacc f, hacc]
    · simp [LoadSafe, loadStream_rejected hacc heap, hacc]

/-- a file with the two headers of a bitmap of 1 × 1 pixels and nothing behind them -/
def headerOnly : List UInt8 :=
  (FileHeader.parts ⟨0x4D42, 58, 0, 54⟩).flatten ++ ((le 4 40 ++ le 4 1 ++ le 4 1 ++ le 2 1 ++ le 2 24) ++
    List.replicate 24 0)

/-- the pixel that is reported for it was never read -/
theorem loadSafe_broken : ¬ ∀ file stack heap, LoadSafe (dibitmapLoad file stack heap) := by
  intro hall
  have hacc : Accepted headerOnly ⟨fun _ => 0, fun _ => 0⟩ := by
    left
    decide
  have hw := (loadSafe_ok_iff hacc ⟨0, fun _ => 0⟩).1 (hall (some headerOnly) _ (some ⟨0, fun _ => 0⟩))
  have hneeded : pixelBytes headerOnly = 4 := by decide
  have hthere : headerOnly.length - pixelStart headerOnly = 0 := by decide
  have hpixels := hw.pixels
  omega

end Noriko.Bmp
