/-
UUIDs and their text form (`NkUuidToString`, `NkUuidFromString` of `util.c`).

A UUID is its 16 bytes in memory, the view `__NkInt_Uuid` that both functions use. A `char` is a byte.

The writer puts a hyphen before bytes 4, 6, 8 and 10, the reader skips one before any byte. `layout` is the text of 16 pairs
of digits with the writer's hyphens; the reader gets the pairs back from it (`readLoop_layout`), whatever the case of the
digits. Both round trips of `uuid_text` follow from what one pair of digits and one byte are to each other.
-/
import Mathlib.Data.Bool.AllAny
import Noriko.Def
import Noriko.Lib.Bytes
import Noriko.Lib.CString

namespace Noriko

open Lib

/-- `NkUuid` as `m_asByte` -/
@[ext]
structure NkUuid where
  asByte : List UInt8
  size : asByte.length = 16
deriving DecidableEq

namespace Uuid

/-! ## Writing -/

def chHyphen : UInt8 := 0x2d

/-- `"0123456789abcdef"[n]` -/
def hexDigit (n : UInt8) : UInt8 := if n < 10 then 0x30 + n else 0x57 + n

/-- the digits of a byte -/
def digits (b : UInt8) : UInt8 × UInt8 := (hexDigit (b >>> 4), hexDigit (b &&& 0x0f))

/-- a hyphen stands before byte `i` -/
def hyphenAt (i : ℕ) : Bool := i = 4 ∨ i = 6 ∨ i = 8 ∨ i = 10

/-- the loop of `NkUuidToString` from byte `i` on: memory and `strBuf` -/
def writeLoop : List UInt8 → ℕ → (ℕ → UInt8) × ℕ → (ℕ → UInt8) × ℕ
  | [], _, s => s
  | b :: bytes, i, s =>
    let s := if hyphenAt i then put s chHyphen else s
    let s := put s (hexDigit (b >>> 4))
    writeLoop bytes (i + 1) (put s (hexDigit (b &&& 0x0f)))

/-- `NkUuidToString`: the memory at `strBuf` after the call -/
def uuidToString (u : NkUuid) (strBuf : ℕ → UInt8) : ℕ → UInt8 := (put (writeLoop u.asByte 0 (strBuf, 0)) 0).1

/-! ## Reading -/

/-- `gl_c_NibbleTable`. The table ends at 0x80; characters behind its end are of no interest here. -/
def nibble (c : UInt8) : UInt8 :=
  if 0x30 ≤ c ∧ c ≤ 0x39 then c - 0x30
  else if 0x61 ≤ c ∧ c ≤ 0x66 then c - 0x57
  else if 0x41 ≤ c ∧ c ≤ 0x46 then c - 0x37
  else 0

/-- the byte of a pair of digits -/
def byteOf (p : UInt8 × UInt8) : UInt8 := nibble p.1 <<< 4 ||| nibble p.2

/-- the loop of `NkUuidFromString` for at most `rounds` bytes, from address `p` on -/
def readLoop (mem : ℕ → UInt8) : ℕ → ℕ → List UInt8
  | 0, _ => []
  | rounds + 1, p =>
    if mem p = 0 then []
    else
      let p := if mem p = chHyphen then p + 1 else p
      byteOf (mem p, mem (p + 1)) :: readLoop mem rounds (p + 2)

def zeroUuid : NkUuid := ⟨List.replicate 16 0, rfl⟩

/-- `NkUuidFromString`; `i` is twice the number of bytes -/
def uuidFromString (mem : ℕ → UInt8) : NkErrorCode × NkUuid :=
  if h : (readLoop mem 16 0).length = 16 then (.ok, ⟨readLoop mem 16 0, h⟩) else (.inParameter, zeroUuid)

/-! ## Text -/

/-- digits in pairs, with the hyphens of the writer from byte `i` on -/
def layout : List (UInt8 × UInt8) → ℕ → List UInt8
  | [], _ => []
  | (a, b) :: ps, i => (if hyphenAt i then [chHyphen] else []) ++ a :: b :: layout ps (i + 1)

/-- digits in pairs, without hyphens -/
def flat (ps : List (UInt8 × UInt8)) : List UInt8 := ps.flatMap fun q => [q.1, q.2]

/-- hexadecimal digit of either case -/
def IsHex (c : UInt8) : Prop := 0x30 ≤ c ∧ c ≤ 0x39 ∨ 0x61 ≤ c ∧ c ≤ 0x66 ∨ 0x41 ≤ c ∧ c ≤ 0x46

instance (c : UInt8) : Decidable (IsHex c) := by
  unfold IsHex
  infer_instance

/-- the 8-4-4-4-12 normal form -/
def NormalForm (l : List UInt8) : Prop :=
  ∃ a b c d e : List UInt8, [a, b, c, d, e].map List.length = [8, 4, 4, 4, 12] ∧
    (∀ g ∈ [a, b, c, d, e], ∀ x ∈ g, IsHex x) ∧ l = [chHyphen].intercalate [a, b, c, d, e]

theorem layout_append (ps qs : List (UInt8 × UInt8)) (i : ℕ) :
    layout (ps ++ qs) i = layout ps i ++ layout qs (i + ps.length) := by
  induction ps generalizing i with
  | nil => rfl
  | cons q ps ih =>
    rw [List.cons_append, layout, layout, ih, List.length_cons, Nat.add_right_comm, Nat.add_assoc]
    simp

theorem layout_plain {ps : List (UInt8 × UInt8)} {i : ℕ} (h : ∀ k, i ≤ k → k < i + ps.length → hyphenAt k = false) :
    layout ps i = flat ps := by
  induction ps generalizing i with
  | nil => rfl
  | cons q ps ih =>
    have hrest : layout ps (i + 1) = flat ps := ih fun k hle hlt => h k (by omega) (by rw [List.length_cons]; omega)
    have hfirst : hyphenAt i = false := h i (le_refl i) (by rw [List.length_cons]; omega)
    rw [layout, hrest, hfirst]
    simp [flat]

/-- a group that is not the first one: one hyphen in front -/
theorem layout_group {ps : List (UInt8 × UInt8)} {i : ℕ} (hne : ps ≠ []) (hi : hyphenAt i = true)
    (h : ∀ k, i < k → k < i + ps.length → hyphenAt k = false) : layout ps i = chHyphen :: flat ps := by
  cases ps with
  | nil => exact absurd rfl hne
  | cons q ps =>
    have hrest : layout ps (i + 1) = flat ps := layout_plain fun k hle hlt => h k (by omega) (by rw [List.length_cons]; omega)
    rw [layout, hi, hrest]
    simp [flat]

/-- the writer's hyphens cut 16 bytes into 8-4-4-4-12 digits -/
theorem layout_groups {a b c d e : List (UInt8 × UInt8)} (ha : a.length = 4) (hb : b.length = 2) (hc : c.length = 2)
    (hd : d.length = 2) (he : e.length = 6) :
    layout (a ++ (b ++ (c ++ (d ++ e)))) 0 = [chHyphen].intercalate [flat a, flat b, flat c, flat d, flat e] := by
  have hno : ∀ k, k ≠ 4 → k ≠ 6 → k ≠ 8 → k ≠ 10 → hyphenAt k = false := by
    intro k h4 h6 h8 h10
    simp [hyphenAt, h4, h6, h8, h10]
  have hne : ∀ {l : List (UInt8 × UInt8)} {n : ℕ}, l.length = n + 1 → l ≠ [] := by
    intro l n hl hnil
    simp [hnil] at hl
  rw [layout_append, layout_append, layout_append, layout_append, ha, hb, hc, hd]
  rw [layout_plain fun k hle hlt => hno k (by omega) (by omega) (by omega) (by omega)]
  rw [layout_group (hne hb) rfl fun k hle hlt => hno k (by omega) (by omega) (by omega) (by omega)]
  rw [layout_group (hne hc) rfl fun k hle hlt => hno k (by omega) (by omega) (by omega) (by omega)]
  rw [layout_group (hne hd) rfl fun k hle hlt => hno k (by omega) (by omega) (by omega) (by omega)]
  rw [layout_group (hne he) rfl fun k hle hlt => hno k (by omega) (by omega) (by omega) (by omega)]
  simp [List.intercalate]

theorem length_flat (ps : List (UInt8 × UInt8)) : (flat ps).length = 2 * ps.length := by
  induction ps with
  | nil => rfl
  | cons q ps ih =>
    simp only [flat, List.flatMap_cons, List.length_append, List.length_cons, List.length_nil] at ih ⊢
    omega

theorem flat_append (ps qs : List (UInt8 × UInt8)) : flat (ps ++ qs) = flat ps ++ flat qs := List.flatMap_append

theorem mem_flat {ps : List (UInt8 × UInt8)} {c : UInt8} : c ∈ flat ps ↔ ∃ q ∈ ps, c = q.1 ∨ c = q.2 := by
  simp [flat]

/-- an even number of digits comes in pairs -/
theorem exists_flat (n : ℕ) (l : List UInt8) (h : l.length = 2 * n) : ∃ ps, ps.length = n ∧ flat ps = l := by
  induction n generalizing l with
  | zero => exact ⟨[], rfl, (List.length_eq_zero_iff.1 h).symm⟩
  | succ n ih =>
    match l with
    | a :: b :: l =>
      have hlen : l.length = 2 * n := by
        simp only [List.length_cons] at h
        omega
      obtain ⟨ps, hps, hflat⟩ := ih l hlen
      refine ⟨(a, b) :: ps, by rw [List.length_cons, hps], ?_⟩
      rw [← hflat]
      rfl

/-- pairs of hexadecimal digits -/
def HexPairs (ps : List (UInt8 × UInt8)) : Prop := ∀ q ∈ ps, IsHex q.1 ∧ IsHex q.2

theorem hexPairs_flat {ps : List (UInt8 × UInt8)} (h : ∀ c ∈ flat ps, IsHex c) : HexPairs ps := by
  intro q hq
  exact ⟨h _ (mem_flat.2 ⟨q, hq, Or.inl rfl⟩), h _ (mem_flat.2 ⟨q, hq, Or.inr rfl⟩)⟩

theorem isHex_of_flat {ps : List (UInt8 × UInt8)} (h : HexPairs ps) {c : UInt8} (hc : c ∈ flat ps) : IsHex c := by
  obtain ⟨q, hq, rfl | rfl⟩ := mem_flat.1 hc
  · exact (h q hq).1
  · exact (h q hq).2

theorem exists_cut {α : Type} {l : List α} (n m : ℕ) (h : l.length = n + m) :
    ∃ a b, l = a ++ b ∧ a.length = n ∧ b.length = m := by
  refine ⟨l.take n, l.drop n, (List.take_append_drop n l).symm, ?_, ?_⟩
  · rw [List.length_take]
    omega
  · rw [List.length_drop]
    omega

/-- normal form is what the writer's hyphens make of 16 pairs of hexadecimal digits -/
theorem normalForm_iff {l : List UInt8} : NormalForm l ↔ ∃ ps, ps.length = 16 ∧ HexPairs ps ∧ l = layout ps 0 := by
  constructor
  · rintro ⟨a, b, c, d, e, hlens, hhex, rfl⟩
    simp only [List.map_cons, List.map_nil, List.cons.injEq, and_true] at hlens
    obtain ⟨ha, hb, hc, hd, he⟩ := hlens
    obtain ⟨a, ha4, rfl⟩ := exists_flat 4 a ha
    obtain ⟨b, hb2, rfl⟩ := exists_flat 2 b hb
    obtain ⟨c, hc2, rfl⟩ := exists_flat 2 c hc
    obtain ⟨d, hd2, rfl⟩ := exists_flat 2 d hd
    obtain ⟨e, he6, rfl⟩ := exists_flat 6 e he
    refine ⟨a ++ (b ++ (c ++ (d ++ e))), by simp [ha4, hb2, hc2, hd2, he6], hexPairs_flat fun x hx => ?_,
      (layout_groups ha4 hb2 hc2 hd2 he6).symm⟩
    have hin : x ∈ flat a ∨ x ∈ flat b ∨ x ∈ flat c ∨ x ∈ flat d ∨ x ∈ flat e := by
      simpa only [flat_append, List.mem_append] using hx
    rcases hin with hin | hin | hin | hin | hin <;> exact hhex _ (by simp) x hin
  · rintro ⟨ps, hlen, hhex, rfl⟩
    obtain ⟨a, r, rfl, ha, hr⟩ := exists_cut 4 12 hlen
    obtain ⟨b, r, rfl, hb, hr⟩ := exists_cut 2 10 hr
    obtain ⟨c, r, rfl, hc, hr⟩ := exists_cut 2 8 hr
    obtain ⟨d, e, rfl, hd, he⟩ := exists_cut 2 6 hr
    refine ⟨flat a, flat b, flat c, flat d, flat e, by simp [length_flat, ha, hb, hc, hd, he], fun g hg x hx => ?_,
      layout_groups ha hb hc hd he⟩
    refine isHex_of_flat hhex ?_
    simp only [flat_append, List.mem_append]
    simp only [List.mem_cons, List.not_mem_nil, or_false] at hg
    rcases hg with rfl | rfl | rfl | rfl | rfl <;> simp [hx]

/-! ## Digits and bytes -/

theorem forall_uint8 {P : UInt8 → Prop} (h : ∀ n : Fin 256, P (UInt8.ofFin n)) (b : UInt8) : P b := h b.toFin

theorem byteOf_digits (b : UInt8) : byteOf (digits b) = b :=
  forall_uint8 (P := fun b => byteOf (digits b) = b) (by decide +kernel) b

theorem isHex_digits (b : UInt8) : IsHex (digits b).1 ∧ IsHex (digits b).2 :=
  forall_uint8 (P := fun b => IsHex (digits b).1 ∧ IsHex (digits b).2) (by decide +kernel) b

theorem hexDigit_nibble {c : UInt8} : IsHex c → nibble c < 16 ∧ hexDigit (nibble c) = lower c :=
  forall_uint8 (P := fun c => IsHex c → nibble c < 16 ∧ hexDigit (nibble c) = lower c) (by decide +kernel) c

theorem IsHex.ne {c : UInt8} : IsHex c → c ≠ 0 ∧ c ≠ chHyphen :=
  forall_uint8 (P := fun c => IsHex c → c ≠ 0 ∧ c ≠ chHyphen) (by decide +kernel) c

/-- a byte that was put together from two digits is taken apart again -/
theorem byte_split {n m : UInt8} (hn : n < 16) (hm : m < 16) : (n <<< 4 ||| m) >>> 4 = n ∧ (n <<< 4 ||| m) &&& 0x0f = m := by
  have hall : ∀ n m : Fin 16, let x := UInt8.ofNat n; let y := UInt8.ofNat m
      (x <<< 4 ||| y) >>> 4 = x ∧ (x <<< 4 ||| y) &&& 0x0f = y := by decide +kernel
  have h := hall ⟨n.toNat, hn⟩ ⟨m.toNat, hm⟩
  simpa using h

theorem digits_byteOf {q : UInt8 × UInt8} (h : IsHex q.1 ∧ IsHex q.2) : digits (byteOf q) = (lower q.1, lower q.2) := by
  obtain ⟨hn, hfst⟩ := hexDigit_nibble h.1
  obtain ⟨hm, hsnd⟩ := hexDigit_nibble h.2
  obtain ⟨hhigh, hlow⟩ := byte_split hn hm
  rw [digits, byteOf, hhigh, hlow, hfst, hsnd]

/-! ## Both loops on a text -/

theorem writeLoop_eq (bytes : List UInt8) (i : ℕ) (s : (ℕ → UInt8) × ℕ) :
    writeLoop bytes i s = (layout (bytes.map digits) i).foldl put s := by
  induction bytes generalizing i s with
  | nil => rfl
  | cons b bytes ih =>
    rw [writeLoop, List.map_cons, digits, layout, List.foldl_append, ih]
    by_cases hi : hyphenAt i
    · simp [hi]
    · simp [hi]

/-- the reader gets the pairs back: no pair starts with NUL or a hyphen -/
theorem readLoop_layout {mem : ℕ → UInt8} {ps : List (UInt8 × UInt8)} {i p : ℕ} (hhex : HexPairs ps)
    (h : Holds mem p (layout ps i)) : readLoop mem ps.length p = ps.map byteOf := by
  induction ps generalizing i p with
  | nil => rfl
  | cons q ps ih =>
    obtain ⟨hnul, hhyphen⟩ := (hhex q List.mem_cons_self).1.ne
    have hrest : HexPairs ps := fun x hx => hhex x (List.mem_cons_of_mem q hx)
    rw [layout] at h
    rw [List.length_cons, readLoop, List.map_cons]
    by_cases hi : hyphenAt i
    · rw [if_pos hi, List.cons_append, List.nil_append, holds_cons, holds_cons, holds_cons] at h
      obtain ⟨h0, h1, h2, hlater⟩ := h
      have hne : mem p ≠ 0 := by
        rw [h0]
        decide
      rw [if_neg hne]
      simp only [h0, if_true, h1, h2, ih hrest hlater]
    · rw [if_neg hi, List.nil_append, holds_cons, holds_cons] at h
      obtain ⟨h0, h1, hlater⟩ := h
      have hne : mem p ≠ 0 := by
        rwa [h0]
      rw [if_neg hne]
      simp only [h0, if_neg hhyphen, h1, ih hrest hlater]

theorem length_layout {ps : List (UInt8 × UInt8)} (hlen : ps.length = 16) : (layout ps 0).length = 36 := by
  have hgen : ∀ (ps : List (UInt8 × UInt8)) (i : ℕ),
      (layout ps i).length = 2 * ps.length + (List.range' i ps.length).countP hyphenAt := by
    intro ps
    induction ps with
    | nil => intro i; rfl
    | cons q ps ih =>
      intro i
      rw [layout, List.length_append, List.length_cons, List.length_cons, ih, List.length_cons, List.range'_succ,
        List.countP_cons]
      by_cases hi : hyphenAt i
      · simp only [if_pos hi, List.length_cons, List.length_nil]
        omega
      · simp only [if_neg hi, List.length_nil]
        omega
  rw [hgen, hlen]
  rfl

theorem map_lower_layout {ps : List (UInt8 × UInt8)} {i : ℕ} (hhex : HexPairs ps) :
    (layout ps i).map lower = layout ((ps.map byteOf).map digits) i := by
  induction ps generalizing i with
  | nil => rfl
  | cons q ps ih =>
    have hrest : HexPairs ps := fun x hx => hhex x (List.mem_cons_of_mem q hx)
    rw [List.map_cons, List.map_cons, digits_byteOf (hhex q List.mem_cons_self), layout, layout, ← ih hrest]
    by_cases hi : hyphenAt i
    · simp only [if_pos hi, List.map_append, List.map_cons, List.map_nil]
      rfl
    · simp only [if_neg hi, List.map_append, List.map_cons, List.map_nil]

/-- the text that `NkUuidToString` writes -/
def text (u : NkUuid) : List UInt8 := layout (u.asByte.map digits) 0

theorem length_text (u : NkUuid) : (text u).length = 36 := length_layout (by rw [List.length_map, u.size])

theorem hexPairs_digits (bytes : List UInt8) : HexPairs (bytes.map digits) := by
  intro q hq
  obtain ⟨b, -, rfl⟩ := List.mem_map.1 hq
  exact isHex_digits b

theorem normalForm_text (u : NkUuid) : NormalForm (text u) :=
  normalForm_iff.2 ⟨u.asByte.map digits, by rw [List.length_map, u.size], hexPairs_digits _, rfl⟩

theorem uuidToString_spec (u : NkUuid) (strBuf : ℕ → UInt8) :
    Holds (uuidToString u strBuf) 0 (text u ++ [0]) ∧ ∀ k, 37 ≤ k → uuidToString u strBuf k = strBuf k := by
  have heq : uuidToString u strBuf = ((text u ++ [0]).foldl put (strBuf, 0)).1 := by
    rw [uuidToString, writeLoop_eq, List.foldl_append, text]
    rfl
  obtain ⟨-, hholds, hrest⟩ := foldl_put (text u ++ [0]) strBuf 0
  rw [heq]
  refine ⟨hholds, fun k hk => hrest k (Or.inr ?_)⟩
  rw [List.length_append, length_text]
  simpa using hk

theorem uuidFromString_layout {mem : ℕ → UInt8} {ps : List (UInt8 × UInt8)} (hlen : ps.length = 16) (hhex : HexPairs ps)
    (h : Holds mem 0 (layout ps 0)) :
    uuidFromString mem = (.ok, ⟨ps.map byteOf, by rw [List.length_map, hlen]⟩) := by
  have hread : readLoop mem 16 0 = ps.map byteOf := by
    rw [← hlen]
    exact readLoop_layout hhex h
  have hsize : (readLoop mem 16 0).length = 16 := by
    rw [hread, List.length_map, hlen]
  rw [uuidFromString, dif_pos hsize]
  simp only [hread]

/-- a UUID is written as 36 characters of normal form and a NUL, and read back from them; a text in normal form, of either
case, is read and written back in lower case -/
theorem uuid_text (strBuf : ℕ → UInt8) :
    (∀ u, ∃ l : List UInt8, l.length = 36 ∧ NormalForm l ∧ Holds (uuidToString u strBuf) 0 (l ++ [0]) ∧
      (∀ k, 37 ≤ k → uuidToString u strBuf k = strBuf k) ∧ uuidFromString (uuidToString u strBuf) = (.ok, u)) ∧
    ∀ (mem : ℕ → UInt8) (l : List UInt8), NormalForm l → Holds mem 0 (l ++ [0]) →
      ∃ u, uuidFromString mem = (.ok, u) ∧ Holds (uuidToString u strBuf) 0 (l.map lower ++ [0]) := by
  constructor
  · intro u
    obtain ⟨hholds, hrest⟩ := uuidToString_spec u strBuf
    have hlen : (u.asByte.map digits).length = 16 := by
      rw [List.length_map, u.size]
    have hread := uuidFromString_layout hlen (hexPairs_digits _) (holds_append.1 hholds).1
    have hbytes : (u.asByte.map digits).map byteOf = u.asByte := by
      rw [List.map_map]
      exact List.map_id'' byteOf_digits _
    refine ⟨text u, length_text u, normalForm_text u, hholds, hrest, ?_⟩
    simpa only [hbytes] using hread
  · intro mem l hform hmem
    obtain ⟨ps, hlen, hhex, rfl⟩ := normalForm_iff.1 hform
    refine ⟨_, uuidFromString_layout hlen hhex (holds_append.1 hmem).1, ?_⟩
    rw [map_lower_layout hhex]
    exact (uuidToString_spec _ strBuf).1

/-- `"ABCDEF01-2345-6789-abcd-EF0123456789"` -/
def mixedCase : List UInt8 := [0x41, 0x42, 0x43, 0x44, 0x45, 0x46, 0x30, 0x31, 0x2d, 0x32, 0x33, 0x34, 0x35, 0x2d,
  0x36, 0x37, 0x38, 0x39, 0x2d, 0x61, 0x62, 0x63, 0x64, 0x2d, 0x45, 0x46, 0x30, 0x31, 0x32, 0x33, 0x34, 0x35, 0x36, 0x37,
  0x38, 0x39]

theorem uuid_text_mixedCase :
    ∃ u, uuidFromString (fun k => mixedCase.getD k 0) = (.ok, u) ∧
      Holds (uuidToString u fun _ => 0) 0 (mixedCase.map lower ++ [0]) := by
  refine (uuid_text fun _ => 0).2 _ mixedCase ?_ (by unfold Holds; decide)
  refine ⟨mixedCase.take 8, (mixedCase.drop 9).take 4, (mixedCase.drop 14).take 4, (mixedCase.drop 19).take 4,
    mixedCase.drop 24, by decide, ?_, by decide⟩
  -- as a test of the digits in the lists, not of every byte there is
  simp only [← List.all_iff_forall_prop]
  decide

end Uuid

end Noriko
