/-
Hashing and comparing keys (`__NkInt_HashtableHash`, `__NkInt_HashtableCompareKeys` of `htable.c`).

A key is a union of eight bytes in memory: an integer or a pointer that is the key itself, or a pointer to a string, a
string view or a UUID. The hash is HalfSipHash of the bytes from `ni` on, and its seed is the 64-bit seed of the context.

Two defects keep equal keys apart. The size of a UUID is that of the 16 bytes pointed to, while `ni` stays at the union, so
the pointer and the eight bytes behind the union are hashed. And views are compared up to a common `NUL` but hashed whole.
All other keys are hashed by their value (`hash_right_iff`).
-/
import Noriko.Dstruct.Htable
import Noriko.ViewCompare

namespace Noriko.Dstruct

open Lib

/-! ## HalfSipHash -/

structure SipState where
  v0 : UInt32
  v1 : UInt32
  v2 : UInt32
  v3 : UInt32
deriving DecidableEq

/-- `ROTL` -/
def rotl (x b : UInt32) : UInt32 := x <<< b ||| x >>> (32 - b)

/-- `SIPROUND` -/
def sipRound (s : SipState) : SipState :=
  let v0 := s.v0 + s.v1
  let v1 := rotl s.v1 5 ^^^ v0
  let v0 := rotl v0 16
  let v2 := s.v2 + s.v3
  let v3 := rotl s.v3 8 ^^^ v2
  let v0 := v0 + v3
  let v3 := rotl v3 7 ^^^ v0
  let v2 := v2 + v1
  let v1 := rotl v1 13 ^^^ v2
  let v2 := rotl v2 16
  ⟨v0, v1, v2, v3⟩

/-- `U8TO32_LE` -/
def u8To32Le (mem : ℕ → UInt8) (p : ℕ) : UInt32 :=
  (mem p).toUInt32 ||| (mem (p + 1)).toUInt32 <<< 8 ||| (mem (p + 2)).toUInt32 <<< 16 ||| (mem (p + 3)).toUInt32 <<< 24

/-- two rounds with a word of the message -/
def sipWord (s : SipState) (m : UInt32) : SipState :=
  let s := sipRound (sipRound { s with v3 := s.v3 ^^^ m })
  { s with v0 := s.v0 ^^^ m }

/-- the loop over the whole words from `ni` on -/
def sipWords (mem : ℕ → UInt8) : ℕ → ℕ → SipState → SipState
  | 0, _, s => s
  | words + 1, ni, s => sipWords mem words (ni + 4) (sipWord s (u8To32Le mem ni))

/-- the last word: the bytes that are left, from `ni` on, and the length -/
def sipLast (mem : ℕ → UInt8) (ni inlen : ℕ) : UInt32 :=
  let left := inlen % 4
  let b := UInt32.ofNat inlen <<< 24
  let b := if left = 3 then b ||| (mem (ni + 2)).toUInt32 <<< 16 else b
  let b := if 2 ≤ left then b ||| (mem (ni + 1)).toUInt32 <<< 8 else b
  if 1 ≤ left then b ||| (mem ni).toUInt32 else b

/-- the state before the first word, for an output of eight bytes -/
def sipInit (seed : UInt64) : SipState :=
  let k0 := seed.toUInt32
  let k1 := (seed >>> 32).toUInt32
  ⟨k0, k1 ^^^ 0xee, 0x6c796765 ^^^ k0, 0x74656462 ^^^ k1⟩

/-- the eight bytes of the hash, as they are read back on a little-endian machine -/
def sipOut (s : SipState) : UInt64 :=
  let s := sipRound (sipRound (sipRound (sipRound { s with v2 := s.v2 ^^^ 0xee })))
  let low := s.v1 ^^^ s.v3
  let s := sipRound (sipRound (sipRound (sipRound { s with v1 := s.v1 ^^^ 0xdd })))
  let high := s.v1 ^^^ s.v3
  low.toUInt64 ||| high.toUInt64 <<< 32

def halfSipHash (seed : UInt64) (mem : ℕ → UInt8) (ni inlen : ℕ) : UInt64 :=
  let s := sipWords mem (inlen / 4) ni (sipInit seed)
  sipOut (sipWord s (sipLast mem (ni + 4 * (inlen / 4)) inlen))

section Congr

variable {mem mem' : ℕ → UInt8} {p q n : ℕ}

theorem sipWords_congr (h : ∀ i < 4 * n, mem (p + i) = mem' (q + i)) (s : SipState) :
    sipWords mem n p s = sipWords mem' n q s := by
  induction n generalizing p q s with
  | zero => rfl
  | succ n ih =>
    have hword : u8To32Le mem p = u8To32Le mem' q := by
      have h0 := h 0 (by omega)
      have h1 := h 1 (by omega)
      have h2 := h 2 (by omega)
      have h3 := h 3 (by omega)
      simp only [Nat.add_zero] at h0
      simp only [u8To32Le, h0, h1, h2, h3]
    have hrest : ∀ i < 4 * n, mem (p + 4 + i) = mem' (q + 4 + i) := by
      intro i hi
      rw [Nat.add_assoc, Nat.add_assoc]
      exact h (4 + i) (by omega)
    simp only [sipWords, hword]
    exact ih hrest _

theorem sipLast_congr (h : ∀ i < n % 4, mem (p + i) = mem' (q + i)) : sipLast mem p n = sipLast mem' q n := by
  have h0 : 1 ≤ n % 4 → mem p = mem' q := h 0
  have h1 : 2 ≤ n % 4 → mem (p + 1) = mem' (q + 1) := h 1
  have h2 : n % 4 = 3 → mem (p + 2) = mem' (q + 2) := fun hleft => h 2 (by omega)
  simp only [sipLast]
  by_cases hleft3 : n % 4 = 3
  · rw [h0 (by omega), h1 (by omega), h2 hleft3]
  · rw [if_neg hleft3, if_neg hleft3]
    by_cases hleft2 : 2 ≤ n % 4
    · rw [h0 (by omega), h1 hleft2]
    · rw [if_neg hleft2, if_neg hleft2]
      by_cases hleft1 : 1 ≤ n % 4
      · rw [h0 hleft1]
      · rw [if_neg hleft1, if_neg hleft1]

/-- the hash is one of the bytes it is given, wherever they are -/
theorem halfSipHash_congr (h : cells mem p n = cells mem' q n) (seed : UInt64) :
    halfSipHash seed mem p n = halfSipHash seed mem' q n := by
  have hbytes := cells_eq_iff.1 h
  have hwords : ∀ i < 4 * (n / 4), mem (p + i) = mem' (q + i) := fun i hi => hbytes i (by omega)
  have hlast : ∀ i < n % 4, mem (p + 4 * (n / 4) + i) = mem' (q + 4 * (n / 4) + i) := by
    intro i hi
    rw [Nat.add_assoc, Nat.add_assoc]
    exact hbytes (4 * (n / 4) + i) (by omega)
  unfold halfSipHash
  rw [sipWords_congr hwords, sipLast_congr hlast]

end Congr

/-! ## Keys -/

/-- `NkHashtableKey` at an address; a string key points to a string -/
structure HashtableKey (mem : ℕ → UInt8) (kType : HashtableKeyType) where
  keyPtr : ℕ
  terminated : kType = .string → Terminated mem (field mem keyPtr 8)

namespace HashtableKey

variable {mem : ℕ → UInt8}

/-- the union as an integer or pointer -/
def word {kType : HashtableKeyType} (k : HashtableKey mem kType) : ℕ := field mem k.keyPtr 8

theorem terminated_word (k : HashtableKey mem .string) : Terminated mem k.word := k.terminated rfl

/-- `__NkInt_HashtableGetKeySizeInBytes` -/
def sizeInBytes : {kType : HashtableKeyType} → HashtableKey mem kType → ℕ
  | .int64, _ => 8
  | .uint64, _ => 8
  | .pointer, _ => 8
  | .string, k => strlen mem k.word k.terminated_word
  | .stringView, k => (viewAt mem k.word).sizeInBytes
  | .uuid, _ => 16

/-- `ni` before the loop -/
def ni : {kType : HashtableKeyType} → HashtableKey mem kType → ℕ
  | .string, k => k.word
  | .stringView, k => (viewAt mem k.word).dataPtr
  | .int64, k => k.keyPtr
  | .uint64, k => k.keyPtr
  | .pointer, k => k.keyPtr
  | .uuid, k => k.keyPtr

end HashtableKey

/-- `__NkInt_HashtableHash` -/
def hashtableHash (seed : UInt64) {mem : ℕ → UInt8} {kType : HashtableKeyType} (k : HashtableKey mem kType)
    (htCap : UInt32) : UInt32 :=
  let out : UInt64 := halfSipHash seed mem k.ni k.sizeInBytes
  (((out &&& (0xffffffff : UInt64)) ^^^ (out >>> 32)) % htCap.toUInt64).toUInt32

/-- `NkUuidIsEqual` -/
def uuidIsEqual (mem : ℕ → UInt8) (fUuid sUuid : ℕ) : Bool :=
  fUuid = sUuid ∨ field mem fUuid 8 = field mem sUuid 8 ∧ field mem (fUuid + 8) 8 = field mem (sUuid + 8) 8

/-- `__NkInt_HashtableCompareKeys` -/
def hashtableCompareKeys {mem : ℕ → UInt8} : {keyType : HashtableKeyType} →
    HashtableKey mem keyType → HashtableKey mem keyType → Bool
  | .int64, f, s => f.word = s.word
  | .uint64, f, s => f.word = s.word
  | .string, f, s => strcmp mem f.word s.word f.terminated_word = 0
  | .stringView, f, s => stringViewCompare mem f.word s.word = 0
  | .pointer, f, s => f.word = s.word
  | .uuid, f, s => uuidIsEqual mem f.word s.word

section Compare

variable {mem : ℕ → UInt8}

@[simp] theorem compareKeys_string (f s : HashtableKey mem .string) :
    hashtableCompareKeys f s = true ↔ strcmp mem f.word s.word f.terminated_word = 0 := by
  simp [hashtableCompareKeys]

@[simp] theorem compareKeys_stringView (f s : HashtableKey mem .stringView) :
    hashtableCompareKeys f s = true ↔ stringViewCompare mem f.word s.word = 0 := by
  simp [hashtableCompareKeys]

/-- keys that are the union itself -/
theorem compareKeys_word {kType : HashtableKeyType} (h : kType = .int64 ∨ kType = .uint64 ∨ kType = .pointer)
    (f s : HashtableKey mem kType) : hashtableCompareKeys f s = true ↔ f.word = s.word := by
  rcases h with rfl | rfl | rfl <;> simp [hashtableCompareKeys]

end Compare

/-! ## What a key is -/

namespace HashtableKey

variable {mem : ℕ → UInt8}

/-- the value of a key as its bytes -/
def value : {kType : HashtableKeyType} → HashtableKey mem kType → List UInt8
  | .int64, k => cells mem k.keyPtr 8
  | .uint64, k => cells mem k.keyPtr 8
  | .pointer, k => cells mem k.keyPtr 8
  | .string, k => cells mem k.word (strlen mem k.word k.terminated_word)
  | .stringView, k => (viewAt mem k.word).bytes mem
  | .uuid, k => cells mem k.word 16

theorem value_stringView (k : HashtableKey mem .stringView) : k.value = (viewAt mem k.word).bytes mem := rfl

theorem value_uuid (k : HashtableKey mem .uuid) : k.value = cells mem k.word 16 := rfl

/-- the objects a key consists of: the union, and what it points to -/
def spans : {kType : HashtableKeyType} → HashtableKey mem kType → List (ℕ × ℕ)
  | .int64, k => [(k.keyPtr, 8)]
  | .uint64, k => [(k.keyPtr, 8)]
  | .pointer, k => [(k.keyPtr, 8)]
  | .string, k => [(k.keyPtr, 8), (k.word, strlen mem k.word k.terminated_word + 1)]
  | .stringView, k =>
    [(k.keyPtr, 8), (k.word, 16), ((viewAt mem k.word).dataPtr, (viewAt mem k.word).sizeInBytes)]
  | .uuid, k => [(k.keyPtr, 8), (k.word, 16)]

/-- an address belongs to the key -/
def Owns {kType : HashtableKeyType} (k : HashtableKey mem kType) (a : ℕ) : Prop := ∃ x ∈ k.spans, x.1 ≤ a ∧ a < x.1 + x.2

/-- the bytes that are hashed -/
def hashedBytes {kType : HashtableKeyType} (k : HashtableKey mem kType) : List UInt8 := cells mem k.ni k.sizeInBytes

end HashtableKey

/-- keys of a value are hashed by that value alone, and from bytes of the key -/
def HashedAlone (kType : HashtableKeyType) (v : List UInt8) : Prop :=
  ∀ mem (k : HashtableKey mem kType), k.value = v →
    (∀ a, k.ni ≤ a → a < k.ni + k.sizeInBytes → k.Owns a) ∧
      ∀ mem' (k' : HashtableKey mem' kType), k'.value = v → k.hashedBytes = k'.hashedBytes

/-- hashing of the keys with two values is right, wherever in memory the keys are -/
structure HashRight (kType : HashtableKeyType) (v1 v2 : List UInt8) : Prop where
  alone : HashedAlone kType v1 ∧ HashedAlone kType v2
  slot_lt : ∀ mem (k : HashtableKey mem kType), k.value = v1 ∨ k.value = v2 → ∀ seed htCap, 1 ≤ htCap →
    hashtableHash seed k htCap < htCap
  equal : ∀ mem (k1 k2 : HashtableKey mem kType), k1.value = v1 → k2.value = v2 → hashtableCompareKeys k1 k2 = true →
    k1.hashedBytes = k2.hashedBytes ∧ ∀ seed htCap, 1 ≤ htCap → hashtableHash seed k1 htCap = hashtableHash seed k2 htCap

/-! ## Keys that are hashed by their value -/

section Right

variable {mem mem' : ℕ → UInt8} {kType : HashtableKeyType}

theorem hashtableHash_congr {k : HashtableKey mem kType} {k' : HashtableKey mem' kType} (h : k.hashedBytes = k'.hashedBytes)
    (seed : UInt64) (htCap : UInt32) : hashtableHash seed k htCap = hashtableHash seed k' htCap := by
  have hsize : k.sizeInBytes = k'.sizeInBytes := by
    simpa [HashtableKey.hashedBytes] using congrArg List.length h
  unfold HashtableKey.hashedBytes at h
  rw [hsize] at h
  unfold hashtableHash
  rw [hsize, halfSipHash_congr h]

theorem hashtableHash_lt (seed : UInt64) (k : HashtableKey mem kType) {htCap : UInt32} (h : 1 ≤ htCap) :
    hashtableHash seed k htCap < htCap := by
  have hpos : 0 < htCap.toNat := UInt32.le_iff_toNat_le.1 h
  unfold hashtableHash
  dsimp only
  rw [UInt32.lt_iff_toNat_lt, UInt64.toNat_toUInt32, UInt64.toNat_mod, UInt32.toNat_toUInt64]
  exact Nat.lt_of_le_of_lt (Nat.mod_le _ _) (Nat.mod_lt _ hpos)

theorem hashedBytes_eq_value (h : kType ≠ .uuid) (k : HashtableKey mem kType) : k.hashedBytes = k.value := by
  cases kType with
  | uuid => exact absurd rfl h
  | _ => rfl

/-- the bytes that are hashed are one of the objects of the key, or the first part of one -/
theorem owns_hashed (h : kType ≠ .uuid) (k : HashtableKey mem kType) {a : ℕ} (hlow : k.ni ≤ a)
    (hhigh : a < k.ni + k.sizeInBytes) : k.Owns a := by
  cases kType with
  | uuid => exact absurd rfl h
  | string => exact ⟨_, List.mem_cons_of_mem _ (List.mem_singleton_self _), hlow, Nat.lt_succ_of_lt hhigh⟩
  | stringView =>
    exact ⟨_, List.mem_cons_of_mem _ (List.mem_cons_of_mem _ (List.mem_singleton_self _)), hlow, hhigh⟩
  | _ => exact ⟨_, List.mem_singleton_self _, hlow, hhigh⟩

theorem hashedAlone (h : kType ≠ .uuid) (v : List UInt8) : HashedAlone kType v := by
  intro mem k hk
  refine ⟨fun a => owns_hashed h k, fun mem' k' hk' => ?_⟩
  rw [hashedBytes_eq_value h, hashedBytes_eq_value h, hk, hk']

/-- views that are taken for equal have the same bytes or hide a difference -/
theorem value_view_eq {k1 k2 : HashtableKey mem .stringView} (hcmp : hashtableCompareKeys k1 k2 = true)
    (h : ¬ HiddenDifference k1.value k2.value) : k1.value = k2.value := by
  obtain ⟨hsize, hvis⟩ := stringViewCompare_eq_zero.1 ((compareKeys_stringView k1 k2).1 hcmp)
  rw [HashtableKey.value_stringView, HashtableKey.value_stringView] at h ⊢
  have hlen : ((viewAt mem k1.word).bytes mem).length = ((viewAt mem k2.word).bytes mem).length := by
    simpa [NkStringView.bytes] using hsize
  by_contra hne
  exact h ((hiddenDifference_iff hlen).2 ⟨hvis, hne⟩)

/-- views with a hidden difference are taken for equal -/
theorem compare_of_hidden {k1 k2 : HashtableKey mem .stringView} (h : HiddenDifference k1.value k2.value) :
    hashtableCompareKeys k1 k2 = true ∧ k1.value ≠ k2.value := by
  rw [HashtableKey.value_stringView, HashtableKey.value_stringView] at h ⊢
  have hlen : ((viewAt mem k1.word).bytes mem).length = ((viewAt mem k2.word).bytes mem).length := by
    obtain ⟨t, r, r', hv1, hv2, hr, -⟩ := h
    rw [hv1, hv2, List.length_append, List.length_append, List.length_cons, List.length_cons, hr]
  obtain ⟨hvis, hne⟩ := (hiddenDifference_iff hlen).1 h
  refine ⟨(compareKeys_stringView k1 k2).2 (stringViewCompare_eq_zero.2 ⟨?_, hvis⟩), hne⟩
  simpa [NkStringView.bytes] using hlen

theorem value_eq_of_compare (h : kType ≠ .uuid) {k1 k2 : HashtableKey mem kType}
    (hview : kType = .stringView → ¬ HiddenDifference k1.value k2.value) (hcmp : hashtableCompareKeys k1 k2 = true) :
    k1.value = k2.value := by
  cases kType with
  | uuid => exact absurd rfl h
  | string => exact (strcmp_eq_zero k1.terminated_word k2.terminated_word ((compareKeys_string k1 k2).1 hcmp)).2
  | stringView => exact value_view_eq hcmp (hview rfl)
  | int64 => exact field_eq_iff.1 ((compareKeys_word (Or.inl rfl) k1 k2).1 hcmp)
  | uint64 => exact field_eq_iff.1 ((compareKeys_word (Or.inr (Or.inl rfl)) k1 k2).1 hcmp)
  | pointer => exact field_eq_iff.1 ((compareKeys_word (Or.inr (Or.inr rfl)) k1 k2).1 hcmp)

end Right

/-! ## UUIDs -/

/-- a union at address 0 that points to a UUID at address 32 -/
def uuidMem (uuid : List UInt8) : ℕ → UInt8 := fun a =>
  if a = 0 then 32 else if 32 ≤ a ∧ a < 48 then uuid.getD (a - 32) 0 else 0

def uuidKey (uuid : List UInt8) : HashtableKey (uuidMem uuid) .uuid := ⟨0, nofun⟩

theorem word_uuidKey (uuid : List UInt8) : (uuidKey uuid).word = 32 := by
  have hbytes : cells (uuidMem uuid) 0 8 = [32, 0, 0, 0, 0, 0, 0, 0] := rfl
  unfold HashtableKey.word field
  exact congrArg leNat hbytes

theorem value_uuidKey {uuid : List UInt8} (h : uuid.length = 16) : (uuidKey uuid).value = uuid := by
  have hholds : Holds (uuidMem uuid) 32 uuid := by
    intro k hk
    unfold uuidMem
    rw [if_neg (by omega), if_pos ⟨by omega, by omega⟩, Nat.add_sub_cancel_left, List.getD_eq_getElem _ _ hk]
  rw [HashtableKey.value_uuid, word_uuidKey, ← h]
  exact cells_of_holds hholds

/-- there is no UUID that is hashed from its own bytes -/
theorem not_hashedAlone_uuid {uuid : List UInt8} (h : uuid.length = 16) : ¬ HashedAlone .uuid uuid := by
  intro halone
  obtain ⟨hinside, -⟩ := halone _ (uuidKey uuid) (value_uuidKey h)
  have hstart : (uuidKey uuid).ni = 0 := rfl
  have hsize : (uuidKey uuid).sizeInBytes = 16 := rfl
  have hspans : (uuidKey uuid).spans = [(0, 8), (32, 16)] := by
    rw [← word_uuidKey uuid]
    rfl
  rw [hstart, hsize] at hinside
  -- the byte behind the union is hashed
  obtain ⟨x, hx, hlow, hhigh⟩ := hinside 8 (by omega) (by omega)
  rw [hspans] at hx
  simp only [List.mem_cons, List.not_mem_nil, or_false] at hx
  rcases hx with rfl | rfl
  · exact absurd hhigh (by decide)
  · exact absurd hlow (by decide)

/-- two equal UUIDs at 48 and 64, with unions at 0 and 8 that point to them -/
def twoUuids : ℕ → UInt8 := fun a => if a = 0 then 48 else if a = 8 then 64 else 0

/-- equal UUIDs at different addresses get different slots -/
theorem twoUuids_slots :
    ∃ k1 k2 : HashtableKey twoUuids .uuid, k1.value = k2.value ∧ hashtableCompareKeys k1 k2 = true ∧
      hashtableHash 1 k1 16 ≠ hashtableHash 1 k2 16 :=
  ⟨⟨0, nofun⟩, ⟨8, nofun⟩, by decide +kernel⟩

/-! ## All keys -/

/-- keys that compare equal have one slot, and the hash is one of the key alone, exactly if the keys are not UUIDs and not
views with a difference behind a common `NUL` -/
theorem hash_right_iff {mem : ℕ → UInt8} {kType : HashtableKeyType} (k1 k2 : HashtableKey mem kType) :
    HashRight kType k1.value k2.value ↔
      kType ≠ .uuid ∧ (kType = .stringView → ¬ HiddenDifference k1.value k2.value) := by
  constructor
  · intro h
    have huuid : kType ≠ .uuid := by
      rintro rfl
      exact not_hashedAlone_uuid (length_cells mem k1.word 16) h.alone.1
    refine ⟨huuid, ?_⟩
    rintro rfl hhidden
    obtain ⟨hcmp, hne⟩ := compare_of_hidden hhidden
    exact hne (h.equal mem k1 k2 rfl rfl hcmp).1
  · rintro ⟨huuid, hview⟩
    refine ⟨⟨hashedAlone huuid _, hashedAlone huuid _⟩, ?_, ?_⟩
    · intro mem' k _ seed htCap hcap
      exact hashtableHash_lt seed k hcap
    · intro mem' j1 j2 hj1 hj2 hcmp
      rw [← hj1, ← hj2] at hview
      have hbytes : j1.hashedBytes = j2.hashedBytes := by
        rw [hashedBytes_eq_value huuid, hashedBytes_eq_value huuid, value_eq_of_compare huuid hview hcmp]
      exact ⟨hbytes, fun seed htCap _ => hashtableHash_congr hbytes seed htCap⟩

end Noriko.Dstruct
