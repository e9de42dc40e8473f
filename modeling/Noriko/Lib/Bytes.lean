/-
Memory as a function from indices, little-endian integers in it, and input streams.

`blit` is `memcpy`. `field mem off n` is the `n`-byte little-endian integer at offset `off`, as a C program reads a packed
structure; `le n v` are the bytes such a field is written with. `Stream` is a file opened for reading: `fread` delivers
the bytes that are there, at most as many as asked for, and leaves the rest of the target memory alone.
-/
import Mathlib.Tactic
import Mathlib.Data.List.GetD

namespace Lib

variable {E : Type}

/-! ## Copying -/

/-- `memcpy` of `n` cells from `src` to index `at_` -/
def blit (mem : ℕ → E) (at_ : ℕ) (src : ℕ → E) (n : ℕ) : ℕ → E :=
  fun k => if at_ ≤ k ∧ k < at_ + n then src (k - at_) else mem k

theorem blit_zero_lt {mem src : ℕ → E} {n k : ℕ} (hk : k < n) : blit mem 0 src n k = src k := by
  simp [blit, hk]

/-! ## Repeated patterns -/

/-- the first `n` cells repeat the first `w` cells of `pat` -/
def Repeats (mem pat : ℕ → E) (w n : ℕ) : Prop := ∀ k < n, mem k = pat (k % w)

/-- whole repetitions, copied behind themselves or cut off there, go on repeating -/
theorem Repeats.double {mem pat : ℕ → E} {w i m : ℕ} (h : Repeats mem pat w i) (hw : w ∣ i) (hm : m ≤ i) :
    Repeats (blit mem i mem m) pat w (i + m) := by
  intro k hk
  by_cases hik : i ≤ k
  · obtain ⟨q, rfl⟩ := hw
    have hcopy : blit mem (w * q) mem m k = mem (k - w * q) := if_pos ⟨hik, hk⟩
    rw [hcopy, h (k - w * q) (by omega), Nat.sub_mul_mod hik]
  · have hkeep : blit mem i mem m k = mem k := if_neg fun hin => hik hin.1
    rw [hkeep, h k (by omega)]

/-! ## Text in memory -/

/-- the cells from index `p` on are those of `l` -/
def Holds (mem : ℕ → E) (p : ℕ) (l : List E) : Prop := ∀ k (hk : k < l.length), mem (p + k) = l[k]

theorem holds_nil (mem : ℕ → E) (p : ℕ) : Holds mem p [] := by
  intro k hk
  cases hk

theorem holds_cons {mem : ℕ → E} {p : ℕ} {a : E} {l : List E} : Holds mem p (a :: l) ↔ mem p = a ∧ Holds mem (p + 1) l := by
  constructor
  · intro h
    refine ⟨h 0 (by simp), fun k hk => ?_⟩
    have hnext := h (k + 1) (by simpa using hk)
    rwa [List.getElem_cons_succ, ← Nat.add_assoc, Nat.add_right_comm] at hnext
  · rintro ⟨h0, h⟩ k hk
    cases k with
    | zero => exact h0
    | succ k =>
      have hnext := h k (by simpa using hk)
      rwa [Nat.add_right_comm] at hnext

theorem holds_append {mem : ℕ → E} {p : ℕ} {l l' : List E} :
    Holds mem p (l ++ l') ↔ Holds mem p l ∧ Holds mem (p + l.length) l' := by
  induction l generalizing p with
  | nil => simp [holds_nil]
  | cons a l ih =>
    rw [List.cons_append, holds_cons, holds_cons, ih, and_assoc, List.length_cons, Nat.add_right_comm p 1, Nat.add_assoc]

theorem Holds.congr {mem mem' : ℕ → E} {p : ℕ} {l : List E} (h : Holds mem p l)
    (heq : ∀ k < l.length, mem' (p + k) = mem (p + k)) : Holds mem' p l := by
  intro k hk
  rw [heq k hk, h k hk]

/-- text that ends where a copy starts is not touched -/
theorem Holds.blit_after {mem : ℕ → E} {p at_ : ℕ} {l : List E} (h : Holds mem p l) (hat : p + l.length ≤ at_)
    (src : ℕ → E) (n : ℕ) : Holds (blit mem at_ src n) p l := by
  refine h.congr fun k hk => if_neg ?_
  omega

/-- text that was copied -/
theorem holds_blit {mem src : ℕ → E} {at_ n : ℕ} {l : List E} (hn : l.length ≤ n)
    (hsrc : ∀ k (hk : k < l.length), src k = l[k]) : Holds (blit mem at_ src n) at_ l := by
  intro k hk
  have hin : blit mem at_ src n (at_ + k) = src (at_ + k - at_) := if_pos ⟨Nat.le_add_right at_ k, by omega⟩
  rw [hin, Nat.add_sub_cancel_left, hsrc k hk]

/-- a text and its repetitions -/
theorem holds_flatten_replicate {mem : ℕ → E} {p : ℕ} {l : List E} (n : ℕ) :
    Holds mem p (List.replicate n l).flatten ↔ ∀ i < n, Holds mem (p + i * l.length) l := by
  induction n generalizing p with
  | zero => simp [holds_nil]
  | succ n ih =>
    have hshift : ∀ i, p + l.length + i * l.length = p + (i + 1) * l.length := by
      intro i
      rw [Nat.succ_mul]
      omega
    rw [List.replicate_succ, List.flatten_cons, holds_append, ih]
    constructor
    · rintro ⟨hfirst, hrest⟩ i hi
      cases i with
      | zero => rwa [Nat.zero_mul]
      | succ i =>
        rw [← hshift]
        exact hrest i (Nat.lt_of_succ_lt_succ hi)
    · intro h
      refine ⟨?_, fun i hi => ?_⟩
      · have hfirst := h 0 (Nat.succ_pos n)
        rwa [Nat.zero_mul] at hfirst
      · rw [hshift]
        exact h (i + 1) (Nat.succ_lt_succ hi)

/-- a cell after several copies of the same source: it was written by one of them, or it is as before -/
theorem foldl_blit {P : E → Prop} (l : List ℕ) {off : ℕ → ℕ} {src mem : ℕ → E} {n k : ℕ}
    (hsrc : ∀ i ∈ l, off i ≤ k → k < off i + n → P (src (k - off i)))
    (h : P (mem k) ∨ ∃ i ∈ l, off i ≤ k ∧ k < off i + n) : P (l.foldl (fun m i => blit m (off i) src n) mem k) := by
  induction l generalizing mem with
  | nil => simpa using h
  | cons i l ih =>
    rw [List.foldl_cons]
    refine ih (fun j hj => hsrc j (List.mem_cons_of_mem i hj)) ?_
    by_cases hi : off i ≤ k ∧ k < off i + n
    · have hcopy : blit mem (off i) src n k = src (k - off i) := if_pos hi
      rw [hcopy]
      exact Or.inl (hsrc i List.mem_cons_self hi.1 hi.2)
    · have hkeep : blit mem (off i) src n k = mem k := if_neg hi
      rw [hkeep]
      refine h.imp_right ?_
      rintro ⟨j, hj, hcover⟩
      rcases List.mem_cons.1 hj with rfl | hj
      · exact absurd hcover hi
      · exact ⟨j, hj, hcover⟩

/-- `*ptr++ = c`: memory and pointer -/
def put (s : (ℕ → E) × ℕ) (c : E) : (ℕ → E) × ℕ := (Function.update s.1 s.2 c, s.2 + 1)

/-- cells that are written one behind the other -/
theorem foldl_put (l : List E) (mem : ℕ → E) (p : ℕ) :
    (l.foldl put (mem, p)).2 = p + l.length ∧ Holds (l.foldl put (mem, p)).1 p l ∧
      ∀ k, k < p ∨ p + l.length ≤ k → (l.foldl put (mem, p)).1 k = mem k := by
  induction l generalizing mem p with
  | nil => exact ⟨rfl, holds_nil _ _, fun _ _ => rfl⟩
  | cons c l ih =>
    obtain ⟨hptr, hholds, hrest⟩ := ih (Function.update mem p c) (p + 1)
    refine ⟨?_, holds_cons.2 ⟨?_, hholds⟩, fun k hk => ?_⟩
    · rw [List.foldl_cons, put, hptr, List.length_cons]
      omega
    · rw [List.foldl_cons, put, hrest p (Or.inl (by omega)), Function.update_self]
    · rw [List.length_cons] at hk
      rw [List.foldl_cons, put, hrest k (by omega), Function.update_of_ne (by omega)]

/-! ## Little-endian integers -/

/-- the `n` bytes of `v`, lowest first -/
def le : ℕ → ℕ → List UInt8
  | 0, _ => []
  | n + 1, v => UInt8.ofNat v :: le n (v / 256)

def leNat : List UInt8 → ℕ
  | [] => 0
  | b :: l => b.toNat + 256 * leNat l

@[simp] theorem length_le (n v : ℕ) : (le n v).length = n := by
  induction n generalizing v with
  | zero => rfl
  | succ n ih => simp [le, ih]

/-- an integer comes back from its bytes, cut to their number -/
theorem leNat_le (n v : ℕ) : leNat (le n v) = v % 256 ^ n := by
  induction n generalizing v with
  | zero => simp [le, leNat, Nat.mod_one]
  | succ n ih =>
    have hbyte : (UInt8.ofNat v).toNat = v % 256 := UInt8.toNat_ofNat'
    rw [le, leNat, ih, hbyte, ← Nat.mod_mul, ← Nat.pow_succ']

/-- the bytes of a wide integer are those of its lower and of its upper part -/
theorem le_add (m n v : ℕ) : le (m + n) v = le m v ++ le n (v / 256 ^ m) := by
  induction m generalizing v with
  | zero => simp [le]
  | succ m ih => rw [Nat.succ_add, le, le, ih, List.cons_append, Nat.div_div_eq_div_mul, ← Nat.pow_succ']

/-- bytes do not depend on what lies above them -/
theorem le_mod (n v : ℕ) : le n (v % 256 ^ n) = le n v := by
  induction n generalizing v with
  | zero => rfl
  | succ n ih =>
    have hbyte : UInt8.ofNat (v % 256 ^ (n + 1)) = UInt8.ofNat v := by
      refine UInt8.toNat.inj ?_
      rw [UInt8.toNat_ofNat', UInt8.toNat_ofNat', Nat.pow_succ', Nat.mod_mul_right_mod]
    have hrest : v % 256 ^ (n + 1) / 256 = v / 256 % 256 ^ n := by
      rw [Nat.pow_succ', Nat.mod_mul_right_div_self]
    rw [le, le, hbyte, hrest, ih]

/-- zeros above do not count -/
theorem leNat_append_zeros (l : List UInt8) (n : ℕ) : leNat (l ++ List.replicate n 0) = leNat l := by
  induction l with
  | nil =>
    induction n with
    | zero => rfl
    | succ n ih =>
      have hrest : leNat (List.replicate n 0) = 0 := ih
      show leNat (0 :: List.replicate n 0) = 0
      rw [leNat, hrest]
      rfl
  | cons b l ih => rw [List.cons_append, leNat, leNat, ih]

/-- the `n`-byte integer at offset `off` -/
def field (mem : ℕ → UInt8) (off n : ℕ) : ℕ := leNat ((List.range' off n).map mem)

theorem field_congr {mem mem' : ℕ → UInt8} {off off' n : ℕ} (h : ∀ k < n, mem (off + k) = mem' (off' + k)) :
    field mem off n = field mem' off' n := by
  unfold field
  rw [List.range'_eq_map_range, List.range'_eq_map_range, List.map_map, List.map_map]
  exact congrArg leNat (List.map_congr_left fun k hk => h k (List.mem_range.1 hk))

/-- an integer that was copied -/
theorem field_blit {mem src : ℕ → UInt8} {at_ m off n : ℕ} (h : off + n ≤ m) :
    field (blit mem at_ src m) (at_ + off) n = field src off n := by
  refine field_congr fun k hk => ?_
  have hin : blit mem at_ src m (at_ + off + k) = src (at_ + off + k - at_) := if_pos ⟨by omega, by omega⟩
  rw [hin]
  congr 1
  omega

theorem field_zero (off n : ℕ) : field (fun _ => 0) off n = 0 := by
  induction n generalizing off with
  | zero => rfl
  | succ n ih =>
    have hnext := ih (off + 1)
    unfold field at hnext ⊢
    rw [List.range'_succ, List.map_cons, leNat, hnext]
    rfl

/-- a structure written part by part: part `i` is found behind the parts before it -/
theorem map_getD_flatten {parts : List (List UInt8)} {i off : ℕ} {part : List UInt8} (h : parts[i]? = some part)
    (hoff : ((parts.take i).map List.length).sum = off) :
    (List.range' off part.length).map (fun k => parts.flatten.getD k 0) = part := by
  obtain ⟨hi, hpart⟩ := List.getElem?_eq_some_iff.1 h
  have hsplit : parts.flatten = (parts.take i).flatten ++ (part ++ (parts.drop (i + 1)).flatten) := by
    rw [← List.flatten_cons, ← List.flatten_append, ← hpart, ← List.drop_eq_getElem_cons hi, List.take_append_drop]
  have hlen : (parts.take i).flatten.length = off := by
    rw [List.length_flatten, hoff]
  refine List.ext_getElem (by simp) fun k hk hk' => ?_
  rw [List.getElem_map, List.getElem_range', Nat.one_mul, hsplit,
    List.getD_append_right _ _ _ _ (by omega), hlen, Nat.add_sub_cancel_left, List.getD_append _ _ _ _ hk',
    List.getD_eq_getElem _ _ hk']

/-- a member of a structure comes back from the part it was written to -/
theorem field_flatten {parts : List (List UInt8)} {i n v off : ℕ} (h : parts[i]? = some (le n v))
    (hoff : ((parts.take i).map List.length).sum = off) :
    field (fun k => parts.flatten.getD k 0) off n = v % 256 ^ n := by
  have hmap := map_getD_flatten h hoff
  rw [length_le] at hmap
  rw [field, hmap, leNat_le]

/-! ## Streams -/

/-- a file opened for reading -/
structure Stream where
  file : List UInt8
  pos : ℕ

/-- number of bytes a request for `n` bytes delivers -/
def Stream.avail (s : Stream) (n : ℕ) : ℕ := min n (s.file.length - s.pos)

/-- `fread` of `n` bytes to the start of `mem` -/
def Stream.read (s : Stream) (mem : ℕ → UInt8) (n : ℕ) : ℕ → UInt8 :=
  blit mem 0 (fun k => s.file.getD (s.pos + k) 0) (s.avail n)

/-- the stream after a request for `n` bytes -/
def Stream.advance (s : Stream) (n : ℕ) : Stream := { s with pos := s.pos + s.avail n }

@[simp] theorem Stream.advance_file (s : Stream) (n : ℕ) : (s.advance n).file = s.file := rfl

/-- bytes that were delivered are bytes of the file -/
theorem Stream.read_of_lt (s : Stream) (mem : ℕ → UInt8) {n k : ℕ} (hk : k < s.avail n) :
    s.read mem n k = s.file.getD (s.pos + k) 0 :=
  blit_zero_lt hk

/-- a field that was delivered whole is a field of the file -/
theorem Stream.field_read (s : Stream) (mem : ℕ → UInt8) {n off w : ℕ} (h : off + w ≤ s.avail n) :
    field (s.read mem n) off w = field (fun k => s.file.getD k 0) (s.pos + off) w := by
  refine field_congr fun k hk => ?_
  rw [s.read_of_lt mem (by omega), Nat.add_assoc]

end Lib
