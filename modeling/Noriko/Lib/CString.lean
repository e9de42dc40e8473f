/-
C strings in memory: `strlen`, `strncmp` and `strcmp`, and `tolower`.

A string is an address from which a `NUL` is found. `strncmp` compares at most `n` bytes and stops at a `NUL` that both
strings have, so it sees the bytes in front of the first `NUL` and nothing behind it (`strncmp_eq_zero`): on `n` bytes it is
the kernel of `fun p => (cells mem p n).takeWhile (· ≠ 0)`.
-/
import Noriko.Lib.Bytes

namespace Lib

/-! ## Cells -/

section Cells

variable {E : Type}

/-- the `n` cells from address `p` on -/
def cells (mem : ℕ → E) (p n : ℕ) : List E := (List.range' p n).map mem

@[simp] theorem length_cells (mem : ℕ → E) (p n : ℕ) : (cells mem p n).length = n := by
  simp [cells]

@[simp] theorem cells_zero (mem : ℕ → E) (p : ℕ) : cells mem p 0 = [] := rfl

theorem cells_succ (mem : ℕ → E) (p n : ℕ) : cells mem p (n + 1) = mem p :: cells mem (p + 1) n := rfl

/-- two ranges hold the same cells -/
theorem cells_eq_iff {mem mem' : ℕ → E} {p q n : ℕ} :
    cells mem p n = cells mem' q n ↔ ∀ i < n, mem (p + i) = mem' (q + i) := by
  unfold cells
  rw [List.range'_eq_map_range, List.range'_eq_map_range, List.map_map, List.map_map, List.map_inj_left]
  simp

/-- cells that hold a text -/
theorem cells_of_holds {mem : ℕ → E} {p : ℕ} {l : List E} (h : Holds mem p l) : cells mem p l.length = l := by
  refine List.ext_getElem (length_cells mem p l.length) fun k hk hk' => ?_
  simp only [cells, List.getElem_map, List.getElem_range', Nat.one_mul]
  exact h k hk'

end Cells

/-! ## Integers -/

/-- an integer determines its bytes -/
theorem leNat_inj {l l' : List UInt8} (hlen : l.length = l'.length) (h : leNat l = leNat l') : l = l' := by
  induction l generalizing l' with
  | nil => exact (List.eq_nil_of_length_eq_zero hlen.symm).symm
  | cons b l ih =>
    cases l' with
    | nil => cases hlen
    | cons b' l' =>
      have hb : b.toNat < 256 := b.toNat_lt
      have hb' : b'.toNat < 256 := b'.toNat_lt
      unfold leNat at h
      have hhead : b = b' := UInt8.toNat.inj (by omega)
      have htail : l = l' := ih (Nat.succ.inj hlen) (by omega)
      rw [hhead, htail]

/-- fields are equal exactly if all their bytes are -/
theorem field_eq_iff {mem mem' : ℕ → UInt8} {p q n : ℕ} :
    field mem p n = field mem' q n ↔ cells mem p n = cells mem' q n := by
  refine ⟨fun h => leNat_inj ?_ h, fun h => ?_⟩
  · simp
  · exact field_congr (cells_eq_iff.1 h)

/-! ## Strings -/

/-- `tolower` -/
def lower (c : UInt8) : UInt8 := if 0x41 ≤ c ∧ c ≤ 0x5a then c + 0x20 else c

variable {mem : ℕ → UInt8} {p q n : ℕ}

/-- a `NUL` is found from `p` on -/
def Terminated (mem : ℕ → UInt8) (p : ℕ) : Prop := ∃ n, mem (p + n) = 0

/-- `strlen` -/
def strlen (mem : ℕ → UInt8) (p : ℕ) (h : Terminated mem p) : ℕ := Nat.find h

theorem strlen_spec (h : Terminated mem p) : mem (p + strlen mem p h) = 0 := Nat.find_spec h

theorem strlen_min (h : Terminated mem p) {i : ℕ} (hi : i < strlen mem p h) : mem (p + i) ≠ 0 := Nat.find_min h hi

theorem strlen_eq (h : Terminated mem p) (hn : mem (p + n) = 0) (hmin : ∀ i < n, mem (p + i) ≠ 0) : strlen mem p h = n :=
  (Nat.find_eq_iff h).2 ⟨hn, hmin⟩

/-- `strncmp`: the difference of the first bytes that differ, as `unsigned char` -/
def strncmp (mem : ℕ → UInt8) (p q : ℕ) : ℕ → ℤ
  | 0 => 0
  | n + 1 =>
    if mem p ≠ mem q then (mem p).toNat - (mem q).toNat
    else if mem p = 0 then 0
    else strncmp mem (p + 1) (q + 1) n

/-- `strcmp` ends at the terminator of the first string, if not before -/
def strcmp (mem : ℕ → UInt8) (p q : ℕ) (h : Terminated mem p) : ℤ := strncmp mem p q (strlen mem p h + 1)

/-- the part of a text that `strncmp` looks at -/
def visible (l : List UInt8) : List UInt8 := l.takeWhile (· ≠ 0)

@[simp] theorem visible_nil : visible [] = [] := rfl

theorem visible_zero (l : List UInt8) : visible (0 :: l) = [] := rfl

theorem visible_cons {b : UInt8} (h : b ≠ 0) (l : List UInt8) : visible (b :: l) = b :: visible l := by
  simp [visible, h]

theorem strncmp_eq_zero : strncmp mem p q n = 0 ↔ visible (cells mem p n) = visible (cells mem q n) := by
  induction n generalizing p q with
  | zero => simp [strncmp]
  | succ n ih =>
    rw [cells_succ, cells_succ, strncmp]
    by_cases heq : mem p = mem q
    · rw [if_neg (not_not.2 heq), ← heq]
      by_cases hnul : mem p = 0
      · rw [if_pos hnul, hnul, visible_zero, visible_zero]
        simp
      · rw [if_neg hnul, visible_cons hnul, visible_cons hnul, ih]
        simp
    · have hval : (mem p).toNat ≠ (mem q).toNat := fun h => heq (UInt8.toNat.inj h)
      rw [if_pos heq]
      constructor
      · intro h
        omega
      · intro h
        exfalso
        by_cases hp : mem p = 0
        · rw [hp, visible_zero, visible_cons (fun hq => heq (hp.trans hq.symm))] at h
          cases h
        · by_cases hq : mem q = 0
          · rw [hq, visible_zero, visible_cons hp] at h
            cases h
          · rw [visible_cons hp, visible_cons hq] at h
            exact heq (List.cons.inj h).1

/-- a string and its terminator: all of the string is visible -/
theorem visible_cells_string (h : Terminated mem p) :
    visible (cells mem p (strlen mem p h + 1)) = cells mem p (strlen mem p h) := by
  have hsplit : cells mem p (strlen mem p h + 1) = cells mem p (strlen mem p h) ++ [0] := by
    unfold cells
    rw [List.range'_concat, List.map_append, Nat.one_mul, List.map_singleton, strlen_spec h]
  have hne : ∀ b ∈ cells mem p (strlen mem p h), b ≠ 0 := by
    intro b hb
    obtain ⟨a, ha, rfl⟩ := List.mem_map.1 hb
    obtain ⟨i, hi, rfl⟩ := List.mem_range'.1 ha
    rw [Nat.one_mul]
    exact strlen_min h hi
  unfold visible
  rw [hsplit, List.takeWhile_append_of_pos fun b hb => by simpa using hne b hb]
  simp

/-- a range that is not visible whole is a string of the length that is seen -/
theorem visible_short {l : List UInt8} (h : visible (cells mem q n) = l) (hlen : l.length < n) :
    mem (q + l.length) = 0 ∧ cells mem q l.length = l ∧ ∀ i < l.length, mem (q + i) ≠ 0 := by
  induction n generalizing q l with
  | zero => exact absurd hlen (Nat.not_lt_zero _)
  | succ n ih =>
    rw [cells_succ] at h
    by_cases hnul : mem q = 0
    · rw [hnul, visible_zero] at h
      subst h
      exact ⟨hnul, rfl, fun i hi => absurd hi (Nat.not_lt_zero i)⟩
    · rw [visible_cons hnul] at h
      subst h
      rw [List.length_cons] at hlen
      obtain ⟨hend, hcells, hne⟩ := ih rfl (Nat.lt_of_succ_lt_succ hlen)
      rw [List.length_cons]
      refine ⟨?_, ?_, fun i hi => ?_⟩
      · rwa [Nat.add_right_comm] at hend
      · rw [cells_succ, hcells]
      · cases i with
        | zero => exact hnul
        | succ i =>
          have hi' := hne i (Nat.lt_of_succ_lt_succ hi)
          rwa [Nat.add_right_comm] at hi'

/-- strings that `strcmp` takes for equal have the same length and the same bytes -/
theorem strcmp_eq_zero (hp : Terminated mem p) (hq : Terminated mem q) (h : strcmp mem p q hp = 0) :
    strlen mem p hp = strlen mem q hq ∧ cells mem p (strlen mem p hp) = cells mem q (strlen mem q hq) := by
  unfold strcmp at h
  rw [strncmp_eq_zero, visible_cells_string hp] at h
  obtain ⟨hend, hcells, hne⟩ := visible_short h.symm (by simp)
  rw [length_cells] at hend hcells hne
  have hlen : strlen mem q hq = strlen mem p hp := strlen_eq hq hend hne
  rw [hlen, hcells]
  exact ⟨rfl, rfl⟩

end Lib
