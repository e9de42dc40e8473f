/-
Trimming of raw strings (`NkRawStringTrim` of `util.c`).

`Env.rawStringTrim` is the function on the text of a string. Here it works on memory with addresses of 64 bits, so the sum
`modPtr + maxChars` can wrap (`rawStringTrim_eq` connects the two).

The loop over the trailing characters starts at the character behind the considered ones. If that character is kept, the
loop ends at once and nothing is trimmed. If it is a key character, the loop goes back to the last character that is kept,
and the size is counted up to it instead of behind it: one too small, or wrapped if no character is kept. So a string is
trimmed as documented exactly if there is nothing to trim at its end, the next character is kept and the sum does not wrap
(`trim_exact_iff`).
-/
import Noriko.Env.Parse
import Noriko.Lib.CString
import Mathlib.Data.List.DropRight

namespace Noriko.RawTrim

open Lib

/-! ## The code -/

/-- a string that ends at an address is also found from an address in front of it -/
theorem terminated_before {mem : ℕ → UInt8} {p q : ℕ} (h : Terminated mem p) (hq : q ≤ p + strlen mem p h) :
    Terminated mem q := by
  refine ⟨p + strlen mem p h - q, ?_⟩
  rw [Nat.add_sub_cancel' hq]
  exact strlen_spec h

/-- the string at an address -/
def stringAt (mem : ℕ → UInt8) (p : ℕ) (h : Terminated mem p) : List UInt8 := cells mem p (strlen mem p h)

/-- `mp_dataPtr` behind the leading key characters, but not behind `modPtr + maxChars` -/
def leadPtr (mem : ℕ → UInt8) (strPtr maxChars : ℕ) (keyPtr : List UInt8) (h : Terminated mem strPtr) : ℕ :=
  min (strPtr + ((stringAt mem strPtr h).takeWhile fun c => c ∈ keyPtr).length) (u64 (strPtr + maxChars))

theorem leadPtr_le (mem : ℕ → UInt8) (strPtr maxChars : ℕ) (keyPtr : List UInt8) (h : Terminated mem strPtr) :
    leadPtr mem strPtr maxChars keyPtr h ≤ strPtr + strlen mem strPtr h := by
  have hlead := (List.takeWhile_sublist (l := stringAt mem strPtr h) fun c => c ∈ keyPtr).length_le
  rw [stringAt, length_cells] at hlead
  exact (min_le_left _ _).trans (Nat.add_le_add_left hlead strPtr)

/-- the loop that moves `endPtr` back; argument and result are `endPtr + 1` -/
def trimEnd (mem : ℕ → UInt8) (keyPtr : List UInt8) (dataPtr : ℕ) : ℕ → ℕ
  | 0 => 0
  | endPtr + 1 => if dataPtr ≤ endPtr ∧ mem endPtr ∈ keyPtr then trimEnd mem keyPtr dataPtr endPtr else endPtr + 1

/-- `NkRawStringTrim` for the string at `strPtr` -/
def rawStringTrim (mem : ℕ → UInt8) (strPtr maxChars : ℕ) (keyPtr : List UInt8) (h : Terminated mem strPtr) : NkStringView :=
  let dataPtr := leadPtr mem strPtr maxChars keyPtr h
  let hdata := terminated_before h (leadPtr_le mem strPtr maxChars keyPtr h)
  let endPtr := min (dataPtr + strlen mem dataPtr hdata) (u64 (strPtr + maxChars))
  ⟨dataPtr, sub64 (trimEnd mem keyPtr dataPtr (endPtr + 1)) (dataPtr + 1)⟩

/-! ## What is right -/

/-- a text without its leading and then without its trailing key characters -/
def trimmed (w keyPtr : List UInt8) : List UInt8 :=
  (w.dropWhile fun c => c ∈ keyPtr).rdropWhile fun c => c ∈ keyPtr

/-- view `v` is the trimmed part of the text `w` at `strPtr` and lies inside of it -/
structure TrimExact (mem : ℕ → UInt8) (strPtr : ℕ) (w keyPtr : List UInt8) (v : NkStringView) : Prop where
  start : v.dataPtr = strPtr + (w.takeWhile fun c => c ∈ keyPtr).length
  text : cells mem v.dataPtr v.sizeInBytes = trimmed w keyPtr
  inside : v.dataPtr + v.sizeInBytes ≤ strPtr + w.length

/-- the character behind the first `maxChars` characters is kept, and they do not end with a key character, unless they are
key characters alone -/
def EndsRight (s : List UInt8) (maxChars : ℕ) (keyPtr : List UInt8) : Prop :=
  Env.byteAt s (min s.length maxChars) ∉ keyPtr ∧
    ((∀ c ∈ s.take maxChars, c ∈ keyPtr) ∨ ∀ c ∈ (s.take maxChars).getLast?, c ∉ keyPtr)

instance (s : List UInt8) (maxChars : ℕ) (keyPtr : List UInt8) : Decidable (EndsRight s maxChars keyPtr) :=
  -- by the elements of the lists, not by all bytes
  have : Decidable (∀ c ∈ s.take maxChars, c ∈ keyPtr) := List.decidableBAll _ _
  have : Decidable (∀ c ∈ (s.take maxChars).getLast?, c ∉ keyPtr) := Option.decidableForallMem _
  inferInstanceAs (Decidable (_ ∧ (_ ∨ _)))

/-! ## Trimming a text -/

section Text

variable {s keyPtr : List UInt8} {maxChars : ℕ}

/-- from the last character of a text on, the loop goes back to the last one that is kept -/
theorem trimEnd_text (pre body tail : List UInt8) :
    Env.trimEnd (pre ++ (body ++ tail)) keyPtr pre.length (pre.length + body.length) =
      pre.length + (body.rdropWhile fun c => c ∈ keyPtr).length := by
  induction body using List.reverseRecOn generalizing tail with
  | nil =>
    rw [List.rdropWhile_nil, List.length_nil, Nat.add_zero]
    cases hlen : pre.length with
    | zero => rfl
    | succ k => rw [Env.trimEnd, if_neg fun hle => absurd hle.1 (Nat.not_succ_le_self k)]
  | append_singleton body c ih =>
    have hbyte : Env.byteAt (pre ++ (body ++ [c] ++ tail)) (pre.length + body.length) = c := by
      simp [Env.byteAt]
    rw [List.length_append, List.length_singleton, ← Nat.add_assoc, Env.trimEnd, hbyte]
    by_cases hc : c ∈ keyPtr
    · rw [if_pos ⟨Nat.le_add_right _ _, hc⟩, List.rdropWhile_concat_pos _ _ _ (by simpa using hc), List.append_assoc]
      exact ih ([c] ++ tail)
    · rw [if_neg fun hle => hc hle.2, List.rdropWhile_concat_neg _ _ _ (by simpa using hc), List.length_append,
        List.length_singleton, Nat.add_assoc]

/-- the first `maxChars` characters: leading key characters and the rest -/
theorem text_parts (s keyPtr : List UInt8) (maxChars : ℕ) :
    s = (s.take maxChars).takeWhile (fun c => c ∈ keyPtr) ++ ((s.take maxChars).dropWhile (fun c => c ∈ keyPtr) ++
      s.drop maxChars) := by
  rw [← List.append_assoc, List.takeWhile_append_dropWhile, List.take_append_drop]

/-- a limit that cuts into the leading key characters limits them -/
theorem length_lead (s keyPtr : List UInt8) (maxChars : ℕ) :
    min (s.takeWhile fun c => c ∈ keyPtr).length maxChars = ((s.take maxChars).takeWhile fun c => c ∈ keyPtr).length := by
  induction s generalizing maxChars with
  | nil => simp
  | cons c s ih =>
    cases maxChars with
    | zero => simp
    | succ n =>
      rw [List.take_succ_cons, List.takeWhile_cons, List.takeWhile_cons]
      by_cases hc : c ∈ keyPtr
      · simp only [hc, decide_true, if_true, List.length_cons, ← ih]
        omega
      · simp [hc]

/-- what `NkRawStringTrim` makes of a text -/
theorem rawStringTrim_text (s keyPtr : List UInt8) (maxChars : ℕ) :
    let lead := ((s.take maxChars).takeWhile fun c => c ∈ keyPtr).length
    Env.rawStringTrim s 0 maxChars keyPtr = ⟨s, lead,
      if Env.byteAt s (min s.length maxChars) ∈ keyPtr then sub64 (lead + (trimmed (s.take maxChars) keyPtr).length) (lead + 1)
      else sub64 (min s.length maxChars + 1) (lead + 1)⟩ := by
  intro lead
  have hlead : min (s.takeWhile fun c => c ∈ keyPtr).length maxChars = lead := length_lead s keyPtr maxChars
  have hend : min s.length maxChars = lead + ((s.take maxChars).dropWhile fun c => c ∈ keyPtr).length := by
    have hsplit := congrArg List.length
      (List.takeWhile_append_dropWhile (p := fun c => decide (c ∈ keyPtr)) (l := s.take maxChars))
    rw [List.length_append, List.length_take, Nat.min_comm] at hsplit
    exact hsplit.symm
  unfold Env.rawStringTrim
  simp only [List.drop_zero, Nat.zero_add, hlead]
  split_ifs with hkey
  · have hback := @trimEnd_text keyPtr ((s.take maxChars).takeWhile fun c => c ∈ keyPtr)
      ((s.take maxChars).dropWhile fun c => c ∈ keyPtr) (s.drop maxChars)
    rw [← text_parts, ← hend] at hback
    rw [Env.trimEnd, if_pos ⟨by omega, hkey⟩, hback]
    rfl
  · rw [Env.trimEnd_stop hkey]

/-- nothing is trimmed at the end: there is nothing left, or the last character is kept -/
theorem trimmed_eq_body_iff (w keyPtr : List UInt8) :
    (trimmed w keyPtr).length = (w.dropWhile fun c => c ∈ keyPtr).length ↔
      (∀ c ∈ w, c ∈ keyPtr) ∨ ∀ c ∈ w.getLast?, c ∉ keyPtr := by
  have hwhole : (trimmed w keyPtr).length = (w.dropWhile fun c => c ∈ keyPtr).length ↔
      trimmed w keyPtr = w.dropWhile fun c => c ∈ keyPtr :=
    ⟨(List.rdropWhile_prefix _ _).eq_of_length, congrArg List.length⟩
  rw [hwhole, trimmed, List.rdropWhile_eq_self_iff]
  by_cases hbody : (w.dropWhile fun c => decide (c ∈ keyPtr)) = []
  · have hall : ∀ c ∈ w, c ∈ keyPtr := by simpa using hbody
    exact iff_of_true (fun hl => absurd hbody hl) (Or.inl hall)
  · have hsome : ¬ ∀ c ∈ w, c ∈ keyPtr := by simpa using hbody
    have hlast : w.getLast? = some ((w.dropWhile fun c => c ∈ keyPtr).getLast hbody) := by
      rw [List.IsSuffix.getLast (List.dropWhile_suffix _) hbody]
      exact List.getLast?_eq_getLast_of_ne_nil _
    rw [hlast]
    simp [hsome, hbody]

/-- the size is that of the trimmed text exactly if the end is right -/
theorem size_eq_iff (hlen : s.length < 2 ^ 64 - 1) :
    (Env.rawStringTrim s 0 maxChars keyPtr).sizeInBytes = (trimmed (s.take maxChars) keyPtr).length ↔
      EndsRight s maxChars keyPtr := by
  set lead := ((s.take maxChars).takeWhile fun c => c ∈ keyPtr).length with hlead
  have hsplit := congrArg List.length
    (List.takeWhile_append_dropWhile (p := fun c => decide (c ∈ keyPtr)) (l := s.take maxChars))
  rw [List.length_append, List.length_take, ← hlead, Nat.min_comm] at hsplit
  have htrim : (trimmed (s.take maxChars) keyPtr).length ≤ ((s.take maxChars).dropWhile fun c => c ∈ keyPtr).length :=
    (List.rdropWhile_prefix _ _).length_le
  have hmin := min_le_left s.length maxChars
  rw [rawStringTrim_text, EndsRight, ← hlead]
  dsimp only
  by_cases hkey : Env.byteAt s (min s.length maxChars) ∈ keyPtr
  · -- one character short, or wrapped
    rw [if_pos hkey]
    refine iff_of_false (fun heq => ?_) fun hends => hends.1 hkey
    unfold sub64 u64 at heq
    omega
  · have hsize : sub64 (min s.length maxChars + 1) (lead + 1) =
        ((s.take maxChars).dropWhile fun c => c ∈ keyPtr).length := by
      rw [sub64_of_le (by omega) (by omega)]
      omega
    rw [if_neg hkey, hsize, eq_comm, trimmed_eq_body_iff, and_iff_right hkey]

end Text

/-! ## Trimming in memory -/

section Memory

variable {mem : ℕ → UInt8} {strPtr maxChars : ℕ} {s keyPtr : List UInt8}

theorem byteAt_of_holds (hs : Holds mem strPtr (s ++ [0])) {i : ℕ} (hi : i ≤ s.length) : mem (strPtr + i) = Env.byteAt s i := by
  have hlen : i < (s ++ [0]).length := by
    rw [List.length_append, List.length_singleton]
    omega
  rw [hs i hlen, Env.byteAt]
  rcases Nat.lt_or_eq_of_le hi with hlt | rfl
  · rw [List.getElem_append_left hlt, List.getD_eq_getElem _ _ hlt]
  · rw [List.getElem_concat_length, List.getD_eq_default _ _ (le_refl _)]
    rfl

/-- from within a string its end is found -/
theorem strlen_inside (hs : Holds mem strPtr (s ++ [0])) (hne : 0 ∉ s) {d : ℕ} (hd : d ≤ s.length)
    (h : Terminated mem (strPtr + d)) : strlen mem (strPtr + d) h = s.length - d := by
  refine strlen_eq h ?_ fun i hi => ?_
  · have hnul : Env.byteAt s s.length = 0 := List.getD_eq_default _ _ (le_refl _)
    rw [Nat.add_assoc, Nat.add_sub_cancel' hd, byteAt_of_holds hs (le_refl _), hnul]
  · have hlt : d + i < s.length := by omega
    rw [Nat.add_assoc, byteAt_of_holds hs hlt.le, Env.byteAt, List.getD_eq_getElem _ _ hlt]
    intro hnul
    exact hne (hnul ▸ List.getElem_mem hlt)

theorem strlen_string (hs : Holds mem strPtr (s ++ [0])) (hne : 0 ∉ s) (h : Terminated mem strPtr) :
    strlen mem strPtr h = s.length :=
  @strlen_inside mem strPtr s hs hne 0 (Nat.zero_le _) h

theorem stringAt_eq (hs : Holds mem strPtr (s ++ [0])) (hne : 0 ∉ s) (h : Terminated mem strPtr) : stringAt mem strPtr h = s := by
  rw [stringAt, strlen_string hs hne h]
  exact cells_of_holds (holds_append.1 hs).1

theorem trimEnd_eq (hs : Holds mem strPtr (s ++ [0])) (h0 : 0 < strPtr) (dataPtr : ℕ) {n : ℕ} (hn : n ≤ s.length + 1) :
    trimEnd mem keyPtr (strPtr + dataPtr) (strPtr + n) = strPtr + Env.trimEnd s keyPtr dataPtr n := by
  induction n with
  | zero =>
    obtain ⟨k, rfl⟩ := Nat.exists_eq_succ_of_ne_zero h0.ne'
    have hstop : ¬ (k.succ + dataPtr ≤ k ∧ mem k ∈ keyPtr) := fun hle => by omega
    show trimEnd mem keyPtr (k.succ + dataPtr) (k + 1) = k + 1
    rw [trimEnd, if_neg hstop]
  | succ n ih =>
    have hbyte := byteAt_of_holds hs (Nat.le_of_succ_le_succ hn)
    rw [← Nat.add_assoc, trimEnd, Env.trimEnd, hbyte]
    by_cases hback : dataPtr ≤ n ∧ Env.byteAt s n ∈ keyPtr
    · rw [if_pos ⟨Nat.add_le_add_left hback.1 strPtr, hback.2⟩, if_pos hback]
      exact ih (by omega)
    · rw [if_neg fun hback' => hback ⟨Nat.le_of_add_le_add_left hback'.1, hback'.2⟩, if_neg hback, Nat.add_assoc]

/-- without a wrap, the function in memory is the function on the text -/
theorem rawStringTrim_eq (h0 : 0 < strPtr) (hs : Holds mem strPtr (s ++ [0])) (hne : 0 ∉ s) (h : Terminated mem strPtr)
    (hmax : strPtr + maxChars < 2 ^ 64) :
    let v := Env.rawStringTrim s 0 maxChars keyPtr
    rawStringTrim mem strPtr maxChars keyPtr h = ⟨strPtr + v.dataPtr, v.sizeInBytes⟩ := by
  intro v
  have hdata : leadPtr mem strPtr maxChars keyPtr h = strPtr + v.dataPtr := by
    have hv : v.dataPtr = min (s.takeWhile fun c => c ∈ keyPtr).length maxChars := by
      simp only [v, Env.rawStringTrim, List.drop_zero, Nat.zero_add]
    rw [leadPtr, stringAt_eq hs hne h, u64_of_lt hmax, hv, Nat.add_min_add_left]
  have hle : v.dataPtr ≤ s.length := by
    have hlead := leadPtr_le mem strPtr maxChars keyPtr h
    rw [hdata, strlen_string hs hne h] at hlead
    exact Nat.le_of_add_le_add_left hlead
  have hend : ∀ hdata', min (strPtr + v.dataPtr + strlen mem (strPtr + v.dataPtr) hdata') (u64 (strPtr + maxChars)) =
      strPtr + min s.length maxChars := by
    intro hdata'
    rw [strlen_inside hs hne hle, u64_of_lt hmax, Nat.add_assoc, Nat.add_sub_cancel' hle, Nat.add_min_add_left]
  have hv : v.sizeInBytes = sub64 (Env.trimEnd s keyPtr v.dataPtr (min s.length maxChars + 1)) (v.dataPtr + 1) := by
    simp only [v, Env.rawStringTrim, Nat.zero_add]
  have hshift : ∀ a b, sub64 (strPtr + a) (strPtr + b) = sub64 a b := by
    intro a b
    unfold sub64 u64
    omega
  unfold rawStringTrim
  simp only [hdata, hend]
  rw [hv, Nat.add_assoc strPtr _ 1, trimEnd_eq hs h0 _ (by omega), Nat.add_assoc strPtr _ 1, hshift]

/-- a view that starts right is the trimmed text exactly if its size is right -/
theorem trimExact_iff_size {w : List UInt8} {v : NkStringView} (hw : Holds mem strPtr w)
    (hstart : v.dataPtr = strPtr + (w.takeWhile fun c => c ∈ keyPtr).length) :
    TrimExact mem strPtr w keyPtr v ↔ v.sizeInBytes = (trimmed w keyPtr).length := by
  refine ⟨fun h => ?_, fun hsize => ⟨hstart, ?_, ?_⟩⟩
  · rw [← h.text, length_cells]
  · have hbody : w.dropWhile (fun c => c ∈ keyPtr) = trimmed w keyPtr ++
        (w.dropWhile fun c => c ∈ keyPtr).rtakeWhile fun c => c ∈ keyPtr :=
      List.rdropWhile_append_rtakeWhile.symm
    rw [← @List.takeWhile_append_dropWhile _ (fun c => decide (c ∈ keyPtr)) w, hbody] at hw
    rw [hstart, hsize]
    exact cells_of_holds (holds_append.1 (holds_append.1 hw).2).1
  · have hsplit := congrArg List.length (@List.takeWhile_append_dropWhile _ (fun c => decide (c ∈ keyPtr)) w)
    have htrim : (trimmed w keyPtr).length ≤ (w.dropWhile fun c => c ∈ keyPtr).length :=
      (List.rdropWhile_prefix _ _).length_le
    rw [List.length_append] at hsplit
    omega

/-- trimming without a wrap of the limit -/
theorem trimExact_iff_ends (h0 : 0 < strPtr) (hs : Holds mem strPtr (s ++ [0])) (hne : 0 ∉ s)
    (h : Terminated mem strPtr) (hlen : s.length < 2 ^ 64 - 1) (hmax : strPtr + maxChars < 2 ^ 64) :
    TrimExact mem strPtr (s.take maxChars) keyPtr (rawStringTrim mem strPtr maxChars keyPtr h) ↔
      EndsRight s maxChars keyPtr := by
  have hw : Holds mem strPtr (s.take maxChars) := by
    have hstr := (holds_append.1 hs).1
    rw [← List.take_append_drop maxChars s] at hstr
    exact (holds_append.1 hstr).1
  rw [rawStringTrim_eq h0 hs hne h hmax, trimExact_iff_size hw ?_, size_eq_iff hlen]
  simp only [rawStringTrim_text]

end Memory

/-- a string is trimmed as documented exactly if the sum of pointer and limit does not wrap, the character behind the considered
ones is kept, and there is nothing to trim at their end -/
theorem trim_exact_iff {mem : ℕ → UInt8} {strPtr maxChars : ℕ} {s keyPtr : List UInt8} (h0 : 0 < strPtr)
    (hs : Holds mem strPtr (s ++ [0])) (hne : 0 ∉ s) (hmem : strPtr + s.length < 2 ^ 64) (hsize : maxChars < 2 ^ 64)
    (h : Terminated mem strPtr) :
    TrimExact mem strPtr (s.take maxChars) keyPtr (rawStringTrim mem strPtr maxChars keyPtr h) ↔
      strPtr + maxChars < 2 ^ 64 ∧ EndsRight s maxChars keyPtr := by
  by_cases hmax : strPtr + maxChars < 2 ^ 64
  · rw [and_iff_right hmax]
    exact trimExact_iff_ends h0 hs hne h (by omega) hmax
  · -- the limit lies in front of the string, and the view with it
    refine iff_of_false (fun hexact => ?_) fun hboth => hmax hboth.1
    have hlimit : (rawStringTrim mem strPtr maxChars keyPtr h).dataPtr ≤ u64 (strPtr + maxChars) := min_le_right _ _
    have hwrap : u64 (strPtr + maxChars) < strPtr := by
      unfold u64
      omega
    have hstart := hexact.start
    omega

/-- a memory with a string at address 16 -/
def memOf (s : List UInt8) : ℕ → UInt8 := fun k => s.getD (k - 16) 0

theorem memOf_terminated (s : List UInt8) : Terminated (memOf s) 16 := by
  refine ⟨s.length, ?_⟩
  rw [memOf, Nat.add_sub_cancel_left]
  exact List.getD_eq_default _ _ (le_refl _)

/-- `" ab"` without spaces is `"ab"` -/
theorem trim_exact_leading :
    TrimExact (memOf [0x20, 0x61, 0x62]) 16 [0x20, 0x61, 0x62] [0x20]
      (rawStringTrim (memOf [0x20, 0x61, 0x62]) 16 8 [0x20] (memOf_terminated _)) :=
  (@trim_exact_iff (memOf [0x20, 0x61, 0x62]) 16 8 [0x20, 0x61, 0x62] [0x20] (by simp) (by unfold Holds; decide) (by decide)
    (by decide) (by decide) (memOf_terminated _)).2 ⟨by decide, by decide⟩

/-- the space behind `"a "` stays, and the size wraps for no characters of `" a"` -/
theorem trim_inexact :
    ¬ TrimExact (memOf [0x61, 0x20]) 16 [0x61, 0x20] [0x20]
      (rawStringTrim (memOf [0x61, 0x20]) 16 2 [0x20] (memOf_terminated _)) ∧
    ¬ TrimExact (memOf [0x20, 0x61]) 16 [] [0x20] (rawStringTrim (memOf [0x20, 0x61]) 16 0 [0x20] (memOf_terminated _)) := by
  constructor
  · intro h
    exact absurd ((@trimExact_iff_ends (memOf [0x61, 0x20]) 16 2 [0x61, 0x20] [0x20] (by simp) (by unfold Holds; decide)
      (by decide) _ (by decide) (by decide)).1 h) (by decide)
  · intro h
    exact absurd ((@trimExact_iff_ends (memOf [0x20, 0x61]) 16 0 [0x20, 0x61] [0x20] (by simp) (by unfold Holds; decide)
      (by decide) _ (by decide) (by decide)).1 h) (by decide)

end Noriko.RawTrim
