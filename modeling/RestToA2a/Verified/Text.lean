import Mathlib

/-!
# String primitives

The string operations of the standard library the verified code calls, on
lists of characters: trimming of Unicode white space, splitting at a
character, lower-casing of ASCII, and reading an unsigned machine word.  Of two
texts written one after the other it is said what is still known of them.
-/

namespace RestToA2a.Verified.Text

/-- Characters with the Unicode property `White_Space`. -/
def isWhitespace (c : Char) : Bool :=
  (0x9 ≤ c.toNat && c.toNat ≤ 0xD) || c.toNat == 0x20 || c.toNat == 0x85 ||
    c.toNat == 0xA0 || c.toNat == 0x1680 ||
    (0x2000 ≤ c.toNat && c.toNat ≤ 0x200A) || c.toNat == 0x2028 ||
    c.toNat == 0x2029 || c.toNat == 0x202F || c.toNat == 0x205F ||
    c.toNat == 0x3000

/-- The text without white space at either end. -/
def trim (s : List Char) : List Char :=
  (s.dropWhile isWhitespace).rdropWhile isWhitespace

/-- The text with its ASCII letters in lower case. -/
def toAsciiLowercase (s : List Char) : List Char := s.map Char.toLower

/-- What follows the prefix `p`, if the text begins with it. -/
def stripPrefix? : List Char → List Char → Option (List Char)
  | [], s => some s
  | _ :: _, [] => none
  | c :: p, d :: s => if c = d then stripPrefix? p s else none

/-- The text `p` occurs in `s`. -/
def contains (s p : String) : Bool :=
  s.toList.tails.any fun rest => p.toList.isPrefixOf rest

/-- The parts of the text between the occurrences of `c`.  There is always at
least one, and two neighbouring occurrences have the empty part between them. -/
def split (c : Char) (s : String) : List String :=
  (s.toList.splitOn c).map String.ofList

theorem split_ne_nil (c : Char) (s : String) : split c s ≠ [] := by
  simp only [split, ne_eq, List.map_eq_nil_iff]
  exact List.splitOn_ne_nil c s.toList

/-- The value of a run of decimal digits, none if there is another character. -/
def decimal? : List Char → Nat → Option Nat
  | [], acc => some acc
  | c :: s, acc =>
      if c.isDigit then decimal? s (acc * 10 + (c.toNat - '0'.toNat)) else none

/-- An unsigned word of the given width, in decimal.  A leading plus sign is
accepted; the empty text, a lone sign, any other character and a value that
does not fit are errors. -/
def parseUnsigned? (bits : Nat) (s : List Char) : Option Nat :=
  let digits := match s with
    | '+' :: rest => rest
    | _ => s
  if digits.isEmpty then none
  else (decimal? digits 0).filter (· < 2 ^ bits)

/-! ## Trimming and prefixes -/

/-- A text with no white space at its ends is trimmed already. -/
theorem trim_eq_self {s : List Char}
    (hhead : ∀ c, s.head? = some c → isWhitespace c = false)
    (hlast : ∀ c, s.getLast? = some c → isWhitespace c = false) : trim s = s := by
  have hdrop : s.dropWhile isWhitespace = s := by
    cases s with
    | nil => rfl
    | cons c s => simp [List.dropWhile, hhead c rfl]
  rw [trim, hdrop, List.rdropWhile_eq_self_iff]
  intro hne
  rw [hlast (s.getLast hne) (List.getLast?_eq_some_getLast hne)]
  decide

theorem stripPrefix?_eq_some_iff {p s rest : List Char} :
    stripPrefix? p s = some rest ↔ s = p ++ rest := by
  induction p generalizing s with
  | nil => simp [stripPrefix?]
  | cons c p ih =>
      cases s with
      | nil => simp [stripPrefix?]
      | cons d s =>
          by_cases hcd : c = d
          · simp [stripPrefix?, hcd, ih]
          · simp [stripPrefix?, hcd, Ne.symm hcd]

/-! ## Searching for a character -/

theorem not_mem_takeWhile (c : Char) (s : List Char) : c ∉ s.takeWhile (· ≠ c) := by
  intro hin
  have hne := List.mem_takeWhile_imp hin
  simp at hne

theorem dropWhile_eq_cons {c : Char} {s : List Char} (h : c ∈ s) :
    s.dropWhile (· ≠ c) = c :: (s.dropWhile (· ≠ c)).tail := by
  induction s with
  | nil => cases h
  | cons d s ih =>
      by_cases hd : d = c
      · simp [List.dropWhile, hd]
      · rw [List.dropWhile_cons_of_pos (by simpa using hd)]
        exact ih ((List.mem_cons.mp h).resolve_left (Ne.symm hd))

/-- A text is searched up to the first occurrence of the character. -/
theorem span_append {c : Char} {front back : List Char} (hfront : c ∉ front)
    (hback : back = [] ∨ ∃ rest, back = c :: rest) :
    (front ++ back).takeWhile (· ≠ c) = front ∧
      (front ++ back).dropWhile (· ≠ c) = back := by
  have hall : ∀ d ∈ front, decide (d ≠ c) = true := by
    intro d hd
    exact decide_eq_true fun hdc => hfront (hdc ▸ hd)
  rw [List.takeWhile_append_of_pos hall, List.dropWhile_append_of_pos hall]
  rcases hback with rfl | ⟨rest, rfl⟩
  · simp
  · simp [List.takeWhile, List.dropWhile]

/-- No part of a split text has the character it was split at. -/
theorem not_mem_of_mem_splitOn {c : Char} {s part : List Char}
    (h : part ∈ s.splitOn c) : c ∉ part := by
  induction s generalizing part with
  | nil =>
      rw [List.splitOn_nil, List.mem_singleton] at h
      simp [h]
  | cons d s ih =>
      rw [List.splitOn_cons_eq_if_modifyHead] at h
      split at h
      · rcases List.mem_cons.mp h with rfl | h
        · simp
        · exact ih h
      · rename_i hd
        cases hsplit : s.splitOn c with
        | nil => exact absurd hsplit (List.splitOn_ne_nil c s)
        | cons head tail =>
            rw [hsplit, List.modifyHead_cons, List.mem_cons] at h
            rcases h with rfl | h
            · have hhead := ih (hsplit ▸ List.mem_cons_self)
              have hdc : c ≠ d := fun heq => hd (by simp [heq])
              simp [hhead, hdc]
            · exact ih (hsplit ▸ List.mem_cons_of_mem _ h)

/-! ## Decimal numbers -/

/-- The text is a run of decimal digits, of the given value. -/
def Decimal (s : List Char) (n : Nat) : Prop :=
  s ≠ [] ∧ (∀ c ∈ s, c.isDigit = true) ∧ n = Nat.ofDigitChars 10 s 0

theorem decimal?_eq_some_iff {s : List Char} {acc n : Nat} :
    decimal? s acc = some n ↔
      (∀ c ∈ s, c.isDigit = true) ∧ n = Nat.ofDigitChars 10 s acc := by
  induction s generalizing acc with
  | nil =>
      simp only [decimal?, Option.some.injEq, List.not_mem_nil, false_imp_iff,
        implies_true, Nat.ofDigitChars_nil, true_and]
      exact eq_comm
  | cons c s ih =>
      by_cases hc : c.isDigit = true
      · simp only [decimal?, hc, if_true, ih, List.forall_mem_cons, true_and,
          Nat.ofDigitChars_cons, Nat.mul_comm acc 10]
      · simp only [decimal?, hc, Bool.false_eq_true, if_false, reduceCtorEq,
          List.forall_mem_cons, false_and]

theorem Decimal.not_mem {s : List Char} {n : Nat} (h : Decimal s n) {c : Char}
    (hc : c.isDigit = false) : c ∉ s := by
  intro hin
  rw [h.2.1 c hin] at hc
  cases hc

theorem Decimal.head_ne {s : List Char} {n : Nat} (h : Decimal s n) {c : Char}
    (hc : c.isDigit = false) : s.head? ≠ some c := fun hhead =>
  h.not_mem hc (List.mem_of_mem_head? hhead)

/-- **What an unsigned word is read from**: a run of digits, with or without a
plus sign, whose value fits. -/
theorem parseUnsigned?_eq_some_iff {bits : Nat} {s : List Char} {n : Nat} :
    parseUnsigned? bits s = some n ↔
      n < 2 ^ bits ∧ (Decimal s n ∨ ∃ digits, s = '+' :: digits ∧ Decimal digits n) := by
  have hread : ∀ digits : List Char,
      (if digits.isEmpty then none
        else (decimal? digits 0).filter (· < 2 ^ bits)) = some n ↔
      n < 2 ^ bits ∧ Decimal digits n := by
    intro digits
    cases digits with
    | nil => simp [Decimal]
    | cons c digits =>
        simp only [List.isEmpty_cons, Bool.false_eq_true, if_false,
          Option.filter_eq_some_iff, decide_eq_true_eq, Decimal, ne_eq,
          reduceCtorEq, not_false_eq_true, true_and, decimal?_eq_some_iff]
        exact and_comm
  unfold parseUnsigned?
  split
  · rename_i rest
    rw [hread]
    refine and_congr_right fun _ => ⟨fun h => Or.inr ⟨rest, rfl, h⟩, ?_⟩
    rintro (h | ⟨digits, hs, h⟩)
    · exact absurd rfl (h.head_ne (c := '+') rfl)
    · cases hs
      exact h
  · rename_i hplus
    rw [hread]
    refine and_congr_right fun _ => ⟨Or.inl, ?_⟩
    rintro (h | ⟨digits, rfl, _⟩)
    · exact h
    · exact absurd rfl (hplus digits)

theorem decimal_toDigits (n : Nat) : Decimal (Nat.toDigits 10 n) n :=
  ⟨Nat.toDigits_ne_nil, fun _ hc =>
    Nat.isDigit_of_mem_toDigits (by decide) (by decide) hc, by simp⟩

/-! ## Two texts written as one -/

/-- The second pair of texts is the first with its boundary moved right: `s'`
has taken over the beginning of `p`. -/
def Shifted (s p s' p' : String) : Prop :=
  ∃ w, w ≠ "" ∧ s' = s ++ w ∧ p = w ++ p'

theorem not_shifted_of_length_le {s s' : String} (h : s'.length ≤ s.length)
    (p p' : String) : ¬ Shifted s p s' p' := by
  rintro ⟨w, hw, rfl, _⟩
  rw [String.length_append] at h
  exact hw (String.length_eq_zero_iff.mp (by omega))

/-- Characters of `p` that went over to `s`, if there are any. -/
private theorem eq_or_shifted {s p s' p' : String} {w : List Char}
    (hs : s'.toList = s.toList ++ w) (hp : p.toList = w ++ p'.toList) :
    (s = s' ∧ p = p') ∨ Shifted s p s' p' := by
  have hs' : s' = s ++ String.ofList w := by
    rw [← String.toList_inj, String.toList_append, hs, String.toList_ofList]
  have hp' : p = String.ofList w ++ p' := by
    rw [← String.toList_inj, String.toList_append, hp, String.toList_ofList]
  by_cases hw : String.ofList w = ""
  · rw [hw] at hs' hp'
    exact Or.inl ⟨by simp [hs'], by simp [hp']⟩
  · exact Or.inr ⟨_, hw, hs', hp'⟩

/-- Two texts written as one are known but for the boundary between them. -/
theorem append_eq_append_iff {s p s' p' : String} :
    s ++ p = s' ++ p' ↔
      (s = s' ∧ p = p') ∨ Shifted s p s' p' ∨ Shifted s' p' s p := by
  constructor
  · intro h
    have hchars : s.toList ++ p.toList = s'.toList ++ p'.toList := by
      rw [← String.toList_append, ← String.toList_append, h]
    rcases List.append_eq_append_iff.mp hchars with ⟨w, hs, hp⟩ | ⟨w, hs, hp⟩
    · exact (eq_or_shifted hs hp).imp_right Or.inl
    · rcases eq_or_shifted hs hp with ⟨rfl, rfl⟩ | hshift
      · exact Or.inl ⟨rfl, rfl⟩
      · exact Or.inr (Or.inr hshift)
  · rintro (⟨rfl, rfl⟩ | ⟨w, _, rfl, rfl⟩ | ⟨w, _, rfl, rfl⟩)
    · rfl
    · exact (String.append_assoc ..).symm
    · exact String.append_assoc ..

end RestToA2a.Verified.Text
