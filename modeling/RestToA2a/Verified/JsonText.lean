import Mathlib

/-!
# JSON texts

The grammar of JSON on lists of characters: numbers, strings, and the mutually
nested values, elements and members.  It is a specification, nothing here
parses; what is derived from it is how a text can begin, which is enough to see
that most things that are not JSON are not.
-/

namespace RestToA2a.Verified.JsonText

/-- White space between tokens. -/
def Spaces (s : List Char) : Prop := ∀ c ∈ s, c ∈ [' ', '\t', '\n', '\r']

/-- A run of decimal digits. -/
def Digits (s : List Char) : Prop := s ≠ [] ∧ ∀ c ∈ s, c.isDigit = true

/-- A natural number without leading zeros. -/
inductive Natural : List Char → Prop where
  | zero : Natural ['0']
  | digits {c : Char} {s : List Char} (hc : c.isDigit = true) (hne : c ≠ '0')
      (hs : ∀ d ∈ s, d.isDigit = true) : Natural (c :: s)

/-- The fraction of a number. -/
inductive Fraction : List Char → Prop where
  | absent : Fraction []
  | point {s : List Char} (hs : Digits s) : Fraction ('.' :: s)

/-- The exponent of a number. -/
inductive Exponent : List Char → Prop where
  | absent : Exponent []
  | power {e : Char} {sign s : List Char} (he : e ∈ ['e', 'E'])
      (hsign : sign ∈ [[], ['+'], ['-']]) (hs : Digits s) :
      Exponent (e :: (sign ++ s))

/-- A number. -/
inductive Number : List Char → Prop where
  | mk {sign natural fraction exponent : List Char} (hsign : sign ∈ [[], ['-']])
      (hn : Natural natural) (hf : Fraction fraction) (he : Exponent exponent) :
      Number (sign ++ natural ++ fraction ++ exponent)

/-- A hexadecimal digit, in either case. -/
def isHex (c : Char) : Bool :=
  c.isDigit || ('a' ≤ c && c ≤ 'f') || ('A' ≤ c && c ≤ 'F')

/-- What stands between the quotes of a string. -/
inductive Characters : List Char → Prop where
  | nil : Characters []
  | plain {c : Char} {s : List Char} (hquote : c ≠ '\"') (hslash : c ≠ '\\')
      (hcontrol : 0x20 ≤ c.toNat) (hs : Characters s) : Characters (c :: s)
  | escape {c : Char} {s : List Char}
      (hc : c ∈ ['\"', '\\', '/', 'b', 'f', 'n', 'r', 't'])
      (hs : Characters s) : Characters ('\\' :: c :: s)
  | unicode {h s : List Char} (hlength : h.length = 4)
      (hhex : ∀ c ∈ h, isHex c = true) (hs : Characters s) :
      Characters ('\\' :: 'u' :: (h ++ s))

/-- A string with its quotes. -/
inductive Quoted : List Char → Prop where
  | mk {s : List Char} (hs : Characters s) : Quoted ('\"' :: (s ++ ['\"']))

mutual

/-- A value without white space around it. -/
inductive Value : List Char → Prop where
  | null : Value ['n', 'u', 'l', 'l']
  | yes : Value ['t', 'r', 'u', 'e']
  | no : Value ['f', 'a', 'l', 's', 'e']
  | number {s : List Char} (hs : Number s) : Value s
  | string {s : List Char} (hs : Quoted s) : Value s
  | emptyArray {s : List Char} (hs : Spaces s) : Value ('[' :: (s ++ [']']))
  | array {s : List Char} (hs : Elements s) : Value ('[' :: (s ++ [']']))
  | emptyObject {s : List Char} (hs : Spaces s) : Value ('{' :: (s ++ ['}']))
  | object {s : List Char} (hs : Members s) : Value ('{' :: (s ++ ['}']))

/-- The elements of an array. -/
inductive Elements : List Char → Prop where
  | one {a v b : List Char} (ha : Spaces a) (hv : Value v) (hb : Spaces b) :
      Elements (a ++ v ++ b)
  | cons {a v b s : List Char} (ha : Spaces a) (hv : Value v) (hb : Spaces b)
      (hs : Elements s) : Elements (a ++ v ++ b ++ ',' :: s)

/-- The members of an object. -/
inductive Members : List Char → Prop where
  | one {a k b c v d : List Char} (ha : Spaces a) (hk : Quoted k) (hb : Spaces b)
      (hc : Spaces c) (hv : Value v) (hd : Spaces d) :
      Members (a ++ k ++ b ++ ':' :: (c ++ v ++ d))
  | cons {a k b c v d s : List Char} (ha : Spaces a) (hk : Quoted k)
      (hb : Spaces b) (hc : Spaces c) (hv : Value v) (hd : Spaces d)
      (hs : Members s) :
      Members (a ++ k ++ b ++ ':' :: (c ++ v ++ d) ++ ',' :: s)

end

/-- A JSON text: a value with white space around it. -/
inductive Text : List Char → Prop where
  | mk {a v b : List Char} (ha : Spaces a) (hv : Value v) (hb : Spaces b) :
      Text (a ++ v ++ b)

/-- A character a value can begin with. -/
def beginsValue (c : Char) : Bool :=
  c.isDigit || c ∈ ['-', '\"', '[', '{', 'n', 't', 'f']

theorem Natural.head {s : List Char} (h : Natural s) :
    ∃ c rest, s = c :: rest ∧ c.isDigit = true := by
  cases h with
  | zero => exact ⟨'0', [], rfl, rfl⟩
  | digits hc _ _ => exact ⟨_, _, rfl, hc⟩

theorem Number.head {s : List Char} (h : Number s) :
    ∃ c rest, s = c :: rest ∧ beginsValue c = true := by
  cases h with
  | mk hsign hn hf he =>
      obtain ⟨c, rest, rfl, hc⟩ := hn.head
      rcases List.mem_cons.mp hsign with rfl | hminus
      · exact ⟨c, _, rfl, by simp [beginsValue, hc]⟩
      · rw [List.mem_singleton.mp hminus]
        exact ⟨'-', _, rfl, rfl⟩

theorem Value.head {s : List Char} (h : Value s) :
    ∃ c rest, s = c :: rest ∧ beginsValue c = true := by
  cases h with
  | number hs => exact hs.head
  | string hs =>
      cases hs
      exact ⟨_, _, rfl, rfl⟩
  | _ => exact ⟨_, _, rfl, rfl⟩

/-- **How a JSON text begins**: with white space or with a value. -/
theorem Text.head {s : List Char} (h : Text s) :
    ∃ c rest, s = c :: rest ∧
      (c ∈ [' ', '\t', '\n', '\r'] ∨ beginsValue c = true) := by
  cases h with
  | @mk a v b ha hv hb =>
      cases a with
      | nil =>
          obtain ⟨c, rest, rfl, hc⟩ := hv.head
          exact ⟨c, rest ++ b, rfl, Or.inr hc⟩
      | cons c a => exact ⟨c, _, rfl, Or.inl (ha c (by simp))⟩

end RestToA2a.Verified.JsonText
