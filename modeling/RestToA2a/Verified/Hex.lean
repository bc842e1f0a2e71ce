import Mathlib.Data.List.Basic

/-!
# Lower-case hexadecimal renderings

Two digits a byte, the high one first.  The rendering of a byte string has
fixed width per byte, so it can be read back, and different strings of bytes
have different renderings.
-/

namespace RestToA2a.Verified.Hex

/-- The digit of a value below sixteen. -/
def digit (n : Nat) : Char :=
  if n < 10 then Char.ofNat ('0'.toNat + n) else Char.ofNat ('a'.toNat + (n - 10))

/-- The two digits of a byte. -/
def byte (b : UInt8) : List Char := [digit (b.toNat / 16), digit (b.toNat % 16)]

/-- The digits of a string of bytes. -/
def render (bs : List UInt8) : List Char := bs.flatMap byte

theorem digit_injective : ∀ m < 16, ∀ n < 16, digit m = digit n → m = n := by
  decide

theorem byte_injective {a b : UInt8} (h : byte a = byte b) : a = b := by
  have ha : a.toNat < 256 := a.toNat_lt
  have hb : b.toNat < 256 := b.toNat_lt
  simp only [byte, List.cons.injEq, and_true] at h
  have hHigh := digit_injective _ (by omega) _ (by omega) h.1
  have hLow := digit_injective _ (by omega) _ (by omega) h.2
  apply UInt8.toNat_inj.mp
  omega

@[simp] theorem length_render (bs : List UInt8) :
    (render bs).length = 2 * bs.length := by
  induction bs with
  | nil => rfl
  | cons b bs ih =>
      simp only [render, List.flatMap_cons, List.length_append] at ih ⊢
      rw [ih]
      simp [byte]
      omega

theorem render_injective {as bs : List UInt8} (h : render as = render bs) :
    as = bs := by
  induction as generalizing bs with
  | nil =>
      have hlen := congrArg List.length h
      simp only [length_render, List.length_nil] at hlen
      exact (List.length_eq_zero_iff.mp (by omega)).symm
  | cons a as ih =>
      cases bs with
      | nil =>
          have hlen := congrArg List.length h
          simp at hlen
      | cons b bs =>
          simp only [render, List.flatMap_cons] at h
          obtain ⟨hHead, hTail⟩ := List.append_inj h rfl
          rw [byte_injective hHead, ih hTail]

end RestToA2a.Verified.Hex
