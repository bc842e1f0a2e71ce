import Mathlib.Algebra.Order.Group.Int
import Mathlib.Algebra.Order.Ring.Int
import Mathlib.Tactic.Ring
import Mathlib.Data.Int.Order.Lemmas

/-!
# Integers that a binary64 holds

The integral values of finite doubles, as exact integers: a significand of 53
bits times a power of two within the exponent range.  Above the significand
they thin out, and only even ones are left.
-/

namespace RestToA2a.Verified.Binary64

/-- The integer is the value of a finite double. -/
def Representable (z : Int) : Prop :=
  ∃ (m : Int) (e : Nat), m.natAbs < 2 ^ 53 ∧ e ≤ 971 ∧ z = m * 2 ^ e

theorem representable_of_lt {z : Int} (h : z.natAbs < 2 ^ 53) :
    Representable z :=
  ⟨z, 0, h, by omega, by simp⟩

theorem representable_two_pow {e : Nat} (h : e ≤ 971) : Representable (2 ^ e) :=
  ⟨1, e, by decide, h, by simp⟩

/-- Beyond the significand every integral double is even. -/
theorem Representable.even {z : Int} (h : Representable z)
    (hBig : 2 ^ 53 ≤ z.natAbs) : z % 2 = 0 := by
  obtain ⟨m, e, hm, _, rfl⟩ := h
  cases e with
  | zero =>
      rw [pow_zero, mul_one] at hBig
      omega
  | succ e =>
      have hTwo : m * 2 ^ (e + 1) = 2 * (m * 2 ^ e) := by ring
      omega

end RestToA2a.Verified.Binary64
