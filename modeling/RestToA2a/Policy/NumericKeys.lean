import RestToA2a.Policy.Continuity
import RestToA2a.Verified.Binary64

/-!
# Numbers as conversation values and ids

A selector may evaluate to a number, and an integral one becomes an identifier
through `i64`, where the conversion saturates.  Within the range of `i64` the
identifier is the number in decimal; beyond it all numbers on one side share
one.
-/

namespace RestToA2a.Policy.NumericKeys

open RestToA2a.Verified.Binary64
open RestToA2a.Verified.VersionedStore
open RestToA2a.Verified.StorageProgram
open RestToA2a.Policy.Serde
open RestToA2a.Policy.A2a
open RestToA2a.Policy.Cache
open RestToA2a.Policy.CacheSteps
open RestToA2a.Policy.Continuation
open RestToA2a.Policy.Dataweave
open RestToA2a.Policy.Turns
open RestToA2a.Policy.Continuity

/-! ## The conversion -/

/-- The number is in the range of `i64`. -/
def FitsI64 (z : Int) : Prop := -(2 ^ 63) ≤ z ∧ z < 2 ^ 63

instance (z : Int) : Decidable (FitsI64 z) :=
  inferInstanceAs (Decidable (-(2 ^ 63) ≤ z ∧ z < 2 ^ 63))

/-- Both numbers saturate to the same end of the range. -/
def SaturateAlike (z w : Int) : Prop :=
  (2 ^ 63 ≤ z ∧ 2 ^ 63 ≤ w) ∨ (z ≤ -(2 ^ 63) ∧ w ≤ -(2 ^ 63))

instance (z w : Int) : Decidable (SaturateAlike z w) :=
  inferInstanceAs (Decidable
    ((2 ^ 63 ≤ z ∧ 2 ^ 63 ≤ w) ∨ (z ≤ -(2 ^ 63) ∧ w ≤ -(2 ^ 63))))

theorem asI64_eq_self_iff (z : Int) : asI64 z = z ↔ FitsI64 z := by
  unfold asI64 FitsI64
  omega

/-- The largest `i64` is no double, so nothing in range meets what saturates
from above. -/
theorem Representable.ne_max {z : Int} (h : Representable z) :
    z ≠ 2 ^ 63 - 1 := by
  rintro rfl
  exact absurd (h.even (by decide)) (by decide)

theorem asI64_eq_iff {z w : Int} (hz : Representable z) (hw : Representable w)
    (hne : z ≠ w) : asI64 z = asI64 w ↔ SaturateAlike z w := by
  have hzMax := Representable.ne_max hz
  have hwMax := Representable.ne_max hw
  unfold asI64 SaturateAlike
  omega

/-- The identifier an integral number becomes. -/
def numericId (z : Int) : Option String :=
  valueToString (.number (.integral z))

theorem numericId_eq (z : Int) : numericId z = some (toString (asI64 z)) := rfl

/-- Identifiers agree when the converted numbers do, since the decimal text of
an integer determines it. -/
theorem numericId_eq_some_iff (z w : Int) :
    numericId z = some (toString w) ↔ asI64 z = w := by
  rw [numericId_eq, Option.some.injEq]
  exact Int.repr_inj

theorem numericId_exact_iff (z : Int) :
    numericId z = some (toString z) ↔ FitsI64 z := by
  rw [numericId_eq_some_iff, asI64_eq_self_iff]

theorem numericId_eq_iff {z w : Int} (hz : Representable z)
    (hw : Representable w) (hne : z ≠ w) :
    numericId z = numericId w ↔ SaturateAlike z w := by
  rw [numericId_eq w, numericId_eq_some_iff, asI64_eq_iff hz hw hne]

/-! ## Keys and ids -/

variable {τ : Type} [DecidableEq τ]

/-- The key a request gets in cache mode when its conversation value is the
number. -/
def numericKey (m : Mint String ConversationEntry τ) (rt : Runtime)
    (s : Entries τ) (nowMillis : Nat) (z : Int) : Option CacheKey :=
  ((resolveCache rt (numericId z) nowMillis).run m s).1.cacheKey

theorem numericKey_eq (m : Mint String ConversationEntry τ) (rt : Runtime)
    (s : Entries τ) (nowMillis : Nat) (z : Int) :
    numericKey m rt s nowMillis z =
      some (CacheKey.fromHashed rt (toString (asI64 z))) := by
  rw [numericKey, numericId_eq, run_resolveCache]
  rfl

/-- Keys collide exactly when the identifiers do, once the digest tells the two
identifiers apart. -/
theorem numericKey_eq_iff (m : Mint String ConversationEntry τ) {rt : Runtime}
    (s : Entries τ) (nowMillis : Nat) {z w : Int}
    (hsep : Separates rt fun v => numericId z = some v ∨ numericId w = some v) :
    numericKey m rt s nowMillis z = numericKey m rt s nowMillis w ↔
      numericId z = numericId w := by
  rw [numericKey_eq, numericKey_eq]
  constructor
  · intro hkey
    have hdigest := CacheKey.fromHashed_digest
      (congrArg CacheKey.asStr (Option.some.inj hkey))
    have htext := hsep _ _ (Or.inl (numericId_eq z)) (Or.inr (numericId_eq w))
      hdigest
    rw [numericId_eq, numericId_eq, htext]
  · intro hid
    rw [numericId_eq, numericId_eq, Option.some.injEq] at hid
    rw [hid]

/-- **When numeric identifiers are sound.**  The identifier of an integral
double is its decimal text exactly if the number is in the range of `i64`; and
two different integral doubles get different identifiers, different conversation
keys and different A2A ids exactly if they do not saturate alike. -/
theorem numericIds_sound_iff (m : Mint String ConversationEntry τ) (rt : Runtime)
    (s : Entries τ) (nowMillis : Nat) :
    (∀ z, Representable z →
      (numericId z = some (toString z) ↔ FitsI64 z)) ∧
    ∀ z w, Representable z → Representable w → z ≠ w →
      Separates rt (fun v => numericId z = some v ∨ numericId w = some v) →
      (numericId z ≠ numericId w ↔ ¬ SaturateAlike z w) ∧
      (numericKey m rt s nowMillis z ≠ numericKey m rt s nowMillis w ↔
        ¬ SaturateAlike z w) ∧
      (∀ other, (resolveExplicit (numericId z) other).continuation ≠
          (resolveExplicit (numericId w) other).continuation ↔
        ¬ SaturateAlike z w) ∧
      (∀ other, (resolveExplicit other (numericId z)).continuation ≠
          (resolveExplicit other (numericId w)).continuation ↔
        ¬ SaturateAlike z w) := by
  refine ⟨fun z _ => numericId_exact_iff z, fun z w hz hw hne hsep => ?_⟩
  have hid := numericId_eq_iff hz hw hne
  refine ⟨not_congr hid, not_congr ((numericKey_eq_iff m s nowMillis hsep).trans hid),
    fun other => not_congr (Iff.trans ?_ hid),
    fun other => not_congr (Iff.trans ?_ hid)⟩
  · simp [resolveExplicit]
  · simp [resolveExplicit]

/-- The digests of two numeric conversation values. -/
def numericSha256 (bytes : Bytes) : Digest :=
  if bytes = utf8 "42" then
    #v[0x73, 0x47, 0x5c, 0xb4, 0x0a, 0x56, 0x8e, 0x8d,
    0xa8, 0xa0, 0x45, 0xce, 0xd1, 0x10, 0x13, 0x7e,
    0x15, 0x9f, 0x89, 0x0a, 0xc4, 0xda, 0x88, 0x3b,
    0x6b, 0x17, 0xdc, 0x65, 0x1b, 0x3a, 0x80, 0x49]
  else
    #v[0x44, 0xcb, 0x73, 0x0c, 0x42, 0x04, 0x80, 0xa0,
    0x47, 0x7b, 0x50, 0x5a, 0xe6, 0x8a, 0xf5, 0x08,
    0xfb, 0x90, 0xf9, 0x6c, 0xf0, 0xec, 0x54, 0xc6,
    0xad, 0x16, 0x94, 0x9d, 0xd4, 0x27, 0xf1, 0x3a]

theorem separates_numericSha256 :
    Separates { sampleRuntime with sha256 := numericSha256 }
      fun v => numericId 42 = some v ∨ numericId 43 = some v := by
  have h42 : numericId 42 = some "42" := by decide
  have h43 : numericId 43 = some "43" := by decide
  have hne : numericSha256 (utf8 "42") ≠ numericSha256 (utf8 "43") := by decide
  rintro v w (hv | hv) (hw | hw) hsha <;>
    simp only [h42, h43, Option.some.injEq] at hv hw <;> subst hv <;> subst hw
  · rfl
  · exact absurd hsha hne
  · exact absurd hsha.symm hne
  · rfl

/-- The numbers 42 and 43 are kept apart, as identifiers and as keys. -/
theorem numericIds_sound_iff_small :
    let rt := { sampleRuntime with sha256 := numericSha256 }
    numericId 42 = some (toString (42 : Int)) ∧ numericId 42 ≠ numericId 43 ∧
      numericKey Mint.counter rt (VStore.empty : Entries Nat) 0 42 ≠
        numericKey Mint.counter rt VStore.empty 0 43 := by
  intro rt
  have hsound := numericIds_sound_iff Mint.counter rt (VStore.empty : Entries Nat) 0
  have h42 := representable_of_lt (show (42 : Int).natAbs < 2 ^ 53 by decide)
  have h43 := representable_of_lt (show (43 : Int).natAbs < 2 ^ 53 by decide)
  have hpair := hsound.2 42 43 h42 h43 (by decide) separates_numericSha256
  exact ⟨(hsound.1 42 h42).mpr (by decide), hpair.1.mpr (by decide),
    hpair.2.1.mpr (by decide)⟩

/-- Every integral double becomes its decimal text. -/
def IdsExact : Prop :=
  ∀ z, Representable z → numericId z = some (toString z)

/-- Different integral doubles become different identifiers. -/
def IdsDistinct : Prop :=
  ∀ z w, Representable z → Representable w → z ≠ w → numericId z ≠ numericId w

/-- The doubles 2^63 and 2^64 become one identifier, which is the text of
neither. -/
theorem numericIds_unsound : ¬ IdsExact ∧ ¬ IdsDistinct := by
  constructor
  · intro h
    exact absurd (h (2 ^ 63) (representable_two_pow (by decide))) (by decide)
  · intro h
    exact h (2 ^ 63) (2 ^ 64) (representable_two_pow (by decide))
      (representable_two_pow (by decide)) (by decide) (by decide)

end RestToA2a.Policy.NumericKeys
