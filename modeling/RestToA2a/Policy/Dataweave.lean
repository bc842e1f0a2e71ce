import RestToA2a.Policy.Serde
import RestToA2a.Verified.Text

/-!
# DataWeave results

`dataweave.rs`: a selector's value as the optional non-blank string the policy
uses for prompts, conversation keys and ids, and as a JSON value.
-/

namespace RestToA2a.Policy.Dataweave

open RestToA2a.Verified
open RestToA2a.Policy.Serde

/-- `n as i64`, which saturates. -/
def asI64 (z : Int) : Int :=
  max (-(2 ^ 63)) (min z (2 ^ 63 - 1))

/-- A number as an identifier: integral ones without a fraction. -/
def formatNumber (n : Double) : String :=
  match n with
  | .integral z => toString (asI64 z)
  | .fractional display => display
  | .nonFinite display => display

/-- Normalize a selector's value to a non-blank string. -/
def valueToString (value : ScriptValue) : Option String :=
  match value with
  | .string s =>
      let trimmed := Text.trim s.toList
      if trimmed.isEmpty then none else some (String.ofList trimmed)
  | .number n => some (formatNumber n)
  | .bool b => some (toString b)
  | .null | .array _ | .object _ => none

/-- A selector's value as a JSON value. -/
def valueToJson (rt : Runtime) (value : ScriptValue) : Json := rt.intoJson value

end RestToA2a.Policy.Dataweave
