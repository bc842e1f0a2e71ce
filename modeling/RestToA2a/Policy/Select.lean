import RestToA2a.Policy.Serde
import RestToA2a.Verified.Text

/-!
# Dotted-path selection

`select.rs`: a path such as `task.status.parts[0]` against a JSON value.  Text
is handled as lists of characters, so a position in a token is a suffix of it.
-/

namespace RestToA2a.Policy.Select

open RestToA2a.Verified
open RestToA2a.Policy.Serde

/-- Width of `usize` on the 32-bit target of the policy. -/
def usizeBits : Nat := 32

/-- The index steps of a token, each in brackets, from `cur` on. -/
def resolveBrackets (cur : Json) (bracket : List Char) : Option Json :=
  match bracket with
  | [] => some cur
  | '[' :: stripped =>
      if ']' ∈ stripped then
        let index := Text.parseUnsigned? usizeBits (stripped.takeWhile (· ≠ ']'))
        (index.bind cur.at?).bind fun next =>
          resolveBrackets next ((stripped.dropWhile (· ≠ ']')).tail)
      else none
  | _ :: _ => none
termination_by bracket.length
decreasing_by
  have := (List.dropWhile_suffix (l := stripped) (· ≠ ']')).length_le
  simp only [List.length_tail, List.length_cons]
  omega

/-- One dot-delimited token: an optional key and then index steps. -/
def resolveToken (value : Json) (token : List Char) : Option Json :=
  let key := token.takeWhile (· ≠ '[')
  let cur := if key.isEmpty then some value else value.get? (String.ofList key)
  cur.bind fun cur => resolveBrackets cur (token.dropWhile (· ≠ '['))

/-- The tokens of a path, one after the other. -/
def resolveTokens (value : Json) (tokens : List (List Char)) : Option Json :=
  tokens.foldlM resolveToken value

/-- The path without the optional leading `payload`. -/
def stripPayload (trimmed : List Char) : List Char :=
  match Text.stripPrefix? "payload.".toList trimmed with
  | some stripped => stripped
  | none => if trimmed = "payload".toList then [] else trimmed

/-- Resolve a path against a root. -/
def select (root : Json) (path : String) : Option Json :=
  let rest := stripPayload (Text.trim path.toList)
  if rest.isEmpty then some root
  else resolveTokens root (rest.splitOn '.')

end RestToA2a.Policy.Select
