import RestToA2a.Policy.Serde

/-!
# Derived deserialization

What `#[derive(Deserialize)]` makes of a struct: where a field is found in a
value, and what a field that is missing stands for.  A struct may be written as
an object, its fields under their names or aliases, or as an array, its fields
in order.  Which error is reported is left open; a value that is refused yields
nothing.
-/

namespace RestToA2a.Policy.Deserialize

open RestToA2a.Policy.Serde

variable {α : Type}

/-- `String`. -/
def string : Json → Option String := Json.asStr

/-- `bool`. -/
def bool : Json → Option Bool
  | .bool b => some b
  | _ => none

/-- `i64`: a number written without a fraction, if it fits. -/
def i64 : Json → Option Int
  | .num (.int z) => if -(2 ^ 63) ≤ z ∧ z < 2 ^ 63 then some z else none
  | _ => none

/-- `Vec<T>`. -/
def vec (read : Json → Option α) : Json → Option (List α)
  | .arr elems => elems.mapM read
  | _ => none

/-- `Option<T>`: `null` is no value. -/
def option (read : Json → Option α) : Json → Option (Option α)
  | .null => some none
  | v => (read v).map some

/-- The values an object has under some names. -/
def valuesOf (names : List String) (members : Map) : List Json :=
  (members.filter fun e => e.1 ∈ names).map Prod.snd

/-- A field of a struct, by its names and its position.  Nothing is found in a
value of another kind, or if the field is given twice; a field may also be
missing. -/
def field (names : List String) (position : Nat) : Json → Option (Option Json)
  | .obj members =>
      match valuesOf names members with
      | [] => some none
      | [v] => some (some v)
      | _ => none
  | .arr elems => some elems[position]?
  | _ => none

/-- An array has no more elements than the struct has fields. -/
def fits (fields : Nat) : Json → Bool
  | .arr elems => elems.length ≤ fields
  | _ => true

/-- A field with a default. -/
def withDefault (default : α) (read : Json → Option α)
    (found : Option (Option Json)) : Option α :=
  found.bind fun v => (v.map read).getD (some default)

/-- A field that has to be there. -/
def required (read : Json → Option α) (found : Option (Option Json)) : Option α :=
  found.bind fun v => v.bind read

/-- An optional field without a default: it may be left out of an object, not
of an array. -/
def omittable (read : Json → Option α) (struct : Json)
    (found : Option (Option Json)) : Option (Option α) :=
  found.bind fun v => (v.map (option read)).getD
    (match struct with
      | .obj _ => some none
      | _ => none)

/-! ## Fields read in turn -/

/-- Reading a field and going on differs by a change of the result if going on
does. -/
theorem bind_eq_map_bind {α β γ : Type} {x : Option α} {f : α → Option β}
    {f' : α → Option γ} {g : β → γ} (h : ∀ a, f' a = (f a).map g) :
    x.bind f' = (x.bind f).map g := by
  cases x with
  | none => rfl
  | some a => exact h a

/-- The same where the value that is read was changed before. -/
theorem map_bind_eq_map_bind {α β γ : Type} {x : Option α} {change : α → α}
    {f : α → Option β} {f' : α → Option γ} {g : β → γ}
    (h : ∀ a, f' (change a) = (f a).map g) :
    (x.map change).bind f' = (x.bind f).map g := by
  cases x with
  | none => rfl
  | some a => exact h a

end RestToA2a.Policy.Deserialize
