import Mathlib.Data.String.Basic
import RestToA2a.Verified.KeyedList

/-!
# JSON values and the crates that handle them

`Json` is `serde_json::Value`: an object is the list of members its
`BTreeMap<String, Value>` iterates, in key order.  `ScriptValue` is what a
DataWeave selector evaluates to.  Reading and printing of bytes, the SHA-256
digest and the conversion between the two kinds of values are done by crates
outside the repository; they come in as the fields of a `Runtime`, about which
nothing is assumed here.
-/

namespace RestToA2a.Policy.Serde

open RestToA2a.Verified

/-- A body, as the host hands it over. -/
abbrev Bytes := List UInt8

/-- `as_bytes` of a string. -/
def utf8 (s : String) : Bytes := s.toUTF8.data.toList

theorem utf8_injective : Function.Injective utf8 := by
  intro s t h
  have hdata : s.toByteArray = t.toByteArray := by
    apply ByteArray.ext
    apply Array.ext'
    simpa [utf8] using h
  exact String.toByteArray_inj.mp hdata

theorem utf8_append (s t : String) : utf8 (s ++ t) = utf8 s ++ utf8 t := by
  simp [utf8]

/-- A double, as far as the policy tells doubles apart: a finite integral one
is its value, any other is known by the text Rust displays for it. -/
inductive Double where
  | integral (z : Int)
  | fractional (display : String)
  | nonFinite (display : String)
deriving DecidableEq

/-- `serde_json::Number`. -/
inductive Number where
  | int (z : Int)
  | float (d : Double)
deriving DecidableEq

/-- `serde_json::Value`. -/
inductive Json where
  | null
  | bool (b : Bool)
  | num (n : Number)
  | str (s : String)
  | arr (elems : List Json)
  | obj (members : List (String × Json))

/-- The members of an object. -/
abbrev Map := List (String × Json)

/-- One step into a value. -/
inductive PathStep where
  | key (k : String)
  | index (i : Nat)
deriving DecidableEq

namespace Json

/-- `Value::get` with a string: the member of an object, nothing of anything
else. -/
def get? : Json → String → Option Json
  | .obj members, key => members.lookup key
  | _, _ => none

/-- `Value::get` with an index: the element of an array. -/
def at? : Json → Nat → Option Json
  | .arr elems, index => elems[index]?
  | _, _ => none

/-- Follow one step. -/
def step (v : Json) : PathStep → Option Json
  | .key k => v.get? k
  | .index i => v.at? i

/-- Follow a path. -/
def walk (v : Json) : List PathStep → Option Json
  | [] => some v
  | p :: rest => (v.step p).bind fun w => w.walk rest

/-- `Value::as_str`. -/
def asStr : Json → Option String
  | .str s => some s
  | _ => none

/-- The object the `json!` macro builds from its members. -/
def object (members : Map) : Json :=
  .obj (members.foldl (fun m e => KeyedList.insert e.1 e.2 m) [])

@[simp] theorem get?_obj (members : Map) (key : String) :
    (Json.obj members).get? key = members.lookup key := rfl

/-- The value is one the crate can hold: a `BTreeMap` keeps its keys strictly
increasing, at every level. -/
inductive Ordered : Json → Prop where
  | null : Ordered .null
  | bool (b : Bool) : Ordered (.bool b)
  | num (n : Number) : Ordered (.num n)
  | str (s : String) : Ordered (.str s)
  | arr {elems : List Json} (h : ∀ v ∈ elems, Ordered v) : Ordered (.arr elems)
  | obj {members : Map} (hs : KeyedList.Sorted members)
      (h : ∀ e ∈ members, Ordered e.2) : Ordered (.obj members)

/-- `Value::is_null`, of a member that may be missing. -/
def present : Option Json → Bool
  | none => false
  | some .null => false
  | some _ => true

end Json

/-- `pdk::script::Value`. -/
inductive ScriptValue where
  | null
  | bool (b : Bool)
  | number (d : Double)
  | string (s : String)
  | array (elems : List ScriptValue)
  | object (members : List (String × ScriptValue))

/-- A SHA-256 digest. -/
abbrev Digest := Vector UInt8 32

/-- The code outside the repository that the filters call: the `sha2` digest,
`serde_json` to and from bytes, and the conversion of a script value.  Printing
a value in memory cannot fail; parsing yields nothing on a body that is not
JSON. -/
structure Runtime where
  sha256 : Bytes → Digest
  toVec : Json → Bytes
  fromSlice : Bytes → Option Json
  intoJson : ScriptValue → Json

end RestToA2a.Policy.Serde
