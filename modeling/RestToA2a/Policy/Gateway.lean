import RestToA2a.Policy.Serde

/-!
# What the gateway hands to the filters

Requests and responses as the host presents them, compiled DataWeave
selectors, and the wall clock.  All of it comes from outside the repository;
the filters only read headers, evaluate selectors and replace bodies.
-/

namespace RestToA2a.Policy.Gateway

open RestToA2a.Policy.Serde

/-- Header lines; the host gives the names in lower case. -/
abbrev Headers := List (String × String)

/-- The value of a header. -/
def header (name : String) (headers : Headers) : Option String :=
  headers.lookup name

def removeHeader (name : String) (headers : Headers) : Headers :=
  headers.filter fun h => h.1 ≠ name

def setHeader (name value : String) (headers : Headers) : Headers :=
  removeHeader name headers ++ [(name, value)]

/-- What a selector can see besides the payload: the headers when it was bound,
and the properties of the stream. -/
structure Attributes where
  headers : Headers
  stream : List (String × String)

/-- A compiled selector, evaluated on the attributes and the payload it was
bound to. -/
structure Script where
  eval : Attributes → Bytes → Except String ScriptValue

/-- Evaluate an optional selector; an absent one and a failing one have no
value. -/
def evalScript (script : Option Script) (attributes : Attributes)
    (payload : Bytes) : Option ScriptValue :=
  script.bind fun s => (s.eval attributes payload).toOption

/-- A request as the request filter sees it, and whether the host accepts a
new body for it. -/
structure HttpRequest where
  path : String
  headers : Headers
  stream : List (String × String)
  body : Bytes
  setBody : Bool

/-- A response as the response filter sees it. -/
structure HttpResponse where
  headers : Headers
  stream : List (String × String)
  body : Bytes
  setBody : Bool

def HttpRequest.attributes (r : HttpRequest) : Attributes := ⟨r.headers, r.stream⟩

def HttpResponse.attributes (r : HttpResponse) : Attributes := ⟨r.headers, r.stream⟩

/-- A reading of the wall clock: the nanoseconds since the epoch the WASI host
returns, or a clock error. -/
abbrev Clock := Option (Fin (2 ^ 64))

/-- The milliseconds since the epoch, zero on a clock error. -/
def nowMillis (clock : Clock) : Nat :=
  match clock with
  | some nanos => nanos.val / 1000000
  | none => 0

theorem nowMillis_lt (clock : Clock) : nowMillis clock < 2 ^ 45 := by
  cases clock with
  | none => simp [nowMillis]
  | some nanos =>
      have := nanos.isLt
      simp only [nowMillis]
      omega

end RestToA2a.Policy.Gateway
