import RestToA2a.Policy.A2a
import RestToA2a.Verified.Text

/-!
# Wire bindings

`binding.rs` and `jsonrpc.rs`: how the send parameters are framed for the
upstream, and how its reply is split into a result and an error.  The JSON-RPC
binding reads both halves from the envelope; the HTTP+JSON binding takes the
whole body as the result, error replies included.
-/

namespace RestToA2a.Policy.Binding

open RestToA2a.Verified
open RestToA2a.Policy.Serde
open RestToA2a.Policy.A2a

/-- How the upstream agent is spoken to. -/
inductive UpstreamBinding where
  | jsonRpc
  | httpJson
deriving DecidableEq

/-- A configured name as it is compared: trimmed, in lower case. -/
def configuredName (s : String) : String :=
  String.ofList (Text.toAsciiLowercase (Text.trim s.toList))

/-- An `upstreamBinding` that is no known name. -/
structure UnknownBinding where
  name : String
deriving DecidableEq

/-- The text of the error. -/
def UnknownBinding.display (err : UnknownBinding) : String :=
  "unknown upstream binding '" ++ err.name ++ "' (expected 'jsonrpc' or 'httpjson')"

/-- The binding of a configured name. -/
def UpstreamBinding.fromStr (s : String) : Except UnknownBinding UpstreamBinding :=
  match configuredName s with
  | "jsonrpc" | "json-rpc" | "json_rpc" => .ok .jsonRpc
  | "httpjson" | "http+json" | "http-json" | "http_json" => .ok .httpJson
  | other => .error ⟨other⟩

theorem UpstreamBinding.error_of_fromStr {s : String} {err : UnknownBinding}
    (h : UpstreamBinding.fromStr s = .error err) : err = ⟨configuredName s⟩ := by
  unfold UpstreamBinding.fromStr at h
  split at h <;> cases h
  rfl

/-- Version string of the envelope. -/
def jsonrpcVersion : String := "2.0"

/-- The JSON-RPC request envelope. -/
def buildRequest (id method : String) (params : Json) : Json :=
  Json.object
    [ ("jsonrpc", .str jsonrpcVersion)
    , ("id", .str id)
    , ("method", .str method)
    , ("params", params) ]

theorem get?_buildRequest (id method : String) (params : Json) (key : String) :
    (buildRequest id method params).get? key =
      if key = "params" then some params
      else if key = "method" then some (.str method)
      else if key = "id" then some (.str id)
      else if key = "jsonrpc" then some (.str jsonrpcVersion)
      else none := by
  simp [buildRequest, Json.object, KeyedList.lookup_insert]

/-- The body of a send, before it is printed. -/
def frameBody (binding : UpstreamBinding) (requestId : String)
    (params : Json) : Json :=
  match binding with
  | .jsonRpc => buildRequest requestId sendMessageMethod params
  | .httpJson => params

/-- The body of a send. -/
def frameRequest (rt : Runtime) (binding : UpstreamBinding) (requestId : String)
    (params : Json) : Bytes :=
  rt.toVec (frameBody binding requestId params)

/-- The two halves of an upstream reply. -/
structure ResponseParts where
  result : Option Json := none
  error : Option Json := none

/-- The halves of a JSON-RPC response body. -/
def ResponseEnvelope.parse (rt : Runtime) (body : Bytes) : Option ResponseParts :=
  (rt.fromSlice body).map fun value =>
    { result := value.get? "result", error := value.get? "error" }

/-- Split an upstream reply for the binding. -/
def parseResponse (rt : Runtime) (binding : UpstreamBinding)
    (body : Bytes) : ResponseParts :=
  match binding with
  | .jsonRpc => (ResponseEnvelope.parse rt body).getD {}
  | .httpJson =>
      match rt.fromSlice body with
      | some value => { result := some value, error := value.get? "error" }
      | none => {}

/-- The body of a fail-closed rejection. -/
def callerErrorBody (rt : Runtime) (message : String) : Bytes :=
  rt.toVec (Json.object
    [("error", Json.object
      [("message", .str message), ("source", .str "rest-to-a2a")])])

theorem parseResponse_jsonRpc {rt : Runtime} {body : Bytes} {value : Json}
    (h : rt.fromSlice body = some value) :
    parseResponse rt .jsonRpc body =
      { result := value.get? "result", error := value.get? "error" } := by
  simp [parseResponse, ResponseEnvelope.parse, h]

theorem parseResponse_httpJson {rt : Runtime} {body : Bytes} {value : Json}
    (h : rt.fromSlice body = some value) :
    parseResponse rt .httpJson body =
      { result := some value, error := value.get? "error" } := by
  simp [parseResponse, h]

/-- A body that is not JSON yields neither half under either binding. -/
theorem parseResponse_opaque {rt : Runtime} {body : Bytes}
    (h : rt.fromSlice body = none) (binding : UpstreamBinding) :
    parseResponse rt binding body = {} := by
  cases binding <;> simp [parseResponse, ResponseEnvelope.parse, h]

end RestToA2a.Policy.Binding
