import RestToA2a.Policy.ConfigMap
import RestToA2a.Policy.Continuation
import RestToA2a.Policy.Dataweave

/-!
# The request and response filters

`lib.rs`: the two filters as programs over the conversation storage.  `storage`
says whether the filters were launched with one, which they are in cache mode.
Log lines are kept as `Warning`s, one constructor for each that the response
filter can write.
-/

namespace RestToA2a.Policy.Filter

open RestToA2a.Verified
open RestToA2a.Verified.StorageProgram
open RestToA2a.Policy.Serde
open RestToA2a.Policy.A2a
open RestToA2a.Policy.Binding
open RestToA2a.Policy.Cache
open RestToA2a.Policy.Cache.ConversationStore
open RestToA2a.Policy.Continuation
open RestToA2a.Policy.Dataweave
open RestToA2a.Policy.Gateway
open RestToA2a.Policy.ConfigMap
open RestToA2a.Policy.ResponseBuild
open RestToA2a.Policy.ResponseFields
open RestToA2a.Policy.Select

def contentType : String := "content-type"

def contentLength : String := "content-length"

def applicationJson : String := "application/json"

/-- Headers of a message whose body is replaced by JSON. -/
def rewriteHeaders (headers : Headers) : Headers :=
  setHeader contentType applicationJson (removeHeader contentLength headers)

/-- The store of the configuration. -/
def conversationStore (config : PolicyConfig) : ConversationStore :=
  .new config.distributed config.conversationTtlSeconds

variable {τ : Type}

/-! ## Request filter -/

/-- What the request filter leaves for the response filter. -/
structure RequestContext where
  continuation : RequestContinuation := {}
deriving DecidableEq

/-- A response the policy gives itself. -/
structure Rejection where
  status : UInt32
  headers : Headers
  body : Bytes

/-- The send that goes upstream. -/
structure SendMessage where
  messageId : String
  params : Json
  headers : Headers

/-- The outbound body of a send. -/
def SendMessage.body (rt : Runtime) (config : PolicyConfig) (m : SendMessage) :
    Bytes :=
  frameRequest rt config.binding m.messageId m.params

/-- How the request filter ends. -/
inductive Flow where
  | broken (response : Rejection)
  | continued (ctx : RequestContext) (message : SendMessage)

/-- What the response filter is handed of the request. -/
def Flow.requestData : Flow → Option RequestContext
  | .broken _ => none
  | .continued ctx _ => some ctx

def reject (rt : Runtime) (config : PolicyConfig) (message : String) : Rejection where
  status := config.requestErrorStatus
  headers := [(contentType, applicationJson)]
  body := callerErrorBody rt message

/-- The prompt of a request. -/
def promptOf (config : PolicyConfig) (request : HttpRequest) : Option String :=
  (evalScript (some config.promptSelector) request.attributes request.body).bind
    valueToString

/-- The conversation value of a request. -/
def conversationValue (config : PolicyConfig) (request : HttpRequest) :
    Option String :=
  (evalScript config.contextKeySelector request.attributes request.body).bind
    valueToString

/-- The continuation of a request, per mode. -/
def requestContinuation (rt : Runtime) (config : PolicyConfig) (storage : Bool)
    (request : HttpRequest) (nowMillis : Nat) : Storage τ RequestContinuation :=
  match config.continuationMode with
  | .cache =>
      if storage then resolveCache rt (conversationValue config request) nowMillis
      else .done {}
  | .explicit =>
      .done (resolveExplicit
        ((evalScript config.taskIdSelector request.attributes request.body).bind
          valueToString)
        ((evalScript config.contextIdSelector request.attributes request.body).bind
          valueToString))
  | .none => .done {}

/-- Seed of the message id besides the prompt. -/
def idSeed (request : HttpRequest) : String :=
  (header "x-request-id" request.headers).getD request.path

/-- The send for a prompt and a continuation. -/
def sendMessage (rt : Runtime) (config : PolicyConfig) (request : HttpRequest)
    (prompt : String) (continuation : Continuation) : SendMessage :=
  let messageId := generateMessageId rt (utf8 (idSeed request) ++ utf8 prompt)
  let metadata := (evalScript config.metadataSelector request.attributes
    request.body).map (valueToJson rt)
  { messageId
    params := buildSendMessage prompt messageId continuation
      config.sendConfiguration metadata
    headers := rewriteHeaders request.headers }

/-- Forward the send for a prompt, if the host takes the new body. -/
def forward (rt : Runtime) (config : PolicyConfig) (request : HttpRequest)
    (prompt : String) (rc : RequestContinuation) : Flow :=
  if request.setBody then
    .continued ⟨rc⟩ (sendMessage rt config request prompt rc.continuation)
  else .broken (reject rt config "failed to build A2A request")

/-- The request filter. -/
def requestFilter (rt : Runtime) (config : PolicyConfig) (storage : Bool)
    (request : HttpRequest) (nowMillis : Nat) : Storage τ Flow :=
  match promptOf config request with
  | none => .done (.broken (reject rt config "missing or invalid prompt"))
  | some prompt =>
      (requestContinuation rt config storage request nowMillis).map
        (forward rt config request prompt)

/-! ## Response filter -/

/-- A line the response filter logs. -/
inductive Warning where
  | eventStream
  | upstreamError (error : Json)
  | persistFailed (error : CacheError)
  | unresumable
  | fieldUnresolved (selector name : String)
  | fieldCollision (name : String)
  | setBodyFailed
  | mappingFailed (error : String)
  | mappingEmpty

/-- What reaches the caller, and what was logged on the way. -/
structure Delivered where
  headers : Headers
  body : Bytes
  warnings : List Warning

/-- The response announces an event stream. -/
def isEventStream (headers : Headers) : Bool :=
  match header contentType headers with
  | some value => Text.contains value "text/event-stream"
  | none => false

/-- The warning about a reply no later turn can pick up. -/
def resumeWarning (request : RequestContinuation) (stateClass : StateClass) :
    List Warning :=
  if isUnresumableContinuable request stateClass then [.unresumable] else []

/-- What is logged after persisting a reply. -/
def persistWarnings (request : RequestContinuation) (stateClass : StateClass)
    (persisted : Except CacheError Unit) : List Warning :=
  match persisted with
  | .ok () => resumeWarning request stateClass
  | .error err => .persistFailed err :: resumeWarning request stateClass

/-- Persist the continuation of a reply, and warn. -/
def persistReply (config : PolicyConfig) (storage : Bool) (ctx : RequestContext)
    (result : Option Json) (nowMillis : Nat) : Storage τ (List Warning) :=
  match result with
  | none => .done []
  | some result =>
      let parsed := parseResult result
      if storage then
        (persistOutcome (conversationStore config) ctx.continuation parsed.class
          parsed.continuation nowMillis).map
            (persistWarnings ctx.continuation parsed.class)
      else .done (resumeWarning ctx.continuation parsed.class)

/-- Replace the body, or keep it when the host refuses. -/
def replaceBody (response : HttpResponse) (shaped : Bytes) (warnings : List Warning) :
    Bytes × List Warning :=
  if response.setBody then (shaped, warnings)
  else (response.body, warnings ++ [.setBodyFailed])

/-- The bytes bound as `payload`: the result printed again, or the body as it
came when there is no result. -/
def payloadOf (rt : Runtime) (result : Option Json) (body : Bytes) : Bytes :=
  match result with
  | some value => rt.toVec value
  | none => body

/-- The log line of a field that resolves to nothing. -/
def fieldWarnings (root : Json) (field : ResponseField) : List Warning :=
  match select root field.selector with
  | some _ => []
  | none => [.fieldUnresolved field.selector field.name]

/-- The `fields` path. -/
def shapeFields (rt : Runtime) (config : PolicyConfig) (response : HttpResponse)
    (payload : Bytes) : Bytes × List Warning :=
  let root := (rt.fromSlice payload).getD .null
  let assembled := assemble (buildFields root config.responseFields)
  replaceBody response (rt.toVec assembled.object)
    (config.responseFields.flatMap (fieldWarnings root) ++
      assembled.collisions.map .fieldCollision)

/-- The `mapping` path. -/
def shapeMapping (rt : Runtime) (config : PolicyConfig) (response : HttpResponse)
    (payload : Bytes) : Bytes × List Warning :=
  match config.responseMapping with
  | some script =>
      match script.eval response.attributes payload with
      | .ok value => replaceBody response (rt.toVec (valueToJson rt value)) []
      | .error err => (response.body, [.mappingFailed err])
  | none => (response.body, [.mappingEmpty])

/-- The body that reaches the caller. -/
def shapeBody (rt : Runtime) (config : PolicyConfig) (response : HttpResponse)
    (result : Option Json) : Bytes × List Warning :=
  if config.usesRawResponse then (response.body, [])
  else if config.usesResponseFields then
    shapeFields rt config response (payloadOf rt result response.body)
  else shapeMapping rt config response (payloadOf rt result response.body)

/-- The headers that reach the caller. -/
def shapeHeaders (config : PolicyConfig) (headers : Headers) : Headers :=
  if config.usesRawResponse then headers else rewriteHeaders headers

/-- The log line of an upstream error. -/
def errorWarning (parts : ResponseParts) : List Warning :=
  match parts.error with
  | some error => [.upstreamError error]
  | none => []

/-- What a reply is turned into, with what was logged when it was persisted. -/
def deliver (rt : Runtime) (config : PolicyConfig) (response : HttpResponse)
    (persisted : List Warning) : Delivered :=
  let parts := parseResponse rt config.binding response.body
  let shaped := shapeBody rt config response parts.result
  { headers := shapeHeaders config response.headers
    body := shaped.1
    warnings := errorWarning parts ++ persisted ++ shaped.2 }

/-- The response filter. -/
def responseFilter (rt : Runtime) (config : PolicyConfig) (storage : Bool)
    (requestData : Option RequestContext) (response : HttpResponse)
    (nowMillis : Nat) : Storage τ Delivered :=
  match requestData with
  | none => .done ⟨response.headers, response.body, []⟩
  | some ctx =>
      if isEventStream response.headers then
        .done ⟨response.headers, response.body, [.eventStream]⟩
      else
        let parts := parseResponse rt config.binding response.body
        (persistReply config storage ctx parts.result nowMillis).map
          (deliver rt config response)

end RestToA2a.Policy.Filter
