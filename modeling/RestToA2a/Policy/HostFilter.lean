import RestToA2a.Policy.Filter
import RestToA2a.Verified.HostProgram

/-!
# The filters as the host runs them

`lib.rs` again, call by call.  The host hands a message over in two stages, its
headers and then its body; a selector is bound to the attributes in the first
and to the payload in the second, and evaluated after that; headers can be
changed in the first stage only.  `early` stands for what evaluating a selector
yields before it is bound to both.
-/

namespace RestToA2a.Policy.HostFilter

open RestToA2a.Verified.StorageProgram
open RestToA2a.Verified.HostProgram
open RestToA2a.Verified.HostProgram.HostProg
open RestToA2a.Policy.Serde
open RestToA2a.Policy.A2a
open RestToA2a.Policy.Binding
open RestToA2a.Policy.Cache
open RestToA2a.Policy.Cache.ConversationStore
open RestToA2a.Policy.Continuation
open RestToA2a.Policy.Dataweave
open RestToA2a.Policy.Gateway
open RestToA2a.Policy.ConfigMap
open RestToA2a.Policy.ResponseBuild
open RestToA2a.Policy.ResponseFields
open RestToA2a.Policy.Select
open RestToA2a.Policy.Filter

/-! ## The host -/

/-- A line a filter logs. -/
inductive LogLine where
  | promptMissing
  | requestBodyRefused
  | response (warning : Warning)

/-- A call of the host. -/
inductive Call where
  | header (name : String)
  | path
  | attributes
  | removeHeader (name : String)
  | setHeader (name value : String)
  | intoBody
  | body
  | setBody (body : Bytes)
  | now
  | log (line : LogLine)

/-- What a call answers. -/
abbrev Answer : Call → Type
  | .header _ => Option String
  | .path => String
  | .attributes => Attributes
  | .removeHeader _ => Unit
  | .setHeader _ _ => Unit
  | .intoBody => Unit
  | .body => Bytes
  | .setBody _ => Bool
  | .now => Nat
  | .log _ => Unit

/-- How far a message has been handed over. -/
inductive Stage where
  | headers
  | body
deriving DecidableEq

/-- A message in the hands of the host, and what was logged. -/
structure Host where
  stage : Stage
  path : String
  headers : Headers
  stream : List (String × String)
  body : Bytes
  takesBody : Bool
  clock : Nat
  log : List LogLine

namespace Host

/-- Change the headers, while they can be. -/
def changeHeaders (h : Host) (f : Headers → Headers) : Host :=
  match h.stage with
  | .headers => { h with headers := f h.headers }
  | .body => h

/-- The host. -/
def answer : (op : Call) → Host → Answer op × Host
  | .header name, h => (Gateway.header name h.headers, h)
  | .path, h => (h.path, h)
  | .attributes, h => (⟨h.headers, h.stream⟩, h)
  | .removeHeader name, h => ((), h.changeHeaders (Gateway.removeHeader name))
  | .setHeader name value, h => ((), h.changeHeaders (Gateway.setHeader name value))
  | .intoBody, h => ((), { h with stage := .body })
  | .body, h =>
      match h.stage with
      | .headers => ([], h)
      | .body => (h.body, h)
  | .setBody body, h =>
      if h.takesBody then (true, { h with body := body }) else (false, h)
  | .now, h => (h.clock, h)
  | .log line, h => ((), { h with log := h.log ++ [line] })

/-- A request as it comes in. -/
def ofRequest (request : HttpRequest) (nowMillis : Nat) : Host where
  stage := .headers
  path := request.path
  headers := request.headers
  stream := request.stream
  body := request.body
  takesBody := request.setBody
  clock := nowMillis
  log := []

/-- A response as it comes back. -/
def ofResponse (response : HttpResponse) (nowMillis : Nat) : Host where
  stage := .headers
  path := ""
  headers := response.headers
  stream := response.stream
  body := response.body
  takesBody := response.setBody
  clock := nowMillis
  log := []

end Host

/-! ## Selector evaluators -/

/-- A selector on its way to be evaluated. -/
structure Evaluator where
  script : Script
  attributes : Option Attributes := none
  payload : Option Bytes := none

namespace Evaluator

def bindAttributes (attributes : Attributes) (e : Evaluator) : Evaluator :=
  { e with attributes := some attributes }

def bindPayload (payload : Bytes) (e : Evaluator) : Evaluator :=
  { e with payload := some payload }

end Evaluator

/-- What evaluating a selector yields that is not bound to both. -/
abbrev Early : Type := Evaluator → Except String ScriptValue

def Evaluator.eval (early : Early) (e : Evaluator) : Except String ScriptValue :=
  match e.attributes, e.payload with
  | some attributes, some payload => e.script.eval attributes payload
  | _, _ => early e

/-- Evaluate an evaluator that may be missing, dropping its error. -/
def evalOptional (early : Early) (e : Option Evaluator) : Option ScriptValue :=
  e.bind fun e => (e.eval early).toOption

/-- The evaluators of the request filter. -/
structure Evaluators where
  prompt : Evaluator
  metadata : Option Evaluator
  key : Option Evaluator
  task : Option Evaluator
  context : Option Evaluator

namespace Evaluators

/-- `evaluator()` of each selector. -/
def of (config : PolicyConfig) : Evaluators where
  prompt := { script := config.promptSelector }
  metadata := config.metadataSelector.map fun s => { script := s }
  key := config.contextKeySelector.map fun s => { script := s }
  task := config.taskIdSelector.map fun s => { script := s }
  context := config.contextIdSelector.map fun s => { script := s }

/-- Bind those that the mode evaluates. -/
def bind (mode : ContinuationMode) (f : Evaluator → Evaluator) (e : Evaluators) :
    Evaluators :=
  let e := { e with prompt := f e.prompt, metadata := e.metadata.map f }
  match mode with
  | .cache => { e with key := e.key.map f }
  | .explicit => { e with task := e.task.map f, context := e.context.map f }
  | .none => e

end Evaluators

/-! ## The filters -/

variable {τ : Type}

/-- A program over the host and the conversation storage. -/
abbrev Hosted (τ α : Type) := HostProg Call Answer String ConversationEntry τ α

/-- One call of the host. -/
def ask (op : Call) : Hosted τ (Answer op) := host op

/-- How the request filter ends for the host. -/
inductive HostFlow where
  | broken (response : Rejection)
  | continued (ctx : RequestContext)

section Filters

variable (rt : Runtime) (early : Early) (config : PolicyConfig) (storage : Bool)

/-- Set the headers of a message whose body is going to be JSON. -/
def labelJson : Hosted τ Unit := do
  ask (.removeHeader contentLength)
  ask (.setHeader contentType applicationJson)

/-- The seed of the message id: the request id, else the path. -/
def readIdSeed : Hosted τ String := do
  match ← ask (.header "x-request-id") with
  | some id => pure id
  | none => ask .path

/-- Resolve the continuation per mode. -/
def resolve (evals : Evaluators) : Hosted τ RequestContinuation :=
  match config.continuationMode with
  | .cache =>
      let conversationValue := (evalOptional early evals.key).bind valueToString
      if storage then do
        let nowMillis ← ask .now
        lift (resolveCache rt conversationValue nowMillis)
      else pure {}
  | .explicit =>
      pure (resolveExplicit ((evalOptional early evals.task).bind valueToString)
        ((evalOptional early evals.context).bind valueToString))
  | .none => pure {}

/-- Frame the send and put it in place of the body. -/
def forwardHost (evals : Evaluators) (idSeed prompt : String)
    (rc : RequestContinuation) : Hosted τ HostFlow := do
  let messageId := generateMessageId rt (utf8 idSeed ++ utf8 prompt)
  let metadata := (evalOptional early evals.metadata).map (valueToJson rt)
  let params := buildSendMessage prompt messageId rc.continuation
    config.sendConfiguration metadata
  if ← ask (.setBody (frameRequest rt config.binding messageId params)) then
    pure (.continued ⟨rc⟩)
  else do
    ask (.log .requestBodyRefused)
    pure (.broken (reject rt config "failed to build A2A request"))

/-- What the request filter does once the body is there. -/
def afterBody (evals : Evaluators) (idSeed : String) : Hosted τ HostFlow :=
  match (evals.prompt.eval early).toOption.bind valueToString with
  | none => do
      ask (.log .promptMissing)
      pure (.broken (reject rt config "missing or invalid prompt"))
  | some prompt => do
      let rc ← resolve rt early config storage evals
      forwardHost rt early config evals idSeed prompt rc

/-- The request filter. -/
def requestFilter : Hosted τ HostFlow := do
  let idSeed ← readIdSeed
  let attributes ← ask .attributes
  let evals := (Evaluators.of config).bind config.continuationMode
    (Evaluator.bindAttributes attributes)
  labelJson
  ask .intoBody
  let payload ← ask .body
  afterBody rt early config storage
    (evals.bind config.continuationMode (Evaluator.bindPayload payload)) idSeed

/-- The log lines of a list of warnings. -/
def warn : List Warning → Hosted τ Unit
  | [] => pure ()
  | w :: ws => do
      ask (.log (.response w))
      warn ws

/-- Bind the mapping to the attributes, in mapping mode. -/
def bindMapping : Hosted τ (Option Evaluator) :=
  let mapping : Option Evaluator := config.responseMapping.map fun s => { script := s }
  if config.usesRawResponse || config.usesResponseFields then pure mapping
  else
    match mapping with
    | some e => do
        let attributes ← ask .attributes
        pure (some (e.bindAttributes attributes))
    | none => pure none

/-- Label the response as JSON, unless it is wanted raw. -/
def labelShaped : Hosted τ Unit :=
  if config.usesRawResponse then pure () else labelJson

/-- Persist the continuation of the reply, and warn. -/
def persistHost (ctx : RequestContext) (result : Option Json) : Hosted τ Unit :=
  match result with
  | none => pure ()
  | some result =>
      let parsed := parseResult result
      if storage then do
        let nowMillis ← ask .now
        let persisted ← lift (persistOutcome (conversationStore config)
          ctx.continuation parsed.class parsed.continuation nowMillis)
        warn (persistWarnings ctx.continuation parsed.class persisted)
      else warn (resumeWarning ctx.continuation parsed.class)

/-- Resolve the fields, warning about those that resolve to nothing. -/
def selectFields (root : Json) : List ResponseField → Hosted τ (List BuiltField)
  | [] => pure []
  | field :: rest => do
      warn (fieldWarnings root field)
      let built ← selectFields root rest
      pure (⟨field.name, fieldValue root field⟩ :: built)

/-- Put the shaped body in place. -/
def replaceHost (shaped : Bytes) : Hosted τ Unit := do
  if ← ask (.setBody shaped) then pure ()
  else ask (.log (.response .setBodyFailed))

/-- The `fields` path. -/
def shapeFieldsHost (payload : Bytes) : Hosted τ Unit := do
  let root := (rt.fromSlice payload).getD .null
  let built ← selectFields root config.responseFields
  let assembled := assemble built
  warn (assembled.collisions.map .fieldCollision)
  replaceHost (rt.toVec assembled.object)

/-- The `mapping` path. -/
def shapeMappingHost (mapping : Option Evaluator) (payload : Bytes) :
    Hosted τ Unit :=
  match mapping with
  | some e =>
      match (e.bindPayload payload).eval early with
      | .ok value => replaceHost (rt.toVec (valueToJson rt value))
      | .error err => warn [.mappingFailed err]
  | none => warn [.mappingEmpty]

/-- Shape the body, unless it is wanted raw. -/
def shapeHost (mapping : Option Evaluator) (result : Option Json) (raw : Bytes) :
    Hosted τ Unit :=
  if config.usesRawResponse then pure ()
  else if config.usesResponseFields then
    shapeFieldsHost rt config (payloadOf rt result raw)
  else shapeMappingHost rt early mapping (payloadOf rt result raw)

/-- The response filter. -/
def responseFilter (requestData : Option RequestContext) : Hosted τ Unit :=
  match requestData with
  | none => pure ()
  | some ctx => do
      let announced ← ask (.header contentType)
      if announced.any fun value => Verified.Text.contains value "text/event-stream" then
        warn [.eventStream]
      else
        let mapping ← bindMapping config
        labelShaped config
        ask .intoBody
        let raw ← ask .body
        let parts := parseResponse rt config.binding raw
        warn (errorWarning parts)
        persistHost config storage ctx parts.result
        shapeHost rt early config mapping parts.result raw

end Filters

end RestToA2a.Policy.HostFilter
