import RestToA2a.Policy.HostFilter

/-!
# The filters as the host runs them refine the filters

Answered by the host, the request and the response filter make the accesses of
the programs of `Filter`, in the same order and with the same answers, and leave
the message as these say.  So what holds of those programs, alone or in a pool,
holds of what the host runs.
-/

namespace RestToA2a.Policy.HostRefinement

open RestToA2a.Verified.StorageProgram
open RestToA2a.Verified.HostProgram
open RestToA2a.Verified.HostProgram.HostProg
open RestToA2a.Policy.Serde
open RestToA2a.Policy.A2a
open RestToA2a.Policy.Binding
open RestToA2a.Policy.Cache
open RestToA2a.Policy.Cache.ConversationStore
open RestToA2a.Policy.Continuation
open RestToA2a.Policy.Dataweave
open RestToA2a.Policy.Gateway
open RestToA2a.Policy.ConfigMap
open RestToA2a.Policy.ResponseBuild
open RestToA2a.Policy.ResponseFields
open RestToA2a.Policy.Filter
open RestToA2a.Policy.HostFilter

variable {τ : Type} {rt : Runtime} {early : Early} {config : PolicyConfig}
  {storage : Bool}

/-! ## Evaluators bound to both -/

/-- The evaluators of a request when they are evaluated. -/
def boundEvaluators (config : PolicyConfig) (request : HttpRequest) : Evaluators :=
  ((Evaluators.of config).bind config.continuationMode
    (Evaluator.bindAttributes request.attributes)).bind config.continuationMode
      (Evaluator.bindPayload request.body)

theorem evalOptional_bound (early : Early) (script : Option Script) (attributes : Attributes)
    (payload : Bytes) :
    evalOptional early (((script.map fun s => Evaluator.mk s none none).map
        (Evaluator.bindAttributes attributes)).map (Evaluator.bindPayload payload)) =
      evalScript script attributes payload := by
  cases script <;> rfl

theorem prompt_bound (request : HttpRequest) :
    ((boundEvaluators config request).prompt.eval early).toOption.bind valueToString =
      promptOf config request := by
  simp only [boundEvaluators, Evaluators.bind]
  cases config.continuationMode <;> rfl

theorem metadata_bound (request : HttpRequest) :
    evalOptional early (boundEvaluators config request).metadata =
      evalScript config.metadataSelector request.attributes request.body := by
  have hbound := evalOptional_bound early config.metadataSelector request.attributes
    request.body
  rw [← hbound]
  simp only [boundEvaluators, Evaluators.bind]
  cases config.continuationMode <;> rfl

/-- Whatever the mode evaluates was bound to both. -/
theorem perform_resolve (request : HttpRequest) (h : Host) :
    (perform Host.answer (resolve rt early config storage
        (boundEvaluators config request) : Hosted τ RequestContinuation) h) =
      (requestContinuation rt config storage request h.clock).map fun rc => (rc, h) := by
  unfold resolve requestContinuation boundEvaluators
  cases hmode : config.continuationMode with
  | none => rfl
  | explicit =>
      simp only [Evaluators.bind, Evaluators.of]
      rw [evalOptional_bound, evalOptional_bound]
      rfl
  | cache =>
      cases storage with
      | false => rfl
      | true =>
          simp only [if_true, Evaluators.bind, Evaluators.of, evalOptional_bound, ask,
            bind_eq, perform_host_bind, perform_lift]
          rfl

/-! ## The request filter -/

/-- What the host has after the request filter. -/
def requested (rt : Runtime) (config : PolicyConfig) (request : HttpRequest)
    (nowMillis : Nat) : Flow → HostFlow × Host
  | .broken response =>
      (.broken response,
        { Host.ofRequest request nowMillis with
          stage := .body
          headers := rewriteHeaders request.headers
          log := [if (promptOf config request).isSome then .requestBodyRefused
            else .promptMissing] })
  | .continued ctx message =>
      (.continued ctx,
        { Host.ofRequest request nowMillis with
          stage := .body
          headers := message.headers
          body := message.body rt config })

/-- A request whose headers have been dealt with. -/
def bodyStage (request : HttpRequest) (nowMillis : Nat) : Host :=
  { Host.ofRequest request nowMillis with
    stage := .body
    headers := rewriteHeaders request.headers }

theorem perform_readIdSeed (request : HttpRequest) (nowMillis : Nat) :
    perform Host.answer (readIdSeed : Hosted τ String)
        (Host.ofRequest request nowMillis) =
      .done (idSeed request, Host.ofRequest request nowMillis) := by
  have hanswer : Host.answer (.header "x-request-id")
      (Host.ofRequest request nowMillis) =
    (header "x-request-id" request.headers, Host.ofRequest request nowMillis) := rfl
  simp only [readIdSeed, ask, bind_eq, perform_host_bind, idSeed, hanswer]
  cases header "x-request-id" request.headers <;> rfl

theorem perform_forwardHost (request : HttpRequest) (nowMillis : Nat)
    {prompt : String} (hprompt : promptOf config request = some prompt)
    (rc : RequestContinuation) :
    perform Host.answer (forwardHost rt early config (boundEvaluators config request)
        (idSeed request) prompt rc : Hosted τ HostFlow)
        (bodyStage request nowMillis) =
      .done (requested rt config request nowMillis
        (forward rt config request prompt rc)) := by
  simp only [forwardHost, ask, bind_eq, perform_host_bind]
  unfold forward
  cases htakes : request.setBody with
  | true =>
      simp [Host.answer, bodyStage, Host.ofRequest, htakes, requested, sendMessage,
        SendMessage.body, metadata_bound]
  | false =>
      simp [Host.answer, bodyStage, Host.ofRequest, htakes, requested, hprompt]

theorem perform_afterBody (request : HttpRequest) (nowMillis : Nat) :
    perform Host.answer (afterBody rt early config storage
        (boundEvaluators config request) (idSeed request) : Hosted τ HostFlow)
        (bodyStage request nowMillis) =
      (Filter.requestFilter rt config storage request nowMillis).map
        (requested rt config request nowMillis) := by
  unfold afterBody Filter.requestFilter
  rw [prompt_bound]
  cases hprompt : promptOf config request with
  | none =>
      simp [ask, Host.answer, bodyStage, Host.ofRequest, requested, hprompt]
  | some prompt =>
      simp only [bind_eq, Prog.map_map]
      exact perform_bind_of_map (perform_resolve request _)
        (perform_forwardHost request nowMillis hprompt)

/-- **The request filter, run by the host, is the request filter.**  Whatever an
evaluator yields before it is bound: the host makes the same accesses to the
storage, and it ends with the same flow, the headers rewritten, and the send in
place of the body if it is forwarded.  The selectors have seen the request as it
came in. -/
theorem requestFilter_hosted (rt : Runtime) (early : Early) (config : PolicyConfig)
    (storage : Bool) (request : HttpRequest) (nowMillis : Nat) :
    perform Host.answer (HostFilter.requestFilter rt early config storage :
        Hosted τ HostFlow) (Host.ofRequest request nowMillis) =
      (Filter.requestFilter rt config storage request nowMillis).map
        (requested rt config request nowMillis) := by
  unfold HostFilter.requestFilter
  simp only [bind_eq]
  rw [perform_bind_of_done (perform_readIdSeed request nowMillis)]
  exact perform_afterBody request nowMillis

/-! ## The response filter -/

/-- The host after a new body and some log lines. -/
def put (h : Host) (shaped : Bytes × List Warning) : Host :=
  { h with body := shaped.1, log := h.log ++ shaped.2.map .response }

/-- The host after some log lines. -/
def logged (h : Host) (warnings : List Warning) : Host :=
  { h with log := h.log ++ warnings.map .response }

theorem logged_nil (h : Host) : logged h [] = h := by
  simp [logged]

theorem logged_logged (h : Host) (ws ws' : List Warning) :
    logged (logged h ws) ws' = logged h (ws ++ ws') := by
  simp [logged]

theorem put_logged (h : Host) (ws : List Warning) (shaped : Bytes × List Warning) :
    put (logged h ws) shaped = put h (shaped.1, ws ++ shaped.2) := by
  simp [put, logged]

/-- The host still has the response's own body. -/
structure Holds (response : HttpResponse) (h : Host) : Prop where
  body : h.body = response.body
  takesBody : h.takesBody = response.setBody

theorem Holds.logged {response : HttpResponse} {h : Host} (hh : Holds response h)
    (ws : List Warning) : Holds response (logged h ws) := ⟨hh.body, hh.takesBody⟩

theorem perform_warn (ws : List Warning) (h : Host) :
    perform Host.answer (warn ws : Hosted τ Unit) h = .done ((), logged h ws) := by
  induction ws generalizing h with
  | nil => simp [warn, logged]
  | cons w ws ih =>
      simp only [warn, ask, bind_eq, perform_host_bind, ih, Host.answer]
      simp [logged]

theorem perform_selectFields (root : Json) (fields : List ResponseField) (h : Host) :
    perform Host.answer (selectFields root fields : Hosted τ (List BuiltField)) h =
      .done (buildFields root fields,
        logged h (fields.flatMap (fieldWarnings root))) := by
  induction fields generalizing h with
  | nil => simp [selectFields, buildFields, logged]
  | cons field rest ih =>
      simp only [selectFields, bind_eq]
      rw [perform_bind_of_done (perform_warn _ h), perform_bind_of_done (ih _),
        logged_logged]
      rfl

theorem perform_replaceHost {response : HttpResponse} {h : Host}
    (hh : Holds response h) (shaped : Bytes) (ws : List Warning) :
    perform Host.answer (replaceHost shaped : Hosted τ Unit) (logged h ws) =
      .done ((), put h (replaceBody response shaped ws)) := by
  simp only [replaceHost, ask, bind_eq, perform_host_bind, Host.answer, replaceBody]
  cases htakes : response.setBody with
  | true => simp [logged, put, hh.takesBody, htakes]
  | false => simp [logged, put, hh.takesBody, hh.body, htakes, Host.answer]

theorem perform_shapeFieldsHost {response : HttpResponse} {h : Host}
    (hh : Holds response h) (payload : Bytes) :
    perform Host.answer (shapeFieldsHost rt config payload : Hosted τ Unit) h =
      .done ((), put h (shapeFields rt config response payload)) := by
  simp only [shapeFieldsHost, bind_eq]
  rw [perform_bind_of_done (perform_selectFields _ _ h),
    perform_bind_of_done (perform_warn _ _), logged_logged,
    perform_replaceHost hh]
  rfl

/-- The mapping as it is when the body is there. -/
def mappingOf (config : PolicyConfig) (response : HttpResponse) : Option Evaluator :=
  config.responseMapping.map fun s => ⟨s, some response.attributes, none⟩

theorem perform_shapeMappingHost {response : HttpResponse} {h : Host}
    (hh : Holds response h) (payload : Bytes) :
    perform Host.answer (shapeMappingHost rt early (mappingOf config response)
        payload : Hosted τ Unit) h =
      .done ((), put h (shapeMapping rt config response payload)) := by
  unfold shapeMappingHost shapeMapping mappingOf
  cases config.responseMapping with
  | none =>
      simp only [Option.map_none]
      rw [perform_warn]
      simp [put, logged, hh.body]
  | some script =>
      simp only [Option.map_some, Evaluator.eval, Evaluator.bindPayload]
      cases script.eval response.attributes payload with
      | error err =>
          simp only
          rw [perform_warn]
          simp [put, logged, hh.body]
      | ok value =>
          have hreplace := perform_replaceHost (τ := τ) hh
            (rt.toVec (valueToJson rt value)) []
          rw [logged_nil] at hreplace
          exact hreplace

/-- The mapping after the headers stage: bound in mapping mode only. -/
def mappingBound (config : PolicyConfig) (response : HttpResponse) :
    Option Evaluator :=
  if config.usesRawResponse || config.usesResponseFields then
    config.responseMapping.map fun s => { script := s }
  else mappingOf config response

theorem perform_bindMapping (response : HttpResponse) {h : Host}
    (hheaders : h.headers = response.headers) (hstream : h.stream = response.stream) :
    perform Host.answer (bindMapping config : Hosted τ (Option Evaluator)) h =
      .done (mappingBound config response, h) := by
  unfold bindMapping mappingBound mappingOf
  split
  · rfl
  · cases config.responseMapping with
    | none => rfl
    | some script =>
        simp only [Option.map_some, ask, bind_eq, perform_host_bind, Host.answer,
          hheaders, hstream]
        rfl

theorem perform_shapeHost {response : HttpResponse} {h : Host}
    (hh : Holds response h) (result : Option Json) :
    perform Host.answer (shapeHost rt early config (mappingBound config response)
        result response.body : Hosted τ Unit) h =
      .done ((), put h (shapeBody rt config response result)) := by
  unfold shapeHost shapeBody
  cases hraw : config.usesRawResponse with
  | true =>
      simp [put, ← hh.body]
  | false =>
      simp only [Bool.false_eq_true, if_false]
      cases hfields : config.usesResponseFields with
      | true =>
          simp only [if_true]
          exact perform_shapeFieldsHost hh _
      | false =>
          simp only [Bool.false_eq_true, if_false, mappingBound, hraw, hfields,
            Bool.or_false]
          exact perform_shapeMappingHost hh _

theorem perform_persistHost (ctx : RequestContext) (result : Option Json) (h : Host) :
    perform Host.answer (persistHost config storage ctx result : Hosted τ Unit) h =
      (persistReply config storage ctx result h.clock).map
        fun ws => ((), logged h ws) := by
  cases result with
  | none => simp [persistHost, persistReply, logged_nil]
  | some result =>
      cases storage with
      | false =>
          simp only [persistHost, persistReply, Bool.false_eq_true, if_false,
            perform_warn, Prog.map_done]
      | true =>
          simp only [persistHost, persistReply, if_true, ask, bind_eq,
            perform_host_bind, Prog.map_map]
          exact perform_bind_of_map (perform_lift _ _) fun persisted =>
            perform_warn _ _

/-- A response whose headers have been dealt with. -/
def answered (config : PolicyConfig) (response : HttpResponse) (nowMillis : Nat) :
    Host :=
  { Host.ofResponse response nowMillis with
    stage := .body
    headers := shapeHeaders config response.headers }

theorem perform_labelShaped (response : HttpResponse) (nowMillis : Nat) :
    perform Host.answer (labelShaped config : Hosted τ Unit)
        (Host.ofResponse response nowMillis) =
      .done ((), { Host.ofResponse response nowMillis with
        headers := shapeHeaders config response.headers }) := by
  unfold labelShaped shapeHeaders
  cases config.usesRawResponse <;> rfl

/-- How far the host has handed the response over in the end. -/
def stageAfter (requestData : Option RequestContext) (response : HttpResponse) :
    Stage :=
  if requestData.isNone || isEventStream response.headers then .headers else .body

/-- What the host has after the response filter. -/
def answeredWith (requestData : Option RequestContext) (response : HttpResponse)
    (nowMillis : Nat) (d : Delivered) : Unit × Host :=
  ((), { Host.ofResponse response nowMillis with
    stage := stageAfter requestData response
    headers := d.headers
    body := d.body
    log := d.warnings.map .response })

/-- From the body on: the error is logged, the reply persisted, the body shaped. -/
theorem perform_afterHeaders (ctx : RequestContext) {response : HttpResponse}
    (hes : isEventStream response.headers = false) (nowMillis : Nat) :
    let parts := parseResponse rt config.binding response.body
    perform Host.answer
        ((warn (errorWarning parts) : Hosted τ Unit).bind fun _ =>
          (persistHost config storage ctx parts.result).bind fun _ =>
            shapeHost rt early config (mappingBound config response) parts.result
              response.body) (answered config response nowMillis) =
      ((persistReply config storage ctx parts.result nowMillis).map
        (deliver rt config response)).map
          (answeredWith (some ctx) response nowMillis) := by
  intro parts
  have hh : Holds response (answered config response nowMillis) := ⟨rfl, rfl⟩
  rw [perform_bind_of_done (perform_warn _ _), Prog.map_map]
  refine perform_bind_of_map (perform_persistHost ctx parts.result _) fun ws => ?_
  rw [perform_shapeHost ((hh.logged _).logged ws), logged_logged, put_logged]
  simp only [Function.comp, answeredWith, stageAfter, hes, deliver]
  rfl

/-- **The response filter, run by the host, is the response filter.**  It makes
the same accesses to the storage; and what the host then hands to the caller,
headers, body and the lines it has logged, is what the filter delivers.  A
mapping has seen the headers as they came from upstream. -/
theorem responseFilter_hosted (rt : Runtime) (early : Early) (config : PolicyConfig)
    (storage : Bool) (requestData : Option RequestContext) (response : HttpResponse)
    (nowMillis : Nat) :
    perform Host.answer (HostFilter.responseFilter rt early config storage
        requestData : Hosted τ Unit) (Host.ofResponse response nowMillis) =
      (Filter.responseFilter rt config storage requestData response nowMillis).map
        (answeredWith requestData response nowMillis) := by
  cases requestData with
  | none => rfl
  | some ctx =>
      have hannounced : (header contentType response.headers).any
          (fun value => Verified.Text.contains value "text/event-stream") =
            isEventStream response.headers := by
        unfold isEventStream
        cases header contentType response.headers <;> rfl
      simp only [HostFilter.responseFilter, Filter.responseFilter, ask, bind_eq,
        perform_host_bind]
      show perform Host.answer (if (header contentType response.headers).any
        (fun value => Verified.Text.contains value "text/event-stream") then _ else _)
          (Host.ofResponse response nowMillis) = _
      rw [hannounced]
      cases hes : isEventStream response.headers with
      | true =>
          simp only [if_true, perform_warn, Prog.map_done, answeredWith, stageAfter, hes,
            Option.isNone_some, Bool.false_or]
          rfl
      | false =>
          simp only [Bool.false_eq_true, if_false]
          rw [perform_bind_of_done (perform_bindMapping response rfl rfl),
            perform_bind_of_done (perform_labelShaped response nowMillis)]
          exact perform_afterHeaders ctx hes nowMillis

end RestToA2a.Policy.HostRefinement
