import RestToA2a.Policy.Turns

/-!
# What a reply does to the store and to the caller

Two properties of the response filter that cut through all its layers: what an
upstream error does to the conversation, and that the two bindings agree on
every result.
-/

namespace RestToA2a.Policy.ResponseOutcome

open RestToA2a.Verified.VersionedStore
open RestToA2a.Verified.StorageProgram
open RestToA2a.Policy.Serde
open RestToA2a.Policy.A2a
open RestToA2a.Policy.Binding
open RestToA2a.Policy.Cache
open RestToA2a.Policy.Cache.ConversationStore
open RestToA2a.Policy.CacheSteps
open RestToA2a.Policy.CacheCalls
open RestToA2a.Policy.CacheSequential
open RestToA2a.Policy.Continuation
open RestToA2a.Policy.Gateway
open RestToA2a.Policy.ConfigMap
open RestToA2a.Policy.Filter
open RestToA2a.Policy.Turns

variable {τ : Type} [DecidableEq τ]

/-! ## Upstream errors -/

/-- The body of a reply is a native error of the binding. -/
def ErrorReply (binding : UpstreamBinding) (value : Json) : Prop :=
  match binding with
  | .jsonRpc =>
      Json.present (value.get? "error") = true ∧
        Json.present (value.get? "result") = false
  | .httpJson =>
      Json.present (value.get? "error") = true ∧ value.get? "task" = none ∧
        value.get? "status" = none ∧ value.get? "message" = none

/-- An eviction under the key would find nothing to evict. -/
def NothingToEvict (store : ConversationStore) (s : Entries τ) (key : CacheKey) :
    Prop :=
  if store.distributed then ¬ Open s key else s.entries key.asStr = none

/-- An eviction alone leaves the store as it was exactly if there is nothing to
evict. -/
theorem run_evict_eq_self_iff (m : Mint String ConversationEntry τ)
    (store : ConversationStore) (key : CacheKey) (nowMillis : Nat) (s : Entries τ) :
    ((store.evict key nowMillis).run m s).2 = s ↔ NothingToEvict store s key := by
  cases hd : store.distributed with
  | false =>
      simp only [NothingToEvict, hd, Bool.false_eq_true, if_false,
        ConversationStore.evict, Prog.run_delete, Prog.run_done]
      constructor
      · intro h
        rw [← h]
        exact VStore.entries_erase_self s key.asStr
      · exact VStore.erase_of_missing
  | true =>
      simp only [NothingToEvict, hd, if_true]
      constructor
      · intro h ho
        obtain ⟨s', hrun, hs'⟩ := run_evict m store key {} nowMillis s
        rw [hrun] at h
        change s' = s at h
        rw [settle_terminal_of_open hd _ _ ho, h] at hs'
        obtain ⟨e, he, hCont⟩ := ho
        have hself := congrFun hs' key.asStr
        rw [he, Function.update_self, Option.some.injEq] at hself
        rw [hself] at hCont
        cases hCont
      · intro hno
        simp only [ConversationStore.evict, hd, if_true, casMaxRetries, evictRetry,
          Prog.run_get]
        cases hEntry : s.entries key.asStr with
        | none => rfl
        | some found =>
            obtain ⟨existing, version⟩ := found
            cases hState : existing.state with
            | terminal => simp [hState]
            | continuable =>
                exact absurd ⟨existing, VStore.contents_of_entries hEntry, hState⟩ hno

/-- The store after the response filter, of a forwarded request and a reply
that is no event stream, is the store after persisting the result. -/
theorem run_responseFilter (m : Mint String ConversationEntry τ) (rt : Runtime)
    (config : PolicyConfig) (storage : Bool) (ctx : RequestContext)
    (response : HttpResponse) (nowMillis : Nat) (s : Entries τ)
    (hes : isEventStream response.headers = false) :
    ((responseFilter rt config storage (some ctx) response nowMillis).run m s).2 =
      ((persistReply config storage ctx
        (parseResponse rt config.binding response.body).result nowMillis).run
          m s).2 := by
  simp only [responseFilter, hes, Bool.false_eq_true, if_false, Prog.run_map]

/-- A result without a task is persisted by an eviction. -/
theorem run_persistReply_terminal (m : Mint String ConversationEntry τ)
    (config : PolicyConfig) {ctx : RequestContext} {key : CacheKey} {result : Json}
    (nowMillis : Nat) (s : Entries τ) (hkey : ctx.continuation.cacheKey = some key)
    (hclass : (parseResult result).class = .terminal) :
    ((persistReply config true ctx (some result) nowMillis).run m s).2 =
      (((conversationStore config).evict key nowMillis).run m s).2 := by
  simp only [persistReply, if_true, Prog.run_map, persistOutcome, hkey, hclass,
    ConversationStore.recordOutcome]

/-- The result an upstream error is parsed to, where there is one, presents no
task. -/
theorem ErrorReply.class_result {rt : Runtime} {binding : UpstreamBinding}
    {body : Bytes} {value : Json} (herr : ErrorReply binding value)
    (hbody : rt.fromSlice body = some value) :
    (binding = .jsonRpc ∧ value.get? "result" = none ∧
        (parseResponse rt binding body).result = none) ∨
      (¬ (binding = .jsonRpc ∧ value.get? "result" = none) ∧
        ∃ result, (parseResponse rt binding body).result = some result ∧
          (parseResult result).class = .terminal) := by
  cases binding with
  | jsonRpc =>
      rw [parseResponse_jsonRpc hbody]
      cases hr : value.get? "result" with
      | none => exact Or.inl ⟨rfl, rfl, rfl⟩
      | some result =>
          have hpresent := herr.2
          rw [hr] at hpresent
          refine Or.inr ⟨by simp, result, rfl, ?_⟩
          cases result with
          | null => rfl
          | _ => cases hpresent
  | httpJson =>
      rw [parseResponse_httpJson hbody]
      obtain ⟨_, htask, hstatus, _⟩ := herr
      refine Or.inr ⟨by simp, value, rfl, class_parseResult_of_no_task ?_⟩
      simp [presentedTask, htask, hstatus]

/-- **What an upstream error costs.**  Processing a binding-native error leaves
the store exactly as it was if and only if the response is an event stream, the
request carried no cache key, the reply is a JSON-RPC one without a result
member, or there was nothing to evict under the key. -/
theorem error_spares_store_iff (m : Mint String ConversationEntry τ) (rt : Runtime)
    (config : PolicyConfig) (s : Entries τ) (ctx : RequestContext)
    (response : HttpResponse) (nowMillis : Nat) {value : Json}
    (hbody : rt.fromSlice response.body = some value)
    (herr : ErrorReply config.binding value) :
    ((responseFilter rt config true (some ctx) response nowMillis).run m s).2 = s ↔
      isEventStream response.headers = true ∨ ctx.continuation.cacheKey = none ∨
      (config.binding = .jsonRpc ∧ value.get? "result" = none) ∨
      ∃ key, ctx.continuation.cacheKey = some key ∧
        NothingToEvict (conversationStore config) s key := by
  cases hes : isEventStream response.headers with
  | true => simp [responseFilter, hes]
  | false =>
      rw [run_responseFilter m rt config true ctx response nowMillis s hes]
      rcases herr.class_result hbody with ⟨hb, hr, hresult⟩ | ⟨hnot, result, hresult, hclass⟩
      · rw [hresult]
        simp [persistReply, hb, hr]
      · rw [hresult]
        cases hkey : ctx.continuation.cacheKey with
        | none => simp [persistReply, persistOutcome, hkey]
        | some key =>
            rw [run_persistReply_terminal m config nowMillis s hkey hclass,
              run_evict_eq_self_iff]
            simp [hnot]

/-- No upstream error changes the store. -/
def ErrorsSpareStore (m : Mint String ConversationEntry τ) (rt : Runtime)
    (config : PolicyConfig) : Prop :=
  ∀ (s : Entries τ) (ctx : RequestContext) (response : HttpResponse)
    (nowMillis : Nat) (value : Json),
    rt.fromSlice response.body = some value → ErrorReply config.binding value →
    ((responseFilter rt config true (some ctx) response nowMillis).run m s).2 = s

/-- A live conversation under the key of the string `k`. -/
def liveStore (config : PolicyConfig) : Entries Nat :=
  VStore.empty.write (CacheKey.fromHashed sampleRuntime "k").asStr
    (liveEntry (conversationStore config) ⟨some "t", some "c"⟩ 1000) 1

/-- The context of a turn that resumed it. -/
def resumedContext : RequestContext :=
  ⟨cached (CacheKey.fromHashed sampleRuntime "k") (some ⟨some "t", some "c"⟩)⟩

/-- An HTTP+JSON error closes a live conversation. -/
theorem error_closes_conversation (distributed : Bool) :
    ¬ ErrorsSpareStore Mint.counter sampleRuntime (sampleConfig distributed) := by
  intro h
  have hsame := h (liveStore (sampleConfig distributed)) resumedContext
    ⟨[], [], utf8 errorText, true⟩ 2000 errorReply (by rfl)
    ⟨rfl, rfl, rfl, rfl⟩
  have hcontents := congrArg (fun s : Entries Nat =>
    (s.contents (CacheKey.fromHashed sampleRuntime "k").asStr).map (·.state)) hsame
  cases distributed with
  | false => exact absurd hcontents (by decide)
  | true => exact absurd hcontents (by decide)

/-- It does so on both backends. -/
theorem error_costs_conversation :
    ¬ ErrorsSpareStore Mint.counter sampleRuntime (sampleConfig false) ∧
      ¬ ErrorsSpareStore Mint.counter sampleRuntime (sampleConfig true) :=
  ⟨error_closes_conversation false, error_closes_conversation true⟩

/-- The same error on a key that holds nothing changes nothing. -/
theorem error_spares_store_iff_missing :
    ((responseFilter sampleRuntime (sampleConfig false) true (some resumedContext)
        ⟨[], [], utf8 errorText, true⟩ 2000).run Mint.counter VStore.empty).2 =
      VStore.empty :=
  (error_spares_store_iff Mint.counter sampleRuntime (sampleConfig false)
    VStore.empty resumedContext ⟨[], [], utf8 errorText, true⟩ 2000
    (by rfl : sampleRuntime.fromSlice (utf8 errorText) = some errorReply)
    ⟨rfl, rfl, rfl, rfl⟩).mpr (Or.inr (Or.inr (Or.inr ⟨_, rfl, rfl⟩)))

/-! ## The two bindings -/

/-- The mapping of the configuration succeeds on a payload. -/
def MappingSucceeds (config : PolicyConfig) (response : HttpResponse)
    (payload : Bytes) : Prop :=
  config.responseType = .mapping ∧ ∃ script value,
    config.responseMapping = some script ∧
      script.eval response.attributes payload = .ok value

/-- The mapping of the configuration does the same with a payload under both
responses, as one that looks at the payload alone does. -/
def MappingAgrees (config : PolicyConfig) (response response' : HttpResponse)
    (payload : Bytes) : Prop :=
  ∀ script, config.responseMapping = some script →
    script.eval response'.attributes payload = script.eval response.attributes payload

/-- A shaped body is a matter of the result, once the host takes a new body. -/
theorem shapeBody_congr (rt : Runtime) {config config' : PolicyConfig}
    {response response' : HttpResponse} {r : Json}
    (htype : config'.responseType = config.responseType)
    (hmapping : config'.responseMapping = config.responseMapping)
    (hfields : config'.responseFields = config.responseFields)
    (hset : response.setBody = true) (hset' : response'.setBody = true)
    (hshape : config.responseType = .fields ∨
      MappingSucceeds config response (rt.toVec r) ∧
        MappingAgrees config response response' (rt.toVec r)) :
    (shapeBody rt config' response' (some r)).1 =
      (shapeBody rt config response (some r)).1 := by
  rcases hshape with hf | ⟨⟨hm, script, value, hscript, hvalue⟩, hagrees⟩
  · simp [shapeBody, PolicyConfig.usesRawResponse, PolicyConfig.usesResponseFields,
      htype, hf, shapeFields, replaceBody, hset, hset', hfields, payloadOf]
  · have hvalue' := (hagrees script hscript).trans hvalue
    simp [shapeBody, PolicyConfig.usesRawResponse, PolicyConfig.usesResponseFields,
      htype, hm, shapeMapping, replaceBody, hset, hset', hmapping, hscript, hvalue,
      hvalue', payloadOf]

/-- **The bindings agree on every result.**  A JSON-RPC envelope around a
result and the result itself as an HTTP+JSON body, both event streams by their
headers or both not, are parsed to the same facts and leave the same store; and
where the caller's body is shaped, by the fields or by a mapping that succeeds,
it is the same body, whatever else stands in the headers of the two. -/
theorem bindings_agree (m : Mint String ConversationEntry τ) (rt : Runtime)
    (config : PolicyConfig) (storage : Bool) (s : Entries τ) (ctx : RequestContext)
    (rpc http : HttpResponse) (nowMillis : Nat) {envelope r : Json}
    (hstream : isEventStream http.headers = isEventStream rpc.headers)
    (henvelope : rt.fromSlice rpc.body = some envelope)
    (hresult : envelope.get? "result" = some r)
    (hbody : rt.fromSlice http.body = some r) :
    let rpcRun := (responseFilter rt { config with binding := .jsonRpc } storage
      (some ctx) rpc nowMillis).run m s
    let httpRun := (responseFilter rt { config with binding := .httpJson } storage
      (some ctx) http nowMillis).run m s
    (parseResponse rt .jsonRpc rpc.body).result.map parseResult =
        (parseResponse rt .httpJson http.body).result.map parseResult ∧
      httpRun.2 = rpcRun.2 ∧
      (isEventStream rpc.headers = false → rpc.setBody = true →
        http.setBody = true →
        config.responseType = .fields ∨
          MappingSucceeds config rpc (rt.toVec r) ∧
            MappingAgrees config rpc http (rt.toVec r) →
          httpRun.1.body = rpcRun.1.body) := by
  have hrpc : (parseResponse rt .jsonRpc rpc.body).result = some r := by
    rw [parseResponse_jsonRpc henvelope]
    exact hresult
  have hhttp : (parseResponse rt .httpJson http.body).result = some r := by
    rw [parseResponse_httpJson hbody]
  refine ⟨by rw [hrpc, hhttp], ?_, fun hes hset hset' hshape => ?_⟩
  · cases hes : isEventStream rpc.headers with
    | true => simp [responseFilter, hstream, hes]
    | false =>
        rw [run_responseFilter m rt _ storage ctx rpc nowMillis s hes,
          run_responseFilter m rt _ storage ctx http nowMillis s
            (by rw [hstream, hes])]
        simp only [hrpc, hhttp]
        rfl
  · simp only [responseFilter, hstream, hes, Bool.false_eq_true, if_false,
      Prog.run_map, deliver, hrpc, hhttp]
    exact shapeBody_congr rt rfl rfl rfl hset hset' hshape

/-- The working reply over both bindings, shaped by a mapping; the lengths of the
two bodies are announced. -/
theorem bindings_agree_working :
    let config : PolicyConfig := { sampleConfig false with
      responseType := .mapping
      responseMapping := some ⟨fun _ _ => .ok .null⟩ }
    ((responseFilter sampleRuntime { config with binding := .httpJson } true
        (some resumedContext)
        ⟨[(contentLength, "55")], [], utf8 workingText, true⟩ 2000).run
          Mint.counter (VStore.empty : Entries Nat)).1.body =
      ((responseFilter sampleRuntime { config with binding := .jsonRpc } true
        (some resumedContext)
        ⟨[(contentLength, "91")], [], utf8 envelopeText, true⟩ 2000).run
          Mint.counter VStore.empty).1.body := by
  intro config
  exact (bindings_agree Mint.counter sampleRuntime config true VStore.empty
    resumedContext ⟨[(contentLength, "91")], [], utf8 envelopeText, true⟩
    ⟨[(contentLength, "55")], [], utf8 workingText, true⟩ 2000 rfl (by rfl) (by rfl)
    (by rfl)).2.2 rfl rfl rfl (Or.inr ⟨⟨rfl, _, .null, rfl, rfl⟩,
      fun _ hscript => by cases hscript; rfl⟩)

end RestToA2a.Policy.ResponseOutcome
