import RestToA2a.Policy.ResponseOutcome
import RestToA2a.Policy.TurnOutcome
import RestToA2a.Verified.Translation

/-!
# Changing the binding

An agent that gives the same answers over JSON-RPC and over HTTP+JSON is, to the
policy, one agent.  The two policies have the same runs, access for access under
the same versions; they forward the same sends; and what the caller gets differs
only where it is the upstream's own body.
-/

namespace RestToA2a.Policy.BindingChange

open RestToA2a.Verified.VersionedStore
open RestToA2a.Verified.StorageProgram
open RestToA2a.Verified.ProgramPool
open RestToA2a.Verified.Linearizable
open RestToA2a.Verified.Translation
open RestToA2a.Policy.Serde
open RestToA2a.Policy.A2a
open RestToA2a.Policy.Binding
open RestToA2a.Policy.Cache
open RestToA2a.Policy.Cache.ConversationStore
open RestToA2a.Policy.CacheSteps
open RestToA2a.Policy.Gateway
open RestToA2a.Policy.ConfigMap
open RestToA2a.Policy.Filter
open RestToA2a.Policy.Turns
open RestToA2a.Policy.TurnServer
open RestToA2a.Policy.TurnOutcome
open RestToA2a.Policy.Shaping
open RestToA2a.Policy.ResponseOutcome

variable {τ : Type} {rt : Runtime} {config : PolicyConfig}

/-! ## What makes a response possible -/

/-- What the end of a filter leaves for a response filter. -/
def leftBy : TurnReply → Option RequestContext
  | .filtered flow => flow.requestData
  | .delivered _ => none

/-- The call is a request filter. -/
def isRequest : TurnCall → Bool
  | .request _ _ => true
  | .response _ _ _ _ => false

theorem forwardedWith_returned
    {calls : Nat → Phase TurnCall String ConversationEntry τ TurnReply} {origin : Nat}
    {c : TurnCall} {r : TurnReply} (h : calls origin = .returned c r)
    (ctx : RequestContext) :
    forwardedWith calls origin ctx = (isRequest c && decide (leftBy r = some ctx)) := by
  simp only [forwardedWith, h]
  cases c with
  | response => rfl
  | request req clock =>
      cases r with
      | delivered d => rfl
      | filtered flow => cases flow <;> simp [isRequest, leftBy, Flow.requestData]

/-- A response is possible in two pools at the same points, if the filters there
have left the same. -/
theorem forwardedWith_same {F : TurnCall → TurnCall → Prop}
    {G : TurnReply → TurnReply → Prop} (hF : ∀ {c c'}, F c c' → isRequest c' = isRequest c)
    (hG : ∀ {r r'}, G r r' → leftBy r' = leftBy r)
    {calls calls' : Nat → Phase TurnCall String ConversationEntry τ TurnReply}
    (hcalls : ∀ i, PhaseAlike (· = ·) F (fun _ _ => G) (calls i) (calls' i))
    (origin : Nat) (ctx : RequestContext) :
    forwardedWith calls' origin ctx = forwardedWith calls origin ctx := by
  have horigin := hcalls origin
  generalize hφ : calls origin = φ at horigin
  generalize hφ' : calls' origin = φ' at horigin
  cases horigin with
  | idle => simp only [forwardedWith, hφ, hφ']
  | running hc hp => simp only [forwardedWith, hφ, hφ']
  | returned hc hr =>
      rw [forwardedWith_returned hφ, forwardedWith_returned hφ', hF hc, hG hr]

/-! ## The same answer -/

/-- Bodies that give the same answer over the two bindings: an event stream,
whatever it holds; a text that is not JSON; or a result, in a JSON-RPC envelope
and bare. -/
inductive SameAnswer (rt : Runtime) (headers : Headers) : Bytes → Bytes → Prop where
  | stream {rpc http : Bytes} (hes : isEventStream headers = true) :
      SameAnswer rt headers rpc http
  | unparsed {body : Bytes} (hbody : rt.fromSlice body = none) :
      SameAnswer rt headers body body
  | result {rpc http : Bytes} {envelope r : Json}
      (hrpc : rt.fromSlice rpc = some envelope)
      (hresult : envelope.get? "result" = some r)
      (hhttp : rt.fromSlice http = some r) : SameAnswer rt headers rpc http

/-- The same call, its response over JSON-RPC and over HTTP+JSON. -/
inductive OverBoth (rt : Runtime) : TurnCall → TurnCall → Prop where
  | request (req : HttpRequest) (clock : Clock) :
      OverBoth rt (.request req clock) (.request req clock)
  | response (origin : Nat) (ctx : RequestContext) {headers : Headers}
      {stream : List (String × String)} {rpc http : Bytes} (setBody : Bool)
      (clock : Clock) (h : SameAnswer rt headers rpc http) :
      OverBoth rt (.response origin ctx ⟨headers, stream, rpc, setBody⟩ clock)
        (.response origin ctx ⟨headers, stream, http, setBody⟩ clock)

/-- The policy over a binding. -/
def overBinding (config : PolicyConfig) (binding : UpstreamBinding) : PolicyConfig :=
  { config with binding }

/-- Request filters end the same way; what response filters deliver is looked at
by itself. -/
def SameFlow : TurnReply → TurnReply → Prop
  | .filtered flow, .filtered flow' => flow = flow'
  | .delivered _, .delivered _ => True
  | _, _ => False

theorem parseResponse_same {headers : Headers} {rpc http : Bytes}
    (h : SameAnswer rt headers rpc http) (hes : isEventStream headers = false) :
    (parseResponse rt .jsonRpc rpc).result =
      (parseResponse rt .httpJson http).result := by
  cases h with
  | stream hstream =>
      rw [hes] at hstream
      cases hstream
  | unparsed hbody => rw [ parseResponse_opaque hbody, parseResponse_opaque hbody]
  | result hrpc hresult hhttp =>
      rw [parseResponse_jsonRpc hrpc, parseResponse_httpJson hhttp, hresult]

/-- Both are persisted alike. -/
theorem persistence_same {headers : Headers} {stream : List (String × String)}
    {rpc http : Bytes} {setBody : Bool} (h : SameAnswer rt headers rpc http)
    (storage : Bool) (ctx : RequestContext) (nowMillis : Nat) :
    (persistence rt (overBinding config .httpJson) storage (some ctx)
        ⟨headers, stream, http, setBody⟩ nowMillis : Storage τ (List Warning)) =
      persistence rt (overBinding config .jsonRpc) storage (some ctx)
        ⟨headers, stream, rpc, setBody⟩ nowMillis := by
  simp only [persistence]
  cases hes : isEventStream headers with
  | true => rfl
  | false =>
      simp only [overBinding, parseResponse_same h hes]
      rfl

theorem alike_code {c c' : TurnCall} (h : OverBoth rt c c') :
    Alike (· = ·) SameFlow (c.code rt (overBinding config .jsonRpc) : Storage τ TurnReply)
      (c'.code rt (overBinding config .httpJson)) := by
  cases h with
  | request req clock =>
      have hcode : ((TurnCall.request req clock).code rt (overBinding config .httpJson) :
          Storage τ TurnReply) =
            (TurnCall.request req clock).code rt (overBinding config .jsonRpc) := rfl
      have hsame : ∀ flow, SameFlow (.filtered flow) (.filtered flow) := fun _ => rfl
      rw [hcode]
      exact alike_map hsame _
  | response origin ctx setBody clock h =>
      simp only [TurnCall.code, responseFilter_eq, Prog.map_map]
      rw [persistence_same h]
      exact alike_map (fun _ => trivial) _

theorem isRequest_overBoth {c c' : TurnCall} (h : OverBoth rt c c') :
    isRequest c' = isRequest c := by
  cases h <;> rfl

theorem leftBy_sameFlow {r r' : TurnReply} (h : SameFlow r r') :
    leftBy r' = leftBy r := by
  cases r with
  | delivered d =>
      cases r' with
      | delivered d' => rfl
      | filtered flow' => exact h.elim
  | filtered flow =>
      cases r' with
      | delivered d' => exact h.elim
      | filtered flow' =>
          have hflow : flow = flow' := h
          rw [hflow]

theorem translates {mayFault mayFault' : TurnCall → Bool}
    (hfault : ∀ c c', OverBoth rt c c' → mayFault c = mayFault' c') :
    Translates (· = ·) (OverBoth rt) (fun _ _ => SameFlow)
      (turnServer τ rt (overBinding config .jsonRpc) mayFault)
      (turnServer τ rt (overBinding config .httpJson) mayFault') where
  code := alike_code
  enabled := by
    intro calls calls' c c' hc hcalls
    cases hc with
    | request req clock => rfl
    | response origin ctx setBody clock h =>
        exact forwardedWith_same isRequest_overBoth leftBy_sameFlow hcalls origin ctx
  mayFault := fun hc => (hfault _ _ hc).symm

/-! ## What the caller gets -/

/-- The filter makes the body of the caller itself. -/
def Shapes (rt : Runtime) (config : PolicyConfig) (res : HttpResponse)
    (result : Option Json) : Prop :=
  isEventStream res.headers = false ∧ res.setBody = true ∧
    (config.responseType = .fields ∨
      MappingSucceeds config res (payloadOf rt result res.body))

theorem shapeBody_of_not_shapes {res : HttpResponse} {result : Option Json}
    (hes : isEventStream res.headers = false) (h : ¬ Shapes rt config res result) :
    (shapeBody rt config res result).1 = res.body := by
  have hkeep : res.setBody = false ∨ ¬ (config.responseType = .fields ∨
      MappingSucceeds config res (payloadOf rt result res.body)) := by
    cases hset : res.setBody with
    | false => exact Or.inl rfl
    | true => exact Or.inr fun hshape => h ⟨hes, hset, hshape⟩
  unfold shapeBody
  split
  · rfl
  · rename_i hraw
    split
    · rename_i hfields
      have htype : config.responseType = .fields := by
        simpa [PolicyConfig.usesResponseFields] using hfields
      have hset : res.setBody = false := hkeep.resolve_right (not_not.mpr (Or.inl htype))
      simp [shapeFields, replaceBody, hset]
    · rename_i hfields
      have htype : config.responseType = .mapping := by
        cases hty : config.responseType with
        | raw => simp [PolicyConfig.usesRawResponse, hty] at hraw
        | mapping => rfl
        | fields => simp [PolicyConfig.usesResponseFields, hty] at hfields
      unfold shapeMapping
      split
      · rename_i script hscript
        split
        · rename_i value hvalue
          have hset : res.setBody = false := hkeep.resolve_right
            (not_not.mpr (Or.inr ⟨htype, script, value, hscript, hvalue⟩))
          simp [replaceBody, hset]
        · rfl
      · rfl

theorem delivery_of_not_shapes {ctx : RequestContext} {res : HttpResponse}
    (h : ¬ Shapes rt config res (parseResponse rt config.binding res.body).result)
    (persisted : List Warning) :
    (delivery rt config (some ctx) res persisted).body = res.body := by
  simp only [delivery]
  cases hes : isEventStream res.headers with
  | true => rfl
  | false => exact shapeBody_of_not_shapes hes h

/-- The deliveries of the same answer. -/
structure SameDelivery (rt : Runtime) (config : PolicyConfig)
    (rpc http : HttpResponse) (d d' : Delivered) : Prop where
  headers : d'.headers = d.headers
  shaped : Shapes rt config rpc (parseResponse rt .jsonRpc rpc.body).result →
    d'.body = d.body
  unshaped : ¬ Shapes rt config rpc (parseResponse rt .jsonRpc rpc.body).result →
    d.body = rpc.body ∧ d'.body = http.body

/-- What the filter shapes is the result, or the body of both. -/
theorem payload_same {headers : Headers} {rpc http : Bytes}
    (h : SameAnswer rt headers rpc http) (hes : isEventStream headers = false) :
    payloadOf rt (parseResponse rt .httpJson http).result http =
      payloadOf rt (parseResponse rt .jsonRpc rpc).result rpc := by
  rw [← parseResponse_same h hes]
  cases h with
  | stream hstream =>
      rw [hes] at hstream
      cases hstream
  | unparsed hbody => rfl
  | result hrpc hresult hhttp => rw [parseResponse_jsonRpc hrpc, hresult]; rfl

theorem sameDelivery {headers : Headers} {stream : List (String × String)}
    {rpc http : Bytes} {setBody : Bool} (h : SameAnswer rt headers rpc http)
    (ctx ctx' : RequestContext) (persisted persisted' : List Warning) :
    SameDelivery rt config ⟨headers, stream, rpc, setBody⟩
      ⟨headers, stream, http, setBody⟩
      (delivery rt (overBinding config .jsonRpc) (some ctx)
        ⟨headers, stream, rpc, setBody⟩ persisted)
      (delivery rt (overBinding config .httpJson) (some ctx')
        ⟨headers, stream, http, setBody⟩ persisted') := by
  have hshapes : isEventStream headers = false →
      (Shapes rt config ⟨headers, stream, http, setBody⟩
          (parseResponse rt .httpJson http).result ↔
        Shapes rt config ⟨headers, stream, rpc, setBody⟩
          (parseResponse rt .jsonRpc rpc).result) := by
    intro hes
    simp only [Shapes, payload_same h hes, MappingSucceeds, HttpResponse.attributes]
  refine ⟨?_, fun hshape => ?_, fun hkeep => ⟨?_, ?_⟩⟩
  · simp only [delivery]
    split
    · rfl
    · rfl
  · obtain ⟨hes, hset, hshape⟩ := hshape
    have hes' : isEventStream headers = false := hes
    simp only [delivery, hes', Bool.false_eq_true, if_false, deliver, overBinding]
    rw [← parseResponse_same h hes]
    cases h with
    | stream hstream =>
        rw [hes] at hstream
        cases hstream
    | unparsed hbody => rfl
    | result hrpc hresult hhttp =>
        rw [parseResponse_jsonRpc hrpc, hresult] at hshape ⊢
        exact shapeBody_congr rt rfl rfl rfl hset hset
          (hshape.imp_right fun hmapping => ⟨hmapping, fun _ _ => rfl⟩)
  · exact delivery_of_not_shapes hkeep persisted
  · cases hes : isEventStream headers with
    | true => simp [delivery, hes]
    | false => exact delivery_of_not_shapes (fun hs => hkeep ((hshapes hes).mp hs)) persisted'

/-! ## Whole runs -/

/-- Two filters that have ended have ended the same way. -/
inductive SameOutcome (rt : Runtime) (config : PolicyConfig) :
    TurnCall × TurnReply → TurnCall × TurnReply → Prop where
  | filtered (req : HttpRequest) (clock : Clock) (flow : Flow) :
      SameOutcome rt config (.request req clock, .filtered flow)
        (.request req clock, .filtered flow)
  | delivered (origin : Nat) (ctx : RequestContext) {rpc http : HttpResponse}
      (clock : Clock) {d d' : Delivered} (hd : SameDelivery rt config rpc http d d') :
      SameOutcome rt config (.response origin ctx rpc clock, .delivered d)
        (.response origin ctx http clock, .delivered d')

variable [DecidableEq τ]

/-- The two policies are at the same point. -/
structure SameState (rt : Runtime) (config : PolicyConfig) (s q : TurnPool τ) :
    Prop where
  store : q.store = s.store
  outcomes : ∀ i, Option.Rel (SameOutcome rt config) (outcome (s.calls i))
    (outcome (q.calls i))

omit [DecidableEq τ] in
/-- Like phases have both ended or neither, and in the same way. -/
theorem sameOutcome_of_alike {φ φ' : Phase TurnCall String ConversationEntry τ TurnReply}
    (h : PhaseAlike (· = ·) (OverBoth rt) (fun _ _ => SameFlow) φ φ')
    (hends : ∀ c r, outcome φ = some (c, r) →
      (c.code rt (overBinding config .jsonRpc) : Storage τ TurnReply).Ends r)
    (hends' : ∀ c r, outcome φ' = some (c, r) →
      (c.code rt (overBinding config .httpJson) : Storage τ TurnReply).Ends r) :
    Option.Rel (SameOutcome rt config) (outcome φ) (outcome φ') := by
  have hpair : ∀ c c' r r', OverBoth rt c c' → SameFlow r r' →
      outcome φ = some (c, r) → outcome φ' = some (c', r') →
        SameOutcome rt config (c, r) (c', r') := by
    intro c c' r r' hc hr ho ho'
    have he := hends c r ho
    have he' := hends' c' r' ho'
    cases hc with
    | request req clock =>
        obtain ⟨flow, _, rfl⟩ := Prog.ends_map he
        obtain ⟨flow', _, rfl⟩ := Prog.ends_map he'
        have hflow : flow = flow' := hr
        rw [← hflow]
        exact .filtered req clock flow
    | response origin ctx setBody clock h =>
        obtain ⟨d, _, rfl⟩ := Prog.ends_map he
        obtain ⟨d', _, rfl⟩ := Prog.ends_map he'
        obtain ⟨persisted, rfl⟩ := ends_response_cases he
        obtain ⟨persisted', rfl⟩ := ends_response_cases he'
        exact .delivered origin ctx clock (sameDelivery h ctx ctx persisted persisted')
  cases h with
  | idle => exact .none
  | running hc hp =>
      cases hp with
      | done hr => exact .some (hpair _ _ _ _ hc hr rfl rfl)
      | get _ => exact .none
      | store _ _ => exact .none
      | delete _ => exact .none
  | returned hc hr => exact .some (hpair _ _ _ _ hc hr rfl rfl)

/-- **The binding does not show.**  Take any two lists of actions that differ
only in the answers of the agent, given over JSON-RPC in one and over HTTP+JSON
in the other.  The policy of the one binding can take the first exactly if the
policy of the other can take the second, for every interleaving, with the same
failures and removals; and then they are at the same point: the stores are the
same, versions included, each request was rejected or forwarded in the same way,
and the caller has the same headers and the same body, or the upstream's own
where the filter does not make one. -/
theorem bindings_interchangeable (config : PolicyConfig)
    {mayFault mayFault' : TurnCall → Bool}
    (hfault : ∀ c c', OverBoth rt c c' → mayFault c = mayFault' c') (s₀ : Entries τ)
    {acts acts' : List (TurnAction τ)}
    (hacts : List.Forall₂ (ActionAlike (OverBoth rt)) acts acts') :
    (∀ s, Run (turnServer τ rt (overBinding config .jsonRpc) mayFault)
        (Pool.fresh s₀) acts s →
      ∃ q, Run (turnServer τ rt (overBinding config .httpJson) mayFault')
        (Pool.fresh s₀) acts' q ∧ SameState rt config s q) ∧
      ∀ q, Run (turnServer τ rt (overBinding config .httpJson) mayFault')
          (Pool.fresh s₀) acts' q →
        ∃ s, Run (turnServer τ rt (overBinding config .jsonRpc) mayFault)
          (Pool.fresh s₀) acts s ∧ SameState rt config s q := by
  have hT : Translates (· = ·) (OverBoth rt) (fun _ _ => SameFlow)
      (turnServer τ rt (overBinding config .jsonRpc) mayFault)
      (turnServer τ rt (overBinding config .httpJson) mayFault') := translates hfault
  have hsame : ∀ s q,
      Run (turnServer τ rt (overBinding config .jsonRpc) mayFault) (Pool.fresh s₀)
        acts s →
      Run (turnServer τ rt (overBinding config .httpJson) mayFault') (Pool.fresh s₀)
        acts' q →
      PoolAlike (· = ·) (OverBoth rt) (fun _ _ => SameFlow) s q →
        SameState rt config s q := by
    intro s q hs hq h
    refine ⟨h.store.eq.symm, fun i => ?_⟩
    exact sameOutcome_of_alike (h.calls i) (fun _ _ => ends_of_run hs)
      (fun _ _ => ends_of_run hq)
  obtain ⟨hto, hback⟩ := hT.runs hacts (PoolAlike.fresh (StoreAlike.refl s₀))
  refine ⟨fun s hs => ?_, fun q hq => ?_⟩
  · obtain ⟨q, hq, h⟩ := hto s hs
    exact ⟨q, hq, hsame s q hs hq h⟩
  · obtain ⟨s, hs, h⟩ := hback q hq
    exact ⟨s, hs, hsame s q hs hq h⟩

/-- One turn, its reply in an envelope. -/
def envelopeTurn (body : Bytes) : List (TurnAction Nat) :=
  let key := CacheKey.fromHashed sampleRuntime "k"
  let ctx : RequestContext := ⟨{ cacheKey := some key }⟩
  [ .invoke 0 (.request ⟨"/rest", [], [], [], true⟩ none)
  , .access 0 1
  , .ret 0
  , .invoke 1 (.response 0 ctx ⟨[], [], body, true⟩ none)
  , .access 1 1
  , .ret 1 ]

theorem bindings_interchangeable_working :
    ∃ q : TurnPool Nat,
      Run (turnServer Nat sampleRuntime (overBinding (sampleConfig false) .httpJson)
        fun _ => false) (Pool.fresh VStore.empty) (envelopeTurn (utf8 workingText)) q ∧
      ∃ e, q.store.contents (CacheKey.fromHashed sampleRuntime "k").asStr = some e ∧
        e.taskId = some "t" := by
  have hr := run_exec (turnServer Nat sampleRuntime
    (overBinding (sampleConfig false) .jsonRpc) fun _ => false)
    (Pool.fresh VStore.empty) (envelopeTurn (utf8 envelopeText)) (by decide)
  have hanswer : SameAnswer sampleRuntime [] (utf8 envelopeText) (utf8 workingText) :=
    .result (by rfl) (by rfl) (by rfl)
  have hacts : List.Forall₂ (ActionAlike (OverBoth sampleRuntime))
      (envelopeTurn (utf8 envelopeText)) (envelopeTurn (utf8 workingText)) :=
    .cons (.invoke 0 (.request _ _)) <| .cons (.access 0 1) <| .cons (.ret 0) <|
      .cons (.invoke 1 (.response _ _ _ _ hanswer)) <| .cons (.access 1 1) <|
        .cons (.ret 1) .nil
  obtain ⟨q, hq, hsame⟩ := (bindings_interchangeable (sampleConfig false)
    (fun _ _ _ => rfl) VStore.empty hacts).1 _ hr
  refine ⟨q, hq, ?_⟩
  rw [hsame.store]
  exact ⟨_, rfl, rfl⟩

end RestToA2a.Policy.BindingChange
