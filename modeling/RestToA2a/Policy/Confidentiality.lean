import RestToA2a.Policy.BindingChange
import RestToA2a.Policy.ConversationMemory

/-!
# What the storage is told

`cache.rs` promises that neither the conversation value nor any prompt or
response text is at rest.  More is true: how the storage is used depends on which
requests are forwarded, on the digests of their conversation values, on the ids
and state classes of the replies, and on the clocks.  Two policies in cache mode
whose calls differ in anything else use it in exactly the same way, so whoever
watches it, the accesses and their versions included, sees nothing else.
-/

namespace RestToA2a.Policy.Confidentiality

open RestToA2a.Verified.VersionedStore
open RestToA2a.Verified.StorageProgram
open RestToA2a.Verified.ProgramPool
open RestToA2a.Verified.Linearizable
open RestToA2a.Verified.Translation
open RestToA2a.Policy.Serde
open RestToA2a.Policy.A2a
open RestToA2a.Policy.Binding
open RestToA2a.Policy.Cache
open RestToA2a.Policy.Cache.ConversationStore
open RestToA2a.Policy.CacheSteps
open RestToA2a.Policy.Continuation
open RestToA2a.Policy.Gateway
open RestToA2a.Policy.ConfigMap
open RestToA2a.Policy.Filter
open RestToA2a.Policy.Turns
open RestToA2a.Policy.TurnServer
open RestToA2a.Policy.CacheFootprint
open RestToA2a.Policy.Shaping
open RestToA2a.Policy.BindingChange
open RestToA2a.Policy.ConversationMemory

variable {τ : Type} {rt : Runtime} {config config' : PolicyConfig}

/-! ## Calls the storage cannot tell apart -/

/-- The policies are in cache mode and use the same store; everything else of
their configurations may differ. -/
structure SameStore (config config' : PolicyConfig) : Prop where
  mode : config.continuationMode = .cache
  mode' : config'.continuationMode = .cache
  store : conversationStore config' = conversationStore config

/-- What is persisted of a reply: its class and its ids. -/
def persisted (rt : Runtime) (config : PolicyConfig) (res : HttpResponse) :
    Option (StateClass × Continuation) :=
  (facts rt config res).map fun parsed => (parsed.class, parsed.continuation)

/-- What a filter tells the storage is the same: of a request its key, the clock,
whether it has a prompt and whether the host takes the new body; of a response
what is persisted of the reply, the clock, and what its request has left. -/
inductive SameToStorage (rt : Runtime) (config config' : PolicyConfig) :
    TurnCall → TurnCall → Prop where
  | request {req req' : HttpRequest} {clock clock' : Clock}
      (hprompt : (promptOf config' req').isSome = (promptOf config req).isSome)
      (hbody : req'.setBody = req.setBody)
      (hkey : requestKey rt config' req' = requestKey rt config req)
      (hclock : nowMillis clock' = nowMillis clock) :
      SameToStorage rt config config' (.request req clock) (.request req' clock')
  | response (origin : Nat) (ctx : RequestContext) {res res' : HttpResponse}
      {clock clock' : Clock}
      (hpersisted : persisted rt config' res' = persisted rt config res)
      (hclock : nowMillis clock' = nowMillis clock) :
      SameToStorage rt config config' (.response origin ctx res clock)
        (.response origin ctx res' clock')

/-- The filters leave the same behind for a response. -/
def SameContext : TurnReply → TurnReply → Prop
  | .filtered flow, .filtered flow' => flow'.requestData = flow.requestData
  | .delivered _, .delivered _ => True
  | _, _ => False

/-! ## The filters -/

/-- In cache mode the continuation of a request depends on its key. -/
theorem requestContinuation_eq (hmode : config.continuationMode = .cache)
    (req : HttpRequest) (nowMillis : Nat) :
    (requestContinuation rt config config.usesCache req nowMillis :
        Storage τ RequestContinuation) =
      match requestKey rt config req with
      | none => .done {}
      | some key => (getContinuation key nowMillis).map (cached key) := by
  have hcache : config.usesCache = true := by simp [PolicyConfig.usesCache, hmode]
  simp only [requestContinuation, requestKey, hmode, hcache, if_true]
  cases conversationValue config req with
  | none => rfl
  | some v => rfl

/-- In cache mode what a response does to the store depends on what is persisted. -/
theorem persistence_eq (hmode : config.continuationMode = .cache)
    (ctx : RequestContext) (res : HttpResponse) (nowMillis : Nat) :
    (persistence rt config config.usesCache (some ctx) res nowMillis :
        Storage τ (List Warning)) =
      match persisted rt config res with
      | none => .done []
      | some (stateClass, continuation) =>
          (persistOutcome (conversationStore config) ctx.continuation stateClass
            continuation nowMillis).map
              (persistWarnings ctx.continuation stateClass) := by
  have hcache : config.usesCache = true := by simp [PolicyConfig.usesCache, hmode]
  simp only [persistence, persisted, facts]
  cases isEventStream res.headers with
  | true => rfl
  | false =>
      simp only [Bool.false_eq_true, if_false]
      cases (parseResponse rt config.binding res.body).result with
      | none => rfl
      | some result =>
          simp only [persistReply, hcache, if_true, Option.map_some]

theorem sameContext_forward {req req' : HttpRequest} (hbody : req'.setBody = req.setBody)
    (prompt prompt' : String) (rc : RequestContinuation) :
    SameContext (.filtered (forward rt config req prompt rc))
      (.filtered (forward rt config' req' prompt' rc)) := by
  simp only [SameContext, forward, hbody]
  split
  · rfl
  · rfl

theorem alike_code (hsame : SameStore config config') {c c' : TurnCall}
    (h : SameToStorage rt config config' c c') :
    Alike (· = ·) SameContext (c.code rt config : Storage τ TurnReply)
      (c'.code rt config') := by
  cases h with
  | @request req req' clock clock' hprompt hbody hkey hclock =>
      simp only [TurnCall.code, requestFilter, requestContinuation_eq hsame.mode,
        requestContinuation_eq hsame.mode', hkey, hclock]
      cases hp : promptOf config req with
      | none =>
          have hp' : promptOf config' req' = none := by simpa [hp] using hprompt
          simp only [hp', Prog.map_done]
          exact .done rfl
      | some prompt =>
          obtain ⟨prompt', hp'⟩ := Option.isSome_iff_exists.mp (hprompt.trans (by simp [hp]))
          simp only [hp', Prog.map_map]
          exact alike_map (fun rc => sameContext_forward hbody prompt prompt' rc) _
  | response origin ctx hpersisted hclock =>
      simp only [TurnCall.code, responseFilter_eq, persistence_eq hsame.mode,
        persistence_eq hsame.mode', hpersisted, hclock, hsame.store, Prog.map_map]
      exact alike_map (fun _ => trivial) _

theorem isRequest_sameToStorage {c c' : TurnCall}
    (h : SameToStorage rt config config' c c') : isRequest c' = isRequest c := by
  cases h <;> rfl

theorem leftBy_sameContext {r r' : TurnReply} (h : SameContext r r') :
    leftBy r' = leftBy r := by
  cases r with
  | delivered d =>
      cases r' with
      | delivered d' => rfl
      | filtered flow' => exact h.elim
  | filtered flow =>
      cases r' with
      | delivered d' => exact h.elim
      | filtered flow' => exact h

theorem translates (hsame : SameStore config config') {mayFault mayFault' : TurnCall → Bool}
    (hfault : ∀ c c', SameToStorage rt config config' c c' → mayFault c = mayFault' c') :
    Translates (· = ·) (SameToStorage rt config config') (fun _ _ => SameContext)
      (turnServer τ rt config mayFault) (turnServer τ rt config' mayFault') where
  code := alike_code hsame
  enabled := by
    intro calls calls' c c' hc hcalls
    cases hc with
    | request => rfl
    | response origin ctx hpersisted hclock =>
        exact forwardedWith_same isRequest_sameToStorage leftBy_sameContext hcalls
          origin ctx
  mayFault := fun hc => (hfault _ _ hc).symm

/-! ## Whole runs -/

/-- The storage is in the same state, and the filters that have ended have ended
alike as far as it can tell. -/
structure SameUse (rt : Runtime) (config config' : PolicyConfig) (s q : TurnPool τ) :
    Prop where
  store : q.store = s.store
  outcomes : ∀ i, Option.Rel
    (fun x y => SameToStorage rt config config' x.1 y.1 ∧ SameContext x.2 y.2)
    (outcome (s.calls i)) (outcome (q.calls i))

theorem sameUse_of_alike {s q : TurnPool τ}
    (h : PoolAlike (· = ·) (SameToStorage rt config config') (fun _ _ => SameContext)
      s q) : SameUse rt config config' s q where
  store := h.store.eq.symm
  outcomes := by
    intro i
    have hi := h.calls i
    generalize s.calls i = φ at hi
    generalize q.calls i = φ' at hi
    cases hi with
    | idle => exact .none
    | returned hc hr => exact .some ⟨hc, hr⟩
    | running hc hp =>
        cases hp with
        | done hr => exact .some ⟨hc, hr⟩
        | get _ => exact .none
        | store _ _ => exact .none
        | delete _ => exact .none

variable [DecidableEq τ]

/-- **The storage is told nothing else.**  Take two policies in cache mode on the
same kind of store, and two lists of actions whose requests differ in anything
but the key, the clock, whether there is a prompt and whether the host takes the
new body, and whose responses differ in anything but the ids and the state that
are persisted, and the clock.  The one policy can take the first list exactly if
the other can take the second, for every interleaving, with the same failures and
removals; and then the storage holds the same entries under the same versions.
So no prompt, no header and no response text can be told from it, and of a
conversation value nothing but its key. -/
theorem storage_told_nothing_else (hsame : SameStore config config')
    {mayFault mayFault' : TurnCall → Bool}
    (hfault : ∀ c c', SameToStorage rt config config' c c' → mayFault c = mayFault' c')
    (s₀ : Entries τ) {acts acts' : List (TurnAction τ)}
    (hacts : List.Forall₂ (ActionAlike (SameToStorage rt config config')) acts acts') :
    (∀ s, Run (turnServer τ rt config mayFault) (Pool.fresh s₀) acts s →
      ∃ q, Run (turnServer τ rt config' mayFault') (Pool.fresh s₀) acts' q ∧
        SameUse rt config config' s q) ∧
      ∀ q, Run (turnServer τ rt config' mayFault') (Pool.fresh s₀) acts' q →
        ∃ s, Run (turnServer τ rt config mayFault) (Pool.fresh s₀) acts s ∧
          SameUse rt config config' s q := by
  have hT : Translates (· = ·) (SameToStorage rt config config') (fun _ _ => SameContext)
      (turnServer τ rt config mayFault) (turnServer τ rt config' mayFault') :=
    translates hsame hfault
  obtain ⟨hto, hback⟩ := hT.runs hacts (PoolAlike.fresh (StoreAlike.refl s₀))
  refine ⟨fun s hs => ?_, fun q hq => ?_⟩
  · obtain ⟨q, hq, h⟩ := hto s hs
    exact ⟨q, hq, sameUse_of_alike h⟩
  · obtain ⟨s, hs, h⟩ := hback q hq
    exact ⟨s, hs, sameUse_of_alike h⟩

/-- The sample policy over JSON-RPC, with another prompt. -/
def otherConfig : PolicyConfig :=
  { sampleConfig false with
    binding := .jsonRpc
    promptSelector := ⟨fun _ _ => .ok (.string "bye")⟩ }

/-- One turn of a request, its reply with the given body. -/
def turnOf (req : HttpRequest) (body : Bytes) : List (TurnAction Nat) :=
  [ .invoke 0 (.request req none)
  , .access 0 1
  , .ret 0
  , .invoke 1 (.response 0 ⟨cached (CacheKey.fromHashed sampleRuntime "k") none⟩
      ⟨[], [], body, true⟩ none)
  , .access 1 1
  , .ret 1 ]

theorem storage_told_nothing_else_otherConfig :
    ∃ q : TurnPool Nat,
      Run (turnServer Nat sampleRuntime otherConfig fun _ => false)
        (Pool.fresh VStore.empty)
        (turnOf ⟨"/chat", [("x-user", "7")], [], utf8 "text", true⟩ (utf8 envelopeText))
        q ∧
      ∃ e, q.store.contents (CacheKey.fromHashed sampleRuntime "k").asStr = some e ∧
        e.taskId = some "t" := by
  have hr := run_exec (turnServer Nat sampleRuntime (sampleConfig false) fun _ => false)
    (Pool.fresh VStore.empty) (turnOf ⟨"/rest", [], [], [], true⟩ (utf8 workingText))
    (by decide)
  have hrequest : SameToStorage sampleRuntime (sampleConfig false) otherConfig
      (.request ⟨"/rest", [], [], [], true⟩ none)
      (.request ⟨"/chat", [("x-user", "7")], [], utf8 "text", true⟩ none) :=
    .request rfl rfl rfl rfl
  have hresponse : SameToStorage sampleRuntime (sampleConfig false) otherConfig
      (.response 0 ⟨cached (CacheKey.fromHashed sampleRuntime "k") none⟩
        ⟨[], [], utf8 workingText, true⟩ none)
      (.response 0 ⟨cached (CacheKey.fromHashed sampleRuntime "k") none⟩
        ⟨[], [], utf8 envelopeText, true⟩ none) :=
    .response _ _ (by rfl) rfl
  have hacts : List.Forall₂
      (ActionAlike (SameToStorage sampleRuntime (sampleConfig false) otherConfig))
      (turnOf ⟨"/rest", [], [], [], true⟩ (utf8 workingText))
      (turnOf ⟨"/chat", [("x-user", "7")], [], utf8 "text", true⟩
        (utf8 envelopeText)) :=
    .cons (.invoke 0 hrequest) <| .cons (.access 0 1) <| .cons (.ret 0) <|
      .cons (.invoke 1 hresponse) <| .cons (.access 1 1) <| .cons (.ret 1) .nil
  have hstore : SameStore (sampleConfig false) otherConfig := ⟨rfl, rfl, rfl⟩
  obtain ⟨q, hq, hsame⟩ := (storage_told_nothing_else hstore
    (fun _ _ _ => rfl) VStore.empty hacts).1 _ hr
  refine ⟨q, hq, ?_⟩
  rw [hsame.store]
  exact ⟨_, rfl, rfl⟩

end RestToA2a.Policy.Confidentiality
