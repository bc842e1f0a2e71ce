import RestToA2a.Policy.Filter

/-!
# Turns made one after the other

A turn is one REST call: the request filter, the upstream reply, the response
filter.  For a cache-mode configuration this module says what a turn made with
nobody else on the store forwards and what it leaves in the store.
-/

namespace RestToA2a.Policy.Turns

open RestToA2a.Verified.VersionedStore
open RestToA2a.Verified.StorageProgram
open RestToA2a.Policy.Serde
open RestToA2a.Policy.A2a
open RestToA2a.Policy.Binding
open RestToA2a.Policy.Cache
open RestToA2a.Policy.Cache.ConversationStore
open RestToA2a.Policy.CacheSteps
open RestToA2a.Policy.CacheCalls
open RestToA2a.Policy.CacheSequential
open RestToA2a.Policy.Continuation
open RestToA2a.Policy.Gateway
open RestToA2a.Policy.ConfigMap
open RestToA2a.Policy.Filter

/-- One REST call, with the clock readings of the two filters. -/
structure Turn where
  request : HttpRequest
  requestClock : Clock
  response : HttpResponse
  responseClock : Clock

/-- The request is forwarded: it has a prompt and the host takes the new body. -/
def accepted (config : PolicyConfig) (turn : Turn) : Bool :=
  (promptOf config turn.request).isSome && turn.request.setBody

/-- The facts of the reply that the response filter persists: those of a result,
of a forwarded turn, that is not an event stream. -/
def replyFacts (rt : Runtime) (config : PolicyConfig) (turn : Turn) :
    Option ParsedResult :=
  if accepted config turn && !isEventStream turn.response.headers then
    (parseResponse rt config.binding turn.response.body).result.map parseResult
  else none

/-- The conversation string of a turn. -/
def conversationOf (config : PolicyConfig) (turn : Turn) : Option String :=
  conversationValue config turn.request

variable {τ : Type} [DecidableEq τ]

/-- A turn with nobody else on the store. -/
def runTurn (m : Mint String ConversationEntry τ) (rt : Runtime)
    (config : PolicyConfig) (turn : Turn) (s : Entries τ) : Flow × Entries τ :=
  let (flow, s₁) := (requestFilter rt config config.usesCache turn.request
    (nowMillis turn.requestClock)).run m s
  let (_, s₂) := (responseFilter rt config config.usesCache flow.requestData
    turn.response (nowMillis turn.responseClock)).run m s₁
  (flow, s₂)

/-- How the request filters of a sequence of turns end. -/
def flows (m : Mint String ConversationEntry τ) (rt : Runtime)
    (config : PolicyConfig) : Entries τ → List Turn → List Flow
  | _, [] => []
  | s, turn :: rest =>
      (runTurn m rt config turn s).1 ::
        flows m rt config (runTurn m rt config turn s).2 rest

/-- The store after a sequence of turns. -/
def storeAfterTurns (m : Mint String ConversationEntry τ) (rt : Runtime)
    (config : PolicyConfig) (s : Entries τ) (turns : List Turn) : Entries τ :=
  turns.foldl (fun s turn => (runTurn m rt config turn s).2) s

/-! ## One turn -/

/-- What the request filter resolves in cache mode, from the abstract store. -/
def resolved (rt : Runtime) (config : PolicyConfig) (turn : Turn)
    (a : Conversations) : RequestContinuation :=
  match conversationOf config turn with
  | none => {}
  | some v =>
      cached (CacheKey.fromHashed rt v)
        (readable (a (CacheKey.fromHashed rt v).asStr) (nowMillis turn.requestClock))

/-- How the request filter ends, from the abstract store. -/
def flowOf (rt : Runtime) (config : PolicyConfig) (turn : Turn)
    (a : Conversations) : Flow :=
  match promptOf config turn.request with
  | none => .broken (reject rt config "missing or invalid prompt")
  | some prompt => forward rt config turn.request prompt (resolved rt config turn a)

/-- What a turn makes of the abstract store. -/
def afterTurn (rt : Runtime) (config : PolicyConfig) (turn : Turn)
    (a : Conversations) : Conversations :=
  match conversationOf config turn, replyFacts rt config turn with
  | some v, some parsed =>
      effect (conversationStore config) (.recordOutcome (CacheKey.fromHashed rt v)
        parsed.class parsed.continuation (nowMillis turn.responseClock)) a
  | _, _ => a

theorem run_requestFilter (m : Mint String ConversationEntry τ) (rt : Runtime)
    {config : PolicyConfig} (hmode : config.continuationMode = .cache)
    (turn : Turn) (s : Entries τ) :
    (requestFilter rt config config.usesCache turn.request
        (nowMillis turn.requestClock)).run m s =
      (flowOf rt config turn s.contents, s) := by
  have hcache : config.usesCache = true := by simp [PolicyConfig.usesCache, hmode]
  cases hp : promptOf config turn.request with
  | none => simp [requestFilter, flowOf, hp]
  | some prompt =>
      simp only [requestFilter, flowOf, hp, Prog.run_map, requestContinuation, hmode,
        hcache, if_true, resolved, conversationOf]
      cases hv : conversationValue config turn.request with
      | none => rfl
      | some v => rw [run_resolveCache]

theorem requestData_flowOf (rt : Runtime) (config : PolicyConfig) (turn : Turn)
    (a : Conversations) :
    (flowOf rt config turn a).requestData =
      if accepted config turn then some ⟨resolved rt config turn a⟩ else none := by
  cases hp : promptOf config turn.request with
  | none => simp [flowOf, accepted, hp, Flow.requestData]
  | some prompt =>
      cases hset : turn.request.setBody <;>
        simp [flowOf, forward, accepted, hp, hset, Flow.requestData]

/-- Persisting a result rewrites the entry of the key of its request. -/
theorem contents_run_persistReply (m : Mint String ConversationEntry τ)
    (config : PolicyConfig) (ctx : RequestContext) (result : Json)
    (nowMillis : Nat) (s : Entries τ) :
    ((persistReply config true ctx (some result) nowMillis).run m s).2.contents =
      persisted (conversationStore config) ctx.continuation
        (parseResult result).class (parseResult result).continuation nowMillis
        s.contents := by
  obtain ⟨s', hrun, hs'⟩ := run_persistOutcome m (conversationStore config)
    ctx.continuation (parseResult result).class (parseResult result).continuation
    nowMillis s
  simp only [persistReply, if_true, Prog.run_map, hrun, hs']

/-- **One turn** forwards and stores what the abstract store says. -/
theorem runTurn_spec (m : Mint String ConversationEntry τ) (rt : Runtime)
    {config : PolicyConfig} (hmode : config.continuationMode = .cache)
    (turn : Turn) (s : Entries τ) :
    (runTurn m rt config turn s).1 = flowOf rt config turn s.contents ∧
      (runTurn m rt config turn s).2.contents =
        afterTurn rt config turn s.contents := by
  have hcache : config.usesCache = true := by simp [PolicyConfig.usesCache, hmode]
  have hrequest := run_requestFilter m rt hmode turn s
  rw [hcache] at hrequest
  simp only [runTurn, hcache, hrequest, true_and, requestData_flowOf]
  cases hacc : accepted config turn with
  | false => simp [responseFilter, afterTurn, replyFacts, hacc]
  | true =>
      cases hes : isEventStream turn.response.headers with
      | true => simp [responseFilter, afterTurn, replyFacts, hacc, hes]
      | false =>
          have hfacts : replyFacts rt config turn =
              (parseResponse rt config.binding turn.response.body).result.map
                parseResult := by
            simp [replyFacts, hacc, hes]
          simp only [if_true, responseFilter, hes, Bool.false_eq_true, if_false,
            Prog.run_map, afterTurn, hfacts]
          cases (parseResponse rt config.binding turn.response.body).result with
          | none => cases conversationOf config turn <;> rfl
          | some r =>
              rw [contents_run_persistReply]
              cases hv : conversationOf config turn <;>
                simp [resolved, hv, persisted, cached]

theorem contents_storeAfterTurns (m : Mint String ConversationEntry τ)
    (rt : Runtime) {config : PolicyConfig}
    (hmode : config.continuationMode = .cache) (turns : List Turn)
    (s : Entries τ) :
    (storeAfterTurns m rt config s turns).contents =
      turns.foldl (fun a turn => afterTurn rt config turn a) s.contents := by
  induction turns generalizing s with
  | nil => rfl
  | cons turn turns ih =>
      simp only [storeAfterTurns, List.foldl_cons] at ih ⊢
      rw [ih, (runTurn_spec m rt hmode turn s).2]

/-- A turn of a sequence forwards what the store before it says. -/
theorem flows_getElem? (m : Mint String ConversationEntry τ) (rt : Runtime)
    {config : PolicyConfig} (hmode : config.continuationMode = .cache)
    {turns : List Turn} {n : Nat} {turn : Turn} (s : Entries τ)
    (hn : turns[n]? = some turn) :
    (flows m rt config s turns)[n]? = some (flowOf rt config turn
      (storeAfterTurns m rt config s (turns.take n)).contents) := by
  induction turns generalizing s n with
  | nil => simp at hn
  | cons first turns ih =>
      cases n with
      | zero =>
          simp only [List.getElem?_cons_zero, Option.some.injEq] at hn
          subst hn
          simp [flows, storeAfterTurns, (runTurn_spec m rt hmode first s).1]
      | succ n =>
          simp only [List.getElem?_cons_succ] at hn
          simpa [flows, storeAfterTurns] using
            ih (runTurn m rt config first s).2 hn

/-! ## A policy to evaluate -/

/-- SHA-256 on the two strings a sample turn hashes: its conversation string,
and the seed of its message id. -/
def sampleSha256 (bytes : Bytes) : Digest :=
  if bytes = utf8 "k" then
    #v[0x82, 0x54, 0xc3, 0x29, 0xa9, 0x28, 0x50, 0xf6,
    0xd5, 0x39, 0xdd, 0x37, 0x6f, 0x48, 0x16, 0xee,
    0x27, 0x64, 0x51, 0x7d, 0xa5, 0xe0, 0x23, 0x55,
    0x14, 0xaf, 0x43, 0x31, 0x64, 0x48, 0x0d, 0x7a]
  else
    #v[0x6f, 0xf2, 0x57, 0x6f, 0xfc, 0x3b, 0xe4, 0x9c,
    0xbe, 0xa7, 0x73, 0x7b, 0x93, 0x56, 0x66, 0x89,
    0x6c, 0xe7, 0x5e, 0x38, 0xe5, 0x29, 0x23, 0xbb,
    0xaf, 0x10, 0x77, 0xe2, 0xa3, 0x32, 0xe7, 0x70]

/-- A reply that goes on, with ids. -/
def workingReply : Json :=
  .obj [("contextId", .str "c"), ("id", .str "t"),
    ("status", .obj [("state", .str "working")])]

/-- A reply that ends the task. -/
def completedReply : Json :=
  .obj [("contextId", .str "c"), ("id", .str "t"),
    ("status", .obj [("state", .str "completed")])]

/-- An upstream error of the HTTP+JSON binding. -/
def errorReply : Json :=
  .obj [("error", .obj [("code", .num (.int 404)), ("message", .str "not found")])]

def workingText : String :=
  "\x7b\"contextId\":\"c\",\"id\":\"t\",\"status\":\x7b\"state\":\"working\"\x7d\x7d"

def completedText : String :=
  "\x7b\"contextId\":\"c\",\"id\":\"t\",\"status\":\x7b\"state\":\"completed\"\x7d\x7d"

def errorText : String :=
  "\x7b\"error\":\x7b\"code\":404,\"message\":\"not found\"\x7d\x7d"

/-- The working reply in a JSON-RPC envelope. -/
def envelopeText : String :=
  "\x7b\"id\":\"1\",\"jsonrpc\":\"2.0\",\"result\":" ++ workingText ++ "\x7d"

/-- The bodies of sample turns with the values they are the text of. -/
def sampleBodies : List (String × Json) :=
  [ (workingText, workingReply)
  , (completedText, completedReply)
  , (errorText, errorReply)
  , (envelopeText, .obj
      [("id", .str "1"), ("jsonrpc", .str "2.0"), ("result", workingReply)]) ]

/-- The crates on the bodies of sample turns. -/
def sampleRuntime : Runtime where
  sha256 := sampleSha256
  toVec := fun _ => utf8 "null"
  fromSlice := fun body =>
    (sampleBodies.find? fun e => utf8 e.1 = body).map Prod.snd
  intoJson := fun _ => .null

/-- Cache mode with a constant prompt and conversation string. -/
def sampleConfig (distributed : Bool) : PolicyConfig where
  binding := .httpJson
  continuationMode := .cache
  promptSelector := ⟨fun _ _ => .ok (.string "hello")⟩
  contextKeySelector := some ⟨fun _ _ => .ok (.string "k")⟩
  taskIdSelector := none
  contextIdSelector := none
  responseType := .raw
  responseMapping := none
  responseFields := []
  metadataSelector := none
  sendConfiguration := none
  distributed := distributed
  conversationTtlSeconds := 60
  requestErrorStatus := 400

/-- A turn with the given reply, its filters reading the clock at the given
seconds. -/
def sampleTurn (reply : String) (requestSecond responseSecond : Fin 100) : Turn where
  request := ⟨"/rest", [], [], [], true⟩
  requestClock := some ⟨requestSecond.val * 1000000000, by omega⟩
  response := ⟨[], [], utf8 reply, true⟩
  responseClock := some ⟨responseSecond.val * 1000000000, by omega⟩

end RestToA2a.Policy.Turns
