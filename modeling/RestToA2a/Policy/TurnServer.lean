import RestToA2a.Policy.Turns
import RestToA2a.Verified.Wrapping

/-!
# Any number of turns at once

The request and the response filter of each turn are calls of a pool,
interleaved at single storage accesses.  A filter makes at most one operation of
the store (`wraps`), so it takes effect where that operation does, and turns
made one after the other (`Turns`) are some of the runs (`run_of_turns`).
-/

namespace RestToA2a.Policy.TurnServer

open RestToA2a.Verified.VersionedStore
open RestToA2a.Verified.StorageProgram
open RestToA2a.Verified.ProgramPool
open RestToA2a.Verified.Linearizable
open RestToA2a.Verified.Wrapping
open RestToA2a.Policy.Serde
open RestToA2a.Policy.A2a
open RestToA2a.Policy.Binding
open RestToA2a.Policy.Cache
open RestToA2a.Policy.Cache.ConversationStore
open RestToA2a.Policy.CacheSteps
open RestToA2a.Policy.CacheCalls
open RestToA2a.Policy.CacheLinearizable
open RestToA2a.Policy.Continuation
open RestToA2a.Policy.Gateway
open RestToA2a.Policy.ConfigMap
open RestToA2a.Policy.Filter
open RestToA2a.Policy.Turns

/-! ## Turns as calls of a pool -/

/-- One filter of one turn.  The response filter names the call that was its
request filter, and has what that one left for it. -/
inductive TurnCall where
  | request (req : HttpRequest) (clock : Clock)
  | response (origin : Nat) (ctx : RequestContext) (res : HttpResponse)
      (clock : Clock)

/-- How a filter ends. -/
inductive TurnReply where
  | filtered (flow : Flow)
  | delivered (d : Delivered)

variable {τ : Type}

/-- The program of a filter. -/
def TurnCall.code (rt : Runtime) (config : PolicyConfig) :
    TurnCall → Storage τ TurnReply
  | .request req clock =>
      (requestFilter rt config config.usesCache req (nowMillis clock)).map .filtered
  | .response _ ctx res clock =>
      (responseFilter rt config config.usesCache (some ctx) res
        (nowMillis clock)).map .delivered

/-- The call `origin` was a request filter that forwarded and left `ctx`. -/
def forwardedWith (calls : Nat → Phase TurnCall String ConversationEntry τ TurnReply)
    (origin : Nat) (ctx : RequestContext) : Bool :=
  match calls origin with
  | .returned (.request _ _) (.filtered (.continued left _)) => decide (left = ctx)
  | _ => false

/-- The policy as a server: requests come at any time, a response only to a
request that was forwarded. -/
def turnServer (τ : Type) (rt : Runtime) (config : PolicyConfig)
    (mayFault : TurnCall → Bool) :
    Server TurnCall String ConversationEntry τ TurnReply where
  code := TurnCall.code rt config
  enabled := fun calls c =>
    match c with
    | .request _ _ => true
    | .response origin ctx _ _ => forwardedWith calls origin ctx
  mayFault := mayFault

/-- A state of a run of the policy. -/
abbrev TurnPool (τ : Type) := Pool TurnCall String ConversationEntry τ TurnReply

/-- An event of a run of the policy. -/
abbrev TurnAction (τ : Type) := Action TurnCall String τ

/-- What a lookup found. -/
def found : StoreReply → Option Continuation
  | .read d => d
  | .recorded _ => none

/-- What recording an outcome returned. -/
def recorded : StoreReply → Except CacheError Unit
  | .recorded r => r
  | .read _ => .ok ()

/-- The store operation a filter makes, and how it ends the filter. -/
inductive Inner (rt : Runtime) (config : PolicyConfig) :
    TurnCall → StoreCall → (StoreReply → TurnReply) → Prop where
  | lookup {req : HttpRequest} {clock : Clock} {prompt v : String}
      (hp : promptOf config req = some prompt)
      (hv : conversationValue config req = some v) :
      Inner rt config (.request req clock)
        (.getContinuation (CacheKey.fromHashed rt v) (nowMillis clock))
        fun reply => .filtered (forward rt config req prompt
          (cached (CacheKey.fromHashed rt v) (found reply)))
  | persist {origin : Nat} {ctx : RequestContext} {res : HttpResponse}
      {clock : Clock} {result : Json} {key : CacheKey}
      (hes : isEventStream res.headers = false)
      (hresult : (parseResponse rt config.binding res.body).result = some result)
      (hkey : ctx.continuation.cacheKey = some key) :
      Inner rt config (.response origin ctx res clock)
        (.recordOutcome key (parseResult result).class
          (parseResult result).continuation (nowMillis clock))
        fun reply => .delivered (deliver rt config res
          (persistWarnings ctx.continuation (parseResult result).class
            (recorded reply)))

/-- A send is forwarded with the continuation that was resolved. -/
theorem forward_eq_continued {rt : Runtime} {config : PolicyConfig}
    {req : HttpRequest} {prompt : String} {rc : RequestContinuation}
    {ctx : RequestContext} {message : SendMessage}
    (h : forward rt config req prompt rc = .continued ctx message) :
    ctx.continuation = rc ∧ sentIds message.params = rc.continuation.members := by
  simp only [forward] at h
  split at h
  · cases h
    exact ⟨rfl, sentIds_buildSendMessage _ _ _ _ _⟩
  · cases h

/-- A request filter ends at once, with no conversation string to look up, or
looks its continuation up. -/
theorem code_request (rt : Runtime) {config : PolicyConfig}
    (hmode : config.continuationMode = .cache) (req : HttpRequest) (clock : Clock) :
    (∃ flow, (TurnCall.code rt config (.request req clock) : Storage τ TurnReply) =
        .done (.filtered flow) ∧
      ∀ ctx message, flow = .continued ctx message →
        conversationValue config req = none ∧ ctx.continuation = {}) ∨
      ∃ c f, Inner rt config (.request req clock) c f ∧
        (TurnCall.code rt config (.request req clock) : Storage τ TurnReply) =
          (c.code (conversationStore config)).map f := by
  have hcache : config.usesCache = true := by simp [PolicyConfig.usesCache, hmode]
  cases hp : promptOf config req with
  | none =>
      refine Or.inl ⟨.broken (reject rt config "missing or invalid prompt"), ?_, ?_⟩
      · simp only [TurnCall.code, requestFilter, hp, Prog.map_done]
      · intro ctx message h
        cases h
  | some prompt =>
      cases hv : conversationValue config req with
      | none =>
          refine Or.inl ⟨forward rt config req prompt {}, ?_, ?_⟩
          · simp only [TurnCall.code, requestFilter, hp, requestContinuation, hmode,
              hcache, if_true, hv, resolveCache, Prog.map_done]
          · intro ctx message h
            exact ⟨rfl, (forward_eq_continued h).1⟩
      | some v =>
          refine Or.inr ⟨_, _, .lookup hp hv, ?_⟩
          simp only [TurnCall.code, requestFilter, hp, requestContinuation, hmode,
            hcache, if_true, hv, resolveCache, StoreCall.code, Prog.map_map]
          rfl

/-- A response filter ends at once or persists its reply. -/
theorem code_response (rt : Runtime) {config : PolicyConfig}
    (hmode : config.continuationMode = .cache) (origin : Nat) (ctx : RequestContext)
    (res : HttpResponse) (clock : Clock) :
    (∃ d, (TurnCall.code rt config (.response origin ctx res clock) :
        Storage τ TurnReply) = .done (.delivered d)) ∨
      ∃ c f, Inner rt config (.response origin ctx res clock) c f ∧
        (TurnCall.code rt config (.response origin ctx res clock) :
          Storage τ TurnReply) = (c.code (conversationStore config)).map f := by
  have hcache : config.usesCache = true := by simp [PolicyConfig.usesCache, hmode]
  cases hes : isEventStream res.headers with
  | true =>
      refine Or.inl ⟨⟨res.headers, res.body, [.eventStream]⟩, ?_⟩
      simp only [TurnCall.code, responseFilter, hes, if_true, Prog.map_done]
  | false =>
      cases hresult : (parseResponse rt config.binding res.body).result with
      | none =>
          refine Or.inl ⟨deliver rt config res [], ?_⟩
          simp only [TurnCall.code, responseFilter, hes, hresult, persistReply,
            Bool.false_eq_true, if_false, Prog.map_done]
      | some result =>
          cases hkey : ctx.continuation.cacheKey with
          | none =>
              refine Or.inl ⟨deliver rt config res (persistWarnings ctx.continuation
                (parseResult result).class (.ok ())), ?_⟩
              simp only [TurnCall.code, responseFilter, hes, hresult, persistReply,
                hcache, persistOutcome, hkey, Bool.false_eq_true, if_false, if_true,
                Prog.map_done]
          | some key =>
              refine Or.inr ⟨_, _, .persist hes hresult hkey, ?_⟩
              simp only [TurnCall.code, responseFilter, hes, hresult, persistReply,
                hcache, persistOutcome, hkey, Bool.false_eq_true, if_false, if_true,
                StoreCall.code, Prog.map_map]
              rfl

/-- In cache mode a filter makes at most one operation of the store. -/
theorem wraps (rt : Runtime) {config : PolicyConfig}
    (hmode : config.continuationMode = .cache) (mayFault : TurnCall → Bool) :
    Wraps (server τ (conversationStore config) fun _ => true)
      (turnServer τ rt config mayFault) (Inner rt config) where
  code := by
    intro c
    cases c with
    | request req clock =>
        rcases code_request rt hmode req clock with ⟨flow, hdone, _⟩ | hinner
        · exact Or.inl ⟨_, hdone⟩
        · exact Or.inr hinner
    | response origin ctx res clock =>
        rcases code_response rt hmode origin ctx res clock with ⟨d, hdone⟩ | hinner
        · exact Or.inl ⟨_, hdone⟩
        · exact Or.inr hinner
  mayFault := fun _ _ => rfl

variable [DecidableEq τ]

/-- What a step is to the abstract store: the instant of one filter, a removal
by the backend, or nothing. -/
abbrev TurnStep (rt : Runtime) (config : PolicyConfig) (mayFault : TurnCall → Bool)
    (s s' : TurnPool τ) (a : TurnAction τ) : Prop :=
  CommitStep VStore.contents (OuterSpec (turnServer τ rt config mayFault)
    (Inner rt config) (LossySpec (conversationStore config))) forget s s' a

theorem turn_step_cases {rt : Runtime} {config : PolicyConfig}
    (hmode : config.continuationMode = .cache) {mayFault : TurnCall → Bool}
    {s₀ : Entries τ} {acts : List (TurnAction τ)} {s s' : TurnPool τ}
    {a : TurnAction τ}
    (hr : Run (turnServer τ rt config mayFault) (Pool.fresh s₀) acts s)
    (ha : Step (turnServer τ rt config mayFault) s a s') :
    TurnStep rt config mayFault s s' a :=
  ((wraps rt hmode mayFault).commitsLast (commitsLast_lossy _ _)).cases
    (((wraps rt hmode mayFault).relyGuarantee
      (callAt_relyGuarantee _ _)).run hr (Holds.fresh trivial)) ha

/-! ## Turns made one after the other -/

/-- The calls from `n` on have not been made. -/
def IdleFrom (s : TurnPool τ) (n : Nat) : Prop := ∀ i, n ≤ i → s.calls i = .idle

/-- A turn alone is a run, of the two calls of its filters. -/
theorem run_of_turn (m : Mint String ConversationEntry τ) (rt : Runtime)
    (config : PolicyConfig) (mayFault : TurnCall → Bool) (turn : Turn)
    {s : TurnPool τ} {n : Nat} (hidle : IdleFrom s n) :
    ∃ acts s', Run (turnServer τ rt config mayFault) s acts s' ∧
      s'.store = (runTurn m rt config turn s.store).2 ∧
      s'.calls n = .returned (.request turn.request turn.requestClock)
        (.filtered (runTurn m rt config turn s.store).1) ∧
      (∀ i, i < n → s'.calls i = s.calls i) ∧ IdleFrom s' (n + 2) := by
  obtain ⟨acts, _, hrequest⟩ := call_alone (turnServer τ rt config mayFault) m
    (c := .request turn.request turn.requestClock) (hidle n le_rfl) rfl
  simp only [turnServer, TurnCall.code, Prog.run_map] at hrequest
  generalize hflow : (requestFilter rt config config.usesCache turn.request
    (nowMillis turn.requestClock)).run m s.store = ran at hrequest
  obtain ⟨flow, s₁⟩ := ran
  cases flow with
  | broken rejection =>
      refine ⟨acts, _, hrequest, ?_, ?_, ?_, ?_⟩
      · simp [runTurn, hflow, Flow.requestData, responseFilter]
      · simp [runTurn, hflow]
      · intro i hi
        exact Function.update_of_ne (by omega) _ _
      · intro i hi
        rw [← hidle i (by omega)]
        exact Function.update_of_ne (by omega) _ _
  | continued ctx message =>
      obtain ⟨acts', _, hresponse⟩ := call_alone (turnServer τ rt config mayFault) m
        (s := ⟨s₁, Function.update s.calls n (.returned
          (.request turn.request turn.requestClock)
          (.filtered (.continued ctx message)))⟩)
        (i := n + 1) (c := .response n ctx turn.response turn.responseClock)
        (by simpa using hidle (n + 1) (by omega))
        (by simp [turnServer, forwardedWith])
      simp only [turnServer, TurnCall.code, Prog.run_map] at hresponse
      refine ⟨acts ++ acts', _, hrequest.append hresponse, ?_, ?_, ?_, ?_⟩
      · simp [runTurn, hflow, Flow.requestData]
      · simp [runTurn, hflow]
      · intro i hi
        simp only [Function.update_of_ne (show i ≠ n + 1 by omega),
          Function.update_of_ne (show i ≠ n by omega)]
      · intro i hi
        simp only [Function.update_of_ne (show i ≠ n + 1 by omega),
          Function.update_of_ne (show i ≠ n by omega)]
        exact hidle i (by omega)

/-- **Sequences of turns are runs.**  The turns take two calls each, and how
their request filters end is how the calls ended. -/
theorem run_of_turns (m : Mint String ConversationEntry τ) (rt : Runtime)
    (config : PolicyConfig) (mayFault : TurnCall → Bool) (turns : List Turn)
    {s : TurnPool τ} {n : Nat} (hidle : IdleFrom s n) :
    ∃ acts s', Run (turnServer τ rt config mayFault) s acts s' ∧
      s'.store = storeAfterTurns m rt config s.store turns ∧
      (∀ i, i < n → s'.calls i = s.calls i) ∧
      ∀ k turn flow, turns[k]? = some turn →
        (flows m rt config s.store turns)[k]? = some flow →
        s'.calls (n + 2 * k) =
          .returned (.request turn.request turn.requestClock) (.filtered flow) := by
  induction turns generalizing s n with
  | nil => exact ⟨[], s, .nil, rfl, fun _ _ => rfl, by simp⟩
  | cons first turns ih =>
      obtain ⟨acts, s₁, hfirst, hstore, hcall, hkept, hidle₁⟩ :=
        run_of_turn m rt config mayFault first hidle
      obtain ⟨acts', s', hrest, hstore', hkept', hflows⟩ := ih hidle₁
      refine ⟨acts ++ acts', s', hfirst.append hrest, ?_, ?_, ?_⟩
      · rw [hstore', hstore]
        rfl
      · intro i hi
        rw [hkept' i (by omega), hkept i hi]
      · intro k turn flow hturn hflow
        cases k with
        | zero =>
            simp only [List.getElem?_cons_zero, Option.some.injEq, flows] at hturn hflow
            subst hturn
            subst hflow
            rw [Nat.mul_zero, Nat.add_zero, hkept' n (by omega), hcall]
        | succ k =>
            simp only [List.getElem?_cons_succ, flows] at hturn hflow
            rw [← hstore] at hflow
            rw [← hflows k turn flow hturn hflow]
            congr 1
            omega

end RestToA2a.Policy.TurnServer
