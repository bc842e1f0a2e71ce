import RestToA2a.Policy.CacheContention
import RestToA2a.Policy.Isolation
import RestToA2a.Policy.SendEncoding
import RestToA2a.Policy.Shaping

/-!
# What the storage can do to a turn

The filters of a pool finish within a number of storage accesses known before
they start, and the storage, with all that others do to it and all its failures,
decides nothing about a turn but the ids of its send.  Without a cache it is not
touched at all.
-/

namespace RestToA2a.Policy.TurnOutcome

open RestToA2a.Verified.VersionedStore
open RestToA2a.Verified.StorageProgram
open RestToA2a.Verified.ProgramPool
open RestToA2a.Verified.Linearizable
open RestToA2a.Verified.Contention
open RestToA2a.Verified.Footprint
open RestToA2a.Policy.Serde
open RestToA2a.Policy.A2a
open RestToA2a.Policy.Binding
open RestToA2a.Policy.Cache
open RestToA2a.Policy.Cache.ConversationStore
open RestToA2a.Policy.CacheSteps
open RestToA2a.Policy.CacheCalls
open RestToA2a.Policy.CacheContention
open RestToA2a.Policy.Continuation
open RestToA2a.Policy.Dataweave
open RestToA2a.Policy.Gateway
open RestToA2a.Policy.ConfigMap
open RestToA2a.Policy.Filter
open RestToA2a.Policy.Turns
open RestToA2a.Policy.TurnServer
open RestToA2a.Policy.CacheFootprint
open RestToA2a.Policy.Isolation
open RestToA2a.Policy.SendEncoding
open RestToA2a.Policy.Shaping

variable {τ : Type} {rt : Runtime} {config : PolicyConfig}

/-! ## How a filter can end -/

/-- Whatever the storage answers, a request without a prompt is rejected, and
any other is forwarded with some continuation under its own key. -/
theorem ends_request_cases {req : HttpRequest} {clock : Clock} {flow : Flow}
    (h : ((TurnCall.request req clock).code rt config : Storage τ TurnReply).Ends
      (.filtered flow)) :
    (promptOf config req = none ∧
      flow = .broken (reject rt config "missing or invalid prompt")) ∨
    ∃ prompt rc, promptOf config req = some prompt ∧
      rc.cacheKey = requestKey rt config req ∧
      flow = forward rt config req prompt rc := by
  obtain ⟨flow', hflow, hreply⟩ := Prog.ends_map h
  cases hreply
  unfold requestFilter at hflow
  split at hflow
  · rename_i hprompt
    exact Or.inl ⟨hprompt, hflow.symm⟩
  · rename_i prompt hprompt
    obtain ⟨rc, hrc, hforward⟩ := Prog.ends_map hflow
    exact Or.inr ⟨prompt, rc, hprompt, ends_requestContinuation hrc, hforward.symm⟩

/-- Whatever the storage answers, a response is delivered as `delivery` says. -/
theorem ends_response_cases {origin : Nat} {ctx : RequestContext}
    {res : HttpResponse} {clock : Clock} {d : Delivered}
    (h : ((TurnCall.response origin ctx res clock).code rt config :
      Storage τ TurnReply).Ends (.delivered d)) :
    ∃ persisted, d = delivery rt config (some ctx) res persisted := by
  obtain ⟨d', hd, hreply⟩ := Prog.ends_map h
  cases hreply
  rw [responseFilter_eq] at hd
  obtain ⟨persisted, _, rfl⟩ := Prog.ends_map hd
  exact ⟨persisted, rfl⟩

/-- What was logged when the reply was persisted shows in the log only. -/
theorem delivery_congr (requestData requestData' : Option RequestContext)
    (hsome : requestData.isSome = requestData'.isSome) (res : HttpResponse)
    (persisted persisted' : List Warning) :
    (delivery rt config requestData res persisted).headers =
        (delivery rt config requestData' res persisted').headers ∧
      (delivery rt config requestData res persisted).body =
        (delivery rt config requestData' res persisted').body := by
  cases requestData with
  | none =>
      cases requestData' with
      | none => exact ⟨rfl, rfl⟩
      | some ctx' => cases hsome
  | some ctx =>
      cases requestData' with
      | none => cases hsome
      | some ctx' =>
          simp only [delivery]
          split
          · exact ⟨rfl, rfl⟩
          · exact ⟨rfl, rfl⟩

/-! ## How long a filter takes -/

/-- The storage accesses a filter may need: a request reads once; a response
writes once and then, for each further attempt, reads and writes once. -/
def budget (config : PolicyConfig) (c : TurnCall) : Nat :=
  if config.usesCache then
    match c with
    | .request _ _ => 1
    | .response _ _ _ _ => 2 * casMaxRetries + 1
  else 0

theorem within_requestContinuation (req : HttpRequest) (clock : Clock) :
    Within (budget config (.request req clock))
      (requestContinuation rt config config.usesCache req (nowMillis clock) :
        Storage τ RequestContinuation) := by
  unfold requestContinuation
  cases hmode : config.continuationMode with
  | explicit => exact within_done _ _
  | none => exact within_done _ _
  | cache =>
      have hcache : config.usesCache = true := by simp [PolicyConfig.usesCache, hmode]
      simp only [budget, hcache, if_true]
      cases conversationValue config req with
      | none => exact within_done _ _
      | some v =>
          refine within_map ?_
          rintro (e | found) <;> trivial

variable [DecidableEq τ]

theorem within_persistReply (ctx : RequestContext) (result : Option Json)
    (nowMillis : Nat) :
    Within (if config.usesCache then 2 * casMaxRetries + 1 else 0)
      (persistReply config config.usesCache ctx result nowMillis :
        Storage τ (List Warning)) := by
  cases result with
  | none => exact within_done _ _
  | some result =>
      cases hcache : config.usesCache with
      | false =>
          simp only [persistReply, Bool.false_eq_true, if_false]
          exact within_done _ _
      | true =>
          simp only [persistReply, if_true]
          refine within_map ?_
          unfold persistOutcome
          cases ctx.continuation.cacheKey with
          | none => exact within_done _ _
          | some key =>
              exact within_of_map (within_code (conversationStore config)
                (.recordOutcome key _ _ nowMillis))

theorem within_turnCode (rt : Runtime) (config : PolicyConfig) (c : TurnCall) :
    Within (budget config c) (TurnCall.code rt config c : Storage τ TurnReply) := by
  cases c with
  | request req clock =>
      refine within_map ?_
      unfold requestFilter
      split
      · exact within_done _ _
      · exact within_map (within_requestContinuation req clock)
  | response origin ctx res clock =>
      refine within_map ?_
      simp only [responseFilter]
      split
      · exact within_done _ _
      · exact within_map (within_persistReply ctx _ _)

/-- **No filter waits for another.**  In every run of any number of turns, a
filter that was called has made no more storage accesses than its budget, failed
ones included; and from wherever the run has brought it, it can finish by its
own actions alone, all its accesses still within the budget. -/
theorem filters_finish (m : Mint String ConversationEntry τ)
    {mayFault : TurnCall → Bool} {s₀ : Entries τ} {acts : List (TurnAction τ)}
    {s : TurnPool τ}
    (hr : Run (turnServer τ rt config mayFault) (Pool.fresh s₀) acts s) {i : Nat}
    {c : TurnCall} (hi : (s.calls i).call = some c) :
    acts.countP (operates i) ≤ budget config c ∧
      ∃ own s' r, (∀ a ∈ own, a.actor = some i) ∧
        Run (turnServer τ rt config mayFault) s own s' ∧
        s'.calls i = .returned c r ∧
        (acts ++ own).countP (operates i) ≤ budget config c := by
  have hcode := within_turnCode (τ := τ) rt config
  exact ⟨operations_le hcode hr hi, finishes_alone m hcode hr hi⟩

/-- The response of `secondSend`, and how it could have gone on from its call. -/
theorem filters_finish_secondSend :
    Provenance.secondSend.countP (operates 1) ≤ 7 ∧
      ∃ own s c r, Run (turnServer Nat sampleRuntime (sampleConfig true) fun _ => false)
        (Pool.fresh VStore.empty) (Provenance.secondSend.take 4 ++ own) s ∧
        s.calls 1 = .returned c r ∧
        (Provenance.secondSend.take 4 ++ own).countP (operates 1) ≤ 7 := by
  have hr := run_exec (turnServer Nat sampleRuntime (sampleConfig true) fun _ => false)
    (Pool.fresh VStore.empty) Provenance.secondSend (by decide)
  have hr' := run_exec (turnServer Nat sampleRuntime (sampleConfig true) fun _ => false)
    (Pool.fresh VStore.empty) (Provenance.secondSend.take 4) (by decide)
  obtain ⟨_, own, s, r, _, hown, hreturned, hle⟩ := filters_finish .counter hr' (i := 1) rfl
  exact ⟨(filters_finish .counter hr (i := 1) rfl).1, own, s, _, r, hr'.append hown,
    hreturned, hle⟩

/-! ## Without a cache -/

/-- The ids a request selects for itself. -/
def ownIds (config : PolicyConfig) (req : HttpRequest) : Continuation :=
  match config.continuationMode with
  | .explicit =>
      ⟨(evalScript config.taskIdSelector req.attributes req.body).bind valueToString,
        (evalScript config.contextIdSelector req.attributes req.body).bind valueToString⟩
  | _ => {}

omit [DecidableEq τ] in
theorem requestContinuation_ownIds (hmode : config.continuationMode ≠ .cache)
    (req : HttpRequest) (storage : Bool) (nowMillis : Nat) :
    ∃ rc, (requestContinuation rt config storage req nowMillis :
        Storage τ RequestContinuation) = .done rc ∧
      rc.continuation = ownIds config req := by
  unfold requestContinuation ownIds
  cases hm : config.continuationMode with
  | cache => exact absurd hm hmode
  | explicit => exact ⟨_, rfl, rfl⟩
  | none => exact ⟨_, rfl, rfl⟩

omit [DecidableEq τ] in
theorem done_turnCode (hmode : config.continuationMode ≠ .cache) (c : TurnCall) :
    ∃ r, (TurnCall.code rt config c : Storage τ TurnReply) = .done r := by
  have hcache : config.usesCache = false := by simp [PolicyConfig.usesCache, hmode]
  cases c with
  | request req clock =>
      have hown : ∃ rc, (requestContinuation rt config config.usesCache req
          (nowMillis clock) : Storage τ RequestContinuation) = .done rc ∧
            rc.continuation = ownIds config req :=
        requestContinuation_ownIds hmode req _ _
      obtain ⟨rc, hrc, _⟩ := hown
      simp only [TurnCall.code, requestFilter]
      split
      · exact ⟨_, rfl⟩
      · rw [hrc]
        exact ⟨_, rfl⟩
  | response origin ctx res clock =>
      simp only [TurnCall.code, responseFilter]
      split
      · exact ⟨_, rfl⟩
      · simp only [persistReply, hcache, Bool.false_eq_true, if_false]
        split
        · exact ⟨_, rfl⟩
        · exact ⟨_, rfl⟩

/-- **Without a cache turns have nothing in common.**  In explicit mode and
without continuation, in every run of any number of turns: no filter makes a
storage access, so an entry changes only where the backend removes it; how a
filter ends depends on nothing but its own call; and the ids of a send are those
that its own request selects. -/
theorem turns_apart (hmode : config.continuationMode ≠ .cache)
    {mayFault : TurnCall → Bool} {s₀ : Entries τ} {acts : List (TurnAction τ)}
    {s : TurnPool τ}
    (hr : Run (turnServer τ rt config mayFault) (Pool.fresh s₀) acts s) :
    (∀ i, acts.countP (operates i) = 0) ∧
      (∀ k, s.store.entries k = s₀.entries k ∨ s.store.entries k = none) ∧
      (∀ i c r, outcome (s.calls i) = some (c, r) →
        (TurnCall.code rt config c : Storage τ TurnReply) = .done r) ∧
      ∀ i req clock ctx message, outcome (s.calls i) =
        some (.request req clock, .filtered (.continued ctx message)) →
        sentIds message.params = (ownIds config req).members := by
  have hcode : ∀ c, ∃ r, (TurnCall.code rt config c : Storage τ TurnReply) = .done r :=
    done_turnCode hmode
  have hcache : config.usesCache = false := by simp [PolicyConfig.usesCache, hmode]
  have hended : ∀ i c r, outcome (s.calls i) = some (c, r) →
      (TurnCall.code rt config c : Storage τ TurnReply) = .done r := by
    intro i c r h
    have hends : (TurnCall.code rt config c : Storage τ TurnReply).Ends r :=
      ends_of_run hr h
    obtain ⟨r', hr'⟩ := hcode c
    rw [hr'] at hends ⊢
    exact congrArg Prog.done hends
  refine ⟨fun i => ?_, fun k => entries_of_immediate hcode hr k, hended, ?_⟩
  · cases hi : (s.calls i).call with
    | none => exact operations_of_idle hr hi
    | some c =>
        have hle := operations_le (within_turnCode (τ := τ) rt config) hr hi
        simpa [budget, hcache] using hle
  · intro i req clock ctx message h
    have hdone := hended i _ _ h
    have hown : ∃ rc, (requestContinuation rt config config.usesCache req
        (nowMillis clock) : Storage τ RequestContinuation) = .done rc ∧
          rc.continuation = ownIds config req :=
      requestContinuation_ownIds hmode req _ _
    obtain ⟨rc, hrc, hids⟩ := hown
    simp only [TurnCall.code, requestFilter] at hdone
    split at hdone
    · cases hdone
    · rw [hrc] at hdone
      simp only [Prog.map_done, Prog.done.injEq, TurnReply.filtered.injEq] at hdone
      rw [(forward_eq_continued hdone).2, hids]

theorem turns_apart_single :
    let config : PolicyConfig := { sampleConfig false with continuationMode := .none }
    let turn := sampleTurn workingText 1 2
    let acts : List (TurnAction Nat) :=
      [.invoke 0 (.request turn.request turn.requestClock), .ret 0]
    ∃ s, Run (turnServer Nat sampleRuntime config fun _ => true)
        (Pool.fresh VStore.empty) acts s ∧ acts.countP (operates 0) = 0 := by
  intro config turn acts
  have hr := run_exec (turnServer Nat sampleRuntime config fun _ => true)
    (Pool.fresh VStore.empty) acts (by decide)
  exact ⟨_, hr, (turns_apart (by decide) hr).1 0⟩

/-! ## With one -/

/-- How two filters of the same request may differ: in the ids of the send. -/
inductive SameButIds (rt : Runtime) (config : PolicyConfig) : Flow → Flow → Prop where
  | broken (response : Rejection) :
      SameButIds rt config (.broken response) (.broken response)
  | continued {ctx ctx' : RequestContext} {message message' : SendMessage}
      (hkey : ctx.continuation.cacheKey = ctx'.continuation.cacheKey)
      (hid : message.messageId = message'.messageId)
      (hheaders : message.headers = message'.headers)
      (hbody : ∀ path : List PathStep,
        (∀ place ∈ Input.places config.binding .taskId, ¬ Meets path place) →
        (∀ place ∈ Input.places config.binding .contextId, ¬ Meets path place) →
        (frameBody config.binding message.messageId message.params).walk path =
          (frameBody config.binding message'.messageId message'.params).walk path) :
      SameButIds rt config (.continued ctx message) (.continued ctx' message')

omit [DecidableEq τ] in
/-- Sends of one prompt differ in their ids only. -/
theorem sameButIds_forward (req : HttpRequest) (prompt : String)
    {rc rc' : RequestContinuation} (hkey : rc.cacheKey = rc'.cacheKey) :
    SameButIds rt config (forward rt config req prompt rc)
      (forward rt config req prompt rc') := by
  unfold forward
  split
  · refine .continued hkey rfl rfl ?_
    intro path htask hcontext
    have hshared : ∀ input : Input,
        (∃ place ∈ input.places config.binding, Meets path place) →
        input.Shared (sendOf rt config req prompt rc.continuation)
          (sendOf rt config req prompt rc'.continuation) := by
      rintro input ⟨place, hplace, hmeets⟩
      cases input with
      | taskId => exact absurd hmeets (htask place hplace)
      | contextId => exact absurd hmeets (hcontext place hplace)
      | prompt => rfl
      | messageId => rfl
      | configuration => rfl
      | metadata => rfl
    exact walk_body hshared
  · exact .broken _

/-- **The storage decides the ids of a send, and nothing else.**  Take any two
runs of the policy, on any two stores, with any interleavings, failures and
removals.  Two filters of the same request end alike: both reject it in the same
way, or both forward it, under the same key, with the same message id, the same
headers and a body that differs at most where it holds the ids.  Two filters of
the same response give the caller the same headers and the same body. -/
theorem storage_decides_ids {τ' : Type} [DecidableEq τ']
    {mayFault mayFault' : TurnCall → Bool} {s₀ : Entries τ} {s₀' : Entries τ'}
    {acts : List (TurnAction τ)} {acts' : List (TurnAction τ')} {s : TurnPool τ}
    {s' : TurnPool τ'}
    (hr : Run (turnServer τ rt config mayFault) (Pool.fresh s₀) acts s)
    (hr' : Run (turnServer τ' rt config mayFault') (Pool.fresh s₀') acts' s') :
    (∀ i j req clock clock' flow flow',
      outcome (s.calls i) = some (.request req clock, .filtered flow) →
      outcome (s'.calls j) = some (.request req clock', .filtered flow') →
      SameButIds rt config flow flow') ∧
    ∀ i j origin origin' ctx ctx' res clock clock' d d',
      outcome (s.calls i) = some (.response origin ctx res clock, .delivered d) →
      outcome (s'.calls j) =
        some (.response origin' ctx' res clock', .delivered d') →
      d.headers = d'.headers ∧ d.body = d'.body := by
  refine ⟨?_, ?_⟩
  · intro i j req clock clock' flow flow' h h'
    have hends : ((TurnCall.request req clock).code rt config :
      Storage τ TurnReply).Ends (.filtered flow) := ends_of_run hr h
    have hends' : ((TurnCall.request req clock').code rt config :
      Storage τ' TurnReply).Ends (.filtered flow') := ends_of_run hr' h'
    rcases ends_request_cases hends with ⟨hnone, rfl⟩ | ⟨prompt, rc, hp, hkey, rfl⟩
    · rcases ends_request_cases hends' with ⟨_, rfl⟩ | ⟨prompt', _, hp', _, _⟩
      · exact .broken _
      · rw [hnone] at hp'
        cases hp'
    · rcases ends_request_cases hends' with ⟨hnone, _⟩ | ⟨prompt', rc', hp', hkey', rfl⟩
      · rw [hp] at hnone
        cases hnone
      · rw [hp] at hp'
        cases hp'
        exact sameButIds_forward req prompt (hkey.trans hkey'.symm)
  · intro i j origin origin' ctx ctx' res clock clock' d d' h h'
    have hends : ((TurnCall.response origin ctx res clock).code rt config :
      Storage τ TurnReply).Ends (.delivered d) := ends_of_run hr h
    have hends' : ((TurnCall.response origin' ctx' res clock').code rt config :
      Storage τ' TurnReply).Ends (.delivered d') := ends_of_run hr' h'
    obtain ⟨persisted, rfl⟩ := ends_response_cases hends
    obtain ⟨persisted', rfl⟩ := ends_response_cases hends'
    exact delivery_congr (some ctx) (some ctx') rfl res persisted persisted'

/-- The send of `secondSend`, and the same request with nothing stored. -/
theorem storage_decides_ids_secondSend :
    let next := sampleTurn workingText 3 4
    let key := CacheKey.fromHashed sampleRuntime "k"
    SameButIds sampleRuntime (sampleConfig true)
      (forward sampleRuntime (sampleConfig true) next.request "hello"
        (cached key (some ⟨some "t", some "c"⟩)))
      (forward sampleRuntime (sampleConfig true) next.request "hello"
        (cached key none)) := by
  intro next key
  have hr := run_exec (turnServer Nat sampleRuntime (sampleConfig true) fun _ => false)
    (Pool.fresh VStore.empty) Provenance.secondSend (by decide)
  have hr' := run_exec (turnServer Nat sampleRuntime (sampleConfig true) fun _ => false)
    (Pool.fresh VStore.empty)
    [.invoke 0 (.request next.request next.requestClock), .access 0 1] (by decide)
  exact (storage_decides_ids hr hr').1 2 0 next.request next.requestClock
    next.requestClock _ _ rfl rfl

end RestToA2a.Policy.TurnOutcome
