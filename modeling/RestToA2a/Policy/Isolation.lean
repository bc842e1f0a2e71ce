import RestToA2a.Policy.CacheFootprint
import RestToA2a.Policy.Provenance

/-!
# A conversation on its own

Take the filters of one conversation out of any run of the policy.  What is left
is a run again, in which each of these filters does what it did: the other
conversations, their failures and their removals by the backend cannot be told
from inside.
-/

namespace RestToA2a.Policy.Isolation

open RestToA2a.Verified.VersionedStore
open RestToA2a.Verified.StorageProgram
open RestToA2a.Verified.ProgramPool
open RestToA2a.Verified.Linearizable
open RestToA2a.Verified.Footprint
open RestToA2a.Policy.Serde
open RestToA2a.Policy.Cache
open RestToA2a.Policy.Cache.ConversationStore
open RestToA2a.Policy.CacheSteps
open RestToA2a.Policy.Continuation
open RestToA2a.Policy.Gateway
open RestToA2a.Policy.ConfigMap
open RestToA2a.Policy.Filter
open RestToA2a.Policy.Turns
open RestToA2a.Policy.TurnServer
open RestToA2a.Policy.CacheFootprint
open RestToA2a.Policy.Provenance

variable {τ : Type} {rt : Runtime} {config : PolicyConfig}

/-- The filter works for the conversation of this key. -/
def ofConversation (rt : Runtime) (config : PolicyConfig) (key : CacheKey)
    (c : TurnCall) : Bool :=
  decide (keyOf rt config c = some key)

theorem ofConversation_iff {key : CacheKey} {c : TurnCall} :
    ofConversation rt config key c = true ↔ keyOf rt config c = some key :=
  decide_eq_true_iff

/-- The storage key of the conversation. -/
def itsKey (key : CacheKey) (k : String) : Bool := decide (k = key.asStr)

/-! ## The key a request filter leaves -/

theorem ends_requestContinuation {req : HttpRequest} {nowMillis : Nat}
    {rc : RequestContinuation}
    (h : (requestContinuation (τ := τ) rt config config.usesCache req
      nowMillis).Ends rc) :
    rc.cacheKey = requestKey rt config req := by
  unfold requestContinuation at h
  unfold requestKey
  cases hmode : config.continuationMode with
  | cache =>
      have hcache : config.usesCache = true := by simp [PolicyConfig.usesCache, hmode]
      simp only [hmode, hcache, if_true] at h ⊢
      cases hv : conversationValue config req with
      | none =>
          rw [hv] at h
          cases h
          rfl
      | some v =>
          rw [hv] at h
          obtain ⟨d, _, rfl⟩ := Prog.ends_map h
          rfl
  | explicit =>
      have hcache : config.usesCache = false := by simp [PolicyConfig.usesCache, hmode]
      simp only [hmode] at h
      cases h
      simp [hcache, resolveExplicit]
  | none =>
      have hcache : config.usesCache = false := by simp [PolicyConfig.usesCache, hmode]
      simp only [hmode] at h
      cases h
      simp [hcache]

/-- Whatever the storage answers, a request that goes on leaves the key of its
conversation for the response. -/
theorem key_of_forwarded {req : HttpRequest} {clock : Clock} {ctx : RequestContext}
    {message : SendMessage}
    (h : ((TurnCall.request req clock).code rt config : Storage τ TurnReply).Ends
      (.filtered (.continued ctx message))) :
    ctx.continuation.cacheKey = requestKey rt config req := by
  obtain ⟨flow, hflow, hreply⟩ := Prog.ends_map h
  cases hreply
  unfold requestFilter at hflow
  split at hflow
  · cases hflow
  · obtain ⟨rc, hrc, hforward⟩ := Prog.ends_map hflow
    rw [(forward_eq_continued hforward).1]
    exact ends_requestContinuation hrc

/-! ## One conversation of a run -/

/-- Every request that has gone on left the key of its conversation. -/
def KeysLeft (rt : Runtime) (config : PolicyConfig)
    (calls : Nat → Phase TurnCall String ConversationEntry τ TurnReply) : Prop :=
  ∀ i req clock ctx message,
    calls i = .returned (.request req clock) (.filtered (.continued ctx message)) →
    ctx.continuation.cacheKey = requestKey rt config req

/-- The filters of one conversation keep to its key, the others away from it,
and a response is only waited for by its own request. -/
theorem splits (rt : Runtime) (config : PolicyConfig) (mayFault : TurnCall → Bool)
    (key : CacheKey) :
    Splits (turnServer τ rt config mayFault) (ofConversation rt config key)
      (itsKey key) (KeysLeft rt config) where
  keepsTo := by
    intro c hc
    refine Every.mono (fun a ha => ?_) (every_turnCode rt config c)
    obtain ⟨own, hown, ha⟩ := ha
    have hkey : keyOf rt config c = some key := ofConversation_iff.mp hc
    rw [hkey] at hown
    cases hown
    simpa [itsKey] using ha.key_eq
  avoids := by
    intro c hc
    refine Every.mono (fun a ha => ?_) (every_turnCode rt config c)
    obtain ⟨own, hown, ha⟩ := ha
    have hkey : keyOf rt config c ≠ some key := by simpa [ofConversation] using hc
    simp only [itsKey, decide_eq_false_iff_not, ha.key_eq]
    intro heq
    apply hkey
    rw [hown, CacheKey.ext heq]
  enabled := by
    intro calls calls' c hleft hc hsame henabled
    cases c with
    | request req clock => rfl
    | response origin ctx res clock =>
        obtain ⟨req, requestClock, message, horigin⟩ :=
          origin_of_forwardedWith henabled
        have hkey : ctx.continuation.cacheKey = some key := ofConversation_iff.mp hc
        have hmine : ofConversation rt config key (.request req requestClock) = true := by
          have hrequest := hleft origin req requestClock ctx message horigin
          exact ofConversation_iff.mpr (hrequest.symm.trans hkey)
        have hphase := hsame origin (.request req requestClock)
          (by rw [horigin]; rfl) hmine
        show forwardedWith calls' origin ctx = true
        rw [forwardedWith, hphase, horigin]
        simp

variable [DecidableEq τ]

theorem keysLeft_of_run {mayFault : TurnCall → Bool} {s₀ : Entries τ}
    {acts : List (TurnAction τ)} {s : TurnPool τ}
    (hr : Run (turnServer τ rt config mayFault) (Pool.fresh s₀) acts s) :
    KeysLeft rt config s.calls := by
  intro i req clock ctx message hi
  have hends := ends_of_run hr (i := i) (c := .request req clock)
    (r := .filtered (.continued ctx message)) (by rw [hi]; rfl)
  exact key_of_forwarded hends

/-- **A conversation is on its own.**  In every continuation mode, on either
backend, for every run of any number of turns with any interleaving, storage
failures and removals: the actions of the filters of one conversation key, with
the removals of that key, are a run by themselves.  In it each of these filters
is where it was in the whole run, with the same reply; no other filter is there;
and the store holds the same entry at the key, under the same version. -/
theorem conversation_alone (mayFault : TurnCall → Bool) (key : CacheKey)
    {s₀ : Entries τ} {acts : List (TurnAction τ)} {s : TurnPool τ}
    (hr : Run (turnServer τ rt config mayFault) (Pool.fresh s₀) acts s) :
    ∃ q, Run (turnServer τ rt config mayFault) (Pool.fresh s₀)
        (acts.filter (concerns (ofConversation rt config key) (itsKey key) s.calls)) q ∧
      (∀ i c, (s.calls i).call = some c →
        q.calls i = if keyOf rt config c = some key then s.calls i else .idle) ∧
      (∀ i, s.calls i = .idle → q.calls i = .idle) ∧
      q.store.entries key.asStr = s.store.entries key.asStr := by
  obtain ⟨q, hq, hside⟩ := Run.restrict (splits rt config mayFault key)
    (fun hr => keysLeft_of_run hr) hr
  refine ⟨q, hq, ?_, ?_, hside.store.entries (by simp [itsKey])⟩
  · intro i c hc
    rw [hside.calls i]
    by_cases hkey : keyOf rt config c = some key
    · rw [if_pos hkey]
      exact only_of_mine hc (ofConversation_iff.mpr hkey)
    · rw [if_neg hkey]
      exact only_of_other hc (by simpa [ofConversation] using hkey)
  · intro i hi
    rw [hside.calls i, hi]
    rfl

/-- Two conversations, told apart by whether the request has a body. -/
def bodyConfig : PolicyConfig :=
  { sampleConfig false with
    contextKeySelector := some ⟨fun _ payload =>
      .ok (.string (if payload.isEmpty then "k" else "j"))⟩ }

/-- The first request filters of the two, one inside the other. -/
def twoConversations : List (TurnAction Nat) :=
  let first : HttpRequest := ⟨"/rest", [], [], [], true⟩
  let other : HttpRequest := ⟨"/rest", [], [], utf8 "j", true⟩
  [ .invoke 0 (.request first none)
  , .invoke 1 (.request other none)
  , .access 1 1
  , .access 0 2
  , .ret 0
  , .ret 1 ]

theorem conversation_alone_twoConversations :
    ∃ (s q : TurnPool Nat) (acts : List (TurnAction Nat)),
      Run (turnServer Nat sampleRuntime bodyConfig fun _ => false)
        (Pool.fresh VStore.empty) twoConversations s ∧
      Run (turnServer Nat sampleRuntime bodyConfig fun _ => false)
        (Pool.fresh VStore.empty) acts q ∧
      q.calls 0 = s.calls 0 ∧ q.calls 1 = .idle := by
  have hr := run_exec (turnServer Nat sampleRuntime bodyConfig fun _ => false)
    (Pool.fresh VStore.empty) twoConversations (by decide)
  obtain ⟨q, hq, hcalls, _⟩ := conversation_alone (fun _ => false)
    (CacheKey.fromHashed sampleRuntime "k") hr
  refine ⟨_, q, _, hr, hq, ?_, ?_⟩
  · exact (hcalls 0 _ rfl).trans (if_pos (by decide))
  · exact (hcalls 1 _ rfl).trans (if_neg (by decide))

end RestToA2a.Policy.Isolation
