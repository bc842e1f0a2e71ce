import RestToA2a.Policy.StoredEntry
import RestToA2a.Policy.TurnOutcome
import RestToA2a.Verified.Standing

/-!
# A value that is no entry

A storage shared with another version of the policy may hold, under the key of a
conversation, a value that does not deserialize, whatever its format.  Reading it
is an error, and on a remote backend every path to a write reads first: an upsert
falls through from its first write to a read, an eviction starts with one.  So the
value stays until the backend removes it, and in the meantime the conversation has
no memory.
-/

namespace RestToA2a.Policy.UndecodableEntry

open RestToA2a.Verified.VersionedStore
open RestToA2a.Verified.StorageProgram
open RestToA2a.Verified.ProgramPool
open RestToA2a.Verified.Linearizable
open RestToA2a.Verified.Footprint
open RestToA2a.Verified.EncodedStore
open RestToA2a.Verified.Standing
open RestToA2a.Policy.Serde
open RestToA2a.Policy.A2a
open RestToA2a.Policy.Binding
open RestToA2a.Policy.Cache
open RestToA2a.Policy.Cache.ConversationStore
open RestToA2a.Policy.CacheCalls
open RestToA2a.Policy.Continuation
open RestToA2a.Policy.Gateway
open RestToA2a.Policy.ConfigMap
open RestToA2a.Policy.Filter
open RestToA2a.Policy.Turns
open RestToA2a.Policy.TurnServer
open RestToA2a.Policy.CacheFootprint
open RestToA2a.Policy.StoredEntry

variable {ω τ : Type} {rt : Runtime} {config : PolicyConfig} {format : EntryCodec ω}
  {key : CacheKey} {w : ω} {t : τ} {debug : String}

/-! ## The operations of the store -/

theorem leaves_getContinuation (hw : format.decode w = .error debug) (nowMillis : Nat) :
    Leaves key.asStr (w, t) (· = none)
      (format.stored (getContinuation key nowMillis)) := by
  refine ⟨rfl, ?_, fun text => ?_⟩
  · simp only [Codec.typed_of_error format hw]
    rfl
  · rfl

/-- The error of a store operation that the backend has failed. -/
def Failed (r : Except CacheError Unit) : Prop := ∃ text, r = .error (.storage text)

theorem leaves_attempt (entry : ConversationEntry)
    {retry : Storage τ (Except CacheError Unit)}
    (h : Leaves key.asStr (w, t) Failed (format.stored retry)) :
    Leaves key.asStr (w, t) Failed
      (format.stored (attempt key .absent entry retry)) := by
  refine ⟨rfl, by simp, h, fun text => ?_⟩
  exact ⟨text, rfl⟩

theorem leaves_upsertRetry (hw : format.decode w = .error debug)
    (entry : ConversationEntry) (left : Nat) :
    Leaves key.asStr (w, t) Failed
      (format.stored (upsertRetry key entry (left + 1))) := by
  refine ⟨rfl, ?_, fun text => ?_⟩
  · simp only [Codec.typed_of_error format hw]
    exact ⟨debug, rfl⟩
  · exact ⟨text, rfl⟩

theorem leaves_evictRetry (hw : format.decode w = .error debug)
    (tombstone : ConversationEntry) (left : Nat) :
    Leaves key.asStr (w, t) Failed
      (format.stored (evictRetry key tombstone (left + 1))) := by
  refine ⟨rfl, ?_, fun text => ?_⟩
  · simp only [Codec.typed_of_error format hw]
    exact ⟨debug, rfl⟩
  · exact ⟨text, rfl⟩

/-- No outcome replaces the value, and only one with nothing to do succeeds. -/
theorem leaves_recordOutcome (hw : format.decode w = .error debug)
    {store : ConversationStore} (hdistributed : store.distributed = true)
    (stateClass : StateClass) (continuation : Continuation) (nowMillis : Nat) :
    Leaves key.asStr (w, t) (fun r => stateClass ≠ .unknown → Failed r)
      (format.stored
        (store.recordOutcome key stateClass continuation nowMillis)) := by
  cases stateClass with
  | unknown => exact fun h => absurd rfl h
  | continuable =>
      refine Leaves.mono (fun r hr _ => hr) (leaves_attempt _ ?_)
      exact leaves_upsertRetry hw _ _
  | terminal =>
      refine Leaves.mono (fun r hr _ => hr) ?_
      simp only [recordOutcome, evict, hdistributed, if_true]
      exact leaves_evictRetry hw _ _

/-! ## The filters -/

/-- The conversation has no memory: a send carries no ids, and a reply that is to
be kept, or forgotten, is not. -/
def Forgetful (rt : Runtime) (config : PolicyConfig) : TurnCall → TurnReply → Prop
  | .request _ _, .filtered flow =>
      ∀ ctx message, flow = .continued ctx message →
        sentIds message.params = (none, none)
  | .response _ _ res _, .delivered d =>
      ∀ result, isEventStream res.headers = false →
        (parseResponse rt config.binding res.body).result = some result →
        (parseResult result).class ≠ .unknown →
        ∃ text, .persistFailed (.storage text) ∈ d.warnings
  | _, _ => False

theorem leaves_request (hmode : config.continuationMode = .cache)
    (hw : format.decode w = .error debug) {req : HttpRequest} {clock : Clock}
    (hkey : keyOf rt config (.request req clock) = some key) :
    Leaves key.asStr (w, t) (Forgetful rt config (.request req clock))
      (format.stored ((TurnCall.request req clock).code rt config)) := by
  have hcache : config.usesCache = true := by simp [PolicyConfig.usesCache, hmode]
  simp only [keyOf, requestKey, hcache, if_true, Option.map_eq_some_iff] at hkey
  obtain ⟨v, hv, rfl⟩ := hkey
  rcases code_request (τ := τ) rt hmode req clock with
    ⟨flow, hdone, hnone⟩ | ⟨c, f, hinner, hcode⟩
  · rw [hdone]
    intro ctx message hflow
    rw [(hnone ctx message hflow).1] at hv
    cases hv
  · cases hinner with
    | @lookup _ _ prompt v' hp hv' =>
        rw [hv] at hv'
        cases hv'
        rw [hcode]
        simp only [StoreCall.code, Codec.stored_map]
        refine leaves_map (leaves_map (Leaves.mono ?_ (leaves_getContinuation hw _)))
        rintro found rfl ctx message hflow
        exact (forward_eq_continued hflow).2

theorem leaves_response (hmode : config.continuationMode = .cache)
    (hdistributed : config.distributed = true) (hw : format.decode w = .error debug)
    {origin : Nat} {ctx : RequestContext} {res : HttpResponse} {clock : Clock}
    (hkey : ctx.continuation.cacheKey = some key) :
    Leaves key.asStr (w, t) (Forgetful rt config (.response origin ctx res clock))
      (format.stored
        ((TurnCall.response origin ctx res clock).code rt config)) := by
  have hcache : config.usesCache = true := by simp [PolicyConfig.usesCache, hmode]
  simp only [TurnCall.code, responseFilter]
  cases hes : isEventStream res.headers with
  | true =>
      intro result hno
      rw [hes] at hno
      cases hno
  | false =>
      cases hresult : (parseResponse rt config.binding res.body).result with
      | none =>
          intro result _ hno
          rw [hresult] at hno
          cases hno
      | some result =>
          simp only [Bool.false_eq_true, if_false, persistReply, hcache, if_true,
            persistOutcome, hkey, Codec.stored_map]
          refine leaves_map (leaves_map (leaves_map (Leaves.mono ?_
            (leaves_recordOutcome hw hdistributed _ _ _))))
          intro r hr result' _ hsome hclass
          rw [hresult] at hsome
          cases hsome
          obtain ⟨text, rfl⟩ := hr hclass
          exact ⟨text, by simp [deliver, persistWarnings]⟩

/-- Each filter spares the value, and those of the conversation are forgetful. -/
theorem spares (hmode : config.continuationMode = .cache)
    (hdistributed : config.distributed = true) (hw : format.decode w = .error debug)
    (mayFault : TurnCall → Bool) (c : TurnCall) :
    Spares key.asStr (w, t) (fun c => keyOf rt config c = some key)
      (Forgetful rt config) c ((storedServer τ rt format config mayFault).code c) where
  leaves := by
    intro hkey
    cases c with
    | request req clock => exact leaves_request hmode hw hkey
    | response origin ctx res clock => exact leaves_response hmode hdistributed hw hkey
  apart := by
    intro hother
    have hapart : Apart key.asStr (c.code rt config : Storage τ TurnReply) := by
      refine Every.mono (fun a ha => ?_) (every_turnCode rt config c)
      obtain ⟨key', hkey', hown⟩ := ha
      intro hsame
      have heq : key' = key := CacheKey.ext (hown.key_eq.symm.trans hsame)
      exact hother (heq ▸ hkey')
    exact format.every_stored (· ≠ key.asStr) hapart

variable [DecidableEq τ]

/-- **What cannot be read is not replaced.**  Let the storage of a distributed
policy hold entries in any format that gives back those the struct can hold, and
under the key of a conversation a value that this format does not decode.  In every
run in which the backend does not remove it, with any interleaving of any number
of turns and any failures, the key holds the same value under the same version;
every send of the conversation carries no ids; and each reply of it that is
continuable or terminal is logged as one that could not be persisted. -/
theorem undecodable_stands (hmode : config.continuationMode = .cache)
    (hdistributed : config.distributed = true) {mayFault : TurnCall → Bool}
    {s₀ : VStore String ω τ} (hheld : s₀.entries key.asStr = some (w, t))
    (hw : format.decode w = .error debug) {acts : List (TurnAction τ)}
    {s : StoredPool ω τ}
    (hr : Run (storedServer τ rt format config mayFault) (Pool.fresh s₀) acts s)
    (hkeep : .reclaim key.asStr ∉ acts) :
    s.store.entries key.asStr = some (w, t) ∧
      ∀ i c r, outcome (s.calls i) = some (c, r) → keyOf rt config c = some key →
        Forgetful rt config c r :=
  stands_of_run (spares hmode hdistributed hw mayFault) hr hheld hkeep

/-- An entry in a state this version of the policy does not know, as JSON. -/
def foreignEntry : Json :=
  .obj [("expires_at_millis", .num (.int 9000)), ("state", .str "Paused")]

/-- The storage of the tests with that entry. -/
def foreignStore : VStore String Json Nat :=
  VStore.empty.write (CacheKey.fromHashed sampleRuntime "k").asStr foreignEntry 1

theorem undecodable_stands_working :
    ∃ (s : StoredPool Json Nat) (d : Delivered),
      s.store.entries (CacheKey.fromHashed sampleRuntime "k").asStr =
        some (foreignEntry, 1) ∧
      (∃ c, outcome (s.calls 1) = some (c, .delivered d)) ∧
      ∃ text, .persistFailed (.storage text) ∈ d.warnings := by
  let turn := sampleTurn workingText 1 2
  let ctx : RequestContext := ⟨cached (CacheKey.fromHashed sampleRuntime "k") none⟩
  let format := mockCodec fun _ => "unknown variant"
  have hr := run_exec (storedServer Nat sampleRuntime format (sampleConfig true)
      fun _ => false)
    (Pool.fresh foreignStore)
    [ .invoke 0 (.request turn.request turn.requestClock), .access 0 2, .ret 0
    , .invoke 1 (.response 0 ctx turn.response turn.responseClock), .access 1 2
    , .access 1 2, .ret 1 ] (by decide)
  have hheld : foreignStore.entries (CacheKey.fromHashed sampleRuntime "k").asStr =
      some (foreignEntry, 1) := by simp [foreignStore]
  have hw : format.decode foreignEntry = .error "unknown variant" := by rfl
  obtain ⟨hentry, hends⟩ := undecodable_stands rfl rfl hheld hw hr (by simp)
  have hforgetful := hends 1 _ _ rfl rfl
  exact ⟨_, _, hentry, ⟨_, rfl⟩, hforgetful _ rfl rfl (by decide)⟩

end RestToA2a.Policy.UndecodableEntry
