import RestToA2a.Policy.CacheSequential

/-!
# Continuation routing

`continuation.rs`: from the selected conversation value or client ids to the
ids of a send, and from the reply back to the store.
-/

namespace RestToA2a.Policy.Continuation

open RestToA2a.Verified.VersionedStore
open RestToA2a.Verified.StorageProgram
open RestToA2a.Policy.Serde
open RestToA2a.Policy.A2a
open RestToA2a.Policy.Cache
open RestToA2a.Policy.Cache.ConversationStore
open RestToA2a.Policy.CacheSteps
open RestToA2a.Policy.CacheCalls
open RestToA2a.Policy.CacheSequential

/-- The continuation of a request, with the key to persist the reply under. -/
structure RequestContinuation where
  continuation : Continuation := {}
  cacheKey : Option CacheKey := none
  hadContinuationId : Bool := false
deriving DecidableEq

/-- A continuable reply can be picked up by a later turn. -/
def RequestContinuation.isResumable (r : RequestContinuation) : Bool :=
  r.cacheKey.isSome || r.hadContinuationId

/-- The continuation of a cache-mode request under `key`, from what a lookup
found. -/
def cached (key : CacheKey) (found : Option Continuation) : RequestContinuation :=
  let continuation := found.getD {}
  { continuation
    cacheKey := some key
    hadContinuationId := !continuation.isEmpty }

variable {τ : Type}

/-- Resolve the continuation of a request in cache mode. -/
def resolveCache (rt : Runtime) (conversationValue : Option String)
    (nowMillis : Nat) : Storage τ RequestContinuation :=
  match conversationValue with
  | none => .done {}
  | some value =>
      let key := CacheKey.fromHashed rt value
      (getContinuation key nowMillis).map (cached key)

/-- Resolve the continuation of a request in explicit mode. -/
def resolveExplicit (taskId contextId : Option String) : RequestContinuation :=
  let continuation : Continuation := ⟨taskId, contextId⟩
  { continuation
    cacheKey := none
    hadContinuationId := !continuation.isEmpty }

/-- Persist the outcome of a reply under the key of its request. -/
def persistOutcome (store : ConversationStore) (request : RequestContinuation)
    (stateClass : StateClass) (responseContinuation : Continuation)
    (nowMillis : Nat) : Storage τ (Except CacheError Unit) :=
  match request.cacheKey with
  | none => .done (.ok ())
  | some key =>
      store.recordOutcome key stateClass responseContinuation nowMillis

/-- The reply wants to go on but no later turn can pick it up. -/
def isUnresumableContinuable (request : RequestContinuation)
    (stateClass : StateClass) : Bool :=
  stateClass == .continuable && !request.isResumable

/-! ## Run alone -/

variable [DecidableEq τ]

theorem run_resolveCache (m : Mint String ConversationEntry τ) (rt : Runtime)
    (value : String) (nowMillis : Nat) (s : Entries τ) :
    (resolveCache rt (some value) nowMillis).run m s =
      (cached (CacheKey.fromHashed rt value) (readable
        (s.contents (CacheKey.fromHashed rt value).asStr) nowMillis), s) := by
  simp only [resolveCache, Prog.run_map, run_getContinuation]

/-- What persisting a reply does to the abstract store. -/
def persisted (store : ConversationStore) (request : RequestContinuation)
    (stateClass : StateClass) (responseContinuation : Continuation)
    (nowMillis : Nat) (a : Conversations) : Conversations :=
  match request.cacheKey with
  | none => a
  | some key =>
      effect store (.recordOutcome key stateClass responseContinuation nowMillis) a

theorem run_persistOutcome (m : Mint String ConversationEntry τ)
    (store : ConversationStore) (request : RequestContinuation)
    (stateClass : StateClass) (responseContinuation : Continuation)
    (nowMillis : Nat) (s : Entries τ) :
    ∃ s', (persistOutcome store request stateClass responseContinuation
        nowMillis).run m s = (.ok (), s') ∧
      s'.contents = persisted store request stateClass responseContinuation
        nowMillis s.contents := by
  cases hk : request.cacheKey with
  | none =>
      simp only [persistOutcome, persisted, hk]
      exact ⟨s, rfl, rfl⟩
  | some key =>
      simp only [persistOutcome, persisted, hk]
      exact run_recordOutcome m store key stateClass responseContinuation nowMillis s

end RestToA2a.Policy.Continuation
