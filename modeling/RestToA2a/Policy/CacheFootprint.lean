import RestToA2a.Policy.TurnServer
import RestToA2a.Verified.Footprint

/-!
# What the store operations touch

Every access an operation of the store can make is to the key it was given, what
it writes runs out when the store says, and it deletes on a local backend only.
The filters inherit this: each touches the key of its own conversation, or
nothing.
-/

namespace RestToA2a.Policy.CacheFootprint

open RestToA2a.Verified.VersionedStore
open RestToA2a.Verified.StorageProgram
open RestToA2a.Verified.Footprint
open RestToA2a.Policy.Serde
open RestToA2a.Policy.A2a
open RestToA2a.Policy.Binding
open RestToA2a.Policy.Cache
open RestToA2a.Policy.Cache.ConversationStore
open RestToA2a.Policy.Continuation
open RestToA2a.Policy.Gateway
open RestToA2a.Policy.ConfigMap
open RestToA2a.Policy.Filter
open RestToA2a.Policy.TurnServer

variable {τ : Type}

/-- What an operation on `key` at `nowMillis` may do. -/
def OwnAccess (store : ConversationStore) (key : CacheKey) (nowMillis : Nat) :
    Access String ConversationEntry τ → Prop
  | .get k => k = key.asStr
  | .store k _ entry =>
      k = key.asStr ∧ entry.expiresAtMillis = store.expiresAt nowMillis
  | .delete k => k = key.asStr ∧ store.distributed = false

theorem OwnAccess.key_eq {store : ConversationStore} {key : CacheKey}
    {nowMillis : Nat} {a : Access String ConversationEntry τ}
    (h : OwnAccess store key nowMillis a) : a.key = key.asStr := by
  cases a with
  | get k => exact h
  | store k mode entry => exact h.1
  | delete k => exact h.1

/-! ## The operations -/

section Operations

variable {P : Access String ConversationEntry τ → Prop} {key : CacheKey}
  {entry : ConversationEntry}

theorem every_attempt {mode : StoreMode τ} (hstore : P (.store key.asStr mode entry))
    {retry : Storage τ (Except CacheError Unit)} (h : Every P retry) :
    Every P (attempt key mode entry retry) := by
  refine ⟨hstore, fun r => ?_⟩
  match r with
  | .ok () => trivial
  | .error .casMismatch => exact h
  | .error (.other debug) => trivial

theorem every_upsertRetry (hget : P (.get key.asStr))
    (hstore : ∀ mode, P (.store key.asStr mode entry)) (left : Nat) :
    Every P (upsertRetry key entry left : Storage τ (Except CacheError Unit)) := by
  induction left with
  | zero => trivial
  | succ left ih =>
      refine ⟨hget, fun r => ?_⟩
      match r with
      | .ok (some (existing, version)) =>
          show Every P (if existing.state = .terminal then _ else _)
          split
          · trivial
          · exact every_attempt (hstore _) ih
      | .ok none => exact every_attempt (hstore _) ih
      | .error other => trivial

theorem every_evictRetry (hget : P (.get key.asStr))
    (hstore : ∀ mode, P (.store key.asStr mode entry)) (left : Nat) :
    Every P (evictRetry key entry left : Storage τ (Except CacheError Unit)) := by
  induction left with
  | zero => trivial
  | succ left ih =>
      refine ⟨hget, fun r => ?_⟩
      match r with
      | .ok (some (existing, version)) =>
          show Every P (if existing.state = .terminal then _ else _)
          split
          · trivial
          · exact every_attempt (hstore _) ih
      | .ok none => trivial
      | .error other => trivial

variable (store : ConversationStore) (nowMillis : Nat)

/-- An eviction writes a tombstone on a remote backend, and deletes on a local
one. -/
theorem every_evict (hget : P (.get key.asStr))
    (hstore : store.distributed = true →
      ∀ mode, P (.store key.asStr mode (store.tombstone nowMillis)))
    (hdelete : store.distributed = false → P (.delete key.asStr)) :
    Every P (store.evict key nowMillis : Storage τ (Except CacheError Unit)) := by
  unfold evict
  split
  · rename_i hd
    exact every_evictRetry hget (hstore hd) _
  · rename_i hd
    refine ⟨hdelete (by simpa using hd), fun r => ?_⟩
    match r with
    | .ok () => trivial
    | .error other => trivial

/-- An outcome writes a live entry if it is continuable, and evicts if it is
terminal. -/
theorem every_recordOutcome (stateClass : StateClass) (continuation : Continuation)
    (hget : P (.get key.asStr))
    (hlive : stateClass = .continuable →
      ∀ mode, P (.store key.asStr mode (store.liveEntry continuation nowMillis)))
    (htombstone : stateClass = .terminal → store.distributed = true →
      ∀ mode, P (.store key.asStr mode (store.tombstone nowMillis)))
    (hdelete : stateClass = .terminal → store.distributed = false →
      P (.delete key.asStr)) :
    Every P (store.recordOutcome key stateClass continuation nowMillis :
      Storage τ (Except CacheError Unit)) := by
  cases stateClass with
  | continuable =>
      exact every_attempt (hlive rfl _) (every_upsertRetry hget (hlive rfl) _)
  | terminal => exact every_evict store nowMillis hget (htombstone rfl) (hdelete rfl)
  | unknown => trivial

theorem every_getContinuation (hget : P (.get key.asStr)) :
    Every P (getContinuation key nowMillis : Storage τ (Option Continuation)) := by
  refine ⟨hget, fun r => ?_⟩
  match r with
  | .ok found => trivial
  | .error other => trivial

end Operations

/-! ## The filters -/

/-- The key a request is looked up under. -/
def requestKey (rt : Runtime) (config : PolicyConfig) (request : HttpRequest) :
    Option CacheKey :=
  if config.usesCache then
    (conversationValue config request).map (CacheKey.fromHashed rt)
  else none

/-- The key of the conversation a filter works for. -/
def keyOf (rt : Runtime) (config : PolicyConfig) : TurnCall → Option CacheKey
  | .request req _ => requestKey rt config req
  | .response _ ctx _ _ => ctx.continuation.cacheKey

/-- The clock a filter reads. -/
def clockOf : TurnCall → Clock
  | .request _ clock => clock
  | .response _ _ _ clock => clock

/-- What a filter may do. -/
def FilterAccess (rt : Runtime) (config : PolicyConfig) (c : TurnCall)
    (a : Access String ConversationEntry τ) : Prop :=
  ∃ key, keyOf rt config c = some key ∧
    OwnAccess (conversationStore config) key (nowMillis (clockOf c)) a

theorem every_requestContinuation {P : Access String ConversationEntry τ → Prop}
    (rt : Runtime) (config : PolicyConfig) (req : HttpRequest) (clock : Clock)
    (hget : ∀ key, keyOf rt config (.request req clock) = some key →
      P (.get key.asStr)) :
    Every P (requestContinuation rt config config.usesCache req (nowMillis clock) :
      Storage τ RequestContinuation) := by
  unfold requestContinuation
  cases hmode : config.continuationMode with
  | explicit => trivial
  | none => trivial
  | cache =>
      have hcache : config.usesCache = true := by simp [PolicyConfig.usesCache, hmode]
      simp only [hcache, if_true]
      cases hv : conversationValue config req with
      | none => trivial
      | some v =>
          refine every_map (every_getContinuation _ (hget _ ?_))
          simp [keyOf, requestKey, hcache, hv]

/-- **What a filter can do to the storage.**  It looks its key up; and for a reply
that is no event stream it does what the outcome of the reply asks for. -/
theorem every_code {P : Access String ConversationEntry τ → Prop} (rt : Runtime)
    (config : PolicyConfig) (c : TurnCall)
    (hget : ∀ key, keyOf rt config c = some key → P (.get key.asStr))
    (hrecord : ∀ origin ctx res clock result key, c = .response origin ctx res clock →
      isEventStream res.headers = false →
      (parseResponse rt config.binding res.body).result = some result →
      ctx.continuation.cacheKey = some key →
      Every P ((conversationStore config).recordOutcome key (parseResult result).class
        (parseResult result).continuation (nowMillis clock))) :
    Every P (TurnCall.code rt config c : Storage τ TurnReply) := by
  cases c with
  | request req clock =>
      refine every_map ?_
      unfold requestFilter
      split
      · trivial
      · exact every_map (every_requestContinuation rt config req clock hget)
  | response origin ctx res clock =>
      refine every_map ?_
      simp only [responseFilter]
      split
      · trivial
      · rename_i hes
        refine every_map ?_
        unfold persistReply
        split
        · trivial
        · rename_i result hresult
          split
          · refine every_map ?_
            unfold persistOutcome
            split
            · trivial
            · rename_i key hkey
              exact hrecord origin ctx res clock result key rfl (by simpa using hes)
                hresult hkey
          · trivial

/-- **Each filter touches the key of its own conversation only.** -/
theorem every_turnCode (rt : Runtime) (config : PolicyConfig) (c : TurnCall) :
    Every (FilterAccess rt config c)
      (TurnCall.code rt config c : Storage τ TurnReply) := by
  refine every_code rt config c (fun key hkey => ⟨key, hkey, rfl⟩) ?_
  rintro origin ctx res clock result key rfl _ _ hkey
  exact every_recordOutcome _ _ _ _ ⟨key, hkey, rfl⟩
    (fun _ _ => ⟨key, hkey, rfl, rfl⟩) (fun _ _ _ => ⟨key, hkey, rfl, rfl⟩)
    (fun _ hlocal => ⟨key, hkey, rfl, hlocal⟩)

end RestToA2a.Policy.CacheFootprint
