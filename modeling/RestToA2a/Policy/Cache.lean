import RestToA2a.Verified.ProgramPool
import RestToA2a.Policy.A2a

/-!
# The conversation store

`cache.rs`: the ids of a live task under a hashed conversation value.  The
operations are programs over a versioned map, in the order the source makes
its storage calls; the retry loops are recursions on the attempts left.

A remote backend is evicted by writing a tombstone over the entry, a local one
by deleting it.  Reading never writes.
-/

namespace RestToA2a.Policy.Cache

open RestToA2a.Verified
open RestToA2a.Verified.VersionedStore
open RestToA2a.Verified.StorageProgram
open RestToA2a.Policy.Serde
open RestToA2a.Policy.A2a

/-! ## Keys and entries -/

/-- Prefix of every conversation key. -/
def keyPrefix : String := "rest-to-a2a:"

/-- Attempts of a contended state transition. -/
def casMaxRetries : Nat := 3

/-- A conversation key, as the string the storage sees. -/
@[ext]
structure CacheKey where
  asStr : String
deriving DecidableEq

/-- The key of a conversation value: the prefix and the hex digest. -/
def CacheKey.fromHashed (rt : Runtime) (conversationValue : String) : CacheKey :=
  ⟨keyPrefix ++ String.ofList (Hex.render (rt.sha256 (utf8 conversationValue)).toList)⟩

/-- The prefix and the rendering lose nothing: equal keys have equal digests. -/
theorem CacheKey.fromHashed_digest {rt : Runtime} {v w : String}
    (h : (CacheKey.fromHashed rt v).asStr = (CacheKey.fromHashed rt w).asStr) :
    rt.sha256 (utf8 v) = rt.sha256 (utf8 w) := by
  simp only [fromHashed] at h
  have hlist := congrArg String.toList h
  simp only [String.toList_append, String.toList_ofList] at hlist
  have hhex := List.append_cancel_left hlist
  exact Vector.toList_inj.mp (Hex.render_injective hhex)

/-- Lifecycle of an entry; the terminal marker is the tombstone. -/
inductive EntryState where
  | continuable
  | terminal
deriving DecidableEq

/-- A cached continuation. -/
structure ConversationEntry where
  contextId : Option String
  taskId : Option String
  state : EntryState
  expiresAtMillis : Nat
deriving DecidableEq

namespace ConversationEntry

def isContinuable (e : ConversationEntry) : Bool := e.state == .continuable

def isExpired (e : ConversationEntry) (nowMillis : Nat) : Bool :=
  decide (nowMillis ≥ e.expiresAtMillis)

/-- The ids to inject on the next turn. -/
def continuation (e : ConversationEntry) : Continuation :=
  ⟨e.taskId, e.contextId⟩

end ConversationEntry

/-- What the store reports to its caller. -/
inductive CacheError where
  | casConflict
  | storage (debug : String)
deriving DecidableEq

/-- `From<DataStorageError>`. -/
def CacheError.ofStorage : StorageError → CacheError
  | .casMismatch => .casConflict
  | .other debug => .storage debug

/-- The parameters of a store.  The lifetime is a `u32` of seconds in
milliseconds, so it is far below the range of the `u64` that holds it. -/
structure ConversationStore where
  distributed : Bool
  ttlMillis : Nat
  ttl_lt : ttlMillis < 2 ^ 42

/-- `ConversationStore::new`. -/
def ConversationStore.new (distributed : Bool) (ttlSeconds : UInt32) :
    ConversationStore where
  distributed := distributed
  ttlMillis := ttlSeconds.toNat * 1000
  ttl_lt := by
    have := ttlSeconds.toNat_lt
    omega

namespace ConversationStore

variable {τ : Type}

/-- A program over the conversation storage. -/
abbrev Storage (τ α : Type) := Prog String ConversationEntry τ α

/-! ## Operations -/

/-- `now_millis + ttl_millis`, an addition of `u64`. -/
def expiresAt (store : ConversationStore) (nowMillis : Nat) : Nat :=
  (nowMillis + store.ttlMillis) % 2 ^ 64

/-- The entry an upsert writes. -/
def liveEntry (store : ConversationStore) (continuation : Continuation)
    (nowMillis : Nat) : ConversationEntry where
  contextId := continuation.contextId
  taskId := continuation.taskId
  state := .continuable
  expiresAtMillis := store.expiresAt nowMillis

/-- The tombstone an eviction writes. -/
def tombstone (store : ConversationStore) (nowMillis : Nat) : ConversationEntry where
  contextId := none
  taskId := none
  state := .terminal
  expiresAtMillis := store.expiresAt nowMillis

/-- What a read of the entry amounts to. -/
def readable (entry : Option ConversationEntry) (nowMillis : Nat) :
    Option Continuation :=
  match entry with
  | some entry =>
      if entry.isExpired nowMillis || !entry.isContinuable then none
      else some entry.continuation
  | none => none

/-- Read the continuation for a key.  A failed read counts as a missing key. -/
def getContinuation (key : CacheKey) (nowMillis : Nat) :
    Storage τ (Option Continuation) :=
  .get key.asStr fun
    | .ok found => .done (readable (found.map Prod.fst) nowMillis)
    | .error _ => .done none

/-- One write attempt: a mismatch continues with `retry`, another error is
returned. -/
def attempt (key : CacheKey) (mode : StoreMode τ) (entry : ConversationEntry)
    (retry : Storage τ (Except CacheError Unit)) :
    Storage τ (Except CacheError Unit) :=
  .store key.asStr mode entry fun
    | .ok () => .done (.ok ())
    | .error .casMismatch => retry
    | .error (.other debug) => .done (.error (.ofStorage (.other debug)))

/-- The loop of `upsert`, with the attempts it has left. -/
def upsertRetry (key : CacheKey) (entry : ConversationEntry) :
    Nat → Storage τ (Except CacheError Unit)
  | 0 => .done (.error .casConflict)
  | left + 1 =>
      .get key.asStr fun
        | .ok (some (existing, version)) =>
            -- Never overwrite a terminal entry back to live.
            if existing.state = .terminal then .done (.ok ())
            else attempt key (.cas version) entry (upsertRetry key entry left)
        | .ok none =>
            -- Vanished since the failed write: first writer again.
            attempt key .absent entry (upsertRetry key entry left)
        | .error other => .done (.error (.ofStorage other))

/-- Create or update a live entry. -/
def upsert (store : ConversationStore) (key : CacheKey)
    (continuation : Continuation) (nowMillis : Nat) :
    Storage τ (Except CacheError Unit) :=
  let entry := store.liveEntry continuation nowMillis
  attempt key .absent entry (upsertRetry key entry casMaxRetries)

/-- The loop of a distributed `evict`, with the attempts it has left. -/
def evictRetry (key : CacheKey) (tombstone : ConversationEntry) :
    Nat → Storage τ (Except CacheError Unit)
  | 0 => .done (.error .casConflict)
  | left + 1 =>
      .get key.asStr fun
        | .ok (some (existing, version)) =>
            if existing.state = .terminal then .done (.ok ())
            else attempt key (.cas version) tombstone
              (evictRetry key tombstone left)
        | .ok none => .done (.ok ())
        | .error other => .done (.error (.ofStorage other))

/-- Evict the entry of a terminal task. -/
def evict (store : ConversationStore) (key : CacheKey) (nowMillis : Nat) :
    Storage τ (Except CacheError Unit) :=
  if store.distributed then
    evictRetry key (store.tombstone nowMillis) casMaxRetries
  else
    .delete key.asStr fun
      | .ok () => .done (.ok ())
      | .error other => .done (.error (.ofStorage other))

/-- Persist the outcome of a send. -/
def recordOutcome (store : ConversationStore) (key : CacheKey)
    (stateClass : StateClass) (continuation : Continuation) (nowMillis : Nat) :
    Storage τ (Except CacheError Unit) :=
  match stateClass with
  | .continuable => store.upsert key continuation nowMillis
  | .terminal => store.evict key nowMillis
  | .unknown => .done (.ok ())

end ConversationStore

end RestToA2a.Policy.Cache
