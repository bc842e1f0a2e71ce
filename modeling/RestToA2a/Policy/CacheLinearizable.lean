import RestToA2a.Policy.CacheCalls
import RestToA2a.Verified.Linearizable

/-!
# The store is linearizable

The retry loops of the store, under any interference, amount to one atomic
rewrite of the entry of one key.  The instant is the last access of the call:
a successful write, the read that finds a tombstone or nothing to evict, the
local delete, or the read of a lookup.  What the loop read earlier still holds
there because a write only succeeds at the version that was read.
-/

namespace RestToA2a.Policy.CacheLinearizable

open RestToA2a.Verified.VersionedStore
open RestToA2a.Verified.StorageProgram
open RestToA2a.Verified.ProgramPool
open RestToA2a.Verified.Linearizable
open RestToA2a.Policy.A2a
open RestToA2a.Policy.Cache
open RestToA2a.Policy.Cache.ConversationStore
open RestToA2a.Policy.CacheSteps
open RestToA2a.Policy.CacheCalls

/-- What a removal by the backend does to the abstract store. -/
def forget (k : String) (a : Conversations) : Conversations :=
  Function.update a k none

/-- An entry that is there after a removal was there before. -/
theorem entry_of_forget {a : Conversations} {k k' : String} {e : ConversationEntry}
    (h : forget k' a k = some e) : a k = some e := by
  by_cases hk : k = k'
  · simp [forget, hk] at h
  · simpa [forget, hk] using h

variable {τ : Type}

/-- Only an unknown outcome ends without touching the storage. -/
private theorem code_eq_done {store : ConversationStore} {c : StoreCall}
    {r : StoreReply} (h : (c.code store : Storage τ StoreReply) = .done r) :
    ∃ key continuation nowMillis,
      c = .recordOutcome key .unknown continuation nowMillis ∧
        r = .recorded (.ok ()) := by
  cases c with
  | recordOutcome key stateClass continuation nowMillis =>
      cases stateClass with
      | continuable => cases h
      | terminal =>
          cases hd : store.distributed <;>
            simp [StoreCall.code, recordOutcome, ConversationStore.evict, hd,
              casMaxRetries, evictRetry, Prog.map] at h
      | unknown =>
          cases h
          exact ⟨key, continuation, nowMillis, rfl, rfl⟩
  | getContinuation key nowMillis => cases h

/-- The specification over a backend whose reads may fail as well: a lookup may
find nothing whatever is there. -/
inductive LossySpec (store : ConversationStore) :
    StoreCall → Conversations → StoreReply → Conversations → Prop where
  | sound {c : StoreCall} {a a' : Conversations} {r : StoreReply}
      (h : Spec store c a r a') : LossySpec store c a r a'
  | unread (key : CacheKey) (nowMillis : Nat) (a : Conversations) :
      LossySpec store (.getContinuation key nowMillis) a (.read none) a

variable [DecidableEq τ]

/-- The store commits with the last access of every call, for any
specification that allows what `Spec` does and, where lookups may fail, a
lookup that finds nothing. -/
private theorem commitsLast_of (store : ConversationStore)
    {mayFault : StoreCall → Bool}
    {spec : StoreCall → Conversations → StoreReply → Conversations → Prop}
    (hsound : ∀ {c a r a'}, Spec store c a r a' → spec c a r a')
    (hunread : ∀ {key nowMillis a},
      mayFault (.getContinuation key nowMillis) = true →
        spec (.getContinuation key nowMillis) a (.read none) a) :
    CommitsLast (server τ store mayFault) (fun _ => True) (CallAt store)
      VStore.contents spec forget where
  immediate := by
    intro c r a h
    obtain ⟨key, continuation, nowMillis, rfl, rfl⟩ := code_eq_done h
    have hspec : Spec store _ a _ _ :=
      .recorded key .unknown continuation nowMillis a
    rw [show settle store .unknown continuation nowMillis (a key.asStr) =
      a key.asStr from rfl, Function.update_eq_self] at hspec
    exact hsound hspec
  silent := by
    intro c p s t _ hat ht hq
    have hp : p.pending = true := by
      cases p with
      | done r => cases hq
      | get k next => rfl
      | store k mode v next => rfl
      | delete k next => rfl
    rcases (hat.access hp t).spec with ⟨_, _, hs⟩ | ⟨r, hr, _⟩
    · rw [hs]
    · rw [hr] at hq
      cases hq
  commit := by
    intro c p s t r _ hat hp ht hr
    rcases (hat.access hp t).spec with ⟨hq, _, _⟩ | ⟨r', hr', hspec⟩
    · rw [hr] at hq
      cases hq
    · rw [hr] at hr'
      cases hr'
      exact hsound hspec
  failed := by
    intro c p s debug r _ hat hp hf hr
    obtain ⟨r', hr', hcase⟩ := hat.fault hp debug
    rw [hr] at hr'
    cases hr'
    cases c with
    | recordOutcome key stateClass continuation nowMillis =>
        rcases hcase with ⟨_, rfl⟩ | ⟨hread, _⟩
        · exact hsound (.failed key stateClass continuation nowMillis _ _)
        · cases hread
    | getContinuation key nowMillis =>
        rcases hcase with ⟨hrecord, _⟩ | ⟨_, rfl⟩
        · cases hrecord
        · exact hunread hf
  reclaim := fun {s k} => VStore.contents_erase s k

/-- Where only the accesses of outcomes may fail, the store implements `Spec`. -/
theorem commitsLast (store : ConversationStore) :
    CommitsLast (server τ store StoreCall.isRecord) (fun _ => True) (CallAt store)
      VStore.contents (Spec store) forget :=
  commitsLast_of store (fun h => h) fun h => by cases h

/-- Whatever accesses may fail, the store implements `LossySpec`. -/
theorem commitsLast_lossy (store : ConversationStore)
    (mayFault : StoreCall → Bool) :
    CommitsLast (server τ store mayFault) (fun _ => True) (CallAt store)
      VStore.contents (LossySpec store) forget :=
  commitsLast_of store .sound fun _ => .unread _ _ _

/-- **Linearizability of the conversation store.**  Every run, from any store,
of any number of outcomes and lookups under any interleaving, failures of the
outcomes' accesses and removals by the backend has a sequential order that is
legal for `Spec`, explains every result and the final entries, gives each call
an instant of its own interval and so respects real-time precedence. -/
theorem store_linearizable (store : ConversationStore) {s₀ : Entries τ}
    {acts : List (StoreAction τ)} {s : StorePool τ}
    (hr : Run (server τ store StoreCall.isRecord) (Pool.fresh s₀) acts s) :
    ∃ es, Linearizes VStore.contents (Spec store) forget s₀ acts s es ∧
      ∀ {t t' i j u u' : Nat} {c c' c'' : StoreCall} {r r' : StoreReply},
        (t, Effect.call i c r) ∈ es → (t', Effect.call j c' r') ∈ es →
        acts[u]? = some (.ret i) → acts[u']? = some (.invoke j c'') →
        u < u' → t < t' := by
  obtain ⟨es, hes⟩ := linearizable
    (callAt_relyGuarantee store StoreCall.isRecord) (commitsLast store) trivial hr
  exact ⟨es, hes, fun hi hj hret hinv hlt => hes.realTime hi hj hret hinv hlt⟩

/-- Two upserts and an eviction of one key that overlap, then a lookup: the
second upsert loses the first write, reads the entry as continuable, loses its
versioned write to the tombstone, and ends at the guard. -/
def closingRace : List (StoreAction Nat) :=
  let key : CacheKey := ⟨"rest-to-a2a:k"⟩
  [ .invoke 0 (.recordOutcome key .continuable ⟨some "t", some "c"⟩ 10)
  , .invoke 1 (.recordOutcome key .continuable ⟨some "t", some "c"⟩ 20)
  , .access 0 1
  , .access 1 2
  , .access 1 2
  , .invoke 2 (.recordOutcome key .terminal ⟨some "t", some "c"⟩ 30)
  , .access 2 2
  , .access 2 2
  , .access 1 3
  , .access 1 3
  , .ret 0
  , .ret 1
  , .ret 2
  , .invoke 3 (.getContinuation key 40)
  , .access 3 4
  , .ret 3 ]

theorem store_linearizable_closingRace :
    ∃ s es, Run (server Nat (.new true 60) StoreCall.isRecord)
        (Pool.fresh VStore.empty) closingRace s ∧
      Linearizes VStore.contents (Spec (.new true 60)) forget VStore.empty
        closingRace s es := by
  have hr := run_exec (server Nat (.new true 60) StoreCall.isRecord)
    (Pool.fresh VStore.empty) closingRace (by decide)
  obtain ⟨es, hes, _⟩ := store_linearizable (.new true 60) hr
  exact ⟨_, es, hr, hes⟩

end RestToA2a.Policy.CacheLinearizable
