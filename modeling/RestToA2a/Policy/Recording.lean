import RestToA2a.Policy.CacheSequential

/-!
# Reading back a recorded continuation

What a lookup finds after a continuable outcome was recorded with nobody else
on the store.  It finds the recorded ids unless the key holds a tombstone, and
there the age of the tombstone makes no difference: an expired one keeps its key
closed like a fresh one, until the backend reclaims it.
-/

namespace RestToA2a.Policy.Recording

open RestToA2a.Verified.VersionedStore
open RestToA2a.Verified.StorageProgram
open RestToA2a.Policy.A2a
open RestToA2a.Policy.Cache
open RestToA2a.Policy.Cache.ConversationStore
open RestToA2a.Policy.CacheSteps
open RestToA2a.Policy.CacheCalls
open RestToA2a.Policy.CacheClosing
open RestToA2a.Policy.CacheSequential

/-- The expiry is the sum of the time and the lifetime where that is a `u64`. -/
theorem expiresAt_of_lt {store : ConversationStore} {nowMillis : Nat}
    (h : nowMillis + store.ttlMillis < 2 ^ 64) :
    store.expiresAt nowMillis = nowMillis + store.ttlMillis :=
  Nat.mod_eq_of_lt h

theorem not_closed_of_contents {τ : Type} {s : Entries τ} {key : CacheKey}
    (h : s.contents key.asStr = none ∨ Open s key) : ¬ Closed s key := by
  rcases h with hNone | hOpen
  · exact not_closed_of_missing (VStore.contents_eq_none.mp hNone)
  · exact not_closed_of_open hOpen

variable {τ : Type} [DecidableEq τ]

/-- What a lookup finds of the entry just written. -/
theorem run_getContinuation_write (m : Mint String ConversationEntry τ)
    (store : ConversationStore) (key : CacheKey) (continuation : Continuation)
    (nowMillis : Nat) (s : Entries τ) (version : τ) (later : Nat) :
    ((getContinuation key later).run m (s.write key.asStr
        (store.liveEntry continuation nowMillis) version)).1 =
      if later < store.expiresAt nowMillis then some continuation else none := by
  rw [run_getContinuation, VStore.contents_write, Function.update_self,
    readable_continuable rfl]
  rfl

/-- **A recorded continuation is readable unless the key is closed.**  On every
store and either backend a continuable outcome is recorded without error.  If
the entry of the key is missing or continuable, live or expired, every lookup
before the new expiry finds exactly the recorded ids, and the new expiry is a
lifetime from now unless that overflows a `u64`.  If it is a tombstone, expired
or not, nothing changes and no lookup finds anything.  Every other key keeps its
entry either way. -/
theorem recorded_readable (m : Mint String ConversationEntry τ)
    (store : ConversationStore) (key : CacheKey) (continuation : Continuation)
    (nowMillis : Nat) (s : Entries τ) :
    ∃ s', (store.recordOutcome key .continuable continuation nowMillis).run m s =
        (.ok (), s') ∧
      (s.contents key.asStr = none ∨ Open s key →
        (∀ later, later < store.expiresAt nowMillis →
          ((getContinuation key later).run m s').1 = some continuation) ∧
        (nowMillis + store.ttlMillis < 2 ^ 64 →
          ∀ later, nowMillis ≤ later → later < nowMillis + store.ttlMillis →
            ((getContinuation key later).run m s').1 = some continuation)) ∧
      (Closed s key →
        s' = s ∧ ∀ later, ((getContinuation key later).run m s').1 = none) ∧
      ∀ k, k ≠ key.asStr → s'.entries k = s.entries k := by
  by_cases hc : Closed s key
  · refine ⟨s, run_upsert_of_closed m store continuation nowMillis hc,
      fun hno => absurd hc (not_closed_of_contents hno),
      fun _ => ⟨rfl, fun later => ?_⟩, fun k _ => rfl⟩
    obtain ⟨e, he, hTerm⟩ := hc
    rw [run_getContinuation, he, readable_terminal hTerm]
  · refine ⟨_, run_upsert_of_not_closed m store continuation nowMillis hc,
      fun _ => ⟨fun later hlt => ?_, fun hfits later _ hlt => ?_⟩,
      fun h => absurd h hc, fun k hk => VStore.entries_write_ne s _ _ hk⟩
    · rw [run_getContinuation_write, if_pos hlt]
    · rw [run_getContinuation_write, expiresAt_of_lt hfits, if_pos hlt]

/-- A continuation recorded anew, after its conversation was ended. -/
theorem recorded_readable_anew :
    ((getContinuation ⟨"rest-to-a2a:k"⟩ 40).run Mint.counter
      (((ConversationStore.new false 60).recordOutcome ⟨"rest-to-a2a:k"⟩
        .continuable ⟨some "u", some "d"⟩ 30).run Mint.counter
          (storeAfter Mint.counter (.new false 60) (VStore.empty : Entries Nat)
            (restarted.take 2))).2).1 = some ⟨some "u", some "d"⟩ := by
  obtain ⟨s', hrun, hopen, _⟩ := recorded_readable Mint.counter
    (ConversationStore.new false 60) ⟨"rest-to-a2a:k"⟩ ⟨some "u", some "d"⟩ 30
    (storeAfter Mint.counter (.new false 60) VStore.empty (restarted.take 2))
  rw [hrun]
  exact (hopen (Or.inl rfl)).2 (by decide) 40 (by decide) (by decide)

/-- After any history of calls, a continuation recorded under a key without an
unexpired tombstone is read back during its lifetime. -/
def ReadableUnlessClosed (store : ConversationStore) : Prop :=
  ∀ (h : List StoreCall) (key : CacheKey) (continuation : Continuation)
    (nowMillis later : Nat),
    (∀ e, (storeAfter Mint.counter store (VStore.empty : Entries Nat) h).contents
      key.asStr = some e → e.state = .terminal → e.isExpired nowMillis = true) →
    nowMillis ≤ later → later < nowMillis + store.ttlMillis →
    ((getContinuation key later).run Mint.counter
      ((store.recordOutcome key .continuable continuation nowMillis).run
        Mint.counter (storeAfter Mint.counter store VStore.empty h)).2).1 =
      some continuation

/-- An expired tombstone still refuses the conversation that is started again. -/
theorem expired_tombstone_refuses : ¬ ReadableUnlessClosed (.new true 60) := by
  intro h
  have hread := h (restarted.take 2) ⟨"rest-to-a2a:k"⟩ ⟨some "u", some "d"⟩ 100000
    100000 ?_ (by decide) (by decide)
  · cases hread
  · intro e he _
    cases he
    decide

end RestToA2a.Policy.Recording
