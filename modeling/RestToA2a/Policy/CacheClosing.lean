import RestToA2a.Policy.CacheLinearizable

/-!
# Closing a conversation

What stays of a key once its task has ended.  A remote backend keeps the
tombstone until the TTL reclaims it, whatever upserts were under way, and an
entry is never removed by the store itself.  A local backend forgets the key,
and a remote one that had nothing to evict leaves nothing behind; there an
outcome recorded later is stored anew.
-/

namespace RestToA2a.Policy.CacheClosing

open RestToA2a.Verified.VersionedStore
open RestToA2a.Verified.StorageProgram
open RestToA2a.Verified.ProgramPool
open RestToA2a.Verified.Linearizable
open RestToA2a.Policy.A2a
open RestToA2a.Policy.Cache
open RestToA2a.Policy.Cache.ConversationStore
open RestToA2a.Policy.CacheSteps
open RestToA2a.Policy.CacheCalls
open RestToA2a.Policy.CacheLinearizable

/-! ## What an effect does to one entry -/

/-- A remote outcome never empties a key. -/
theorem settle_present {store : ConversationStore}
    (hd : store.distributed = true) (stateClass : StateClass)
    (continuation : Continuation) (nowMillis : Nat)
    {entry : Option ConversationEntry} (h : entry ≠ none) :
    settle store stateClass continuation nowMillis entry ≠ none := by
  obtain ⟨e, rfl⟩ := Option.ne_none_iff_exists'.mp h
  cases stateClass <;> cases hs : e.state <;> simp [settle, hd, hs]

/-- A remote outcome never touches a tombstone. -/
theorem settle_terminal {store : ConversationStore}
    (hd : store.distributed = true) (stateClass : StateClass)
    (continuation : Continuation) (nowMillis : Nat) {e : ConversationEntry}
    (h : e.state = .terminal) :
    settle store stateClass continuation nowMillis (some e) = some e := by
  cases stateClass <;> simp [settle, hd, h]

/-- An entry that is continuable after an outcome was so before, unless the
outcome is the continuable one that wrote it. -/
theorem continuable_of_settle {store : ConversationStore}
    {stateClass : StateClass} {continuation : Continuation} {nowMillis : Nat}
    {entry : Option ConversationEntry} {e : ConversationEntry}
    (h : settle store stateClass continuation nowMillis entry = some e)
    (hCont : e.state = .continuable) :
    entry = some e ∨
      (stateClass = .continuable ∧ e = store.liveEntry continuation nowMillis) := by
  cases stateClass with
  | continuable =>
      cases entry with
      | none =>
          simp only [settle, Option.some.injEq] at h
          exact Or.inr ⟨rfl, h.symm⟩
      | some existing =>
          simp only [settle] at h
          split at h
          · exact Or.inl h
          · simp only [Option.some.injEq] at h
            exact Or.inr ⟨rfl, h.symm⟩
  | terminal =>
      cases entry with
      | none => cases h
      | some existing =>
          simp only [settle] at h
          split at h
          · split at h
            · exact Or.inl h
            · simp only [Option.some.injEq] at h
              subst h
              cases hCont
          · cases h
  | unknown => exact Or.inl h

/-- An effect rewrites the entry of a key by an outcome for that key, or
leaves it alone. -/
theorem entry_of_effect {store : ConversationStore} {c : StoreCall}
    {a a' : Conversations} {r : StoreReply} (h : LossySpec store c a r a')
    (k : String) :
    a' k = a k ∨ ∃ key stateClass continuation nowMillis,
      c = .recordOutcome key stateClass continuation nowMillis ∧
        r = .recorded (.ok ()) ∧ k = key.asStr ∧
        a' k = settle store stateClass continuation nowMillis (a k) := by
  cases h with
  | sound h =>
      cases h with
      | recorded key stateClass continuation nowMillis =>
          by_cases hk : k = key.asStr
          · subst hk
            exact Or.inr ⟨key, stateClass, continuation, nowMillis, rfl, rfl, rfl,
              by simp⟩
          · exact Or.inl (by simp [hk])
      | failed => exact Or.inl rfl
      | read => exact Or.inl rfl
  | unread => exact Or.inl rfl

/-- No effect on a remote store empties a key. -/
theorem present_of_effect {store : ConversationStore}
    (hd : store.distributed = true) {c : StoreCall} {a a' : Conversations}
    {r : StoreReply} (h : LossySpec store c a r a') {k : String}
    (hPresent : a k ≠ none) : a' k ≠ none := by
  rcases entry_of_effect h k with heq | ⟨_, _, _, _, _, _, _, heq⟩
  · rw [heq]
    exact hPresent
  · rw [heq]
    exact settle_present hd _ _ _ hPresent

/-- A lookup answers what it reads, or nothing. -/
theorem read_of_effect {store : ConversationStore} {key : CacheKey}
    {nowMillis : Nat} {a a' : Conversations} {r : StoreReply}
    (h : LossySpec store (.getContinuation key nowMillis) a r a') :
    r = .read none ∨ r = .read (readable (a key.asStr) nowMillis) := by
  cases h with
  | sound h =>
      cases h with
      | read => exact Or.inr rfl
  | unread => exact Or.inl rfl

theorem readable_expired {e : ConversationEntry} {nowMillis : Nat}
    (h : e.isExpired nowMillis = true) : readable (some e) nowMillis = none := by
  simp [readable, h]

/-- A tombstone is never read. -/
theorem readable_terminal {e : ConversationEntry} (h : e.state = .terminal)
    (nowMillis : Nat) : readable (some e) nowMillis = none := by
  simp [readable, ConversationEntry.isContinuable, h]

/-- A continuable entry is read until it expires. -/
theorem readable_continuable {e : ConversationEntry} (h : e.state = .continuable)
    (nowMillis : Nat) :
    readable (some e) nowMillis =
      if nowMillis < e.expiresAtMillis then some e.continuation else none := by
  by_cases hlt : nowMillis < e.expiresAtMillis
  · have hge : ¬ nowMillis ≥ e.expiresAtMillis := by omega
    simp [readable, ConversationEntry.isContinuable, ConversationEntry.isExpired,
      h, hlt, hge]
  · have hge : nowMillis ≥ e.expiresAtMillis := by omega
    simp [readable, ConversationEntry.isExpired, hlt, hge]

/-- What a read finds is the continuation of a live entry. -/
theorem readable_eq_some {entry : Option ConversationEntry} {nowMillis : Nat}
    {d : Continuation} (h : readable entry nowMillis = some d) :
    ∃ e, entry = some e ∧ e.state = .continuable ∧
      nowMillis < e.expiresAtMillis ∧ e.continuation = d := by
  cases entry with
  | none => cases h
  | some e =>
      cases hs : e.state with
      | terminal =>
          rw [readable_terminal hs] at h
          cases h
      | continuable =>
          rw [readable_continuable hs, Option.ite_none_right_eq_some] at h
          exact ⟨e, rfl, hs, h.1, Option.some.inj h.2⟩

/-! ## What a run does to one entry -/

section Runs

variable {τ : Type} [DecidableEq τ] {store : ConversationStore}
  {mayFault : StoreCall → Bool} {s₀ : Entries τ}
  {acts later : List (StoreAction τ)} {s₁ s₂ : StorePool τ}

/-- A step from a reachable state is an instant of the specification, a
removal by the backend, or nothing. -/
theorem step_cases {s s' : StorePool τ} {a : StoreAction τ}
    (hr : Run (server τ store mayFault) (Pool.fresh s₀) acts s)
    (ha : Step (server τ store mayFault) s a s') :
    CommitStep VStore.contents (LossySpec store) forget s s' a :=
  (commitsLast_lossy store mayFault).cases
    ((callAt_relyGuarantee store mayFault).run hr (Holds.fresh trivial)) ha

/-- What outcomes preserve of an entry, a run without removals of its key
preserves. -/
theorem entry_of_run {k : String} {P : Option ConversationEntry → Prop}
    (hP : ∀ {stateClass continuation nowMillis entry}, P entry →
      P (settle store stateClass continuation nowMillis entry))
    (hr₁ : Run (server τ store mayFault) (Pool.fresh s₀) acts s₁)
    (hr₂ : Run (server τ store mayFault) s₁ later s₂)
    (hno : Action.reclaim k ∉ later) (h : P (s₁.store.contents k)) :
    P (s₂.store.contents k) := by
  induction hr₂ with
  | nil => exact h
  | @snoc later s s' a hr ha ih =>
      simp only [List.mem_append, List.mem_singleton, not_or] at hno
      have hs := ih hno.1
      cases step_cases (hr₁.append hr) ha with
      | quiet _ habs _ =>
          rw [habs]
          exact hs
      | commit _ _ _ _ _ _ hspec =>
          rcases entry_of_effect hspec k with heq | ⟨_, _, _, _, _, _, _, heq⟩
          · rw [heq]
            exact hs
          · rw [heq]
            exact hP hs
      | @removal k' hk _ habs =>
          have hne : k ≠ k' := by
            intro hEq
            subst hEq
            exact hno.2 hk.symm
          rw [habs]
          simpa [forget, hne] using hs

/-- While its key is not reclaimed, a remote tombstone is what every lookup
meets. -/
theorem read_none_of_terminal (hd : store.distributed = true)
    (hr₁ : Run (server τ store mayFault) (Pool.fresh s₀) acts s₁)
    (hr₂ : Run (server τ store mayFault) s₁ later s₂) {key : CacheKey}
    (hno : Action.reclaim key.asStr ∉ later) {e : ConversationEntry}
    (he : s₁.store.contents key.asStr = some e) (hTerm : e.state = .terminal)
    {j nowMillis : Nat} {r : StoreReply} (hOpen : outcome (s₁.calls j) = none)
    (hDone : outcome (s₂.calls j) = some (.getContinuation key nowMillis, r)) :
    r = .read none := by
  obtain ⟨before, a, after, q, q', rfl, hb, hs, _, hqOpen, hqDone⟩ :=
    decided_of_run hr₂ hOpen hDone
  have hq : q.store.contents key.asStr = some e :=
    entry_of_run (P := fun entry => entry = some e)
      (fun h => by rw [h, settle_terminal hd _ _ _ hTerm]) hr₁ hb
      (fun hmem => hno (List.mem_append_left _ hmem)) he
  have hspec := (step_cases (hr₁.append hb) hs).spec_of_decided hqOpen hqDone
  rcases read_of_effect hspec with hNone | hRead
  · exact hNone
  · rw [hRead, hq, readable_terminal hTerm]

/-- A remote store never asks for a removal. -/
theorem not_delete (hd : store.distributed = true)
    (hr : Run (server τ store mayFault) (Pool.fresh s₀) acts s₁) {i : Nat}
    {c : StoreCall} {p : Storage τ StoreReply} (hi : s₁.calls i = .running c p)
    (k : String) (next : Except StorageError Unit → Storage τ StoreReply) :
    p ≠ .delete k next := by
  intro hp
  have hat := callAt_of_run hr hi
  rw [hp] at hat
  generalize hq : Prog.delete k next = q at hat
  cases hat with
  | upsert h =>
      cases h with
      | loop left => cases left <;> cases hq
      | absent left => cases hq
      | cas left => cases hq
      | done r => cases hq
  | evict h =>
      cases h with
      | loop hd' left => cases left <;> cases hq
      | cas hd' left => cases hq
      | delete hd' =>
          rw [hd] at hd'
          cases hd'
      | done r => cases hq
  | read => cases hq
  | done => cases hq

/-- **Gossip safety.**  In every run of a remote store, at every pair of its
states with no reclamation of a key in between: no call is about to delete, an
entry at the key is still an entry, and a tombstone at the key is still the
same tombstone and all that any lookup in between has met. -/
theorem gossip_safety (hd : store.distributed = true)
    (hr₁ : Run (server τ store mayFault) (Pool.fresh s₀) acts s₁)
    (hr₂ : Run (server τ store mayFault) s₁ later s₂) {key : CacheKey}
    (hno : Action.reclaim key.asStr ∉ later) :
    (∀ i c p, s₂.calls i = .running c p → ∀ k next, p ≠ .delete k next) ∧
    (s₁.store.contents key.asStr ≠ none → s₂.store.contents key.asStr ≠ none) ∧
    (∀ e, s₁.store.contents key.asStr = some e → e.state = .terminal →
      s₂.store.contents key.asStr = some e ∧
      ∀ j nowMillis r, outcome (s₁.calls j) = none →
        outcome (s₂.calls j) = some (.getContinuation key nowMillis, r) →
        r = .read none) := by
  refine ⟨fun i c p hi => not_delete hd (hr₁.append hr₂) hi, ?_, ?_⟩
  · exact entry_of_run (P := fun entry => entry ≠ none)
      (fun h => settle_present hd _ _ _ h) hr₁ hr₂ hno
  · intro e he hTerm
    refine ⟨?_, fun j nowMillis r hOpen hDone =>
      read_none_of_terminal hd hr₁ hr₂ hno he hTerm hOpen hDone⟩
    exact entry_of_run (P := fun entry => entry = some e)
      (fun h => by rw [h, settle_terminal hd _ _ _ hTerm]) hr₁ hr₂ hno he

end Runs

/-- The pool the actions lead to from the empty store. -/
def after (store : ConversationStore) (acts : List (StoreAction Nat))
    (h : (exec (server Nat store fun _ => false) (Pool.fresh VStore.empty)
      acts).isSome = true) : StorePool Nat :=
  (exec (server Nat store fun _ => false) (Pool.fresh VStore.empty) acts).get h

/-- An upsert that has read the entry as continuable when the eviction writes
the tombstone, and what it does then. -/
def tombstoned : List (StoreAction Nat) × List (StoreAction Nat) :=
  let key : CacheKey := ⟨"rest-to-a2a:k"⟩
  ( [ .invoke 0 (.recordOutcome key .continuable ⟨some "t", some "c"⟩ 10)
    , .access 0 1
    , .ret 0
    , .invoke 1 (.recordOutcome key .continuable ⟨some "t", some "c"⟩ 20)
    , .access 1 2
    , .access 1 2
    , .invoke 2 (.recordOutcome key .terminal ⟨some "t", some "c"⟩ 30)
    , .access 2 2
    , .access 2 2 ]
  , [ .access 1 3
    , .access 1 3
    , .ret 1
    , .ret 2 ] )

theorem gossip_safety_tombstoned :
    ∃ (s₂ : StorePool Nat) (e : ConversationEntry), e.state = .terminal ∧
      s₂.store.contents "rest-to-a2a:k" = some e ∧
      s₂.calls 1 = .returned (.recordOutcome ⟨"rest-to-a2a:k"⟩ .continuable
        ⟨some "t", some "c"⟩ 20) (.recorded (.ok ())) := by
  have hr₁ := run_exec (server Nat (.new true 60) fun _ => false)
    (Pool.fresh VStore.empty) tombstoned.1 (by decide)
  have hr₂ := run_exec (server Nat (.new true 60) fun _ => false)
    (after (.new true 60) tombstoned.1 (by decide)) tombstoned.2 (by decide)
  have hno : Action.reclaim (CacheKey.asStr ⟨"rest-to-a2a:k"⟩) ∉ tombstoned.2 := by
    simp [tombstoned]
  have hsafe := (gossip_safety rfl hr₁ hr₂ hno).2.2
  exact ⟨_, _, rfl, (hsafe (tombstone (.new true 60) 30) rfl rfl).1, rfl⟩

section Runs

variable {τ : Type} [DecidableEq τ] {store : ConversationStore}
  {mayFault : StoreCall → Bool} {s₀ : Entries τ}
  {acts later : List (StoreAction τ)} {s₁ s₂ : StorePool τ}

/-! ## Lookups after a task has ended -/

/-- A continuable outcome with the ids `d` for the key took effect between the
two states. -/
def StoredSince (s s' : StorePool τ) (key : CacheKey) (d : Continuation) : Prop :=
  ∃ u nowMillis, outcome (s.calls u) = none ∧
    outcome (s'.calls u) = some
      (.recordOutcome key .continuable d nowMillis, .recorded (.ok ()))

theorem StoredSince.mono {s s' s'' : StorePool τ} {key : CacheKey}
    {d : Continuation} (h : StoredSince s s' key d)
    (hr : Run (server τ store mayFault) s' later s'') : StoredSince s s'' key d := by
  obtain ⟨u, nowMillis, hOpen, hDone⟩ := h
  exact ⟨u, nowMillis, hOpen, outcome_run hr hDone⟩

/-- Every continuable entry of `s₂` was stored since `s₁`, where there was
none. -/
theorem storedSince_of_run {key : CacheKey}
    (hr₁ : Run (server τ store mayFault) (Pool.fresh s₀) acts s₁)
    (hr₂ : Run (server τ store mayFault) s₁ later s₂)
    (hClosed : ∀ e, s₁.store.contents key.asStr = some e → e.state = .terminal)
    {e : ConversationEntry} (he : s₂.store.contents key.asStr = some e)
    (hCont : e.state = .continuable) : StoredSince s₁ s₂ key e.continuation := by
  induction hr₂ generalizing e with
  | nil =>
      rw [hClosed e he] at hCont
      cases hCont
  | @snoc later s s' a hr ha ih =>
      -- an entry that was there before has its writer already
      have hold (h : s.store.contents key.asStr = some e) :
          StoredSince s₁ s' key e.continuation := (ih h hCont).mono (Run.single ha)
      cases step_cases (hr₁.append hr) ha with
      | quiet _ habs _ =>
          rw [habs] at he
          exact hold he
      | @commit u c r _ _ hOpen hDone _ _ hspec =>
          rcases entry_of_effect hspec key.asStr with
            heq | ⟨key', stateClass, d, nowMillis, rfl, rfl, hkey, heq⟩
          · rw [heq] at he
            exact hold he
          · rw [heq] at he
            rcases continuable_of_settle he hCont with hSame | ⟨rfl, rfl⟩
            · exact hold hSame
            · cases CacheKey.ext hkey
              exact ⟨u, nowMillis, open_of_run hr hOpen, hDone⟩
      | removal _ _ habs =>
          rw [habs] at he
          exact hold (entry_of_forget he)

/-- The entry of the key of a terminal outcome, once it has taken effect. -/
theorem closed_of_terminal {key : CacheKey} {continuation : Continuation}
    {nowMillis : Nat} {a a' : Conversations}
    (h : LossySpec store (.recordOutcome key .terminal continuation nowMillis) a
      (.recorded (.ok ())) a') {e : ConversationEntry}
    (he : a' key.asStr = some e) :
    e.state = .terminal := by
  cases h with
  | sound h =>
      cases h with
      | recorded =>
          cases hs : e.state with
          | terminal => rfl
          | continuable =>
              simp only [Function.update_self] at he
              have hsame := continuable_of_settle he hs
              simp only [reduceCtorEq, false_and, or_false] at hsame
              rw [hsame] at he
              cases hd : store.distributed <;> simp [settle, hd, hs] at he
              rw [← he] at hs
              cases hs

/-- **What a lookup after the end of a task says.**  A terminal outcome
returned `Ok`, and a lookup of the key made after that finds a continuation.
Then a continuable outcome with those very ids took effect after the terminal
one did; and on a remote backend that held an entry for the terminal outcome
to close, the TTL reclaimed the key in between. -/
theorem stored_anew_of_read {i j nowMillis nowMillis' : Nat} {key : CacheKey}
    {continuation d : Continuation}
    (hr₁ : Run (server τ store mayFault) (Pool.fresh s₀) acts s₁)
    (hr₂ : Run (server τ store mayFault) s₁ later s₂)
    (hEnded : s₁.calls i = .returned
      (.recordOutcome key .terminal continuation nowMillis) (.recorded (.ok ())))
    (hIdle : s₁.calls j = .idle)
    (hRead : s₂.calls j = .returned (.getContinuation key nowMillis')
      (.read (some d))) :
    ∃ before a after q q', acts = before ++ a :: after ∧
      Run (server τ store mayFault) (Pool.fresh s₀) before q ∧
      Step (server τ store mayFault) q a q' ∧
      Run (server τ store mayFault) q' after s₁ ∧
      outcome (q.calls i) = none ∧
      outcome (q'.calls i) = some
        (.recordOutcome key .terminal continuation nowMillis,
          .recorded (.ok ())) ∧
      StoredSince q' s₂ key d ∧
      (store.distributed = true → q.store.contents key.asStr ≠ none →
        Action.reclaim key.asStr ∈ after ++ later) := by
  have hEndedOutcome := congrArg outcome hEnded
  have hReadOutcome := congrArg outcome hRead
  simp only [outcome] at hEndedOutcome hReadOutcome
  -- the instant of the terminal outcome, and the one of the lookup
  obtain ⟨before, a, after, q, q', rfl, hb, hs, hafter, hqOpen, hqDone⟩ :=
    decided_of_run hr₁ rfl hEndedOutcome
  obtain ⟨pre, a', post, p, p', rfl, hpre, hread, hpost, hpOpen, hpDone⟩ :=
    decided_of_run hr₂ (by rw [hIdle]; rfl) hReadOutcome
  have hTerminal := (step_cases hb hs).spec_of_decided hqOpen hqDone
  have hLookup := (step_cases (hr₁.append hpre) hread).spec_of_decided hpOpen hpDone
  have hbq' : Run (server τ store mayFault) (Pool.fresh s₀) (before ++ [a]) q' :=
    hb.snoc hs
  have hq'p := hafter.append hpre
  obtain ⟨e, he, hCont, _, rfl⟩ :
      ∃ e, p.store.contents key.asStr = some e ∧ e.state = .continuable ∧
        nowMillis' < e.expiresAtMillis ∧ e.continuation = d := by
    rcases read_of_effect hLookup with hNone | hSome
    · cases hNone
    · simp only [StoreReply.read.injEq] at hSome
      exact readable_eq_some hSome.symm
  refine ⟨before, a, after, q, q', rfl, hb, hs, hafter, hqOpen, hqDone, ?_, ?_⟩
  · exact (storedSince_of_run hbq' hq'p
      (fun e' he' => closed_of_terminal hTerminal he') he hCont).mono
        ((Run.single hread).append hpost)
  · intro hd hPresent
    by_contra hno
    -- the tombstone would still be there for the lookup to meet
    obtain ⟨tomb, hTomb⟩ :=
      Option.ne_none_iff_exists'.mp (present_of_effect hd hTerminal hPresent)
    have hState := closed_of_terminal hTerminal hTomb
    have hSame : p.store.contents key.asStr = some tomb :=
      entry_of_run (P := fun entry => entry = some tomb)
        (fun h => by rw [h, settle_terminal hd _ _ _ hState]) hbq' hq'p
        (fun hmem => hno (by
          rcases List.mem_append.mp hmem with h | h
          · exact List.mem_append_left _ h
          · exact List.mem_append_right _ (List.mem_append_left _ h))) hTomb
    rw [he] at hSame
    cases hSame
    rw [hCont] at hState
    cases hState

end Runs

/-- The late reply of a turn whose upsert is half-way when the task is closed,
then a lookup. -/
def lateReply : List (StoreAction Nat) × List (StoreAction Nat) :=
  let key : CacheKey := ⟨"rest-to-a2a:k"⟩
  ( [ .invoke 0 (.recordOutcome key .continuable ⟨some "t", some "c"⟩ 10)
    , .access 0 1
    , .ret 0
    , .invoke 1 (.recordOutcome key .continuable ⟨some "t", some "c"⟩ 20)
    , .access 1 2
    , .access 1 2
    , .invoke 2 (.recordOutcome key .terminal ⟨some "t", some "c"⟩ 30)
    , .access 2 2
    , .ret 2 ]
  , [ .access 1 2
    , .access 1 2
    , .access 1 2
    , .ret 1
    , .invoke 3 (.getContinuation key 40)
    , .access 3 3
    , .ret 3 ] )

/-- The same on a key that held nothing when the task was closed, the late
reply arriving as a whole. -/
def lateFirstReply : List (StoreAction Nat) × List (StoreAction Nat) :=
  let key : CacheKey := ⟨"rest-to-a2a:k"⟩
  ( [ .invoke 2 (.recordOutcome key .terminal ⟨some "t", some "c"⟩ 30)
    , .access 2 1
    , .ret 2 ]
  , [ .invoke 1 (.recordOutcome key .continuable ⟨some "t", some "c"⟩ 20)
    , .access 1 1
    , .ret 1
    , .invoke 3 (.getContinuation key 40)
    , .access 3 2
    , .ret 3 ] )

/-- No lookup made after a terminal outcome for a task has returned finds that
task again, in runs from the empty store without failures and removals. -/
def NoResurrection (store : ConversationStore) : Prop :=
  ∀ (acts later : List (StoreAction Nat)) (s₁ s₂ : StorePool Nat),
    Run (server Nat store fun _ => false) (Pool.fresh VStore.empty) acts s₁ →
    Run (server Nat store fun _ => false) s₁ later s₂ →
    (∀ k, Action.reclaim k ∉ acts ++ later) →
    ∀ (i j nowMillis nowMillis' : Nat) (key : CacheKey) (c d : Continuation)
      (t : String),
      s₁.calls i = .returned (.recordOutcome key .terminal c nowMillis)
        (.recorded (.ok ())) →
      c.taskId = some t → s₁.calls j = .idle →
      s₂.calls j = .returned (.getContinuation key nowMillis') (.read (some d)) →
      d.taskId ≠ some t

/-- A closed task comes back on both backends: locally through the upsert
that was half-way, remotely when the key held nothing to close. -/
theorem task_resurrected :
    ¬ NoResurrection (.new false 60) ∧ ¬ NoResurrection (.new true 60) := by
  constructor
  · intro h
    have hr₁ := run_exec (server Nat (.new false 60) fun _ => false)
      (Pool.fresh VStore.empty) lateReply.1 (by decide)
    have hr₂ := run_exec (server Nat (.new false 60) fun _ => false)
      (after (.new false 60) lateReply.1 (by decide)) lateReply.2 (by decide)
    exact h _ _ _ _ hr₁ hr₂ (by simp [lateReply]) 2 3 30 40 ⟨"rest-to-a2a:k"⟩
      ⟨some "t", some "c"⟩ ⟨some "t", some "c"⟩ "t" rfl rfl rfl rfl rfl
  · intro h
    have hr₁ := run_exec (server Nat (.new true 60) fun _ => false)
      (Pool.fresh VStore.empty) lateFirstReply.1 (by decide)
    have hr₂ := run_exec (server Nat (.new true 60) fun _ => false)
      (after (.new true 60) lateFirstReply.1 (by decide)) lateFirstReply.2
      (by decide)
    exact h _ _ _ _ hr₁ hr₂ (by simp [lateFirstReply]) 2 3 30 40
      ⟨"rest-to-a2a:k"⟩ ⟨some "t", some "c"⟩ ⟨some "t", some "c"⟩ "t"
      rfl rfl rfl rfl rfl

/-- The late reply on a local backend: it is the upsert half-way that stored
the ids the lookup finds. -/
theorem stored_anew_of_read_lateReply :
    ∃ (q' s₂ : StorePool Nat), s₂.calls 3 = .returned
        (.getContinuation ⟨"rest-to-a2a:k"⟩ 40)
        (.read (some ⟨some "t", some "c"⟩)) ∧
      StoredSince q' s₂ ⟨"rest-to-a2a:k"⟩ ⟨some "t", some "c"⟩ := by
  have hr₁ := run_exec (server Nat (.new false 60) fun _ => false)
    (Pool.fresh VStore.empty) lateReply.1 (by decide)
  have hr₂ := run_exec (server Nat (.new false 60) fun _ => false)
    (after (.new false 60) lateReply.1 (by decide)) lateReply.2 (by decide)
  obtain ⟨_, _, _, _, q', _, _, _, _, _, _, hStored, _⟩ :=
    stored_anew_of_read (i := 2) (j := 3) hr₁ hr₂ rfl rfl rfl
  exact ⟨q', _, rfl, hStored⟩

end RestToA2a.Policy.CacheClosing
