import RestToA2a.Policy.CacheSteps

/-!
# Calls of the store and what they are for

The two public operations of the store as calls of a pool, and the abstract
store they are an implementation of: a plain map from keys to entries, on
which an outcome rewrites the entry of its key (`settle`) and a read looks at
it (`readable`), each in one instant.

`CallAt` says where a call stands between two accesses.  It is preserved by
the call's own accesses and by all interference, so it holds of every call in
every interleaving (`callAt_relyGuarantee`).
-/

namespace RestToA2a.Policy.CacheCalls

open RestToA2a.Verified.VersionedStore
open RestToA2a.Verified.StorageProgram
open RestToA2a.Verified.ProgramPool
open RestToA2a.Policy.A2a
open RestToA2a.Policy.Cache
open RestToA2a.Policy.Cache.ConversationStore
open RestToA2a.Policy.CacheSteps

/-- A public operation of the store with its arguments. -/
inductive StoreCall where
  | recordOutcome (key : CacheKey) (stateClass : StateClass)
      (continuation : Continuation) (nowMillis : Nat)
  | getContinuation (key : CacheKey) (nowMillis : Nat)

/-- What it returns. -/
inductive StoreReply where
  | recorded (r : Except CacheError Unit)
  | read (found : Option Continuation)

/-- The key an operation is about. -/
def StoreCall.key : StoreCall → CacheKey
  | .recordOutcome key _ _ _ => key
  | .getContinuation key _ => key

/-- Whether an operation records an outcome. -/
def StoreCall.isRecord : StoreCall → Bool
  | .recordOutcome _ _ _ _ => true
  | .getContinuation _ _ => false

variable {τ : Type}

/-- The program of an operation. -/
def StoreCall.code (store : ConversationStore) :
    StoreCall → Storage τ StoreReply
  | .recordOutcome key stateClass continuation nowMillis =>
      (store.recordOutcome key stateClass continuation nowMillis).map .recorded
  | .getContinuation key nowMillis =>
      (ConversationStore.getContinuation key nowMillis).map .read

/-- The store as a server: any call at any time, with the calls whose accesses
the backend may fail. -/
def server (τ : Type) (store : ConversationStore) (mayFault : StoreCall → Bool) :
    Server StoreCall String ConversationEntry τ StoreReply where
  code := StoreCall.code store
  enabled := fun _ _ => true
  mayFault := mayFault

/-- An event of a run of the store. -/
abbrev StoreAction (τ : Type) := Action StoreCall String τ

/-- A state of a run of the store. -/
abbrev StorePool (τ : Type) := Pool StoreCall String ConversationEntry τ StoreReply

/-! ## The abstract store -/

/-- The abstract store: the entry of each key. -/
abbrev Conversations := String → Option ConversationEntry

/-- What an outcome makes of the entry of its key. -/
def settle (store : ConversationStore) (stateClass : StateClass)
    (continuation : Continuation) (nowMillis : Nat)
    (entry : Option ConversationEntry) : Option ConversationEntry :=
  match stateClass, entry with
  | .continuable, none => some (store.liveEntry continuation nowMillis)
  | .continuable, some existing =>
      if existing.state = .terminal then some existing
      else some (store.liveEntry continuation nowMillis)
  | .terminal, none => none
  | .terminal, some existing =>
      if store.distributed then
        if existing.state = .terminal then some existing
        else some (store.tombstone nowMillis)
      else none
  | .unknown, entry => entry

/-- The sequential specification.  An outcome that reports an error has done
nothing. -/
inductive Spec (store : ConversationStore) :
    StoreCall → Conversations → StoreReply → Conversations → Prop where
  | recorded (key : CacheKey) (stateClass : StateClass)
      (continuation : Continuation) (nowMillis : Nat) (a : Conversations) :
      Spec store (.recordOutcome key stateClass continuation nowMillis) a
        (.recorded (.ok ()))
        (Function.update a key.asStr
          (settle store stateClass continuation nowMillis (a key.asStr)))
  | failed (key : CacheKey) (stateClass : StateClass)
      (continuation : Continuation) (nowMillis : Nat) (e : CacheError)
      (a : Conversations) :
      Spec store (.recordOutcome key stateClass continuation nowMillis) a
        (.recorded (.error e)) a
  | read (key : CacheKey) (nowMillis : Nat) (a : Conversations) :
      Spec store (.getContinuation key nowMillis) a
        (.read (readable (a key.asStr) nowMillis)) a

theorem settle_continuable_of_closed {store : ConversationStore}
    {continuation : Continuation} {nowMillis : Nat} {s : Entries τ}
    {key : CacheKey} (h : Closed s key) :
    settle store .continuable continuation nowMillis (s.contents key.asStr) =
      s.contents key.asStr := by
  obtain ⟨e, he, hTerm⟩ := h
  simp [settle, he, hTerm]

theorem settle_continuable_of_not_closed {store : ConversationStore}
    {continuation : Continuation} {nowMillis : Nat} {s : Entries τ}
    {key : CacheKey} (h : ¬ Closed s key) :
    settle store .continuable continuation nowMillis (s.contents key.asStr) =
      some (store.liveEntry continuation nowMillis) := by
  cases he : s.contents key.asStr with
  | none => rfl
  | some e =>
      have hne : e.state ≠ .terminal := fun hTerm => h ⟨e, he, hTerm⟩
      simp [settle, hne]

theorem settle_terminal_local {store : ConversationStore}
    (hd : store.distributed = false) (continuation : Continuation)
    (nowMillis : Nat) (entry : Option ConversationEntry) :
    settle store .terminal continuation nowMillis entry = none := by
  cases entry <;> simp [settle, hd]

theorem settle_terminal_of_open {store : ConversationStore}
    (hd : store.distributed = true) (continuation : Continuation)
    (nowMillis : Nat) {s : Entries τ} {key : CacheKey} (h : Open s key) :
    settle store .terminal continuation nowMillis (s.contents key.asStr) =
      some (store.tombstone nowMillis) := by
  obtain ⟨e, he, hCont⟩ := h
  simp [settle, he, hCont, hd]

theorem settle_terminal_of_not_open {store : ConversationStore}
    (hd : store.distributed = true) {continuation : Continuation}
    {nowMillis : Nat} {s : Entries τ} {key : CacheKey} (h : ¬ Open s key) :
    settle store .terminal continuation nowMillis (s.contents key.asStr) =
      s.contents key.asStr := by
  cases he : s.contents key.asStr with
  | none => rfl
  | some e =>
      have hTerm : e.state = .terminal := by
        cases hState : e.state with
        | continuable => exact absurd ⟨e, he, hState⟩ h
        | terminal => rfl
      simp [settle, hTerm, hd]

/-! ## Where a call stands -/

/-- Where a call stands between two accesses. -/
inductive CallAt (store : ConversationStore) :
    StoreCall → Storage τ StoreReply → Entries τ → Prop where
  | upsert {key : CacheKey} {continuation : Continuation} {nowMillis : Nat}
      {s : Entries τ} {p : Storage τ (Except CacheError Unit)}
      (h : UpsertAt key (store.liveEntry continuation nowMillis) s p) :
      CallAt store (.recordOutcome key .continuable continuation nowMillis)
        (p.map .recorded) s
  | evict {key : CacheKey} {continuation : Continuation} {nowMillis : Nat}
      {s : Entries τ} {p : Storage τ (Except CacheError Unit)}
      (h : EvictAt store key nowMillis s p) :
      CallAt store (.recordOutcome key .terminal continuation nowMillis)
        (p.map .recorded) s
  | read (key : CacheKey) (nowMillis : Nat) (s : Entries τ) :
      CallAt store (.getContinuation key nowMillis)
        ((ConversationStore.getContinuation key nowMillis).map .read) s
  | done (c : StoreCall) (r : StoreReply) (s : Entries τ) :
      CallAt store c (.done r) s

theorem CallAt.start (store : ConversationStore) (c : StoreCall) (s : Entries τ) :
    CallAt store c (c.code store) s := by
  cases c with
  | recordOutcome key stateClass continuation nowMillis =>
      cases stateClass with
      | continuable => exact .upsert (upsertAt_upsert store key continuation nowMillis s)
      | terminal => exact .evict (evictAt_evict store key nowMillis s)
      | unknown => exact .done _ _ s
  | getContinuation key nowMillis => exact .read key nowMillis s

theorem CallAt.mono {store : ConversationStore} {c : StoreCall}
    {p : Storage τ StoreReply} {s s' : Entries τ} (h : CallAt store c p s)
    (hE : Evolves s s') : CallAt store c p s' := by
  cases h with
  | upsert h => exact .upsert (h.mono hE)
  | evict h => exact .evict (h.mono hE)
  | read key nowMillis => exact .read key nowMillis s'
  | done c r => exact .done c r s'

variable [DecidableEq τ]

/-- Everything the next access of a call can do: go on without touching the
map, or end the call in one of these ways. -/
inductive CallStep (store : ConversationStore) (s : Entries τ) (t : τ) :
    StoreCall → Storage τ StoreReply × Entries τ → Prop where
  | again {c : StoreCall} {p : Storage τ StoreReply} (hp : p.pending = true)
      (hat : CallAt store c p s) : CallStep store s t c (p, s)
  | stored {key : CacheKey} {continuation : Continuation} {nowMillis : Nat}
      (hc : ¬ Closed s key) :
      CallStep store s t (.recordOutcome key .continuable continuation nowMillis)
        (.done (.recorded (.ok ())),
          s.write key.asStr (store.liveEntry continuation nowMillis) t)
  | guarded {key : CacheKey} {continuation : Continuation} {nowMillis : Nat}
      (hc : Closed s key) :
      CallStep store s t (.recordOutcome key .continuable continuation nowMillis)
        (.done (.recorded (.ok ())), s)
  | buried {key : CacheKey} {continuation : Continuation} {nowMillis : Nat}
      (hd : store.distributed = true) (ho : Open s key) :
      CallStep store s t (.recordOutcome key .terminal continuation nowMillis)
        (.done (.recorded (.ok ())),
          s.write key.asStr (store.tombstone nowMillis) t)
  | nothing {key : CacheKey} {continuation : Continuation} {nowMillis : Nat}
      (hd : store.distributed = true) (ho : ¬ Open s key) :
      CallStep store s t (.recordOutcome key .terminal continuation nowMillis)
        (.done (.recorded (.ok ())), s)
  | removed {key : CacheKey} {continuation : Continuation} {nowMillis : Nat}
      (hd : store.distributed = false) :
      CallStep store s t (.recordOutcome key .terminal continuation nowMillis)
        (.done (.recorded (.ok ())), s.erase key.asStr)
  | failed {key : CacheKey} {stateClass : StateClass}
      {continuation : Continuation} {nowMillis : Nat} (e : CacheError) :
      CallStep store s t (.recordOutcome key stateClass continuation nowMillis)
        (.done (.recorded (.error e)), s)
  | read {key : CacheKey} {nowMillis : Nat} :
      CallStep store s t (.getContinuation key nowMillis)
        (.done (.read (readable (s.contents key.asStr) nowMillis)), s)

/-- **One access of a call.** -/
theorem CallAt.access {store : ConversationStore} {c : StoreCall}
    {p : Storage τ StoreReply} {s : Entries τ} (h : CallAt store c p s)
    (hp : p.pending = true) (t : τ) : CallStep store s t c (p.access s t) := by
  cases h with
  | @upsert key continuation nowMillis _ p hat =>
      rw [Prog.pending_map] at hp
      rw [Prog.access_map]
      have hstep := hat.access hp t
      revert hstep
      generalize p.access s t = q
      intro hstep
      cases hstep with
      | again hq hat' => exact .again (by simpa using hq) (.upsert hat')
      | wrote hc => exact .stored hc
      | guarded hc => exact .guarded hc
      | gaveUp e => exact .failed e
  | @evict key continuation nowMillis _ p hat =>
      rw [Prog.pending_map] at hp
      rw [Prog.access_map]
      have hstep := hat.access hp t
      revert hstep
      generalize p.access s t = q
      intro hstep
      cases hstep with
      | again hq hat' => exact .again (by simpa using hq) (.evict hat')
      | buried hd ho => exact .buried hd ho
      | nothing hd ho => exact .nothing hd ho
      | removed hd => exact .removed hd
      | gaveUp e => exact .failed e
  | read key nowMillis => exact .read
  | done c r => cases hp

omit [DecidableEq τ] in
private theorem contents_eq_update {s : Entries τ} {k : String}
    {o : Option ConversationEntry} (h : o = s.contents k) :
    Function.update s.contents k o = s.contents := by
  rw [h]
  exact Function.update_eq_self k s.contents

omit [DecidableEq τ] in
/-- The access that ends a call does on the abstract store what the
specification says, and no other access does anything to it. -/
theorem CallStep.spec {store : ConversationStore} {s : Entries τ} {t : τ}
    {c : StoreCall} {q : Storage τ StoreReply × Entries τ}
    (h : CallStep store s t c q) :
    (q.1.pending = true ∧ CallAt store c q.1 s ∧ q.2 = s) ∨
      ∃ r, q.1 = .done r ∧ Spec store c s.contents r q.2.contents := by
  cases h with
  | again hp hat => exact Or.inl ⟨hp, hat, rfl⟩
  | @stored key continuation nowMillis hc =>
      refine Or.inr ⟨_, rfl, ?_⟩
      rw [VStore.contents_write, ← settle_continuable_of_not_closed hc]
      exact .recorded key .continuable continuation nowMillis s.contents
  | @guarded key continuation nowMillis hc =>
      refine Or.inr ⟨_, rfl, ?_⟩
      have hspec : Spec store _ s.contents _ _ :=
        .recorded key .continuable continuation nowMillis s.contents
      rwa [contents_eq_update (settle_continuable_of_closed hc)] at hspec
  | @buried key continuation nowMillis hd ho =>
      refine Or.inr ⟨_, rfl, ?_⟩
      rw [VStore.contents_write,
        ← settle_terminal_of_open hd continuation nowMillis ho]
      exact .recorded key .terminal continuation nowMillis s.contents
  | @nothing key continuation nowMillis hd ho =>
      refine Or.inr ⟨_, rfl, ?_⟩
      have hspec : Spec store _ s.contents _ _ :=
        .recorded key .terminal continuation nowMillis s.contents
      rwa [contents_eq_update (settle_terminal_of_not_open hd ho)] at hspec
  | @removed key continuation nowMillis hd =>
      refine Or.inr ⟨_, rfl, ?_⟩
      rw [VStore.contents_erase,
        ← settle_terminal_local hd continuation nowMillis
          (s.contents key.asStr)]
      exact .recorded key .terminal continuation nowMillis s.contents
  | failed e => exact Or.inr ⟨_, rfl, .failed _ _ _ _ e _⟩
  | @read key nowMillis => exact Or.inr ⟨_, rfl, .read key nowMillis s.contents⟩

omit [DecidableEq τ] in
/-- A failing access is the last one of its call and changes nothing; a failed
read counts as a missing key. -/
theorem CallAt.fault {store : ConversationStore} {c : StoreCall}
    {p : Storage τ StoreReply} {s : Entries τ} (h : CallAt store c p s)
    (hp : p.pending = true) (debug : String) :
    ∃ r, p.fault debug = .done r ∧
      ((c.isRecord = true ∧ r = .recorded (.error (.storage debug))) ∨
        (c.isRecord = false ∧ r = .read none)) := by
  cases h with
  | upsert hat =>
      rw [Prog.pending_map] at hp
      rw [Prog.fault_map, hat.fault hp]
      exact ⟨_, rfl, Or.inl ⟨rfl, rfl⟩⟩
  | evict hat =>
      rw [Prog.pending_map] at hp
      rw [Prog.fault_map, hat.fault hp]
      exact ⟨_, rfl, Or.inl ⟨rfl, rfl⟩⟩
  | read key nowMillis => exact ⟨_, rfl, Or.inr ⟨rfl, rfl⟩⟩
  | done c r => cases hp

/-- `CallAt` holds of every call in every interleaving. -/
theorem callAt_relyGuarantee (store : ConversationStore)
    (mayFault : StoreCall → Bool) :
    RelyGuarantee (server τ store mayFault) (fun _ => True) (CallAt store) where
  start := fun {c s} _ => CallAt.start store c s
  access := by
    intro c p s t _ h ht
    refine ⟨trivial, ?_⟩
    cases hp : p.pending with
    | false =>
        obtain ⟨r, rfl⟩ := Prog.eq_done_of_not_pending hp
        exact .done c r _
    | true =>
        rcases (h.access hp t).spec with ⟨_, hat, hs⟩ | ⟨r, hr, _⟩
        · rw [hs]
          exact hat
        · rw [hr]
          exact .done c r _
  fault := by
    intro c p s debug _ h
    cases hp : p.pending with
    | false =>
        obtain ⟨r, rfl⟩ := Prog.eq_done_of_not_pending hp
        exact .done c r s
    | true =>
        obtain ⟨r, hr, _⟩ := h.fault hp debug
        rw [hr]
        exact .done c r s
  stable := fun h hE => h.mono hE
  reclaim := fun _ => trivial

/-- In a run of the store every call stands where `CallAt` says. -/
theorem callAt_of_run {store : ConversationStore} {mayFault : StoreCall → Bool}
    {s₀ : Entries τ} {acts : List (StoreAction τ)} {s : StorePool τ}
    (hr : Run (server τ store mayFault) (Pool.fresh s₀) acts s) {i : Nat}
    {c : StoreCall} {p : Storage τ StoreReply}
    (hi : s.calls i = .running c p) : CallAt store c p s.store := by
  have hholds := (callAt_relyGuarantee store mayFault).run hr (Holds.fresh trivial)
  have hcall := hholds.calls i
  rw [hi] at hcall
  exact hcall

end RestToA2a.Policy.CacheCalls
