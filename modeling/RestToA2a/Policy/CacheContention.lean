import RestToA2a.Policy.CacheCalls
import RestToA2a.Verified.Contention

/-!
# Retry exhaustion is contention

An upsert or an eviction reports a conflict after the attempts of its loop.
Each attempt reads the version of the key and writes on the condition that the
version is still there, so an attempt fails only if somebody else wrote or
removed the key between the read and the write.  `Charged` keeps the books: the
attempts that are left and the interference that was met are together as many
as the attempts there were.

A first write that wants the key absent may fail without any interference; it
is not an attempt of the loop and is not counted.
-/

namespace RestToA2a.Policy.CacheContention

open RestToA2a.Verified.VersionedStore
open RestToA2a.Verified.StorageProgram
open RestToA2a.Verified.ProgramPool
open RestToA2a.Verified.Linearizable
open RestToA2a.Verified.Contention
open RestToA2a.Policy.A2a
open RestToA2a.Policy.Cache
open RestToA2a.Policy.Cache.ConversationStore
open RestToA2a.Policy.CacheSteps
open RestToA2a.Policy.CacheCalls

variable {τ : Type} [DecidableEq τ]

/-! ## Retry loops -/

/-- What the loops of an upsert and of an eviction have in common: out of
attempts they report the conflict, and otherwise they read the key and are done
or go on to a write that would succeed now. -/
structure RetryLoop (key : CacheKey) (entry : ConversationEntry)
    (retry : Nat → Storage τ (Except CacheError Unit)) : Prop where
  exhausted : retry 0 = .done (.error .casConflict)
  pending : ∀ left, (retry (left + 1)).pending = true
  read : ∀ left s t, (retry (left + 1)).access s t = (.done (.ok ()), s) ∨
    ∃ mode, s.Accepts key.asStr mode ∧
      (retry (left + 1)).access s t = (attempt key mode entry (retry left), s)
  failed : ∀ left debug,
    (retry (left + 1)).fault debug = .done (.error (.storage debug))
  bounded : ∀ left, Within (2 * left) (retry left)

omit [DecidableEq τ] in
theorem within_attempt {key : CacheKey} {mode : StoreMode τ}
    {entry : ConversationEntry} {retry : Storage τ (Except CacheError Unit)}
    {n : Nat} (h : Within n retry) : Within (n + 1) (attempt key mode entry retry) := by
  intro r
  cases r with
  | ok u => exact within_done _ _
  | error e =>
      cases e with
      | casMismatch => exact h
      | other debug => exact within_done _ _

omit [DecidableEq τ] in
/-- An attempt behind a guard is one access more as well. -/
theorem within_guarded {key : CacheKey} {mode : StoreMode τ}
    {entry : ConversationEntry} {retry : Storage τ (Except CacheError Unit)}
    {n : Nat} {P : Prop} [Decidable P] (r : Except CacheError Unit)
    (h : Within n retry) :
    Within (n + 1) (if P then .done r else attempt key mode entry retry) := by
  split
  · exact within_done _ _
  · exact within_attempt h

omit [DecidableEq τ] in
/-- After an entry was read comes the end, or a write at the version just read. -/
theorem guarded_attempt {key : CacheKey} {entry : ConversationEntry}
    (retry : Storage τ (Except CacheError Unit)) {s : Entries τ}
    {existing : ConversationEntry} {version : τ}
    (hentry : s.entries key.asStr = some (existing, version)) :
    let next : Storage τ (Except CacheError Unit) :=
      if existing.state = .terminal then .done (.ok ())
      else attempt key (.cas version) entry retry
    next = .done (.ok ()) ∨
      ∃ mode, s.Accepts key.asStr mode ∧ next = attempt key mode entry retry := by
  intro next
  by_cases hterm : existing.state = .terminal
  · exact Or.inl (if_pos hterm)
  · exact Or.inr ⟨.cas version, ⟨existing, hentry⟩, if_neg hterm⟩

theorem retryLoop_upsert (key : CacheKey) (entry : ConversationEntry) :
    RetryLoop key entry
      (upsertRetry key entry : Nat → Storage τ (Except CacheError Unit)) where
  exhausted := rfl
  pending := fun _ => rfl
  read := by
    intro left s t
    simp only [upsertRetry, Prog.access]
    cases hentry : s.entries key.asStr with
    | none => exact Or.inr ⟨.absent, hentry, rfl⟩
    | some found =>
        simpa only [Prod.mk.injEq, and_true] using
          guarded_attempt (upsertRetry key entry left) hentry
  failed := fun _ _ => rfl
  bounded := by
    intro left
    induction left with
    | zero => trivial
    | succ left ih =>
        rintro (e | (_ | ⟨existing, version⟩))
        · exact within_done _ _
        · exact within_attempt ih
        · exact within_guarded _ ih

theorem retryLoop_evict (key : CacheKey) (tombstone : ConversationEntry) :
    RetryLoop key tombstone
      (evictRetry key tombstone : Nat → Storage τ (Except CacheError Unit)) where
  exhausted := rfl
  pending := fun _ => rfl
  read := by
    intro left s t
    simp only [evictRetry, Prog.access]
    cases hentry : s.entries key.asStr with
    | none => exact Or.inl rfl
    | some found =>
        simpa only [Prod.mk.injEq, and_true] using
          guarded_attempt (evictRetry key tombstone left) hentry
  failed := fun _ _ => rfl
  bounded := by
    intro left
    induction left with
    | zero => trivial
    | succ left ih =>
        rintro (e | (_ | ⟨existing, version⟩))
        · exact within_done _ _
        · exact within_done _ _
        · exact within_guarded _ ih

/-! ## The books of one operation -/

/-- The local eviction, a single removal. -/
def removal (key : CacheKey) : Storage τ (Except CacheError Unit) :=
  .delete key.asStr fun
    | .ok () => .done (.ok ())
    | .error other => .done (.error (.ofStorage other))

omit [DecidableEq τ] in
theorem evict_eq (store : ConversationStore) (key : CacheKey) (nowMillis : Nat) :
    (store.evict key nowMillis : Storage τ (Except CacheError Unit)) =
      if store.distributed then
        evictRetry key (store.tombstone nowMillis) casMaxRetries
      else removal key := rfl

/-- Where an operation stands whose loop is `retry`, after `n` writes or removals
of the key by others.  `F` is that an access of it has failed. -/
inductive Charged (F : Prop) (key : CacheKey) (entry : ConversationEntry)
    (retry : Nat → Storage τ (Except CacheError Unit)) (n : Nat) (s : Entries τ) :
    Storage τ (Except CacheError Unit) → Prop where
  | loop {left : Nat} (h : casMaxRetries ≤ n + left) :
      Charged F key entry retry n s (retry left)
  | armed {left : Nat} {mode : StoreMode τ} (hok : s.Accepts key.asStr mode)
      (h : casMaxRetries ≤ n + left + 1) :
      Charged F key entry retry n s (attempt key mode entry (retry left))
  | paid {left : Nat} {mode : StoreMode τ} (h : casMaxRetries ≤ n + left) :
      Charged F key entry retry n s (attempt key mode entry (retry left))
  | removal : Charged F key entry retry n s (removal key)
  | ok : Charged F key entry retry n s (.done (.ok ()))
  | failed {debug : String} (hF : F) :
      Charged F key entry retry n s (.done (.error (.storage debug)))

section Books

variable {F : Prop} {key : CacheKey} {entry : ConversationEntry}
  {retry : Nat → Storage τ (Except CacheError Unit)} {n : Nat}

/-- An access of the operation itself is free, and fails for nothing only where
the interference that made it fail is in the books. -/
theorem Charged.access (hl : RetryLoop key entry retry) {s : Entries τ}
    {p : Storage τ (Except CacheError Unit)} (h : Charged F key entry retry n s p)
    (hp : p.pending = true) (t : τ) :
    Charged F key entry retry n (p.access s t).2 (p.access s t).1 := by
  cases h with
  | @loop left h =>
      cases left with
      | zero =>
          rw [hl.exhausted] at hp
          cases hp
      | succ left =>
          rcases hl.read left s t with hdone | ⟨mode, hok, hread⟩
          · rw [hdone]
            exact .ok
          · rw [hread]
            exact .armed hok h
  | @armed left mode hok h =>
      rw [attempt_access_of_accepts hok]
      exact .ok
  | @paid left mode h =>
      by_cases hok : s.Accepts key.asStr mode
      · rw [attempt_access_of_accepts hok]
        exact .ok
      · rw [attempt_access_of_not_accepts hok]
        exact .loop h
  | removal => exact .ok
  | ok => cases hp
  | failed hF => cases hp

theorem Charged.fault (hl : RetryLoop key entry retry) (hF : F) {s : Entries τ}
    {p : Storage τ (Except CacheError Unit)} (h : Charged F key entry retry n s p)
    (hp : p.pending = true) (debug : String) :
    Charged F key entry retry n s (p.fault debug) := by
  cases h with
  | @loop left h =>
      cases left with
      | zero =>
          rw [hl.exhausted] at hp
          cases hp
      | succ left =>
          rw [hl.failed]
          exact .failed hF
  | armed _ _ => exact .failed hF
  | paid _ => exact .failed hF
  | removal => exact .failed hF
  | ok => cases hp
  | failed _ => cases hp

omit [DecidableEq τ] in
/-- A write that would succeed still does while the version stays. -/
theorem Charged.calm {s s' : Entries τ} {p : Storage τ (Except CacheError Unit)}
    (h : Charged F key entry retry n s p)
    (hv : version s' key.asStr = version s key.asStr) :
    Charged F key entry retry n s' p := by
  cases h with
  | loop h => exact .loop h
  | armed hok h => exact .armed ((accepts_congr hv _).mpr hok) h
  | paid h => exact .paid h
  | removal => exact .removal
  | ok => exact .ok
  | failed hF => exact .failed hF

omit [DecidableEq τ] in
/-- Interference pays for the attempt it spoils. -/
theorem Charged.hit {s s' : Entries τ} {p : Storage τ (Except CacheError Unit)}
    (h : Charged F key entry retry n s p) :
    Charged F key entry retry (n + 1) s' p := by
  cases h with
  | loop h => exact .loop (by omega)
  | armed _ h => exact .paid (by omega)
  | paid h => exact .paid (by omega)
  | removal => exact .removal
  | ok => exact .ok
  | failed hF => exact .failed hF

/-- What the books say of a result. -/
theorem Charged.result (hl : RetryLoop key entry retry) {s : Entries τ}
    {r : Except CacheError Unit} (h : Charged F key entry retry n s (.done r)) :
    r = .ok () ∨ (r = .error .casConflict ∧ casMaxRetries ≤ n) ∨
      (F ∧ ∃ debug, r = .error (.storage debug)) := by
  generalize hp : (.done r : Storage τ (Except CacheError Unit)) = p at h
  cases h with
  | @loop left h =>
      cases left with
      | zero =>
          rw [hl.exhausted] at hp
          cases hp
          exact Or.inr (Or.inl ⟨rfl, h⟩)
      | succ left =>
          have hpending := hl.pending left
          rw [← hp] at hpending
          cases hpending
  | armed _ _ => cases hp
  | paid _ => cases hp
  | removal => cases hp
  | ok =>
      cases hp
      exact Or.inl rfl
  | failed hF =>
      cases hp
      exact Or.inr (Or.inr ⟨hF, _, rfl⟩)

end Books

/-! ## Calls of the store -/

/-- Where a call stands after `n` writes or removals of its key by others. -/
inductive CallCharged (F : Prop) : StoreCall → Nat → Storage τ StoreReply →
    Entries τ → Prop where
  | recorded {key : CacheKey} {stateClass : StateClass}
      {continuation : Continuation} {nowMillis n : Nat} {entry : ConversationEntry}
      {retry : Nat → Storage τ (Except CacheError Unit)} {s : Entries τ}
      {p : Storage τ (Except CacheError Unit)} (hl : RetryLoop key entry retry)
      (h : Charged F key entry retry n s p) :
      CallCharged F (.recordOutcome key stateClass continuation nowMillis) n
        (p.map .recorded) s
  | read (key : CacheKey) (nowMillis n : Nat) (p : Storage τ StoreReply)
      (s : Entries τ) : CallCharged F (.getContinuation key nowMillis) n p s

theorem callCharged_start {F : Prop} (store : ConversationStore) (c : StoreCall)
    (s : Entries τ) : CallCharged F c 0 (c.code store) s := by
  cases c with
  | getContinuation key nowMillis => exact .read key nowMillis 0 _ s
  | recordOutcome key stateClass continuation nowMillis =>
      cases stateClass with
      | continuable =>
          exact .recorded
            (retryLoop_upsert key (store.liveEntry continuation nowMillis))
            (.paid (Nat.le_add_left _ _))
      | unknown =>
          exact .recorded
            (retryLoop_upsert key (store.liveEntry continuation nowMillis)) .ok
      | terminal =>
          have hloop := retryLoop_evict (τ := τ) key (store.tombstone nowMillis)
          refine .recorded hloop ?_
          simp only [recordOutcome, evict_eq]
          split
          · exact .loop (Nat.le_add_left _ _)
          · exact .removal

/-- What the books say of the reply of an outcome. -/
theorem CallCharged.reply {F : Prop} {key : CacheKey} {stateClass : StateClass}
    {continuation : Continuation} {nowMillis n : Nat} {s : Entries τ} {r : StoreReply}
    (h : CallCharged F (.recordOutcome key stateClass continuation nowMillis) n
      (.done r) s) :
    r = .recorded (.ok ()) ∨
      (r = .recorded (.error .casConflict) ∧ casMaxRetries ≤ n) ∨
      (F ∧ ∃ debug, r = .recorded (.error (.storage debug))) := by
  generalize hp : (.done r : Storage τ StoreReply) = p at h
  cases h with
  | @recorded _ _ _ _ _ _ _ _ p hl h =>
      cases p with
      | done r' =>
          cases hp
          rcases h.result hl with rfl | ⟨rfl, hn⟩ | ⟨hF, debug, rfl⟩
          · exact Or.inl rfl
          · exact Or.inr (Or.inl ⟨rfl, hn⟩)
          · exact Or.inr (Or.inr ⟨hF, debug, rfl⟩)
      | get k next => cases hp
      | store k mode v next => cases hp
      | delete k next => cases hp

/-- The books of every call are kept in every interleaving. -/
theorem callCharged_charging (F : Prop) (store : ConversationStore)
    (mayFault : StoreCall → Bool) :
    Charging (server τ store mayFault) (fun c => c.key.asStr) F
      (CallCharged F) where
  start := fun {c s} => callCharged_start store c s
  access := by
    intro c n p s t h hp
    cases h with
    | read key nowMillis n p s => exact .read _ _ _ _ _
    | recorded hl h =>
        rw [Prog.pending_map] at hp
        rw [Prog.access_map]
        exact .recorded hl (h.access hl hp t)
  fault := by
    intro c n p s debug hF h hp
    cases h with
    | read key nowMillis n p s => exact .read _ _ _ _ _
    | recorded hl h =>
        rw [Prog.pending_map] at hp
        rw [Prog.fault_map]
        exact .recorded hl (h.fault hl hF hp debug)
  calm := by
    intro c n p s s' h hv
    cases h with
    | read key nowMillis n p s => exact .read _ _ _ _ _
    | recorded hl h => exact .recorded hl (h.calm hv)
  hit := by
    intro c n p s s' h
    cases h with
    | read key nowMillis n p s => exact .read _ _ _ _ _
    | recorded hl h => exact .recorded hl h.hit

/-- An outcome is recorded within the first write and two accesses an attempt. -/
theorem within_code (store : ConversationStore) (c : StoreCall) :
    Within (2 * casMaxRetries + 1) (c.code store : Storage τ StoreReply) := by
  cases c with
  | getContinuation key nowMillis =>
      refine within_map ?_
      rintro (e | found) <;> trivial
  | recordOutcome key stateClass continuation nowMillis =>
      refine within_map ?_
      cases stateClass with
      | continuable => exact within_attempt ((retryLoop_upsert key _).bounded _)
      | unknown => exact within_done _ _
      | terminal =>
          simp only [recordOutcome, evict_eq]
          split
          · exact within_succ ((retryLoop_evict key _).bounded _)
          · rintro (e | u) <;> exact within_done _ _

/-! ## Runs -/

/-- An outcome that reports the conflict has met the interference. -/
theorem window_of_conflict {store : ConversationStore} {mayFault : StoreCall → Bool}
    {s₀ : Entries τ} {acts : List (StoreAction τ)} {s : StorePool τ}
    (hr : Run (server τ store mayFault) (Pool.fresh s₀) acts s) {i : Nat}
    {key : CacheKey} {stateClass : StateClass} {continuation : Continuation}
    {nowMillis : Nat}
    (hout : outcome (s.calls i) =
      some (.recordOutcome key stateClass continuation nowMillis,
        .recorded (.error .casConflict))) :
    ∃ n, casMaxRetries ≤ n ∧
      Window (server τ store mayFault) i key.asStr (Pool.fresh s₀) acts s n := by
  obtain ⟨m, hzero | ⟨n, hwindow, hcharged⟩⟩ :=
    (callCharged_charging True store mayFault).run hr (fun _ _ => trivial) hout
  · rcases hzero.reply with h | ⟨_, hn⟩ | ⟨_, debug, h⟩
    · cases h
    · exact absurd hn (by decide)
    · cases h
  · rcases hcharged.reply with h | ⟨_, hn⟩ | ⟨_, debug, h⟩
    · cases h
    · exact ⟨n, hn, hwindow⟩
    · cases h

/-- An outcome whose accesses do not fail reports success, unless it met the
interference. -/
theorem ok_of_no_window {store : ConversationStore} {mayFault : StoreCall → Bool}
    {s₀ : Entries τ} {acts : List (StoreAction τ)} {s : StorePool τ}
    (hr : Run (server τ store mayFault) (Pool.fresh s₀) acts s) {i : Nat}
    {key : CacheKey} {stateClass : StateClass} {continuation : Continuation}
    {nowMillis : Nat} {r : StoreReply}
    (hout : outcome (s.calls i) =
      some (.recordOutcome key stateClass continuation nowMillis, r))
    (hfault : ∀ debug, .fault i debug ∉ acts)
    (hfew : ∀ n, Window (server τ store mayFault) i key.asStr (Pool.fresh s₀) acts s n →
      n < casMaxRetries) : r = .recorded (.ok ()) := by
  obtain ⟨m, hzero | ⟨n, hwindow, hcharged⟩⟩ :=
    (callCharged_charging False store mayFault).run hr hfault hout
  · rcases hzero.reply with h | ⟨_, hn⟩ | ⟨hF, _⟩
    · exact h
    · exact absurd hn (by decide)
    · exact hF.elim
  · rcases hcharged.reply with h | ⟨_, hn⟩ | ⟨hF, _⟩
    · exact h
    · exact absurd (hfew n hwindow) (by omega)
    · exact hF.elim

/-- **Retry exhaustion is contention.**  In every run of the store, an outcome
that reports the conflict has had at least as many writes or removals of its own
key by others, between its first and its last storage operation, as a loop has
attempts.  Where none of its operations fails and it had fewer, it reports
success, or is running and has not made the last of its operations. -/
theorem conflict_contended (store : ConversationStore)
    {mayFault : StoreCall → Bool} {s₀ : Entries τ} {acts : List (StoreAction τ)}
    {s : StorePool τ} (hr : Run (server τ store mayFault) (Pool.fresh s₀) acts s)
    {i : Nat} {key : CacheKey} {stateClass : StateClass}
    {continuation : Continuation} {nowMillis : Nat}
    (hcall : (s.calls i).call =
      some (.recordOutcome key stateClass continuation nowMillis)) :
    (outcome (s.calls i) =
        some (.recordOutcome key stateClass continuation nowMillis,
          .recorded (.error .casConflict)) →
      ∃ n, casMaxRetries ≤ n ∧
        Window (server τ store mayFault) i key.asStr (Pool.fresh s₀) acts s n) ∧
    ((∀ debug, .fault i debug ∉ acts) →
      (∀ n, Window (server τ store mayFault) i key.asStr (Pool.fresh s₀) acts s n →
        n < casMaxRetries) →
      outcome (s.calls i) =
          some (.recordOutcome key stateClass continuation nowMillis,
            .recorded (.ok ())) ∨
        ∃ p, s.calls i =
            .running (.recordOutcome key stateClass continuation nowMillis) p ∧
          p.pending = true ∧ acts.countP (operates i) ≤ 2 * casMaxRetries) := by
  refine ⟨window_of_conflict hr, fun hfault hfew => ?_⟩
  cases hout : outcome (s.calls i) with
  | some x =>
      obtain ⟨c, r⟩ := x
      have hc := call_of_outcome hout
      rw [hcall] at hc
      cases hc
      rw [ok_of_no_window hr hout hfault hfew]
      exact Or.inl rfl
  | none =>
      refine Or.inr ?_
      cases hphase : s.calls i with
      | idle =>
          rw [hphase] at hcall
          cases hcall
      | returned c r =>
          rw [hphase] at hout
          cases hout
      | running c p =>
          rw [hphase] at hcall hout
          cases hcall
          have hpending : p.pending = true := by
            cases p with
            | done r => cases hout
            | _ => rfl
          obtain ⟨left, hleft, hcount⟩ :=
            (within_run (fun c => within_code store c) hr).2 _ p
              (by rw [hphase]; rfl)
          obtain ⟨m, rfl, _⟩ := hleft.operate hpending
          exact ⟨p, rfl, hpending, by omega⟩

/-- An upsert that loses its key to a removal, to another upsert and to a removal
again, each between its read and its write. -/
def contendedUpsert : List (StoreAction Nat) :=
  let key : CacheKey := ⟨"rest-to-a2a:k"⟩
  let outcome : StoreCall := .recordOutcome key .continuable ⟨some "t", some "c"⟩ 10
  [ .invoke 0 outcome
  , .access 0 1
  , .invoke 1 outcome
  , .access 1 2
  , .access 1 2
  , .reclaim key.asStr
  , .access 1 2
  , .access 1 2
  , .invoke 2 outcome
  , .access 2 2
  , .access 1 3
  , .access 1 3
  , .reclaim key.asStr
  , .access 1 3
  , .ret 1 ]

theorem conflict_contended_upsert :
    ∃ s : StorePool Nat, Run (server Nat (.new true 60) StoreCall.isRecord)
        (Pool.fresh VStore.empty) contendedUpsert s ∧
      s.calls 1 = .returned
        (.recordOutcome ⟨"rest-to-a2a:k"⟩ .continuable ⟨some "t", some "c"⟩ 10)
        (.recorded (.error .casConflict)) ∧
      ∃ n, casMaxRetries ≤ n ∧
        Window (server Nat (.new true 60) StoreCall.isRecord) 1 "rest-to-a2a:k"
          (Pool.fresh VStore.empty) contendedUpsert s n := by
  have hr := run_exec (server Nat (.new true 60) StoreCall.isRecord)
    (Pool.fresh VStore.empty) contendedUpsert (by decide)
  exact ⟨_, hr, rfl, (conflict_contended (.new true 60) (i := 1) hr rfl).1 rfl⟩

end RestToA2a.Policy.CacheContention
