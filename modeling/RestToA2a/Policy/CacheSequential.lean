import Mathlib.Data.List.Induction
import RestToA2a.Policy.CacheClosing

/-!
# The store used by one caller at a time

With nobody else on the map every operation of the store succeeds and does in
one go what `settle` and `readable` say.  Over a history of operations this
makes the local and the remote backend comparable: they differ on exactly the
keys under which a task was ended that had been continued before.
-/

namespace RestToA2a.Policy.CacheSequential

open RestToA2a.Verified.VersionedStore
open RestToA2a.Verified.StorageProgram
open RestToA2a.Policy.A2a
open RestToA2a.Policy.Cache
open RestToA2a.Policy.Cache.ConversationStore
open RestToA2a.Policy.CacheSteps
open RestToA2a.Policy.CacheCalls
open RestToA2a.Policy.CacheClosing

variable {τ : Type} [DecidableEq τ]

/-! ## Single operations -/

theorem run_getContinuation (m : Mint String ConversationEntry τ) (key : CacheKey)
    (nowMillis : Nat) (s : Entries τ) :
    (ConversationStore.getContinuation key nowMillis).run m s =
      (readable (s.contents key.asStr) nowMillis, s) := rfl

private theorem run_attempt (m : Mint String ConversationEntry τ) {key : CacheKey}
    {mode : StoreMode τ} (entry : ConversationEntry)
    (retry : Storage τ (Except CacheError Unit)) {s : Entries τ}
    (h : s.Accepts key.asStr mode) :
    (attempt key mode entry retry).run m s =
      (.ok (), s.write key.asStr entry (m.token s key.asStr)) := by
  simp only [attempt, Prog.run_store_of_accepts m h, Prog.run_done]

private theorem run_attempt_retry (m : Mint String ConversationEntry τ)
    {key : CacheKey} {mode : StoreMode τ} (entry : ConversationEntry)
    (retry : Storage τ (Except CacheError Unit)) {s : Entries τ}
    (h : ¬ s.Accepts key.asStr mode) :
    (attempt key mode entry retry).run m s = retry.run m s := by
  simp only [attempt, Prog.run_store_of_not_accepts m h]

/-- An upsert alone leaves a tombstone, and everything else, as it is. -/
theorem run_upsert_of_closed (m : Mint String ConversationEntry τ)
    (store : ConversationStore) {key : CacheKey} (continuation : Continuation)
    (nowMillis : Nat) {s : Entries τ} (h : Closed s key) :
    (store.upsert key continuation nowMillis).run m s = (.ok (), s) := by
  obtain ⟨existing, hcontents, hState⟩ := h
  obtain ⟨found, hEntry, rfl⟩ := Option.map_eq_some_iff.mp hcontents
  have hmiss : ¬ s.Accepts key.asStr .absent := by
    simp [VStore.Accepts, hEntry]
  simp only [upsert]
  rw [run_attempt_retry m _ _ hmiss]
  simp only [casMaxRetries, upsertRetry, Prog.run_get, hEntry, hState, if_true,
    Prog.run_done]

/-- An upsert alone of a key without a tombstone writes the live entry. -/
theorem run_upsert_of_not_closed (m : Mint String ConversationEntry τ)
    (store : ConversationStore) {key : CacheKey} (continuation : Continuation)
    (nowMillis : Nat) {s : Entries τ} (h : ¬ Closed s key) :
    (store.upsert key continuation nowMillis).run m s =
      (.ok (), s.write key.asStr (store.liveEntry continuation nowMillis)
        (m.token s key.asStr)) := by
  cases hEntry : s.entries key.asStr with
  | none => exact run_attempt m _ _ hEntry
  | some found =>
      obtain ⟨existing, version⟩ := found
      have hcontents := VStore.contents_of_entries hEntry
      have hState : existing.state ≠ .terminal :=
        fun hTerm => h ⟨existing, hcontents, hTerm⟩
      have hmiss : ¬ s.Accepts key.asStr .absent := by
        simp [VStore.Accepts, hEntry]
      have hAcc : s.Accepts key.asStr (.cas version) := ⟨existing, hEntry⟩
      simp only [upsert]
      rw [run_attempt_retry m _ _ hmiss]
      simp only [casMaxRetries, upsertRetry, Prog.run_get, hEntry, hState, if_false]
      exact run_attempt m _ _ hAcc

/-- An upsert alone succeeds and settles the entry. -/
theorem run_upsert (m : Mint String ConversationEntry τ)
    (store : ConversationStore) (key : CacheKey) (continuation : Continuation)
    (nowMillis : Nat) (s : Entries τ) :
    ∃ s', (store.upsert key continuation nowMillis).run m s = (.ok (), s') ∧
      s'.contents = Function.update s.contents key.asStr
        (settle store .continuable continuation nowMillis
          (s.contents key.asStr)) := by
  by_cases h : Closed s key
  · refine ⟨s, run_upsert_of_closed m store continuation nowMillis h, ?_⟩
    rw [settle_continuable_of_closed h]
    exact (Function.update_eq_self _ _).symm
  · refine ⟨_, run_upsert_of_not_closed m store continuation nowMillis h, ?_⟩
    rw [VStore.contents_write, settle_continuable_of_not_closed h]

/-- An eviction alone succeeds and settles the entry. -/
theorem run_evict (m : Mint String ConversationEntry τ)
    (store : ConversationStore) (key : CacheKey) (continuation : Continuation)
    (nowMillis : Nat) (s : Entries τ) :
    ∃ s', (store.evict key nowMillis).run m s = (.ok (), s') ∧
      s'.contents = Function.update s.contents key.asStr
        (settle store .terminal continuation nowMillis (s.contents key.asStr)) := by
  cases hd : store.distributed with
  | false =>
      refine ⟨s.erase key.asStr, by simp [ConversationStore.evict, hd], ?_⟩
      rw [VStore.contents_erase, settle_terminal_local hd]
  | true =>
      simp only [ConversationStore.evict, hd, if_true, casMaxRetries, evictRetry,
        Prog.run_get]
      cases hEntry : s.entries key.asStr with
      | none =>
          refine ⟨s, by simp, ?_⟩
          rw [VStore.contents_eq_none.mpr hEntry]
          simp [settle, VStore.contents_eq_none.mpr hEntry]
      | some found =>
          obtain ⟨existing, version⟩ := found
          have hcontents := VStore.contents_of_entries hEntry
          cases hState : existing.state with
          | terminal =>
              refine ⟨s, by simp [hState], ?_⟩
              rw [settle_terminal_of_not_open hd fun ho =>
                not_closed_of_open ho ⟨existing, hcontents, hState⟩]
              exact (Function.update_eq_self _ _).symm
          | continuable =>
              have hAcc : s.Accepts key.asStr (.cas version) := ⟨existing, hEntry⟩
              refine ⟨_, by simpa [hState] using run_attempt m _ _ hAcc, ?_⟩
              rw [VStore.contents_write,
                settle_terminal_of_open hd _ _ ⟨existing, hcontents, hState⟩]

/-- **An outcome recorded alone** succeeds and settles the entry of its key. -/
theorem run_recordOutcome (m : Mint String ConversationEntry τ)
    (store : ConversationStore) (key : CacheKey) (stateClass : StateClass)
    (continuation : Continuation) (nowMillis : Nat) (s : Entries τ) :
    ∃ s', (store.recordOutcome key stateClass continuation nowMillis).run m s =
        (.ok (), s') ∧
      s'.contents = Function.update s.contents key.asStr
        (settle store stateClass continuation nowMillis
          (s.contents key.asStr)) := by
  cases stateClass with
  | continuable => exact run_upsert m store key continuation nowMillis s
  | terminal => exact run_evict m store key continuation nowMillis s
  | unknown => exact ⟨s, rfl, (Function.update_eq_self _ _).symm⟩

/-! ## Histories -/

/-- What a call does to the abstract store when it succeeds. -/
def effect (store : ConversationStore) (c : StoreCall) (a : Conversations) :
    Conversations :=
  match c with
  | .recordOutcome key stateClass continuation nowMillis =>
      Function.update a key.asStr
        (settle store stateClass continuation nowMillis (a key.asStr))
  | .getContinuation _ _ => a

/-- The storage after a history of calls, each made when the one before has
returned. -/
def storeAfter (m : Mint String ConversationEntry τ) (store : ConversationStore)
    (s : Entries τ) (h : List StoreCall) : Entries τ :=
  h.foldl (fun s c => ((c.code store).run m s).2) s

/-- What the calls of a history return. -/
def replies (m : Mint String ConversationEntry τ) (store : ConversationStore) :
    Entries τ → List StoreCall → List StoreReply
  | _, [] => []
  | s, c :: h =>
      ((c.code store).run m s).1 :: replies m store ((c.code store).run m s).2 h

theorem contents_run_code (m : Mint String ConversationEntry τ)
    (store : ConversationStore) (c : StoreCall) (s : Entries τ) :
    ((c.code store).run m s).2.contents = effect store c s.contents := by
  cases c with
  | recordOutcome key stateClass continuation nowMillis =>
      obtain ⟨s', hrun, hs'⟩ :=
        run_recordOutcome m store key stateClass continuation nowMillis s
      simp only [StoreCall.code, Prog.run_map, hrun, hs', effect]
  | getContinuation key nowMillis => rfl

theorem contents_storeAfter (m : Mint String ConversationEntry τ)
    (store : ConversationStore) (h : List StoreCall) (s : Entries τ) :
    (storeAfter m store s h).contents =
      h.foldl (fun a c => effect store c a) s.contents := by
  induction h generalizing s with
  | nil => rfl
  | cons c h ih =>
      simp only [storeAfter, List.foldl_cons] at ih ⊢
      rw [ih, contents_run_code]

/-- The reply to a lookup is what the storage before it holds. -/
theorem replies_getContinuation (m : Mint String ConversationEntry τ)
    (store : ConversationStore) {h : List StoreCall} {n : Nat} {key : CacheKey}
    {nowMillis : Nat} (s : Entries τ)
    (hn : h[n]? = some (.getContinuation key nowMillis)) :
    (replies m store s h)[n]? = some (.read
      (readable ((storeAfter m store s (h.take n)).contents key.asStr)
        nowMillis)) := by
  induction h generalizing s n with
  | nil => simp at hn
  | cons c h ih =>
      cases n with
      | zero =>
          simp only [List.getElem?_cons_zero, Option.some.injEq] at hn
          subst hn
          rfl
      | succ n =>
          simp only [List.getElem?_cons_succ] at hn
          simpa [replies, storeAfter] using ih ((c.code store).run m s).2 hn

/-! ## The two backends -/

/-- A continuable outcome was recorded under the key. -/
def Continued (key : CacheKey) (h : List StoreCall) : Prop :=
  ∃ continuation nowMillis,
    .recordOutcome key .continuable continuation nowMillis ∈ h

/-- A terminal outcome was recorded under the key. -/
def Ended (key : CacheKey) (h : List StoreCall) : Prop :=
  ∃ continuation nowMillis,
    .recordOutcome key .terminal continuation nowMillis ∈ h

/-- The key was continued, and later a task was ended under it. -/
def Concluded (key : CacheKey) (h : List StoreCall) : Prop :=
  ∃ before after, h = before ++ after ∧ Continued key before ∧ Ended key after

theorem continued_snoc {key : CacheKey} {h : List StoreCall} {c : StoreCall} :
    Continued key (h ++ [c]) ↔ Continued key h ∨ Continued key [c] := by
  constructor
  · rintro ⟨continuation, nowMillis, hmem⟩
    rcases List.mem_append.mp hmem with hOld | hNew
    · exact Or.inl ⟨continuation, nowMillis, hOld⟩
    · exact Or.inr ⟨continuation, nowMillis, hNew⟩
  · rintro (⟨continuation, nowMillis, hmem⟩ | ⟨continuation, nowMillis, hmem⟩)
    · exact ⟨continuation, nowMillis, List.mem_append_left _ hmem⟩
    · exact ⟨continuation, nowMillis, List.mem_append_right _ hmem⟩

theorem concluded_snoc {key : CacheKey} {h : List StoreCall} {c : StoreCall} :
    Concluded key (h ++ [c]) ↔
      Concluded key h ∨ (Continued key h ∧ Ended key [c]) := by
  constructor
  · rintro ⟨before, after, hsplit, hBefore, continuation, nowMillis, hmem⟩
    rcases List.eq_nil_or_concat after with rfl | ⟨front, last, rfl⟩
    · cases hmem
    · rw [List.concat_eq_append, ← List.append_assoc] at hsplit
      obtain ⟨rfl, hlast⟩ := List.append_inj' hsplit rfl
      cases hlast
      rw [List.concat_eq_append, List.mem_append] at hmem
      rcases hmem with hFront | hLast
      · exact Or.inl ⟨before, front, rfl, hBefore, continuation, nowMillis, hFront⟩
      · obtain ⟨d, n, hCont⟩ := hBefore
        exact Or.inr ⟨⟨d, n, List.mem_append_left _ hCont⟩,
          continuation, nowMillis, hLast⟩
  · rintro (⟨before, after, rfl, hBefore, continuation, nowMillis, hmem⟩ |
      ⟨hCont, hEnd⟩)
    · exact ⟨before, after ++ [c], by simp, hBefore, continuation, nowMillis,
        List.mem_append_left _ hmem⟩
    · exact ⟨h, [c], rfl, hCont, hEnd⟩

/-- What the two backends hold under a key after the same history: the remote
one the tombstone of a concluded key, else both the same, which is an entry
exactly if the key was continued. -/
structure Agreement (key : CacheKey) (h : List StoreCall)
    (localEntry remoteEntry : Option ConversationEntry) : Prop where
  concluded : Concluded key h → ∃ e, remoteEntry = some e ∧ e.state = .terminal
  same : ¬ Concluded key h → remoteEntry = localEntry
  continued : ¬ Concluded key h → Continued key h →
    ∃ e, remoteEntry = some e ∧ e.state = .continuable
  untouched : ¬ Continued key h → remoteEntry = none

theorem Concluded.continued {key : CacheKey} {h : List StoreCall}
    (hc : Concluded key h) : Continued key h := by
  obtain ⟨before, after, rfl, ⟨continuation, nowMillis, hmem⟩, _⟩ := hc
  exact ⟨continuation, nowMillis, List.mem_append_left _ hmem⟩

/-- A call that neither continues the key nor ends a task under it. -/
private theorem Agreement.skip {key : CacheKey} {h : List StoreCall}
    {l r : Option ConversationEntry} (hA : Agreement key h l r) {c : StoreCall}
    (hCont : ¬ Continued key [c]) (hEnd : ¬ Ended key [c]) :
    Agreement key (h ++ [c]) l r := by
  have hConcluded : Concluded key (h ++ [c]) ↔ Concluded key h := by
    rw [concluded_snoc]
    simp [hEnd]
  have hContinued : Continued key (h ++ [c]) ↔ Continued key h := by
    rw [continued_snoc]
    simp [hCont]
  constructor
  · rw [hConcluded]
    exact hA.concluded
  · rw [hConcluded]
    exact hA.same
  · rw [hConcluded, hContinued]
    exact hA.continued
  · rw [hContinued]
    exact hA.untouched

private theorem Agreement.onContinuable {key : CacheKey} {h : List StoreCall}
    {l r : Option ConversationEntry} (hA : Agreement key h l r)
    (ttlSeconds : UInt32) (continuation : Continuation) (nowMillis : Nat) :
    Agreement key
      (h ++ [.recordOutcome key .continuable continuation nowMillis])
      (settle (.new false ttlSeconds) .continuable continuation nowMillis l)
      (settle (.new true ttlSeconds) .continuable continuation nowMillis r) := by
  have hConcluded : Concluded key
      (h ++ [.recordOutcome key .continuable continuation nowMillis]) ↔
        Concluded key h := by
    rw [concluded_snoc]
    simp [Ended]
  -- an open key gets the same live entry on both backends
  have hLive : ¬ Concluded key h → ∀ store : ConversationStore,
      settle store .continuable continuation nowMillis r =
        some (store.liveEntry continuation nowMillis) := by
    intro hno store
    by_cases hCont : Continued key h
    · obtain ⟨e, he, hState⟩ := hA.continued hno hCont
      simp [settle, he, hState]
    · rw [hA.untouched hCont]
      rfl
  refine ⟨fun hc => ?_, fun hno => ?_, fun hno _ => ?_, fun hno => ?_⟩
  · obtain ⟨e, he, hTerm⟩ := hA.concluded (hConcluded.mp hc)
    exact ⟨e, by rw [he, settle_terminal rfl _ _ _ hTerm], hTerm⟩
  · rw [hConcluded] at hno
    rw [← hA.same hno, hLive hno, hLive hno]
    rfl
  · rw [hConcluded] at hno
    exact ⟨_, hLive hno _, rfl⟩
  · exact absurd ⟨continuation, nowMillis, by simp⟩ hno

private theorem Agreement.onTerminal {key : CacheKey} {h : List StoreCall}
    {l r : Option ConversationEntry} (hA : Agreement key h l r)
    (ttlSeconds : UInt32) (continuation : Continuation) (nowMillis : Nat) :
    Agreement key (h ++ [.recordOutcome key .terminal continuation nowMillis])
      (settle (.new false ttlSeconds) .terminal continuation nowMillis l)
      (settle (.new true ttlSeconds) .terminal continuation nowMillis r) := by
  have hEnd : Ended key [.recordOutcome key .terminal continuation nowMillis] :=
    ⟨continuation, nowMillis, by simp⟩
  have hContinued : Continued key
      (h ++ [.recordOutcome key .terminal continuation nowMillis]) ↔
        Continued key h := by
    rw [continued_snoc]
    simp [Continued]
  have hConcluded : Concluded key
      (h ++ [.recordOutcome key .terminal continuation nowMillis]) ↔
        Continued key h := by
    rw [concluded_snoc]
    constructor
    · rintro (hc | ⟨hCont, _⟩)
      · exact hc.continued
      · exact hCont
    · exact fun hCont => Or.inr ⟨hCont, hEnd⟩
  refine ⟨fun hc => ?_, fun hno => ?_, fun hno hc => ?_, fun hno => ?_⟩
  · by_cases hOld : Concluded key h
    · obtain ⟨e, he, hTerm⟩ := hA.concluded hOld
      exact ⟨e, by rw [he, settle_terminal rfl _ _ _ hTerm], hTerm⟩
    · obtain ⟨e, he, hCont⟩ := hA.continued hOld (hConcluded.mp hc)
      refine ⟨tombstone (.new true ttlSeconds) nowMillis, ?_, rfl⟩
      simp [settle, he, hCont, ConversationStore.new]
  · rw [hConcluded] at hno
    have hr := hA.untouched hno
    rw [← hA.same fun hc => hno hc.continued, hr]
    rfl
  · rw [hConcluded] at hno
    exact absurd (hContinued.mp hc) hno
  · rw [hContinued] at hno
    rw [hA.untouched hno]
    rfl

/-- Every call of a history keeps the agreement. -/
theorem Agreement.step {key : CacheKey} {h : List StoreCall} {l r : Conversations}
    (hA : Agreement key h (l key.asStr) (r key.asStr)) (ttlSeconds : UInt32)
    (c : StoreCall) :
    Agreement key (h ++ [c]) (effect (.new false ttlSeconds) c l key.asStr)
      (effect (.new true ttlSeconds) c r key.asStr) := by
  cases c with
  | getContinuation key' nowMillis =>
      exact hA.skip (by simp [Continued]) (by simp [Ended])
  | recordOutcome key' stateClass continuation nowMillis =>
      by_cases hk : key = key'
      · subst hk
        simp only [effect, Function.update_self]
        cases stateClass with
        | continuable => exact hA.onContinuable ttlSeconds continuation nowMillis
        | terminal => exact hA.onTerminal ttlSeconds continuation nowMillis
        | unknown => exact hA.skip (by simp [Continued]) (by simp [Ended])
      · have hs : key.asStr ≠ key'.asStr := fun h => hk (CacheKey.ext h)
        simp only [effect, ne_eq, hs, not_false_eq_true, Function.update_of_ne]
        exact hA.skip (by simp [Continued, hk]) (by simp [Ended, hk])

theorem agreement_of_history (key : CacheKey) (ttlSeconds : UInt32)
    (h : List StoreCall) :
    Agreement key h
      (h.foldl (fun a c => effect (.new false ttlSeconds) c a) (fun _ => none)
        key.asStr)
      (h.foldl (fun a c => effect (.new true ttlSeconds) c a) (fun _ => none)
        key.asStr) := by
  induction h using List.reverseRecOn with
  | nil =>
      refine ⟨fun hc => ?_, fun _ => rfl, fun _ hc => ?_, fun _ => rfl⟩
      · obtain ⟨_, _, hmem⟩ := hc.continued
        cases hmem
      · obtain ⟨_, _, hmem⟩ := hc
        cases hmem
  | append_singleton h c ih =>
      simp only [List.foldl_append, List.foldl_cons, List.foldl_nil]
      exact ih.step ttlSeconds c

/-- **The two backends side by side.**  In a history of calls from the empty
store a remote backend answers a lookup as a local one does, except that once
the key is concluded it answers nothing. -/
theorem remote_read_of_local_read (m m' : Mint String ConversationEntry τ)
    (ttlSeconds : UInt32) {h : List StoreCall} {n : Nat} {key : CacheKey}
    {nowMillis : Nat} (hn : h[n]? = some (.getContinuation key nowMillis)) :
    ∃ d d', (replies m (.new false ttlSeconds) VStore.empty h)[n]? =
        some (.read d) ∧
      (replies m' (.new true ttlSeconds) VStore.empty h)[n]? = some (.read d') ∧
      (Concluded key (h.take n) → d' = none) ∧
      (¬ Concluded key (h.take n) → d' = d) := by
  refine ⟨_, _, replies_getContinuation m _ _ hn,
    replies_getContinuation m' _ _ hn, ?_, ?_⟩
  · intro hc
    obtain ⟨e, he, hTerm⟩ := (agreement_of_history key ttlSeconds _).concluded hc
    rw [contents_storeAfter]
    change readable (List.foldl _ (fun _ => none) _ key.asStr) _ = _
    rw [he]
    exact readable_terminal hTerm nowMillis
  · intro hno
    rw [contents_storeAfter, contents_storeAfter]
    exact congrArg (readable · nowMillis)
      ((agreement_of_history key ttlSeconds _).same hno)

/-- Both backends answer every lookup of every history alike. -/
def BackendsAgree (ttlSeconds : UInt32) : Prop :=
  ∀ (h : List StoreCall) (n : Nat) (key : CacheKey) (nowMillis : Nat),
    h[n]? = some (.getContinuation key nowMillis) →
    (replies Mint.counter (.new false ttlSeconds) VStore.empty h)[n]? =
      (replies Mint.counter (.new true ttlSeconds) VStore.empty h)[n]?

/-- A conversation that was ended and is started again under its key. -/
def restarted : List StoreCall :=
  [ .recordOutcome ⟨"rest-to-a2a:k"⟩ .continuable ⟨some "t", some "c"⟩ 10
  , .recordOutcome ⟨"rest-to-a2a:k"⟩ .terminal ⟨some "t", some "c"⟩ 20
  , .recordOutcome ⟨"rest-to-a2a:k"⟩ .continuable ⟨some "u", some "d"⟩ 30
  , .getContinuation ⟨"rest-to-a2a:k"⟩ 40 ]

/-- The local backend resumes the new conversation, the remote one does not. -/
theorem backends_differ : ¬ BackendsAgree 60 := by
  intro h
  have hreplies := h restarted 3 ⟨"rest-to-a2a:k"⟩ 40 rfl
  have hlocal : (replies Mint.counter (.new false 60) VStore.empty restarted)[3]? =
      some (.read (some ⟨some "u", some "d"⟩)) := rfl
  have hremote : (replies Mint.counter (.new true 60) VStore.empty restarted)[3]? =
      some (.read none) := rfl
  rw [hlocal, hremote] at hreplies
  cases hreplies

theorem remote_read_of_local_read_restarted :
    ∃ d', (replies Mint.counter (.new true 60) VStore.empty restarted)[3]? =
      some (.read d') ∧ d' = none := by
  obtain ⟨_, d', _, hremote, hConcluded, _⟩ :=
    remote_read_of_local_read Mint.counter Mint.counter 60
      (rfl : restarted[3]? = some (.getContinuation ⟨"rest-to-a2a:k"⟩ 40))
  refine ⟨d', hremote, hConcluded ⟨restarted.take 1, (restarted.take 3).drop 1,
    rfl, ⟨⟨some "t", some "c"⟩, 10, ?_⟩, ⟨⟨some "t", some "c"⟩, 20, ?_⟩⟩⟩
  · simp [restarted]
  · simp [restarted]

end RestToA2a.Policy.CacheSequential
