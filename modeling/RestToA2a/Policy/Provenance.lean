import RestToA2a.Policy.Continuity
import RestToA2a.Policy.TurnServer

/-!
# Where the ids of a send come from

However the filters of any number of turns interleave, every continuable entry
of the store was written by one response filter from one continuable reply, and
that filter's request was hashed to the entry's key.  So the ids a send carries
all come from one reply of its own conversation.
-/

namespace RestToA2a.Policy.Provenance

open RestToA2a.Verified.VersionedStore
open RestToA2a.Verified.StorageProgram
open RestToA2a.Verified.ProgramPool
open RestToA2a.Verified.Linearizable
open RestToA2a.Verified.Wrapping
open RestToA2a.Policy.Serde
open RestToA2a.Policy.A2a
open RestToA2a.Policy.Binding
open RestToA2a.Policy.Cache
open RestToA2a.Policy.Cache.ConversationStore
open RestToA2a.Policy.CacheSteps
open RestToA2a.Policy.CacheCalls
open RestToA2a.Policy.CacheLinearizable
open RestToA2a.Policy.CacheClosing
open RestToA2a.Policy.Continuation
open RestToA2a.Policy.Gateway
open RestToA2a.Policy.ConfigMap
open RestToA2a.Policy.Filter
open RestToA2a.Policy.Turns
open RestToA2a.Policy.Continuity
open RestToA2a.Policy.TurnServer

variable {τ : Type} [DecidableEq τ]

/-! ## What an effect says -/

section Effect

variable {rt : Runtime} {config : PolicyConfig} {mayFault : TurnCall → Bool}
  {a a' : Conversations}

omit [DecidableEq τ] in
/-- Where the ids of a send are from: there is no conversation string, or they
are those of the entry of its key. -/
theorem forwarded_of_effect (hmode : config.continuationMode = .cache)
    {req : HttpRequest} {clock : Clock} {ctx : RequestContext}
    {message : SendMessage}
    (h : OuterSpec (turnServer τ rt config mayFault) (Inner rt config)
      (LossySpec (conversationStore config)) (.request req clock) a
      (.filtered (.continued ctx message)) a') :
    (conversationValue config req = none ∧ ctx.continuation = {}) ∨
      ∃ v d, conversationValue config req = some v ∧
        ctx.continuation = cached (CacheKey.fromHashed rt v) d ∧
        sentIds message.params = (d.getD {}).members ∧
        (d = none ∨
          d = readable (a (CacheKey.fromHashed rt v).asStr) (nowMillis clock)) := by
  generalize hreply : TurnReply.filtered (.continued ctx message) = reply at h
  cases h with
  | inner hin hspec =>
      cases hin with
      | @lookup _ _ prompt v hp hv =>
          simp only [TurnReply.filtered.injEq] at hreply
          obtain ⟨hctx, hids⟩ := forward_eq_continued hreply.symm
          refine Or.inr ⟨v, _, hv, hctx, hids, ?_⟩
          rcases read_of_effect hspec with rfl | rfl
          · exact Or.inl rfl
          · exact Or.inr rfl
  | immediate _ hdone =>
      rcases code_request (τ := τ) rt hmode req clock with
        ⟨flow, hflow, hnone⟩ | ⟨c, f, hin, hcode⟩
      · change TurnCall.code rt config (.request req clock) = _ at hdone
        rw [hflow, ← hreply] at hdone
        simp only [Prog.done.injEq, TurnReply.filtered.injEq] at hdone
        exact Or.inl (hnone ctx message hdone)
      · change TurnCall.code rt config (.request req clock) = _ at hdone
        rw [hcode] at hdone
        cases hin with
        | lookup => cases hdone

/-- A call of the pool `s` recorded the ids of a continuable reply, at the time
of `clock`; the reply was to a request of the conversation string `v`. -/
inductive Recorded (rt : Runtime) (config : PolicyConfig) (s : TurnPool τ)
    (v : String) : Continuation → Clock → Prop where
  | reply {j origin : Nat} {req : HttpRequest} {requestClock clock : Clock}
      {ctx : RequestContext} {message : SendMessage} {res : HttpResponse}
      {result : Json}
      (hrequest : s.calls origin =
        .returned (.request req requestClock) (.filtered (.continued ctx message)))
      (hv : conversationValue config req = some v)
      (hresponse : outcome (s.calls j) = some (.response origin ctx res clock,
        .delivered (deliver rt config res
          (persistWarnings ctx.continuation .continuable (.ok ())))))
      (hes : isEventStream res.headers = false)
      (hresult : (parseResponse rt config.binding res.body).result = some result)
      (hclass : (parseResult result).class = .continuable) :
      Recorded rt config s v (parseResult result).continuation clock

theorem Recorded.mono {s s' : TurnPool τ} {v : String} {ids : Continuation}
    {clock : Clock} (h : Recorded rt config s v ids clock)
    {acts : List (TurnAction τ)}
    (hr : Run (turnServer τ rt config mayFault) s acts s') :
    Recorded rt config s' v ids clock := by
  cases h with
  | reply hrequest hv hresponse hes hresult hclass =>
      exact .reply (hr.returned_mono hrequest) hv (outcome_run hr hresponse) hes
        hresult hclass

omit [DecidableEq τ] in
/-- A filter that leaves an entry continuable found it so, or is a response
filter that has just persisted the ids of its continuable reply. -/
theorem written_of_effect {c : TurnCall} {r : TurnReply}
    (h : OuterSpec (turnServer τ rt config mayFault) (Inner rt config)
      (LossySpec (conversationStore config)) c a r a')
    {k : String} {e : ConversationEntry} (he : a' k = some e)
    (hCont : e.state = .continuable) :
    a k = some e ∨ ∃ origin ctx res clock result key,
      c = .response origin ctx res clock ∧
        r = .delivered (deliver rt config res
          (persistWarnings ctx.continuation .continuable (.ok ()))) ∧
        isEventStream res.headers = false ∧
        (parseResponse rt config.binding res.body).result = some result ∧
        (parseResult result).class = .continuable ∧
        ctx.continuation.cacheKey = some key ∧ k = key.asStr ∧
        e = (conversationStore config).liveEntry (parseResult result).continuation
          (nowMillis clock) := by
  cases h with
  | immediate => exact Or.inl he
  | inner hin hspec =>
      rcases entry_of_effect hspec k with
        heq | ⟨key, stateClass, ids, now, rfl, rfl, hk, heq⟩
      · exact Or.inl (heq ▸ he)
      · rw [heq] at he
        rcases continuable_of_settle he hCont with hsame | ⟨hclass, rfl⟩
        · exact Or.inl hsame
        · cases hin with
          | @persist origin ctx res clock result key hes hresult hkey =>
              exact Or.inr ⟨origin, ctx, res, clock, result, key, rfl,
                by rw [hclass]; rfl, hes, hresult, hclass, hkey, hk, rfl⟩

end Effect

/-! ## Whole runs -/

/-- What is known of every state of a run: a response belongs to a request that
was forwarded, the key left for it is that of the request's conversation, and
every continuable entry was recorded for the conversation of its key. -/
structure Sourced (rt : Runtime) (config : PolicyConfig) (s : TurnPool τ) :
    Prop where
  origin : ∀ {j origin ctx res clock},
    (s.calls j).call = some (.response origin ctx res clock) →
    ∃ req requestClock message, s.calls origin =
      .returned (.request req requestClock) (.filtered (.continued ctx message))
  context : ∀ {i req clock ctx message key},
    outcome (s.calls i) =
      some (.request req clock, .filtered (.continued ctx message)) →
    ctx.continuation.cacheKey = some key →
    ∃ v, conversationValue config req = some v ∧ key = CacheKey.fromHashed rt v
  entry : ∀ {k e}, s.store.contents k = some e → e.state = .continuable →
    ∃ v ids clock, k = (CacheKey.fromHashed rt v).asStr ∧
      e = (conversationStore config).liveEntry ids (nowMillis clock) ∧
      Recorded rt config s v ids clock

section Runs

variable {rt : Runtime} {config : PolicyConfig} {mayFault : TurnCall → Bool}
  {s s' : TurnPool τ} {a : TurnAction τ}

omit [DecidableEq τ] in
theorem origin_of_forwardedWith
    {calls : Nat → Phase TurnCall String ConversationEntry τ TurnReply}
    {origin : Nat} {ctx : RequestContext}
    (h : forwardedWith calls origin ctx = true) :
    ∃ req requestClock message, calls origin =
      .returned (.request req requestClock) (.filtered (.continued ctx message)) := by
  simp only [forwardedWith] at h
  split at h
  · rename_i req requestClock left message horigin
    simp only [decide_eq_true_eq] at h
    subst h
    exact ⟨req, requestClock, message, horigin⟩
  · cases h

/-- A response is only made to a request that was forwarded. -/
theorem Sourced.origin_step (h : Sourced rt config s)
    (ha : Step (turnServer τ rt config mayFault) s a s') {j origin : Nat}
    {ctx : RequestContext} {res : HttpResponse} {clock : Clock}
    (hcall : (s'.calls j).call = some (.response origin ctx res clock)) :
    ∃ req requestClock message, s'.calls origin =
      .returned (.request req requestClock) (.filtered (.continued ctx message)) := by
  have hbefore : ∃ req requestClock message, s.calls origin =
      .returned (.request req requestClock) (.filtered (.continued ctx message)) := by
    rcases ha.call_cases hcall with hold | ⟨_, henabled⟩
    · exact h.origin hold
    · exact origin_of_forwardedWith henabled
  obtain ⟨req, requestClock, message, horigin⟩ := hbefore
  exact ⟨req, requestClock, message, ha.returned_mono horigin⟩

/-- A request filter leaves the key of its own conversation. -/
theorem Sourced.context_step (h : Sourced rt config s)
    (hmode : config.continuationMode = .cache)
    (ha : Step (turnServer τ rt config mayFault) s a s')
    (hstep : TurnStep rt config mayFault s s' a) {i : Nat} {req : HttpRequest}
    {clock : Clock} {ctx : RequestContext} {message : SendMessage} {key : CacheKey}
    (hdone : outcome (s'.calls i) =
      some (.request req clock, .filtered (.continued ctx message)))
    (hkey : ctx.continuation.cacheKey = some key) :
    ∃ v, conversationValue config req = some v ∧ key = CacheKey.fromHashed rt v := by
  cases hx : outcome (s.calls i) with
  | some x =>
      rw [outcome_step ha hx] at hdone
      cases hdone
      exact h.context hx hkey
  | none =>
      rcases forwarded_of_effect hmode (hstep.spec_of_decided hx hdone) with
        ⟨_, hnone⟩ | ⟨v, d, hv, hctx, _⟩
      · rw [hnone] at hkey
        cases hkey
      · rw [hctx] at hkey
        cases hkey
        exact ⟨v, hv, rfl⟩

/-- A continuable entry was there before the step, or the step has recorded it
for the conversation of its request. -/
theorem Sourced.entry_step (h : Sourced rt config s)
    (hmode : config.continuationMode = .cache)
    (ha : Step (turnServer τ rt config mayFault) s a s')
    (hstep : TurnStep rt config mayFault s s' a) {k : String}
    {e : ConversationEntry} (he : s'.store.contents k = some e)
    (hCont : e.state = .continuable) :
    ∃ v ids clock, k = (CacheKey.fromHashed rt v).asStr ∧
      e = (conversationStore config).liveEntry ids (nowMillis clock) ∧
      Recorded rt config s' v ids clock := by
  have hold (he : s.store.contents k = some e) :
      ∃ v ids clock, k = (CacheKey.fromHashed rt v).asStr ∧
        e = (conversationStore config).liveEntry ids (nowMillis clock) ∧
        Recorded rt config s' v ids clock := by
    obtain ⟨v, ids, clock, hk, hlive, hrec⟩ := h.entry he hCont
    exact ⟨v, ids, clock, hk, hlive, hrec.mono (Run.single ha)⟩
  cases hstep with
  | quiet _ habs _ =>
      rw [habs] at he
      exact hold he
  | commit hNoReclaim hNoRet hOpen hDone hOthers hCall hspec =>
      rcases written_of_effect hspec he hCont with hsame |
        ⟨origin, ctx, res, clock, result, key, rfl, rfl, hes, hresult, hclass, hkey,
          rfl, rfl⟩
      · exact hold hsame
      · obtain ⟨req, requestClock, message, horigin⟩ := h.origin_step ha hCall
        obtain ⟨v, hv, rfl⟩ := h.context_step hmode ha
          (.commit hNoReclaim hNoRet hOpen hDone hOthers hCall hspec)
          (by rw [horigin]; rfl) hkey
        exact ⟨v, _, clock, rfl, rfl, .reply horigin hv hDone hes hresult hclass⟩
  | removal _ _ habs =>
      rw [habs] at he
      exact hold (entry_of_forget he)

/-- **Every step keeps it so.** -/
theorem Sourced.step (h : Sourced rt config s)
    (hmode : config.continuationMode = .cache)
    (ha : Step (turnServer τ rt config mayFault) s a s')
    (hstep : TurnStep rt config mayFault s s' a) : Sourced rt config s' where
  origin := h.origin_step ha
  context := h.context_step hmode ha hstep
  entry := h.entry_step hmode ha hstep

/-- Every state of a run from the empty store is so. -/
theorem sourced_of_run (hmode : config.continuationMode = .cache)
    {acts : List (TurnAction τ)}
    (hr : Run (turnServer τ rt config mayFault) (Pool.fresh VStore.empty) acts s) :
    Sourced rt config s := by
  induction hr with
  | nil =>
      exact
        { origin := fun h => by cases h
          context := fun h => by cases h
          entry := fun h => by cases h }
  | snoc hr ha ih => exact ih.step hmode ha (turn_step_cases hmode hr ha)

/-- The conversation strings of the requests of a pool. -/
def InPlay (config : PolicyConfig) (s : TurnPool τ) (v : String) : Prop :=
  ∃ i req clock, (s.calls i).call = some (.request req clock) ∧
    conversationValue config req = some v

omit [DecidableEq τ] in
theorem Recorded.inPlay {v : String} {ids : Continuation} {clock : Clock}
    (h : Recorded rt config s v ids clock) : InPlay config s v := by
  cases h with
  | @reply j origin req requestClock _ _ _ _ _ hrequest hv =>
      exact ⟨origin, req, requestClock, by rw [hrequest]; rfl, hv⟩

/-- **Provenance of the ids of a send.**  In every run of any number of turns
from the empty store, on either backend, under any interleaving, failures of
storage accesses and removals by the backend: a send that carries an id was
decided in a state in which a continuable reply to a turn of the same
conversation string had been recorded, less than the TTL before, and the pair it
carries is the one of that reply. -/
theorem sentIds_of_recorded (hmode : config.continuationMode = .cache)
    {acts : List (TurnAction τ)}
    (hr : Run (turnServer τ rt config mayFault) (Pool.fresh VStore.empty) acts s)
    (hsep : Separates rt (InPlay config s)) {i : Nat} {req : HttpRequest}
    {clock : Clock} {ctx : RequestContext} {message : SendMessage} {v : String}
    (hsend : outcome (s.calls i) =
      some (.request req clock, .filtered (.continued ctx message)))
    (hv : conversationValue config req = some v)
    (hids : sentIds message.params ≠ (none, none)) :
    ∃ before after q ids recordClock, acts = before ++ after ∧
      Run (turnServer τ rt config mayFault) (Pool.fresh VStore.empty) before q ∧
      Run (turnServer τ rt config mayFault) q after s ∧
      outcome (q.calls i) = none ∧
      Recorded rt config q v ids recordClock ∧
      sentIds message.params = ids.members ∧
      nowMillis clock < nowMillis recordClock + ttlMillis config := by
  obtain ⟨before, a, after, q, q', rfl, hb, hs, hafter, hqOpen, hqDone⟩ :=
    decided_of_run hr rfl hsend
  have hqs := (Run.single hs).append hafter
  have hspec := (turn_step_cases hmode hb hs).spec_of_decided hqOpen hqDone
  refine ⟨before, a :: after, q, ?_⟩
  have hsent : InPlay config s v :=
    ⟨i, req, clock, call_of_outcome hsend, hv⟩
  rcases forwarded_of_effect hmode hspec with ⟨hnone, _⟩ | ⟨w, d, hw, _, hmembers, hd⟩
  · rw [hv] at hnone
    cases hnone
  · obtain rfl : v = w := Option.some.inj (hv.symm.trans hw)
    cases d with
    | none => exact absurd hmembers hids
    | some d =>
        have hread : readable (q.store.contents (CacheKey.fromHashed rt v).asStr)
            (nowMillis clock) = some d := by
          rcases hd with hnone | hread
          · cases hnone
          · exact hread.symm
        obtain ⟨e, he, hCont, hlive, rfl⟩ := readable_eq_some hread
        obtain ⟨w, ids, recordClock, hk, rfl, hrec⟩ :=
          (sourced_of_run hmode hb).entry he hCont
        -- the entry was found under the key of `v` and recorded under that of `w`
        obtain rfl : v = w := hsep v w hsent (hrec.mono hqs).inPlay
          (CacheKey.fromHashed_digest hk)
        refine ⟨ids, recordClock, rfl, hb, hqs, hqOpen, hrec, hmembers, ?_⟩
        rw [Continuity.ttlMillis, ← expiresAt_nowMillis]
        exact hlive

end Runs

/-- A turn whose reply goes on, then the request filter of the next one. -/
def secondSend : List (TurnAction Nat) :=
  let turn := sampleTurn workingText 1 2
  let next := sampleTurn workingText 3 4
  [ .invoke 0 (.request turn.request turn.requestClock)
  , .access 0 1
  , .ret 0
  , .invoke 1 (.response 0 ⟨cached (CacheKey.fromHashed sampleRuntime "k") none⟩
      turn.response turn.responseClock)
  , .access 1 1
  , .ret 1
  , .invoke 2 (.request next.request next.requestClock)
  , .access 2 2
  , .ret 2 ]

/-- The state it leads to. -/
def secondSent : TurnPool Nat :=
  (exec (turnServer Nat sampleRuntime (sampleConfig true) fun _ => false)
    (Pool.fresh VStore.empty) secondSend).get (by decide)

theorem sentIds_of_recorded_secondSend :
    ∃ (q : TurnPool Nat) (ids : Continuation) (recordClock : Clock),
      Recorded sampleRuntime (sampleConfig true) q "k" ids recordClock ∧
        (some (.str "t"), some (.str "c")) = ids.members := by
  have hr := run_exec (turnServer Nat sampleRuntime (sampleConfig true) fun _ => false)
    (Pool.fresh VStore.empty) secondSend (by decide)
  have hsep : Separates sampleRuntime (InPlay (sampleConfig true) secondSent) := by
    rintro v w ⟨_, _, _, _, hv⟩ ⟨_, _, _, _, hw⟩ _
    exact Option.some.inj (hv.symm.trans hw)
  let next := sampleTurn workingText 3 4
  let message := sendMessage sampleRuntime (sampleConfig true) next.request "hello"
    ⟨some "t", some "c"⟩
  have hsend : outcome (secondSent.calls 2) =
      some (.request next.request next.requestClock, .filtered (.continued
        ⟨cached (CacheKey.fromHashed sampleRuntime "k") (some ⟨some "t", some "c"⟩)⟩
        message)) := rfl
  have hsent : sentIds message.params = (some (.str "t"), some (.str "c")) := rfl
  obtain ⟨_, _, q, ids, recordClock, _, _, _, _, hrec, hmembers, _⟩ :=
    sentIds_of_recorded rfl hr hsep hsend rfl (by rw [hsent]; simp)
  exact ⟨q, ids, recordClock, hrec, hsent.symm.trans hmembers⟩

end RestToA2a.Policy.Provenance
