import RestToA2a.Policy.Isolation
import RestToA2a.Policy.Shaping
import RestToA2a.Verified.Serial

/-!
# What a conversation remembers

The turns of one conversation often come one after the other, while those of
others run at the same time.  Then the store is, for this conversation, a memory
of its last decisive reply: each filter finds the entry as the one before left
it, and a send carries the ids of the last reply that was continuable or
terminal, or none.  The backend may remove an entry that has expired; a filter
does not tell it from none.
-/

namespace RestToA2a.Policy.ConversationMemory

open RestToA2a.Verified.VersionedStore
open RestToA2a.Verified.StorageProgram
open RestToA2a.Verified.ProgramPool
open RestToA2a.Verified.Linearizable
open RestToA2a.Verified.Footprint
open RestToA2a.Verified.Standing
open RestToA2a.Verified.Serial
open RestToA2a.Policy.Serde
open RestToA2a.Policy.A2a
open RestToA2a.Policy.Binding
open RestToA2a.Policy.Cache
open RestToA2a.Policy.Cache.ConversationStore
open RestToA2a.Policy.CacheSteps
open RestToA2a.Policy.CacheCalls
open RestToA2a.Policy.CacheSequential
open RestToA2a.Policy.CacheClosing
open RestToA2a.Policy.Continuation
open RestToA2a.Policy.Continuity
open RestToA2a.Policy.Gateway
open RestToA2a.Policy.ConfigMap
open RestToA2a.Policy.Filter
open RestToA2a.Policy.Turns
open RestToA2a.Policy.TurnServer
open RestToA2a.Policy.CacheFootprint
open RestToA2a.Policy.Isolation
open RestToA2a.Policy.Shaping

variable {τ : Type} {rt : Runtime} {config : PolicyConfig}

/-! ## The operations of the store, with the key to themselves -/

section Operations

variable {key : CacheKey} {entry : ConversationEntry}
  {gone : ConversationEntry → Prop} {x : Option (ConversationEntry × τ)}

/-- A lookup does not tell an expired entry from none. -/
theorem alone_getContinuation {nowMillis : Nat}
    (hgone : ∀ e, gone e → e.isExpired nowMillis = true) :
    Alone key.asStr gone
      (fun d y => d = readable (x.map Prod.fst) nowMillis ∧ Left gone (x.map Prod.fst) y)
      (getContinuation key nowMillis) x := by
  refine ⟨rfl, fun y hy => ⟨?_, hy.value⟩⟩
  rcases hy with rfl | ⟨rfl, e, rfl, he⟩
  · rfl
  · exact (readable_expired (hgone e.1 he)).symm

theorem alone_attempt {mode : StoreMode τ}
    {retry : Storage τ (Except CacheError Unit)}
    {post : Except CacheError Unit → Option ConversationEntry → Prop}
    (htaken : ∀ y, Stays gone x y → Takes mode y → post (.ok ()) (some entry))
    (hrefused : ∀ y, Stays gone x y → ¬ Takes mode y →
      Alone key.asStr gone post retry y) :
    Alone key.asStr gone post (attempt key mode entry retry) x :=
  ⟨rfl, fun y hy => ⟨fun htakes _ => htaken y hy htakes, hrefused y hy⟩⟩

/-- Where there is nothing, the first attempt writes. -/
theorem alone_upsertRetry_none (left : Nat) :
    Alone key.asStr gone (fun r y => r = .ok () ∧ y = some entry)
      (upsertRetry key entry (left + 1) : Storage τ (Except CacheError Unit)) none := by
  refine ⟨rfl, fun y hy => ?_⟩
  obtain rfl := hy.of_none
  refine alone_attempt (fun _ _ _ => ⟨rfl, rfl⟩) fun z hz hno => ?_
  exact absurd hz.of_none hno

variable {store : ConversationStore} {continuation : Continuation} {nowMillis : Nat}

/-- A live entry that was removed makes no difference to an upsert. -/
theorem settle_of_stays (hlive : ∀ e, gone e → e.state ≠ .terminal)
    {y : Option (ConversationEntry × τ)} (hy : Stays gone x y) :
    settle store .continuable continuation nowMillis (x.map Prod.fst) =
      settle store .continuable continuation nowMillis (y.map Prod.fst) := by
  rcases hy with rfl | ⟨rfl, e, rfl, he⟩
  · rfl
  · simp [settle, hlive e.1 he]

/-- With two attempts left an upsert succeeds, even if the entry is removed
between its read and its write. -/
theorem alone_upsertRetry (hlive : ∀ e, gone e → e.state ≠ .terminal) (left : Nat) :
    Alone key.asStr gone
      (fun r y => r = .ok () ∧
        Left gone (settle store .continuable continuation nowMillis (x.map Prod.fst)) y)
      (upsertRetry key (store.liveEntry continuation nowMillis) (left + 2)) x := by
  refine ⟨rfl, fun y hy => ?_⟩
  rw [settle_of_stays hlive hy]
  cases y with
  | none =>
      refine alone_attempt (fun _ _ _ => ⟨rfl, .refl _ _⟩) fun z hz hno => ?_
      exact absurd hz.of_none hno
  | some found =>
      obtain ⟨existing, version⟩ := found
      show Alone _ _ _ (if existing.state = .terminal then _ else _) _
      split
      · rename_i hterminal
        exact ⟨rfl, by simp [settle, hterminal, Left.refl]⟩
      · rename_i hopen
        have hsettle : settle store .continuable continuation nowMillis (some existing) =
            some (store.liveEntry continuation nowMillis) := by simp [settle, hopen]
        simp only [Option.map_some, hsettle]
        refine alone_attempt (fun _ _ _ => ⟨rfl, .refl _ _⟩) fun z hz hno => ?_
        rcases hz with rfl | ⟨rfl, _⟩
        · exact absurd ⟨existing, rfl⟩ hno
        · refine Alone.mono ?_ (alone_upsertRetry_none left)
          rintro r z ⟨rfl, rfl⟩
          exact ⟨rfl, .refl _ _⟩

theorem alone_upsert (hlive : ∀ e, gone e → e.state ≠ .terminal) :
    Alone key.asStr gone
      (fun r y => r = .ok () ∧
        Left gone (settle store .continuable continuation nowMillis (x.map Prod.fst)) y)
      (store.upsert key continuation nowMillis) x := by
  refine alone_attempt (fun y hy htakes => ⟨rfl, ?_⟩) fun y hy _ => ?_
  · have hy' : y = none := htakes
    rw [settle_of_stays hlive hy, hy']
    exact .refl _ _
  · rw [settle_of_stays hlive hy]
    exact alone_upsertRetry hlive 1

theorem alone_evict (hkeeps : store.distributed = true → ∀ e, ¬ gone e) :
    Alone key.asStr gone
      (fun r y => r = .ok () ∧
        Left gone (settle store .terminal continuation nowMillis (x.map Prod.fst)) y)
      (store.evict key nowMillis) x := by
  unfold evict
  split
  · rename_i hdistributed
    have hstays : ∀ {x y : Option (ConversationEntry × τ)}, Stays gone x y → y = x := by
      rintro x y (rfl | ⟨_, e, _, he⟩)
      · rfl
      · exact absurd he (hkeeps hdistributed _)
    refine ⟨rfl, fun y hy => ?_⟩
    obtain rfl := hstays hy
    cases y with
    | none => exact ⟨rfl, .refl _ _⟩
    | some found =>
        obtain ⟨existing, version⟩ := found
        show Alone _ _ _ (if existing.state = .terminal then _ else _) _
        split
        · rename_i hterminal
          exact ⟨rfl, by simp [settle, hdistributed, hterminal, Left.refl]⟩
        · rename_i hopen
          refine alone_attempt (fun _ _ _ => ⟨rfl, ?_⟩) fun z hz hno => ?_
          · simp [settle, hdistributed, hopen, Left.refl]
          · obtain rfl := hstays hz
            exact absurd ⟨existing, rfl⟩ hno
  · rename_i hlocal
    refine ⟨rfl, rfl, ?_⟩
    cases x with
    | none => exact .refl _ _
    | some found => simp [settle, hlocal, Left.refl]

/-- An outcome is recorded, and settles the entry.  What may be removed meanwhile
is a live entry, and nothing if a remote backend is to keep a tombstone. -/
theorem alone_recordOutcome {stateClass : StateClass}
    (hlive : ∀ e, gone e → e.state ≠ .terminal)
    (hkeeps : stateClass = .terminal → store.distributed = true → ∀ e, ¬ gone e) :
    Alone key.asStr gone
      (fun r y => r = .ok () ∧
        Left gone (settle store stateClass continuation nowMillis (x.map Prod.fst)) y)
      (store.recordOutcome key stateClass continuation nowMillis) x := by
  cases stateClass with
  | continuable => exact alone_upsert hlive
  | terminal => exact alone_evict (hkeeps rfl)
  | unknown => exact ⟨rfl, .refl _ _⟩

end Operations

/-! ## The filters -/

/-- The facts of a response that are persisted. -/
def facts (rt : Runtime) (config : PolicyConfig) (res : HttpResponse) :
    Option ParsedResult :=
  if isEventStream res.headers then none
  else (parseResponse rt config.binding res.body).result.map parseResult

/-- What a filter makes of the entry of its conversation. -/
def rewrites (rt : Runtime) (config : PolicyConfig) :
    TurnCall → Option ConversationEntry → Option ConversationEntry
  | .request _ _, entry => entry
  | .response _ _ res clock, entry =>
      match facts rt config res with
      | some parsed =>
          settle (conversationStore config) parsed.class parsed.continuation
            (nowMillis clock) entry
      | none => entry

/-- What is logged about a reply that was persisted. -/
def persistLog (rt : Runtime) (config : PolicyConfig) (ctx : RequestContext)
    (res : HttpResponse) : List Warning :=
  match facts rt config res with
  | some parsed => persistWarnings ctx.continuation parsed.class (.ok ())
  | none => []

/-- How a filter ends, from the entry of its conversation under `key`. -/
def answers (rt : Runtime) (config : PolicyConfig) (key : CacheKey) :
    TurnCall → Option ConversationEntry → TurnReply
  | .request req clock, entry =>
      match promptOf config req with
      | none => .filtered (.broken (reject rt config "missing or invalid prompt"))
      | some prompt =>
          .filtered (forward rt config req prompt
            (cached key (readable entry (nowMillis clock))))
  | .response _ ctx res _, _ =>
      .delivered (delivery rt config (some ctx) res (persistLog rt config ctx res))

/-- The filter comes to record that the task has ended. -/
def Ends (rt : Runtime) (config : PolicyConfig) : TurnCall → Prop
  | .request _ _ => False
  | .response _ _ res _ =>
      ∃ parsed, facts rt config res = some parsed ∧ parsed.class = .terminal

/-- A send would find the entry expired. -/
def OutOfDate : TurnCall → ConversationEntry → Prop
  | .request _ clock, entry => entry.isExpired (nowMillis clock) = true
  | .response _ _ _ _, _ => True

/-- To the filter the entry is as good as none.  A tombstone is not, and no entry
is where a remote backend would put a tombstone in its place. -/
structure Faded (rt : Runtime) (config : PolicyConfig) (c : TurnCall)
    (entry : ConversationEntry) : Prop where
  outOfDate : OutOfDate c entry
  live : entry.state ≠ .terminal
  keeps : config.distributed = false ∨ ¬ Ends rt config c

section Filters

variable {key : CacheKey} {gone : ConversationEntry → Prop}

theorem alone_request (hmode : config.continuationMode = .cache) {req : HttpRequest}
    {clock : Clock} (hkey : keyOf rt config (.request req clock) = some key)
    (hgone : ∀ e, gone e → Faded rt config (.request req clock) e)
    (x : Option (ConversationEntry × τ)) :
    Alone key.asStr gone
      (fun r y => r = answers rt config key (.request req clock) (x.map Prod.fst) ∧
        Left gone (rewrites rt config (.request req clock) (x.map Prod.fst)) y)
      ((TurnCall.request req clock).code rt config) x := by
  have hcache : config.usesCache = true := by simp [PolicyConfig.usesCache, hmode]
  simp only [keyOf, requestKey, hcache, if_true, Option.map_eq_some_iff] at hkey
  obtain ⟨v, hv, rfl⟩ := hkey
  cases hp : promptOf config req with
  | none =>
      simp only [TurnCall.code, requestFilter, answers, rewrites, hp, Prog.map_done]
      exact ⟨rfl, .refl _ _⟩
  | some prompt =>
      simp only [TurnCall.code, requestFilter, answers, rewrites, hp,
        requestContinuation, hmode, hcache, if_true, hv, resolveCache]
      refine alone_map (alone_map (alone_map (Alone.mono ?_
        (alone_getContinuation fun e he => (hgone e he).outOfDate))))
      rintro d y ⟨rfl, hy⟩
      exact ⟨rfl, hy⟩

theorem alone_response (hmode : config.continuationMode = .cache) {origin : Nat}
    {ctx : RequestContext} {res : HttpResponse} {clock : Clock}
    (hkey : ctx.continuation.cacheKey = some key)
    (hgone : ∀ e, gone e → Faded rt config (.response origin ctx res clock) e)
    (x : Option (ConversationEntry × τ)) :
    Alone key.asStr gone
      (fun r y =>
        r = answers rt config key (.response origin ctx res clock) (x.map Prod.fst) ∧
        Left gone (rewrites rt config (.response origin ctx res clock) (x.map Prod.fst))
          y)
      ((TurnCall.response origin ctx res clock).code rt config) x := by
  have hcache : config.usesCache = true := by simp [PolicyConfig.usesCache, hmode]
  have hends : ∀ parsed, facts rt config res = some parsed → parsed.class = .terminal →
      (conversationStore config).distributed = true → ∀ e, ¬ gone e := by
    intro parsed hparsed hterminal hdistributed e he
    rcases (hgone e he).keeps with hlocal | hno
    · exact Bool.noConfusion (hlocal.symm.trans hdistributed)
    · exact hno ⟨parsed, hparsed, hterminal⟩
  simp only [facts] at hends
  simp only [TurnCall.code, responseFilter_eq, persistence, answers, rewrites,
    persistLog, facts]
  cases hes : isEventStream res.headers with
  | true => exact ⟨rfl, .refl _ _⟩
  | false =>
      cases hresult : (parseResponse rt config.binding res.body).result with
      | none => exact ⟨rfl, .refl _ _⟩
      | some result =>
          simp only [hes, hresult, Bool.false_eq_true, if_false, Option.map_some]
            at hends
          simp only [Bool.false_eq_true, if_false, persistReply, hcache, if_true,
            persistOutcome, hkey, Option.map_some]
          refine alone_map (alone_map (alone_map (Alone.mono ?_
            (alone_recordOutcome (fun e he => (hgone e he).live) (hends _ rfl)))))
          rintro r y ⟨rfl, hy⟩
          exact ⟨rfl, hy⟩

/-- An entry that has faded for a filter makes no difference to it. -/
theorem rewrites_of_faded {c : TurnCall} {entry : ConversationEntry}
    (h : Faded rt config c entry) :
    rewrites rt config c (some entry) = rewrites rt config c none ∨
      rewrites rt config c (some entry) = some entry ∧
        rewrites rt config c none = none := by
  cases c with
  | request req clock => exact Or.inr ⟨rfl, rfl⟩
  | response origin ctx res clock =>
      simp only [rewrites]
      cases hfacts : facts rt config res with
      | none => exact Or.inr ⟨rfl, rfl⟩
      | some parsed =>
          simp only
          cases hclass : parsed.class with
          | unknown => exact Or.inr ⟨rfl, rfl⟩
          | continuable => exact Or.inl (by simp [settle, h.live])
          | terminal =>
              have hlocal : (conversationStore config).distributed = false :=
                h.keeps.resolve_right fun hno => hno ⟨parsed, hfacts, hclass⟩
              exact Or.inl (by simp [settle, hlocal])

theorem answers_of_faded {c : TurnCall} {entry : ConversationEntry}
    (h : Faded rt config c entry) :
    answers rt config key c (some entry) = answers rt config key c none := by
  cases c with
  | request req clock =>
      simp only [answers, readable_expired h.outOfDate]
      rfl
  | response origin ctx res clock => rfl

/-- The filters of a conversation work on its entry. -/
theorem serves (rt : Runtime) (hmode : config.continuationMode = .cache)
    (mayFault : TurnCall → Bool) (key : CacheKey) :
    Serves (turnServer τ rt config mayFault) key.asStr (ofConversation rt config key)
      (Faded rt config) (answers rt config key) (rewrites rt config) where
  alone := by
    intro c gone hc hgone x
    have hkey : keyOf rt config c = some key := ofConversation_iff.mp hc
    cases c with
    | request req clock => exact alone_request hmode hkey hgone x
    | response origin ctx res clock => exact alone_response hmode hkey hgone x
  faded := fun _ hfaded => ⟨answers_of_faded hfaded, rewrites_of_faded hfaded⟩
  apart := by
    intro c hc
    refine Every.mono (fun a ha => ?_) (every_turnCode rt config c)
    obtain ⟨own, hown, ha⟩ := ha
    have hkey : keyOf rt config c ≠ some key := by simpa [ofConversation] using hc
    intro hsame
    apply hkey
    rw [hown, CacheKey.ext (ha.key_eq.symm.trans hsame)]

end Filters

/-! ## The last decisive reply -/

/-- The last reply that was continuable or terminal, with the clock its filter
read; the filters are given last first. -/
def decisive (rt : Runtime) (config : PolicyConfig) :
    List (Nat × TurnCall) → Option (ParsedResult × Clock)
  | [] => none
  | (_, .request _ _) :: older => decisive rt config older
  | (_, .response _ _ res clock) :: older =>
      match facts rt config res with
      | some parsed =>
          if parsed.class = .unknown then decisive rt config older
          else some (parsed, clock)
      | none => decisive rt config older

/-- The entry for the last decisive reply. -/
def entryFor (config : PolicyConfig) :
    Option (ParsedResult × Clock) → Option ConversationEntry
  | some (parsed, clock) =>
      if parsed.class = .continuable then
        some ((conversationStore config).liveEntry parsed.continuation (nowMillis clock))
      else none
  | none => none

/-- The ids that are remembered at a time. -/
def recalled (config : PolicyConfig) (last : Option (ParsedResult × Clock))
    (now : Nat) : Continuation :=
  match last with
  | some (parsed, clock) =>
      if parsed.class = .continuable ∧
          now < nowMillis clock + (conversationStore config).ttlMillis then
        parsed.continuation
      else {}
  | none => {}

theorem readable_entryFor (config : PolicyConfig) (last : Option (ParsedResult × Clock))
    (now : Nat) : (readable (entryFor config last) now).getD {} =
      recalled config last now := by
  cases last with
  | none => rfl
  | some reply =>
      obtain ⟨parsed, clock⟩ := reply
      simp only [entryFor, recalled]
      by_cases hclass : parsed.class = .continuable
      · rw [if_pos hclass, readable_continuable rfl]
        simp only [hclass, true_and, liveEntry, expiresAt_nowMillis]
        split
        · rfl
        · rfl
      · simp only [hclass, if_false, false_and]
        rfl

theorem not_terminal_entryFor {config : PolicyConfig}
    {last : Option (ParsedResult × Clock)} {e : ConversationEntry}
    (h : entryFor config last = some e) : e.state ≠ .terminal := by
  cases last with
  | none => cases h
  | some reply =>
      simp only [entryFor] at h
      split at h
      · cases h
        simp [liveEntry]
      · cases h

/-- **The memory is the last decisive reply**, on a local backend, or on a remote
one as long as no reply was terminal. -/
theorem memory_eq (rt : Runtime) (config : PolicyConfig)
    {calls : List (Nat × TurnCall)}
    (h : config.distributed = false ∨ ∀ e ∈ calls, ¬ Ends rt config e.2) :
    memory (rewrites rt config) none calls =
      entryFor config (decisive rt config calls) := by
  induction calls with
  | nil => rfl
  | cons call older ih =>
      obtain ⟨i, c⟩ := call
      have holder : config.distributed = false ∨ ∀ e ∈ older, ¬ Ends rt config e.2 :=
        h.imp_right fun hno e he => hno e (List.mem_cons_of_mem _ he)
      cases c with
      | request req clock => exact ih holder
      | response origin ctx res clock =>
          simp only [memory, rewrites, decisive, ih holder]
          cases hfacts : facts rt config res with
          | none => rfl
          | some parsed =>
              cases hclass : parsed.class with
              | unknown => simp [settle, hclass]
              | continuable =>
                  have hopen := @not_terminal_entryFor config (decisive rt config older)
                  cases hentry : entryFor config (decisive rt config older) with
                  | none => simp [settle, entryFor, hclass]
                  | some e => simp [settle, entryFor, hclass, hopen hentry]
              | terminal =>
                  have hlocal : (conversationStore config).distributed = false :=
                    h.resolve_right fun hno =>
                      hno _ List.mem_cons_self ⟨parsed, hfacts, hclass⟩
                  cases entryFor config (decisive rt config older) with
                  | none => simp [settle, entryFor, hclass]
                  | some e => simp [settle, entryFor, hclass, hlocal]

/-! ## Where no tombstone comes from -/

/-- Of the filters, only one that ends the task puts a tombstone, on a remote
backend. -/
def TombstoneIfEnds (rt : Runtime) (config : PolicyConfig) (c : TurnCall) :
    Access String ConversationEntry τ → Prop
  | .store _ _ entry =>
      entry.state = .terminal → config.distributed = true ∧ Ends rt config c
  | _ => True

theorem every_tombstoneIfEnds (rt : Runtime) (config : PolicyConfig) (c : TurnCall) :
    Every (TombstoneIfEnds rt config c)
      (TurnCall.code rt config c : Storage τ TurnReply) := by
  refine every_code rt config c (fun _ _ => trivial) ?_
  rintro origin ctx res clock result key rfl hes hresult _
  refine every_recordOutcome _ _ _ _ trivial ?_ ?_ fun _ _ => trivial
  · intro _ mode hterminal
    cases hterminal
  · intro hclass hdistributed mode _
    exact ⟨hdistributed, parseResult result, by simp [facts, hes, hresult], hclass⟩

/-! ## Whole runs -/

variable [DecidableEq τ] {mayFault : TurnCall → Bool} {key : CacheKey} {s₀ : Entries τ}
  {acts : List (TurnAction τ)} {s : TurnPool τ} {newer older : List (Nat × TurnCall)}

/-- **Serial filters are served in order.**  On either backend, in every run of
any number of turns, let the filters of one conversation come one after the
other, each after the one before has returned, while those of other conversations
interleave with them in any way, with any failures and removals of their own; the
backend neither fails an access of this conversation nor removes its key.  Then
each of its filters that has ended, ended as `answers` says from the entry that
the ones before it have left, their outcomes settled one by one; and the last of
them has left the entry that all of them make. -/
theorem served_in_order (hmode : config.continuationMode = .cache)
    (hr : Run (turnServer τ rt config mayFault) (Pool.fresh s₀) acts s)
    (ho : Orderly (ofConversation rt config key) key.asStr acts) {i : Nat}
    {c : TurnCall} {r : TurnReply}
    (hmade : made (ofConversation rt config key) acts = newer ++ (i, c) :: older)
    (hi : outcome (s.calls i) = some (c, r)) :
    r = answers rt config key c
        (memory (rewrites rt config) (s₀.contents key.asStr) older) ∧
      (newer = [] → s.store.contents key.asStr =
        rewrites rt config c
          (memory (rewrites rt config) (s₀.contents key.asStr) older)) := by
  obtain ⟨hreply, hlast⟩ :=
    served_of_run (serves rt hmode mayFault key) hr ho.toInTurn ho.spent hmade hi
  refine ⟨hreply, fun hnil => ?_⟩
  rcases hlast hnil with hkept | ⟨_, entry, _, hremoved⟩
  · rw [hkept, hmade, hnil]
    rfl
  · exact absurd hremoved (ho.not_removed entry)

/-- The filters of a first turn. -/
def firstTurn : List (Nat × TurnCall) :=
  [ (2, .response 0 ⟨cached (CacheKey.fromHashed sampleRuntime "k") none⟩
      ⟨[], [], utf8 workingText, true⟩ none)
  , (0, .request ⟨"/rest", [], [], [], true⟩ none) ]

/-- The first turn and the request of the second one, with a request of another
conversation around the first response. -/
def aroundFirstTurn : List (TurnAction Nat) :=
  [ .invoke 0 (.request ⟨"/rest", [], [], [], true⟩ none)
  , .invoke 1 (.request ⟨"/rest", [], [], utf8 "j", true⟩ none)
  , .access 0 1
  , .ret 0
  , .invoke 2 (.response 0 ⟨cached (CacheKey.fromHashed sampleRuntime "k") none⟩
      ⟨[], [], utf8 workingText, true⟩ none)
  , .access 1 1
  , .access 2 1
  , .ret 2
  , .invoke 3 (.request ⟨"/rest", [], [], [], true⟩ none)
  , .access 3 2
  , .ret 3 ]

theorem made_aroundFirstTurn :
    made (ofConversation sampleRuntime bodyConfig
      (CacheKey.fromHashed sampleRuntime "k")) aroundFirstTurn =
      [] ++ (3, .request ⟨"/rest", [], [], [], true⟩ none) :: firstTurn := by
  rfl

theorem orderly_aroundFirstTurn :
    Orderly (ofConversation sampleRuntime bodyConfig
      (CacheKey.fromHashed sampleRuntime "k"))
      (CacheKey.fromHashed sampleRuntime "k").asStr aroundFirstTurn where
  serial := by
    intro n i c hn hc
    rcases n with _ | _ | _ | _ | _ | _ | _ | _ | _ | _ | _ | n
    case succ.succ.succ.succ.zero =>
      have hmade : made (ofConversation sampleRuntime bodyConfig
          (CacheKey.fromHashed sampleRuntime "k")) (aroundFirstTurn.take 4) =
          [(0, .request ⟨"/rest", [], [], [], true⟩ none)] := by rfl
      rw [hmade]
      simp [aroundFirstTurn]
    case succ.succ.succ.succ.succ.succ.succ.succ.zero =>
      have hmade : made (ofConversation sampleRuntime bodyConfig
          (CacheKey.fromHashed sampleRuntime "k")) (aroundFirstTurn.take 8) =
          firstTurn := by rfl
      rw [hmade]
      simp [aroundFirstTurn, firstTurn]
    case zero =>
      intro e he
      cases he
    case succ.zero =>
      cases hn
      exact absurd hc (by decide)
    all_goals cases hn
  calm := by
    intro e debug _
    simp [aroundFirstTurn]
  kept := by simp [aroundFirstTurn]

/-- What the first turn has left is what the reply said. -/
theorem served_in_order_aroundFirstTurn :
    ∃ s : TurnPool Nat,
      Run (turnServer Nat sampleRuntime bodyConfig fun _ => false)
        (Pool.fresh VStore.empty) aroundFirstTurn s ∧
      s.store.contents (CacheKey.fromHashed sampleRuntime "k").asStr =
        some ((conversationStore bodyConfig).liveEntry ⟨some "t", some "c"⟩ 0) := by
  have hr := run_exec (turnServer Nat sampleRuntime bodyConfig fun _ => false)
    (Pool.fresh VStore.empty) aroundFirstTurn (by decide)
  generalize hs : (exec (turnServer Nat sampleRuntime bodyConfig fun _ => false)
    (Pool.fresh VStore.empty) aroundFirstTurn).get (by decide) = s at hr
  have hi : ∃ r, outcome (s.calls 3) =
      some (.request ⟨"/rest", [], [], [], true⟩ none, r) := by
    rw [← hs]
    exact ⟨_, rfl⟩
  obtain ⟨r, hi⟩ := hi
  have hserved := served_in_order rfl hr orderly_aroundFirstTurn made_aroundFirstTurn hi
  exact ⟨s, hr, hserved.2 rfl⟩

/-- A tombstone needs a filter that has ended the task. -/
theorem not_terminal_of_run
    (hr : Run (turnServer τ rt config mayFault) (Pool.fresh s₀) acts s)
    (hstart : s₀.contents key.asStr = none)
    (hopen : config.distributed = false ∨
      ∀ e ∈ made (ofConversation rt config key) acts, ¬ Ends rt config e.2)
    {entry : ConversationEntry} (he : s.store.contents key.asStr = some entry) :
    entry.state ≠ .terminal := by
  intro hterminal
  obtain ⟨⟨entry, version⟩, hentry, rfl⟩ := Option.map_eq_some_iff.mp he
  have hcode : ∀ c, Every (fun a => FilterAccess rt config c a ∧
      TombstoneIfEnds rt config c a) ((turnServer τ rt config mayFault).code c) :=
    fun c => (every_turnCode rt config c).and (every_tombstoneIfEnds rt config c)
  rcases writer_of_run hcode hr hentry with hfirst | ⟨i, c, mode, hi, hown, hends⟩
  · rw [VStore.contents_eq_none.mp hstart] at hfirst
    cases hfirst
  · obtain ⟨own, hkey, hsame, _⟩ := hown
    obtain ⟨hdistributed, hends⟩ := hends hterminal
    have hc : ofConversation rt config key c = true := by
      rw [ofConversation_iff, hkey, CacheKey.ext hsame]
    rcases hopen with hlocal | hno
    · exact Bool.noConfusion (hlocal.symm.trans hdistributed)
    · exact hno (i, c) (mem_made_of_call hr hi hc) hends

/-- As long as no task has ended, what is removed out of date is a live entry. -/
theorem spent_faded (hstart : s₀.contents key.asStr = none)
    (hopen : config.distributed = false ∨
      ∀ e ∈ made (ofConversation rt config key) acts, ¬ Ends rt config e.2)
    (hspent : Spent (turnServer τ rt config mayFault) s₀ (ofConversation rt config key)
      OutOfDate key.asStr acts) :
    Spent (turnServer τ rt config mayFault) s₀ (ofConversation rt config key)
      (Faded rt config) key.asStr acts := by
  rintro before after s v rfl hr hv e he
  have hmade : made (ofConversation rt config key)
      (before ++ .reclaim key.asStr :: after) =
      made (ofConversation rt config key) after ++
        made (ofConversation rt config key) before := by
    rw [made_append, made_cons_other fun i c h => by cases h]
  rw [hmade] at hopen
  refine ⟨hspent before after s v rfl hr hv e he, ?_, ?_⟩
  · refine not_terminal_of_run hr hstart (hopen.imp_right fun hno e he => ?_) hv
    exact hno e (List.mem_append_right _ he)
  · exact hopen.imp_right fun hno => hno e (List.mem_append.mpr (he.imp_right And.left))

/-- **A conversation remembers its last decisive reply.**  Let its filters be
serial as in `served_in_order`, and nothing be stored under its key at the start;
the backend fails none of their accesses, and it may remove the entry of the
conversation once that has expired by the clock of each of its sends that has not
returned by then.  On a local backend, or if no reply before it was terminal, each
of the sends carries exactly the ids of the last reply before it that was
continuable or terminal, if that one was continuable and its lifetime has not run
out, and no ids otherwise. -/
theorem remembers_last_reply (hmode : config.continuationMode = .cache)
    (hr : Run (turnServer τ rt config mayFault) (Pool.fresh s₀) acts s)
    (hstart : s₀.contents key.asStr = none)
    (hturn : InTurn (ofConversation rt config key) acts)
    (hspent : Spent (turnServer τ rt config mayFault) s₀ (ofConversation rt config key)
      OutOfDate key.asStr acts) {i : Nat} {req : HttpRequest} {clock : Clock}
    {ctx : RequestContext} {message : SendMessage}
    (hmade : made (ofConversation rt config key) acts =
      newer ++ (i, .request req clock) :: older)
    (hi : outcome (s.calls i) =
      some (.request req clock, .filtered (.continued ctx message)))
    (h : config.distributed = false ∨ ∀ e ∈ older, ¬ Ends rt config e.2) :
    sentIds message.params =
      (recalled config (decisive rt config older) (nowMillis clock)).members := by
  -- What comes after the send may end the task; up to it nothing has.
  obtain ⟨before, after, s', rfl, hr', hmade', hi'⟩ := run_upto hr hturn hmade hi
  have hopen : config.distributed = false ∨
      ∀ e ∈ made (ofConversation rt config key) before, ¬ Ends rt config e.2 := by
    rw [hmade']
    refine h.imp_right fun hno e he => ?_
    rcases List.mem_cons.mp he with rfl | he
    · exact id
    · exact hno e he
  have hfaded := spent_faded hstart hopen hspent.before
  obtain ⟨hreply, _⟩ := served_of_run (serves rt hmode mayFault key) hr' hturn.before
    hfaded (hmade'.trans (List.nil_append _).symm) hi'
  rw [hstart, memory_eq rt config h] at hreply
  simp only [answers] at hreply
  split at hreply
  · cases hreply
  · rename_i prompt hprompt
    simp only [TurnReply.filtered.injEq] at hreply
    rw [(forward_eq_continued hreply.symm).2]
    simp only [cached, readable_entryFor]

/-- A hundred seconds on the backend has removed the entry, and a send comes. -/
def afterRemoval : List (TurnAction Nat) :=
  aroundFirstTurn ++ .reclaim (CacheKey.fromHashed sampleRuntime "k").asStr ::
    [ .invoke 4 (.request ⟨"/rest", [], [], [], true⟩
        (some ⟨100 * 1000000000, by decide⟩))
    , .access 4 3
    , .ret 4 ]

theorem made_afterRemoval :
    made (ofConversation sampleRuntime bodyConfig
      (CacheKey.fromHashed sampleRuntime "k")) afterRemoval =
      [(4, .request ⟨"/rest", [], [], [], true⟩
        (some ⟨100 * 1000000000, by decide⟩))] ++
        (3, .request ⟨"/rest", [], [], [], true⟩ none) :: firstTurn := by
  rfl

theorem inTurn_afterRemoval :
    InTurn (ofConversation sampleRuntime bodyConfig
      (CacheKey.fromHashed sampleRuntime "k")) afterRemoval where
  serial := by
    intro n i c hn hc
    by_cases hlt : n < aroundFirstTurn.length
    · -- The first turn and the request after it.
      have hn' : aroundFirstTurn[n]? = some (.invoke i c) := by
        rw [← hn, afterRemoval, List.getElem?_append_left hlt]
      have htake : afterRemoval.take n = aroundFirstTurn.take n :=
        List.take_append_of_le_length hlt.le
      rw [htake]
      exact orderly_aroundFirstTurn.serial hn' hc
    · obtain ⟨m, rfl⟩ := Nat.exists_eq_add_of_le (Nat.le_of_not_lt hlt)
      rw [afterRemoval, List.getElem?_append_right (by omega), Nat.add_sub_cancel_left]
        at hn
      rcases m with _ | _ | _ | _ | m
      case succ.zero =>
        have hmade : made (ofConversation sampleRuntime bodyConfig
            (CacheKey.fromHashed sampleRuntime "k"))
            (afterRemoval.take (aroundFirstTurn.length + 1)) =
            (3, .request ⟨"/rest", [], [], [], true⟩ none) :: firstTurn := by rfl
        rw [hmade]
        simp [afterRemoval, aroundFirstTurn, firstTurn]
      all_goals cases hn
  calm := by
    intro e debug _
    simp [afterRemoval, aroundFirstTurn]

/-- When the entry is removed it has expired for the send to come. -/
theorem spent_afterRemoval :
    Spent (turnServer Nat sampleRuntime bodyConfig fun _ => false) VStore.empty
      (ofConversation sampleRuntime bodyConfig (CacheKey.fromHashed sampleRuntime "k"))
      OutOfDate (CacheKey.fromHashed sampleRuntime "k").asStr afterRemoval := by
  intro before after s v hacts hr hv e he
  have hkept := orderly_aroundFirstTurn.kept
  obtain ⟨rfl, _, rfl⟩ :=
    (List.append_cons_inj_of_notMem hkept (by simp)).mp hacts
  rcases he with hnext | ⟨hold, hopen⟩
  · have hs := hr.unique (run_exec (turnServer Nat sampleRuntime bodyConfig
      fun _ => false) (Pool.fresh VStore.empty) aroundFirstTurn (by decide))
    rw [hs] at hv
    cases hv
    cases List.mem_singleton.mp hnext
    show ConversationEntry.isExpired _ _ = true
    decide
  · rw [made_aroundFirstTurn] at hold
    simp only [firstTurn, List.nil_append, List.mem_cons, List.not_mem_nil, or_false]
      at hold
    rcases hold with rfl | rfl | rfl
    all_goals exact absurd (by simp [aroundFirstTurn]) hopen

/-- The second send carries the ids of the reply, and the third, after the removal
of the entry, none. -/
theorem remembers_last_reply_afterRemoval :
    ∃ (s : TurnPool Nat) (ctx ctx' : RequestContext) (message message' : SendMessage),
      Run (turnServer Nat sampleRuntime bodyConfig fun _ => false)
        (Pool.fresh VStore.empty) afterRemoval s ∧
      outcome (s.calls 3) = some (.request ⟨"/rest", [], [], [], true⟩ none,
        .filtered (.continued ctx message)) ∧
      sentIds message.params = (some (.str "t"), some (.str "c")) ∧
      outcome (s.calls 4) = some (.request ⟨"/rest", [], [], [], true⟩
          (some ⟨100 * 1000000000, by decide⟩),
        .filtered (.continued ctx' message')) ∧
      sentIds message'.params = (none, none) := by
  have hr := run_exec (turnServer Nat sampleRuntime bodyConfig fun _ => false)
    (Pool.fresh VStore.empty) afterRemoval (by decide)
  generalize hs : (exec (turnServer Nat sampleRuntime bodyConfig fun _ => false)
    (Pool.fresh VStore.empty) afterRemoval).get (by decide) = s at hr
  have hi : ∃ ctx message, outcome (s.calls 3) =
      some (.request ⟨"/rest", [], [], [], true⟩ none,
        .filtered (.continued ctx message)) := by
    rw [← hs]
    exact ⟨_, _, rfl⟩
  have hj : ∃ ctx message, outcome (s.calls 4) =
      some (.request ⟨"/rest", [], [], [], true⟩ (some ⟨100 * 1000000000, by decide⟩),
        .filtered (.continued ctx message)) := by
    rw [← hs]
    exact ⟨_, _, rfl⟩
  obtain ⟨ctx, message, hi⟩ := hi
  obtain ⟨ctx', message', hj⟩ := hj
  have hids := remembers_last_reply rfl hr rfl inTurn_afterRemoval spent_afterRemoval
    made_afterRemoval hi (Or.inl rfl)
  have hnone := remembers_last_reply rfl hr rfl inTurn_afterRemoval spent_afterRemoval
    (made_afterRemoval.trans (List.nil_append _).symm) hj (Or.inl rfl)
  exact ⟨s, ctx, ctx', message, message', hr, hi, hids, hj, hnone⟩

end RestToA2a.Policy.ConversationMemory
