import RestToA2a.Policy.Turns

/-!
# Continuity of conversations over sequential turns

On a local backend the turns of a policy implement a register: the ids of the
last continuable reply of each conversation string, with the time they run out.
`Simulates` relates the two and is kept by every turn, whatever it is.
-/

namespace RestToA2a.Policy.Continuity

open RestToA2a.Verified.VersionedStore
open RestToA2a.Verified.StorageProgram
open RestToA2a.Policy.Serde
open RestToA2a.Policy.A2a
open RestToA2a.Policy.Cache
open RestToA2a.Policy.Cache.ConversationStore
open RestToA2a.Policy.CacheSteps
open RestToA2a.Policy.CacheCalls
open RestToA2a.Policy.CacheClosing
open RestToA2a.Policy.CacheSequential
open RestToA2a.Policy.Continuation
open RestToA2a.Policy.Gateway
open RestToA2a.Policy.ConfigMap
open RestToA2a.Policy.Filter
open RestToA2a.Policy.Turns

/-! ## The register -/

/-- For each conversation string the ids to send and when they run out. -/
abbrev Register := String → Option (Continuation × Nat)

/-- Lifetime of the ids of a reply. -/
def ttlMillis (config : PolicyConfig) : Nat := (conversationStore config).ttlMillis

/-- What a turn makes of the register. -/
def Register.after (rt : Runtime) (config : PolicyConfig) (turn : Turn)
    (reg : Register) : Register :=
  match conversationOf config turn, replyFacts rt config turn with
  | some v, some parsed =>
      match parsed.class with
      | .continuable =>
          Function.update reg v (some (parsed.continuation,
            nowMillis turn.responseClock + ttlMillis config))
      | .terminal => Function.update reg v none
      | .unknown => reg
  | _, _ => reg

/-- The ids a turn sends. -/
def Register.carried (config : PolicyConfig) (turn : Turn) (reg : Register) :
    Continuation :=
  match conversationOf config turn with
  | none => {}
  | some v =>
      match reg v with
      | some (ids, expiry) =>
          if nowMillis turn.requestClock < expiry then ids else {}
      | none => {}

/-- The register after some turns. -/
def register (rt : Runtime) (config : PolicyConfig) (turns : List Turn) : Register :=
  turns.foldl (fun reg turn => reg.after rt config turn) fun _ => none

/-! ## The simulation -/

/-- The entry that stands for a register value. -/
def entryOf (value : Continuation × Nat) : ConversationEntry where
  contextId := value.1.contextId
  taskId := value.1.taskId
  state := .continuable
  expiresAtMillis := value.2

/-- The store holds what the register says, under the keys of the strings `P`. -/
def Simulates (rt : Runtime) (P : String → Prop) (reg : Register)
    (a : Conversations) : Prop :=
  ∀ v, P v → a (CacheKey.fromHashed rt v).asStr = (reg v).map entryOf

/-- The digest tells the strings `P` apart. -/
def Separates (rt : Runtime) (P : String → Prop) : Prop :=
  ∀ v w, P v → P w → rt.sha256 (utf8 v) = rt.sha256 (utf8 w) → v = w

theorem Separates.key_ne {rt : Runtime} {P : String → Prop}
    (h : Separates rt P) {v w : String} (hv : P v) (hw : P w) (hne : v ≠ w) :
    (CacheKey.fromHashed rt v).asStr ≠ (CacheKey.fromHashed rt w).asStr :=
  fun heq => hne (h v w hv hw (CacheKey.fromHashed_digest heq))

/-- The `u64` sum of a clock reading and a lifetime does not wrap. -/
theorem expiresAt_nowMillis (store : ConversationStore) (clock : Clock) :
    store.expiresAt (nowMillis clock) = nowMillis clock + store.ttlMillis := by
  have hnow := nowMillis_lt clock
  have httl := store.ttl_lt
  simp only [ConversationStore.expiresAt]
  omega

theorem readable_entryOf (value : Option (Continuation × Nat)) (now : Nat) :
    (readable (value.map entryOf) now).getD {} =
      match value with
      | some (ids, expiry) => if now < expiry then ids else {}
      | none => {} := by
  cases value with
  | none => rfl
  | some value =>
      obtain ⟨ids, expiry⟩ := value
      have hread : readable (some (entryOf (ids, expiry))) now =
          if now < expiry then some ids else none :=
        readable_continuable rfl now
      simp only [Option.map_some, hread]
      split <;> rfl

/-- The ids a turn resolves are those of the register. -/
theorem Simulates.carried {rt : Runtime} {P : String → Prop} {reg : Register}
    {a : Conversations} (h : Simulates rt P reg a) {config : PolicyConfig}
    {turn : Turn} (hP : ∀ v, conversationOf config turn = some v → P v) :
    (resolved rt config turn a).continuation = reg.carried config turn := by
  cases hv : conversationOf config turn with
  | none => simp [resolved, Register.carried, hv]
  | some v =>
      simp only [resolved, Register.carried, hv, cached, h v (hP v hv)]
      exact readable_entryOf (reg v) _

/-- **Every turn keeps the simulation.** -/
theorem Simulates.step {rt : Runtime} {P : String → Prop} {reg : Register}
    {a : Conversations} (h : Simulates rt P reg a) (hsep : Separates rt P)
    {config : PolicyConfig} (hlocal : config.distributed = false) {turn : Turn}
    (hP : ∀ v, conversationOf config turn = some v → P v) :
    Simulates rt P (reg.after rt config turn) (afterTurn rt config turn a) := by
  cases hv : conversationOf config turn with
  | none => simpa [Register.after, afterTurn, hv] using h
  | some v =>
      cases hf : replyFacts rt config turn with
      | none => simpa [Register.after, afterTurn, hv, hf] using h
      | some parsed =>
          have hPv := hP v hv
          intro w hw
          simp only [Register.after, afterTurn, hv, hf, effect]
          by_cases hwv : w = v
          · subst hwv
            rw [Function.update_self, h w hw]
            cases hc : parsed.class with
            | continuable =>
                have hlive : settle (conversationStore config) .continuable
                    parsed.continuation (nowMillis turn.responseClock)
                      ((reg w).map entryOf) =
                    some (liveEntry (conversationStore config) parsed.continuation
                      (nowMillis turn.responseClock)) := by
                  cases reg w <;> rfl
                rw [hlive]
                simp [liveEntry, entryOf, expiresAt_nowMillis, ttlMillis]
            | terminal =>
                rw [settle_terminal_local hlocal]
                simp
            | unknown => rfl
          · rw [Function.update_of_ne (hsep.key_ne hw hPv hwv), h w hw]
            cases hc : parsed.class <;> simp [hwv]

theorem simulates_register (rt : Runtime) {P : String → Prop}
    (hsep : Separates rt P) {config : PolicyConfig}
    (hlocal : config.distributed = false) (turns : List Turn)
    (hP : ∀ turn ∈ turns, ∀ v, conversationOf config turn = some v → P v)
    {reg : Register} {a : Conversations} (h : Simulates rt P reg a) :
    Simulates rt P (turns.foldl (fun reg turn => reg.after rt config turn) reg)
      (turns.foldl (fun a turn => afterTurn rt config turn a) a) := by
  induction turns generalizing reg a with
  | nil => exact h
  | cons turn turns ih =>
      simp only [List.foldl_cons]
      exact ih (fun t ht => hP t (by simp [ht]))
        (h.step hsep hlocal (hP turn (by simp)))

/-- **Multi-turn continuity on the local backend.**  In every sequence of
cache-mode turns from the empty store, whatever the configuration is otherwise,
the taskId and contextId members of a forwarded send are those of the register
after the turns before it. -/
theorem sentIds_of_register {τ : Type} [DecidableEq τ]
    (m : Mint String ConversationEntry τ) (rt : Runtime) {config : PolicyConfig}
    (hmode : config.continuationMode = .cache)
    (hlocal : config.distributed = false) {turns : List Turn}
    (hsep : Separates rt fun v =>
      ∃ turn ∈ turns, conversationOf config turn = some v)
    {n : Nat} {turn : Turn} {ctx : RequestContext} {message : SendMessage}
    (hturn : turns[n]? = some turn)
    (hflow : (flows m rt config VStore.empty turns)[n]? =
      some (.continued ctx message)) :
    sentIds message.params =
      ((register rt config (turns.take n)).carried config turn).members := by
  rw [flows_getElem? m rt hmode VStore.empty hturn,
    contents_storeAfterTurns m rt hmode] at hflow
  have hP : ∀ t ∈ turns.take n, ∀ v, conversationOf config t = some v →
      ∃ turn ∈ turns, conversationOf config turn = some v :=
    fun t ht v hv => ⟨t, List.mem_of_mem_take ht, hv⟩
  have hempty : Simulates rt (fun v => ∃ turn ∈ turns,
      conversationOf config turn = some v) (fun _ => none)
      (VStore.empty : Entries τ).contents := fun v _ => rfl
  have hsim := simulates_register rt hsep hlocal (turns.take n) hP hempty
  have hcarried := hsim.carried fun v (hv : conversationOf config turn = some v) =>
    ⟨turn, List.mem_of_getElem? hturn, hv⟩
  simp only [flowOf, forward] at hflow
  split at hflow
  · cases hflow
  · split at hflow
    · simp only [Option.some.injEq, Flow.continued.injEq] at hflow
      rw [← hflow.2, sendMessage, sentIds_buildSendMessage, hcarried, register]
    · cases hflow

/-- The second of two turns carries the ids of the first one's reply. -/
theorem sentIds_of_register_secondTurn :
    ∃ ctx message, (flows Mint.counter sampleRuntime (sampleConfig false)
        VStore.empty [sampleTurn workingText 1 2, sampleTurn workingText 3 4])[1]? =
        some (.continued ctx message) ∧
      sentIds message.params = (some (.str "t"), some (.str "c")) := by
  have hsep : Separates sampleRuntime fun v =>
      ∃ turn ∈ [sampleTurn workingText 1 2, sampleTurn workingText 3 4],
        conversationOf (sampleConfig false) turn = some v := by
    rintro v w ⟨t, _, hv⟩ ⟨u, _, hw⟩ _
    exact Option.some.inj (hv.symm.trans hw)
  have hflow := flows_getElem? Mint.counter sampleRuntime
    (rfl : (sampleConfig false).continuationMode = .cache) VStore.empty
    (rfl : [sampleTurn workingText 1 2, sampleTurn workingText 3 4][1]? =
      some (sampleTurn workingText 3 4))
  refine ⟨_, _, hflow, ?_⟩
  rw [sentIds_of_register Mint.counter sampleRuntime rfl rfl hsep rfl hflow]
  rfl

/-! ## The warning about replies that cannot be resumed -/

/-- A continuation carries at least one of the ids of a reply. -/
def Carries (c : Continuation) (parsed : ParsedResult) : Prop :=
  (∃ t, c.taskId = some t ∧ parsed.taskId = some t) ∨
    ∃ x, c.contextId = some x ∧ parsed.contextId = some x

theorem not_carries_empty (parsed : ParsedResult) : ¬ Carries {} parsed := by
  simp [Carries]

/-- The ids of a reply carry some of its ids when there are any. -/
theorem carries_continuation (parsed : ParsedResult) :
    Carries parsed.continuation parsed ↔ parsed.continuation.isEmpty = false := by
  obtain ⟨state, taskId, contextId⟩ := parsed
  cases taskId <;> cases contextId <;>
    simp [Carries, ParsedResult.continuation, Continuation.isEmpty]

theorem readable_liveEntry (store : ConversationStore) (ids : Continuation)
    (clock : Clock) {now : Nat} (h : now < nowMillis clock + store.ttlMillis) :
    readable (some (store.liveEntry ids (nowMillis clock))) now = some ids := by
  rw [readable_continuable rfl]
  exact if_pos (by rwa [liveEntry, expiresAt_nowMillis])

section Warning

variable {τ : Type} [DecidableEq τ]

/-- What the next turn of a conversation resolves after a continuable reply, and
that persisting the reply neither fails nor warns. -/
theorem next_turn_after_reply (m : Mint String ConversationEntry τ) (rt : Runtime)
    (config : PolicyConfig) (s : Entries τ) (v : String) {result : Json}
    (clock clock' clock'' : Clock)
    (hclass : (parseResult result).class = .continuable)
    (hlive : nowMillis clock'' < nowMillis clock' + ttlMillis config) :
    ∃ s', (persistOutcome (conversationStore config)
        ((resolveCache rt (some v) (nowMillis clock)).run m s).1
        (parseResult result).class (parseResult result).continuation
        (nowMillis clock')).run m s = (.ok (), s') ∧
      isUnresumableContinuable
        ((resolveCache rt (some v) (nowMillis clock)).run m s).1
        (parseResult result).class = false ∧
      (Closed s (CacheKey.fromHashed rt v) →
        ((resolveCache rt (some v) (nowMillis clock'')).run m s').1.continuation =
          {}) ∧
      (¬ Closed s (CacheKey.fromHashed rt v) →
        ((resolveCache rt (some v) (nowMillis clock'')).run m s').1.continuation =
          (parseResult result).continuation) := by
  have hkey : ((resolveCache rt (some v) (nowMillis clock)).run m s).1.cacheKey =
      some (CacheKey.fromHashed rt v) := rfl
  obtain ⟨s', hrun, hs'⟩ := run_persistOutcome m (conversationStore config)
    ((resolveCache rt (some v) (nowMillis clock)).run m s).1
    (parseResult result).class (parseResult result).continuation (nowMillis clock') s
  have hentry : s'.contents (CacheKey.fromHashed rt v).asStr =
      settle (conversationStore config) .continuable
        (parseResult result).continuation (nowMillis clock')
        (s.contents (CacheKey.fromHashed rt v).asStr) := by
    simp only [hs', persisted, hkey, effect, Function.update_self, hclass]
  refine ⟨s', hrun, ?_, fun hc => ?_, fun hc => ?_⟩
  · simp [isUnresumableContinuable, RequestContinuation.isResumable, hkey]
  · rw [settle_continuable_of_closed hc] at hentry
    obtain ⟨e, he, hTerm⟩ := hc
    rw [run_resolveCache, hentry, he, readable_terminal hTerm]
    rfl
  · rw [settle_continuable_of_not_closed hc] at hentry
    rw [run_resolveCache, hentry, readable_liveEntry _ _ _ hlive]
    rfl

/-- **After a continuable reply.**  Whatever the store holds and whichever the
backend, a continuable reply to a turn with a conversation string is persisted
without error and without a warning, and the next turn of the conversation,
before the ids run out, carries ids of the reply exactly if the reply had some
and its key was not closed when it was persisted. -/
theorem carries_after_reply (m : Mint String ConversationEntry τ) (rt : Runtime)
    (config : PolicyConfig) (s : Entries τ) (v : String) (result : Json)
    (clock clock' clock'' : Clock)
    (hclass : (parseResult result).class = .continuable)
    (hlive : nowMillis clock'' < nowMillis clock' + ttlMillis config) :
    let request := ((resolveCache rt (some v) (nowMillis clock)).run m s).1
    ∃ s', (persistOutcome (conversationStore config) request
        (parseResult result).class (parseResult result).continuation
        (nowMillis clock')).run m s = (.ok (), s') ∧
      isUnresumableContinuable request (parseResult result).class = false ∧
      (Carries ((resolveCache rt (some v) (nowMillis clock'')).run m
          s').1.continuation (parseResult result) ↔
        ¬ Closed s (CacheKey.fromHashed rt v) ∧
          (parseResult result).continuation.isEmpty = false) := by
  intro request
  obtain ⟨s', hrun, hwarn, hClosed, hOpen⟩ :=
    next_turn_after_reply m rt config s v clock clock' clock'' hclass hlive
  refine ⟨s', hrun, hwarn, ?_⟩
  by_cases hc : Closed s (CacheKey.fromHashed rt v)
  · rw [hClosed hc]
    simp [hc, not_carries_empty]
  · rw [hOpen hc, carries_continuation]
    simp [hc]

/-- No warning means that the next turn carries an id of the reply, for every
store that sequential turns lead to. -/
def WarningSound (m : Mint String ConversationEntry τ) (rt : Runtime)
    (config : PolicyConfig) : Prop :=
  ∀ (turns : List Turn) (v : String) (result : Json) (clock clock' clock'' : Clock),
    let s := storeAfterTurns m rt config VStore.empty turns
    let request := ((resolveCache rt (some v) (nowMillis clock)).run m s).1
    let parsed := parseResult result
    let persisted := (persistOutcome (conversationStore config) request
      parsed.class parsed.continuation (nowMillis clock')).run m s
    parsed.class = .continuable → persisted.1 = .ok () →
    isUnresumableContinuable request parsed.class = false →
    nowMillis clock'' < nowMillis clock' + ttlMillis config →
    Carries ((resolveCache rt (some v) (nowMillis clock'')).run m
      persisted.2).1.continuation parsed

/-- Soundness of the warning would leave no closed key and no reply without
ids. -/
theorem WarningSound.forces {m : Mint String ConversationEntry τ} {rt : Runtime}
    {config : PolicyConfig} (h : WarningSound m rt config) (turns : List Turn)
    (v : String) (result : Json) (clock clock' clock'' : Clock)
    (hclass : (parseResult result).class = .continuable)
    (hlive : nowMillis clock'' < nowMillis clock' + ttlMillis config) :
    ¬ Closed (storeAfterTurns m rt config VStore.empty turns)
        (CacheKey.fromHashed rt v) ∧
      (parseResult result).continuation.isEmpty = false := by
  obtain ⟨s', hrun, hwarn, hClosed, hOpen⟩ := next_turn_after_reply m rt config
    (storeAfterTurns m rt config VStore.empty turns) v clock clock' clock'' hclass
    hlive
  have hcarries := h turns v result clock clock' clock'' hclass
  simp only [hrun, true_imp_iff] at hcarries
  have hids := hcarries hwarn hlive
  by_cases hc : Closed (storeAfterTurns m rt config VStore.empty turns)
      (CacheKey.fromHashed rt v)
  · rw [hClosed hc] at hids
    exact absurd hids (not_carries_empty _)
  · rw [hOpen hc, carries_continuation] at hids
    exact ⟨hc, hids⟩

end Warning

/-- A continuable reply that names neither id. -/
def anonymousReply : Json := .obj [("status", .obj [("state", .str "working")])]

/-- The warning is not sound on either backend: a reply may name no id, and on
a remote backend a tombstone keeps the ids of a later reply from being stored. -/
theorem warning_unsound :
    ¬ WarningSound Mint.counter sampleRuntime (sampleConfig false) ∧
      ¬ WarningSound Mint.counter sampleRuntime (sampleConfig true) := by
  constructor
  · intro h
    have hids := (h.forces [] "k" anonymousReply none none none rfl
      (by decide)).2
    cases hids
  · intro h
    refine (h.forces [sampleTurn workingText 1 2, sampleTurn completedText 3 4]
      "k" workingReply none none none rfl (by decide)).1 ?_
    refine ⟨tombstone (.new true 60) 4000, ?_, rfl⟩
    rw [contents_storeAfterTurns Mint.counter sampleRuntime rfl]
    rfl

theorem carries_after_reply_working :
    ∃ s' : Entries Nat, Carries ((resolveCache sampleRuntime (some "k")
        (nowMillis none)).run Mint.counter s').1.continuation
      (parseResult workingReply) := by
  obtain ⟨s', _, _, hiff⟩ := carries_after_reply Mint.counter sampleRuntime
    (sampleConfig true) VStore.empty "k" workingReply none none none rfl (by decide)
  exact ⟨s', hiff.mpr ⟨not_closed_of_missing rfl, rfl⟩⟩

end RestToA2a.Policy.Continuity
