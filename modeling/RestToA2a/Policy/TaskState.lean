import RestToA2a.Policy.ResponseOutcome

/-!
# Which task states close a task

The spellings of task states, listed, and the class a task has by the list
alone: a state that is missing, is not a string or is on no list is unknown.
The parser drops the difference between a task without a state and a reply
without a task, so it agrees with the list exactly on the tasks whose state is
a string.
-/

namespace RestToA2a.Policy.TaskState

open RestToA2a.Verified.VersionedStore
open RestToA2a.Verified.StorageProgram
open RestToA2a.Policy.Serde
open RestToA2a.Policy.A2a
open RestToA2a.Policy.Cache
open RestToA2a.Policy.Cache.ConversationStore
open RestToA2a.Policy.CacheSteps
open RestToA2a.Policy.CacheCalls
open RestToA2a.Policy.CacheSequential
open RestToA2a.Policy.Filter
open RestToA2a.Policy.Turns
open RestToA2a.Policy.ResponseOutcome

/-! ## The classes by their spellings -/

/-- The states in which a task goes on. -/
def continuableSpellings : List String :=
  ["TASK_STATE_SUBMITTED", "TASK_STATE_WORKING", "TASK_STATE_INPUT_REQUIRED",
    "TASK_STATE_AUTH_REQUIRED", "submitted", "working", "input-required",
    "auth-required"]

/-- The states in which a task is over. -/
def terminalSpellings : List String :=
  ["TASK_STATE_COMPLETED", "TASK_STATE_FAILED", "TASK_STATE_CANCELED",
    "TASK_STATE_REJECTED", "completed", "failed", "canceled", "cancelled",
    "rejected"]

theorem classifyState_eq (s : String) :
    classifyState s =
      if s ∈ continuableSpellings then .continuable
      else if s ∈ terminalSpellings then .terminal
      else .unknown := by
  by_cases hc : s ∈ continuableSpellings
  · rw [if_pos hc]
    simp only [continuableSpellings, List.mem_cons, List.not_mem_nil, or_false] at hc
    rcases hc with rfl | rfl | rfl | rfl | rfl | rfl | rfl | rfl <;> rfl
  · rw [if_neg hc]
    by_cases ht : s ∈ terminalSpellings
    · rw [if_pos ht]
      simp only [terminalSpellings, List.mem_cons, List.not_mem_nil, or_false] at ht
      rcases ht with rfl | rfl | rfl | rfl | rfl | rfl | rfl | rfl | rfl <;> rfl
    · rw [if_neg ht]
      unfold classifyState
      split <;> first
        | rfl
        | exact absurd (by decide) hc
        | exact absurd (by decide) ht

/-- The state of a task, whatever JSON it is. -/
def stateOf (task : Json) : Option Json :=
  (task.get? "status").bind (·.get? "state")

/-- The state of the task is a string. -/
def StateIsString (task : Json) : Prop := ∃ s, stateOf task = some (.str s)

/-- The class of a task by the spelling of its state. -/
def recognizedClass (task : Json) : StateClass :=
  match stateOf task with
  | some (.str s) =>
      if s ∈ continuableSpellings then .continuable
      else if s ∈ terminalSpellings then .terminal
      else .unknown
  | _ => .unknown

/-- The result presents the task: as its `task` member, or as itself. -/
inductive Presents (result task : Json) : Prop where
  | wrapped (h : result.get? "task" = some task) (hne : task ≠ .null)
  | bare (h : result.get? "task" = none)
      (hstatus : (result.get? "status").isSome = true) (heq : task = result)

theorem presentedTask_of_presents {result task : Json} (h : Presents result task) :
    presentedTask result = some task := by
  cases h with
  | wrapped h hne => simp [presentedTask, h]
  | bare h hstatus heq => simp [presentedTask, h, hstatus, heq]

/-! ## What the parser makes of a task -/

/-- The state is a matter of the task, wrapped or bare. -/
theorem state_of_presents {result task : Json} (h : Presents result task) :
    (parseResult result).state = (stateOf task).bind Json.asStr := by
  simp only [parseResult, presentedTask_of_presents h, stateOf]

theorem class_of_stateIsString {result task : Json} (h : Presents result task)
    (hs : StateIsString task) :
    (parseResult result).class = recognizedClass task := by
  obtain ⟨s, hs⟩ := hs
  rw [ParsedResult.class, state_of_presents h, recognizedClass, hs]
  exact classifyState_eq s

/-- A task whose state is no string passes for a reply without a task. -/
theorem class_of_not_stateIsString {result task : Json} (h : Presents result task)
    (hs : ¬ StateIsString task) :
    (parseResult result).class = .terminal ∧ recognizedClass task = .unknown := by
  rw [ParsedResult.class, state_of_presents h]
  unfold StateIsString at hs
  unfold recognizedClass
  cases hstate : stateOf task with
  | none => exact ⟨rfl, rfl⟩
  | some state =>
      cases state with
      | str s => exact absurd ⟨s, hstate⟩ hs
      | _ => exact ⟨rfl, rfl⟩

/-! ## What becomes of a live conversation -/

/-- What an outcome of the class leaves of a live entry: the new ids in its
place, nothing a caller can resume, or the entry as it was. -/
def entryAfter (store : ConversationStore) (stateClass : StateClass)
    (continuation : Continuation) (nowMillis : Nat) (entry : ConversationEntry) :
    Option ConversationEntry :=
  match stateClass with
  | .continuable => some (store.liveEntry continuation nowMillis)
  | .terminal =>
      if store.distributed then some (store.tombstone nowMillis) else none
  | .unknown => some entry

theorem settle_of_live {store : ConversationStore} {entry : ConversationEntry}
    (hlive : entry.state = .continuable) (stateClass : StateClass)
    (continuation : Continuation) (nowMillis : Nat) :
    settle store stateClass continuation nowMillis (some entry) =
      entryAfter store stateClass continuation nowMillis entry := by
  cases stateClass <;> simp [settle, entryAfter, hlive]

/-- An eviction is seen on every live entry. -/
theorem entryAfter_terminal_ne {store : ConversationStore}
    {entry : ConversationEntry} (hlive : entry.state = .continuable)
    (continuation : Continuation) (nowMillis : Nat) :
    entryAfter store .terminal continuation nowMillis entry ≠ some entry := by
  cases hd : store.distributed with
  | false => simp [entryAfter, hd]
  | true =>
      simp only [entryAfter, hd, if_true, ne_eq, Option.some.injEq]
      intro heq
      rw [← heq] at hlive
      cases hlive

variable {τ : Type} [DecidableEq τ]

theorem contents_run_recordOutcome (m : Mint String ConversationEntry τ)
    (store : ConversationStore) (key : CacheKey) (stateClass : StateClass)
    (continuation : Continuation) (nowMillis : Nat) {s : Entries τ}
    {entry : ConversationEntry} (he : s.contents key.asStr = some entry)
    (hlive : entry.state = .continuable) :
    ((store.recordOutcome key stateClass continuation nowMillis).run m s).2.contents =
      Function.update s.contents key.asStr
        (entryAfter store stateClass continuation nowMillis entry) := by
  obtain ⟨s', hrun, hs'⟩ :=
    run_recordOutcome m store key stateClass continuation nowMillis s
  rw [hrun, ← settle_of_live hlive stateClass continuation nowMillis, ← he]
  exact hs'

/-- **When only a recognized state closes a task.**  For a result that presents
a task, wrapped or bare, the class of the result is that of the spelling of the
task's state, and recording it does to a live entry what that class calls for,
exactly if the state is a string.  Which of the two forms presents the task
makes no difference. -/
theorem class_recognized_iff (m : Mint String ConversationEntry τ)
    (store : ConversationStore) (key : CacheKey) (continuation : Continuation)
    (nowMillis : Nat) {s : Entries τ} {entry : ConversationEntry}
    (he : s.contents key.asStr = some entry)
    (hlive : entry.state = .continuable) {result task : Json}
    (h : Presents result task) :
    ((parseResult result).class = recognizedClass task ↔ StateIsString task) ∧
      (((store.recordOutcome key (parseResult result).class continuation
          nowMillis).run m s).2.contents =
        Function.update s.contents key.asStr
          (entryAfter store (recognizedClass task) continuation nowMillis entry) ↔
        StateIsString task) ∧
      ∀ other, Presents other task →
        (parseResult other).class = (parseResult result).class := by
  refine ⟨⟨fun hclass => ?_, class_of_stateIsString h⟩,
    ⟨fun hcontents => ?_, fun hs => ?_⟩, fun other hother => ?_⟩
  · by_contra hs
    obtain ⟨hterminal, hunknown⟩ := class_of_not_stateIsString h hs
    rw [hterminal, hunknown] at hclass
    cases hclass
  · by_contra hs
    obtain ⟨hterminal, hunknown⟩ := class_of_not_stateIsString h hs
    rw [contents_run_recordOutcome m store key _ continuation nowMillis he hlive,
      hterminal, hunknown] at hcontents
    have hentry := congrFun hcontents key.asStr
    rw [Function.update_self, Function.update_self] at hentry
    exact entryAfter_terminal_ne hlive continuation nowMillis hentry
  · rw [contents_run_recordOutcome m store key _ continuation nowMillis he hlive,
      class_of_stateIsString h hs]
  · simp only [ParsedResult.class, state_of_presents h, state_of_presents hother]

/-- The working reply, as a bare task, leaves its conversation open. -/
theorem class_recognized_iff_working :
    (parseResult workingReply).class = recognizedClass workingReply :=
  (class_recognized_iff Mint.counter (conversationStore (sampleConfig false))
    (CacheKey.fromHashed sampleRuntime "k") ⟨some "t", some "c"⟩ 2000
    (s := liveStore (sampleConfig false)) (by rfl) rfl
    (.bare rfl rfl rfl)).1.mpr ⟨"working", rfl⟩

/-- The class of a result is that of its task's state. -/
def OnlyRecognizedStatesClose : Prop :=
  ∀ result task, Presents result task →
    (parseResult result).class = recognizedClass task

/-- A task whose status carries no state. -/
def statelessTask : Json :=
  .obj [("contextId", .str "c"), ("id", .str "t"), ("status", .obj [])]

/-- A task without a state counts as over. -/
theorem stateless_task_closes : ¬ OnlyRecognizedStatesClose := by
  intro h
  have hclass := h (.obj [("task", statelessTask)]) statelessTask
    (.wrapped rfl (by simp [statelessTask]))
  exact absurd hclass (by decide)

end RestToA2a.Policy.TaskState
