import RestToA2a.Policy.Serde
import RestToA2a.Verified.Hex

/-!
# The A2A v1.0 surface of the policy

`a2a.rs`: the `SendMessage` parameters, the classification of task states, and
the facts read out of a raw send result.  The result parser accepts a wrapped
task, a bare task and a direct message; every other shape carries no facts and
classifies as `terminal`, like a direct message does.
-/

namespace RestToA2a.Policy.A2a

open RestToA2a.Verified
open RestToA2a.Policy.Serde

/-- JSON-RPC method of a unary send. -/
def sendMessageMethod : String := "SendMessage"

/-- Author role of a caller's message. -/
def roleUser : String := "ROLE_USER"

/-- The identifiers carried from one turn of a task to the next. -/
structure Continuation where
  taskId : Option String := none
  contextId : Option String := none
deriving DecidableEq

/-- No identifier is present: the send opens a fresh conversation. -/
def Continuation.isEmpty (c : Continuation) : Bool :=
  c.taskId.isNone && c.contextId.isNone

/-- The operator's `a2aConfiguration`. -/
structure SendConfiguration where
  acceptedOutputModes : Option (List String)
  blocking : Bool

/-- The `metadata` member: only a non-empty object contributes one. -/
def metadataMember : Option Json → Option Json
  | some (.obj members) => if members.isEmpty then none else some (.obj members)
  | _ => none

/-- The `configuration` object; the blocking flag goes out inverted. -/
def configurationMember (cfg : SendConfiguration) : Json :=
  let config := KeyedList.insertSome "acceptedOutputModes"
    (cfg.acceptedOutputModes.map fun modes => .arr (modes.map .str)) []
  .obj (KeyedList.insert "returnImmediately" (.bool !cfg.blocking) config)

/-- The `message` object of a send. -/
def messageMember (prompt messageId : String) (continuation : Continuation)
    (metadata : Option Json) : Json :=
  let message : Map := KeyedList.insert "messageId" (.str messageId) []
  let message := KeyedList.insert "role" (.str roleUser) message
  let message := KeyedList.insert "parts"
    (.arr [Json.object [("text", .str prompt)]]) message
  let message := KeyedList.insertSome "taskId"
    (continuation.taskId.map .str) message
  let message := KeyedList.insertSome "contextId"
    (continuation.contextId.map .str) message
  .obj (KeyedList.insertSome "metadata" (metadataMember metadata) message)

/-- The `params` of a `SendMessage`. -/
def buildSendMessage (prompt messageId : String) (continuation : Continuation)
    (configuration : Option SendConfiguration) (metadata : Option Json) : Json :=
  let params : Map := KeyedList.insert "message"
    (messageMember prompt messageId continuation metadata) []
  .obj (KeyedList.insertSome "configuration"
    (configuration.map configurationMember) params)

/-! ### The members of a send -/

theorem get?_messageMember (prompt messageId : String) (c : Continuation)
    (metadata : Option Json) (key : String) :
    (messageMember prompt messageId c metadata).get? key =
      if key = "metadata" then metadataMember metadata
      else if key = "contextId" then c.contextId.map .str
      else if key = "taskId" then c.taskId.map .str
      else if key = "parts" then
        some (.arr [Json.object [("text", .str prompt)]])
      else if key = "role" then some (.str roleUser)
      else if key = "messageId" then some (.str messageId)
      else none := by
  simp [messageMember, KeyedList.lookup_insertSome, KeyedList.lookup_insert]

theorem get?_configurationMember (cfg : SendConfiguration) (key : String) :
    (configurationMember cfg).get? key =
      if key = "returnImmediately" then some (.bool !cfg.blocking)
      else if key = "acceptedOutputModes" then
        cfg.acceptedOutputModes.map fun modes => .arr (modes.map .str)
      else none := by
  simp [configurationMember, KeyedList.lookup_insertSome, KeyedList.lookup_insert]

theorem get?_buildSendMessage (prompt messageId : String)
    (continuation : Continuation) (configuration : Option SendConfiguration)
    (metadata : Option Json) (key : String) :
    (buildSendMessage prompt messageId continuation configuration metadata).get? key =
      if key = "configuration" then configuration.map configurationMember
      else if key = "message" then
        some (messageMember prompt messageId continuation metadata)
      else none := by
  simp [buildSendMessage, KeyedList.lookup_insertSome, KeyedList.lookup_insert]

/-- A member of the `message` of some send parameters. -/
def messageField (params : Json) (key : String) : Option Json :=
  (params.get? "message").bind (·.get? key)

/-- The `taskId` and `contextId` members of some send parameters. -/
def sentIds (params : Json) : Option Json × Option Json :=
  (messageField params "taskId", messageField params "contextId")

/-- The members that carry a continuation on the wire. -/
def Continuation.members (c : Continuation) : Option Json × Option Json :=
  (c.taskId.map .str, c.contextId.map .str)

theorem Continuation.members_injective {c d : Continuation}
    (h : c.members = d.members) : c = d := by
  have hstr : Function.Injective (Option.map Json.str) :=
    Option.map_injective fun a b hab => by simpa using hab
  simp only [members, Prod.mk.injEq] at h
  obtain ⟨ct, cc⟩ := c
  obtain ⟨dt, dc⟩ := d
  rw [Continuation.mk.injEq]
  exact ⟨hstr h.1, hstr h.2⟩

/-- The identifiers of the continuation are exactly what the message carries. -/
theorem sentIds_buildSendMessage (prompt messageId : String)
    (continuation : Continuation) (configuration : Option SendConfiguration)
    (metadata : Option Json) :
    sentIds (buildSendMessage prompt messageId continuation configuration
      metadata) = continuation.members := by
  have hmessage : (buildSendMessage prompt messageId continuation configuration
      metadata).get? "message" =
        some (messageMember prompt messageId continuation metadata) := by
    simp [get?_buildSendMessage]
  have htask : (messageMember prompt messageId continuation metadata).get? "taskId" =
      continuation.taskId.map .str := by
    simp [get?_messageMember]
  have hcontext : (messageMember prompt messageId continuation metadata).get?
      "contextId" = continuation.contextId.map .str := by
    simp [get?_messageMember]
  simp only [sentIds, messageField, hmessage, Option.bind_some, htask, hcontext,
    Continuation.members]

/-- What a task state means for continuation. -/
inductive StateClass where
  | continuable
  | terminal
  | unknown
deriving DecidableEq

/-- The class of a task-state string, canonical or legacy spelling. -/
def classifyState (state : String) : StateClass :=
  match state with
  | "TASK_STATE_SUBMITTED"
  | "TASK_STATE_WORKING"
  | "TASK_STATE_INPUT_REQUIRED"
  | "TASK_STATE_AUTH_REQUIRED"
  | "submitted"
  | "working"
  | "input-required"
  | "auth-required" => .continuable
  | "TASK_STATE_COMPLETED"
  | "TASK_STATE_FAILED"
  | "TASK_STATE_CANCELED"
  | "TASK_STATE_REJECTED"
  | "completed"
  | "failed"
  | "canceled"
  | "cancelled"
  | "rejected" => .terminal
  | _ => .unknown

/-- The continuation facts of a send result. -/
structure ParsedResult where
  state : Option String := none
  taskId : Option String := none
  contextId : Option String := none
deriving DecidableEq

/-- The class of the state; a result without one is single-shot. -/
def ParsedResult.class (p : ParsedResult) : StateClass :=
  match p.state with
  | some s => classifyState s
  | none => .terminal

/-- The identifiers to persist. -/
def ParsedResult.continuation (p : ParsedResult) : Continuation :=
  ⟨p.taskId, p.contextId⟩

/-- The task a result presents: its `task` member, else the result itself when
it has a `status`. -/
def presentedTask (result : Json) : Option Json :=
  (result.get? "task").or
    (if (result.get? "status").isSome then some result else none)

/-- Extract the continuation facts of a raw send result. -/
def parseResult (result : Json) : ParsedResult :=
  match presentedTask result with
  | some task =>
      { state := ((task.get? "status").bind (·.get? "state")).bind Json.asStr
        taskId := (task.get? "id").bind Json.asStr
        contextId := (task.get? "contextId").bind Json.asStr }
  | none =>
      match result.get? "message" with
      | some message =>
          { state := none
            taskId := (message.get? "taskId").bind Json.asStr
            contextId := (message.get? "contextId").bind Json.asStr }
      | none => {}

/-- A result that presents no task has no state, so it is terminal. -/
theorem class_parseResult_of_no_task {result : Json}
    (h : presentedTask result = none) : (parseResult result).class = .terminal := by
  simp only [parseResult, h]
  cases result.get? "message" <;> rfl

/-- The message id: the first sixteen digest bytes of the seed, in hex. -/
def generateMessageId (rt : Runtime) (seed : Bytes) : String :=
  String.ofList (Hex.render ((rt.sha256 seed).toList.take 16))

end RestToA2a.Policy.A2a
