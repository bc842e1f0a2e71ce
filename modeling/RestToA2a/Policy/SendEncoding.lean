import RestToA2a.Policy.Filter

/-!
# Reading a send back

What goes upstream is told apart again by a decoder for each binding.  The
decoder takes the envelope off, reads the members of the message, and gives back
everything that was put in; only metadata that is not an object with members is
lost, because it is never sent.

Each input has a place in the body, the message id two of them under the
JSON-RPC binding.  What is read along a path depends on no input whose places
are off the path, so no text and no metadata of a caller reaches a member that
is not its own.
-/

namespace RestToA2a.Policy.SendEncoding

open RestToA2a.Verified
open RestToA2a.Verified.StorageProgram
open RestToA2a.Policy.Serde
open RestToA2a.Policy.A2a
open RestToA2a.Policy.Binding
open RestToA2a.Policy.Gateway
open RestToA2a.Policy.ConfigMap
open RestToA2a.Policy.Filter
open RestToA2a.Policy.Dataweave

/-- What a send is made of. -/
structure Send where
  prompt : String
  messageId : String
  continuation : Continuation
  configuration : Option SendConfiguration
  metadata : Option Json

namespace Send

/-- The parameters of the send. -/
def params (send : Send) : Json :=
  buildSendMessage send.prompt send.messageId send.continuation
    send.configuration send.metadata

/-- The JSON of the framed send. -/
def body (send : Send) (binding : UpstreamBinding) : Json :=
  frameBody binding send.messageId send.params

/-- The bytes of the framed send. -/
def encode (rt : Runtime) (binding : UpstreamBinding) (send : Send) : Bytes :=
  frameRequest rt binding send.messageId send.params

/-- What is printed for the send is read back as it was, for either binding. -/
def ReadBack (rt : Runtime) (send : Send) : Prop :=
  ∀ binding, rt.fromSlice (send.encode rt binding) = some (send.body binding)

end Send

/-! ## The decoder -/

/-- Take the envelope off. -/
def unframe : UpstreamBinding → Json → Option Json
  | .jsonRpc, body => body.get? "params"
  | .httpJson, body => some body

/-- A list of strings. -/
def readStrings : Json → Option (List String)
  | .arr elems => elems.mapM Json.asStr
  | _ => none

/-- A flag. -/
def readBool : Json → Option Bool
  | .bool b => some b
  | _ => none

/-- A `configuration` member. -/
def readConfiguration (config : Json) : Option SendConfiguration := do
  let modes ← (config.get? "acceptedOutputModes").mapM readStrings
  let returnImmediately ← (config.get? "returnImmediately").bind readBool
  some ⟨modes, !returnImmediately⟩

/-- The parameters of a send. -/
def readParams (params : Json) : Option Send := do
  let message ← params.get? "message"
  let prompt ← (message.walk [.key "parts", .index 0, .key "text"]).bind Json.asStr
  let messageId ← (message.get? "messageId").bind Json.asStr
  let taskId ← (message.get? "taskId").mapM Json.asStr
  let contextId ← (message.get? "contextId").mapM Json.asStr
  let configuration ← (params.get? "configuration").mapM readConfiguration
  some ⟨prompt, messageId, ⟨taskId, contextId⟩, configuration,
    message.get? "metadata"⟩

/-- A body of the binding. -/
def decode (rt : Runtime) (binding : UpstreamBinding) (body : Bytes) :
    Option Send :=
  ((rt.fromSlice body).bind (unframe binding)).bind readParams

/-! ## The members -/

theorem get?_params (send : Send) (key : String) :
    send.params.get? key =
      if key = "configuration" then send.configuration.map configurationMember
      else if key = "message" then
        some (messageMember send.prompt send.messageId send.continuation
          send.metadata)
      else none :=
  get?_buildSendMessage ..

theorem get?_body_jsonRpc (send : Send) (key : String) :
    (send.body .jsonRpc).get? key =
      if key = "params" then some send.params
      else if key = "method" then some (.str sendMessageMethod)
      else if key = "id" then some (.str send.messageId)
      else if key = "jsonrpc" then some (.str jsonrpcVersion)
      else none :=
  get?_buildRequest ..

/-! ## Reading back -/

theorem unframe_body (send : Send) (binding : UpstreamBinding) :
    unframe binding (send.body binding) = some send.params := by
  cases binding with
  | jsonRpc => simp [unframe, get?_body_jsonRpc]
  | httpJson => rfl

theorem readStrings_strs (texts : List String) :
    readStrings (.arr (texts.map .str)) = some texts := by
  induction texts with
  | nil => rfl
  | cons text rest ih =>
      simp only [readStrings] at ih ⊢
      simp [Json.asStr, ih]

theorem readConfiguration_configurationMember (cfg : SendConfiguration) :
    readConfiguration (configurationMember cfg) = some cfg := by
  obtain ⟨modes, blocking⟩ := cfg
  cases modes with
  | none => simp [readConfiguration, get?_configurationMember, readBool]
  | some modes =>
      simp [readConfiguration, get?_configurationMember, readBool,
        readStrings_strs]

/-- An optional text is read back, present or not. -/
theorem mapM_asStr_str (text : Option String) :
    (text.map Json.str).mapM Json.asStr = some text := by
  cases text <;> rfl

theorem mapM_readConfiguration (configuration : Option SendConfiguration) :
    (configuration.map configurationMember).mapM readConfiguration =
      some configuration := by
  cases configuration with
  | none => rfl
  | some cfg => simp [readConfiguration_configurationMember]

theorem walk_text (prompt messageId : String) (c : Continuation)
    (metadata : Option Json) :
    (messageMember prompt messageId c metadata).walk
      [.key "parts", .index 0, .key "text"] = some (.str prompt) := by
  simp [Json.walk, Json.step, get?_messageMember, Json.at?, Json.object,
    KeyedList.lookup_insert]

/-- **The parameters of a send are read back.** -/
theorem readParams_params (send : Send) :
    readParams send.params =
      some { send with metadata := metadataMember send.metadata } := by
  simp [readParams, get?_params, walk_text, get?_messageMember, Json.asStr,
    mapM_asStr_str, mapM_readConfiguration]

theorem decode_encode {rt : Runtime} {send : Send} {binding : UpstreamBinding}
    (h : rt.fromSlice (send.encode rt binding) = some (send.body binding)) :
    decode rt binding (send.encode rt binding) =
      some { send with metadata := metadataMember send.metadata } := by
  rw [decode, h, Option.bind_some, unframe_body, Option.bind_some,
    readParams_params]

/-- Metadata is missing from the message exactly if it is no object with
members. -/
theorem metadataMember_eq_none_iff (metadata : Option Json) :
    metadataMember metadata = none ↔
      ¬ ∃ members, members ≠ [] ∧ metadata = some (.obj members) := by
  fun_cases metadataMember metadata <;> simp_all

theorem metadataMember_of_some {metadata : Option Json} {value : Json}
    (h : metadataMember metadata = some value) : metadata = some value := by
  fun_cases metadataMember metadata <;> simp_all [metadataMember]

/-! ## Where an input goes -/

/-- The inputs of a send. -/
inductive Input where
  | prompt
  | messageId
  | taskId
  | contextId
  | configuration
  | metadata

/-- The place of an input in the parameters. -/
def Input.place : Input → List PathStep
  | .prompt => [.key "message", .key "parts", .index 0, .key "text"]
  | .messageId => [.key "message", .key "messageId"]
  | .taskId => [.key "message", .key "taskId"]
  | .contextId => [.key "message", .key "contextId"]
  | .configuration => [.key "configuration"]
  | .metadata => [.key "message", .key "metadata"]

/-- The places of an input in the body; the message id is also the id of the
envelope. -/
def Input.places : UpstreamBinding → Input → List (List PathStep)
  | .httpJson, input => [input.place]
  | .jsonRpc, .messageId => [[.key "id"], .key "params" :: Input.place .messageId]
  | .jsonRpc, input => [.key "params" :: input.place]

/-- Two sends share an input. -/
def Input.Shared (s s' : Send) : Input → Prop
  | .prompt => s.prompt = s'.prompt
  | .messageId => s.messageId = s'.messageId
  | .taskId => s.continuation.taskId = s'.continuation.taskId
  | .contextId => s.continuation.contextId = s'.continuation.contextId
  | .configuration => s.configuration = s'.configuration
  | .metadata => s.metadata = s'.metadata

/-- A path leads to a place, or goes on below it. -/
def Meets (path place : List PathStep) : Prop := path <+: place ∨ place <+: path

@[simp] theorem meets_nil (place : List PathStep) : Meets [] place :=
  Or.inl List.nil_prefix

@[simp] theorem meets_of_nil (path : List PathStep) : Meets path [] :=
  Or.inr List.nil_prefix

@[simp] theorem meets_cons (p q : PathStep) (path place : List PathStep) :
    Meets (p :: path) (q :: place) ↔ p = q ∧ Meets path place := by
  simp only [Meets, List.cons_prefix_cons]
  constructor
  · rintro (⟨rfl, h⟩ | ⟨rfl, h⟩)
    · exact ⟨rfl, Or.inl h⟩
    · exact ⟨rfl, Or.inr h⟩
  · rintro ⟨rfl, h | h⟩
    · exact Or.inl ⟨rfl, h⟩
    · exact Or.inr ⟨rfl, h⟩

/-- Sends that share every input are the same. -/
theorem eq_of_shared {s s' : Send} (h : ∀ input : Input, input.Shared s s') :
    s = s' := by
  obtain ⟨_, _, ⟨_, _⟩, _, _⟩ := s
  obtain ⟨_, _, ⟨_, _⟩, _, _⟩ := s'
  have hprompt := h .prompt
  have hid := h .messageId
  have htask := h .taskId
  have hcontext := h .contextId
  have hconfig := h .configuration
  have hmeta := h .metadata
  simp only [Input.Shared] at hprompt hid htask hcontext hconfig hmeta
  simp only [hprompt, hid, htask, hcontext, hconfig, hmeta]

/-! ## What a path reads -/

@[simp] theorem walk_key (v : Json) (key : String) (path : List PathStep) :
    v.walk (.key key :: path) = (v.get? key).bind (·.walk path) := rfl

theorem walk_text_part {text text' : String} {path : List PathStep}
    (h : Meets path [.key "text"] → text = text') :
    (Json.object [("text", .str text)]).walk path =
      (Json.object [("text", .str text')]).walk path := by
  rcases path with _ | ⟨key | i, path⟩
  · rw [h (meets_nil _)]
  · by_cases hkey : key = "text"
    · rw [h (by simp [hkey])]
    · simp [Json.object, KeyedList.lookup_insert, hkey]
  · rfl

theorem walk_parts {text text' : String} {path : List PathStep}
    (h : Meets path [.index 0, .key "text"] → text = text') :
    (Json.arr [Json.object [("text", .str text)]]).walk path =
      (Json.arr [Json.object [("text", .str text')]]).walk path := by
  rcases path with _ | ⟨key | i, path⟩
  · rw [h (meets_nil _)]
  · rfl
  · cases i with
    | zero => exact walk_text_part fun hmeets => h (by simpa using hmeets)
    | succ i => rfl

/-- Below the message, a path reads the inputs it meets. -/
theorem walk_message {s s' : Send} {path : List PathStep}
    (h : ∀ input : Input, Meets (.key "message" :: path) input.place →
      input.Shared s s') :
    (messageMember s.prompt s.messageId s.continuation s.metadata).walk path =
      (messageMember s'.prompt s'.messageId s'.continuation s'.metadata).walk
        path := by
  rcases path with _ | ⟨key | i, path⟩
  · have hprompt : s.prompt = s'.prompt := h .prompt (by simp [Input.place])
    have hid : s.messageId = s'.messageId := h .messageId (by simp [Input.place])
    have htask : s.continuation.taskId = s'.continuation.taskId :=
      h .taskId (by simp [Input.place])
    have hcontext : s.continuation.contextId = s'.continuation.contextId :=
      h .contextId (by simp [Input.place])
    have hmeta : s.metadata = s'.metadata := h .metadata (by simp [Input.place])
    have hcontinuation : s.continuation = s'.continuation :=
      Continuation.members_injective
        (by simp only [Continuation.members, htask, hcontext])
    rw [hprompt, hid, hcontinuation, hmeta]
  · simp only [walk_key, get?_messageMember]
    split_ifs with hmeta hcontext htask hparts hrole hid
    · subst hmeta
      have hshared : s.metadata = s'.metadata := h .metadata (by simp [Input.place])
      rw [hshared]
    · subst hcontext
      have hshared : s.continuation.contextId = s'.continuation.contextId :=
        h .contextId (by simp [Input.place])
      rw [hshared]
    · subst htask
      have hshared : s.continuation.taskId = s'.continuation.taskId :=
        h .taskId (by simp [Input.place])
      rw [hshared]
    · subst hparts
      exact walk_parts fun hmeets => h .prompt (by simpa [Input.place] using hmeets)
    · rfl
    · subst hid
      have hshared : s.messageId = s'.messageId :=
        h .messageId (by simp [Input.place])
      rw [hshared]
    · rfl
  · rfl

/-- In the parameters, a path reads the inputs it meets. -/
theorem walk_params {s s' : Send} {path : List PathStep}
    (h : ∀ input : Input, Meets path input.place → input.Shared s s') :
    s.params.walk path = s'.params.walk path := by
  rcases path with _ | ⟨key | i, path⟩
  · rw [eq_of_shared fun input => h input (meets_nil _)]
  · simp only [walk_key, get?_params]
    split_ifs with hconfig hmessage
    · subst hconfig
      have hshared : s.configuration = s'.configuration :=
        h .configuration (by simp [Input.place])
      rw [hshared]
    · subst hmessage
      exact walk_message h
    · rfl
  · rfl

/-- **A path in the body reads the inputs it meets.**  Sends that share those
have the same value there, or none. -/
theorem walk_body {s s' : Send} {binding : UpstreamBinding} {path : List PathStep}
    (h : ∀ input : Input, (∃ place ∈ input.places binding, Meets path place) →
      input.Shared s s') :
    (s.body binding).walk path = (s'.body binding).walk path := by
  cases binding with
  | httpJson =>
      exact walk_params fun input hmeets =>
        h input ⟨_, List.mem_singleton_self _, hmeets⟩
  | jsonRpc =>
      have hplace : ∀ input : Input,
          .key "params" :: input.place ∈ input.places .jsonRpc := by
        intro input
        cases input <;> simp [Input.places]
      rcases path with _ | ⟨key | i, path⟩
      · have hsame : s = s' :=
          eq_of_shared fun input => h input ⟨_, hplace input, meets_nil _⟩
        rw [hsame]
      · simp only [walk_key, get?_body_jsonRpc]
        split_ifs with hparams hmethod hid hversion
        · subst hparams
          exact walk_params fun input hmeets =>
            h input ⟨_, hplace input, by simpa using hmeets⟩
        · rfl
        · subst hid
          have hshared : s.messageId = s'.messageId :=
            h .messageId ⟨[.key "id"], by simp [Input.places], by simp⟩
          rw [hshared]
        · rfl
        · rfl
      · rfl

/-! ## The main results -/

/-- **A send is read back under either binding, and each input stays in its
place.**  Both bindings carry the same parameters; the envelope is named by the
message id, and calls `SendMessage`.  A path that meets no place of an input
reads the same whatever the input is. -/
theorem send_lossless (rt : Runtime) (send : Send) (h : send.ReadBack rt) :
    (∀ binding, ∃ out, decode rt binding (send.encode rt binding) = some out ∧
      out.prompt = send.prompt ∧ out.messageId = send.messageId ∧
      out.continuation = send.continuation ∧
      out.configuration = send.configuration ∧
      (out.metadata = none ↔
        ¬ ∃ members, members ≠ [] ∧ send.metadata = some (.obj members)) ∧
      ∀ value, out.metadata = some value → send.metadata = some value) ∧
    (∃ envelope params,
      rt.fromSlice (send.encode rt .jsonRpc) = some envelope ∧
      rt.fromSlice (send.encode rt .httpJson) = some params ∧
      envelope.get? "params" = some params ∧
      envelope.get? "id" = messageField params "messageId" ∧
      envelope.get? "id" = some (.str send.messageId) ∧
      envelope.get? "method" = some (.str "SendMessage")) ∧
    ∀ (other : Send) (binding : UpstreamBinding) (path : List PathStep),
      (∀ input : Input, (∃ place ∈ input.places binding, Meets path place) →
        input.Shared send other) →
      (send.body binding).walk path = (other.body binding).walk path := by
  refine ⟨fun binding => ?_, ?_, fun other binding path => walk_body⟩
  · exact ⟨_, decode_encode (h binding), rfl, rfl, rfl, rfl,
      metadataMember_eq_none_iff send.metadata,
      fun value => metadataMember_of_some⟩
  · have hid : (send.body .jsonRpc).get? "id" = some (.str send.messageId) := by
      simp [get?_body_jsonRpc]
    have hmessageId :
        messageField send.params "messageId" = some (.str send.messageId) := by
      simp [messageField, get?_params, get?_messageMember]
    refine ⟨_, _, h .jsonRpc, h .httpJson, ?_, hid.trans hmessageId.symm, hid, ?_⟩
    · show (send.body .jsonRpc).get? "params" = some send.params
      simp [get?_body_jsonRpc]
    · simp [get?_body_jsonRpc, sendMessageMethod]

/-- A follow-up that carries a task and metadata. -/
def followUp : Send where
  prompt := "hi"
  messageId := "m-1"
  continuation := ⟨some "t-1", none⟩
  configuration := none
  metadata := some (.obj [("k", .bool true)])

/-- The parameters of the follow-up, printed. -/
def followUpParams : String :=
  "\x7b\"message\":\x7b\"messageId\":\"m-1\",\"metadata\":\x7b\"k\":true\x7d," ++
  "\"parts\":[\x7b\"text\":\"hi\"\x7d],\"role\":\"ROLE_USER\"," ++
  "\"taskId\":\"t-1\"\x7d\x7d"

/-- The envelope of the follow-up, printed. -/
def followUpEnvelope : String :=
  "\x7b\"id\":\"m-1\",\"jsonrpc\":\"2.0\",\"method\":\"SendMessage\",\"params\":" ++
  followUpParams ++ "\x7d"

/-- Prints the follow-up and reads it. -/
def followUpRuntime : Runtime where
  sha256 := fun _ => Vector.replicate 32 0
  toVec := fun v =>
    utf8 (if (v.get? "jsonrpc").isSome then followUpEnvelope else followUpParams)
  fromSlice := fun body =>
    if body = utf8 followUpEnvelope then some (followUp.body .jsonRpc)
    else if body = utf8 followUpParams then some (followUp.body .httpJson)
    else none
  intoJson := fun _ => .null

theorem encode_followUp (binding : UpstreamBinding) :
    followUp.encode followUpRuntime binding =
      utf8 (if ((followUp.body binding).get? "jsonrpc").isSome then followUpEnvelope
        else followUpParams) := rfl

theorem readBack_followUp : followUp.ReadBack followUpRuntime := by
  intro binding
  rw [encode_followUp]
  cases binding with
  | jsonRpc =>
      have hsome : (followUp.body .jsonRpc).get? "jsonrpc" =
          some (.str jsonrpcVersion) := get?_body_jsonRpc followUp "jsonrpc"
      simp [followUpRuntime, hsome]
  | httpJson =>
      have hne : utf8 followUpParams ≠ utf8 followUpEnvelope :=
        utf8_injective.ne (by decide)
      have hnone : (followUp.body .httpJson).get? "jsonrpc" = none :=
        get?_params followUp "jsonrpc"
      simp [followUpRuntime, hnone, hne]

theorem send_lossless_followUp :
    ∃ out, decode followUpRuntime .jsonRpc
        (followUp.encode followUpRuntime .jsonRpc) = some out ∧
      out.prompt = "hi" ∧ out.continuation = ⟨some "t-1", none⟩ := by
  obtain ⟨hdecode, _, _⟩ := send_lossless followUpRuntime followUp readBack_followUp
  obtain ⟨out, hout, hprompt, _, hcontinuation, _⟩ := hdecode .jsonRpc
  exact ⟨out, hout, hprompt, hcontinuation⟩

/-- Sends of the same bytes differ at most in metadata that is not sent. -/
theorem encode_injective {rt : Runtime} {s s' : Send} {binding : UpstreamBinding}
    (h : s.ReadBack rt) (h' : s'.ReadBack rt)
    (heq : s.encode rt binding = s'.encode rt binding) :
    { s with metadata := metadataMember s.metadata } =
      { s' with metadata := metadataMember s'.metadata } := by
  have hdecode := congrArg (decode rt binding) heq
  rw [decode_encode (h binding), decode_encode (h' binding)] at hdecode
  exact Option.some.inj hdecode

/-! ## The request filter -/

variable {τ : Type}

/-- The inputs of the send a request becomes. -/
def sendOf (rt : Runtime) (config : PolicyConfig) (request : HttpRequest)
    (prompt : String) (continuation : Continuation) : Send where
  prompt := prompt
  messageId := generateMessageId rt (utf8 (idSeed request) ++ utf8 prompt)
  continuation := continuation
  configuration := config.sendConfiguration
  metadata := (evalScript config.metadataSelector request.attributes
    request.body).map (valueToJson rt)

theorem body_sendMessage (rt : Runtime) (config : PolicyConfig)
    (request : HttpRequest) (prompt : String) (continuation : Continuation) :
    (sendMessage rt config request prompt continuation).body rt config =
      (sendOf rt config request prompt continuation).encode rt config.binding :=
  rfl

/-- Whatever the storage answers, a request that goes on is sent with its prompt
and the continuation that was resolved. -/
theorem ends_requestFilter {rt : Runtime} {config : PolicyConfig} {storage : Bool}
    {request : HttpRequest} {nowMillis : Nat} {ctx : RequestContext}
    {message : SendMessage}
    (h : (requestFilter (τ := τ) rt config storage request nowMillis).Ends
      (.continued ctx message)) :
    ∃ prompt, promptOf config request = some prompt ∧
      message = sendMessage rt config request prompt
        ctx.continuation.continuation := by
  unfold requestFilter at h
  split at h
  · cases h
  · rename_i prompt hprompt
    obtain ⟨rc, _, hflow⟩ := Prog.ends_map h
    unfold forward at hflow
    split at hflow
    · cases hflow
      exact ⟨prompt, hprompt, rfl⟩
    · cases hflow

/-- **The body that leaves the request filter is read back as the prompt, the
message id and the continuation of the request.** -/
theorem decode_requestFilter {rt : Runtime} {config : PolicyConfig}
    {storage : Bool} {request : HttpRequest} {nowMillis : Nat}
    {ctx : RequestContext} {message : SendMessage}
    (h : (requestFilter (τ := τ) rt config storage request nowMillis).Ends
      (.continued ctx message))
    (hread : rt.fromSlice (message.body rt config) =
      some (frameBody config.binding message.messageId message.params)) :
    ∃ out, decode rt config.binding (message.body rt config) = some out ∧
      promptOf config request = some out.prompt ∧
      out.messageId = message.messageId ∧
      out.continuation = ctx.continuation.continuation ∧
      out.configuration = config.sendConfiguration := by
  obtain ⟨prompt, hprompt, rfl⟩ := ends_requestFilter h
  rw [body_sendMessage] at hread ⊢
  exact ⟨_, decode_encode hread, hprompt, rfl, rfl, rfl⟩

end RestToA2a.Policy.SendEncoding
