import RestToA2a.Policy.SendEncoding
import RestToA2a.Policy.Turns

/-!
# Which requests share a message id

The message id is a digest of the id seed and the prompt, written one after the
other.  Where the digest tells its inputs apart, two requests share an id
exactly if their seeds and prompts make up the same text.  Nothing marks where
the seed ends, so a prompt that begins with the rest of a longer seed is taken
for the other request.
-/

namespace RestToA2a.Policy.MessageIds

open RestToA2a.Verified
open RestToA2a.Verified.Text
open RestToA2a.Verified.StorageProgram
open RestToA2a.Policy.Serde
open RestToA2a.Policy.A2a
open RestToA2a.Policy.Binding
open RestToA2a.Policy.Gateway
open RestToA2a.Policy.ConfigMap
open RestToA2a.Policy.Filter
open RestToA2a.Policy.SendEncoding
open RestToA2a.Policy.Turns

/-- The bytes that are hashed for a request with a prompt. -/
def hashInput (request : HttpRequest) (prompt : String) : Bytes :=
  utf8 (idSeed request) ++ utf8 prompt

/-- The part of the digest that becomes the id. -/
def truncatedDigest (rt : Runtime) (bytes : Bytes) : Bytes :=
  (rt.sha256 bytes).toList.take 16

/-- The digest does not collide on the two byte strings. -/
def CollisionFree (rt : Runtime) (a b : Bytes) : Prop :=
  truncatedDigest rt a = truncatedDigest rt b → a = b

/-- The id the upstream answers under the JSON-RPC binding. -/
def correlationId (message : SendMessage) : Option Json :=
  (frameBody .jsonRpc message.messageId message.params).get? "id"

theorem correlationId_eq (message : SendMessage) :
    correlationId message = some (.str message.messageId) := by
  simp [correlationId, frameBody, get?_buildRequest]

theorem generateMessageId_eq_iff {rt : Runtime} {a b : Bytes}
    (h : CollisionFree rt a b) :
    generateMessageId rt a = generateMessageId rt b ↔ a = b := by
  constructor
  · intro heq
    have hrender : Hex.render (truncatedDigest rt a) =
        Hex.render (truncatedDigest rt b) := String.ofList_injective heq
    exact h (Hex.render_injective hrender)
  · rintro rfl
    rfl

/-- What is hashed for two requests is the same if the seed and the prompt are,
or if the boundary between them is moved. -/
theorem hashInput_eq_iff {request request' : HttpRequest} {prompt prompt' : String} :
    hashInput request prompt = hashInput request' prompt' ↔
      (idSeed request = idSeed request' ∧ prompt = prompt') ∨
        Shifted (idSeed request) prompt (idSeed request') prompt' ∨
        Shifted (idSeed request') prompt' (idSeed request) prompt := by
  rw [hashInput, hashInput, ← utf8_append, ← utf8_append, utf8_injective.eq_iff,
    append_eq_append_iff]

/-! ## Two runs of the request filter -/

variable {τ : Type} {rt : Runtime} {config config' : PolicyConfig}
  {storage storage' : Bool} {request request' : HttpRequest}
  {nowMillis nowMillis' : Nat} {ctx ctx' : RequestContext}
  {message message' : SendMessage} {prompt prompt' : String}

/-- A request that goes on is sent under the id of its hash input. -/
theorem messageId_of_ends
    (h : (requestFilter (τ := τ) rt config storage request nowMillis).Ends
      (.continued ctx message))
    (hprompt : promptOf config request = some prompt) :
    message.messageId = generateMessageId rt (hashInput request prompt) := by
  obtain ⟨sent, hsent, rfl⟩ := ends_requestFilter h
  rw [hprompt] at hsent
  cases hsent
  rfl

/-! ### Two requests with their sends

The digest is taken not to collide on what is hashed for them.
-/

section TwoSends

variable (h : (requestFilter (τ := τ) rt config storage request nowMillis).Ends
    (.continued ctx message))
  (h' : (requestFilter (τ := τ) rt config' storage' request' nowMillis').Ends
    (.continued ctx' message'))
  (hprompt : promptOf config request = some prompt)
  (hprompt' : promptOf config' request' = some prompt')
  (hfree : CollisionFree rt (hashInput request prompt)
    (hashInput request' prompt'))

include h h' hprompt hprompt' hfree

theorem messageId_eq_iff :
    message.messageId = message'.messageId ↔
      (idSeed request = idSeed request' ∧ prompt = prompt') ∨
        Shifted (idSeed request) prompt (idSeed request') prompt' ∨
        Shifted (idSeed request') prompt' (idSeed request) prompt := by
  rw [messageId_of_ends h hprompt, messageId_of_ends h' hprompt',
    generateMessageId_eq_iff hfree, hashInput_eq_iff]

/-- Seeds of one length never run on into the prompt: request ids of a fixed
format separate requests. -/
theorem messageId_ne_of_length_eq
    (hlength : (idSeed request).length = (idSeed request').length)
    (hne : (idSeed request, prompt) ≠ (idSeed request', prompt')) :
    message.messageId ≠ message'.messageId := by
  intro hid
  rcases (messageId_eq_iff h h' hprompt hprompt' hfree).mp hid with
    heq | hshift | hshift
  · exact hne (Prod.ext heq.1 heq.2)
  · exact not_shifted_of_length_le hlength.ge _ _ hshift
  · exact not_shifted_of_length_le hlength.le _ _ hshift

/-- **Message ids separate two requests unless one seed runs on into the
prompt.**  For requests that differ in the id seed or the prompt, the message
ids, and with them the correlation ids, are different exactly if neither pair is
the other one with its boundary moved. -/
theorem messageIds_separate_iff
    (hne : (idSeed request, prompt) ≠ (idSeed request', prompt')) :
    (message.messageId ≠ message'.messageId ↔
      ¬ Shifted (idSeed request) prompt (idSeed request') prompt' ∧
        ¬ Shifted (idSeed request') prompt' (idSeed request) prompt) ∧
    (correlationId message ≠ correlationId message' ↔
      ¬ Shifted (idSeed request) prompt (idSeed request') prompt' ∧
        ¬ Shifted (idSeed request') prompt' (idSeed request) prompt) := by
  have hid : message.messageId = message'.messageId ↔
      Shifted (idSeed request) prompt (idSeed request') prompt' ∨
        Shifted (idSeed request') prompt' (idSeed request) prompt := by
    rw [messageId_eq_iff h h' hprompt hprompt' hfree]
    exact or_iff_right fun heq => hne (Prod.ext heq.1 heq.2)
  have hcorrelation : correlationId message = correlationId message' ↔
      message.messageId = message'.messageId := by
    rw [correlationId_eq, correlationId_eq]
    simp
  constructor
  · rw [ne_eq, hid, not_or]
  · rw [ne_eq, hcorrelation, hid, not_or]

end TwoSends

/-! ## Requests to compare -/

/-- SHA-256 on the two strings the sample requests hash. -/
def pigsSha256 (bytes : Bytes) : Digest :=
  if bytes = utf8 "req-123 pigs" then
    #v[0xc6, 0x31, 0x04, 0xe3, 0x83, 0xf8, 0x29, 0x5a,
    0x6e, 0x12, 0x45, 0xb6, 0x07, 0x72, 0xf1, 0xad,
    0x5e, 0xf1, 0x48, 0xa7, 0x54, 0x86, 0x81, 0x7a,
    0xbf, 0xec, 0x1e, 0x46, 0x53, 0x0c, 0xa9, 0xd4]
  else
    #v[0x9b, 0xb1, 0xf6, 0x8c, 0xed, 0xbb, 0xe3, 0xce,
    0xc3, 0x82, 0x31, 0xdb, 0x63, 0x1c, 0xd2, 0x2b,
    0x87, 0xf4, 0x0a, 0xb5, 0xd4, 0x56, 0x74, 0x7b,
    0x21, 0x70, 0x28, 0x05, 0x24, 0x4c, 0x7e, 0x40]

def pigsRuntime : Runtime := { sampleRuntime with sha256 := pigsSha256 }

/-- Single-shot sends, the prompt taken from a header. -/
def headerConfig : PolicyConfig := { sampleConfig false with
  continuationMode := .none
  promptSelector := ⟨fun attributes _ =>
    .ok (((header "x-prompt" attributes.headers).map .string).getD .null)⟩ }

/-- A request with a request id and a prompt. -/
def asked (requestId prompt : String) : HttpRequest :=
  ⟨"/ask", [("x-request-id", requestId), ("x-prompt", prompt)], [], [], true⟩

/-- The run for such a request goes on with its send. -/
theorem ends_asked {requestId prompt : String}
    (hprompt : promptOf headerConfig (asked requestId prompt) = some prompt) :
    (requestFilter (τ := Nat) pigsRuntime headerConfig false
      (asked requestId prompt) 0).Ends
        (.continued {} (sendMessage pigsRuntime headerConfig
          (asked requestId prompt) prompt {})) := by
  rw [requestFilter, hprompt]
  rfl

theorem messageIds_separate_pigs :
    ∃ message message',
      (requestFilter (τ := Nat) pigsRuntime headerConfig false
        (asked "req-1" "23 pigs") 0).Ends (.continued {} message) ∧
      (requestFilter (τ := Nat) pigsRuntime headerConfig false
        (asked "req-7" "23 pigs") 0).Ends (.continued {} message') ∧
      message.messageId ≠ message'.messageId := by
  have hprompt : promptOf headerConfig (asked "req-1" "23 pigs") = some "23 pigs" := by
    decide
  have hprompt' : promptOf headerConfig (asked "req-7" "23 pigs") = some "23 pigs" := by
    decide
  have hfree : CollisionFree pigsRuntime
      (hashInput (asked "req-1" "23 pigs") "23 pigs")
      (hashInput (asked "req-7" "23 pigs") "23 pigs") := by
    intro heq
    exact absurd heq (by decide)
  obtain ⟨hiff, _⟩ := messageIds_separate_iff (ends_asked hprompt)
    (ends_asked hprompt') hprompt hprompt' hfree (by decide)
  exact ⟨_, _, ends_asked hprompt, ends_asked hprompt', hiff.mpr
    ⟨not_shifted_of_length_le (by decide) _ _,
      not_shifted_of_length_le (by decide) _ _⟩⟩

/-- A longer request id takes the beginning of the prompt over: the requests
differ in both parts and are sent under one id. -/
theorem messageIds_collide :
    ∃ message message',
      (requestFilter (τ := Nat) pigsRuntime headerConfig false
        (asked "req-1" "23 pigs") 0).Ends (.continued {} message) ∧
      (requestFilter (τ := Nat) pigsRuntime headerConfig false
        (asked "req-12" "3 pigs") 0).Ends (.continued {} message') ∧
      promptOf headerConfig (asked "req-1" "23 pigs") = some "23 pigs" ∧
      promptOf headerConfig (asked "req-12" "3 pigs") = some "3 pigs" ∧
      idSeed (asked "req-1" "23 pigs") ≠ idSeed (asked "req-12" "3 pigs") ∧
      CollisionFree pigsRuntime (hashInput (asked "req-1" "23 pigs") "23 pigs")
        (hashInput (asked "req-12" "3 pigs") "3 pigs") ∧
      message.messageId = message'.messageId ∧
      correlationId message = correlationId message' := by
  have hinput : hashInput (asked "req-1" "23 pigs") "23 pigs" =
      hashInput (asked "req-12" "3 pigs") "3 pigs" :=
    hashInput_eq_iff.mpr (Or.inr (Or.inl ⟨"2", by decide, by decide, by decide⟩))
  have hprompt : promptOf headerConfig (asked "req-1" "23 pigs") = some "23 pigs" := by
    decide
  have hprompt' : promptOf headerConfig (asked "req-12" "3 pigs") = some "3 pigs" := by
    decide
  have hid := (messageId_of_ends (ends_asked hprompt) hprompt).trans
    ((congrArg (generateMessageId pigsRuntime) hinput).trans
      (messageId_of_ends (ends_asked hprompt') hprompt').symm)
  refine ⟨_, _, ends_asked hprompt, ends_asked hprompt', hprompt, hprompt',
    by decide, fun _ => hinput, hid, ?_⟩
  rw [correlationId_eq, correlationId_eq, hid]

end RestToA2a.Policy.MessageIds
