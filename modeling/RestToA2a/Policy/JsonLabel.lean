import RestToA2a.Policy.Shaping
import RestToA2a.Verified.JsonText

/-!
# The label and the body of a shaped response

Outside raw mode the response filter labels the response as JSON before it has
seen the body.  The body is JSON in the end when it was made by the filter, from
the fields or from the value of the mapping.  Where the mapping is absent or
fails the upstream body is let through under the new label, whatever it is.
-/

namespace RestToA2a.Policy.JsonLabel

open RestToA2a.Verified
open RestToA2a.Verified.VersionedStore
open RestToA2a.Verified.StorageProgram
open RestToA2a.Policy.Serde
open RestToA2a.Policy.Binding
open RestToA2a.Policy.Cache.ConversationStore
open RestToA2a.Policy.Gateway
open RestToA2a.Policy.ConfigMap
open RestToA2a.Policy.Filter
open RestToA2a.Policy.Turns
open RestToA2a.Policy.ResponseOutcome
open RestToA2a.Policy.Shaping

/-- The bytes are a JSON text in UTF-8. -/
def IsJson (bytes : Bytes) : Prop :=
  ∃ s : String, utf8 s = bytes ∧ JsonText.Text s.toList

/-- What `serde_json` prints is JSON. -/
def PrintsJson (rt : Runtime) : Prop := ∀ v, IsJson (rt.toVec v)

/-- A body whose first character can begin no value is not JSON. -/
theorem not_isJson_of_head {s : String} {c : Char} {rest : List Char}
    (hs : s.toList = c :: rest) (hspace : c ∉ [' ', '\t', '\n', '\r'])
    (hvalue : JsonText.beginsValue c = false) : ¬ IsJson (utf8 s) := by
  rintro ⟨t, ht, htext⟩
  rw [utf8_injective ht, hs] at htext
  obtain ⟨d, tail, hcons, hd⟩ := htext.head
  obtain ⟨rfl, _⟩ := List.cons.inj hcons
  rcases hd with hd | hd
  · exact hspace hd
  · rw [hvalue] at hd
    cases hd

theorem isJson_null : IsJson (utf8 "null") :=
  ⟨"null", rfl, .mk (a := []) (b := []) (by simp [JsonText.Spaces]) .null
    (by simp [JsonText.Spaces])⟩

/-! ## Headers -/

/-- A replaced header is read back. -/
theorem header_setHeader (name value : String) (headers : Headers) :
    header name (setHeader name value headers) = some value := by
  have hgone : (removeHeader name headers).lookup name = none := by
    rw [List.lookup_eq_none_iff]
    intro e he
    have hne : e.1 ≠ name := of_decide_eq_true (List.mem_filter.mp he).2
    exact bne_iff_ne.mpr hne.symm
  simp [header, setHeader, List.lookup_append, hgone]

/-! ## The body -/

/-- The payload the mapping and the fields are evaluated on. -/
def boundPayload (rt : Runtime) (config : PolicyConfig) (response : HttpResponse) :
    Bytes :=
  payloadOf rt (parseResponse rt config.binding response.body).result response.body

/-- The body of a response that is shaped, once the host takes a new one: made
by the filter, or the body that came. -/
theorem shapeBody_cases {rt : Runtime} (hprint : PrintsJson rt)
    {config : PolicyConfig} (hshape : config.responseType ≠ .raw)
    {response : HttpResponse} (hset : response.setBody = true) :
    let result := (parseResponse rt config.binding response.body).result
    ((config.responseType = .fields ∨
        MappingSucceeds config response (boundPayload rt config response)) ∧
      IsJson (shapeBody rt config response result).1) ∨
    (¬ (config.responseType = .fields ∨
        MappingSucceeds config response (boundPayload rt config response)) ∧
      (shapeBody rt config response result).1 = response.body) := by
  intro result
  cases htype : config.responseType with
  | raw => exact absurd htype hshape
  | fields =>
      refine Or.inl ⟨Or.inl rfl, ?_⟩
      simp only [shapeBody, PolicyConfig.usesRawResponse,
        PolicyConfig.usesResponseFields, htype, shapeFields, replaceBody, hset]
      exact hprint _
  | mapping =>
      have hbody : (shapeBody rt config response result).1 =
          (shapeMapping rt config response (boundPayload rt config response)).1 := by
        simp [shapeBody, PolicyConfig.usesRawResponse,
          PolicyConfig.usesResponseFields, htype, boundPayload, result]
      rw [hbody]
      cases hm : config.responseMapping with
      | none =>
          refine Or.inr ⟨?_, by simp [shapeMapping, hm]⟩
          rintro (hfields | ⟨_, script, value, hscript, _⟩)
          · cases hfields
          · rw [hm] at hscript
            cases hscript
      | some script =>
          cases hv : script.eval response.attributes
              (boundPayload rt config response) with
          | ok value =>
              refine Or.inl ⟨Or.inr ⟨htype, script, value, hm, hv⟩, ?_⟩
              simp only [shapeMapping, hm, hv, replaceBody, hset]
              exact hprint _
          | error err =>
              refine Or.inr ⟨?_, by simp [shapeMapping, hm, hv]⟩
              rintro (hfields | ⟨_, script', value, hscript, hok⟩)
              · cases hfields
              · rw [hm] at hscript
                cases hscript
                rw [hv] at hok
                cases hok

variable {τ : Type}

/-- **When the label matches the body.**  A forwarded response that is no event
stream is labelled as JSON outside raw mode, and the body that reaches the
caller is JSON exactly if the fields are built, the mapping yields a value on
its payload, or the upstream body was JSON to begin with. -/
theorem labelled_json_iff {rt : Runtime} (hprint : PrintsJson rt)
    {config : PolicyConfig} (hshape : config.responseType ≠ .raw) (storage : Bool)
    (ctx : RequestContext) {response : HttpResponse}
    (hes : isEventStream response.headers = false)
    (hset : response.setBody = true) (nowMillis : Nat) {delivered : Delivered}
    (hends : (responseFilter rt config storage (some ctx) response nowMillis :
      Storage τ Delivered).Ends delivered) :
    header contentType delivered.headers = some applicationJson ∧
      (IsJson delivered.body ↔
        config.responseType = .fields ∨
        MappingSucceeds config response (boundPayload rt config response) ∨
        IsJson response.body) := by
  rw [responseFilter_eq] at hends
  obtain ⟨persisted, _, rfl⟩ := Prog.ends_map hends
  simp only [delivery, hes, Bool.false_eq_true, if_false, deliver]
  constructor
  · have hraw : config.usesRawResponse = false := by
      simpa [PolicyConfig.usesRawResponse] using hshape
    simp only [shapeHeaders, hraw, Bool.false_eq_true, if_false, rewriteHeaders]
    exact header_setHeader _ _ _
  · rcases shapeBody_cases hprint hshape hset with ⟨hmade, hjson⟩ | ⟨hno, hbody⟩
    · refine ⟨fun _ => ?_, fun _ => hjson⟩
      rcases hmade with hfields | hmapping
      · exact Or.inl hfields
      · exact Or.inr (Or.inl hmapping)
    · rw [hbody]
      refine ⟨fun hjson => Or.inr (Or.inr hjson), ?_⟩
      rintro (hfields | hmapping | hjson)
      · exact absurd (Or.inl hfields) hno
      · exact absurd (Or.inr hmapping) hno
      · exact hjson

theorem printsJson_sampleRuntime : PrintsJson sampleRuntime := fun _ => isJson_null

/-- A page that is no JSON, as an upstream in trouble may send it. -/
def htmlResponse : HttpResponse :=
  ⟨[("content-type", "text/html")], [], utf8 "<html>", true⟩

theorem not_isJson_htmlResponse : ¬ IsJson htmlResponse.body :=
  not_isJson_of_head (s := "<html>") (by rfl) (by decide) (by decide)

/-- The page, mapped to null. -/
theorem labelled_json_iff_mapped :
    let config : PolicyConfig := { sampleConfig false with
      responseType := .mapping
      responseMapping := some ⟨fun _ _ => .ok .null⟩ }
    IsJson ((responseFilter sampleRuntime config true (some resumedContext)
      htmlResponse 2000).run Mint.counter VStore.empty).1.body := by
  intro config
  refine (labelled_json_iff printsJson_sampleRuntime (by simp [config]) true
    resumedContext (by decide : isEventStream htmlResponse.headers = false) rfl 2000
    (Prog.ends_run Mint.counter _ VStore.empty)).2.mpr (Or.inr (Or.inl ?_))
  exact ⟨rfl, _, .null, rfl, rfl⟩

/-- Whenever the response filter relabels a response as JSON, what reaches the
caller is JSON. -/
def LabelMatchesBody (rt : Runtime) : Prop :=
  ∀ (config : PolicyConfig) (storage : Bool) (ctx : RequestContext)
    (response : HttpResponse) (nowMillis : Nat) (delivered : Delivered),
    config.responseType ≠ .raw → isEventStream response.headers = false →
    response.setBody = true →
    (responseFilter rt config storage (some ctx) response nowMillis :
      Storage Nat Delivered).Ends delivered →
    header contentType delivered.headers = some applicationJson →
    IsJson delivered.body

/-- Without a mapping selector the page goes out under the JSON label. -/
theorem html_labelled_json : ¬ LabelMatchesBody sampleRuntime := by
  intro h
  let config : PolicyConfig := { sampleConfig false with responseType := .mapping }
  have hends := Prog.ends_run Mint.counter
    (responseFilter sampleRuntime config true (some resumedContext) htmlResponse 2000)
    VStore.empty
  exact not_isJson_htmlResponse (h config true resumedContext htmlResponse 2000 _
    (by simp [config]) (by decide) rfl hends (by rfl))

end RestToA2a.Policy.JsonLabel
