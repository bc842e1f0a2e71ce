import RestToA2a.Policy.ResponseOutcome

/-!
# Shaping and persisting do not interfere

The response filter as two halves: it persists the reply, and it makes what the
caller gets out of the response and the outcome of persisting.  The first half
does not look at the shaping part of the configuration, and the second one does
not look at the store.
-/

namespace RestToA2a.Policy.Shaping

open RestToA2a.Verified.VersionedStore
open RestToA2a.Verified.StorageProgram
open RestToA2a.Policy.Serde
open RestToA2a.Policy.Binding
open RestToA2a.Policy.Cache
open RestToA2a.Policy.Cache.ConversationStore
open RestToA2a.Policy.CacheSteps
open RestToA2a.Policy.Gateway
open RestToA2a.Policy.ConfigMap
open RestToA2a.Policy.Filter
open RestToA2a.Policy.Turns
open RestToA2a.Policy.ResponseOutcome

/-- The configurations differ only in how responses are shaped. -/
def AgreeButShaping (config config' : PolicyConfig) : Prop :=
  config' = { config with
    responseType := config'.responseType
    responseMapping := config'.responseMapping
    responseFields := config'.responseFields }

/-- The response is handed on as it came: it is not shaped, it is an event
stream, or its request was not forwarded. -/
def PassedOn (config : PolicyConfig) (requestData : Option RequestContext)
    (response : HttpResponse) : Prop :=
  config.responseType = .raw ∨ isEventStream response.headers = true ∨
    requestData = none

variable {τ : Type}

/-! ## The two halves -/

/-- What the response filter does to the store. -/
def persistence (rt : Runtime) (config : PolicyConfig) (storage : Bool)
    (requestData : Option RequestContext) (response : HttpResponse)
    (nowMillis : Nat) : Storage τ (List Warning) :=
  match requestData with
  | none => .done []
  | some ctx =>
      if isEventStream response.headers then .done []
      else
        persistReply config storage ctx
          (parseResponse rt config.binding response.body).result nowMillis

/-- What the caller gets, after persisting ended with some warnings. -/
def delivery (rt : Runtime) (config : PolicyConfig)
    (requestData : Option RequestContext) (response : HttpResponse)
    (persisted : List Warning) : Delivered :=
  match requestData with
  | none => ⟨response.headers, response.body, []⟩
  | some _ =>
      if isEventStream response.headers then
        ⟨response.headers, response.body, [.eventStream]⟩
      else deliver rt config response persisted

theorem responseFilter_eq (rt : Runtime) (config : PolicyConfig) (storage : Bool)
    (requestData : Option RequestContext) (response : HttpResponse)
    (nowMillis : Nat) :
    (responseFilter rt config storage requestData response nowMillis :
        Storage τ Delivered) =
      (persistence rt config storage requestData response nowMillis).map
        (delivery rt config requestData response) := by
  cases requestData with
  | none => rfl
  | some ctx =>
      cases hes : isEventStream response.headers with
      | true => simp [responseFilter, persistence, delivery, hes]
      | false =>
          simp only [responseFilter, persistence, hes, Bool.false_eq_true, if_false]
          congr 1
          funext persisted
          simp [delivery, hes]

/-- Persisting does not look at the shaping. -/
theorem persistence_congr (rt : Runtime) {config config' : PolicyConfig}
    (h : AgreeButShaping config config') (storage : Bool)
    (requestData : Option RequestContext) (response : HttpResponse)
    (nowMillis : Nat) :
    (persistence rt config' storage requestData response nowMillis :
        Storage τ (List Warning)) =
      persistence rt config storage requestData response nowMillis := by
  rw [h]
  rfl

/-- A response that is passed on is delivered as it came. -/
theorem delivery_passedOn (rt : Runtime) {config : PolicyConfig}
    {requestData : Option RequestContext} {response : HttpResponse}
    (h : PassedOn config requestData response) (persisted : List Warning) :
    (delivery rt config requestData response persisted).headers =
        response.headers ∧
      (delivery rt config requestData response persisted).body =
        response.body := by
  cases requestData with
  | none => exact ⟨rfl, rfl⟩
  | some ctx =>
      cases hes : isEventStream response.headers with
      | true => simp [delivery, hes]
      | false =>
          have hraw : config.responseType = .raw := by
            rcases h with hraw | hstream | hnone
            · exact hraw
            · rw [hes] at hstream
              cases hstream
            · cases hnone
          simp [delivery, hes, deliver, shapeHeaders, shapeBody,
            PolicyConfig.usesRawResponse, hraw]

/-- An event stream and a request that was not forwarded are not persisted. -/
theorem persistence_skipped (rt : Runtime) (config : PolicyConfig) (storage : Bool)
    {requestData : Option RequestContext} {response : HttpResponse}
    (h : isEventStream response.headers = true ∨ requestData = none)
    (nowMillis : Nat) :
    (persistence rt config storage requestData response nowMillis :
      Storage τ (List Warning)) = .done [] := by
  cases requestData with
  | none => rfl
  | some ctx =>
      have hes := h.resolve_right (by simp)
      simp [persistence, hes]

/-! ## The whole filter -/

variable [DecidableEq τ]

/-- **Shaping and persisting do not interfere.**  Configurations that differ
only in the shaping make the same accesses to the store in the same places, so
they leave the same store, alone or among any other calls.  A response that is
passed on reaches the caller with its own headers and body, whatever the
storage answers; and where it is an event stream, or its request was not
forwarded, the store is left as it was. -/
theorem shaping_independent (m : Mint String ConversationEntry τ) (rt : Runtime)
    {config config' : PolicyConfig} (h : AgreeButShaping config config')
    (storage : Bool) (requestData : Option RequestContext)
    (response : HttpResponse) (nowMillis : Nat) (s : Entries τ) :
    ((responseFilter rt config' storage requestData response nowMillis :
          Storage τ Delivered).map fun _ => ()) =
        (responseFilter rt config storage requestData response nowMillis).map
          (fun _ => ()) ∧
      ((responseFilter rt config' storage requestData response nowMillis).run m s).2 =
        ((responseFilter rt config storage requestData response nowMillis).run
          m s).2 ∧
      (PassedOn config requestData response → ∀ delivered,
        (responseFilter rt config storage requestData response nowMillis :
            Storage τ Delivered).Ends delivered →
          delivered.headers = response.headers ∧
            delivered.body = response.body) ∧
      (isEventStream response.headers = true ∨ requestData = none →
        ((responseFilter rt config storage requestData response nowMillis).run
          m s).2 = s) := by
  refine ⟨?_, ?_, fun hpass delivered hends => ?_, fun hskip => ?_⟩
  · rw [responseFilter_eq, responseFilter_eq, persistence_congr rt h,
      Prog.map_map, Prog.map_map]
    rfl
  · rw [responseFilter_eq, responseFilter_eq, persistence_congr rt h,
      Prog.run_map, Prog.run_map]
  · rw [responseFilter_eq] at hends
    obtain ⟨persisted, _, rfl⟩ := Prog.ends_map hends
    exact delivery_passedOn rt hpass persisted
  · rw [responseFilter_eq, persistence_skipped rt config storage hskip]
    rfl

/-- The working reply, unshaped and shaped by a mapping. -/
theorem shaping_independent_working :
    let config : PolicyConfig := { sampleConfig false with
      responseType := .mapping
      responseMapping := some ⟨fun _ _ => .ok .null⟩ }
    ((responseFilter sampleRuntime config true (some resumedContext)
        ⟨[], [], utf8 workingText, true⟩ 2000).run Mint.counter
          (VStore.empty : Entries Nat)).2 =
      ((responseFilter sampleRuntime (sampleConfig false) true
        (some resumedContext) ⟨[], [], utf8 workingText, true⟩ 2000).run
          Mint.counter VStore.empty).2 := by
  intro config
  have hagree : AgreeButShaping (sampleConfig false) config := rfl
  exact (shaping_independent Mint.counter sampleRuntime hagree true
    (some resumedContext) ⟨[], [], utf8 workingText, true⟩ 2000
    VStore.empty).2.1

end RestToA2a.Policy.Shaping
