import RestToA2a.Policy.Binding
import RestToA2a.Policy.Gateway
import RestToA2a.Policy.Generated
import RestToA2a.Policy.ResponseFields

/-!
# Policy configuration

`config_map.rs`: the validated configuration the filters consume, and how it is
made of the schema configuration.
-/

namespace RestToA2a.Policy.ConfigMap

open RestToA2a.Policy.A2a
open RestToA2a.Policy.Binding
open RestToA2a.Policy.Gateway
open RestToA2a.Policy.Generated
open RestToA2a.Policy.ResponseFields

/-- How continuity of a task over several turns is kept. -/
inductive ContinuationMode where
  | cache
  | explicit
  | none
deriving DecidableEq

/-- How the upstream response is shaped. -/
inductive ResponseType where
  | raw
  | mapping
  | fields
deriving DecidableEq

/-- The configuration.  An absent selector is one the operator left empty. -/
structure PolicyConfig where
  binding : UpstreamBinding
  continuationMode : ContinuationMode
  promptSelector : Script
  contextKeySelector : Option Script
  taskIdSelector : Option Script
  contextIdSelector : Option Script
  responseType : ResponseType
  responseMapping : Option Script
  responseFields : List ResponseField
  metadataSelector : Option Script
  sendConfiguration : Option SendConfiguration
  distributed : Bool
  conversationTtlSeconds : UInt32
  requestErrorStatus : UInt32

namespace PolicyConfig

/-- Server-side caching is active, so a storage is built. -/
def usesCache (config : PolicyConfig) : Bool :=
  config.continuationMode == .cache

def usesRawResponse (config : PolicyConfig) : Bool :=
  config.responseType == .raw

def usesResponseFields (config : PolicyConfig) : Bool :=
  config.responseType == .fields

end PolicyConfig

/-! ## From the schema configuration -/

/-- A configuration that is refused. -/
inductive ConfigError where
  | binding (err : UnknownBinding)
  | continuationMode (name : String)
  | responseType (name : String)
deriving DecidableEq

/-- The text of the error. -/
def ConfigError.display : ConfigError → String
  | .binding err => err.display
  | .continuationMode name =>
      "unknown continuationMode '" ++ name ++
        "' (expected 'cache', 'explicit', or 'none')"
  | .responseType name =>
      "unknown responseType '" ++ name ++
        "' (expected 'raw', 'mapping', or 'fields')"

/-- The response type of a configured name. -/
def ResponseType.fromStr (s : String) : Except ConfigError ResponseType :=
  match configuredName s with
  | "raw" => .ok .raw
  | "mapping" => .ok .mapping
  | "fields" => .ok .fields
  | other => .error (.responseType other)

theorem ResponseType.error_of_fromStr {s : String} {err : ConfigError}
    (h : ResponseType.fromStr s = .error err) :
    err = .responseType (configuredName s) := by
  unfold ResponseType.fromStr at h
  split at h <;> cases h
  rfl

/-- The continuation mode of a configured name. -/
def ContinuationMode.fromStr (s : String) : Except ConfigError ContinuationMode :=
  match configuredName s with
  | "cache" => .ok .cache
  | "explicit" => .ok .explicit
  | "none" => .ok .none
  | other => .error (.continuationMode other)

theorem ContinuationMode.error_of_fromStr {s : String} {err : ConfigError}
    (h : ContinuationMode.fromStr s = .error err) :
    err = .continuationMode (configuredName s) := by
  unfold ContinuationMode.fromStr at h
  split at h <;> cases h
  rfl

/-- `i64::clamp`. -/
def clamp (lo hi z : Int) : Int := max lo (min z hi)

/-- The configuration with its names read and its groups laid flat.  A group
that is absent stands for its derived default. -/
def PolicyConfig.flatten (binding : UpstreamBinding)
    (continuationMode : ContinuationMode) (responseType : ResponseType)
    (config : Config) : PolicyConfig :=
  let cache := config.cacheConfig.getD .derivedDefault
  let explicit := config.explicitConfig.getD .derivedDefault
  let mapping := config.mappingConfig.getD .derivedDefault
  let fields := config.fieldsConfig.getD .derivedDefault
  { binding := binding
    continuationMode := continuationMode
    promptSelector := config.promptSelector
    contextKeySelector := cache.contextKeySelector
    taskIdSelector := explicit.taskIdSelector
    contextIdSelector := explicit.contextIdSelector
    responseType := responseType
    responseMapping := mapping.responseMapping
    responseFields := fields.responseFields
    metadataSelector := config.metadataSelector
    sendConfiguration := config.a2aConfiguration.map fun a2a =>
      { acceptedOutputModes := a2a.acceptedOutputModes, blocking := a2a.blocking }
    distributed := cache.distributed
    conversationTtlSeconds :=
      UInt32.ofInt (clamp 60 86400 cache.conversationTtlSeconds)
    requestErrorStatus := UInt32.ofInt (clamp 400 599 config.requestErrorStatus) }

/-- The policy configuration of a schema configuration. -/
def PolicyConfig.fromGenerated (config : Config) :
    Except ConfigError PolicyConfig := do
  let binding ← (UpstreamBinding.fromStr config.upstreamBinding).mapError .binding
  let continuationMode ← ContinuationMode.fromStr config.continuationMode
  let responseType ← ResponseType.fromStr config.responseType
  .ok (.flatten binding continuationMode responseType config)

/-- The three names are read in turn; the first unknown one is the error. -/
theorem PolicyConfig.fromGenerated_cases (config : Config) :
    (∃ unknown, UpstreamBinding.fromStr config.upstreamBinding = .error unknown ∧
      fromGenerated config = .error (.binding unknown)) ∨
    (∃ err, ContinuationMode.fromStr config.continuationMode = .error err ∧
      fromGenerated config = .error err) ∨
    (∃ err, ResponseType.fromStr config.responseType = .error err ∧
      fromGenerated config = .error err) ∨
    ∃ binding continuationMode responseType,
      UpstreamBinding.fromStr config.upstreamBinding = .ok binding ∧
      ContinuationMode.fromStr config.continuationMode = .ok continuationMode ∧
      ResponseType.fromStr config.responseType = .ok responseType ∧
      fromGenerated config =
        .ok (flatten binding continuationMode responseType config) := by
  rw [fromGenerated]
  cases hb : UpstreamBinding.fromStr config.upstreamBinding with
  | error unknown => exact Or.inl ⟨unknown, rfl, rfl⟩
  | ok binding =>
      cases hm : ContinuationMode.fromStr config.continuationMode with
      | error err => exact Or.inr (Or.inl ⟨err, rfl, rfl⟩)
      | ok continuationMode =>
          cases ht : ResponseType.fromStr config.responseType with
          | error err => exact Or.inr (Or.inr (Or.inl ⟨err, rfl, rfl⟩))
          | ok responseType =>
              exact Or.inr (Or.inr (Or.inr ⟨_, _, _, rfl, rfl, rfl, rfl⟩))

/-- The error of a refused configuration names the text that is unknown. -/
theorem PolicyConfig.error_of_fromGenerated {config : Config} {err : ConfigError}
    (h : fromGenerated config = .error err) :
    err = .binding ⟨configuredName config.upstreamBinding⟩ ∨
      err = .continuationMode (configuredName config.continuationMode) ∨
      err = .responseType (configuredName config.responseType) := by
  rcases fromGenerated_cases config with
    ⟨unknown, hb, heq⟩ | ⟨unknown, hm, heq⟩ | ⟨unknown, ht, heq⟩ |
      ⟨_, _, _, _, _, _, heq⟩
  · rw [heq, UpstreamBinding.error_of_fromStr hb] at h
    exact Or.inl (Except.error.inj h).symm
  · rw [heq, ContinuationMode.error_of_fromStr hm] at h
    exact Or.inr (Or.inl (Except.error.inj h).symm)
  · rw [heq, ResponseType.error_of_fromStr ht] at h
    exact Or.inr (Or.inr (Except.error.inj h).symm)
  · rw [heq] at h
    cases h

end RestToA2a.Policy.ConfigMap
