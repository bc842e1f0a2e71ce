import RestToA2a.Policy.Deserialize
import RestToA2a.Policy.Gateway
import RestToA2a.Policy.ResponseFields

/-!
# The schema configuration

`generated/config.rs`: the configuration as the operator wrote it, each group of
settings in an object of its own that may be left out.  A group comes with two
sets of defaults: those of its fields, for what is missing in a group that is
there, and the derived `Default`, for a group that is not.  `compile` stands for
reading and compiling a DataWeave expression.
-/

namespace RestToA2a.Policy.Generated

open RestToA2a.Policy.Serde
open RestToA2a.Policy.Gateway
open RestToA2a.Policy.ResponseFields
open RestToA2a.Policy.Deserialize

/-! ## The groups -/

/-- `cacheConfig`. -/
structure CacheConfig where
  contextKeySelector : Option Script
  distributed : Bool
  conversationTtlSeconds : Int

/-- `explicitConfig`. -/
structure ExplicitConfig where
  taskIdSelector : Option Script
  contextIdSelector : Option Script

/-- `mappingConfig`. -/
structure MappingConfig where
  responseMapping : Option Script

/-- `fieldsConfig`. -/
structure FieldsConfig where
  responseFields : List ResponseField

/-- `a2aConfiguration`. -/
structure A2aConfiguration where
  acceptedOutputModes : Option (List String)
  blocking : Bool

/-- `CacheConfig::default()`, derived. -/
def CacheConfig.derivedDefault : CacheConfig := ⟨none, false, 0⟩

/-- `ExplicitConfig::default()`, derived. -/
def ExplicitConfig.derivedDefault : ExplicitConfig := ⟨none, none⟩

/-- `MappingConfig::default()`, derived. -/
def MappingConfig.derivedDefault : MappingConfig := ⟨none⟩

/-- `FieldsConfig::default()`, derived. -/
def FieldsConfig.derivedDefault : FieldsConfig := ⟨[]⟩

/-- The configuration. -/
structure Config where
  upstreamBinding : String
  promptSelector : Script
  continuationMode : String
  cacheConfig : Option CacheConfig
  explicitConfig : Option ExplicitConfig
  responseType : String
  mappingConfig : Option MappingConfig
  fieldsConfig : Option FieldsConfig
  a2aConfiguration : Option A2aConfiguration
  metadataSelector : Option Script
  requestErrorStatus : Int

/-! ## Defaults of the fields -/

def defaultUpstreamBinding : String := "jsonrpc"

def defaultContinuationMode : String := "none"

def defaultDistributed : Bool := false

def defaultResponseType : String := "raw"

def defaultConversationTtlSeconds : Int := 3600

def defaultRequestErrorStatus : Int := 400

def defaultBlocking : Bool := true

/-! ## Deserialization -/

variable (compile : Json → Option Script)

/-- A selector that has to be there. -/
def deSelector : Json → Option Script := compile

/-- A selector that may be left empty. -/
def deOptionalSelector : Json → Option (Option Script) := option compile

def CacheConfig.deserialize (v : Json) : Option CacheConfig := do
  guard (fits 3 v)
  let contextKeySelector ← withDefault none (deOptionalSelector compile)
    (field ["context_key_selector", "contextKeySelector"] 0 v)
  let distributed ← withDefault defaultDistributed bool
    (field ["distributed"] 1 v)
  let conversationTtlSeconds ← withDefault defaultConversationTtlSeconds i64
    (field ["conversation_ttl_seconds", "conversationTtlSeconds"] 2 v)
  some { contextKeySelector, distributed, conversationTtlSeconds }

def ExplicitConfig.deserialize (v : Json) : Option ExplicitConfig := do
  guard (fits 2 v)
  let taskIdSelector ← withDefault none (deOptionalSelector compile)
    (field ["task_id_selector", "taskIdSelector"] 0 v)
  let contextIdSelector ← withDefault none (deOptionalSelector compile)
    (field ["context_id_selector", "contextIdSelector"] 1 v)
  some { taskIdSelector, contextIdSelector }

def MappingConfig.deserialize (v : Json) : Option MappingConfig := do
  guard (fits 1 v)
  let responseMapping ← withDefault none (deOptionalSelector compile)
    (field ["response_mapping", "responseMapping"] 0 v)
  some { responseMapping }

/-- An entry of `responseFields`. -/
def responseField (v : Json) : Option ResponseField := do
  guard (fits 2 v)
  let name ← required string (field ["name"] 0 v)
  let selector ← required string (field ["selector"] 1 v)
  some { name, selector }

def FieldsConfig.deserialize (v : Json) : Option FieldsConfig := do
  guard (fits 1 v)
  let responseFields ← withDefault [] (vec responseField)
    (field ["response_fields", "responseFields"] 0 v)
  some { responseFields }

def A2aConfiguration.deserialize (v : Json) : Option A2aConfiguration := do
  guard (fits 2 v)
  let acceptedOutputModes ← omittable (vec string) v
    (field ["accepted_output_modes", "acceptedOutputModes"] 0 v)
  let blocking ← withDefault defaultBlocking bool (field ["blocking"] 1 v)
  some { acceptedOutputModes, blocking }

def Config.deserialize (v : Json) : Option Config := do
  guard (fits 11 v)
  let upstreamBinding ← withDefault defaultUpstreamBinding string
    (field ["upstream_binding", "upstreamBinding"] 0 v)
  let promptSelector ← required (deSelector compile)
    (field ["prompt_selector", "promptSelector"] 1 v)
  let continuationMode ← withDefault defaultContinuationMode string
    (field ["continuation_mode", "continuationMode"] 2 v)
  let cacheConfig ← withDefault none (option (CacheConfig.deserialize compile))
    (field ["cache_config", "cacheConfig"] 3 v)
  let explicitConfig ← withDefault none
    (option (ExplicitConfig.deserialize compile))
    (field ["explicit_config", "explicitConfig"] 4 v)
  let responseType ← withDefault defaultResponseType string
    (field ["response_type", "responseType"] 5 v)
  let mappingConfig ← withDefault none
    (option (MappingConfig.deserialize compile))
    (field ["mapping_config", "mappingConfig"] 6 v)
  let fieldsConfig ← withDefault none (option FieldsConfig.deserialize)
    (field ["fields_config", "fieldsConfig"] 7 v)
  let a2aConfiguration ← omittable A2aConfiguration.deserialize v
    (field ["a2a_configuration", "a2aConfiguration"] 8 v)
  let metadataSelector ← withDefault none (deOptionalSelector compile)
    (field ["metadata_selector", "metadataSelector"] 9 v)
  let requestErrorStatus ← withDefault defaultRequestErrorStatus i64
    (field ["request_error_status", "requestErrorStatus"] 10 v)
  some { upstreamBinding, promptSelector, continuationMode, cacheConfig,
         explicitConfig, responseType, mappingConfig, fieldsConfig,
         a2aConfiguration, metadataSelector, requestErrorStatus }

end RestToA2a.Policy.Generated
