import RestToA2a.Policy.Configure
import RestToA2a.Policy.Defaults
import RestToA2a.Policy.JsonSchema

/-!
# The schema of the extension definition

`gcl.yaml`, which the configuration struct is kept in sync with by hand: the
properties an operator can set, their types and bounds, and their defaults.
Every document that the schema admits starts the policy, with each setting as it
is written, and filling in the defaults of the schema changes nothing that the
policy does.
-/

namespace RestToA2a.Policy.GclSchema

open RestToA2a.Verified.StorageProgram
open RestToA2a.Policy.Serde
open RestToA2a.Policy.A2a
open RestToA2a.Policy.Binding
open RestToA2a.Policy.Gateway
open RestToA2a.Policy.ResponseFields
open RestToA2a.Policy.Deserialize
open RestToA2a.Policy.Generated
open RestToA2a.Policy.ConfigMap
open RestToA2a.Policy.Defaults
open RestToA2a.Policy.JsonSchema
open RestToA2a.Policy.Configure

/-! ## The schema -/

/-- `cacheConfig`. -/
def cacheProperties : Properties :=
  .cons "contextKeySelector" .expression none <|
  .cons "distributed" .boolean (some (.bool false)) <|
  .cons "conversationTtlSeconds" (.integer 60 86400) (some (.num (.int 3600))) .nil

/-- `explicitConfig`. -/
def explicitProperties : Properties :=
  .cons "taskIdSelector" .expression none <|
  .cons "contextIdSelector" .expression none .nil

/-- The MIME types the schema lists. -/
def outputModes : List String :=
  ["text/plain", "text/markdown", "text/html", "application/json", "image/png",
    "image/jpeg", "application/pdf"]

/-- `a2aConfiguration`.  That output modes are listed once each is left out;
nothing depends on it. -/
def a2aProperties : Properties :=
  .cons "acceptedOutputModes" (.array (.string (some outputModes))) none <|
  .cons "blocking" .boolean (some (.bool true)) .nil

/-- `mappingConfig`. -/
def mappingProperties : Properties :=
  .cons "responseMapping" .expression none .nil

/-- An item of `responseFields`. -/
def responseFieldProperties : Properties :=
  .cons "name" (.string none) none <|
  .cons "selector" (.string none) none .nil

/-- `fieldsConfig`. -/
def fieldsProperties : Properties :=
  .cons "responseFields"
    (.array (.object responseFieldProperties ["name", "selector"]))
    (some (.arr [])) .nil

/-- The properties of the definition.  `dataweave` is what the gateway hands to
the policy for a DataWeave text. -/
def gclProperties (dataweave : String → Json) : Properties :=
  .cons "upstreamBinding" (.string (some ["jsonrpc", "httpjson"]))
    (some (.str "jsonrpc")) <|
  .cons "promptSelector" .expression (some (dataweave "#[payload.prompt]")) <|
  .cons "continuationMode" (.string (some ["none", "cache", "explicit"]))
    (some (.str "none")) <|
  .cons "cacheConfig" (.object cacheProperties []) none <|
  .cons "explicitConfig" (.object explicitProperties []) none <|
  .cons "a2aConfiguration" (.object a2aProperties []) none <|
  .cons "metadataSelector" .expression (some (dataweave "#[null]")) <|
  .cons "requestErrorStatus" (.integer 400 599) (some (.num (.int 400))) <|
  .cons "responseType" (.string (some ["raw", "mapping", "fields"]))
    (some (.str "raw")) <|
  .cons "mappingConfig" (.object mappingProperties []) none <|
  .cons "fieldsConfig" (.object fieldsProperties []) none .nil

/-- The schema of a configuration document. -/
def gclSchema (dataweave : String → Json) : Schema :=
  .object (gclProperties dataweave)
    ["upstreamBinding", "promptSelector", "continuationMode"]

variable (compile : Json → Option Script)

/-- What stands for an expression is no null, and compiles. -/
def isExpression : Json → Bool
  | .null => false
  | v => (compile v).isSome

/-! ## The settings of a document -/

/-- A text of an object. -/
def text (v : Json) (key : String) : Option String := (v.get? key).bind string

/-- A whole number of an object. -/
def number (v : Json) (key : String) : Option Int := (v.get? key).bind i64

/-- A flag of an object. -/
def flag (v : Json) (key : String) : Option Bool := (v.get? key).bind bool

/-- A selector of an object. -/
def selector (v : Json) (key : String) : Option Script := (v.get? key).bind compile

/-- A selector of a group of a document. -/
def groupSelector (doc : Json) (group key : String) : Option Script :=
  (doc.get? group).bind fun g => selector compile g key

/-- An output field of a document. -/
def fieldOf (item : Json) : Option ResponseField := do
  let name ← text item "name"
  let selector ← text item "selector"
  some { name, selector }

/-- The elements of an array. -/
def elems : Json → List Json
  | .arr elems => elems
  | _ => []

/-- The settings of a document as the schema describes them: each is what stands
under its name, unchanged, or the default of the schema.  There are two exceptions.
Without a `cacheConfig` a conversation is kept for a minute; and a metadata
selector that is left out is none, where the schema has `#[null]`. -/
def settings (prompt : Script) (doc : Json) : PolicyConfig where
  binding := if text doc "upstreamBinding" = some "httpjson" then .httpJson else .jsonRpc
  continuationMode :=
    if text doc "continuationMode" = some "cache" then .cache
    else if text doc "continuationMode" = some "explicit" then .explicit
    else .none
  promptSelector := prompt
  contextKeySelector := groupSelector compile doc "cacheConfig" "contextKeySelector"
  taskIdSelector := groupSelector compile doc "explicitConfig" "taskIdSelector"
  contextIdSelector := groupSelector compile doc "explicitConfig" "contextIdSelector"
  responseType :=
    if text doc "responseType" = some "mapping" then .mapping
    else if text doc "responseType" = some "fields" then .fields
    else .raw
  responseMapping := groupSelector compile doc "mappingConfig" "responseMapping"
  responseFields :=
    (((doc.get? "fieldsConfig").bind (·.get? "responseFields")).map elems).getD []
      |>.filterMap fieldOf
  metadataSelector := selector compile doc "metadataSelector"
  sendConfiguration := (doc.get? "a2aConfiguration").map fun a2a =>
    { acceptedOutputModes :=
        (a2a.get? "acceptedOutputModes").map fun modes => (elems modes).filterMap string
      blocking := (flag a2a "blocking").getD true }
  distributed :=
    ((doc.get? "cacheConfig").bind fun cache => flag cache "distributed").getD false
  conversationTtlSeconds :=
    match doc.get? "cacheConfig" with
    | some cache => UInt32.ofInt ((number cache "conversationTtlSeconds").getD 3600)
    | none => 60
  requestErrorStatus := UInt32.ofInt ((number doc "requestErrorStatus").getD 400)

/-! ## Reading what the schema admits -/

variable {compile}

/-- A field with a default, where what is there can be read. -/
theorem withDefault_of_reads {α : Type} {default : α} {read : Json → Option α}
    {found : Option Json} (h : ∀ v, found = some v → (read v).isSome) :
    withDefault default read (some found) =
      some ((found.bind read).getD default) := by
  cases found with
  | none => rfl
  | some v =>
      obtain ⟨a, ha⟩ := Option.isSome_iff_exists.mp (h v rfl)
      simp [withDefault, ha]

theorem compile_isSome {v : Json} (h : isExpression compile v = true) :
    (compile v).isSome := by
  cases v with
  | null => cases h
  | _ => exact h

/-- A bounded number is read as it is. -/
theorem i64_of_valid {minimum maximum : Int} (hmin : -(2 ^ 63) ≤ minimum)
    (hmax : maximum < 2 ^ 63) {v : Json}
    (h : (Schema.integer minimum maximum).valid (isExpression compile) v = true) :
    ∃ z, i64 v = some z ∧ minimum ≤ z ∧ z ≤ maximum := by
  cases v with
  | num n =>
      cases n with
      | int z =>
          have hz : minimum ≤ z ∧ z ≤ maximum := by simpa [Schema.valid] using h
          refine ⟨z, ?_, hz⟩
          rw [i64, if_pos ⟨by omega, by omega⟩]
      | float d => simp [Schema.valid] at h
  | _ => simp [Schema.valid] at h

section Fields

variable {properties : Properties} {required : List String} {members : Map}
  {default : Option Json} (names : List String) (name : String)

/-- A selector that may be left out. -/
theorem selector_of_valid
    (h : ValidObject (isExpression compile) properties required members)
    (hname : Named properties.names names name)
    (hfind : properties.find? name = some (.expression, default)) (position : Nat) :
    withDefault none (deOptionalSelector compile) (field names position (.obj members)) =
      some (selector compile (.obj members) name) := by
  rw [h.field hname position]
  show _ = some ((members.lookup name).bind compile)
  cases hv : members.lookup name with
  | none => rfl
  | some v =>
      have hvalid := h.admits hfind v hv
      obtain ⟨script, hscript⟩ := Option.isSome_iff_exists.mp (compile_isSome hvalid)
      cases v with
      | null => cases hvalid
      | _ => simp [withDefault, deOptionalSelector, option, hscript]

/-- A text with a default. -/
theorem text_of_valid {allowed : Option (List String)} (missing : String)
    (h : ValidObject (isExpression compile) properties required members)
    (hname : Named properties.names names name)
    (hfind : properties.find? name = some (.string allowed, default))
    (position : Nat) :
    withDefault missing string (field names position (.obj members)) =
      some ((text (.obj members) name).getD missing) := by
  rw [h.field hname position]
  refine withDefault_of_reads fun v hv => ?_
  have hvalid := h.admits hfind v hv
  cases v with
  | str s => rfl
  | _ => simp [Schema.valid] at hvalid

/-- A flag with a default. -/
theorem flag_of_valid (missing : Bool)
    (h : ValidObject (isExpression compile) properties required members)
    (hname : Named properties.names names name)
    (hfind : properties.find? name = some (.boolean, default)) (position : Nat) :
    withDefault missing bool (field names position (.obj members)) =
      some ((flag (.obj members) name).getD missing) := by
  rw [h.field hname position]
  refine withDefault_of_reads fun v hv => ?_
  have hvalid := h.admits hfind v hv
  cases v with
  | bool b => rfl
  | _ => simp [Schema.valid] at hvalid

/-- A number with a default. -/
theorem number_of_valid {minimum maximum : Int} (missing : Int)
    (h : ValidObject (isExpression compile) properties required members)
    (hname : Named properties.names names name)
    (hfind : properties.find? name = some (.integer minimum maximum, default))
    (hmin : -(2 ^ 63) ≤ minimum) (hmax : maximum < 2 ^ 63) (position : Nat) :
    withDefault missing i64 (field names position (.obj members)) =
      some ((number (.obj members) name).getD missing) := by
  rw [h.field hname position]
  refine withDefault_of_reads fun v hv => ?_
  obtain ⟨z, hz, _⟩ := i64_of_valid hmin hmax (h.admits hfind v hv)
  rw [hz]
  rfl

/-- A group that may be left out. -/
theorem group_of_valid {α : Type} {read : Json → Option α} {group : Json → α}
    {inner : Properties} {innerRequired : List String}
    (hread : ∀ v, (Schema.object inner innerRequired).valid (isExpression compile) v =
      true → read v = some (group v))
    (h : ValidObject (isExpression compile) properties required members)
    (hname : Named properties.names names name)
    (hfind : properties.find? name = some (.object inner innerRequired, default))
    (position : Nat) :
    withDefault none (option read) (field names position (.obj members)) =
      some (((Json.obj members).get? name).map group) := by
  rw [h.field hname position]
  show _ = some ((members.lookup name).map group)
  cases hv : members.lookup name with
  | none => rfl
  | some v =>
      have hvalid := h.admits hfind v hv
      have hgroup := hread v hvalid
      obtain ⟨inside, rfl, _⟩ := valid_object hvalid
      simp [withDefault, option, hgroup]

end Fields

/-! ## The groups -/

variable (compile)

/-- The cache group of a document. -/
def cacheOf (cache : Json) : CacheConfig where
  contextKeySelector := selector compile cache "contextKeySelector"
  distributed := (flag cache "distributed").getD false
  conversationTtlSeconds := (number cache "conversationTtlSeconds").getD 3600

/-- The explicit group. -/
def explicitOf (explicit : Json) : ExplicitConfig where
  taskIdSelector := selector compile explicit "taskIdSelector"
  contextIdSelector := selector compile explicit "contextIdSelector"

/-- The mapping group. -/
def mappingOf (mapping : Json) : MappingConfig where
  responseMapping := selector compile mapping "responseMapping"

/-- The fields group. -/
def fieldsOf (fields : Json) : FieldsConfig where
  responseFields :=
    ((fields.get? "responseFields").map elems).getD [] |>.filterMap fieldOf

/-- The group of the send configuration. -/
def a2aOf (a2a : Json) : A2aConfiguration where
  acceptedOutputModes :=
    (a2a.get? "acceptedOutputModes").map fun modes => (elems modes).filterMap string
  blocking := (flag a2a "blocking").getD true

variable {compile}

theorem cache_of_valid (v : Json)
    (h : (Schema.object cacheProperties []).valid (isExpression compile) v = true) :
    CacheConfig.deserialize compile v = some (cacheOf compile v) := by
  obtain ⟨members, rfl, hobject⟩ := valid_object h
  have hkey := selector_of_valid ["context_key_selector", "contextKeySelector"]
    "contextKeySelector" hobject (by decide) rfl 0
  have hdistributed := flag_of_valid ["distributed"] "distributed" defaultDistributed
    hobject (by decide) rfl 1
  have hseconds := number_of_valid
    ["conversation_ttl_seconds", "conversationTtlSeconds"] "conversationTtlSeconds"
    defaultConversationTtlSeconds hobject (by decide) rfl (by decide) (by decide) 2
  simp only [CacheConfig.deserialize, fits, hkey, hdistributed, hseconds]
  rfl

theorem explicit_of_valid (v : Json)
    (h : (Schema.object explicitProperties []).valid (isExpression compile) v = true) :
    ExplicitConfig.deserialize compile v = some (explicitOf compile v) := by
  obtain ⟨members, rfl, hobject⟩ := valid_object h
  have htask := selector_of_valid ["task_id_selector", "taskIdSelector"]
    "taskIdSelector" hobject (by decide) rfl 0
  have hcontext := selector_of_valid ["context_id_selector", "contextIdSelector"]
    "contextIdSelector" hobject (by decide) rfl 1
  simp only [ExplicitConfig.deserialize, fits, htask, hcontext]
  rfl

theorem mapping_of_valid (v : Json)
    (h : (Schema.object mappingProperties []).valid (isExpression compile) v = true) :
    MappingConfig.deserialize compile v = some (mappingOf compile v) := by
  obtain ⟨members, rfl, hobject⟩ := valid_object h
  have hmapping := selector_of_valid ["response_mapping", "responseMapping"]
    "responseMapping" hobject (by decide) rfl 0
  simp only [MappingConfig.deserialize, fits, hmapping]
  rfl

/-- Elements that can all be read are read one by one. -/
theorem mapM_of_reads {α : Type} {read : Json → Option α} {items : List Json}
    (h : ∀ v ∈ items, (read v).isSome) :
    items.mapM read = some (items.filterMap read) := by
  induction items with
  | nil => rfl
  | cons item rest ih =>
      obtain ⟨a, ha⟩ := Option.isSome_iff_exists.mp (h item List.mem_cons_self)
      have hrest := ih fun v hv => h v (List.mem_cons_of_mem _ hv)
      simp [List.mapM_cons, ha, hrest]

/-- A list, where each element can be read. -/
theorem vec_of_valid {α : Type} {read : Json → Option α} {items : Schema} {v : Json}
    (hread : ∀ v, items.valid (isExpression compile) v = true → (read v).isSome)
    (h : (Schema.array items).valid (isExpression compile) v = true) :
    vec read v = some ((elems v).filterMap read) := by
  cases v with
  | arr values =>
      have hall : ∀ value ∈ values, items.valid (isExpression compile) value = true := by
        simpa [Schema.valid] using h
      exact mapM_of_reads fun value hvalue => hread value (hall value hvalue)
  | _ => simp [Schema.valid] at h

theorem responseField_of_valid (v : Json)
    (h : (Schema.object responseFieldProperties ["name", "selector"]).valid
      (isExpression compile) v = true) :
    responseField v = fieldOf v ∧ (responseField v).isSome := by
  obtain ⟨members, rfl, hobject⟩ := valid_object h
  have hname : field ["name"] 0 (.obj members) = some (members.lookup "name") :=
    hobject.field (by decide) 0
  have hselector : field ["selector"] 1 (.obj members) =
      some (members.lookup "selector") := hobject.field (by decide) 1
  obtain ⟨name, hn⟩ := Option.isSome_iff_exists.mp (hobject.required "name" (by simp))
  obtain ⟨path, hp⟩ := Option.isSome_iff_exists.mp (hobject.required "selector" (by simp))
  have hnameText := hobject.admits rfl name hn
  have hpathText := hobject.admits rfl path hp
  cases name with
  | str name =>
      cases path with
      | str path =>
          simp [responseField, fits, hname, hn, hselector, hp, required, string,
            Json.asStr, fieldOf, text]
      | _ => simp [Schema.valid] at hpathText
  | _ => simp [Schema.valid] at hnameText

theorem fields_of_valid (v : Json)
    (h : (Schema.object fieldsProperties []).valid (isExpression compile) v = true) :
    FieldsConfig.deserialize v = some (fieldsOf v) := by
  obtain ⟨members, rfl, hobject⟩ := valid_object h
  have hfield : field ["response_fields", "responseFields"] 0 (.obj members) =
      some (members.lookup "responseFields") := hobject.field (by decide) 0
  have hread : ∀ list, members.lookup "responseFields" = some list →
      vec responseField list = some ((elems list).filterMap fieldOf) := by
    intro list hlist
    have hvalid := hobject.admits rfl list hlist
    rw [vec_of_valid (fun v hv => (responseField_of_valid v hv).2) hvalid]
    congr 1
    refine List.filterMap_congr fun item hitem => ?_
    have hitems : ∀ value ∈ elems list, (Schema.object responseFieldProperties
        ["name", "selector"]).valid (isExpression compile) value = true := by
      cases list with
      | arr values => simpa [Schema.valid, elems] using hvalid
      | _ => simp [Schema.valid] at hvalid
    exact (responseField_of_valid item (hitems item hitem)).1
  have hwith : withDefault [] (vec responseField)
      (some (members.lookup "responseFields")) =
        some (fieldsOf (.obj members)).responseFields := by
    unfold fieldsOf
    show _ = some ((((members.lookup "responseFields").map elems).getD []).filterMap fieldOf)
    cases hlist : members.lookup "responseFields" with
    | none => rfl
    | some list => simp [withDefault, hread list hlist]
  simp only [FieldsConfig.deserialize, fits, hfield, hwith]
  rfl

theorem a2a_of_valid (v : Json)
    (h : (Schema.object a2aProperties []).valid (isExpression compile) v = true) :
    A2aConfiguration.deserialize v = some (a2aOf v) := by
  obtain ⟨members, rfl, hobject⟩ := valid_object h
  have hfield : field ["accepted_output_modes", "acceptedOutputModes"] 0
      (.obj members) = some (members.lookup "acceptedOutputModes") :=
    hobject.field (by decide) 0
  have hblocking := flag_of_valid ["blocking"] "blocking" defaultBlocking hobject
    (by decide) rfl 1
  have hmodes : omittable (vec string) (.obj members)
      (some (members.lookup "acceptedOutputModes")) =
        some (a2aOf (.obj members)).acceptedOutputModes := by
    unfold a2aOf
    show _ = some ((members.lookup "acceptedOutputModes").map fun modes =>
      (elems modes).filterMap string)
    cases hlist : members.lookup "acceptedOutputModes" with
    | none => rfl
    | some list =>
        have hvalid := hobject.admits rfl list hlist
        have hread : ∀ v, (Schema.string (some outputModes)).valid
            (isExpression compile) v = true → (string v).isSome := by
          intro v hv
          cases v with
          | str s => rfl
          | _ => simp [Schema.valid] at hv
        have hvec := vec_of_valid hread hvalid
        cases list with
        | arr values => simp [omittable, option, hvec]
        | _ => simp [Schema.valid] at hvalid
  simp only [A2aConfiguration.deserialize, fits, hfield, hmodes, hblocking]
  rfl

/-! ## The document -/

variable (compile) in
/-- The configuration of a document. -/
def rawOf (prompt : Script) (doc : Json) : Config where
  upstreamBinding := (text doc "upstreamBinding").getD defaultUpstreamBinding
  promptSelector := prompt
  continuationMode := (text doc "continuationMode").getD defaultContinuationMode
  cacheConfig := (doc.get? "cacheConfig").map (cacheOf compile)
  explicitConfig := (doc.get? "explicitConfig").map (explicitOf compile)
  responseType := (text doc "responseType").getD defaultResponseType
  mappingConfig := (doc.get? "mappingConfig").map (mappingOf compile)
  fieldsConfig := (doc.get? "fieldsConfig").map fieldsOf
  a2aConfiguration := (doc.get? "a2aConfiguration").map a2aOf
  metadataSelector := selector compile doc "metadataSelector"
  requestErrorStatus := (number doc "requestErrorStatus").getD defaultRequestErrorStatus

variable {dataweave : String → Json} {members : Map}

/-- The members of a valid document. -/
abbrev ValidDocument (compile : Json → Option Script) (dataweave : String → Json)
    (members : Map) : Prop :=
  ValidObject (isExpression compile) (gclProperties dataweave)
    ["upstreamBinding", "promptSelector", "continuationMode"] members

/-- The names of the properties. -/
def gclNames : List String :=
  ["upstreamBinding", "promptSelector", "continuationMode", "cacheConfig",
    "explicitConfig", "a2aConfiguration", "metadataSelector", "requestErrorStatus",
    "responseType", "mappingConfig", "fieldsConfig"]

theorem named_gcl {names : List String} {name : String} (h : Named gclNames names name) :
    Named (gclProperties dataweave).names names name := h

theorem deserialize_of_valid (h : ValidDocument compile dataweave members) :
    ∃ prompt, selector compile (.obj members) "promptSelector" = some prompt ∧
      Config.deserialize compile (.obj members) =
        some (rawOf compile prompt (.obj members)) := by
  have hprompt : ∃ prompt, selector compile (.obj members) "promptSelector" =
      some prompt ∧ required (deSelector compile)
        (field ["prompt_selector", "promptSelector"] 1 (.obj members)) = some prompt := by
    obtain ⟨v, hv⟩ := Option.isSome_iff_exists.mp (h.required "promptSelector" (by simp))
    have hvalid : Schema.expression.valid (isExpression compile) v = true :=
      h.admits rfl v hv
    obtain ⟨prompt, hp⟩ := Option.isSome_iff_exists.mp (compile_isSome hvalid)
    have hfield : field ["prompt_selector", "promptSelector"] 1 (.obj members) =
        some (members.lookup "promptSelector") := h.field (named_gcl (by decide)) 1
    refine ⟨prompt, ?_, ?_⟩
    · simp [selector, hv, hp]
    · rw [hfield, hv]
      exact hp
  obtain ⟨prompt, hselector, hprompt⟩ := hprompt
  have hbinding := text_of_valid ["upstream_binding", "upstreamBinding"]
    "upstreamBinding" defaultUpstreamBinding h (named_gcl (by decide)) rfl 0
  have hmode := text_of_valid ["continuation_mode", "continuationMode"]
    "continuationMode" defaultContinuationMode h (named_gcl (by decide)) rfl 2
  have hcache := group_of_valid ["cache_config", "cacheConfig"] "cacheConfig"
    cache_of_valid h (named_gcl (by decide)) rfl 3
  have hexplicit := group_of_valid ["explicit_config", "explicitConfig"]
    "explicitConfig" explicit_of_valid h (named_gcl (by decide)) rfl 4
  have htype := text_of_valid ["response_type", "responseType"] "responseType"
    defaultResponseType h (named_gcl (by decide)) rfl 5
  have hmapping := group_of_valid ["mapping_config", "mappingConfig"] "mappingConfig"
    mapping_of_valid h (named_gcl (by decide)) rfl 6
  have hfields := group_of_valid ["fields_config", "fieldsConfig"] "fieldsConfig"
    fields_of_valid h (named_gcl (by decide)) rfl 7
  have ha2a : omittable A2aConfiguration.deserialize (.obj members)
      (field ["a2a_configuration", "a2aConfiguration"] 8 (.obj members)) =
        some (((Json.obj members).get? "a2aConfiguration").map a2aOf) := by
    have hfield : field ["a2a_configuration", "a2aConfiguration"] 8 (.obj members) =
        some (members.lookup "a2aConfiguration") := h.field (named_gcl (by decide)) 8
    rw [hfield]
    show _ = some ((members.lookup "a2aConfiguration").map a2aOf)
    cases hv : members.lookup "a2aConfiguration" with
    | none => rfl
    | some v =>
        have hvalid := h.admits rfl v hv
        have hgroup := a2a_of_valid v hvalid
        obtain ⟨inside, rfl, _⟩ := valid_object hvalid
        simp [omittable, option, hgroup]
  have hmetadata := selector_of_valid ["metadata_selector", "metadataSelector"]
    "metadataSelector" h (named_gcl (by decide)) rfl 9
  have hstatus := number_of_valid ["request_error_status", "requestErrorStatus"]
    "requestErrorStatus" defaultRequestErrorStatus h (named_gcl (by decide)) rfl
    (by decide) (by decide) 10
  refine ⟨prompt, hselector, ?_⟩
  simp only [Config.deserialize, fits, hbinding, hprompt, hmode, hcache, hexplicit,
    htype, hmapping, hfields, ha2a, hmetadata, hstatus]
  rfl

/-- A text the schema lists. -/
theorem text_mem {allowed : List String} {name : String} {default : Option Json}
    (h : ValidDocument compile dataweave members)
    (hfind : (gclProperties dataweave).find? name =
      some (.string (some allowed), default)) {s : String}
    (hs : text (.obj members) name = some s) : s ∈ allowed := by
  obtain ⟨v, hv, hstring⟩ := Option.bind_eq_some_iff.mp hs
  have hvalid := h.admits hfind v hv
  cases v with
  | str s' =>
      have heq : s' = s := Option.some.inj hstring
      rw [← heq]
      simpa [Schema.valid] using hvalid
  | _ => simp [Schema.valid] at hvalid

/-- A required text is there. -/
theorem text_isSome {allowed : Option (List String)} {name : String}
    {default : Option Json} (h : ValidDocument compile dataweave members)
    (hfind : (gclProperties dataweave).find? name = some (.string allowed, default))
    (hrequired : (members.lookup name).isSome) :
    ∃ s, text (.obj members) name = some s := by
  obtain ⟨v, hv⟩ := Option.isSome_iff_exists.mp hrequired
  have hvalid := h.admits hfind v hv
  cases v with
  | str s => exact ⟨s, by simp [text, hv, string, Json.asStr]⟩
  | _ => simp [Schema.valid] at hvalid

theorem binding_of_valid (h : ValidDocument compile dataweave members) :
    UpstreamBinding.fromStr ((text (.obj members) "upstreamBinding").getD
        defaultUpstreamBinding) =
      .ok (if text (.obj members) "upstreamBinding" = some "httpjson" then .httpJson
        else .jsonRpc) := by
  obtain ⟨s, hs⟩ := text_isSome h rfl (h.required "upstreamBinding" (by simp))
  have hmem := text_mem h rfl hs
  rw [hs]
  simp only [List.mem_cons, List.not_mem_nil, or_false] at hmem
  rcases hmem with rfl | rfl
  · decide
  · decide

theorem mode_of_valid (h : ValidDocument compile dataweave members) :
    ContinuationMode.fromStr ((text (.obj members) "continuationMode").getD
        defaultContinuationMode) =
      .ok (if text (.obj members) "continuationMode" = some "cache" then .cache
        else if text (.obj members) "continuationMode" = some "explicit" then .explicit
        else .none) := by
  obtain ⟨s, hs⟩ := text_isSome h rfl (h.required "continuationMode" (by simp))
  have hmem := text_mem h rfl hs
  rw [hs]
  simp only [List.mem_cons, List.not_mem_nil, or_false] at hmem
  rcases hmem with rfl | rfl | rfl
  · decide
  · decide
  · decide

theorem type_of_valid (h : ValidDocument compile dataweave members) :
    ResponseType.fromStr ((text (.obj members) "responseType").getD
        defaultResponseType) =
      .ok (if text (.obj members) "responseType" = some "mapping" then .mapping
        else if text (.obj members) "responseType" = some "fields" then .fields
        else .raw) := by
  cases hs : text (.obj members) "responseType" with
  | none => decide
  | some s =>
      have hmem := text_mem h rfl hs
      simp only [List.mem_cons, List.not_mem_nil, or_false] at hmem
      rcases hmem with rfl | rfl | rfl
      · decide
      · decide
      · decide

theorem clamp_of_mem {minimum maximum z : Int} (hmin : minimum ≤ z)
    (hmax : z ≤ maximum) : clamp minimum maximum z = z := by
  unfold clamp
  omega

/-- A bounded number or its default is in the bounds. -/
theorem number_mem {properties : Properties} {required : List String}
    {minimum maximum : Int} {name : String} {default : Option Json} {missing : Int}
    (h : ValidObject (isExpression compile) properties required members)
    (hfind : properties.find? name = some (.integer minimum maximum, default))
    (hlow : -(2 ^ 63) ≤ minimum) (hhigh : maximum < 2 ^ 63)
    (hmissing : minimum ≤ missing ∧ missing ≤ maximum) :
    clamp minimum maximum ((number (.obj members) name).getD missing) =
      (number (.obj members) name).getD missing := by
  show clamp minimum maximum (((members.lookup name).bind i64).getD missing) =
    ((members.lookup name).bind i64).getD missing
  cases hv : members.lookup name with
  | none => exact clamp_of_mem hmissing.1 hmissing.2
  | some v =>
      obtain ⟨z, hz, hmin, hmax⟩ := i64_of_valid hlow hhigh (h.admits hfind v hv)
      rw [Option.bind_some, hz]
      exact clamp_of_mem hmin hmax

theorem ttl_of_valid (h : ValidDocument compile dataweave members) :
    UInt32.ofInt (clamp 60 86400 (((members.lookup "cacheConfig").map
        (cacheOf compile)).getD .derivedDefault).conversationTtlSeconds) =
      match members.lookup "cacheConfig" with
      | some cache =>
          UInt32.ofInt ((number cache "conversationTtlSeconds").getD 3600)
      | none => 60 := by
  cases hv : members.lookup "cacheConfig" with
  | none =>
      have hminute : UInt32.ofInt (clamp 60 86400 0) = 60 := by decide
      exact hminute
  | some cache =>
      obtain ⟨inside, rfl, hobject⟩ := valid_object (h.admits rfl cache hv)
      exact congrArg UInt32.ofInt
        (number_mem hobject rfl (by decide) (by decide) (by decide))

/-- The groups of a document, laid flat. -/
theorem flatten_rawOf (h : ValidDocument compile dataweave members)
    (prompt : Script) (binding : UpstreamBinding) (mode : ContinuationMode)
    (type : ResponseType) :
    PolicyConfig.flatten binding mode type (rawOf compile prompt (.obj members)) =
      { settings compile prompt (.obj members) with
        binding := binding
        continuationMode := mode
        responseType := type } := by
  have hstatus : clamp 400 599 ((number (.obj members) "requestErrorStatus").getD
      defaultRequestErrorStatus) =
        (number (.obj members) "requestErrorStatus").getD 400 :=
    number_mem h rfl (by decide) (by decide) (by decide)
  have hcache := ttl_of_valid h
  simp only [PolicyConfig.flatten, settings, rawOf, groupSelector, Json.get?_obj,
    hstatus, hcache, Option.map_map]
  cases members.lookup "cacheConfig" <;> cases members.lookup "explicitConfig" <;>
    cases members.lookup "mappingConfig" <;> cases members.lookup "fieldsConfig" <;> rfl

/-- **A valid document is configured as it is written.** -/
theorem fromGenerated_of_valid (h : ValidDocument compile dataweave members)
    (prompt : Script) :
    PolicyConfig.fromGenerated (rawOf compile prompt (.obj members)) =
      .ok (settings compile prompt (.obj members)) := by
  rw [@fromGenerated_of_names (rawOf compile prompt (.obj members)) _ _ _
    (binding_of_valid h) (mode_of_valid h) (type_of_valid h), flatten_rawOf h]
  rfl

variable {readDocument : Bytes → Option Json}

theorem configure_of_valid {bytes : Bytes}
    (hread : readDocument bytes = some (.obj members))
    (h : ValidDocument compile dataweave members) :
    ∃ l prompt, configure readDocument compile bytes = .ok l ∧
      selector compile (.obj members) "promptSelector" = some prompt ∧
      l.config = settings compile prompt (.obj members) := by
  obtain ⟨prompt, hprompt, hraw⟩ := deserialize_of_valid h
  have hconfig := fromGenerated_of_valid h prompt
  have hstart : ∃ l, configure readDocument compile bytes = .ok l ∧
      l.config = settings compile prompt (.obj members) := by
    unfold configure
    rw [hread, Option.bind_some, hraw]
    simp only
    split
    · rename_i err herr
      rw [hconfig] at herr
      cases herr
    · rename_i config hok
      rw [hconfig] at hok
      cases hok
      exact ⟨_, rfl, rfl⟩
  obtain ⟨l, hl, hsettings⟩ := hstart
  exact ⟨l, prompt, hl, hprompt, hsettings⟩

/-- **What the schema admits starts the policy.**  Every document that is valid
by `gcl.yaml`, its objects closed and its integers written without a fraction, is
accepted, and the policy runs with its settings as they stand: no name is unknown,
no number is clamped, and what is left out has the default of the schema, but for
the lifetime of a cache group that is left out and for a metadata selector that
is left out, which is none. -/
theorem admitted_starts {bytes : Bytes} {doc : Json}
    (hread : readDocument bytes = some doc)
    (hvalid : (gclSchema dataweave).valid (isExpression compile) doc = true) :
    ∃ l prompt, configure readDocument compile bytes = .ok l ∧
      selector compile doc "promptSelector" = some prompt ∧
      l.config = settings compile prompt doc := by
  obtain ⟨members, rfl, h⟩ := valid_object hvalid
  exact configure_of_valid hread h

/-- Distributed, in cache mode. -/
def cacheDocument : Json :=
  .obj [ ("upstreamBinding", .str "httpjson")
       , ("promptSelector", .str "#[payload.prompt]")
       , ("continuationMode", .str "cache")
       , ("cacheConfig", .obj [("distributed", .bool true)]) ]

/-- Compiles any text to a selector of a constant. -/
def compileText : Json → Option Script
  | .str _ => some ⟨fun _ _ => .ok .null⟩
  | _ => none

theorem admitted_starts_cacheDocument :
    ∃ l, configure (fun _ => some cacheDocument) compileText [] = .ok l ∧
      l.config.conversationTtlSeconds = 3600 ∧ l.config.distributed = true := by
  have hvalid : (gclSchema .str).valid (isExpression compileText) cacheDocument =
      true := by decide
  obtain ⟨l, prompt, hl, _, hconfig⟩ := @admitted_starts compileText .str
    (fun _ => some cacheDocument) [] cacheDocument rfl hvalid
  refine ⟨l, hl, ?_, ?_⟩
  · rw [hconfig]
    rfl
  · rw [hconfig]
    rfl

end RestToA2a.Policy.GclSchema
