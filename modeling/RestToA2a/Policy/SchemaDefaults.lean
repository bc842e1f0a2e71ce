import RestToA2a.Policy.GclSchema

/-!
# The defaults of the schema

A document may reach the policy with the defaults of the schema filled in or
without.  The struct it is read into has defaults of its own, kept the same by
hand: the policy does the same either way.
-/

namespace RestToA2a.Policy.SchemaDefaults

open RestToA2a.Verified.StorageProgram
open RestToA2a.Verified.ProgramPool
open RestToA2a.Policy.Serde
open RestToA2a.Policy.A2a
open RestToA2a.Policy.Binding
open RestToA2a.Policy.Cache
open RestToA2a.Policy.Cache.ConversationStore
open RestToA2a.Policy.Dataweave
open RestToA2a.Policy.Gateway
open RestToA2a.Policy.ResponseFields
open RestToA2a.Policy.Deserialize
open RestToA2a.Policy.Generated
open RestToA2a.Policy.ConfigMap
open RestToA2a.Policy.Filter
open RestToA2a.Policy.Turns
open RestToA2a.Policy.TurnServer
open RestToA2a.Policy.JsonSchema
open RestToA2a.Policy.Configure
open RestToA2a.Policy.GclSchema

variable {compile : Json → Option Script} {dataweave : String → Json}

/-- **Every default that is ever filled in passes its own check**, if `#[null]`
compiles. -/
theorem wellFormed_gcl (hnull : isExpression compile (dataweave "#[null]")) :
    (gclSchema dataweave).wellFormed (isExpression compile) = true := by
  simp [gclSchema, gclProperties, Schema.wellFormed, Properties.wellFormed,
    Properties.names, cacheProperties, explicitProperties, a2aProperties,
    mappingProperties, fieldsProperties, responseFieldProperties, Schema.valid, hnull]

/-! ## Settings of a filled-in object -/

section Members

variable {properties : Properties} (members : Map) (name : String)
  (hnodup : properties.names.Nodup)

include hnodup

theorem selector_fill (hfind : properties.find? name = some (.expression, none)) :
    selector compile (.obj (properties.fill members)) name =
      selector compile (.obj members) name := by
  simp only [selector, Json.get?_obj, lookup_fill name hnodup hfind]
  cases members.lookup name <;> rfl

theorem text_fill {allowed : Option (List String)}
    (hfind : properties.find? name = some (.string allowed, none)) :
    text (.obj (properties.fill members)) name = text (.obj members) name := by
  simp only [text, Json.get?_obj, lookup_fill name hnodup hfind]
  cases members.lookup name <;> rfl

/-- A text with a default reads the same. -/
theorem text_fill_getD {allowed : Option (List String)} {s : String}
    (hfind : properties.find? name = some (.string allowed, some (.str s))) :
    (text (.obj (properties.fill members)) name).getD s =
      (text (.obj members) name).getD s := by
  simp only [text, Json.get?_obj, lookup_fill name hnodup hfind]
  cases members.lookup name <;> rfl

/-- A flag with a default reads the same. -/
theorem flag_fill {b : Bool}
    (hfind : properties.find? name = some (.boolean, some (.bool b))) :
    (flag (.obj (properties.fill members)) name).getD b =
      (flag (.obj members) name).getD b := by
  simp only [flag, Json.get?_obj, lookup_fill name hnodup hfind]
  cases members.lookup name <;> rfl

/-- A number with a default reads the same, if the default is a number. -/
theorem number_fill {minimum maximum z : Int} (hz : i64 (.num (.int z)) = some z)
    (hfind : properties.find? name =
      some (.integer minimum maximum, some (.num (.int z)))) :
    (number (.obj (properties.fill members)) name).getD z =
      (number (.obj members) name).getD z := by
  simp only [number, Json.get?_obj, lookup_fill name hnodup hfind]
  cases members.lookup name with
  | none => simp [hz]
  | some v => rfl

/-- A group is filled in itself. -/
theorem group_fill {inner : Properties} {innerRequired : List String}
    (hfind : properties.find? name = some (.object inner innerRequired, none)) :
    (Json.obj (properties.fill members)).get? name =
      ((Json.obj members).get? name).map (Schema.object inner innerRequired).fill := by
  simp only [Json.get?_obj, lookup_fill name hnodup hfind, Option.or_none]

end Members

/-! ## The groups filled in -/

variable {v : Json}

theorem cacheOf_fill
    (h : (Schema.object cacheProperties []).valid (isExpression compile) v = true) :
    cacheOf compile ((Schema.object cacheProperties []).fill v) = cacheOf compile v := by
  obtain ⟨members, rfl, _⟩ := valid_object h
  have hnodup : cacheProperties.names.Nodup := by decide
  simp only [cacheOf, Schema.fill, selector_fill members "contextKeySelector" hnodup rfl,
    flag_fill members "distributed" hnodup rfl,
    number_fill members "conversationTtlSeconds" hnodup (by decide) rfl]

theorem explicitOf_fill
    (h : (Schema.object explicitProperties []).valid (isExpression compile) v = true) :
    explicitOf compile ((Schema.object explicitProperties []).fill v) =
      explicitOf compile v := by
  obtain ⟨members, rfl, _⟩ := valid_object h
  have hnodup : explicitProperties.names.Nodup := by decide
  simp only [explicitOf, Schema.fill, selector_fill members "taskIdSelector" hnodup rfl,
    selector_fill members "contextIdSelector" hnodup rfl]

theorem mappingOf_fill
    (h : (Schema.object mappingProperties []).valid (isExpression compile) v = true) :
    mappingOf compile ((Schema.object mappingProperties []).fill v) =
      mappingOf compile v := by
  obtain ⟨members, rfl, _⟩ := valid_object h
  have hnodup : mappingProperties.names.Nodup := by decide
  simp only [mappingOf, Schema.fill,
    selector_fill members "responseMapping" hnodup rfl]

/-- An output field has no defaults. -/
theorem fieldOf_fill (item : Json) :
    fieldOf ((Schema.object responseFieldProperties ["name", "selector"]).fill item) =
      fieldOf item := by
  cases item with
  | obj members =>
      have hnodup : responseFieldProperties.names.Nodup := by decide
      simp only [fieldOf, Schema.fill, text_fill members "name" hnodup rfl,
        text_fill members "selector" hnodup rfl]
  | _ => rfl

theorem elems_fill (items : Schema) (list : Json) :
    elems ((Schema.array items).fill list) = (elems list).map items.fill := by
  cases list <;> rfl

theorem fieldsOf_fill
    (h : (Schema.object fieldsProperties []).valid (isExpression compile) v = true) :
    fieldsOf ((Schema.object fieldsProperties []).fill v) = fieldsOf v := by
  obtain ⟨members, rfl, _⟩ := valid_object h
  have hnodup : fieldsProperties.names.Nodup := by decide
  simp only [fieldsOf, Schema.fill, Json.get?_obj,
    lookup_fill "responseFields" hnodup rfl]
  cases members.lookup "responseFields" with
  | none => rfl
  | some list =>
      simp only [Option.map_some, Option.some_or, Option.getD_some, elems_fill,
        List.filterMap_map]
      congr 1
      exact List.filterMap_congr fun item _ => fieldOf_fill item

theorem a2aOf_fill
    (h : (Schema.object a2aProperties []).valid (isExpression compile) v = true) :
    a2aOf ((Schema.object a2aProperties []).fill v) = a2aOf v := by
  obtain ⟨members, rfl, _⟩ := valid_object h
  have hnodup : a2aProperties.names.Nodup := by decide
  have hsame : (Schema.string (some outputModes)).fill = id := by
    funext v
    rfl
  simp only [a2aOf, Schema.fill, flag_fill members "blocking" hnodup rfl, Json.get?_obj,
    lookup_fill "acceptedOutputModes" hnodup rfl, Option.or_none,
    Option.map_map]
  congr 2
  funext list
  simp only [Function.comp_apply, elems_fill, hsame, List.map_id]

/-! ## The document filled in -/

variable {members : Map}

theorem nodup_gcl (dataweave : String → Json) : (gclProperties dataweave).names.Nodup := by
  show gclNames.Nodup
  decide

/-- What is read of a group is read of the group filled in. -/
theorem map_group_fill {α : Type} {group : Json → α} {inner : Properties}
    (name : String)
    (hgroup : ∀ v, (Schema.object inner []).valid (isExpression compile) v = true →
      group ((Schema.object inner []).fill v) = group v)
    (h : ValidDocument compile dataweave members)
    (hfind : (gclProperties dataweave).find? name = some (.object inner [], none)) :
    ((Json.obj ((gclProperties dataweave).fill members)).get? name).map group =
      ((Json.obj members).get? name).map group := by
  rw [group_fill members name (nodup_gcl dataweave) hfind, Option.map_map]
  show (members.lookup name).map _ = (members.lookup name).map group
  cases hv : members.lookup name with
  | none => rfl
  | some v => exact congrArg some (hgroup v (h.admits hfind v hv))

/-- **Filling in leaves every setting but the metadata selector as it was.** -/
theorem rawOf_fill (h : ValidDocument compile dataweave members) (prompt : Script) :
    rawOf compile prompt (.obj ((gclProperties dataweave).fill members)) =
      { rawOf compile prompt (.obj members) with
        metadataSelector :=
          selector compile (.obj ((gclProperties dataweave).fill members))
            "metadataSelector" } := by
  have hnodup := nodup_gcl dataweave
  have hcache := map_group_fill "cacheConfig" (fun _ => cacheOf_fill) h rfl
  have hexplicit := map_group_fill "explicitConfig" (fun _ => explicitOf_fill) h rfl
  have hmapping := map_group_fill "mappingConfig" (fun _ => mappingOf_fill) h rfl
  have hfields := map_group_fill "fieldsConfig" (fun _ => fieldsOf_fill) h rfl
  have ha2a := map_group_fill "a2aConfiguration" (fun _ => a2aOf_fill) h rfl
  simp only [rawOf, defaultUpstreamBinding, defaultContinuationMode,
    defaultResponseType, defaultRequestErrorStatus,
    text_fill_getD members "upstreamBinding" hnodup rfl,
    text_fill_getD members "continuationMode" hnodup rfl,
    text_fill_getD members "responseType" hnodup rfl,
    number_fill members "requestErrorStatus" hnodup (by decide) rfl,
    hcache, hexplicit, hmapping, hfields, ha2a]

theorem fromGenerated_metadata (raw : Config) (selector : Option Script) :
    PolicyConfig.fromGenerated { raw with metadataSelector := selector } =
      (PolicyConfig.fromGenerated raw).map fun config =>
        { config with metadataSelector := selector } := by
  rw [PolicyConfig.fromGenerated, PolicyConfig.fromGenerated]
  cases UpstreamBinding.fromStr raw.upstreamBinding with
  | error err => rfl
  | ok binding =>
      cases ContinuationMode.fromStr raw.continuationMode with
      | error err => rfl
      | ok mode =>
          cases ResponseType.fromStr raw.responseType with
          | error err => rfl
          | ok type => rfl

/-- The document filled in is valid. -/
theorem validDocument_fill (hnull : isExpression compile (dataweave "#[null]"))
    (h : (gclSchema dataweave).valid (isExpression compile) (.obj members) = true) :
    ValidDocument compile dataweave ((gclProperties dataweave).fill members) := by
  have hfilled := Schema.valid_fill (wellFormed_gcl hnull) h
  obtain ⟨filled, heq, hvalid⟩ := valid_object hfilled
  cases heq
  exact hvalid

theorem settings_fill (h : ValidDocument compile dataweave members)
    (hfilled : ValidDocument compile dataweave ((gclProperties dataweave).fill members))
    (prompt : Script) :
    settings compile prompt (.obj ((gclProperties dataweave).fill members)) =
      { settings compile prompt (.obj members) with
        metadataSelector :=
          selector compile (.obj ((gclProperties dataweave).fill members))
            "metadataSelector" } := by
  have hconfig := fromGenerated_of_valid hfilled prompt
  rw [rawOf_fill h, fromGenerated_metadata, fromGenerated_of_valid h] at hconfig
  exact (Except.ok.inj hconfig).symm

/-! ## The filters -/

variable {τ : Type} {rt : Runtime}

/-- The metadata selector matters by the metadata that is sent. -/
theorem code_metadata {config : PolicyConfig} {script : Option Script}
    (h : ∀ attributes payload,
      metadataMember ((evalScript script attributes payload).map (valueToJson rt)) =
        metadataMember ((evalScript config.metadataSelector attributes payload).map
          (valueToJson rt))) (c : TurnCall) :
    (TurnCall.code rt { config with metadataSelector := script } c :
      Storage τ TurnReply) = TurnCall.code rt config c := by
  cases c with
  | response origin ctx res clock => rfl
  | request req clock =>
      have hsend : ∀ prompt continuation,
          sendMessage rt { config with metadataSelector := script } req prompt
              continuation = sendMessage rt config req prompt continuation := by
        intro prompt continuation
        simp only [sendMessage, buildSendMessage, messageMember, h]
      have hforward : ∀ prompt,
          forward rt { config with metadataSelector := script } req prompt =
            forward rt config req prompt := by
        intro prompt
        funext rc
        simp only [forward, hsend]
        rfl
      have hprompt : promptOf { config with metadataSelector := script } req =
          promptOf config req := rfl
      simp only [TurnCall.code, requestFilter, hprompt, hforward]
      rfl

/-- **Filling in the defaults of the schema changes nothing.**  A valid document,
its objects closed and its integers written without a fraction, and the same
document with every default of `gcl.yaml` filled in both start the policy, on the
same backend, and every filter is the same program: the defaults of the struct are
those of the schema, and the one default it does not share, a metadata selector
that yields null, sends no metadata either. -/
theorem defaults_in_sync {readDocument : Bytes → Option Json} {bytes bytes' : Bytes}
    {doc : Json} {null : Script} (hread : readDocument bytes = some doc)
    (hread' : readDocument bytes' = some ((gclSchema dataweave).fill doc))
    (hvalid : (gclSchema dataweave).valid (isExpression compile) doc = true)
    (hexpr : isExpression compile (dataweave "#[null]"))
    (hcompile : compile (dataweave "#[null]") = some null)
    (heval : ∀ attributes payload, null.eval attributes payload = .ok .null)
    (hnull : rt.intoJson .null = .null) :
    ∃ l l', configure readDocument compile bytes = .ok l ∧
      configure readDocument compile bytes' = .ok l' ∧ l'.storage = l.storage ∧
      ∀ c, (l'.code rt c : Storage τ TurnReply) = l.code rt c := by
  obtain ⟨members, rfl, h⟩ := valid_object hvalid
  have hfilled := validDocument_fill hexpr hvalid
  obtain ⟨l, prompt, hl, hselector, hsettings⟩ := configure_of_valid hread h
  obtain ⟨l', prompt', hl', hselector', hsettings'⟩ := configure_of_valid hread' hfilled
  have hsame : prompt' = prompt := by
    obtain ⟨v, hv⟩ := Option.isSome_iff_exists.mp (h.required "promptSelector" (by simp))
    simp only [selector, Json.get?_obj,
      lookup_fill "promptSelector" (nodup_gcl dataweave) rfl, hv] at hselector hselector'
    exact Option.some.inj (hselector'.symm.trans hselector)
  rw [hsame, settings_fill h hfilled, ← hsettings] at hsettings'
  have hmetadata : ∀ attributes payload,
      metadataMember ((evalScript (selector compile
          (.obj ((gclProperties dataweave).fill members)) "metadataSelector")
            attributes payload).map (valueToJson rt)) =
        metadataMember ((evalScript l.config.metadataSelector attributes payload).map
          (valueToJson rt)) := by
    intro attributes payload
    rw [hsettings]
    simp only [settings, selector, Json.get?_obj,
      lookup_fill "metadataSelector" (nodup_gcl dataweave) rfl]
    cases members.lookup "metadataSelector" with
    | none =>
        simp only [Option.map_none, Option.none_or, Option.bind_some, hcompile,
          Option.bind_none, evalScript, heval, Except.toOption, Option.map_some,
          valueToJson, hnull]
        rfl
    | some v => rfl
  have hcode : ∀ (l : Launched) c,
      (l.code rt c : Storage τ TurnReply) = TurnCall.code rt l.config c :=
    fun l c => congrFun (congrArg Server.code (l.server_eq rt fun _ => false)) c
  refine ⟨l, l', hl, hl', ?_, fun c => ?_⟩
  · rw [l'.storage_eq, l.storage_eq, hsettings']
    rfl
  · rw [hcode, hcode, hsettings']
    exact code_metadata hmetadata c

/-- Reads the document with its defaults, unless there is no text. -/
def readSample (bytes : Bytes) : Option Json :=
  if bytes.isEmpty then some cacheDocument
  else some ((gclSchema .str).fill cacheDocument)

theorem defaults_in_sync_cacheDocument :
    ∃ l l', configure readSample compileText [] = .ok l ∧
      configure readSample compileText [0] = .ok l' ∧ l'.storage = l.storage := by
  have hvalid : (gclSchema .str).valid (isExpression compileText) cacheDocument =
      true := by decide
  have hread : readSample [] = some cacheDocument := rfl
  have hread' : readSample [0] = some ((gclSchema .str).fill cacheDocument) := rfl
  have hnull : sampleRuntime.intoJson .null = .null := rfl
  obtain ⟨l, l', hl, hl', hstorage, _⟩ := defaults_in_sync (τ := Nat) hread hread'
    hvalid rfl rfl (fun _ _ => rfl) hnull
  exact ⟨l, l', hl, hl', hstorage⟩

end RestToA2a.Policy.SchemaDefaults
