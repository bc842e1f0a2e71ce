import RestToA2a.Policy.ConfigMap

/-!
# Groups left out and groups left empty

A group that the operator leaves out is flattened from its derived default, one
that is there and empty from the defaults of its fields.  The two agree but for
the lifetime of a conversation: its field has the default of an hour, the
derived default is zero, which is clamped to a minute.
-/

namespace RestToA2a.Policy.Defaults

open RestToA2a.Policy.Serde
open RestToA2a.Policy.Gateway
open RestToA2a.Policy.Binding
open RestToA2a.Policy.Deserialize
open RestToA2a.Policy.Generated
open RestToA2a.Policy.ConfigMap

variable (compile : Json → Option Script)

/-- The groups an operator may leave out. -/
inductive Group where
  | cache
  | explicit
  | mapping
  | fields
deriving DecidableEq

/-- Put what `{}` deserializes to in the place of each absent group of a set. -/
def fillAbsent (groups : Group → Bool) (config : Config) : Config :=
  { config with
    cacheConfig :=
      if groups .cache then
        config.cacheConfig.or (CacheConfig.deserialize compile (.obj []))
      else config.cacheConfig
    explicitConfig :=
      if groups .explicit then
        config.explicitConfig.or (ExplicitConfig.deserialize compile (.obj []))
      else config.explicitConfig
    mappingConfig :=
      if groups .mapping then
        config.mappingConfig.or (MappingConfig.deserialize compile (.obj []))
      else config.mappingConfig
    fieldsConfig :=
      if groups .fields then
        config.fieldsConfig.or (FieldsConfig.deserialize (.obj []))
      else config.fieldsConfig }

/-! ## Empty groups -/

theorem cacheConfig_empty : CacheConfig.deserialize compile (.obj []) =
    some { CacheConfig.derivedDefault with
      conversationTtlSeconds := defaultConversationTtlSeconds } := rfl

theorem explicitConfig_empty :
    ExplicitConfig.deserialize compile (.obj []) = some .derivedDefault := rfl

theorem mappingConfig_empty :
    MappingConfig.deserialize compile (.obj []) = some .derivedDefault := rfl

theorem fieldsConfig_empty :
    FieldsConfig.deserialize (.obj []) = some .derivedDefault := rfl

/-- Where the two defaults are one, it makes no difference which is taken. -/
theorem getD_fill {α : Type} (fill : Bool) (group : Option α) (default : α) :
    (if fill then group.or (some default) else group).getD default =
      group.getD default := by
  cases fill with
  | false => rfl
  | true => cases group <;> rfl

/-! ## The three names -/

/-- The names of a configuration are known ones. -/
def Accepted (config : Config) : Prop :=
  ∃ binding continuationMode responseType,
    UpstreamBinding.fromStr config.upstreamBinding = .ok binding ∧
    ContinuationMode.fromStr config.continuationMode = .ok continuationMode ∧
    ResponseType.fromStr config.responseType = .ok responseType

theorem fromGenerated_of_names {config : Config} {binding : UpstreamBinding}
    {continuationMode : ContinuationMode} {responseType : ResponseType}
    (hb : UpstreamBinding.fromStr config.upstreamBinding = .ok binding)
    (hm : ContinuationMode.fromStr config.continuationMode = .ok continuationMode)
    (ht : ResponseType.fromStr config.responseType = .ok responseType) :
    PolicyConfig.fromGenerated config =
      .ok (.flatten binding continuationMode responseType config) := by
  rw [PolicyConfig.fromGenerated, hb, hm, ht]
  rfl

/-- A configuration that is taken has known names. -/
theorem names_of_fromGenerated {config : Config} {policy : PolicyConfig}
    (h : PolicyConfig.fromGenerated config = .ok policy) :
    ∃ binding continuationMode responseType,
      UpstreamBinding.fromStr config.upstreamBinding = .ok binding ∧
      ContinuationMode.fromStr config.continuationMode = .ok continuationMode ∧
      ResponseType.fromStr config.responseType = .ok responseType ∧
      PolicyConfig.flatten binding continuationMode responseType config = policy := by
  rcases PolicyConfig.fromGenerated_cases config with
    ⟨_, _, heq⟩ | ⟨_, _, heq⟩ | ⟨_, _, heq⟩ | ⟨_, _, _, hb, hm, ht, heq⟩
  · rw [heq] at h; cases h
  · rw [heq] at h; cases h
  · rw [heq] at h; cases h
  · rw [heq] at h
    exact ⟨_, _, _, hb, hm, ht, Except.ok.inj h⟩

/-- A configuration with an unknown name is refused for the name, whatever its
groups are. -/
theorem fromGenerated_of_not_accepted {config : Config} (h : ¬ Accepted config)
    (groups : Group → Bool) :
    PolicyConfig.fromGenerated (fillAbsent compile groups config) =
      PolicyConfig.fromGenerated config := by
  simp only [PolicyConfig.fromGenerated, fillAbsent]
  cases hb : UpstreamBinding.fromStr config.upstreamBinding with
  | error err => simp [Except.mapError, bind, Except.bind]
  | ok binding =>
      cases hm : ContinuationMode.fromStr config.continuationMode with
      | error err => simp [Except.mapError, bind, Except.bind]
      | ok continuationMode =>
          cases ht : ResponseType.fromStr config.responseType with
          | error err => simp [Except.mapError, bind, Except.bind]
          | ok responseType => exact absurd ⟨_, _, _, hb, hm, ht⟩ h

/-! ## What filling in changes -/

/-- Filling in empty groups can only change the lifetime of a conversation, and
does so if the cache group was absent. -/
theorem flatten_fillAbsent (groups : Group → Bool) (config : Config)
    (binding : UpstreamBinding) (continuationMode : ContinuationMode)
    (responseType : ResponseType) :
    PolicyConfig.flatten binding continuationMode responseType
        (fillAbsent compile groups config) =
      { PolicyConfig.flatten binding continuationMode responseType config with
        conversationTtlSeconds :=
          if groups .cache = true ∧ config.cacheConfig.isNone then 3600
          else (PolicyConfig.flatten binding continuationMode responseType
            config).conversationTtlSeconds } := by
  simp only [PolicyConfig.flatten, fillAbsent, explicitConfig_empty,
    mappingConfig_empty, fieldsConfig_empty, getD_fill, cacheConfig_empty]
  have hhour : UInt32.ofInt (clamp 60 86400 defaultConversationTtlSeconds) = 3600 := by
    decide
  cases groups .cache with
  | false => simp
  | true =>
      cases config.cacheConfig with
      | some cache => simp
      | none => simp [hhour]

theorem fromGenerated_fillAbsent_of_names {config : Config}
    {binding : UpstreamBinding} {continuationMode : ContinuationMode}
    {responseType : ResponseType}
    (hb : UpstreamBinding.fromStr config.upstreamBinding = .ok binding)
    (hm : ContinuationMode.fromStr config.continuationMode = .ok continuationMode)
    (ht : ResponseType.fromStr config.responseType = .ok responseType)
    (groups : Group → Bool) :
    PolicyConfig.fromGenerated (fillAbsent compile groups config) =
      .ok { PolicyConfig.flatten binding continuationMode responseType config with
        conversationTtlSeconds :=
          if groups .cache = true ∧ config.cacheConfig.isNone then 3600
          else (PolicyConfig.flatten binding continuationMode responseType
            config).conversationTtlSeconds } := by
  rw [← flatten_fillAbsent compile]
  exact fromGenerated_of_names hb hm ht

theorem conversationTtlSeconds_of_absent {config : Config}
    (h : config.cacheConfig = none) (binding : UpstreamBinding)
    (continuationMode : ContinuationMode) (responseType : ResponseType) :
    (PolicyConfig.flatten binding continuationMode responseType
      config).conversationTtlSeconds = 60 := by
  have hminute : UInt32.ofInt (clamp 60 86400 0) = 60 := by decide
  simp only [PolicyConfig.flatten, h, Option.getD_none, CacheConfig.derivedDefault,
    hminute]

/-- **An absent group is taken as an empty one exactly if it is not the cache
group, or the configuration is refused anyway.**  For any configuration and any
groups that are filled in, the result is the same if and only if the cache group
is not filled in, or was there, or one of the names is unknown. -/
theorem fromGenerated_fillAbsent_iff (groups : Group → Bool) (config : Config) :
    PolicyConfig.fromGenerated (fillAbsent compile groups config) =
        PolicyConfig.fromGenerated config ↔
      groups .cache = false ∨ config.cacheConfig.isSome ∨ ¬ Accepted config := by
  by_cases hnames : Accepted config
  · obtain ⟨binding, continuationMode, responseType, hb, hm, ht⟩ := id hnames
    rw [fromGenerated_of_names hb hm ht,
      fromGenerated_fillAbsent_of_names compile hb hm ht]
    cases hfill : groups .cache with
    | false => simp
    | true =>
        cases hcache : config.cacheConfig with
        | some cache => simp
        | none =>
            have httl := conversationTtlSeconds_of_absent hcache binding
              continuationMode responseType
            simp only [Option.isNone_none, and_self, if_true, Option.isSome_none,
              Bool.false_eq_true, Bool.true_eq_false, false_or, not_true, hnames,
              iff_false]
            intro heq
            have hsame := congrArg PolicyConfig.conversationTtlSeconds
              (Except.ok.inj heq)
            rw [httl] at hsame
            have hne : (3600 : UInt32) ≠ 60 := by decide
            exact hne hsame
  · exact iff_of_true (fromGenerated_of_not_accepted compile hnames groups)
      (Or.inr (Or.inr hnames))

/-- Cache mode, every group left out. -/
def ungrouped : Config where
  upstreamBinding := "jsonrpc"
  promptSelector := ⟨fun _ _ => .ok (.string "hello")⟩
  continuationMode := "cache"
  cacheConfig := none
  explicitConfig := none
  responseType := "raw"
  mappingConfig := none
  fieldsConfig := none
  a2aConfiguration := none
  metadataSelector := none
  requestErrorStatus := 400

/-- Writing `{}` for the groups that were left out turns a minute into an
hour. -/
theorem ungrouped_filled_differs :
    PolicyConfig.fromGenerated (fillAbsent (fun _ => none) (fun _ => true) ungrouped)
        ≠ PolicyConfig.fromGenerated ungrouped ∧
      (PolicyConfig.fromGenerated ungrouped).map (·.conversationTtlSeconds) =
        .ok 60 ∧
      (PolicyConfig.fromGenerated (fillAbsent (fun _ => none) (fun _ => true)
        ungrouped)).map (·.conversationTtlSeconds) = .ok 3600 := by
  have habsent : (PolicyConfig.fromGenerated ungrouped).map
      (·.conversationTtlSeconds) = .ok 60 := by decide
  have hfilled : (PolicyConfig.fromGenerated (fillAbsent (fun _ => none)
      (fun _ => true) ungrouped)).map (·.conversationTtlSeconds) = .ok 3600 := by
    decide
  refine ⟨fun heq => ?_, habsent, hfilled⟩
  rw [heq, habsent] at hfilled
  exact absurd hfilled (by decide)

/-! ## In the document -/

/-- The names a group has in a document. -/
def Group.names : Group → List String
  | .cache => ["cache_config", "cacheConfig"]
  | .explicit => ["explicit_config", "explicitConfig"]
  | .mapping => ["mapping_config", "mappingConfig"]
  | .fields => ["fields_config", "fieldsConfig"]

/-- The name of a group in the schema. -/
def Group.key : Group → String
  | .cache => "cacheConfig"
  | .explicit => "explicitConfig"
  | .mapping => "mappingConfig"
  | .fields => "fieldsConfig"

/-- A document leaves a group out, or has null for it. -/
def Vacant (group : Group) (members : Map) : Prop :=
  valuesOf group.names members = [] ∨ valuesOf group.names members = [.null]

/-- The document with an empty group. -/
def emptied (group : Group) (members : Map) : Map :=
  (members.filter fun e => e.1 ∉ group.names) ++ [(group.key, .obj [])]

theorem key_mem_names (group : Group) : group.key ∈ group.names := by
  cases group <;> decide

theorem valuesOf_emptied_self (group : Group) (members : Map) :
    valuesOf group.names (emptied group members) = [.obj []] := by
  have hnone : valuesOf group.names (members.filter fun e => e.1 ∉ group.names) =
      [] := by
    simp [valuesOf, List.filter_filter]
  simp only [valuesOf, emptied, List.filter_append, List.map_append] at hnone ⊢
  rw [hnone]
  simp [key_mem_names]

theorem valuesOf_emptied_of_disjoint {group : Group} {names : List String}
    (h : ∀ name ∈ names, name ∉ group.names) (members : Map) :
    valuesOf names (emptied group members) = valuesOf names members := by
  have hkey : group.key ∉ names := fun hmem => h _ hmem (key_mem_names group)
  have hfilter : ∀ e : String × Json,
      (decide (e.1 ∈ names) && decide (e.1 ∉ group.names)) = decide (e.1 ∈ names) := by
    intro e
    by_cases hmem : e.1 ∈ names
    · simp [hmem, h _ hmem]
    · simp [hmem]
  simp only [valuesOf, emptied, List.filter_append, List.filter_filter, hfilter]
  simp [hkey]

theorem names_disjoint {group other : Group} (h : other ≠ group) :
    ∀ name ∈ other.names, name ∉ group.names := by
  cases group <;> cases other <;> first | exact absurd rfl h | decide

/-- The names of all groups. -/
def groupNames : List String :=
  [Group.cache, .explicit, .mapping, .fields].flatMap Group.names

theorem mem_groupNames (group : Group) : ∀ name ∈ group.names, name ∈ groupNames := by
  cases group <;> decide

/-- Emptying a group leaves the fields that are no groups alone. -/
theorem field_emptied {names : List String} (h : ∀ name ∈ names, name ∉ groupNames)
    (group : Group) (members : Map) (position : Nat) :
    field names position (.obj (emptied group members)) =
      field names position (.obj members) := by
  have hdisjoint : ∀ name ∈ names, name ∉ group.names :=
    fun name hname hgroup => h name hname (mem_groupNames group name hgroup)
  simp only [field, valuesOf_emptied_of_disjoint hdisjoint]

theorem readGroup_vacant {α : Type} {group : Group} {members : Map}
    (h : Vacant group members) (read : Json → Option α) (position : Nat) :
    withDefault none (option read) (field group.names position (.obj members)) =
      some none := by
  rcases h with h | h <;> simp [field, h, withDefault, option]

/-- A group is read from an emptied document as it was before, or filled in. -/
theorem readGroup_emptied {α : Type} {group : Group} {members : Map}
    (h : Vacant group members) {read : Json → Option α} {empty : α}
    (hempty : read (.obj []) = some empty) (other : Group) (position : Nat) :
    withDefault none (option read)
        (field other.names position (.obj (emptied group members))) =
      (withDefault none (option read)
        (field other.names position (.obj members))).map fun found =>
          if other == group then found.or (some empty) else found := by
  by_cases hother : other = group
  · subst hother
    rw [readGroup_vacant h]
    simp [field, valuesOf_emptied_self, withDefault, option, hempty]
  · have hbeq : (other == group) = false := by simpa using hother
    have hvalues := valuesOf_emptied_of_disjoint (names_disjoint hother) members
    simp only [field, hvalues, hbeq, Bool.false_eq_true, if_false, Option.map_id']

/-- **Writing `{}` for a vacant group of a document is filling the group in.** -/
theorem deserialize_emptied {group : Group} {members : Map}
    (h : Vacant group members) :
    Config.deserialize compile (.obj (emptied group members)) =
      (Config.deserialize compile (.obj members)).map
        (fillAbsent compile (· == group)) := by
  have hcache := readGroup_emptied h (cacheConfig_empty compile) .cache 3
  have hexplicit := readGroup_emptied h (explicitConfig_empty compile) .explicit 4
  have hmapping := readGroup_emptied h (mappingConfig_empty compile) .mapping 6
  have hfields := readGroup_emptied h fieldsConfig_empty .fields 7
  simp only [Group.names] at hcache hexplicit hmapping hfields
  simp only [Config.deserialize, hcache, hexplicit, hmapping, hfields]
  simp (disch := decide) only [field_emptied]
  -- both sides read the same values, one field after the other
  refine bind_eq_map_bind fun _ => ?_
  iterate 3 refine bind_eq_map_bind fun _ => ?_
  iterate 2 refine map_bind_eq_map_bind fun _ => ?_
  refine bind_eq_map_bind fun _ => ?_
  iterate 2 refine map_bind_eq_map_bind fun _ => ?_
  iterate 3 refine bind_eq_map_bind fun _ => ?_
  rfl

/-- What a document is configured to, or the error it is refused with. -/
def load (v : Json) : Option (Except ConfigError PolicyConfig) :=
  (Config.deserialize compile v).map PolicyConfig.fromGenerated

/-- Outside the cache group it makes no difference whether a group is left out,
null or empty. -/
theorem load_emptied {group : Group} {members : Map} (h : Vacant group members)
    (hgroup : group ≠ .cache) :
    load compile (.obj (emptied group members)) = load compile (.obj members) := by
  have hsame : ∀ config : Config,
      PolicyConfig.fromGenerated (fillAbsent compile (· == group) config) =
        PolicyConfig.fromGenerated config := by
    intro config
    have hother : (Group.cache == group) = false := by simpa using hgroup.symm
    by_cases hnames : Accepted config
    · obtain ⟨binding, continuationMode, responseType, hb, hm, ht⟩ := hnames
      rw [fromGenerated_of_names hb hm ht,
        fromGenerated_fillAbsent_of_names compile hb hm ht]
      simp [hother]
    · exact fromGenerated_of_not_accepted compile hnames _
  rw [load, load, deserialize_emptied compile h, Option.map_map]
  exact congrArg (Option.map · _) (funext hsame)

theorem cacheConfig_of_vacant {members : Map} {config : Config}
    (hvacant : Vacant .cache members)
    (h : Config.deserialize compile (.obj members) = some config) :
    config.cacheConfig = none := by
  have hread := readGroup_vacant hvacant (CacheConfig.deserialize compile) 3
  -- the group is the fourth of eleven fields
  iterate 3 obtain ⟨_, _, h⟩ := Option.bind_eq_some_iff.mp h
  obtain ⟨cacheConfig, hcache, h⟩ := Option.bind_eq_some_iff.mp h
  iterate 7 obtain ⟨_, _, h⟩ := Option.bind_eq_some_iff.mp h
  cases h
  exact Option.some.inj (hcache.symm.trans hread)

/-- **A document that leaves the cache group out is configured to keep a
conversation for a minute, and for an hour once `{}` is written for it.** -/
theorem load_of_vacant_cache {members : Map} {policy : PolicyConfig}
    (hvacant : Vacant .cache members)
    (h : load compile (.obj members) = some (.ok policy)) :
    policy.conversationTtlSeconds = 60 ∧
      load compile (.obj (emptied .cache members)) =
        some (.ok { policy with conversationTtlSeconds := 3600 }) := by
  obtain ⟨config, hconfig, hpolicy⟩ := Option.map_eq_some_iff.mp h
  have habsent := cacheConfig_of_vacant compile hvacant hconfig
  obtain ⟨binding, continuationMode, responseType, hb, hm, ht, rfl⟩ :=
    names_of_fromGenerated hpolicy
  refine ⟨conversationTtlSeconds_of_absent habsent _ _ _, ?_⟩
  rw [load, deserialize_emptied compile hvacant, hconfig, Option.map_some,
    Option.map_some, fromGenerated_fillAbsent_of_names compile hb hm ht]
  simp [habsent]

/-- The configuration of a document with nothing but a prompt selector. -/
def promptOnly (prompt : Script) : Config where
  upstreamBinding := defaultUpstreamBinding
  promptSelector := prompt
  continuationMode := defaultContinuationMode
  cacheConfig := none
  explicitConfig := none
  responseType := defaultResponseType
  mappingConfig := none
  fieldsConfig := none
  a2aConfiguration := none
  metadataSelector := none
  requestErrorStatus := defaultRequestErrorStatus

/-- Its policy: the documented default of every setting, the lifetime apart. -/
def defaultPolicy (prompt : Script) : PolicyConfig where
  binding := .jsonRpc
  continuationMode := .none
  promptSelector := prompt
  contextKeySelector := none
  taskIdSelector := none
  contextIdSelector := none
  responseType := .raw
  responseMapping := none
  responseFields := []
  metadataSelector := none
  sendConfiguration := none
  distributed := false
  conversationTtlSeconds := 60
  requestErrorStatus := 400

theorem deserialize_prompt_only {selector : Json} {prompt : Script}
    (h : compile selector = some prompt) :
    Config.deserialize compile (.obj [("promptSelector", selector)]) =
      some (promptOnly prompt) := by
  simp [Config.deserialize, fits, field, valuesOf, withDefault, required, omittable,
    deSelector, h, promptOnly]

/-- **Every default passes its check.**  A document with nothing but a prompt
selector is taken. -/
theorem load_prompt_only {selector : Json} {prompt : Script}
    (h : compile selector = some prompt) :
    load compile (.obj [("promptSelector", selector)]) =
      some (.ok (defaultPolicy prompt)) := by
  have hb : UpstreamBinding.fromStr (promptOnly prompt).upstreamBinding =
      .ok .jsonRpc := by
    show UpstreamBinding.fromStr defaultUpstreamBinding = _
    decide
  have hm : ContinuationMode.fromStr (promptOnly prompt).continuationMode =
      .ok .none := by
    show ContinuationMode.fromStr defaultContinuationMode = _
    decide
  have ht : ResponseType.fromStr (promptOnly prompt).responseType = .ok .raw := by
    show ResponseType.fromStr defaultResponseType = _
    decide
  have hminute : UInt32.ofInt (clamp 60 86400 0) = 60 := by decide
  have hstatus : UInt32.ofInt (clamp 400 599 defaultRequestErrorStatus) = 400 := by
    decide
  rw [load, deserialize_prompt_only compile h, Option.map_some,
    fromGenerated_of_names hb hm ht]
  simp [PolicyConfig.flatten, promptOnly, defaultPolicy, CacheConfig.derivedDefault,
    ExplicitConfig.derivedDefault, MappingConfig.derivedDefault,
    FieldsConfig.derivedDefault, hminute, hstatus]

end RestToA2a.Policy.Defaults
