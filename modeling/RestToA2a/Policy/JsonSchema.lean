import RestToA2a.Policy.Deserialize

/-!
# Schemas of configuration documents

The part of the schema language that an extension definition uses: which values
a schema admits, and the document with the defaults of the schema filled in.  It
is read strictly.  An object is closed: it has no members but those its schema
names, each once.  An integer is written without a fraction.  What an expression
is, is left to whoever compiles it.
-/

namespace RestToA2a.Policy.JsonSchema

open RestToA2a.Policy.Serde
open RestToA2a.Policy.Deserialize

mutual

/-- A schema. -/
inductive Schema where
  | string (allowed : Option (List String))
  | expression
  | boolean
  | integer (minimum maximum : Int)
  | array (items : Schema)
  | object (properties : Properties) (required : List String)

/-- The properties of an object, each with the default it may have. -/
inductive Properties where
  | nil
  | cons (name : String) (schema : Schema) (default : Option Json)
      (rest : Properties)

end

/-- The names of the properties. -/
def Properties.names : Properties → List String
  | .nil => []
  | .cons name _ _ rest => name :: rest.names

/-- The names of the members. -/
def memberNames (members : Map) : List String := members.map Prod.fst

mutual

/-- The schema admits the value. -/
def Schema.valid (expression : Json → Bool) : Schema → Json → Bool
  | .string allowed, .str s => allowed.all fun names => decide (s ∈ names)
  | .expression, v => expression v
  | .boolean, .bool _ => true
  | .integer minimum maximum, .num (.int z) => decide (minimum ≤ z ∧ z ≤ maximum)
  | .array items, .arr elems => elems.all (items.valid expression)
  | .object properties required, .obj members =>
      decide (memberNames members).Nodup &&
        (memberNames members).all (fun name => decide (name ∈ properties.names)) &&
        required.all (fun name => (members.lookup name).isSome) &&
        properties.valid expression members
  | _, _ => false

/-- Each property admits the member of its name. -/
def Properties.valid (expression : Json → Bool) : Properties → Map → Bool
  | .nil, _ => true
  | .cons name schema _ rest, members =>
      (members.lookup name).all (schema.valid expression) &&
        rest.valid expression members

end

/-- Fill in one property: the member as it is filled in itself, or the default
for a member that is missing. -/
def fillProperty (name : String) (fill : Json → Json) (default : Option Json)
    (members : Map) : Map :=
  match members.lookup name with
  | some _ => members.map fun e => if e.1 = name then (name, fill e.2) else e
  | none => members ++ (default.map fun value => (name, value)).toList

mutual

/-- The value with the defaults of the schema filled in. -/
def Schema.fill : Schema → Json → Json
  | .array items, .arr elems => .arr (elems.map items.fill)
  | .object properties _, .obj members => .obj (properties.fill members)
  | _, v => v

/-- The members with the defaults of the properties filled in. -/
def Properties.fill : Properties → Map → Map
  | .nil, members => members
  | .cons name schema default rest, members =>
      rest.fill (fillProperty name schema.fill default members)

end

/-! ## What a valid object is -/

/-- The schema and the default of a property. -/
def Properties.find? (name : String) : Properties → Option (Schema × Option Json)
  | .nil => none
  | .cons name' schema default rest =>
      if name = name' then some (schema, default) else rest.find? name

/-- What the schema of an object says about its members. -/
structure ValidObject (expression : Json → Bool) (properties : Properties)
    (required : List String) (members : Map) : Prop where
  nodup : (memberNames members).Nodup
  closed : ∀ name ∈ memberNames members, name ∈ properties.names
  required : ∀ name ∈ required, (members.lookup name).isSome
  properties : properties.valid expression members = true

variable {expression : Json → Bool}

theorem valid_object {properties : Properties} {required : List String} {v : Json}
    (h : (Schema.object properties required).valid expression v = true) :
    ∃ members, v = .obj members ∧
      ValidObject expression properties required members := by
  cases v with
  | obj members =>
      simp only [Schema.valid, Bool.and_eq_true, decide_eq_true_eq,
        List.all_eq_true] at h
      obtain ⟨⟨⟨hnodup, hclosed⟩, hrequired⟩, hproperties⟩ := h
      exact ⟨members, rfl, hnodup, hclosed, hrequired, hproperties⟩
  | _ => simp [Schema.valid] at h

/-- A property admits its member. -/
theorem valid_of_find? {name : String} {schema : Schema} {default : Option Json}
    {members : Map} {v : Json} (hv : members.lookup name = some v) :
    ∀ (properties : Properties), properties.find? name = some (schema, default) →
      properties.valid expression members = true → schema.valid expression v = true
  | .nil, hfind, _ => nomatch hfind
  | .cons name' schema' default' rest, hfind, h => by
      simp only [Properties.valid, Bool.and_eq_true] at h
      simp only [Properties.find?] at hfind
      split at hfind
      · rename_i hname
        cases hfind
        have hmember := h.1
        rw [← hname, hv] at hmember
        exact hmember
      · exact valid_of_find? hv rest hfind h.2

/-! ## Members by name -/

theorem lookup_eq_none_iff {name : String} {members : Map} :
    members.lookup name = none ↔ name ∉ memberNames members := by
  rw [List.lookup_eq_none_iff, memberNames, List.mem_map]
  constructor
  · rintro h ⟨e, he, hname⟩
    simpa [hname] using h e he
  · intro h e he
    rw [bne_iff_ne]
    intro hname
    exact h ⟨e, he, hname.symm⟩

theorem lookup_isSome_iff {name : String} {members : Map} :
    (members.lookup name).isSome ↔ name ∈ memberNames members := by
  rw [← not_iff_not, Bool.not_eq_true, Option.isSome_eq_false_iff,
    Option.isNone_iff_eq_none, lookup_eq_none_iff]

/-- Of members with names of their own, those of one name are the one a lookup
finds. -/
theorem valuesOf_singleton {name : String} {members : Map}
    (h : (memberNames members).Nodup) :
    valuesOf [name] members = (members.lookup name).toList := by
  induction members with
  | nil => rfl
  | cons e rest ih =>
      obtain ⟨name', v⟩ := e
      have hrest : (memberNames rest).Nodup := (List.nodup_cons.mp h).2
      by_cases hname : name' = name
      · subst hname
        have hout : rest.lookup name' = none :=
          lookup_eq_none_iff.mpr (List.nodup_cons.mp h).1
        have hnone : valuesOf [name'] rest = [] := by rw [ih hrest, hout]; rfl
        simp only [valuesOf, List.mem_singleton] at hnone ⊢
        simp [hnone]
      · have hlookup : ((name', v) :: rest).lookup name = rest.lookup name := by
          rw [List.lookup_cons, beq_false_of_ne (Ne.symm hname)]
        rw [hlookup, ← ih hrest]
        simp [valuesOf, hname]

/-- A field is what its name in the schema finds, if it does not stand under its
other name. -/
theorem field_eq_lookup {names : List String} {name : String} {members : Map}
    (hnodup : (memberNames members).Nodup) (hname : name ∈ names)
    (hother : ∀ other ∈ names, other ≠ name → other ∉ memberNames members)
    (position : Nat) :
    field names position (.obj members) = some (members.lookup name) := by
  have hvalues : valuesOf names members = valuesOf [name] members := by
    unfold valuesOf
    congr 1
    refine List.filter_congr fun e he => ?_
    have hmem : e.1 ∈ memberNames members := List.mem_map_of_mem he
    have hiff : e.1 ∈ names ↔ e.1 = name := by
      constructor
      · intro h
        by_contra hne
        exact hother e.1 h hne hmem
      · intro h
        rw [h]
        exact hname
    simp [hiff]
  simp only [field, hvalues, valuesOf_singleton hnodup]
  cases members.lookup name <;> rfl

/-- Of the names of a field, this one is the name of its property, and the others
are no properties. -/
def Named (properties names : List String) (name : String) : Prop :=
  name ∈ names ∧ ∀ other ∈ names, other ≠ name → other ∉ properties

instance (properties names : List String) (name : String) :
    Decidable (Named properties names name) := by
  unfold Named
  infer_instance

/-- The field of a property is its member. -/
theorem ValidObject.field {properties : Properties} {required : List String}
    {members : Map} (h : ValidObject expression properties required members)
    {names : List String} {name : String} (hname : Named properties.names names name)
    (position : Nat) :
    field names position (.obj members) = some (members.lookup name) :=
  field_eq_lookup h.nodup hname.1
    (fun other ho hne hin => hname.2 other ho hne (h.closed other hin)) position

/-- The member of a property is admitted by its schema. -/
theorem ValidObject.admits {properties : Properties} {required : List String}
    {members : Map} (h : ValidObject expression properties required members)
    {name : String} {schema : Schema} {default : Option Json}
    (hfind : properties.find? name = some (schema, default)) :
    ∀ v, members.lookup name = some v → schema.valid expression v = true :=
  fun _ hv => valid_of_find? hv properties hfind h.properties

/-! ## Filling in -/

section FillProperty

variable {name : String} {fill : Json → Json} {default : Option Json} {members : Map}

theorem memberNames_fillProperty :
    memberNames (fillProperty name fill default members) =
      if name ∈ memberNames members then memberNames members
      else memberNames members ++ (default.map fun _ => name).toList := by
  unfold fillProperty
  cases hlookup : members.lookup name with
  | none =>
      have hout : name ∉ memberNames members := lookup_eq_none_iff.mp hlookup
      rw [if_neg hout]
      cases default <;> simp [memberNames]
  | some v =>
      have hin : name ∈ memberNames members := lookup_isSome_iff.mp (by rw [hlookup]; rfl)
      rw [if_pos hin]
      simp only [memberNames, List.map_map]
      refine List.map_congr_left fun e _ => ?_
      simp only [Function.comp_apply]
      split
      · rename_i hname
        exact hname.symm
      · rfl

theorem lookup_fillProperty_self :
    (fillProperty name fill default members).lookup name =
      ((members.lookup name).map fill).or default := by
  unfold fillProperty
  cases hlookup : members.lookup name with
  | none => cases default <;> simp [List.lookup_append, hlookup]
  | some v =>
      simp only [Option.map_some, Option.some_or]
      induction members with
      | nil => cases hlookup
      | cons e rest ih =>
          obtain ⟨name', w⟩ := e
          by_cases hname : name = name'
          · subst hname
            have hw : w = v := by simpa using hlookup
            simp [hw]
          · have hbeq : (name == name') = false := beq_false_of_ne hname
            rw [List.lookup_cons, hbeq] at hlookup
            rw [List.map_cons, if_neg (Ne.symm hname), List.lookup_cons, hbeq]
            exact ih hlookup

theorem lookup_fillProperty_ne {other : String} (h : other ≠ name) :
    (fillProperty name fill default members).lookup other = members.lookup other := by
  have hbeq : (other == name) = false := beq_false_of_ne h
  unfold fillProperty
  cases members.lookup name with
  | none => cases default <;> simp [List.lookup_append, List.lookup_cons, hbeq]
  | some v =>
      simp only
      induction members with
      | nil => rfl
      | cons e rest ih =>
          obtain ⟨name', w⟩ := e
          by_cases hname : name' = name
          · subst hname
            simp [List.lookup_cons, hbeq, ih]
          · simp [List.lookup_cons, hname, ih]

end FillProperty

theorem lookup_fill_of_not_mem {name : String} : ∀ {properties : Properties}
    {members : Map}, name ∉ properties.names →
      (properties.fill members).lookup name = members.lookup name
  | .nil, _, _ => rfl
  | .cons name' schema default rest, members, h => by
      simp only [Properties.names, List.mem_cons, not_or] at h
      rw [Properties.fill, lookup_fill_of_not_mem h.2, lookup_fillProperty_ne h.1]

/-- **A property of a filled-in object** is the member filled in itself, or the
default. -/
theorem lookup_fill (name : String) {schema : Schema} {default : Option Json} :
    ∀ {properties : Properties} {members : Map}, properties.names.Nodup →
      properties.find? name = some (schema, default) →
      (properties.fill members).lookup name =
        ((members.lookup name).map schema.fill).or default
  | .nil, _, _, hfind => nomatch hfind
  | .cons name' schema' default' rest, members, hnodup, hfind => by
      rw [Properties.names, List.nodup_cons] at hnodup
      simp only [Properties.find?] at hfind
      split at hfind
      · rename_i hname
        cases hfind
        rw [hname, Properties.fill, lookup_fill_of_not_mem hnodup.1,
          lookup_fillProperty_self]
      · rename_i hname
        rw [Properties.fill, lookup_fill name hnodup.2 hfind, lookup_fillProperty_ne hname]

theorem nodup_fill : ∀ {properties : Properties} {members : Map},
    (memberNames members).Nodup → (memberNames (properties.fill members)).Nodup
  | .nil, _, h => h
  | .cons name schema default rest, members, h => by
      rw [Properties.fill]
      refine nodup_fill ?_
      rw [memberNames_fillProperty]
      split
      · exact h
      · rename_i hout
        cases default with
        | none => simpa using h
        | some value =>
            simpa [List.nodup_append] using ⟨h, fun a ha hname => hout (hname ▸ ha)⟩

theorem memberNames_subset_fill : ∀ {properties : Properties} {members : Map},
    memberNames members ⊆ memberNames (properties.fill members)
  | .nil, _ => List.Subset.refl _
  | .cons name schema default rest, members => by
      rw [Properties.fill]
      refine List.Subset.trans ?_ memberNames_subset_fill
      rw [memberNames_fillProperty]
      split
      · exact List.Subset.refl _
      · exact List.subset_append_left _ _

theorem mem_memberNames_fill {name : String} : ∀ {properties : Properties}
    {members : Map}, name ∈ memberNames (properties.fill members) →
      name ∈ memberNames members ∨ name ∈ properties.names
  | .nil, _, h => Or.inl h
  | .cons name' schema default rest, members, h => by
      rw [Properties.fill] at h
      rcases mem_memberNames_fill h with hbefore | hrest
      · rw [memberNames_fillProperty] at hbefore
        split at hbefore
        · exact Or.inl hbefore
        · cases default with
          | none => exact Or.inl (by simpa using hbefore)
          | some value =>
              have hor : name ∈ memberNames members ∨ name = name' := by
                simpa using hbefore
              exact hor.imp id fun hname => by simp [Properties.names, hname]
      · exact Or.inr (List.mem_cons_of_mem _ hrest)

/-! ## Schemas whose defaults are valid -/

mutual

/-- No property stands twice, and each default that can be filled in is admitted
by its schema. -/
def Schema.wellFormed (expression : Json → Bool) : Schema → Bool
  | .array items => items.wellFormed expression
  | .object properties required =>
      decide properties.names.Nodup && properties.wellFormed expression required
  | _ => true

/-- The default of a required property is never filled in. -/
def Properties.wellFormed (expression : Json → Bool) (required : List String) :
    Properties → Bool
  | .nil => true
  | .cons name schema default rest =>
      schema.wellFormed expression &&
        (decide (name ∈ required) || default.all (schema.valid expression)) &&
        rest.wellFormed expression required

end

/-- Properties look at the members of their names only. -/
theorem valid_congr {members members' : Map} : ∀ {properties : Properties},
    (∀ name ∈ properties.names, members'.lookup name = members.lookup name) →
      properties.valid expression members' = properties.valid expression members
  | .nil, _ => rfl
  | .cons name schema default rest, h => by
      have hname := h name (by simp [Properties.names])
      have hrest : rest.valid expression members' = rest.valid expression members :=
        valid_congr fun other hother => h other (by simp [Properties.names, hother])
      rw [Properties.valid, Properties.valid, hname, hrest]

mutual

/-- **A valid value is valid when it is filled in.** -/
theorem Schema.valid_fill : ∀ {schema : Schema} {v : Json},
    schema.wellFormed expression = true → schema.valid expression v = true →
      schema.valid expression (schema.fill v) = true
  | .string _, _, _, h => h
  | .expression, _, _, h => h
  | .boolean, _, _, h => h
  | .integer _ _, _, _, h => h
  | .array items, v, hwf, h => by
      cases v with
      | arr elems =>
          simp only [Schema.valid, Schema.fill, List.all_eq_true, List.mem_map] at h ⊢
          rintro _ ⟨elem, helem, rfl⟩
          exact Schema.valid_fill hwf (h elem helem)
      | _ => simp [Schema.valid] at h
  | .object properties required, v, hwf, h => by
      simp only [Schema.wellFormed, Bool.and_eq_true, decide_eq_true_eq] at hwf
      obtain ⟨members, rfl, hobject⟩ := valid_object h
      simp only [Schema.fill, Schema.valid, Bool.and_eq_true, decide_eq_true_eq,
        List.all_eq_true]
      refine ⟨⟨⟨nodup_fill hobject.nodup, ?_⟩, ?_⟩, ?_⟩
      · intro name hname
        exact (mem_memberNames_fill hname).elim (hobject.closed name) id
      · intro name hname
        have hin := lookup_isSome_iff.mp (hobject.required name hname)
        exact lookup_isSome_iff.mpr (memberNames_subset_fill hin)
      · exact Properties.valid_fill hwf.1 hwf.2 hobject.required hobject.properties

theorem Properties.valid_fill : ∀ {properties : Properties} {required : List String}
    {members : Map}, properties.names.Nodup →
      properties.wellFormed expression required = true →
      (∀ name ∈ required, (members.lookup name).isSome) →
      properties.valid expression members = true →
      properties.valid expression (properties.fill members) = true
  | .nil, _, _, _, _, _, _ => rfl
  | .cons name schema default rest, required, members, hnodup, hwf, hrequired, h => by
      rw [Properties.names, List.nodup_cons] at hnodup
      simp only [Properties.wellFormed, Properties.valid, Bool.and_eq_true] at hwf h
      obtain ⟨⟨hschema, hdefault⟩, hrest⟩ := hwf
      have hkept : rest.valid expression (fillProperty name schema.fill default members)
          = rest.valid expression members :=
        valid_congr fun other hother =>
          lookup_fillProperty_ne fun heq => hnodup.1 (heq ▸ hother)
      have hthere : ∀ other ∈ required,
          ((fillProperty name schema.fill default members).lookup other).isSome := by
        intro other hother
        rw [lookup_isSome_iff, memberNames_fillProperty]
        have hin := lookup_isSome_iff.mp (hrequired other hother)
        split
        · exact hin
        · exact List.mem_append_left _ hin
      simp only [Properties.fill, Properties.valid, Bool.and_eq_true]
      refine ⟨?_, Properties.valid_fill hnodup.2 hrest hthere (hkept.trans h.2)⟩
      rw [lookup_fill_of_not_mem hnodup.1, lookup_fillProperty_self]
      cases hlookup : members.lookup name with
      | none =>
          have hout : name ∉ required := by
            intro hin
            have hsome := hrequired name hin
            rw [hlookup] at hsome
            cases hsome
          simpa [hout] using hdefault
      | some v =>
          have hv := h.1
          rw [hlookup] at hv
          exact Schema.valid_fill hschema hv

end

end RestToA2a.Policy.JsonSchema
