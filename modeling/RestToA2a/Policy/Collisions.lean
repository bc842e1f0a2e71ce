import Mathlib.Data.List.Induction
import RestToA2a.Policy.ResponseFields

/-!
# Which fields of a response are skipped

The loop over the fields as a run that keeps, beside the object, the fields
placed and the fields skipped.  A field is placed exactly if its place is free,
and a field that is skipped leaves the object as it was, whatever was created on
the way.

By the names alone a field collides with an earlier one that is on its way, at
its place or below it.  The loop sees it the same way, except that it takes an
object that is the value of an earlier field for one made for nesting: a later
field whose name goes on below finds room in it.
-/

namespace RestToA2a.Policy.Collisions

open RestToA2a.Verified
open RestToA2a.Policy.Serde
open RestToA2a.Policy.ResponseBuild
open RestToA2a.Policy.ResponseFields

/-! ## One placement -/

theorem free_cons {seg : String} {rest : List String} (hne : rest ≠ [])
    (members : Map) :
    Free (seg :: rest) members ↔
      ∃ sub, (members.lookup seg).getD (.obj []) = .obj sub ∧ Free rest sub := by
  cases rest with
  | nil => exact absurd rfl hne
  | cons next rest => rfl

/-- Anything can be placed in the empty object. -/
theorem free_empty {segs : List String} (hne : segs ≠ []) : Free segs [] := by
  induction segs with
  | nil => exact absurd rfl hne
  | cons seg rest ih =>
      cases rest with
      | nil => rfl
      | cons next rest => exact ⟨[], rfl, ih (by simp)⟩

/-- The flag of a placement says whether the place was free. -/
theorem placeAt_placed_iff (segs : List String) (value : Json) (members : Map) :
    (placeAt segs value members).2 = true ↔ Free segs members := by
  refine ⟨fun h => ?_, placeAt_placed value⟩
  induction segs generalizing members with
  | nil => cases h
  | cons seg rest ih =>
      cases rest with
      | nil =>
          simp only [placeAt] at h
          split at h
          · cases h
          · rename_i hNone
            exact Option.not_isSome_iff_eq_none.mp hNone
      | cons next rest =>
          simp only [placeAt] at h
          split at h
          · rename_i sub hsub
            exact ⟨sub, hsub, ih sub h⟩
          · cases h

/-- **A placement that fails changes nothing**: an object it would have had to
create is empty, and in an empty object nothing below is taken. -/
theorem placeAt_of_not_free {segs : List String} (value : Json) {members : Map}
    (ho : (Json.obj members).Ordered) (h : ¬ Free segs members) :
    (placeAt segs value members).1 = members := by
  induction segs generalizing members with
  | nil => rfl
  | cons seg rest ih =>
      obtain ⟨hs, hvalues⟩ : KeyedList.Sorted members ∧
          ∀ e ∈ members, e.2.Ordered := by
        cases ho with
        | obj hs h => exact ⟨hs, h⟩
      cases rest with
      | nil =>
          have htaken : members.lookup seg ≠ none := h
          simp only [placeAt]
          rw [if_pos (Option.isSome_iff_ne_none.mpr htaken)]
      | cons next rest =>
          simp only [placeAt]
          split
          · rename_i sub hsub
            have hsubFree : ¬ Free (next :: rest) sub := fun hf => h ⟨sub, hsub, hf⟩
            cases hl : members.lookup seg with
            | none =>
                rw [hl] at hsub
                cases hsub
                exact absurd (free_empty (by simp)) hsubFree
            | some v =>
                rw [hl] at hsub
                cases hsub
                have hsubOrdered := hvalues _ (KeyedList.mem_of_lookup hl)
                rw [ih hsubOrdered hsubFree]
                exact KeyedList.insert_of_lookup hs hl
          · rfl

theorem ordered_empty : (Json.obj []).Ordered :=
  .obj List.Pairwise.nil (by simp)

theorem ordered_insert {members : Map} (ho : (Json.obj members).Ordered)
    (seg : String) {value : Json} (hv : value.Ordered) :
    (Json.obj (KeyedList.insert seg value members)).Ordered := by
  cases ho with
  | obj hs hvalues =>
      refine .obj (KeyedList.sorted_insert hs seg value) fun e he => ?_
      rcases KeyedList.mem_of_mem_insert he with rfl | hold
      · exact hv
      · exact hvalues e hold

/-- Placing keeps the members in order. -/
theorem ordered_placeAt (segs : List String) {value : Json} (hv : value.Ordered)
    {members : Map} (ho : (Json.obj members).Ordered) :
    (Json.obj (placeAt segs value members).1).Ordered := by
  induction segs generalizing members with
  | nil => exact ho
  | cons seg rest ih =>
      cases rest with
      | nil =>
          simp only [placeAt]
          split
          · exact ho
          · exact ordered_insert ho seg hv
      | cons next rest =>
          simp only [placeAt]
          split
          · rename_i sub hsub
            have hsubOrdered : (Json.obj sub).Ordered := by
              cases hl : members.lookup seg with
              | none =>
                  rw [hl] at hsub
                  cases hsub
                  exact ordered_empty
              | some v =>
                  rw [hl] at hsub
                  cases hsub
                  cases ho with
                  | obj _ hvalues => exact hvalues _ (KeyedList.mem_of_lookup hl)
            exact ordered_insert ho seg (ih hsubOrdered)
          · exact ho

/-! ## Room inside a value -/

/-- The value has room for a field at the segments below it: it is an object in
which their place is free. -/
def Fits (rest : List String) (value : Json) : Prop :=
  ∃ members, value = .obj members ∧ Free rest members

/-- Below a value that is already there, a place is free if the value has room
for it. -/
theorem free_append_iff {p rest : List String} (hne : rest ≠ []) {members : Map}
    {value : Json} (h : (Json.obj members).walk (keys p) = some value) :
    Free (p ++ rest) members ↔ Fits rest value := by
  induction p generalizing members with
  | nil =>
      simp only [keys, List.map_nil, Json.walk, Option.some.injEq] at h
      subst h
      simp [Fits]
  | cons seg p ih =>
      have hwalk : (members.lookup seg).bind (fun w => w.walk (keys p)) =
          some value := h
      obtain ⟨w, hl, hw⟩ := Option.bind_eq_some_iff.mp hwalk
      have hne' : p ++ rest ≠ [] := by simp [hne]
      rw [List.cons_append, free_cons hne', hl]
      cases w with
      | obj sub =>
          rw [← ih hw]
          simp
      | _ =>
          cases p with
          | nil =>
              simp only [keys, List.map_nil, Json.walk, Option.some.injEq] at hw
              subst hw
              simp [Fits]
          | cons s p => cases hw

/-- A free place reads as nothing. -/
theorem walk_of_free {segs : List String} {members : Map} (h : Free segs members) :
    (Json.obj members).walk (keys segs) = none := by
  induction segs generalizing members with
  | nil => cases h
  | cons seg rest ih =>
      cases rest with
      | nil =>
          simp only [Free] at h
          simp [keys, Json.walk, Json.step, h]
      | cons next rest =>
          obtain ⟨sub, hsub, hfree⟩ := h
          have hbelow := ih hfree
          cases hl : members.lookup seg with
          | none => simp [keys, Json.walk, Json.step, hl]
          | some w =>
              rw [hl] at hsub
              cases hsub
              simpa [keys, Json.walk, Json.step, hl] using hbelow

/-! ## The run over the fields -/

/-- A field is placed unless its name has an empty segment. -/
def placeField (members : Map) (field : BuiltField) : Map × Bool :=
  if (segments field.name).any (·.isEmpty) then (members, false)
  else placeAt (segments field.name) field.value members

/-- How far the loop has come. -/
structure Progress where
  object : Map := []
  placed : List BuiltField := []
  skipped : List BuiltField := []

/-- One round of the loop. -/
def Progress.step (p : Progress) (field : BuiltField) : Progress where
  object := (placeField p.object field).1
  placed := if (placeField p.object field).2 then p.placed ++ [field] else p.placed
  skipped := if (placeField p.object field).2 then p.skipped else p.skipped ++ [field]

/-- The loop after all the fields. -/
def progress (fields : List BuiltField) : Progress :=
  fields.foldl Progress.step {}

theorem progress_append (fields : List BuiltField) (field : BuiltField) :
    progress (fields ++ [field]) = (progress fields).step field := by
  simp [progress]

theorem assembleField_eq (members : Map) (collisions : List String)
    (field : BuiltField) :
    assembleField (members, collisions) field =
      ((placeField members field).1,
        if (placeField members field).2 then collisions
        else collisions ++ [field.name]) := by
  unfold assembleField placeField
  split <;> rfl

theorem foldl_assembleField (fields : List BuiltField) :
    fields.foldl assembleField ([], []) =
      ((progress fields).object, (progress fields).skipped.map (·.name)) := by
  induction fields using List.reverseRecOn with
  | nil => rfl
  | append_singleton fields field ih =>
      rw [List.foldl_append, List.foldl_cons, List.foldl_nil, ih, progress_append,
        assembleField_eq]
      cases hp : (placeField (progress fields).object field).2 <;>
        simp [Progress.step, hp]

/-- The run is the source's: its object is the one that is built, and the names
it skips are those that are reported, in order. -/
theorem assemble_eq_progress (fields : List BuiltField) :
    assemble fields =
      { object := .obj (progress fields).object
        collisions := (progress fields).skipped.map (·.name) } := by
  simp [assemble, foldl_assembleField]

/-- A field is placed exactly if its name is fit and its place is free. -/
theorem placeField_placed_iff (members : Map) (field : BuiltField) :
    (placeField members field).2 = true ↔
      Named field.name ∧ Free (segments field.name) members := by
  unfold placeField
  by_cases hNamed : Named field.name
  · simp [any_isEmpty_of_named hNamed, hNamed, placeAt_placed_iff]
  · have hany : (segments field.name).any (·.isEmpty) = true := by
      rw [List.any_eq_true]
      exact ⟨"", not_not.mp hNamed, rfl⟩
    simp [hany, hNamed]

/-- A field that is skipped leaves the object as it was. -/
theorem placeField_of_skipped {members : Map} (ho : (Json.obj members).Ordered)
    {field : BuiltField} (h : (placeField members field).2 = false) :
    (placeField members field).1 = members := by
  unfold placeField at h ⊢
  split at h
  · rename_i hany
    rw [if_pos hany]
  · rename_i hany
    rw [if_neg hany]
    refine placeAt_of_not_free field.value ho fun hfree => ?_
    rw [placeAt_placed field.value hfree] at h
    cases h

theorem ordered_placeField {members : Map} (ho : (Json.obj members).Ordered)
    {field : BuiltField} (hv : field.value.Ordered) :
    (Json.obj (placeField members field).1).Ordered := by
  unfold placeField
  split
  · exact ho
  · exact ordered_placeAt _ hv ho

theorem ordered_progress {fields : List BuiltField}
    (hord : ∀ f ∈ fields, f.value.Ordered) :
    (Json.obj (progress fields).object).Ordered := by
  induction fields using List.reverseRecOn with
  | nil => exact ordered_empty
  | append_singleton fields field ih =>
      rw [progress_append]
      exact ordered_placeField (ih fun f hf => hord f (by simp [hf]))
        (hord field (by simp))

/-- At every field of the list, with the fields before it. -/
def AtEach (P : List BuiltField → BuiltField → Prop) (fields : List BuiltField) :
    Prop :=
  ∀ before field after, fields = before ++ field :: after → P before field

theorem atEach_nil (P : List BuiltField → BuiltField → Prop) : AtEach P [] := by
  intro before field after h
  simp at h

theorem atEach_append {P : List BuiltField → BuiltField → Prop}
    {fields : List BuiltField} {field : BuiltField} :
    AtEach P (fields ++ [field]) ↔ AtEach P fields ∧ P fields field := by
  constructor
  · intro h
    refine ⟨fun before f after hsplit => ?_, h fields field [] rfl⟩
    exact h before f (after ++ [field]) (by simp [hsplit])
  · rintro ⟨hOld, hNew⟩ before f after hsplit
    rcases List.eq_nil_or_concat after with rfl | ⟨front, last, rfl⟩
    · obtain ⟨rfl, hlast⟩ := List.append_inj' hsplit rfl
      cases hlast
      exact hNew
    · rw [List.concat_eq_append, ← List.cons_append, ← List.append_assoc] at hsplit
      obtain ⟨rfl, _⟩ := List.append_inj' hsplit rfl
      exact hOld before f front rfl

/-! ## No trace of a skipped field -/

/-- The fields that were placed, run alone, build the same object and none of
them is skipped. -/
theorem progress_placed {fields : List BuiltField}
    (hord : ∀ f ∈ fields, f.value.Ordered) :
    progress (progress fields).placed =
      { object := (progress fields).object
        placed := (progress fields).placed
        skipped := [] } := by
  induction fields using List.reverseRecOn with
  | nil => rfl
  | append_singleton fields field ih =>
      have hbefore : ∀ f ∈ fields, f.value.Ordered := fun f hf => hord f (by simp [hf])
      have hprogress := ih hbefore
      rw [progress_append]
      cases hp : (placeField (progress fields).object field).2 with
      | true =>
          simp only [Progress.step, hp, if_true]
          rw [progress_append, hprogress]
          simp [Progress.step, hp]
      | false =>
          have hsame := placeField_of_skipped (ordered_progress hbefore) hp
          simp only [Progress.step, hp, Bool.false_eq_true, if_false, hsame]
          exact hprogress

/-- **A skipped field leaves no trace.**  The fields reported are those the run
skips.  At every point of the loop a field that is skipped leaves the object
exactly as it was; so the fields that were not reported build, by themselves, the
same object, and none of them collides. -/
theorem skipped_leaves_no_trace {fields : List BuiltField}
    (hord : ∀ f ∈ fields, f.value.Ordered) :
    (assemble fields).collisions = (progress fields).skipped.map (·.name) ∧
      AtEach (fun before field =>
        (placeField (progress before).object field).2 = false →
          (progress (before ++ [field])).object = (progress before).object) fields ∧
      assemble (progress fields).placed =
        { object := (assemble fields).object, collisions := [] } := by
  refine ⟨by rw [assemble_eq_progress], ?_, ?_⟩
  · intro before field after hsplit hskip
    have hbefore : ∀ f ∈ before, f.value.Ordered :=
      fun f hf => hord f (by simp [hsplit, hf])
    rw [progress_append]
    exact placeField_of_skipped (ordered_progress hbefore) hskip
  · rw [assemble_eq_progress, assemble_eq_progress, progress_placed hord]
    rfl

/-- A scalar, a field that would nest under it, and a field that nests
elsewhere. -/
def mixedFields : List BuiltField :=
  [⟨"a", .str "scalar"⟩, ⟨"a.b", .str "nested"⟩, ⟨"c.d", .null⟩]

theorem ordered_mixedFields : ∀ f ∈ mixedFields, f.value.Ordered := by
  intro f hf
  simp only [mixedFields, List.mem_cons, List.not_mem_nil, or_false] at hf
  rcases hf with rfl | rfl | rfl
  · exact .str _
  · exact .str _
  · exact .null

/-- Of these the second one is dropped without a trace. -/
theorem skipped_leaves_no_trace_mixed :
    (assemble [⟨"a", .str "scalar"⟩, ⟨"c.d", .null⟩]).object =
      (assemble mixedFields).object := by
  have hkept := (skipped_leaves_no_trace ordered_mixedFields).2.2
  have hplaced : (progress mixedFields).placed =
      [⟨"a", .str "scalar"⟩, ⟨"c.d", .null⟩] := by rfl
  rw [hplaced] at hkept
  rw [hkept]

/-! ## Earlier fields win -/

/-- A field keeps its place by the names alone if its name is fit and apart from
those of the fields kept before. -/
def keepField (kept : List BuiltField) (field : BuiltField) : List BuiltField :=
  if Named field.name ∧
      ∀ g ∈ kept, Apart (segments g.name) (segments field.name) then
    kept ++ [field]
  else kept

/-- The fields kept by their names. -/
def keptByName (fields : List BuiltField) : List BuiltField :=
  fields.foldl keepField []

theorem keptByName_append (fields : List BuiltField) (field : BuiltField) :
    keptByName (fields ++ [field]) = keepField (keptByName fields) field := by
  simp [keptByName]

/-- Earlier fields win: a field is skipped exactly if its name has an empty
segment or is equal to, on the way to or below the name of an earlier field that
was placed; the skipped fields are reported in order; and every placed field is
read back with its own value. -/
structure EarlierFieldsWin (fields : List BuiltField) : Prop where
  skipped : AtEach (fun before field =>
    (placeField (progress before).object field).2 = false ↔
      ¬ Named field.name ∨
        ∃ g ∈ (progress before).placed,
          ¬ Apart (segments g.name) (segments field.name)) fields
  reported : (assemble fields).collisions = (progress fields).skipped.map (·.name)
  verbatim : ∀ f ∈ (progress fields).placed,
    (assemble fields).object.walk (path f.name) = some f.value

/-- No field finds room in the value of an earlier one: where its name goes on
below that of a field kept by its name, the value of that field has no room for
the rest. -/
def NothingFits (fields : List BuiltField) : Prop :=
  AtEach (fun before field => Named field.name →
    ∀ g ∈ keptByName before, ∀ rest, rest ≠ [] →
      segments field.name = segments g.name ++ rest → ¬ Fits rest g.value) fields

/-- Lists are not apart when one goes on where the other ends. -/
theorem not_apart_append {α : Type} (a rest : List α) : ¬ Apart a (a ++ rest) :=
  fun h => h.1 (List.prefix_append a rest)

/-- With no room in the values placed so far, a place is free exactly if it is
apart from theirs. -/
theorem free_iff_apart {placed : List BuiltField} {members : Map}
    (hE : Exact (placed.map placement) members) {segs : List String}
    (hne : segs ≠ [])
    (hroom : ∀ g ∈ placed, ∀ rest, rest ≠ [] →
      segs = segments g.name ++ rest → ¬ Fits rest g.value) :
    Free segs members ↔ ∀ g ∈ placed, Apart (segments g.name) segs := by
  constructor
  · intro hfree g hg
    have hmem : placement g ∈ placed.map placement := List.mem_map_of_mem hg
    have hself := hE.below _ hmem []
    simp only [placement, List.append_nil, Json.walk] at hself
    constructor
    · rintro ⟨rest, rfl⟩
      by_cases hrest : rest = []
      · subst hrest
        rw [List.append_nil] at hfree
        rw [walk_of_free hfree] at hself
        cases hself
      · exact hroom g hg rest hrest rfl ((free_append_iff hrest hself).mp hfree)
    · intro hway
      by_cases heq : segs = segments g.name
      · rw [← heq, walk_of_free hfree] at hself
        cases hself
      · obtain ⟨sub, hsub⟩ := hE.towards _ hmem segs hway heq
        rw [walk_of_free hfree] at hsub
        cases hsub
  · intro hApart
    refine hE.free hne fun sv hsv => ?_
    obtain ⟨g, hg, rfl⟩ := List.mem_map.mp hsv
    exact hApart g hg

/-- The loop has kept to the names: it placed the fields kept by name, and the
object is exactly theirs. -/
structure KeepsToNames (fields : List BuiltField) : Prop where
  placed : (progress fields).placed = keptByName fields
  exact : Exact ((progress fields).placed.map placement) (progress fields).object

/-- Where the field finds no room, the loop decides by its name. -/
theorem KeepsToNames.placed_iff {fields : List BuiltField} (h : KeepsToNames fields)
    {field : BuiltField}
    (hroom : Named field.name → ∀ g ∈ keptByName fields, ∀ rest, rest ≠ [] →
      segments field.name = segments g.name ++ rest → ¬ Fits rest g.value) :
    (placeField (progress fields).object field).2 = true ↔
      Named field.name ∧
        ∀ g ∈ keptByName fields, Apart (segments g.name) (segments field.name) := by
  rw [placeField_placed_iff]
  refine and_congr_right fun hNamed => ?_
  rw [← h.placed] at hroom ⊢
  exact free_iff_apart h.exact (Text.split_ne_nil _ _) (hroom hNamed)

/-- **One round keeps to the names** where nothing fits. -/
theorem KeepsToNames.step {fields : List BuiltField} (h : KeepsToNames fields)
    (hord : ∀ f ∈ fields, f.value.Ordered) {field : BuiltField}
    (hroom : Named field.name → ∀ g ∈ keptByName fields, ∀ rest, rest ≠ [] →
      segments field.name = segments g.name ++ rest → ¬ Fits rest g.value) :
    KeepsToNames (fields ++ [field]) := by
  have hiff := h.placed_iff hroom
  cases hp : (placeField (progress fields).object field).2 with
  | true =>
      obtain ⟨hNamed, hApart⟩ := hiff.mp hp
      constructor
      · rw [progress_append, keptByName_append, keepField, if_pos ⟨hNamed, hApart⟩,
          ← h.placed]
        simp [Progress.step, hp]
      · rw [progress_append]
        have hApartPlaced : ∀ sv ∈ (progress fields).placed.map placement,
            Apart sv.1 (segments field.name) := by
          intro sv hsv
          obtain ⟨g, hg, rfl⟩ := List.mem_map.mp hsv
          exact hApart g (h.placed ▸ hg)
        have hplace := h.exact.place field.value (Text.split_ne_nil _ _) hApartPlaced
        have hobject : ((progress fields).step field).object =
            (placeAt (segments field.name) field.value (progress fields).object).1 := by
          simp [Progress.step, placeField, any_isEmpty_of_named hNamed]
        have hplaced : ((progress fields).step field).placed =
            (progress fields).placed ++ [field] := by
          simp [Progress.step, hp]
        rw [hobject, hplaced, List.map_append]
        exact hplace
  | false =>
      have hno : ¬ (Named field.name ∧
          ∀ g ∈ keptByName fields, Apart (segments g.name) (segments field.name)) :=
        fun hyes => by
          rw [hiff.mpr hyes] at hp
          cases hp
      have hsame := placeField_of_skipped (ordered_progress hord) hp
      constructor
      · rw [progress_append, keptByName_append, keepField, if_neg hno, ← h.placed]
        simp [Progress.step, hp]
      · rw [progress_append]
        simpa [Progress.step, hp, hsame] using h.exact

theorem keepsToNames_of_nothingFits {fields : List BuiltField}
    (hord : ∀ f ∈ fields, f.value.Ordered) (hfits : NothingFits fields) :
    KeepsToNames fields := by
  induction fields using List.reverseRecOn with
  | nil => exact ⟨rfl, Exact.nil⟩
  | append_singleton fields field ih =>
      obtain ⟨hOld, hNew⟩ := atEach_append.mp hfits
      have hbefore : ∀ f ∈ fields, f.value.Ordered := fun f hf => hord f (by simp [hf])
      exact (ih hbefore hOld).step hbefore hNew

/-- What the loop decides where it keeps to the names is what the names say. -/
theorem KeepsToNames.skipped_iff {fields : List BuiltField} (h : KeepsToNames fields)
    {field : BuiltField}
    (hroom : Named field.name → ∀ g ∈ keptByName fields, ∀ rest, rest ≠ [] →
      segments field.name = segments g.name ++ rest → ¬ Fits rest g.value) :
    (placeField (progress fields).object field).2 = false ↔
      ¬ Named field.name ∨
        ∃ g ∈ (progress fields).placed,
          ¬ Apart (segments g.name) (segments field.name) := by
  rw [h.placed, ← Bool.not_eq_true, h.placed_iff hroom, not_and_or]
  simp

/-- If the loop skips what the names say, no field finds room. -/
theorem nothingFits_of_skipped {fields : List BuiltField}
    (hord : ∀ f ∈ fields, f.value.Ordered)
    (hskip : AtEach (fun before field =>
      (placeField (progress before).object field).2 = false ↔
        ¬ Named field.name ∨
          ∃ g ∈ (progress before).placed,
            ¬ Apart (segments g.name) (segments field.name)) fields) :
    NothingFits fields := by
  induction fields using List.reverseRecOn with
  | nil => exact atEach_nil _
  | append_singleton fields field ih =>
      obtain ⟨hOld, hNew⟩ := atEach_append.mp hskip
      have hbefore : ∀ f ∈ fields, f.value.Ordered := fun f hf => hord f (by simp [hf])
      have hfits := ih hbefore hOld
      refine atEach_append.mpr ⟨hfits, fun hNamed g hg rest hrest hsegs hroom => ?_⟩
      -- the fields before are placed exactly, so room in the value is a free place
      have hkeep := keepsToNames_of_nothingFits hbefore hfits
      have hmem : g ∈ (progress fields).placed := hkeep.placed ▸ hg
      have hself := hkeep.exact.below _ (List.mem_map_of_mem hmem) []
      simp only [placement, List.append_nil, Json.walk] at hself
      have hfree : Free (segments field.name) (progress fields).object := by
        rw [hsegs]
        exact (free_append_iff hrest hself).mpr hroom
      have hplaced := (placeField_placed_iff _ field).mpr ⟨hNamed, hfree⟩
      have hskipped := hNew.mpr (Or.inr ⟨g, hmem, by
        rw [hsegs]
        exact not_apart_append _ _⟩)
      rw [hplaced] at hskipped
      cases hskipped

/-- **When earlier fields win.**  The loop skips exactly the fields whose names
collide with an earlier one, reports them in order, and keeps every placed value
as it was, if and only if no field finds room in the value of an earlier one. -/
theorem earlierFieldsWin_iff {fields : List BuiltField}
    (hord : ∀ f ∈ fields, f.value.Ordered) :
    EarlierFieldsWin fields ↔ NothingFits fields := by
  constructor
  · exact fun h => nothingFits_of_skipped hord h.skipped
  · intro hfits
    refine ⟨fun before field after hsplit => ?_, by rw [assemble_eq_progress],
      fun f hf => ?_⟩
    · have hbefore : ∀ f ∈ before, f.value.Ordered :=
        fun f hf => hord f (by simp [hsplit, hf])
      have hfitsBefore : NothingFits before := by
        intro b f a hb
        exact hfits b f (a ++ field :: after) (by simp [hsplit, hb])
      exact (keepsToNames_of_nothingFits hbefore hfitsBefore).skipped_iff
        (hfits before field after hsplit)
    · have hself := (keepsToNames_of_nothingFits hord hfits).exact.below _
        (List.mem_map_of_mem hf) []
      rw [assemble_eq_progress]
      simpa [placement, path, Json.walk] using hself

/-- The scalar has no room for the field under it, so it stands. -/
theorem earlierFieldsWin_iff_mixed : EarlierFieldsWin mixedFields := by
  refine (earlierFieldsWin_iff ordered_mixedFields).mpr ?_
  have hkept₁ : keptByName ([] ++ [⟨"a", .str "scalar"⟩]) =
      [⟨"a", .str "scalar"⟩] := by rfl
  have hkept₂ : keptByName ([] ++ [⟨"a", .str "scalar"⟩] ++ [⟨"a.b", .str "nested"⟩]) =
      [⟨"a", .str "scalar"⟩] := by rfl
  have hscalar : ∀ rest, ¬ Fits rest (.str "scalar") := by
    rintro rest ⟨members, hobj, _⟩
    cases hobj
  have hlist : mixedFields = (([] ++ [⟨"a", .str "scalar"⟩]) ++
      [⟨"a.b", .str "nested"⟩]) ++ [⟨"c.d", .null⟩] := rfl
  rw [NothingFits, hlist]
  refine atEach_append.mpr ⟨atEach_append.mpr
    ⟨atEach_append.mpr ⟨atEach_nil _, ?_⟩, ?_⟩, ?_⟩
  · intro _ g hg
    cases hg
  · intro _ g hg rest _ _
    rw [hkept₁, List.mem_singleton] at hg
    subst hg
    exact hscalar rest
  · intro _ g hg rest _ _
    rw [hkept₂, List.mem_singleton] at hg
    subst hg
    exact hscalar rest

/-- A selected object takes in the field of another name. -/
theorem selected_object_is_altered :
    ¬ EarlierFieldsWin [⟨"a", .obj []⟩, ⟨"a.b", .num (.int 1)⟩] := by
  intro h
  have hplaced : (progress [⟨"a", .obj []⟩, ⟨"a.b", .num (.int 1)⟩]).placed =
      [⟨"a", .obj []⟩, ⟨"a.b", .num (.int 1)⟩] := by rfl
  have hverbatim := h.verbatim ⟨"a", .obj []⟩ (by rw [hplaced]; simp)
  cases hverbatim

end RestToA2a.Policy.Collisions
