import Mathlib.Data.List.Pairwise
import RestToA2a.Policy.ResponseBuild
import RestToA2a.Policy.Select

/-!
# Fields-mode shaping

The `responseFields` list of the operator, resolved against a result and
assembled into the response object.  For names of which none contains another
the object is described exactly: it reads the selected values at the names,
objects on the way to them, and nothing anywhere else.
-/

namespace RestToA2a.Policy.ResponseFields

open RestToA2a.Policy.Serde
open RestToA2a.Policy.ResponseBuild
open RestToA2a.Policy.Select

/-- An entry of `responseFields`. -/
structure ResponseField where
  name : String
  selector : String
deriving DecidableEq

/-- The value of a field: what its selector finds, else null. -/
def fieldValue (root : Json) (field : ResponseField) : Json :=
  (select root field.selector).getD .null

/-- The fields with their values. -/
def buildFields (root : Json) (fields : List ResponseField) : List BuiltField :=
  fields.map fun field => ⟨field.name, fieldValue root field⟩

/-- The path a name is read along. -/
def path (name : String) : List PathStep := keys (segments name)

/-! ## The object after some placements -/

/-- The object reads as the placed values and nothing else. -/
structure Exact (placed : List (List String × Json)) (members : Map) : Prop where
  below : ∀ sv ∈ placed, ∀ q,
    (Json.obj members).walk (keys sv.1 ++ q) = sv.2.walk q
  towards : ∀ sv ∈ placed, ∀ p, p <+: sv.1 → p ≠ sv.1 →
    ∃ sub, (Json.obj members).walk (keys p) = some (.obj sub)
  elsewhere : ∀ p, p ≠ [] → (∀ sv ∈ placed, Apart (keys sv.1) p) →
    (Json.obj members).walk p = none

theorem Exact.nil : Exact [] [] where
  below := by simp
  towards := by simp
  elsewhere := by
    intro p hp _
    cases p with
    | nil => exact absurd rfl hp
    | cons s p => cases s <;> rfl

/-- A place apart from all the placed ones is free. -/
theorem Exact.free {placed : List (List String × Json)} {members : Map}
    (hE : Exact placed members) {segs : List String} (hne : segs ≠ [])
    (hApart : ∀ sv ∈ placed, Apart sv.1 segs) : Free segs members := by
  refine free_of_walk hne fun p hp hpre => ?_
  by_cases hnear : ∃ sv ∈ placed, p <+: sv.1
  · obtain ⟨sv, hsv, hway⟩ := hnear
    have hself : p ≠ sv.1 := fun heq => (hApart sv hsv).1 (heq ▸ hpre)
    have hne' : p ≠ segs := fun heq => (hApart sv hsv).2 (heq ▸ hway)
    exact Or.inr ⟨hne', hE.towards sv hsv p hway hself⟩
  · refine Or.inl (hE.elsewhere _ (by simpa [keys] using hp) fun sv hsv => ?_)
    refine ⟨fun h => ?_, fun h => hnear ⟨sv, hsv, keys_prefix_keys.mp h⟩⟩
    exact (hApart sv hsv).1 ((keys_prefix_keys.mp h).trans hpre)

/-- **One placement apart from the others.** -/
theorem Exact.place {placed : List (List String × Json)} {members : Map}
    (hE : Exact placed members) {segs : List String} (value : Json)
    (hne : segs ≠ []) (hApart : ∀ sv ∈ placed, Apart sv.1 segs) :
    Exact (placed ++ [(segs, value)]) (placeAt segs value members).1 := by
  have hfree := hE.free hne hApart
  constructor
  · intro sv hsv q
    rcases List.mem_append.mp hsv with hOld | hNew
    · rw [walk_placeAt_other value members ((hApart sv hOld).symm.keys.append q)]
      exact hE.below sv hOld q
    · rw [List.mem_singleton.mp hNew]
      exact walk_placeAt_self value hfree q
  · intro sv hsv p hway hself
    rcases List.mem_append.mp hsv with hOld | hNew
    · by_cases hpre : p <+: segs
      · have hne' : p ≠ segs := fun heq => (hApart sv hOld).2 (heq ▸ hway)
        exact walk_placeAt_prefix value hfree hpre hne'
      · have hApart' : Apart segs p :=
          ⟨fun h => (hApart sv hOld).2 (h.trans hway), hpre⟩
        rw [walk_placeAt_other value members hApart'.keys]
        exact hE.towards sv hOld p hway hself
    · rw [List.mem_singleton.mp hNew] at hway hself
      exact walk_placeAt_prefix value hfree hway hself
  · intro p hp hOut
    rw [walk_placeAt_other value members (hOut (segs, value) (by simp))]
    exact hE.elsewhere p hp fun sv hsv => hOut sv (List.mem_append_left _ hsv)

/-! ## The whole list -/

/-- The name of a field can be placed: it has no empty segment. -/
def Named (name : String) : Prop := "" ∉ segments name

instance (name : String) : Decidable (Named name) :=
  inferInstanceAs (Decidable ("" ∉ segments name))

theorem any_isEmpty_of_named {name : String} (h : Named name) :
    (segments name).any (·.isEmpty) = false := by
  rw [List.any_eq_false]
  intro seg hseg hEmpty
  have : seg = "" := by simpa using hEmpty
  exact h (this ▸ hseg)

/-- A field is placed with its segments and its value. -/
def placement (field : BuiltField) : List String × Json :=
  (segments field.name, field.value)

theorem assembleField_of_named {field : BuiltField} (h : Named field.name)
    (acc : Map × List String) :
    (assembleField acc field).1 =
      (placeAt (segments field.name) field.value acc.1).1 := by
  simp [assembleField, any_isEmpty_of_named h]

/-- Fields apart from each other are all placed, exactly. -/
theorem exact_foldl {fields : List BuiltField}
    (hNamed : ∀ f ∈ fields, Named f.name)
    (hApart : fields.Pairwise fun f g => Apart (segments f.name) (segments g.name))
    {placed : List (List String × Json)} (acc : Map × List String)
    (hE : Exact placed acc.1) (hOut : ∀ f ∈ fields, ∀ sv ∈ placed,
      Apart sv.1 (segments f.name)) :
    Exact (placed ++ fields.map placement) (fields.foldl assembleField acc).1 ∧
      (fields.foldl assembleField acc).2 = acc.2 := by
  induction fields generalizing placed acc with
  | nil => simpa using hE
  | cons f fields ih =>
      obtain ⟨hHead, hTail⟩ := List.pairwise_cons.mp hApart
      have hf := hNamed f (by simp)
      have hne : segments f.name ≠ [] := RestToA2a.Verified.Text.split_ne_nil _ _
      have hApart' := hOut f (by simp)
      have hplaced := placeAt_placed f.value (hE.free hne hApart')
      have hstep : assembleField acc f =
          ((placeAt (segments f.name) f.value acc.1).1, acc.2) := by
        simp [assembleField, any_isEmpty_of_named hf, hplaced]
      have hE' := hE.place f.value hne hApart'
      have hOut' : ∀ g ∈ fields, ∀ sv ∈ placed ++ [(segments f.name, f.value)],
          Apart sv.1 (segments g.name) := by
        intro g hg sv hsv
        rcases List.mem_append.mp hsv with hOld | hNew
        · exact hOut g (by simp [hg]) sv hOld
        · rw [List.mem_singleton.mp hNew]
          exact hHead g hg
      have hrec := ih (fun g hg => hNamed g (by simp [hg])) hTail
        (_, acc.2) hE' hOut'
      rw [List.foldl_cons, hstep]
      simpa [placement] using hrec

/-- Placements apart from each other may be made in any order. -/
theorem foldl_perm {fields fields' : List BuiltField}
    (hApart : fields.Pairwise fun f g => Apart (segments f.name) (segments g.name))
    (hPerm : fields.Perm fields') (members : Map) :
    fields.foldl (fun m f => (placeAt (segments f.name) f.value m).1) members =
      fields'.foldl (fun m f => (placeAt (segments f.name) f.value m).1)
        members := by
  refine hPerm.foldl_eq' (fun f hf g hg m => ?_) members
  by_cases hfg : f = g
  · rw [hfg]
  · have : Std.Symm fun f g : BuiltField =>
        Apart (segments f.name) (segments g.name) := ⟨fun _ _ h => h.symm⟩
    exact placeAt_comm (hApart.forall hf hg hfg) f.value g.value m

theorem foldl_assembleField {fields : List BuiltField}
    (hNamed : ∀ f ∈ fields, Named f.name) (acc : Map × List String) :
    (fields.foldl assembleField acc).1 =
      fields.foldl (fun m f => (placeAt (segments f.name) f.value m).1) acc.1 := by
  induction fields generalizing acc with
  | nil => rfl
  | cons f fields ih =>
      rw [List.foldl_cons, List.foldl_cons, ih fun g hg => hNamed g (by simp [hg]),
        assembleField_of_named (hNamed f (by simp))]

/-- What a path into the object can be. -/
theorem Exact.path_cases {placed : List (List String × Json)} {members : Map}
    (hE : Exact placed members) {p : List PathStep} {v : Json} (hp : p ≠ [])
    (hv : (Json.obj members).walk p = some v) :
    (∃ sv ∈ placed, ∃ q, p = keys sv.1 ++ q ∧ sv.2.walk q = some v) ∨
      ∃ sv ∈ placed, p <+: keys sv.1 ∧ p ≠ keys sv.1 ∧ ∃ sub, v = .obj sub := by
  by_cases hnear : ∃ sv ∈ placed, ¬ Apart (keys sv.1) p
  · obtain ⟨sv, hsv, hcomp⟩ := hnear
    by_cases hbelow : keys sv.1 <+: p
    · obtain ⟨q, rfl⟩ := hbelow
      rw [hE.below sv hsv q] at hv
      exact Or.inl ⟨sv, hsv, q, rfl, hv⟩
    · have hway : p <+: keys sv.1 := by
        by_contra hno
        exact hcomp ⟨hbelow, hno⟩
      have hself : p ≠ keys sv.1 := fun heq => hbelow (heq ▸ List.prefix_refl _)
      -- a prefix of a path of keys is a path of keys
      obtain ⟨segs, hsegs, rfl⟩ := List.prefix_map_iff.mp hway
      obtain ⟨sub, hsub⟩ := hE.towards sv hsv segs hsegs
        fun heq => hself (by rw [heq]; rfl)
      rw [keys, hv] at hsub
      cases hsub
      exact Or.inr ⟨sv, hsv, hway, hself, sub, rfl⟩
  · have hNone := hE.elsewhere p hp fun sv hsv => by
      by_contra hcomp
      exact hnear ⟨sv, hsv, hcomp⟩
    rw [hNone] at hv
    cases hv

/-- The fields of the operator, assembled, with nothing skipped. -/
theorem exact_assemble (root : Json) {fields : List ResponseField}
    (hNamed : ∀ f ∈ fields, Named f.name)
    (hApart : fields.Pairwise fun f g =>
      Apart (segments f.name) (segments g.name)) :
    Exact (fields.map fun f => (segments f.name, fieldValue root f))
        ((buildFields root fields).foldl assembleField ([], [])).1 ∧
      ((buildFields root fields).foldl assembleField ([], [])).2 = [] := by
  have hNamed' : ∀ f ∈ buildFields root fields, Named f.name := by
    intro f hf
    obtain ⟨g, hg, rfl⟩ := List.mem_map.mp hf
    exact hNamed g hg
  have hApart' : (buildFields root fields).Pairwise fun f g =>
      Apart (segments f.name) (segments g.name) := by
    simpa [buildFields, List.pairwise_map] using hApart
  have hall := exact_foldl hNamed' hApart' ([], []) Exact.nil (by simp)
  simpa [buildFields, List.map_map, Function.comp_def, placement] using hall

/-- **Fields-mode shaping is exact and order-independent.**  For names without
empty segments of which none contains another: nothing is skipped; the object
reads at each name what the name's selector finds, or null; every other
non-empty path of it continues inside one of these values, or leads to one and
reads an object; and every permutation of the fields builds the same object. -/
theorem assemble_buildFields (root : Json) {fields : List ResponseField}
    (hNamed : ∀ f ∈ fields, Named f.name)
    (hApart : fields.Pairwise fun f g =>
      Apart (segments f.name) (segments g.name)) :
    (assemble (buildFields root fields)).collisions = [] ∧
    (∀ f ∈ fields, (assemble (buildFields root fields)).object.walk (path f.name) =
      some ((select root f.selector).getD .null)) ∧
    (∀ p v, p ≠ [] →
      (assemble (buildFields root fields)).object.walk p = some v →
        (∃ f ∈ fields, ∃ q, p = path f.name ++ q ∧
          ((select root f.selector).getD .null).walk q = some v) ∨
        (∃ f ∈ fields, p <+: path f.name ∧ p ≠ path f.name ∧
          ∃ members, v = .obj members)) ∧
    ∀ fields', fields.Perm fields' →
      (assemble (buildFields root fields')).object =
        (assemble (buildFields root fields)).object := by
  obtain ⟨hE, hNone⟩ := exact_assemble root hNamed hApart
  refine ⟨hNone, fun f hf => ?_, fun p v hp hv => ?_, fun fields' hPerm => ?_⟩
  · have hread := hE.below _ (List.mem_map_of_mem hf) []
    rw [List.append_nil] at hread
    exact hread
  · rcases hE.path_cases hp hv with ⟨sv, hsv, q, hq⟩ | ⟨sv, hsv, hway⟩
    · obtain ⟨f, hf, rfl⟩ := List.mem_map.mp hsv
      exact Or.inl ⟨f, hf, q, hq⟩
    · obtain ⟨f, hf, rfl⟩ := List.mem_map.mp hsv
      exact Or.inr ⟨f, hf, hway⟩
  · have hNamed' : ∀ g ∈ fields', Named g.name :=
      fun g hg => hNamed g (hPerm.symm.subset hg)
    have hApart' : (buildFields root fields).Pairwise fun f g =>
        Apart (segments f.name) (segments g.name) := by
      simpa [buildFields, List.pairwise_map] using hApart
    simp only [assemble, Json.obj.injEq]
    rw [foldl_assembleField (by simpa [buildFields] using hNamed'),
      foldl_assembleField (by simpa [buildFields] using hNamed),
      foldl_perm hApart' (hPerm.map _)]
    rfl

/-- A task reply and fields that share an intermediate object. -/
def taskReply : Json :=
  .obj [("task", .obj [("contextId", .str "c"), ("id", .str "t")])]

def taskFields : List ResponseField :=
  [⟨"data.taskRef", "task.id"⟩, ⟨"data.context", "task.contextId"⟩,
    ⟨"state", "task.status.state"⟩]

theorem assemble_buildFields_taskFields :
    (assemble (buildFields taskReply taskFields)).collisions = [] ∧
    (assemble (buildFields taskReply taskFields)).object.walk
        [.key "data", .key "taskRef"] =
      some ((select taskReply "task.id").getD .null) := by
  obtain ⟨hNone, hRead, _⟩ := assemble_buildFields taskReply
    (by decide : ∀ f ∈ taskFields, Named f.name) (by decide)
  exact ⟨hNone, hRead ⟨"data.taskRef", "task.id"⟩ (by simp [taskFields])⟩

end RestToA2a.Policy.ResponseFields
