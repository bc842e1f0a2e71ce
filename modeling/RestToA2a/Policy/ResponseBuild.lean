import Mathlib.Data.List.Infix
import RestToA2a.Policy.Serde
import RestToA2a.Verified.Text

/-!
# Building a response object from dotted names

`response_build.rs`: fields with dotted names are placed one after the other
into a nested object, intermediate objects being created on the way; a field
whose place is taken is skipped and reported.

`Free` says that a place can be taken, and the `walk_placeAt` lemmas what the
object reads like afterwards along every path.  Two placements at places of
which neither contains the other commute.
-/

namespace RestToA2a.Policy.ResponseBuild

open RestToA2a.Verified
open RestToA2a.Policy.Serde

/-- A field to be placed, its value evaluated. -/
structure BuiltField where
  name : String
  value : Json

/-- The built object and the names of the skipped fields. -/
structure Assembled where
  object : Json
  collisions : List String

/-- The dot segments of a name. -/
def segments (name : String) : List String := Text.split '.' name

/-- Walk the segments from a map, creating the objects that are missing, and
insert the value at the last one.  The flag is false when the place is taken. -/
def placeAt : List String → Json → Map → Map × Bool
  | [], _, members => (members, false)
  | [leaf], value, members =>
      if (members.lookup leaf).isSome then (members, false)
      else (KeyedList.insert leaf value members, true)
  | seg :: next :: rest, value, members =>
      match (members.lookup seg).getD (.obj []) with
      | .obj sub =>
          let inner := placeAt (next :: rest) value sub
          (KeyedList.insert seg (.obj inner.1) members, inner.2)
      | _ => (members, false)

/-- One round of the loop over the fields. -/
def assembleField (acc : Map × List String) (field : BuiltField) :
    Map × List String :=
  if (segments field.name).any (·.isEmpty) then
    (acc.1, acc.2 ++ [field.name])
  else
    let (members, placed) := placeAt (segments field.name) field.value acc.1
    (members, if placed then acc.2 else acc.2 ++ [field.name])

/-- Assemble an ordered list of fields into one object. -/
def assemble (fields : List BuiltField) : Assembled :=
  let (root, collisions) := fields.foldl assembleField ([], [])
  { object := .obj root, collisions }

/-! ## One placement -/

/-- The place is not taken: every step on the way is missing or an object, and
the last one is missing. -/
def Free : List String → Map → Prop
  | [], _ => False
  | [leaf], members => members.lookup leaf = none
  | seg :: next :: rest, members =>
      ∃ sub, (members.lookup seg).getD (.obj []) = .obj sub ∧
        Free (next :: rest) sub

/-- The path of object keys. -/
def keys (segs : List String) : List PathStep := segs.map .key

theorem placeAt_placed {segs : List String} (value : Json) {members : Map}
    (h : Free segs members) : (placeAt segs value members).2 = true := by
  induction segs generalizing members with
  | nil => cases h
  | cons seg rest ih =>
      cases rest with
      | nil =>
          simp only [Free] at h
          simp [placeAt, h]
      | cons next rest =>
          obtain ⟨sub, hsub, hfree⟩ := h
          simp only [placeAt, hsub]
          exact ih hfree

/-- Reading at and below the place reads in the value. -/
theorem walk_placeAt_self {segs : List String} (value : Json) {members : Map}
    (h : Free segs members) (q : List PathStep) :
    (Json.obj (placeAt segs value members).1).walk (keys segs ++ q) =
      value.walk q := by
  induction segs generalizing members with
  | nil => cases h
  | cons seg rest ih =>
      cases rest with
      | nil =>
          simp only [Free] at h
          simp [placeAt, h, keys, Json.walk, Json.step,
            KeyedList.lookup_insert_self]
      | cons next rest =>
          obtain ⟨sub, hsub, hfree⟩ := h
          simp only [placeAt, hsub]
          simpa [keys, Json.walk, Json.step, KeyedList.lookup_insert_self] using
            ih hfree

/-- Reading on the way to the place finds an object. -/
theorem walk_placeAt_prefix {segs : List String} (value : Json) {members : Map}
    (h : Free segs members) {p : List String} (hp : p <+: segs) (hne : p ≠ segs) :
    ∃ sub, (Json.obj (placeAt segs value members).1).walk (keys p) =
      some (.obj sub) := by
  induction segs generalizing members p with
  | nil => cases h
  | cons seg rest ih =>
      cases p with
      | nil => exact ⟨_, rfl⟩
      | cons s p =>
          obtain ⟨rfl, hrest⟩ := List.cons_prefix_cons.mp hp
          have hp' : p ≠ rest := fun heq => hne (by rw [heq])
          cases rest with
          | nil => exact absurd (List.prefix_nil.mp hrest) hp'
          | cons next rest =>
              obtain ⟨sub, hsub, hfree⟩ := h
              simp only [placeAt, hsub]
              simpa [keys, Json.walk, Json.step, KeyedList.lookup_insert_self]
                using ih hfree hrest hp'

/-- Neither list is a prefix of the other. -/
def Apart {α : Type} (a b : List α) : Prop := ¬ a <+: b ∧ ¬ b <+: a

instance {α : Type} [DecidableEq α] (a b : List α) : Decidable (Apart a b) :=
  inferInstanceAs (Decidable (¬ a <+: b ∧ ¬ b <+: a))

theorem Apart.symm {α : Type} {a b : List α} (h : Apart a b) : Apart b a :=
  ⟨h.2, h.1⟩

@[simp] theorem keys_prefix_keys {a b : List String} :
    keys a <+: keys b ↔ a <+: b :=
  List.prefix_map_iff_of_injective fun _ _ h => by simpa using h

/-- Below two lists that are apart, nothing is a common extension. -/
theorem Apart.append {α : Type} {a b : List α} (h : Apart a b) (q : List α) :
    Apart a (b ++ q) := by
  constructor
  · intro hpre
    rcases List.prefix_or_prefix_of_prefix hpre (List.prefix_append b q) with h₁ | h₁
    · exact h.1 h₁
    · exact h.2 h₁
  · exact fun hpre => h.2 ((List.prefix_append b q).trans hpre)

theorem Apart.keys {a b : List String} (h : Apart a b) :
    Apart (keys a) (keys b) := by
  simpa [Apart] using h

/-- What a placement makes of the member of its first segment, if it changes
it at all. -/
def slot (rest : List String) (value : Json) (member : Option Json) : Option Json :=
  match rest with
  | [] => if member.isSome then none else some value
  | next :: rest =>
      match member.getD (.obj []) with
      | .obj sub => some (.obj (placeAt (next :: rest) value sub).1)
      | _ => none

/-- A placement touches only the member of its first segment. -/
theorem placeAt_cons (seg : String) (rest : List String) (value : Json)
    (members : Map) :
    (placeAt (seg :: rest) value members).1 =
      KeyedList.insertSome seg (slot rest value (members.lookup seg)) members := by
  cases rest with
  | nil =>
      simp only [placeAt, slot]
      split <;> rfl
  | cons next rest =>
      simp only [placeAt, slot]
      split <;> rfl

/-- Reading anywhere else reads what was there before. -/
theorem walk_placeAt_other {segs : List String} (value : Json) (members : Map)
    {path : List PathStep} (h : Apart (keys segs) path) :
    (Json.obj (placeAt segs value members).1).walk path =
      (Json.obj members).walk path := by
  induction segs generalizing members path with
  | nil => rfl
  | cons seg rest ih =>
      cases path with
      | nil => exact absurd List.nil_prefix h.2
      | cons s path =>
          by_cases hs : s = .key seg
          · subst hs
            have hrest : Apart (keys rest) path := by
              simpa [Apart, keys, List.cons_prefix_cons] using h
            cases rest with
            | nil => exact absurd List.nil_prefix hrest.1
            | cons next rest =>
                have hstep : ∀ sub, (members.lookup seg).getD (.obj []) = .obj sub →
                    (Json.obj sub).walk path =
                      (members.lookup seg).bind fun w => w.walk path := by
                  intro sub hsub
                  cases hl : members.lookup seg with
                  | none =>
                      rw [hl] at hsub
                      cases hsub
                      cases path with
                      | nil => exact absurd List.nil_prefix hrest.2
                      | cons s path => cases s <;> rfl
                  | some v =>
                      rw [hl] at hsub
                      cases hsub
                      rfl
                simp only [placeAt]
                split
                · rename_i sub hsub
                  simp only [Json.walk, Json.step, Json.get?_obj,
                    KeyedList.lookup_insert_self, Option.bind_some]
                  rw [ih sub hrest, hstep sub hsub]
                · rfl
          · cases s with
            | index i => rfl
            | key k =>
                have hk : k ≠ seg := fun heq => hs (by rw [heq])
                simp only [placeAt_cons, Json.walk, Json.step, Json.get?_obj,
                  KeyedList.lookup_insertSome_ne hk]

/-- A place is free when reading towards it finds objects or nothing, and
nothing at the end. -/
theorem free_of_walk {segs : List String} (hne : segs ≠ []) {members : Map}
    (h : ∀ p, p ≠ [] → p <+: segs →
      (Json.obj members).walk (keys p) = none ∨
        (p ≠ segs ∧ ∃ sub, (Json.obj members).walk (keys p) = some (.obj sub))) :
    Free segs members := by
  induction segs generalizing members with
  | nil => exact hne rfl
  | cons seg rest ih =>
      cases rest with
      | nil =>
          rcases h [seg] (by simp) (List.prefix_refl _) with hNone | ⟨hself, _⟩
          · simpa [keys, Json.walk, Json.step, Free] using hNone
          · exact absurd rfl hself
      | cons next rest =>
          have hwalk : ∀ p, (Json.obj members).walk (keys (seg :: p)) =
              (members.lookup seg).bind fun w => w.walk (keys p) := fun p => rfl
          rcases h [seg] (by simp) ⟨next :: rest, rfl⟩ with hNone | ⟨_, sub, hsub⟩
          · rw [hwalk] at hNone
            have hl : members.lookup seg = none := by
              cases hl : members.lookup seg with
              | none => rfl
              | some v => simp [hl, keys, Json.walk] at hNone
            refine ⟨[], by rw [hl]; rfl, ih (by simp) fun p hp _ => Or.inl ?_⟩
            cases p with
            | nil => exact absurd rfl hp
            | cons s p => rfl
          · have hl : members.lookup seg = some (.obj sub) := by
              rw [hwalk] at hsub
              cases hl : members.lookup seg with
              | none => simp [hl] at hsub
              | some v => simpa [hl, keys, Json.walk] using hsub
            refine ⟨sub, by rw [hl]; rfl, ih (by simp) fun p hp hpre => ?_⟩
            have hbelow := h (seg :: p) (by simp)
              (List.cons_prefix_cons.mpr ⟨rfl, hpre⟩)
            rw [hwalk, hl, Option.bind_some] at hbelow
            rcases hbelow with hNone | ⟨hself, hobj⟩
            · exact Or.inl hNone
            · exact Or.inr ⟨fun heq => hself (by rw [heq]), hobj⟩

/-! ## Two placements -/

/-- **Placements apart commute.** -/
theorem placeAt_comm {a b : List String} (h : Apart a b) (v w : Json)
    (members : Map) :
    (placeAt b w (placeAt a v members).1).1 =
      (placeAt a v (placeAt b w members).1).1 := by
  induction a generalizing b members with
  | nil => exact absurd List.nil_prefix h.1
  | cons s a ih =>
      cases b with
      | nil => exact absurd List.nil_prefix h.2
      | cons t b =>
          simp only [placeAt_cons]
          by_cases hst : t = s
          · subst hst
            have hab : Apart a b := by
              simpa [Apart, List.cons_prefix_cons] using h
            cases a with
            | nil => exact absurd List.nil_prefix hab.1
            | cons a₀ a =>
                cases b with
                | nil => exact absurd List.nil_prefix hab.2
                | cons b₀ b =>
                    cases hm : (members.lookup t).getD (.obj []) with
                    | obj sub =>
                        simp only [slot, hm, KeyedList.insertSome,
                          KeyedList.lookup_insert_self, Option.getD_some,
                          KeyedList.insert_insert]
                        rw [ih hab sub]
                    | _ => simp only [slot, hm, KeyedList.insertSome]
          · rw [KeyedList.lookup_insertSome_ne hst,
              KeyedList.lookup_insertSome_ne (Ne.symm hst),
              KeyedList.insertSome_comm hst]

end RestToA2a.Policy.ResponseBuild
