import RestToA2a.Verified.Footprint
import RestToA2a.Verified.Linearizable
import RestToA2a.Verified.Translation

/-!
# A map that holds encoded values

Programs are written over the values they mean; the map below them holds what an
encoder makes of these, and a lookup decodes what it finds.  A value that does
not decode is an error of that lookup.

Of the encoding nothing is known but that it gives back the good values.  As long
as programs store no others, nothing of it can be seen: the program over the
encoded map is `Alike` the one it was made from (`alike_stored`), so that servers
of the two have the same runs.
-/

namespace RestToA2a.Verified.EncodedStore

open RestToA2a.Verified.VersionedStore
open RestToA2a.Verified.StorageProgram
open RestToA2a.Verified.ProgramPool
open RestToA2a.Verified.Linearizable
open RestToA2a.Verified.Footprint
open RestToA2a.Verified.Translation

/-- An encoding that gives back the good values.  What cannot be decoded comes
with the text the backend prints for the failure. -/
structure Codec (ν ω : Type) (Good : ν → Prop) where
  encode : ν → ω
  decode : ω → Except String ν
  decode_encode : ∀ {v}, Good v → decode (encode v) = .ok v

/-- The map with its values encoded. -/
def mapValues {κ ν ω τ : Type} (f : ν → ω) (s : VStore κ ν τ) : VStore κ ω τ where
  entries := fun k => (s.entries k).map (Prod.map f id)
  used := s.used
  entries_used := by
    intro k w t h
    obtain ⟨⟨v, t'⟩, he, heq⟩ := Option.map_eq_some_iff.mp h
    cases heq
    exact s.entries_used he

theorem contents_mapValues {κ ν ω τ : Type} (f : ν → ω) (s : VStore κ ν τ) (k : κ) :
    (mapValues f s).contents k = (s.contents k).map f := by
  simp only [mapValues, VStore.contents, Option.map_map]
  rfl

namespace Codec

variable {κ ν ω τ α β : Type} {Good : ν → Prop} (c : Codec ν ω Good)

/-- The encoded value of a good one. -/
def Stands (v : ν) (w : ω) : Prop := Good v ∧ w = c.encode v

/-- What a lookup of the encoded map means. -/
def typed : Except StorageError (Option (ω × τ)) → Except StorageError (Option (ν × τ))
  | .ok none => .ok none
  | .ok (some (w, t)) =>
      match c.decode w with
      | .ok v => .ok (some (v, t))
      | .error debug => .error (.other debug)
  | .error err => .error err

/-- The program over the encoded map. -/
def stored : Prog κ ν τ α → Prog κ ω τ α
  | .done a => .done a
  | .get k next => .get k fun r => stored (next (c.typed r))
  | .store k mode v next => .store k mode (c.encode v) fun r => stored (next r)
  | .delete k next => .delete k fun r => stored (next r)

@[simp] theorem stored_map (f : α → β) (p : Prog κ ν τ α) :
    c.stored (p.map f) = (c.stored p).map f := by
  induction p with
  | done a => rfl
  | get k next ih => simp only [Prog.map, stored, ih]
  | store k mode v next ih => simp only [Prog.map, stored, ih]
  | delete k next ih => simp only [Prog.map, stored, ih]

/-- Encoding leaves the keys of the accesses. -/
theorem every_stored (P : κ → Prop) {p : Prog κ ν τ α}
    (h : Every (fun a => P a.key) p) : Every (fun a => P a.key) (c.stored p) := by
  induction p with
  | done a => trivial
  | get k next ih => exact ⟨h.1, fun r => ih _ (h.2 _)⟩
  | store k mode v next ih => exact ⟨h.1, fun r => ih _ (h.2 _)⟩
  | delete k next ih => exact ⟨h.1, fun r => ih _ (h.2 _)⟩

/-- An access that stores, stores a good value. -/
def StoresGood (Good : ν → Prop) : Access κ ν τ → Prop
  | .store _ _ v => Good v
  | _ => True

/-- A lookup of the encoded map means the lookup of the other. -/
theorem typed_eq {r : Except StorageError (Option (ν × τ))}
    {r' : Except StorageError (Option (ω × τ))} (h : FoundAlike c.Stands r r') :
    c.typed r' = r := by
  cases h with
  | error err => rfl
  | ok he =>
      cases he with
      | none => rfl
      | @some v w t hv =>
          obtain ⟨hgood, rfl⟩ := hv
          simp only [typed, c.decode_encode hgood]

/-- A lookup of what does not decode fails. -/
theorem typed_of_error {w : ω} {debug : String} (h : c.decode w = .error debug) (t : τ) :
    c.typed (.ok (some (w, t))) = .error (.other debug) := by
  simp only [typed, h]

/-- A program that stores good values cannot tell that they are encoded. -/
theorem alike_stored {p : Prog κ ν τ α} (h : Every (StoresGood Good) p) :
    Alike c.Stands (· = ·) p (c.stored p) := by
  induction p with
  | done a => exact .done rfl
  | get k next ih =>
      refine .get fun r r' hr => ?_
      rw [c.typed_eq hr]
      exact ih r (h.2 r)
  | store k mode v next ih => exact .store ⟨h.1, rfl⟩ fun r => ih r (h.2 r)
  | delete k next ih => exact .delete fun r => ih r (h.2 r)

/-- A map of good values is like its encoding. -/
theorem storeAlike_mapValues {s : VStore κ ν τ}
    (h : ∀ k v, s.contents k = some v → Good v) :
    StoreAlike c.Stands s (mapValues c.encode s) where
  entries := by
    intro k
    have hk : ∀ v, s.contents k = some v → Good v := h k
    simp only [mapValues]
    unfold VStore.contents at hk
    generalize s.entries k = e at hk
    cases e with
    | none => exact .none
    | some e => exact .some ⟨hk e.1 rfl, rfl⟩
  used := fun _ => rfl

/-- What is like a map is its encoding, and the map holds good values. -/
theorem eq_mapValues {s : VStore κ ν τ} {s' : VStore κ ω τ}
    (h : StoreAlike c.Stands s s') :
    s' = mapValues c.encode s ∧ ∀ k v, s.contents k = some v → Good v := by
  have hk : ∀ k, s'.entries k = (s.entries k).map (Prod.map c.encode id) ∧
      ∀ v, s.contents k = some v → Good v := by
    intro k
    have hk := h.entries k
    unfold VStore.contents
    generalize s.entries k = e at hk
    generalize s'.entries k = e' at hk
    cases hk with
    | none => exact ⟨rfl, fun v hv => by cases hv⟩
    | some hv =>
        obtain ⟨hgood, rfl⟩ := hv
        refine ⟨rfl, fun v hv => ?_⟩
        cases hv
        exact hgood
  refine ⟨?_, fun k v => (hk k).2 v⟩
  apply VStore.ext
  · exact funext fun k => (hk k).1
  · exact funext fun k => (h.used k).symm

/-! ## Servers -/

variable {C R : Type}

/-- A call at the same point, whatever the map below it holds. -/
abbrev PhaseStored : Phase C κ ν τ R → Phase C κ ω τ R → Prop :=
  PhaseAlike c.Stands (· = ·) fun _ _ => (· = ·)

variable {φ : Phase C κ ν τ R} {φ' : Phase C κ ω τ R}

theorem call_eq (h : c.PhaseStored φ φ') : φ'.call = φ.call := by
  cases h with
  | idle => rfl
  | running hc hp => rw [hc]; rfl
  | returned hc hr => rw [hc]; rfl

theorem outcome_eq (h : c.PhaseStored φ φ') : outcome φ' = outcome φ := by
  cases h with
  | idle => rfl
  | returned hc hr => rw [hc, hr]; rfl
  | running hc hp =>
      cases hp with
      | done hr => rw [hc, hr]; rfl
      | get _ => rfl
      | store _ _ => rfl
      | delete _ => rfl

/-- **Encoding preserves the runs.**  Two servers of the same programs, one over
the encoded map, have the same runs from a map of good values and its encoding;
at the end the one map is the encoding of the other. -/
theorem runs_stored [DecidableEq κ] [DecidableEq τ] {S : Server C κ ν τ R}
    {S' : Server C κ ω τ R} (hcode : ∀ a, S'.code a = c.stored (S.code a))
    (hgood : ∀ a, Every (StoresGood Good) (S.code a))
    (henabled : ∀ {calls : Nat → Phase C κ ν τ R} {calls' : Nat → Phase C κ ω τ R} {a},
      (∀ i, c.PhaseStored (calls i) (calls' i)) → S'.enabled calls' a = S.enabled calls a)
    (hfault : ∀ a, S'.mayFault a = S.mayFault a) {s₀ : VStore κ ν τ}
    (h₀ : ∀ k v, s₀.contents k = some v → Good v) (acts : List (Action C κ τ)) :
    (∀ s, Run S (Pool.fresh s₀) acts s →
      ∃ q, Run S' (Pool.fresh (mapValues c.encode s₀)) acts q ∧
        PoolAlike c.Stands (· = ·) (fun _ _ => (· = ·)) s q) ∧
      ∀ q, Run S' (Pool.fresh (mapValues c.encode s₀)) acts q →
        ∃ s, Run S (Pool.fresh s₀) acts s ∧
          PoolAlike c.Stands (· = ·) (fun _ _ => (· = ·)) s q := by
  have hT : Translates c.Stands (· = ·) (fun _ _ => (· = ·)) S S' :=
    { code := by
        rintro a _ rfl
        rw [hcode]
        exact c.alike_stored (hgood a)
      enabled := by
        rintro calls calls' a _ rfl hcalls
        exact henabled hcalls
      mayFault := by
        rintro a _ rfl
        exact hfault a }
  have hacts : List.Forall₂ (ActionAlike (· = ·)) acts acts := by
    induction acts with
    | nil => exact .nil
    | cons a acts ih =>
        refine .cons ?_ ih
        cases a with
        | invoke i a => exact .invoke i rfl
        | access i t => exact .access i t
        | fault i debug => exact .fault i debug
        | ret i => exact .ret i
        | reclaim k => exact .reclaim k
  exact hT.runs hacts (PoolAlike.fresh (c.storeAlike_mapValues h₀))

end Codec

end RestToA2a.Verified.EncodedStore
