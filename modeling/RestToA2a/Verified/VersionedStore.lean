import Mathlib

/-!
# A versioned key-value map with compare-and-swap

A map from keys to values in which every present value carries a version
token.  A write is conditional: it wants the key absent, or present at one
given version.  Each successful write installs a token the key has never
carried before, so a token, once read together with a value, names that value
for good: whoever finds the same token at the key later finds the same value.

`Evolves` says what any number of accesses by anybody can do to the map, and
`Names` is the fact about one token that survives all of it.  Every argument
about compare-and-swap loops in this package goes through these two.
-/

namespace RestToA2a.Verified.VersionedStore

/-- When a write is to take effect. -/
inductive StoreMode (τ : Type) where
  | absent
  | cas (version : τ)
deriving DecidableEq

/-- Why an access failed: the condition of the write did not hold, or the
backend raised something else, kept as the text it prints for it. -/
inductive StorageError where
  | casMismatch
  | other (debug : String)
deriving DecidableEq

/-- The map, with the tokens each key has ever carried.  `used` is history
only: no access reads it. -/
structure VStore (κ ν τ : Type) where
  entries : κ → Option (ν × τ)
  used : κ → List τ
  entries_used : ∀ {k v t}, entries k = some (v, t) → t ∈ used k

namespace VStore

variable {κ ν τ : Type}

@[ext]
theorem ext {s s' : VStore κ ν τ} (he : s.entries = s'.entries)
    (hu : s.used = s'.used) : s = s' := by
  cases s
  cases s'
  simp only at he hu
  subst he
  subst hu
  rfl

/-- The map before anything was written. -/
def empty : VStore κ ν τ where
  entries := fun _ => none
  used := fun _ => []
  entries_used := by
    intro k v t h
    cases h

/-- The value at a key, its version dropped. -/
def contents (s : VStore κ ν τ) (k : κ) : Option ν := (s.entries k).map Prod.fst

theorem contents_of_entries {s : VStore κ ν τ} {k : κ} {v : ν} {t : τ}
    (h : s.entries k = some (v, t)) : s.contents k = some v := by
  simp [contents, h]

theorem contents_eq_none {s : VStore κ ν τ} {k : κ} :
    s.contents k = none ↔ s.entries k = none := by
  simp [contents]

variable [DecidableEq κ]

/-- Install `v` at `k` under the token `t`. -/
def write (s : VStore κ ν τ) (k : κ) (v : ν) (t : τ) : VStore κ ν τ where
  entries := Function.update s.entries k (some (v, t))
  used := Function.update s.used k (t :: s.used k)
  entries_used := by
    intro k' v' t' h
    by_cases hk : k' = k
    · subst hk
      simp only [Function.update_self, Option.some.injEq, Prod.mk.injEq] at h
      simp [h.2]
    · rw [Function.update_of_ne hk] at h ⊢
      exact s.entries_used h

/-- Remove the entry of `k`; the tokens it carried stay used. -/
def erase (s : VStore κ ν τ) (k : κ) : VStore κ ν τ where
  entries := Function.update s.entries k none
  used := s.used
  entries_used := by
    intro k' v' t' h
    by_cases hk : k' = k
    · subst hk
      simp at h
    · rw [Function.update_of_ne hk] at h
      exact s.entries_used h

@[simp] theorem entries_write_self (s : VStore κ ν τ) (k : κ) (v : ν) (t : τ) :
    (s.write k v t).entries k = some (v, t) := by simp [write]

theorem entries_write_ne (s : VStore κ ν τ) {k k' : κ} (v : ν) (t : τ)
    (h : k' ≠ k) : (s.write k v t).entries k' = s.entries k' := by
  simp [write, h]

@[simp] theorem entries_erase_self (s : VStore κ ν τ) (k : κ) :
    (s.erase k).entries k = none := by simp [erase]

theorem entries_erase_ne (s : VStore κ ν τ) {k k' : κ} (h : k' ≠ k) :
    (s.erase k).entries k' = s.entries k' := by
  simp [erase, h]

theorem contents_write (s : VStore κ ν τ) (k : κ) (v : ν) (t : τ) :
    (s.write k v t).contents = Function.update s.contents k (some v) := by
  funext k'
  by_cases hk : k' = k
  · subst hk
    simp [contents]
  · simp [contents, entries_write_ne s v t hk, hk]

theorem contents_erase (s : VStore κ ν τ) (k : κ) :
    (s.erase k).contents = Function.update s.contents k none := by
  funext k'
  by_cases hk : k' = k
  · subst hk
    simp [contents]
  · simp [contents, entries_erase_ne s hk, hk]

/-- Removing a missing key changes nothing, versions included. -/
theorem erase_of_missing {s : VStore κ ν τ} {k : κ} (h : s.entries k = none) :
    s.erase k = s := by
  apply ext
  · funext k'
    by_cases hk : k' = k
    · subst hk
      simp [h]
    · exact entries_erase_ne s hk
  · rfl

variable [DecidableEq τ]

/-- A conditional write, with the token a success installs. -/
def store (s : VStore κ ν τ) (k : κ) (mode : StoreMode τ) (v : ν) (t : τ) :
    Except StorageError Unit × VStore κ ν τ :=
  match mode, s.entries k with
  | .absent, none => (.ok (), s.write k v t)
  | .absent, some _ => (.error .casMismatch, s)
  | .cas _, none => (.error .casMismatch, s)
  | .cas expected, some (_, current) =>
      if current = expected then (.ok (), s.write k v t)
      else (.error .casMismatch, s)

/-- The condition under which `store` writes. -/
def Accepts (s : VStore κ ν τ) (k : κ) : StoreMode τ → Prop
  | .absent => s.entries k = none
  | .cas version => ∃ w, s.entries k = some (w, version)

/-- A conditional write either finds its condition and writes, or reports the
mismatch and writes nothing. -/
theorem store_cases (s : VStore κ ν τ) (k : κ) (mode : StoreMode τ) (v : ν)
    (t : τ) :
    (s.Accepts k mode ∧ s.store k mode v t = (.ok (), s.write k v t)) ∨
      (¬ s.Accepts k mode ∧ s.store k mode v t = (.error .casMismatch, s)) := by
  cases mode with
  | absent =>
      cases h : s.entries k with
      | none => exact Or.inl ⟨h, by simp [store, h]⟩
      | some e => exact Or.inr ⟨by simp [Accepts, h], by simp [store, h]⟩
  | cas version =>
      cases h : s.entries k with
      | none => exact Or.inr ⟨by simp [Accepts, h], by simp [store, h]⟩
      | some e =>
          obtain ⟨w, current⟩ := e
          by_cases hv : current = version
          · subst hv
            exact Or.inl ⟨⟨w, h⟩, by simp [store, h]⟩
          · refine Or.inr ⟨?_, by simp [store, h, hv]⟩
            rintro ⟨w', hw⟩
            rw [h] at hw
            simp only [Option.some.injEq, Prod.mk.injEq] at hw
            exact hv hw.2

theorem store_of_accepts {s : VStore κ ν τ} {k : κ} {mode : StoreMode τ}
    (h : s.Accepts k mode) (v : ν) (t : τ) :
    s.store k mode v t = (.ok (), s.write k v t) := by
  rcases store_cases s k mode v t with hok | hno
  · exact hok.2
  · exact absurd h hno.1

theorem store_of_not_accepts {s : VStore κ ν τ} {k : κ} {mode : StoreMode τ}
    (h : ¬ s.Accepts k mode) (v : ν) (t : τ) :
    s.store k mode v t = (.error .casMismatch, s) := by
  rcases store_cases s k mode v t with hok | hno
  · exact absurd hok.1 h
  · exact hno.2

end VStore

/-! ## What interference can do -/

variable {κ ν τ : Type}

/-- The map may have moved from `s` to `s'` through accesses of any number of
parties: tokens are never forgotten, and an entry that was not there before
carries a token its key had not used. -/
structure Evolves (s s' : VStore κ ν τ) : Prop where
  used_mono : ∀ {k t}, t ∈ s.used k → t ∈ s'.used k
  entries_new : ∀ {k v t}, s'.entries k = some (v, t) →
    s.entries k = some (v, t) ∨ t ∉ s.used k

theorem Evolves.refl (s : VStore κ ν τ) : Evolves s s where
  used_mono := fun h => h
  entries_new := fun h => Or.inl h

theorem Evolves.trans {s₁ s₂ s₃ : VStore κ ν τ} (h₁ : Evolves s₁ s₂)
    (h₂ : Evolves s₂ s₃) : Evolves s₁ s₃ where
  used_mono := fun h => h₂.used_mono (h₁.used_mono h)
  entries_new := by
    intro k v t h
    rcases h₂.entries_new h with hOld | hNew
    · exact h₁.entries_new hOld
    · exact Or.inr fun hUsed => hNew (h₁.used_mono hUsed)

/-- Token `t` of key `k` stands for the value `v`: it has been used, and it is
never seen at `k` with another value. -/
structure Names (s : VStore κ ν τ) (k : κ) (t : τ) (v : ν) : Prop where
  used : t ∈ s.used k
  only : ∀ {w}, s.entries k = some (w, t) → w = v

theorem Names.of_entries {s : VStore κ ν τ} {k : κ} {v : ν} {t : τ}
    (h : s.entries k = some (v, t)) : Names s k t v where
  used := s.entries_used h
  only := by
    intro w hw
    rw [h] at hw
    simp only [Option.some.injEq, Prod.mk.injEq] at hw
    exact hw.1.symm

/-- A token read once keeps its meaning under every interference. -/
theorem Names.mono {s s' : VStore κ ν τ} {k : κ} {t : τ} {v : ν}
    (h : Names s k t v) (hE : Evolves s s') : Names s' k t v where
  used := hE.used_mono h.used
  only := by
    intro w hw
    rcases hE.entries_new hw with hOld | hNew
    · exact h.only hOld
    · exact absurd h.used hNew

section Accesses

variable [DecidableEq κ]

theorem evolves_write (s : VStore κ ν τ) (k : κ) (v : ν) {t : τ}
    (hFresh : t ∉ s.used k) : Evolves s (s.write k v t) where
  used_mono := by
    intro k' t' h
    by_cases hk : k' = k
    · subst hk
      simp [VStore.write, h]
    · simpa [VStore.write, hk] using h
  entries_new := by
    intro k' v' t' h
    by_cases hk : k' = k
    · subst hk
      simp only [VStore.entries_write_self, Option.some.injEq, Prod.mk.injEq] at h
      exact Or.inr (h.2 ▸ hFresh)
    · rw [VStore.entries_write_ne s v t hk] at h
      exact Or.inl h

theorem evolves_erase (s : VStore κ ν τ) (k : κ) : Evolves s (s.erase k) where
  used_mono := fun h => h
  entries_new := by
    intro k' v' t' h
    by_cases hk : k' = k
    · subst hk
      simp at h
    · rw [VStore.entries_erase_ne s hk] at h
      exact Or.inl h

theorem evolves_store [DecidableEq τ] (s : VStore κ ν τ) (k : κ)
    (mode : StoreMode τ) (v : ν) {t : τ} (hFresh : t ∉ s.used k) :
    Evolves s (s.store k mode v t).2 := by
  rcases VStore.store_cases s k mode v t with ⟨_, h⟩ | ⟨_, h⟩
  · rw [h]
    exact evolves_write s k v hFresh
  · rw [h]
    exact Evolves.refl s

end Accesses

end RestToA2a.Verified.VersionedStore
