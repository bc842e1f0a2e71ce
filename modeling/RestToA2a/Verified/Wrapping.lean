import RestToA2a.Verified.Linearizable

/-!
# Servers built on other servers

A server wraps another one when each of its calls either makes exactly one
call of the other and post-processes the result, or touches the map not at
all.  What the inner server guarantees for every interleaving the outer one
then guarantees too, call for call.
-/

namespace RestToA2a.Verified.Wrapping

open RestToA2a.Verified.VersionedStore
open RestToA2a.Verified.StorageProgram
open RestToA2a.Verified.ProgramPool
open RestToA2a.Verified.Linearizable

variable {C C' κ ν τ R R' A : Type}

/-- Every call of the outer server is finished at once, or is a call of the
inner one whose result it post-processes, as `Inner` says. -/
structure Wraps (S : Server C κ ν τ R) (S' : Server C' κ ν τ R')
    (Inner : C' → C → (R → R') → Prop) : Prop where
  code : ∀ c', (∃ r', S'.code c' = .done r') ∨
    ∃ c f, Inner c' c f ∧ S'.code c' = (S.code c).map f
  mayFault : ∀ {c' c f}, Inner c' c f → S'.mayFault c' = true →
    S.mayFault c = true

/-- Where an outer call stands, from where its inner call stands. -/
inductive At (Inner : C' → C → (R → R') → Prop)
    (T : C → Prog κ ν τ R → VStore κ ν τ → Prop) :
    C' → Prog κ ν τ R' → VStore κ ν τ → Prop where
  | inner {c' : C'} {c : C} {f : R → R'} {p : Prog κ ν τ R} {s : VStore κ ν τ}
      (hc : Inner c' c f) (hT : T c p s) : At Inner T c' (p.map f) s
  | done (c' : C') (r' : R') (s : VStore κ ν τ) : At Inner T c' (.done r') s

/-- What an outer call does, from what its inner call does. -/
inductive OuterSpec (S' : Server C' κ ν τ R') (Inner : C' → C → (R → R') → Prop)
    (spec : C → A → R → A → Prop) : C' → A → R' → A → Prop where
  | inner {c' : C'} {c : C} {f : R → R'} {a a' : A} {r : R} (hc : Inner c' c f)
      (hspec : spec c a r a') : OuterSpec S' Inner spec c' a (f r) a'
  | immediate {c' : C'} {r' : R'} (a : A) (hc : S'.code c' = .done r') :
      OuterSpec S' Inner spec c' a r' a

variable {S : Server C κ ν τ R} {S' : Server C' κ ν τ R'}
  {Inner : C' → C → (R → R') → Prop}

theorem At.start (W : Wraps S S' Inner)
    {T : C → Prog κ ν τ R → VStore κ ν τ → Prop} {s : VStore κ ν τ}
    (hstart : ∀ c, T c (S.code c) s) (c' : C') : At Inner T c' (S'.code c') s := by
  rcases W.code c' with ⟨r', hdone⟩ | ⟨c, f, hc, hcode⟩
  · rw [hdone]
    exact .done c' r' s
  · rw [hcode]
    exact .inner hc (hstart c)

theorem done_of_map_done {f : R → R'} {p : Prog κ ν τ R} {r' : R'}
    (h : p.map f = .done r') : ∃ r, p = .done r ∧ f r = r' := by
  cases p with
  | done r =>
      simp only [Prog.map_done, Prog.done.injEq] at h
      exact ⟨r, rfl, h⟩
  | get k next => cases h
  | store k mode v next => cases h
  | delete k next => cases h

variable [DecidableEq κ] [DecidableEq τ]

/-- The invariants of the inner server hold of the outer one. -/
theorem Wraps.relyGuarantee (W : Wraps S S' Inner) {I : VStore κ ν τ → Prop}
    {T : C → Prog κ ν τ R → VStore κ ν τ → Prop} (rg : RelyGuarantee S I T) :
    RelyGuarantee S' I (At Inner T) where
  start := fun hI => .start W (fun _ => rg.start hI) _
  access := by
    intro c' p' s t hI h ht
    cases h with
    | inner hc hT =>
        rw [Prog.access_map]
        have hown := rg.access hI hT ((Prog.admits_map _ s t _).mp ht)
        exact ⟨hown.1, .inner hc hown.2⟩
    | done => exact ⟨hI, .done c' _ s⟩
  fault := by
    intro c' p' s debug hf h
    cases h with
    | inner hc hT =>
        rw [Prog.fault_map]
        exact .inner hc (rg.fault (W.mayFault hc hf) hT)
    | done => exact .done c' _ s
  stable := by
    intro c' p' s s' h hE
    cases h with
    | inner hc hT => exact .inner hc (rg.stable hT hE)
    | done => exact .done c' _ s'
  reclaim := rg.reclaim

/-- **An outer call takes effect where its inner call does.** -/
theorem Wraps.commitsLast (W : Wraps S S' Inner) {I : VStore κ ν τ → Prop}
    {T : C → Prog κ ν τ R → VStore κ ν τ → Prop} {abs : VStore κ ν τ → A}
    {spec : C → A → R → A → Prop} {remove : κ → A → A}
    (hc : CommitsLast S I T abs spec remove) :
    CommitsLast S' I (At Inner T) abs (OuterSpec S' Inner spec) remove where
  immediate := by
    intro c' r' a h
    rcases W.code c' with ⟨r₀, hdone⟩ | ⟨c, f, hin, hcode⟩
    · exact .immediate a h
    · rw [hcode] at h
      obtain ⟨r, hr, rfl⟩ := done_of_map_done h
      exact .inner hin (hc.immediate hr)
  silent := by
    intro c' p' s t hI h ht hq
    cases h with
    | inner hin hT =>
        rw [Prog.access_map] at hq ⊢
        exact hc.silent hI hT ((Prog.admits_map _ s t _).mp ht)
          ((Prog.pending_map _ _).symm.trans hq)
    | done => cases hq
  commit := by
    intro c' p' s t r' hI h hp ht hr
    cases h with
    | inner hin hT =>
        rw [Prog.access_map] at hr ⊢
        obtain ⟨r, hdone, rfl⟩ := done_of_map_done hr
        exact .inner hin (hc.commit hI hT ((Prog.pending_map _ _).symm.trans hp)
          ((Prog.admits_map _ s t _).mp ht) hdone)
    | done => cases hp
  failed := by
    intro c' p' s debug r' hI h hp hf hr
    cases h with
    | inner hin hT =>
        rw [Prog.fault_map] at hr
        obtain ⟨r, hdone, rfl⟩ := done_of_map_done hr
        exact .inner hin (hc.failed hI hT ((Prog.pending_map _ _).symm.trans hp)
          (W.mayFault hin hf) hdone)
    | done => cases hp
  reclaim := hc.reclaim

end RestToA2a.Verified.Wrapping
