import RestToA2a.Verified.Footprint

/-!
# An entry that nobody replaces

`Leaves k e Q p` says that `p`, run while `k` holds the entry `e`, neither writes
nor deletes there and ends in `Q`.  If every call of a pool either is of this
kind or does not touch `k` at all, the entry outlasts every run in which the
backend does not remove it, and the calls of the first kind end as their `Q` says
(`stands_of_run`).
-/

namespace RestToA2a.Verified.Standing

open RestToA2a.Verified.VersionedStore
open RestToA2a.Verified.StorageProgram
open RestToA2a.Verified.ProgramPool
open RestToA2a.Verified.Linearizable
open RestToA2a.Verified.Contention
open RestToA2a.Verified.Footprint

variable {C κ ν τ R α β : Type}

/-- The program leaves the entry `e` of `k` alone and ends in `Q`.  Its writes
are refused, since they want the key absent or at another version. -/
def Leaves (k : κ) (e : ν × τ) (Q : α → Prop) : Prog κ ν τ α → Prop
  | .done a => Q a
  | .get k' next =>
      k' = k ∧ Leaves k e Q (next (.ok (some e))) ∧
        ∀ debug, Leaves k e Q (next (.error (.other debug)))
  | .store k' mode _ next =>
      k' = k ∧ mode ≠ .cas e.2 ∧ Leaves k e Q (next (.error .casMismatch)) ∧
        ∀ debug, Leaves k e Q (next (.error (.other debug)))
  | .delete _ _ => False

/-- The program makes no access to `k`. -/
def Apart (k : κ) (p : Prog κ ν τ α) : Prop := Every (fun a => a.key ≠ k) p

theorem leaves_map {k : κ} {e : ν × τ} {Q : β → Prop} {f : α → β}
    {p : Prog κ ν τ α} (h : Leaves k e (fun a => Q (f a)) p) :
    Leaves k e Q (p.map f) := by
  induction p with
  | done a => exact h
  | get k' next ih => exact ⟨h.1, ih _ h.2.1, fun debug => ih _ (h.2.2 debug)⟩
  | store k' mode v next ih =>
      exact ⟨h.1, h.2.1, ih _ h.2.2.1, fun debug => ih _ (h.2.2.2 debug)⟩
  | delete k' next ih => exact h

theorem Leaves.mono {k : κ} {e : ν × τ} {P Q : α → Prop} (hPQ : ∀ a, P a → Q a)
    {p : Prog κ ν τ α} (h : Leaves k e P p) : Leaves k e Q p := by
  induction p with
  | done a => exact hPQ a h
  | get k' next ih => exact ⟨h.1, ih _ h.2.1, fun debug => ih _ (h.2.2 debug)⟩
  | store k' mode v next ih =>
      exact ⟨h.1, h.2.1, ih _ h.2.2.1, fun debug => ih _ (h.2.2.2 debug)⟩
  | delete k' next ih => exact h

theorem Leaves.fault {k : κ} {e : ν × τ} {Q : α → Prop} {p : Prog κ ν τ α}
    (h : Leaves k e Q p) (debug : String) : Leaves k e Q (p.fault debug) := by
  cases p with
  | done a => exact h
  | get k' next => exact h.2.2 debug
  | store k' mode v next => exact h.2.2.2 debug
  | delete k' next => exact h.elim

/-- A write that wants the key absent or at another version is refused. -/
theorem not_accepts {k : κ} {e : ν × τ} {s : VStore κ ν τ} {mode : StoreMode τ}
    (he : s.entries k = some e) (hmode : mode ≠ .cas e.2) :
    ¬ s.Accepts k mode := by
  cases mode with
  | absent => simp [VStore.Accepts, he]
  | cas version =>
      rintro ⟨w, hw⟩
      rw [he] at hw
      cases hw
      exact hmode rfl

section Accesses

variable [DecidableEq κ] [DecidableEq τ] {k : κ} {e : ν × τ} {s : VStore κ ν τ}

theorem Leaves.access {Q : α → Prop} {p : Prog κ ν τ α} (h : Leaves k e Q p)
    (he : s.entries k = some e) (t : τ) :
    Leaves k e Q (p.access s t).1 ∧ (p.access s t).2.entries k = some e := by
  cases p with
  | done a => exact ⟨h, he⟩
  | get k' next =>
      obtain ⟨rfl, hfound, _⟩ := h
      simp only [Prog.access, he]
      exact ⟨hfound, trivial⟩
  | store k' mode v next =>
      obtain ⟨rfl, hmode, hrefused, _⟩ := h
      simp only [Prog.access, VStore.store_of_not_accepts (not_accepts he hmode)]
      exact ⟨hrefused, he⟩
  | delete k' next => exact h.elim

theorem Apart.access {p : Prog κ ν τ α} (h : Apart k p) (t : τ) :
    (p.access s t).2.entries k = s.entries k := by
  cases p with
  | done a => rfl
  | get k' next => rfl
  | store k' mode v next =>
      have hk : k ≠ k' := Ne.symm h.1
      simp only [Prog.access]
      rcases VStore.store_cases s k' mode v t with ⟨_, hw⟩ | ⟨_, hw⟩
      · rw [hw]
        exact VStore.entries_write_ne _ _ _ hk
      · rw [hw]
  | delete k' next =>
      have hk : k ≠ k' := Ne.symm h.1
      exact VStore.entries_erase_ne _ hk

end Accesses

/-! ## Whole runs -/

/-- What a call of a pool has left to do spares the entry. -/
structure Spares (k : κ) (e : ν × τ) (mine : C → Prop) (Q : C → R → Prop) (c : C)
    (p : Prog κ ν τ R) : Prop where
  leaves : mine c → Leaves k e (Q c) p
  apart : ¬ mine c → Apart k p

variable [DecidableEq κ] [DecidableEq τ] {S : Server C κ ν τ R} {k : κ} {e : ν × τ}
  {mine : C → Prop} {Q : C → R → Prop}

theorem Spares.access {c : C} {p : Prog κ ν τ R} (h : Spares k e mine Q c p)
    {s : VStore κ ν τ} (he : s.entries k = some e) (t : τ) :
    Spares k e mine Q c (p.access s t).1 ∧ (p.access s t).2.entries k = some e := by
  refine ⟨⟨fun hc => ((h.leaves hc).access he t).1, fun hc => ?_⟩, ?_⟩
  · exact Every.access (h.apart hc) s t
  · by_cases hc : mine c
    · exact ((h.leaves hc).access he t).2
    · rw [(h.apart hc).access t]
      exact he

omit [DecidableEq κ] [DecidableEq τ] in
theorem Spares.fault {c : C} {p : Prog κ ν τ R} (h : Spares k e mine Q c p)
    (debug : String) : Spares k e mine Q c (p.fault debug) :=
  ⟨fun hc => (h.leaves hc).fault debug, fun hc => Every.fault (h.apart hc) debug⟩

/-- The entry is there, and every call spares it. -/
structure Stands (k : κ) (e : ν × τ) (mine : C → Prop) (Q : C → R → Prop)
    (s : Pool C κ ν τ R) : Prop where
  entry : s.store.entries k = some e
  calls : ∀ {i c p}, remaining (s.calls i) = some (c, p) → Spares k e mine Q c p

theorem Stands.step (hcode : ∀ c, Spares k e mine Q c (S.code c))
    {s s' : Pool C κ ν τ R} {a : Action C κ τ} (h : Stands k e mine Q s)
    (ha : Step S s a s') (hkeep : a ≠ .reclaim k) : Stands k e mine Q s' where
  entry := by
    cases ha with
    | invoke hi he => exact h.entry
    | fault hi hp hf => exact h.entry
    | ret hi => exact h.entry
    | @access i t c p hi hp ht =>
        have hspares : Spares k e mine Q c p := h.calls (by rw [hi]; rfl)
        exact (hspares.access h.entry t).2
    | @reclaim k' =>
        have hk : k ≠ k' := by
          rintro rfl
          exact hkeep rfl
        exact (VStore.entries_erase_ne s.store hk).trans h.entry
  calls := by
    intro i c p hi
    by_cases hop : operates i a = true
    · obtain ⟨c', p₀, p', hbefore, _, hafter, hdone⟩ := operation_of_step ha hop
      rw [hi] at hafter
      cases hafter
      rcases hdone with ⟨t, haccess⟩ | ⟨debug, _, rfl, _⟩
      · have hkept := ((h.calls hbefore).access h.entry t).1
        rwa [haccess] at hkept
      · exact (h.calls hbefore).fault debug
    · rcases remaining_step ha (by simpa using hop) with hsame | ⟨_, c', hnew⟩
      · exact h.calls (hsame ▸ hi)
      · rw [hi] at hnew
        cases hnew
        exact hcode c

/-- **The entry stays.**  If every call spares it and the backend does not remove
it, the key has it still, under the same version, and each of the calls that came
upon it ended as it had to. -/
theorem stands_of_run (hcode : ∀ c, Spares k e mine Q c (S.code c))
    {s₀ : VStore κ ν τ} {s : Pool C κ ν τ R} {acts : List (Action C κ τ)}
    (hr : Run S (Pool.fresh s₀) acts s) (he : s₀.entries k = some e)
    (hkeep : .reclaim k ∉ acts) :
    s.store.entries k = some e ∧
      ∀ i c r, outcome (s.calls i) = some (c, r) → mine c → Q c r := by
  have hstands : Stands k e mine Q s := by
    induction hr with
    | nil => exact ⟨he, fun hi => by cases hi⟩
    | @snoc acts s s' a hr ha ih =>
        have hbefore := ih fun hk => hkeep (List.mem_append_left _ hk)
        refine hbefore.step hcode ha ?_
        rintro rfl
        exact hkeep (by simp)
  exact ⟨hstands.entry, fun i c r hi hc =>
    (hstands.calls (remaining_of_outcome hi)).leaves hc⟩

end RestToA2a.Verified.Standing
