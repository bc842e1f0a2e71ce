import RestToA2a.Verified.VersionedStore

/-!
# Programs over a versioned map

A `Prog` is what one party does between two returns: a tree whose nodes are
the atomic accesses to the map and whose branches are the continuations on
the access's answer.  It has two meanings here.  `access` performs the next
atomic access only, which is the grain at which parties interleave; `run`
performs the whole program with nobody else on the map.

Everything a program does to the map is an `Evolves` step, whatever the
program is, so what a party knows about a version token survives the accesses
of all the others.
-/

namespace RestToA2a.Verified.StorageProgram

open RestToA2a.Verified.VersionedStore

/-- A program over the map that ends with an `α`. -/
inductive Prog (κ ν τ α : Type) where
  | done (a : α)
  | get (k : κ) (next : Except StorageError (Option (ν × τ)) → Prog κ ν τ α)
  | store (k : κ) (mode : StoreMode τ) (v : ν)
      (next : Except StorageError Unit → Prog κ ν τ α)
  | delete (k : κ) (next : Except StorageError Unit → Prog κ ν τ α)

namespace Prog

variable {κ ν τ α β : Type}

/-- Post-process the result. -/
def map (f : α → β) : Prog κ ν τ α → Prog κ ν τ β
  | .done a => .done (f a)
  | .get k next => .get k fun r => (next r).map f
  | .store k mode v next => .store k mode v fun r => (next r).map f
  | .delete k next => .delete k fun r => (next r).map f

@[simp] theorem map_done (f : α → β) (a : α) :
    (Prog.done a : Prog κ ν τ α).map f = .done (f a) := rfl

theorem map_map {γ : Type} (f : α → β) (g : β → γ) (p : Prog κ ν τ α) :
    (p.map f).map g = p.map (g ∘ f) := by
  induction p with
  | done a => rfl
  | get k next ih => simp only [map, ih]
  | store k mode v next ih => simp only [map, ih]
  | delete k next ih => simp only [map, ih]

/-- The program has an access left to make. -/
def pending : Prog κ ν τ α → Bool
  | .done _ => false
  | _ => true

@[simp] theorem pending_map (f : α → β) (p : Prog κ ν τ α) :
    (p.map f).pending = p.pending := by
  cases p <;> rfl

theorem eq_done_of_not_pending {p : Prog κ ν τ α} (h : p.pending = false) :
    ∃ a, p = .done a := by
  cases p with
  | done a => exact ⟨a, rfl⟩
  | get k next => cases h
  | store k mode v next => cases h
  | delete k next => cases h

/-- The next access fails with an error of the backend and writes nothing. -/
def fault (debug : String) : Prog κ ν τ α → Prog κ ν τ α
  | .done a => .done a
  | .get _ next => next (.error (.other debug))
  | .store _ _ _ next => next (.error (.other debug))
  | .delete _ next => next (.error (.other debug))

theorem fault_map (f : α → β) (debug : String) (p : Prog κ ν τ α) :
    (p.map f).fault debug = (p.fault debug).map f := by
  cases p <;> rfl

/-- The token `t` may be handed to the next access of the program: a write
gets a token its key has never carried. -/
def Admits (s : VStore κ ν τ) (t : τ) : Prog κ ν τ α → Prop
  | .store k _ _ _ => t ∉ s.used k
  | _ => True

instance [DecidableEq τ] (s : VStore κ ν τ) (t : τ) (p : Prog κ ν τ α) :
    Decidable (p.Admits s t) := by
  cases p <;> unfold Admits <;> infer_instance

@[simp] theorem admits_map (f : α → β) (s : VStore κ ν τ) (t : τ)
    (p : Prog κ ν τ α) : (p.map f).Admits s t ↔ p.Admits s t := by
  cases p <;> rfl

/-- The program can end with `a`, for some answers to its accesses. -/
def Ends (a : α) : Prog κ ν τ α → Prop
  | .done b => b = a
  | .get _ next => ∃ r, (next r).Ends a
  | .store _ _ _ next => ∃ r, (next r).Ends a
  | .delete _ next => ∃ r, (next r).Ends a

/-- A mapped program ends with the images of the ends. -/
theorem ends_map {f : α → β} {b : β} {p : Prog κ ν τ α} (h : (p.map f).Ends b) :
    ∃ a, p.Ends a ∧ f a = b := by
  induction p with
  | done a => exact ⟨a, rfl, h⟩
  | get k next ih =>
      obtain ⟨r, hr⟩ := h
      obtain ⟨a, ha, hf⟩ := ih r hr
      exact ⟨a, ⟨r, ha⟩, hf⟩
  | store k mode v next ih =>
      obtain ⟨r, hr⟩ := h
      obtain ⟨a, ha, hf⟩ := ih r hr
      exact ⟨a, ⟨r, ha⟩, hf⟩
  | delete k next ih =>
      obtain ⟨r, hr⟩ := h
      obtain ⟨a, ha, hf⟩ := ih r hr
      exact ⟨a, ⟨r, ha⟩, hf⟩

/-- A failing access leaves ends the program had. -/
theorem ends_of_fault {a : α} {debug : String} {p : Prog κ ν τ α}
    (h : (p.fault debug).Ends a) : p.Ends a := by
  cases p with
  | done b => exact h
  | get k next => exact ⟨_, h⟩
  | store k mode v next => exact ⟨_, h⟩
  | delete k next => exact ⟨_, h⟩

section Access

variable [DecidableEq κ] [DecidableEq τ]

/-- Perform the next atomic access, a successful write installing `t`. -/
def access (s : VStore κ ν τ) (t : τ) :
    Prog κ ν τ α → Prog κ ν τ α × VStore κ ν τ
  | .done a => (.done a, s)
  | .get k next => (next (.ok (s.entries k)), s)
  | .store k mode v next =>
      (next (s.store k mode v t).1, (s.store k mode v t).2)
  | .delete k next => (next (.ok ()), s.erase k)

theorem access_map (f : α → β) (s : VStore κ ν τ) (t : τ) (p : Prog κ ν τ α) :
    (p.map f).access s t = ((p.access s t).1.map f, (p.access s t).2) := by
  cases p <;> rfl

/-- Whatever the program is, one access of it is a step of interference. -/
theorem evolves_access (s : VStore κ ν τ) {t : τ} {p : Prog κ ν τ α}
    (h : p.Admits s t) : Evolves s (p.access s t).2 := by
  cases p with
  | done a => exact Evolves.refl s
  | get k next => exact Evolves.refl s
  | store k mode v next => exact evolves_store s k mode v h
  | delete k next => exact evolves_erase s k

/-- An access leaves ends the program had. -/
theorem ends_of_access {a : α} {s : VStore κ ν τ} {t : τ} {p : Prog κ ν τ α}
    (h : (p.access s t).1.Ends a) : p.Ends a := by
  cases p with
  | done b => exact h
  | get k next => exact ⟨_, h⟩
  | store k mode v next => exact ⟨_, h⟩
  | delete k next => exact ⟨_, h⟩

end Access

/-! ## Running alone -/

end Prog

/-- A supply of tokens for a party that runs alone: the token for the next
write of `k`, never one that `k` has carried. -/
structure Mint (κ ν τ : Type) where
  token : VStore κ ν τ → κ → τ
  fresh : ∀ s k, token s k ∉ s.used k

/-- Tokens as a counter: one more than the sum of those used. -/
def Mint.counter {κ ν : Type} : Mint κ ν Nat where
  token := fun s k => (s.used k).sum + 1
  fresh := by
    intro s k h
    have hle : ∀ l : List Nat, ∀ t ∈ l, t ≤ l.sum := by
      intro l
      induction l with
      | nil => intro t ht; cases ht
      | cons x xs ih =>
          intro t ht
          rw [List.sum_cons]
          rcases List.mem_cons.mp ht with rfl | hx
          · omega
          · have := ih t hx
            omega
    have := hle _ _ h
    omega

namespace Prog

variable {κ ν τ α β : Type} [DecidableEq κ] [DecidableEq τ]

/-- The whole program on a map nobody else touches and whose accesses raise
no errors. -/
def run (m : Mint κ ν τ) : Prog κ ν τ α → VStore κ ν τ → α × VStore κ ν τ
  | .done a, s => (a, s)
  | .get k next, s => (next (.ok (s.entries k))).run m s
  | .store k mode v next, s =>
      (next (s.store k mode v (m.token s k)).1).run m
        (s.store k mode v (m.token s k)).2
  | .delete k next, s => (next (.ok ())).run m (s.erase k)

@[simp] theorem run_done (m : Mint κ ν τ) (a : α) (s : VStore κ ν τ) :
    (Prog.done a).run m s = (a, s) := rfl

@[simp] theorem run_get (m : Mint κ ν τ) (k : κ)
    (next : Except StorageError (Option (ν × τ)) → Prog κ ν τ α)
    (s : VStore κ ν τ) :
    (Prog.get k next).run m s = (next (.ok (s.entries k))).run m s := rfl

@[simp] theorem run_delete (m : Mint κ ν τ) (k : κ)
    (next : Except StorageError Unit → Prog κ ν τ α) (s : VStore κ ν τ) :
    (Prog.delete k next).run m s = (next (.ok ())).run m (s.erase k) := rfl

theorem run_store_of_accepts (m : Mint κ ν τ) {k : κ} {mode : StoreMode τ}
    {s : VStore κ ν τ} (h : s.Accepts k mode) (v : ν)
    (next : Except StorageError Unit → Prog κ ν τ α) :
    (Prog.store k mode v next).run m s =
      (next (.ok ())).run m (s.write k v (m.token s k)) := by
  simp only [run, VStore.store_of_accepts h]

theorem run_store_of_not_accepts (m : Mint κ ν τ) {k : κ} {mode : StoreMode τ}
    {s : VStore κ ν τ} (h : ¬ s.Accepts k mode) (v : ν)
    (next : Except StorageError Unit → Prog κ ν τ α) :
    (Prog.store k mode v next).run m s =
      (next (.error .casMismatch)).run m s := by
  simp only [run, VStore.store_of_not_accepts h]

theorem ends_run (m : Mint κ ν τ) (p : Prog κ ν τ α) (s : VStore κ ν τ) :
    p.Ends (p.run m s).1 := by
  induction p generalizing s with
  | done a => rfl
  | get k next ih => exact ⟨_, ih _ s⟩
  | store k mode v next ih => exact ⟨_, ih _ _⟩
  | delete k next ih => exact ⟨_, ih _ _⟩

theorem run_map (m : Mint κ ν τ) (f : α → β) (p : Prog κ ν τ α)
    (s : VStore κ ν τ) :
    (p.map f).run m s = (f (p.run m s).1, (p.run m s).2) := by
  induction p generalizing s with
  | done a => rfl
  | get k next ih => exact ih _ s
  | store k mode v next ih => exact ih _ _
  | delete k next ih => exact ih _ _

end Prog

end RestToA2a.Verified.StorageProgram
