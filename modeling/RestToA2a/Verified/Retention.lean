import RestToA2a.Verified.Footprint

/-!
# Runs in time

A backend that gives every entry the same lifetime removes it once that long has
passed since it was last written.  A `TimedPool` is a pool with the time, and
the time each key was last written.  When every value is written with an expiry
within that lifetime of the time its writer read, nothing the backend removes is
still in date (`TimedStep.reclaimed`).
-/

namespace RestToA2a.Verified.Retention

open RestToA2a.Verified.VersionedStore
open RestToA2a.Verified.StorageProgram
open RestToA2a.Verified.ProgramPool
open RestToA2a.Verified.Footprint

/-- A pool, the time, and when each key was last written or removed. -/
structure TimedPool (C κ ν τ R : Type) where
  now : Nat
  written : κ → Nat
  pool : Pool C κ ν τ R

variable {C κ ν τ R : Type} [DecidableEq κ] [DecidableEq τ]

/-- A step on a backend whose entries live for `life`.  A call has read the
clock, as `reads`, by the time it is made. -/
structure TimedStep (S : Server C κ ν τ R) (life : Nat) (reads : C → Nat)
    (s : TimedPool C κ ν τ R) (a : Action C κ τ) (s' : TimedPool C κ ν τ R) :
    Prop where
  step : Step S s.pool a s'.pool
  time : s.now ≤ s'.now
  read : ∀ {i c}, a = .invoke i c → reads c ≤ s'.now
  life : ∀ {k}, a = .reclaim k → s.pool.store.entries k ≠ none →
    s.written k + life ≤ s'.now
  kept : ∀ {k}, s'.pool.store.entries k = s.pool.store.entries k →
    s'.written k = s.written k
  changed : ∀ {k}, s'.pool.store.entries k ≠ s.pool.store.entries k →
    s'.written k = s'.now

/-- A run in time, from the empty map. -/
inductive TimedRun (S : Server C κ ν τ R) (life : Nat) (reads : C → Nat) :
    List (Action C κ τ) → TimedPool C κ ν τ R → Prop where
  | nil (now : Nat) (written : κ → Nat) :
      TimedRun S life reads [] ⟨now, written, Pool.fresh VStore.empty⟩
  | snoc {acts : List (Action C κ τ)} {s s' : TimedPool C κ ν τ R}
      {a : Action C κ τ} (hr : TimedRun S life reads acts s)
      (ha : TimedStep S life reads s a s') : TimedRun S life reads (acts ++ [a]) s'

variable {S : Server C κ ν τ R} {life : Nat} {reads : C → Nat}
  {acts : List (Action C κ τ)} {s s' : TimedPool C κ ν τ R}

theorem TimedRun.run (h : TimedRun S life reads acts s) :
    Run S (Pool.fresh VStore.empty) acts s.pool := by
  induction h with
  | nil => exact .nil
  | snoc hr ha ih => exact .snoc ih ha.step

/-- No call has read a time that has not come. -/
theorem TimedRun.reads_le (h : TimedRun S life reads acts s) {i : Nat} {c : C}
    (hi : (s.pool.calls i).call = some c) : reads c ≤ s.now := by
  induction h with
  | nil => cases hi
  | snoc hr ha ih =>
      rcases ha.step.call_cases hi with hold | ⟨hmade, _⟩
      · exact (ih hold).trans ha.time
      · exact ha.read hmade

/-- A run without removals can take place at any time its calls have not read
past. -/
theorem TimedRun.of_run {now : Nat} {s : Pool C κ ν τ R}
    (hr : Run S (Pool.fresh VStore.empty) acts s)
    (hreads : ∀ i c, .invoke i c ∈ acts → reads c ≤ now)
    (hkeeps : ∀ k, .reclaim k ∉ acts) :
    TimedRun S life reads acts ⟨now, fun _ => now, s⟩ := by
  induction hr with
  | nil => exact .nil now _
  | @snoc acts s s' a hr ha ih =>
      have hrun := ih (fun i c hic => hreads i c (List.mem_append_left _ hic))
        fun k hk => hkeeps k (List.mem_append_left _ hk)
      refine .snoc hrun ⟨ha, le_rfl, ?_, ?_, fun _ => rfl, fun _ => rfl⟩
      · rintro i c rfl
        exact hreads i c (by simp)
      · rintro k rfl
        exact absurd (by simp) (hkeeps k)

/-- A removal that is due can take place. -/
theorem TimedStep.removal {k : κ} {e : ν × τ} {now : Nat}
    (he : s.pool.store.entries k = some e) (htime : s.now ≤ now)
    (hdue : s.written k + life ≤ now) :
    TimedStep S life reads s (.reclaim k)
      ⟨now, Function.update s.written k now,
        ⟨s.pool.store.erase k, s.pool.calls⟩⟩ where
  step := .reclaim
  time := htime
  read := fun h => nomatch h
  life := by
    rintro k' ⟨⟩ _
    exact hdue
  kept := by
    intro k' hk'
    by_cases hkey : k' = k
    · subst hkey
      rw [VStore.entries_erase_self, he] at hk'
      cases hk'
    · exact Function.update_of_ne hkey _ _
  changed := by
    intro k' hk'
    by_cases hkey : k' = k
    · subst hkey
      exact Function.update_self _ _ _
    · exact absurd (VStore.entries_erase_ne _ hkey) hk'

variable {P : C → Access κ ν τ → Prop} {expiry : ν → Nat}

/-- An entry expires within its lifetime of when it was written. -/
theorem TimedRun.expiry_le (hcode : ∀ c, Every (P c) (S.code c))
    (hexpiry : ∀ {c k mode v}, P c (.store k mode v) → expiry v ≤ reads c + life)
    (h : TimedRun S life reads acts s) {k : κ} {e : ν × τ}
    (he : s.pool.store.entries k = some e) : expiry e.1 ≤ s.written k + life := by
  induction h with
  | nil => cases he
  | @snoc acts s s' a hr ha ih =>
      by_cases hsame : s'.pool.store.entries k = s.pool.store.entries k
      · rw [ha.kept hsame]
        exact ih (hsame ▸ he)
      · rw [ha.changed hsame]
        rcases writer_of_step hcode hr.run ha.step he with hold | ⟨i, c, mode, hi, hP⟩
        · exact absurd (he.trans hold.symm) hsame
        · have hreads := hr.reads_le hi
          have htime := ha.time
          have hv := hexpiry hP
          omega

/-- **What the backend removes has expired.** -/
theorem TimedStep.reclaimed (hcode : ∀ c, Every (P c) (S.code c))
    (hexpiry : ∀ {c k mode v}, P c (.store k mode v) → expiry v ≤ reads c + life)
    (hr : TimedRun S life reads acts s) {k : κ}
    (ha : TimedStep S life reads s (.reclaim k) s') {e : ν × τ}
    (he : s.pool.store.entries k = some e) : expiry e.1 ≤ s'.now := by
  have hwritten := ha.life rfl (by rw [he]; simp)
  exact (hr.expiry_le hcode hexpiry he).trans hwritten

end RestToA2a.Verified.Retention
