import RestToA2a.Verified.StorageProgram

/-!
# Any number of programs on one map

A pool is a map and an unbounded family of calls, each idle, running a
program, or returned.  An action invokes a call, performs one atomic access
of one call, lets one access fail, returns a finished call, or removes a key
on behalf of the backend.  A run is any sequence of actions the pool can take,
so every interleaving of every number of calls is one.

Two rules package the inductions.  `Run.preserves` carries any predicate that
single steps preserve.  `RelyGuarantee.run` does the same for a predicate of
one call at a time: it asks what the call's own access does, and that the
predicate survives interference (`Evolves`), and never looks at two calls at
once.
-/

namespace RestToA2a.Verified.ProgramPool

open RestToA2a.Verified.VersionedStore
open RestToA2a.Verified.StorageProgram

/-- Where a call stands. -/
inductive Phase (C κ ν τ R : Type) where
  | idle
  | running (c : C) (p : Prog κ ν τ R)
  | returned (c : C) (r : R)

/-- What a phase says about its call. -/
def Phase.call {C κ ν τ R : Type} : Phase C κ ν τ R → Option C
  | .idle => none
  | .running c _ => some c
  | .returned c _ => some c

/-- The map and the phase of every call. -/
structure Pool (C κ ν τ R : Type) where
  store : VStore κ ν τ
  calls : Nat → Phase C κ ν τ R

/-- No call has been made yet. -/
def Pool.fresh {C κ ν τ R : Type} (s : VStore κ ν τ) : Pool C κ ν τ R :=
  ⟨s, fun _ => .idle⟩

/-- The program of each call, which calls may be made in which situation, and
whose accesses the backend may fail. -/
structure Server (C κ ν τ R : Type) where
  code : C → Prog κ ν τ R
  enabled : (Nat → Phase C κ ν τ R) → C → Bool
  mayFault : C → Bool

/-- One event of a run. -/
inductive Action (C κ τ : Type) where
  | invoke (i : Nat) (c : C)
  | access (i : Nat) (t : τ)
  | fault (i : Nat) (debug : String)
  | ret (i : Nat)
  | reclaim (k : κ)

section Steps

variable {C κ ν τ R : Type} [DecidableEq κ] [DecidableEq τ]

/-- What each action does, and when the pool can take it. -/
inductive Step (S : Server C κ ν τ R) (s : Pool C κ ν τ R) :
    Action C κ τ → Pool C κ ν τ R → Prop where
  | invoke {i : Nat} {c : C} (hi : s.calls i = .idle)
      (he : S.enabled s.calls c = true) :
      Step S s (.invoke i c)
        ⟨s.store, Function.update s.calls i (.running c (S.code c))⟩
  | access {i : Nat} {t : τ} {c : C} {p : Prog κ ν τ R}
      (hi : s.calls i = .running c p) (hp : p.pending = true)
      (ht : p.Admits s.store t) :
      Step S s (.access i t)
        ⟨(p.access s.store t).2,
          Function.update s.calls i (.running c (p.access s.store t).1)⟩
  | fault {i : Nat} {debug : String} {c : C} {p : Prog κ ν τ R}
      (hi : s.calls i = .running c p) (hp : p.pending = true)
      (hf : S.mayFault c = true) :
      Step S s (.fault i debug)
        ⟨s.store, Function.update s.calls i (.running c (p.fault debug))⟩
  | ret {i : Nat} {c : C} {r : R} (hi : s.calls i = .running c (.done r)) :
      Step S s (.ret i) ⟨s.store, Function.update s.calls i (.returned c r)⟩
  | reclaim {k : κ} : Step S s (.reclaim k) ⟨s.store.erase k, s.calls⟩

/-- `Step` as a function, for evaluating a given run. -/
def step? (S : Server C κ ν τ R) (s : Pool C κ ν τ R) :
    Action C κ τ → Option (Pool C κ ν τ R)
  | .invoke i c =>
      match s.calls i with
      | .idle =>
          if S.enabled s.calls c then
            some ⟨s.store, Function.update s.calls i (.running c (S.code c))⟩
          else none
      | _ => none
  | .access i t =>
      match s.calls i with
      | .running c p =>
          if p.pending = true ∧ p.Admits s.store t then
            some ⟨(p.access s.store t).2,
              Function.update s.calls i (.running c (p.access s.store t).1)⟩
          else none
      | _ => none
  | .fault i debug =>
      match s.calls i with
      | .running c p =>
          if p.pending = true ∧ S.mayFault c = true then
            some ⟨s.store,
              Function.update s.calls i (.running c (p.fault debug))⟩
          else none
      | _ => none
  | .ret i =>
      match s.calls i with
      | .running c (.done r) =>
          some ⟨s.store, Function.update s.calls i (.returned c r)⟩
      | _ => none
  | .reclaim k => some ⟨s.store.erase k, s.calls⟩

theorem step_of_step? {S : Server C κ ν τ R} {s s' : Pool C κ ν τ R}
    {a : Action C κ τ} (h : step? S s a = some s') : Step S s a s' := by
  cases a with
  | invoke i c =>
      simp only [step?] at h
      split at h
      · rename_i hi
        split at h
        · rename_i he
          cases h
          exact .invoke hi he
        · cases h
      · cases h
  | access i t =>
      simp only [step?] at h
      split at h
      · rename_i c p hi
        split at h
        · rename_i hp
          cases h
          exact .access hi hp.1 hp.2
        · cases h
      · cases h
  | fault i debug =>
      simp only [step?] at h
      split at h
      · rename_i c p hi
        split at h
        · rename_i hp
          cases h
          exact .fault hi hp.1 hp.2
        · cases h
      · cases h
  | ret i =>
      simp only [step?] at h
      split at h
      · rename_i c r hi
        cases h
        exact .ret hi
      · cases h
  | reclaim k =>
      simp only [step?] at h
      cases h
      exact .reclaim

/-- A run, its actions in the order they were taken. -/
inductive Run (S : Server C κ ν τ R) (s₀ : Pool C κ ν τ R) :
    List (Action C κ τ) → Pool C κ ν τ R → Prop where
  | nil : Run S s₀ [] s₀
  | snoc {acts : List (Action C κ τ)} {s s' : Pool C κ ν τ R}
      {a : Action C κ τ} (hr : Run S s₀ acts s) (ha : Step S s a s') :
      Run S s₀ (acts ++ [a]) s'

theorem Run.single {S : Server C κ ν τ R} {s s' : Pool C κ ν τ R}
    {a : Action C κ τ} (h : Step S s a s') : Run S s [a] s' :=
  Run.snoc (.nil : Run S s [] s) h

theorem Run.append {S : Server C κ ν τ R} {s₀ s₁ s₂ : Pool C κ ν τ R}
    {as bs : List (Action C κ τ)} (h₁ : Run S s₀ as s₁) (h₂ : Run S s₁ bs s₂) :
    Run S s₀ (as ++ bs) s₂ := by
  induction h₂ with
  | nil => simpa using h₁
  | snoc _ ha ih =>
      rw [← List.append_assoc]
      exact .snoc ih ha

/-- A run has taken no action, or a last one. -/
theorem Run.cases_snoc {S : Server C κ ν τ R} {s₀ s : Pool C κ ν τ R}
    {as : List (Action C κ τ)} (h : Run S s₀ as s) :
    as = [] ∧ s = s₀ ∨
      ∃ acts a s₁, as = acts ++ [a] ∧ Run S s₀ acts s₁ ∧ Step S s₁ a s := by
  cases h with
  | nil => exact Or.inl ⟨rfl, rfl⟩
  | snoc hr ha => exact Or.inr ⟨_, _, _, rfl, hr, ha⟩

theorem Run.split {S : Server C κ ν τ R} {s₀ s : Pool C κ ν τ R}
    {as bs : List (Action C κ τ)} (h : Run S s₀ (as ++ bs) s) :
    ∃ s₁, Run S s₀ as s₁ ∧ Run S s₁ bs s := by
  induction bs using List.reverseRecOn generalizing s with
  | nil => exact ⟨s, by simpa using h, .nil⟩
  | append_singleton bs b ih =>
      rcases h.cases_snoc with ⟨hnil, _⟩ | ⟨acts, a, s₂, hacts, hr, ha⟩
      · simp at hnil
      · rw [← List.append_assoc] at hacts
        obtain ⟨rfl, hb⟩ := List.append_inj' hacts rfl
        cases hb
        obtain ⟨s₁, h₁, h₂⟩ := ih hr
        exact ⟨s₁, h₁, h₂.snoc ha⟩

/-- The actions decide where a run gets. -/
theorem Step.unique {S : Server C κ ν τ R} {s s₁ s₂ : Pool C κ ν τ R}
    {a : Action C κ τ} (h₁ : Step S s a s₁) (h₂ : Step S s a s₂) : s₁ = s₂ := by
  cases h₁ with
  | invoke hi he =>
      cases h₂
      rfl
  | access hi hp ht =>
      cases h₂ with
      | access hi' hp' ht' =>
          cases hi.symm.trans hi'
          rfl
  | fault hi hp hf =>
      cases h₂ with
      | fault hi' hp' hf' =>
          cases hi.symm.trans hi'
          rfl
  | ret hi =>
      cases h₂ with
      | ret hi' =>
          cases hi.symm.trans hi'
          rfl
  | reclaim =>
      cases h₂
      rfl

theorem Run.unique {S : Server C κ ν τ R} {s₀ s₁ s₂ : Pool C κ ν τ R}
    {as : List (Action C κ τ)} (h₁ : Run S s₀ as s₁) (h₂ : Run S s₀ as s₂) :
    s₁ = s₂ := by
  induction h₁ generalizing s₂ with
  | nil =>
      rcases h₂.cases_snoc with ⟨_, rfl⟩ | ⟨acts, a, s, hacts, _⟩
      · rfl
      · simp at hacts
  | @snoc acts s s₁ a hr ha ih =>
      rcases h₂.cases_snoc with ⟨hnil, _⟩ | ⟨acts', a', s', hacts, hr', ha'⟩
      · simp at hnil
      · obtain ⟨rfl, hlast⟩ := List.append_inj' hacts rfl
        cases hlast
        cases ih hr'
        exact ha.unique ha'

/-- Take a list of actions, failing at the first one the pool cannot take. -/
def exec (S : Server C κ ν τ R) (s : Pool C κ ν τ R) :
    List (Action C κ τ) → Option (Pool C κ ν τ R)
  | [] => some s
  | a :: as => (step? S s a).bind fun s' => exec S s' as

theorem run_of_exec {S : Server C κ ν τ R} {as : List (Action C κ τ)} :
    ∀ {s s' : Pool C κ ν τ R}, exec S s as = some s' → Run S s as s' := by
  induction as with
  | nil =>
      intro s s' h
      simp only [exec, Option.some.injEq] at h
      subst h
      exact .nil
  | cons a as ih =>
      intro s s' h
      simp only [exec, Option.bind_eq_some_iff] at h
      obtain ⟨s₁, h₁, h₂⟩ := h
      exact (Run.single (step_of_step? h₁)).append (ih h₂)

/-- The run that an evaluation of its actions shows to exist. -/
theorem run_exec (S : Server C κ ν τ R) (s : Pool C κ ν τ R)
    (as : List (Action C κ τ)) (h : (exec S s as).isSome = true) :
    Run S s as ((exec S s as).get h) :=
  run_of_exec (Option.some_get h).symm

/-! ## What steps leave alone -/

/-- An action concerns at most one call. -/
def Action.actor : Action C κ τ → Option Nat
  | .invoke i _ => some i
  | .access i _ => some i
  | .fault i _ => some i
  | .ret i => some i
  | .reclaim _ => none

theorem Step.calls_ne {S : Server C κ ν τ R} {s s' : Pool C κ ν τ R}
    {a : Action C κ τ} (h : Step S s a s') {j : Nat} (hj : a.actor ≠ some j) :
    s'.calls j = s.calls j := by
  cases h <;> simp only [Action.actor, ne_eq, Option.some.injEq] at hj <;>
    first
    | rfl
    | exact Function.update_of_ne (Ne.symm hj) _ _

/-- Whatever the action, the map only evolves. -/
theorem Step.evolves {S : Server C κ ν τ R} {s s' : Pool C κ ν τ R}
    {a : Action C κ τ} (h : Step S s a s') : Evolves s.store s'.store := by
  cases h with
  | access _ _ ht => exact Prog.evolves_access s.store ht
  | reclaim => exact evolves_erase _ _
  | _ => exact Evolves.refl s.store

/-- A call that was made stays the same call. -/
theorem Step.call_mono {S : Server C κ ν τ R} {s s' : Pool C κ ν τ R}
    {a : Action C κ τ} (h : Step S s a s') {j : Nat} {c : C}
    (hc : (s.calls j).call = some c) : (s'.calls j).call = some c := by
  by_cases hj : a.actor = some j
  · cases h <;> simp only [Action.actor, Option.some.injEq, reduceCtorEq] at hj <;>
      subst hj <;> rename_i hi _ <;> simp_all [Phase.call]
  · rw [h.calls_ne hj]
    exact hc

/-- A call is there because it was there before or was just made. -/
theorem Step.call_cases {S : Server C κ ν τ R} {s s' : Pool C κ ν τ R}
    {a : Action C κ τ} (h : Step S s a s') {j : Nat} {c : C}
    (hc : (s'.calls j).call = some c) :
    (s.calls j).call = some c ∨ (a = .invoke j c ∧ S.enabled s.calls c = true) := by
  by_cases hj : a.actor = some j
  · cases h with
    | invoke hi he =>
        simp only [Action.actor, Option.some.injEq] at hj
        subst hj
        simp only [Function.update_self, Phase.call, Option.some.injEq] at hc
        subst hc
        exact Or.inr ⟨rfl, he⟩
    | access hi hp ht =>
        simp only [Action.actor, Option.some.injEq] at hj
        subst hj
        exact Or.inl (by simpa [hi, Phase.call] using hc)
    | fault hi hp hf =>
        simp only [Action.actor, Option.some.injEq] at hj
        subst hj
        exact Or.inl (by simpa [hi, Phase.call] using hc)
    | ret hi =>
        simp only [Action.actor, Option.some.injEq] at hj
        subst hj
        exact Or.inl (by simpa [hi, Phase.call] using hc)
    | reclaim => cases hj
  · rw [h.calls_ne hj] at hc
    exact Or.inl hc

/-- A call that returned has returned for good. -/
theorem Step.returned_mono {S : Server C κ ν τ R} {s s' : Pool C κ ν τ R}
    {a : Action C κ τ} (h : Step S s a s') {j : Nat} {c : C} {r : R}
    (hr : s.calls j = .returned c r) : s'.calls j = .returned c r := by
  by_cases hj : a.actor = some j
  · cases h <;> simp_all [Action.actor]
  · rw [h.calls_ne hj]
    exact hr

/-! ## Induction over runs -/

/-- What single steps preserve, runs preserve. -/
theorem Run.preserves {S : Server C κ ν τ R} (P : Pool C κ ν τ R → Prop)
    (hstep : ∀ {s s' a}, P s → Step S s a s' → P s')
    {s₀ s : Pool C κ ν τ R} {acts : List (Action C κ τ)}
    (hr : Run S s₀ acts s) (h₀ : P s₀) : P s := by
  induction hr with
  | nil => exact h₀
  | snoc _ ha ih => exact hstep ih ha

theorem Run.evolves {S : Server C κ ν τ R} {s₀ s : Pool C κ ν τ R}
    {acts : List (Action C κ τ)} (hr : Run S s₀ acts s) :
    Evolves s₀.store s.store := by
  induction hr with
  | nil => exact Evolves.refl _
  | snoc _ ha ih => exact ih.trans ha.evolves

theorem Run.call_mono {S : Server C κ ν τ R} {s₀ s : Pool C κ ν τ R}
    {acts : List (Action C κ τ)} (hr : Run S s₀ acts s) {j : Nat} {c : C}
    (hc : (s₀.calls j).call = some c) : (s.calls j).call = some c :=
  hr.preserves (fun s => (s.calls j).call = some c)
    (fun h ha => ha.call_mono h) hc

theorem Run.returned_mono {S : Server C κ ν τ R} {s₀ s : Pool C κ ν τ R}
    {acts : List (Action C κ τ)} (hr : Run S s₀ acts s) {j : Nat} {c : C} {r : R}
    (hc : s₀.calls j = .returned c r) : s.calls j = .returned c r :=
  hr.preserves (fun s => s.calls j = .returned c r)
    (fun h ha => ha.returned_mono h) hc

/-! ## Reasoning about one call at a time -/

/-- The obligations of an invariant `I` of the map together with a predicate
`T` on one call, its remaining program and the map.  A returned call counts as
one whose remaining program is its result. -/
structure RelyGuarantee (S : Server C κ ν τ R) (I : VStore κ ν τ → Prop)
    (T : C → Prog κ ν τ R → VStore κ ν τ → Prop) : Prop where
  start : ∀ {c s}, I s → T c (S.code c) s
  access : ∀ {c p s t}, I s → T c p s → p.Admits s t →
    I (p.access s t).2 ∧ T c (p.access s t).1 (p.access s t).2
  fault : ∀ {c p s debug}, S.mayFault c = true → T c p s → T c (p.fault debug) s
  stable : ∀ {c p s s'}, T c p s → Evolves s s' → T c p s'
  reclaim : ∀ {s k}, I s → I (s.erase k)

/-- The predicate on a phase that a `RelyGuarantee` carries. -/
def Phase.Holds (T : C → Prog κ ν τ R → VStore κ ν τ → Prop)
    (s : VStore κ ν τ) : Phase C κ ν τ R → Prop
  | .idle => True
  | .running c p => T c p s
  | .returned c r => T c (.done r) s

/-- The pool-wide reading of `I` and `T`. -/
structure Holds (I : VStore κ ν τ → Prop)
    (T : C → Prog κ ν τ R → VStore κ ν τ → Prop) (s : Pool C κ ν τ R) : Prop where
  map : I s.store
  calls : ∀ i, (s.calls i).Holds T s.store

theorem RelyGuarantee.step {S : Server C κ ν τ R} {I : VStore κ ν τ → Prop}
    {T : C → Prog κ ν τ R → VStore κ ν τ → Prop} (rg : RelyGuarantee S I T)
    {s s' : Pool C κ ν τ R} {a : Action C κ τ} (h : Holds I T s)
    (ha : Step S s a s') : Holds I T s' := by
  have hframe : ∀ j, a.actor ≠ some j → (s'.calls j).Holds T s'.store := by
    intro j hj
    rw [ha.calls_ne hj]
    have hold := h.calls j
    cases hph : s.calls j with
    | idle => trivial
    | running c p =>
        rw [hph] at hold
        exact rg.stable hold ha.evolves
    | returned c r =>
        rw [hph] at hold
        exact rg.stable hold ha.evolves
  cases ha with
  | @invoke i c hi he =>
      refine ⟨h.map, fun j => ?_⟩
      by_cases hj : i = j
      · subst hj
        simpa [Phase.Holds] using rg.start h.map
      · exact hframe j (by simpa [Action.actor] using hj)
  | @access i t c p hi hp ht =>
      have hcall := h.calls i
      rw [hi] at hcall
      have hown := rg.access h.map hcall ht
      refine ⟨hown.1, fun j => ?_⟩
      by_cases hj : i = j
      · subst hj
        simpa [Phase.Holds] using hown.2
      · exact hframe j (by simpa [Action.actor] using hj)
  | @fault i debug c p hi hp hf =>
      have hcall := h.calls i
      rw [hi] at hcall
      refine ⟨h.map, fun j => ?_⟩
      by_cases hj : i = j
      · subst hj
        simpa [Phase.Holds] using rg.fault hf hcall
      · exact hframe j (by simpa [Action.actor] using hj)
  | @ret i c r hi =>
      have hcall := h.calls i
      rw [hi] at hcall
      refine ⟨h.map, fun j => ?_⟩
      by_cases hj : i = j
      · subst hj
        simpa [Phase.Holds] using hcall
      · exact hframe j (by simpa [Action.actor] using hj)
  | @reclaim k =>
      exact ⟨rg.reclaim h.map, fun j => hframe j (by simp [Action.actor])⟩

/-- **The rule.**  A call-local invariant that its own accesses keep and that
interference cannot break holds of every call in every interleaving. -/
theorem RelyGuarantee.run {S : Server C κ ν τ R} {I : VStore κ ν τ → Prop}
    {T : C → Prog κ ν τ R → VStore κ ν τ → Prop} (rg : RelyGuarantee S I T)
    {s₀ s : Pool C κ ν τ R} {acts : List (Action C κ τ)} (hr : Run S s₀ acts s)
    (h₀ : Holds I T s₀) : Holds I T s :=
  hr.preserves (Holds I T) (fun h ha => rg.step h ha) h₀

omit [DecidableEq κ] [DecidableEq τ] in
theorem Holds.fresh {I : VStore κ ν τ → Prop}
    {T : C → Prog κ ν τ R → VStore κ ν τ → Prop} {s : VStore κ ν τ} (h : I s) :
    Holds I T (Pool.fresh s) :=
  ⟨h, fun _ => trivial⟩

/-! ## Running alone is one of the interleavings -/

/-- A call that runs with nobody else on the map ends where `Prog.run` says,
through accesses of that call only. -/
theorem run_alone (S : Server C κ ν τ R) (m : Mint κ ν τ) (i : Nat) (c : C)
    (p : Prog κ ν τ R) (s : Pool C κ ν τ R) (hi : s.calls i = .running c p) :
    ∃ acts, (∀ a ∈ acts, a.actor = some i) ∧
      Run S s acts ⟨(p.run m s.store).2,
        Function.update s.calls i (.running c (.done (p.run m s.store).1))⟩ := by
  induction p generalizing s with
  | done a =>
      refine ⟨[], by simp, ?_⟩
      have hself : Function.update s.calls i (.running c (.done a)) = s.calls := by
        rw [← hi]
        exact Function.update_eq_self i s.calls
      simpa [hself] using (Run.nil : Run S s [] s)
  | get k next ih =>
      have hstep : Step S s (.access i (m.token s.store k)) _ :=
        .access hi rfl trivial
      obtain ⟨acts, hact, hrun⟩ := ih (.ok (s.store.entries k))
        ⟨s.store, Function.update s.calls i
          (.running c (next (.ok (s.store.entries k))))⟩ (by simp)
      refine ⟨.access i (m.token s.store k) :: acts, by simpa using ⟨rfl, hact⟩, ?_⟩
      simpa [Prog.access] using (Run.single hstep).append hrun
  | store k mode v next ih =>
      have hstep : Step S s (.access i (m.token s.store k)) _ :=
        .access hi rfl (m.fresh s.store k)
      obtain ⟨acts, hact, hrun⟩ :=
        ih (s.store.store k mode v (m.token s.store k)).1
          ⟨(s.store.store k mode v (m.token s.store k)).2,
            Function.update s.calls i (.running c
              (next (s.store.store k mode v (m.token s.store k)).1))⟩ (by simp)
      refine ⟨.access i (m.token s.store k) :: acts, by simpa using ⟨rfl, hact⟩, ?_⟩
      simpa [Prog.access, Prog.run] using (Run.single hstep).append hrun
  | delete k next ih =>
      have hstep : Step S s (.access i (m.token s.store k)) _ :=
        .access hi rfl trivial
      obtain ⟨acts, hact, hrun⟩ := ih (.ok ())
        ⟨s.store.erase k, Function.update s.calls i
          (.running c (next (.ok ())))⟩ (by simp)
      refine ⟨.access i (m.token s.store k) :: acts, by simpa using ⟨rfl, hact⟩, ?_⟩
      simpa [Prog.access] using (Run.single hstep).append hrun

/-- A call made and finished while no other call moves is what `run` says. -/
theorem call_alone (S : Server C κ ν τ R) (m : Mint κ ν τ) {i : Nat} {c : C}
    {s : Pool C κ ν τ R} (hi : s.calls i = .idle)
    (he : S.enabled s.calls c = true) :
    ∃ acts, (∀ a ∈ acts, a.actor = some i) ∧
      Run S s acts ⟨((S.code c).run m s.store).2,
        Function.update s.calls i (.returned c ((S.code c).run m s.store).1)⟩ := by
  have hInvoke : Step S s (.invoke i c) _ := .invoke hi he
  obtain ⟨acts, hact, hAlone⟩ := run_alone S m i c (S.code c)
    ⟨s.store, Function.update s.calls i (.running c (S.code c))⟩ (by simp)
  simp only [Function.update_idem] at hAlone
  have hRet : Step S ⟨((S.code c).run m s.store).2,
      Function.update s.calls i (.running c (.done ((S.code c).run m s.store).1))⟩
      (.ret i) _ := .ret (c := c) (r := ((S.code c).run m s.store).1) (by simp)
  simp only [Function.update_idem] at hRet
  refine ⟨[.invoke i c] ++ acts ++ [.ret i], ?_,
    ((Run.single hInvoke).append hAlone).snoc hRet⟩
  intro a ha
  simp only [List.mem_append, List.mem_singleton] at ha
  rcases ha with (rfl | ha) | rfl
  · rfl
  · exact hact a ha
  · rfl

end Steps

end RestToA2a.Verified.ProgramPool
