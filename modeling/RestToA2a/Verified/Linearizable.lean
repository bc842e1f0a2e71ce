import RestToA2a.Verified.ProgramPool

/-!
# Linearizability of a pool of calls

A sequential specification says which result a call may return in an abstract
state and what state it leaves.  A run is linearizable when its calls can be
given instants, each inside the call's own interval, such that performing the
calls one after the other in the order of their instants is legal for the
specification, gives every returned call its result, and ends in the abstraction
of the final map.  Removals by the backend take part in the order at the
instants they happened.

`CommitsLast` is a sufficient condition that speaks about one access at a time:
an access after which the call is not finished leaves the abstract state alone,
and the access that finishes it is where the specification happens.
`linearizable` turns it into the statement about whole runs.
-/

namespace RestToA2a.Verified.Linearizable

open RestToA2a.Verified.VersionedStore
open RestToA2a.Verified.StorageProgram
open RestToA2a.Verified.ProgramPool

/-- What happens at one instant of the sequential order. -/
inductive Effect (C κ R : Type) where
  | call (i : Nat) (c : C) (r : R)
  | reclaim (k : κ)

/-- A sequential execution of the effects, from one abstract state to another. -/
inductive Legal {C κ R A : Type} (spec : C → A → R → A → Prop)
    (remove : κ → A → A) : A → List (Effect C κ R) → A → Prop where
  | nil {a : A} : Legal spec remove a [] a
  | call {a b b' : A} {es : List (Effect C κ R)} {i : Nat} {c : C} {r : R}
      (h : Legal spec remove a es b) (hc : spec c b r b') :
      Legal spec remove a (es ++ [.call i c r]) b'
  | reclaim {a b : A} {es : List (Effect C κ R)} {k : κ}
      (h : Legal spec remove a es b) :
      Legal spec remove a (es ++ [.reclaim k]) (remove k b)

variable {C κ ν τ R A : Type} [DecidableEq κ] [DecidableEq τ]

/-- `es`, effects with their instants, explains a run: the instants are
positions in the list of actions. -/
structure Linearizes (abs : VStore κ ν τ → A) (spec : C → A → R → A → Prop)
    (remove : κ → A → A) (s₀ : VStore κ ν τ) (acts : List (Action C κ τ))
    (s : Pool C κ ν τ R) (es : List (Nat × Effect C κ R)) : Prop where
  ordered : (es.map Prod.fst).Pairwise (· < ·)
  legal : Legal spec remove (abs s₀) (es.map Prod.snd) (abs s.store)
  invoked : ∀ {t i c r}, (t, Effect.call i c r) ∈ es →
    ∃ t₀ : Nat, acts[t₀]? = some (.invoke i c)
  after : ∀ {t i c r}, (t, Effect.call i c r) ∈ es →
    ∀ {t₀ : Nat} {c' : C}, acts[t₀]? = some (.invoke i c') → t₀ ≤ t
  before : ∀ {t i c r}, (t, Effect.call i c r) ∈ es →
    ∀ {t₁ : Nat}, acts[t₁]? = some (.ret i) → t < t₁
  once : ∀ {t t' i c c' r r'}, (t, Effect.call i c r) ∈ es →
    (t', Effect.call i c' r') ∈ es → t = t'
  complete : ∀ {i c r}, s.calls i = .returned c r →
    ∃ t, (t, Effect.call i c r) ∈ es
  environment : ∀ {t k}, (t, Effect.reclaim k) ∈ es ↔
    acts[t]? = some (.reclaim k)

omit [DecidableEq κ] [DecidableEq τ] in
/-- **Real-time precedence.**  A call that returned before another was invoked
comes first in the order. -/
theorem Linearizes.realTime {abs : VStore κ ν τ → A}
    {spec : C → A → R → A → Prop} {remove : κ → A → A} {s₀ : VStore κ ν τ}
    {acts : List (Action C κ τ)} {s : Pool C κ ν τ R}
    {es : List (Nat × Effect C κ R)} (h : Linearizes abs spec remove s₀ acts s es)
    {t t' i j u u' : Nat} {c c' c'' : C} {r r' : R}
    (hi : (t, Effect.call i c r) ∈ es) (hj : (t', Effect.call j c' r') ∈ es)
    (hret : acts[u]? = some (.ret i)) (hinv : acts[u']? = some (.invoke j c''))
    (hlt : u < u') : t < t' := by
  have hBefore : t < u := h.before hi hret
  have hAfter : u' ≤ t' := h.after hj hinv
  omega

/-- The specification of a server, access by access: `immediate` for calls that
touch nothing, `access` and `fault` for the accesses. -/
structure CommitsLast (S : Server C κ ν τ R) (I : VStore κ ν τ → Prop)
    (T : C → Prog κ ν τ R → VStore κ ν τ → Prop) (abs : VStore κ ν τ → A)
    (spec : C → A → R → A → Prop) (remove : κ → A → A) : Prop where
  immediate : ∀ {c r a}, S.code c = .done r → spec c a r a
  silent : ∀ {c p s t}, I s → T c p s → p.Admits s t →
    (p.access s t).1.pending = true → abs (p.access s t).2 = abs s
  commit : ∀ {c p s t r}, I s → T c p s → p.pending = true → p.Admits s t →
    (p.access s t).1 = .done r → spec c (abs s) r (abs (p.access s t).2)
  failed : ∀ {c p s debug r}, I s → T c p s → p.pending = true →
    S.mayFault c = true → p.fault debug = .done r → spec c (abs s) r (abs s)
  reclaim : ∀ {s k}, abs (s.erase k) = remove k (abs s)

/-! ## The order built along the run -/

/-- The call and its result, once the result is determined. -/
def outcome : Phase C κ ν τ R → Option (C × R)
  | .running c (.done r) => some (c, r)
  | .returned c r => some (c, r)
  | _ => none

omit [DecidableEq κ] [DecidableEq τ] in
@[simp] theorem outcome_idle :
    outcome (.idle : Phase C κ ν τ R) = none := rfl

omit [DecidableEq κ] [DecidableEq τ] in
theorem outcome_running_of_pending {c : C} {p : Prog κ ν τ R}
    (h : p.pending = true) : outcome (.running c p) = none := by
  cases p with
  | done r => cases h
  | get k next => rfl
  | store k mode v next => rfl
  | delete k next => rfl

omit [DecidableEq κ] [DecidableEq τ] in
theorem call_of_outcome {φ : Phase C κ ν τ R} {c : C} {r : R}
    (h : outcome φ = some (c, r)) : φ.call = some c := by
  cases φ with
  | idle => cases h
  | running c' p =>
      cases p with
      | done r' =>
          cases h
          rfl
      | get k next => cases h
      | store k mode v next => cases h
      | delete k next => cases h
  | returned c' r' =>
      cases h
      rfl

/-- A result once determined stays. -/
theorem outcome_step {S : Server C κ ν τ R} {s s' : Pool C κ ν τ R}
    {a : Action C κ τ} (h : Step S s a s') {j : Nat} {x : C × R}
    (hx : outcome (s.calls j) = some x) : outcome (s'.calls j) = some x := by
  by_cases hj : a.actor = some j
  · cases h with
    | @invoke i c hi he =>
        simp only [Action.actor, Option.some.injEq] at hj
        subst hj
        simp [hi] at hx
    | @access i t c p hi hp ht =>
        simp only [Action.actor, Option.some.injEq] at hj
        subst hj
        simp [hi, outcome_running_of_pending hp] at hx
    | @fault i debug c p hi hp hf =>
        simp only [Action.actor, Option.some.injEq] at hj
        subst hj
        simp [hi, outcome_running_of_pending hp] at hx
    | @ret i c r hi =>
        simp only [Action.actor, Option.some.injEq] at hj
        subst hj
        simpa [hi, outcome] using hx
    | reclaim => simp [Action.actor] at hj
  · rw [h.calls_ne hj]
    exact hx

theorem outcome_run {S : Server C κ ν τ R} {s s' : Pool C κ ν τ R}
    {acts : List (Action C κ τ)} (h : Run S s acts s') {j : Nat} {x : C × R}
    (hx : outcome (s.calls j) = some x) : outcome (s'.calls j) = some x :=
  h.preserves (fun s => outcome (s.calls j) = some x)
    (fun hs ha => outcome_step ha hs) hx

/-- A result that is open now has been open all along. -/
theorem open_of_run {S : Server C κ ν τ R} {s s' : Pool C κ ν τ R}
    {acts : List (Action C κ τ)} (h : Run S s acts s') {j : Nat}
    (hOpen : outcome (s'.calls j) = none) : outcome (s.calls j) = none := by
  cases hx : outcome (s.calls j) with
  | none => rfl
  | some x =>
      rw [outcome_run h hx] at hOpen
      cases hOpen

/-- The step of a run that determines a result. -/
theorem decided_of_run {S : Server C κ ν τ R} {s s' : Pool C κ ν τ R}
    {acts : List (Action C κ τ)} (h : Run S s acts s') {j : Nat} {x : C × R}
    (hOpen : outcome (s.calls j) = none) (hx : outcome (s'.calls j) = some x) :
    ∃ before a after q q', acts = before ++ a :: after ∧ Run S s before q ∧
      Step S q a q' ∧ Run S q' after s' ∧ outcome (q.calls j) = none ∧
      outcome (q'.calls j) = some x := by
  induction h with
  | nil =>
      rw [hOpen] at hx
      cases hx
  | @snoc acts s₁ s₂ a hr ha ih =>
      cases hmid : outcome (s₁.calls j) with
      | none => exact ⟨acts, a, [], s₁, s₂, rfl, hr, ha, .nil, hmid, hx⟩
      | some y =>
          have hxy : some y = some x := by
            rw [← outcome_step ha hmid, hx]
          rw [hxy] at hmid
          obtain ⟨before, b, after, q, q', rfl, hb, hs, hafter, ho, hc⟩ := ih hmid
          exact ⟨before, b, after ++ [a], q, q', by simp, hb, hs,
            hafter.snoc ha, ho, hc⟩

/-- Whatever a call ends with in a run, its program can end with. -/
theorem ends_of_run {S : Server C κ ν τ R} {s₀ : VStore κ ν τ} {s : Pool C κ ν τ R}
    {acts : List (Action C κ τ)} (hr : Run S (Pool.fresh s₀) acts s) {i : Nat}
    {c : C} {r : R} (h : outcome (s.calls i) = some (c, r)) : (S.code c).Ends r := by
  have hrg : RelyGuarantee S (fun _ => True)
      fun c p _ => ∀ r, p.Ends r → (S.code c).Ends r :=
    { start := fun _ _ hr => hr
      access := fun _ hT _ => ⟨trivial, fun r hr => hT r (Prog.ends_of_access hr)⟩
      fault := fun _ hT r hr => hT r (Prog.ends_of_fault hr)
      stable := fun hT _ => hT
      reclaim := fun _ => trivial }
  have hcall := (hrg.run hr (Holds.fresh trivial)).calls i
  cases hφ : s.calls i with
  | idle => simp [hφ] at h
  | running c' p =>
      rw [hφ] at h hcall
      cases p with
      | done r' =>
          cases h
          exact hcall r rfl
      | get k next => cases h
      | store k mode v next => cases h
      | delete k next => cases h
  | returned c' r' =>
      rw [hφ] at h hcall
      cases h
      exact hcall r rfl

/-- What one step is to the abstract state: nothing, the instant of one call,
or a removal by the backend. -/
inductive CommitStep (abs : VStore κ ν τ → A) (spec : C → A → R → A → Prop)
    (remove : κ → A → A) (s s' : Pool C κ ν τ R) (a : Action C κ τ) : Prop where
  | quiet (hNoReclaim : ∀ k, a ≠ .reclaim k) (habs : abs s'.store = abs s.store)
      (hout : ∀ i, outcome (s'.calls i) = outcome (s.calls i))
  | commit {i : Nat} {c : C} {r : R} (hNoReclaim : ∀ k, a ≠ .reclaim k)
      (hNoRet : ∀ j, a ≠ .ret j) (hOpen : outcome (s.calls i) = none)
      (hClosed : outcome (s'.calls i) = some (c, r))
      (hOthers : ∀ j, j ≠ i → outcome (s'.calls j) = outcome (s.calls j))
      (hCall : (s'.calls i).call = some c)
      (hspec : spec c (abs s.store) r (abs s'.store))
  | removal {k : κ} (ha : a = .reclaim k) (hcalls : s'.calls = s.calls)
      (habs : abs s'.store = remove k (abs s.store))

omit [DecidableEq κ] [DecidableEq τ] in
/-- A step that determines the result of a call is the instant of that call. -/
theorem CommitStep.spec_of_decided {abs : VStore κ ν τ → A}
    {spec : C → A → R → A → Prop} {remove : κ → A → A} {s s' : Pool C κ ν τ R}
    {a : Action C κ τ} (h : CommitStep abs spec remove s s' a) {j : Nat} {c : C}
    {r : R} (hOpen : outcome (s.calls j) = none)
    (hClosed : outcome (s'.calls j) = some (c, r)) :
    spec c (abs s.store) r (abs s'.store) := by
  cases h with
  | quiet _ _ hout =>
      rw [hout, hOpen] at hClosed
      cases hClosed
  | @commit i c' r' _ _ _ hDone hOthers _ hspec =>
      by_cases hj : j = i
      · subst hj
        rw [hDone] at hClosed
        cases hClosed
        exact hspec
      · rw [hOthers j hj, hOpen] at hClosed
        cases hClosed
  | removal _ hcalls _ =>
      rw [hcalls, hOpen] at hClosed
      cases hClosed

/-- The order found so far: an effect for exactly the calls whose result is
determined, at instants the run has passed. -/
structure Progress (abs : VStore κ ν τ → A) (spec : C → A → R → A → Prop)
    (remove : κ → A → A) (s₀ : VStore κ ν τ) (acts : List (Action C κ τ))
    (s : Pool C κ ν τ R) (es : List (Nat × Effect C κ R)) : Prop
    extends Linearizes abs spec remove s₀ acts s es where
  bounded : ∀ {t e}, (t, e) ∈ es → t < acts.length
  determined : ∀ {i c r}, outcome (s.calls i) = some (c, r) ↔
    ∃ t, (t, Effect.call i c r) ∈ es
  known : ∀ {i c}, (s.calls i).call = some c →
    ∃ t₀ : Nat, acts[t₀]? = some (.invoke i c)
  closed : ∀ {i} {t₁ : Nat}, acts[t₁]? = some (.ret i) →
    ∃ c r, s.calls i = .returned c r

private theorem getElem?_snoc {α : Type} {xs : List α} {x y : α} {t : Nat} :
    (xs ++ [x])[t]? = some y ↔
      xs[t]? = some y ∨ (t = xs.length ∧ x = y) := by
  rcases Nat.lt_trichotomy t xs.length with hlt | heq | hgt
  · rw [List.getElem?_append_left hlt]
    simp [Nat.ne_of_lt hlt]
  · subst heq
    simp
  · rw [List.getElem?_eq_none (by simp; omega), List.getElem?_eq_none (by omega)]
    simp [Nat.ne_of_gt hgt]

section Extend

variable {abs : VStore κ ν τ → A} {spec : C → A → R → A → Prop}
  {remove : κ → A → A} {s₀ : VStore κ ν τ} {acts : List (Action C κ τ)}
  {s s' : Pool C κ ν τ R} {es : List (Nat × Effect C κ R)} {a : Action C κ τ}

omit [DecidableEq κ] [DecidableEq τ] in
/-- A call with an effect is not invoked any more. -/
private theorem Progress.not_invoked (h : Progress abs spec remove s₀ acts s es)
    {t i : Nat} {c : C} {r : R} (hmem : (t, Effect.call i c r) ∈ es) :
    s.calls i ≠ .idle := by
  intro hidle
  have hout := h.determined.mpr ⟨t, hmem⟩
  simp [hidle, outcome] at hout

private theorem Progress.known_step (h : Progress abs spec remove s₀ acts s es)
    {S : Server C κ ν τ R} (ha : Step S s a s') {i : Nat} {c : C}
    (hc : (s'.calls i).call = some c) :
    ∃ t₀ : Nat, (acts ++ [a])[t₀]? = some (.invoke i c) := by
  rcases ha.call_cases hc with hold | ⟨rfl, _⟩
  · obtain ⟨t₀, ht₀⟩ := h.known hold
    exact ⟨t₀, getElem?_snoc.mpr (Or.inl ht₀)⟩
  · exact ⟨acts.length, getElem?_snoc.mpr (Or.inr ⟨rfl, rfl⟩)⟩

omit [DecidableEq κ] [DecidableEq τ] in
/-- A call whose result is open has not returned. -/
private theorem Progress.not_returned
    (h : Progress abs spec remove s₀ acts s es) {i t₁ : Nat}
    (hOpen : outcome (s.calls i) = none) : acts[t₁]? ≠ some (.ret i) := by
  intro hret
  obtain ⟨c, r, hc⟩ := h.closed hret
  simp [hc, outcome] at hOpen

private theorem Progress.closed_step
    (h : Progress abs spec remove s₀ acts s es) {S : Server C κ ν τ R}
    (ha : Step S s a s') {i t₁ : Nat} (hret : (acts ++ [a])[t₁]? = some (.ret i)) :
    ∃ c r, s'.calls i = .returned c r := by
  rcases getElem?_snoc.mp hret with hold | ⟨_, hnew⟩
  · obtain ⟨c, r, hc⟩ := h.closed hold
    exact ⟨c, r, ha.returned_mono hc⟩
  · subst hnew
    cases ha with
    | @ret j c r hj => exact ⟨c, r, by simp⟩

omit [DecidableEq κ] [DecidableEq τ] in
/-- What an effect of the order knows of the run stays so as the run grows. -/
private theorem Progress.invoked_step (h : Progress abs spec remove s₀ acts s es)
    (a : Action C κ τ) {t i : Nat} {c : C} {r : R}
    (hmem : (t, Effect.call i c r) ∈ es) :
    ∃ t₀ : Nat, (acts ++ [a])[t₀]? = some (.invoke i c) := by
  obtain ⟨t₀, ht₀⟩ := h.invoked hmem
  exact ⟨t₀, getElem?_snoc.mpr (Or.inl ht₀)⟩

private theorem Progress.after_step (h : Progress abs spec remove s₀ acts s es)
    {S : Server C κ ν τ R} (ha : Step S s a s') {t i t₀ : Nat} {c c' : C} {r : R}
    (hmem : (t, Effect.call i c r) ∈ es)
    (ht₀ : (acts ++ [a])[t₀]? = some (.invoke i c')) : t₀ ≤ t := by
  rcases getElem?_snoc.mp ht₀ with hold | ⟨_, hnew⟩
  · exact h.after hmem hold
  · subst hnew
    cases ha with
    | invoke hi he => exact absurd hi (h.not_invoked hmem)

omit [DecidableEq κ] [DecidableEq τ] in
private theorem Progress.before_step (h : Progress abs spec remove s₀ acts s es)
    {t i t₁ : Nat} {c : C} {r : R} (hmem : (t, Effect.call i c r) ∈ es)
    (ht₁ : (acts ++ [a])[t₁]? = some (.ret i)) : t < t₁ := by
  rcases getElem?_snoc.mp ht₁ with hold | ⟨hlen, _⟩
  · exact h.before hmem hold
  · rw [hlen]
    exact h.bounded hmem

omit [DecidableEq κ] [DecidableEq τ] in
/-- An effect at the instant the run has reached comes last. -/
private theorem Progress.ordered_snoc (h : Progress abs spec remove s₀ acts s es)
    (e : Effect C κ R) :
    ((es ++ [(acts.length, e)]).map Prod.fst).Pairwise (· < ·) := by
  rw [List.map_append, List.pairwise_append]
  refine ⟨h.ordered, by simp, ?_⟩
  intro t ht t' ht'
  obtain ⟨⟨u, e'⟩, hmem, rfl⟩ := List.mem_map.mp ht
  simp only [List.map_cons, List.map_nil, List.mem_singleton] at ht'
  rw [ht']
  exact h.bounded hmem

omit [DecidableEq κ] [DecidableEq τ] in
private theorem Progress.bounded_step (h : Progress abs spec remove s₀ acts s es)
    (a : Action C κ τ) {t : Nat} {e : Effect C κ R} (hmem : (t, e) ∈ es) :
    t < (acts ++ [a]).length := by
  have := h.bounded hmem
  simp only [List.length_append, List.length_cons, List.length_nil]
  omega

omit [DecidableEq κ] [DecidableEq τ] in
private theorem Progress.bounded_snoc (h : Progress abs spec remove s₀ acts s es)
    (a : Action C κ τ) {e e' : Effect C κ R} {t : Nat}
    (hmem : (t, e') ∈ es ++ [(acts.length, e)]) : t < (acts ++ [a]).length := by
  rcases List.mem_append.mp hmem with hold | hnew
  · exact h.bounded_step a hold
  · simp only [List.mem_singleton, Prod.mk.injEq] at hnew
    simp [hnew.1]

/-- A step that determines no result and does nothing to the abstract state
leaves the order as it is. -/
private theorem Progress.quiet (h : Progress abs spec remove s₀ acts s es)
    {S : Server C κ ν τ R} (ha : Step S s a s')
    (hNoReclaim : ∀ k, a ≠ .reclaim k) (habs : abs s'.store = abs s.store)
    (hout : ∀ i, outcome (s'.calls i) = outcome (s.calls i)) :
    Progress abs spec remove s₀ (acts ++ [a]) s' es where
  ordered := h.ordered
  legal := by
    rw [habs]
    exact h.legal
  invoked := h.invoked_step a
  after := fun hmem => h.after_step ha hmem
  before := fun hmem => h.before_step hmem
  once := h.once
  complete := by
    intro i c r hret
    exact h.determined.mp (by rw [← hout, hret]; rfl)
  environment := by
    intro t k
    rw [h.environment, getElem?_snoc]
    constructor
    · exact Or.inl
    · rintro (hold | ⟨_, hnew⟩)
      · exact hold
      · exact absurd hnew (hNoReclaim k)
  bounded := h.bounded_step a
  determined := by
    intro i c r
    rw [hout]
    exact h.determined
  known := h.known_step ha
  closed := h.closed_step ha

omit [DecidableEq κ] in
private theorem call_mem_snoc {es : List (Nat × Effect C κ R)} {n t i j : Nat}
    {c c' : C} {r r' : R}
    (h : (t, Effect.call j c' r') ∈ es ++ [(n, Effect.call i c r)]) :
    (t, Effect.call j c' r') ∈ es ∨ (t = n ∧ j = i ∧ c' = c ∧ r' = r) := by
  simpa [List.mem_append] using h

omit [DecidableEq κ] [DecidableEq τ] in
/-- A call whose result is open has no effect in the order. -/
private theorem Progress.not_mem_of_open
    (h : Progress abs spec remove s₀ acts s es) {i : Nat}
    (hOpen : outcome (s.calls i) = none) (t : Nat) (c : C) (r : R) :
    (t, Effect.call i c r) ∉ es := by
  intro hmem
  have := h.determined.mpr ⟨t, hmem⟩
  rw [hOpen] at this
  cases this

omit [DecidableEq κ] [DecidableEq τ] in
/-- The calls with a result are those with an effect, after one more of both. -/
private theorem Progress.determined_snoc
    (h : Progress abs spec remove s₀ acts s es) {n i : Nat} {c : C} {r : R}
    (hOpen : outcome (s.calls i) = none)
    (hClosed : outcome (s'.calls i) = some (c, r))
    (hOthers : ∀ j, j ≠ i → outcome (s'.calls j) = outcome (s.calls j))
    {j : Nat} {c' : C} {r' : R} : outcome (s'.calls j) = some (c', r') ↔
      ∃ t, (t, Effect.call j c' r') ∈ es ++ [(n, Effect.call i c r)] := by
  by_cases hj : j = i
  · subst hj
    rw [hClosed]
    constructor
    · intro heq
      simp only [Option.some.injEq, Prod.mk.injEq] at heq
      exact ⟨n, by simp [heq.1, heq.2]⟩
    · rintro ⟨t, hmem⟩
      rcases call_mem_snoc hmem with hold | ⟨_, _, hc, hr⟩
      · exact absurd hold (h.not_mem_of_open hOpen t c' r')
      · rw [hc, hr]
  · rw [hOthers j hj, h.determined]
    constructor
    · rintro ⟨t, hmem⟩
      exact ⟨t, List.mem_append_left _ hmem⟩
    · rintro ⟨t, hmem⟩
      rcases call_mem_snoc hmem with hold | ⟨_, hji, _, _⟩
      · exact ⟨t, hold⟩
      · exact absurd hji hj

/-- A step that determines the result of call `i` gets an effect at its own
instant. -/
private theorem Progress.commit (h : Progress abs spec remove s₀ acts s es)
    {S : Server C κ ν τ R} (ha : Step S s a s')
    (hNoReclaim : ∀ k, a ≠ .reclaim k) (hNoRet : ∀ j, a ≠ .ret j) {i : Nat}
    {c : C} {r : R} (hOpen : outcome (s.calls i) = none)
    (hClosed : outcome (s'.calls i) = some (c, r))
    (hOthers : ∀ j, j ≠ i → outcome (s'.calls j) = outcome (s.calls j))
    (hCall : (s'.calls i).call = some c)
    (hspec : spec c (abs s.store) r (abs s'.store)) :
    Progress abs spec remove s₀ (acts ++ [a]) s'
      (es ++ [(acts.length, .call i c r)]) where
  ordered := h.ordered_snoc _
  legal := by
    rw [List.map_append]
    exact .call h.legal hspec
  invoked := by
    intro t j c' r' hmem
    rcases call_mem_snoc hmem with hold | ⟨_, rfl, rfl, _⟩
    · exact h.invoked_step a hold
    · exact h.known_step ha hCall
  after := by
    intro t j c' r' hmem t₀ c'' ht₀
    rcases call_mem_snoc hmem with hold | ⟨ht, _⟩
    · exact h.after_step ha hold ht₀
    · -- nothing in the run is later than its last action
      have hlt := (List.getElem?_eq_some_iff.mp ht₀).1
      simp only [List.length_append, List.length_cons, List.length_nil] at hlt
      omega
  before := by
    intro t j c' r' hmem t₁ ht₁
    rcases call_mem_snoc hmem with hold | ⟨_, rfl, _⟩
    · exact h.before_step hold ht₁
    · -- the call has not returned before, and does not return now
      rcases getElem?_snoc.mp ht₁ with hearly | ⟨_, hnew⟩
      · exact absurd hearly (h.not_returned hOpen)
      · exact absurd hnew (hNoRet j)
  once := by
    intro t t' j c' c'' r' r'' hmem hmem'
    rcases call_mem_snoc hmem with hold | ⟨ht, rfl, _⟩
    · rcases call_mem_snoc hmem' with hold' | ⟨_, rfl, _⟩
      · exact h.once hold hold'
      · exact absurd hold (h.not_mem_of_open hOpen t c' r')
    · rcases call_mem_snoc hmem' with hold' | ⟨ht', _⟩
      · exact absurd hold' (h.not_mem_of_open hOpen t' c'' r'')
      · rw [ht, ht']
  complete := by
    intro j c' r' hret
    exact (h.determined_snoc hOpen hClosed hOthers).mp (by rw [hret]; rfl)
  environment := by
    intro t k
    rw [List.mem_append, h.environment, getElem?_snoc]
    simp [hNoReclaim k]
  bounded := h.bounded_snoc a
  determined := h.determined_snoc hOpen hClosed hOthers
  known := h.known_step ha
  closed := h.closed_step ha

omit [DecidableEq κ] in
private theorem call_mem_snoc_reclaim {es : List (Nat × Effect C κ R)}
    {n t j : Nat} {k : κ} {c : C} {r : R} :
    (t, Effect.call j c r) ∈ es ++ [(n, Effect.reclaim k)] ↔
      (t, Effect.call j c r) ∈ es := by
  simp

/-- A removal by the backend takes its own place in the order. -/
private theorem Progress.removal (h : Progress abs spec remove s₀ acts s es)
    {S : Server C κ ν τ R} {k : κ} (ha : Step S s (.reclaim k) s')
    (habs : abs s'.store = remove k (abs s.store)) :
    Progress abs spec remove s₀ (acts ++ [.reclaim k]) s'
      (es ++ [(acts.length, .reclaim k)]) where
  ordered := h.ordered_snoc _
  legal := by
    rw [List.map_append, habs]
    exact .reclaim h.legal
  invoked := fun hmem => h.invoked_step _ (call_mem_snoc_reclaim.mp hmem)
  after := fun hmem => h.after_step ha (call_mem_snoc_reclaim.mp hmem)
  before := fun hmem => h.before_step (call_mem_snoc_reclaim.mp hmem)
  once := fun hmem hmem' =>
    h.once (call_mem_snoc_reclaim.mp hmem) (call_mem_snoc_reclaim.mp hmem')
  complete := by
    intro i c r hret
    rw [ha.calls_ne (by simp [Action.actor])] at hret
    obtain ⟨t, hmem⟩ := h.complete hret
    exact ⟨t, call_mem_snoc_reclaim.mpr hmem⟩
  environment := by
    intro t k'
    rw [List.mem_append, h.environment, getElem?_snoc]
    simp [eq_comm]
  bounded := h.bounded_snoc _
  determined := by
    intro i c r
    rw [ha.calls_ne (by simp [Action.actor]), h.determined]
    simp only [call_mem_snoc_reclaim]
  known := h.known_step ha
  closed := h.closed_step ha

end Extend

/-! ## Whole runs -/

section Server

variable {S : Server C κ ν τ R} {I : VStore κ ν τ → Prop}
  {T : C → Prog κ ν τ R → VStore κ ν τ → Prop} {abs : VStore κ ν τ → A}
  {spec : C → A → R → A → Prop} {remove : κ → A → A} {s₀ : VStore κ ν τ}

omit [DecidableEq κ] [DecidableEq τ] in
theorem Progress.fresh : Progress abs spec remove s₀ ([] : List (Action C κ τ))
    (Pool.fresh s₀ : Pool C κ ν τ R) [] where
  ordered := .nil
  legal := .nil
  invoked := by simp
  after := by simp
  before := by simp
  once := by simp
  complete := by simp [Pool.fresh]
  environment := by simp
  bounded := by simp
  determined := by simp [Pool.fresh, outcome]
  known := by simp [Pool.fresh, Phase.call]
  closed := by simp

omit [DecidableEq κ] [DecidableEq τ] in
/-- A step that leaves call `i` running `q` is quiet while `q` goes on, and the
instant of the call when `q` has ended. -/
private theorem CommitStep.of_running {s s' : Pool C κ ν τ R} {a : Action C κ τ}
    {i : Nat} {c : C} {q : Prog κ ν τ R} (hNoReclaim : ∀ k, a ≠ .reclaim k)
    (hNoRet : ∀ j, a ≠ .ret j) (hOpen : outcome (s.calls i) = none)
    (hRuns : s'.calls i = .running c q)
    (hOthers : ∀ j, j ≠ i → outcome (s'.calls j) = outcome (s.calls j))
    (hquiet : q.pending = true → abs s'.store = abs s.store)
    (hcommit : ∀ {r}, q = .done r → spec c (abs s.store) r (abs s'.store)) :
    CommitStep abs spec remove s s' a := by
  cases hq : q.pending with
  | true =>
      refine .quiet hNoReclaim (hquiet hq) fun j => ?_
      by_cases hj : j = i
      · rw [hj, hOpen, hRuns, outcome_running_of_pending hq]
      · exact hOthers j hj
  | false =>
      obtain ⟨r, rfl⟩ := Prog.eq_done_of_not_pending hq
      exact .commit hNoReclaim hNoRet hOpen (by rw [hRuns]; rfl) hOthers
        (by rw [hRuns]; rfl) (hcommit rfl)

/-- Every step is one of the three kinds. -/
theorem CommitsLast.cases (hc : CommitsLast S I T abs spec remove)
    {s s' : Pool C κ ν τ R} {a : Action C κ τ} (hT : Holds I T s)
    (ha : Step S s a s') : CommitStep abs spec remove s s' a := by
  have hout : ∀ {i}, a.actor = some i → ∀ j, j ≠ i →
      outcome (s'.calls j) = outcome (s.calls j) := by
    intro i hi j hj
    rw [ha.calls_ne (by simpa [hi] using Ne.symm hj)]
  cases ha with
  | @invoke i c hi he =>
      exact .of_running (by simp) (by simp) (by simp [hi])
        (Function.update_self i _ _) (hout rfl) (fun _ => rfl) hc.immediate
  | @access i t c p hi hp ht =>
      have hcall : T c p s.store := by simpa [hi, Phase.Holds] using hT.calls i
      exact .of_running (by simp) (by simp)
        (by simp [hi, outcome_running_of_pending hp])
        (Function.update_self i _ _) (hout rfl)
        (hc.silent hT.map hcall ht) (hc.commit hT.map hcall hp ht)
  | @fault i debug c p hi hp hf =>
      have hcall : T c p s.store := by simpa [hi, Phase.Holds] using hT.calls i
      exact .of_running (by simp) (by simp)
        (by simp [hi, outcome_running_of_pending hp])
        (Function.update_self i _ _) (hout rfl)
        (fun _ => rfl) (hc.failed hT.map hcall hp hf)
  | @ret i c r hi =>
      refine .quiet (by simp) rfl fun j => ?_
      by_cases hj : j = i
      · subst hj
        simp [hi, outcome]
      · exact hout rfl j hj
  | @reclaim k => exact .removal rfl rfl hc.reclaim

/-- The order grows by at most one effect with every step. -/
theorem CommitsLast.step (hc : CommitsLast S I T abs spec remove)
    {acts : List (Action C κ τ)} {s s' : Pool C κ ν τ R} {a : Action C κ τ}
    {es : List (Nat × Effect C κ R)} (hT : Holds I T s)
    (h : Progress abs spec remove s₀ acts s es) (ha : Step S s a s') :
    ∃ es', Progress abs spec remove s₀ (acts ++ [a]) s' es' := by
  cases hc.cases hT ha with
  | quiet hNoReclaim habs hout => exact ⟨es, h.quiet ha hNoReclaim habs hout⟩
  | commit hNoReclaim hNoRet hOpen hClosed hOthers hCall hspec =>
      exact ⟨_, h.commit ha hNoReclaim hNoRet hOpen hClosed hOthers hCall hspec⟩
  | removal hk hcalls habs =>
      subst hk
      exact ⟨_, h.removal ha habs⟩

/-- **Linearizability.**  Calls whose last access is where the specification
happens are linearizable in every run. -/
theorem linearizable (rg : RelyGuarantee S I T)
    (hc : CommitsLast S I T abs spec remove) (h₀ : I s₀)
    {acts : List (Action C κ τ)} {s : Pool C κ ν τ R}
    (hr : Run S (Pool.fresh s₀) acts s) :
    ∃ es, Linearizes abs spec remove s₀ acts s es := by
  have hprog : Holds I T s ∧ ∃ es, Progress abs spec remove s₀ acts s es := by
    induction hr with
    | nil => exact ⟨Holds.fresh h₀, [], Progress.fresh⟩
    | snoc _ ha ih =>
        obtain ⟨hT, es, hes⟩ := ih
        exact ⟨rg.step hT ha, hc.step hT hes ha⟩
  obtain ⟨_, es, hes⟩ := hprog
  exact ⟨es, hes.toLinearizes⟩

end Server

end RestToA2a.Verified.Linearizable
