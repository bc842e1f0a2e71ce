import RestToA2a.Verified.Linearizable

/-!
# What interference a call has met

A compare-and-swap loop gives up after some attempts.  Whether it gives up for
a reason is a question about what the others did while it ran: `Window` takes a
run apart at the first and the last storage operation of a call and counts the
steps in between at which another party wrote or removed the key the call is
about.

`Charging` is the rule for results that depend on this count.  Its predicate
speaks about one call, the count and the map.  The call's own operations keep
it, interference that leaves the version of the key keeps it, and interference
that changes the version raises the count.  `Within` bounds the number of
operations of a call, so that a statement about its result is not empty.
-/

namespace RestToA2a.Verified.Contention

open RestToA2a.Verified.VersionedStore
open RestToA2a.Verified.StorageProgram
open RestToA2a.Verified.ProgramPool
open RestToA2a.Verified.Linearizable

variable {C κ ν τ R : Type}

/-! ## Operations and interference -/

/-- The action is a storage operation of call `i`, failed or not. -/
def operates (i : Nat) : Action C κ τ → Bool
  | .access j _ => j == i
  | .fault j _ => j == i
  | _ => false

theorem actor_of_operates {i : Nat} {a : Action C κ τ} (h : operates i a = true) :
    a.actor = some i := by
  cases a <;> simp_all [Action.actor, operates]

/-- The version a key is at. -/
def version (s : VStore κ ν τ) (k : κ) : Option τ := (s.entries k).map Prod.snd

theorem version_eq_none {s : VStore κ ν τ} {k : κ} :
    version s k = none ↔ s.entries k = none := by
  simp [version]

theorem mem_used_of_version {s : VStore κ ν τ} {k : κ} {t : τ}
    (h : version s k = some t) : t ∈ s.used k := by
  obtain ⟨⟨v, t'⟩, he, rfl⟩ := Option.map_eq_some_iff.mp h
  exact s.entries_used he

/-- What a conditional write looks at is the version. -/
theorem accepts_congr {s s' : VStore κ ν τ} {k : κ} (h : version s' k = version s k)
    (mode : StoreMode τ) : s'.Accepts k mode ↔ s.Accepts k mode := by
  have hcas : ∀ (s : VStore κ ν τ) (t : τ),
      s.Accepts k (.cas t) ↔ version s k = some t := by
    intro s t
    simp only [VStore.Accepts, version, Option.map_eq_some_iff, Prod.exists]
    constructor
    · rintro ⟨w, hw⟩
      exact ⟨w, t, hw, rfl⟩
    · rintro ⟨w, t', hw, rfl⟩
      exact ⟨w, hw⟩
  cases mode with
  | absent => simp only [VStore.Accepts, ← version_eq_none, h]
  | cas t => rw [hcas, hcas, h]

/-- The action is a successful write or removal of the key. -/
inductive Alters (s : Pool C κ ν τ R) (k : κ) : Action C κ τ → Prop where
  | write {j : Nat} {t : τ} {c : C} {mode : StoreMode τ} {v : ν}
      {next : Except StorageError Unit → Prog κ ν τ R}
      (hj : s.calls j = .running c (.store k mode v next))
      (hok : s.store.Accepts k mode) : Alters s k (.access j t)
  | delete {j : Nat} {t : τ} {c : C} {next : Except StorageError Unit → Prog κ ν τ R}
      (hj : s.calls j = .running c (.delete k next))
      (he : s.store.entries k ≠ none) : Alters s k (.access j t)
  | reclaim (he : s.store.entries k ≠ none) : Alters s k (.reclaim k)

section Versions

variable [DecidableEq κ]

theorem version_write_self {s : VStore κ ν τ} {k : κ} (v : ν) {t : τ}
    (ht : t ∉ s.used k) : version (s.write k v t) k ≠ version s k := by
  intro h
  refine ht (mem_used_of_version (h.symm.trans ?_))
  simp [version]

theorem version_write_ne (s : VStore κ ν τ) {k k' : κ} (v : ν) (t : τ)
    (h : k ≠ k') : version (s.write k' v t) k = version s k := by
  rw [version, VStore.entries_write_ne s v t h, version]

theorem version_erase_self {s : VStore κ ν τ} {k : κ} :
    version (s.erase k) k ≠ version s k ↔ s.entries k ≠ none := by
  have hnone : version (s.erase k) k = none := by simp [version]
  rw [hnone, ne_comm, not_iff_not]
  exact version_eq_none

theorem version_erase_ne (s : VStore κ ν τ) {k k' : κ} (h : k ≠ k') :
    version (s.erase k') k = version s k := by
  rw [version, VStore.entries_erase_ne s h, version]

end Versions

/-- Only operations alter a key. -/
theorem Alters.actor_ne {s : Pool C κ ν τ R} {k : κ} {a : Action C κ τ} {i : Nat}
    (h : Alters s k a) (hop : operates i a = false) : a.actor ≠ some i := by
  cases h <;> simp_all [Action.actor, operates]

variable [DecidableEq κ] [DecidableEq τ]

/-- Tokens are never used again, so a key is written or removed exactly when its
version changes. -/
theorem alters_iff {S : Server C κ ν τ R} {s s' : Pool C κ ν τ R}
    {a : Action C κ τ} (h : Step S s a s') (k : κ) :
    Alters s k a ↔ version s'.store k ≠ version s.store k := by
  constructor
  · intro ha
    cases ha with
    | @write j t c mode v next hj hok =>
        cases h with
        | access hi hp ht =>
            rw [hj] at hi
            cases hi
            simp only [Prog.access, VStore.store_of_accepts hok]
            exact version_write_self v ht
    | delete hj he =>
        cases h with
        | access hi hp ht =>
            rw [hj] at hi
            cases hi
            exact version_erase_self.mpr he
    | reclaim he =>
        cases h with
        | reclaim => exact version_erase_self.mpr he
  · intro hne
    cases h with
    | invoke hi he => exact absurd rfl hne
    | fault hi hp hf => exact absurd rfl hne
    | ret hi => exact absurd rfl hne
    | @reclaim k' =>
        by_cases hk : k = k'
        · subst hk
          exact .reclaim (version_erase_self.mp hne)
        · exact absurd (version_erase_ne s.store hk) hne
    | @access i t c p hi hp ht =>
        cases p with
        | done r => cases hp
        | get k' next => exact absurd rfl hne
        | delete k' next =>
            by_cases hk : k = k'
            · subst hk
              exact .delete hi (version_erase_self.mp hne)
            · exact absurd (version_erase_ne s.store hk) hne
        | store k' mode v next =>
            rcases VStore.store_cases s.store k' mode v t with ⟨hok, hs⟩ | ⟨_, hs⟩
            · simp only [Prog.access, hs] at hne
              by_cases hk : k = k'
              · subst hk
                exact .write hi hok
              · exact absurd (version_write_ne s.store v t hk) hne
            · simp only [Prog.access, hs] at hne
              exact absurd rfl hne

/-! ## Counting along a run -/

/-- A run that meets `n` writes or removals of the key by others than call `i`. -/
inductive Meets (S : Server C κ ν τ R) (i : Nat) (k : κ) (q : Pool C κ ν τ R) :
    List (Action C κ τ) → Pool C κ ν τ R → Nat → Prop where
  | nil : Meets S i k q [] q 0
  | calm {acts : List (Action C κ τ)} {s s' : Pool C κ ν τ R} {a : Action C κ τ}
      {n : Nat} (h : Meets S i k q acts s n) (ha : Step S s a s')
      (hc : a.actor = some i ∨ ¬ Alters s k a) :
      Meets S i k q (acts ++ [a]) s' n
  | hit {acts : List (Action C κ τ)} {s s' : Pool C κ ν τ R} {a : Action C κ τ}
      {n : Nat} (h : Meets S i k q acts s n) (ha : Step S s a s')
      (ho : a.actor ≠ some i) (hk : Alters s k a) :
      Meets S i k q (acts ++ [a]) s' (n + 1)

/-- Between its first and its last storage operation of the run, call `i` meets
`n` writes or removals of the key by others. -/
inductive Window (S : Server C κ ν τ R) (i : Nat) (k : κ) (s₀ : Pool C κ ν τ R) :
    List (Action C κ τ) → Pool C κ ν τ R → Nat → Prop where
  | mk {before mid after : List (Action C κ τ)} {first last : Action C κ τ}
      {q₀ q₁ q₂ q₃ s : Pool C κ ν τ R} {n : Nat} (hbefore : Run S s₀ before q₀)
      (hnone : ∀ a ∈ before, operates i a = false) (hfirst : Step S q₀ first q₁)
      (hop : operates i first = true) (hmid : Meets S i k q₁ mid q₂ n)
      (hlast : Step S q₂ last q₃) (hop' : operates i last = true)
      (hafter : Run S q₃ after s) (hnone' : ∀ a ∈ after, operates i a = false) :
      Window S i k s₀ (before ++ first :: (mid ++ last :: after)) s n

/-! ## The rule -/

/-- The obligations of a predicate `T` on one call, the count, its remaining
program and the map.  `F` is what a failed operation of the call may use. -/
structure Charging (S : Server C κ ν τ R) (key : C → κ) (F : Prop)
    (T : C → Nat → Prog κ ν τ R → VStore κ ν τ → Prop) : Prop where
  start : ∀ {c s}, T c 0 (S.code c) s
  access : ∀ {c n p s t}, T c n p s → p.pending = true →
    T c n (p.access s t).1 (p.access s t).2
  fault : ∀ {c n p s debug}, F → T c n p s → p.pending = true →
    T c n (p.fault debug) s
  calm : ∀ {c n p s s'}, T c n p s → version s' (key c) = version s (key c) →
    T c n p s'
  hit : ∀ {c n p s s'}, T c n p s → T c (n + 1) p s'

/-- The call of a phase with what it still has to do. -/
def remaining : Phase C κ ν τ R → Option (C × Prog κ ν τ R)
  | .idle => none
  | .running c p => some (c, p)
  | .returned c r => some (c, .done r)

/-- What is known of call `i` along a run: it has not been made, it has not
operated yet, or it first operated at a known step and `T` holds of it with the
count since then. -/
inductive Tracked (S : Server C κ ν τ R) (key : C → κ)
    (T : C → Nat → Prog κ ν τ R → VStore κ ν τ → Prop) (i : Nat)
    (s₀ : Pool C κ ν τ R) (acts : List (Action C κ τ)) (s : Pool C κ ν τ R) :
    Prop where
  | idle (hi : remaining (s.calls i) = none)
      (hnone : ∀ a ∈ acts, operates i a = false)
  | untouched {c : C} (hi : remaining (s.calls i) = some (c, S.code c))
      (hnone : ∀ a ∈ acts, operates i a = false)
  | underway {before mid : List (Action C κ τ)} {first : Action C κ τ}
      {q₀ q₁ : Pool C κ ν τ R} {c : C} {p : Prog κ ν τ R} {n : Nat}
      (hi : remaining (s.calls i) = some (c, p)) (hT : T c n p s.store)
      (hacts : acts = before ++ first :: mid) (hbefore : Run S s₀ before q₀)
      (hnone : ∀ a ∈ before, operates i a = false) (hfirst : Step S q₀ first q₁)
      (hop : operates i first = true) (hmid : Meets S i (key c) q₁ mid s n)

section Rule

variable {S : Server C κ ν τ R} {key : C → κ} {F : Prop}
  {T : C → Nat → Prog κ ν τ R → VStore κ ν τ → Prop} {i : Nat}

/-- What one operation of the call does: an access, or a failure that leaves the
map. -/
theorem operation_of_step {s s' : Pool C κ ν τ R} {a : Action C κ τ}
    (ha : Step S s a s') (hop : operates i a = true) :
    ∃ c p p', remaining (s.calls i) = some (c, p) ∧ p.pending = true ∧
      remaining (s'.calls i) = some (c, p') ∧
      ((∃ t, p.access s.store t = (p', s'.store)) ∨
        ∃ debug, a = .fault i debug ∧ p.fault debug = p' ∧ s.store = s'.store) := by
  cases ha with
  | invoke hi he => cases hop
  | ret hi => cases hop
  | reclaim => cases hop
  | @access j t c p hi hp ht =>
      have hj : j = i := by simpa [operates] using hop
      subst hj
      exact ⟨c, p, (p.access s.store t).1, by simp [hi, remaining], hp,
        by simp [remaining], Or.inl ⟨t, rfl⟩⟩
  | @fault j debug c p hi hp hf =>
      have hj : j = i := by simpa [operates] using hop
      subst hj
      exact ⟨c, p, p.fault debug, by simp [hi, remaining], hp, by simp [remaining],
        Or.inr ⟨debug, rfl, rfl, rfl⟩⟩

/-- An operation of the call keeps `T` at its count. -/
theorem Charging.operate (ch : Charging S key F T) {s s' : Pool C κ ν τ R}
    {a : Action C κ τ} (ha : Step S s a s') (hop : operates i a = true)
    (hF : ∀ debug, a = .fault i debug → F) :
    ∃ c p p', remaining (s.calls i) = some (c, p) ∧
      remaining (s'.calls i) = some (c, p') ∧
      ∀ n, T c n p s.store → T c n p' s'.store := by
  obtain ⟨c, p, p', hi, hp, hi', ⟨t, hs⟩ | ⟨debug, hfault, rfl, hs⟩⟩ :=
    operation_of_step ha hop
  · refine ⟨c, p, p', hi, hi', fun n hT => ?_⟩
    have hkeep := ch.access (t := t) hT hp
    rwa [hs] at hkeep
  · exact ⟨c, p, _, hi, hi', fun n hT => hs ▸ ch.fault (hF debug hfault) hT hp⟩

/-- What a step that is no operation of the call does to it. -/
theorem remaining_step {s s' : Pool C κ ν τ R} {a : Action C κ τ}
    (ha : Step S s a s') (hop : operates i a = false) :
    remaining (s'.calls i) = remaining (s.calls i) ∨
      remaining (s.calls i) = none ∧
        ∃ c, remaining (s'.calls i) = some (c, S.code c) := by
  by_cases hactor : a.actor = some i
  · cases ha with
    | @invoke j c hi he =>
        cases hactor
        exact Or.inr ⟨by simp [hi, remaining], c, by simp [remaining]⟩
    | access hi hp ht =>
        cases hactor
        simp [operates] at hop
    | fault hi hp hf =>
        cases hactor
        simp [operates] at hop
    | ret hi =>
        cases hactor
        exact Or.inl (by simp [hi, remaining])
    | reclaim => cases hactor
  · exact Or.inl (by rw [ha.calls_ne hactor])

omit [DecidableEq κ] [DecidableEq τ] in
private theorem forall_snoc {i : Nat} {acts : List (Action C κ τ)} {a : Action C κ τ}
    (hacts : ∀ b ∈ acts, operates i b = false) (ha : operates i a = false) :
    ∀ b ∈ acts ++ [a], operates i b = false := by
  intro b hb
  rcases List.mem_append.mp hb with hb | hb
  · exact hacts b hb
  · rw [List.mem_singleton.mp hb]
    exact ha

/-- A step that is no operation of the call keeps what is known of it. -/
theorem Tracked.other_step (ch : Charging S key F T) {s₀ s s' : Pool C κ ν τ R}
    {acts : List (Action C κ τ)} {a : Action C κ τ} (h : Tracked S key T i s₀ acts s)
    (ha : Step S s a s') (hop : operates i a = false) :
    Tracked S key T i s₀ (acts ++ [a]) s' := by
  have hmove := remaining_step ha hop
  cases h with
  | idle hi hnone =>
      rcases hmove with hsame | ⟨_, c, hc⟩
      · exact .idle (hsame.trans hi) (forall_snoc hnone hop)
      · exact .untouched hc (forall_snoc hnone hop)
  | untouched hi hnone =>
      rcases hmove with hsame | ⟨hidle, _⟩
      · exact .untouched (hsame.trans hi) (forall_snoc hnone hop)
      · rw [hi] at hidle
        cases hidle
  | @underway before mid first q₀ q₁ c p n hi hT hacts hbefore hnone hfirst hfop hmid =>
      rcases hmove with hsame | ⟨hidle, _⟩
      · subst hacts
        by_cases halters : Alters s (key c) a
        · exact .underway (hsame.trans hi) (ch.hit hT) (by simp) hbefore hnone hfirst
            hfop (.hit hmid ha (halters.actor_ne hop) halters)
        · have hversion : version s'.store (key c) = version s.store (key c) := by
            rwa [alters_iff ha, not_not] at halters
          exact .underway (hsame.trans hi) (ch.calm hT hversion) (by simp) hbefore
            hnone hfirst hfop (.calm hmid ha (Or.inr halters))
      · rw [hi] at hidle
        cases hidle

/-- An operation of the call keeps what is known of it. -/
theorem Tracked.own_step (ch : Charging S key F T) {s₀ s s' : Pool C κ ν τ R}
    {acts : List (Action C κ τ)} {a : Action C κ τ} (h : Tracked S key T i s₀ acts s)
    (hr : Run S s₀ acts s) (ha : Step S s a s') (hop : operates i a = true)
    (hF : ∀ debug, a = .fault i debug → F) :
    Tracked S key T i s₀ (acts ++ [a]) s' := by
  obtain ⟨c, p, p', hi, hi', hkeep⟩ := ch.operate ha hop hF
  cases h with
  | idle hidle _ =>
      rw [hi] at hidle
      cases hidle
  | untouched hstart hnone =>
      rw [hi] at hstart
      cases hstart
      exact .underway hi' (hkeep 0 ch.start) rfl hr hnone ha hop .nil
  | underway hrun hT hacts hbefore hnone hfirst hfop hmid =>
      rw [hi] at hrun
      cases hrun
      subst hacts
      exact .underway hi' (hkeep _ hT) (by simp) hbefore hnone hfirst hfop
        (.calm hmid ha (Or.inl (actor_of_operates hop)))

/-- Along a run from a pool in which no call has been made, every call is tracked. -/
theorem Charging.tracked (ch : Charging S key F T) {s₀ : VStore κ ν τ}
    {s : Pool C κ ν τ R} {acts : List (Action C κ τ)}
    (hr : Run S (Pool.fresh s₀) acts s)
    (hF : ∀ debug, .fault i debug ∈ acts → F) :
    Tracked S key T i (Pool.fresh s₀) acts s := by
  induction hr with
  | nil => exact .idle rfl (by simp)
  | @snoc acts s s' a hr ha ih =>
      have hold := ih fun debug h => hF debug (List.mem_append_left _ h)
      cases hop : operates i a with
      | false => exact hold.other_step ch ha hop
      | true =>
          refine hold.own_step ch hr ha hop fun debug h => hF debug ?_
          simp [h]

omit [DecidableEq κ] [DecidableEq τ] in
theorem remaining_of_outcome {φ : Phase C κ ν τ R} {c : C} {r : R}
    (h : outcome φ = some (c, r)) : remaining φ = some (c, .done r) := by
  cases φ with
  | idle => cases h
  | running c' p => cases p <;> simp_all [outcome, remaining]
  | returned c' r' => simp_all [outcome, remaining]

omit [DecidableEq κ] [DecidableEq τ] in
theorem outcome_of_remaining {φ : Phase C κ ν τ R} {c : C} {r : R}
    (h : remaining φ = some (c, .done r)) : outcome φ = some (c, r) := by
  cases φ with
  | idle => cases h
  | running c' p => cases h; rfl
  | returned c' r' => cases h; rfl

/-- A call with a result has no operation left. -/
theorem not_operates_of_outcome {s s' : Pool C κ ν τ R} {acts : List (Action C κ τ)}
    (hr : Run S s acts s') {x : C × R} (hx : outcome (s.calls i) = some x) :
    ∀ a ∈ acts, operates i a = false := by
  induction hr with
  | nil => simp
  | @snoc acts s₁ s₂ a hr ha ih =>
      refine forall_snoc ih ?_
      have hmid : remaining (s₁.calls i) = some (x.1, .done x.2) :=
        remaining_of_outcome (outcome_run hr hx)
      by_contra hop
      obtain ⟨c, p, p', hi, hp, _⟩ := operation_of_step ha (by simpa using hop)
      rw [hmid] at hi
      cases hi
      cases hp

/-- **The rule.**  A result stands with the count of a window of its call, or
with no interference at all if the call made one operation at most. -/
theorem Charging.run (ch : Charging S key F T) {s₀ : VStore κ ν τ}
    {s : Pool C κ ν τ R} {acts : List (Action C κ τ)}
    (hr : Run S (Pool.fresh s₀) acts s)
    (hF : ∀ debug, .fault i debug ∈ acts → F) {c : C} {r : R}
    (hout : outcome (s.calls i) = some (c, r)) :
    ∃ m, T c 0 (.done r) m ∨
      ∃ n, Window S i (key c) (Pool.fresh s₀) acts s n ∧ T c n (.done r) m := by
  obtain ⟨before, a, after, q, q', rfl, hb, ha, hafter, hOpen, hDone⟩ :=
    decided_of_run hr rfl hout
  have hold := ch.tracked (i := i) hb fun debug h => hF debug (by simp [h])
  have hdone := remaining_of_outcome hDone
  cases hop : operates i a with
  | false =>
      rcases remaining_step ha hop with hsame | ⟨_, c', hc'⟩
      · rw [hdone] at hsame
        rw [outcome_of_remaining hsame.symm] at hOpen
        cases hOpen
      · rw [hdone] at hc'
        obtain ⟨rfl, hcode⟩ : c = c' ∧ .done r = S.code c' := by simpa using hc'
        exact ⟨q'.store, Or.inl (hcode ▸ ch.start)⟩
  | true =>
      obtain ⟨c', p, p', hi, hi', hkeep⟩ := ch.operate ha hop
        fun debug h => hF debug (by simp [h])
      rw [hdone] at hi'
      cases hi'
      cases hold with
      | idle hidle _ =>
          rw [hi] at hidle
          cases hidle
      | untouched hstart _ =>
          rw [hi] at hstart
          cases hstart
          exact ⟨_, Or.inl (hkeep 0 ch.start)⟩
      | underway hrun hT hacts hbefore hnone hfirst hfop hmid =>
          rw [hi] at hrun
          cases hrun
          subst hacts
          refine ⟨_, Or.inr ⟨_, ?_, hkeep _ hT⟩⟩
          have hwindow := Window.mk hbefore hnone hfirst hfop hmid ha hop hafter
            (not_operates_of_outcome hafter hDone)
          simpa using hwindow

end Rule

/-! ## How many operations a call makes -/

/-- The program makes at most so many accesses. -/
def Within {α : Type} : Nat → Prog κ ν τ α → Prop
  | _, .done _ => True
  | 0, _ => False
  | n + 1, .get _ next => ∀ r, Within n (next r)
  | n + 1, .store _ _ _ next => ∀ r, Within n (next r)
  | n + 1, .delete _ next => ∀ r, Within n (next r)

omit [DecidableEq κ] [DecidableEq τ] in
theorem within_map {α β : Type} {f : α → β} {n : Nat} {p : Prog κ ν τ α}
    (h : Within n p) : Within n (p.map f) := by
  induction n generalizing p with
  | zero =>
      cases p with
      | done a => trivial
      | _ => cases h
  | succ n ih =>
      cases p with
      | done a => trivial
      | get k next => exact fun r => ih (h r)
      | store k mode v next => exact fun r => ih (h r)
      | delete k next => exact fun r => ih (h r)

omit [DecidableEq κ] [DecidableEq τ] in
theorem within_done {α : Type} (n : Nat) (a : α) :
    Within n (.done a : Prog κ ν τ α) := by
  cases n <;> trivial

omit [DecidableEq κ] [DecidableEq τ] in
theorem within_succ {α : Type} {n : Nat} {p : Prog κ ν τ α} (h : Within n p) :
    Within (n + 1) p := by
  induction n generalizing p with
  | zero =>
      cases p with
      | done a => trivial
      | _ => cases h
  | succ n ih =>
      cases p with
      | done a => trivial
      | get k next => exact fun r => ih (h r)
      | store k mode v next => exact fun r => ih (h r)
      | delete k next => exact fun r => ih (h r)

/-- An operation uses up one access. -/
theorem Within.operate {n : Nat} {p : Prog κ ν τ R} (h : Within n p)
    (hp : p.pending = true) :
    ∃ m, n = m + 1 ∧ (∀ s t, Within m (p.access s t).1) ∧
      ∀ debug, Within m (p.fault debug) := by
  cases n with
  | zero =>
      cases p with
      | done r => cases hp
      | _ => cases h
  | succ m =>
      refine ⟨m, rfl, ?_⟩
      cases p with
      | done r => cases hp
      | get k next => exact ⟨fun s t => h _, fun debug => h _⟩
      | store k mode v next => exact ⟨fun s t => h _, fun debug => h _⟩
      | delete k next => exact ⟨fun s t => h _, fun debug => h _⟩

/-- The operations a call has made and those it may still make keep the bound. -/
theorem within_run {S : Server C κ ν τ R} {bound i : Nat}
    (hcode : ∀ c, Within bound (S.code c)) {s₀ : VStore κ ν τ} {s : Pool C κ ν τ R}
    {acts : List (Action C κ τ)} (hr : Run S (Pool.fresh s₀) acts s) :
    (remaining (s.calls i) = none → acts.countP (operates i) = 0) ∧
      ∀ c p, remaining (s.calls i) = some (c, p) →
        ∃ left, Within left p ∧ acts.countP (operates i) + left ≤ bound := by
  induction hr with
  | nil => exact ⟨fun _ => rfl, fun c p h => nomatch h⟩
  | @snoc acts s s' a hr ha ih =>
      rw [List.countP_append, List.countP_singleton]
      cases hop : operates i a with
      | true =>
          obtain ⟨c, p, p', hi, hp, hi', hstep⟩ := operation_of_step ha hop
          obtain ⟨left, hleft, hcount⟩ := ih.2 c p hi
          obtain ⟨m, rfl, haccess, hfault⟩ := hleft.operate hp
          refine ⟨fun h => absurd (hi'.symm.trans h) (by simp), fun c' p'' h => ?_⟩
          rw [hi'] at h
          cases h
          refine ⟨m, ?_, by simp only [if_true]; omega⟩
          rcases hstep with ⟨t, hs⟩ | ⟨debug, _, rfl, _⟩
          · have hp' := haccess s.store t
            rwa [hs] at hp'
          · exact hfault debug
      | false =>
          simp only [Bool.false_eq_true, if_false, Nat.add_zero]
          rcases remaining_step ha hop with hsame | ⟨hidle, c, hc⟩
          · rwa [hsame]
          · refine ⟨fun h => absurd (hc.symm.trans h) (by simp), fun c' p h => ?_⟩
            rw [hc] at h
            cases h
            exact ⟨bound, hcode _, by rw [ih.1 hidle]; omega⟩

end RestToA2a.Verified.Contention
