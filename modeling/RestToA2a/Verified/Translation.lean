import RestToA2a.Verified.ProgramPool

/-!
# The same runs on two servers

Two programs are alike when they make the same accesses, with values that stand
for each other, and go on alike after answers that do.  Servers whose calls have
like programs have the same runs: action for action, under the same versions,
with every call of one where the call of the other is (`Translates.runs`).  The
kinds of calls, of values and of results may all differ.
-/

namespace RestToA2a.Verified.Translation

open RestToA2a.Verified.VersionedStore
open RestToA2a.Verified.StorageProgram
open RestToA2a.Verified.ProgramPool

variable {κ ν ω τ : Type}

/-! ## Stores -/

/-- The entries stand for each other and have the same version. -/
inductive EntryAlike (V : ν → ω → Prop) :
    Option (ν × τ) → Option (ω × τ) → Prop where
  | none : EntryAlike V none none
  | some {v : ν} {w : ω} {t : τ} (h : V v w) :
      EntryAlike V (some (v, t)) (some (w, t))

/-- Key by key the same versions, now and ever, on values that stand for each
other. -/
structure StoreAlike (V : ν → ω → Prop) (s : VStore κ ν τ) (s' : VStore κ ω τ) :
    Prop where
  entries : ∀ k, EntryAlike V (s.entries k) (s'.entries k)
  used : ∀ k, s.used k = s'.used k

section Stores

variable {V : ν → ω → Prop} {s : VStore κ ν τ} {s' : VStore κ ω τ}

theorem EntryAlike.symm {e : Option (ν × τ)} {e' : Option (ω × τ)}
    (h : EntryAlike V e e') : EntryAlike (fun w v => V v w) e' e := by
  cases h with
  | none => exact .none
  | some h => exact .some h

theorem StoreAlike.symm (h : StoreAlike V s s') :
    StoreAlike (fun w v => V v w) s' s where
  entries := fun k => (h.entries k).symm
  used := fun k => (h.used k).symm

theorem StoreAlike.refl (s : VStore κ ν τ) : StoreAlike (· = ·) s s where
  entries := by
    intro k
    cases s.entries k with
    | none => exact .none
    | some e => exact .some rfl
  used := fun _ => rfl

/-- Values that stand for themselves only make the stores the same. -/
theorem StoreAlike.eq {s' : VStore κ ν τ} (h : StoreAlike (· = ·) s s') : s = s' := by
  apply VStore.ext
  · funext k
    have hk := h.entries k
    generalize s.entries k = e at hk
    generalize s'.entries k = e' at hk
    cases hk with
    | none => rfl
    | some hv => rw [hv]
  · exact funext h.used

variable [DecidableEq κ]

theorem StoreAlike.write (h : StoreAlike V s s') (k : κ) {v : ν} {w : ω}
    (hv : V v w) (t : τ) : StoreAlike V (s.write k v t) (s'.write k w t) where
  entries := by
    intro k'
    by_cases hk : k' = k
    · rw [hk, VStore.entries_write_self, VStore.entries_write_self]
      exact .some hv
    · rw [VStore.entries_write_ne _ _ _ hk, VStore.entries_write_ne _ _ _ hk]
      exact h.entries k'
  used := by
    intro k'
    simp only [VStore.write, funext h.used]

theorem StoreAlike.erase (h : StoreAlike V s s') (k : κ) :
    StoreAlike V (s.erase k) (s'.erase k) where
  entries := by
    intro k'
    by_cases hk : k' = k
    · rw [hk, VStore.entries_erase_self, VStore.entries_erase_self]
      exact .none
    · rw [VStore.entries_erase_ne _ hk, VStore.entries_erase_ne _ hk]
      exact h.entries k'
  used := h.used

variable [DecidableEq τ]

/-- A write is accepted by both stores or by neither. -/
theorem StoreAlike.store (h : StoreAlike V s s') (k : κ) (mode : StoreMode τ)
    {v : ν} {w : ω} (hv : V v w) (t : τ) :
    (s.store k mode v t).1 = (s'.store k mode w t).1 ∧
      StoreAlike V (s.store k mode v t).2 (s'.store k mode w t).2 := by
  have hk := h.entries k
  unfold VStore.store
  generalize s.entries k = e at hk
  generalize s'.entries k = e' at hk
  cases mode with
  | absent =>
      cases hk with
      | none => exact ⟨rfl, h.write k hv t⟩
      | some _ => exact ⟨rfl, h⟩
  | cas version =>
      cases hk with
      | none => exact ⟨rfl, h⟩
      | some _ =>
          simp only
          split
          · exact ⟨rfl, h.write k hv t⟩
          · exact ⟨rfl, h⟩

end Stores

/-! ## Programs -/

variable {α β : Type}

/-- Answers to a lookup that stand for each other. -/
inductive FoundAlike (V : ν → ω → Prop) :
    Except StorageError (Option (ν × τ)) → Except StorageError (Option (ω × τ)) →
      Prop where
  | ok {e : Option (ν × τ)} {e' : Option (ω × τ)} (h : EntryAlike V e e') :
      FoundAlike V (.ok e) (.ok e')
  | error (err : StorageError) : FoundAlike V (.error err) (.error err)

/-- The same accesses, whatever the answers, and ends related by `G`. -/
inductive Alike (V : ν → ω → Prop) (G : α → β → Prop) :
    Prog κ ν τ α → Prog κ ω τ β → Prop where
  | done {a : α} {b : β} (h : G a b) : Alike V G (.done a) (.done b)
  | get {k : κ} {next : Except StorageError (Option (ν × τ)) → Prog κ ν τ α}
      {next' : Except StorageError (Option (ω × τ)) → Prog κ ω τ β}
      (h : ∀ r r', FoundAlike V r r' → Alike V G (next r) (next' r')) :
      Alike V G (.get k next) (.get k next')
  | store {k : κ} {mode : StoreMode τ} {v : ν} {w : ω}
      {next : Except StorageError Unit → Prog κ ν τ α}
      {next' : Except StorageError Unit → Prog κ ω τ β} (hv : V v w)
      (h : ∀ r, Alike V G (next r) (next' r)) :
      Alike V G (.store k mode v next) (.store k mode w next')
  | delete {k : κ} {next : Except StorageError Unit → Prog κ ν τ α}
      {next' : Except StorageError Unit → Prog κ ω τ β}
      (h : ∀ r, Alike V G (next r) (next' r)) :
      Alike V G (.delete k next) (.delete k next')

section Programs

variable {V : ν → ω → Prop} {G : α → β → Prop} {p : Prog κ ν τ α}
  {p' : Prog κ ω τ β}

/-- A program is like itself, however its ends are put. -/
theorem alike_map {γ : Type} {G : β → γ → Prop} {f : α → β} {g : α → γ}
    (h : ∀ a, G (f a) (g a)) (p : Prog κ ν τ α) :
    Alike (· = ·) G (p.map f) (p.map g) := by
  induction p with
  | done a => exact .done (h a)
  | get k next ih =>
      refine .get fun r r' hr => ?_
      have hsame : r = r' := by
        cases hr with
        | ok he =>
            cases he with
            | none => rfl
            | some hv => rw [hv]
        | error err => rfl
      subst hsame
      exact ih r
  | store k mode v next ih => exact .store rfl ih
  | delete k next ih => exact .delete ih

theorem Alike.symm (h : Alike V G p p') :
    Alike (fun w v => V v w) (fun b a => G a b) p' p := by
  induction h with
  | done h => exact .done h
  | get _ ih =>
      refine .get fun r r' hr => ih r' r ?_
      cases hr with
      | ok he => exact .ok he.symm
      | error err => exact .error err
  | store hv _ ih => exact .store hv ih
  | delete _ ih => exact .delete ih

theorem Alike.pending (h : Alike V G p p') : p'.pending = p.pending := by
  cases h <;> rfl

theorem Alike.done_left {a : α} (h : Alike V G (.done a) p') :
    ∃ b, p' = .done b ∧ G a b := by
  cases h with
  | done hab => exact ⟨_, rfl, hab⟩

theorem Alike.fault (h : Alike V G p p') (debug : String) :
    Alike V G (p.fault debug) (p'.fault debug) := by
  cases h with
  | done h => exact .done h
  | get h => exact h _ _ (.error _)
  | store _ h => exact h _
  | delete h => exact h _

theorem Alike.admits {s : VStore κ ν τ} {s' : VStore κ ω τ} (h : Alike V G p p')
    (hs : StoreAlike V s s') {t : τ} (ht : p.Admits s t) : p'.Admits s' t := by
  cases h with
  | store hv h =>
      simp only [Prog.Admits] at ht ⊢
      rwa [← hs.used]
  | _ => trivial

/-- An access of like programs to like stores leaves both alike. -/
theorem Alike.access [DecidableEq κ] [DecidableEq τ] {s : VStore κ ν τ}
    {s' : VStore κ ω τ} (h : Alike V G p p') (hs : StoreAlike V s s') (t : τ) :
    Alike V G (p.access s t).1 (p'.access s' t).1 ∧
      StoreAlike V (p.access s t).2 (p'.access s' t).2 := by
  cases h with
  | done h => exact ⟨.done h, hs⟩
  | get h => exact ⟨h _ _ (.ok (hs.entries _)), hs⟩
  | @store k mode v w next next' hv h =>
      have hstore := hs.store k mode hv t
      simp only [Prog.access]
      rw [← hstore.1]
      exact ⟨h _, hstore.2⟩
  | delete h => exact ⟨h _, hs.erase _⟩

end Programs

/-! ## Runs -/

variable {C C' R R' : Type}

/-- Calls related by `F` are at the same point, their results related by `G`. -/
inductive PhaseAlike (V : ν → ω → Prop) (F : C → C' → Prop)
    (G : C → C' → R → R' → Prop) :
    Phase C κ ν τ R → Phase C' κ ω τ R' → Prop where
  | idle : PhaseAlike V F G .idle .idle
  | running {c : C} {c' : C'} {p : Prog κ ν τ R} {p' : Prog κ ω τ R'}
      (hc : F c c') (hp : Alike V (G c c') p p') :
      PhaseAlike V F G (.running c p) (.running c' p')
  | returned {c : C} {c' : C'} {r : R} {r' : R'} (hc : F c c') (hr : G c c' r r') :
      PhaseAlike V F G (.returned c r) (.returned c' r')

/-- The same action, on calls that stand for each other. -/
inductive ActionAlike (F : C → C' → Prop) : Action C κ τ → Action C' κ τ → Prop where
  | invoke (i : Nat) {c : C} {c' : C'} (hc : F c c') :
      ActionAlike F (.invoke i c) (.invoke i c')
  | access (i : Nat) (t : τ) : ActionAlike F (.access i t) (.access i t)
  | fault (i : Nat) (debug : String) : ActionAlike F (.fault i debug) (.fault i debug)
  | ret (i : Nat) : ActionAlike F (.ret i) (.ret i)
  | reclaim (k : κ) : ActionAlike F (.reclaim k) (.reclaim k)

/-- The stores and every call alike. -/
structure PoolAlike (V : ν → ω → Prop) (F : C → C' → Prop)
    (G : C → C' → R → R' → Prop) (s : Pool C κ ν τ R) (q : Pool C' κ ω τ R') :
    Prop where
  store : StoreAlike V s.store q.store
  calls : ∀ i, PhaseAlike V F G (s.calls i) (q.calls i)

/-- The servers do the same for calls that stand for each other. -/
structure Translates (V : ν → ω → Prop) (F : C → C' → Prop)
    (G : C → C' → R → R' → Prop) (S : Server C κ ν τ R) (S' : Server C' κ ω τ R') :
    Prop where
  code : ∀ {c c'}, F c c' → Alike V (G c c') (S.code c) (S'.code c')
  enabled : ∀ {calls : Nat → Phase C κ ν τ R} {calls' : Nat → Phase C' κ ω τ R'}
    {c c'}, F c c' → (∀ i, PhaseAlike V F G (calls i) (calls' i)) →
      S'.enabled calls' c' = S.enabled calls c
  mayFault : ∀ {c c'}, F c c' → S'.mayFault c' = S.mayFault c

section Runs

variable [DecidableEq κ] [DecidableEq τ] {V : ν → ω → Prop} {F : C → C' → Prop}
  {G : C → C' → R → R' → Prop} {S : Server C κ ν τ R} {S' : Server C' κ ω τ R'}
  {s s' : Pool C κ ν τ R} {q : Pool C' κ ω τ R'}

omit [DecidableEq κ] [DecidableEq τ] in
theorem PoolAlike.fresh {s : VStore κ ν τ} {s' : VStore κ ω τ}
    (h : StoreAlike V s s') :
    PoolAlike V F G (Pool.fresh s : Pool C κ ν τ R) (Pool.fresh s') :=
  ⟨h, fun _ => .idle⟩

omit [DecidableEq κ] [DecidableEq τ] in
theorem PhaseAlike.symm {φ : Phase C κ ν τ R} {φ' : Phase C' κ ω τ R'}
    (h : PhaseAlike V F G φ φ') :
    PhaseAlike (fun w v => V v w) (fun c' c => F c c')
      (fun c' c r' r => G c c' r r') φ' φ := by
  cases h with
  | idle => exact .idle
  | running hc hp => exact .running hc hp.symm
  | returned hc hr => exact .returned hc hr

omit [DecidableEq κ] [DecidableEq τ] in
theorem PoolAlike.symm (h : PoolAlike V F G s q) :
    PoolAlike (fun w v => V v w) (fun c' c => F c c')
      (fun c' c r' r => G c c' r r') q s :=
  ⟨h.store.symm, fun i => (h.calls i).symm⟩

omit [DecidableEq κ] [DecidableEq τ] in
theorem Translates.symm (h : Translates V F G S S') :
    Translates (fun w v => V v w) (fun c' c => F c c')
      (fun c' c r' r => G c c' r r') S' S where
  code := fun hc => (h.code hc).symm
  enabled := fun hc hcalls => (h.enabled hc fun i => (hcalls i).symm).symm
  mayFault := fun hc => (h.mayFault hc).symm

omit [DecidableEq κ] [DecidableEq τ] in
theorem actions_symm {acts : List (Action C κ τ)} {acts' : List (Action C' κ τ)}
    (h : List.Forall₂ (ActionAlike F) acts acts') :
    List.Forall₂ (ActionAlike fun c' c => F c c') acts' acts := by
  refine (List.Forall₂.imp ?_ h).flip
  intro a a' ha
  cases ha with
  | invoke i hc => exact .invoke i hc
  | access i t => exact .access i t
  | fault i debug => exact .fault i debug
  | ret i => exact .ret i
  | reclaim k => exact .reclaim k

omit [DecidableEq κ] [DecidableEq τ] in
/-- Calls stay alike when one pair of them moves. -/
theorem PoolAlike.move (h : PoolAlike V F G s q) {m : VStore κ ν τ}
    {m' : VStore κ ω τ} (hm : StoreAlike V m m') (i : Nat) {φ : Phase C κ ν τ R}
    {φ' : Phase C' κ ω τ R'} (hφ : PhaseAlike V F G φ φ') :
    PoolAlike V F G ⟨m, Function.update s.calls i φ⟩
      ⟨m', Function.update q.calls i φ'⟩ where
  store := hm
  calls := by
    intro j
    by_cases hj : j = i
    · subst hj
      simpa using hφ
    · simpa [hj] using h.calls j

/-- The second server takes the step of the first. -/
theorem PoolAlike.step (hT : Translates V F G S S') (h : PoolAlike V F G s q)
    {a : Action C κ τ} {a' : Action C' κ τ} (ha : ActionAlike F a a')
    (hstep : Step S s a s') : ∃ q', Step S' q a' q' ∧ PoolAlike V F G s' q' := by
  cases hstep with
  | @invoke i c hi he =>
      cases ha with
      | invoke _ hc =>
          have hcall := h.calls i
          rw [hi] at hcall
          generalize hq : q.calls i = φ at hcall
          cases hcall with
          | idle =>
              exact ⟨_, .invoke hq ((hT.enabled hc h.calls).trans he),
                h.move h.store i (.running hc (hT.code hc))⟩
  | @access i t c p hi hp ht =>
      cases ha with
      | access =>
          have hcall := h.calls i
          rw [hi] at hcall
          generalize hq : q.calls i = φ at hcall
          cases hcall with
          | running hc halike =>
              have hboth := halike.access h.store t
              exact ⟨_, .access hq (halike.pending.trans hp)
                (halike.admits h.store ht), h.move hboth.2 i (.running hc hboth.1)⟩
  | @fault i debug c p hi hp hf =>
      cases ha with
      | fault =>
          have hcall := h.calls i
          rw [hi] at hcall
          generalize hq : q.calls i = φ at hcall
          cases hcall with
          | running hc halike =>
              exact ⟨_, .fault hq (halike.pending.trans hp) ((hT.mayFault hc).trans hf),
                h.move h.store i (.running hc (halike.fault debug))⟩
  | @ret i c r hi =>
      cases ha with
      | ret =>
          have hcall := h.calls i
          rw [hi] at hcall
          generalize hq : q.calls i = φ at hcall
          cases hcall with
          | running hc halike =>
              obtain ⟨r', rfl, hr⟩ := halike.done_left
              exact ⟨_, .ret hq, h.move h.store i (.returned hc hr)⟩
  | @reclaim k =>
      cases ha with
      | reclaim => exact ⟨_, .reclaim, h.store.erase k, h.calls⟩

theorem Run.translate (hT : Translates V F G S S') {acts : List (Action C κ τ)}
    {acts' : List (Action C' κ τ)} (hacts : List.Forall₂ (ActionAlike F) acts acts')
    {s₀ : Pool C κ ν τ R} {q₀ : Pool C' κ ω τ R'} (h₀ : PoolAlike V F G s₀ q₀)
    (hr : Run S s₀ acts s) : ∃ q, Run S' q₀ acts' q ∧ PoolAlike V F G s q := by
  induction hr generalizing acts' with
  | nil =>
      cases hacts with
      | nil => exact ⟨q₀, .nil, h₀⟩
  | @snoc acts s s₁ a hr ha ih =>
      have hbefore := List.forall₂_take acts.length hacts
      have hlast := List.forall₂_drop acts.length hacts
      rw [List.take_left] at hbefore
      rw [List.drop_left] at hlast
      obtain ⟨a', _, ha', hnil, heq⟩ := List.forall₂_cons_left_iff.mp hlast
      cases hnil
      obtain ⟨q, hq, halike⟩ := ih hbefore
      obtain ⟨q', hstep, halike'⟩ := halike.step hT ha' ha
      refine ⟨q', ?_, halike'⟩
      rw [← List.take_append_drop acts.length acts', heq]
      exact hq.snoc hstep

/-- **Like servers have the same runs.** -/
theorem Translates.runs (hT : Translates V F G S S') {acts : List (Action C κ τ)}
    {acts' : List (Action C' κ τ)} (hacts : List.Forall₂ (ActionAlike F) acts acts')
    {s₀ : Pool C κ ν τ R} {q₀ : Pool C' κ ω τ R'} (h₀ : PoolAlike V F G s₀ q₀) :
    (∀ s, Run S s₀ acts s → ∃ q, Run S' q₀ acts' q ∧ PoolAlike V F G s q) ∧
      ∀ q, Run S' q₀ acts' q → ∃ s, Run S s₀ acts s ∧ PoolAlike V F G s q := by
  refine ⟨fun s hr => Run.translate hT hacts h₀ hr, fun q hr => ?_⟩
  obtain ⟨s, hs, halike⟩ := Run.translate hT.symm (actions_symm hacts) h₀.symm hr
  exact ⟨s, hs, halike.symm⟩

end Runs

end RestToA2a.Verified.Translation
