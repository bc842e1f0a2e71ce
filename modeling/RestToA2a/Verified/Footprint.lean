import RestToA2a.Verified.Contention

/-!
# What a program can touch

`Every P p` says that each access the program can make satisfies `P`, whatever
the answers to the ones before.  The keys of those accesses are the footprint
of the program: it neither sees nor changes the rest of the map.

For a pool this gives a projection.  When the calls fall into two sides whose
footprints are apart, the calls of one side, taken out of any run, are a run of
their own in which each of them does what it did (`Run.restrict`).  So nothing
the other side does can be told from inside.
-/

namespace RestToA2a.Verified.Footprint

open RestToA2a.Verified.VersionedStore
open RestToA2a.Verified.StorageProgram
open RestToA2a.Verified.ProgramPool
open RestToA2a.Verified.Contention

variable {C κ ν τ R α β : Type}

/-! ## The accesses of a program -/

/-- One access to the map. -/
inductive Access (κ ν τ : Type) where
  | get (k : κ)
  | store (k : κ) (mode : StoreMode τ) (v : ν)
  | delete (k : κ)

/-- The key an access is about. -/
def Access.key : Access κ ν τ → κ
  | .get k => k
  | .store k _ _ => k
  | .delete k => k

/-- Each access the program can make satisfies `P`. -/
def Every (P : Access κ ν τ → Prop) : Prog κ ν τ α → Prop
  | .done _ => True
  | .get k next => P (.get k) ∧ ∀ r, Every P (next r)
  | .store k mode v next => P (.store k mode v) ∧ ∀ r, Every P (next r)
  | .delete k next => P (.delete k) ∧ ∀ r, Every P (next r)

theorem every_map {P : Access κ ν τ → Prop} {f : α → β} {p : Prog κ ν τ α}
    (h : Every P p) : Every P (p.map f) := by
  induction p with
  | done a => trivial
  | get k next ih => exact ⟨h.1, fun r => ih r (h.2 r)⟩
  | store k mode v next ih => exact ⟨h.1, fun r => ih r (h.2 r)⟩
  | delete k next ih => exact ⟨h.1, fun r => ih r (h.2 r)⟩

theorem Every.mono {P Q : Access κ ν τ → Prop} (hPQ : ∀ a, P a → Q a)
    {p : Prog κ ν τ α} (h : Every P p) : Every Q p := by
  induction p with
  | done a => trivial
  | get k next ih => exact ⟨hPQ _ h.1, fun r => ih r (h.2 r)⟩
  | store k mode v next ih => exact ⟨hPQ _ h.1, fun r => ih r (h.2 r)⟩
  | delete k next ih => exact ⟨hPQ _ h.1, fun r => ih r (h.2 r)⟩

theorem Every.and {P Q : Access κ ν τ → Prop} {p : Prog κ ν τ α} (hP : Every P p)
    (hQ : Every Q p) : Every (fun a => P a ∧ Q a) p := by
  induction p with
  | done a => trivial
  | get k next ih => exact ⟨⟨hP.1, hQ.1⟩, fun r => ih r (hP.2 r) (hQ.2 r)⟩
  | store k mode v next ih => exact ⟨⟨hP.1, hQ.1⟩, fun r => ih r (hP.2 r) (hQ.2 r)⟩
  | delete k next ih => exact ⟨⟨hP.1, hQ.1⟩, fun r => ih r (hP.2 r) (hQ.2 r)⟩

theorem Every.fault {P : Access κ ν τ → Prop} {p : Prog κ ν τ α} (h : Every P p)
    (debug : String) : Every P (p.fault debug) := by
  cases p with
  | done a => trivial
  | get k next => exact h.2 _
  | store k mode v next => exact h.2 _
  | delete k next => exact h.2 _

/-- The program keeps to the keys `K`. -/
def KeepsTo (K : κ → Bool) (p : Prog κ ν τ α) : Prop :=
  Every (fun a => K a.key = true) p

/-- The program keeps away from the keys `K`. -/
def Avoids (K : κ → Bool) (p : Prog κ ν τ α) : Prop :=
  Every (fun a => K a.key = false) p

/-! ## Two maps that agree on some keys -/

/-- The maps are the same at the keys `K`, history included. -/
structure Agree (K : κ → Bool) (s s' : VStore κ ν τ) : Prop where
  entries : ∀ {k}, K k = true → s'.entries k = s.entries k
  used : ∀ {k}, K k = true → s'.used k = s.used k

theorem Agree.refl (K : κ → Bool) (s : VStore κ ν τ) : Agree K s s :=
  ⟨fun _ => rfl, fun _ => rfl⟩

section Accesses

variable [DecidableEq κ]

theorem Agree.write {K : κ → Bool} {s s' : VStore κ ν τ} (h : Agree K s s') (k : κ)
    (v : ν) (t : τ) : Agree K (s.write k v t) (s'.write k v t) where
  entries := by
    intro j hj
    by_cases hjk : j = k
    · subst hjk
      simp
    · rw [VStore.entries_write_ne _ v t hjk, VStore.entries_write_ne _ v t hjk]
      exact h.entries hj
  used := by
    intro j hj
    by_cases hjk : j = k
    · subst hjk
      simp [VStore.write, h.used hj]
    · simp [VStore.write, hjk, h.used hj]

theorem Agree.write_left {K : κ → Bool} {s s' : VStore κ ν τ} (h : Agree K s s')
    {k : κ} (hk : K k = false) (v : ν) (t : τ) : Agree K (s.write k v t) s' where
  entries := by
    intro j hj
    have hjk : j ≠ k := by
      rintro rfl
      exact Bool.noConfusion (hj.symm.trans hk)
    rw [VStore.entries_write_ne _ v t hjk]
    exact h.entries hj
  used := by
    intro j hj
    have hjk : j ≠ k := by
      rintro rfl
      exact Bool.noConfusion (hj.symm.trans hk)
    simp [VStore.write, hjk, h.used hj]

theorem Agree.erase {K : κ → Bool} {s s' : VStore κ ν τ} (h : Agree K s s')
    (k : κ) : Agree K (s.erase k) (s'.erase k) where
  entries := by
    intro j hj
    by_cases hjk : j = k
    · subst hjk
      simp
    · rw [VStore.entries_erase_ne _ hjk, VStore.entries_erase_ne _ hjk]
      exact h.entries hj
  used := fun hj => h.used hj

theorem Agree.erase_left {K : κ → Bool} {s s' : VStore κ ν τ} (h : Agree K s s')
    {k : κ} (hk : K k = false) : Agree K (s.erase k) s' where
  entries := by
    intro j hj
    have hjk : j ≠ k := by
      rintro rfl
      exact Bool.noConfusion (hj.symm.trans hk)
    rw [VStore.entries_erase_ne _ hjk]
    exact h.entries hj
  used := fun hj => h.used hj

variable [DecidableEq τ]

omit [DecidableEq κ] [DecidableEq τ] in
theorem Agree.accepts {K : κ → Bool} {s s' : VStore κ ν τ} (h : Agree K s s')
    {k : κ} (hk : K k = true) (mode : StoreMode τ) :
    s'.Accepts k mode ↔ s.Accepts k mode := by
  cases mode with
  | absent => simp only [VStore.Accepts, h.entries hk]
  | cas version => simp only [VStore.Accepts, h.entries hk]

theorem Agree.store {K : κ → Bool} {s s' : VStore κ ν τ} (h : Agree K s s')
    {k : κ} (hk : K k = true) (mode : StoreMode τ) (v : ν) (t : τ) :
    (s'.store k mode v t).1 = (s.store k mode v t).1 ∧
      Agree K (s.store k mode v t).2 (s'.store k mode v t).2 := by
  by_cases ha : s.Accepts k mode
  · rw [VStore.store_of_accepts ha, VStore.store_of_accepts ((h.accepts hk mode).mpr ha)]
    exact ⟨rfl, h.write k v t⟩
  · rw [VStore.store_of_not_accepts ha,
      VStore.store_of_not_accepts (mt (h.accepts hk mode).mp ha)]
    exact ⟨rfl, h⟩

/-- What an access in the footprint does depends on the footprint alone. -/
theorem KeepsTo.access {K : κ → Bool} {p : Prog κ ν τ α} (h : KeepsTo K p)
    {s s' : VStore κ ν τ} (ha : Agree K s s') (t : τ) :
    (p.access s' t).1 = (p.access s t).1 ∧
      Agree K (p.access s t).2 (p.access s' t).2 := by
  cases p with
  | done a => exact ⟨rfl, ha⟩
  | get k next =>
      have hk : K k = true := h.1
      refine ⟨?_, ha⟩
      simp only [Prog.access, ha.entries hk]
  | store k mode v next =>
      have hk : K k = true := h.1
      obtain ⟨hanswer, hagree⟩ := ha.store hk mode v t
      refine ⟨?_, hagree⟩
      simp only [Prog.access]
      rw [hanswer]
  | delete k next => exact ⟨rfl, ha.erase k⟩

/-- An access outside the footprint leaves it alone. -/
theorem Avoids.access {K : κ → Bool} {p : Prog κ ν τ α} (h : Avoids K p)
    {s s' : VStore κ ν τ} (ha : Agree K s s') (t : τ) :
    Agree K (p.access s t).2 s' := by
  cases p with
  | done a => exact ha
  | get k next => exact ha
  | store k mode v next =>
      simp only [Prog.access]
      rcases VStore.store_cases s k mode v t with ⟨_, hw⟩ | ⟨_, hw⟩
      · rw [hw]
        exact ha.write_left h.1 v t
      · rw [hw]
        exact ha
  | delete k next => exact ha.erase_left h.1

omit [DecidableEq κ] [DecidableEq τ] in
theorem KeepsTo.admits {K : κ → Bool} {p : Prog κ ν τ α} (h : KeepsTo K p)
    {s s' : VStore κ ν τ} (ha : Agree K s s') {t : τ} (ht : p.Admits s t) :
    p.Admits s' t := by
  cases p with
  | store k mode v next =>
      have hk : K k = true := h.1
      show t ∉ s'.used k
      rw [ha.used hk]
      exact ht
  | _ => trivial

theorem Every.access {P : Access κ ν τ → Prop} {p : Prog κ ν τ α} (h : Every P p)
    (s : VStore κ ν τ) (t : τ) : Every P (p.access s t).1 := by
  cases p with
  | done a => trivial
  | get k next => exact h.2 _
  | store k mode v next => exact h.2 _
  | delete k next => exact h.2 _

end Accesses

/-! ## One side of a run -/

/-- A server whose calls fall into two sides: those of `mine` keep to the keys
`K`, the others away from them, and whether a call of `mine` may be made depends
on calls of `mine` only, in the situations that come up. -/
structure Splits (S : Server C κ ν τ R) (mine : C → Bool) (K : κ → Bool)
    (Reached : (Nat → Phase C κ ν τ R) → Prop) : Prop where
  keepsTo : ∀ {c}, mine c = true → KeepsTo K (S.code c)
  avoids : ∀ {c}, mine c = false → Avoids K (S.code c)
  enabled : ∀ {calls calls' c}, Reached calls → mine c = true →
    (∀ i c', (calls i).call = some c' → mine c' = true → calls' i = calls i) →
    S.enabled calls c = true → S.enabled calls' c = true

/-- The call in this phase is one of `mine`. -/
def isMine (mine : C → Bool) (φ : Phase C κ ν τ R) : Bool := φ.call.any mine

/-- The phase of a call of `mine`; a call of the other side is not made. -/
def only (mine : C → Bool) (φ : Phase C κ ν τ R) : Phase C κ ν τ R :=
  if isMine mine φ then φ else .idle

/-- The actions of one side: those of its calls, and the removals of its keys. -/
def concerns (mine : C → Bool) (K : κ → Bool) (calls : Nat → Phase C κ ν τ R)
    (a : Action C κ τ) : Bool :=
  match a with
  | .reclaim k => K k
  | .invoke i _ => isMine mine (calls i)
  | .access i _ => isMine mine (calls i)
  | .fault i _ => isMine mine (calls i)
  | .ret i => isMine mine (calls i)

/-- `q` is what one side sees of `s`. -/
structure SideOf (mine : C → Bool) (K : κ → Bool) (s q : Pool C κ ν τ R) : Prop where
  store : Agree K s.store q.store
  calls : ∀ i, q.calls i = only mine (s.calls i)
  code : ∀ {i c p}, s.calls i = .running c p →
    (mine c = true → KeepsTo K p) ∧ (mine c = false → Avoids K p)

theorem only_of_mine {mine : C → Bool} {φ : Phase C κ ν τ R} {c : C}
    (h : φ.call = some c) (hc : mine c = true) : only mine φ = φ := by
  simp [only, isMine, h, hc]

theorem only_of_other {mine : C → Bool} {φ : Phase C κ ν τ R} {c : C}
    (h : φ.call = some c) (hc : mine c = false) : only mine φ = .idle := by
  simp [only, isMine, h, hc]

theorem SideOf.fresh (mine : C → Bool) (K : κ → Bool) (s : VStore κ ν τ) :
    SideOf mine K (Pool.fresh s : Pool C κ ν τ R) (Pool.fresh s) where
  store := .refl K s
  calls := fun _ => rfl
  code := by
    intro i c p h
    cases h

/-- A call of the side moves on both sides. -/
theorem SideOf.both {mine : C → Bool} {K : κ → Bool} {s q : Pool C κ ν τ R}
    (h : SideOf mine K s q) {st st' : VStore κ ν τ} (hst : Agree K st st')
    {i : Nat} {φ : Phase C κ ν τ R} {c : C} (hφ : φ.call = some c)
    (hc : mine c = true) (hp : ∀ {c' p}, φ = .running c' p → KeepsTo K p) :
    SideOf mine K ⟨st, Function.update s.calls i φ⟩
      ⟨st', Function.update q.calls i φ⟩ where
  store := hst
  calls := by
    intro j
    by_cases hj : j = i
    · subst hj
      simp [only_of_mine hφ hc]
    · simp [hj, h.calls j]
  code := by
    intro j c' p hrun
    by_cases hj : j = i
    · subst hj
      simp only [Function.update_self] at hrun
      have hcc : c' = c := by
        rw [hrun] at hφ
        exact Option.some.inj hφ
      subst hcc
      exact ⟨fun _ => hp hrun, fun hno => Bool.noConfusion (hc.symm.trans hno)⟩
    · simp only [Function.update_of_ne hj] at hrun
      exact h.code hrun

/-- A call of the other side moves, which the side does not see. -/
theorem SideOf.other {mine : C → Bool} {K : κ → Bool} {s q : Pool C κ ν τ R}
    (h : SideOf mine K s q) {st : VStore κ ν τ} (hst : Agree K st q.store)
    {i : Nat} (hi : q.calls i = .idle) {φ : Phase C κ ν τ R} {c : C}
    (hφ : φ.call = some c) (hc : mine c = false)
    (hp : ∀ {c' p}, φ = .running c' p → Avoids K p) :
    SideOf mine K ⟨st, Function.update s.calls i φ⟩ q where
  store := hst
  calls := by
    intro j
    by_cases hj : j = i
    · subst hj
      simp [only_of_other hφ hc, hi]
    · simp [hj, h.calls j]
  code := by
    intro j c' p hrun
    by_cases hj : j = i
    · subst hj
      simp only [Function.update_self] at hrun
      have hcc : c' = c := by
        rw [hrun] at hφ
        exact Option.some.inj hφ
      subst hcc
      exact ⟨fun hyes => Bool.noConfusion (hc.symm.trans hyes), fun _ => hp hrun⟩
    · simp only [Function.update_of_ne hj] at hrun
      exact h.code hrun

variable [DecidableEq κ] [DecidableEq τ]

/-- **One step, seen from one side**: the same step, or none at all. -/
theorem SideOf.step {S : Server C κ ν τ R} {mine : C → Bool} {K : κ → Bool}
    {Reached : (Nat → Phase C κ ν τ R) → Prop} (hS : Splits S mine K Reached)
    {s s' q : Pool C κ ν τ R} {a : Action C κ τ} (h : SideOf mine K s q)
    (hreached : Reached s.calls) (ha : Step S s a s') :
    (concerns mine K s'.calls a = true ∧
      ∃ q', Step S q a q' ∧ SideOf mine K s' q') ∨
    (concerns mine K s'.calls a = false ∧ SideOf mine K s' q) := by
  cases ha with
  | @invoke i c hi he =>
      have hidle : q.calls i = .idle := by simp [h.calls i, hi, only, isMine, Phase.call]
      cases hc : mine c with
      | true =>
          refine Or.inl ⟨by simp [concerns, isMine, Phase.call, hc], _,
            .invoke hidle (hS.enabled hreached hc ?_ he),
            h.both h.store rfl hc ?_⟩
          · intro j c' hj hc'
            rw [h.calls j, only_of_mine hj hc']
          · intro c' p hrun
            cases hrun
            exact hS.keepsTo hc
      | false =>
          refine Or.inr ⟨by simp [concerns, isMine, Phase.call, hc],
            h.other h.store hidle rfl hc ?_⟩
          intro c' p hrun
          cases hrun
          exact hS.avoids hc
  | @access i t c p hi hp ht =>
      cases hc : mine c with
      | true =>
          have hq : q.calls i = .running c p := by
            rw [h.calls i, hi, only_of_mine rfl hc]
          have hkeeps := (h.code hi).1 hc
          obtain ⟨hsame, hagree⟩ := hkeeps.access h.store t
          refine Or.inl ⟨by simp [concerns, isMine, Phase.call, hc], _,
            .access hq hp (hkeeps.admits h.store ht), ?_⟩
          rw [hsame]
          refine h.both hagree rfl hc ?_
          intro c' p' hrun
          cases hrun
          exact Every.access hkeeps s.store t
      | false =>
          have hq : q.calls i = .idle := by
            rw [h.calls i, hi, only_of_other rfl hc]
          have havoids := (h.code hi).2 hc
          refine Or.inr ⟨by simp [concerns, isMine, Phase.call, hc],
            h.other (havoids.access h.store t) hq rfl hc ?_⟩
          intro c' p' hrun
          cases hrun
          exact Every.access havoids s.store t
  | @fault i debug c p hi hp hf =>
      cases hc : mine c with
      | true =>
          have hq : q.calls i = .running c p := by
            rw [h.calls i, hi, only_of_mine rfl hc]
          refine Or.inl ⟨by simp [concerns, isMine, Phase.call, hc], _,
            .fault hq hp hf, h.both h.store rfl hc ?_⟩
          intro c' p' hrun
          cases hrun
          exact Every.fault ((h.code hi).1 hc) debug
      | false =>
          have hq : q.calls i = .idle := by
            rw [h.calls i, hi, only_of_other rfl hc]
          refine Or.inr ⟨by simp [concerns, isMine, Phase.call, hc],
            h.other h.store hq rfl hc ?_⟩
          intro c' p' hrun
          cases hrun
          exact Every.fault ((h.code hi).2 hc) debug
  | @ret i c r hi =>
      cases hc : mine c with
      | true =>
          have hq : q.calls i = .running c (.done r) := by
            rw [h.calls i, hi, only_of_mine rfl hc]
          refine Or.inl ⟨by simp [concerns, isMine, Phase.call, hc], _,
            .ret hq, h.both h.store rfl hc ?_⟩
          intro c' p' hrun
          cases hrun
      | false =>
          have hq : q.calls i = .idle := by
            rw [h.calls i, hi, only_of_other rfl hc]
          refine Or.inr ⟨by simp [concerns, isMine, Phase.call, hc],
            h.other h.store hq rfl hc ?_⟩
          intro c' p' hrun
          cases hrun
  | @reclaim k =>
      cases hk : K k with
      | true =>
          exact Or.inl ⟨hk, _, .reclaim, ⟨h.store.erase k, h.calls, h.code⟩⟩
      | false =>
          exact Or.inr ⟨hk, ⟨h.store.erase_left hk, h.calls, h.code⟩⟩

/-- Whoever has moved has been called. -/
theorem call_of_moved {S : Server C κ ν τ R} {s₀ s : Pool C κ ν τ R}
    {acts : List (Action C κ τ)} (hr : Run S s₀ acts s) {a : Action C κ τ}
    (ha : a ∈ acts) {i : Nat} (hi : a.actor = some i) :
    ∃ c, (s.calls i).call = some c := by
  induction hr with
  | nil => cases ha
  | @snoc acts s s' b _ hstep ih =>
      rcases List.mem_append.mp ha with hold | hnew
      · obtain ⟨c, hc⟩ := ih hold
        exact ⟨c, hstep.call_mono hc⟩
      · rw [List.mem_singleton] at hnew
        subst hnew
        cases hstep <;> simp only [Action.actor, Option.some.injEq, reduceCtorEq] at hi <;>
          subst hi <;> exact ⟨_, by simp [Phase.call]; rfl⟩

/-- What is true of every access of the code is true of what is left of it. -/
theorem every_of_run {S : Server C κ ν τ R} {P : C → Access κ ν τ → Prop}
    (hcode : ∀ c, Every (P c) (S.code c)) {s₀ : VStore κ ν τ} {s : Pool C κ ν τ R}
    {acts : List (Action C κ τ)} (hr : Run S (Pool.fresh s₀) acts s) {i : Nat} {c : C}
    {p : Prog κ ν τ R} (hi : s.calls i = .running c p) : Every (P c) p := by
  have hrg : RelyGuarantee S (fun _ => True) fun c p _ => Every (P c) p :=
    { start := fun _ => hcode _
      access := fun _ hT _ => ⟨trivial, hT.access _ _⟩
      fault := fun _ hT => hT.fault _
      stable := fun hT _ => hT
      reclaim := fun _ => trivial }
  have hcall := (hrg.run hr (Holds.fresh trivial)).calls i
  rw [hi] at hcall
  exact hcall

/-- What an access leaves at a key was there, or is what it has written. -/
theorem entry_of_access {s : VStore κ ν τ} {t : τ} {p : Prog κ ν τ α} {k : κ}
    {e : ν × τ} (h : (p.access s t).2.entries k = some e) :
    s.entries k = some e ∨
      ∃ mode next, p = .store k mode e.1 next ∧ s.Accepts k mode := by
  cases p with
  | done a => exact Or.inl h
  | get k' next => exact Or.inl h
  | store k' mode v next =>
      simp only [Prog.access] at h
      rcases VStore.store_cases s k' mode v t with ⟨haccepts, hw⟩ | ⟨_, hw⟩
      · rw [hw] at h
        by_cases hk : k = k'
        · subst hk
          rw [VStore.entries_write_self] at h
          cases h
          exact Or.inr ⟨mode, next, rfl, haccepts⟩
        · rw [VStore.entries_write_ne _ _ _ hk] at h
          exact Or.inl h
      · rw [hw] at h
        exact Or.inl h
  | delete k' next =>
      simp only [Prog.access] at h
      by_cases hk : k = k'
      · subst hk
        simp at h
      · rw [VStore.entries_erase_ne _ hk] at h
        exact Or.inl h

/-- Where an entry is new after a step, a call has written it. -/
theorem writer_of_step {S : Server C κ ν τ R} {P : C → Access κ ν τ → Prop}
    (hcode : ∀ c, Every (P c) (S.code c)) {s₀ : VStore κ ν τ} {s s' : Pool C κ ν τ R}
    {acts : List (Action C κ τ)} {a : Action C κ τ}
    (hr : Run S (Pool.fresh s₀) acts s) (ha : Step S s a s') {k : κ} {e : ν × τ}
    (he : s'.store.entries k = some e) :
    s.store.entries k = some e ∨
      ∃ i c mode, (s.calls i).call = some c ∧ P c (.store k mode e.1) := by
  cases ha with
  | invoke hi hen => exact Or.inl he
  | fault hi hp hf => exact Or.inl he
  | ret hi => exact Or.inl he
  | @access i t c p hi hp ht =>
      rcases entry_of_access he with hold | ⟨mode, next, rfl, _⟩
      · exact Or.inl hold
      · exact Or.inr ⟨i, c, mode, by rw [hi]; rfl, (every_of_run hcode hr hi).1⟩
  | @reclaim k' =>
      by_cases hk : k = k'
      · subst hk
        simp at he
      · rw [VStore.entries_erase_ne _ hk] at he
        exact Or.inl he

/-- **Every entry was there at the start, or was written by a call.** -/
theorem writer_of_run {S : Server C κ ν τ R} {P : C → Access κ ν τ → Prop}
    (hcode : ∀ c, Every (P c) (S.code c)) {s₀ : VStore κ ν τ} {s : Pool C κ ν τ R}
    {acts : List (Action C κ τ)} (hr : Run S (Pool.fresh s₀) acts s) {k : κ}
    {e : ν × τ} (he : s.store.entries k = some e) :
    s₀.entries k = some e ∨
      ∃ i c mode, (s.calls i).call = some c ∧ P c (.store k mode e.1) := by
  induction hr with
  | nil => exact Or.inl he
  | @snoc acts s s' a hr ha ih =>
      have hmono : (∃ i c mode, (s.calls i).call = some c ∧ P c (.store k mode e.1)) →
          ∃ i c mode, (s'.calls i).call = some c ∧ P c (.store k mode e.1) := by
        rintro ⟨i, c, mode, hi, hP⟩
        exact ⟨i, c, mode, ha.call_mono hi, hP⟩
      rcases writer_of_step hcode hr ha he with hold | hnew
      · exact (ih hold).imp id hmono
      · exact Or.inr (hmono hnew)

/-- A call that was not made has not operated. -/
theorem operations_of_idle {S : Server C κ ν τ R} {s₀ s : Pool C κ ν τ R}
    {acts : List (Action C κ τ)} (hr : Run S s₀ acts s) {i : Nat}
    (hi : (s.calls i).call = none) : acts.countP (operates i) = 0 := by
  rw [List.countP_eq_zero]
  intro a ha hop
  obtain ⟨c, hc⟩ := call_of_moved hr ha (actor_of_operates hop)
  rw [hi] at hc
  cases hc

/-- **The budget of a call.**  The operations a call has made in a run, with
those it may still make, keep the bound of its program. -/
theorem operations_within {S : Server C κ ν τ R} {bound : C → Nat}
    (hcode : ∀ c, Within (bound c) (S.code c)) {s₀ : VStore κ ν τ}
    {s : Pool C κ ν τ R} {acts : List (Action C κ τ)}
    (hr : Run S (Pool.fresh s₀) acts s) {i : Nat} {c : C} {p : Prog κ ν τ R}
    (hi : remaining (s.calls i) = some (c, p)) :
    ∃ left, Within left p ∧ acts.countP (operates i) + left ≤ bound c := by
  induction hr generalizing p with
  | nil => cases hi
  | @snoc acts s s' a hr ha ih =>
      rw [List.countP_append, List.countP_singleton]
      cases hop : operates i a with
      | true =>
          obtain ⟨c', q, q', hq, hpending, hq', hstep⟩ := operation_of_step ha hop
          rw [hi] at hq'
          cases hq'
          obtain ⟨left, hleft, hcount⟩ := ih hq
          obtain ⟨m, rfl, haccess, hfault⟩ := hleft.operate hpending
          refine ⟨m, ?_, by simp only [if_true]; omega⟩
          rcases hstep with ⟨t, hs⟩ | ⟨debug, _, rfl, _⟩
          · have hp := haccess s.store t
            rwa [hs] at hp
          · exact hfault debug
      | false =>
          simp only [Bool.false_eq_true, if_false, Nat.add_zero]
          rcases remaining_step ha hop with hsame | ⟨hidle, d, hd⟩
          · exact ih (hsame.symm.trans hi)
          · rw [hi] at hd
            cases hd
            -- a call that has just been made has not operated before
            have hcall : (s.calls i).call = none := by
              cases hφ : s.calls i with
              | idle => rfl
              | running e p => simp [hφ, remaining] at hidle
              | returned e r => simp [hφ, remaining] at hidle
            have hnone := operations_of_idle hr hcall
            exact ⟨bound c, hcode c, by omega⟩

/-- **A call finishes by itself**, whatever the run has done to it, and the
operations it needs for that are within its bound too. -/
theorem finishes_alone {S : Server C κ ν τ R} (m : Mint κ ν τ) {bound : C → Nat}
    (hcode : ∀ c, Within (bound c) (S.code c)) {s₀ : VStore κ ν τ}
    {s : Pool C κ ν τ R} {acts : List (Action C κ τ)}
    (hr : Run S (Pool.fresh s₀) acts s) {i : Nat} {c : C}
    (hi : (s.calls i).call = some c) :
    ∃ own s' r, (∀ a ∈ own, a.actor = some i) ∧ Run S s own s' ∧
      s'.calls i = .returned c r ∧ (acts ++ own).countP (operates i) ≤ bound c := by
  have hdone : ∃ own s' r, (∀ a ∈ own, a.actor = some i) ∧ Run S s own s' ∧
      s'.calls i = .returned c r := by
    cases hφ : s.calls i with
    | idle => simp [hφ, Phase.call] at hi
    | returned d r =>
        rw [hφ] at hi
        cases hi
        exact ⟨[], s, r, by simp, .nil, hφ⟩
    | running d p =>
        rw [hφ] at hi
        cases hi
        obtain ⟨own, hown, hrun⟩ := run_alone S m i c p s hφ
        refine ⟨own ++ [.ret i], _, (p.run m s.store).1, ?_,
          hrun.snoc (.ret (c := c) (r := (p.run m s.store).1) (by simp)), by simp⟩
        intro a ha
        rcases List.mem_append.mp ha with ha | ha
        · exact hown a ha
        · rw [List.mem_singleton.mp ha]
          rfl
  obtain ⟨own, s', r, hown, hrun, hret⟩ := hdone
  have hrem : remaining (s'.calls i) = some (c, .done r) := by rw [hret]; rfl
  obtain ⟨left, _, hcount⟩ := operations_within hcode (hr.append hrun) hrem
  exact ⟨own, s', r, hown, hrun, hret, by omega⟩

omit [DecidableEq κ] [DecidableEq τ] in
/-- A call that was made has a program left, if only its result. -/
theorem remaining_of_call {φ : Phase C κ ν τ R} {c : C} (h : φ.call = some c) :
    ∃ p, remaining φ = some (c, p) := by
  cases φ with
  | idle => cases h
  | running d p =>
      cases h
      exact ⟨p, rfl⟩
  | returned d r =>
      cases h
      exact ⟨.done r, rfl⟩

/-- A call makes no more operations than its program allows. -/
theorem operations_le {S : Server C κ ν τ R} {bound : C → Nat}
    (hcode : ∀ c, Within (bound c) (S.code c)) {s₀ : VStore κ ν τ}
    {s : Pool C κ ν τ R} {acts : List (Action C κ τ)}
    (hr : Run S (Pool.fresh s₀) acts s) {i : Nat} {c : C}
    (hi : (s.calls i).call = some c) : acts.countP (operates i) ≤ bound c := by
  obtain ⟨p, hp⟩ := remaining_of_call hi
  obtain ⟨left, _, hcount⟩ := operations_within hcode hr hp
  omega

/-- Where every call is finished at once, an entry changes only by being
removed. -/
theorem entries_of_immediate {S : Server C κ ν τ R}
    (hcode : ∀ c, ∃ r, S.code c = .done r) {s₀ : VStore κ ν τ}
    {s : Pool C κ ν τ R} {acts : List (Action C κ τ)}
    (hr : Run S (Pool.fresh s₀) acts s) (k : κ) :
    s.store.entries k = s₀.entries k ∨ s.store.entries k = none := by
  have hwithin : ∀ c, Within ((fun _ => 0) c) (S.code c) := by
    intro c
    obtain ⟨r, hr⟩ := hcode c
    rw [hr]
    exact within_done 0 r
  induction hr with
  | nil => exact Or.inl rfl
  | @snoc acts s s' a hr ha ih =>
      cases ha with
      | invoke hi he => exact ih
      | fault hi hp hf => exact ih
      | ret hi => exact ih
      | @access i t c p hi hp ht =>
          obtain ⟨left, hleft, hcount⟩ :=
            operations_within hwithin hr (p := p) (by rw [hi]; rfl)
          obtain ⟨m, rfl, _⟩ := hleft.operate hp
          omega
      | @reclaim k' =>
          by_cases hk : k = k'
          · subst hk
            exact Or.inr (VStore.entries_erase_self _ _)
          · rw [VStore.entries_erase_ne _ hk]
            exact ih

omit [DecidableEq κ] [DecidableEq τ] in
theorem within_of_map {f : α → β} {n : Nat} {p : Prog κ ν τ α}
    (h : Within n (p.map f)) : Within n p := by
  induction n generalizing p with
  | zero =>
      cases p with
      | done a => trivial
      | _ => cases h
  | succ n ih =>
      cases p with
      | done a => trivial
      | get k next => exact fun r => ih (h r)
      | store k mode v next => exact fun r => ih (h r)
      | delete k next => exact fun r => ih (h r)

/-- **The projection of a run.**  The actions of one side, taken out of any run,
are a run; in it each call of the side is where it was, and the keys of the side
hold what they held. -/
theorem Run.restrict {S : Server C κ ν τ R} {mine : C → Bool} {K : κ → Bool}
    {Reached : (Nat → Phase C κ ν τ R) → Prop} (hS : Splits S mine K Reached)
    {s₀ : VStore κ ν τ}
    (hreached : ∀ {acts : List (Action C κ τ)} {s : Pool C κ ν τ R},
      Run S (Pool.fresh s₀) acts s → Reached s.calls)
    {acts : List (Action C κ τ)} {s : Pool C κ ν τ R}
    (hr : Run S (Pool.fresh s₀) acts s) :
    ∃ q, Run S (Pool.fresh s₀) (acts.filter (concerns mine K s.calls)) q ∧
      SideOf mine K s q := by
  induction hr with
  | nil => exact ⟨_, .nil, .fresh mine K s₀⟩
  | @snoc acts s s' a hr ha ih =>
      obtain ⟨q, hq, hside⟩ := ih
      have hsame : acts.filter (concerns mine K s'.calls) =
          acts.filter (concerns mine K s.calls) := by
        apply List.filter_congr
        intro b hb
        have hcall : ∀ {i}, b.actor = some i →
            isMine mine (s'.calls i) = isMine mine (s.calls i) := by
          intro i hi
          obtain ⟨c, hc⟩ := call_of_moved hr hb hi
          simp only [isMine, hc, ha.call_mono hc]
        cases b with
        | reclaim k => rfl
        | invoke i c => exact hcall rfl
        | access i t => exact hcall rfl
        | fault i debug => exact hcall rfl
        | ret i => exact hcall rfl
      rw [List.filter_append, hsame]
      rcases hside.step hS (hreached hr) ha with ⟨hc, q', hstep, hside'⟩ | ⟨hc, hside'⟩
      · refine ⟨q', ?_, hside'⟩
        simp only [List.filter_cons, hc, if_true, List.filter_nil]
        exact .snoc hq hstep
      · refine ⟨q, ?_, hside'⟩
        simpa [List.filter_cons, hc] using hq

end RestToA2a.Verified.Footprint
