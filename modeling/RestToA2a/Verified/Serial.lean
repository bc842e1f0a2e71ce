import RestToA2a.Verified.Standing

/-!
# One key, one call at a time

Some calls of a pool work on one key.  If they come one after the other, each
after the one before has returned, they find the key as the one before left it,
however many other calls run meanwhile on other keys.

`Alone k gone post p x` is the precondition of `post`: with `k` to itself and the
entry `x` there, `p` ends in `post`, under whatever versions its writes are given,
and though the backend may remove a value that is `gone`.  When each of the calls
meets such a specification (`Serves`), and the backend removes only what has faded
for the calls that could still come upon it (`Spent`), a run in which they are
serial answers them as the specification does, one call after the other, as if
nothing had been removed (`served_of_run`).
-/

namespace RestToA2a.Verified.Serial

open RestToA2a.Verified.VersionedStore
open RestToA2a.Verified.StorageProgram
open RestToA2a.Verified.ProgramPool
open RestToA2a.Verified.Linearizable
open RestToA2a.Verified.Contention
open RestToA2a.Verified.Footprint
open RestToA2a.Verified.Standing

variable {C κ ν τ R α β : Type}

/-! ## What removals leave -/

/-- What is left of `x` once what is `gone` may have been removed. -/
def Left (gone : α → Prop) (x y : Option α) : Prop :=
  y = x ∨ y = none ∧ ∃ a, x = some a ∧ gone a

theorem Left.refl (gone : α → Prop) (x : Option α) : Left gone x x := Or.inl rfl

theorem Left.mono {gone gone' : α → Prop} (himp : ∀ a, gone a → gone' a)
    {x y : Option α} (h : Left gone x y) : Left gone' x y := by
  rcases h with rfl | ⟨rfl, a, rfl, ha⟩
  · exact .refl _ _
  · exact Or.inr ⟨rfl, a, rfl, himp a ha⟩

theorem Left.of_none {gone : α → Prop} {y : Option α} (h : Left gone none y) :
    y = none := by
  rcases h with rfl | ⟨rfl, _⟩ <;> rfl

/-- One more removal. -/
theorem Left.removed {gone : α → Prop} {x y : Option α} (h : Left gone x y)
    (hy : ∀ a, y = some a → gone a) : Left gone x none := by
  rcases h with rfl | ⟨rfl, hx⟩
  · cases y with
    | none => exact .refl _ _
    | some a => exact Or.inr ⟨rfl, a, rfl, hy a rfl⟩
  · exact Or.inr ⟨rfl, hx⟩

/-! ## A program with the key to itself -/

/-- A conditional write takes effect on this entry. -/
def Takes : StoreMode τ → Option (ν × τ) → Prop
  | .absent, x => x = none
  | .cas version, x => ∃ v, x = some (v, version)

/-- The entry is still there, or a value that is gone was removed. -/
abbrev Stays (gone : ν → Prop) (x y : Option (ν × τ)) : Prop :=
  Left (fun e => gone e.1) x y

theorem Stays.value {gone : ν → Prop} {x y : Option (ν × τ)} (h : Stays gone x y) :
    Left gone (x.map Prod.fst) (y.map Prod.fst) := by
  rcases h with rfl | ⟨rfl, e, rfl, he⟩
  · exact .refl _ _
  · exact Or.inr ⟨rfl, e.1, rfl, he⟩

/-- From the entry `x` of `k`, the program ends with a result and a value of `k`
that satisfy `post`, whatever is removed before its accesses. -/
def Alone (k : κ) (gone : ν → Prop) (post : α → Option ν → Prop) :
    Prog κ ν τ α → Option (ν × τ) → Prop
  | .done a, x => post a (x.map Prod.fst)
  | .get k' next, x =>
      k' = k ∧ ∀ y, Stays gone x y → Alone k gone post (next (.ok y)) y
  | .store k' mode v next, x =>
      k' = k ∧ ∀ y, Stays gone x y →
        (Takes mode y → ∀ t, Alone k gone post (next (.ok ())) (some (v, t))) ∧
          (¬ Takes mode y → Alone k gone post (next (.error .casMismatch)) y)
  | .delete k' next, _ => k' = k ∧ Alone k gone post (next (.ok ())) none

section Programs

variable {k : κ} {gone : ν → Prop}

theorem Alone.mono {post post' : α → Option ν → Prop}
    (hpost : ∀ a y, post a y → post' a y) {p : Prog κ ν τ α} {x : Option (ν × τ)}
    (h : Alone k gone post p x) : Alone k gone post' p x := by
  induction p generalizing x with
  | done a => exact hpost _ _ h
  | get k' next ih => exact ⟨h.1, fun y hy => ih _ (h.2 y hy)⟩
  | store k' mode v next ih =>
      refine ⟨h.1, fun y hy => ?_⟩
      obtain ⟨htaken, hrefused⟩ := h.2 y hy
      exact ⟨fun htakes t => ih _ (htaken htakes t), fun hno => ih _ (hrefused hno)⟩
  | delete k' next ih => exact ⟨h.1, ih _ h.2⟩

theorem alone_map {post : β → Option ν → Prop} {f : α → β} {p : Prog κ ν τ α}
    {x : Option (ν × τ)} (h : Alone k gone (fun a => post (f a)) p x) :
    Alone k gone post (p.map f) x := by
  induction p generalizing x with
  | done a => exact h
  | get k' next ih => exact ⟨h.1, fun y hy => ih _ (h.2 y hy)⟩
  | store k' mode v next ih =>
      refine ⟨h.1, fun y hy => ?_⟩
      obtain ⟨htaken, hrefused⟩ := h.2 y hy
      exact ⟨fun htakes t => ih _ (htaken htakes t), fun hno => ih _ (hrefused hno)⟩
  | delete k' next ih => exact ⟨h.1, ih _ h.2⟩

/-- A removal before the next access is allowed for. -/
theorem Alone.removed {post : α → Option ν → Prop} {p : Prog κ ν τ α}
    {x : Option (ν × τ)} (h : Alone k gone post p x) (hp : p.pending = true)
    (hx : ∀ e, x = some e → gone e.1) : Alone k gone post p none := by
  have hnone : Stays gone x none := (Left.refl _ x).removed hx
  cases p with
  | done a => cases hp
  | get k' next =>
      refine ⟨h.1, fun y hy => ?_⟩
      obtain rfl := hy.of_none
      exact h.2 none hnone
  | store k' mode v next =>
      refine ⟨h.1, fun y hy => ?_⟩
      obtain rfl := hy.of_none
      exact h.2 none hnone
  | delete k' next => exact h

theorem takes_iff {s : VStore κ ν τ} {mode : StoreMode τ} :
    Takes mode (s.entries k) ↔ s.Accepts k mode := by
  cases mode <;> rfl

/-- One access keeps the precondition. -/
theorem Alone.access [DecidableEq κ] [DecidableEq τ] {post : α → Option ν → Prop}
    {p : Prog κ ν τ α} {s : VStore κ ν τ} (h : Alone k gone post p (s.entries k))
    (t : τ) : Alone k gone post (p.access s t).1 ((p.access s t).2.entries k) := by
  have hstays : Stays gone (s.entries k) (s.entries k) := .refl _ _
  cases p with
  | done a => exact h
  | get k' next =>
      obtain ⟨rfl, hfound⟩ := h
      exact hfound _ hstays
  | store k' mode v next =>
      obtain ⟨rfl, hends⟩ := h
      obtain ⟨htaken, hrefused⟩ := hends _ hstays
      simp only [Prog.access]
      rcases VStore.store_cases s k' mode v t with ⟨haccepts, hw⟩ | ⟨hno, hw⟩
      · rw [hw, VStore.entries_write_self]
        exact htaken (takes_iff.mpr haccepts) t
      · rw [hw]
        exact hrefused (mt takes_iff.mp hno)
  | delete k' next =>
      obtain ⟨rfl, hends⟩ := h
      simp only [Prog.access, VStore.entries_erase_self]
      exact hends

/-- What is true of every access is true of those of a program. -/
theorem every_of_forall {P : Access κ ν τ → Prop} (hP : ∀ a, P a)
    (p : Prog κ ν τ α) : Every P p := by
  induction p with
  | done a => trivial
  | get k next ih => exact ⟨hP _, ih⟩
  | store k mode v next ih => exact ⟨hP _, ih⟩
  | delete k next ih => exact ⟨hP _, ih⟩

end Programs

/-! ## The calls on the key -/

/-- The calls of `mine` work on `k`, and what each of them answers and leaves
there is a function of the value it comes upon.  A value that `fades` for a call
is to it as good as none.  The other calls make no access to `k`. -/
structure Serves (S : Server C κ ν τ R) (k : κ) (mine : C → Bool)
    (fades : C → ν → Prop) (reply : C → Option ν → R)
    (effect : C → Option ν → Option ν) : Prop where
  alone : ∀ {c gone}, mine c = true → (∀ v, gone v → fades c v) → ∀ x,
    Alone k gone (fun r y => r = reply c (x.map Prod.fst) ∧
      Left gone (effect c (x.map Prod.fst)) y) (S.code c) x
  faded : ∀ {c v}, mine c = true → fades c v →
    reply c (some v) = reply c none ∧
      (effect c (some v) = effect c none ∨
        effect c (some v) = some v ∧ effect c none = none)
  apart : ∀ {c}, mine c = false → Apart k (S.code c)

/-- A call that comes upon what removals have left answers as if nothing had been
removed. -/
theorem Serves.begins {S : Server C κ ν τ R} {k : κ} {mine : C → Bool}
    {fades : C → ν → Prop} {reply : C → Option ν → R}
    {effect : C → Option ν → Option ν} (hS : Serves S k mine fades reply effect) {c : C}
    (hc : mine c = true) {gone : ν → Prop} {m : Option ν} {x : Option (ν × τ)}
    (hx : Left (fun v => fades c v ∧ gone v) m (x.map Prod.fst)) :
    Alone k (fun v => fades c v ∧ gone v)
      (fun r y => r = reply c m ∧ Left gone (effect c m) y) (S.code c) x := by
  refine Alone.mono ?_ (hS.alone hc (fun v hv => hv.1) x)
  rintro r y ⟨rfl, hy⟩
  rcases hx with rfl | ⟨hnone, v, rfl, hfades, hgone⟩
  · exact ⟨rfl, hy.mono fun v hv => hv.2⟩
  · rw [hnone] at hy ⊢
    obtain ⟨hreply, heffect⟩ := hS.faded hc hfades
    refine ⟨hreply.symm, ?_⟩
    rcases heffect with hsame | ⟨hkept, hstill⟩
    · rw [hsame]
      exact hy.mono fun v hv => hv.2
    · rw [hstill] at hy
      rw [hkept]
      exact Or.inr ⟨hy.of_none, v, rfl, hgone⟩

/-- The calls of `mine` that were made, the last one first. -/
def made (mine : C → Bool) (acts : List (Action C κ τ)) : List (Nat × C) :=
  (acts.filterMap fun a =>
    match a with
    | .invoke i c => if mine c then some (i, c) else none
    | _ => none).reverse

/-- The value of the key after some calls, the last one first. -/
def memory (effect : C → Option ν → Option ν) (start : Option ν) :
    List (Nat × C) → Option ν
  | [] => start
  | (_, c) :: older => effect c (memory effect start older)

/-- The calls of `mine` come one after the other, and none of their accesses is
failed. -/
structure InTurn (mine : C → Bool) (acts : List (Action C κ τ)) : Prop where
  serial : ∀ {n i c}, acts[n]? = some (.invoke i c) → mine c = true →
    ∀ e ∈ made mine (acts.take n), .ret e.1 ∈ acts.take n
  calm : ∀ {e debug}, e ∈ made mine acts → .fault e.1 debug ∉ acts

/-- They do, and the backend does not remove the key. -/
structure Orderly (mine : C → Bool) (k : κ) (acts : List (Action C κ τ)) : Prop
    extends InTurn mine acts where
  kept : .reclaim k ∉ acts

section Made

variable {mine : C → Bool} {acts : List (Action C κ τ)}

theorem made_append (bs : List (Action C κ τ)) :
    made mine (acts ++ bs) = made mine bs ++ made mine acts := by
  simp [made, List.filterMap_append]

theorem made_snoc_invoke {i : Nat} {c : C} (hc : mine c = true) :
    made mine (acts ++ [.invoke i c]) = (i, c) :: made mine acts := by
  simp [made, List.filterMap_append, hc]

/-- Only a call of `mine` that is made adds to the list. -/
theorem made_snoc_other {a : Action C κ τ}
    (ha : ∀ i c, a = .invoke i c → mine c = false) :
    made mine (acts ++ [a]) = made mine acts := by
  cases a with
  | invoke i c => simp [made, List.filterMap_append, ha i c rfl]
  | _ => simp [made, List.filterMap_append]

theorem made_cons_other {a : Action C κ τ}
    (ha : ∀ i c, a = .invoke i c → mine c = false) :
    made mine (a :: acts) = made mine acts := by
  have hsingle : made mine ([] ++ [a]) = [] := made_snoc_other ha
  rw [← List.singleton_append, made_append, ← List.nil_append [a], hsingle,
    List.append_nil]

theorem made_cons_invoke {i : Nat} {c : C} (hc : mine c = true) :
    made mine (.invoke i c :: acts) = made mine acts ++ [(i, c)] := by
  rw [← List.singleton_append, made_append]
  simp [made, hc]

theorem mem_made_append {bs : List (Action C κ τ)} {e : Nat × C}
    (he : e ∈ made mine acts) : e ∈ made mine (acts ++ bs) := by
  rw [made_append]
  exact List.mem_append_right _ he

theorem InTurn.before {bs : List (Action C κ τ)} (h : InTurn mine (acts ++ bs)) :
    InTurn mine acts where
  serial := by
    intro n i c hn
    obtain ⟨hlt, _⟩ := List.getElem?_eq_some_iff.mp hn
    have hn' : (acts ++ bs)[n]? = some (.invoke i c) := by
      rw [List.getElem?_append_left hlt, hn]
    have htake : (acts ++ bs).take n = acts.take n :=
      List.take_append_of_le_length hlt.le
    exact htake ▸ h.serial hn'
  calm := fun he hfault => h.calm (mem_made_append he) (List.mem_append_left _ hfault)

/-- When a call of `mine` is made, those before it have returned. -/
theorem InTurn.returned {i : Nat} {c : C} {bs : List (Action C κ τ)}
    (h : InTurn mine (acts ++ .invoke i c :: bs)) (hc : mine c = true) :
    ∀ e ∈ made mine acts, .ret e.1 ∈ acts := by
  have hn : (acts ++ .invoke i c :: bs)[acts.length]? = some (.invoke i c) := by simp
  have hall := h.serial hn hc
  rwa [List.take_left] at hall

/-- Up to a call that another one follows, and that has returned by then. -/
theorem InTurn.upto {newer older : List (Nat × C)} {e : Nat × C}
    (hturn : InTurn mine acts) (hmade : made mine acts = newer ++ e :: older)
    (hnewer : newer ≠ []) :
    ∃ before after, acts = before ++ after ∧ made mine before = e :: older ∧
      .ret e.1 ∈ before := by
  induction acts using List.reverseRecOn generalizing newer with
  | nil => simp [made] at hmade
  | append_singleton acts a ih =>
      by_cases hinvoke : ∃ i c, a = .invoke i c ∧ mine c = true
      · obtain ⟨i, c, rfl, hc⟩ := hinvoke
        rw [made_snoc_invoke hc] at hmade
        cases newer with
        | nil => exact absurd rfl hnewer
        | cons last newer =>
            simp only [List.cons_append, List.cons.injEq] at hmade
            cases newer with
            | nil =>
                have hreturned := hturn.returned hc e (by rw [hmade.2]; simp)
                exact ⟨acts, [.invoke i c], rfl, hmade.2, hreturned⟩
            | cons next newer =>
                obtain ⟨before, after, rfl, hbefore⟩ :=
                  ih hturn.before hmade.2 (by simp)
                exact ⟨before, after ++ [.invoke i c], by simp, hbefore⟩
      · have hsame : made mine (acts ++ [a]) = made mine acts := by
          refine made_snoc_other fun i c ha => ?_
          by_contra hc
          exact hinvoke ⟨i, c, ha, by simpa using hc⟩
        obtain ⟨before, after, rfl, hbefore⟩ :=
          ih hturn.before (hsame ▸ hmade) hnewer
        exact ⟨before, after ++ [a], by simp, hbefore⟩

end Made

/-! ## Whole runs -/

section Runs

variable [DecidableEq κ] [DecidableEq τ] {S : Server C κ ν τ R} {k : κ}
  {mine : C → Bool} {fades : C → ν → Prop} {reply : C → Option ν → R}
  {effect : C → Option ν → Option ν} {s₀ : VStore κ ν τ}
  {acts rest : List (Action C κ τ)} {s s' : Pool C κ ν τ R} {a : Action C κ τ}

theorem mem_made_of_call (hr : Run S (Pool.fresh s₀) acts s) {i : Nat} {c : C}
    (hi : (s.calls i).call = some c) (hc : mine c = true) :
    (i, c) ∈ made mine acts := by
  induction hr with
  | nil => cases hi
  | @snoc acts s s' a hr ha ih =>
      rcases ha.call_cases hi with hold | ⟨rfl, _⟩
      · exact mem_made_append (ih hold)
      · rw [made_snoc_invoke hc]
        exact List.mem_cons_self

theorem returned_of_ret (hr : Run S (Pool.fresh s₀) acts s) {i : Nat}
    (hret : .ret i ∈ acts) : ∃ c r, s.calls i = .returned c r := by
  induction hr with
  | nil => cases hret
  | @snoc acts s s' a hr ha ih =>
      rcases List.mem_append.mp hret with hold | hnew
      · obtain ⟨c, r, hi⟩ := ih hold
        exact ⟨c, r, ha.returned_mono hi⟩
      · cases List.mem_singleton.mp hnew
        cases ha with
        | @ret i c r hi => exact ⟨c, r, by simp⟩

/-- The backend removed the value from the key in the course of the actions. -/
def Removed (S : Server C κ ν τ R) (s₀ : VStore κ ν τ) (k : κ)
    (acts : List (Action C κ τ)) (v : ν) : Prop :=
  ∃ before after s, acts = before ++ .reclaim k :: after ∧
    Run S (Pool.fresh s₀) before s ∧ s.store.contents k = some v

/-- What the backend removes from the key has faded for each call of `mine` that
has not returned by then, be it at work or still to be made. -/
def Spent (S : Server C κ ν τ R) (s₀ : VStore κ ν τ) (mine : C → Bool)
    (fades : C → ν → Prop) (k : κ) (acts : List (Action C κ τ)) : Prop :=
  ∀ before after s v, acts = before ++ .reclaim k :: after →
    Run S (Pool.fresh s₀) before s → s.store.contents k = some v →
    ∀ e, e ∈ made mine after ∨ (e ∈ made mine before ∧ .ret e.1 ∉ before) →
      fades e.2 v

/-- What is removed from the key in a run, and has faded for the calls of `mine`
that are made in the `rest` of it. -/
def Over (S : Server C κ ν τ R) (s₀ : VStore κ ν τ) (mine : C → Bool)
    (fades : C → ν → Prop) (k : κ) (acts rest : List (Action C κ τ)) (v : ν) : Prop :=
  Removed S s₀ k acts v ∧ ∀ e ∈ made mine rest, fades e.2 v

/-- Each of these calls has returned, with the reply to what the ones before it
have left. -/
def Returned (reply : C → Option ν → R) (effect : C → Option ν → Option ν)
    (start : Option ν) (s : Pool C κ ν τ R) : List (Nat × C) → Prop
  | [] => True
  | (i, c) :: older =>
      s.calls i = .returned c (reply c (memory effect start older)) ∧
        Returned reply effect start s older

/-- The last of the calls may still be at work, with the key to itself; the ones
before it have returned. -/
def Serving (k : κ) (fades : C → ν → Prop) (reply : C → Option ν → R)
    (effect : C → Option ν → Option ν) (start : Option ν) (gone : ν → Prop)
    (s : Pool C κ ν τ R) : List (Nat × C) → Prop
  | [] => Left gone start (s.store.contents k)
  | (i, c) :: older =>
      Returned reply effect start s older ∧
        ∃ p, remaining (s.calls i) = some (c, p) ∧
          Alone k (fun v => fades c v ∧ gone v)
            (fun r y => r = reply c (memory effect start older) ∧
              Left gone (effect c (memory effect start older)) y)
            p (s.store.entries k)

variable {start : Option ν} {gone : ν → Prop} {calls : List (Nat × C)}

theorem Returned.step (h : Returned reply effect start s calls) (ha : Step S s a s') :
    Returned reply effect start s' calls := by
  induction calls with
  | nil => trivial
  | cons e older ih => exact ⟨ha.returned_mono h.1, ih h.2⟩

omit [DecidableEq κ] [DecidableEq τ] in
theorem Returned.mem (h : Returned reply effect start s calls) {e : Nat × C}
    (he : e ∈ calls) : ∃ r, s.calls e.1 = .returned e.2 r := by
  induction calls with
  | nil => cases he
  | cons d older ih =>
      rcases List.mem_cons.mp he with rfl | he
      · exact ⟨_, h.1⟩
      · exact ih h.2 he

omit [DecidableEq κ] [DecidableEq τ] in
/-- Once the last call has returned too, the key holds what it has left, or what
removals have left of that. -/
theorem Serving.settled (h : Serving k fades reply effect start gone s calls)
    (hall : ∀ e ∈ calls, ∃ c r, s.calls e.1 = .returned c r) :
    Returned reply effect start s calls ∧
      Left gone (memory effect start calls) (s.store.contents k) := by
  cases calls with
  | nil => exact ⟨trivial, h⟩
  | cons e older =>
      obtain ⟨hreturned, p, hp, halone⟩ := h
      obtain ⟨c, r, hi⟩ := hall e (by simp)
      rw [hi] at hp
      cases hp
      obtain ⟨hr, hy⟩ := halone
      exact ⟨⟨hr ▸ hi, hreturned⟩, hy⟩

/-- Only the calls of `mine` and removals change the entry. -/
theorem entries_of_step (hS : Serves S k mine fades reply effect)
    (hr : Run S (Pool.fresh s₀) acts s) (ha : Step S s a s') (hkept : a ≠ .reclaim k)
    (hother : ∀ i c p, s.calls i = .running c p → mine c = true →
      operates i a = false) : s'.store.entries k = s.store.entries k := by
  have hcode : ∀ c, Every (fun a => mine c = false → a.key ≠ k) (S.code c) := by
    intro c
    cases hc : mine c with
    | true => exact every_of_forall (fun a h => by cases h) (S.code c)
    | false => exact Every.mono (fun a h _ => h) (hS.apart hc)
  cases ha with
  | invoke hi he => rfl
  | fault hi hp hf => rfl
  | ret hi => rfl
  | @access i t c p hi hp ht =>
      have hc : mine c = false := by
        by_contra hmine
        have hno := hother i c p hi (by simpa using hmine)
        simp [operates] at hno
      have hapart : Apart k p :=
        Every.mono (fun a h => h hc) (every_of_run hcode hr hi)
      exact hapart.access t
  | @reclaim k' =>
      have hk : k ≠ k' := by
        rintro rfl
        exact hkept rfl
      exact VStore.entries_erase_ne _ hk

/-- A step that leaves the entry, and is no access of one of the calls, keeps
`Serving`. -/
theorem Serving.frame (h : Serving k fades reply effect start gone s calls)
    (ha : Step S s a s') (hentries : s'.store.entries k = s.store.entries k)
    (hother : ∀ e ∈ calls, operates e.1 a = false) :
    Serving k fades reply effect start gone s' calls := by
  cases calls with
  | nil =>
      show Left gone start ((s'.store.entries k).map Prod.fst)
      rw [hentries]
      exact h
  | cons e older =>
      obtain ⟨hreturned, p, hp, halone⟩ := h
      refine ⟨hreturned.step ha, p, ?_, hentries ▸ halone⟩
      rcases remaining_step ha (hother e (by simp)) with hsame | ⟨hnone, _⟩
      · exact hsame.trans hp
      · rw [hnone] at hp
        cases hp

/-- An access of the last call keeps `Serving`. -/
theorem Serving.access {i : Nat} {c : C} {older : List (Nat × C)}
    (h : Serving k fades reply effect start gone s ((i, c) :: older))
    (ha : Step S s a s') (hop : operates i a = true)
    (hcalm : ∀ debug, a ≠ .fault i debug) :
    Serving k fades reply effect start gone s' ((i, c) :: older) := by
  obtain ⟨hreturned, p, hp, halone⟩ := h
  obtain ⟨c', p₀, p', hbefore, _, hafter, ⟨t, haccess⟩ | ⟨debug, hfault, _⟩⟩ :=
    operation_of_step ha hop
  · rw [hp] at hbefore
    cases hbefore
    have hkept := halone.access t
    rw [haccess] at hkept
    exact ⟨hreturned.step ha, p', hafter, hkept⟩
  · exact absurd hfault (hcalm debug)

/-- A removal of what is gone keeps `Serving`, if it has faded for the last call
as long as that is at work. -/
theorem Serving.removed (h : Serving k fades reply effect start gone s calls)
    (ha : Step S s (.reclaim k) s')
    (hgone : ∀ v, s.store.contents k = some v → gone v)
    (hfades : ∀ e ∈ calls, ∀ p, remaining (s.calls e.1) = some (e.2, p) →
      p.pending = true → ∀ v, s.store.contents k = some v → fades e.2 v) :
    Serving k fades reply effect start gone s' calls := by
  have hnone : s'.store.entries k = none := by
    cases ha
    exact VStore.entries_erase_self _ _
  cases calls with
  | nil =>
      show Left gone start ((s'.store.entries k).map Prod.fst)
      rw [hnone]
      exact Left.removed h hgone
  | cons e older =>
      obtain ⟨hreturned, p, hp, halone⟩ := h
      have hp' : remaining (s'.calls e.1) = some (e.2, p) := by
        cases ha
        exact hp
      refine ⟨hreturned.step ha, p, hp', ?_⟩
      rw [hnone]
      cases hpending : p.pending with
      | true =>
          refine halone.removed hpending fun x hx => ?_
          have hv : s.store.contents k = some x.1 := VStore.contents_of_entries hx
          exact ⟨hfades e (by simp) p hp hpending _ hv, hgone _ hv⟩
      | false =>
          obtain ⟨r, rfl⟩ := Prog.eq_done_of_not_pending hpending
          exact ⟨halone.1, halone.2.removed hgone⟩

/-- A call of `mine` begins: all before it have returned. -/
theorem Serving.called {i : Nat} {c : C} (hS : Serves S k mine fades reply effect)
    (hc : mine c = true) (ha : Step S s (.invoke i c) s')
    (hreturned : ∀ e ∈ calls, ∃ c r, s.calls e.1 = .returned c r)
    (h : Serving k fades reply effect start
      (Over S s₀ mine fades k acts (.invoke i c :: rest)) s calls) :
    Serving k fades reply effect start (Over S s₀ mine fades k acts rest) s'
      ((i, c) :: calls) := by
  obtain ⟨hall, hvalue⟩ := h.settled hreturned
  have hover : ∀ v, Over S s₀ mine fades k acts (.invoke i c :: rest) v →
      fades c v ∧ Over S s₀ mine fades k acts rest v := by
    rintro v ⟨hremoved, hfades⟩
    rw [made_cons_invoke hc] at hfades
    exact ⟨hfades (i, c) (by simp), hremoved, fun e he => hfades e (by simp [he])⟩
  have hentries : s'.store.entries k = s.store.entries k := by
    cases ha with
    | invoke hi he => rfl
  refine ⟨hall.step ha, S.code c, ?_, ?_⟩
  · cases ha with
    | invoke hi he => simp [remaining]
  · rw [hentries]
    exact hS.begins hc (hvalue.mono hover)

/-- An access of one of the calls is of the last one, since the others have
returned. -/
theorem Serving.operated (h : Serving k fades reply effect start gone s calls)
    (ha : Step S s a s') {e : Nat × C} (he : e ∈ calls) (hop : operates e.1 a = true)
    (hcalm : ∀ debug, a ≠ .fault e.1 debug) :
    Serving k fades reply effect start gone s' calls := by
  cases calls with
  | nil => cases he
  | cons last older =>
      rcases List.mem_cons.mp he with rfl | hold
      · exact h.access ha hop hcalm
      · obtain ⟨r, hreturned⟩ := h.1.mem hold
        obtain ⟨c', p, p', hbefore, hpending, _⟩ := operation_of_step ha hop
        rw [hreturned] at hbefore
        cases hbefore
        cases hpending

/-- The backend removes what has faded for all calls at work and to come. -/
theorem Serving.reclaimed (hr : Run S (Pool.fresh s₀) acts s)
    (ha : Step S s (.reclaim k) s')
    (hspent : Spent S s₀ mine fades k (acts ++ .reclaim k :: rest))
    (h : Serving k fades reply effect start
      (Over S s₀ mine fades k (acts ++ .reclaim k :: rest) rest) s (made mine acts)) :
    Serving k fades reply effect start
      (Over S s₀ mine fades k (acts ++ .reclaim k :: rest) rest) s'
      (made mine acts) := by
  have hremoval : ∀ v, s.store.contents k = some v → ∀ e,
      e ∈ made mine rest ∨ (e ∈ made mine acts ∧ .ret e.1 ∉ acts) → fades e.2 v :=
    fun v hv => hspent acts rest s v rfl hr hv
  refine h.removed ha (fun v hv => ?_) fun e he p hp hpending v hv => ?_
  · exact ⟨⟨acts, rest, s, rfl, hr, hv⟩, fun e he => hremoval v hv e (Or.inl he)⟩
  · refine hremoval v hv e (Or.inr ⟨he, fun hret => ?_⟩)
    obtain ⟨c, r, hi⟩ := returned_of_ret hr hret
    rw [hi] at hp
    cases hp
    cases hpending

/-- **One step.** -/
theorem Serving.step (hS : Serves S k mine fades reply effect)
    (hr : Run S (Pool.fresh s₀) acts s) (ha : Step S s a s')
    (hturn : InTurn mine (acts ++ a :: rest))
    (hspent : Spent S s₀ mine fades k (acts ++ a :: rest))
    (h : Serving k fades reply effect start
      (Over S s₀ mine fades k (acts ++ a :: rest) (a :: rest)) s (made mine acts)) :
    Serving k fades reply effect start
      (Over S s₀ mine fades k (acts ++ a :: rest) rest) s'
      (made mine (acts ++ [a])) := by
  by_cases hnew : ∃ i c, a = .invoke i c ∧ mine c = true
  · obtain ⟨i, c, rfl, hc⟩ := hnew
    rw [made_snoc_invoke hc]
    exact h.called hS hc ha fun e he => returned_of_ret hr (hturn.returned hc e he)
  · have hother : ∀ i c, a = .invoke i c → mine c = false := by
      intro i c hinvoke
      by_contra hc
      exact hnew ⟨i, c, hinvoke, by simpa using hc⟩
    have hover : Over S s₀ mine fades k (acts ++ a :: rest) (a :: rest) =
        Over S s₀ mine fades k (acts ++ a :: rest) rest := by
      unfold Over
      rw [made_cons_other hother]
    rw [hover] at h
    rw [made_snoc_other hother]
    by_cases hreclaim : a = .reclaim k
    · subst hreclaim
      exact h.reclaimed hr ha hspent
    by_cases hown : ∃ e ∈ made mine acts, operates e.1 a = true
    · obtain ⟨e, he, hop⟩ := hown
      refine h.operated ha he hop ?_
      rintro debug rfl
      have hno : .fault e.1 debug ∉ acts ++ .fault e.1 debug :: rest :=
        hturn.calm (mem_made_append he)
      exact hno (by simp)
    · have hnone : ∀ e ∈ made mine acts, operates e.1 a = false := by
        intro e he
        by_contra hop
        exact hown ⟨e, he, by simpa using hop⟩
      refine h.frame ha (entries_of_step hS hr ha hreclaim ?_) hnone
      intro i c p hi hc
      exact hnone (i, c) (mem_made_of_call hr (by rw [hi]; rfl) hc)

/-- Along a run, of which these are the actions so far and the rest. -/
theorem serving_of_run (hS : Serves S k mine fades reply effect)
    (hr : Run S (Pool.fresh s₀) acts s) (hturn : InTurn mine (acts ++ rest))
    (hspent : Spent S s₀ mine fades k (acts ++ rest)) :
    Serving k fades reply effect (s₀.contents k)
      (Over S s₀ mine fades k (acts ++ rest) rest) s (made mine acts) := by
  induction hr generalizing rest with
  | nil => exact Left.refl _ _
  | @snoc acts s s' a hr ha ih =>
      rw [List.append_assoc, List.singleton_append] at hturn hspent ⊢
      exact (ih hturn hspent).step hS hr ha hturn hspent

omit [DecidableEq κ] [DecidableEq τ] in
/-- The reply of a call, and what the key holds then if it is the last. -/
theorem Serving.outcome {newer older : List (Nat × C)} {i : Nat} {c : C} {r : R}
    (h : Serving k fades reply effect start gone s calls)
    (hcalls : calls = newer ++ (i, c) :: older)
    (hi : Linearizable.outcome (s.calls i) = some (c, r)) :
    r = reply c (memory effect start older) ∧
      (newer = [] → Left gone (memory effect start calls) (s.store.contents k)) := by
  cases newer with
  | nil =>
      subst hcalls
      obtain ⟨_, p, hp, halone⟩ := h
      rw [remaining_of_outcome hi] at hp
      cases hp
      exact ⟨halone.1, fun _ => halone.2⟩
  | cons last newer =>
      subst hcalls
      refine ⟨?_, fun hnil => by cases hnil⟩
      have hreturned : Returned reply effect start s (newer ++ (i, c) :: older) := h.1
      clear h
      induction newer with
      | nil =>
          have hcall := hreturned.1
          rw [hcall] at hi
          cases hi
          rfl
      | cons next newer ih => exact ih hreturned.2

/-- **Serial calls are served in order.**  In every run in which the calls of
`mine` come in turn, and in which the backend removes nothing that has not faded
for them, each that has ended has ended with the reply to what the ones before it
have left; and if the last of them has ended, the key holds what it has left,
unless that was removed. -/
theorem served_of_run (hS : Serves S k mine fades reply effect)
    (hr : Run S (Pool.fresh s₀) acts s) (hturn : InTurn mine acts)
    (hspent : Spent S s₀ mine fades k acts) {newer older : List (Nat × C)} {i : Nat}
    {c : C} {r : R} (hmade : made mine acts = newer ++ (i, c) :: older)
    (hi : outcome (s.calls i) = some (c, r)) :
    r = reply c (memory effect (s₀.contents k) older) ∧
      (newer = [] → Left (Removed S s₀ k acts)
        (memory effect (s₀.contents k) (made mine acts)) (s.store.contents k)) := by
  rw [← List.append_nil acts] at hturn hspent
  obtain ⟨hreply, hlast⟩ := (serving_of_run hS hr hturn hspent).outcome hmade hi
  rw [List.append_nil] at hlast
  exact ⟨hreply, fun hnil => (hlast hnil).mono fun v hv => hv.1⟩

/-- A run up to a call that has ended: it is the last one made, and has ended the
same way. -/
theorem run_upto (hr : Run S (Pool.fresh s₀) acts s) (hturn : InTurn mine acts)
    {newer older : List (Nat × C)} {i : Nat} {c : C} {r : R}
    (hmade : made mine acts = newer ++ (i, c) :: older)
    (hi : outcome (s.calls i) = some (c, r)) :
    ∃ before after s', acts = before ++ after ∧ Run S (Pool.fresh s₀) before s' ∧
      made mine before = (i, c) :: older ∧ outcome (s'.calls i) = some (c, r) := by
  by_cases hnewer : newer = []
  · subst hnewer
    exact ⟨acts, [], s, by simp, hr, hmade, hi⟩
  · obtain ⟨before, after, rfl, hbefore, hret⟩ := hturn.upto hmade hnewer
    obtain ⟨s', hr', hafter⟩ := hr.split
    obtain ⟨c', r', hreturned⟩ := returned_of_ret hr' hret
    have hlast : s.calls i = .returned c' r' := hafter.returned_mono hreturned
    refine ⟨before, after, s', rfl, hr', hbefore, ?_⟩
    rw [hlast] at hi
    rw [hreturned]
    exact hi

theorem Spent.before {bs : List (Action C κ τ)}
    (h : Spent S s₀ mine fades k (acts ++ bs)) : Spent S s₀ mine fades k acts := by
  rintro before after s v rfl hr hv e he
  refine h before (after ++ bs) s v (by simp) hr hv e ?_
  exact he.imp_left mem_made_append

/-- Where the key is not removed, no value is. -/
theorem Orderly.not_removed (h : Orderly mine k acts) (v : ν) :
    ¬ Removed S s₀ k acts v := by
  rintro ⟨before, after, s, rfl, _⟩
  exact absurd (by simp) h.kept

/-- Where the key is not removed, nothing is that has not faded. -/
theorem Orderly.spent (h : Orderly mine k acts) :
    Spent S s₀ mine fades k acts := by
  rintro before after s v rfl
  exact absurd (by simp) h.kept

end Runs

end RestToA2a.Verified.Serial
