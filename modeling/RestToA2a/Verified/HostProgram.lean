import RestToA2a.Verified.StorageProgram

/-!
# Programs that call a host

A `HostProg` makes calls of a host besides its accesses to a versioned map.  A
host that answers from a state of its own turns it into the program of its
accesses (`perform`), which then runs alone or in a pool like any other.

What a host asks of a program is a protocol: an automaton on the calls and their
answers.  `Follows` says that a program keeps to it, whatever host and map
answer; it composes like the program does, and `Follows.accepted` says what it
means for the exchanges of the program with the host.
-/

namespace RestToA2a.Verified.HostProgram

open RestToA2a.Verified.VersionedStore
open RestToA2a.Verified.StorageProgram

/-- A program over a host and a map that ends with an `α`. -/
inductive HostProg (Op : Type) (Ans : Op → Type) (κ ν τ α : Type) where
  | done (a : α)
  | call (op : Op) (next : Ans op → HostProg Op Ans κ ν τ α)
  | get (k : κ)
      (next : Except StorageError (Option (ν × τ)) → HostProg Op Ans κ ν τ α)
  | store (k : κ) (mode : StoreMode τ) (v : ν)
      (next : Except StorageError Unit → HostProg Op Ans κ ν τ α)
  | delete (k : κ) (next : Except StorageError Unit → HostProg Op Ans κ ν τ α)

variable {Op : Type} {Ans : Op → Type} {κ ν τ α β γ σ Q : Type}

namespace HostProg

/-- Go on with `f`. -/
def bind (p : HostProg Op Ans κ ν τ α) (f : α → HostProg Op Ans κ ν τ β) :
    HostProg Op Ans κ ν τ β :=
  match p with
  | .done a => f a
  | .call op next => .call op fun r => (next r).bind f
  | .get k next => .get k fun r => (next r).bind f
  | .store k mode v next => .store k mode v fun r => (next r).bind f
  | .delete k next => .delete k fun r => (next r).bind f

instance : Monad (HostProg Op Ans κ ν τ) where
  pure := .done
  bind := .bind

@[simp] theorem pure_eq (a : α) :
    (pure a : HostProg Op Ans κ ν τ α) = .done a := rfl

@[simp] theorem bind_eq (p : HostProg Op Ans κ ν τ α)
    (f : α → HostProg Op Ans κ ν τ β) : p >>= f = p.bind f := rfl

@[simp] theorem done_bind (a : α) (f : α → HostProg Op Ans κ ν τ β) :
    (HostProg.done a).bind f = f a := rfl

/-- One call of the host. -/
def host (op : Op) : HostProg Op Ans κ ν τ (Ans op) := .call op .done

/-- A program that makes accesses only. -/
def lift : Prog κ ν τ α → HostProg Op Ans κ ν τ α
  | .done a => .done a
  | .get k next => .get k fun r => lift (next r)
  | .store k mode v next => .store k mode v fun r => lift (next r)
  | .delete k next => .delete k fun r => lift (next r)

end HostProg

open HostProg

/-! ## A host with a state -/

/-- Answer the calls from the state of the host; the accesses are left. -/
def perform (answer : (op : Op) → σ → Ans op × σ) :
    HostProg Op Ans κ ν τ α → σ → Prog κ ν τ (α × σ)
  | .done a, s => .done (a, s)
  | .call op next, s => perform answer (next (answer op s).1) (answer op s).2
  | .get k next, s => .get k fun r => perform answer (next r) s
  | .store k mode v next, s => .store k mode v fun r => perform answer (next r) s
  | .delete k next, s => .delete k fun r => perform answer (next r) s

section Perform

variable {answer : (op : Op) → σ → Ans op × σ}

@[simp] theorem perform_done (a : α) (s : σ) :
    perform answer (.done a : HostProg Op Ans κ ν τ α) s = .done (a, s) := rfl

/-- A call goes on with its answer. -/
@[simp] theorem perform_host_bind (op : Op) (f : Ans op → HostProg Op Ans κ ν τ α)
    (s : σ) :
    perform answer ((host op).bind f) s =
      perform answer (f (answer op s).1) (answer op s).2 := rfl

@[simp] theorem perform_host (op : Op) (s : σ) :
    perform answer (host op : HostProg Op Ans κ ν τ (Ans op)) s =
      .done (answer op s) := rfl

/-- What is done without an access is done before what follows. -/
theorem perform_bind_of_done {p : HostProg Op Ans κ ν τ α}
    {f : α → HostProg Op Ans κ ν τ β} {s s' : σ} {a : α}
    (h : perform answer p s = .done (a, s')) :
    perform answer (p.bind f) s = perform answer (f a) s' := by
  induction p generalizing s with
  | done b =>
      cases h
      rfl
  | call op next ih => exact ih _ h
  | get k next ih => cases h
  | store k mode v next ih => cases h
  | delete k next ih => cases h

@[simp] theorem perform_lift (p : Prog κ ν τ α) (s : σ) :
    perform answer (lift p : HostProg Op Ans κ ν τ α) s = p.map fun a => (a, s) := by
  induction p with
  | done a => rfl
  | get k next ih => simp only [lift, perform, Prog.map, ih]
  | store k mode v next ih => simp only [lift, perform, Prog.map, ih]
  | delete k next ih => simp only [lift, perform, Prog.map, ih]

/-- A program with accesses, followed by one that has none. -/
theorem perform_bind_of_map {p : HostProg Op Ans κ ν τ α}
    {f : α → HostProg Op Ans κ ν τ β} {s : σ} {q : Prog κ ν τ γ} {k : γ → α × σ}
    {g : γ → β × σ} (h : perform answer p s = q.map k)
    (hf : ∀ c, perform answer (f (k c).1) (k c).2 = .done (g c)) :
    perform answer (p.bind f) s = q.map g := by
  induction p generalizing s q with
  | call op next ih => exact ih _ h
  | done a =>
      cases q with
      | done c =>
          have hfc := hf c
          rw [← Prog.done.inj h] at hfc
          exact hfc
      | get k next => cases h
      | store k mode v next => cases h
      | delete k next => cases h
  | get k next ih =>
      cases q with
      | get k' next' =>
          simp only [perform, Prog.map, Prog.get.injEq] at h
          obtain ⟨rfl, hnext⟩ := h
          simp only [HostProg.bind, perform, Prog.map, Prog.get.injEq, true_and]
          funext r
          exact ih r (congrFun hnext r)
      | done b => cases h
      | store k mode v next' => cases h
      | delete k next' => cases h
  | store k mode v next ih =>
      cases q with
      | store k' mode' v' next' =>
          simp only [perform, Prog.map, Prog.store.injEq] at h
          obtain ⟨rfl, rfl, rfl, hnext⟩ := h
          simp only [HostProg.bind, perform, Prog.map, Prog.store.injEq, true_and]
          funext r
          exact ih r (congrFun hnext r)
      | done b => cases h
      | get k next' => cases h
      | delete k next' => cases h
  | delete k next ih =>
      cases q with
      | delete k' next' =>
          simp only [perform, Prog.map, Prog.delete.injEq] at h
          obtain ⟨rfl, hnext⟩ := h
          simp only [HostProg.bind, perform, Prog.map, Prog.delete.injEq, true_and]
          funext r
          exact ih r (congrFun hnext r)
      | done b => cases h
      | get k next' => cases h
      | store k mode v next' => cases h

end Perform

/-! ## Protocols -/

/-- A call and its answer. -/
abbrev Exchange (Ans : Op → Type) : Type := (op : Op) × Ans op

/-- The program keeps to the protocol `next` from the state `q` on, whatever the
host and the map answer, and ends as `post` says. -/
def Follows (next : Q → (op : Op) → Ans op → Option Q) :
    HostProg Op Ans κ ν τ α → Q → (α → Q → Prop) → Prop
  | .done a, q, post => post a q
  | .call op cont, q, post =>
      ∀ r, ∃ q', next q op r = some q' ∧ Follows next (cont r) q' post
  | .get _ cont, q, post => ∀ r, Follows next (cont r) q post
  | .store _ _ _ cont, q, post => ∀ r, Follows next (cont r) q post
  | .delete _ cont, q, post => ∀ r, Follows next (cont r) q post

/-- The exchanges of an execution of the program so far. -/
inductive Exchanges : HostProg Op Ans κ ν τ α → List (Exchange Ans) → Prop where
  | nil (p : HostProg Op Ans κ ν τ α) : Exchanges p []
  | call {op : Op} {cont : Ans op → HostProg Op Ans κ ν τ α}
      {xs : List (Exchange Ans)} (r : Ans op) (h : Exchanges (cont r) xs) :
      Exchanges (.call op cont) (⟨op, r⟩ :: xs)
  | get {k : κ}
      {cont : Except StorageError (Option (ν × τ)) → HostProg Op Ans κ ν τ α}
      {xs : List (Exchange Ans)} (r : Except StorageError (Option (ν × τ)))
      (h : Exchanges (cont r) xs) : Exchanges (.get k cont) xs
  | store {k : κ} {mode : StoreMode τ} {v : ν}
      {cont : Except StorageError Unit → HostProg Op Ans κ ν τ α}
      {xs : List (Exchange Ans)} (r : Except StorageError Unit)
      (h : Exchanges (cont r) xs) : Exchanges (.store k mode v cont) xs
  | delete {k : κ} {cont : Except StorageError Unit → HostProg Op Ans κ ν τ α}
      {xs : List (Exchange Ans)} (r : Except StorageError Unit)
      (h : Exchanges (cont r) xs) : Exchanges (.delete k cont) xs

/-- The protocol takes these exchanges, and is then in the state `q'`. -/
def Takes (next : Q → (op : Op) → Ans op → Option Q) (q : Q)
    (xs : List (Exchange Ans)) (q' : Q) : Prop :=
  xs.foldlM (fun q x => next q x.1 x.2) q = some q'

section Protocols

variable {next : Q → (op : Op) → Ans op → Option Q}

theorem Follows.mono {p : HostProg Op Ans κ ν τ α} {q : Q} {post post' : α → Q → Prop}
    (h : Follows next p q post) (himp : ∀ a q, post a q → post' a q) :
    Follows next p q post' := by
  induction p generalizing q with
  | done a => exact himp a q h
  | call op cont ih =>
      intro r
      obtain ⟨q', hq, hcont⟩ := h r
      exact ⟨q', hq, ih r hcont⟩
  | get k cont ih => exact fun r => ih r (h r)
  | store k mode v cont ih => exact fun r => ih r (h r)
  | delete k cont ih => exact fun r => ih r (h r)

/-- Programs that keep to the protocol one after the other keep to it. -/
theorem Follows.bind {p : HostProg Op Ans κ ν τ α} {f : α → HostProg Op Ans κ ν τ β}
    {q : Q} {mid : α → Q → Prop} {post : β → Q → Prop} (h : Follows next p q mid)
    (hf : ∀ a q', mid a q' → Follows next (f a) q' post) :
    Follows next (p.bind f) q post := by
  induction p generalizing q with
  | done a => exact hf a q h
  | call op cont ih =>
      intro r
      obtain ⟨q', hq, hcont⟩ := h r
      exact ⟨q', hq, ih r hcont⟩
  | get k cont ih => exact fun r => ih r (h r)
  | store k mode v cont ih => exact fun r => ih r (h r)
  | delete k cont ih => exact fun r => ih r (h r)

/-- **Whatever a program that keeps to a protocol has exchanged with its host, the
protocol takes.** -/
theorem Follows.accepted {p : HostProg Op Ans κ ν τ α} {q : Q} {post : α → Q → Prop}
    (h : Follows next p q post) {xs : List (Exchange Ans)} (hx : Exchanges p xs) :
    ∃ q', Takes next q xs q' := by
  induction hx generalizing q with
  | nil p => exact ⟨q, rfl⟩
  | @call op cont xs r hxs ih =>
      obtain ⟨q₁, hq, hcont⟩ := h r
      obtain ⟨q', hq'⟩ := ih hcont
      refine ⟨q', ?_⟩
      simp only [Takes, List.foldlM_cons, hq]
      exact hq'
  | get r hxs ih => exact ih (h r)
  | store r hxs ih => exact ih (h r)
  | delete r hxs ih => exact ih (h r)

end Protocols

end RestToA2a.Verified.HostProgram
