import RestToA2a.Policy.CacheFootprint
import RestToA2a.Policy.Provenance
import RestToA2a.Policy.Deserialize
import RestToA2a.Verified.EncodedStore

/-!
# Entries as the storage holds them

The storage is handed an entry through serde, and gives it back through serde; in
what format it holds it is its own matter.  All the policy needs is that an entry
the struct of the source can hold is given back as it was.  Every entry a filter
writes is one, since its expiry fits a `u64`, so over any format with that
property the policy has the runs it has over entries.
-/

namespace RestToA2a.Policy.StoredEntry

open RestToA2a.Verified
open RestToA2a.Verified.VersionedStore
open RestToA2a.Verified.StorageProgram
open RestToA2a.Verified.ProgramPool
open RestToA2a.Verified.Linearizable
open RestToA2a.Verified.Footprint
open RestToA2a.Verified.Translation
open RestToA2a.Verified.EncodedStore
open RestToA2a.Policy.Serde
open RestToA2a.Policy.Deserialize
open RestToA2a.Policy.A2a
open RestToA2a.Policy.Cache
open RestToA2a.Policy.Cache.ConversationStore
open RestToA2a.Policy.CacheSteps
open RestToA2a.Policy.ConfigMap
open RestToA2a.Policy.Filter
open RestToA2a.Policy.Gateway
open RestToA2a.Policy.Turns
open RestToA2a.Policy.TurnServer
open RestToA2a.Policy.CacheFootprint

/-! ## The policy over a format -/

/-- An entry the struct of the source can hold. -/
def Fits (e : ConversationEntry) : Prop := e.expiresAtMillis < 2 ^ 64

/-- A format of the storage, which gives back every entry that the struct can
hold. -/
abbrev EntryCodec (ω : Type) : Type := Codec ConversationEntry ω Fits

/-- A state of a run over a format. -/
abbrev StoredPool (ω τ : Type) := Pool TurnCall String ω τ TurnReply

variable {ω τ : Type} {rt : Runtime} {config : PolicyConfig} {format : EntryCodec ω}

/-- The call `origin` was a request filter that forwarded and left `ctx`. -/
def storedForwardedWith (calls : Nat → Phase TurnCall String ω τ TurnReply)
    (origin : Nat) (ctx : RequestContext) : Bool :=
  match calls origin with
  | .returned (.request _ _) (.filtered (.continued left _)) => decide (left = ctx)
  | _ => false

/-- The policy on a storage that holds entries in the format. -/
def storedServer (τ : Type) (rt : Runtime) (format : EntryCodec ω)
    (config : PolicyConfig) (mayFault : TurnCall → Bool) :
    Server TurnCall String ω τ TurnReply where
  code := fun c => format.stored (c.code rt config)
  enabled := fun calls c =>
    match c with
    | .request _ _ => true
    | .response origin ctx _ _ => storedForwardedWith calls origin ctx
  mayFault := mayFault

/-- Every entry a filter writes fits. -/
theorem storesFitting (rt : Runtime) (config : PolicyConfig) (c : TurnCall) :
    Every (Codec.StoresGood Fits) (c.code rt config : Storage τ TurnReply) := by
  refine Every.mono (fun a ha => ?_) (every_turnCode rt config c)
  cases a with
  | get k => trivial
  | delete k => trivial
  | store k mode e =>
      obtain ⟨key, _, _, hexpires⟩ := ha
      show e.expiresAtMillis < 2 ^ 64
      rw [hexpires]
      exact Nat.mod_lt _ (by decide)

theorem storedForwardedWith_eq
    {calls : Nat → Phase TurnCall String ConversationEntry τ TurnReply}
    {calls' : Nat → Phase TurnCall String ω τ TurnReply}
    (h : ∀ i, format.PhaseStored (calls i) (calls' i)) (origin : Nat)
    (ctx : RequestContext) :
    storedForwardedWith calls' origin ctx = forwardedWith calls origin ctx := by
  have horigin := h origin
  unfold storedForwardedWith forwardedWith
  generalize calls origin = φ at horigin
  generalize calls' origin = φ' at horigin
  cases horigin with
  | idle => rfl
  | running hc hp => rfl
  | @returned c c' r r' hc hr =>
      subst hc
      subst hr
      cases c with
      | response => rfl
      | request req clock =>
          cases r with
          | delivered d => rfl
          | filtered flow => cases flow <;> rfl

/-- The policy over the format is where the policy over entries is: each entry is
held as it is encoded, and is read back. -/
structure StoredAs (format : EntryCodec ω) (s : TurnPool τ) (q : StoredPool ω τ) :
    Prop where
  store : q.store = mapValues format.encode s.store
  readBack : ∀ k e, s.store.contents k = some e →
    format.decode (format.encode e) = .ok e
  calls : ∀ i, (q.calls i).call = (s.calls i).call
  outcomes : ∀ i, outcome (q.calls i) = outcome (s.calls i)

variable [DecidableEq τ]

/-- **The format of the storage does not show.**  Take any format that gives back
the entries the struct can hold, any store of such entries, and the same store in
that format.  The policy over entries and the policy over the format can take the
same actions, for every interleaving of any number of turns with any failures and
removals; and wherever they get, the storage holds exactly the entries as they
are encoded, under the same versions, every entry of it can be read back, and
each filter has ended in the same way. -/
theorem same_runs (rt : Runtime) (config : PolicyConfig) (format : EntryCodec ω)
    (mayFault : TurnCall → Bool) {s₀ : Entries τ}
    (h₀ : ∀ k e, s₀.contents k = some e → Fits e) (acts : List (TurnAction τ)) :
    (∀ s, Run (turnServer τ rt config mayFault) (Pool.fresh s₀) acts s →
      ∃ q, Run (storedServer τ rt format config mayFault)
        (Pool.fresh (mapValues format.encode s₀)) acts q ∧ StoredAs format s q) ∧
      ∀ q, Run (storedServer τ rt format config mayFault)
          (Pool.fresh (mapValues format.encode s₀)) acts q →
        ∃ s, Run (turnServer τ rt config mayFault) (Pool.fresh s₀) acts s ∧
          StoredAs format s q := by
  have hcode : ∀ c, (storedServer τ rt format config mayFault).code c =
      format.stored ((turnServer τ rt config mayFault).code c) :=
    fun _ => rfl
  have henabled : ∀ {calls : Nat → Phase TurnCall String ConversationEntry τ TurnReply}
      {calls' : Nat → Phase TurnCall String ω τ TurnReply} {c : TurnCall},
      (∀ i, format.PhaseStored (calls i) (calls' i)) →
        (storedServer τ rt format config mayFault).enabled calls' c =
          (turnServer τ rt config mayFault).enabled calls c := by
    intro calls calls' c h
    cases c with
    | request req clock => rfl
    | response origin ctx res clock => exact storedForwardedWith_eq h origin ctx
  have hruns := format.runs_stored hcode (storesFitting rt config) henabled
    (fun _ => rfl) h₀ acts
  have hsame : ∀ (s : TurnPool τ) (q : StoredPool ω τ),
      PoolAlike format.Stands (· = ·) (fun _ _ => (· = ·)) s q →
        StoredAs format s q := by
    intro s q h
    obtain ⟨hstore, hfits⟩ := format.eq_mapValues h.store
    exact ⟨hstore, fun k e he => format.decode_encode (hfits k e he),
      fun i => format.call_eq (h.calls i), fun i => format.outcome_eq (h.calls i)⟩
  obtain ⟨hto, hback⟩ := hruns
  refine ⟨fun s hs => ?_, fun q hq => ?_⟩
  · obtain ⟨q, hq, h⟩ := hto s hs
    exact ⟨q, hq, hsame s q h⟩
  · obtain ⟨s, hs, h⟩ := hback q hq
    exact ⟨s, hs, hsame s q h⟩

/-! ## The storage of the tests

`MockStorage`, which the tests of `cache.rs` run against, holds the JSON that the
`Serialize` derived for entries writes. -/

/-- `u64`: a number written without a fraction and not below zero, if it fits. -/
def u64 : Json → Option Nat
  | .num (.int (.ofNat n)) => if n < 2 ^ 64 then some n else none
  | _ => none

/-- An optional string, written as `null` if it is absent. -/
def optionalText : Option String → Json
  | some s => .str s
  | none => .null

/-- The variant of `EntryState` with a name. -/
def stateOfName : String → Option EntryState
  | "Continuable" => some .continuable
  | "Terminal" => some .terminal
  | _ => none

def serializeState : EntryState → Json
  | .continuable => .str "Continuable"
  | .terminal => .str "Terminal"

/-- A variant is written as its name, or as an object of its name and `null`. -/
def deserializeState : Json → Option EntryState
  | .str name => stateOfName name
  | .obj [(name, .null)] => stateOfName name
  | _ => none

def serialize (e : ConversationEntry) : Json :=
  .object
    [ ("context_id", optionalText e.contextId)
    , ("task_id", optionalText e.taskId)
    , ("state", serializeState e.state)
    , ("expires_at_millis", .num (.int e.expiresAtMillis)) ]

def deserialize (v : Json) : Option ConversationEntry := do
  guard (fits 4 v)
  let contextId ← omittable string v (field ["context_id"] 0 v)
  let taskId ← omittable string v (field ["task_id"] 1 v)
  let state ← required deserializeState (field ["state"] 2 v)
  let expiresAtMillis ← required u64 (field ["expires_at_millis"] 3 v)
  some { contextId, taskId, state, expiresAtMillis }

theorem u64_natCast {n : Nat} (h : n < 2 ^ 64) :
    u64 (.num (.int (n : Int))) = some n := by
  show (if n < 2 ^ 64 then some n else none) = some n
  rw [if_pos h]

@[simp] theorem option_optionalText (s : Option String) :
    option string (optionalText s) = some s := by
  cases s <;> rfl

@[simp] theorem deserializeState_serializeState (s : EntryState) :
    deserializeState (serializeState s) = some s := by
  cases s <;> rfl

/-- How the names of the fields compare. -/
theorem fieldNames_order :
    ¬ "task_id" < "context_id" ∧ ¬ "state" < "context_id" ∧ "state" < "task_id" ∧
      ¬ "expires_at_millis" < "context_id" ∧ "expires_at_millis" < "state" := by
  decide

/-- The members of an entry, in the order of the map. -/
theorem serialize_eq (e : ConversationEntry) :
    serialize e = .obj
      [ ("context_id", optionalText e.contextId)
      , ("expires_at_millis", .num (.int e.expiresAtMillis))
      , ("state", serializeState e.state)
      , ("task_id", optionalText e.taskId) ] := by
  simp only [serialize, Json.object, List.foldl, KeyedList.insert, fieldNames_order,
    String.reduceEq, if_true, if_false]

/-- **An entry is read back as it was written.** -/
theorem deserialize_serialize {e : ConversationEntry} (h : Fits e) :
    deserialize (serialize e) = some e := by
  have hexpires := u64_natCast h
  rw [serialize_eq]
  simp [deserialize, fits, field, valuesOf, omittable, required, hexpires]

/-- The JSON of `MockStorage`.  `debug` is printed for what is not an entry, where
the mock panics. -/
def mockCodec (debug : Json → String) : EntryCodec Json where
  encode := serialize
  decode := fun v => (deserialize v).elim (.error (debug v)) .ok
  decode_encode := by
    intro e h
    rw [deserialize_serialize h]
    rfl

/-- Over the storage of the tests, the entry of the first turn is read back with
its task id. -/
theorem same_runs_secondSend :
    let format := mockCodec fun _ => ""
    ∃ q : StoredPool Json Nat,
      Run (storedServer Nat sampleRuntime format (sampleConfig true) fun _ => false)
        (Pool.fresh (mapValues format.encode VStore.empty)) Provenance.secondSend q ∧
      ∃ v e, q.store.contents (CacheKey.fromHashed sampleRuntime "k").asStr = some v ∧
        format.decode v = .ok e ∧ e.taskId = some "t" := by
  intro format
  let key := (CacheKey.fromHashed sampleRuntime "k").asStr
  have hr := run_exec (turnServer Nat sampleRuntime (sampleConfig true) fun _ => false)
    (Pool.fresh VStore.empty) Provenance.secondSend (by decide)
  generalize hs : (exec (turnServer Nat sampleRuntime (sampleConfig true)
    fun _ => false) (Pool.fresh VStore.empty) Provenance.secondSend).get (by decide) = s
    at hr
  have he : ∃ e, s.store.contents key = some e ∧ e.taskId = some "t" := by
    rw [← hs]
    exact ⟨_, rfl, rfl⟩
  obtain ⟨e, he, htask⟩ := he
  have hempty : ∀ (k : String) (e : ConversationEntry),
      (VStore.empty : Entries Nat).contents k = some e → Fits e := by
    intro k e h
    cases h
  obtain ⟨q, hq, hsame⟩ := (same_runs sampleRuntime (sampleConfig true) format
    (fun _ => false) hempty Provenance.secondSend).1 _ hr
  have hheld : q.store.contents key = some (format.encode e) := by
    rw [hsame.store, contents_mapValues, he]
    rfl
  exact ⟨q, hq, format.encode e, e, hheld, hsame.readBack key e he, htask⟩

end RestToA2a.Policy.StoredEntry
