import RestToA2a.Policy.TurnOutcome
import RestToA2a.Verified.Retention

/-!
# Starting the policy

`lib.rs configure` and `launch_policy`: from the bytes of the configuration to
the two filters and the storage they share.  A launched policy carries the
bounds its configuration keeps and the backend that goes with its mode, so no
other can be run; what the two are for is said of whole runs.
-/

namespace RestToA2a.Policy.Configure

open RestToA2a.Verified.VersionedStore
open RestToA2a.Verified.StorageProgram
open RestToA2a.Verified.ProgramPool
open RestToA2a.Verified.Linearizable
open RestToA2a.Verified.Contention
open RestToA2a.Verified.Footprint
open RestToA2a.Verified.Retention
open RestToA2a.Policy.Serde
open RestToA2a.Policy.Binding
open RestToA2a.Policy.Cache
open RestToA2a.Policy.Cache.ConversationStore
open RestToA2a.Policy.CacheSteps
open RestToA2a.Policy.Gateway
open RestToA2a.Policy.Generated
open RestToA2a.Policy.ConfigMap
open RestToA2a.Policy.Filter
open RestToA2a.Policy.Turns
open RestToA2a.Policy.TurnServer
open RestToA2a.Policy.CacheFootprint
open RestToA2a.Policy.TurnOutcome

/-! ## The storage -/

/-- `u32::saturating_mul`. -/
def saturatingMul (a b : UInt32) : UInt32 :=
  if a.toNat * b.toNat < 2 ^ 32 then a * b else 0xFFFFFFFF

/-- What the storage builder is asked for. -/
inductive Backend where
  | remote (name : String) (ttlMs : UInt32)
  | local (name : String)
deriving DecidableEq

/-- Name of the storage. -/
def storageName : String := "rest-to-a2a"

/-- The storage of a configuration: one in cache mode, none otherwise. -/
def storageOf (config : PolicyConfig) : Option Backend :=
  if config.usesCache then
    if config.distributed then
      some (.remote storageName (saturatingMul config.conversationTtlSeconds 1000))
    else some (.local storageName)
  else none

/-! ## Bounds -/

/-- The numbers of the configuration are within the bounds of the schema. -/
structure InBounds (config : PolicyConfig) : Prop where
  ttl_ge : 60 ≤ config.conversationTtlSeconds.toNat
  ttl_le : config.conversationTtlSeconds.toNat ≤ 86400
  status_ge : 400 ≤ config.requestErrorStatus.toNat
  status_le : config.requestErrorStatus.toNat ≤ 599

theorem toNat_ofInt {z : Int} (h0 : 0 ≤ z) (h : z < 2 ^ 32) :
    (UInt32.ofInt z).toNat = z.toNat := by
  have hmod : z % 2 ^ 32 = z := Int.emod_eq_of_lt h0 h
  rw [UInt32.ofInt, hmod]
  exact UInt32.toNat_ofNat_of_lt' (by simp [UInt32.size]; omega)

/-- A number clamped into the range of a `u32` is converted as it is. -/
theorem toNat_ofInt_clamp (lo hi z : Int) (h0 : 0 ≤ lo) (hle : lo ≤ hi)
    (hhi : hi < 2 ^ 32) :
    lo.toNat ≤ (UInt32.ofInt (clamp lo hi z)).toNat ∧
      (UInt32.ofInt (clamp lo hi z)).toNat ≤ hi.toNat := by
  have hlo : lo ≤ clamp lo hi z := le_max_left _ _
  have hup : clamp lo hi z ≤ hi := max_le hle (min_le_right _ _)
  rw [toNat_ofInt (h0.trans hlo) (by omega)]
  omega

/-- Every configuration that is accepted is in bounds. -/
theorem inBounds_of_fromGenerated {raw : Config} {config : PolicyConfig}
    (h : PolicyConfig.fromGenerated raw = .ok config) : InBounds config := by
  rcases PolicyConfig.fromGenerated_cases raw with
    ⟨_, _, heq⟩ | ⟨_, _, heq⟩ | ⟨_, _, heq⟩ | ⟨binding, mode, type, _, _, _, heq⟩
  · rw [heq] at h
    cases h
  · rw [heq] at h
    cases h
  · rw [heq] at h
    cases h
  · rw [heq] at h
    cases h
    have httl := toNat_ofInt_clamp 60 86400
      (raw.cacheConfig.getD .derivedDefault).conversationTtlSeconds (by decide)
      (by decide) (by decide)
    have hstatus := toNat_ofInt_clamp 400 599 raw.requestErrorStatus (by decide)
      (by decide) (by decide)
    exact ⟨httl.1, httl.2, hstatus.1, hstatus.2⟩

theorem toNat_saturatingMul {a b : UInt32} (h : a.toNat * b.toNat < 2 ^ 32) :
    (saturatingMul a b).toNat = a.toNat * b.toNat := by
  rw [saturatingMul, if_pos h, UInt32.toNat_mul]
  exact Nat.mod_eq_of_lt h

/-- The lifetime the namespace is given is that of the entries. -/
theorem toNat_ttlMs {config : PolicyConfig} (h : InBounds config) :
    (saturatingMul config.conversationTtlSeconds 1000).toNat =
      (conversationStore config).ttlMillis := by
  have hle := h.ttl_le
  have hthousand : (1000 : UInt32).toNat = 1000 := rfl
  rw [toNat_saturatingMul (by rw [hthousand]; omega)]
  rfl

/-! ## From bytes to a running policy -/

/-- A configuration the policy does not start with. -/
inductive StartError where
  | parse (configuration : Bytes)
  | invalid (err : ConfigError)

/-- A policy that has been started. -/
structure Launched where
  config : PolicyConfig
  storage : Option Backend
  inBounds : InBounds config
  storage_eq : storage = storageOf config

/-- Start the policy.  `readDocument` reads a JSON text with its members as they
stand, `compile` a DataWeave expression. -/
def configure (readDocument : Bytes → Option Json) (compile : Json → Option Script)
    (bytes : Bytes) : Except StartError Launched :=
  match (readDocument bytes).bind (Config.deserialize compile) with
  | none => .error (.parse bytes)
  | some raw =>
      match h : PolicyConfig.fromGenerated raw with
      | .error err => .error (.invalid err)
      | .ok config => .ok ⟨config, storageOf config, inBounds_of_fromGenerated h, rfl⟩

variable {τ : Type}

namespace Launched

/-- The filters of a launched policy. -/
def code (rt : Runtime) (l : Launched) : TurnCall → Storage τ TurnReply
  | .request req clock =>
      (requestFilter rt l.config l.storage.isSome req (nowMillis clock)).map .filtered
  | .response _ ctx res clock =>
      (responseFilter rt l.config l.storage.isSome (some ctx) res
        (nowMillis clock)).map .delivered

/-- The launched policy, on any number of turns. -/
def server (τ : Type) (rt : Runtime) (l : Launched) (mayFault : TurnCall → Bool) :
    Server TurnCall String ConversationEntry τ TurnReply :=
  { turnServer τ rt l.config mayFault with code := l.code rt }

theorem storage_isSome (l : Launched) : l.storage.isSome = l.config.usesCache := by
  rw [l.storage_eq, storageOf]
  cases l.config.usesCache <;> cases l.config.distributed <;> rfl

/-- A storage is there exactly when the mode wants one, so the launched filters
are those of the configuration. -/
theorem server_eq (rt : Runtime) (l : Launched) (mayFault : TurnCall → Bool) :
    l.server τ rt mayFault = turnServer τ rt l.config mayFault := by
  have hcode : (l.code rt : TurnCall → Storage τ TurnReply) =
      TurnCall.code rt l.config := by
    funext c
    cases c <;> simp [code, TurnCall.code, l.storage_isSome]
  rw [server, hcode]
  rfl

end Launched

/-! ## Rejections -/

/-- The accesses of a filter, none for a request without a prompt. -/
def accesses (config : PolicyConfig) (c : TurnCall) : Nat :=
  match c with
  | .request req _ => if (promptOf config req).isNone then 0 else budget config c
  | .response _ _ _ _ => budget config c

variable [DecidableEq τ] {rt : Runtime} {l : Launched}

theorem within_accesses (rt : Runtime) (config : PolicyConfig) (c : TurnCall) :
    Within (accesses config c) (TurnCall.code rt config c : Storage τ TurnReply) := by
  cases c with
  | response origin ctx res clock =>
      simp only [accesses]
      exact within_turnCode rt config _
  | request req clock =>
      cases hp : promptOf config req with
      | none =>
          simp only [accesses, hp, Option.isNone_none, if_true, TurnCall.code,
            requestFilter]
          exact within_done _ _
      | some prompt =>
          simp only [accesses, hp, Option.isNone_some, Bool.false_eq_true, if_false]
          exact within_turnCode rt config _

/-- What a rejected caller gets. -/
structure Refusal (rt : Runtime) (r : Rejection) : Prop where
  status_ge : 400 ≤ r.status.toNat
  status_le : r.status.toNat ≤ 599
  headers : r.headers = [(contentType, applicationJson)]
  body : r.body = callerErrorBody rt "missing or invalid prompt" ∨
    r.body = callerErrorBody rt "failed to build A2A request"

omit [DecidableEq τ] in
theorem refusal_reject (rt : Runtime) {config : PolicyConfig} (h : InBounds config)
    {message : String} (hm : message = "missing or invalid prompt" ∨
      message = "failed to build A2A request") :
    Refusal rt (reject rt config message) where
  status_ge := h.status_ge
  status_le := h.status_le
  headers := rfl
  body := by
    rcases hm with rfl | rfl
    · exact Or.inl rfl
    · exact Or.inr rfl

/-- **The policy fails closed.**  However it was configured, in every run of any
number of turns with any interleaving, failures and removals: a request is
rejected exactly if it has no usable prompt or the host refuses the new body, so
nothing the storage does rejects one; a rejection has a status from 400 to 599,
the JSON content type alone, and one of two error bodies; and a request without
a prompt has not touched the storage. -/
theorem fails_closed {mayFault : TurnCall → Bool} {s₀ : Entries τ}
    {acts : List (TurnAction τ)} {s : TurnPool τ}
    (hr : Run (l.server τ rt mayFault) (Pool.fresh s₀) acts s) {i : Nat}
    {req : HttpRequest} {clock : Clock} :
    (∀ flow, outcome (s.calls i) = some (.request req clock, .filtered flow) →
      ((∃ r, flow = .broken r) ↔
        promptOf l.config req = none ∨ req.setBody = false) ∧
      ∀ r, flow = .broken r → Refusal rt r) ∧
      ((s.calls i).call = some (.request req clock) → promptOf l.config req = none →
        acts.countP (operates i) = 0) := by
  rw [l.server_eq] at hr
  refine ⟨fun flow hout => ?_, fun hcall hnone => ?_⟩
  · have hends : ((TurnCall.request req clock).code rt l.config :
      Storage τ TurnReply).Ends (.filtered flow) := ends_of_run hr hout
    rcases ends_request_cases hends with ⟨hnone, rfl⟩ | ⟨prompt, rc, hp, _, rfl⟩
    · refine ⟨⟨fun _ => Or.inl hnone, fun _ => ⟨_, rfl⟩⟩, fun r hbroken => ?_⟩
      cases hbroken
      exact refusal_reject rt l.inBounds (Or.inl rfl)
    · unfold forward
      cases htakes : req.setBody with
      | true => simp [hp]
      | false =>
          refine ⟨⟨fun _ => Or.inr rfl, fun _ => ⟨_, rfl⟩⟩, fun r hbroken => ?_⟩
          cases hbroken
          exact refusal_reject rt l.inBounds (Or.inr rfl)
  · have hle := operations_le (within_accesses (τ := τ) rt l.config) hr hcall
    simpa [accesses, hnone] using hle

/-- A policy whose prompt selector yields null. -/
def promptless : Launched where
  config := { sampleConfig false with promptSelector := ⟨fun _ _ => .ok .null⟩ }
  storage := some (.local storageName)
  inBounds := ⟨by decide, by decide, by decide, by decide⟩
  storage_eq := rfl

theorem fails_closed_promptless :
    Refusal sampleRuntime
      (reject sampleRuntime promptless.config "missing or invalid prompt") := by
  let turn := sampleTurn workingText 1 2
  have hr := run_exec (promptless.server Nat sampleRuntime fun _ => true)
    (Pool.fresh VStore.empty) [.invoke 0 (.request turn.request turn.requestClock)]
    (by decide)
  exact ((fails_closed hr (i := 0)).1 _ rfl).2 _ rfl

/-! ## How long entries are kept -/

omit [DecidableEq τ] in
/-- What a filter writes runs out a lifetime after the clock it read. -/
theorem expiry_of_access {config : PolicyConfig} {c : TurnCall} {k : String}
    {mode : StoreMode τ} {entry : ConversationEntry}
    (h : FilterAccess rt config c (.store k mode entry)) :
    entry.expiresAtMillis =
      nowMillis (clockOf c) + (conversationStore config).ttlMillis := by
  obtain ⟨key, _, _, hexpires⟩ := h
  rw [hexpires, Continuity.expiresAt_nowMillis]

/-- The time a filter reads. -/
def readsAt (c : TurnCall) : Nat := nowMillis (clockOf c)

/-- **The backend forgets nothing that could still be read.**  A policy launched
on a remote storage gives the namespace a lifetime of exactly the configured
seconds, between a minute and a day.  In every run in time on a backend that
removes an entry only once that long has passed since it was last written: each
stored entry was written by a filter of the conversation of its key and runs out
that lifetime after the clock the filter read; and an entry the backend removes
is one that no lookup from then on would have found. -/
theorem removed_expired {mayFault : TurnCall → Bool} {name : String} {ttlMs : UInt32}
    (hbackend : l.storage = some (.remote name ttlMs)) {acts : List (TurnAction τ)}
    {s : TimedPool TurnCall String ConversationEntry τ TurnReply}
    (hr : TimedRun (l.server τ rt mayFault) ttlMs.toNat readsAt acts s) :
    (ttlMs.toNat = l.config.conversationTtlSeconds.toNat * 1000 ∧
      60000 ≤ ttlMs.toNat ∧ ttlMs.toNat ≤ 86400000) ∧
    (∀ k e, s.pool.store.contents k = some e →
      ∃ i c key, (s.pool.calls i).call = some c ∧ keyOf rt l.config c = some key ∧
        k = key.asStr ∧ e.expiresAtMillis = readsAt c + ttlMs.toNat) ∧
    ∀ k e s', TimedStep (l.server τ rt mayFault) ttlMs.toNat readsAt s (.reclaim k) s' →
      s.pool.store.contents k = some e →
      ∀ nowMillis, s'.now ≤ nowMillis → readable (some e) nowMillis = none := by
  have hremote : name = storageName ∧
      ttlMs = saturatingMul l.config.conversationTtlSeconds 1000 := by
    rw [l.storage_eq, storageOf] at hbackend
    split at hbackend
    · split at hbackend
      · cases hbackend
        exact ⟨rfl, rfl⟩
      · cases hbackend
    · cases hbackend
  have hlife : ttlMs.toNat = (conversationStore l.config).ttlMillis := by
    rw [hremote.2, toNat_ttlMs l.inBounds]
  have hseconds : ttlMs.toNat = l.config.conversationTtlSeconds.toNat * 1000 := hlife
  have hcode : ∀ c, Every (FilterAccess rt l.config c)
      ((l.server τ rt mayFault).code c) := by
    rw [l.server_eq]
    exact every_turnCode rt l.config
  have hexpiry : ∀ {c k mode e}, FilterAccess (τ := τ) rt l.config c (.store k mode e) →
      e.expiresAtMillis ≤ readsAt c + ttlMs.toNat := by
    intro c k mode e h
    rw [expiry_of_access h, hlife]
    rfl
  have hge := l.inBounds.ttl_ge
  have hle := l.inBounds.ttl_le
  refine ⟨⟨hseconds, by omega, by omega⟩, fun k e he => ?_, fun k e s' ha he now hnow => ?_⟩
  · obtain ⟨⟨v, t⟩, hentry, rfl⟩ := Option.map_eq_some_iff.mp he
    rcases writer_of_run hcode hr.run hentry with hnone | ⟨i, c, mode, hi, haccess⟩
    · cases hnone
    · have hexpires := expiry_of_access haccess
      obtain ⟨key, hkey, hown⟩ := haccess
      exact ⟨i, c, key, hi, hkey, hown.1, by rw [hexpires, hlife]; rfl⟩
  · obtain ⟨⟨v, t⟩, hentry, rfl⟩ := Option.map_eq_some_iff.mp he
    have hexpired : v.expiresAtMillis ≤ s'.now :=
      TimedStep.reclaimed hcode hexpiry hr ha hentry
    have hout : v.isExpired now = true := by
      simpa [ConversationEntry.isExpired] using hexpired.trans hnow
    simp [readable, hout]

/-- A policy on a remote storage. -/
def replicated : Launched where
  config := sampleConfig true
  storage := some (.remote storageName 60000)
  inBounds := ⟨by decide, by decide, by decide, by decide⟩
  storage_eq := by decide

/-- The entry of `secondSend`, removed a minute after it was written. -/
theorem removed_expired_secondSend :
    ∃ (s : TurnPool Nat) (e : ConversationEntry),
      Run (replicated.server Nat sampleRuntime fun _ => false)
        (Pool.fresh VStore.empty) Provenance.secondSend s ∧
      s.store.contents (CacheKey.fromHashed sampleRuntime "k").asStr = some e ∧
      readable (some e) 64000 = none := by
  have hr := run_exec (replicated.server Nat sampleRuntime fun _ => false)
    (Pool.fresh VStore.empty) Provenance.secondSend (by decide)
  generalize hs : (exec (replicated.server Nat sampleRuntime fun _ => false)
    (Pool.fresh VStore.empty) Provenance.secondSend).get (by decide) = s at hr
  let key := (CacheKey.fromHashed sampleRuntime "k").asStr
  have he : ∃ e, s.store.contents key = some e := by
    rw [← hs]
    exact ⟨_, rfl⟩
  obtain ⟨e, he⟩ := he
  have hreads : ∀ i c, .invoke i c ∈ Provenance.secondSend → readsAt c ≤ 4000 := by
    intro i c hic
    simp only [Provenance.secondSend, List.mem_cons, reduceCtorEq,
      Action.invoke.injEq, List.not_mem_nil, or_false, false_or] at hic
    rcases hic with ⟨_, rfl⟩ | ⟨_, rfl⟩ | ⟨_, rfl⟩ <;> decide
  have htimed : TimedRun (replicated.server Nat sampleRuntime fun _ => false) 60000
      readsAt Provenance.secondSend ⟨4000, fun _ => 4000, s⟩ :=
    TimedRun.of_run hr hreads (by simp [Provenance.secondSend])
  obtain ⟨⟨v, version⟩, hentry, rfl⟩ := Option.map_eq_some_iff.mp he
  have hremoval : TimedStep (replicated.server Nat sampleRuntime fun _ => false) 60000
      readsAt ⟨4000, fun _ => 4000, s⟩ (.reclaim key) _ :=
    TimedStep.removal hentry (show 4000 ≤ 64000 by decide)
      (show 4000 + 60000 ≤ 64000 by decide)
  have hbackend : replicated.storage = some (.remote storageName 60000) := rfl
  exact ⟨s, v, hr, he, (removed_expired hbackend htimed).2.2 key v _ hremoval he 64000
    le_rfl⟩

end RestToA2a.Policy.Configure
