import RestToA2a.Policy.Cache

/-!
# What one storage access of the store does

The points between two accesses of an upsert and of an eviction, each with
what the operation knows about the version it holds, and the complete list of
things the next access can do from there.  A version held for a `Cas` was read
together with a continuable entry, so a write it admits never replaces a
tombstone, whatever happened in between.

All later arguments about the store, sequential, concurrent or about its
linearization, go through `UpsertAt.access` and `EvictAt.access` and unfold no
loop again.
-/

namespace RestToA2a.Policy.CacheSteps

open RestToA2a.Verified.VersionedStore
open RestToA2a.Verified.StorageProgram
open RestToA2a.Policy.A2a
open RestToA2a.Policy.Cache
open RestToA2a.Policy.Cache.ConversationStore

variable {τ : Type}

/-- The conversation storage. -/
abbrev Entries (τ : Type) := VStore String ConversationEntry τ

/-- The key holds a tombstone. -/
def Closed (s : Entries τ) (key : CacheKey) : Prop :=
  ∃ e, s.contents key.asStr = some e ∧ e.state = .terminal

/-- The key holds a live or expired continuable entry. -/
def Open (s : Entries τ) (key : CacheKey) : Prop :=
  ∃ e, s.contents key.asStr = some e ∧ e.state = .continuable

theorem not_closed_of_open {s : Entries τ} {key : CacheKey} (h : Open s key) :
    ¬ Closed s key := by
  rintro ⟨e, he, hTerm⟩
  obtain ⟨e', he', hCont⟩ := h
  rw [he] at he'
  cases he'
  rw [hTerm] at hCont
  cases hCont

theorem not_closed_of_missing {s : Entries τ} {key : CacheKey}
    (h : s.entries key.asStr = none) : ¬ Closed s key := by
  rintro ⟨e, he, _⟩
  rw [VStore.contents_eq_none.mpr h] at he
  cases he

private theorem state_cases (e : ConversationEntry) :
    e.state = .terminal ∨ e.state = .continuable := by
  cases e.state
  · exact Or.inr rfl
  · exact Or.inl rfl

variable [DecidableEq τ]

/-! ## Write attempts -/

theorem attempt_access_of_accepts {key : CacheKey} {mode : StoreMode τ}
    {entry : ConversationEntry} {retry : Storage τ (Except CacheError Unit)}
    {s : Entries τ} (h : s.Accepts key.asStr mode) (t : τ) :
    (attempt key mode entry retry).access s t =
      (.done (.ok ()), s.write key.asStr entry t) := by
  simp only [attempt, Prog.access, VStore.store_of_accepts h]

theorem attempt_access_of_not_accepts {key : CacheKey} {mode : StoreMode τ}
    {entry : ConversationEntry} {retry : Storage τ (Except CacheError Unit)}
    {s : Entries τ} (h : ¬ s.Accepts key.asStr mode) (t : τ) :
    (attempt key mode entry retry).access s t = (retry, s) := by
  simp only [attempt, Prog.access, VStore.store_of_not_accepts h]

/-! ## Upsert -/

/-- Where an upsert of `entry` under `key` stands between two accesses. -/
inductive UpsertAt (key : CacheKey) (entry : ConversationEntry) (s : Entries τ) :
    Storage τ (Except CacheError Unit) → Prop where
  | loop (left : Nat) : UpsertAt key entry s (upsertRetry key entry left)
  | absent (left : Nat) :
      UpsertAt key entry s (attempt key .absent entry (upsertRetry key entry left))
  | cas (left : Nat) {version : τ} {existing : ConversationEntry}
      (hn : Names s key.asStr version existing)
      (hl : existing.state = .continuable) :
      UpsertAt key entry s
        (attempt key (.cas version) entry (upsertRetry key entry left))
  | done (r : Except CacheError Unit) : UpsertAt key entry s (.done r)

/-- What the next access of an upsert can do. -/
inductive UpsertStep (key : CacheKey) (entry : ConversationEntry) (s : Entries τ)
    (t : τ) : Storage τ (Except CacheError Unit) × Entries τ → Prop where
  | again {p : Storage τ (Except CacheError Unit)} (hp : p.pending = true)
      (hat : UpsertAt key entry s p) : UpsertStep key entry s t (p, s)
  | wrote (hc : ¬ Closed s key) :
      UpsertStep key entry s t (.done (.ok ()), s.write key.asStr entry t)
  | guarded (hc : Closed s key) : UpsertStep key entry s t (.done (.ok ()), s)
  | gaveUp (e : CacheError) : UpsertStep key entry s t (.done (.error e), s)

omit [DecidableEq τ] in
theorem UpsertAt.mono {key : CacheKey} {entry : ConversationEntry}
    {s s' : Entries τ} {p : Storage τ (Except CacheError Unit)}
    (h : UpsertAt key entry s p) (hE : Evolves s s') : UpsertAt key entry s' p := by
  cases h with
  | loop left => exact .loop left
  | absent left => exact .absent left
  | cas left hn hl => exact .cas left (hn.mono hE) hl
  | done r => exact .done r

omit [DecidableEq τ] in
private theorem UpsertStep.retry (key : CacheKey) (entry : ConversationEntry)
    (s : Entries τ) (t : τ) (left : Nat) :
    UpsertStep key entry s t (upsertRetry key entry left, s) := by
  cases left with
  | zero => exact .gaveUp .casConflict
  | succ left => exact .again rfl (.loop (left + 1))

/-- **One access of an upsert.** -/
theorem UpsertAt.access {key : CacheKey} {entry : ConversationEntry}
    {s : Entries τ} {p : Storage τ (Except CacheError Unit)}
    (h : UpsertAt key entry s p) (hp : p.pending = true) (t : τ) :
    UpsertStep key entry s t (p.access s t) := by
  cases h with
  | loop left =>
      cases left with
      | zero => cases hp
      | succ left =>
          simp only [upsertRetry, Prog.access]
          cases hEntry : s.entries key.asStr with
          | none => exact .again rfl (.absent left)
          | some found =>
              obtain ⟨existing, version⟩ := found
              rcases state_cases existing with hTerm | hCont
              · simp only [hTerm, if_true]
                exact .guarded ⟨existing, VStore.contents_of_entries hEntry, hTerm⟩
              · simp only [hCont, reduceCtorEq, if_false]
                exact .again rfl (.cas left (.of_entries hEntry) hCont)
  | absent left =>
      by_cases hAcc : s.Accepts key.asStr .absent
      · rw [attempt_access_of_accepts hAcc]
        exact .wrote (not_closed_of_missing hAcc)
      · rw [attempt_access_of_not_accepts hAcc]
        exact .retry key entry s t left
  | @cas left version existing hn hl =>
      by_cases hAcc : s.Accepts key.asStr (.cas version)
      · rw [attempt_access_of_accepts hAcc]
        obtain ⟨w, hw⟩ := hAcc
        have hEq : w = existing := hn.only hw
        refine .wrote (not_closed_of_open ⟨w, VStore.contents_of_entries hw, ?_⟩)
        rw [hEq]
        exact hl
      · rw [attempt_access_of_not_accepts hAcc]
        exact .retry key entry s t left
  | done r => cases hp

omit [DecidableEq τ] in
/-- A failing access ends an upsert with the backend's error. -/
theorem UpsertAt.fault {key : CacheKey} {entry : ConversationEntry}
    {s : Entries τ} {p : Storage τ (Except CacheError Unit)}
    (h : UpsertAt key entry s p) (hp : p.pending = true) (debug : String) :
    p.fault debug = .done (.error (.storage debug)) := by
  cases h with
  | loop left =>
      cases left with
      | zero => cases hp
      | succ left => rfl
  | absent left => rfl
  | cas left hn hl => rfl
  | done r => cases hp

omit [DecidableEq τ] in
theorem upsertAt_upsert (store : ConversationStore) (key : CacheKey)
    (continuation : Continuation) (nowMillis : Nat) (s : Entries τ) :
    UpsertAt key (store.liveEntry continuation nowMillis) s
      (store.upsert key continuation nowMillis) :=
  .absent casMaxRetries

/-! ## Evict -/

/-- Where an eviction under `key` stands between two accesses. -/
inductive EvictAt (store : ConversationStore) (key : CacheKey) (nowMillis : Nat)
    (s : Entries τ) : Storage τ (Except CacheError Unit) → Prop where
  | loop (hd : store.distributed = true) (left : Nat) :
      EvictAt store key nowMillis s
        (evictRetry key (store.tombstone nowMillis) left)
  | cas (hd : store.distributed = true) (left : Nat) {version : τ}
      {existing : ConversationEntry} (hn : Names s key.asStr version existing)
      (hl : existing.state = .continuable) :
      EvictAt store key nowMillis s
        (attempt key (.cas version) (store.tombstone nowMillis)
          (evictRetry key (store.tombstone nowMillis) left))
  | delete (hd : store.distributed = false) :
      EvictAt store key nowMillis s (store.evict key nowMillis)
  | done (r : Except CacheError Unit) : EvictAt store key nowMillis s (.done r)

/-- What the next access of an eviction can do. -/
inductive EvictStep (store : ConversationStore) (key : CacheKey) (nowMillis : Nat)
    (s : Entries τ) (t : τ) :
    Storage τ (Except CacheError Unit) × Entries τ → Prop where
  | again {p : Storage τ (Except CacheError Unit)} (hp : p.pending = true)
      (hat : EvictAt store key nowMillis s p) :
      EvictStep store key nowMillis s t (p, s)
  | buried (hd : store.distributed = true) (ho : Open s key) :
      EvictStep store key nowMillis s t
        (.done (.ok ()), s.write key.asStr (store.tombstone nowMillis) t)
  | nothing (hd : store.distributed = true) (ho : ¬ Open s key) :
      EvictStep store key nowMillis s t (.done (.ok ()), s)
  | removed (hd : store.distributed = false) :
      EvictStep store key nowMillis s t (.done (.ok ()), s.erase key.asStr)
  | gaveUp (e : CacheError) :
      EvictStep store key nowMillis s t (.done (.error e), s)

omit [DecidableEq τ] in
theorem EvictAt.mono {store : ConversationStore} {key : CacheKey} {nowMillis : Nat}
    {s s' : Entries τ} {p : Storage τ (Except CacheError Unit)}
    (h : EvictAt store key nowMillis s p) (hE : Evolves s s') :
    EvictAt store key nowMillis s' p := by
  cases h with
  | loop hd left => exact .loop hd left
  | cas hd left hn hl => exact .cas hd left (hn.mono hE) hl
  | delete hd => exact .delete hd
  | done r => exact .done r

omit [DecidableEq τ] in
private theorem EvictStep.retry {store : ConversationStore} (key : CacheKey)
    (nowMillis : Nat) (hd : store.distributed = true) (s : Entries τ) (t : τ)
    (left : Nat) :
    EvictStep store key nowMillis s t
      (evictRetry key (store.tombstone nowMillis) left, s) := by
  cases left with
  | zero => exact .gaveUp .casConflict
  | succ left => exact .again rfl (.loop hd (left + 1))

/-- **One access of an eviction.** -/
theorem EvictAt.access {store : ConversationStore} {key : CacheKey}
    {nowMillis : Nat} {s : Entries τ} {p : Storage τ (Except CacheError Unit)}
    (h : EvictAt store key nowMillis s p) (hp : p.pending = true) (t : τ) :
    EvictStep store key nowMillis s t (p.access s t) := by
  cases h with
  | loop hd left =>
      cases left with
      | zero => cases hp
      | succ left =>
          simp only [evictRetry, Prog.access]
          cases hEntry : s.entries key.asStr with
          | none =>
              refine .nothing hd ?_
              rintro ⟨e, he, _⟩
              rw [VStore.contents_eq_none.mpr hEntry] at he
              cases he
          | some found =>
              obtain ⟨existing, version⟩ := found
              rcases state_cases existing with hTerm | hCont
              · simp only [hTerm, if_true]
                exact .nothing hd fun ho => not_closed_of_open ho
                  ⟨existing, VStore.contents_of_entries hEntry, hTerm⟩
              · simp only [hCont, reduceCtorEq, if_false]
                exact .again rfl (.cas hd left (.of_entries hEntry) hCont)
  | @cas hd left version existing hn hl =>
      by_cases hAcc : s.Accepts key.asStr (.cas version)
      · rw [attempt_access_of_accepts hAcc]
        obtain ⟨w, hw⟩ := hAcc
        have hEq : w = existing := hn.only hw
        refine .buried hd ⟨w, VStore.contents_of_entries hw, ?_⟩
        rw [hEq]
        exact hl
      · rw [attempt_access_of_not_accepts hAcc]
        exact .retry key nowMillis hd s t left
  | delete hd =>
      simp only [ConversationStore.evict, hd, Bool.false_eq_true, if_false,
        Prog.access]
      exact .removed hd
  | done r => cases hp

omit [DecidableEq τ] in
/-- A failing access ends an eviction with the backend's error. -/
theorem EvictAt.fault {store : ConversationStore} {key : CacheKey}
    {nowMillis : Nat} {s : Entries τ} {p : Storage τ (Except CacheError Unit)}
    (h : EvictAt store key nowMillis s p) (hp : p.pending = true)
    (debug : String) : p.fault debug = .done (.error (.storage debug)) := by
  cases h with
  | loop hd left =>
      cases left with
      | zero => cases hp
      | succ left => rfl
  | cas hd left hn hl => rfl
  | delete hd =>
      simp only [ConversationStore.evict, hd, Bool.false_eq_true, if_false,
        Prog.fault]
      rfl
  | done r => cases hp

omit [DecidableEq τ] in
theorem evictAt_evict (store : ConversationStore) (key : CacheKey)
    (nowMillis : Nat) (s : Entries τ) :
    EvictAt store key nowMillis s (store.evict key nowMillis) := by
  cases hd : store.distributed with
  | false => exact .delete hd
  | true =>
      simp only [ConversationStore.evict, hd, if_true]
      exact .loop hd casMaxRetries

end RestToA2a.Policy.CacheSteps
