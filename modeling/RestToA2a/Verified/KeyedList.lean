import Mathlib

/-!
# Association lists kept in key order

The members of a map that iterates in key order, as the list it iterates.
`insert` puts a member at its place or replaces the one that is there, and
`List.lookup` reads.  The laws hold of every list, ordered or not, so few proofs
have to carry the ordering along: it is wanted where writing back what was read
is to change nothing.
-/

namespace RestToA2a.Verified.KeyedList

variable {K V : Type} [LinearOrder K]

/-- Insert or replace the member of key `k`. -/
def insert (k : K) (v : V) : List (K × V) → List (K × V)
  | [] => [(k, v)]
  | (k', v') :: rest =>
      if k < k' then (k, v) :: (k', v') :: rest
      else if k = k' then (k, v) :: rest
      else (k', v') :: insert k v rest

/-- Insert the member of key `k` when there is a value for it. -/
def insertSome (k : K) (v : Option V) (m : List (K × V)) : List (K × V) :=
  match v with
  | some v => insert k v m
  | none => m

theorem lookup_insert_self (k : K) (v : V) (m : List (K × V)) :
    (insert k v m).lookup k = some v := by
  induction m with
  | nil => simp [insert]
  | cons e rest ih =>
      obtain ⟨k', v'⟩ := e
      by_cases hlt : k < k'
      · simp [insert, hlt]
      · by_cases heq : k = k'
        · simp [insert, heq]
        · have hne : (k == k') = false := by simpa using heq
          simp [insert, hlt, heq, List.lookup_cons, hne, ih]

theorem lookup_insert_ne {k j : K} (h : j ≠ k) (v : V) (m : List (K × V)) :
    (insert k v m).lookup j = m.lookup j := by
  have hjk : (j == k) = false := by simpa using h
  induction m with
  | nil => simp [insert, List.lookup_cons, hjk]
  | cons e rest ih =>
      obtain ⟨k', v'⟩ := e
      by_cases hlt : k < k'
      · simp [insert, hlt, List.lookup_cons, hjk]
      · by_cases heq : k = k'
        · subst heq
          simp [insert, List.lookup_cons, hjk]
        · simp [insert, hlt, heq, List.lookup_cons, ih]

theorem lookup_insert (k j : K) (v : V) (m : List (K × V)) :
    (insert k v m).lookup j = if j = k then some v else m.lookup j := by
  by_cases h : j = k
  · subst h
    simp [lookup_insert_self]
  · simp [h, lookup_insert_ne h]

@[simp] theorem lookup_insertSome_self (k : K) (v : Option V) (m : List (K × V)) :
    (insertSome k v m).lookup k = v.or (m.lookup k) := by
  cases v with
  | none => rfl
  | some v => simp [insertSome, lookup_insert_self]

theorem lookup_insertSome_ne {k j : K} (h : j ≠ k) (v : Option V)
    (m : List (K × V)) : (insertSome k v m).lookup j = m.lookup j := by
  cases v with
  | none => rfl
  | some v => exact lookup_insert_ne h v m

theorem lookup_insertSome (k j : K) (v : Option V) (m : List (K × V)) :
    (insertSome k v m).lookup j = if j = k then v.or (m.lookup k) else m.lookup j := by
  by_cases h : j = k
  · subst h
    simp
  · simp [h, lookup_insertSome_ne h]

/-- The last write of a key is the one that counts. -/
theorem insert_insert (k : K) (v w : V) (m : List (K × V)) :
    insert k v (insert k w m) = insert k v m := by
  induction m with
  | nil => simp [insert]
  | cons e rest ih =>
      obtain ⟨k', v'⟩ := e
      by_cases hlt : k < k'
      · simp [insert, hlt]
      · by_cases heq : k = k'
        · simp [insert, heq]
        · simp [insert, hlt, heq, ih]

private theorem insert_comm_lt {j k : K} (h : j < k) (v w : V)
    (m : List (K × V)) :
    insert j v (insert k w m) = insert k w (insert j v m) := by
  have hkj : ¬ k < j := not_lt_of_gt h
  have hne : k ≠ j := (ne_of_lt h).symm
  induction m with
  | nil => simp [insert, h, hkj, hne]
  | cons e rest ih =>
      obtain ⟨k', v'⟩ := e
      rcases lt_trichotomy j k' with hj | hj | hj
      · rcases lt_trichotomy k k' with hk | hk | hk
        · simp [insert, hj, hk, h, hkj, hne]
        · subst hk
          simp [insert, h, hkj, hne]
        · simp [insert, hj, not_lt_of_gt hk, (ne_of_lt hk).symm, hkj, hne]
      · subst hj
        simp [insert, hkj, hne]
      · have hk : k' < k := lt_trans hj h
        simp [insert, not_lt_of_gt hj, (ne_of_lt hj).symm, not_lt_of_gt hk,
          (ne_of_lt hk).symm, ih]

/-- Members of different keys may be inserted in either order. -/
theorem insert_comm {j k : K} (h : j ≠ k) (v w : V) (m : List (K × V)) :
    insert j v (insert k w m) = insert k w (insert j v m) := by
  rcases lt_or_gt_of_ne h with hlt | hgt
  · exact insert_comm_lt hlt v w m
  · exact (insert_comm_lt hgt w v m).symm

theorem insertSome_comm {j k : K} (h : j ≠ k) (v w : Option V)
    (m : List (K × V)) :
    insertSome j v (insertSome k w m) = insertSome k w (insertSome j v m) := by
  cases v with
  | none => rfl
  | some v =>
      cases w with
      | none => rfl
      | some w => exact insert_comm h v w m

/-! ## Order -/

/-- The keys are strictly increasing. -/
def Sorted (m : List (K × V)) : Prop := m.Pairwise fun a b => a.1 < b.1

theorem mem_of_lookup {m : List (K × V)} {k : K} {v : V}
    (h : m.lookup k = some v) : (k, v) ∈ m := by
  obtain ⟨before, after, rfl, _⟩ := List.lookup_eq_some_iff.mp h
  simp

theorem mem_of_mem_insert {k : K} {v : V} {m : List (K × V)} {e : K × V}
    (h : e ∈ insert k v m) : e = (k, v) ∨ e ∈ m := by
  induction m with
  | nil => simpa [insert] using h
  | cons d rest ih =>
      obtain ⟨k', v'⟩ := d
      by_cases hlt : k < k'
      · simpa [insert, hlt] using h
      · by_cases heq : k = k'
        · simp only [insert, if_neg hlt, if_pos heq, List.mem_cons] at h ⊢
          exact h.imp id Or.inr
        · simp only [insert, if_neg hlt, if_neg heq, List.mem_cons] at h ⊢
          rcases h with rfl | hrest
          · exact Or.inr (Or.inl rfl)
          · exact (ih hrest).imp id Or.inr

theorem sorted_insert {m : List (K × V)} (hs : Sorted m) (k : K) (v : V) :
    Sorted (insert k v m) := by
  induction m with
  | nil => exact List.pairwise_singleton _ _
  | cons d rest ih =>
      obtain ⟨k', v'⟩ := d
      obtain ⟨hd, hrest⟩ := List.pairwise_cons.mp hs
      by_cases hlt : k < k'
      · simp only [insert, if_pos hlt]
        refine List.pairwise_cons.mpr ⟨fun e he => ?_, hs⟩
        rcases List.mem_cons.mp he with rfl | he
        · exact hlt
        · exact hlt.trans (hd e he)
      · by_cases heq : k = k'
        · subst heq
          simp only [insert, if_neg hlt, if_true]
          exact List.pairwise_cons.mpr ⟨hd, hrest⟩
        · simp only [insert, if_neg hlt, if_neg heq]
          refine List.pairwise_cons.mpr ⟨fun e he => ?_, ih hrest⟩
          rcases mem_of_mem_insert he with rfl | he
          · exact lt_of_le_of_ne (not_lt.mp hlt) (Ne.symm heq)
          · exact hd e he

/-- Writing back what is there changes nothing. -/
theorem insert_of_lookup {m : List (K × V)} (hs : Sorted m) {k : K} {v : V}
    (h : m.lookup k = some v) : insert k v m = m := by
  induction m with
  | nil => cases h
  | cons d rest ih =>
      obtain ⟨k', v'⟩ := d
      obtain ⟨hd, hrest⟩ := List.pairwise_cons.mp hs
      by_cases heq : k = k'
      · subst heq
        simp only [List.lookup_cons, beq_self_eq_true, Option.some.injEq] at h
        simp [insert, h]
      · have hbeq : (k == k') = false := by simpa using heq
        simp only [List.lookup_cons, hbeq] at h
        have hlt : ¬ k < k' := not_lt_of_gt (hd _ (mem_of_lookup h))
        simp only [insert, if_neg hlt, if_neg heq, ih hrest h]

end RestToA2a.Verified.KeyedList
