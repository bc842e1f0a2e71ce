import RestToA2a.Policy.SelectPaths

/-!
# The documented path grammar

The documentation of selection gives a grammar: segments separated by dots,
each a key with indices or a run of indices alone, an index being a decimal
number; anything else is malformed and selects nothing.  `Documented` is that
grammar, `Selects` what it makes of a path.

Selection reads more than the grammar: an empty segment stays where it is, and
the number in the brackets may have a plus sign.  `Strict` says which paths are
not touched by either, and these are exactly the paths on which selection and
the grammar agree.
-/

namespace RestToA2a.Policy.SelectGrammar

open RestToA2a.Verified
open RestToA2a.Policy.Serde
open RestToA2a.Policy.Select
open RestToA2a.Policy.SelectPaths

/-- A segment of the grammar, with its steps: a key or at least one index, and
further indices. -/
inductive DocumentedSegment : List Char → List PathStep → Prop where
  | key {key bracket : List Char} {steps : List PathStep} (hne : key ≠ [])
      (hdot : '.' ∉ key) (hbracket : '[' ∉ key)
      (h : Indices Text.Decimal bracket steps) :
      DocumentedSegment (key ++ bracket) (.key (String.ofList key) :: steps)
  | indices {bracket : List Char} {steps : List PathStep} (hne : bracket ≠ [])
      (h : Indices Text.Decimal bracket steps) : DocumentedSegment bracket steps

/-- A path of the grammar, with its steps. -/
inductive Documented : List Char → List PathStep → Prop where
  | root : Documented [] []
  | segments {segs : List (List Char)} {stepss : List (List PathStep)}
      (hne : segs ≠ []) (h : List.Forall₂ DocumentedSegment segs stepss) :
      Documented (['.'].intercalate segs) stepss.flatten

/-- What the documentation makes of a path against a root. -/
def Selects (root : Json) (path : String) (v : Json) : Prop :=
  ∃ steps, Documented (stripPayload (Text.trim path.toList)) steps ∧
    root.walk steps = some v

/-- A bracket is followed by a plus sign. -/
def PlusIndex (s : List Char) : Prop := ['[', '+'] <:+: s

instance (s : List Char) : Decidable (PlusIndex s) :=
  inferInstanceAs (Decidable (['[', '+'] <:+: s))

/-- The path is not one that only a lenient reader understands: it is empty, or
no segment of it is empty or has a plus sign in its brackets, or some segment
cannot be read even with plus signs allowed. -/
def Strict (rest : List Char) : Prop :=
  rest = [] ∨
    (∀ seg ∈ rest.splitOn '.', seg ≠ [] ∧ ¬ PlusIndex seg) ∨
    ∃ seg ∈ rest.splitOn '.', ∀ steps, ¬ Segment WordIndex seg steps

/-! ## Plus signs -/

theorem plusIndex_append {key bracket : List Char} (h : '[' ∉ key) :
    PlusIndex (key ++ bracket) ↔ PlusIndex bracket := by
  induction key with
  | nil => rfl
  | cons c key ih =>
      rw [List.mem_cons, not_or] at h
      have hprefix : ¬ ['[', '+'] <+: c :: (key ++ bracket) := fun hp =>
        h.1 (List.cons_prefix_cons.mp hp).1
      rw [PlusIndex, List.cons_append, List.infix_cons_iff, or_iff_right hprefix]
      exact ih h.2

theorem plusIndex_bracketed {index bracket : List Char} (h : '[' ∉ index) :
    PlusIndex (bracketed index ++ bracket) ↔
      index.head? = some '+' ∨ PlusIndex bracket := by
  have hshape : bracketed index ++ bracket = '[' :: (index ++ ']' :: bracket) := by
    simp [bracketed]
  have hrest : PlusIndex (index ++ ']' :: bracket) ↔ PlusIndex bracket := by
    rw [plusIndex_append h]
    exact plusIndex_append (by simp : '[' ∉ [']'])
  rw [hshape, PlusIndex, List.infix_cons_iff, List.cons_prefix_cons]
  refine or_congr ?_ hrest
  cases index with
  | nil => simp
  | cons c index => simp [List.cons_prefix_cons, eq_comm]

theorem not_plusIndex_of_decimal {bracket : List Char} {steps : List PathStep}
    (h : Indices Text.Decimal bracket steps) : ¬ PlusIndex bracket := by
  induction h with
  | nil => simp [PlusIndex]
  | cons hindex _ _ ih =>
      rw [plusIndex_bracketed (hindex.not_mem rfl), not_or]
      exact ⟨hindex.head_ne rfl, ih⟩

theorem decimal_of_not_plusIndex {bracket : List Char} {steps : List PathStep}
    (h : Indices WordIndex bracket steps) (hplus : ¬ PlusIndex bracket) :
    Indices Text.Decimal bracket steps := by
  induction h with
  | nil => exact .nil
  | @cons index i bracket steps hindex hclosed _ ih =>
      have hopen : '[' ∉ index := by
        obtain ⟨_, hdec | ⟨digits, rfl, hdec⟩⟩ := hindex
        · exact hdec.not_mem rfl
        · have hdigits : '[' ∉ digits := hdec.not_mem rfl
          simp [hdigits]
      rw [plusIndex_bracketed hopen, not_or] at hplus
      refine .cons ?_ hclosed (ih hplus.2)
      obtain ⟨_, hdec | ⟨digits, rfl, _⟩⟩ := hindex
      · exact hdec
      · exact absurd rfl hplus.1

/-! ## Segments -/

theorem not_mem_of_decimal {bracket : List Char} {steps : List PathStep}
    (h : Indices Text.Decimal bracket steps) : '.' ∉ bracket := by
  induction h with
  | nil => simp
  | cons hindex _ _ ih =>
      have hdigits := hindex.not_mem (rfl : '.'.isDigit = false)
      simp [bracketed, hdigits, ih]

/-- The grammar of a segment is the reader's without plus signs. -/
theorem documentedSegment_iff {seg : List Char} {steps : List PathStep} :
    DocumentedSegment seg steps ↔
      seg ≠ [] ∧ '.' ∉ seg ∧ Segment Text.Decimal seg steps := by
  constructor
  · intro h
    cases h with
    | key hne hdot hbracket h =>
        refine ⟨by simp [hne], ?_, ?_⟩
        · simp [hdot, not_mem_of_decimal h]
        · have hseg := Segment.mk hbracket h
          rwa [keySteps_of_ne_nil hne] at hseg
    | indices hne h => exact ⟨hne, not_mem_of_decimal h, .mk (by simp : '[' ∉ []) h⟩
  · rintro ⟨hne, hdot, ⟨hkey, h⟩⟩
    rename_i key bracket steps
    cases key with
    | nil => exact .indices hne h
    | cons c key =>
        rw [List.mem_append, not_or] at hdot
        exact .key (by simp) hdot.1 hkey h

theorem not_plusIndex_of_documented {seg : List Char} {steps : List PathStep}
    (h : DocumentedSegment seg steps) : ¬ PlusIndex seg := by
  cases h with
  | key _ _ hbracket h =>
      rw [plusIndex_append hbracket]
      exact not_plusIndex_of_decimal h
  | indices _ h => exact not_plusIndex_of_decimal h

/-- A segment that is read without a plus sign is one of the grammar. -/
theorem documented_of_not_plusIndex {seg : List Char} {steps : List PathStep}
    (h : Segment WordIndex seg steps) (hne : seg ≠ []) (hdot : '.' ∉ seg)
    (hplus : ¬ PlusIndex seg) : DocumentedSegment seg steps := by
  refine documentedSegment_iff.mpr ⟨hne, hdot, ?_⟩
  obtain ⟨hkey, h⟩ := h
  rw [plusIndex_append hkey] at hplus
  exact .mk hkey (decimal_of_not_plusIndex h hplus)

/-- A segment of the grammar is read if its indices fit a word. -/
theorem segment_of_documented {seg : List Char} {steps : List PathStep}
    (h : DocumentedSegment seg steps)
    (hfits : ∀ i, .index i ∈ steps → i < 2 ^ usizeBits) :
    Segment WordIndex seg steps := by
  obtain ⟨_, _, hkey, hb⟩ := documentedSegment_iff.mp h
  refine .mk hkey (hb.mono fun index i hi hindex => ⟨hfits i ?_, Or.inl hindex⟩)
  exact List.mem_append_right _ hi

theorem segments_of_documented {segs : List (List Char)}
    {stepss : List (List PathStep)} (h : List.Forall₂ DocumentedSegment segs stepss)
    (hfits : ∀ i, .index i ∈ stepss.flatten → i < 2 ^ usizeBits) :
    List.Forall₂ (Segment WordIndex) segs stepss := by
  induction h with
  | nil => exact .nil
  | cons hseg _ ih =>
      simp only [List.flatten_cons, List.mem_append] at hfits
      exact .cons (segment_of_documented hseg fun i hi => hfits i (Or.inl hi))
        (ih fun i hi => hfits i (Or.inr hi))

theorem splitOn_documented {segs : List (List Char)}
    {stepss : List (List PathStep)} (hne : segs ≠ [])
    (h : List.Forall₂ DocumentedSegment segs stepss) :
    (['.'].intercalate segs).splitOn '.' = segs := by
  have hdot : ∀ seg ∈ segs, '.' ∉ seg :=
    ((List.forall₂_and_left segs stepss).mp (h.imp fun _ _ hseg =>
      ⟨(documentedSegment_iff.mp hseg).2.1, hseg⟩)).1
  exact List.splitOn_intercalate '.' hdot hne

theorem documented_iff {rest : List Char} {steps : List PathStep} (hne : rest ≠ []) :
    Documented rest steps ↔
      ∃ stepss, List.Forall₂ DocumentedSegment (rest.splitOn '.') stepss ∧
        steps = stepss.flatten := by
  constructor
  · intro h
    cases h with
    | root => exact absurd rfl hne
    | segments hsegs h => exact ⟨_, (splitOn_documented hsegs h).symm ▸ h, rfl⟩
  · rintro ⟨stepss, h, rfl⟩
    have hdoc := Documented.segments (List.splitOn_ne_nil '.' rest) h
    rwa [List.intercalate_splitOn] at hdoc

/-- Nothing but the root is selected by the empty path. -/
theorem documented_nil {rest : List Char} {steps : List PathStep}
    (h : Documented rest steps) (hrest : rest = []) : steps = [] := by
  cases h with
  | root => rfl
  | segments hsegs h =>
      have hsplit := splitOn_documented hsegs h
      rw [hrest, List.splitOn_nil] at hsplit
      rw [← hsplit] at h
      cases h with
      | cons hseg _ => exact absurd rfl (documentedSegment_iff.mp hseg).1

theorem readPath?_eq_some_iff {rest : List Char} {steps : List PathStep}
    (hne : rest ≠ []) :
    readPath? rest = some steps ↔
      ∃ stepss, List.Forall₂ (Segment WordIndex) (rest.splitOn '.') stepss ∧
        steps = stepss.flatten := by
  simp only [readPath?, List.isEmpty_iff, hne, if_false, Option.map_eq_some_iff,
    mapM_readToken?_eq_some_iff, @eq_comm _ steps]

/-! ## Roots -/

/-- The value is one the platform can hold: no array has more elements than a
word counts. -/
inductive Addressable : Json → Prop where
  | null : Addressable .null
  | bool (b : Bool) : Addressable (.bool b)
  | num (n : Number) : Addressable (.num n)
  | str (s : String) : Addressable (.str s)
  | arr {elems : List Json} (hlength : elems.length ≤ 2 ^ usizeBits)
      (h : ∀ v ∈ elems, Addressable v) : Addressable (.arr elems)
  | obj {members : Map} (h : ∀ e ∈ members, Addressable e.2) :
      Addressable (.obj members)

theorem Addressable.step {v w : Json} {s : PathStep} (hv : Addressable v)
    (h : v.step s = some w) :
    Addressable w ∧ ∀ i, s = .index i → i < 2 ^ usizeBits := by
  cases s with
  | key k =>
      refine ⟨?_, fun i hi => by cases hi⟩
      cases hv with
      | obj hmembers => exact hmembers _ (KeyedList.mem_of_lookup h)
      | _ => cases h
  | index j =>
      cases hv with
      | arr hlength helems =>
          have hmem := List.mem_of_getElem? h
          have hlt := (List.getElem?_eq_some_iff.mp h).1
          refine ⟨helems _ hmem, fun i hi => ?_⟩
          cases hi
          omega
      | _ => cases h

/-- A location of an addressable value has indices that fit. -/
theorem Addressable.walk_fits {v w : Json} {steps : List PathStep}
    (hv : Addressable v) (h : v.walk steps = some w) :
    ∀ i, .index i ∈ steps → i < 2 ^ usizeBits := by
  induction steps generalizing v with
  | nil => exact fun i hi => nomatch hi
  | cons s steps ih =>
      obtain ⟨u, hstep, hwalk⟩ := Option.bind_eq_some_iff.mp h
      obtain ⟨hu, hs⟩ := hv.step hstep
      intro i hi
      rcases List.mem_cons.mp hi with hi | hi
      · exact hs i hi.symm
      · exact ih hu hwalk i hi

/-- A value with the given location in it. -/
def nest : List PathStep → Json
  | [] => .null
  | .key k :: steps => .obj [(k, nest steps)]
  | .index i :: steps => .arr (List.replicate (i + 1) (nest steps))

theorem walk_nest (steps : List PathStep) : (nest steps).walk steps = some .null := by
  induction steps with
  | nil => rfl
  | cons s steps ih => cases s <;> simpa [nest, Json.walk, Json.step, Json.at?] using ih

theorem addressable_nest {steps : List PathStep}
    (h : ∀ i, .index i ∈ steps → i < 2 ^ usizeBits) : Addressable (nest steps) := by
  induction steps with
  | nil => exact .null
  | cons s steps ih =>
      have htail := ih fun i hi => h i (List.mem_cons_of_mem _ hi)
      cases s with
      | key k => exact .obj (by simpa using htail)
      | index i =>
          refine .arr ?_ fun v hv => List.eq_of_mem_replicate hv ▸ htail
          have := h i List.mem_cons_self
          rw [List.length_replicate]
          omega

/-! ## Agreement -/

/-- What the grammar selects of an addressable value is selected. -/
theorem select_of_selects {root v : Json} {path : String} (hroot : Addressable root)
    (h : Selects root path v) : select root path = some v := by
  obtain ⟨steps, hdoc, hwalk⟩ := h
  rw [select_eq_walk]
  generalize stripPayload (Text.trim path.toList) = rest at hdoc
  suffices hread : readPath? rest = some steps by rw [hread]; exact hwalk
  by_cases hne : rest = []
  · rw [documented_nil hdoc hne, hne]
    rfl
  · obtain ⟨stepss, hsegs, rfl⟩ := (documented_iff hne).mp hdoc
    have hfits := hroot.walk_fits hwalk
    have hread : List.Forall₂ (Segment WordIndex) (rest.splitOn '.') stepss :=
      segments_of_documented hsegs hfits
    exact (readPath?_eq_some_iff hne).mpr ⟨stepss, hread, rfl⟩

/-- What is selected by a strict path is what the grammar selects. -/
theorem selects_of_select {root v : Json} {path : String}
    (hstrict : Strict (stripPayload (Text.trim path.toList)))
    (h : select root path = some v) : Selects root path v := by
  rw [select_eq_walk] at h
  obtain ⟨steps, hread, hwalk⟩ := Option.bind_eq_some_iff.mp h
  refine ⟨steps, ?_, hwalk⟩
  generalize stripPayload (Text.trim path.toList) = rest at hstrict hread
  by_cases hne : rest = []
  · subst hne
    cases hread
    exact .root
  obtain ⟨stepss, hsegs, rfl⟩ := (readPath?_eq_some_iff hne).mp hread
  rcases hstrict with hnil | hclean | ⟨seg, hseg, hbad⟩
  · exact absurd hnil hne
  · refine (documented_iff hne).mpr ⟨stepss, ?_, rfl⟩
    have hall := (List.forall₂_and_left _ _).mpr
      ⟨fun seg hseg => And.intro (hclean seg hseg)
        (Text.not_mem_of_mem_splitOn hseg), hsegs⟩
    exact hall.imp fun seg steps hseg =>
      documented_of_not_plusIndex hseg.2 hseg.1.1.1 hseg.1.2 hseg.1.1.2
  · have hall := (List.forall₂_and_left _ _).mp
      (hsegs.imp fun seg steps h => And.intro (Exists.intro steps h) h)
    obtain ⟨steps, hsteps⟩ := hall.1 seg hseg
    exact absurd hsteps (hbad steps)

/-- A path of the grammar has no empty segment and no plus sign. -/
theorem clean_of_documented {rest : List Char} {steps : List PathStep}
    (h : Documented rest steps) (hne : rest ≠ []) :
    ∀ seg ∈ rest.splitOn '.', seg ≠ [] ∧ ¬ PlusIndex seg := by
  obtain ⟨stepss, hsegs, _⟩ := (documented_iff hne).mp h
  exact ((List.forall₂_and_left _ _).mp (hsegs.imp fun seg steps hseg =>
    And.intro (And.intro (documentedSegment_iff.mp hseg).1
      (not_plusIndex_of_documented hseg)) hseg)).1

theorem segments_fits {segs : List (List Char)} {stepss : List (List PathStep)}
    (h : List.Forall₂ (Segment WordIndex) segs stepss) :
    ∀ i, .index i ∈ stepss.flatten → i < 2 ^ usizeBits := by
  induction h with
  | nil => exact fun i hi => nomatch hi
  | cons hseg _ ih =>
      intro i hi
      rw [List.flatten_cons, List.mem_append] at hi
      rcases hi with hi | hi
      · cases hseg with
        | mk hkey hb =>
            rcases List.mem_append.mp hi with hi | hi
            · simp only [keySteps] at hi
              split at hi <;> simp at hi
            · exact hb.fits i hi
      · exact ih i hi

theorem exists_stepss {segs : List (List Char)}
    (h : ∀ seg ∈ segs, ∃ steps, Segment WordIndex seg steps) :
    ∃ stepss, List.Forall₂ (Segment WordIndex) segs stepss := by
  induction segs with
  | nil => exact ⟨[], .nil⟩
  | cons seg segs ih =>
      obtain ⟨hseg, hsegs⟩ := List.forall_mem_cons.mp h
      obtain ⟨steps, hsteps⟩ := hseg
      obtain ⟨stepss, hstepss⟩ := ih hsegs
      exact ⟨steps :: stepss, .cons hsteps hstepss⟩

/-- Against some root, a path that is not strict selects what the grammar does
not. -/
theorem exists_slip {path : String}
    (h : ¬ Strict (stripPayload (Text.trim path.toList))) :
    ∃ root, Addressable root ∧ select root path = some .null ∧
      ∀ v, ¬ Selects root path v := by
  simp only [Selects, select_eq_walk]
  generalize stripPayload (Text.trim path.toList) = rest at h
  simp only [Strict, not_or, not_exists, not_and, not_forall, not_not] at h
  obtain ⟨hne, ⟨seg, hseg, hunclean⟩, hreadable⟩ := h
  obtain ⟨stepss, hsegs⟩ := exists_stepss hreadable
  have hread : readPath? rest = some stepss.flatten :=
    (readPath?_eq_some_iff hne).mpr ⟨stepss, hsegs, rfl⟩
  have hroot : Addressable (nest stepss.flatten) := addressable_nest (segments_fits hsegs)
  refine ⟨nest stepss.flatten, hroot, ?_, ?_⟩
  · rw [hread]
    exact walk_nest _
  · rintro v ⟨steps, hdoc, _⟩
    obtain ⟨hempty, hplus⟩ := clean_of_documented hdoc hne seg hseg
    exact hplus (hunclean hempty)

/-- **Selection and the grammar agree on the strict paths alone.**  On a strict
path every root has selected of it just what the grammar selects; on any other
path some root does not. -/
theorem select_iff_selects_iff (path : String) :
    (∀ root, Addressable root → ∀ v,
        (select root path = some v ↔ Selects root path v)) ↔
      Strict (stripPayload (Text.trim path.toList)) := by
  constructor
  · intro h
    by_contra hslip
    obtain ⟨root, hroot, hselect, hnone⟩ := exists_slip hslip
    exact hnone _ ((h root hroot _).mp hselect)
  · intro hstrict root hroot v
    exact ⟨selects_of_select hstrict, select_of_selects hroot⟩

/-- The empty segment of `a..b` is passed over, and the sign in `a[+1]` is
read, although neither path is one of the grammar. -/
theorem lenient_paths_select :
    (select (.obj [("a", .obj [("b", .null)])]) "a..b" = some .null ∧
        ¬ Selects (.obj [("a", .obj [("b", .null)])]) "a..b" .null) ∧
      select (.obj [("a", .arr [.bool true, .null])]) "a[+1]" = some .null ∧
        ¬ Selects (.obj [("a", .arr [.bool true, .null])]) "a[+1]" .null := by
  have hdots : stripPayload (Text.trim "a..b".toList) = "a..b".toList := by decide
  have hsign : stripPayload (Text.trim "a[+1]".toList) = "a[+1]".toList := by decide
  have hplus : PlusIndex "a[+1]".toList := by decide
  have hone : WordIndex ['+', '1'] 1 :=
    ⟨by decide, Or.inr ⟨['1'], rfl, by simp, by simp, rfl⟩⟩
  have ha : Segment WordIndex "a".toList [.key "a"] := .key (by simp [PlainStep])
  have hb : Segment WordIndex "b".toList [.key "b"] := .key (by simp [PlainStep])
  have hnone : Segment WordIndex [] [] := .mk (by simp : '[' ∉ []) .nil
  have hreadDots : readPath? "a..b".toList = some [.key "a", .key "b"] :=
    (readPath?_eq_some_iff (by decide)).mpr
      ⟨[[.key "a"], [], [.key "b"]], .cons ha (.cons hnone (.cons hb .nil)), rfl⟩
  have hreadSign : readPath? "a[+1]".toList = some [.key "a", .index 1] :=
    (readPath?_eq_some_iff (by decide)).mpr
      ⟨[[.key "a", .index 1]], .cons (ha.index hone (by decide)) .nil, rfl⟩
  refine ⟨⟨by rw [select_eq_walk, hdots, hreadDots]; rfl, ?_⟩,
    by rw [select_eq_walk, hsign, hreadSign]; rfl, ?_⟩
  · rintro ⟨steps, hdoc, _⟩
    rw [hdots] at hdoc
    exact (clean_of_documented hdoc (by decide) [] (by decide)).1 rfl
  · rintro ⟨steps, hdoc, _⟩
    rw [hsign] at hdoc
    exact (clean_of_documented hdoc (by decide) "a[+1]".toList (by decide)).2 hplus

end RestToA2a.Policy.SelectGrammar
