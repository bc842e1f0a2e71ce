import RestToA2a.Policy.Select

/-!
# Paths as lists of steps

Selection parses a path and follows it in one pass.  Here the two are taken
apart: `readPath?` reads a path as a list of steps, whatever the root is, and
selection is walking the steps from the root.  What a reading looks like is said
by `Segment` and `Indices`, for any notion of index text.

Every location of a root, written as a path, is read back as itself.
-/

namespace RestToA2a.Policy.SelectPaths

open RestToA2a.Verified
open RestToA2a.Policy.Serde
open RestToA2a.Policy.Select

theorem walk_append (v : Json) (p q : List PathStep) :
    v.walk (p ++ q) = (v.walk p).bind fun w => w.walk q := by
  induction p generalizing v with
  | nil => rfl
  | cons s p ih =>
      simp only [List.cons_append, Json.walk]
      cases v.step s with
      | none => rfl
      | some w => exact ih w

/-! ## Reading a segment -/

/-- The key a segment begins with, if it is not empty. -/
def keySteps (key : List Char) : List PathStep :=
  if key.isEmpty then [] else [.key (String.ofList key)]

/-- The index steps of a bracket suffix. -/
def readIndices? (bracket : List Char) : Option (List PathStep) :=
  match bracket with
  | [] => some []
  | '[' :: stripped =>
      if ']' ∈ stripped then
        (Text.parseUnsigned? usizeBits (stripped.takeWhile (· ≠ ']'))).bind
          fun index => (readIndices? ((stripped.dropWhile (· ≠ ']')).tail)).map
            (.index index :: ·)
      else none
  | _ :: _ => none
termination_by bracket.length
decreasing_by
  have := (List.dropWhile_suffix (l := stripped) (· ≠ ']')).length_le
  simp only [List.length_tail, List.length_cons]
  omega

/-- The steps of a segment. -/
def readToken? (token : List Char) : Option (List PathStep) :=
  (readIndices? (token.dropWhile (· ≠ '['))).map
    (keySteps (token.takeWhile (· ≠ '[')) ++ ·)

/-- The steps of a path. -/
def readPath? (rest : List Char) : Option (List PathStep) :=
  if rest.isEmpty then some []
  else ((rest.splitOn '.').mapM readToken?).map List.flatten

theorem resolveBrackets_eq (cur : Json) (bracket : List Char) :
    resolveBrackets cur bracket = (readIndices? bracket).bind cur.walk := by
  fun_induction readIndices? bracket generalizing cur with
  | case1 => simp [resolveBrackets, Json.walk]
  | case2 stripped hmem ih =>
      rw [resolveBrackets]
      simp only [hmem, if_true]
      cases Text.parseUnsigned? usizeBits (stripped.takeWhile (· ≠ ']')) with
      | none => rfl
      | some index =>
          cases hat : cur.at? index with
          | none =>
              cases readIndices? ((stripped.dropWhile (· ≠ ']')).tail) <;>
                simp [Json.walk, Json.step, hat]
          | some next =>
              simp only [Option.bind_some, hat, ih next]
              cases readIndices? ((stripped.dropWhile (· ≠ ']')).tail) <;>
                simp [Json.walk, Json.step, hat]
  | case3 stripped hmem =>
      rw [resolveBrackets]
      simp [hmem]
  | case4 c bracket hc =>
      rw [resolveBrackets]
      · rfl
      · exact hc

theorem resolveToken_eq (value : Json) (token : List Char) :
    resolveToken value token = (readToken? token).bind value.walk := by
  simp only [resolveToken, readToken?, keySteps, resolveBrackets_eq]
  generalize token.takeWhile (· ≠ '[') = key
  generalize readIndices? (token.dropWhile (· ≠ '[')) = indices
  by_cases hkey : key.isEmpty = true
  · simp only [hkey, if_true, Option.bind_some, List.nil_append]
    cases indices <;> rfl
  · simp only [hkey, Bool.false_eq_true, if_false]
    cases hget : value.get? (String.ofList key) with
    | none => cases indices <;> simp [Json.walk, Json.step, hget]
    | some w => cases indices <;> simp [Json.walk, Json.step, hget]

theorem resolveTokens_eq (value : Json) (tokens : List (List Char)) :
    resolveTokens value tokens =
      (tokens.mapM readToken?).bind fun steps => value.walk steps.flatten := by
  induction tokens generalizing value with
  | nil => rfl
  | cons token tokens ih =>
      simp only [resolveTokens, List.foldlM_cons, resolveToken_eq, List.mapM_cons]
        at ih ⊢
      cases readToken? token with
      | none => rfl
      | some steps =>
          cases hw : value.walk steps with
          | none =>
              cases tokens.mapM readToken? <;> simp [walk_append, hw]
          | some w =>
              simp only [Option.bind_eq_bind, Option.bind_some, hw, ih]
              cases tokens.mapM readToken? <;> simp [walk_append, hw]

/-- **Selection is reading and walking.** -/
theorem select_eq_walk (root : Json) (path : String) :
    select root path =
      (readPath? (stripPayload (Text.trim path.toList))).bind root.walk := by
  simp only [select, readPath?]
  split
  · rfl
  · rw [resolveTokens_eq]
    cases ((stripPayload (Text.trim path.toList)).splitOn '.').mapM readToken? <;>
      rfl

/-! ## What a segment looks like -/

/-- An index text in its brackets. -/
def bracketed (index : List Char) : List Char := '[' :: (index ++ [']'])

/-- The text is a run of bracketed indices with these steps, where `R` says
which texts are indices. -/
inductive Indices (R : List Char → Nat → Prop) : List Char → List PathStep → Prop where
  | nil : Indices R [] []
  | cons {index : List Char} {i : Nat} {bracket : List Char}
      {steps : List PathStep} (hindex : R index i) (hclosed : ']' ∉ index)
      (h : Indices R bracket steps) :
      Indices R (bracketed index ++ bracket) (.index i :: steps)

/-- The text is an optional key and a run of bracketed indices. -/
inductive Segment (R : List Char → Nat → Prop) : List Char → List PathStep → Prop where
  | mk {key bracket : List Char} {steps : List PathStep} (hkey : '[' ∉ key)
      (h : Indices R bracket steps) :
      Segment R (key ++ bracket) (keySteps key ++ steps)

/-- What is taken for an index: a word in decimal, with or without a plus sign. -/
def WordIndex (index : List Char) (i : Nat) : Prop :=
  i < 2 ^ usizeBits ∧
    (Text.Decimal index i ∨ ∃ digits, index = '+' :: digits ∧ Text.Decimal digits i)

theorem Indices.append {R : List Char → Nat → Prop} {a b : List Char}
    {p q : List PathStep} (ha : Indices R a p) (hb : Indices R b q) :
    Indices R (a ++ b) (p ++ q) := by
  induction ha with
  | nil => exact hb
  | cons hindex hclosed _ ih =>
      rw [List.append_assoc]
      exact .cons hindex hclosed ih

theorem Indices.mono {R S : List Char → Nat → Prop} {bracket : List Char}
    {steps : List PathStep} (h : Indices R bracket steps)
    (hRS : ∀ index i, .index i ∈ steps → R index i → S index i) :
    Indices S bracket steps := by
  induction h with
  | nil => exact .nil
  | cons hindex hclosed _ ih =>
      refine .cons (hRS _ _ List.mem_cons_self hindex) hclosed (ih ?_)
      exact fun index i hi => hRS index i (List.mem_cons_of_mem _ hi)

/-- The indices that are read fit a word. -/
theorem Indices.fits {bracket : List Char} {steps : List PathStep}
    (h : Indices WordIndex bracket steps) :
    ∀ i, .index i ∈ steps → i < 2 ^ usizeBits := by
  induction h with
  | nil => exact fun i hi => nomatch hi
  | cons hindex _ _ ih =>
      intro j hj
      rcases List.mem_cons.mp hj with hj | hj
      · cases hj
        exact hindex.1
      · exact ih j hj

theorem Indices.head {R : List Char → Nat → Prop} {b : List Char}
    {steps : List PathStep} (h : Indices R b steps) :
    b = [] ∨ ∃ rest, b = '[' :: rest := by
  cases h with
  | nil => exact Or.inl rfl
  | cons _ _ _ => exact Or.inr ⟨_, rfl⟩

/-- An index may be attached to a segment. -/
theorem Segment.index {R : List Char → Nat → Prop} {token : List Char}
    {steps : List PathStep} (h : Segment R token steps) {index : List Char} {i : Nat}
    (hindex : R index i) (hclosed : ']' ∉ index) :
    Segment R (token ++ bracketed index) (steps ++ [.index i]) := by
  cases h with
  | mk hkey hb =>
      have hone : Indices R (bracketed index) [.index i] := by
        simpa using Indices.cons hindex hclosed .nil
      rw [List.append_assoc, List.append_assoc]
      exact .mk hkey (hb.append hone)

theorem readIndices?_of_indices {bracket : List Char} {steps : List PathStep}
    (h : Indices WordIndex bracket steps) : readIndices? bracket = some steps := by
  induction h with
  | nil => rw [readIndices?]
  | @cons index i bracket steps hindex hclosed _ ih =>
      have hback : ']' :: bracket = [] ∨ ∃ rest, ']' :: bracket = ']' :: rest :=
        Or.inr ⟨bracket, rfl⟩
      have hspan := Text.span_append hclosed hback
      have hshape : bracketed index ++ bracket = '[' :: (index ++ ']' :: bracket) := by
        simp [bracketed]
      rw [hshape, readIndices?]
      have hparse := Text.parseUnsigned?_eq_some_iff.mpr hindex
      have hmem : ']' ∈ index ++ ']' :: bracket := by simp
      rw [if_pos hmem, hspan.1, hspan.2, hparse]
      simp only [Option.bind_some, List.tail_cons, ih, Option.map_some]

theorem indices_of_readIndices? {bracket : List Char} {steps : List PathStep}
    (h : readIndices? bracket = some steps) : Indices WordIndex bracket steps := by
  fun_induction readIndices? bracket generalizing steps with
  | case1 =>
      cases h
      exact .nil
  | case2 stripped hmem ih =>
      obtain ⟨i, hi, h⟩ := Option.bind_eq_some_iff.mp h
      obtain ⟨tail, htail, rfl⟩ := Option.map_eq_some_iff.mp h
      have hsplit : '[' :: stripped = bracketed (stripped.takeWhile (· ≠ ']')) ++
          (stripped.dropWhile (· ≠ ']')).tail := by
        conv_lhs => rw [← List.takeWhile_append_dropWhile (p := (· ≠ ']')) (l := stripped),
          Text.dropWhile_eq_cons hmem]
        simp [bracketed]
      rw [hsplit]
      exact .cons (Text.parseUnsigned?_eq_some_iff.mp hi)
        (Text.not_mem_takeWhile _ _) (ih htail)
  | case3 stripped hmem => cases h
  | case4 c bracket hc => cases h

/-- **What the reader accepts as a segment.** -/
theorem readToken?_eq_some_iff {token : List Char} {steps : List PathStep} :
    readToken? token = some steps ↔ Segment WordIndex token steps := by
  constructor
  · intro h
    obtain ⟨indices, hindices, rfl⟩ := Option.map_eq_some_iff.mp h
    have hseg := Segment.mk (Text.not_mem_takeWhile '[' token)
      (indices_of_readIndices? hindices)
    rwa [List.takeWhile_append_dropWhile] at hseg
  · rintro ⟨hkey, hb⟩
    have hspan := Text.span_append hkey hb.head
    rw [readToken?, hspan.1, hspan.2, readIndices?_of_indices hb]
    rfl

theorem mapM_readToken?_eq_some_iff {tokens : List (List Char)}
    {stepss : List (List PathStep)} :
    tokens.mapM readToken? = some stepss ↔
      List.Forall₂ (Segment WordIndex) tokens stepss := by
  induction tokens generalizing stepss with
  | nil => simp [eq_comm]
  | cons token tokens ih =>
      simp only [List.mapM_cons, Option.bind_eq_bind, Option.bind_eq_some_iff,
        readToken?_eq_some_iff, ih, Option.pure_def, Option.some.injEq,
        List.forall₂_cons_left_iff]
      constructor
      · rintro ⟨steps, hsteps, stepss, hstepss, rfl⟩
        exact ⟨steps, stepss, hsteps, hstepss, rfl⟩
      · rintro ⟨steps, stepss, hsteps, hstepss, rfl⟩
        exact ⟨steps, hsteps, stepss, hstepss, rfl⟩

/-! ## Writing a location -/

/-- The steps of a location behind what is written already. -/
def renderRest : List PathStep → List Char
  | [] => []
  | .key k :: rest => '.' :: (k.toList ++ renderRest rest)
  | .index i :: rest => bracketed (Nat.toDigits 10 i) ++ renderRest rest

/-- A location as a path: the keys joined by dots, each index in brackets after
what precedes it. -/
def render : List PathStep → List Char
  | .key k :: rest => k.toList ++ renderRest rest
  | loc => renderRest loc

/-- A step whose text is one piece of a token. -/
def PlainStep : PathStep → Prop
  | .key k => k ≠ "" ∧ '.' ∉ k.toList ∧ '[' ∉ k.toList
  | .index i => i < 2 ^ usizeBits

/-- The text does not end in white space. -/
def EndsVisible (s : List Char) : Prop :=
  ∀ c, s.getLast? = some c → Text.isWhitespace c = false

/-- A location that can be written as a path. -/
structure Writable (loc : List PathStep) : Prop where
  plain : ∀ s ∈ loc, PlainStep s
  last : ∀ k, loc.getLast? = some (.key k) → EndsVisible k.toList

theorem keySteps_of_ne_nil {key : List Char} (h : key ≠ []) :
    keySteps key = [.key (String.ofList key)] := by
  simp [keySteps, h]

/-- A key alone is a segment. -/
theorem Segment.key {R : List Char → Nat → Prop} {k : String}
    (h : PlainStep (.key k)) : Segment R k.toList [.key k] := by
  have hne : k.toList ≠ [] := by simpa using h.1
  have hseg : Segment R (k.toList ++ []) (keySteps k.toList ++ []) :=
    .mk h.2.2 .nil
  rwa [List.append_nil, List.append_nil, keySteps_of_ne_nil hne,
    String.ofList_toList] at hseg

/-- **What is written behind a segment is read after it.** -/
theorem mapM_readToken?_renderRest {rest : List PathStep}
    (hrest : ∀ s ∈ rest, PlainStep s) {token : List Char} {steps : List PathStep}
    (hdot : '.' ∉ token) (htoken : Segment WordIndex token steps) :
    ∃ stepss, ((token ++ renderRest rest).splitOn '.').mapM readToken? = some stepss ∧
      stepss.flatten = steps ++ rest := by
  induction rest generalizing token steps with
  | nil =>
      refine ⟨[steps], ?_, rfl⟩
      rw [renderRest, List.append_nil, List.splitOn_eq_singleton hdot]
      simp [readToken?_eq_some_iff.mpr htoken]
  | cons s rest ih =>
      obtain ⟨hs, htail⟩ := List.forall_mem_cons.mp hrest
      cases s with
      | key k =>
          obtain ⟨stepss, hread, hflat⟩ := ih htail hs.2.1 (.key hs)
          refine ⟨steps :: stepss, ?_, by simp [hflat]⟩
          rw [renderRest, List.splitOn_append_cons_self_of_not_mem hdot]
          simp [readToken?_eq_some_iff.mpr htoken, hread]
      | index i =>
          have hdecimal := Text.decimal_toDigits i
          have hindex : WordIndex (Nat.toDigits 10 i) i := ⟨hs, Or.inl hdecimal⟩
          have hdot' : '.' ∉ token ++ bracketed (Nat.toDigits 10 i) := by
            have hdigits : '.' ∉ Nat.toDigits 10 i := hdecimal.not_mem rfl
            simp [bracketed, hdot, hdigits]
          obtain ⟨stepss, hread, hflat⟩ := ih htail hdot'
            (htoken.index hindex (hdecimal.not_mem rfl))
          refine ⟨stepss, ?_, by simp [hflat]⟩
          rw [renderRest, ← List.append_assoc]
          exact hread

/-- **A written location is read as itself.** -/
theorem readPath?_render {loc : List PathStep} (h : ∀ s ∈ loc, PlainStep s) :
    readPath? (render loc) = some loc := by
  have hread : ∀ token rest steps, token ++ renderRest rest ≠ [] →
      (∀ s ∈ rest, PlainStep s) → '.' ∉ token → Segment WordIndex token steps →
      readPath? (token ++ renderRest rest) = some (steps ++ rest) := by
    intro token rest steps hne hrest hdot htoken
    obtain ⟨stepss, hmapM, hflat⟩ := mapM_readToken?_renderRest hrest hdot htoken
    simp only [readPath?, List.isEmpty_iff, hne, if_false, hmapM, Option.map_some,
      hflat]
  cases loc with
  | nil => rfl
  | cons s rest =>
      cases s with
      | key k =>
          obtain ⟨hk, hrest⟩ := List.forall_mem_cons.mp h
          have hne : k.toList ≠ [] := by simpa using hk.1
          exact hread _ rest [.key k] (by simp [hne]) hrest hk.2.1 (.key hk)
      | index i =>
          have hnil : Segment WordIndex ([] ++ []) (keySteps [] ++ []) :=
            .mk (by simp) .nil
          exact hread [] _ [] (by simp [renderRest, bracketed]) h (by simp) hnil

/-! ## Around the location -/

theorem endsVisible_append {front back : List Char} (hne : back ≠ [])
    (h : EndsVisible back) : EndsVisible (front ++ back) := by
  intro c hc
  rw [List.getLast?_append_of_ne_nil _ hne] at hc
  exact h c hc

theorem endsVisible_cons {c : Char} {s : List Char}
    (hc : Text.isWhitespace c = false) (h : EndsVisible s) : EndsVisible (c :: s) := by
  intro d hd
  rw [List.getLast?_cons] at hd
  cases hs : s.getLast? with
  | none =>
      rw [hs] at hd
      cases hd
      exact hc
  | some e =>
      rw [hs] at hd
      cases hd
      exact h _ hs

theorem endsVisible_bracketed (index : List Char) : EndsVisible (bracketed index) := by
  refine endsVisible_cons (by decide) (endsVisible_append (by simp) ?_)
  intro c hc
  cases hc
  decide

theorem endsVisible_renderRest {rest : List PathStep} {front : List Char}
    (hlast : ∀ k, rest.getLast? = some (.key k) → EndsVisible k.toList)
    (hfront : rest = [] → EndsVisible front) :
    EndsVisible (front ++ renderRest rest) := by
  induction rest generalizing front with
  | nil => simpa [renderRest] using hfront rfl
  | cons s rest ih =>
      have hlast' : ∀ k, rest.getLast? = some (.key k) → EndsVisible k.toList :=
        fun k hk => hlast k (List.mem_getLast?_cons hk)
      cases s with
      | key k =>
          have hshape : front ++ renderRest (.key k :: rest) =
              (front ++ '.' :: k.toList) ++ renderRest rest := by
            simp [renderRest]
          rw [hshape]
          refine ih hlast' fun hnil => endsVisible_append (by simp) ?_
          subst hnil
          exact endsVisible_cons (by decide) (hlast k rfl)
      | index i =>
          rw [renderRest, ← List.append_assoc]
          exact ih hlast' fun _ =>
            endsVisible_append (by simp [bracketed]) (endsVisible_bracketed _)

/-- A written location ends in its last step. -/
theorem endsVisible_render {loc : List PathStep} (h : Writable loc) {front : List Char}
    (hfront : loc = [] → EndsVisible front) : EndsVisible (front ++ render loc) := by
  cases loc with
  | nil => simpa [render, renderRest] using hfront rfl
  | cons s rest =>
      cases s with
      | index i => exact endsVisible_renderRest h.last hfront
      | key k =>
          have hne : k.toList ≠ [] := by
            simpa using (h.plain _ List.mem_cons_self).1
          rw [render, ← List.append_assoc]
          refine endsVisible_renderRest
            (fun k' hk => h.last k' (List.mem_getLast?_cons hk)) fun hnil =>
              endsVisible_append hne ?_
          subst hnil
          exact h.last k rfl

theorem stripPayload_prefixed (rest : List Char) :
    stripPayload ("payload.".toList ++ rest) = rest := by
  rw [stripPayload, Text.stripPrefix?_eq_some_iff.mpr rfl]

/-- The first key of a path is what precedes the first dot or bracket. -/
def firstKey (s : List Char) : List Char :=
  s.takeWhile fun c => c ≠ '.' ∧ c ≠ '['

theorem firstKey_render {k : String} (hk : PlainStep (.key k)) (rest : List PathStep) :
    firstKey (render (.key k :: rest)) = k.toList := by
  have hall : ∀ c ∈ k.toList, decide (c ≠ '.' ∧ c ≠ '[') = true := fun c hc =>
    decide_eq_true ⟨fun h => hk.2.1 (h ▸ hc), fun h => hk.2.2 (h ▸ hc)⟩
  rw [firstKey, render, List.takeWhile_append_of_pos hall]
  cases rest with
  | nil => simp [renderRest]
  | cons s rest => cases s <;> simp [renderRest, bracketed]

/-- A written location begins as its first key does. -/
theorem head_render {loc : List PathStep} (h : Writable loc)
    (hfirst : ∀ k, loc.head? = some (.key k) →
      ∀ c, k.toList.head? = some c → Text.isWhitespace c = false) :
    ∀ c, (render loc).head? = some c → Text.isWhitespace c = false := by
  intro c hc
  cases loc with
  | nil => cases hc
  | cons s rest =>
      cases s with
      | index i =>
          cases hc
          decide
      | key k =>
          have hne : k.toList ≠ [] := by
            simpa using (h.plain _ List.mem_cons_self).1
          rw [render, List.head?_append_of_ne_nil _ hne] at hc
          exact hfirst k rfl c hc

/-- A location is not mistaken for one with the leading `payload`. -/
theorem stripPayload_render {loc : List PathStep} (h : Writable loc)
    (hfirst : ∀ k, loc.head? = some (.key k) → k ≠ "payload") :
    stripPayload (render loc) = render loc := by
  have hkey : firstKey (render loc) ≠ "payload".toList := by
    cases loc with
    | nil => decide
    | cons s rest =>
        cases s with
        | index i => simp [render, renderRest, bracketed, firstKey]
        | key k =>
            rw [firstKey_render (h.plain _ List.mem_cons_self)]
            exact fun heq => hfirst k rfl (String.toList_inj.mp heq)
  have hprefix : Text.stripPrefix? "payload.".toList (render loc) = none := by
    rw [Option.eq_none_iff_forall_ne_some]
    intro rest heq
    rw [Text.stripPrefix?_eq_some_iff] at heq
    exact hkey (by rw [heq]; rfl)
  have hlone : render loc ≠ "payload".toList := fun heq => hkey (by rw [heq]; rfl)
  rw [stripPayload, hprefix]
  simp only [hlone, if_false]

/-- A path is followed to its location once trimming and stripping leave it. -/
theorem select_of_rest {root : Json} {path : String} {loc : List PathStep}
    (h : ∀ s ∈ loc, PlainStep s)
    (hrest : stripPayload (Text.trim path.toList) = render loc) :
    select root path = root.walk loc := by
  rw [select_eq_walk, hrest, readPath?_render h]
  rfl

/-- **Every addressable value is reached.**  The value at a location that can be
written as a path is selected by the path behind `payload.`, and by the path
alone unless its first key is `payload` or begins with white space. -/
theorem select_render {root v : Json} {loc : List PathStep} (h : Writable loc)
    (hv : root.walk loc = some v) :
    select root ("payload." ++ String.ofList (render loc)) = some v ∧
      ((∀ k, loc.head? = some (.key k) → k ≠ "payload" ∧
          ∀ c, k.toList.head? = some c → Text.isWhitespace c = false) →
        select root (String.ofList (render loc)) = some v) := by
  constructor
  · have htext : ("payload." ++ String.ofList (render loc)).toList =
        "payload.".toList ++ render loc := by simp
    have htrim : Text.trim ("payload.".toList ++ render loc) =
        "payload.".toList ++ render loc := by
      refine Text.trim_eq_self ?_ (endsVisible_render h fun _ => ?_)
      · intro c hc
        cases hc
        decide
      · intro c hc
        cases hc
        decide
    rw [← hv]
    refine select_of_rest h.plain ?_
    rw [htext, htrim, stripPayload_prefixed]
  · intro hfirst
    have hends : EndsVisible ([] ++ render loc) :=
      endsVisible_render h fun _ c hc => nomatch hc
    have htrim : Text.trim (render loc) = render loc :=
      Text.trim_eq_self (head_render h fun k hk => (hfirst k hk).2) hends
    rw [← hv]
    refine select_of_rest h.plain ?_
    rw [String.toList_ofList, htrim]
    exact stripPayload_render h fun k hk => (hfirst k hk).1

/-- A member of an array in an array, below an odd key. -/
theorem select_render_nested :
    select (.obj [("a ]", .arr [.null, .arr [.bool false]])]) "payload.a ][1][0]" =
        some (.bool false) ∧
      select (.obj [("a ]", .arr [.null, .arr [.bool false]])]) "a ][1][0]" =
        some (.bool false) := by
  have hw : Writable [.key "a ]", .index 1, .index 0] := by
    refine ⟨?_, fun k hk => by cases hk⟩
    simp [PlainStep, usizeBits]
  have hv : (Json.obj [("a ]", .arr [.null, .arr [.bool false]])]).walk
      [.key "a ]", .index 1, .index 0] = some (.bool false) := rfl
  refine ⟨(select_render hw hv).1, (select_render hw hv).2 fun k hk => ?_⟩
  cases hk
  exact ⟨by decide, fun c hc => by cases hc; decide⟩

end RestToA2a.Policy.SelectPaths
