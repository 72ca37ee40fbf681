import GrammarWorkspace.Proofs.Grammar.Recovery

/-!
# Carriage returns before line feeds

A text may come with a carriage return before each line feed. It is read in the same way: lines and columns
are the same, and only the characters before a place are more. But a token that takes all that is left of a
line takes the carriage return as well, and no other does.
-/
namespace GrammarWorkspace

namespace Location

def flat (l : Location) : Location := ⟨0, l.line, l.column⟩

theorem flat_eq_iff {l l' : Location} : l.flat = l'.flat ↔ l.line = l'.line ∧ l.column = l'.column := by
  simp [flat]

theorem flat_next {l l' : Location} (h : l.flat = l'.flat) (c : Char) : (l.next c).flat = (l'.next c).flat := by
  obtain ⟨line_eq, column_eq⟩ := flat_eq_iff.mp h
  unfold next
  split <;> simp [flat, line_eq, column_eq]

theorem flat_advance {l l' : Location} (h : l.flat = l'.flat) (text : List Char) :
    (l.advance text).flat = (l'.advance text).flat := by
  induction text generalizing l l' with
  | nil => exact h
  | cons c rest ih => exact ih (flat_next h c)

theorem flat_newline {l l' : Location} (line_eq : l.line = l'.line) : (l.next '\n').flat = (l'.next '\n').flat := by
  simp [next, flat, line_eq]

end Location

namespace Grammar

def returned (text : List Char) : List Char := text.flatMap fun c => if c = '\n' then ['\r', '\n'] else [c]

theorem returned_of_not_mem {line : List Char} (h : '\n' ∉ line) (rest : List Char) :
    returned (line ++ rest) = line ++ returned rest := by
  induction line with
  | nil => rfl
  | cons c line ih =>
    rw [List.mem_cons, not_or] at h
    have onward := ih h.2
    simp only [returned, List.cons_append, List.flatMap_cons, if_neg (Ne.symm h.1)] at onward ⊢
    rw [onward]
    rfl

inductive LineEnd : List Char → Prop
  | newline (rest) : LineEnd ('\n' :: rest)
  | returned (rest) : LineEnd ('\r' :: '\n' :: rest)

variable {line after : List Char}

theorem LineEnd.stops (h : LineEnd after) {p : Char → Bool} (newline : p '\n' = false) (carriage : p '\r' = false) :
    Stops p after := by
  cases h with
  | newline =>
    rintro _ ⟨⟩
    exact newline
  | returned =>
    rintro _ ⟨⟩
    exact carriage

theorem takeWhile_append_of_stop {p : Char → Bool} (stops : Stops p after) (line : List Char) :
    (line ++ after).takeWhile p = line.takeWhile p := by
  induction line with
  | nil => exact takeWhile_append_of_stops (by simp) stops
  | cons c line ih =>
    rw [List.cons_append, List.takeWhile_cons, List.takeWhile_cons, ih]

theorem runLength?_append {first next : Char → Bool} (begins : Stops first after) (stops : Stops next after)
    (line : List Char) : runLength? first next (line ++ after) = runLength? first next line := by
  cases line with
  | nil =>
    rw [List.nil_append, runLength?_eq_none_iff.mpr begins]
    rfl
  | cons c line => rw [List.cons_append, runLength?, runLength?, takeWhile_append_of_stop stops]

theorem wordLength?_append {word : List Char} (h : LineEnd after) (newline : '\n' ∉ word) (carriage : '\r' ∉ word)
    (line : List Char) : wordLength? word (line ++ after) = wordLength? word line := by
  have same : word.isPrefixOf (line ++ after) = word.isPrefixOf line := by
    rw [Bool.eq_iff_iff]
    constructor
    · cases h with
      | newline => exact isPrefixOf_of_not_mem newline
      | returned => exact isPrefixOf_of_not_mem carriage
    · intro begins
      exact List.isPrefixOf_iff_prefix.mpr ((List.isPrefixOf_iff_prefix.mp begins).trans (List.prefix_append line after))
  rw [wordLength?, wordLength?, same]

theorem closesAlike_lineEnd {q : Char} (hq : q ∈ ['\'', '"']) (h : LineEnd after) (line : List Char) :
    ClosesAlike q line (line ++ after) := by
  cases h with
  | newline rest => exact closesAlike_newline hq line rest
  | returned rest =>
    obtain ⟨newline, carriage, backslash⟩ := plain_of_quote hq
    refine closesAlike_append backslash ?_ ?_ line
    · simp [lengthToQuote, carriage.symm]
    · simp [lengthToQuote, newline.symm]

theorem lengthToQuote_append {q : Char} (hq : q ∈ ['\'', '"']) (h : LineEnd after) (line : List Char) :
    lengthToQuote q (line ++ after) = lengthToQuote q line := by
  cases closed : lengthToQuote q line with
  | none => exact (closesAlike_lineEnd hq h line).1.mp closed
  | some n =>
    have same := lengthToQuote_take (plain_of_quote hq).2.2 closed (line.drop n ++ after)
    rwa [← List.append_assoc, List.take_append_drop] at same

/-- What a token takes of a line does not depend on the end of the line, if it may not take that too. -/
theorem Kind.length?_lineEnd {kind : Kind} (h : LineEnd after) (newline : kind ≠ .newline) (invalid : kind ≠ .invalid)
    (line : List Char) : kind.length? (line ++ after) = kind.length? line := by
  have runs {first next : Char → Bool} (line : List Char) (a : first '\n' = false) (b : first '\r' = false)
      (c : next '\n' = false) (d : next '\r' = false) : runLength? first next (line ++ after) = runLength? first next line :=
    runLength?_append (h.stops a b) (h.stops c d) line
  have closes (line : List Char) {q : Char} (hq : q ∈ ['\'', '"']) :
      (lengthToQuote q (line ++ after)).map (1 + ·) = (lengthToQuote q line).map (1 + ·) := by
    rw [lengthToQuote_append hq h]
  cases kind with
  | comment =>
    match line with
    | [] => cases h <;> rfl
    | c :: line =>
      have head_iff : (line ++ after).head? = some '/' ↔ line.head? = some '/' := by
        cases line with
        | nil => cases h <;> simp
        | cons d line => exact Iff.rfl
      by_cases slashes : c = '/' ∧ line.head? = some '/'
      · obtain ⟨line, rfl⟩ := List.head?_eq_some_iff.mp slashes.2
        rw [slashes.1, List.cons_append, List.cons_append, Kind.length?_comment, Kind.length?_comment,
          takeWhile_append_of_stop (h.stops (by decide) (by decide))]
      · rw [List.cons_append, Kind.length?_comment_eq_none_iff.mpr slashes,
          Kind.length?_comment_eq_none_iff.mpr (by rwa [head_iff])]
  | directive =>
    match line with
    | [] => cases h <;> rfl
    | c :: line =>
      by_cases hc : c = '@'
      · subst hc
        rw [List.cons_append, Kind.length?_directive, Kind.length?_directive,
          runs line (by decide) (by decide) (by decide) (by decide)]
      · simp [Kind.length?, hc]
  | string =>
    match line with
    | [] => cases h <;> rfl
    | c :: line =>
      by_cases hs : c = '\''
      · subst hs
        exact closes line (by decide)
      · by_cases hd : c = '"'
        · subst hd
          exact closes line (by decide)
        · simp [Kind.length?, hs, hd]
  | define | empty | bar | semicolon => exact wordLength?_append h (by decide) (by decide) line
  | identifier | unknown | blanks => exact runs line (by decide) (by decide) (by decide) (by decide)
  | newline => exact absurd rfl newline
  | invalid => exact absurd rfl invalid

theorem Kind.length?_newline_append {line : List Char} (hne : line ≠ []) (newline : '\n' ∉ line) (carriage : '\r' ∉ line)
    (after : List Char) : Kind.newline.length? (line ++ after) = none := by
  obtain ⟨c, line, rfl⟩ := List.exists_cons_of_ne_nil hne
  refine Kind.length?_newline_eq_none_iff.mpr ⟨?_, fun both => ?_⟩
  · rintro rfl
    exact newline List.mem_cons_self
  · exact carriage (both.1 ▸ List.mem_cons_self)

theorem Kind.length?_invalid_append {line : List Char} (hne : line ≠ []) (newline : '\n' ∉ line) {after : List Char}
    (stops : Stops (fun c => c ≠ '\n') after) : Kind.invalid.length? (line ++ after) = some line.length := by
  have inside : ∀ c ∈ line, decide (c ≠ '\n') = true := by
    intro c hc
    rw [decide_eq_true_eq]
    rintro rfl
    exact newline hc
  obtain ⟨c, line, rfl⟩ := List.exists_cons_of_ne_nil hne
  obtain ⟨here, there⟩ := List.forall_mem_cons.mp inside
  rw [List.cons_append, Kind.length?, runLength?, if_pos here, takeWhile_append_of_stops there stops, List.length_cons,
    Nat.add_comm]

/-- A token of a line is there whatever the end of the line, unless it takes all that is left of it. -/
theorem firstToken_lineEnd (h : LineEnd after) (hne : line ≠ []) (newline : '\n' ∉ line) (carriage : '\r' ∉ line)
    {kind : Kind} {n : Nat} (first : firstToken line = (kind, n)) :
    (∀ k ∈ kind.before, k.length? (line ++ after) = none) ∧
      (kind ≠ .invalid → firstToken (line ++ after) = (kind, n)) := by
  obtain ⟨fits, earlier⟩ := (firstToken_eq_iff hne).mp first
  have full : line ++ after ≠ [] := List.append_ne_nil_of_left_ne_nil hne after
  have before : ∀ k ∈ kind.before, k.length? (line ++ after) = none := by
    intro k hk
    by_cases new : k = .newline
    · rw [new]
      exact Kind.length?_newline_append hne newline carriage after
    · have valid : k ≠ .invalid := by
        rintro rfl
        revert hk
        cases kind <;> decide
      rw [Kind.length?_lineEnd h new valid]
      exact earlier k hk
  refine ⟨before, fun valid => (firstToken_eq_iff full).mpr ⟨?_, before⟩⟩
  have new : kind ≠ .newline := by
    rintro rfl
    have none := Kind.length?_newline_append hne newline carriage []
    rw [List.append_nil, fits] at none
    cases none
  rw [Kind.length?_lineEnd h new valid, fits]

/-- A token that takes all that is left of a line takes the carriage return as well. -/
theorem firstToken_invalid (hne : line ≠ []) (newline : '\n' ∉ line) (carriage : '\r' ∉ line) {n : Nat}
    (first : firstToken line = (.invalid, n)) (rest : List Char) :
    firstToken (line ++ '\n' :: rest) = (.invalid, line.length) ∧
      firstToken (line ++ '\r' :: '\n' :: rest) = (.invalid, (line ++ ['\r']).length) := by
  have stops : Stops (fun c => c ≠ '\n') ('\n' :: rest) := by
    rintro _ ⟨⟩
    rfl
  constructor
  · refine (firstToken_eq_iff (List.append_ne_nil_of_left_ne_nil hne _)).mpr ⟨?_, ?_⟩
    · exact Kind.length?_invalid_append hne newline stops
    · exact (firstToken_lineEnd (.newline rest) hne newline carriage first).1
  · refine (firstToken_eq_iff (List.append_ne_nil_of_left_ne_nil hne _)).mpr ⟨?_, ?_⟩
    · have longer : line ++ ['\r'] ≠ [] := List.append_ne_nil_of_left_ne_nil hne _
      have fits := Kind.length?_invalid_append longer (by simp [newline]) stops
      rwa [List.append_assoc] at fits
    · exact (firstToken_lineEnd (.returned rest) hne newline carriage first).1

theorem exists_line (text : List Char) : ∃ line tail, text = line ++ tail ∧ '\n' ∉ line ∧
    (tail = [] ∨ ∃ rest, tail = '\n' :: rest) := by
  induction text with
  | nil => exact ⟨[], [], rfl, List.not_mem_nil, Or.inl rfl⟩
  | cons c text ih =>
    by_cases hc : c = '\n'
    · exact ⟨[], c :: text, rfl, List.not_mem_nil, Or.inr ⟨text, by rw [hc]⟩⟩
    · obtain ⟨line, tail, rfl, newline, ends⟩ := ih
      exact ⟨c :: line, tail, rfl, by simp [newline, Ne.symm hc], ends⟩

inductive Begins : List Char → Prop
  | newline (rest) : Begins ('\n' :: rest)
  | alike {kind lexeme rest} : lexeme ≠ [] → '\n' ∉ lexeme →
      firstToken (lexeme ++ rest) = (kind, lexeme.length) →
      firstToken (lexeme ++ returned rest) = (kind, lexeme.length) → Begins (lexeme ++ rest)
  | longer {line rest} : line ≠ [] → '\n' ∉ line →
      firstToken (line ++ '\n' :: rest) = (.invalid, line.length) →
      firstToken (line ++ '\r' :: '\n' :: returned rest) = (.invalid, (line ++ ['\r']).length) →
      Begins (line ++ '\n' :: rest)

theorem begins {text : List Char} (hne : text ≠ []) (plain : '\r' ∉ text) : Begins text := by
  obtain ⟨line, tail, rfl, newline, ends⟩ := exists_line text
  have carriage : '\r' ∉ line := fun hc => plain (List.mem_append_left tail hc)
  by_cases empty : line = []
  · subst empty
    obtain ⟨rest, rfl⟩ := ends.resolve_left hne
    exact .newline rest
  · obtain ⟨kind, n, first⟩ : ∃ kind n, firstToken line = (kind, n) := ⟨_, _, rfl⟩
    by_cases whole : kind = .invalid ∧ tail ≠ []
    · obtain ⟨rfl, some⟩ := whole
      obtain ⟨rest, rfl⟩ := ends.resolve_left some
      exact .longer empty newline (firstToken_invalid empty newline carriage first rest).1
        (firstToken_invalid empty newline carriage first (returned rest)).2
    · have firsts : firstToken (line ++ tail) = (kind, n) ∧ firstToken (line ++ returned tail) = (kind, n) := by
        rcases ends with rfl | ⟨rest, rfl⟩
        · simp [returned, first]
        · have valid : kind ≠ .invalid := fun invalid => whole ⟨invalid, List.cons_ne_nil _ _⟩
          exact ⟨(firstToken_lineEnd (.newline rest) empty newline carriage first).2 valid,
            (firstToken_lineEnd (.returned (returned rest)) empty newline carriage first).2 valid⟩
      have fits := ((firstToken_eq_iff empty).mp first).1
      obtain ⟨lexeme, more, rfl, rfl⟩ : ∃ lexeme more, line = lexeme ++ more ∧ lexeme.length = n :=
        ⟨line.take n, line.drop n, (List.take_append_drop n line).symm, List.length_take_of_le (Kind.length?_le fits)⟩
      have beyond : '\n' ∉ more := fun hc => newline (List.mem_append_right lexeme hc)
      rw [List.append_assoc, List.append_assoc, ← returned_of_not_mem beyond] at firsts
      rw [List.append_assoc]
      exact .alike (List.length_pos_iff.mp (Kind.length?_pos fits)) (fun hc => newline (List.mem_append_left more hc))
        firsts.1 firsts.2

/-- The same token at the same place. If it takes all that is left of a line, the other one takes the carriage
return as well. -/
structure Twin (t t' : Token) : Prop where
  kind_eq : t.kind = t'.kind
  start_eq : t.span.start.flat = t'.span.start.flat
  rest : t.text = t'.text ∧ t.span.stop.flat = t'.span.stop.flat ∨
    t.kind = .invalid ∧ t'.text = t.text ++ "\r" ∧ t'.span.stop.line = t.span.stop.line ∧
      t'.span.stop.column = t.span.stop.column + 1

def significant (tokens : List Token) : List Token := tokens.filter (·.kind.isSignificant)

theorem twins_cons {t t' : Token} {ts ts' : List Token} (first : Twin t t')
    (others : List.Forall₂ Twin (significant ts) (significant ts')) :
    List.Forall₂ Twin (significant (t :: ts)) (significant (t' :: ts')) := by
  unfold significant at others ⊢
  rw [List.filter_cons, List.filter_cons, first.kind_eq]
  split
  · exact .cons first others
  · exact others

theorem twin_invalid {here here' : Location} (flat_eq : here.flat = here'.flat) (line : List Char) :
    Twin ⟨.invalid, .ofList line, ⟨here, here.advance line⟩⟩
      ⟨.invalid, .ofList (line ++ ['\r']), ⟨here', here'.advance (line ++ ['\r'])⟩⟩ := by
  obtain ⟨line_eq, column_eq⟩ := Location.flat_eq_iff.mp (Location.flat_advance flat_eq line)
  refine ⟨rfl, flat_eq, Or.inr ⟨rfl, String.ofList_append, ?_, ?_⟩⟩
  · rw [Location.advance_append]
    exact line_eq.symm
  · rw [Location.advance_append]
    exact congrArg (· + 1) column_eq.symm

theorem significant_newline (here : Location) (rest : List Char) :
    significant (tokensFrom here ('\n' :: rest)) = significant (tokensFrom (here.next '\n') rest) := by
  have first : firstToken (['\n'] ++ rest) = (.newline, 1) := rfl
  rw [← List.singleton_append, tokensFrom_append here (List.cons_ne_nil _ _) first]
  rfl

theorem significant_returned (here : Location) (rest : List Char) :
    significant (tokensFrom here ('\r' :: '\n' :: rest)) =
      significant (tokensFrom ((here.next '\r').next '\n') rest) := by
  have pair : '\r' :: '\n' :: rest = ['\r', '\n'] ++ rest := rfl
  have first : firstToken (['\r', '\n'] ++ rest) = (.newline, 2) := rfl
  rw [pair, tokensFrom_append here (List.cons_ne_nil _ _) first]
  rfl

/-- The significant tokens of a text and of the same text with carriage returns. -/
theorem twins_tokensFrom (text : List Char) (plain : '\r' ∉ text) {here here' : Location}
    (flat_eq : here.flat = here'.flat) :
    List.Forall₂ Twin (significant (tokensFrom here text)) (significant (tokensFrom here' (returned text))) := by
  induction size : text.length using Nat.strongRecOn generalizing text here here' with
  | ind size' ih =>
    subst size
    by_cases hne : text = []
    · subst hne
      simp [tokensFrom, significant, returned]
    cases begins hne plain with
    | newline rest =>
      have returned_eq : returned ('\n' :: rest) = '\r' :: '\n' :: returned rest := rfl
      have line_eq : here.line = (here'.next '\r').line := (Location.flat_eq_iff.mp flat_eq).1
      rw [returned_eq, significant_newline, significant_returned]
      exact ih rest.length (by simp) rest (fun hc => plain (List.mem_cons_of_mem _ hc)) (Location.flat_newline line_eq) rfl
    | @alike kind lexeme rest some inside first first' =>
      have positive := List.length_pos_iff.mpr some
      have flat_eq' := Location.flat_advance flat_eq lexeme
      rw [returned_of_not_mem inside, tokensFrom_append here some first, tokensFrom_append here' some first']
      refine twins_cons ⟨rfl, flat_eq, Or.inl ⟨rfl, flat_eq'⟩⟩ ?_
      refine ih rest.length ?_ rest (fun hc => plain (List.mem_append_right lexeme hc)) flat_eq' rfl
      rw [List.length_append]
      omega
    | @longer line rest some inside first first' =>
      have returned_eq : returned (line ++ '\n' :: rest) = line ++ ['\r'] ++ '\n' :: returned rest := by
        rw [returned_of_not_mem inside, List.append_assoc]
        rfl
      have line_eq : (here.advance line).line = (here'.advance (line ++ ['\r'])).line := by
        rw [Location.advance_append]
        exact (Location.flat_eq_iff.mp (Location.flat_advance flat_eq line)).1
      rw [← List.singleton_append, ← List.append_assoc] at first'
      rw [returned_eq, tokensFrom_append here some first, tokensFrom_append here' (by simp) first']
      refine twins_cons (twin_invalid flat_eq line) ?_
      rw [significant_newline, significant_newline]
      refine ih rest.length ?_ rest ?_ (Location.flat_newline line_eq) rfl
      · rw [List.length_append, List.length_cons]
        omega
      · exact fun hc => plain (List.mem_append_right line (List.mem_cons_of_mem _ hc))

def View.flat : View := ⟨fun id => ⟨id.name, id.span.map Location.flat⟩, Location.flat⟩

/-- The same error, put down to the same place. Of a token that takes all that is left of a line, a carriage
return may be quoted as well. -/
structure SyntaxError.Agrees (text : List Char) (e e' : SyntaxError) : Prop where
  code_eq : (Problem.malformed e.cause).code = (Problem.malformed e'.cause).code
  start_eq : e.span.start.flat = e'.span.start.flat
  rest : e.cause = e'.cause ∧ e.span.stop.flat = e'.span.stop.flat ∨
    ∃ t ∈ tokens text, t.kind = .invalid ∧ e.span = t.span ∧
      (∃ kinds, e.cause = .expected kinds (some t.text) ∧ e'.cause = .expected kinds (some (t.text ++ "\r"))) ∧
      e'.span.stop.line = e.span.stop.line ∧ e'.span.stop.column = e.span.stop.column + 1

theorem Twin.same {t t' : Token} (h : Twin t t') (valid : t.kind ≠ .invalid) :
    t.text = t'.text ∧ t.span.map Location.flat = t'.span.map Location.flat := by
  obtain ⟨text_eq, stop_eq⟩ := h.rest.resolve_right fun longer => valid longer.1
  exact ⟨text_eq, congrArg₂ Span.mk h.start_eq stop_eq⟩

def returning (text : List Char) : Pairing where
  view := .flat
  view' := .flat
  token t t' := t ∈ tokens text ∧ Twin t t'
  error := SyntaxError.Agrees text
  kind_eq h := h.2.kind_eq
  text_eq h kind := by
    refine (h.2.same ?_).1
    rcases kind with kind | kind <;> rw [kind] <;> exact Kind.noConfusion
  span_eq h valid := (h.2.same valid).2
  name_eq h kind := by
    obtain ⟨text_eq, span_eq⟩ := h.2.same (by rw [kind]; exact Kind.noConfusion)
    exact congrArg₂ Identifier.mk text_eq span_eq
  refused {t t'} h kinds := by
    refine ⟨rfl, h.2.start_eq, ?_⟩
    rcases h.2.rest with ⟨text_eq, stop_eq⟩ | ⟨invalid, text_eq, stop_eq⟩
    · exact Or.inl ⟨by rw [text_eq], stop_eq⟩
    · exact Or.inr ⟨t, h.1, invalid, rfl, ⟨kinds, rfl, by rw [text_eq]⟩, stop_eq⟩
  unknown {t t'} h kind := by
    obtain ⟨text_eq, span_eq⟩ := h.2.same (by rw [kind]; exact Kind.noConfusion)
    exact ⟨rfl, h.2.start_eq, Or.inl ⟨by rw [text_eq], congrArg Span.stop span_eq⟩⟩

theorem flat_returned (text : List Char) {l l' : Location} (flat_eq : l.flat = l'.flat) :
    (l.advance text).flat = (l'.advance (returned text)).flat := by
  induction text generalizing l l' with
  | nil => exact flat_eq
  | cons c text ih =>
    by_cases hc : c = '\n'
    · have line_eq : l.line = (l'.next '\r').line := (Location.flat_eq_iff.mp flat_eq).1
      subst hc
      exact ih (Location.flat_newline line_eq)
    · have alone : '\n' ∉ [c] := by simp [Ne.symm hc]
      have returned_eq : returned (c :: text) = c :: returned text := returned_of_not_mem alone text
      rw [returned_eq]
      exact ih (Location.flat_next flat_eq c)

/-- The same statements and the same errors, on the same lines and in the same columns. -/
structure Tree.Agrees (text : List Char) (t t' : Tree) : Prop where
  imports_eq : t.imports.map View.flat.importing = t'.imports.map View.flat.importing
  productions_eq : t.productions.map View.flat.production = t'.productions.map View.flat.production
  errors : List.Forall₂ (SyntaxError.Agrees text) t.errors t'.errors

/-- With carriage returns before its line feeds, a text is read as it is without. -/
theorem parse_returned (text : String) (plain : '\r' ∉ text.toList) :
    (parse text).Agrees text.toList (parse (.ofList (returned text.toList))) := by
  have paired : (returning text.toList).Tokens (tokens text.toList) (tokens (returned text.toList)) :=
    (List.forall₂_and_left _ _).mpr ⟨fun _ ht => ht, twins_tokensFrom text.toList plain rfl⟩
  have stops : (returning text.toList).Stops (.ending text.toList) (.ending (returned text.toList)) := fun kinds =>
    ⟨rfl, flat_returned text.toList rfl, Or.inl ⟨rfl, flat_returned text.toList rfl⟩⟩
  have trees := Pairing.trees_ofOutcomes (Parser.outcomes_paired stops paired)
  simp only [parse, String.toList_ofList]
  exact ⟨trees.imports_eq, trees.productions_eq, trees.errors⟩

/-- A string that is not closed on its line, and a form feed that takes the rest of a line with it. -/
def broken : String := "x := 'a\\\n y;\nw := 'b' // c\n | w ;\nz := \x0cb;\n;@import \"d\"\n"

theorem parse_returned_broken : '\r' ∉ broken.toList ∧
    (parse broken).Agrees broken.toList (parse (.ofList (returned broken.toList))) ∧
    (parse broken).errors.map (·.cause.message) = [
      "Expected an identifier or a string or '[empty]' but found \"'\".",
      "Expected an identifier or a string or '[empty]' but found '\\x0cb;'."] ∧
    (parse (.ofList (returned broken.toList))).errors.map (·.cause.message) = [
      "Expected an identifier or a string or '[empty]' but found \"'\".",
      "Expected an identifier or a string or '[empty]' but found '\\x0cb;\\r'."] := by
  have plain : '\r' ∉ broken.toList := by decide
  exact ⟨plain, parse_returned broken plain, by decide +kernel⟩

end Grammar
end GrammarWorkspace
