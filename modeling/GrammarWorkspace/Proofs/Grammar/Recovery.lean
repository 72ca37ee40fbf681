import GrammarWorkspace.Proofs.Grammar.Revising

/-!
# Errors stay in their statement

A semicolon ends whatever is wrong before it. So the tokens up to a semicolon are read in the same way
whatever comes after them, and what comes after in the same way whatever is before. In a text a semicolon
at the end of a line does the same, since no token goes on over a line end.
-/
namespace GrammarWorkspace

namespace Location

/-- Further on by some code points and down by some lines, in the same column. -/
def down (positions lines : Nat) (l : Location) : Location := ⟨l.position + positions, l.line + lines, l.column⟩

theorem down_next (positions lines : Nat) (l : Location) (c : Char) :
    (l.down positions lines).next c = (l.next c).down positions lines := by
  unfold next down
  by_cases hc : c = '\n'
  · rw [if_pos hc, if_pos hc, Location.mk.injEq]
    dsimp only
    omega
  · rw [if_neg hc, if_neg hc, Location.mk.injEq]
    dsimp only
    omega

theorem down_advance (positions lines : Nat) (l : Location) (text : List Char) :
    (l.down positions lines).advance text = (l.advance text).down positions lines := by
  induction text generalizing l with
  | nil => rfl
  | cons c rest ih => rw [advance_cons, advance_cons, down_next, ih]

theorem line_advance (l : Location) (text : List Char) : (l.advance text).line = l.line + text.count '\n' := by
  induction text generalizing l with
  | nil => rfl
  | cons c rest ih =>
    rw [advance_cons, ih, next]
    by_cases hc : c = '\n'
    · rw [if_pos hc, hc, List.count_cons_self]
      dsimp only
      omega
    · rw [if_neg hc, List.count_cons_of_ne hc]

/-- After a text and a line end, everything is as at the start of a text, further down. -/
theorem advance_line (text : List Char) :
    start.advance (text ++ ['\n']) = start.down (text.length + 1) (text.count '\n' + 1) := by
  have lines := line_advance start text
  have positions := position_advance start text
  have origin : start.position = 0 ∧ start.line = 1 ∧ start.column = 1 := ⟨rfl, rfl, rfl⟩
  rw [advance_append, advance_cons, advance_nil, next, if_pos rfl, down, Location.mk.injEq]
  omega

end Location

namespace Grammar

theorem firstToken_semicolon (after : List Char) : firstToken (';' :: after) = (.semicolon, 1) := rfl

theorem text_of_semicolon {text : List Char} {n : Nat} (hne : text ≠ [])
    (h : firstToken text = (.semicolon, n)) : ∃ rest, text = ';' :: rest := by
  have fits := ((firstToken_eq_iff hne).mp h).1
  simp only [Kind.length?, wordLength?] at fits
  split at fits
  · obtain ⟨rest, rfl⟩ := List.isPrefixOf_iff_prefix.mp ‹_›
    exact ⟨rest, rfl⟩
  · cases fits

/-- What closes no quote, be it behind a backslash, makes no difference to where quotes are closed before it. -/
theorem closesAlike_append {q : Char} (backslash : q ≠ '\\') {after : List Char} (plain : lengthToQuote q after = none)
    (hidden : lengthToQuote q ('\\' :: after) = none) (a : List Char) : ClosesAlike q a (a ++ after) := by
  have alone : lengthToQuote q ['\\'] = none := by simp [lengthToQuote, backslash.symm]
  have base : ClosesAlike q [] after := ⟨iff_of_true rfl plain, iff_of_true alone hidden⟩
  have both := base.append a
  rwa [List.append_nil] at both

theorem plain_of_quote {q : Char} (hq : q ∈ ['\'', '"']) : q ≠ '\n' ∧ q ≠ '\r' ∧ q ≠ '\\' := by
  have plain : ∀ q ∈ ['\'', '"'], q ≠ '\n' ∧ q ≠ '\r' ∧ q ≠ '\\' :=
    List.forall_mem_cons.mpr ⟨by decide, List.forall_mem_singleton.mpr (by decide)⟩
  exact plain q hq

theorem closesAlike_newline {q : Char} (hq : q ∈ ['\'', '"']) (a b : List Char) :
    ClosesAlike q a (a ++ '\n' :: b) := by
  obtain ⟨newline, -, backslash⟩ := plain_of_quote hq
  refine closesAlike_append backslash ?_ ?_ a
  · simp [lengthToQuote, newline.symm]
  · simp [lengthToQuote]

theorem isPrefixOf_of_not_mem {word a b : List Char} {c : Char} (outside : c ∉ word)
    (h : word.isPrefixOf (a ++ c :: b) = true) : word.isPrefixOf a = true := by
  induction word generalizing a with
  | nil => rfl
  | cons d word ih =>
    obtain ⟨other, outside⟩ := not_or.mp (List.mem_cons.not.mp outside)
    cases a with
    | nil =>
      simp only [List.nil_append, List.isPrefixOf, Bool.and_eq_true, beq_iff_eq] at h
      exact absurd h.1.symm other
    | cons e a =>
      simp only [List.cons_append, List.isPrefixOf, Bool.and_eq_true] at h ⊢
      exact ⟨h.1, ih outside h.2⟩

/-- What comes after the end of the line does not matter to a token before the last one of the line. -/
theorem resembles_newline {a : List Char} (hne : a ≠ []) (parted : Bool) (b : List Char) :
    Resembles parted a (a ++ '\n' :: b) where
  head := Or.inl (List.head?_append_of_ne_nil a hne).symm
  quote q hq := (closesAlike_newline hq a b).1
  empty _ := isPrefixOf_of_not_mem (by decide)

def Closed (tokens : List Token) : Prop := tokens.getLast?.map Token.kind = some .semicolon

instance (tokens : List Token) : Decidable (Closed tokens) := inferInstanceAs (Decidable (_ = _))

theorem not_closed_nil : ¬ Closed [] := fun h => by cases h

theorem closed_singleton {t : Token} : Closed [t] ↔ t.kind = .semicolon := by simp [Closed]

theorem closed_cons {t : Token} {rest : List Token} (hne : rest ≠ []) : Closed (t :: rest) ↔ Closed rest := by
  obtain ⟨u, rest, rfl⟩ := List.exists_cons_of_ne_nil hne
  rw [Closed, Closed, List.getLast?_cons_cons]

theorem lexed_newline {tokens more : List Token} (closed : Closed tokens) (lexed : Lexed tokens)
    {newline : Token} (kind : newline.kind = .newline) (text : newline.text.toList = ['\n'])
    (lexed' : Lexed more) : Lexed (tokens ++ newline :: more) := by
  induction tokens with
  | nil => exact absurd closed not_closed_nil
  | cons t rest ih =>
    obtain ⟨hne, first, lexed⟩ := lexed
    by_cases hr : rest = []
    · subst hr
      rw [closed_singleton.mp closed] at first
      have alone : spelled [] = [] := rfl
      rw [alone, List.append_nil] at first
      obtain ⟨others, text_eq⟩ := text_of_semicolon hne first
      rw [text_eq, firstToken_semicolon] at first
      have length_eq : 1 = (';' :: others).length := congrArg Prod.snd first
      refine ⟨hne, ?_, by rw [text]; exact List.cons_ne_nil _ _, ?_, lexed'⟩
      · rw [text_eq, ← length_eq, closed_singleton.mp closed]
        rfl
      · rw [text, kind]
        rfl
    · have spelled_ne : spelled rest ≠ [] := by
        obtain ⟨u, others, rfl⟩ := List.exists_cons_of_ne_nil hr
        rw [spelled_cons]
        exact List.append_ne_nil_of_left_ne_nil lexed.1 _
      refine ⟨hne, ?_, ih ((closed_cons hr).mp closed) lexed⟩
      have spelled_eq : spelled (rest ++ newline :: more) = spelled rest ++ '\n' :: spelled more := by
        rw [spelled, List.flatMap_append, List.flatMap_cons, text]
        rfl
      change firstToken (t.text.toList ++ spelled (rest ++ newline :: more)) = _
      rw [spelled_eq]
      exact firstToken_resembles hne (resembles_newline spelled_ne _ _) first

theorem placed_append (here : Location) (tokens more : List Token) :
    placed here (tokens ++ more) = placed here tokens ++ placed (here.advance (spelled tokens)) more := by
  induction tokens generalizing here with
  | nil => rfl
  | cons t rest ih => rw [List.cons_append, placed, placed, ih, List.cons_append, spelled_cons, Location.advance_append]

/-- A text that ends with a semicolon, a line end, and another text are cut into tokens one after the
other. -/
theorem tokensFrom_newline {here : Location} {a : List Char} (closed : Closed (tokensFrom here a)) (b : List Char) :
    tokensFrom here (a ++ '\n' :: b) = tokensFrom here a ++
      ⟨.newline, "\n", ⟨here.advance a, here.advance (a ++ ['\n'])⟩⟩ ::
        tokensFrom (here.advance (a ++ ['\n'])) b := by
  let newline : Token := ⟨.newline, "\n", ⟨here.advance a, here.advance (a ++ ['\n'])⟩⟩
  have kind : newline.kind = .newline := rfl
  have text : newline.text.toList = ['\n'] := String.toList_ofList (l := ['\n'])
  have lexed := lexed_newline closed (lexed_tokensFrom here a) kind text
    (lexed_tokensFrom (here.advance (a ++ ['\n'])) b)
  have read := tokensFrom_spelled lexed here
  have spelled_eq : spelled (tokensFrom here a ++ newline :: tokensFrom (here.advance (a ++ ['\n'])) b) =
      a ++ '\n' :: b := by
    rw [spelled, List.flatMap_append, List.flatMap_cons, text]
    exact congrArg₂ _ (spelled_tokensFrom here a) (congrArg _ (spelled_tokensFrom _ b))
  rw [spelled_eq, placed_append, placed_tokensFrom, spelled_tokensFrom, placed, text, ← Location.advance_append,
    placed_tokensFrom] at read
  exact read

def downward (positions lines : Nat) : Revision := ⟨Location.down positions lines, [], ""⟩

variable {positions lines : Nat}

theorem downward_revise (t : Token) :
    (downward positions lines).revise t = ⟨t.kind, t.text, t.span.map (Location.down positions lines)⟩ := by
  simp [downward, Revision.revise, Revision.marks]

theorem downward_reviseIdentifier (id : Identifier) :
    (downward positions lines).reviseIdentifier id = ⟨id.name, id.span.map (Location.down positions lines)⟩ := by
  simp [downward, Revision.reviseIdentifier]

theorem placed_down (here : Location) (tokens : List Token) :
    placed (here.down positions lines) tokens = (placed here tokens).map (downward positions lines).revise := by
  induction tokens generalizing here with
  | nil => rfl
  | cons t rest ih =>
    rw [placed, placed, List.map_cons, Location.down_advance, ih, downward_revise]
    rfl

theorem tokensFrom_down (here : Location) (text : List Char) :
    tokensFrom (here.down positions lines) text = (tokensFrom here text).map (downward positions lines).revise := by
  have read := tokensFrom_spelled (lexed_tokensFrom here text) (here.down positions lines)
  rw [spelled_tokensFrom, placed_down, placed_tokensFrom] at read
  exact read

theorem filter_map_downward (tokens : List Token) :
    (tokens.map (downward positions lines).revise).filter (·.kind.isSignificant) =
      (tokens.filter (·.kind.isSignificant)).map (downward positions lines).revise :=
  List.filter_map

theorem tokens_newline {a : List Char} (closed : Closed (tokensFrom .start a)) (b : List Char) :
    tokens (a ++ '\n' :: b) = tokens a ++
      (tokens b).map (downward (a.length + 1) (a.count '\n' + 1)).revise := by
  rw [tokens, tokensFrom_newline closed, List.filter_append, Location.advance_line, tokensFrom_down,
    List.filter_cons_of_neg Bool.false_ne_true, filter_map_downward]
  rfl

theorem ending_newline (a b : List Char) : Location.ending (a ++ '\n' :: b) =
    (Location.ending b).down (a.length + 1) (a.count '\n' + 1) := by
  have line : a ++ '\n' :: b = (a ++ ['\n']) ++ b := by rw [List.append_assoc, List.singleton_append]
  rw [Location.ending, line, Location.advance_append, Location.advance_line, Location.down_advance]
  rfl

theorem Closed.filter {tokens : List Token} (closed : Closed tokens) :
    Closed (tokens.filter (·.kind.isSignificant)) := by
  obtain ⟨last, some, kind⟩ := Option.map_eq_some_iff.mp closed
  obtain ⟨init, rfl⟩ := List.getLast?_eq_some_iff.mp some
  have significant : last.kind.isSignificant = true := by
    rw [kind]
    rfl
  have kept : [last].filter (·.kind.isSignificant) = [last] := List.filter_cons_of_pos significant
  rw [List.filter_append, kept, Closed, List.getLast?_concat, Option.map_some, kind]

namespace Parser

variable {α β : Type} {stop stop' : Location} {tokens more : List Token}

/-- The second came of reading the tokens with more behind them. A semicolon is still to come after what
was read, unless `P` allows more; it is also still to come after an error. -/
def Continues (more : List Token) (P : List Token → Prop) :
    Except Failure (α × List Token) → Except Failure (α × List Token) → Prop
  | .ok (a, rest), after => after = .ok (a, rest ++ more) ∧ P rest
  | .error failure, after => after = .error ⟨failure.error, failure.rest ++ more⟩ ∧ Closed failure.rest

def Ended (rest : List Token) : Prop := rest = [] ∨ Closed rest

theorem Continues.bind {P Q : List Token → Prop} {before after : Except Failure (α × List Token)}
    {next next' : α × List Token → Except Failure (β × List Token)} (h : Continues more P before after)
    (hn : ∀ a rest, before = .ok (a, rest) → P rest → Continues more Q (next (a, rest)) (next' (a, rest ++ more))) :
    Continues more Q (before >>= next) (after >>= next') := by
  match before with
  | .ok (a, rest) =>
    obtain ⟨rfl, holds⟩ := h
    exact hn a rest rfl holds
  | .error failure =>
    obtain ⟨rfl, closed⟩ := h
    exact ⟨rfl, closed⟩

theorem Ended.of_cons {t : Token} {rest : List Token} (closed : Closed (t :: rest)) : Ended rest := by
  by_cases hr : rest = []
  · exact Or.inl hr
  · exact Or.inr ((closed_cons hr).mp closed)

theorem Closed.of_cons {t : Token} {rest : List Token} (closed : Closed (t :: rest))
    (other : t.kind ≠ .semicolon) : Closed rest := by
  refine (Ended.of_cons closed).resolve_left ?_
  rintro rfl
  exact other (closed_singleton.mp closed)

theorem continues_fail {P : List Token → Prop} (closed : Closed tokens) (kinds : List Kind) :
    Continues (α := α) more P (.error (fail stop kinds tokens)) (.error (fail stop' kinds (tokens ++ more))) := by
  cases tokens with
  | nil => exact absurd closed not_closed_nil
  | cons t rest => exact ⟨rfl, closed⟩

theorem continues_expect {kinds : List Kind} (others : .semicolon ∉ kinds) (closed : Closed tokens) :
    Continues more Closed (expect stop kinds tokens) (expect stop' kinds (tokens ++ more)) := by
  cases tokens with
  | nil => exact absurd closed not_closed_nil
  | cons t rest =>
    by_cases known : t.kind ∈ kinds
    · rw [expect_cons_of_mem known, List.cons_append, expect_cons_of_mem known]
      refine ⟨rfl, Closed.of_cons closed ?_⟩
      intro same
      rw [same] at known
      exact others known
    · rw [expect_cons_of_not_mem known, List.cons_append, expect_cons_of_not_mem known]
      exact continues_fail closed kinds

theorem continues_semicolon (stop stop' : Location) (closed : Closed tokens) (more : List Token) : Continues more Ended
    (expect stop [.semicolon] tokens) (expect stop' [.semicolon] (tokens ++ more)) := by
  cases tokens with
  | nil => exact absurd closed not_closed_nil
  | cons t rest =>
    by_cases known : t.kind ∈ [Kind.semicolon]
    · rw [expect_cons_of_mem known, List.cons_append, expect_cons_of_mem known]
      exact ⟨rfl, Ended.of_cons closed⟩
    · rw [expect_cons_of_not_mem known, List.cons_append, expect_cons_of_not_mem known]
      exact continues_fail closed _

theorem symbols_continue (closed : Closed tokens) (more : List Token) :
    symbols (tokens ++ more) = ((symbols tokens).1, (symbols tokens).2 ++ more) ∧ Closed (symbols tokens).2 := by
  induction tokens with
  | nil => exact absurd closed not_closed_nil
  | cons t rest ih =>
    rw [List.cons_append]
    cases ht : symbol? t with
    | none =>
      simp only [symbols, ht]
      exact ⟨rfl, closed⟩
    | some s =>
      have other : t.kind ≠ .semicolon := by
        intro kind
        simp [symbol?, kind] at ht
      obtain ⟨read, closed⟩ := ih (Closed.of_cons closed other)
      simp only [symbols, ht, read]
      exact ⟨trivial, closed⟩

theorem after?_continue (closed : Closed tokens) (kind : Kind) (more : List Token) :
    (after? kind (tokens ++ more)).map Subtype.val = (after? kind tokens).map (·.val ++ more) := by
  cases tokens with
  | nil => exact absurd closed not_closed_nil
  | cons t rest =>
    rw [List.cons_append, after?, after?]
    split <;> rfl

theorem bar_continue (closed : Closed tokens) {rest : List Token} {shorter}
    (h : after? .bar (symbols tokens).2 = some ⟨rest, shorter⟩) (more : List Token) :
    (after? .bar (symbols (tokens ++ more)).2).map Subtype.val = some (rest ++ more) ∧ Closed rest := by
  obtain ⟨read, closed⟩ := symbols_continue closed more
  obtain ⟨bar, kind, rest_eq⟩ := mem_after? h
  constructor
  · rw [read, after?_continue closed, h]
    rfl
  · rw [rest_eq] at closed
    exact Closed.of_cons closed (by rw [kind]; decide)

theorem continues_alternatives (closed : Closed tokens) :
    Continues more Closed (alternatives stop tokens) (alternatives stop' (tokens ++ more)) := by
  fun_induction alternatives stop tokens with
  | case1 tokens first h =>
    obtain ⟨read, left⟩ := symbols_continue closed more
    rw [alternatives_of_isEmpty (by rwa [read]), read]
    exact continues_fail left _
  | case2 tokens first hne h =>
    obtain ⟨read, left⟩ := symbols_continue closed more
    rw [alternatives_of_none (by rwa [read]), read]
    · exact ⟨rfl, left⟩
    · rw [read, after?_continue left, h]
      rfl
  | case3 tokens first hne rest shorter h failure hf ih =>
    obtain ⟨read, -⟩ := symbols_continue closed more
    obtain ⟨following, closed⟩ := bar_continue closed h more
    have ih := ih closed
    rw [hf] at ih
    obtain ⟨others, left⟩ := ih
    rw [alternatives_of_some (by rwa [read]) following, others]
    exact ⟨rfl, left⟩
  | case4 tokens first hne rest shorter h others rest' ho ih =>
    obtain ⟨read, -⟩ := symbols_continue closed more
    obtain ⟨following, closed⟩ := bar_continue closed h more
    have ih := ih closed
    rw [ho] at ih
    obtain ⟨others, left⟩ := ih
    rw [alternatives_of_some (by rwa [read]) following, others, read]
    exact ⟨rfl, left⟩

theorem continues_importAfter (directive : Token) (closed : Closed tokens) : Continues more Ended
    (importAfter stop directive tokens) (importAfter stop' directive (tokens ++ more)) := by
  unfold importAfter
  split
  · exact ⟨rfl, closed⟩
  · refine (continues_expect (by decide) closed).bind fun path rest _ closed => ?_
    have last := continues_semicolon stop stop' closed more
    dsimp only
    cases read : expect stop [.semicolon] rest with
    | ok r =>
      rw [read] at last
      rw [last.1]
      exact ⟨rfl, last.2⟩
    | error failure =>
      rw [read] at last
      rw [last.1]
      exact ⟨rfl, Or.inr closed⟩

theorem continues_productionAfter (name : Token) (closed : Closed tokens) : Continues more Ended
    (productionAfter stop name tokens) (productionAfter stop' name (tokens ++ more)) := by
  unfold productionAfter
  refine (continues_expect (by decide) closed).bind fun _ rest _ closed => ?_
  refine (continues_alternatives closed).bind fun all rest _ closed => ?_
  refine (continues_semicolon stop stop' closed more).bind fun last rest _ ended => ?_
  exact ⟨rfl, ended⟩

theorem continues_statement (stop stop' : Location) (closed : Closed tokens) (more : List Token) :
    Continues more Ended (statement stop tokens) (statement stop' (tokens ++ more)) := by
  unfold statement
  refine (continues_expect (by decide) closed).bind fun head rest _ closed => ?_
  dsimp only
  split
  · refine (continues_importAfter head closed).bind fun i rest _ ended => ?_
    exact ⟨rfl, ended⟩
  · refine (continues_productionAfter head closed).bind fun p rest _ ended => ?_
    exact ⟨rfl, ended⟩

theorem afterSemicolon_append (closed : Closed tokens) (more : List Token) :
    afterSemicolon (tokens ++ more) = afterSemicolon tokens ++ more ∧ Ended (afterSemicolon tokens) := by
  induction tokens with
  | nil => exact absurd closed not_closed_nil
  | cons t rest ih =>
    rw [List.cons_append, afterSemicolon_cons, afterSemicolon_cons]
    by_cases kind : t.kind = .semicolon
    · rw [if_pos kind, if_pos kind]
      exact ⟨rfl, Ended.of_cons closed⟩
    · rw [if_neg kind, if_neg kind]
      exact ih (Closed.of_cons closed kind)

theorem outcomes_append (stop stop' : Location) (ended : Ended tokens) (more : List Token) :
    outcomes stop' (tokens ++ more) = outcomes stop tokens ++ outcomes stop' more := by
  fun_induction outcomes stop tokens with
  | case1 => rfl
  | case2 t rest s rest' short h ih =>
    have closed : Closed (t :: rest) := ended.resolve_left (List.cons_ne_nil t rest)
    have read := continues_statement stop stop' closed more
    rw [show statement stop (t :: rest) = _ from congrArg Subtype.val h] at read
    have again : statement stop' (t :: (rest ++ more)) = .ok (s, rest' ++ more) := read.1
    rw [List.cons_append, outcomes_of_ok again, ih read.2, List.cons_append]
  | case3 t rest failure short h ih =>
    have closed : Closed (t :: rest) := ended.resolve_left (List.cons_ne_nil t rest)
    have read := continues_statement stop stop' closed more
    rw [show statement stop (t :: rest) = _ from congrArg Subtype.val h] at read
    obtain ⟨skipped, ended⟩ := afterSemicolon_append read.2 more
    have again : statement stop' (t :: (rest ++ more)) = .error ⟨failure.error, failure.rest ++ more⟩ := read.1
    rw [List.cons_append, outcomes_of_error again, skipped, ih ended, List.cons_append]

def upToSemicolon (tokens : List Token) : List Token :=
  tokens.takeWhile (·.kind ≠ .semicolon) ++ (tokens.dropWhile (·.kind ≠ .semicolon)).take 1

theorem upToSemicolon_append (tokens : List Token) : upToSemicolon tokens ++ afterSemicolon tokens = tokens := by
  rw [upToSemicolon, afterSemicolon, List.append_assoc, List.take_append_drop, List.takeWhile_append_dropWhile]

def stretches : List Token → List (List Token)
  | [] => []
  | t :: rest => upToSemicolon (t :: rest) :: stretches (afterSemicolon (t :: rest))
termination_by tokens => tokens.length
decreasing_by
  have skip := length_afterSemicolon (t :: rest)
  simp only [List.length_cons] at skip ⊢
  omega

theorem upToSemicolon_ended (tokens : List Token) :
    afterSemicolon tokens = [] ∨ Closed (upToSemicolon tokens) := by
  induction tokens with
  | nil => exact Or.inl rfl
  | cons t rest ih =>
    rw [afterSemicolon_cons]
    by_cases kind : t.kind = .semicolon
    · right
      simp [upToSemicolon, kind, closed_singleton]
    · rw [if_neg kind]
      have longer : upToSemicolon (t :: rest) = t :: upToSemicolon rest := by simp [upToSemicolon, kind]
      refine ih.imp_right fun closed => ?_
      have some : upToSemicolon rest ≠ [] := by
        intro none
        rw [none] at closed
        exact not_closed_nil closed
      rwa [longer, closed_cons some]

theorem outcomes_eq_flatMap (stop : Location) (tokens : List Token) :
    outcomes stop tokens = (stretches tokens).flatMap (outcomes stop) := by
  fun_induction stretches tokens with
  | case1 => simp [outcomes]
  | case2 t rest ih =>
    have parts := upToSemicolon_append (t :: rest)
    rw [List.flatMap_cons, ← ih]
    rcases upToSemicolon_ended (t :: rest) with last | closed
    · rw [last, List.append_nil] at parts
      simp [last, parts, outcomes]
    · conv_lhs => rw [← parts]
      exact outcomes_append stop stop (Or.inr closed) _

theorem flatten_stretches (tokens : List Token) : (stretches tokens).flatten = tokens := by
  fun_induction stretches tokens with
  | case1 => rfl
  | case2 t rest ih => rw [List.flatten_cons, ih, upToSemicolon_append]

theorem afterSemicolon_upToSemicolon (tokens : List Token) : afterSemicolon (upToSemicolon tokens) = [] := by
  induction tokens with
  | nil => rfl
  | cons t rest ih =>
    by_cases kind : t.kind = .semicolon
    · simp [upToSemicolon, afterSemicolon, kind]
    · have longer : upToSemicolon (t :: rest) = t :: upToSemicolon rest := by simp [upToSemicolon, kind]
      rw [longer, afterSemicolon_cons, if_neg kind, ih]

theorem afterSemicolon_of_append {used rest : List Token} (h : afterSemicolon (used ++ rest) = []) :
    afterSemicolon rest = [] := by
  induction used with
  | nil => exact h
  | cons t used ih =>
    rw [List.cons_append, afterSemicolon_cons] at h
    split at h
    · rw [(List.append_eq_nil_iff.mp h).2]
      rfl
    · exact ih h

theorem afterSemicolon_of_mem_stretches {stretch : List Token} (h : stretch ∈ stretches tokens) :
    afterSemicolon stretch = [] := by
  fun_induction stretches tokens with
  | case1 => cases h
  | case2 t rest ih =>
    rcases List.mem_cons.mp h with rfl | h
    · exact afterSemicolon_upToSemicolon _
    · exact ih h

/-- What follows an error up to the semicolon is skipped, so there is no second one. -/
theorem length_errors_le (stop : Location) (single : afterSemicolon tokens = []) :
    (Tree.ofOutcomes (outcomes stop tokens)).errors.length ≤ 1 := by
  fun_induction outcomes stop tokens with
  | case1 => exact Nat.zero_le 1
  | case2 t rest s rest' short h ih =>
    have read := reads_statement stop (t :: rest)
    rw [show statement stop (t :: rest) = _ from congrArg Subtype.val h] at read
    obtain ⟨used, tokens_eq, -⟩ := read
    rw [tokens_eq] at single
    exact ih (afterSemicolon_of_append single)
  | case3 t rest failure short h ih =>
    have read := reads_statement stop (t :: rest)
    rw [show statement stop (t :: rest) = _ from congrArg Subtype.val h] at read
    have refuses : Refuses stop (t :: rest) failure := read
    have skipped : afterSemicolon failure.rest = [] := by
      cases refuses with
      | passed used tokens_eq | met used tokens_eq =>
        rw [tokens_eq] at single
        exact afterSemicolon_of_append single
      | ended rest_eq =>
        rw [rest_eq]
        rfl
    rw [skipped, outcomes]
    exact Nat.le_refl 1

end Parser

namespace Tree

/-- What was read from one text, and what was read from another after it. -/
def append (t t' : Tree) : Tree :=
  ⟨t.imports ++ t'.imports, t.productions ++ t'.productions, t.errors ++ t'.errors⟩

def down (positions lines : Nat) (t : Tree) : Tree :=
  t.map (fun id => ⟨id.name, id.span.map (Location.down positions lines)⟩) (Span.map (Location.down positions lines))

theorem ofOutcomes_append (outcomes more : List (Except SyntaxError Statement)) :
    ofOutcomes (outcomes ++ more) = (ofOutcomes outcomes).append (ofOutcomes more) := by
  simp only [ofOutcomes, append, List.filterMap_append]

end Tree

theorem outcomes_down (stop : Location) (tokens : List Token) :
    Tree.ofOutcomes (Parser.outcomes (stop.down positions lines) (tokens.map (downward positions lines).revise)) =
      (Tree.ofOutcomes (Parser.outcomes stop tokens)).down positions lines := by
  have read : Parser.outcomes ((downward positions lines).move stop) (tokens.map (downward positions lines).revise) =
      (Parser.outcomes stop tokens).map (Parser.outcomeMap (downward positions lines)) :=
    Parser.outcomes_map_revise tokens fun _ _ => List.not_mem_nil
  have names : (downward positions lines).reviseIdentifier =
      fun id => ⟨id.name, id.span.map (Location.down positions lines)⟩ := funext downward_reviseIdentifier
  change Tree.ofOutcomes (Parser.outcomes ((downward positions lines).move stop) _) = _
  rw [read, ofOutcomes_map, names]
  rfl

/-- A text with a semicolon at its end and another text below it are read one after the other. In any
text, each stretch of tokens up to a semicolon is read for itself and has one error at most. -/
theorem parse_recovers :
    (∀ a b : String, Closed (tokensFrom .start a.toList) → parse (a ++ "\n" ++ b) =
      (parse a).append ((parse b).down (a.length + 1) (a.toList.count '\n' + 1))) ∧
    ∀ text : String, (Parser.stretches (tokens text.toList)).flatten = tokens text.toList ∧
      (parse text).errors = (Parser.stretches (tokens text.toList)).flatMap (fun stretch =>
        (Tree.ofOutcomes (Parser.outcomes (.ending text.toList) stretch)).errors) ∧
      ∀ stretch ∈ Parser.stretches (tokens text.toList),
        (Tree.ofOutcomes (Parser.outcomes (.ending text.toList) stretch)).errors.length ≤ 1 := by
  constructor
  · intro a b closed
    have text_eq : (a ++ "\n" ++ b).toList = a.toList ++ '\n' :: b.toList := by simp
    have ended : Parser.Ended (tokens a.toList) := Or.inr closed.filter
    rw [parse, text_eq, tokens_newline closed, ending_newline, Parser.outcomes_append (.ending a.toList) _ ended,
      Tree.ofOutcomes_append, outcomes_down, String.length_toList]
    rfl
  · intro text
    refine ⟨Parser.flatten_stretches _, ?_, fun stretch member => ?_⟩
    · rw [parse, Parser.outcomes_eq_flatMap]
      exact List.filterMap_flatMap
    · exact Parser.length_errors_le _ (Parser.afterSemicolon_of_mem_stretches member)

/-- Two lines with an error in each of them. -/
theorem parse_recovers_below : Closed (tokensFrom .start "x := := ; y := 'b';".toList) ∧
    parse ("x := := ; y := 'b';" ++ "\n" ++ "z 'c'") = (parse "x := := ; y := 'b';").append ((parse "z 'c'").down 20 1) := by
  have closed : Closed (tokensFrom .start "x := := ; y := 'b';".toList) := by decide +kernel
  exact ⟨closed, parse_recovers.1 "x := := ; y := 'b';" "z 'c'" closed⟩

end Grammar
end GrammarWorkspace
