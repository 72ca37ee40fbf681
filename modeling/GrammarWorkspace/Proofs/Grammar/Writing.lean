import GrammarWorkspace.Proofs.Grammar.Recovery

/-!
# Grammars that are written

Statements are written each on a line of its own, with single blanks between the words. Whatever the texts
in quotes are, the same statements are read from what is written, in the same order.
-/
namespace GrammarWorkspace.Grammar

def nowhere : Span := .point .start

def Identifier.unplaced (id : Identifier) : Identifier := ⟨id.name, nowhere⟩

def Symbol.unplaced : Symbol → Symbol := .map Identifier.unplaced fun _ => nowhere

def Statement.unplaced : Statement → Statement := .map Identifier.unplaced fun _ => nowhere

def Tree.unplaced : Tree → Tree := .map Identifier.unplaced fun _ => nowhere

namespace Writing

inductive Quote where
  | single
  | double
  deriving DecidableEq, Repr

def Quote.char : Quote → Char
  | .single => '\''
  | .double => '"'

structure Quoted where
  value : String
  quote : Quote
  oneLine : '\n' ∉ value.toList

structure Name where
  text : String
  isName : IsName text.toList

inductive Item where
  | name (n : Name)
  | quoted (q : Quoted)
  | empty

structure Series (α : Type) where
  first : α
  others : List α

def Series.toList {α : Type} (s : Series α) : List α := s.first :: s.others

inductive Clause where
  | importing (path : Quoted)
  | production (name : Name) (alternatives : Series (Series Item))

/-- A clause on its line, with or without a blank before the semicolon. -/
structure Line where
  clause : Clause
  spaced : Bool

structure Word where
  kind : Kind
  text : List Char
  deriving DecidableEq, Repr

def bar : Word := ⟨.bar, ['|']⟩

def blank : Word := ⟨.blanks, [' ']⟩

def semicolon : Word := ⟨.semicolon, [';']⟩

def newline : Word := ⟨.newline, ['\n']⟩

def escaped (quote c : Char) : List Char :=
  if c = '\\' ∨ c = '\r' ∨ c = quote then ['\\', c] else [c]

def Quoted.inner (q : Quoted) : List Char := q.value.toList.flatMap (escaped q.quote.char)

def Quoted.word (q : Quoted) : Word := ⟨.string, q.quote.char :: (q.inner ++ [q.quote.char])⟩

def Name.word (n : Name) : Word := ⟨.identifier, n.text.toList⟩

def Item.word : Item → Word
  | .name n => n.word
  | .quoted q => q.word
  | .empty => ⟨.empty, "[empty]".toList⟩

def alternativeWords (a : Series Item) : List Word := a.toList.map Item.word

def Clause.words : Clause → List Word
  | .importing path => [⟨.directive, "@import".toList⟩, path.word]
  | .production name ⟨first, others⟩ => name.word :: ⟨.define, ":=".toList⟩ ::
      (alternativeWords first ++ others.flatMap fun a => bar :: alternativeWords a)

def Line.words (l : Line) : List Word := l.clause.words ++ [semicolon]

def Line.pieces (l : Line) : List Word :=
  l.clause.words.intersperse blank ++ if l.spaced then [blank, semicolon, newline] else [semicolon, newline]

def written (lines : List Line) : String := .ofList ((lines.flatMap Line.pieces).flatMap Word.text)

variable {w : Word} {words : List Word}

def Word.token (w : Word) : Token := ⟨w.kind, .ofList w.text, .point .start⟩

theorem spelled_tokens (words : List Word) : spelled (words.map Word.token) = words.flatMap Word.text := by
  simp [spelled, List.flatMap_map, Word.token]

def Separates (after : List Char) : Prop := ∃ c rest, after = c :: rest ∧ c ∈ [' ', ';']

structure Word.Lexical (w : Word) : Prop where
  begins : ∃ c rest, w.text = c :: rest ∧ c ≠ ' ' ∧ c ≠ '\t'
  fits : ∀ after, Separates after → firstToken (w.text ++ after) = (w.kind, w.text.length)
  significant : w.kind.isSignificant = true

theorem lexical_bar : bar.Lexical := ⟨⟨_, _, rfl, by decide, by decide⟩, fun _ _ => rfl, rfl⟩

theorem lexical_define : (⟨.define, ":=".toList⟩ : Word).Lexical :=
  ⟨⟨_, _, rfl, by decide, by decide⟩, fun _ _ => rfl, rfl⟩

theorem lexical_empty : (⟨.empty, "[empty]".toList⟩ : Word).Lexical :=
  ⟨⟨_, _, rfl, by decide, by decide⟩, fun _ _ => rfl, rfl⟩

theorem lexical_import : (⟨.directive, "@import".toList⟩ : Word).Lexical := by
  refine ⟨⟨_, _, rfl, by decide, by decide⟩, ?_, rfl⟩
  rintro _ ⟨c, rest, rfl, separator⟩
  simp only [List.mem_cons, List.not_mem_nil, or_false] at separator
  rcases separator with rfl | rfl
  · rfl
  · rfl

theorem firstToken_blank {c : Char} (space : c ≠ ' ') (tab : c ≠ '\t') (rest : List Char) :
    firstToken (' ' :: c :: rest) = (.blanks, 1) := by
  rw [firstToken_eq_iff (List.cons_ne_nil _ _)]
  constructor
  · simp [Kind.length?, runLength?, space, tab]
  · intro k hk
    cases k <;> first | rfl | exact absurd hk (by decide)

theorem lexical_name (n : Name) : n.word.Lexical := by
  obtain ⟨c, rest, text_eq, starts, -⟩ := n.isName.exists_cons
  obtain ⟨-, -, space, tab⟩ := not_separator_of_starts starts
  refine ⟨⟨c, rest, text_eq, space, tab⟩, ?_, rfl⟩
  rintro _ ⟨d, after, rfl, separator⟩
  refine (firstToken_identifier_iff n.isName.ne_nil).mpr ⟨n.isName, fun e he => ?_⟩
  cases he
  simp only [List.mem_cons, List.not_mem_nil, or_false] at separator
  rcases separator with rfl | rfl <;> rfl

theorem Quote.char_ne (q : Quote) : q.char ≠ '\\' ∧ q.char ≠ '\n' := by
  cases q <;> decide

theorem lengthToQuote_escaped (q : Quote) {value : List Char} (oneLine : '\n' ∉ value) (after : List Char) :
    lengthToQuote q.char (value.flatMap (escaped q.char) ++ q.char :: after) =
      some ((value.flatMap (escaped q.char)).length + 1) := by
  induction value with
  | nil => simp [lengthToQuote, q.char_ne]
  | cons c value ih =>
    rw [List.mem_cons, not_or] at oneLine
    obtain ⟨newline, oneLine⟩ := oneLine
    have onward := ih oneLine
    rw [List.flatMap_cons, List.append_assoc, escaped]
    split
    · simp [lengthToQuote, Ne.symm newline, onward]
    · rename_i plain
      simp only [not_or] at plain
      simp [lengthToQuote, Ne.symm newline, plain, onward]

theorem unescape_escaped (q : Quote) {value : List Char} (oneLine : '\n' ∉ value) :
    unescape (value.flatMap (escaped q.char)) = value := by
  induction value with
  | nil => rfl
  | cons c value ih =>
    rw [List.mem_cons, not_or] at oneLine
    obtain ⟨newline, oneLine⟩ := oneLine
    have onward := ih oneLine
    rw [List.flatMap_cons, escaped]
    split
    · simp [unescape, Ne.symm newline, onward]
    · rename_i plain
      simp only [not_or] at plain
      simp [unescape, plain, onward]

theorem unquote_quoted (q : Quoted) : unquote (.ofList q.word.text) = q.value := by
  simp [unquote, Quoted.word, Quoted.inner, unescape_escaped q.quote q.oneLine]

theorem firstToken_quoted (q : Quote) {text : List Char} {n : Nat} (closes : lengthToQuote q.char text = some n) :
    firstToken (q.char :: text) = (.string, 1 + n) := by
  have fits : Kind.string.length? (q.char :: text) = some (1 + n) := by
    have mapped : (lengthToQuote q.char text).map (1 + ·) = some (1 + n) := by rw [closes, Option.map_some]
    cases q with
    | single => exact mapped
    | double => exact mapped
  refine (firstToken_eq_iff (List.cons_ne_nil _ _)).mpr ⟨fits, fun k hk => ?_⟩
  cases q <;> cases k <;> first | rfl | exact absurd hk (by decide)

theorem lexical_quoted (q : Quoted) : q.word.Lexical := by
  refine ⟨⟨q.quote.char, _, rfl, ?_⟩, fun after _ => ?_, rfl⟩
  · cases q.quote <;> decide
  · have first := firstToken_quoted q.quote (lengthToQuote_escaped q.quote q.oneLine after)
    simp only [Quoted.word, Quoted.inner, List.cons_append, List.append_assoc, List.nil_append]
    rw [first]
    simp [Nat.add_comm]

theorem lexical_item (i : Item) : i.word.Lexical := by
  cases i with
  | name n => exact lexical_name n
  | quoted q => exact lexical_quoted q
  | empty => exact lexical_empty

theorem lexical_clause (c : Clause) : ∀ w ∈ c.words, w.Lexical := by
  cases c with
  | importing path => exact List.forall_mem_cons.mpr ⟨lexical_import, List.forall_mem_singleton.mpr (lexical_quoted path)⟩
  | production name alternatives =>
    have items (a : Series Item) : ∀ w ∈ alternativeWords a, w.Lexical := by
      intro w hw
      obtain ⟨i, -, rfl⟩ := List.mem_map.mp hw
      exact lexical_item i
    refine List.forall_mem_cons.mpr ⟨lexical_name name, List.forall_mem_cons.mpr ⟨lexical_define, ?_⟩⟩
    refine List.forall_mem_append.mpr ⟨items alternatives.first, List.forall_mem_flatMap.mpr fun a _ => ?_⟩
    exact List.forall_mem_cons.mpr ⟨lexical_bar, items a⟩

variable {tail : List Token}

theorem Word.Lexical.lexed (h : w.Lexical) (separates : Separates (spelled tail)) (lexed : Lexed tail) :
    Lexed (w.token :: tail) := by
  obtain ⟨c, rest, text_eq, -⟩ := h.begins
  refine ⟨?_, ?_, lexed⟩
  · rw [token, String.toList_ofList, text_eq]
    exact List.cons_ne_nil c rest
  · rw [token, String.toList_ofList]
    exact h.fits _ separates

theorem lexed_blank (ahead : ∃ c rest, spelled tail = c :: rest ∧ c ≠ ' ' ∧ c ≠ '\t') (lexed : Lexed tail) :
    Lexed (blank.token :: tail) := by
  obtain ⟨c, rest, tail_eq, space, tab⟩ := ahead
  refine ⟨List.cons_ne_nil ' ' [], ?_, lexed⟩
  rw [tail_eq]
  exact firstToken_blank space tab rest

theorem lexed_intersperse (lexical : ∀ w ∈ words, w.Lexical) (separates : Separates (spelled tail)) (lexed : Lexed tail) :
    Lexed ((words.intersperse blank).map Word.token ++ tail) := by
  induction words with
  | nil => exact lexed
  | cons w rest ih =>
    obtain ⟨here, there⟩ := List.forall_mem_cons.mp lexical
    cases rest with
    | nil => exact here.lexed separates lexed
    | cons w' rest =>
      obtain ⟨c, inner, text_eq, space, tab⟩ := (there w' List.mem_cons_self).begins
      have begins : ∃ more, (w' :: rest).intersperse blank = w' :: more := by
        cases rest with
        | nil => exact ⟨[], rfl⟩
        | cons w'' rest => exact ⟨_, rfl⟩
      obtain ⟨more, begins⟩ := begins
      have onward := ih there
      rw [begins] at onward
      refine here.lexed ⟨' ', _, rfl, List.mem_cons_self⟩ (lexed_blank ?_ ?_)
      · refine ⟨c, inner ++ spelled (more.map Word.token ++ tail), ?_, space, tab⟩
        rw [begins, List.map_cons, List.append_eq, List.cons_append, spelled_cons, Word.token, String.toList_ofList, text_eq]
        rfl
      · rw [begins]
        exact onward

theorem lexed_line (l : Line) (lexed : Lexed tail) : Lexed (l.pieces.map Word.token ++ tail) := by
  have closed : Lexed (semicolon.token :: newline.token :: tail) :=
    ⟨List.cons_ne_nil ';' [], rfl, List.cons_ne_nil '\n' [], rfl, lexed⟩
  rw [Line.pieces, List.map_append, List.append_assoc]
  cases l.spaced with
  | false => exact lexed_intersperse (lexical_clause l.clause) ⟨';', _, rfl, by decide⟩ closed
  | true =>
    refine lexed_intersperse (lexical_clause l.clause) ⟨' ', _, rfl, by decide⟩ (lexed_blank ?_ closed)
    exact ⟨';', _, rfl, by decide, by decide⟩

theorem lexed_written (lines : List Line) : Lexed ((lines.flatMap Line.pieces).map Word.token) := by
  induction lines with
  | nil => trivial
  | cons l lines ih =>
    rw [List.flatMap_cons, List.map_append]
    exact lexed_line l ih

variable {t : Token} {ts : List Token} {symbols : List Symbol}

def wordOf (t : Token) : Word := ⟨t.kind, t.text.toList⟩

theorem wordOf_token (w : Word) : wordOf w.token = w := by
  rw [Word.token, wordOf, String.toList_ofList]

theorem map_wordOf_placed (here : Location) (ts : List Token) : (placed here ts).map wordOf = ts.map wordOf := by
  induction ts generalizing here with
  | nil => rfl
  | cons t ts ih => rw [placed, List.map_cons, ih, List.map_cons]; rfl

theorem filter_pieces (l : Line) : l.pieces.filter (·.kind.isSignificant) = l.words := by
  have kept : ∀ words : List Word, (∀ w ∈ words, w.Lexical) →
      (words.intersperse blank).filter (·.kind.isSignificant) = words := by
    intro words lexical
    induction words with
    | nil => rfl
    | cons w rest ih =>
      obtain ⟨here, there⟩ := List.forall_mem_cons.mp lexical
      cases rest with
      | nil => exact List.filter_cons_of_pos here.significant
      | cons w' rest =>
        have apart : blank.kind.isSignificant = false := rfl
        simp only [List.intersperse_cons_cons, List.filter_cons, here.significant, apart, if_true, ih there]
        rfl
  rw [Line.pieces, List.filter_append, kept _ (lexical_clause l.clause), Line.words]
  cases l.spaced <;> rfl

theorem map_wordOf_tokens (lines : List Line) :
    (tokens (written lines).toList).map wordOf = lines.flatMap Line.words := by
  have read := tokensFrom_spelled (lexed_written lines) .start
  have words : ((lines.flatMap Line.pieces).map Word.token).map wordOf = lines.flatMap Line.pieces := by
    rw [List.map_map]
    exact List.map_id'' wordOf_token _
  have significant : (fun t : Token => t.kind.isSignificant) = (fun w : Word => w.kind.isSignificant) ∘ wordOf := rfl
  rw [tokens, written, String.toList_ofList, ← spelled_tokens, read, significant, ← List.filter_map, map_wordOf_placed,
    words, List.filter_flatMap]
  exact List.flatMap_congr fun l _ => filter_pieces l

def Item.symbol : Item → Symbol
  | .name n => .identifier ⟨n.text, nowhere⟩
  | .quoted q => .terminal q.value nowhere
  | .empty => .empty nowhere

def Clause.statement : Clause → Statement
  | .importing path => .importing ⟨path.value, nowhere⟩
  | .production name ⟨first, others⟩ =>
    .production ⟨⟨name.text, nowhere⟩, (first :: others).map fun a => a.toList.map Item.symbol, nowhere⟩

theorem of_wordOf (h : wordOf t = w) : t.kind = w.kind ∧ t.text = .ofList w.text := by
  rw [← h]
  exact ⟨rfl, String.ofList_toList.symm⟩

theorem derives_item {i : Item} (h : wordOf t = i.word) : ∃ s, DerivesSymbol t s ∧ s.unplaced = i.symbol := by
  obtain ⟨kind, text⟩ := of_wordOf h
  cases i with
  | name n =>
    refine ⟨_, .identifier kind, ?_⟩
    rw [text, Item.word, Name.word, String.ofList_toList]
    rfl
  | quoted q =>
    refine ⟨_, .terminal kind, ?_⟩
    rw [text, Item.word, unquote_quoted]
    rfl
  | empty => exact ⟨_, .empty kind, rfl⟩

theorem derives_alternative {a : Series Item} (h : ts.map wordOf = alternativeWords a) :
    ∃ symbols, DerivesAlternative ts symbols ∧ symbols.map Symbol.unplaced = a.toList.map Item.symbol := by
  have items : ∀ (all : List Item) (ts : List Token), ts.map wordOf = all.map Item.word →
      ∃ symbols, List.Forall₂ DerivesSymbol ts symbols ∧ symbols.map Symbol.unplaced = all.map Item.symbol := by
    intro all
    induction all with
    | nil =>
      intro ts h
      rw [List.map_eq_nil_iff.mp h]
      exact ⟨[], .nil, rfl⟩
    | cons i all ih =>
      intro ts h
      obtain ⟨t, ts, rfl, here, there⟩ := List.map_eq_cons_iff.mp h
      obtain ⟨s, derived, s_eq⟩ := derives_item here
      obtain ⟨symbols, others, symbols_eq⟩ := ih ts there
      exact ⟨s :: symbols, .cons derived others, by rw [List.map_cons, List.map_cons, s_eq, symbols_eq]⟩
  obtain ⟨symbols, derived, symbols_eq⟩ := items a.toList ts h
  refine ⟨symbols, Parser.derivesAlternative_iff.mpr ⟨?_, derived⟩, symbols_eq⟩
  rintro rfl
  cases symbols_eq

theorem derives_alternatives {first : Series Item} {others : List (Series Item)}
    (h : ts.map wordOf = alternativeWords first ++ others.flatMap fun a => bar :: alternativeWords a) :
    ∃ all, DerivesAlternatives ts all ∧
      all.map (·.map Symbol.unplaced) = (first :: others).map fun a => a.toList.map Item.symbol := by
  induction others generalizing first ts with
  | nil =>
    rw [List.flatMap_nil, List.append_nil] at h
    obtain ⟨symbols, derived, symbols_eq⟩ := derives_alternative h
    exact ⟨[symbols], .last derived, by rw [List.map_singleton, List.map_singleton, symbols_eq]⟩
  | cons a others ih =>
    obtain ⟨used, more, rfl, here, there⟩ := List.map_eq_append_iff.mp h
    obtain ⟨separator, more, rfl, between, there⟩ := List.map_eq_cons_iff.mp there
    obtain ⟨symbols, derived, symbols_eq⟩ := derives_alternative here
    obtain ⟨all, derived_all, all_eq⟩ := ih there
    refine ⟨symbols :: all, .bar derived (of_wordOf between).1 derived_all, ?_⟩
    rw [List.map_cons, symbols_eq, all_eq]
    rfl

theorem derives_clause {c : Clause} (h : ts.map wordOf = c.words ++ [semicolon]) :
    ∃ s, DerivesStatement ts s ∧ s.unplaced = c.statement := by
  obtain ⟨ts, closing, rfl, here, closed⟩ := List.map_eq_append_iff.mp h
  obtain ⟨last, rfl, last_eq⟩ := List.map_eq_singleton_iff.mp closed
  have last_kind := (of_wordOf last_eq).1
  cases c with
  | importing path =>
    obtain ⟨directive, rest, rfl, directive_eq, there⟩ := List.map_eq_cons_iff.mp here
    obtain ⟨string, rfl, string_eq⟩ := List.map_eq_singleton_iff.mp there
    obtain ⟨directive_kind, directive_text⟩ := of_wordOf directive_eq
    obtain ⟨string_kind, string_text⟩ := of_wordOf string_eq
    refine ⟨_, .importingClosed directive_kind directive_text string_kind last_kind, ?_⟩
    rw [string_text, unquote_quoted]
    rfl
  | production name alternatives =>
    obtain ⟨head, rest, rfl, head_eq, there⟩ := List.map_eq_cons_iff.mp here
    obtain ⟨define, rest, rfl, define_eq, there⟩ := List.map_eq_cons_iff.mp there
    obtain ⟨head_kind, head_text⟩ := of_wordOf head_eq
    obtain ⟨all, derived, all_eq⟩ := derives_alternatives there
    refine ⟨_, .production head_kind (of_wordOf define_eq).1 derived last_kind, ?_⟩
    change Statement.production ⟨⟨head.text, nowhere⟩, all.map (·.map Symbol.unplaced), nowhere⟩ = _
    rw [head_text, all_eq, Name.word, String.ofList_toList]
    rfl

theorem derives_lines {lines : List Line} (h : ts.map wordOf = lines.flatMap Line.words) :
    ∃ all, DerivesFile ts all ∧ all.map Statement.unplaced = lines.map (·.clause.statement) := by
  induction lines generalizing ts with
  | nil =>
    rw [List.map_eq_nil_iff.mp h]
    exact ⟨[], .nil, rfl⟩
  | cons l lines ih =>
    obtain ⟨used, rest, rfl, here, there⟩ := List.map_eq_append_iff.mp h
    obtain ⟨s, derived, s_eq⟩ := derives_clause here
    obtain ⟨all, others, all_eq⟩ := ih there
    exact ⟨s :: all, .cons derived others, by rw [List.map_cons, List.map_cons, s_eq, all_eq]⟩

theorem unplaced_statements (all : List Statement) :
    Tree.unplaced ⟨all.filterMap Statement.import?, all.filterMap Statement.production?, []⟩ =
      ⟨(all.map Statement.unplaced).filterMap Statement.import?,
        (all.map Statement.unplaced).filterMap Statement.production?, []⟩ := by
  rw [Tree.unplaced, Tree.map, List.filterMap_map, List.filterMap_map, List.map_filterMap, List.map_filterMap,
    Tree.mk.injEq]
  refine ⟨?_, ?_, rfl⟩
  · exact List.filterMap_congr fun s _ => by cases s <;> rfl
  · exact List.filterMap_congr fun s _ => by cases s <;> rfl

/-- The statements that were written are read, and nothing goes wrong. -/
theorem parse_written (lines : List Line) : (parse (written lines)).unplaced =
    ⟨(lines.map (·.clause.statement)).filterMap Statement.import?,
      (lines.map (·.clause.statement)).filterMap Statement.production?, []⟩ := by
  obtain ⟨all, derived, all_eq⟩ := derives_lines (map_wordOf_tokens lines)
  rw [parse, Parser.outcomes_of_derivesFile derived, ofOutcomes_map_ok, unplaced_statements, all_eq]

example : written [
      ⟨.importing ⟨"a'b\\", .single, by decide⟩, false⟩,
      ⟨.production ⟨"x", by decide⟩ ⟨⟨.quoted ⟨"//\"'", .double, by decide⟩, [.name ⟨"y", by decide⟩]⟩, [⟨.empty, []⟩]⟩, true⟩] =
    "@import 'a\\'b\\\\';\nx := \"//\\\"'\" y | [empty] ;\n" := by decide

end Writing
end GrammarWorkspace.Grammar
