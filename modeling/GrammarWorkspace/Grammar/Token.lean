import GrammarWorkspace.Text.Blank
import GrammarWorkspace.Text.Location

/-!
# Tokens of a grammar text

A grammar text is cut into tokens from left to right. The kinds are tried in a fixed order and the
first one that fits takes the token, as long as it can be. Every character belongs to exactly one
token, so no text is refused here.
-/
namespace GrammarWorkspace.Grammar

inductive Kind where
  | comment
  | directive
  | define
  | empty
  | identifier
  | string
  | bar
  | semicolon
  | unknown
  | newline
  | blanks
  | invalid
  deriving DecidableEq, Repr

structure Token where
  kind : Kind
  text : String
  span : Span
  deriving DecidableEq, Repr

def isLetter (c : Char) : Bool := c.isAlpha

def startsIdentifier (c : Char) : Bool := c.isAlpha || c == '_'

def continuesIdentifier (c : Char) : Bool := c.isAlphanum || c == '_'

/-- Length up to and with the closing quote. A backslash hides the character after it, which may
not be a line feed; a bare line break closes nothing. -/
def lengthToQuote (quote : Char) : List Char → Option Nat
  | [] => none
  | '\\' :: c :: rest => if c = '\n' then none else (lengthToQuote quote rest).map (· + 2)
  | c :: rest =>
    if c = quote then some 1
    else if c = '\\' ∨ c = '\n' ∨ c = '\r' then none
    else (lengthToQuote quote rest).map (· + 1)

def wordLength? (word text : List Char) : Option Nat :=
  if word.isPrefixOf text then some word.length else none

def runLength? (first next : Char → Bool) : List Char → Option Nat
  | [] => none
  | c :: rest => if first c then some (1 + (rest.takeWhile next).length) else none

/-- How many characters a token of this kind takes at the start of a text, if one is there. -/
def Kind.length? (text : List Char) : Kind → Option Nat
  | .comment =>
    match text with
    | '/' :: '/' :: rest => some (2 + (rest.takeWhile fun c => c ≠ '\n' ∧ c ≠ '\r').length)
    | _ => none
  | .directive =>
    match text with
    | '@' :: rest => (runLength? isLetter isLetter rest).map (1 + ·)
    | _ => none
  | .define => wordLength? [':', '='] text
  | .empty => wordLength? ['[', 'e', 'm', 'p', 't', 'y', ']'] text
  | .identifier => runLength? startsIdentifier continuesIdentifier text
  | .string =>
    match text with
    | '\'' :: rest => (lengthToQuote '\'' rest).map (1 + ·)
    | '"' :: rest => (lengthToQuote '"' rest).map (1 + ·)
    | _ => none
  | .bar => wordLength? ['|'] text
  | .semicolon => wordLength? [';'] text
  | .unknown => runLength? (!Text.isBlank ·) (fun _ => false) text
  | .newline =>
    match text with
    | '\r' :: '\n' :: _ => some 2
    | '\n' :: _ => some 1
    | _ => none
  | .blanks => runLength? (fun c => c == ' ' || c == '\t') (fun c => c == ' ' || c == '\t') text
  | .invalid => runLength? (· ≠ '\n') (· ≠ '\n') text

theorem runLength?_pos {first next : Char → Bool} {text : List Char} {n : Nat}
    (h : runLength? first next text = some n) : 0 < n := by
  cases text with
  | nil => simp [runLength?] at h
  | cons c rest =>
    by_cases hc : first c
    · simp only [runLength?, hc, if_true, Option.some.injEq] at h
      omega
    · simp [runLength?, hc] at h

theorem wordLength?_pos {c : Char} {word text : List Char} {n : Nat}
    (h : wordLength? (c :: word) text = some n) : 0 < n := by
  unfold wordLength? at h
  split at h
  · have hn := Option.some.inj h
    rw [List.length_cons] at hn
    omega
  · cases h

theorem Kind.length?_pos {kind : Kind} {text : List Char} {n : Nat}
    (h : kind.length? text = some n) : 0 < n := by
  cases kind with
  | comment =>
    simp only [Kind.length?] at h
    split at h
    · have hn := Option.some.inj h
      omega
    · cases h
  | directive =>
    simp only [Kind.length?] at h
    split at h
    · obtain ⟨m, -, rfl⟩ := Option.map_eq_some_iff.mp h
      omega
    · cases h
  | string =>
    simp only [Kind.length?] at h
    split at h
    · obtain ⟨m, -, rfl⟩ := Option.map_eq_some_iff.mp h
      omega
    · obtain ⟨m, -, rfl⟩ := Option.map_eq_some_iff.mp h
      omega
    · cases h
  | newline =>
    simp only [Kind.length?] at h
    split at h
    · have hn := Option.some.inj h
      omega
    · have hn := Option.some.inj h
      omega
    · cases h
  | define | empty | bar | semicolon => exact wordLength?_pos h
  | identifier | unknown | blanks | invalid => exact runLength?_pos h

def Kind.inOrder : List Kind :=
  [.comment, .directive, .define, .empty, .identifier, .string, .bar, .semicolon, .unknown,
    .newline, .blanks, .invalid]

def firstToken (text : List Char) : Kind × Nat :=
  (Kind.inOrder.findSome? fun kind => (kind.length? text).map (kind, ·)).getD (.invalid, 1)

/-- The tokens of a text that starts at a location. -/
def tokensFrom (here : Location) (text : List Char) : List Token :=
  match text with
  | [] => []
  | c :: rest =>
    let (kind, length) := firstToken (c :: rest)
    let lexeme := c :: rest.take (length - 1)
    let stop := here.advance lexeme
    ⟨kind, String.ofList lexeme, ⟨here, stop⟩⟩ :: tokensFrom stop (rest.drop (length - 1))
termination_by text.length
decreasing_by simp only [List.length_drop, List.length_cons]; omega

theorem flatMap_tokensFrom (here : Location) (text : List Char) :
    (tokensFrom here text).flatMap (·.text.toList) = text := by
  fun_induction tokensFrom here text with
  | case1 => rfl
  | case2 here c rest kind length _ lexeme stop ih =>
    simp [List.flatMap_cons, ih, lexeme, String.toList_ofList]

def Kind.isSignificant : Kind → Bool
  | .newline | .blanks | .comment => false
  | _ => true

def tokens (text : List Char) : List Token :=
  (tokensFrom .start text).filter (·.kind.isSignificant)

/-- The value of a quoted lexeme: what stands between its first and its last character, where a
backslash gives way to the character after it unless that ends the line. -/
def unescape : List Char → List Char
  | [] => []
  | '\\' :: c :: rest => if c = '\n' then '\\' :: c :: unescape rest else c :: unescape rest
  | c :: rest => c :: unescape rest

def unquote (lexeme : String) : String :=
  String.ofList (unescape (lexeme.toList.drop 1).dropLast)

end GrammarWorkspace.Grammar
