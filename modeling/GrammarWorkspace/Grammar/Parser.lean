import GrammarWorkspace.Grammar.Tree

/-!
# Reading statements

Statements are read one after the other. A statement that cannot be read leaves one error and is
given up, with all that follows it up to the next semicolon.
-/
namespace GrammarWorkspace.Grammar

structure Failure where
  error : SyntaxError
  rest : List Token
  deriving DecidableEq, Repr

namespace Parser

def fail (stop : Location) (kinds : List Kind) : List Token → Failure
  | [] => ⟨⟨.expected kinds none, .point stop⟩, []⟩
  | t :: rest => ⟨⟨.expected kinds (some t.text), t.span⟩, t :: rest⟩

def expect (stop : Location) (kinds : List Kind) (tokens : List Token) :
    Except Failure (Token × List Token) :=
  match tokens with
  | [] => .error (fail stop kinds [])
  | t :: rest => if t.kind ∈ kinds then .ok (t, rest) else .error (fail stop kinds (t :: rest))

def symbol? (t : Token) : Option Symbol :=
  match t.kind with
  | .identifier => some (.identifier ⟨t.text, t.span⟩)
  | .string => some (.terminal (unquote t.text) t.span)
  | .empty => some (.empty t.span)
  | _ => none

def symbols : List Token → List Symbol × List Token
  | [] => ([], [])
  | t :: rest =>
    match symbol? t with
    | none => ([], t :: rest)
    | some s => (s :: (symbols rest).1, (symbols rest).2)

/-- The tokens after the next one, which has to be of a kind. There are fewer of them. -/
def after? (kind : Kind) :
    (tokens : List Token) → Option { rest : List Token // rest.length < tokens.length }
  | [] => none
  | t :: rest => if t.kind = kind then some ⟨rest, Nat.lt_succ_self _⟩ else none

theorem length_symbols_le (tokens : List Token) : (symbols tokens).2.length ≤ tokens.length := by
  induction tokens with
  | nil => simp [symbols]
  | cons t rest ih =>
    cases h : symbol? t with
    | none => simp [symbols, h]
    | some s => simp only [symbols, h, List.length_cons]; omega

def alternatives (stop : Location) (tokens : List Token) :
    Except Failure (List (List Symbol) × List Token) :=
  let first := (symbols tokens).1
  if first.isEmpty then .error (fail stop [.identifier, .string, .empty] (symbols tokens).2)
  else
    match after? .bar (symbols tokens).2 with
    | none => .ok ([first], (symbols tokens).2)
    | some ⟨rest, _⟩ =>
      match alternatives stop rest with
      | .error failure => .error failure
      | .ok (others, rest') => .ok (first :: others, rest')
termination_by tokens.length
decreasing_by
  have before := length_symbols_le tokens
  omega

def importAfter (stop : Location) (directive : Token) (tokens : List Token) :
    Except Failure (Import × List Token) := do
  if directive.text ≠ "@import" then
    throw ⟨⟨.unknownDirective directive.text, directive.span⟩, tokens⟩
  let (path, rest) ← expect stop [.string] tokens
  match expect stop [.semicolon] rest with
  | .ok (last, rest') =>
    return (⟨unquote path.text, ⟨directive.span.start, last.span.stop⟩⟩, rest')
  | .error _ => return (⟨unquote path.text, ⟨directive.span.start, path.span.stop⟩⟩, rest)

def productionAfter (stop : Location) (name : Token) (tokens : List Token) :
    Except Failure (Production × List Token) := do
  let (_, rest) ← expect stop [.define] tokens
  let (alternatives, rest) ← alternatives stop rest
  let (last, rest) ← expect stop [.semicolon] rest
  return (⟨⟨name.text, name.span⟩, alternatives, ⟨name.span.start, last.span.stop⟩⟩, rest)

def statement (stop : Location) (tokens : List Token) :
    Except Failure (Statement × List Token) := do
  let (head, rest) ← expect stop [.directive, .identifier] tokens
  if head.kind = .directive then
    let (i, rest) ← importAfter stop head rest
    return (.importing i, rest)
  else
    let (p, rest) ← productionAfter stop head rest
    return (.production p, rest)

def afterSemicolon (tokens : List Token) : List Token :=
  (tokens.dropWhile (·.kind ≠ .semicolon)).drop 1

/-- What reading may leave: on success less than it was given, on failure no more. -/
def Shortens (tokens : List Token) : Except Failure (α × List Token) → Prop
  | .ok (_, rest) => rest.length < tokens.length
  | .error failure => failure.rest.length ≤ tokens.length

theorem shortens_expect (stop : Location) (kinds : List Kind) (tokens : List Token) :
    Shortens tokens (expect stop kinds tokens) := by
  cases tokens with
  | nil => simp [expect, Shortens, fail]
  | cons t rest => by_cases h : t.kind ∈ kinds <;> simp [expect, Shortens, fail, h]

theorem Shortens.weaken {a b : List Token} {r : Except Failure (α × List Token)}
    (h : Shortens b r) (hb : b.length ≤ a.length) : Shortens a r := by
  cases r with
  | error failure => exact Nat.le_trans h hb
  | ok r => exact Nat.lt_of_lt_of_le h hb

theorem Shortens.bind {tokens : List Token} {r : Except Failure (α × List Token)}
    {f : α × List Token → Except Failure (β × List Token)}
    (h : Shortens tokens r)
    (hf : ∀ x rest, rest.length < tokens.length → Shortens tokens (f (x, rest))) :
    Shortens tokens (r >>= f) := by
  cases r with
  | error failure => exact h
  | ok r => exact hf r.1 r.2 h

theorem length_rest_fail_le (stop : Location) (kinds : List Kind) (tokens : List Token) :
    (fail stop kinds tokens).rest.length ≤ tokens.length := by
  cases tokens <;> simp [fail]

theorem shortens_alternatives (stop : Location) (tokens : List Token) :
    Shortens tokens (alternatives stop tokens) := by
  have before := length_symbols_le tokens
  fun_induction alternatives stop tokens with
  | case1 tokens first h => exact Nat.le_trans (length_rest_fail_le ..) before
  | case2 tokens first hne h =>
    simp only [Shortens]
    cases tokens with
    | nil => simp [first, symbols] at hne
    | cons t others =>
      cases hs : symbol? t with
      | none => simp [first, symbols, hs] at hne
      | some s =>
        have := length_symbols_le others
        simp only [symbols, hs, List.length_cons]
        omega
  | case3 tokens first hne rest shorter h failure hf ih =>
    have ih := ih (length_symbols_le rest)
    rw [hf] at ih
    simp only [Shortens] at ih ⊢
    omega
  | case4 tokens first hne rest shorter h others rest' ho ih =>
    have ih := ih (length_symbols_le rest)
    rw [ho] at ih
    simp only [Shortens] at ih ⊢
    omega

theorem shortens_importAfter (stop : Location) (directive : Token) (tokens : List Token) :
    Shortens tokens (importAfter stop directive tokens) := by
  unfold importAfter
  split
  · exact Nat.le_refl _
  · refine (shortens_expect ..).bind fun path rest hr => ?_
    have last := shortens_expect stop [.semicolon] rest
    dsimp only
    split
    · rename_i h
      rw [h] at last
      exact Nat.lt_trans last hr
    · exact hr

theorem shortens_productionAfter (stop : Location) (name : Token) (tokens : List Token) :
    Shortens tokens (productionAfter stop name tokens) :=
  (shortens_expect ..).bind fun _ _ hr =>
    ((shortens_alternatives ..).weaken (Nat.le_of_lt hr)).bind fun _ _ hr =>
      ((shortens_expect ..).weaken (Nat.le_of_lt hr)).bind fun _ _ hr => hr

theorem shortens_statement (stop : Location) (tokens : List Token) :
    Shortens tokens (statement stop tokens) := by
  refine (shortens_expect ..).bind fun head rest hr => ?_
  by_cases h : head.kind = .directive
  · simp only [h, if_true]
    exact ((shortens_importAfter ..).weaken (Nat.le_of_lt hr)).bind fun _ _ hr => hr
  · simp only [h, if_false]
    exact ((shortens_productionAfter ..).weaken (Nat.le_of_lt hr)).bind fun _ _ hr => hr

theorem length_afterSemicolon (tokens : List Token) :
    (afterSemicolon tokens).length ≤ tokens.length - 1 := by
  have skipped : (tokens.dropWhile (·.kind ≠ .semicolon)).length ≤ tokens.length :=
    (List.dropWhile_sublist _).length_le
  simp only [afterSemicolon, List.length_drop]
  omega

def boundedStatement (stop : Location) (tokens : List Token) :
    { r : Except Failure (Statement × List Token) // Shortens tokens r } :=
  ⟨statement stop tokens, shortens_statement stop tokens⟩

def outcomes (stop : Location) (tokens : List Token) : List (Except SyntaxError Statement) :=
  match tokens with
  | [] => []
  | t :: rest =>
    match boundedStatement stop (t :: rest) with
    | ⟨.ok (s, rest'), _⟩ => .ok s :: outcomes stop rest'
    | ⟨.error failure, _⟩ => .error failure.error :: outcomes stop (afterSemicolon failure.rest)
termination_by tokens.length
decreasing_by
  · rename_i short
    exact short
  · rename_i short
    have skip := length_afterSemicolon failure.rest
    simp only [Shortens, List.length_cons] at short ⊢
    omega

end Parser

/-- Sort outcomes by what they are; each sort keeps their order. -/
def Tree.ofOutcomes (outcomes : List (Except SyntaxError Statement)) : Tree where
  imports := outcomes.filterMap fun o => o.toOption.bind Statement.import?
  productions := outcomes.filterMap fun o => o.toOption.bind Statement.production?
  errors := outcomes.filterMap fun
    | .error e => some e
    | .ok _ => none

def parse (text : String) : Tree :=
  .ofOutcomes (Parser.outcomes (.ending text.toList) (tokens text.toList))

end GrammarWorkspace.Grammar
