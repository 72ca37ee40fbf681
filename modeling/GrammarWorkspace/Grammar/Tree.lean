import GrammarWorkspace.Grammar.Problem

/-!
# Statements of a grammar file

A file imports other files and defines productions. Each node carries the span it was read from.
-/
namespace GrammarWorkspace.Grammar

structure Identifier where
  name : String
  span : Span
  deriving DecidableEq, Repr

inductive Symbol where
  | identifier (id : Identifier)
  | terminal (value : String) (span : Span)
  | empty (span : Span)
  deriving DecidableEq, Repr

def Symbol.identifier? : Symbol → Option Identifier
  | .identifier id => some id
  | _ => none

structure Production where
  name : Identifier
  alternatives : List (List Symbol)
  span : Span
  deriving DecidableEq, Repr

def Production.mentions (p : Production) : List Identifier :=
  p.alternatives.flatten.filterMap Symbol.identifier?

structure Import where
  path : String
  span : Span
  deriving DecidableEq, Repr

inductive Statement where
  | importing (i : Import)
  | production (p : Production)
  deriving DecidableEq, Repr

def Statement.import? : Statement → Option Import
  | .importing i => some i
  | .production _ => none

def Statement.production? : Statement → Option Production
  | .importing _ => none
  | .production p => some p

structure SyntaxError where
  cause : SyntaxProblem
  span : Span
  deriving DecidableEq, Repr

/-- What was read from a text: the statements of each kind and the errors, in text order. -/
structure Tree where
  imports : List Import
  productions : List Production
  errors : List SyntaxError
  deriving DecidableEq, Repr

namespace Tree

def identifiers (t : Tree) : List Identifier :=
  t.productions.flatMap fun p => p.name :: p.mentions

/-- The identifier at a zero-based position, where the place just after its last character still
counts. -/
def identifierAt (t : Tree) (line character : Int) : Option Identifier :=
  t.identifiers.find? fun id => id.span.Contains line character

end Tree
end GrammarWorkspace.Grammar
