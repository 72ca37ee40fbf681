import GrammarWorkspace.Grammar.Token
import GrammarWorkspace.Text.Quoted

/-!
# Problems found in grammar files

What can be wrong with a grammar, and how it is told to its author: a code, a severity and a
message for each cause.
-/
namespace GrammarWorkspace.Grammar

inductive SyntaxProblem where
  /-- None of the kinds came; `found` is none at the end of the file. -/
  | expected (kinds : List Kind) (found : Option String)
  | unknownDirective (text : String)
  deriving DecidableEq, Repr

inductive Problem where
  | malformed (cause : SyntaxProblem)
  | unreadable (path : String)
  | duplicate (name : String)
  | undeclared (name : String)
  | unreferenced (name : String)
  deriving DecidableEq, Repr

inductive Severity where
  | error
  | warning
  deriving DecidableEq, Repr

def Kind.description : Kind → String
  | .directive => "a directive"
  | .define => "':='"
  | .empty => "'[empty]'"
  | .identifier => "an identifier"
  | .string => "a string"
  | .bar => "'|'"
  | .semicolon => "';'"
  | .comment => "a comment"
  | .unknown | .invalid => "an unknown character"
  | .newline => "a line end"
  | .blanks => "a blank"

def SyntaxProblem.message : SyntaxProblem → String
  | .expected kinds found =>
    let wanted := " or ".intercalate (kinds.map Kind.description)
    match found with
    | none => .join ["Expected ", wanted, " but reached end of file."]
    | some text => .join ["Expected ", wanted, " but found ", Text.display text, "."]
  | .unknownDirective text => .join ["Unknown directive ", Text.display text, "."]

namespace Problem

def code : Problem → Nat
  | malformed _ => 1000
  | unreadable _ => 2000
  | duplicate _ => 2001
  | undeclared _ => 2002
  | unreferenced _ => 2003

def severity : Problem → Severity
  | unreferenced _ => .warning
  | _ => .error

def message : Problem → String
  | malformed cause => cause.message
  | unreadable path => .join ["Cannot read file '", path, "'."]
  | duplicate name => .join ["Duplicate production '", name, "'."]
  | undeclared name => .join ["Cannot find production '", name, "'."]
  | unreferenced name => .join ["Production '", name, "' is never referenced."]

end Problem

structure Diagnostic where
  problem : Problem
  file : String
  span : Span
  deriving DecidableEq, Repr

def Severity.word : Severity → String
  | .error => "error"
  | .warning => "warning"

def Diagnostic.format (d : Diagnostic) : String :=
  d.file ++ ":" ++ toString d.span.start.line ++ ":" ++ toString d.span.start.column ++ ": " ++
    d.problem.severity.word ++ " GM" ++ toString d.problem.code ++ ": " ++ d.problem.message

end GrammarWorkspace.Grammar
