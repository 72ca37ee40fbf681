import GrammarWorkspace.Grammar.Binding
import GrammarWorkspace.Workspace.Action

/-!
# Observations

What can be seen of a workspace from outside: the answers it gives, what it asks of its host, and
what it sends to the client. The client counts lines and characters from zero.
-/
namespace GrammarWorkspace

structure Range where
  startLine : Nat
  startCharacter : Nat
  endLine : Nat
  endCharacter : Nat
  deriving DecidableEq, Repr, Inhabited

def Range.ofSpan (s : Span) : Range :=
  ⟨s.start.line - 1, s.start.column - 1, s.stop.line - 1, s.stop.column - 1⟩

structure Notice where
  range : Range
  severity : Nat
  code : Nat
  source : String
  message : String
  deriving DecidableEq, Repr

namespace Notice

def severityOf : Grammar.Severity → Nat
  | .error => 1
  | .warning => 2

def ofDiagnostic (d : Grammar.Diagnostic) : Notice :=
  ⟨.ofSpan d.span, severityOf d.problem.severity, d.problem.code, "GrammarLanguageServer",
    d.problem.message⟩

end Notice

structure Place where
  uri : String
  range : Range
  deriving DecidableEq, Repr

structure Edit where
  range : Range
  newText : String
  deriving DecidableEq, Repr

structure Comparison where
  isSame : Bool
  roots : List String
  /-- File, whether its source is shared, and its diagnostics. -/
  sources : List (String × Bool × List String)
  deriving DecidableEq, Repr

inductive Answer where
  | nothing
  | text (s : String)
  | flag (b : Bool)
  | texts (all : List String)
  | source (file text : String)
  | comparison (c : Comparison)
  | counts (all : List Nat)
  | places (all : List Place)
  | edits (byUri : List (String × List Edit))
  | several (answers : List Answer)
  deriving Inhabited, Repr

inductive ReadOutcome where
  | contents
  | nothing
  | failed
  deriving DecidableEq, Repr

inductive Observation where
  | read (file : String) (outcome : ReadOutcome)
  | watched (file : String)
  | unwatched (file : String)
  /-- A document's event, with the sides that hold it and whether a document of its file is
  tracked. -/
  | happened (topic : Topic) (file : String) (onClient onServer isTracked : Bool)
  | updated
  | published (uri : String) (notices : List Notice)
  | message (text : String)
  /-- A listener performed an action of its script. -/
  | performed (action : Action) (answer : Answer)
  deriving Inhabited, Repr

end GrammarWorkspace
