import GrammarWorkspace.Naming.Locator

/-!
# Faults

The reasons for which an operation is given up, and what is said about each.
-/
namespace GrammarWorkspace

inductive Fault where
  | notALocator (locator : Locator)
  /-- A name that cannot be read or looked up for what is in it. -/
  | flawed (flaw : Flaw)
  /-- A document was to be removed that is no longer tracked. -/
  | untracked (file : String)
  /-- Nothing goes by this name. -/
  | unknownName (name : String)
  | readFailed
  | interrupted
  deriving Inhabited, Repr

@[match_pattern]
abbrev Fault.unbalancedBrackets {flaw : Flaw} : Fault := .flawed flaw

def Fault.message : Fault → String
  | notALocator locator =>
    "Expected a path, uri or text document identifier, got " ++ locator.display
  | flawed flaw => flaw.message
  | untracked file => Text.display file
  | unknownName name => Text.display name
  | readFailed => "read failed"
  | interrupted => "boom"

end GrammarWorkspace
