import GrammarWorkspace.Grammar.Compilation

/-!
# Declarations, references and diagnostics

Names are global to a compilation: a production of any loaded file declares its name, and every
identifier in an alternative refers to the productions of its name.
-/
namespace GrammarWorkspace.Grammar

structure Occurrence where
  file : String
  id : Identifier
  deriving DecidableEq, Repr

namespace Occurrence

def name (o : Occurrence) : String := o.id.name

def span (o : Occurrence) : Span := o.id.span

def diagnostic (o : Occurrence) (problem : Problem) : Diagnostic := ⟨problem, o.file, o.span⟩

end Occurrence

namespace Source

def declared (s : Source) : List Occurrence := s.tree.productions.map (⟨s.file, ·.name⟩)

def mentioned (s : Source) : List Occurrence :=
  s.tree.productions.flatMap fun p => p.mentions.map (⟨s.file, ·⟩)

def syntaxDiagnostics (s : Source) : List Diagnostic :=
  s.tree.errors.map fun e => ⟨.malformed e.cause, s.file, e.span⟩

end Source

namespace Compilation

/-- All declarations in load order, grouped by name in the order of the first ones. -/
def declarations (c : Compilation) : Table String (List Occurrence) :=
  .groupBy Occurrence.name (c.sources.values.flatMap Source.declared)

/-- All references in load order, grouped by name in the order of the first ones. -/
def references (c : Compilation) : Table String (List Occurrence) :=
  .groupBy Occurrence.name (c.sources.values.flatMap Source.mentioned)

def declarationsOf (c : Compilation) (name : String) : List Occurrence :=
  (c.declarations.get? name).getD []

def referencesTo (c : Compilation) (name : String) : List Occurrence :=
  (c.references.get? name).getD []

def unreadable (c : Compilation) (s : Source) : List Diagnostic :=
  (s.tree.imports.filter fun i => !c.sources.contains (s.target i)).map fun i =>
    ⟨.unreadable i.path, s.file, i.span⟩

def duplicates (c : Compilation) : List Diagnostic :=
  c.declarations.values.flatMap fun group =>
    group.tail.map fun o => o.diagnostic (.duplicate o.name)

def undeclared (c : Compilation) : List Diagnostic :=
  let declarations := c.declarations
  ((c.sources.values.flatMap Source.mentioned).filter (!declarations.contains ·.name)).map fun o =>
    o.diagnostic (.undeclared o.name)

/-- The first declaration of each name that nothing refers to, if that is to be reported. -/
def unreferenced (c : Compilation) : List Diagnostic :=
  if c.request.reportUnused then
    let references := c.references
    (c.declarations.values.filterMap List.head?).filter (!references.contains ·.name) |>.map
      fun o => o.diagnostic (.unreferenced o.name)
  else []

/-- The diagnostics of a file: what is wrong with the file itself, then what is wrong with its
names. -/
def diagnosticsFor (c : Compilation) (file : String) : List Diagnostic :=
  match c.source? file with
  | none => []
  | some s =>
    s.syntaxDiagnostics ++ c.unreadable s ++
      (c.duplicates ++ c.undeclared ++ c.unreferenced).filter (·.file = file)

def identifierAt (c : Compilation) (file : String) (line character : Int) : Option Occurrence := do
  let s ← c.source? file
  let id ← s.tree.identifierAt line character
  return ⟨file, id⟩

def declarationsAt (c : Compilation) (file : String) (line character : Int) : List Occurrence :=
  match c.identifierAt file line character with
  | none => []
  | some o => c.declarationsOf o.name

def referencesAt (c : Compilation) (file : String) (line character : Int)
    (withDeclarations : Bool) : List Occurrence :=
  match c.identifierAt file line character with
  | none => []
  | some o =>
    (if withDeclarations then c.declarationsOf o.name else []) ++ c.referencesTo o.name

end Compilation
end GrammarWorkspace.Grammar
