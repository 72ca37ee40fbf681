import GrammarWorkspace.Workspace.Tracking

/-!
# Requests of the client

The client asks about positions in documents that it names by URI, and is sent diagnostics. Places
in answers go by the URIs under which the client knows the documents.
-/
namespace GrammarWorkspace.Task

variable (call : Calling)

def compiledDocument (uri : String) : Task (Option (String × Grammar.Compilation)) := do
  match ← find (.reference (.text uri)) with
  | none => return none
  | some id =>
    let file := (← document id).file
    let c ← compilation call
    return if (c.source? file).isSome then some (file, c) else none

def uriOfFile (file : String) : Task String := do
  match ← find (.text file) with
  | some id => return (← document id).uri
  | none => uri (.text file)

def place (o : Grammar.Occurrence) : Task Place := return ⟨← uriOfFile o.file, .ofSpan o.span⟩

def definition (uri : String) (line character : Int) : Task (List Place) := do
  match ← compiledDocument call uri with
  | none => return []
  | some (file, c) => (c.declarationsAt file line character).mapM place

def references (uri : String) (line character : Int) (withDeclaration : Bool) :
    Task (List Place) := do
  match ← compiledDocument call uri with
  | none => return []
  | some (file, c) => (c.referencesAt file line character withDeclaration).mapM place

/-- The edits, grouped by URI, that give a name at a position and all that is bound to it a new
name. There are none if no name is there. -/
def rename (uri : String) (line character : Int) (newName : String) :
    Task (Option (Table String (List Edit))) := do
  match ← compiledDocument call uri with
  | none => return none
  | some (file, c) =>
    let occurrences := c.referencesAt file line character true
    if occurrences.isEmpty then return none
    let places ← occurrences.mapM place
    return some (places.foldl (fun edits p => edits.push p.uri ⟨p.range, newName⟩) {})

def publish : Task Unit := do
  let c ← compilation call
  (← get).trackedDocuments.forM fun d => do
    if (c.source? d.file).isSome then
      observe (.published d.uri ((c.diagnosticsFor d.file).map .ofDiagnostic))

def compare : Task Comparison := do
  let c ← compilation call
  let w ← get
  set { w with answered := some c }
  let isShared (s : Grammar.Source) : Bool :=
    (w.answered.bind (·.source? s.file)).any (·.readBy = s.readBy)
  return {
    isSame := w.answered.any (·.serial = c.serial)
    roots := c.request.roots
    sources := c.sources.values.map fun s =>
      (s.file, isShared s, (c.diagnosticsFor s.file).map Grammar.Diagnostic.format) }

end GrammarWorkspace.Task
