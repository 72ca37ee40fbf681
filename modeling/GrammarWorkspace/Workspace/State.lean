import GrammarWorkspace.Bus.Basic
import GrammarWorkspace.Naming.Host
import GrammarWorkspace.Update.Gate
import GrammarWorkspace.Workspace.Observation

/-!
# The state of a workspace

A workspace tracks grammar documents that the client edits or the compiler needs, and keeps the
compilation of those that the client has open. Every document that was ever tracked stays known by
its number, so that work in progress can go on with a document that has been removed meanwhile.
-/
namespace GrammarWorkspace

/-- A document, held open by the client, by the server, or by both. -/
structure Document where
  file : String
  uri : String
  text : Option String
  onClient : Bool
  onServer : Bool
  /-- The compilation in progress has come across the document. -/
  isMarked : Bool := false
  deriving DecidableEq, Repr, Inhabited

def Document.new (file : String) : Document := ⟨file, "", none, false, false, false⟩

def Document.isOpen (d : Document) : Bool := d.onClient || d.onServer

abbrev DocumentId := Nat

inductive Listener where
  /-- Sends the diagnostics of all documents. -/
  | publisher
  /-- Takes the diagnostics of a document back. -/
  | clearer
  /-- Notes what happened. -/
  | observer
  /-- Plays the script of its number. -/
  | scripted (number : Nat)
  deriving DecidableEq, Repr

inductive Moment where
  | telling (topic : Topic) (about : Option DocumentId)
  /-- All listeners have been told. -/
  | told (topic : Topic) (about : Option DocumentId)
  /-- A document is to be removed, but no document of its file is tracked. -/
  | missing (id : DocumentId)
  /-- All documents and listeners are forgotten. -/
  | forgotten
  deriving DecidableEq, Repr

/-- What a workspace shows at a moment: the tracked documents in their order, the compilation, and
all that has been observed so far. -/
structure Scene where
  documents : List Document
  compilation : Option Grammar.Compilation
  record : List Observation

def Scene.roots (v : Scene) : List String := (v.documents.filter Document.onClient).map Document.file

structure Passage where
  moment : Moment
  scene : Scene

/-- A file that was read for a compilation: the number of that compilation, the document that was
tracked for the file when its turn came, and the text that came of it. -/
structure Fetch where
  serial : Nat
  file : String
  known : Option Document
  text : Option String

structure Workspace where
  host : Host
  reportUnused : Bool
  hasWatcher : Bool
  /-- Whether messages go to a client. -/
  hasClient : Bool
  disk : Table String (List UInt8)
  /-- Files of which reads fail. -/
  failing : List String
  documents : List Document
  tracked : Table String DocumentId
  roots : Option (List String)
  compilation : Option Grammar.Compilation
  previous : Option Grammar.Compilation
  /-- What the workspace showed when each of the compilations was begun. -/
  builds : List Scene
  /-- The compilation that was last given as an answer. -/
  answered : Option Grammar.Compilation
  gate : Gate
  bus : Bus Topic Listener
  subscriptions : Table String (Subscription Topic Listener)
  scripts : List Script
  /-- All observations from the start, oldest first. -/
  record : List Observation
  /-- All moments from the start, oldest first, each with what the workspace showed then. -/
  history : List Passage
  /-- All files that were read for compilations, oldest first. -/
  fetches : List Fetch

namespace Workspace

def empty (host : Host) : Workspace where
  host
  reportUnused := false
  hasWatcher := false
  hasClient := false
  disk := {}
  failing := []
  documents := []
  tracked := {}
  roots := none
  compilation := none
  previous := none
  builds := []
  answered := none
  gate := .initial
  bus := .empty
  subscriptions := {}
  scripts := []
  record := []
  history := []
  fetches := []

def restlessness (w : Workspace) : Nat :=
  w.scripts.foldr (fun script rest => script.weight + rest) 0

instance : HasGate Workspace where
  gate w := w.gate
  setGate g w := { w with gate := g }
  restless w := w.restlessness
  gate_setGate _ _ := rfl
  setGate_gate _ := rfl
  setGate_setGate _ _ _ := rfl
  restless_setGate _ _ := rfl

def files (w : Workspace) : List String := w.tracked.keys

def document? (w : Workspace) (id : DocumentId) : Option Document := w.documents[id]?

/-- The tracked documents in the order in which they came to be tracked. -/
def trackedDocuments (w : Workspace) : List Document := w.tracked.values.filterMap w.document?

def scene (w : Workspace) : Scene := ⟨w.trackedDocuments, w.compilation, w.record⟩

def moments (w : Workspace) : List Moment := w.history.map Passage.moment

/-- A moment has passed, of which nobody takes notice. -/
def passed (w : Workspace) (m : Moment) : Workspace :=
  { w with history := w.history ++ [⟨m, w.scene⟩] }

def begun (w : Workspace) : Nat := w.builds.length

def counted (w : Workspace) : Workspace := { w with builds := w.builds ++ [w.scene] }

/-- A file has been read for a compilation, of which nobody takes notice either. -/
def fetched (w : Workspace) (f : Fetch) : Workspace := { w with fetches := w.fetches ++ [f] }

@[simp] theorem moments_passed (w : Workspace) (m : Moment) : (w.passed m).moments = w.moments ++ [m] := by
  simp [moments, passed]

/-- One line for each tracked document: its file, the sides that hold it, and its URI. -/
def describe (w : Workspace) : String :=
  let line (d : Document) : String :=
    let sides := (if d.onClient then ["client"] else []) ++ (if d.onServer then ["server"] else [])
    d.file ++ " [" ++ ", ".intercalate sides ++ "] " ++ d.uri
  "\n".intercalate (w.trackedDocuments.map line)

end Workspace

abbrev Task (α : Type) := Work Workspace α

namespace Task

def observe (o : Observation) : Task Unit := modify fun w => { w with record := w.record ++ [o] }

def pass (m : Moment) : Task Unit := modify (·.passed m)

def document (id : DocumentId) : Task Document := return ((← get).document? id).getD default

def update (id : DocumentId) (f : Document → Document) : Task Unit :=
  modify fun w => { w with documents := w.documents.modify id f }

/-- Read a file from disk. A file that is missing or ill-formed has no text, but one that cannot be
looked for is a fault. -/
def readFile (file : String) : Task (Option String) := do
  let w ← get
  match Host.obstacle? w.failing file with
  | some fault =>
    observe (.read file .failed)
    throw fault
  | none =>
    let text := (w.disk.get? file).bind Host.contents
    observe (.read file (if text.isSome then .contents else .nothing))
    return text

def watch (file : String) : Task Unit := do
  if (← get).hasWatcher then observe (.watched file)

def unwatch (file : String) : Task Unit := do
  if (← get).hasWatcher then observe (.unwatched file)

def fileName (locator : Locator) : Task String := do ofExcept ((← get).host.fileName locator)

def uri (locator : Locator) : Task String := ofExcept (Host.uri locator)

/-- The tracked document that a locator stands for. -/
def find (locator : Locator) : Task (Option DocumentId) := do
  let file ← fileName locator
  return (← get).tracked.get? file

end Task
end GrammarWorkspace
