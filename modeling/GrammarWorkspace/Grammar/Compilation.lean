import GrammarWorkspace.Grammar.Parser
import GrammarWorkspace.Naming.Path
import GrammarWorkspace.Table

/-!
# Compilations

A compilation holds the root files and all that they import, directly or not, as far as it can be
read. Files are read breadth first, each once. A file of an earlier compilation is kept as it is
when its text has not changed.
-/
namespace GrammarWorkspace.Grammar

/-- A file as it was read. Two compilations with a source of the same file and the same `readBy`
share it. -/
structure Source where
  file : String
  text : String
  tree : Tree
  /-- The serial number of the compilation that read the file. -/
  readBy : Nat
  deriving DecidableEq, Repr

namespace Source

def read (serial : Nat) (file text : String) : Source := ⟨file, text, parse text, serial⟩

def target (s : Source) (i : Import) : String := Path.relativeTo s.file i.path

def targets (s : Source) : List String := s.tree.imports.map s.target

end Source

/-- What is compiled: where to start, and whether productions without a reference are reported. -/
structure Request where
  roots : List String
  reportUnused : Bool
  deriving DecidableEq, Repr

structure Compilation where
  serial : Nat
  request : Request
  sources : Table String Source

namespace Compilation

def source? (c : Compilation) (file : String) : Option Source := c.sources.get? file

/-- The source of a file with this text: that of the previous compilation if the text is still the
same, else a new one. -/
def sourceOf (serial : Nat) (previous : Option Compilation) (file text : String) : Source :=
  match previous.bind (·.source? file) with
  | some old => if old.text = text then old else .read serial file text
  | none => .read serial file text

variable {m : Type → Type v} [Monad m]

/-- The first file of a queue that is not loaded yet and can be read, with its text and the queue
after it. -/
def nextReadable (read : String → m (Option String)) (loaded : Table String Source) :
    List String → m (Option (String × String × List String))
  | [] => pure none
  | file :: queue => do
    if loaded.contains file then nextReadable read loaded queue
    else
      match ← read file with
      | none => nextReadable read loaded queue
      | some text => pure (some (file, text, queue))

def loadFrom (read : String → m (Option String)) (sourceOf : String → String → Source) :
    (bound : Nat) → Table String Source → List String → m (Table String Source)
  | 0, loaded, _ => pure loaded
  | bound + 1, loaded, queue => do
    match ← nextReadable read loaded queue with
    | none => pure loaded
    | some (file, text, rest) =>
      let source := sourceOf file text
      loadFrom read sourceOf bound (loaded.insert file source) (rest ++ source.targets)

/-- Compile what a request asks for. The bound must be above the number of readable files. -/
def load (read : String → m (Option String)) (bound serial : Nat) (request : Request)
    (previous : Option Compilation) : m Compilation := do
  let sources ← loadFrom read (sourceOf serial previous) bound {} request.roots
  return ⟨serial, request, sources⟩

/-- Read from a fixed table of files, keeping the names that were asked for, in order. -/
def readFrom (files : Table String String) (file : String) :
    StateM (List String) (Option String) := do
  modify (· ++ [file])
  return files.get? file

/-- Compile from a fixed table of files. The names that were read come second. -/
def ofFiles (files : Table String String) (serial : Nat) (request : Request)
    (previous : Option Compilation) : Compilation × List String :=
  (load (readFrom files) (files.size + 1) serial request previous).run []

end Compilation
end GrammarWorkspace.Grammar
