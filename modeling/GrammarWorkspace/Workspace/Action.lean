import GrammarWorkspace.Bus.Topic
import GrammarWorkspace.Naming.Locator

/-!
# Actions

What clients, the compiler's host and listeners may do to a workspace, one thing at a time. A
listener answers an event with a script of actions, a limited number of times.
-/
namespace GrammarWorkspace

inductive Action where
  /-- The server takes hold of a document and reads it from its file. -/
  | openOnServer (locator : Locator)
  | closeOnServer (locator : Locator)
  | openOnClient (uri text : String)
  /-- The client sends the whole text once for each of its edits. -/
  | changeOnClient (uri : String) (texts : List String)
  | closeOnClient (uri : String)
  | find (locator : Locator)
  | isTracked (locator : Locator)
  | files
  | fileName (locator : Locator)
  | displayUri (locator : Locator)
  | roots
  | sources
  | source (locator : Locator)
  | compile
  | suspend
  | resume
  | request
  | suspended (actions : List Action)
  | rebuilding (actions : List Action)
  | dump
  | dispose
  | shutDown
  | write (file : String) (bytes : List UInt8)
  | delete (file : String)
  /-- Make reads of a file fail, or no longer fail. -/
  | setFailing (file : String) (failing : Bool)
  /-- Subscribe a new listener with a script, and remember the subscription under a name. -/
  | subscribe (topic : Topic) (name : Option String) (plays : Nat) (script : List Action)
  | unsubscribe (name : String)
  | listenerCounts
  | interrupt
  | publish
  | definition (uri : String) (line character : Int)
  | references (uri : String) (line character : Int) (withDeclaration : Bool)
  | rename (uri : String) (line character : Int) (newName : String)
  deriving Inhabited, Repr

namespace Action

mutual

/-- An upper bound for the actions that an action may set off, through the scripts that it brings
with it. -/
def weight : Action → Nat
  | suspended actions => 1 + weights actions
  | rebuilding actions => 1 + weights actions
  | subscribe _ _ plays script => 1 + plays * (1 + weights script)
  | _ => 1

def weights : List Action → Nat
  | [] => 0
  | action :: rest => action.weight + weights rest

end

end Action

structure Script where
  plays : Nat
  actions : List Action
  deriving Inhabited, Repr

def Script.weight (s : Script) : Nat := s.plays * (1 + Action.weights s.actions)

end GrammarWorkspace
