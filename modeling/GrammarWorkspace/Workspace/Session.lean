import GrammarWorkspace.Workspace.Query

/-!
# Sessions

A session performs actions on a workspace, one after the other, while listeners answer its events
with actions of their own.

What a client sends comes as actions. How it gets here is left out: the transport, its framing and threads. Texts
have no lone surrogates, for a string consists of Unicode scalar values. A watcher is told which files to watch, but
it does not call back; that a file changes on disk is an action of the session as well.
-/
namespace GrammarWorkspace

namespace Task

def addListener (topic : Topic) (name : Option String) (script : Script) : Task Unit := do
  let w ← get
  let (subscription, bus) := w.bus.subscribe topic (.scripted w.scripts.length)
  set { w with
    bus := bus
    scripts := w.scripts ++ [script]
    subscriptions :=
      match name with
      | some name => w.subscriptions.insert name subscription
      | none => w.subscriptions }

mutual

/-- Perform an action and give its answer. A fault inside a block of actions leaves the block and is
the fault of the action. -/
def perform (call : Calling) : Action → Task Answer
  | .openOnServer locator => do
    match ← openOnServer call locator with
    | some id => return .text (← document id).file
    | none => return .nothing
  | .closeOnServer locator => do closeOnServer call locator; return .nothing
  | .openOnClient uri text => do updateOnClient call uri text; return .nothing
  | .changeOnClient uri texts => do changeOnClient call uri texts; return .nothing
  | .closeOnClient uri => do closeOnClient call uri; return .nothing
  | .find locator => do
    match ← find locator with
    | some id => return .text (← document id).file
    | none => return .nothing
  | .isTracked locator => return .flag (← find locator).isSome
  | .files => return .texts (← get).files
  | .fileName locator => return .text (← fileName locator)
  | .displayUri locator => return .text (← uri locator)
  | .roots => return .texts (← roots call)
  | .sources => return .texts (← compilation call).sources.keys
  | .source locator => do
    match ← source? call locator with
    | some s => return .source s.file s.text
    | none => return .nothing
  | .compile => return .comparison (← compare call)
  | .suspend => do Gate.suspend; return .nothing
  | .resume => do Gate.resume (report call); return .nothing
  | .request => do Gate.request (report call); return .nothing
  | .suspended actions => return .several (← Gate.suspended (report call) (performAll call actions))
  | .rebuilding actions =>
    return .several (← Gate.rebuilding (report call) (performAll call actions))
  | .dump => do
    let w ← get
    if w.hasClient then
      observe (.message w.describe)
      return .nothing
    return .text w.describe
  | .dispose => do dispose; return .nothing
  | .shutDown => do dispose; return .nothing
  | .write file bytes => do
    modify fun w => { w with disk := w.disk.insert file bytes }
    return .nothing
  | .delete file => do
    let w ← get
    set { w with disk := w.disk.erase file }
    return .flag (w.disk.contains file)
  | .setFailing file failing => do
    modify fun w =>
      { w with failing := (if failing then [file] else []) ++ w.failing.filter (· ≠ file) }
    return .nothing
  | .subscribe topic name plays script => do
    addListener topic name ⟨plays, script⟩
    return .nothing
  | .unsubscribe name => do
    let w ← get
    match w.subscriptions.get? name with
    | none => throw (.unknownName name)
    | some subscription =>
      set { w with bus := w.bus.dispose subscription }
      return .nothing
  | .listenerCounts => do
    let w ← get
    return .counts (Topic.all.map w.bus.count)
  | .interrupt => throw .interrupted
  | .publish => do publish call; return .nothing
  | .definition uri line character => return .places (← definition call uri line character)
  | .references uri line character withDeclaration =>
    return .places (← references call uri line character withDeclaration)
  | .rename uri line character newName => do
    match ← rename call uri line character newName with
    | some edits => return .edits edits.entries
    | none => return .nothing

def performAll (call : Calling) : List Action → Task (List Answer)
  | [] => return []
  | action :: rest => do
    let answer ← perform call action
    return answer :: (← performAll call rest)

end

def play (call : Calling) : List Action → Task Unit
  | [] => return
  | action :: rest => do
    observe (.performed action (← perform call action))
    play call rest

def nextPlay (number : Nat) : Task (List Action) := do
  let w ← get
  match w.scripts[number]? with
  | some ⟨plays + 1, actions⟩ =>
    set { w with scripts := w.scripts.set number ⟨plays, actions⟩ }
    return actions
  | _ => return []

def note (topic : Topic) (about : Option DocumentId) : Task Unit := do
  match about with
  | none => observe .updated
  | some id =>
    let d ← document id
    observe (.happened topic d.file d.onClient d.onServer ((← get).tracked.contains d.file))

def clearNotices (about : Option DocumentId) : Task Unit := do
  match about with
  | none => return
  | some id => observe (.published (← document id).uri [])

/-- Call a listener. The depth bounds how many listeners may be at work inside one another. -/
def call (depth : Nat) (listener : Listener) (topic : Topic) (about : Option DocumentId) :
    Task Unit :=
  match listener, depth with
  | .observer, _ => note topic about
  | .clearer, _ => clearNotices about
  | .publisher, depth + 1 => publish (call depth)
  | .scripted number, depth + 1 => do play (call depth) (← nextPlay number)
  | .publisher, 0 | .scripted _, 0 => return

/-- Perform an action from outside. Every listener that is at work inside another but the
publisher, which is never inside itself, takes a play of a script. -/
def act (action : Action) : Task Answer := do
  perform (call ((← get).restlessness + action.weight + 1)) action

end Task

/-- What an action came to, what was observed meanwhile, and the state it left. -/
structure Turn where
  result : Except Fault Answer
  observed : List Observation
  documents : List Document
  gate : Gate

namespace Workspace

def turn (w : Workspace) (action : Action) : Turn × Workspace :=
  let (result, after) := (Task.act action).run.run w
  (⟨result, after.record.drop w.record.length, after.trackedDocuments, after.gate⟩, after)

def turns : Workspace → List Action → List Turn
  | _, [] => []
  | w, action :: rest => (w.turn action).1 :: turns (w.turn action).2 rest

def publishing : List (Topic × Listener) := [(.updated, .publisher), (.closed, .clearer)]

def withListener (w : Workspace) (entry : Topic × Listener) : Workspace :=
  { w with bus := (w.bus.subscribe entry.1 entry.2).2 }

structure Cast where
  topic : Topic
  name : Option String
  script : Script

def withCast (w : Workspace) (c : Cast) : Workspace :=
  ((Task.addListener c.topic c.name c.script).run.run w).2

structure Setup where
  host : Host
  files : List (String × List UInt8)
  reportUnused : Bool
  hasWatcher : Bool
  hasClient : Bool
  cast : List Cast

/-- The workspace at the start of a session: listeners for the client come first, then the
observers of all topics, then those with scripts. -/
def ofSetup (s : Setup) : Workspace :=
  let bare := { empty s.host with
    reportUnused := s.reportUnused
    hasWatcher := s.hasWatcher
    hasClient := s.hasClient
    disk := .ofList s.files }
  let silent := (if s.hasClient then publishing else []) ++ Topic.all.map fun t => (t, .observer)
  s.cast.foldl withCast (silent.foldl withListener bare)

end Workspace
end GrammarWorkspace
