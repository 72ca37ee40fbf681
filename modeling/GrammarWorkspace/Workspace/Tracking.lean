import GrammarWorkspace.Workspace.State

/-!
# Tracking documents

The client opens, changes and closes documents; the compiler opens what the client's documents
import, and lets go of what they no longer reach. Every change drops the compilation, which is made
again when it is next asked for. Changes are told to listeners, who may act on the workspace while
they are told.
-/
namespace GrammarWorkspace

/-- How a listener is called: with the topic, and the document that the event is about. -/
abbrev Calling := Listener → Topic → Option DocumentId → Task Unit

namespace Task

variable (call : Calling)

def fire (topic : Topic) (about : Option DocumentId) : Task Unit := do
  pass (.telling topic about)
  Bus.deliver (fun listener => call listener topic about) ((← get).bus.listeners topic)
  pass (.told topic about)

def report : Task Unit := fire call .updated none

def invalidate : Task Unit := do
  if !(← get).gate.isRebuilding then
    modify fun w => { w with roots := none, compilation := none }

def getOrCreate (file : String) : Task (DocumentId × Bool) := do
  let w ← get
  match w.tracked.get? file with
  | some id => return (id, false)
  | none =>
    let id := w.documents.length
    set { w with
      documents := w.documents ++ [Document.new file]
      tracked := w.tracked.insert file id }
    return (id, true)

/-- No longer track a document. It is a fault if another has done so already. -/
def remove (id : DocumentId) : Task Unit := do
  let file := (← document id).file
  let w ← get
  if !w.tracked.contains file then
    pass (.missing id)
    throw (.untracked file)
  set { w with tracked := w.tracked.erase file }
  invalidate
  fire call .closed (some id)
  Gate.request (report call)

/-- The client takes hold: the roots change, and the text now comes from the client. -/
def holdOnClient (id : DocumentId) : Task Unit := do
  if !(← document id).onClient then
    update id ({ · with onClient := true })
    invalidate
    let d ← document id
    if d.onServer then unwatch d.file

def holdOnServer (id : DocumentId) : Task Unit := do
  if !(← document id).onServer then
    update id ({ · with onServer := true })
    let d ← document id
    if !d.onClient then watch d.file

def releaseOnServer (id : DocumentId) : Task Unit := do
  if (← document id).onServer then
    update id ({ · with onServer := false })
    let d ← document id
    if !d.onClient then unwatch d.file
    fire call .closedOnServer (some id)
    if !(← document id).isOpen then remove call id

def announce (id : DocumentId) (isNew hasChanged : Bool) (opened : Option Topic) : Task Unit := do
  if hasChanged then invalidate
  if isNew then fire call .created (some id)
  match opened with
  | some topic => fire call topic (some id)
  | none => pure ()
  if hasChanged then
    fire call .contentChanged (some id)
    Gate.request (report call)

/-- Open a document on the server. A file that cannot be read is not opened. -/
def openOnServer (locator : Locator) : Task (Option DocumentId) := do
  let file ← fileName locator
  match ← readFile file with
  | none => return none
  | some text =>
    let (id, isNew) ← getOrCreate file
    let before ← document id
    let uri ← uri locator
    update id ({ · with uri := uri, text := some text })
    holdOnServer id
    announce call id isNew (before.text ≠ some text)
      (if before.onServer then none else some .openedOnServer)
    return some id

def closeOnServer (locator : Locator) : Task Unit := do
  match ← find locator with
  | none => return
  | some id => releaseOnServer call id

def updateOnClient (uri text : String) : Task Unit := do
  let file ← fileName (.text uri)
  let (id, isNew) ← getOrCreate file
  let before ← document id
  update id ({ · with uri := uri, text := some text })
  holdOnClient id
  announce call id isNew (before.text ≠ some text)
    (if before.onClient then none else some .openedOnClient)

/-- Of several new texts the last one counts; without any nothing happens. -/
def changeOnClient (uri : String) (texts : List String) : Task Unit :=
  match texts.getLast? with
  | none => return
  | some text => updateOnClient call uri text

def closeOnClient (uri : String) : Task Unit := do
  match ← find (.text uri) with
  | none => return
  | some id =>
    let d ← document id
    if d.onClient then
      update id ({ · with onClient := false })
      if d.onServer then watch d.file
      invalidate
      fire call .closedOnClient (some id)
      if !(← document id).isOpen then remove call id

/-- Read a file for the compiler: from its tracked document, or else from disk, in which case the
server takes hold of it. -/
def readForCompiler (file : String) : Task (Option String) := do
  let id ← match (← get).tracked.get? file with
    | some id => pure id
    | none =>
      match ← readFile file with
      | none => return none
      | some text =>
        let (id, _) ← getOrCreate file
        let uri ← uri (.text file)
        update id ({ · with uri := uri, text := some text })
        holdOnServer id
        fire call .created (some id)
        fire call .openedOnServer (some id)
        pure id
  update id ({ · with isMarked := true })
  return (← document id).text

/-- Read a file when its turn comes in the making of a compilation, and note what came of it. -/
def fetch (serial : Nat) (file : String) : Task (Option String) := do
  let w ← get
  let text ← readForCompiler call file
  modify (·.fetched ⟨serial, file, (w.tracked.get? file).bind w.document?, text⟩)
  return text

def beginBuild : Task Nat := do
  let w ← get
  set w.counted
  return w.begun

/-- Start marking: of all tracked documents only those that the client has open are marked. They
are the roots. -/
def markRoots : Task (List String) := do
  let w ← get
  w.tracked.values.forM fun id => update id fun d => { d with isMarked := d.onClient }
  return (w.trackedDocuments.filter Document.onClient).map Document.file

def sweep : Task Unit := do
  (← get).tracked.values.forM fun id => do
    let d ← document id
    if !d.isMarked && !d.onClient then releaseOnServer call id

def readableBound (w : Workspace) : Nat := w.tracked.size + w.disk.size + w.restlessness

def rebuild : Task Grammar.Compilation :=
  Gate.rebuilding (report call) do
    let serial ← beginBuild
    let roots ← markRoots
    let w ← get
    let c ← Grammar.Compilation.load (fetch call serial) (readableBound w + 1) serial
      ⟨roots, w.reportUnused⟩ w.previous
    modify fun w => { w with roots := some roots, compilation := some c, previous := some c }
    sweep call
    return c

def compilation : Task Grammar.Compilation := do
  match (← get).compilation with
  | some c => return c
  | none => rebuild call

def roots : Task (List String) := do
  match (← get).roots with
  | some roots => return roots
  | none => return (← rebuild call).request.roots

/-- The compiled source of the file that a locator stands for. -/
def source? (locator : Locator) : Task (Option Grammar.Source) := do
  let c ← compilation call
  return c.source? (← fileName locator)

def dispose : Task Unit :=
  modify fun w =>
    { w.passed .forgotten with
      tracked := {}, compilation := none, previous := none, roots := none, bus := w.bus.silence }

end Task
end GrammarWorkspace
