import GrammarWorkspace.Update.Gate

/-!
# Runs of the update gate

A run performs steps on one gate and answers each report with the next of some given scripts, which
are steps again. All that happens is noted as it happens, with the gate as it then stands: calls are
noted before they are made, reports and blocks when they begin and when they are over.
-/
namespace GrammarWorkspace.Update

inductive Block where
  | suspended
  | rebuilding
  deriving DecidableEq, Repr

inductive Step where
  | request
  | suspend
  | resume
  | interrupt
  | within (block : Block) (body : List Step)
  /-- Give the body up at a fault and go on after it. -/
  | attempt (body : List Step)
  deriving Repr

inductive Mark where
  | reportBegun
  | reportEnded
  | opening (block : Block)
  | entered (block : Block)
  | done (step : Step)
  deriving Repr

inductive Entry where
  | passed (mark : Mark) (gate : Gate)
  | caught (fault : Fault)
  | failed (fault : Fault) (gate : Gate)
  deriving Repr

inductive Call where
  | request
  | suspend
  | resume
  deriving DecidableEq, Repr

inductive Scope where
  | report
  /-- A block with all that opening and closing it brings. -/
  | block (block : Block)
  /-- The steps inside a block. -/
  | body (block : Block)
  deriving DecidableEq, Repr

inductive Happening where
  | passed (mark : Mark)
  /-- A call is about to be made. -/
  | calling (call : Call)
  /-- Something is over, by a fault or not. -/
  | over (scope : Scope) (byFault : Bool)
  | caught (fault : Fault)
  | failed (fault : Fault)
  deriving Repr

structure Event where
  what : Happening
  gate : Gate
  deriving Repr

def Event.entry? (e : Event) : Option Entry :=
  match e.what with
  | .passed mark => some (.passed mark e.gate)
  | .caught fault => some (.caught fault)
  | .failed fault => some (.failed fault e.gate)
  | .calling _ | .over _ _ => none

/-- A run in progress: the gate, the scripts of the reports to come, and all events so far, oldest
first. -/
structure Run where
  gate : Gate
  scripts : List (List Step)
  history : List Event

namespace Run

instance : HasGate Run where
  gate r := r.gate
  setGate g r := { r with gate := g }
  restless r := r.scripts.length
  gate_setGate _ _ := rfl
  setGate_gate _ := rfl
  setGate_setGate _ _ _ := rfl
  restless_setGate _ _ := rfl

def note (what : Happening) : Work Run Unit :=
  modify fun r => { r with history := r.history ++ [⟨what, r.gate⟩] }

def pass (mark : Mark) : Work Run Unit := note (.passed mark)

def closing (scope : Scope) (work : Work Run Unit) : Work Run Unit := do
  let ended ← work.outcome
  note (.over scope !ended.isOk)
  ofExcept ended

def nextScript : Work Run (List Step) := do
  let r ← get
  set { r with scripts := r.scripts.tail }
  return r.scripts.headD []

def inBlock (report : Work Run Unit) (block : Block) (work : Work Run Unit) : Work Run Unit :=
  match block with
  | .suspended => Gate.suspended report work
  | .rebuilding => Gate.rebuilding report work

mutual

def perform (report : Work Run Unit) : Step → Work Run Unit
  | .request => do note (.calling .request); Gate.request report; pass (.done .request)
  | .suspend => do note (.calling .suspend); Gate.suspend; pass (.done .suspend)
  | .resume => do note (.calling .resume); Gate.resume report; pass (.done .resume)
  | .interrupt => throw .interrupted
  | .within block body => do
    pass (.opening block)
    closing (.block block) <| inBlock report block do
      pass (.entered block)
      closing (.body block) (performAll report body)
    pass (.done (.within block body))
  | .attempt body => do
    match ← (performAll report body).outcome with
    | .ok () => pure ()
    | .error fault => note (.caught fault)
    pass (.done (.attempt body))

def performAll (report : Work Run Unit) : List Step → Work Run Unit
  | [] => return
  | step :: rest => do perform report step; performAll report rest

end

/-- One report. The depth bounds how many scripts may be under way inside one another. -/
def report : (depth : Nat) → Work Run Unit
  | 0 => do
    pass .reportBegun
    closing .report (pass .reportEnded)
  | depth + 1 => do
    pass .reportBegun
    closing .report do
      performAll (report depth) (← nextScript)
      pass .reportEnded

def topStep (step : Step) : Work Run Unit := do
  match ← (perform (report (← get).scripts.length) step).outcome with
  | .ok () => pure ()
  | .error fault => note (.failed fault)

def after (run : Run) (step : Step) : Run := ((topStep step).run.run run).2

def eventsOf (run : Run) (step : Step) : List Event :=
  (run.after step).history.drop run.history.length

end Run

def start (scripts : List (List Step)) : Run := ⟨.initial, scripts, []⟩

def runOf (steps : List Step) (scripts : List (List Step)) : Run := steps.foldl Run.after (start scripts)

def records : Run → List Step → List (List Entry)
  | _, [] => []
  | run, step :: rest => (run.eventsOf step).filterMap Event.entry? :: records (run.after step) rest

def recordsOf (steps : List Step) (scripts : List (List Step)) : List (List Entry) :=
  records (start scripts) steps

end GrammarWorkspace.Update
