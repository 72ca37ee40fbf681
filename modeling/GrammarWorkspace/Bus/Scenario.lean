import GrammarWorkspace.Bus.Basic
import GrammarWorkspace.Bus.Topic
import GrammarWorkspace.Table

/-!
# Runs of the bus

A run performs steps on one bus. A listener goes by a key; whenever it is called it may perform steps
itself, each as it likes after all that has happened. Streams of the bus are the topics by name; further
streams may stand beside it. All that happens is noted as it happens: steps and calls when they begin and
when they are over, and subscriptions when they are made and when they are ended.
-/
namespace GrammarWorkspace.Bus

inductive Step (α : Type) where
  | subscribe (stream key disposer : String)
  | unsubscribe (stream key : String)
  | dispose (disposer : String)
  | fire (stream : String) (value : α)
  | clear (stream : String)
  | clearAll
  | describe (stream : String)
  | names
  | interrupt
  deriving Repr

inductive Result where
  | nothing
  | text (s : String)
  | texts (all : List String)
  deriving Repr

inductive Entry (α : Type) where
  | called (key : String) (value : α)
  | done (step : Step α) (result : Result)
  | failed (fault : Fault)
  deriving Repr

inductive Cause where
  | unsubscribed (stream key : String)
  | disposed (disposer : String) (s : Subscription String String)
  | cleared (streams : List String)
  deriving DecidableEq, Repr

inductive Event (α : Type) where
  | begun (step : Step α)
  /-- The subscription can be ended by the disposer. -/
  | subscribed (disposer : String) (s : Subscription String String)
  /-- These subscriptions, if any, have gone. -/
  | ended (cause : Cause) (gone : List (Subscription String String))
  | called (key : String) (value : α)
  /-- A call is over, by a fault or not. -/
  | returned (key : String) (byFault : Bool)
  | done (step : Step α) (result : Result)
  | failed (fault : Fault)
  deriving Repr

namespace Event

variable {α : Type}

def entry? : Event α → Option (Entry α)
  | called key value => some (.called key value)
  | done step result => some (.done step result)
  | failed fault => some (.failed fault)
  | _ => none

def isCallOf (key : String) : Event α → Bool
  | called other _ => other == key
  | _ => false

end Event

def without (subs others : List (Subscription String String)) : List (Subscription String String) :=
  subs.filter (· ∉ others)

/-- What a listener does in one call: step by step, each after all that has happened until then. -/
inductive Script (α : Type) where
  | stop
  | step (step : Step α) (next : List (Event α) → Script α)

def Script.ofList {α : Type} : List (Step α) → Script α
  | [] => stop
  | s :: rest => step s fun _ => ofList rest

/-- What each listener does when it is called after all that has happened until then. -/
abbrev Conduct (α : Type) := List (Event α) → String → α → Script α

/-- A run in progress: the bus, the streams beside the topics, the subscriptions that can be ended by a
disposer, and all events so far, oldest first. -/
structure Run (α : Type) where
  bus : Bus String String
  others : List String
  disposers : Table String (Subscription String String)
  history : List (Event α)

namespace Run

variable {α : Type}

def streams (r : Run α) : List String := Topic.all.map Topic.name ++ r.others

def note (e : Event α) : Work (Run α) Unit := modify fun r => { r with history := r.history ++ [e] }

def require (stream : String) : Work (Run α) Unit := do
  if stream ∉ (← get).streams then throw (.unknownName stream)

def attach (stream key disposer : String) : Work (Run α) Unit :=
  modify fun r =>
    let (subscription, bus) := r.bus.subscribe stream key
    { r with
      bus := bus
      disposers := r.disposers.insert disposer subscription
      history := r.history ++ [.subscribed disposer subscription] }

def detach (cause : Cause) (f : Bus String String → Bus String String) : Work (Run α) Unit :=
  modify fun r =>
    { r with
      bus := f r.bus
      history := r.history ++ [.ended cause (without r.bus.active (f r.bus).active)] }

def result (call : String → α → Work (Run α) Unit) : Step α → Work (Run α) Result
  | .subscribe stream key disposer => do
    require stream
    attach stream key disposer
    return .nothing
  | .unsubscribe stream key => do
    require stream
    detach (.unsubscribed stream key) (·.unsubscribe stream key)
    return .nothing
  | .dispose disposer => do
    match (← get).disposers.get? disposer with
    | none => throw (.unknownName disposer)
    | some subscription => detach (.disposed disposer subscription) (·.dispose subscription)
    return .nothing
  | .fire stream value => do
    require stream
    Bus.deliver (call · value) ((← get).bus.listeners stream)
    return .nothing
  | .clear stream => do
    require stream
    detach (.cleared [stream]) (·.clear stream)
    return .nothing
  | .clearAll => do
    let names := Topic.all.map Topic.name
    detach (.cleared names) (names.foldl Bus.clear ·)
    return .nothing
  | .describe stream => do
    require stream
    let count := (← get).bus.count stream
    return .text ("Event(" ++ Text.display stream ++ ", listeners=" ++ toString count ++ ")")
  | .names => return .texts (Topic.all.map Topic.name)
  | .interrupt => throw .interrupted

def perform (call : String → α → Work (Run α) Unit) (step : Step α) : Work (Run α) Unit := do
  note (.begun step)
  note (.done step (← result call step))

def play (call : String → α → Work (Run α) Unit) : Script α → Work (Run α) Unit
  | .stop => return
  | .step step next => do
    perform call step
    play call (next (← get).history)

/-- Do some work as what a listener does when it is called. -/
def answering (key : String) (value : α) (work : Work (Run α) Unit) : Work (Run α) Unit := do
  note (.called key value)
  let ended ← work.outcome
  note (.returned key !ended.isOk)
  ofExcept ended

/-- Call a listener. The depth bounds how many scripts may be under way inside one another. -/
def call (conduct : Conduct α) : (depth : Nat) → String → α → Work (Run α) Unit
  | 0, key, value => answering key value (return)
  | depth + 1, key, value => answering key value do
    play (call conduct depth) (conduct (← get).history key value)

def topStep (conduct : Conduct α) (depth : Nat) (step : Step α) : Work (Run α) Unit := do
  match ← (perform (call conduct depth) step).outcome with
  | .ok () => pure ()
  | .error fault => note (.failed fault)

def after (conduct : Conduct α) (depth : Nat) (run : Run α) (step : Step α) : Run α :=
  ((topStep conduct depth step).run.run run).2

end Run

variable {α : Type}

def start (others : List String) : Run α := ⟨.empty, others, {}, []⟩

def runOf (conduct : Conduct α) (depth : Nat) (others : List String) (steps : List (Step α)) : Run α :=
  steps.foldl (Run.after conduct depth) (start others)

structure Play (α : Type) where
  times : Nat
  steps : List (Step α)

/-- Every listener plays as often as it has been told to. A call is noted before it is answered. -/
def playing (plays : Table String (Play α)) : Conduct α := fun history key _ =>
  match plays.get? key with
  | some ⟨times, steps⟩ => if history.countP (Event.isCallOf key) ≤ times then .ofList steps else .stop
  | none => .stop

structure Report (α : Type) where
  record : List (Entry α)
  counts : List (String × Nat)

def reports (conduct : Conduct α) (depth : Nat) : Run α → List (Step α) → List (Report α)
  | _, [] => []
  | run, step :: rest =>
    let after := run.after conduct depth step
    ⟨(after.history.drop run.history.length).filterMap Event.entry?,
      after.streams.map fun stream => (stream, after.bus.count stream)⟩ :: reports conduct depth after rest

def reportsOf (others : List String) (plays : List (String × Play α)) (steps : List (Step α)) :
    List (Report α) :=
  let plays := Table.ofList plays
  let depth := plays.values.foldr (fun play rest => play.times + rest) 0
  reports (playing plays) depth (start others) steps

end GrammarWorkspace.Bus
