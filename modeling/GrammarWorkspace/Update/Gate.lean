import GrammarWorkspace.Work

/-!
# The update gate

Requests for an update are gathered here and answered by reports. A request made while updates are
suspended, or while a rebuild or a report is under way, is only noted; as soon as nothing stands in
the way, one report answers all that have been noted. A rebuild inside a report belongs to that
report, so the requests made by it are forgotten.
-/
namespace GrammarWorkspace

inductive Phase where
  | idle
  | rebuilding
  | reporting
  deriving DecidableEq, Repr, Inhabited

structure Gate where
  phase : Phase
  suspensions : Int
  pending : Bool
  deriving DecidableEq, Repr, Inhabited

namespace Gate

def initial : Gate := ⟨.idle, 0, false⟩

def isSuspended (g : Gate) : Bool := 0 < g.suspensions

def isRebuilding (g : Gate) : Bool := g.phase == .rebuilding

def isDue (g : Gate) : Bool := g.pending && g.suspensions == 0

end Gate

class HasGate (σ : Type) where
  gate : σ → Gate
  setGate : Gate → σ → σ
  /-- How many more reports may make requests of their own. -/
  restless : σ → Nat
  gate_setGate : ∀ (g : Gate) (s : σ), gate (setGate g s) = g
  setGate_gate : ∀ s : σ, setGate (gate s) s = s
  setGate_setGate : ∀ (g g' : Gate) (s : σ), setGate g (setGate g' s) = setGate g s
  restless_setGate : ∀ (g : Gate) (s : σ), restless (setGate g s) = restless s

namespace Gate

variable {σ α : Type} [HasGate σ]

def read : Work σ Gate := return HasGate.gate (← get)

def change (f : Gate → Gate) : Work σ Unit :=
  modify fun s => HasGate.setGate (f (HasGate.gate s)) s

/-- Report until no request is due. Requests made by a report are answered by the next one. -/
def reportWhileDue (report : Work σ Unit) : Nat → Work σ Unit
  | 0 => return
  | rounds + 1 => do
    if (← read).isDue then
      change ({ · with pending := false })
      report
      reportWhileDue report rounds

def flush (report : Work σ Unit) : Work σ Unit := do
  let g ← read
  if g.pending ∧ ¬ g.isSuspended ∧ g.phase = .idle then
    change ({ · with phase := .reporting })
    Work.ensuring (reportWhileDue report (HasGate.restless (← get) + 1))
      (change ({ · with phase := .idle }))

def request (report : Work σ Unit) : Work σ Unit := do
  change ({ · with pending := true })
  flush report

def suspend : Work σ Unit := change fun g => { g with suspensions := g.suspensions + 1 }

/-- Take one suspension back. Without one there is nothing to do. -/
def resume (report : Work σ Unit) : Work σ Unit := do
  if (← read).isSuspended then
    change fun g => { g with suspensions := g.suspensions - 1 }
    flush report

def suspended (report : Work σ Unit) (work : Work σ α) : Work σ α := do
  suspend
  Work.ensuring work (resume report)

/-- Work that rebuilds. Inside a report the requests made by it are dropped, for they are part of
what is being reported. -/
def rebuilding (report : Work σ Unit) (work : Work σ α) : Work σ α := do
  let before ← read
  change ({ · with phase := .rebuilding })
  let result ← Work.ensuring work <| change fun g =>
    { g with
      phase := before.phase
      pending := if before.phase = .reporting then before.pending else g.pending }
  flush report
  return result

end Gate
end GrammarWorkspace
