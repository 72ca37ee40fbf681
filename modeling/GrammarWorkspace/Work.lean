import GrammarWorkspace.Naming.Fault

/-!
# Work on a state

Work changes a state and ends with a result or a fault. A fault undoes nothing: what was changed
before it stays changed.
-/
namespace GrammarWorkspace

abbrev Work (σ α : Type) := ExceptT Fault (StateM σ) α

namespace Work

variable {σ α : Type}

def outcome (work : Work σ α) : Work σ (Except Fault α) :=
  ExceptT.mk do return .ok (← work.run)

/-- Do some work and clean up, whichever way it ended. A fault while cleaning up is the one that
counts. -/
def ensuring (work : Work σ α) (cleanup : Work σ Unit) : Work σ α := do
  let ended ← work.outcome
  cleanup
  ofExcept ended

def quietly (work : Work σ Unit) : Work σ Unit := do
  let _ ← work.outcome

end Work
end GrammarWorkspace
