import GrammarWorkspace.Work

/-!
# The bus

Listeners subscribe to topics and are called, in the order in which they subscribed, when a topic
fires. A subscription is given up by naming its topic and listener: the oldest subscription of that
listener to that topic ends.
-/
namespace GrammarWorkspace

structure Subscription (τ ι : Type) where
  id : Nat
  topic : τ
  listener : ι
  deriving DecidableEq, Repr

/-- The subscriptions in force, oldest first, and the number of the next one. -/
structure Bus (τ ι : Type) where
  next : Nat
  active : List (Subscription τ ι)
  deriving Repr

namespace Bus

variable {τ ι σ : Type} [DecidableEq τ] [DecidableEq ι]

def empty : Bus τ ι := ⟨0, []⟩

def listeners (b : Bus τ ι) (topic : τ) : List ι :=
  (b.active.filter (·.topic = topic)).map Subscription.listener

def count (b : Bus τ ι) (topic : τ) : Nat := (b.listeners topic).length

def subscribe (b : Bus τ ι) (topic : τ) (listener : ι) : Subscription τ ι × Bus τ ι :=
  let subscription := ⟨b.next, topic, listener⟩
  (subscription, ⟨b.next + 1, b.active ++ [subscription]⟩)

def unsubscribe (b : Bus τ ι) (topic : τ) (listener : ι) : Bus τ ι :=
  { b with active := b.active.eraseP fun s => s.topic = topic ∧ s.listener = listener }

def dispose (b : Bus τ ι) (s : Subscription τ ι) : Bus τ ι := b.unsubscribe s.topic s.listener

def clear (b : Bus τ ι) (topic : τ) : Bus τ ι :=
  { b with active := b.active.filter (·.topic ≠ topic) }

def silence (b : Bus τ ι) : Bus τ ι := { b with active := [] }

/-- Call listeners one after the other. A fault ends the call of one listener and nothing else. -/
def deliver (call : ι → Work σ Unit) : List ι → Work σ Unit
  | [] => return
  | listener :: rest => do
    (call listener).quietly
    deliver call rest

end Bus
end GrammarWorkspace
