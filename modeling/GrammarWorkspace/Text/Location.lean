/-!
# Locations in a text

A location counts code points. Only a line feed ends a line; a carriage return is a character like
any other.
-/
namespace GrammarWorkspace

/-- A place between two characters: code points before it, and its one-based line and column. -/
structure Location where
  position : Nat
  line : Nat
  column : Nat
  deriving DecidableEq, Repr, Inhabited

namespace Location

def start : Location := ⟨0, 1, 1⟩

def next (l : Location) (c : Char) : Location :=
  if c = '\n' then ⟨l.position + 1, l.line + 1, 1⟩ else ⟨l.position + 1, l.line, l.column + 1⟩

def advance (l : Location) (text : List Char) : Location := text.foldl next l

/-- The location just after the last character of a text. -/
def ending (text : List Char) : Location := start.advance text

@[simp] theorem advance_nil (l : Location) : l.advance [] = l := rfl

@[simp] theorem advance_cons (l : Location) (c : Char) (text : List Char) :
    l.advance (c :: text) = (l.next c).advance text := rfl

@[simp] theorem advance_append (l : Location) (a b : List Char) :
    l.advance (a ++ b) = (l.advance a).advance b := by simp [advance]

@[simp] theorem position_next (l : Location) (c : Char) : (l.next c).position = l.position + 1 := by
  unfold next; split <;> rfl

@[simp] theorem position_advance (l : Location) (text : List Char) :
    (l.advance text).position = l.position + text.length := by
  induction text generalizing l with
  | nil => rfl
  | cons c rest ih => simp only [advance_cons, ih, position_next, List.length_cons]; omega

end Location

structure Span where
  start : Location
  stop : Location
  deriving DecidableEq, Repr, Inhabited

namespace Span

def point (l : Location) : Span := ⟨l, l⟩

/-- A zero-based position lies in a span, whose end counts as inside. -/
def Contains (s : Span) (line character : Int) : Prop :=
  s.start.line - 1 ≤ line ∧ line ≤ s.stop.line - 1 ∧
    (line = s.start.line - 1 → (s.start.column : Int) - 1 ≤ character) ∧
    (line = s.stop.line - 1 → character ≤ (s.stop.column : Int) - 1)

instance (s : Span) (line character : Int) : Decidable (s.Contains line character) := by
  unfold Contains; infer_instance

end Span
end GrammarWorkspace
