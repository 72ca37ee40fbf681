import GrammarWorkspace.Update.Scenario
import Mathlib.Algebra.BigOperators.Group.List.Basic
import Mathlib.Algebra.Ring.Int.Defs

/-! What the history of a run tells at each of its points: which reports and blocks are under way,
how many suspensions are held, and what has happened since the last report began. -/
namespace GrammarWorkspace.Update

variable {h : List Event} {e : Event} {law : List Event → Event → Prop}

/-- Nothing begins, nothing ends and nothing is asked for. -/
def Happening.isPlain : Happening → Bool
  | .passed .reportEnded | .passed (.done _) | .caught _ | .failed _ => true
  | _ => false

namespace Event

def beginsReport (e : Event) : Bool :=
  match e.what with
  | .passed .reportBegun => true
  | _ => false

def requests (e : Event) : Bool :=
  match e.what with
  | .calling .request => true
  | _ => false

def escapes (e : Event) : Bool :=
  match e.what with
  | .over .report byFault | .over (.body .rebuilding) byFault => byFault
  | _ => false

/-- A call or the end of a body after which a report may begin. A resume without a suspension does
nothing, and a rebuilding block left by a fault reports nothing. -/
def frees (e : Event) : Bool :=
  match e.what with
  | .calling .request | .over (.body .rebuilding) false => true
  | .calling .resume | .over (.body .suspended) _ => e.gate.isSuspended
  | _ => false

def change (e : Event) : ℤ :=
  match e.what with
  | .calling .suspend | .passed (.opening .suspended) => 1
  | .calling .resume | .over (.body .suspended) _ => if e.gate.isSuspended then -1 else 0
  | _ => 0

theorem change_eq (e : Event) :
    e.change = 0 ∨ e.change = 1 ∨ (e.change = -1 ∧ e.gate.isSuspended = true) := by
  unfold change
  split
  · exact Or.inr (Or.inl rfl)
  · exact Or.inr (Or.inl rfl)
  · split <;> simp_all
  · split <;> simp_all
  · exact Or.inl rfl

end Event

structure Activity where
  scope : Scope
  found : Gate
  deriving Repr

def Activity.excludes (a : Activity) : Bool := a.scope = .report || a.scope = .body .rebuilding

def follow (stack : List Activity) (e : Event) : List Activity :=
  match e.what with
  | .passed .reportBegun => ⟨.report, e.gate⟩ :: stack
  | .passed (.opening block) => ⟨.block block, e.gate⟩ :: stack
  | .passed (.entered block) => ⟨.body block, e.gate⟩ :: stack
  | .over _ _ => stack.tail
  | _ => stack

/-- What is under way after a history, innermost first. -/
def underWay (h : List Event) : List Activity := h.foldl follow []

def absorbs : List Activity → Bool
  | [] => false
  | a :: rest => (a.scope = .body .rebuilding && rest.any (·.scope = .report)) || absorbs rest

def balance (h : List Event) : ℤ := (h.map Event.change).sum

/-- The law holds of every event, seen after the events before it. -/
def Throughout (law : List Event → Event → Prop) (h : List Event) : Prop :=
  ∀ before e after, h = before ++ e :: after → law before e

def Since (law : List Event → Event → Prop) (h : List Event) : Prop :=
  ∃ before e after, h = before ++ e :: after ∧ law before e ∧ ∀ x ∈ after, x.beginsReport = false

def Direct (before : List Event) (e : Event) : Prop :=
  e.requests = true ∧ absorbs (underWay before) = false

/-- Since the last report began there was a request that it does not answer. -/
def Owed : List Event → Prop := Since Direct

/-- Since the last report began a fault has left a report or a rebuilding block. -/
def Escaped : List Event → Prop := Since fun _ e => e.escapes = true

/-- What has just happened leaves nothing in the way of the report that is owed. -/
structure Ripe (h : List Event) : Prop where
  freed : ∃ e, h.getLast? = some e ∧ e.frees = true
  balance_eq : balance h = 0
  free : ∀ a ∈ underWay h, a.excludes = false
  owed : Owed h

@[simp] theorem underWay_nil : underWay [] = [] := rfl

@[simp] theorem underWay_append (h : List Event) (e : Event) :
    underWay (h ++ [e]) = follow (underWay h) e := by
  simp [underWay]

@[simp] theorem balance_nil : balance [] = 0 := rfl

@[simp] theorem balance_append (h : List Event) (e : Event) :
    balance (h ++ [e]) = balance h + e.change := by
  simp [balance]

/-- An event with a history before it is the last one or stands before the last one. -/
theorem append_singleton_eq {before after : List Event} {x : Event} :
    h ++ [e] = before ++ x :: after ↔
      (before = h ∧ x = e ∧ after = []) ∨ ∃ rest, after = rest ++ [e] ∧ h = before ++ x :: rest := by
  constructor
  · intro eq
    rcases List.eq_nil_or_concat after with rfl | ⟨rest, last, rfl⟩
    · left
      obtain ⟨same, last⟩ := List.append_inj' eq rfl
      cases last
      exact ⟨same.symm, rfl, rfl⟩
    · right
      have eq : h ++ [e] = (before ++ x :: rest) ++ [last] := by simpa using eq
      obtain ⟨same, last⟩ := List.append_inj' eq rfl
      cases last
      exact ⟨rest, by simp, same⟩
  · rintro (⟨rfl, rfl, rfl⟩ | ⟨rest, rfl, rfl⟩)
    · rfl
    · simp

theorem throughout_nil : Throughout law [] := by
  intro before e after eq
  simp at eq

theorem throughout_append : Throughout law (h ++ [e]) ↔ Throughout law h ∧ law h e := by
  constructor
  · intro all
    constructor
    · rintro before x rest rfl
      exact all before x (rest ++ [e]) (by simp)
    · exact all h e [] rfl
  · rintro ⟨old, last⟩ before x after eq
    rcases append_singleton_eq.mp eq with ⟨rfl, rfl, -⟩ | ⟨rest, -, rfl⟩
    · exact last
    · exact old before x rest rfl

theorem not_since_nil : ¬ Since law [] := by
  rintro ⟨before, e, after, eq, -⟩
  simp at eq

theorem since_append :
    Since law (h ++ [e]) ↔ law h e ∨ (Since law h ∧ e.beginsReport = false) := by
  constructor
  · rintro ⟨before, x, after, eq, holds, quiet⟩
    rcases append_singleton_eq.mp eq with ⟨rfl, rfl, -⟩ | ⟨rest, rfl, rfl⟩
    · exact Or.inl holds
    · right
      constructor
      · exact ⟨before, x, rest, rfl, holds, fun y hy => quiet y (List.mem_append_left _ hy)⟩
      · exact quiet e (by simp)
  · rintro (holds | ⟨⟨before, x, rest, rfl, holds, quiet⟩, last⟩)
    · exact ⟨h, e, [], rfl, holds, by simp⟩
    · refine ⟨before, x, rest ++ [e], by simp, holds, fun y hy => ?_⟩
      rcases List.mem_append.mp hy with hy | hy
      · exact quiet y hy
      · rw [List.mem_singleton.mp hy]
        exact last

theorem not_ripe_append (frees : e.frees = false) : ¬ Ripe (h ++ [e]) := by
  rintro ⟨⟨last, last_eq, freed⟩, -⟩
  rw [List.getLast?_concat, Option.some.injEq] at last_eq
  rw [← last_eq, frees] at freed
  cases freed

def phaseOf : List Activity → Phase
  | [] => .idle
  | a :: rest =>
    match a.scope with
    | .report => .reporting
    | .body .rebuilding => .rebuilding
    | _ => phaseOf rest

def Single : List Activity → Prop
  | [] => True
  | a :: rest => (a.scope = .report → phaseOf rest = .idle) ∧ Single rest

variable {stack : List Activity}

theorem phaseOf_eq_idle_iff : phaseOf stack = .idle ↔ ∀ a ∈ stack, a.excludes = false := by
  induction stack with
  | nil => simp [phaseOf]
  | cons a rest ih =>
    obtain ⟨scope, found⟩ := a
    match scope with
    | .report => simp [phaseOf, Activity.excludes]
    | .body .rebuilding => simp [phaseOf, Activity.excludes]
    | .body .suspended => simp [phaseOf, Activity.excludes, ih]
    | .block block => simp [phaseOf, Activity.excludes, ih]

theorem absorbs_of_idle (free : phaseOf stack = .idle) : absorbs stack = false := by
  induction stack with
  | nil => rfl
  | cons a rest ih =>
    obtain ⟨scope, found⟩ := a
    match scope with
    | .report => cases free
    | .body .rebuilding => cases free
    | .body .suspended => simpa [absorbs] using ih free
    | .block block => simpa [absorbs] using ih free

/-- Inside a report nothing but its own rebuilding blocks takes the phase from it. -/
theorem any_report_of_not_absorbs (direct : absorbs stack = false)
    (other : phaseOf stack ≠ .reporting) : (stack.any (·.scope = .report)) = false := by
  induction stack with
  | nil => rfl
  | cons a rest ih =>
    obtain ⟨scope, found⟩ := a
    match scope with
    | .report => exact absurd rfl other
    | .body .rebuilding =>
      simp only [absorbs, decide_true, Bool.true_and, Bool.or_eq_false_iff] at direct
      simpa using direct.1
    | .body .suspended => simpa using ih direct other
    | .block block => simpa using ih direct other

theorem any_report_of_reporting (reporting : phaseOf stack = .reporting) :
    (stack.any (·.scope = .report)) = true := by
  induction stack with
  | nil => cases reporting
  | cons a rest ih =>
    obtain ⟨scope, found⟩ := a
    match scope with
    | .report => simp
    | .body .rebuilding => cases reporting
    | .body .suspended => simpa using ih reporting
    | .block block => simpa using ih reporting

structure Alike (stack stack' : List Activity) : Prop where
  single : Single stack → Single stack'
  phaseOf_eq : phaseOf stack' = phaseOf stack
  absorbs_eq : absorbs stack' = absorbs stack

theorem Alike.refl (stack : List Activity) : Alike stack stack := ⟨id, rfl, rfl⟩

theorem alike_push {a : Activity} (shared : a.excludes = false) : Alike stack (a :: stack) := by
  obtain ⟨scope, found⟩ := a
  match scope with
  | .report | .body .rebuilding => cases shared
  | .body .suspended | .block block =>
    constructor
    · intro single
      constructor
      · intro reports
        cases reports
      · exact single
    · rfl
    · simp [absorbs]

theorem alike_pop {a : Activity} (shared : a.excludes = false) : Alike (a :: stack) stack :=
  ⟨And.right, (alike_push shared).phaseOf_eq.symm, (alike_push shared).absorbs_eq.symm⟩

end GrammarWorkspace.Update
