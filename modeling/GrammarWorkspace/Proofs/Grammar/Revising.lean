import GrammarWorkspace.Proofs.Grammar.Pairing

/-!
# Statements that are spelled anew or stand elsewhere

Reading goes by the kinds of tokens. So tokens that are moved, and identifiers with another name, change
where things stand and what they are called, and nothing else.
-/
namespace GrammarWorkspace.Grammar

structure Revision where
  move : Location → Location
  places : List Span
  name : String

def Respelling.revision (r : Respelling) : Revision := ⟨r.move, r.places, r.name⟩

namespace Revision

variable (r : Revision)

def marks (t : Token) : Bool := t.kind = .identifier ∧ t.span ∈ r.places

def revise (t : Token) : Token := ⟨t.kind, if r.marks t then r.name else t.text, t.span.map r.move⟩

def reviseIdentifier (id : Identifier) : Identifier :=
  ⟨if id.span ∈ r.places then r.name else id.name, id.span.map r.move⟩

variable {r}

theorem revise_text_of_kind {t : Token} (h : t.kind ≠ .identifier) : (r.revise t).text = t.text := by
  simp [revise, marks, h]

theorem revise_text_of_span {t : Token} (h : t.span ∉ r.places) : (r.revise t).text = t.text := by
  simp [revise, marks, h]

theorem reviseIdentifier_of_kind {t : Token} (h : t.kind = .identifier) :
    r.reviseIdentifier ⟨t.text, t.span⟩ = ⟨(r.revise t).text, (r.revise t).span⟩ := by
  simp [reviseIdentifier, revise, marks, h]

/-- Tokens as they are revised. An error is not the same if what it is put down to has got a new name. -/
def pairing (r : Revision) : Pairing where
  view := ⟨r.reviseIdentifier, r.move⟩
  view' := ⟨id, id⟩
  token t t' := t' = r.revise t
  error e e' := e.span ∉ r.places → e' = e.map (Span.map r.move)
  kind_eq := by
    rintro t _ rfl
    rfl
  text_eq := by
    rintro t _ rfl kind
    refine (revise_text_of_kind ?_).symm
    rcases kind with kind | kind <;> rw [kind] <;> exact Kind.noConfusion
  span_eq := by
    rintro t _ rfl _
    rfl
  name_eq := by
    rintro t _ rfl kind
    exact reviseIdentifier_of_kind kind
  refused := by
    rintro t _ rfl kinds spared
    rw [revise_text_of_span spared]
    rfl
  unknown := by
    rintro t _ rfl kind spared
    rw [revise_text_of_span spared]
    rfl

end Revision

theorem View.statement_id (s : Statement) : (⟨id, id⟩ : View).statement s = s := by
  have symbol (s : Symbol) : (⟨id, id⟩ : View).symbol s = s := by cases s <;> rfl
  have alternatives (all : List (List Symbol)) : (⟨id, id⟩ : View).alternatives all = all :=
    List.map_id'' (fun symbols => List.map_id'' symbol symbols) all
  cases s with
  | importing i => rfl
  | production p =>
    exact congrArg Statement.production ((Production.mk.injEq ..).mpr ⟨rfl, alternatives p.alternatives, rfl⟩)

namespace Parser

variable {r : Revision} {stop : Location} {tokens : List Token}

def outcomeMap (r : Revision) : Except SyntaxError Statement → Except SyntaxError Statement
  | .ok s => .ok (s.map r.reviseIdentifier (Span.map r.move))
  | .error e => .error (e.map (Span.map r.move))

theorem outcomes_map_revise (tokens : List Token)
    (spared : ∀ e, .error e ∈ outcomes stop tokens → e.span ∉ r.places) :
    outcomes (r.move stop) (tokens.map r.revise) = (outcomes stop tokens).map (outcomeMap r) := by
  have paired : r.pairing.Tokens tokens (tokens.map r.revise) :=
    List.forall₂_map_right_iff.mpr (List.forall₂_same.mpr fun _ _ => rfl)
  have stops : r.pairing.Stops stop (r.move stop) := fun _ _ => rfl
  have one : ∀ o o', r.pairing.Outcome o o' → (∀ e, o = .error e → e.span ∉ r.places) → o' = outcomeMap r o := by
    intro o o' same spared
    match o, o' with
    | .ok s, .ok s' => exact congrArg Except.ok ((View.statement_id s').symm.trans same.symm)
    | .error e, .error e' => exact congrArg Except.error (same (spared e rfl))
    | .ok _, .error _ | .error _, .ok _ => cases same
  have all := outcomes_paired stops paired
  generalize outcomes stop tokens = os, outcomes (r.move stop) (tokens.map r.revise) = os' at all spared ⊢
  induction all with
  | nil => rfl
  | @cons o o' os os' same _ ih =>
    rw [List.map_cons, one o o' same fun e he => spared e (he ▸ List.mem_cons_self),
      ih fun e he => spared e (List.mem_cons_of_mem _ he)]

end Parser

theorem ofOutcomes_map (r : Revision) (outcomes : List (Except SyntaxError Statement)) :
    Tree.ofOutcomes (outcomes.map (Parser.outcomeMap r)) =
      (Tree.ofOutcomes outcomes).map r.reviseIdentifier (Span.map r.move) := by
  simp only [Tree.ofOutcomes, Tree.map, Tree.mk.injEq, List.filterMap_map, List.map_filterMap]
  refine ⟨?_, ?_, ?_⟩ <;>
  · congr 1
    funext o
    rcases o with _ | _ | _
    · rfl
    · rfl
    · rfl

end GrammarWorkspace.Grammar
