import GrammarWorkspace.Proofs.Grammar.Derivation
import GrammarWorkspace.Proofs.Grammar.Lexing

/-!
# Which tokens a statement is read from

The tokens of a text fall into stretches, one for each statement or error. Each identifier is read
from a token of its own, and what is wrong is put down to another one.
-/
namespace GrammarWorkspace.Grammar

def Identifier.token (id : Identifier) : Token := ⟨.identifier, id.name, id.span⟩

def Statement.identifiers : Statement → List Identifier
  | .importing _ => []
  | .production p => p.name :: p.mentions

def identifierTokens (symbols : List Symbol) : List Token :=
  (symbols.filterMap Symbol.identifier?).map Identifier.token

/-- The tokens that a statement is read from: the last one holds it apart from what comes after. -/
structure Takes (used : List Token) (s : Statement) : Prop where
  identifiers : (s.identifiers.map Identifier.token).Sublist used
  parts : s.identifiers ≠ [] → ∀ t ∈ used, t.kind.parts = true
  last : ∃ init last, used = init ++ [last] ∧ last.kind.parts = true

theorem DerivesSymbol.parts {t : Token} {s : Symbol} (h : DerivesSymbol t s) : t.kind.parts = true := by
  cases h with
  | identifier kind | terminal kind | empty kind => rw [kind]; rfl

theorem DerivesSymbol.identifierTokens_sublist {t : Token} {s : Symbol} (h : DerivesSymbol t s) :
    (identifierTokens [s]).Sublist [t] := by
  cases h with
  | identifier kind =>
    rw [show t = Identifier.token ⟨t.text, t.span⟩ by rw [Identifier.token, ← kind]]
    exact List.Sublist.refl _
  | terminal | empty => exact List.nil_sublist _

theorem DerivesAlternative.takes {used : List Token} {symbols : List Symbol} (h : DerivesAlternative used symbols) :
    (identifierTokens symbols).Sublist used ∧ ∀ t ∈ used, t.kind.parts = true := by
  induction h with
  | single first => exact ⟨first.identifierTokens_sublist, fun u hu => List.mem_singleton.mp hu ▸ first.parts⟩
  | @cons t s used symbols first _ ih =>
    constructor
    · have both := first.identifierTokens_sublist.append ih.1
      rwa [identifierTokens, identifierTokens, ← List.map_append, ← List.filterMap_append] at both
    · exact List.forall_mem_cons.mpr ⟨first.parts, ih.2⟩

theorem DerivesAlternatives.takes {used : List Token} {all : List (List Symbol)}
    (h : DerivesAlternatives used all) :
    (identifierTokens all.flatten).Sublist used ∧ ∀ t ∈ used, t.kind.parts = true := by
  induction h with
  | last first => simpa using first.takes
  | @bar used symbols bar more others first kind _ ih =>
    obtain ⟨taken, parts⟩ := first.takes
    constructor
    · rw [List.flatten_cons, identifierTokens, List.filterMap_append, List.map_append]
      exact taken.append (ih.1.cons bar)
    · refine List.forall_mem_append.mpr ⟨parts, List.forall_mem_cons.mpr ⟨?_, ih.2⟩⟩
      rw [kind]
      rfl

theorem DerivesStatement.takes {used : List Token} {s : Statement} (h : DerivesStatement used s) :
    Takes used s := by
  cases h with
  | @importing directive path _ _ string =>
    refine ⟨List.nil_sublist _, fun none => absurd rfl none, [directive], path, rfl, ?_⟩
    rw [string]
    rfl
  | @importingClosed directive path last _ _ _ closed =>
    refine ⟨List.nil_sublist _, fun none => absurd rfl none, [directive, path], last, rfl, ?_⟩
    rw [closed]
    rfl
  | @production name define used all last kind define_kind derived closed =>
    obtain ⟨taken, parts⟩ := derived.takes
    have last_parts : last.kind.parts = true := by
      rw [closed]
      rfl
    refine ⟨?_, fun _ => ?_, name :: define :: used, last, by simp, last_parts⟩
    · simp only [Statement.identifiers, List.map_cons]
      rw [show Identifier.token ⟨name.text, name.span⟩ = name by rw [Identifier.token, ← kind]]
      exact ((taken.trans (List.sublist_append_left _ _)).cons define).cons_cons name
    · refine List.forall_mem_cons.mpr ⟨by rw [kind]; rfl, List.forall_mem_cons.mpr ⟨by rw [define_kind]; rfl, ?_⟩⟩
      exact List.forall_mem_append.mpr ⟨parts, List.forall_mem_singleton.mpr last_parts⟩

namespace Parser

variable {stop : Location} {tokens : List Token}

inductive Segmented (stop : Location) : List Token → List (Except SyntaxError Statement) → Prop
  | nil : Segmented stop [] []
  | read {used rest s outcomes} : Takes used s → Segmented stop rest outcomes →
      Segmented stop (used ++ rest) (.ok s :: outcomes)
  | refused {used rest e outcomes} : e.span ∈ used.map Token.span →
      (rest = [] ∨ ∃ init last, used = init ++ [last] ∧ last.kind = .semicolon) →
      Segmented stop rest outcomes → Segmented stop (used ++ rest) (.error e :: outcomes)
  | ended {used e} : e.span = .point stop → Segmented stop used [.error e]

theorem afterSemicolon_cons (t : Token) (rest : List Token) : afterSemicolon (t :: rest) =
    if t.kind = .semicolon then rest else afterSemicolon rest := by
  by_cases h : t.kind = .semicolon <;> simp [afterSemicolon, h]

theorem afterSemicolon_spec (tokens : List Token) : ∃ used, tokens = used ++ afterSemicolon tokens ∧
    (afterSemicolon tokens = [] ∨ ∃ init last, used = init ++ [last] ∧ last.kind = .semicolon) := by
  induction tokens with
  | nil => exact ⟨[], rfl, Or.inl rfl⟩
  | cons t rest ih =>
    rw [afterSemicolon_cons]
    split
    · exact ⟨[t], rfl, Or.inr ⟨[], t, rfl, ‹_›⟩⟩
    · obtain ⟨used, rest_eq, closed⟩ := ih
      refine ⟨t :: used, by rw [List.cons_append, ← rest_eq], closed.imp_right ?_⟩
      rintro ⟨init, last, rfl, kind⟩
      exact ⟨t :: init, last, rfl, kind⟩

/-- The statements are read from the tokens one after the other, and none is left out. -/
theorem segmented_outcomes (stop : Location) (tokens : List Token) :
    Segmented stop tokens (outcomes stop tokens) := by
  fun_induction outcomes stop tokens with
  | case1 => exact .nil
  | case2 t rest s rest' short h ih =>
    have read := reads_statement stop (t :: rest)
    rw [show statement stop (t :: rest) = _ from congrArg Subtype.val h] at read
    obtain ⟨used, tokens_eq, takes⟩ := read
    rw [tokens_eq]
    exact .read takes.takes ih
  | case3 t rest failure short h ih =>
    have read := reads_statement stop (t :: rest)
    rw [show statement stop (t :: rest) = _ from congrArg Subtype.val h] at read
    have refuses : Refuses stop (t :: rest) failure := read
    obtain ⟨skipped, rest_eq, closed⟩ := afterSemicolon_spec failure.rest
    -- the token with the error is among those that are skipped, if not among those before
    have refused : ∀ used, t :: rest = used ++ failure.rest →
        failure.error.span ∈ (used ++ skipped).map Token.span →
        Segmented stop (t :: rest) (.error failure.error :: outcomes stop (afterSemicolon failure.rest)) := by
      intro used tokens_eq mem
      have parts : t :: rest = (used ++ skipped) ++ afterSemicolon failure.rest := by
        rw [List.append_assoc, ← rest_eq, tokens_eq]
      rw [parts]
      refine .refused mem (closed.imp_right ?_) ih
      rintro ⟨init, last, rfl, kind⟩
      exact ⟨used ++ init, last, by rw [List.append_assoc], kind⟩
    cases refuses with
    | passed used tokens_eq mem =>
      apply refused used tokens_eq
      rw [List.map_append]
      exact List.mem_append_left _ mem
    | @met used u rest' tokens_eq head_eq span_eq =>
      apply refused used tokens_eq
      rw [List.map_append, span_eq]
      apply List.mem_append_right
      cases skipped with
      | nil =>
        have short := length_afterSemicolon failure.rest
        rw [List.nil_append] at rest_eq
        rw [← rest_eq, head_eq] at short
        simp only [List.length_cons] at short
        omega
      | cons v skipped =>
        rw [head_eq, List.cons_append] at rest_eq
        rw [(List.cons_eq_cons.mp rest_eq).1]
        exact List.mem_cons_self
    | ended rest_eq span_eq =>
      have none : outcomes stop (afterSemicolon failure.rest) = [] := by
        rw [rest_eq]
        simp [afterSemicolon, outcomes]
      rw [none]
      exact .ended span_eq

def identifiersOf : Except SyntaxError Statement → List Identifier
  | .ok s => s.identifiers
  | .error _ => []

/-- The places that an outcome speaks of: where its identifiers are, or what the error is put down to. -/
def spansOf : Except SyntaxError Statement → List Span
  | .ok s => s.identifiers.map Identifier.span
  | .error e => [e.span]

def apart : Bool → List Token → List Token
  | _, [] => []
  | parted, t :: rest => (if parted then [t] else []) ++ apart t.kind.parts rest

theorem apart_sublist (parted : Bool) (tokens : List Token) : (apart parted tokens).Sublist tokens := by
  induction tokens generalizing parted with
  | nil => exact .slnil
  | cons t rest ih =>
    cases parted with
    | true => exact (ih t.kind.parts).cons_cons t
    | false => exact (ih t.kind.parts).cons t

theorem apart_sublist_apart (parted : Bool) (tokens : List Token) :
    (apart parted tokens).Sublist (apart true tokens) := by
  cases parted with
  | true => exact List.Sublist.refl _
  | false =>
    cases tokens with
    | nil => exact .slnil
    | cons t rest => exact (List.Sublist.refl _).cons t

theorem apart_append {last : Token} (parts : last.kind.parts = true) (parted : Bool)
    (init rest : List Token) :
    apart parted (init ++ last :: rest) = apart parted (init ++ [last]) ++ apart true rest := by
  induction init generalizing parted with
  | nil => cases parted <;> simp [apart, parts]
  | cons t init ih => rw [List.cons_append, List.cons_append, apart, apart, ih, List.append_assoc]

theorem apart_eq_self {tokens : List Token} (parts : ∀ t ∈ tokens, t.kind.parts = true) :
    apart true tokens = tokens := by
  induction tokens with
  | nil => rfl
  | cons t rest ih =>
    rw [apart, parts t List.mem_cons_self, ih fun u hu => parts u (List.mem_cons_of_mem t hu)]
    rfl

namespace Segmented

variable {outcomes : List (Except SyntaxError Statement)}

/-- Errors are put down to other tokens than those of the identifiers, and each in its turn. -/
theorem spans_sublist (h : Segmented stop tokens outcomes) :
    (outcomes.flatMap spansOf).Sublist (tokens.map Token.span ++ [.point stop]) := by
  induction h with
  | nil => exact List.nil_sublist _
  | read takes _ ih =>
    have taken := takes.identifiers.map Token.span
    rw [List.map_map] at taken
    rw [List.flatMap_cons, List.map_append, List.append_assoc]
    exact taken.append ih
  | refused mem _ _ ih =>
    rw [List.flatMap_cons, List.map_append, List.append_assoc]
    exact (List.singleton_sublist.mpr mem).append ih
  | ended span_eq =>
    simp only [List.flatMap_cons, spansOf, span_eq, List.flatMap_nil, List.append_nil]
    exact List.sublist_append_right _ _

theorem tokens_sublist (h : Segmented stop tokens outcomes) :
    ((outcomes.flatMap identifiersOf).map Identifier.token).Sublist (apart true tokens) := by
  induction h with
  | nil => exact List.nil_sublist _
  | @read used rest s outcomes takes _ ih =>
    obtain ⟨init, last, rfl, last_parts⟩ := takes.last
    rw [List.flatMap_cons, List.map_append, List.append_assoc, List.singleton_append,
      apart_append last_parts]
    refine List.Sublist.append ?_ ih
    by_cases none : s.identifiers = []
    · simp [identifiersOf, none]
    · rw [apart_eq_self (takes.parts none)]
      exact takes.identifiers
  | refused _ closed _ ih =>
    rw [List.flatMap_cons, identifiersOf, List.nil_append]
    rcases closed with rfl | ⟨init, last, rfl, kind⟩
    · exact ih.trans (List.nil_sublist _)
    · rw [List.append_assoc, List.singleton_append, apart_append (by rw [kind]; rfl)]
      exact ih.trans (List.sublist_append_right _ _)
  | ended => exact List.nil_sublist _

end Segmented
end Parser

theorem identifiers_ofOutcomes (outcomes : List (Except SyntaxError Statement)) :
    (Tree.ofOutcomes outcomes).identifiers = outcomes.flatMap Parser.identifiersOf := by
  have one : ∀ o : Except SyntaxError Statement,
      (o.toOption.bind Statement.production?).toList.flatMap (fun p => p.name :: p.mentions) =
        Parser.identifiersOf o := by
    intro o
    match o with
    | .error _ => rfl
    | .ok (.importing _) => rfl
    | .ok (.production p) => exact List.append_nil _
  change (outcomes.filterMap fun o => o.toOption.bind Statement.production?).flatMap _ = _
  rw [List.filterMap_eq_flatMap_toList, List.flatMap_assoc]
  simp only [one]

end GrammarWorkspace.Grammar
