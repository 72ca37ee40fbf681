import GrammarWorkspace.Proofs.Grammar.Segments
import GrammarWorkspace.Proofs.Grammar.Shifting

/-!
# Two lists of tokens read in step

Reading goes by the kinds of tokens, and by what directives and strings say. So from tokens that correspond
to one another, one by one, statements and errors are read that correspond to one another.
-/
namespace GrammarWorkspace.Grammar

def Symbol.map (f : Identifier → Identifier) (g : Span → Span) : Symbol → Symbol
  | .identifier id => .identifier (f id)
  | .terminal value span => .terminal value (g span)
  | .empty span => .empty (g span)

def Production.map (f : Identifier → Identifier) (g : Span → Span) (p : Production) : Production :=
  ⟨f p.name, p.alternatives.map (·.map (Symbol.map f g)), g p.span⟩

def Import.map (g : Span → Span) (i : Import) : Import := ⟨i.path, g i.span⟩

def Statement.map (f : Identifier → Identifier) (g : Span → Span) : Statement → Statement
  | .importing i => .importing (i.map g)
  | .production p => .production (p.map f g)

def SyntaxError.map (g : Span → Span) (e : SyntaxError) : SyntaxError := ⟨e.cause, g e.span⟩

def Tree.map (f : Identifier → Identifier) (g : Span → Span) (t : Tree) : Tree :=
  ⟨t.imports.map (.map g), t.productions.map (.map f g), t.errors.map (.map g)⟩

structure View where
  identifier : Identifier → Identifier
  location : Location → Location

namespace View

variable (v : View)

def span : Span → Span := .map v.location

def symbol : Symbol → Symbol := .map v.identifier v.span

def alternatives : List (List Symbol) → List (List Symbol) := .map (.map v.symbol)

def production : Production → Production := .map v.identifier v.span

def importing : Import → Import := .map v.span

def statement : Statement → Statement := .map v.identifier v.span

theorem span_through {v v' : View} {s s' u u' : Span} (first : v.span s = v'.span s') (last : v.span u = v'.span u') :
    v.span ⟨s.start, u.stop⟩ = v'.span ⟨s'.start, u'.stop⟩ :=
  congrArg₂ Span.mk (congrArg Span.start first) (congrArg Span.stop last)

end View

/-- Which tokens of one text correspond to which of another one, and so do the errors that are put down to
them. Seen from either side, they stand for the same. -/
structure Pairing where
  view : View
  view' : View
  token : Token → Token → Prop
  error : SyntaxError → SyntaxError → Prop
  kind_eq : ∀ {t t'}, token t t' → t.kind = t'.kind
  text_eq : ∀ {t t'}, token t t' → t.kind = .directive ∨ t.kind = .string → t.text = t'.text
  span_eq : ∀ {t t'}, token t t' → t.kind ≠ .invalid → view.span t.span = view'.span t'.span
  name_eq : ∀ {t t'}, token t t' → t.kind = .identifier →
    view.identifier ⟨t.text, t.span⟩ = view'.identifier ⟨t'.text, t'.span⟩
  refused : ∀ {t t'}, token t t' → ∀ kinds,
    error ⟨.expected kinds (some t.text), t.span⟩ ⟨.expected kinds (some t'.text), t'.span⟩
  unknown : ∀ {t t'}, token t t' → t.kind = .directive →
    error ⟨.unknownDirective t.text, t.span⟩ ⟨.unknownDirective t'.text, t'.span⟩

namespace Pairing

variable (P : Pairing)

theorem span_eq_of {t t' : Token} {kind : Kind} (h : P.token t t') (kind_eq : t.kind = kind) (valid : kind ≠ .invalid) :
    P.view.span t.span = P.view'.span t'.span := P.span_eq h (kind_eq ▸ valid)

def Tokens : List Token → List Token → Prop := List.Forall₂ P.token

def Stops (stop stop' : Location) : Prop :=
  ∀ kinds, P.error ⟨.expected kinds none, .point stop⟩ ⟨.expected kinds none, .point stop'⟩

def Outcome : Except SyntaxError Statement → Except SyntaxError Statement → Prop
  | .ok s, .ok s' => P.view.statement s = P.view'.statement s'
  | .error e, .error e' => P.error e e'
  | _, _ => False

end Pairing

namespace Parser

variable {α β : Type} {P : Pairing} {stop stop' : Location} {tokens tokens' : List Token}

inductive InStep (P : Pairing) (V : α → α → Prop) :
    Except Failure (α × List Token) → Except Failure (α × List Token) → Prop
  | read {a a' rest rest'} : V a a' → P.Tokens rest rest' → InStep P V (.ok (a, rest)) (.ok (a', rest'))
  | refused {f f' : Failure} : P.error f.error f'.error → P.Tokens f.rest f'.rest → InStep P V (.error f) (.error f')

theorem InStep.bind {V : α → α → Prop} {W : β → β → Prop} {r r' : Except Failure (α × List Token)}
    {next next' : α × List Token → Except Failure (β × List Token)} (h : InStep P V r r')
    (hn : ∀ a a' rest rest', V a a' → P.Tokens rest rest' → InStep P W (next (a, rest)) (next' (a', rest'))) :
    InStep P W (r >>= next) (r' >>= next') := by
  cases h with
  | read same paired => exact hn _ _ _ _ same paired
  | refused error paired => exact .refused error paired

theorem inStep_fail (stops : P.Stops stop stop') {V : α → α → Prop} (kinds : List Kind)
    (paired : P.Tokens tokens tokens') :
    InStep P V (.error (fail stop kinds tokens)) (.error (fail stop' kinds tokens')) := by
  cases paired with
  | nil => exact .refused (stops kinds) .nil
  | cons first rest => exact .refused (P.refused first kinds) (.cons first rest)

theorem inStep_expect (stops : P.Stops stop stop') (kinds : List Kind) (paired : P.Tokens tokens tokens') :
    InStep P (fun t t' => P.token t t' ∧ t.kind ∈ kinds) (expect stop kinds tokens) (expect stop' kinds tokens') := by
  cases paired with
  | nil => exact inStep_fail stops kinds .nil
  | @cons t t' rest rest' first others =>
    by_cases known : t.kind ∈ kinds
    · rw [expect_cons_of_mem known, expect_cons_of_mem (P.kind_eq first ▸ known)]
      exact .read ⟨first, known⟩ others
    · rw [expect_cons_of_not_mem known, expect_cons_of_not_mem (P.kind_eq first ▸ known)]
      exact inStep_fail stops kinds (.cons first others)

theorem symbol?_paired {t t' : Token} (h : P.token t t') :
    (symbol? t).map P.view.symbol = (symbol? t').map P.view'.symbol := by
  have kind_eq := P.kind_eq h
  cases kind : t.kind with
  | identifier =>
    have name_eq := P.name_eq h kind
    simp only [symbol?, ← kind_eq, kind, Option.map_some, View.symbol, Symbol.map, name_eq]
  | string =>
    have span_eq := P.span_eq_of h kind (by decide)
    simp only [symbol?, ← kind_eq, kind, Option.map_some, View.symbol, Symbol.map, span_eq, P.text_eq h (.inr kind)]
  | empty =>
    have span_eq := P.span_eq_of h kind (by decide)
    simp only [symbol?, ← kind_eq, kind, Option.map_some, View.symbol, Symbol.map, span_eq]
  | _ => simp only [symbol?, ← kind_eq, kind, Option.map_none]

theorem symbols_paired (paired : P.Tokens tokens tokens') :
    (symbols tokens).1.map P.view.symbol = (symbols tokens').1.map P.view'.symbol ∧
      P.Tokens (symbols tokens).2 (symbols tokens').2 := by
  induction paired with
  | nil => exact ⟨rfl, .nil⟩
  | @cons t t' rest rest' first others ih =>
    have same := symbol?_paired first
    cases h : symbol? t with
    | none =>
      rw [h] at same
      have h' := Option.map_eq_none_iff.mp same.symm
      simp only [symbols, h, h']
      exact ⟨rfl, .cons first others⟩
    | some s =>
      rw [h] at same
      obtain ⟨s', h', s_eq⟩ := Option.map_eq_some_iff.mp same.symm
      simp only [symbols, h, h', List.map_cons, s_eq, ih.1]
      exact ⟨trivial, ih.2⟩

theorem after?_paired (kind : Kind) (paired : P.Tokens tokens tokens') :
    Option.Rel P.Tokens ((after? kind tokens).map Subtype.val) ((after? kind tokens').map Subtype.val) := by
  cases paired with
  | nil => exact .none
  | @cons t t' rest rest' first others =>
    rw [after?, after?, P.kind_eq first]
    split
    · exact .some others
    · exact .none

theorem inStep_alternatives (stops : P.Stops stop stop') (paired : P.Tokens tokens tokens') :
    InStep P (fun all all' => P.view.alternatives all = P.view'.alternatives all') (alternatives stop tokens)
      (alternatives stop' tokens') := by
  have isEmpty {tokens tokens' : List Token} (paired : P.Tokens tokens tokens') :
      (symbols tokens').1.isEmpty = (symbols tokens).1.isEmpty := by
    have same := congrArg List.isEmpty (symbols_paired paired).1
    rw [List.isEmpty_map, List.isEmpty_map] at same
    exact same.symm
  fun_induction alternatives stop tokens generalizing tokens' with
  | case1 =>
    rename_i h
    rw [alternatives_of_isEmpty ((isEmpty paired).trans h)]
    exact inStep_fail stops _ (symbols_paired paired).2
  | case2 =>
    rename_i some none
    obtain ⟨same, left⟩ := symbols_paired paired
    have bars := after?_paired .bar left
    rw [none] at bars
    generalize bar_eq : (after? .bar (symbols tokens').2).map Subtype.val = more at bars
    cases bars
    rw [alternatives_of_none (by rwa [isEmpty paired]) bar_eq]
    exact .read (congrArg (fun symbols => [symbols]) same) left
  | case3 =>
    rename_i some rest shorter found failure failed ih
    obtain ⟨-, left⟩ := symbols_paired paired
    have bars := after?_paired .bar left
    rw [found] at bars
    generalize bar_eq : (after? .bar (symbols tokens').2).map Subtype.val = more at bars
    cases bars with
    | some onward =>
      have read := ih onward
      rw [alternatives_of_some (by rwa [isEmpty paired]) bar_eq]
      rw [failed] at read
      generalize alternatives stop' _ = r' at read ⊢
      cases read with
      | refused error left => exact .refused error left
  | case4 =>
    rename_i some rest shorter found others left read ih
    obtain ⟨same, left⟩ := symbols_paired paired
    have bars := after?_paired .bar left
    rw [found] at bars
    generalize bar_eq : (after? .bar (symbols tokens').2).map Subtype.val = more at bars
    cases bars with
    | some onward =>
      have inStep := ih onward
      rw [alternatives_of_some (by rwa [isEmpty paired]) bar_eq]
      rw [read] at inStep
      generalize alternatives stop' _ = r' at inStep ⊢
      cases inStep with
      | read others_eq left => exact .read (congrArg₂ List.cons same others_eq) left

theorem inStep_importAfter (stops : P.Stops stop stop') {directive directive' : Token}
    (first : P.token directive directive') (kind : directive.kind = .directive) (paired : P.Tokens tokens tokens') :
    InStep P (fun i i' => P.view.importing i = P.view'.importing i') (importAfter stop directive tokens)
      (importAfter stop' directive' tokens') := by
  have unknown := P.unknown first kind
  unfold importAfter
  rw [← P.text_eq first (.inl kind)] at unknown ⊢
  split
  · exact .refused unknown paired
  · refine (inStep_expect stops [.string] paired).bind fun path path' rest rest' string paired => ?_
    have path_kind := List.mem_singleton.mp string.2
    have value_eq : unquote path.text = unquote path'.text := by rw [P.text_eq string.1 (.inr path_kind)]
    have opens := P.span_eq_of first kind (by decide)
    have closing := inStep_expect stops [.semicolon] paired
    dsimp only
    generalize expect stop [.semicolon] rest = r, expect stop' [.semicolon] rest' = r' at closing
    cases closing with
    | read closed left =>
      have closes := P.span_eq_of closed.1 (List.mem_singleton.mp closed.2) (by decide)
      exact .read (congrArg₂ Import.mk value_eq (View.span_through opens closes)) left
    | refused =>
      have closes := P.span_eq_of string.1 path_kind (by decide)
      exact .read (congrArg₂ Import.mk value_eq (View.span_through opens closes)) paired

theorem inStep_productionAfter (stops : P.Stops stop stop') {name name' : Token}
    (first : P.token name name') (kind : name.kind = .identifier) (paired : P.Tokens tokens tokens') :
    InStep P (fun p p' => P.view.production p = P.view'.production p') (productionAfter stop name tokens)
      (productionAfter stop' name' tokens') := by
  unfold productionAfter
  refine (inStep_expect stops [.define] paired).bind fun _ _ _ _ _ paired => ?_
  refine (inStep_alternatives stops paired).bind fun all all' _ _ all_eq paired => ?_
  refine (inStep_expect stops [.semicolon] paired).bind fun last last' _ _ closed paired => ?_
  have opens := P.span_eq_of first kind (by decide)
  have closes := P.span_eq_of closed.1 (List.mem_singleton.mp closed.2) (by decide)
  exact .read ((Production.mk.injEq ..).mpr ⟨P.name_eq first kind, all_eq, View.span_through opens closes⟩) paired

theorem inStep_statement (stops : P.Stops stop stop') (paired : P.Tokens tokens tokens') :
    InStep P (fun s s' => P.view.statement s = P.view'.statement s') (statement stop tokens)
      (statement stop' tokens') := by
  unfold statement
  refine (inStep_expect stops [.directive, .identifier] paired).bind fun head head' rest rest' first paired => ?_
  dsimp only
  rw [← P.kind_eq first.1]
  split
  · refine (inStep_importAfter stops first.1 ‹_› paired).bind fun i i' _ _ same paired => ?_
    exact .read (congrArg Statement.importing same) paired
  · rename_i other
    have known := first.2
    simp only [List.mem_cons, List.not_mem_nil, or_false] at known
    have name := known.resolve_left other
    refine (inStep_productionAfter stops first.1 name paired).bind fun p p' _ _ same paired => ?_
    exact .read (congrArg Statement.production same) paired

theorem afterSemicolon_paired (paired : P.Tokens tokens tokens') :
    P.Tokens (afterSemicolon tokens) (afterSemicolon tokens') := by
  induction paired with
  | nil => exact .nil
  | cons first others ih =>
    rw [afterSemicolon_cons, afterSemicolon_cons, P.kind_eq first]
    split
    · exact others
    · exact ih

theorem outcomes_paired (stops : P.Stops stop stop') (paired : P.Tokens tokens tokens') :
    List.Forall₂ P.Outcome (outcomes stop tokens) (outcomes stop' tokens') := by
  fun_induction outcomes stop tokens generalizing tokens' with
  | case1 =>
    cases paired
    simp [outcomes]
  | case2 =>
    rename_i t rest s left short h ih
    have read := inStep_statement stops paired
    rw [show statement stop (t :: rest) = _ from congrArg Subtype.val h] at read
    cases paired with
    | @cons _ t' _ rest' first others =>
      generalize read_eq : statement stop' (t' :: rest') = r' at read
      cases read with
      | read same left =>
        rw [outcomes_of_ok read_eq]
        exact .cons same (ih left)
  | case3 =>
    rename_i t rest failure short h ih
    have read := inStep_statement stops paired
    rw [show statement stop (t :: rest) = _ from congrArg Subtype.val h] at read
    cases paired with
    | @cons _ t' _ rest' first others =>
      generalize read_eq : statement stop' (t' :: rest') = r' at read
      cases read with
      | refused error left =>
        rw [outcomes_of_error read_eq]
        exact .cons error (ih (afterSemicolon_paired left))

end Parser

namespace Pairing

variable {P : Pairing}

structure Trees (P : Pairing) (t t' : Tree) : Prop where
  imports_eq : t.imports.map P.view.importing = t'.imports.map P.view'.importing
  productions_eq : t.productions.map P.view.production = t'.productions.map P.view'.production
  errors : List.Forall₂ P.error t.errors t'.errors

theorem trees_ofOutcomes {outcomes outcomes' : List (Except SyntaxError Statement)}
    (paired : List.Forall₂ P.Outcome outcomes outcomes') : P.Trees (.ofOutcomes outcomes) (.ofOutcomes outcomes') := by
  induction paired with
  | nil => exact ⟨rfl, rfl, .nil⟩
  | @cons o o' _ _ first _ ih =>
    match o, o' with
    | .ok (.importing i), .ok (.importing i') =>
      exact ⟨congrArg₂ List.cons (Statement.importing.inj first) ih.imports_eq, ih.productions_eq, ih.errors⟩
    | .ok (.production p), .ok (.production p') =>
      exact ⟨ih.imports_eq, congrArg₂ List.cons (Statement.production.inj first) ih.productions_eq, ih.errors⟩
    | .error e, .error e' => exact ⟨ih.imports_eq, ih.productions_eq, .cons first ih.errors⟩
    | .ok (.importing _), .ok (.production _) | .ok (.production _), .ok (.importing _) => cases first
    | .ok _, .error _ | .error _, .ok _ => cases first

end Pairing
end GrammarWorkspace.Grammar
