import GrammarWorkspace.Grammar.Parser
import Mathlib.Data.List.Basic
import Mathlib.Data.List.Forall2

/-!
# The grammar of grammar files

    file          =  statement*
    statement     =  "@import" string [";"]  |  identifier ":=" alternatives ";"
    alternatives  =  alternative ("|" alternative)*
    alternative   =  (identifier | string | "[empty]")+

A text is read without an error exactly if its tokens make up a file, and what is read is then what they
make up. They make up one file only.
-/
namespace GrammarWorkspace.Grammar

inductive DerivesSymbol (t : Token) : Symbol → Prop
  | identifier : t.kind = .identifier → DerivesSymbol t (.identifier ⟨t.text, t.span⟩)
  | terminal : t.kind = .string → DerivesSymbol t (.terminal (unquote t.text) t.span)
  | empty : t.kind = .empty → DerivesSymbol t (.empty t.span)

inductive DerivesAlternative : List Token → List Symbol → Prop
  | single {t s} : DerivesSymbol t s → DerivesAlternative [t] [s]
  | cons {t s used symbols} : DerivesSymbol t s → DerivesAlternative used symbols →
      DerivesAlternative (t :: used) (s :: symbols)

inductive DerivesAlternatives : List Token → List (List Symbol) → Prop
  | last {used symbols} : DerivesAlternative used symbols → DerivesAlternatives used [symbols]
  | bar {used symbols bar more others} : DerivesAlternative used symbols → bar.kind = .bar →
      DerivesAlternatives more others → DerivesAlternatives (used ++ bar :: more) (symbols :: others)

inductive DerivesStatement : List Token → Statement → Prop
  | importing {directive path} : directive.kind = .directive → directive.text = "@import" →
      path.kind = .string → DerivesStatement [directive, path]
        (.importing ⟨unquote path.text, ⟨directive.span.start, path.span.stop⟩⟩)
  | importingClosed {directive path last} : directive.kind = .directive → directive.text = "@import" →
      path.kind = .string → last.kind = .semicolon → DerivesStatement [directive, path, last]
        (.importing ⟨unquote path.text, ⟨directive.span.start, last.span.stop⟩⟩)
  | production {name define used alternatives last} : name.kind = .identifier → define.kind = .define →
      DerivesAlternatives used alternatives → last.kind = .semicolon →
      DerivesStatement (name :: define :: (used ++ [last]))
        (.production ⟨⟨name.text, name.span⟩, alternatives, ⟨name.span.start, last.span.stop⟩⟩)

inductive DerivesFile : List Token → List Statement → Prop
  | nil : DerivesFile [] []
  | cons {used s rest statements} : DerivesStatement used s → DerivesFile rest statements →
      DerivesFile (used ++ rest) (s :: statements)

namespace Parser

variable {α β : Type} {stop : Location} {tokens used rest : List Token}

inductive Refuses (stop : Location) (tokens : List Token) (f : Failure) : Prop
  | passed (used : List Token) : tokens = used ++ f.rest → f.error.span ∈ used.map Token.span → Refuses stop tokens f
  | met (used : List Token) {t : Token} {rest : List Token} : tokens = used ++ f.rest → f.rest = t :: rest → f.error.span = t.span →
      Refuses stop tokens f
  | ended : f.rest = [] → f.error.span = .point stop → Refuses stop tokens f

theorem Refuses.append {f : Failure} (h : Refuses stop tokens f) (used : List Token) :
    Refuses stop (used ++ tokens) f := by
  cases h with
  | passed more tokens_eq mem =>
    refine .passed (used ++ more) (by rw [tokens_eq, List.append_assoc]) ?_
    rw [List.map_append]
    exact List.mem_append_right _ mem
  | met more tokens_eq rest_eq span_eq =>
    exact .met (used ++ more) (by rw [tokens_eq, List.append_assoc]) rest_eq span_eq
  | ended rest_eq span_eq => exact .ended rest_eq span_eq

/-- What comes of reading: something that was read from the tokens which are taken away, or a refusal. -/
def Reads (stop : Location) (P : List Token → α → Prop) (tokens : List Token) :
    Except Failure (α × List Token) → Prop
  | .ok (a, rest) => ∃ used, tokens = used ++ rest ∧ P used a
  | .error f => Refuses stop tokens f

theorem Reads.bind {P : List Token → α → Prop} {Q : List Token → β → Prop}
    {r : Except Failure (α × List Token)} {f : α × List Token → Except Failure (β × List Token)}
    (h : Reads stop P tokens r)
    (hf : ∀ used a rest, P used a → Reads stop (fun more b => Q (used ++ more) b) rest (f (a, rest))) :
    Reads stop Q tokens (r >>= f) := by
  match r with
  | .error failure => exact h
  | .ok (a, rest) =>
    obtain ⟨used, rfl, ha⟩ := h
    have next := hf used a rest ha
    change Reads stop Q (used ++ rest) (f (a, rest))
    match hr : f (a, rest) with
    | .error failure =>
      rw [hr] at next
      exact next.append used
    | .ok (b, rest') =>
      rw [hr] at next
      obtain ⟨more, rfl, hb⟩ := next
      exact ⟨used ++ more, by rw [List.append_assoc], hb⟩

theorem Reads.after {P : List Token → α → Prop} {r : Except Failure (α × List Token)} (front : List Token)
    (h : Reads stop (fun used a => P (front ++ used) a) tokens r) : Reads stop P (front ++ tokens) r := by
  match r with
  | .error failure => exact Refuses.append h front
  | .ok (a, rest) =>
    obtain ⟨used, rfl, ha⟩ := h
    exact ⟨front ++ used, by rw [List.append_assoc], ha⟩

theorem refuses_fail (stop : Location) (kinds : List Kind) (tokens : List Token) :
    Refuses stop tokens (fail stop kinds tokens) := by
  cases tokens with
  | nil => exact .ended rfl rfl
  | cons t rest => exact .met [] rfl rfl rfl

theorem reads_expect (stop : Location) (kinds : List Kind) (tokens : List Token) :
    Reads stop (fun used t => used = [t] ∧ t.kind ∈ kinds) tokens (expect stop kinds tokens) := by
  cases tokens with
  | nil => exact refuses_fail stop kinds []
  | cons t rest =>
    rw [expect]
    split
    · exact ⟨[t], rfl, rfl, ‹_›⟩
    · exact refuses_fail stop kinds (t :: rest)

theorem expect_cons_of_mem {kinds : List Kind} {t : Token} (h : t.kind ∈ kinds) (rest : List Token) :
    expect stop kinds (t :: rest) = .ok (t, rest) := if_pos h

theorem expect_cons_of_not_mem {kinds : List Kind} {t : Token} (h : t.kind ∉ kinds) (rest : List Token) :
    expect stop kinds (t :: rest) = .error (fail stop kinds (t :: rest)) := if_neg h

theorem mem_after? {kind : Kind} {tokens rest : List Token} {short}
    (h : after? kind tokens = some ⟨rest, short⟩) : ∃ t, t.kind = kind ∧ tokens = t :: rest := by
  cases tokens with
  | nil => cases h
  | cons t rest' =>
    simp only [after?] at h
    split at h
    · cases h
      exact ⟨t, ‹_›, rfl⟩
    · cases h

theorem alternatives_of_isEmpty (h : (symbols tokens).1.isEmpty = true) : alternatives stop tokens =
    .error (fail stop [.identifier, .string, .empty] (symbols tokens).2) := by
  rw [alternatives]
  exact if_pos h

theorem alternatives_of_none (h : ¬ (symbols tokens).1.isEmpty = true)
    (last : (after? .bar (symbols tokens).2).map Subtype.val = none) :
    alternatives stop tokens = .ok ([(symbols tokens).1], (symbols tokens).2) := by
  rw [alternatives, if_neg h, Option.map_eq_none_iff.mp last]

theorem alternatives_of_some (h : ¬ (symbols tokens).1.isEmpty = true) {rest : List Token}
    (more : (after? .bar (symbols tokens).2).map Subtype.val = some rest) :
    alternatives stop tokens = (match alternatives stop rest with
      | .error failure => .error failure
      | .ok (others, rest') => .ok ((symbols tokens).1 :: others, rest')) := by
  obtain ⟨⟨rest, short⟩, h', rfl⟩ := Option.map_eq_some_iff.mp more
  rw [alternatives, if_neg h]
  split
  · rename_i none
    rw [h'] at none
    cases none
  · rename_i found
    rw [h'] at found
    cases found
    rfl

theorem importAfter_of_string {directive path : Token} (text : directive.text = "@import")
    (string : path.kind = .string) (rest : List Token) : importAfter stop directive (path :: rest) =
      (match expect stop [.semicolon] rest with
        | .ok (last, rest') => .ok (⟨unquote path.text, ⟨directive.span.start, last.span.stop⟩⟩, rest')
        | .error _ => .ok (⟨unquote path.text, ⟨directive.span.start, path.span.stop⟩⟩, rest)) := by
  unfold importAfter
  rw [if_neg (not_not.mpr text), expect_cons_of_mem (List.mem_singleton.mpr string)]
  rfl

theorem statement_of_directive {directive : Token} (kind : directive.kind = .directive) (rest : List Token) :
    statement stop (directive :: rest) =
      importAfter stop directive rest >>= fun x => pure (.importing x.1, x.2) := by
  have first : directive.kind ∈ [Kind.directive, .identifier] := by simp [kind]
  rw [statement, expect_cons_of_mem first]
  exact if_pos kind

theorem statement_of_name {name : Token} (kind : name.kind = .identifier) (rest : List Token) :
    statement stop (name :: rest) =
      productionAfter stop name rest >>= fun x => pure (.production x.1, x.2) := by
  have first : name.kind ∈ [Kind.directive, .identifier] := by simp [kind]
  have other : name.kind ≠ .directive := by simp [kind]
  rw [statement, expect_cons_of_mem first]
  exact if_neg other

theorem outcomes_of_ok {t : Token} {rest rest' : List Token} {s : Statement}
    (h : statement stop (t :: rest) = .ok (s, rest')) :
    outcomes stop (t :: rest) = .ok s :: outcomes stop rest' := by
  rw [outcomes]
  split
  · rename_i he
    have := h.symm.trans (congrArg Subtype.val he)
    cases this
    rfl
  · rename_i he
    have := h.symm.trans (congrArg Subtype.val he)
    cases this

theorem outcomes_of_error {t : Token} {rest : List Token} {f : Failure}
    (h : statement stop (t :: rest) = .error f) :
    outcomes stop (t :: rest) = .error f.error :: outcomes stop (afterSemicolon f.rest) := by
  rw [outcomes]
  split
  · rename_i he
    have := h.symm.trans (congrArg Subtype.val he)
    cases this
  · rename_i he
    have := h.symm.trans (congrArg Subtype.val he)
    cases this
    rfl

theorem symbol?_eq_some_iff {t : Token} {s : Symbol} : symbol? t = some s ↔ DerivesSymbol t s := by
  constructor
  · intro h
    unfold symbol? at h
    split at h
    · cases h
      exact .identifier ‹_›
    · cases h
      exact .terminal ‹_›
    · cases h
      exact .empty ‹_›
    · cases h
  · intro h
    cases h with
    | identifier kind => simp [symbol?, kind]
    | terminal kind => simp [symbol?, kind]
    | empty kind => simp [symbol?, kind]

theorem symbol?_eq_none_iff {t : Token} :
    symbol? t = none ↔ t.kind ∉ [.identifier, .string, .empty] := by
  cases kind : t.kind <;> simp [symbol?, kind]

theorem derivesAlternative_iff {symbols : List Symbol} :
    DerivesAlternative used symbols ↔ symbols ≠ [] ∧ List.Forall₂ DerivesSymbol used symbols := by
  constructor
  · intro h
    induction h with
    | single first => exact ⟨List.cons_ne_nil _ _, .cons first .nil⟩
    | cons first _ ih => exact ⟨List.cons_ne_nil _ _, .cons first ih.2⟩
  · rintro ⟨some, all⟩
    induction all with
    | nil => exact absurd rfl some
    | @cons t s used symbols first others ih =>
      cases others with
      | nil => exact .single first
      | cons second others => exact .cons first (ih (List.cons_ne_nil _ _))

theorem symbols_derived (tokens : List Token) : ∃ used, tokens = used ++ (symbols tokens).2 ∧
    List.Forall₂ DerivesSymbol used (symbols tokens).1 := by
  induction tokens with
  | nil => exact ⟨[], rfl, .nil⟩
  | cons t rest ih =>
    cases ht : symbol? t with
    | none =>
      simp only [symbols, ht]
      exact ⟨[], rfl, .nil⟩
    | some s =>
      obtain ⟨used, rest_eq, derived⟩ := ih
      simp only [symbols, ht]
      exact ⟨t :: used, by rw [List.cons_append, ← rest_eq], .cons (symbol?_eq_some_iff.mp ht) derived⟩

theorem reads_alternatives (stop : Location) (tokens : List Token) :
    Reads stop DerivesAlternatives tokens (alternatives stop tokens) := by
  fun_induction alternatives stop tokens with
  | case1 tokens first h =>
    obtain ⟨used, tokens_eq, -⟩ := symbols_derived tokens
    have refused := (refuses_fail stop [.identifier, .string, .empty] (symbols tokens).2).append used
    rwa [← tokens_eq] at refused
  | case2 tokens first hne h =>
    obtain ⟨used, tokens_eq, derived⟩ := symbols_derived tokens
    exact ⟨used, tokens_eq, .last (derivesAlternative_iff.mpr ⟨by simpa using hne, derived⟩)⟩
  | case3 tokens first hne rest shorter h failure hf ih =>
    obtain ⟨used, tokens_eq, -⟩ := symbols_derived tokens
    obtain ⟨bar, -, rest_eq⟩ := mem_after? h
    rw [hf] at ih
    have refused := Refuses.append ih (used ++ [bar])
    rwa [List.append_assoc, List.singleton_append, ← rest_eq, ← tokens_eq] at refused
  | case4 tokens first hne rest shorter h others rest' ho ih =>
    obtain ⟨used, tokens_eq, derived⟩ := symbols_derived tokens
    obtain ⟨bar, kind, rest_eq⟩ := mem_after? h
    rw [ho] at ih
    obtain ⟨more, rfl, derived'⟩ := ih
    refine ⟨used ++ bar :: more, ?_, ?_⟩
    · rw [tokens_eq, rest_eq]
      simp
    · exact .bar (derivesAlternative_iff.mpr ⟨by simpa using hne, derived⟩) kind derived'

theorem reads_importAfter (stop : Location) {directive : Token} (kind : directive.kind = .directive)
    (tokens : List Token) : Reads stop (fun used i => DerivesStatement used (.importing i))
      (directive :: tokens) (importAfter stop directive tokens) := by
  unfold importAfter
  split
  · exact .passed [directive] rfl (List.mem_singleton.mpr rfl)
  · rename_i text
    refine Reads.after [directive] ((reads_expect stop [.string] tokens).bind fun used path rest hp => ?_)
    obtain ⟨rfl, path_kind⟩ := hp
    have string : path.kind = .string := List.mem_singleton.mp path_kind
    have closed := reads_expect stop [.semicolon] rest
    dsimp only
    split
    · rename_i last rest' h
      rw [h] at closed
      obtain ⟨used, rfl, rfl, last_kind⟩ := closed
      exact ⟨[last], rfl, .importingClosed kind (not_not.mp text) string (List.mem_singleton.mp last_kind)⟩
    · exact ⟨[], rfl, .importing kind (not_not.mp text) string⟩

theorem reads_productionAfter (stop : Location) {name : Token} (kind : name.kind = .identifier)
    (tokens : List Token) : Reads stop (fun used p => DerivesStatement used (.production p))
      (name :: tokens) (productionAfter stop name tokens) := by
  unfold productionAfter
  refine Reads.after [name] ((reads_expect stop [.define] tokens).bind fun used define rest hd => ?_)
  obtain ⟨rfl, define_kind⟩ := hd
  refine (reads_alternatives stop rest).bind fun used all rest derived => ?_
  refine (reads_expect stop [.semicolon] rest).bind fun last_used last rest hl => ?_
  obtain ⟨rfl, last_kind⟩ := hl
  refine ⟨[], rfl, ?_⟩
  simp only [List.append_nil, List.singleton_append]
  exact .production kind (List.mem_singleton.mp define_kind) derived (List.mem_singleton.mp last_kind)

theorem reads_statement (stop : Location) (tokens : List Token) :
    Reads stop DerivesStatement tokens (statement stop tokens) := by
  cases tokens with
  | nil => exact refuses_fail stop _ []
  | cons head rest =>
    by_cases kind : head.kind = .directive
    · rw [statement_of_directive kind]
      refine (reads_importAfter stop kind rest).bind fun used i rest h => ⟨[], rfl, ?_⟩
      dsimp only
      rwa [List.append_nil]
    · by_cases name : head.kind = .identifier
      · rw [statement_of_name name]
        refine (reads_productionAfter stop name rest).bind fun used p rest h => ⟨[], rfl, ?_⟩
        dsimp only
        rwa [List.append_nil]
      · have unknown : head.kind ∉ [Kind.directive, .identifier] := by simp [kind, name]
        rw [statement, expect_cons_of_not_mem unknown]
        exact refuses_fail stop _ _

theorem derivesFile_of_outcomes (all_read : ∀ e, .error e ∉ outcomes stop tokens) :
    ∃ all, DerivesFile tokens all := by
  fun_induction outcomes stop tokens with
  | case1 => exact ⟨[], .nil⟩
  | case2 t rest s rest' short h ih =>
    obtain ⟨all, derived⟩ := ih fun e he => all_read e (List.mem_cons_of_mem _ he)
    have read := reads_statement stop (t :: rest)
    rw [show statement stop (t :: rest) = _ from congrArg Subtype.val h] at read
    obtain ⟨used, tokens_eq, first⟩ := read
    rw [tokens_eq]
    exact ⟨s :: all, .cons first derived⟩
  | case3 t rest failure short h ih => exact absurd List.mem_cons_self (all_read failure.error)

def Avoids (kinds : List Kind) (tokens : List Token) : Prop := ∀ t, tokens.head? = some t → t.kind ∉ kinds

theorem avoids_cons {kinds : List Kind} {t : Token} : Avoids kinds (t :: rest) ↔ t.kind ∉ kinds :=
  ⟨fun h => h t rfl, fun h u hu => by cases hu; exact h⟩

theorem Avoids.mono {kinds more : List Kind} (h : Avoids more rest) (sub : kinds ⊆ more) : Avoids kinds rest :=
  fun t ht hk => h t ht (sub hk)

theorem after?_of_avoids {kind : Kind} (h : Avoids [kind] tokens) : after? kind tokens = none := by
  cases tokens with
  | nil => rfl
  | cons t rest => exact if_neg fun same => avoids_cons.mp h (List.mem_singleton.mpr same)

theorem symbols_append {all : List Symbol} (h : List.Forall₂ DerivesSymbol used all)
    (ends : Avoids [.identifier, .string, .empty] rest) : symbols (used ++ rest) = (all, rest) := by
  induction h with
  | nil =>
    cases rest with
    | nil => rfl
    | cons t rest => simp only [List.nil_append, symbols, symbol?_eq_none_iff.mpr (avoids_cons.mp ends)]
  | cons first _ ih => simp only [List.cons_append, symbols, symbol?_eq_some_iff.mpr first, ih]

theorem alternatives_append {all : List (List Symbol)} (h : DerivesAlternatives used all)
    (ends : Avoids [.identifier, .string, .empty, .bar] rest) :
    alternatives stop (used ++ rest) = .ok (all, rest) := by
  induction h with
  | @last used symbols first =>
    obtain ⟨some, derived⟩ := derivesAlternative_iff.mp first
    have read := symbols_append derived (ends.mono (by decide))
    rw [alternatives_of_none, read]
    · simpa [read] using some
    · rw [read, after?_of_avoids (ends.mono (by decide))]
      rfl
  | @bar used symbols bar more others first kind _ ih =>
    obtain ⟨some, derived⟩ := derivesAlternative_iff.mp first
    have apart : Avoids [.identifier, .string, .empty] (bar :: (more ++ rest)) :=
      avoids_cons.mpr (by rw [kind]; decide)
    have read := symbols_append derived apart
    rw [List.append_assoc, List.cons_append, alternatives_of_some, read, ih]
    · simpa [read] using some
    · rw [read, after?, if_pos kind]
      rfl

theorem statement_append {s : Statement} (h : DerivesStatement used s) (ends : Avoids [.semicolon] rest) :
    statement stop (used ++ rest) = .ok (s, rest) := by
  have closes {last : Token} (kind : last.kind = .semicolon) :
      expect stop [.semicolon] (last :: rest) = .ok (last, rest) :=
    expect_cons_of_mem (List.mem_singleton.mpr kind) rest
  cases h with
  | @importing directive path kind text string =>
    have stays : ∃ f, expect stop [.semicolon] rest = .error f := by
      cases rest with
      | nil => exact ⟨_, rfl⟩
      | cons t rest => exact ⟨_, expect_cons_of_not_mem (avoids_cons.mp ends) rest⟩
    obtain ⟨f, stays⟩ := stays
    rw [List.cons_append, statement_of_directive kind, List.singleton_append,
      importAfter_of_string text string, stays]
    rfl
  | @importingClosed directive path last kind text string closed =>
    rw [List.cons_append, statement_of_directive kind, List.cons_append, List.singleton_append,
      importAfter_of_string text string, closes closed]
    rfl
  | @production name define used all last kind define_kind derived closed =>
    have apart : Avoids [.identifier, .string, .empty, .bar] (last :: rest) :=
      avoids_cons.mpr (by rw [closed]; decide)
    rw [List.cons_append, statement_of_name kind, List.cons_append, List.append_assoc,
      List.singleton_append, productionAfter, expect_cons_of_mem (List.mem_singleton.mpr define_kind)]
    change ((alternatives stop (used ++ last :: rest) >>= _) >>= _ : Except Failure _) = _
    rw [alternatives_append derived apart]
    change ((expect stop [.semicolon] (last :: rest) >>= _) >>= _ : Except Failure _) = _
    rw [closes closed]
    rfl

theorem avoids_of_derivesFile {all : List Statement} (h : DerivesFile tokens all) : Avoids [.semicolon] tokens := by
  cases h with
  | nil =>
    intro t ht
    cases ht
  | cons first _ =>
    cases first with
    | importing kind | importingClosed kind | production kind => exact avoids_cons.mpr (by rw [kind]; decide)

/-- The statements that make up the file are what is read, and nothing goes wrong. -/
theorem outcomes_of_derivesFile {all : List Statement} (h : DerivesFile tokens all) :
    outcomes stop tokens = all.map .ok := by
  induction h with
  | nil => simp [outcomes]
  | @cons used s rest all first more ih =>
    have read : statement stop (used ++ rest) = .ok (s, rest) := statement_append first (avoids_of_derivesFile more)
    have begins : ∃ t others, used ++ rest = t :: others := by
      cases first with
      | importing | importingClosed | production => exact ⟨_, _, rfl⟩
    obtain ⟨t, others, tokens_eq⟩ := begins
    rw [tokens_eq] at read ⊢
    rw [outcomes_of_ok read, ih, List.map_cons]

end Parser

theorem ofOutcomes_map_ok (all : List Statement) : Tree.ofOutcomes (all.map .ok) =
    ⟨all.filterMap Statement.import?, all.filterMap Statement.production?, []⟩ := by
  simp only [Tree.ofOutcomes, List.filterMap_map, Tree.mk.injEq, List.filterMap_eq_nil_iff]
  exact ⟨rfl, rfl, fun _ _ => rfl⟩

/-- A text is read without an error exactly if its tokens make up a file. What is read is then what they
make up, and they make up nothing else. -/
theorem parse_iff_derivesFile (text : String) :
    ((parse text).errors = [] ↔ ∃ all, DerivesFile (tokens text.toList) all) ∧
      ∀ all, DerivesFile (tokens text.toList) all →
        parse text = ⟨all.filterMap Statement.import?, all.filterMap Statement.production?, []⟩ ∧
          ∀ other, DerivesFile (tokens text.toList) other → other = all := by
  have read : ∀ all, DerivesFile (tokens text.toList) all →
      Parser.outcomes (.ending text.toList) (tokens text.toList) = all.map .ok :=
    fun all derived => Parser.outcomes_of_derivesFile derived
  have parsed : ∀ all, DerivesFile (tokens text.toList) all →
      parse text = ⟨all.filterMap Statement.import?, all.filterMap Statement.production?, []⟩ := by
    intro all derived
    rw [parse, read all derived, ofOutcomes_map_ok]
  refine ⟨⟨fun none => ?_, ?_⟩, fun all derived => ⟨parsed all derived, fun other derived' => ?_⟩⟩
  · have all_read : ∀ e, .error e ∉ Parser.outcomes (.ending text.toList) (tokens text.toList) := by
      intro e he
      have missing := List.filterMap_eq_nil_iff.mp none (.error e) he
      cases missing
    exact Parser.derivesFile_of_outcomes all_read
  · rintro ⟨all, derived⟩
    rw [parsed all derived]
  · have same := (read other derived').symm.trans (read all derived)
    exact List.map_injective_iff.mpr (fun _ _ eq => Except.ok.inj eq) same

end GrammarWorkspace.Grammar
