import GrammarWorkspace.Proofs.Grammar.Recovery
import GrammarWorkspace.Proofs.Grammar.Renaming
import Mathlib.Data.List.Induction

/-!
# What spans delimit

The span of a node delimits the stretch of the text that the node was read from, and the nodes of a tree
come in the order of their spans. The span of an error may be empty, as it is at the end of the text.
-/
namespace GrammarWorkspace

/-- The location just after a text, counted from the text as a whole. -/
def Location.after (text : List Char) : Location :=
  ⟨text.length, text.count '\n' + 1, (text.reverse.takeWhile (· ≠ '\n')).length + 1⟩

theorem Location.ending_eq_after (text : List Char) : ending text = after text := by
  induction text using List.reverseRecOn with
  | nil => rfl
  | append_singleton text c ih =>
    have onward : ending (text ++ [c]) = (ending text).next c := advance_append ..
    rw [onward, ih, next]
    by_cases hc : c = '\n' <;> simp [after, hc]

namespace Span

structure Marks (s : Span) (text : List Char) : Prop where
  ordered : s.start.position ≤ s.stop.position
  inside : s.stop.position ≤ text.length
  start_eq : s.start = .after (text.take s.start.position)
  stop_eq : s.stop = .after (text.take s.stop.position)

structure Delimits (s : Span) (text stretch : List Char) : Prop extends Marks s text where
  proper : s.start.position < s.stop.position
  stretch_eq : (text.take s.stop.position).drop s.start.position = stretch

def EndsBefore (s s' : Span) : Prop := s.stop.position ≤ s'.start.position

def Apart (s s' : Span) : Prop := s.EndsBefore s' ∨ s'.EndsBefore s

variable {s s' : Span} {text stretch stretch' : List Char}

theorem marks_of_split {before after : List Char} (text_eq : text = before ++ stretch ++ after) :
    (⟨.ending before, .ending (before ++ stretch)⟩ : Span).Marks text := by
  subst text_eq
  have whole : (before ++ stretch ++ after).take (before ++ stretch).length = before ++ stretch :=
    List.take_left' rfl
  simp only [Location.ending_eq_after]
  refine ⟨?_, ?_, ?_, ?_⟩
  · simp [Location.after]
  · simp [Location.after]
  · simp [Location.after]
  · exact congrArg Location.after whole.symm

/-- A stretch of a text is what is left of it between something before and something after. -/
theorem delimits_iff : s.Delimits text stretch ↔ stretch ≠ [] ∧ ∃ before after,
    text = before ++ stretch ++ after ∧ s = ⟨.ending before, .ending (before ++ stretch)⟩ := by
  constructor
  · rintro ⟨⟨ordered, inside, start_eq, stop_eq⟩, proper, rfl⟩
    have taken : text.take s.stop.position =
        text.take s.start.position ++ (text.take s.stop.position).drop s.start.position := by
      have first : (text.take s.stop.position).take s.start.position = text.take s.start.position := by
        rw [List.take_take, Nat.min_eq_left ordered]
      rw [← first, List.take_append_drop]
    refine ⟨?_, text.take s.start.position, text.drop s.stop.position, ?_, ?_⟩
    · rw [← List.length_pos_iff]
      simp only [List.length_drop, List.length_take]
      omega
    · rw [← taken, List.take_append_drop]
    · rw [← taken, Location.ending_eq_after, Location.ending_eq_after, ← start_eq, ← stop_eq]
  · rintro ⟨some, before, after, text_eq, rfl⟩
    have positive := List.length_pos_iff.mpr some
    refine ⟨marks_of_split text_eq, ?_, ?_⟩
    · simp only [Location.ending_eq_after, Location.after, List.length_append]
      omega
    · subst text_eq
      simp [Location.ending_eq_after, Location.after, List.take_append]

theorem Delimits.through (h : s.Delimits text stretch) (h' : s'.Delimits text stretch') (before : s.EndsBefore s') :
    ∃ between, (⟨s.start, s'.stop⟩ : Span).Delimits text (stretch ++ between ++ stretch') := by
  obtain ⟨some, front, after, text_eq, rfl⟩ := delimits_iff.mp h
  obtain ⟨-, front', after', text_eq', rfl⟩ := delimits_iff.mp h'
  have fits : (front ++ stretch).length ≤ front'.length := by
    simpa [EndsBefore, Location.ending_eq_after, Location.after] using before
  have first : (front ++ stretch).IsPrefix text := ⟨after, text_eq.symm⟩
  have second : front'.IsPrefix text := ⟨stretch' ++ after', by rw [text_eq', List.append_assoc]⟩
  obtain ⟨between, rfl⟩ := List.prefix_of_prefix_length_le first second fits
  refine ⟨between, delimits_iff.mpr ⟨by simp [some], front, after', ?_, ?_⟩⟩
  · simpa using text_eq'
  · simp

end Span

namespace Grammar

def Quotes (stretch : List Char) (value : String) : Prop :=
  Kind.string.length? stretch = some stretch.length ∧ unquote (.ofList stretch) = value

def Symbol.span : Symbol → Span
  | .identifier id => id.span
  | .terminal _ span => span
  | .empty span => span

def Statement.span : Statement → Span
  | .importing i => i.span
  | .production p => p.span

def Symbol.SpelledAs : Symbol → List Char → Prop
  | .identifier id, stretch => stretch = id.name.toList
  | .terminal value _, stretch => Quotes stretch value
  | .empty _, stretch => stretch = "[empty]".toList

def Import.SpelledAs (i : Import) (stretch : List Char) : Prop :=
  ∃ between quoted closing, stretch = "@import".toList ++ between ++ quoted ++ closing ∧ Quotes quoted i.path ∧
    (closing = [] ∨ ∃ blank, closing = blank ++ [';'])

def Production.SpelledAs (p : Production) (stretch : List Char) : Prop :=
  ∃ between, stretch = p.name.name.toList ++ between ++ [';']

structure Production.Stands (text : List Char) (p : Production) : Prop where
  whole : ∃ stretch, p.span.Delimits text stretch ∧ p.SpelledAs stretch
  name : p.name.span.Delimits text p.name.name.toList
  symbols : ∀ s ∈ p.alternatives.flatten, ∃ stretch, s.span.Delimits text stretch ∧ s.SpelledAs stretch
  ordered : (p.name.span :: p.alternatives.flatten.map Symbol.span).Pairwise Span.EndsBefore

def Statement.Stands (text : List Char) : Statement → Prop
  | .importing i => ∃ stretch, i.span.Delimits text stretch ∧ i.SpelledAs stretch
  | .production p => p.Stands text

structure Cut (text : List Char) (tokens : List Token) : Prop where
  delimits : ∀ t ∈ tokens, t.span.Delimits text t.text.toList
  ordered : tokens.Pairwise fun t u => t.span.EndsBefore u.span
  spelled : ∀ t ∈ tokens, ∃ after, t.kind.length? (t.text.toList ++ after) = some t.text.toList.length

variable {text : List Char} {tokens tokens' : List Token}

theorem Cut.sublist (h : Cut text tokens) (sub : tokens'.Sublist tokens) : Cut text tokens' :=
  ⟨fun t ht => h.delimits t (sub.subset ht), h.ordered.sublist sub, fun t ht => h.spelled t (sub.subset ht)⟩

theorem cut_tokensFrom (text : List Char) : Cut text (tokensFrom .start text) := by
  have lexed := lexed_tokensFrom .start text
  have contiguous := placed_tokensFrom .start text
  refine ⟨fun t ht => ?_, ?_, fun t ht => ?_⟩
  · obtain ⟨before, after, text_eq, span_eq⟩ := exists_split_of_mem contiguous ht
    rw [spelled_tokensFrom] at text_eq
    exact Span.delimits_iff.mpr ⟨lexed.ne_nil t ht, before, after, text_eq, span_eq⟩
  · exact Respelling.pairwise_of_placed contiguous
  · obtain ⟨hne, after, first⟩ := lexed.exists_firstToken t ht
    exact ⟨after, ((firstToken_eq_iff (List.append_ne_nil_of_left_ne_nil hne after)).mp first).1⟩

theorem cut_tokens (text : List Char) : Cut text (Grammar.tokens text) :=
  (cut_tokensFrom text).sublist List.filter_sublist

namespace Cut

variable {t u : Token} {used : List Token}

theorem quotes (cut : Cut text tokens) (ht : t ∈ tokens) (kind : t.kind = .string) :
    Quotes t.text.toList (unquote t.text) := by
  obtain ⟨after, fits⟩ := cut.spelled t ht
  rw [kind] at fits
  have alone := Kind.length?_string_append (Span.delimits_iff.mp (cut.delimits t ht)).1 fits []
  rw [List.append_nil] at alone
  exact ⟨alone, by rw [String.ofList_toList]⟩

theorem semicolon (cut : Cut text tokens) (ht : t ∈ tokens) (kind : t.kind = .semicolon) : t.text.toList = [';'] := by
  obtain ⟨after, fits⟩ := cut.spelled t ht
  rw [kind] at fits
  exact eq_of_wordLength? fits

theorem symbol (cut : Cut text tokens) (ht : t ∈ tokens) {s : Symbol} (h : DerivesSymbol t s) :
    s.span = t.span ∧ s.SpelledAs t.text.toList := by
  cases h with
  | identifier => exact ⟨rfl, rfl⟩
  | terminal kind => exact ⟨rfl, cut.quotes ht kind⟩
  | empty kind =>
    obtain ⟨after, fits⟩ := cut.spelled t ht
    rw [kind] at fits
    exact ⟨rfl, eq_of_wordLength? fits⟩

theorem symbols {all : List Symbol} (cut : Cut text used) (h : List.Forall₂ DerivesSymbol used all) :
    all.map Symbol.span = used.map Token.span ∧
      ∀ s ∈ all, ∃ stretch, s.span.Delimits text stretch ∧ s.SpelledAs stretch := by
  induction h with
  | nil => exact ⟨rfl, fun _ hs => nomatch hs⟩
  | @cons t s used all first _ ih =>
    obtain ⟨spans_eq, others⟩ := ih (cut.sublist (List.sublist_cons_self t used))
    obtain ⟨span_eq, here⟩ := cut.symbol List.mem_cons_self first
    refine ⟨by rw [List.map_cons, List.map_cons, span_eq, spans_eq], List.forall_mem_cons.mpr ⟨?_, others⟩⟩
    exact ⟨_, span_eq ▸ cut.delimits t List.mem_cons_self, here⟩

theorem through (cut : Cut text (t :: used)) (hu : u ∈ used) : ∃ between,
    (⟨t.span.start, u.span.stop⟩ : Span).Delimits text (t.text.toList ++ between ++ u.text.toList) :=
  (cut.delimits t List.mem_cons_self).through (cut.delimits u (List.mem_cons_of_mem t hu))
    ((List.pairwise_cons.mp cut.ordered).1 u hu)

end Cut

theorem DerivesAlternatives.exists_taken {used : List Token} {all : List (List Symbol)}
    (h : DerivesAlternatives used all) : ∃ taken, taken.Sublist used ∧ List.Forall₂ DerivesSymbol taken all.flatten := by
  induction h with
  | @last used symbols first =>
    refine ⟨used, List.Sublist.refl _, ?_⟩
    rw [List.flatten_singleton]
    exact (Parser.derivesAlternative_iff.mp first).2
  | @bar used symbols bar more others first _ _ ih =>
    obtain ⟨taken, sub, derived⟩ := ih
    refine ⟨used ++ taken, (List.Sublist.refl used).append (sub.cons bar), ?_⟩
    rw [List.flatten_cons]
    exact List.rel_append (Parser.derivesAlternative_iff.mp first).2 derived

/-- A statement and its parts stand where the tokens do that it is derived from. -/
theorem DerivesStatement.stands {used : List Token} {s : Statement} (h : DerivesStatement used s)
    (cut : Cut text used) : s.Stands text := by
  cases h with
  | @importing directive path _ text_eq string =>
    obtain ⟨between, delimits⟩ := cut.through (List.mem_singleton.mpr rfl)
    rw [text_eq] at delimits
    refine ⟨_, delimits, between, path.text.toList, [], (List.append_nil _).symm, ?_, Or.inl rfl⟩
    exact cut.quotes (by simp) string
  | @importingClosed directive path last _ text_eq string closed =>
    have closing : path.span.EndsBefore last.span := by
      have ordered := (List.pairwise_cons.mp cut.ordered).2
      exact (List.pairwise_cons.mp ordered).1 last (List.mem_singleton.mpr rfl)
    obtain ⟨between, delimits⟩ := cut.through (u := path) (by simp)
    obtain ⟨blank, delimits⟩ := delimits.through (cut.delimits last (by simp)) closing
    rw [text_eq, cut.semicolon (by simp) closed, List.append_assoc _ blank] at delimits
    exact ⟨_, delimits, between, path.text.toList, _, rfl, cut.quotes (by simp) string, Or.inr ⟨blank, rfl⟩⟩
  | @production name define used all last kind define_kind derived closed =>
    obtain ⟨taken, sub, symbols⟩ := derived.exists_taken
    have taken_sub : (name :: taken).Sublist (name :: define :: (used ++ [last])) :=
      ((sub.trans (List.sublist_append_left used [last])).cons define).cons_cons name
    have taken_cut := cut.sublist taken_sub
    obtain ⟨spans_eq, others⟩ := (taken_cut.sublist (List.sublist_cons_self name taken)).symbols symbols
    refine ⟨?_, cut.delimits name List.mem_cons_self, others, ?_⟩
    · obtain ⟨between, delimits⟩ := cut.through (u := last) (by simp)
      rw [cut.semicolon (by simp) closed] at delimits
      exact ⟨_, delimits, between, rfl⟩
    · have ordered := List.pairwise_map.mpr taken_cut.ordered
      rw [List.map_cons, ← spans_eq] at ordered
      exact ordered

theorem DerivesStatement.within {used : List Token} {s : Statement} (h : DerivesStatement used s) :
    ∃ t ∈ used, ∃ u ∈ used, s.span = ⟨t.span.start, u.span.stop⟩ := by
  cases h with
  | @importing directive path => exact ⟨directive, by simp, path, by simp, rfl⟩
  | @importingClosed directive path last => exact ⟨directive, by simp, last, by simp, rfl⟩
  | @production name define used all last => exact ⟨name, by simp, last, by simp, rfl⟩

theorem Parser.Refuses.sublist {stop : Location} {f : Failure} (h : Refuses stop tokens f) : f.rest.Sublist tokens := by
  cases h with
  | passed used tokens_eq | met used tokens_eq => exact tokens_eq ▸ List.sublist_append_right used f.rest
  | ended rest_eq => exact rest_eq ▸ List.nil_sublist tokens

theorem Parser.afterSemicolon_sublist (tokens : List Token) : (afterSemicolon tokens).Sublist tokens :=
  (List.drop_sublist 1 _).trans (List.dropWhile_sublist _)

/-- The statements are derived from tokens one after the other, between which others may be left out. -/
theorem Parser.exists_used (stop : Location) (tokens : List Token) : ∃ used : List (List Token),
    used.flatten.Sublist tokens ∧
      List.Forall₂ DerivesStatement used ((outcomes stop tokens).filterMap Except.toOption) := by
  fun_induction outcomes stop tokens with
  | case1 => exact ⟨[], List.nil_sublist _, .nil⟩
  | case2 t rest s rest' short h ih =>
    have read := reads_statement stop (t :: rest)
    rw [show statement stop (t :: rest) = _ from congrArg Subtype.val h] at read
    obtain ⟨first, tokens_eq, derived⟩ := read
    obtain ⟨used, sub, others⟩ := ih
    rw [tokens_eq]
    exact ⟨first :: used, (List.Sublist.refl first).append sub, .cons derived others⟩
  | case3 t rest failure short h ih =>
    have read := reads_statement stop (t :: rest)
    rw [show statement stop (t :: rest) = _ from congrArg Subtype.val h] at read
    obtain ⟨used, sub, others⟩ := ih
    exact ⟨used, (sub.trans (afterSemicolon_sublist _)).trans (Refuses.sublist read), others⟩

theorem DerivesStatement.within_all {used : List (List Token)} {statements : List Statement}
    (h : List.Forall₂ DerivesStatement used statements) :
    ∀ s ∈ statements, ∃ t ∈ used.flatten, ∃ u ∈ used.flatten, s.span = ⟨t.span.start, u.span.stop⟩ := by
  induction h with
  | nil => exact fun _ hs => nomatch hs
  | @cons first s used statements derived _ ih =>
    rw [List.flatten_cons]
    refine List.forall_mem_cons.mpr ⟨?_, fun s hs => ?_⟩
    · obtain ⟨t, ht, u, hu, span_eq⟩ := derived.within
      exact ⟨t, List.mem_append_left _ ht, u, List.mem_append_left _ hu, span_eq⟩
    · obtain ⟨t, ht, u, hu, span_eq⟩ := ih s hs
      exact ⟨t, List.mem_append_right _ ht, u, List.mem_append_right _ hu, span_eq⟩

/-- Statements that are derived from tokens of a text stand in it one after another. -/
theorem Cut.statements {used : List (List Token)} {statements : List Statement} (cut : Cut text used.flatten)
    (h : List.Forall₂ DerivesStatement used statements) :
    (∀ s ∈ statements, s.Stands text) ∧ statements.Pairwise (·.span.EndsBefore ·.span) := by
  induction h with
  | nil => exact ⟨by simp, .nil⟩
  | @cons first s used statements derived others ih =>
    rw [List.flatten_cons] at cut
    obtain ⟨stand, ordered⟩ := ih (cut.sublist (List.sublist_append_right first used.flatten))
    have stands := derived.stands (cut.sublist (List.sublist_append_left first used.flatten))
    refine ⟨List.forall_mem_cons.mpr ⟨stands, stand⟩, List.pairwise_cons.mpr ⟨fun s' hs => ?_, ordered⟩⟩
    obtain ⟨_, _, u, hu, span_eq⟩ := derived.within
    obtain ⟨t, ht, _, _, span_eq'⟩ := DerivesStatement.within_all others s' hs
    rw [span_eq, span_eq']
    exact (List.pairwise_append.mp cut.ordered).2.2 u hu t ht

/-- The nodes of a tree stand in the text one after another, and its errors at places of the text. -/
structure Tree.Stands (text : List Char) (t : Tree) : Prop where
  imports : ∀ i ∈ t.imports, (Statement.importing i).Stands text
  productions : ∀ p ∈ t.productions, (Statement.production p).Stands text
  importsOrdered : (t.imports.map Import.span).Pairwise Span.EndsBefore
  productionsOrdered : (t.productions.map Production.span).Pairwise Span.EndsBefore
  apart : ∀ i ∈ t.imports, ∀ p ∈ t.productions, i.span.Apart p.span
  errors : ∀ e ∈ t.errors, e.span.Marks text

theorem stands_ofOutcomes {outcomes : List (Except SyntaxError Statement)}
    (stand : ∀ s ∈ outcomes.filterMap Except.toOption, s.Stands text)
    (ordered : (outcomes.filterMap Except.toOption).Pairwise (·.span.EndsBefore ·.span))
    (marked : ∀ e, .error e ∈ outcomes → e.span.Marks text) : (Tree.ofOutcomes outcomes).Stands text := by
  have imports_eq : (Tree.ofOutcomes outcomes).imports =
      (outcomes.filterMap Except.toOption).filterMap Statement.import? := List.filterMap_filterMap.symm
  have productions_eq : (Tree.ofOutcomes outcomes).productions =
      (outcomes.filterMap Except.toOption).filterMap Statement.production? := List.filterMap_filterMap.symm
  generalize outcomes.filterMap Except.toOption = statements at *
  have importing {s : Statement} {i : Import} (h : s.import? = some i) : s = .importing i := by
    cases s <;> cases h
    rfl
  have production {s : Statement} {p : Production} (h : s.production? = some p) : s = .production p := by
    cases s <;> cases h
    rfl
  constructor
  · intro i hi
    rw [imports_eq] at hi
    obtain ⟨s, hs, he⟩ := List.mem_filterMap.mp hi
    exact importing he ▸ stand s hs
  · intro p hp
    rw [productions_eq] at hp
    obtain ⟨s, hs, he⟩ := List.mem_filterMap.mp hp
    exact production he ▸ stand s hs
  · rw [imports_eq, List.pairwise_map]
    refine ordered.filterMap _ fun s s' before i hi i' hi' => ?_
    cases importing hi
    cases importing hi'
    exact before
  · rw [productions_eq, List.pairwise_map]
    refine ordered.filterMap _ fun s s' before p hp p' hp' => ?_
    cases production hp
    cases production hp'
    exact before
  · intro i hi p hp
    rw [imports_eq] at hi
    rw [productions_eq] at hp
    obtain ⟨s, hs, he⟩ := List.mem_filterMap.mp hi
    obtain ⟨s', hs', he'⟩ := List.mem_filterMap.mp hp
    cases importing he
    cases production he'
    have symmetric : Std.Symm fun s s' : Statement => s.span.Apart s'.span := ⟨fun _ _ => Or.symm⟩
    have either : statements.Pairwise fun s s' => s.span.Apart s'.span := ordered.imp Or.inl
    exact either.forall hs hs' (fun same => by cases same)
  · intro e he
    obtain ⟨o, ho, he⟩ := List.mem_filterMap.mp he
    cases o <;> cases he
    exact marked e ho

/-- What is read from a text stands in it. -/
theorem parse_stands (text : String) : (parse text).Stands text.toList := by
  have cut := cut_tokens text.toList
  obtain ⟨used, sub, derived⟩ := Parser.exists_used (.ending text.toList) (tokens text.toList)
  obtain ⟨stand, ordered⟩ := (cut.sublist sub).statements derived
  refine stands_ofOutcomes stand ordered fun e he => ?_
  have spans := (Parser.segmented_outcomes (.ending text.toList) (tokens text.toList)).spans_sublist
  have mem := spans.subset (List.mem_flatMap.mpr ⟨_, he, List.mem_singleton.mpr rfl⟩)
  rcases List.mem_append.mp mem with mem | mem
  · obtain ⟨t, ht, span_eq⟩ := List.mem_map.mp mem
    exact span_eq ▸ (cut.delimits t ht).toMarks
  · rw [List.mem_singleton.mp mem]
    have split : text.toList = text.toList ++ [] ++ [] := by rw [List.append_nil, List.append_nil]
    have last := Span.marks_of_split split
    rwa [List.append_nil] at last

end Grammar
end GrammarWorkspace
