import GrammarWorkspace.Proofs.Grammar.Bindings
import GrammarWorkspace.Proofs.Grammar.Editing
import GrammarWorkspace.Proofs.Grammar.Generations

/-!
# Pointing at identifiers

The range of an identifier selects its name in the text and nothing else. A position lies in one
identifier at most, although the place just after an identifier counts: no identifier begins where
another one ends.
-/
namespace GrammarWorkspace

namespace Range

def selectedFrom (r : Range) : Location → List Char → List Char
  | _, [] => []
  | l, c :: rest => if r.Covers l then c :: r.selectedFrom (l.next c) rest else r.selectedFrom (l.next c) rest

def selected (r : Range) (text : String) : String := .ofList (r.selectedFrom .start text.toList)

variable {r : Range} {l : Location} {text : List Char}

theorem selectedFrom_append (r : Range) (l : Location) (a b : List Char) :
    r.selectedFrom l (a ++ b) = r.selectedFrom l a ++ r.selectedFrom (l.advance a) b := by
  induction a generalizing l with
  | nil => rfl
  | cons c a ih =>
    rw [List.cons_append, selectedFrom, selectedFrom, ih, Location.advance_cons]
    by_cases covered : r.Covers l
    · rw [if_pos covered, if_pos covered, List.cons_append]
    · rw [if_neg covered, if_neg covered]

theorem selectedFrom_of_covers (covers : ∀ a c b, text = a ++ c :: b → r.Covers (l.advance a)) :
    r.selectedFrom l text = text := by
  induction text generalizing l with
  | nil => rfl
  | cons c rest ih =>
    have onward := ih (l := l.next c) fun a d b rest_eq => covers (c :: a) d b (by rw [rest_eq]; rfl)
    have here : r.Covers l := covers [] c rest rfl
    rw [selectedFrom, if_pos here, onward]

theorem selectedFrom_of_not_covers (misses : ∀ a c b, text = a ++ c :: b → ¬ r.Covers (l.advance a)) :
    r.selectedFrom l text = [] := by
  induction text generalizing l with
  | nil => rfl
  | cons c rest ih =>
    have onward := ih (l := l.next c) fun a d b rest_eq => misses (c :: a) d b (by rw [rest_eq]; rfl)
    have here : ¬ r.Covers l := misses [] c rest rfl
    rw [selectedFrom, if_neg here, onward]

theorem selectedFrom_ofSpan (before word after : List Char) {s : Span}
    (start_eq : s.start = Location.start.advance before) (stop_eq : s.stop = Location.start.advance (before ++ word)) :
    (ofSpan s).selectedFrom .start (before ++ word ++ after) = word := by
  have counted : Location.start.IsCounted := ⟨Nat.one_pos, Nat.one_pos⟩
  have covers_iff (l : Location) := covers_ofSpan_iff (s := s) (l := l) (start_eq ▸ counted.advance before)
    (stop_eq ▸ counted.advance (before ++ word))
  rw [start_eq, stop_eq] at covers_iff
  have none_before : (ofSpan s).selectedFrom .start before = [] := by
    apply selectedFrom_of_not_covers
    intro a c b before_eq covered
    have ahead := (Location.start.advance a).precedes_advance (List.cons_ne_nil c b)
    rw [← Location.advance_append, ← before_eq] at ahead
    exact ((covers_iff _).mp covered).1 ahead
  have all_inside : (ofSpan s).selectedFrom (Location.start.advance before) word = word := by
    apply selectedFrom_of_covers
    intro a c b word_eq
    have ahead := ((Location.start.advance before).advance a).precedes_advance (List.cons_ne_nil c b)
    have reached : ((Location.start.advance before).advance a).advance (c :: b) =
        Location.start.advance (before ++ word) := by
      rw [word_eq, Location.advance_append, Location.advance_append]
    rw [reached] at ahead
    exact (covers_iff _).mpr ⟨(Location.start.advance before).not_precedes_advance a, ahead⟩
  have none_after : (ofSpan s).selectedFrom (Location.start.advance (before ++ word)) after = [] := by
    apply selectedFrom_of_not_covers
    intro a c b _ covered
    exact (Location.start.advance (before ++ word)).not_precedes_advance a ((covers_iff _).mp covered).2
  rw [selectedFrom_append, selectedFrom_append, none_before, all_inside, none_after, List.nil_append, List.append_nil]

end Range

theorem Span.not_contains_of_precedes {s s' : Span} (h : s.stop.Precedes s'.start) {line character : Int}
    (inside : s.Contains line character) : ¬ s'.Contains line character := by
  unfold Contains Location.Precedes at *
  omega

namespace Grammar

/-- Where in a tree an identifier can stand: as the name of a production, or as a symbol of an alternative. -/
inductive Site where
  | name (production : Nat)
  | symbol (production alternative index : Nat)
  deriving DecidableEq, Repr

/-- Where no two in a list have a property, at most one place in the list holds one that has it. -/
theorem index_eq {α : Type} {P : α → Prop} {l : List α} {i j : Nat} {a b : α}
    (one : l.Pairwise fun a b => P a → ¬ P b) (ha : l[i]? = some a) (hb : l[j]? = some b) (pa : P a) (pb : P b) :
    i = j := by
  obtain ⟨hi, rfl⟩ := List.getElem?_eq_some_iff.mp ha
  obtain ⟨hj, rfl⟩ := List.getElem?_eq_some_iff.mp hb
  have apart := List.pairwise_iff_getElem.mp one
  rcases Nat.lt_trichotomy i j with before | same | after
  · exact absurd pb (apart i j hi hj before pa)
  · exact same
  · exact absurd pa (apart j i hj hi after pb)

section Sites

variable {t : Tree} {p : Production} {id id' : Identifier} {i j k i' j' k' : Nat}

def Production.mentionIn? (p : Production) (j k : Nat) : Option Identifier := do
  let alternative ← p.alternatives[j]?
  let symbol ← alternative[k]?
  symbol.identifier?

def Tree.identifierIn? (t : Tree) : Site → Option Identifier
  | .name i => t.productions[i]?.map Production.name
  | .symbol i j k => t.productions[i]?.bind fun p => p.mentionIn? j k

theorem Production.mentionIn?_eq_some : p.mentionIn? j k = some id ↔
    ∃ alternative, p.alternatives[j]? = some alternative ∧
      ∃ symbol, alternative[k]? = some symbol ∧ symbol.identifier? = some id := by
  simp only [mentionIn?, Option.bind_eq_bind, Option.bind_eq_some_iff]

theorem Production.mem_mentions : id ∈ p.mentions ↔ ∃ j k, p.mentionIn? j k = some id := by
  simp only [mentions, List.mem_filterMap, List.mem_flatten, mentionIn?_eq_some]
  constructor
  · rintro ⟨symbol, ⟨alternative, ha, hs⟩, hi⟩
    obtain ⟨j, ha⟩ := List.mem_iff_getElem?.mp ha
    obtain ⟨k, hs⟩ := List.mem_iff_getElem?.mp hs
    exact ⟨j, k, alternative, ha, symbol, hs, hi⟩
  · rintro ⟨j, k, alternative, ha, symbol, hs, hi⟩
    exact ⟨symbol, ⟨alternative, List.mem_of_getElem? ha, List.mem_of_getElem? hs⟩, hi⟩

theorem Tree.mem_identifiers : id ∈ t.identifiers ↔ ∃ site, t.identifierIn? site = some id := by
  simp only [identifiers, List.mem_flatMap, List.mem_cons, Production.mem_mentions]
  constructor
  · rintro ⟨p, hp, rfl | ⟨j, k, found⟩⟩
    · obtain ⟨i, hp⟩ := List.mem_iff_getElem?.mp hp
      exact ⟨.name i, Option.map_eq_some_iff.mpr ⟨p, hp, rfl⟩⟩
    · obtain ⟨i, hp⟩ := List.mem_iff_getElem?.mp hp
      exact ⟨.symbol i j k, Option.bind_eq_some_iff.mpr ⟨p, hp, found⟩⟩
  · rintro ⟨site, found⟩
    cases site with
    | name i =>
      obtain ⟨p, hp, rfl⟩ := Option.map_eq_some_iff.mp found
      exact ⟨p, List.mem_of_getElem? hp, Or.inl rfl⟩
    | symbol i j k =>
      obtain ⟨p, hp, found⟩ := Option.bind_eq_some_iff.mp found
      exact ⟨p, List.mem_of_getElem? hp, Or.inr ⟨j, k, found⟩⟩

variable {P : Identifier → Prop}

theorem Production.mentionIn?_unique (one : p.mentions.Pairwise fun id id' => P id → ¬ P id')
    (found : p.mentionIn? j k = some id) (found' : p.mentionIn? j' k' = some id') (holds : P id) (holds' : P id') :
    j = j' ∧ k = k' := by
  obtain ⟨alternative, ha, symbol, hs, hi⟩ := mentionIn?_eq_some.mp found
  obtain ⟨alternative', ha', symbol', hs', hi'⟩ := mentionIn?_eq_some.mp found'
  obtain ⟨within, across⟩ := List.pairwise_flatten.mp (List.pairwise_filterMap.mp one)
  obtain rfl : j = j' := by
    refine index_eq (P := fun alternative => ∃ symbol ∈ alternative, ∃ id, symbol.identifier? = some id ∧ P id)
      (across.imp ?_) ha ha' ⟨symbol, List.mem_of_getElem? hs, id, hi, holds⟩
      ⟨symbol', List.mem_of_getElem? hs', id', hi', holds'⟩
    rintro a b apart ⟨s, hm, id, hi, holds⟩ ⟨s', hm', id', hi', holds'⟩
    exact apart s hm s' hm' id hi id' hi' holds holds'
  rw [ha] at ha'
  cases ha'
  refine ⟨rfl, index_eq (P := fun symbol => ∃ id, symbol.identifier? = some id ∧ P id)
    ((within alternative (List.mem_of_getElem? ha)).imp ?_) hs hs' ⟨id, hi, holds⟩ ⟨id', hi', holds'⟩⟩
  rintro s s' apart ⟨id, hi, holds⟩ ⟨id', hi', holds'⟩
  exact apart id hi id' hi' holds holds'

/-- If no two identifiers of a tree have a property, one site at most has an identifier with it. -/
theorem Tree.site_eq (one : t.identifiers.Pairwise fun id id' => P id → ¬ P id') {site site' : Site}
    (found : t.identifierIn? site = some id) (found' : t.identifierIn? site' = some id') (holds : P id)
    (holds' : P id') : site = site' := by
  obtain ⟨within, across⟩ := List.pairwise_flatMap.mp one
  -- Both sites are in one production. What is left is to tell apart the sites inside of it.
  have same {i i' : Nat} {p p' : Production} (hp : t.productions[i]? = some p) (hp' : t.productions[i']? = some p')
      (here : id ∈ p.name :: p.mentions) (there : id' ∈ p'.name :: p'.mentions) : i = i' := by
    refine index_eq (P := fun p => ∃ id ∈ p.name :: p.mentions, P id) (across.imp ?_) hp hp' ⟨id, here, holds⟩
      ⟨id', there, holds'⟩
    rintro p p' apart ⟨id, hm, holds⟩ ⟨id', hm', holds'⟩
    exact apart id hm id' hm' holds holds'
  cases site with
  | name i =>
    obtain ⟨p, hp, rfl⟩ := Option.map_eq_some_iff.mp found
    cases site' with
    | name i' =>
      obtain ⟨p', hp', rfl⟩ := Option.map_eq_some_iff.mp found'
      rw [same hp hp' List.mem_cons_self List.mem_cons_self]
    | symbol i' j' k' =>
      obtain ⟨p', hp', found'⟩ := Option.bind_eq_some_iff.mp found'
      have mention := Production.mem_mentions.mpr ⟨j', k', found'⟩
      cases same hp hp' List.mem_cons_self (List.mem_cons_of_mem _ mention)
      cases hp.symm.trans hp'
      exact absurd holds' ((List.pairwise_cons.mp (within p (List.mem_of_getElem? hp))).1 id' mention holds)
  | symbol i j k =>
    obtain ⟨p, hp, found⟩ := Option.bind_eq_some_iff.mp found
    have mention := Production.mem_mentions.mpr ⟨j, k, found⟩
    obtain ⟨names, mentions⟩ := List.pairwise_cons.mp (within p (List.mem_of_getElem? hp))
    cases site' with
    | name i' =>
      obtain ⟨p', hp', rfl⟩ := Option.map_eq_some_iff.mp found'
      cases same hp hp' (List.mem_cons_of_mem _ mention) List.mem_cons_self
      cases hp.symm.trans hp'
      exact absurd holds (names id mention holds')
    | symbol i' j' k' =>
      obtain ⟨p', hp', found'⟩ := Option.bind_eq_some_iff.mp found'
      have mention' := Production.mem_mentions.mpr ⟨j', k', found'⟩
      cases same hp hp' (List.mem_cons_of_mem _ mention) (List.mem_cons_of_mem _ mention')
      cases hp.symm.trans hp'
      obtain ⟨rfl, rfl⟩ := Production.mentionIn?_unique mentions found found' holds holds'
      rfl

end Sites

theorem identifiers_apart {here : Location} {tokens : List Token} (lexed : Lexed tokens)
    (contiguous : placed here tokens = tokens) (counted : here.IsCounted) :
    tokens.Pairwise fun t u => t.kind = .identifier → u.kind = .identifier → t.span.stop.Precedes u.span.start := by
  induction tokens generalizing here with
  | nil => exact .nil
  | cons t rest ih =>
    obtain ⟨head, tail⟩ := List.cons_eq_cons.mp contiguous
    refine List.pairwise_cons.mpr ⟨fun u hu kind kind' => ?_, ih lexed.2.2 tail (counted.advance _)⟩
    have stop_eq : t.span.stop = here.advance t.text.toList := by rw [← head]
    obtain ⟨hne, first, lexed⟩ := lexed
    cases rest with
    | nil => cases hu
    | cons v others =>
      rcases List.mem_cons.mp hu with rfl | hu
      · -- The next token would go on with the name.
        rw [kind] at first
        have stops := ((firstToken_identifier_iff hne).mp first).2
        obtain ⟨c, letters, text_eq, starts, -⟩ := (lexed.isName u List.mem_cons_self kind').exists_cons
        rw [spelled_cons, text_eq] at stops
        have ends := stops c rfl
        rw [continuesIdentifier_of_starts starts] at ends
        cases ends
      · obtain ⟨-, tail⟩ := List.cons_eq_cons.mp tail
        have onward := (here.advance t.text.toList).precedes_advance lexed.1
        have later := (laid_of_placed tail lexed.2.2.ne_nil ((counted.advance _).advance _)).2 u hu
        rw [stop_eq]
        unfold Location.Precedes at *
        omega

section Texts

variable {text : String} {id : Identifier}

theorem identifier_tokens_sublist (text : String) :
    ((parse text).identifiers.map Identifier.token).Sublist (tokensFrom .start text.toList) :=
  ((tokens_of_identifiers text).trans (Parser.apart_sublist _ _)).trans (tokens_sublist text)

theorem identifiers_precede (text : String) :
    (parse text).identifiers.Pairwise fun id id' => id.span.stop.Precedes id'.span.start := by
  have apart := (identifiers_apart (lexed_tokensFrom .start text.toList) (placed_tokensFrom .start text.toList)
    ⟨Nat.one_pos, Nat.one_pos⟩).sublist (identifier_tokens_sublist text)
  exact (List.pairwise_map.mp apart).imp fun precedes => precedes rfl rfl

theorem nodup_identifiers (text : String) : (parse text).identifiers.Nodup :=
  ((nodup_token_spans text).sublist (identifiers_sublist text)).of_map

theorem of_identifierAt {t : Tree} {line character : Int} (found : t.identifierAt line character = some id) :
    id ∈ t.identifiers ∧ id.span.Contains line character := by
  have holds := List.find?_some (show t.identifiers.find? _ = some id from found)
  exact ⟨List.mem_of_find?_eq_some found, of_decide_eq_true holds⟩

theorem not_both_contain (text : String) (line character : Int) : (parse text).identifiers.Pairwise fun id id' =>
    id.span.Contains line character → ¬ id'.span.Contains line character :=
  (identifiers_precede text).imp fun precedes => Span.not_contains_of_precedes precedes

theorem identifierAt_of_contains (mem : id ∈ (parse text).identifiers) {line character : Int}
    (inside : id.span.Contains line character) : (parse text).identifierAt line character = some id := by
  cases found : (parse text).identifierAt line character with
  | none => exact absurd (decide_eq_true inside) (List.find?_eq_none.mp found id mem)
  | some id' =>
    obtain ⟨mem', inside'⟩ := of_identifierAt found
    have symm : Std.Symm fun id id' : Identifier =>
        id.span.Contains line character → ¬ id'.span.Contains line character :=
      ⟨fun _ _ h inside inside' => h inside' inside⟩
    by_contra other
    exact (not_both_contain text line character).forall mem mem' (fun same => other (by rw [same])) inside inside'

theorem selected_of_identifier (mem : id ∈ (parse text).identifiers) :
    (Range.ofSpan id.span).selected text = id.name := by
  obtain ⟨before, after, text_eq, span_eq⟩ :=
    exists_split_of_mem (placed_tokensFrom .start text.toList) (token_mem_tokensFrom mem)
  rw [spelled_tokensFrom] at text_eq
  have start_eq : id.span.start = Location.start.advance before := congrArg Span.start span_eq
  have stop_eq : id.span.stop = Location.start.advance (before ++ id.name.toList) := congrArg Span.stop span_eq
  have chosen := Range.selectedFrom_ofSpan before id.name.toList after start_eq stop_eq
  rw [show before ++ id.name.toList ++ after = text.toList from text_eq.symm] at chosen
  rw [Range.selected, chosen, String.ofList_toList]

/-- An identifier stands on one line, where its name takes as many columns as it has characters. -/
theorem stop_of_identifier (mem : id ∈ (parse text).identifiers) :
    id.span.stop = ⟨id.span.start.position + id.name.length, id.span.start.line,
      id.span.start.column + id.name.length⟩ := by
  obtain ⟨before, after, -, span_eq⟩ :=
    exists_split_of_mem (placed_tokensFrom .start text.toList) (token_mem_tokensFrom mem)
  have start_eq : id.span.start = Location.start.advance before := congrArg Span.start span_eq
  have stop_eq : id.span.stop = Location.start.advance (before ++ id.name.toList) := congrArg Span.stop span_eq
  have name : IsName id.name.toList :=
    (lexed_tokensFrom .start text.toList).isName id.token (token_mem_tokensFrom mem) rfl
  rw [stop_eq, Location.advance_append, ← start_eq, Location.advance_of_no_newline _ name.no_newline,
    String.length_toList]

/-- A position lies in the identifier at one site at most. This is the one that is found, and none is if there is
no such site. An identifier is found from its first column to the place just after its last character. -/
theorem identifierAt_parse (text : String) :
    (∀ line character : Int,
      (∀ site site' id id', (parse text).identifierIn? site = some id → (parse text).identifierIn? site' = some id' →
        id.span.Contains line character → id'.span.Contains line character → site = site') ∧
      ∀ id, (parse text).identifierAt line character = some id ↔
        (∃ site, (parse text).identifierIn? site = some id) ∧ id.span.Contains line character) ∧
      ∀ site id, (parse text).identifierIn? site = some id → (Range.ofSpan id.span).selected text = id.name ∧
        id.span.stop.line = id.span.start.line ∧ id.span.stop.column = id.span.start.column + id.name.length ∧
        ∀ passed ≤ id.name.length,
          (parse text).identifierAt (id.span.start.line - 1) (id.span.start.column - 1 + passed) = some id := by
  refine ⟨fun line character => ⟨fun site site' id id' found found' => ?_, fun id => ?_⟩, fun site id found => ?_⟩
  · exact Tree.site_eq (not_both_contain text line character) found found'
  · rw [← Tree.mem_identifiers]
    exact ⟨of_identifierAt, fun ⟨mem, inside⟩ => identifierAt_of_contains mem inside⟩
  · have mem := Tree.mem_identifiers.mpr ⟨site, found⟩
    have stop_eq := stop_of_identifier mem
    refine ⟨selected_of_identifier mem, by rw [stop_eq], by rw [stop_eq], fun passed within => ?_⟩
    apply identifierAt_of_contains mem
    rw [Span.Contains, stop_eq]
    dsimp only
    omega

/-- The place just after an identifier still finds it, also where a bar follows. -/
theorem identifierAt_parse_bar : ∃ id, (parse "a:=b|c;").identifierIn? (.symbol 0 0 0) = some id ∧ id.name = "b" ∧
    (parse "a:=b|c;").identifierAt 0 3 = some id ∧ (parse "a:=b|c;").identifierAt 0 4 = some id ∧
    (parse "a:=b|c;").identifierAt 0 2 = none := by
  have placed : (parse "a:=b|c;").identifierIn? (.symbol 0 0 0) =
      some ⟨"b", ⟨3, 1, 4⟩, ⟨4, 1, 5⟩⟩ := by decide +kernel
  obtain ⟨-, -, -, found⟩ := (identifierAt_parse "a:=b|c;").2 _ _ placed
  exact ⟨_, placed, rfl, found 0 (by decide), found 1 (by decide), by decide +kernel⟩

end Texts

namespace Compilation

variable {c : Compilation} {name : String} {o : Occurrence}

theorem IsGenuine.file_eq (genuine : c.IsGenuine) : ∀ file s, c.source? file = some s → s.file = file :=
  fun file s hs => (genuine file s hs).choose_spec.file_eq

theorem identifier_of_bound (genuine : c.IsGenuine) (ho : o ∈ c.boundTo name) :
    ∃ s, c.source? o.file = some s ∧ o.id ∈ s.tree.identifiers ∧ o.name = name := by
  obtain ⟨s, hs⟩ := Table.mem_keys_iff.mp (mem_keys_of_bound genuine.file_eq ho)
  have mem := (bound_perm genuine.file_eq hs name).subset (List.mem_filter.mpr ⟨ho, decide_eq_true rfl⟩)
  obtain ⟨id, hid, same⟩ := List.mem_map.mp mem
  obtain ⟨hid, -⟩ := List.mem_filter.mp hid
  exact ⟨s, hs, by rw [← same]; exact hid, (mem_boundTo.mp ho).1⟩

theorem nodup_boundTo (genuine : c.IsGenuine) (name : String) : (c.boundTo name).Nodup := by
  refine List.nodup_iff_count_le_one.mpr fun o => ?_
  by_cases ho : o ∈ c.boundTo name
  · obtain ⟨s, hs, -⟩ := identifier_of_bound genuine ho
    obtain ⟨text, of⟩ := genuine o.file s hs
    have nodup : ((s.tree.identifiers.filter (·.name = name)).map (Occurrence.mk o.file)).Nodup := by
      rw [of.tree_eq]
      refine ((nodup_identifiers text).filter _).map fun _ _ same => ?_
      cases same
      rfl
    have once := List.nodup_iff_count_le_one.mp ((bound_perm genuine.file_eq hs name).nodup_iff.mpr nodup) o
    have kept : ((c.boundTo name).filter (·.file = o.file)).count o = (c.boundTo name).count o :=
      List.count_filter (decide_eq_true rfl)
    rwa [kept] at once
  · rw [List.count_eq_zero_of_not_mem ho]
    exact Nat.zero_le 1

end Compilation
end Grammar
end GrammarWorkspace
