import GrammarWorkspace.Proofs.Grammar.Revising
import Mathlib.Data.List.Nodup
import Mathlib.Data.List.Pairwise
import Mathlib.Data.List.Perm.Subperm

/-!
# A file in which a production is renamed

The new name is put in wherever the old one is an identifier of a statement that could be read.
What is read from the new text is what was read before, under the new name.
-/
namespace GrammarWorkspace.Grammar

def renamed (old new name : String) : String := if name = old then new else name

def Identifier.renamed (old new : String) (move : Span → Span) (id : Identifier) : Identifier :=
  ⟨Grammar.renamed old new id.name, move id.span⟩

namespace Tree

def respelling (t : Tree) (old new : String) : Respelling :=
  ⟨(t.identifiers.filter (·.name = old)).map Identifier.span, old.length, new⟩

def renamed (t : Tree) (old new : String) (move : Span → Span) : Tree :=
  t.map (.renamed old new move) move

theorem map_congr {t : Tree} {f f' : Identifier → Identifier} {g : Span → Span}
    (h : ∀ id ∈ t.identifiers, f id = f' id) : t.map f g = t.map f' g := by
  simp only [Tree.map, Tree.mk.injEq, true_and, and_true]
  refine List.map_congr_left fun p hp => ?_
  have ids : ∀ id, id = p.name ∨ id ∈ p.mentions → f id = f' id := fun id hid =>
    h id (List.mem_flatMap.mpr ⟨p, hp, List.mem_cons.mpr hid⟩)
  simp only [Production.map, Production.mk.injEq, and_true]
  refine ⟨ids _ (.inl rfl), List.map_congr_left fun a ha => List.map_congr_left fun s hs => ?_⟩
  cases s with
  | identifier id =>
    have mentioned : id ∈ p.mentions :=
      List.mem_filterMap.mpr ⟨.identifier id, List.mem_flatten.mpr ⟨a, ha, hs⟩, rfl⟩
    rw [Symbol.map, Symbol.map, ids id (.inr mentioned)]
  | terminal => rfl
  | empty => rfl

end Tree

theorem ordered_of_placed {here : Location} {tokens : List Token} (h : placed here tokens = tokens)
    (hne : ∀ t ∈ tokens, t.text.toList ≠ []) :
    tokens.Pairwise (fun t u => t.span.start.position < u.span.start.position) ∧
      ∀ t ∈ tokens, t.span.start.position < (here.advance (spelled tokens)).position := by
  have proper : ∀ t ∈ tokens, t.span.start.position < t.span.stop.position ∧
      t.span.stop.position ≤ (here.advance (spelled tokens)).position := by
    intro t ht
    obtain ⟨before, after, spelled_eq, span_eq⟩ := exists_split_of_mem h ht
    have length_pos := List.length_pos_iff.mpr (hne t ht)
    rw [span_eq, spelled_eq]
    simp only [Location.position_advance, List.length_append]
    omega
  constructor
  · exact (Respelling.pairwise_of_placed h).imp_of_mem fun ht _ before => Nat.lt_of_lt_of_le (proper _ ht).1 before
  · exact fun t ht => Nat.lt_of_lt_of_le (proper t ht).1 (proper t ht).2

/-- Each token is what is read first of its own characters and what comes after them. -/
theorem Lexed.exists_firstToken {tokens : List Token} (h : Lexed tokens) : ∀ t ∈ tokens, t.text.toList ≠ [] ∧
    ∃ after, firstToken (t.text.toList ++ after) = (t.kind, t.text.toList.length) := by
  induction tokens with
  | nil => simp
  | cons t rest ih =>
    intro u hu
    rcases List.mem_cons.mp hu with rfl | hu
    · exact ⟨h.1, _, h.2.1⟩
    · exact ih h.2.2 u hu

theorem Lexed.ne_nil {tokens : List Token} (h : Lexed tokens) : ∀ t ∈ tokens, t.text.toList ≠ [] :=
  fun t ht => (h.exists_firstToken t ht).1

theorem Lexed.isName {tokens : List Token} (h : Lexed tokens) :
    ∀ t ∈ tokens, t.kind = .identifier → IsName t.text.toList := by
  intro t ht kind
  obtain ⟨hne, after, first⟩ := h.exists_firstToken t ht
  rw [kind] at first
  exact ((firstToken_identifier_iff hne).mp first).1

/-- No two tokens of a text stand at the same place, nor does one stand at the end. -/
theorem nodup_spans (text : List Char) :
    ((tokensFrom .start text).map Token.span ++ [Span.point (.ending text)]).Nodup := by
  have lexed := lexed_tokensFrom .start text
  obtain ⟨ordered, ends⟩ := ordered_of_placed (placed_tokensFrom .start text) lexed.ne_nil
  rw [spelled_tokensFrom] at ends
  rw [List.nodup_append]
  refine ⟨?_, List.nodup_singleton _, fun s hs e he => ?_⟩
  · rw [List.Nodup, List.pairwise_map]
    exact ordered.imp fun less same => by
      rw [same] at less
      exact Nat.lt_irrefl _ less
  · obtain ⟨t, ht, rfl⟩ := List.mem_map.mp hs
    have before := ends t ht
    rintro same
    rw [same, List.mem_singleton.mp he] at before
    exact Nat.lt_irrefl _ before

theorem filter_eq_of_sublist {l l' : List Span} {p : Span → Bool} (h : l.Sublist l') (nodup : l'.Nodup)
    (hp : ∀ s ∈ l', p s = true ↔ s ∈ l) : l'.filter p = l := by
  have kept : l.filter p = l := List.filter_eq_self.mpr fun s hs => (hp s (h.subset hs)).mpr hs
  have only : l'.filter p ⊆ l := fun s hs =>
    (hp s (List.mem_filter.mp hs).1).mp (List.mem_filter.mp hs).2
  have sublist := h.filter p
  rw [kept] at sublist
  exact (sublist.eq_of_length_le (List.subperm_of_subset (nodup.filter p) only).length_le).symm

theorem parts_of_insignificant {kind : Kind} (h : kind.isSignificant = false) : kind.parts = true := by
  cases kind <;> first | rfl | cases h

theorem respelled_map_revise {r : Respelling} {tokens : List Token}
    (nodup : (tokens.map Token.span).Nodup) (parted : Bool)
    (h : ∀ t ∈ tokens, r.marks t = true →
      t ∈ Parser.apart parted (tokens.filter (·.kind.isSignificant))) :
    Respelled r.name.toList parted tokens (tokens.map r.revise) := by
  induction tokens generalizing parted with
  | nil => exact .nil
  | cons t rest ih =>
    obtain ⟨absent, nodup⟩ := List.nodup_cons.mp nodup
    have other : ∀ u ∈ rest, u ≠ t := fun u hu same => absent (same ▸ List.mem_map_of_mem hu)
    cases marked : r.marks t with
    | true =>
      have kind : t.kind = .identifier := by
        have := marked
        simp only [Respelling.marks, decide_eq_true_eq] at this
        exact this.1
      have significant : t.kind.isSignificant = true := by rw [kind]; rfl
      rw [List.filter_cons_of_pos (a := t) significant] at h
      cases parted with
      | false =>
        have mem := h t List.mem_cons_self marked
        rw [Parser.apart] at mem
        have later := (List.filter_sublist.subset ((Parser.apart_sublist _ _).subset mem))
        exact absurd rfl (other t later)
      | true =>
        refine .swap kind kind (by rw [Respelling.revise, if_pos marked]) (ih nodup true fun u hu hm => ?_)
        have mem := h u (List.mem_cons_of_mem t hu) hm
        rw [Parser.apart, kind] at mem
        exact (List.mem_cons.mp mem).resolve_left (other u hu)
    | false =>
      have text_eq : (r.revise t).text = t.text := by
        rw [Respelling.revise, if_neg (by rw [marked]; exact Bool.false_ne_true)]
      refine .keep rfl text_eq (ih nodup _ fun u hu hm => ?_)
      have mem := h u (List.mem_cons_of_mem t hu) hm
      cases significant : t.kind.isSignificant with
      | true =>
        rw [List.filter_cons_of_pos (a := t) significant, Parser.apart] at mem
        refine (List.mem_append.mp mem).resolve_left fun hut => ?_
        cases parted with
        | true => exact other u hu (List.mem_singleton.mp hut)
        | false => cases hut
      | false =>
        have parts := parts_of_insignificant significant
        rw [List.filter_cons_of_neg (a := t) (by rw [significant]; exact Bool.false_ne_true)] at mem
        rw [parts]
        exact (Parser.apart_sublist_apart parted _).subset mem

def respelledText (r : Respelling) (text : String) : String :=
  String.ofList (spelled ((tokensFrom .start text.toList).map r.revise))

section Reading

variable {text old new : String}

theorem tokens_of_identifiers (text : String) :
    ((parse text).identifiers.map Identifier.token).Sublist (Parser.apart true (tokens text.toList)) := by
  rw [parse, identifiers_ofOutcomes]
  exact (Parser.segmented_outcomes _ _).tokens_sublist

theorem tokens_sublist (text : String) : (tokens text.toList).Sublist (tokensFrom .start text.toList) :=
  List.filter_sublist

theorem identifiers_sublist (text : String) :
    ((parse text).identifiers.map Identifier.span).Sublist
      ((tokensFrom .start text.toList).map Token.span) := by
  have sublist := ((tokens_of_identifiers text).trans (Parser.apart_sublist _ _)).trans (tokens_sublist text)
  have spans := sublist.map Token.span
  rwa [List.map_map] at spans

theorem nodup_token_spans (text : String) : ((tokensFrom .start text.toList).map Token.span).Nodup :=
  (nodup_spans text.toList).sublist (List.sublist_append_left _ _)

theorem token_eq_of_span_eq {t u : Token} (ht : t ∈ tokensFrom .start text.toList)
    (hu : u ∈ tokensFrom .start text.toList) (h : t.span = u.span) : t = u :=
  List.inj_on_of_nodup_map (nodup_token_spans text) ht hu h

theorem token_mem {id : Identifier} (h : id ∈ (parse text).identifiers) :
    id.token ∈ Parser.apart true (tokens text.toList) :=
  (tokens_of_identifiers text).subset (List.mem_map_of_mem h)

theorem token_mem_tokensFrom {id : Identifier} (h : id ∈ (parse text).identifiers) :
    id.token ∈ tokensFrom .start text.toList :=
  (tokens_sublist text).subset ((Parser.apart_sublist _ _).subset (token_mem h))

theorem span_mem_places_iff {id : Identifier} (h : id ∈ (parse text).identifiers) :
    id.span ∈ ((parse text).respelling old new).places ↔ id.name = old := by
  constructor
  · intro mem
    obtain ⟨id', h', span_eq⟩ := List.mem_map.mp mem
    obtain ⟨h', name_eq⟩ := List.mem_filter.mp h'
    have same := token_eq_of_span_eq (token_mem_tokensFrom h') (token_mem_tokensFrom h) span_eq
    rw [← of_decide_eq_true name_eq]
    exact (congrArg Token.text same).symm
  · intro name_eq
    exact List.mem_map_of_mem (List.mem_filter.mpr ⟨h, decide_eq_true name_eq⟩)

theorem exists_identifier_of_marks {t : Token} (ht : t ∈ tokensFrom .start text.toList)
    (h : ((parse text).respelling old new).marks t = true) :
    ∃ id ∈ (parse text).identifiers, id.name = old ∧ id.token = t := by
  simp only [Respelling.marks, decide_eq_true_eq] at h
  obtain ⟨id, hid, span_eq⟩ := List.mem_map.mp h.2
  obtain ⟨hid, name_eq⟩ := List.mem_filter.mp hid
  exact ⟨id, hid, of_decide_eq_true name_eq, token_eq_of_span_eq (token_mem_tokensFrom hid) ht span_eq⟩

theorem marks_iff {t : Token} (ht : t ∈ tokensFrom .start text.toList) :
    ((parse text).respelling old new).marks t = true ↔
      t.span ∈ ((parse text).respelling old new).places := by
  constructor
  · intro h
    simp only [Respelling.marks, decide_eq_true_eq] at h
    exact h.2
  · intro h
    obtain ⟨id, hid, span_eq⟩ := List.mem_map.mp h
    have same := token_eq_of_span_eq (token_mem_tokensFrom (List.mem_filter.mp hid).1) ht span_eq
    simp only [Respelling.marks, decide_eq_true_eq]
    exact ⟨by rw [← same]; rfl, h⟩

theorem places_eq (text old new : String) : ((parse text).respelling old new).places =
    ((tokensFrom .start text.toList).filter ((parse text).respelling old new).marks).map Token.span := by
  have sublist : ((parse text).respelling old new).places.Sublist
      ((tokensFrom .start text.toList).map Token.span) :=
    (List.filter_sublist.map Identifier.span).trans (identifiers_sublist text)
  have only := filter_eq_of_sublist (p := (· ∈ ((parse text).respelling old new).places)) sublist
    (nodup_token_spans text) (fun s _ => decide_eq_true_iff)
  rw [List.filter_map] at only
  rw [← only]
  congr 1
  refine List.filter_congr fun t ht => ?_
  rw [Bool.eq_iff_iff, marks_iff ht]
  exact decide_eq_true_iff

theorem sound_respelling (h : IsName new.toList) :
    ((parse text).respelling old new).Sound (tokensFrom .start text.toList) := by
  refine ⟨fun t ht marked => ?_, h⟩
  obtain ⟨id, hid, rfl, rfl⟩ := exists_identifier_of_marks ht marked
  exact ⟨(lexed_tokensFrom .start text.toList).isName _ ht rfl, String.length_toList⟩

theorem error_not_mem_places {e : SyntaxError} (h : .error e ∈ Parser.outcomes (.ending text.toList) (tokens text.toList)) :
    e.span ∉ ((parse text).respelling old new).places := by
  intro mem
  obtain ⟨id, hid, span_eq⟩ := List.mem_map.mp mem
  have hid := (List.mem_filter.mp hid).1
  rw [parse, identifiers_ofOutcomes] at hid
  obtain ⟨o, ho, hid⟩ := List.mem_flatMap.mp hid
  have sublist := (Parser.segmented_outcomes (.ending text.toList) (tokens text.toList)).spans_sublist
  have nodup := (nodup_spans text.toList).sublist
    (sublist.trans (((tokens_sublist text).map Token.span).append (List.Sublist.refl _)))
  have disjoint := (List.nodup_flatMap.mp nodup).2
  cases o with
  | error _ => cases hid
  | ok s =>
    have symm : Std.Symm (Function.onFun List.Disjoint Parser.spansOf) := 
      ⟨fun _ _ disjoint _ left right => disjoint right left⟩
    have apart := disjoint.forall h ho fun same => by cases same
    exact apart (List.mem_singleton.mpr rfl) (span_eq ▸ List.mem_map_of_mem hid)

/-- What is read from the text with the new name is what was read before, under the new name. -/
theorem parse_respelledText (h : IsName new.toList) :
    parse (respelledText ((parse text).respelling old new) text) =
      (parse text).renamed old new (Span.map ((parse text).respelling old new).move) := by
  let r := (parse text).respelling old new
  let all := tokensFrom .start text.toList
  have marked : ∀ t ∈ all, r.marks t = true →
      t ∈ Parser.apart true (all.filter (·.kind.isSignificant)) := by
    intro t ht hm
    obtain ⟨id, hid, -, rfl⟩ := exists_identifier_of_marks ht hm
    exact token_mem hid
  have lexed := (respelled_map_revise (nodup_token_spans text) true marked).lexed
    (lexed_tokensFrom .start text.toList) h
  have none_passed : r.Moved [] .start .start := ⟨by simp, rfl, by simp, by simp⟩
  obtain ⟨placed_eq, end_eq⟩ := Respelling.placed_map_revise (sound_respelling h)
    (placed_tokensFrom .start text.toList) (places_eq text old new) none_passed
  have all_eq : tokensFrom .start (spelled (all.map r.revise)) = all.map r.revise :=
    (tokensFrom_spelled lexed .start).trans placed_eq
  have tokens_eq : tokens (spelled (all.map r.revise)) = (tokens text.toList).map r.revise := by
    rw [tokens, all_eq, List.filter_map]
    rfl
  have ending_eq : Location.ending (spelled (all.map r.revise)) = r.move (.ending text.toList) := by
    rw [spelled_tokensFrom] at end_eq
    exact end_eq.symm
  have renamed : ∀ id ∈ (parse text).identifiers,
      r.revision.reviseIdentifier id = id.renamed old new (Span.map r.move) := by
    intro id hid
    simp only [Revision.reviseIdentifier, Respelling.revision, Identifier.renamed, r, span_mem_places_iff hid]
    rfl
  have spared : ∀ e, .error e ∈ Parser.outcomes (.ending text.toList) (tokens text.toList) →
      e.span ∉ ((parse text).respelling old new).places := fun e he => error_not_mem_places he
  calc parse (respelledText r text)
      = .ofOutcomes (Parser.outcomes (r.move (.ending text.toList)) ((tokens text.toList).map r.revise)) := by
        rw [parse, respelledText, String.toList_ofList, tokens_eq, ending_eq]
    _ = .ofOutcomes ((Parser.outcomes (.ending text.toList) (tokens text.toList)).map
          (Parser.outcomeMap r.revision)) :=
        congrArg Tree.ofOutcomes (Parser.outcomes_map_revise (r := r.revision) _ spared)
    _ = (parse text).map r.revision.reviseIdentifier (Span.map r.move) := ofOutcomes_map r.revision _
    _ = (parse text).renamed old new (Span.map r.move) := Tree.map_congr renamed

end Reading

end GrammarWorkspace.Grammar
