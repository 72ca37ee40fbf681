import GrammarWorkspace.Proofs.Grammar.Respelling

/-!
# Where locations go when a name is put in

A new name may be longer or shorter than the old one. What comes after it on its line is that much
further to the right, and what comes after it in the text that much further on.
-/
namespace GrammarWorkspace

namespace Location

theorem advance_of_no_newline (l : Location) {text : List Char} (h : ∀ c ∈ text, c ≠ '\n') :
    l.advance text = ⟨l.position + text.length, l.line, l.column + text.length⟩ := by
  induction text generalizing l with
  | nil => rfl
  | cons c rest ih =>
    rw [advance_cons, ih _ fun d hd => h d (List.mem_cons_of_mem c hd), next,
      if_neg (h c List.mem_cons_self)]
    simp only [List.length_cons, Location.mk.injEq, true_and]
    omega

end Location

def Span.map (f : Location → Location) (s : Span) : Span := ⟨f s.start, f s.stop⟩

namespace Grammar

structure Respelling where
  places : List Span
  length : Nat
  name : String

namespace Respelling

variable (r : Respelling)

def move (l : Location) : Location :=
  let before := r.places.filter (·.start.position < l.position)
  let beside := before.filter (·.start.line = l.line)
  ⟨l.position + before.length * r.name.length - before.length * r.length, l.line,
    l.column + beside.length * r.name.length - beside.length * r.length⟩

def marks (t : Token) : Bool := t.kind = .identifier ∧ t.span ∈ r.places

def revise (t : Token) : Token := ⟨t.kind, if r.marks t then r.name else t.text, t.span.map r.move⟩

structure Moved (passed : List Span) (l l' : Location) : Prop where
  position_eq : l'.position + passed.length * r.length = l.position + passed.length * r.name.length
  line_eq : l'.line = l.line
  column_eq : l'.column + (passed.filter (·.start.line = l.line)).length * r.length =
    l.column + (passed.filter (·.start.line = l.line)).length * r.name.length
  behind : ∀ s ∈ passed, s.start.position < l.position ∧ s.start.line ≤ l.line

variable {r} {passed later : List Span} {l l' : Location}

theorem Moved.move_eq (h : r.Moved passed l l') (places_eq : r.places = passed ++ later)
    (ahead : ∀ s ∈ later, l.position ≤ s.start.position) : r.move l = l' := by
  have before : r.places.filter (·.start.position < l.position) = passed := by
    rw [places_eq, List.filter_append, List.filter_eq_self.mpr, List.filter_eq_nil_iff.mpr,
      List.append_nil]
    · intro s hs
      simpa using ahead s hs
    · intro s hs
      simpa using (h.behind s hs).1
  obtain ⟨position_eq, line_eq, column_eq, -⟩ := h
  obtain ⟨position, line, column⟩ := l'
  simp only [move, before, Location.mk.injEq]
  exact ⟨Nat.sub_eq_of_eq_add position_eq.symm, line_eq.symm, Nat.sub_eq_of_eq_add column_eq.symm⟩

theorem Moved.next (h : r.Moved passed l l') (c : Char) : r.Moved passed (l.next c) (l'.next c) := by
  obtain ⟨position_eq, line_eq, column_eq, behind⟩ := h
  by_cases hc : c = '\n'
  · have none : passed.filter (·.start.line = l.line + 1) = [] := by
      rw [List.filter_eq_nil_iff]
      intro s hs
      have := (behind s hs).2
      simp only [decide_eq_true_eq]
      omega
    simp only [Location.next, hc, if_true]
    refine ⟨by simp only; omega, by simp only; omega, by simp [none], fun s hs => ?_⟩
    have := behind s hs
    simp only
    omega
  · simp only [Location.next, hc, if_false]
    refine ⟨by simp only; omega, line_eq, by simp only; omega, fun s hs => ?_⟩
    have := behind s hs
    simp only
    omega

theorem Moved.advance (h : r.Moved passed l l') (text : List Char) :
    r.Moved passed (l.advance text) (l'.advance text) := by
  induction text generalizing l l' with
  | nil => exact h
  | cons c rest ih => exact ih (h.next c)

theorem Moved.pass (h : r.Moved passed l l') {old : List Char} (old_newline : ∀ c ∈ old, c ≠ '\n')
    (name_newline : ∀ c ∈ r.name.toList, c ≠ '\n') (length_eq : old.length = r.length) (hne : old ≠ []) :
    r.Moved (passed ++ [⟨l, l.advance old⟩]) (l.advance old) (l'.advance r.name.toList) := by
  obtain ⟨position_eq, line_eq, column_eq, behind⟩ := h
  have pos := List.length_pos_iff.mpr hne
  rw [Location.advance_of_no_newline l old_newline, Location.advance_of_no_newline l' name_newline]
  have name_length : r.name.toList.length = r.name.length := String.length_toList
  refine ⟨?_, line_eq, ?_, fun s hs => ?_⟩
  · simp only [List.length_append, List.length_singleton, Nat.add_mul, Nat.one_mul]
    omega
  · simp only [List.filter_append, List.filter_cons, decide_true, if_true, List.filter_nil,
      List.length_append, List.length_singleton, Nat.add_mul, Nat.one_mul]
    omega
  · simp only
    rcases List.mem_append.mp hs with hs | hs
    · have := behind s hs
      omega
    · rw [List.mem_singleton.mp hs]
      simp only
      omega

theorem spelled_map_revise_cons (t : Token) (rest : List Token) :
    spelled ((t :: rest).map r.revise) = (r.revise t).text.toList ++ spelled (rest.map r.revise) := rfl

structure Sound (r : Respelling) (tokens : List Token) : Prop where
  old : ∀ t ∈ tokens, r.marks t = true → IsName t.text.toList ∧ t.text.toList.length = r.length
  name : IsName r.name.toList

theorem position_le_of_placed {here : Location} {tokens : List Token} (h : placed here tokens = tokens) :
    ∀ t ∈ tokens, here.position ≤ t.span.start.position := by
  induction tokens generalizing here with
  | nil => simp
  | cons t rest ih =>
    have same := List.cons_eq_cons.mp h
    intro u hu
    rcases List.mem_cons.mp hu with rfl | hu
    · exact Nat.le_of_eq (by rw [← same.1])
    · have := ih same.2 u hu
      rw [Location.position_advance] at this
      omega

theorem pairwise_of_placed {here : Location} {tokens : List Token} (h : placed here tokens = tokens) :
    tokens.Pairwise fun t u => t.span.stop.position ≤ u.span.start.position := by
  induction tokens generalizing here with
  | nil => exact .nil
  | cons t rest ih =>
    obtain ⟨head, tail⟩ := List.cons_eq_cons.mp h
    refine List.pairwise_cons.mpr ⟨fun u hu => ?_, ih tail⟩
    rw [← head]
    exact position_le_of_placed tail u hu

/-- With the new name in all its places, each token is where the move takes it. -/
theorem placed_map_revise {tokens : List Token} {here here' : Location} (sound : r.Sound tokens)
    (contiguous : placed here tokens = tokens)
    (places_eq : r.places = passed ++ (tokens.filter r.marks).map Token.span)
    (moved : r.Moved passed here here') :
    placed here' (tokens.map r.revise) = tokens.map r.revise ∧
      r.move (here.advance (spelled tokens)) = here'.advance (spelled (tokens.map r.revise)) := by
  have ahead : ∀ {here : Location} {tokens : List Token}, placed here tokens = tokens →
      ∀ s ∈ (tokens.filter r.marks).map Token.span, here.position ≤ s.start.position := by
    intro here tokens contiguous s hs
    obtain ⟨t, ht, rfl⟩ := List.mem_map.mp hs
    exact position_le_of_placed contiguous t (List.mem_filter.mp ht).1
  induction tokens generalizing here here' passed with
  | nil => exact ⟨rfl, moved.move_eq places_eq (ahead contiguous)⟩
  | cons t rest ih =>
    obtain ⟨head, tail⟩ := List.cons_eq_cons.mp contiguous
    have span_eq : t.span = ⟨here, here.advance t.text.toList⟩ := by rw [← head]
    have onward : ∃ passed', r.places = passed' ++ (rest.filter r.marks).map Token.span ∧
        r.Moved passed' (here.advance t.text.toList) (here'.advance (r.revise t).text.toList) := by
      cases marked : r.marks t with
      | true =>
        obtain ⟨word, length_eq⟩ := sound.old t List.mem_cons_self marked
        refine ⟨passed ++ [t.span], ?_, ?_⟩
        · rw [places_eq, List.filter_cons_of_pos marked, List.map_cons, List.append_assoc]
          rfl
        · rw [span_eq, revise, if_pos marked]
          exact moved.pass word.no_newline sound.name.no_newline length_eq word.ne_nil
      | false =>
        refine ⟨passed, ?_, ?_⟩
        · rw [places_eq, List.filter_cons_of_neg (by rw [marked]; exact Bool.false_ne_true)]
        · rw [revise, if_neg (by rw [marked]; exact Bool.false_ne_true)]
          exact moved.advance _
    obtain ⟨passed', places_eq', moved'⟩ := onward
    have rest_sound : r.Sound rest := ⟨fun u hu => sound.old u (List.mem_cons_of_mem t hu), sound.name⟩
    have here_eq : r.move here = here' := moved.move_eq places_eq (ahead contiguous)
    have stop_eq : r.move (here.advance t.text.toList) = here'.advance (r.revise t).text.toList :=
      moved'.move_eq places_eq' (ahead tail)
    obtain ⟨placed_eq, end_eq⟩ := ih rest_sound tail places_eq' moved'
    constructor
    · rw [List.map_cons, placed, placed_eq]
      congr 1
      rw [revise, span_eq, Span.map, here_eq, stop_eq]
      rfl
    · rw [spelled_cons, Location.advance_append, end_eq, spelled_map_revise_cons,
        Location.advance_append]

end Respelling
end Grammar
end GrammarWorkspace
