import GrammarWorkspace.Proofs.Grammar.Renaming
import GrammarWorkspace.Workspace.Observation

/-!
# Making edits

Edits of a text are made all at once: what each puts in stands where its range starts, and what the
ranges cover goes away. The edits that put a new name in the place of an old one give the text that is
spelled with the new name.
-/
namespace GrammarWorkspace

namespace Location

def Precedes (l l' : Location) : Prop := l.line < l'.line ∨ l.line = l'.line ∧ l.column < l'.column

theorem precedes_next (l : Location) (c : Char) : l.Precedes (l.next c) := by
  unfold next
  split
  · exact .inl (Nat.lt_succ_self _)
  · exact .inr ⟨rfl, Nat.lt_succ_self _⟩

theorem Precedes.trans {l l' l'' : Location} (h : l.Precedes l') (h' : l'.Precedes l'') : l.Precedes l'' := by
  unfold Precedes at *
  omega

theorem not_precedes_advance (l : Location) (text : List Char) : ¬ (l.advance text).Precedes l := by
  induction text generalizing l with
  | nil => simp [Precedes]
  | cons c rest ih =>
    intro h
    exact ih (l.next c) (h.trans (precedes_next l c))

theorem precedes_advance (l : Location) {text : List Char} (h : text ≠ []) : l.Precedes (l.advance text) := by
  cases text with
  | nil => exact absurd rfl h
  | cons c rest =>
    have later := not_precedes_advance (l.next c) rest
    have first := precedes_next l c
    rw [advance_cons]
    unfold Precedes at *
    omega

def IsCounted (l : Location) : Prop := 0 < l.line ∧ 0 < l.column

theorem IsCounted.advance {l : Location} (h : l.IsCounted) (text : List Char) : (l.advance text).IsCounted := by
  induction text generalizing l with
  | nil => exact h
  | cons c rest ih =>
    refine ih ?_
    unfold next IsCounted
    split
    · exact ⟨Nat.succ_pos _, Nat.one_pos⟩
    · exact ⟨h.1, Nat.succ_pos _⟩

end Location

namespace Range

def StartsAt (r : Range) (l : Location) : Prop :=
  r.startLine + 1 = l.line ∧ r.startCharacter + 1 = l.column

def Covers (r : Range) (l : Location) : Prop :=
  (r.startLine + 1 < l.line ∨ r.startLine + 1 = l.line ∧ r.startCharacter + 1 ≤ l.column) ∧
    (l.line < r.endLine + 1 ∨ l.line = r.endLine + 1 ∧ l.column < r.endCharacter + 1)

def EndsBefore (r r' : Range) : Prop :=
  r.endLine < r'.startLine ∨ r.endLine = r'.startLine ∧ r.endCharacter ≤ r'.startCharacter

instance (r : Range) (l : Location) : Decidable (r.StartsAt l) := by
  unfold StartsAt; infer_instance

instance (r : Range) (l : Location) : Decidable (r.Covers l) := by
  unfold Covers; infer_instance

instance (r r' : Range) : Decidable (r.EndsBefore r') := by
  unfold EndsBefore; infer_instance

variable {s : Span} {l : Location}

theorem startsAt_ofSpan_iff (counted : s.start.IsCounted) : (ofSpan s).StartsAt l ↔
    ¬ s.start.Precedes l ∧ ¬ l.Precedes s.start := by
  obtain ⟨line, column⟩ := counted
  simp only [StartsAt, ofSpan, Location.Precedes]
  omega

theorem covers_ofSpan_iff (counted : s.start.IsCounted) (counted' : s.stop.IsCounted) :
    (ofSpan s).Covers l ↔ ¬ l.Precedes s.start ∧ l.Precedes s.stop := by
  obtain ⟨line, column⟩ := counted
  obtain ⟨line', column'⟩ := counted'
  simp only [Covers, ofSpan, Location.Precedes]
  omega

end Range

namespace Edit

def Disjoint (e e' : Edit) : Prop := e.range.EndsBefore e'.range ∨ e'.range.EndsBefore e.range

def insertedAt (edits : List Edit) (l : Location) : List Char :=
  (edits.filter (·.range.StartsAt l)).flatMap (·.newText.toList)

def applyFrom (edits : List Edit) : Location → List Char → List Char
  | _, [] => []
  | l, c :: rest =>
    insertedAt edits l ++ (if edits.any (·.range.Covers l) then [] else [c]) ++
      applyFrom edits (l.next c) rest

def apply (edits : List Edit) (text : String) : String :=
  .ofList (applyFrom edits .start text.toList ++ insertedAt edits (.ending text.toList))

variable {edits : List Edit} {l : Location}

theorem applyFrom_append (edits : List Edit) (l : Location) (a b : List Char) :
    applyFrom edits l (a ++ b) = applyFrom edits l a ++ applyFrom edits (l.advance a) b := by
  induction a generalizing l with
  | nil => rfl
  | cons c a ih =>
    rw [List.cons_append, applyFrom, ih, applyFrom, Location.advance_cons]
    simp only [List.append_assoc]

def Misses (e : Edit) (l : Location) : Prop := ¬ e.range.StartsAt l ∧ ¬ e.range.Covers l

theorem insertedAt_of_misses (h : ∀ e ∈ edits, e.Misses l) : insertedAt edits l = [] := by
  rw [insertedAt, List.filter_eq_nil_iff.mpr fun e he => by simpa using (h e he).1]
  rfl

theorem applyFrom_of_misses {text : List Char}
    (h : ∀ a c b, text = a ++ c :: b → ∀ e ∈ edits, e.Misses (l.advance a)) :
    applyFrom edits l text = text := by
  induction text generalizing l with
  | nil => rfl
  | cons c rest ih =>
    have here : ∀ e ∈ edits, e.Misses l := h [] c rest rfl
    have onward := ih (l := l.next c) fun a d b rest_eq => h (c :: a) d b (by rw [rest_eq]; rfl)
    have uncovered : edits.any (·.range.Covers l) = false := by
      rw [List.any_eq_false]
      exact fun e he => by simpa using (here e he).2
    rw [applyFrom, insertedAt_of_misses here, uncovered, onward]
    rfl

theorem applyFrom_of_covers {e : Edit} (he : e ∈ edits) {text : List Char}
    (covers : ∀ a c b, text = a ++ c :: b → e.range.Covers (l.advance a))
    (starts : ∀ a c b, text = a ++ c :: b → ∀ e' ∈ edits, ¬ e'.range.StartsAt (l.advance a)) :
    applyFrom edits l text = [] := by
  induction text generalizing l with
  | nil => rfl
  | cons c rest ih =>
    have onward := ih (l := l.next c)
      (fun a d b rest_eq => covers (c :: a) d b (by rw [rest_eq]; rfl))
      (fun a d b rest_eq => starts (c :: a) d b (by rw [rest_eq]; rfl))
    have covered : edits.any (·.range.Covers l) = true :=
      List.any_eq_true.mpr ⟨e, he, by simpa using covers [] c rest rfl⟩
    have nothing : insertedAt edits l = [] := by
      rw [insertedAt, List.filter_eq_nil_iff.mpr fun e' he' => by simpa using starts [] c rest rfl e' he']
      rfl
    rw [applyFrom, nothing, covered, onward]
    rfl

end Edit

namespace Grammar

structure Laid (tokens : List Token) : Prop where
  ordered : tokens.Pairwise fun t u => ¬ u.span.start.Precedes t.span.stop
  stop_eq : ∀ t ∈ tokens, t.span.stop = t.span.start.advance t.text.toList
  ne_nil : ∀ t ∈ tokens, t.text.toList ≠ []
  counted : ∀ t ∈ tokens, t.span.start.IsCounted

theorem laid_of_placed {here : Location} {tokens : List Token} (h : placed here tokens = tokens)
    (ne_nil : ∀ t ∈ tokens, t.text.toList ≠ []) (counted : here.IsCounted) :
    Laid tokens ∧ ∀ t ∈ tokens, ¬ t.span.start.Precedes here := by
  induction tokens generalizing here with
  | nil => exact ⟨⟨.nil, by simp, by simp, by simp⟩, by simp⟩
  | cons t rest ih =>
    obtain ⟨head, tail⟩ := List.cons_eq_cons.mp h
    obtain ⟨laid, later⟩ := ih tail (fun u hu => ne_nil u (List.mem_cons_of_mem t hu))
      (counted.advance t.text.toList)
    have start_eq : t.span.start = here := by rw [← head]
    have stop_eq : t.span.stop = here.advance t.text.toList := by rw [← head]
    have onward := here.precedes_advance (ne_nil t List.mem_cons_self)
    refine ⟨⟨List.pairwise_cons.mpr ⟨fun u hu => ?_, laid.ordered⟩, ?_, ne_nil, ?_⟩, ?_⟩
    · rw [stop_eq]
      exact later u hu
    · exact List.forall_mem_cons.mpr ⟨by rw [start_eq, stop_eq], laid.stop_eq⟩
    · exact List.forall_mem_cons.mpr ⟨by rwa [start_eq], laid.counted⟩
    · refine List.forall_mem_cons.mpr ⟨?_, fun u hu before => later u hu (before.trans onward)⟩
      rw [start_eq]
      exact Location.not_precedes_advance here []

theorem laid_tokensFrom (text : List Char) : Laid (tokensFrom .start text) :=
  (laid_of_placed (placed_tokensFrom .start text) (lexed_tokensFrom .start text).ne_nil
    ⟨Nat.one_pos, Nat.one_pos⟩).1

namespace Respelling

variable {r : Respelling} {t u : Token} {l : Location}

def edit (r : Respelling) (s : Span) : Edit := ⟨.ofSpan s, r.name⟩

variable {before rest : List Token} {edits : List Edit} {here : Location}

theorem misses_edit (counted : u.span.start.IsCounted) (stop_eq : u.span.stop = u.span.start.advance u.text.toList)
    (ne_nil : u.text.toList ≠ []) (h : ¬ l.Precedes u.span.stop ∨ l.Precedes u.span.start) :
    (r.edit u.span).Misses l := by
  have proper := u.span.start.precedes_advance ne_nil
  rw [← stop_eq] at proper
  have counted' : u.span.stop.IsCounted := by
    rw [stop_eq]
    exact counted.advance _
  rw [Edit.Misses, edit, Range.startsAt_ofSpan_iff counted, Range.covers_ofSpan_iff counted counted']
  unfold Location.Precedes at *
  omega

theorem misses_of_other (laid : Laid (before ++ t :: rest)) (hu : u ∈ before ∨ u ∈ rest)
    {a b : List Char} {c : Char} (text_eq : t.text.toList = a ++ c :: b) :
    (r.edit u.span).Misses (t.span.start.advance a) := by
  have ordered := List.pairwise_append.mp laid.ordered
  have mem : u ∈ before ++ t :: rest := by
    rcases hu with hu | hu
    · exact List.mem_append_left _ hu
    · exact List.mem_append_right _ (List.mem_cons_of_mem t hu)
  have mem_t : t ∈ before ++ t :: rest := List.mem_append_right _ List.mem_cons_self
  refine misses_edit (laid.counted u mem) (laid.stop_eq u mem) (laid.ne_nil u mem) ?_
  have started := t.span.start.not_precedes_advance a
  have ends := (t.span.start.advance a).precedes_advance (List.cons_ne_nil c b)
  rw [← Location.advance_append, ← text_eq, ← laid.stop_eq t mem_t] at ends
  rcases hu with hu | hu
  · have behind := ordered.2.2 u hu t List.mem_cons_self
    left
    unfold Location.Precedes at *
    omega
  · have ahead := (List.pairwise_cons.mp ordered.2.1).1 u hu
    right
    unfold Location.Precedes at *
    omega

theorem insertedAt_edits (laid : Laid (before ++ t :: rest)) (marked : r.marks t = true)
    (perm : edits.Perm (((before ++ t :: rest).filter r.marks).map fun t => r.edit t.span)) :
    Edit.insertedAt edits t.span.start = r.name.toList := by
  have mem_t : t ∈ before ++ t :: rest := List.mem_append_right _ List.mem_cons_self
  obtain ⟨c, b, text_eq⟩ := List.exists_cons_of_ne_nil (laid.ne_nil t mem_t)
  have none : ∀ others : List Token, (∀ u ∈ others, u ∈ before ∨ u ∈ rest) →
      ((others.filter r.marks).map fun t => r.edit t.span).filter (·.range.StartsAt t.span.start) = [] := by
    intro others sub
    refine List.filter_eq_nil_iff.mpr fun e he => ?_
    obtain ⟨u, hu, rfl⟩ := List.mem_map.mp he
    have misses := (misses_of_other (r := r) laid (sub u (List.mem_filter.mp hu).1)
      (show t.text.toList = [] ++ c :: b from text_eq)).1
    simpa using misses
  have here : (r.edit t.span).range.StartsAt t.span.start := by
    rw [edit, Range.startsAt_ofSpan_iff (laid.counted t mem_t)]
    exact ⟨t.span.start.not_precedes_advance [], t.span.start.not_precedes_advance []⟩
  have one := perm.filter (·.range.StartsAt t.span.start)
  rw [List.filter_append, List.map_append, List.filter_append, none before fun _ => .inl,
    List.filter_cons_of_pos marked, List.map_cons, List.filter_cons_of_pos (by simpa using here),
    none rest fun _ => .inr] at one
  rw [Edit.insertedAt, List.perm_singleton.mp one]
  exact List.append_nil _

theorem applyFrom_token (laid : Laid (before ++ t :: rest))
    (perm : edits.Perm (((before ++ t :: rest).filter r.marks).map fun t => r.edit t.span)) :
    Edit.applyFrom edits t.span.start t.text.toList = (r.revise t).text.toList := by
  have mem_t : t ∈ before ++ t :: rest := List.mem_append_right _ List.mem_cons_self
  have edit_of : ∀ e ∈ edits, ∃ u, (u ∈ before ∨ u ∈ rest ∨ u = t) ∧ r.marks u = true ∧ e = r.edit u.span := by
    intro e he
    obtain ⟨u, hu, rfl⟩ := List.mem_map.mp (perm.subset he)
    obtain ⟨hu, marked⟩ := List.mem_filter.mp hu
    simp only [List.mem_append, List.mem_cons] at hu
    exact ⟨u, by tauto, marked, rfl⟩
  cases marked : r.marks t with
  | false =>
    rw [revise, if_neg (by rw [marked]; exact Bool.false_ne_true)]
    refine Edit.applyFrom_of_misses fun a c b text_eq e he => ?_
    obtain ⟨u, hu, hm, rfl⟩ := edit_of e he
    rcases hu with hu | hu | rfl
    · exact misses_of_other laid (.inl hu) text_eq
    · exact misses_of_other laid (.inr hu) text_eq
    · rw [marked] at hm
      cases hm
  | true =>
    have mem_edit : r.edit t.span ∈ edits := perm.symm.subset
      (List.mem_map_of_mem (List.mem_filter.mpr ⟨mem_t, marked⟩))
    have covers : ∀ a c b, t.text.toList = a ++ c :: b →
        (r.edit t.span).range.Covers (t.span.start.advance a) := by
      intro a c b text_eq
      have counted := laid.counted t mem_t
      rw [edit, Range.covers_ofSpan_iff counted (by rw [laid.stop_eq t mem_t]; exact counted.advance _)]
      refine ⟨t.span.start.not_precedes_advance a, ?_⟩
      rw [laid.stop_eq t mem_t, text_eq, Location.advance_append]
      exact Location.precedes_advance _ (List.cons_ne_nil c b)
    obtain ⟨c, b, text_eq⟩ := List.exists_cons_of_ne_nil (laid.ne_nil t mem_t)
    have covered : edits.any (·.range.Covers t.span.start) = true :=
      List.any_eq_true.mpr ⟨_, mem_edit, by simpa using covers [] c b text_eq⟩
    have gone : Edit.applyFrom edits (t.span.start.next c) b = [] := by
      refine Edit.applyFrom_of_covers mem_edit (fun a d b' b_eq => covers (c :: a) d b' ?_) ?_
      · rw [text_eq, b_eq]
        rfl
      · intro a d b' b_eq e he
        have onward : t.text.toList = (c :: a) ++ d :: b' := by
          rw [text_eq, b_eq]
          rfl
        obtain ⟨u, hu, -, rfl⟩ := edit_of e he
        rcases hu with hu | hu | rfl
        · exact (misses_of_other laid (.inl hu) onward).1
        · exact (misses_of_other laid (.inr hu) onward).1
        · rw [edit, Range.startsAt_ofSpan_iff (laid.counted u mem_t)]
          exact fun same => same.1 (u.span.start.precedes_advance (List.cons_ne_nil c a))
    rw [revise, if_pos marked, text_eq, Edit.applyFrom, insertedAt_edits laid marked perm, covered, gone,
      if_pos rfl, List.append_nil, List.append_nil]

theorem applyFrom_edits (laid : Laid (before ++ rest)) (contiguous : placed here rest = rest)
    (perm : edits.Perm (((before ++ rest).filter r.marks).map fun t => r.edit t.span)) :
    Edit.applyFrom edits here (spelled rest) = spelled (rest.map r.revise) := by
  induction rest generalizing before here with
  | nil => rfl
  | cons t rest ih =>
    obtain ⟨head, tail⟩ := List.cons_eq_cons.mp contiguous
    have start_eq : here = t.span.start := by rw [← head]
    have token := applyFrom_token laid perm
    rw [List.append_cons] at laid perm
    rw [spelled_cons, Edit.applyFrom_append, spelled_map_revise_cons, ih laid tail perm]
    rw [start_eq, token]

theorem pairwise_disjoint (laid : Laid rest)
    (perm : edits.Perm ((rest.filter r.marks).map fun t => r.edit t.span)) : edits.Pairwise Edit.Disjoint := by
  have symm : ∀ {e e' : Edit}, e.Disjoint e' → e'.Disjoint e := Or.symm
  refine (perm.pairwise_iff symm).mpr (List.pairwise_map.mpr ?_)
  have sublist : (rest.filter r.marks).Sublist rest := List.filter_sublist
  refine (laid.ordered.sublist sublist).imp_of_mem fun {t u} ht hu before => .inl ?_
  have counted := laid.counted u (sublist.subset hu)
  have counted' : t.span.stop.IsCounted := by
    rw [laid.stop_eq t (sublist.subset ht)]
    exact (laid.counted t (sublist.subset ht)).advance _
  simp only [edit, Range.EndsBefore, Range.ofSpan, Location.Precedes, Location.IsCounted] at *
  omega

theorem not_precedes_stop {tokens : List Token} (contiguous : placed here tokens = tokens) :
    ∀ t ∈ tokens, ¬ (here.advance (spelled tokens)).Precedes t.span.stop := by
  induction tokens generalizing here with
  | nil => simp
  | cons t rest ih =>
    obtain ⟨head, tail⟩ := List.cons_eq_cons.mp contiguous
    rw [spelled_cons, Location.advance_append]
    refine List.forall_mem_cons.mpr ⟨?_, ih tail⟩
    rw [← head]
    exact Location.not_precedes_advance _ _

end Respelling

/-- The edits that put a new name in the place of an old one, in whatever order they come. -/
theorem apply_edits {text old new : String} {edits : List Edit}
    (perm : edits.Perm (((parse text).respelling old new).places.map ((parse text).respelling old new).edit)) :
    edits.Pairwise Edit.Disjoint ∧
      Edit.apply edits text = respelledText ((parse text).respelling old new) text := by
  have laid := laid_tokensFrom text.toList
  have contiguous := placed_tokensFrom .start text.toList
  rw [places_eq, List.map_map] at perm
  have ending : Edit.insertedAt edits (.ending text.toList) = [] := by
    refine Edit.insertedAt_of_misses fun e he => ?_
    obtain ⟨t, ht, rfl⟩ := List.mem_map.mp (perm.subset he)
    have ht := (List.mem_filter.mp ht).1
    have behind := Respelling.not_precedes_stop contiguous t ht
    rw [spelled_tokensFrom] at behind
    exact Respelling.misses_edit (laid.counted t ht) (laid.stop_eq t ht) (laid.ne_nil t ht) (.inl behind)
  have edited := Respelling.applyFrom_edits (show Laid ([] ++ tokensFrom .start text.toList) from laid)
    contiguous perm
  rw [spelled_tokensFrom] at edited
  exact ⟨Respelling.pairwise_disjoint laid perm, by rw [Edit.apply, edited, ending, List.append_nil]; rfl⟩

end Grammar
end GrammarWorkspace
