import GrammarWorkspace.Proofs.Grammar.Loading

/-!
# Turns in the queue

Reading may change the state, and with it what later reads come to. What is loaded is what was noted down of each
file when its turn came, and nothing that happens afterwards makes a difference.
-/
namespace GrammarWorkspace.Grammar

open Work (Ends)

variable {σ : Type} {read : String → Work σ (Option String)} {sourceOf : String → String → Source}

/-- Loading a queue on from what is loaded, with these reads one after the other, comes to the result. -/
inductive Replays (sourceOf : String → String → Source) :
    Table String Source → List String → List (String × Option String) → Table String Source → Prop where
  | done (loaded) : Replays sourceOf loaded [] [] loaded
  | known {loaded file queue reads result} : file ∈ loaded.keys → Replays sourceOf loaded queue reads result →
      Replays sourceOf loaded (file :: queue) reads result
  | missing {loaded file queue reads result} : file ∉ loaded.keys → Replays sourceOf loaded queue reads result →
      Replays sourceOf loaded (file :: queue) ((file, none) :: reads) result
  | load {loaded file queue text reads result} : file ∉ loaded.keys →
      Replays sourceOf (loaded.insert file (sourceOf file text)) (queue ++ (sourceOf file text).targets) reads
        result → Replays sourceOf loaded (file :: queue) ((file, some text) :: reads) result

namespace Replays

variable {loaded result : Table String Source} {queue : List String} {reads : List (String × Option String)}
  {file text : String}

theorem get?_of_loaded (h : Replays sourceOf loaded queue reads result) {s : Source}
    (hs : loaded.get? file = some s) : result.get? file = some s := by
  induction h with
  | done => exact hs
  | known _ _ ih | missing _ _ ih => exact ih hs
  | load hf _ ih =>
    apply ih
    rw [Table.get?_insert, if_neg, hs]
    rintro rfl
    exact hf (Table.mem_keys_of_get? hs)

theorem text_iff (h : Replays sourceOf loaded queue reads result)
    (text_eq : ∀ file text, (sourceOf file text).text = text) :
    (result.get? file).map Source.text = some text ↔
      (loaded.get? file).map Source.text = some text ∨ (file, some text) ∈ reads := by
  induction h with
  | done => simp
  | known _ _ ih => exact ih
  | missing _ _ ih => simp [ih]
  | @load loaded f queue t reads result hf _ ih =>
    rw [ih, Table.get?_insert]
    by_cases he : f = file
    · subst he
      have absent : loaded.get? f = none := Table.get?_eq_none_iff.mpr hf
      simp [absent, text_eq, eq_comm]
    · simp [he, Ne.symm he]

theorem asked (h : Replays sourceOf loaded queue reads result) {answer : Option String}
    (hm : (file, answer) ∈ reads) :
    file ∈ queue ∨ ∃ f s, result.get? f = some s ∧ file ∈ s.targets := by
  induction h with
  | done => cases hm
  | known _ _ ih => exact (ih hm).imp_left (List.mem_cons_of_mem _)
  | missing _ _ ih =>
    rcases List.mem_cons.mp hm with here | hm
    · cases here
      exact Or.inl List.mem_cons_self
    · exact (ih hm).imp_left (List.mem_cons_of_mem _)
  | @load loaded f queue t reads result hf rest ih =>
    rcases List.mem_cons.mp hm with here | hm
    · cases here
      exact Or.inl List.mem_cons_self
    · rcases ih hm with waiting | imported
      · refine (List.mem_append.mp waiting).imp (List.mem_cons_of_mem _) fun target => ?_
        exact ⟨f, sourceOf f t, rest.get?_of_loaded (by rw [Table.get?_insert, if_pos rfl]), target⟩
      · exact Or.inr imported

/-- What waits, and what is imported by what is loaded here, is read unless it is loaded already. -/
theorem reads_of_asked (h : Replays sourceOf loaded queue reads result)
    (asked : file ∈ queue ∨ ∃ f s, f ∉ loaded.keys ∧ result.get? f = some s ∧ file ∈ s.targets) :
    file ∈ loaded.keys ∨ ∃ answer, (file, answer) ∈ reads := by
  induction h with
  | done loaded =>
    rcases asked with waiting | ⟨f, s, absent, hs, -⟩
    · cases waiting
    · exact absurd (Table.mem_keys_of_get? hs) absent
  | known hf _ ih =>
    rcases asked with waiting | imported
    · rcases List.mem_cons.mp waiting with rfl | waiting
      · exact Or.inl hf
      · exact ih (Or.inl waiting)
    · exact ih (Or.inr imported)
  | @missing loaded f queue reads result hf _ ih =>
    have onward (asked) : file ∈ loaded.keys ∨ ∃ answer, (file, answer) ∈ (f, none) :: reads :=
      (ih asked).imp_right fun ⟨answer, hm⟩ => ⟨answer, List.mem_cons_of_mem _ hm⟩
    rcases asked with waiting | imported
    · rcases List.mem_cons.mp waiting with rfl | waiting
      · exact Or.inr ⟨none, List.mem_cons_self⟩
      · exact onward (Or.inl waiting)
    · exact onward (Or.inr imported)
  | @load loaded f queue t reads result hf rest ih =>
    have onward (asked : file ∈ queue ++ (sourceOf f t).targets ∨ ∃ g s,
        g ∉ (loaded.insert f (sourceOf f t)).keys ∧ result.get? g = some s ∧ file ∈ s.targets) :
        file ∈ loaded.keys ∨ ∃ answer, (file, answer) ∈ (f, some t) :: reads := by
      rcases ih asked with known | ⟨answer, hm⟩
      · rcases Table.mem_keys_insert.mp known with rfl | known
        · exact Or.inr ⟨some t, List.mem_cons_self⟩
        · exact Or.inl known
      · exact Or.inr ⟨answer, List.mem_cons_of_mem _ hm⟩
    rcases asked with waiting | ⟨g, s, absent, hs, target⟩
    · rcases List.mem_cons.mp waiting with rfl | waiting
      · exact Or.inr ⟨some t, List.mem_cons_self⟩
      · exact onward (Or.inl (List.mem_append_left _ waiting))
    · by_cases he : g = f
      · subst he
        have here : result.get? g = some (sourceOf g t) :=
          rest.get?_of_loaded (by rw [Table.get?_insert, if_pos rfl])
        rw [hs] at here
        cases here
        exact onward (Or.inl (List.mem_append_right _ target))
      · refine onward (Or.inr ⟨g, s, fun hm => ?_, hs, target⟩)
        exact (Table.mem_keys_insert.mp hm).elim he absent

end Replays

/-- Reading, in a state of which `I` holds, notes down what it comes to. There is room for at least the files that
have been seen. Reading makes no more of it, and a file that can be read has had its place. -/
structure Notes (read : String → Work σ (Option String)) (I : σ → Prop) (room : List String → σ → Nat)
    (log : σ → List (String × Option String)) : Prop where
  holds : ∀ seen s, seen.Nodup → seen.length ≤ room seen s
  reads : ∀ seen file s, I s → (read file).Ends s fun r s' => I s' ∧ room seen s' ≤ room seen s ∧
    ∀ answer, r = .ok answer → log s' = log s ++ [(file, answer)] ∧
      ∀ text, answer = some text → room (seen ++ [file]) s' ≤ room seen s

variable {I : σ → Prop} {room : List String → σ → Nat} {log : σ → List (String × Option String)}

theorem ends_nextReadable_replays (sourceOf : String → String → Source) (notes : Notes read I room log)
    (loaded : Table String Source) (queue : List String) {s : σ} (h : I s) :
    Ends (Compilation.nextReadable read loaded queue) s fun r s' => I s' ∧
      match r with
      | .ok none => ∃ reads, log s' = log s ++ reads ∧ Replays sourceOf loaded queue reads loaded
      | .ok (some (f, t, rest)) =>
        f ∉ loaded.keys ∧ room (loaded.keys ++ [f]) s' ≤ room loaded.keys s ∧
          ∃ reads, log s' = log s ++ reads ∧ ∀ more result,
            Replays sourceOf (loaded.insert f (sourceOf f t)) (rest ++ (sourceOf f t).targets) more result →
              Replays sourceOf loaded queue (reads ++ more) result
      | .error _ => True := by
  induction queue generalizing s with
  | nil => exact ⟨h, [], (List.append_nil _).symm, .done loaded⟩
  | cons f queue ih =>
    rw [Compilation.nextReadable]
    by_cases hf : f ∈ loaded.keys
    · rw [if_pos (Table.contains_iff.mpr hf)]
      refine (ih h).mono fun r s' h' => ?_
      rcases r with _ | _ | ⟨g, t, rest⟩
      · exact h'
      · obtain ⟨h', reads, noted, replays⟩ := h'
        exact ⟨h', reads, noted, .known hf replays⟩
      · obtain ⟨h', fresh, less, reads, noted, replays⟩ := h'
        exact ⟨h', fresh, less, reads, noted, fun more result rest => .known hf (replays more result rest)⟩
    · rw [if_neg (fun hc => hf (Table.contains_iff.mp hc))]
      refine Work.Ends.bind (notes.reads loaded.keys f s h) (fun answer s' h' => ?_)
        fun _ _ h' => ⟨h'.1, trivial⟩
      obtain ⟨h', less, noted⟩ := h'
      obtain ⟨noted, taken⟩ := noted answer rfl
      cases answer with
      | some t => exact ⟨h', hf, taken t rfl, [(f, some t)], noted, fun more result rest => .load hf rest⟩
      | none =>
        refine (ih h').mono fun r s'' h'' => ?_
        rcases r with _ | _ | ⟨g, t, rest⟩
        · exact h''
        · obtain ⟨h'', reads, noted', replays⟩ := h''
          exact ⟨h'', (f, none) :: reads, by rw [noted', noted, List.append_assoc]; rfl, .missing hf replays⟩
        · obtain ⟨h'', fresh, less', reads, noted', replays⟩ := h''
          exact ⟨h'', fresh, Nat.le_trans less' less, (f, none) :: reads,
            by rw [noted', noted, List.append_assoc]; rfl,
            fun more result rest => .missing hf (replays more result rest)⟩

/-- With a bound above the room, loading goes on until every file has had its turn. -/
theorem ends_loadFrom_replays (notes : Notes read I room log) (bound : Nat) (loaded : Table String Source)
    (queue : List String) {s : σ} (h : I s) (enough : room loaded.keys s < loaded.size + bound) :
    Ends (Compilation.loadFrom read sourceOf bound loaded queue) s fun r s' => I s' ∧
      ∀ result, r = .ok result → ∃ reads, log s' = log s ++ reads ∧
        Replays sourceOf loaded queue reads result := by
  induction bound generalizing loaded queue s with
  | zero =>
    have := notes.holds loaded.keys s loaded.keys_nodup
    simp only [Table.keys, Table.size, List.length_map] at this enough
    omega
  | succ bound ih =>
    rw [Compilation.loadFrom]
    refine Work.Ends.bind (ends_nextReadable_replays sourceOf notes loaded queue h)
      (fun found s' h' => ?_) fun _ _ h' => ⟨h'.1, fun _ hr => by cases hr⟩
    rcases found with _ | ⟨f, t, rest⟩
    · refine ⟨h'.1, fun result hr => ?_⟩
      cases hr
      exact h'.2
    · obtain ⟨h', hf, less, reads, noted, replays⟩ := h'
      have keys : (loaded.insert f (sourceOf f t)).keys = loaded.keys ++ [f] :=
        Table.keys_insert_of_not_mem _ hf
      have size : (loaded.insert f (sourceOf f t)).size = loaded.size + 1 := by
        simp only [Table.size, Table.entries_insert_of_not_mem _ hf, List.length_append,
          List.length_singleton]
      -- The file takes its place among the loaded ones, so what the bound loses the room has lost as well.
      refine (ih _ _ h' (by rw [keys, size]; omega)).mono fun r s'' h'' => ⟨h''.1, fun result hr => ?_⟩
      obtain ⟨more, noted', rest⟩ := h''.2 result hr
      exact ⟨reads ++ more, by rw [noted', noted, List.append_assoc], replays more result rest⟩

end GrammarWorkspace.Grammar
