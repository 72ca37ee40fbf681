import GrammarWorkspace.Proofs.Grammar.Likeness

/-!
# What depends on the order of loading

Which of several declarations of a name is the first depends on the order in which the files were
loaded. What else is wrong with a file does not.
-/
namespace GrammarWorkspace

namespace Table

variable {α β : Type} [DecidableEq α]

theorem ext_get? {t t' : Table α β} (keys_eq : t.keys = t'.keys)
    (get?_eq : ∀ key, t.get? key = t'.get? key) : t = t' := by
  have listed : ∀ t : Table α β,
      t.entries.map (fun e => (e.1, some e.2)) = t.keys.map fun key => (key, t.get? key) := by
    intro t
    rw [keys, List.map_map]
    refine List.map_congr_left fun e hm => ?_
    rw [Function.comp_apply, get?_eq_some_iff.mpr hm]
  have same := listed t
  rw [keys_eq, funext fun key => congrArg (Prod.mk key) (get?_eq key), ← listed t'] at same
  refine ext_entries (List.map_injective_iff.mpr ?_ same)
  rintro ⟨key, value⟩ ⟨key', value'⟩ he
  simpa using he

theorem mem_keys_groupBy {key : β → α} {values : List β} {k : α} :
    k ∈ (groupBy key values).keys ↔ ∃ value ∈ values, key value = k := by
  have onward : ∀ t : Table α (List β),
      k ∈ (values.foldl (fun t value => t.push (key value) value) t).keys ↔
        k ∈ t.keys ∨ ∃ value ∈ values, key value = k := by
    induction values with
    | nil => simp
    | cons value rest ih =>
      intro t
      rw [List.foldl_cons, ih, push, mem_keys_insert]
      simp only [List.mem_cons, exists_eq_or_imp]
      tauto
  have start := onward empty
  rw [groupBy, start]
  exact or_iff_right (by simp [empty, keys])

/-- Among what the values of a table have to offer, that which belongs to one key. -/
theorem filter_flatMap_values {γ : Type} (t : Table α β) (f : β → List γ) (owner : γ → α)
    (owned : ∀ key value, t.get? key = some value → ∀ c ∈ f value, owner c = key) (key : α) :
    (t.values.flatMap f).filter (owner · = key) = ((t.get? key).map f).getD [] := by
  have onward : ∀ entries : List (α × β), (entries.map Prod.fst).Nodup →
      (∀ e ∈ entries, ∀ c ∈ f e.2, owner c = e.1) →
      ((entries.map Prod.snd).flatMap f).filter (owner · = key) =
        (((entries.find? (·.1 = key)).map Prod.snd).map f).getD [] := by
    intro entries nodup
    induction entries with
    | nil => simp
    | cons e rest ih =>
      intro owned
      obtain ⟨new, nodup⟩ := List.nodup_cons.mp nodup
      have tail := ih nodup fun e' hm => owned e' (List.mem_cons_of_mem _ hm)
      rw [List.map_cons, List.flatMap_cons, List.filter_append, tail]
      have mine := owned e List.mem_cons_self
      by_cases he : e.1 = key
      · have others : rest.find? (·.1 = key) = none := by
          simp only [List.find?_eq_none, decide_eq_true_eq]
          rintro e' hm rfl
          exact new (he ▸ List.mem_map_of_mem hm)
        have all : (f e.2).filter (owner · = key) = f e.2 := by
          simp only [List.filter_eq_self, decide_eq_true_eq]
          exact fun c hc => (mine c hc).trans he
        simp [others, all, he]
      · have none : (f e.2).filter (owner · = key) = [] := by
          simp only [List.filter_eq_nil_iff, decide_eq_true_eq]
          exact fun c hc h => he ((mine c hc).symm.trans h)
        simp [none, he]
  exact onward t.entries t.nodup fun e hm => owned e.1 e.2 (get?_eq_some_iff.mpr hm)

end Table

namespace Grammar

def Problem.isOfOrder : Problem → Bool
  | .duplicate _ | .unreferenced _ => true
  | _ => false

namespace Compilation

variable {c c' : Compilation}

def settledFor (c : Compilation) (file : String) : List Diagnostic :=
  (c.diagnosticsFor file).filter fun d => !d.problem.isOfOrder

structure SameSources (c c' : Compilation) : Prop where
  source?_eq : ∀ file, (c.source? file).map Source.unsigned = (c'.source? file).map Source.unsigned
  file_eq : ∀ file s, c.source? file = some s → s.file = file

theorem SameSources.file_eq' (same : SameSources c c') {file : String} {s : Source}
    (hs : c'.source? file = some s) : s.file = file := by
  have h := same.source?_eq file
  rw [hs] at h
  obtain ⟨s', hs', he⟩ := Option.map_eq_some_iff.mp h
  rw [← (Source.eq_of_unsigned he).1]
  exact same.file_eq file s' hs'

theorem SameSources.symm (same : SameSources c c') : SameSources c' c :=
  ⟨fun file => (same.source?_eq file).symm, fun _ _ => same.file_eq'⟩

theorem SameSources.contains_eq (same : SameSources c c') (file : String) :
    c.sources.contains file = c'.sources.contains file := by
  rw [Bool.eq_iff_iff, Table.contains_iff, Table.contains_iff, Table.mem_keys_iff, Table.mem_keys_iff]
  have h := same.source?_eq file
  simp only [source?] at h
  cases hs : c.sources.get? file <;> cases hs' : c'.sources.get? file <;> simp_all

theorem contains_names {f : Source → List Occurrence} {name : String} :
    (Table.groupBy Occurrence.name (c.sources.values.flatMap f)).contains name = true ↔
      ∃ file s, c.source? file = some s ∧ ∃ o ∈ f s, o.name = name := by
  rw [Table.contains_iff, Table.mem_keys_groupBy]
  simp only [List.mem_flatMap, Table.values, List.mem_map, source?, Table.get?_eq_some_iff]
  constructor
  · rintro ⟨o, ⟨s, ⟨⟨file, s'⟩, hm, rfl⟩, ho⟩, hn⟩
    exact ⟨file, s', hm, o, ho, hn⟩
  · rintro ⟨file, s, hm, o, ho, hn⟩
    exact ⟨o, ⟨s, ⟨(file, s), hm, rfl⟩, ho⟩, hn⟩

theorem mem_declarations {name : String} : c.declarations.contains name = true ↔
    ∃ file s, c.source? file = some s ∧ ∃ o ∈ s.declared, o.name = name := contains_names

theorem mem_references {name : String} : c.references.contains name = true ↔
    ∃ file s, c.source? file = some s ∧ ∃ o ∈ s.mentioned, o.name = name := contains_names

theorem SameSources.declares (same : SameSources c c') {name : String}
    (h : c.declarations.contains name = true) : c'.declarations.contains name = true := by
  obtain ⟨file, s, hs, o, ho, hn⟩ := mem_declarations.mp h
  have source := same.source?_eq file
  rw [hs] at source
  obtain ⟨s', hs', he⟩ := Option.map_eq_some_iff.mp source.symm
  obtain ⟨file_eq, -, tree_eq⟩ := Source.eq_of_unsigned he
  refine mem_declarations.mpr ⟨file, s', hs', o, ?_, hn⟩
  rw [Source.declared, file_eq, tree_eq]
  exact ho

theorem filter_undeclared (genuine : ∀ file s, c.source? file = some s → s.file = file) {file : String}
    {s : Source} (hs : c.source? file = some s) :
    c.undeclared.filter (·.file = file) =
      (s.mentioned.filter (!c.declarations.contains ·.name)).map
        fun o => o.diagnostic (.undeclared o.name) := by
  have mine := c.sources.filter_flatMap_values Source.mentioned Occurrence.file
    (fun key s' hs' o ho => by
      obtain ⟨p, -, hp⟩ := List.mem_flatMap.mp ho
      obtain ⟨i, -, rfl⟩ := List.mem_map.mp hp
      exact genuine key s' hs') file
  rw [show c.sources.get? file = some s from hs, Option.map_some, Option.getD_some] at mine
  rw [undeclared, List.filter_map, ← mine, List.filter_filter, List.filter_filter]
  congr 1
  apply List.filter_congr
  intro o _
  simp [Occurrence.diagnostic, Bool.and_comm]

theorem settledFor_eq_of_source {file : String} {s : Source} (hs : c.source? file = some s)
    (genuine : ∀ file s, c.source? file = some s → s.file = file) :
    c.settledFor file = s.syntaxDiagnostics ++ c.unreadable s ++
      (s.mentioned.filter (!c.declarations.contains ·.name)).map
        fun o => o.diagnostic (.undeclared o.name) := by
  have kept : ∀ all : List Diagnostic, (∀ d ∈ all, d.problem.isOfOrder = false) →
      all.filter (fun d => !d.problem.isOfOrder) = all := by
    intro all h
    simp only [List.filter_eq_self, Bool.not_eq_true']
    exact h
  have gone : ∀ all : List Diagnostic, (∀ d ∈ all, d.problem.isOfOrder = true) →
      (all.filter (·.file = file)).filter (fun d => !d.problem.isOfOrder) = [] := by
    intro all h
    simp only [List.filter_eq_nil_iff, Bool.not_eq_true', Bool.not_eq_false]
    exact fun d hd => h d (List.mem_filter.mp hd).1
  have syntactic : ∀ d ∈ s.syntaxDiagnostics ++ c.unreadable s, d.problem.isOfOrder = false := by
    intro d hd
    rcases List.mem_append.mp hd with hd | hd
    · obtain ⟨e, -, rfl⟩ := List.mem_map.mp hd
      rfl
    · obtain ⟨i, -, rfl⟩ := List.mem_map.mp hd
      rfl
  have duplicates : ∀ d ∈ c.duplicates, d.problem.isOfOrder = true := by
    intro d hd
    obtain ⟨group, -, hd⟩ := List.mem_flatMap.mp hd
    obtain ⟨o, -, rfl⟩ := List.mem_map.mp hd
    rfl
  have unreferenced : ∀ d ∈ c.unreferenced, d.problem.isOfOrder = true := by
    intro d hd
    rw [Compilation.unreferenced] at hd
    split at hd
    · obtain ⟨o, -, rfl⟩ := List.mem_map.mp hd
      rfl
    · cases hd
  have undeclared : ∀ d ∈ c.undeclared.filter (·.file = file), d.problem.isOfOrder = false := by
    intro d hd
    obtain ⟨o, -, rfl⟩ := List.mem_map.mp (List.mem_filter.mp hd).1
    rfl
  rw [settledFor, diagnosticsFor, hs]
  dsimp only
  rw [List.filter_append, kept _ syntactic, List.filter_append, List.filter_append, List.filter_append,
    List.filter_append, gone _ duplicates, gone _ unreferenced, kept _ undeclared, List.nil_append,
    List.append_nil, filter_undeclared genuine hs]

theorem SameSources.settledFor_eq (same : SameSources c c') (file : String) :
    c.settledFor file = c'.settledFor file := by
  have source := same.source?_eq file
  cases hs : c.source? file with
  | none =>
    have hs' : c'.source? file = none := by
      rw [hs] at source
      exact Option.map_eq_none_iff.mp source.symm
    simp only [settledFor, diagnosticsFor, hs, hs']
  | some s =>
    rw [hs] at source
    obtain ⟨s', hs', he⟩ := Option.map_eq_some_iff.mp source.symm
    obtain ⟨file_eq, -, tree_eq⟩ := Source.eq_of_unsigned he
    have declarations_eq : ∀ name,
        c.declarations.contains name = c'.declarations.contains name := fun name =>
      Bool.eq_iff_iff.mpr ⟨same.declares, same.symm.declares⟩
    rw [settledFor_eq_of_source hs same.file_eq, settledFor_eq_of_source hs' fun _ _ => same.file_eq']
    simp only [Source.syntaxDiagnostics, unreadable, Source.target, Source.mentioned, file_eq, tree_eq,
      same.contains_eq, declarations_eq]

end Compilation
end Grammar
end GrammarWorkspace
