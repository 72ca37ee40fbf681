import GrammarWorkspace.Proofs.Grammar.Ordering

/-! Of a name that no other file declares, a file has the same diagnostics in whichever order the files
are loaded: all its declarations stand in this one file. -/
namespace GrammarWorkspace

namespace Table

variable {α β : Type} [DecidableEq α] {p : α → Bool} {key k : α}

theorem filter_put_of_pos {value : β} (hk : p key = true) (entries : List (α × β)) :
    (put key value entries).filter (fun e => p e.1) = put key value (entries.filter fun e => p e.1) := by
  induction entries with
  | nil => simp [put, hk]
  | cons e rest ih =>
    by_cases he : e.1 = key
    · subst he
      simp [put, hk]
    · cases hp : p e.1 with
      | true => simp [put, he, hp, ih]
      | false => simp [put, he, hp, ih]

theorem filter_put_of_neg {value : β} (hk : p key = false) (entries : List (α × β)) :
    (put key value entries).filter (fun e => p e.1) = entries.filter fun e => p e.1 := by
  induction entries with
  | nil => simp [put, hk]
  | cons e rest ih =>
    by_cases he : e.1 = key
    · subst he
      simp [put, hk]
    · cases hp : p e.1 with
      | true => simp [put, he, hp, ih]
      | false => simp [put, he, hp, ih]

theorem get?_of_filter {t t' : Table α β} (same : t.entries.filter (fun e => p e.1) = t'.entries)
    (hk : p key = true) : t'.get? key = t.get? key := by
  ext value
  rw [get?_eq_some_iff, get?_eq_some_iff, ← same, List.mem_filter]
  exact and_iff_left hk

/-- The groups of some keys are the groups of the values that have these keys. -/
theorem filter_groupBy (p : α → Bool) (key : β → α) (values : List β) :
    (groupBy key values).entries.filter (fun e => p e.1) =
      (groupBy key (values.filter fun v => p (key v))).entries := by
  have onward : ∀ t t' : Table α (List β), t.entries.filter (fun e => p e.1) = t'.entries →
      (values.foldl (fun t v => t.push (key v) v) t).entries.filter (fun e => p e.1) =
        ((values.filter fun v => p (key v)).foldl (fun t v => t.push (key v) v) t').entries := by
    induction values with
    | nil => exact fun _ _ same => same
    | cons v rest ih =>
      intro t t' same
      cases hp : p (key v) with
      | true =>
        simp only [List.filter_cons, hp, if_true, List.foldl_cons]
        apply ih
        rw [push, push, get?_of_filter same hp, insert, insert, filter_put_of_pos hp, same]
      | false =>
        simp only [List.filter_cons, hp, Bool.false_eq_true, if_false, List.foldl_cons]
        apply ih
        rw [push, insert, filter_put_of_neg hp, same]
  exact onward empty empty rfl

theorem key_of_mem_groupBy {key : β → α} {values : List β} :
    ∀ e ∈ (groupBy key values).entries, ∀ v ∈ e.2, key v = e.1 := by
  have onward : ∀ t : Table α (List β), (∀ e ∈ t.entries, ∀ v ∈ e.2, key v = e.1) →
      ∀ e ∈ (values.foldl (fun t v => t.push (key v) v) t).entries, ∀ v ∈ e.2, key v = e.1 := by
    induction values with
    | nil => exact fun _ h => h
    | cons v rest ih =>
      intro t h
      apply ih
      rintro ⟨k, group⟩ hm v' hv
      have found : (t.push (key v) v).get? k = some group := get?_eq_some_iff.mpr hm
      rw [push, get?_insert] at found
      split at found
      · rename_i here
        cases found
        rcases List.mem_append.mp hv with hv | hv
        · cases hg : t.get? (key v) with
          | none => simp [hg] at hv
          | some old =>
            rw [hg] at hv
            exact (h _ (get?_eq_some_iff.mp hg) v' hv).trans here
        · rw [List.mem_singleton.mp hv]
          exact here
      · exact h _ (get?_eq_some_iff.mp found) v' hv
  exact onward empty fun _ hm => by cases hm

theorem filter_flatMap_groups {γ : Type} {key : β → α} {offer : List β → List γ} {q : γ → Bool}
    (goes : ∀ k group, (∀ v ∈ group, key v = k) → ∀ c ∈ offer group, q c = p k) (values : List β) :
    ((groupBy key values).values.flatMap offer).filter q =
      (groupBy key (values.filter fun v => p (key v))).values.flatMap offer := by
  have onward : ∀ entries : List (α × List β), (∀ e ∈ entries, ∀ v ∈ e.2, key v = e.1) →
      ((entries.map Prod.snd).flatMap offer).filter q =
        ((entries.filter fun e => p e.1).map Prod.snd).flatMap offer := by
    intro entries
    induction entries with
    | nil => exact fun _ => rfl
    | cons e rest ih =>
      intro keyed
      have passes := goes e.1 e.2 (keyed e List.mem_cons_self)
      rw [List.map_cons, List.flatMap_cons, List.filter_append,
        ih fun e' hm => keyed e' (List.mem_cons_of_mem _ hm)]
      cases hp : p e.1 with
      | true =>
        have all : (offer e.2).filter q = offer e.2 := by
          rw [List.filter_eq_self]
          intro c hc
          rw [passes c hc, hp]
        simp [hp, all]
      | false =>
        have none : (offer e.2).filter q = [] := by
          rw [List.filter_eq_nil_iff]
          intro c hc
          rw [passes c hc, hp]
          exact Bool.false_ne_true
        simp [hp, none]
  rw [Table.values, Table.values, onward _ key_of_mem_groupBy, filter_groupBy]

end Table

namespace Grammar

def Problem.ordered? : Problem → Option String
  | .duplicate name | .unreferenced name => some name
  | _ => none

namespace Compilation

variable {c c' : Compilation} {file : String} {s : Source}

def declaresOnly (c : Compilation) (file name : String) : Bool :=
  c.sources.values.all fun s => s.file = file || s.declared.all (·.name ≠ name)

/-- The diagnostics of a file, but for those that say which of several files declares a name first. -/
def localFor (c : Compilation) (file : String) : List Diagnostic :=
  (c.diagnosticsFor file).filter fun d => d.problem.ordered?.all (c.declaresOnly file)

theorem filter_declared (genuine : ∀ file s, c.source? file = some s → s.file = file)
    (hs : c.source? file = some s) :
    (c.sources.values.flatMap Source.declared).filter (fun o => c.declaresOnly file o.name) =
      s.declared.filter fun o => c.declaresOnly file o.name := by
  have mine := c.sources.filter_flatMap_values Source.declared Occurrence.file
    (fun key s' hs' o ho => by
      obtain ⟨p, -, rfl⟩ := List.mem_map.mp ho
      exact genuine key s' hs') file
  rw [show c.sources.get? file = some s from hs, Option.map_some, Option.getD_some] at mine
  rw [← mine, List.filter_filter]
  apply List.filter_congr
  intro o ho
  cases only : c.declaresOnly file o.name with
  | false => rfl
  | true =>
    obtain ⟨s', hm, hd⟩ := List.mem_flatMap.mp ho
    obtain ⟨p, -, rfl⟩ := List.mem_map.mp hd
    have here := List.all_eq_true.mp only s' hm
    simp only [Bool.or_eq_true, decide_eq_true_eq, List.all_eq_true] at here
    have := here.resolve_right fun none => none _ hd rfl
    simpa using this

/-- Only the file itself has a say in its diagnostics of declarations, where no other declares the name. -/
theorem filter_duplicates (genuine : ∀ file s, c.source? file = some s → s.file = file)
    (hs : c.source? file = some s) :
    c.duplicates.filter (fun d => d.problem.ordered?.all (c.declaresOnly file)) =
      (Table.groupBy Occurrence.name (s.declared.filter fun o => c.declaresOnly file o.name)).values.flatMap
        fun group => group.tail.map fun o => o.diagnostic (.duplicate o.name) := by
  rw [duplicates, declarations, Table.filter_flatMap_groups (p := c.declaresOnly file),
    filter_declared genuine hs]
  intro k group keyed d hd
  obtain ⟨o, ho, rfl⟩ := List.mem_map.mp hd
  rw [← keyed o (List.mem_of_mem_tail ho)]
  rfl

theorem unreferenced_eq_flatMap (h : c.request.reportUnused = true) :
    c.unreferenced = c.declarations.values.flatMap fun group =>
      (group.head?.toList.filter (!c.references.contains ·.name)).map
        fun o => o.diagnostic (.unreferenced o.name) := by
  rw [unreferenced, if_pos h, List.filterMap_eq_flatMap_toList]
  dsimp only
  rw [List.filter_flatMap, List.map_flatMap]

theorem filter_unreferenced (genuine : ∀ file s, c.source? file = some s → s.file = file)
    (hs : c.source? file = some s) :
    c.unreferenced.filter (fun d => d.problem.ordered?.all (c.declaresOnly file)) =
      if c.request.reportUnused then
        (Table.groupBy Occurrence.name
            (s.declared.filter fun o => c.declaresOnly file o.name)).values.flatMap fun group =>
          (group.head?.toList.filter (!c.references.contains ·.name)).map
            fun o => o.diagnostic (.unreferenced o.name)
      else [] := by
  split
  · rename_i h
    rw [unreferenced_eq_flatMap h, declarations, Table.filter_flatMap_groups (p := c.declaresOnly file),
      filter_declared genuine hs]
    intro k group keyed d hd
    obtain ⟨o, ho, rfl⟩ := List.mem_map.mp hd
    have first := Option.mem_toList.mp (List.mem_filter.mp ho).1
    rw [← keyed o (List.mem_of_mem_head? first)]
    rfl
  · rename_i h
    rw [unreferenced, if_neg h]
    rfl

theorem localFor_eq_of_source (genuine : ∀ file s, c.source? file = some s → s.file = file)
    (hs : c.source? file = some s) : c.localFor file =
      s.syntaxDiagnostics ++ c.unreadable s ++
        ((c.duplicates.filter fun d => d.problem.ordered?.all (c.declaresOnly file)).filter
            (·.file = file) ++
          (s.mentioned.filter (!c.declarations.contains ·.name)).map
            (fun o => o.diagnostic (.undeclared o.name)) ++
          (c.unreferenced.filter fun d => d.problem.ordered?.all (c.declaresOnly file)).filter
            (·.file = file)) := by
  have kept : ∀ all : List Diagnostic, (∀ d ∈ all, d.problem.ordered? = none) →
      all.filter (fun d => d.problem.ordered?.all (c.declaresOnly file)) = all := by
    intro all free
    rw [List.filter_eq_self]
    intro d hd
    rw [free d hd]
    rfl
  have swap : ∀ all : List Diagnostic,
      (all.filter (·.file = file)).filter (fun d => d.problem.ordered?.all (c.declaresOnly file)) =
        (all.filter fun d => d.problem.ordered?.all (c.declaresOnly file)).filter (·.file = file) := by
    intro all
    rw [List.filter_filter, List.filter_filter]
    simp only [Bool.and_comm]
  have own : ∀ d ∈ s.syntaxDiagnostics ++ c.unreadable s, d.problem.ordered? = none := by
    intro d hd
    rcases List.mem_append.mp hd with hd | hd
    · obtain ⟨e, -, rfl⟩ := List.mem_map.mp hd
      rfl
    · obtain ⟨i, -, rfl⟩ := List.mem_map.mp hd
      rfl
  have undeclared : ∀ d ∈ c.undeclared.filter (·.file = file), d.problem.ordered? = none := by
    intro d hd
    obtain ⟨o, -, rfl⟩ := List.mem_map.mp (List.mem_filter.mp hd).1
    rfl
  rw [localFor, diagnosticsFor, hs]
  dsimp only
  rw [List.filter_append, kept _ own, List.filter_append, List.filter_append, List.filter_append,
    List.filter_append, swap, swap c.unreferenced, kept _ undeclared, filter_undeclared genuine hs]

theorem declaresOnly_iff {name : String} : c.declaresOnly file name = false ↔
    ∃ f s, c.source? f = some s ∧ s.file ≠ file ∧ ∃ o ∈ s.declared, o.name = name := by
  rw [declaresOnly, List.all_eq_false]
  simp only [Table.values, List.mem_map, source?, Table.get?_eq_some_iff, Bool.or_eq_true,
    decide_eq_true_eq, List.all_eq_true, not_or, not_forall, not_not]
  constructor
  · rintro ⟨s, ⟨⟨f, s'⟩, hm, rfl⟩, other, o, ho, hn⟩
    exact ⟨f, s', hm, other, o, ho, hn⟩
  · rintro ⟨f, s, hm, other, o, ho, hn⟩
    exact ⟨s, ⟨(f, s), hm, rfl⟩, other, o, ho, hn⟩

namespace SameSources

variable (same : SameSources c c')
include same

/-- What is found in a source of the one, whoever read it, is found in a source of the other. -/
theorem found {P : Source → Prop} (blind : ∀ s s', s.unsigned = s'.unsigned → P s → P s') :
    (∃ file s, c.source? file = some s ∧ P s) → ∃ file s, c'.source? file = some s ∧ P s := by
  rintro ⟨file, s, hs, hp⟩
  have source := same.source?_eq file
  rw [hs] at source
  obtain ⟨s', hs', he⟩ := Option.map_eq_some_iff.mp source.symm
  exact ⟨file, s', hs', blind s s' he.symm hp⟩

theorem references_contains (name : String) :
    c.references.contains name = c'.references.contains name := by
  have blind : ∀ s s' : Source, s.unsigned = s'.unsigned → (∃ o ∈ s.mentioned, o.name = name) →
      ∃ o ∈ s'.mentioned, o.name = name := by
    intro s s' he
    obtain ⟨file_eq, -, tree_eq⟩ := Source.eq_of_unsigned he
    simp only [Source.mentioned, file_eq, tree_eq, imp_self]
  rw [Bool.eq_iff_iff, mem_references, mem_references]
  exact ⟨same.found blind, same.symm.found blind⟩

theorem declaresOnly_eq (file : String) : c.declaresOnly file = c'.declaresOnly file := by
  funext name
  have blind : ∀ s s' : Source, s.unsigned = s'.unsigned →
      (s.file ≠ file ∧ ∃ o ∈ s.declared, o.name = name) →
      s'.file ≠ file ∧ ∃ o ∈ s'.declared, o.name = name := by
    intro s s' he
    obtain ⟨file_eq, -, tree_eq⟩ := Source.eq_of_unsigned he
    simp only [Source.declared, file_eq, tree_eq, imp_self]
  have iff : c.declaresOnly file name = false ↔ c'.declaresOnly file name = false := by
    rw [declaresOnly_iff, declaresOnly_iff]
    exact ⟨same.found blind, same.symm.found blind⟩
  cases h : c'.declaresOnly file name with
  | false => exact iff.mpr h
  | true =>
    rw [← Bool.not_eq_false]
    intro h'
    rw [iff.mp h'] at h
    cases h

/-- The order of loading makes no difference but for names that several files declare. -/
theorem localFor_eq (reportUnused_eq : c.request.reportUnused = c'.request.reportUnused)
    (file : String) : c.localFor file = c'.localFor file := by
  have source := same.source?_eq file
  cases hs : c.source? file with
  | none =>
    rw [hs] at source
    have hs' : c'.source? file = none := Option.map_eq_none_iff.mp source.symm
    simp only [localFor, diagnosticsFor, hs, hs', List.filter_nil]
  | some s =>
    rw [hs] at source
    obtain ⟨s', hs', he⟩ := Option.map_eq_some_iff.mp source.symm
    obtain ⟨file_eq, -, tree_eq⟩ := Source.eq_of_unsigned he
    have genuine' : ∀ file s, c'.source? file = some s → s.file = file := fun _ _ => same.file_eq'
    have declarations_eq : ∀ name,
        c.declarations.contains name = c'.declarations.contains name := fun name =>
      Bool.eq_iff_iff.mpr ⟨same.declares, same.symm.declares⟩
    rw [localFor_eq_of_source same.file_eq hs, localFor_eq_of_source genuine' hs',
      filter_duplicates same.file_eq hs, filter_duplicates genuine' hs',
      filter_unreferenced same.file_eq hs, filter_unreferenced genuine' hs']
    simp only [Source.syntaxDiagnostics, unreadable, Source.target, Source.mentioned, Source.declared,
      file_eq, tree_eq, same.contains_eq, declarations_eq, same.references_contains,
      same.declaresOnly_eq, reportUnused_eq]

omit same in
/-- The sources are the same if the same files are loaded and each source says what its text says. -/
theorem of_texts (text? : String → Option String)
    (of : ∀ file s, c.source? file = some s → ∃ text, text? file = some text ∧ s.IsOf file text)
    (of' : ∀ file s, c'.source? file = some s → ∃ text, text? file = some text ∧ s.IsOf file text)
    (keys_iff : ∀ file, file ∈ c.sources.keys ↔ file ∈ c'.sources.keys) : SameSources c c' := by
  refine ⟨fun file => ?_, fun file s hs => ?_⟩
  · cases hs : c.source? file with
    | none =>
      have absent := (keys_iff file).not.mp (Table.get?_eq_none_iff.mp hs)
      rw [source?, Table.get?_eq_none_iff.mpr absent]
    | some s =>
      obtain ⟨s', hs'⟩ := Table.mem_keys_iff.mp ((keys_iff file).mp (Table.mem_keys_of_get? hs))
      obtain ⟨text, found, is_of⟩ := of file s hs
      obtain ⟨text', found', is_of'⟩ := of' file s' hs'
      rw [found] at found'
      cases found'
      rw [source?, hs', Option.map_some, Option.map_some, is_of.unsigned, is_of'.unsigned]
  · obtain ⟨text, -, is_of⟩ := of file s hs
    exact is_of.file_eq

omit same in
/-- The order of the roots makes no difference to what is loaded, nor do files that are not reached. -/
theorem of_loads {reading reading' : Reading} {roots roots' : List String}
    (loads : Loads reading {} roots c.sources) (loads' : Loads reading' {} roots' c'.sources)
    (roots_iff : ∀ file, file ∈ roots' ↔ file ∈ roots)
    (reading_eq : ∀ file, Reached reading roots file → reading' file = reading file) :
    SameSources c c' := by
  have reached_iff (file : String) : Reached reading' roots' file ↔ Reached reading roots file := by
    rw [← reached_iff_of_same reading_eq]
    constructor
    · exact Reached.of_roots fun f => (roots_iff f).mp
    · exact Reached.of_roots fun f => (roots_iff f).mpr
  have keys_iff (file : String) : file ∈ c.sources.keys ↔ file ∈ c'.sources.keys := by
    rw [loads.mem_keys_iff, loads'.mem_keys_iff, reached_iff]
    exact and_congr_right fun reached => by rw [reading_eq file reached]
  have text_of {file text : String} (found : reading file = .ok (some text)) :
      (reading file).toOption.join = some text := by rw [found]; rfl
  refine of_texts (fun file => (reading file).toOption.join) (fun file s hs => ?_) (fun file s hs => ?_) keys_iff
  · obtain ⟨text, found, is_of⟩ := loads.source_is_of hs
    exact ⟨text, text_of found, is_of⟩
  · obtain ⟨text, found, is_of⟩ := loads'.source_is_of hs
    have reached := (reached_iff file).mp (loads'.mem_keys_iff.mp (Table.mem_keys_of_get? hs)).1
    exact ⟨text, text_of (reading_eq file reached ▸ found), is_of⟩

theorem alike (reportUnused_eq : c.request.reportUnused = c'.request.reportUnused)
    (keys_eq : c.sources.keys = c'.sources.keys) : c.Alike c' := by
  refine ⟨reportUnused_eq, Table.ext_get? (by simpa using keys_eq) fun file => ?_⟩
  rw [Table.get?_mapValues, Table.get?_mapValues]
  exact same.source?_eq file

end SameSources
end Compilation
end Grammar
end GrammarWorkspace
