import GrammarWorkspace.Proofs.Grammar.Locality
import GrammarWorkspace.Proofs.Grammar.Renaming

/-!
# A grammar under a fresh name

When a production is renamed in all files, and no production and no reference has the new name yet,
then the same files are loaded, and what is wrong with them is the same but for the name.
-/
namespace GrammarWorkspace

namespace Table

variable {α β : Type} [DecidableEq α] {ρ : α → α} {f : β → β} {key : α}

theorem get?_of_entries_map {t t' : Table α β} (entries_eq : t'.entries = t.entries.map fun e => (ρ e.1, f e.2))
    (apart : ∀ k ∈ t.keys, ρ k = ρ key → k = key) : t'.get? (ρ key) = (t.get? key).map f := by
  cases ht : t.get? key with
  | some value =>
    rw [Option.map_some, get?_eq_some_iff, entries_eq]
    exact List.mem_map_of_mem (get?_eq_some_iff.mp ht)
  | none =>
    rw [Option.map_none, get?_eq_none_iff, keys, entries_eq]
    intro mem
    simp only [List.mem_map] at mem
    obtain ⟨e', ⟨e, he, rfl⟩, same⟩ := mem
    have key_mem : e.1 ∈ t.keys := List.mem_map_of_mem he
    rw [apart e.1 key_mem same] at key_mem
    exact get?_eq_none_iff.mp ht key_mem

theorem contains_of_entries_map {t t' : Table α β} (entries_eq : t'.entries = t.entries.map fun e => (ρ e.1, f e.2))
    (apart : ∀ k ∈ t.keys, ρ k = ρ key → k = key) : t'.contains (ρ key) = t.contains key := by
  rw [Bool.eq_iff_iff, contains_iff, contains_iff, mem_keys_iff, mem_keys_iff,
    get?_of_entries_map entries_eq apart]
  simp

theorem entries_push (t : Table α (List β)) (key : α) (value : β) :
    (t.push key value).entries = put key ((t.get? key).getD [] ++ [value]) t.entries := rfl

/-- Groups of values that have been replaced, as long as different keys stay different. -/
theorem groupBy_map {key : β → α} (keyed : ∀ v, key (f v) = ρ (key v)) {values : List β}
    (apart : ∀ v ∈ values, ∀ u ∈ values, ρ (key v) = ρ (key u) → key v = key u) :
    (groupBy key (values.map f)).entries =
      (groupBy key values).entries.map fun e => (ρ e.1, e.2.map f) := by
  have onward : ∀ (later : List β) (t t' : Table α (List β)),
      (∀ v ∈ later, v ∈ values) → (∀ k ∈ t.keys, ∃ v ∈ values, key v = k) →
      t'.entries = t.entries.map (fun e => (ρ e.1, e.2.map f)) →
      ((later.map f).foldl (fun t v => t.push (key v) v) t').entries =
        (later.foldl (fun t v => t.push (key v) v) t).entries.map fun e => (ρ e.1, e.2.map f) := by
    intro later
    induction later with
    | nil => exact fun _ _ _ _ same => same
    | cons v later ih =>
      intro t t' sub known same
      have mem := sub v List.mem_cons_self
      have distinct : ∀ k ∈ t.keys, ρ k = ρ (key v) → k = key v := by
        intro k hk he
        obtain ⟨u, hu, rfl⟩ := known k hk
        exact apart u hu v mem he
      refine ih (t.push (key v) v) (t'.push (key (f v)) (f v))
        (fun u hu => sub u (List.mem_cons_of_mem v hu)) (fun k hk => ?_) ?_
      · rcases mem_keys_insert.mp hk with rfl | hk
        · exact ⟨v, mem, rfl⟩
        · exact known k hk
      · rw [entries_push, entries_push, keyed, same, get?_of_entries_map same distinct]
        rw [← put_map (f := List.map f) fun e he => distinct e.1 (List.mem_map_of_mem he)]
        congr 1
        cases t.get? (key v) <;> simp
  exact onward values empty empty (fun _ => id) (fun _ hk => by cases hk) rfl

end Table

namespace Grammar

variable {old new : String}

theorem renamed_inj {a b : String} (ha : a ≠ new) (hb : b ≠ new) (h : renamed old new a = renamed old new b) :
    a = b := by
  unfold renamed at h
  split at h <;> split at h <;> simp_all

namespace Problem

def renamed (old new : String) : Problem → Problem
  | malformed cause => malformed cause
  | unreadable path => unreadable path
  | duplicate name => duplicate (Grammar.renamed old new name)
  | undeclared name => undeclared (Grammar.renamed old new name)
  | unreferenced name => unreferenced (Grammar.renamed old new name)

end Problem

namespace Source

def shift (old new : String) (s : Source) : Span → Span := Span.map (s.tree.respelling old new).move

def renamed (old new : String) (s : Source) : Source where
  file := s.file
  text := respelledText (s.tree.respelling old new) s.text
  tree := s.tree.renamed old new (s.shift old new)
  readBy := s.readBy

theorem IsOf.renamed {s : Source} {file text : String} (h : s.IsOf file text) (name : IsName new.toList) :
    (s.renamed old new).IsOf file (respelledText ((parse text).respelling old new) text) := by
  obtain ⟨rfl, rfl, tree_eq⟩ := h
  refine ⟨rfl, by rw [Source.renamed, tree_eq], ?_⟩
  rw [parse_respelledText name, Source.renamed, Source.shift, tree_eq]

theorem targets_renamed (s : Source) : (s.renamed old new).targets = s.targets := by
  unfold Source.targets
  rw [renamed, Tree.renamed, Tree.map, List.map_map]
  rfl

end Source

namespace Compilation

variable {c : Compilation}

def renamed (old new : String) (c : Compilation) : Compilation :=
  { c with sources := c.sources.mapValues (.renamed old new) }

def shift (old new : String) (c : Compilation) (file : String) : Span → Span :=
  ((c.source? file).map (Source.shift old new)).getD id

end Compilation

def Reading.renamed (old new : String) (reading : Reading) : Reading := fun file =>
  (reading file).map (Option.map fun text => respelledText ((parse text).respelling old new) text)

/-- The same files are loaded in the same order, as none imports another than before. -/
theorem Loads.renamed {reading : Reading} {loaded result : Table String Source} {queue : List String}
    (h : Loads reading loaded queue result) (name : IsName new.toList) :
    Loads (reading.renamed old new) (loaded.mapValues (.renamed old new)) queue
      (result.mapValues (.renamed old new)) := by
  induction h with
  | done => exact .done _
  | known hf _ ih => exact .known (by rwa [Table.keys_mapValues]) ih
  | missing hf hr _ ih =>
    refine .missing (by rwa [Table.keys_mapValues]) ?_ ih
    rw [Reading.renamed, hr]
    rfl
  | @load loaded file queue result text s hf hr hs _ ih =>
    have hs' : (s.renamed old new).IsOf file _ := hs.renamed name
    refine .load (by rwa [Table.keys_mapValues]) ?_ hs' ?_
    · rw [Reading.renamed, hr]
      rfl
    · rw [← hs'.targets, Source.targets_renamed, hs.targets,
        ← Table.mapValues_insert]
      exact ih

theorem mentions_map (f : Identifier → Identifier) (g : Span → Span) (p : Production) :
    (p.map f g).mentions = p.mentions.map f := by
  have one : ∀ s : Symbol, (s.map f g).identifier? = s.identifier?.map f := by
    intro s
    cases s <;> rfl
  simp only [Production.mentions, Production.map, ← List.map_flatten, List.filterMap_map,
    List.map_filterMap, Function.comp_def, one]

namespace Occurrence

def renamed (old new : String) (shift : String → Span → Span) (o : Occurrence) : Occurrence :=
  ⟨o.file, o.id.renamed old new (shift o.file)⟩

end Occurrence

namespace Diagnostic

def renamed (old new : String) (shift : String → Span → Span) (d : Diagnostic) : Diagnostic :=
  ⟨d.problem.renamed old new, d.file, shift d.file d.span⟩

end Diagnostic

namespace Compilation

variable {c : Compilation}

/-- The new name is that of no production and of no reference. -/
structure Fresh (c : Compilation) (new : String) : Prop where
  undeclared : new ∉ c.declarations.keys
  unreferenced : new ∉ c.references.keys

section Renaming

variable (genuine : ∀ file s, c.source? file = some s → s.file = file)

include genuine

theorem shift_of_mem {s : Source} (hs : s ∈ c.sources.values) : c.shift old new s.file = s.shift old new := by
  obtain ⟨⟨file, s⟩, mem, rfl⟩ := List.mem_map.mp hs
  have found : c.source? file = some s := Table.get?_eq_some_iff.mpr mem
  rw [shift, genuine file s found, found]
  rfl

theorem flatMap_renamed {f : Source → List Occurrence}
    (own : ∀ s, f (s.renamed old new) =
      (f s).map fun o => ⟨o.file, o.id.renamed old new (s.shift old new)⟩)
    (filed : ∀ s, ∀ o ∈ f s, o.file = s.file) :
    (c.renamed old new).sources.values.flatMap f =
      (c.sources.values.flatMap f).map (.renamed old new (c.shift old new)) := by
  rw [renamed, Table.values_mapValues, List.flatMap_map, List.map_flatMap]
  refine List.flatMap_congr fun s hs => ?_
  rw [own]
  refine List.map_congr_left fun o ho => ?_
  rw [Occurrence.renamed, filed s o ho, shift_of_mem genuine hs]

theorem declared_renamed : (c.renamed old new).sources.values.flatMap Source.declared =
    (c.sources.values.flatMap Source.declared).map (.renamed old new (c.shift old new)) := by
  refine flatMap_renamed genuine (fun s => ?_) fun s o ho => ?_
  · simp [Source.declared, Source.renamed, Tree.renamed, Tree.map, Production.map]
  · obtain ⟨p, -, rfl⟩ := List.mem_map.mp ho
    rfl

theorem mentioned_renamed : (c.renamed old new).sources.values.flatMap Source.mentioned =
    (c.sources.values.flatMap Source.mentioned).map (.renamed old new (c.shift old new)) := by
  refine flatMap_renamed genuine (fun s => ?_) fun s o ho => ?_
  · simp only [Source.mentioned, Source.renamed, Tree.renamed, Tree.map, List.flatMap_map,
      List.map_flatMap, mentions_map, List.map_map]
    rfl
  · obtain ⟨p, -, ho⟩ := List.mem_flatMap.mp ho
    obtain ⟨id, -, rfl⟩ := List.mem_map.mp ho
    rfl

omit genuine in
theorem entries_groupBy_renamed {all : List Occurrence} (fresh : new ∉ (Table.groupBy Occurrence.name all).keys)
    (shift : String → Span → Span) :
    (Table.groupBy Occurrence.name (all.map (.renamed old new shift))).entries =
      (Table.groupBy Occurrence.name all).entries.map fun e =>
        (Grammar.renamed old new e.1, e.2.map (.renamed old new shift)) := by
  have keyed : ∀ o : Occurrence, (o.renamed old new shift).name = Grammar.renamed old new o.name := fun _ => rfl
  refine Table.groupBy_map keyed fun v hv u hu same => renamed_inj ?_ ?_ same
  · rintro rfl
    exact fresh (Table.mem_keys_groupBy.mpr ⟨v, hv, rfl⟩)
  · rintro rfl
    exact fresh (Table.mem_keys_groupBy.mpr ⟨u, hu, rfl⟩)

theorem entries_declarations_renamed (fresh : new ∉ c.declarations.keys) :
    (c.renamed old new).declarations.entries = c.declarations.entries.map fun e =>
      (Grammar.renamed old new e.1, e.2.map (.renamed old new (c.shift old new))) := by
  rw [declarations, declared_renamed genuine]
  exact entries_groupBy_renamed fresh _

theorem entries_references_renamed (fresh : new ∉ c.references.keys) :
    (c.renamed old new).references.entries = c.references.entries.map fun e =>
      (Grammar.renamed old new e.1, e.2.map (.renamed old new (c.shift old new))) := by
  rw [references, mentioned_renamed genuine]
  exact entries_groupBy_renamed fresh _

theorem contains_declarations_renamed (fresh : new ∉ c.declarations.keys) {name : String} (other : name ≠ new) :
    (c.renamed old new).declarations.contains (Grammar.renamed old new name) = c.declarations.contains name :=
  Table.contains_of_entries_map (entries_declarations_renamed genuine fresh) fun k hk same =>
    renamed_inj (fun he : k = new => fresh (he ▸ hk)) other same

theorem contains_references_renamed (fresh : new ∉ c.references.keys) {name : String} (other : name ≠ new) :
    (c.renamed old new).references.contains (Grammar.renamed old new name) = c.references.contains name :=
  Table.contains_of_entries_map (entries_references_renamed genuine fresh) fun k hk same =>
    renamed_inj (fun he : k = new => fresh (he ▸ hk)) other same

theorem duplicates_renamed (fresh : c.Fresh new) :
    (c.renamed old new).duplicates = c.duplicates.map (.renamed old new (c.shift old new)) := by
  rw [duplicates, Table.values, entries_declarations_renamed genuine fresh.undeclared]
  simp only [duplicates, Table.values, List.map_map, List.flatMap_map, List.map_flatMap, Function.comp_def,
    List.map_tail]
  rfl

omit genuine in
theorem map_filter_contains_renamed {β : Type} {t t' : Table String β} {problem : String → Problem}
    {shift : String → Span → Span} {all : List Occurrence}
    (same : ∀ o ∈ all, t'.contains (Grammar.renamed old new o.name) = t.contains o.name)
    (told : ∀ name, problem (Grammar.renamed old new name) = (problem name).renamed old new) :
    ((all.map (Occurrence.renamed old new shift)).filter (!t'.contains ·.name)).map
        (fun o => o.diagnostic (problem o.name)) =
      ((all.filter (!t.contains ·.name)).map fun o => o.diagnostic (problem o.name)).map
        (.renamed old new shift) := by
  have filter_eq : all.filter ((fun o : Occurrence => !t'.contains o.name) ∘ Occurrence.renamed old new shift) =
      all.filter fun o => !t.contains o.name :=
    List.filter_congr fun o ho => congrArg not (same o ho)
  rw [List.filter_map, filter_eq, List.map_map, List.map_map]
  refine List.map_congr_left fun o _ => ?_
  simp only [Function.comp_apply, Occurrence.diagnostic, Diagnostic.renamed, ← told]
  rfl

theorem undeclared_renamed (fresh : c.Fresh new) :
    (c.renamed old new).undeclared = c.undeclared.map (.renamed old new (c.shift old new)) := by
  unfold undeclared
  rw [mentioned_renamed genuine]
  refine map_filter_contains_renamed (fun o ho => ?_) fun _ => rfl
  refine contains_declarations_renamed genuine fresh.undeclared ?_
  rintro rfl
  exact fresh.unreferenced (Table.mem_keys_groupBy.mpr ⟨o, ho, rfl⟩)

theorem unreferenced_renamed (fresh : c.Fresh new) :
    (c.renamed old new).unreferenced = c.unreferenced.map (.renamed old new (c.shift old new)) := by
  unfold unreferenced
  rw [show (c.renamed old new).request = c.request from rfl]
  split
  · have heads : (c.renamed old new).declarations.values.filterMap List.head? =
        (c.declarations.values.filterMap List.head?).map (.renamed old new (c.shift old new)) := by
      rw [Table.values, entries_declarations_renamed genuine fresh.undeclared]
      simp only [Table.values, List.map_map, List.filterMap_map, List.map_filterMap, Function.comp_def,
        List.head?_map]
    dsimp only
    rw [heads]
    refine map_filter_contains_renamed (fun o ho => ?_) fun _ => rfl
    obtain ⟨group, hg, head⟩ := List.mem_filterMap.mp ho
    obtain ⟨⟨key, group⟩, he, rfl⟩ := List.mem_map.mp hg
    have keyed : o.name = key := Table.key_of_mem_groupBy _ he o (List.mem_of_mem_head? head)
    refine contains_references_renamed genuine fresh.unreferenced fun same => fresh.undeclared ?_
    rw [← same, keyed]
    exact List.mem_map_of_mem he
  · rfl

theorem unreadable_renamed {s : Source} (hs : s ∈ c.sources.values) :
    (c.renamed old new).unreadable (s.renamed old new) =
      (c.unreadable s).map (.renamed old new (c.shift old new)) := by
  have contains_eq : ∀ file, (c.renamed old new).sources.contains file = c.sources.contains file := by
    intro file
    rw [Table.contains, renamed, Table.keys_mapValues]
    rfl
  simp only [unreadable, contains_eq, Source.renamed, Tree.renamed, Tree.map, List.filter_map, List.map_map]
  refine List.map_congr_left fun i _ => ?_
  simp only [Function.comp_apply, Diagnostic.renamed, shift_of_mem genuine hs]
  rfl

/-- The diagnostics of every file are told of the new name, and are otherwise the same. -/
theorem diagnosticsFor_renamed (fresh : c.Fresh new) (file : String) :
    (c.renamed old new).diagnosticsFor file =
      (c.diagnosticsFor file).map (.renamed old new (c.shift old new)) := by
  have found : (c.renamed old new).source? file = (c.source? file).map (.renamed old new) :=
    Table.get?_mapValues _ _ _
  unfold diagnosticsFor
  rw [found]
  cases hs : c.source? file with
  | none => rfl
  | some s =>
    have mem : s ∈ c.sources.values :=
      List.mem_map.mpr ⟨(file, s), Table.get?_eq_some_iff.mp hs, rfl⟩
    have syntactic : (s.renamed old new).syntaxDiagnostics =
        s.syntaxDiagnostics.map (.renamed old new (c.shift old new)) := by
      simp only [Source.syntaxDiagnostics, Source.renamed, Tree.renamed, Tree.map, List.map_map]
      refine List.map_congr_left fun e _ => ?_
      simp only [Function.comp_apply, Diagnostic.renamed, shift_of_mem genuine mem]
      rfl
    dsimp only [Option.map_some]
    rw [syntactic, unreadable_renamed genuine mem, duplicates_renamed genuine fresh,
      undeclared_renamed genuine fresh, unreferenced_renamed genuine fresh]
    simp only [List.map_append, List.filter_append, List.filter_map]
    rfl

end Renaming

/-- The same files in the same order, each with the same statements, errors and diagnostics under the new
name. -/
structure Renames (old new : String) (c c' : Compilation) : Prop where
  keys_eq : c'.sources.keys = c.sources.keys
  tree_eq : ∀ file s, c.source? file = some s →
    (c'.source? file).map Source.tree = some (s.tree.renamed old new (c.shift old new file))
  diagnosticsFor_eq : ∀ file,
    c'.diagnosticsFor file = (c.diagnosticsFor file).map (.renamed old new (c.shift old new))

theorem renames_of_loads {c' : Compilation} {reading : Reading} (request_eq : c'.request = c.request)
    (loads : Loads reading {} c.request.roots c.sources)
    (loads' : Loads (reading.renamed old new) {} c'.request.roots c'.sources)
    (name : IsName new.toList) (fresh : c.Fresh new) : c.Renames old new c' := by
  have genuine : ∀ file s, c.source? file = some s → s.file = file := fun file s hs =>
    (loads.source_is_of hs).choose_spec.2.file_eq
  have moved : Loads (reading.renamed old new) _ _ _ := loads.renamed name
  rw [← request_eq] at moved
  have alike : c'.Alike (c.renamed old new) :=
    ⟨congrArg Request.reportUnused request_eq, loads'.unsigned_eq moved rfl⟩
  refine ⟨?_, fun file s hs => ?_, fun file => ?_⟩
  · rw [alike.keys_eq, renamed, Table.keys_mapValues]
  · have found : (c.renamed old new).source? file = some (s.renamed old new) := by
      rw [source?, renamed, Table.get?_mapValues, show c.sources.get? file = some s from hs]
      rfl
    have same := alike.source?_eq file
    rw [found, Option.map_some] at same
    obtain ⟨s', hs', unsigned⟩ := Option.map_eq_some_iff.mp same
    rw [hs', Option.map_some, (Source.eq_of_unsigned unsigned).2.2]
    rw [shift, hs]
    rfl
  · rw [alike.diagnosticsFor_eq, diagnosticsFor_renamed genuine fresh]

end Compilation

end Grammar
end GrammarWorkspace
