import GrammarWorkspace.Proofs.Grammar.Locality
import GrammarWorkspace.Proofs.Grammar.Pointing

/-!
# What is diagnosed

The diagnostics of a compilation, read off its files: what is wrong with each file by itself, and of all
the files together the names that are declared twice, not declared, or not referred to. Nothing else is
reported.
-/
namespace GrammarWorkspace

theorem perm_flatMap_filter {α β : Type} [DecidableEq α] (owner : β → α) {owners : List α}
    (nodup : owners.Nodup) (all : List β) :
    (owners.flatMap fun o => all.filter (owner · = o)).Perm (all.filter (owner · ∈ owners)) := by
  induction owners with
  | nil => simp
  | cons first owners ih =>
    obtain ⟨new, nodup⟩ := List.nodup_cons.mp nodup
    have parted := List.filter_append_perm (owner · = first) (all.filter (owner · ∈ first :: owners))
    have mine : (all.filter (owner · ∈ first :: owners)).filter (owner · = first) =
        all.filter (owner · = first) := by
      rw [List.filter_filter]
      refine List.filter_congr fun b _ => ?_
      by_cases here : owner b = first <;> simp [here]
    have others : (all.filter (owner · ∈ first :: owners)).filter (fun b => !decide (owner b = first)) =
        all.filter (owner · ∈ owners) := by
      rw [List.filter_filter]
      refine List.filter_congr fun b _ => ?_
      by_cases here : owner b = first
      · simp [here, new]
      · simp [here]
    rw [mine, others] at parted
    rw [List.flatMap_cons]
    exact ((ih nodup).append_left _).trans parted

def Grammar.Problem.IsOfName (p : Grammar.Problem) : Prop :=
  ∃ name, p = .duplicate name ∨ p = .undeclared name ∨ p = .unreferenced name

namespace Grammar.Compilation

def declaredAs (c : Compilation) (name : String) : List Occurrence :=
  (c.sources.values.flatMap Source.declared).filter (·.name = name)

def mentionedAs (c : Compilation) (name : String) : List Occurrence :=
  (c.sources.values.flatMap Source.mentioned).filter (·.name = name)

def allDiagnostics (c : Compilation) : List Diagnostic := c.sources.keys.flatMap c.diagnosticsFor

def nameDiagnostics (c : Compilation) : List Diagnostic := c.duplicates ++ c.undeclared ++ c.unreferenced

def importDiagnostics (c : Compilation) (file : String) (s : Source) : List Diagnostic :=
  (s.tree.imports.filter fun i => Path.relativeTo file i.path ∉ c.sources.keys).map fun i =>
    ⟨.unreadable i.path, file, i.span⟩

variable {c : Compilation} {file name : String} {s : Source} {d : Diagnostic}

theorem contains_groupBy {all : List Occurrence} :
    (Table.groupBy Occurrence.name all).contains name = true ↔ all.filter (·.name = name) ≠ [] := by
  rw [Table.contains_iff, Table.mem_keys_groupBy, Ne, List.filter_eq_nil_iff]
  push Not
  simp

theorem declarations_contains : c.declarations.contains name = true ↔ c.declaredAs name ≠ [] := contains_groupBy

theorem references_contains : c.references.contains name = true ↔ c.mentionedAs name ≠ [] := contains_groupBy

/-- Of what the declarations have to offer, name by name, that which belongs to one name. -/
theorem filter_flatMap_declarations (problem : String → Problem) (offer : List Occurrence → List Diagnostic)
    (ordered : ∀ n, (problem n).ordered? = some n)
    (offers : ∀ group, ∀ d ∈ offer group, ∃ o ∈ group, d.problem = problem o.name) (nothing : offer [] = [])
    (name : String) : (c.declarations.values.flatMap offer).filter (·.problem = problem name) =
      offer (c.declaredAs name) := by
  have owned : ∀ key group, c.declarations.get? key = some group → ∀ d ∈ offer group,
      d.problem.ordered?.getD "" = key := by
    intro key group found d hd
    obtain ⟨o, ho, problem_eq⟩ := offers group d hd
    rw [problem_eq, ordered, Option.getD_some]
    exact Table.key_of_mem_groupBy _ (Table.get?_eq_some_iff.mp found) o ho
  have mine := c.declarations.filter_flatMap_values offer (fun d => d.problem.ordered?.getD "") owned name
  have group_eq : ((c.declarations.get? name).map offer).getD [] = offer (c.declaredAs name) := by
    rw [declaredAs, ← Table.getD_groupBy, ← declarations]
    cases c.declarations.get? name with
    | none => exact nothing.symm
    | some group => rfl
  rw [← group_eq, ← mine]
  refine List.filter_congr fun d hd => ?_
  obtain ⟨group, -, hd⟩ := List.mem_flatMap.mp hd
  obtain ⟨o, -, problem_eq⟩ := offers group d hd
  rw [problem_eq, ordered, Option.getD_some, decide_eq_decide]
  refine ⟨fun same => ?_, fun same => by rw [same]⟩
  have ordered_eq := congrArg Problem.ordered? same
  rw [ordered, ordered] at ordered_eq
  exact Option.some.inj ordered_eq

theorem filter_duplicate (c : Compilation) (name : String) :
    c.duplicates.filter (·.problem = .duplicate name) =
      (c.declaredAs name).tail.map (·.diagnostic (.duplicate name)) := by
  have groups := filter_flatMap_declarations (c := c) .duplicate
    (fun group => group.tail.map fun o => o.diagnostic (.duplicate o.name)) (fun _ => rfl)
    (fun group d hd => by
      obtain ⟨o, ho, rfl⟩ := List.mem_map.mp hd
      exact ⟨o, List.mem_of_mem_tail ho, rfl⟩) rfl name
  rw [duplicates, groups]
  refine List.map_congr_left fun o ho => ?_
  rw [of_decide_eq_true (List.mem_filter.mp (List.mem_of_mem_tail ho)).2]

/-- Of occurrences of one name, all are reported if the name is not known, and none if it is. -/
theorem map_diagnostic_filter {all : List Occurrence} (named : ∀ o ∈ all, o.name = name)
    (known : Table String (List Occurrence)) (problem : String → Problem) :
    (all.filter (!known.contains ·.name)).map (fun o => o.diagnostic (problem o.name)) =
      if known.contains name = true then [] else all.map (·.diagnostic (problem name)) := by
  split
  · rename_i present
    have none : all.filter (!known.contains ·.name) = [] := by
      refine List.filter_eq_nil_iff.mpr fun o ho => ?_
      rw [named o ho, present]
      exact Bool.false_ne_true
    rw [none, List.map_nil]
  · rename_i absent
    have every : all.filter (!known.contains ·.name) = all := by
      refine List.filter_eq_self.mpr fun o ho => ?_
      rw [named o ho, Bool.not_eq_true', ← Bool.not_eq_true]
      exact absent
    rw [every]
    exact List.map_congr_left fun o ho => by rw [named o ho]

theorem filter_undeclared_name (c : Compilation) (name : String) :
    c.undeclared.filter (·.problem = .undeclared name) =
      if c.declaredAs name = [] then (c.mentionedAs name).map (·.diagnostic (.undeclared name)) else [] := by
  have same : ∀ o : Occurrence,
      ((o.diagnostic (.undeclared o.name)).problem = .undeclared name) = (o.name = name) := by
    intro o
    simp [Occurrence.diagnostic]
  have named : ∀ o ∈ c.mentionedAs name, o.name = name := fun o ho =>
    of_decide_eq_true (List.mem_filter.mp ho).2
  rw [undeclared, List.filter_map, Function.comp_def]
  simp only [same]
  rw [List.filter_comm, ← mentionedAs, map_diagnostic_filter named]
  by_cases absent : c.declaredAs name = []
  · rw [if_pos absent, if_neg fun known => declarations_contains.mp known absent]
  · rw [if_neg absent, if_pos (declarations_contains.mpr absent)]

theorem filter_unreferenced_name (c : Compilation) (name : String) :
    c.unreferenced.filter (·.problem = .unreferenced name) =
      if c.request.reportUnused ∧ c.mentionedAs name = [] then
        (c.declaredAs name).head?.toList.map (·.diagnostic (.unreferenced name))
      else [] := by
  by_cases asked : c.request.reportUnused = true
  · have groups := filter_flatMap_declarations (c := c) .unreferenced
      (fun group => (group.head?.toList.filter (!c.references.contains ·.name)).map
        fun o => o.diagnostic (.unreferenced o.name)) (fun _ => rfl)
      (fun group d hd => by
        obtain ⟨o, ho, rfl⟩ := List.mem_map.mp hd
        have first := Option.mem_toList.mp (List.mem_filter.mp ho).1
        exact ⟨o, List.mem_of_mem_head? first, rfl⟩) rfl name
    have named : ∀ o ∈ (c.declaredAs name).head?.toList, o.name = name := fun o ho =>
      of_decide_eq_true (List.mem_filter.mp (List.mem_of_mem_head? (Option.mem_toList.mp ho))).2
    rw [unreferenced_eq_flatMap asked, groups, map_diagnostic_filter named]
    by_cases silent : c.mentionedAs name = []
    · rw [if_neg fun known => references_contains.mp known silent, if_pos ⟨asked, silent⟩]
    · rw [if_pos (references_contains.mpr silent), if_neg fun both => silent both.2]
  · rw [unreferenced, if_neg asked, if_neg fun h => asked h.1]
    rfl

theorem mem_boundTo_of_group {group : List Occurrence} {o : Occurrence} (hg : group ∈ c.declarations.values)
    (ho : o ∈ group) : o ∈ c.boundTo o.name := by
  obtain ⟨⟨name, group⟩, entry, rfl⟩ := List.mem_map.mp hg
  have found := Table.get?_eq_some_iff.mpr entry
  have name_eq : o.name = name := Table.key_of_mem_groupBy _ entry o ho
  refine List.mem_append_left _ ?_
  rw [name_eq, declarationsOf, found]
  exact ho

theorem exists_of_duplicate (hd : d ∈ c.duplicates) :
    ∃ o ∈ c.boundTo o.name, d = o.diagnostic (.duplicate o.name) := by
  obtain ⟨group, hg, hd⟩ := List.mem_flatMap.mp hd
  obtain ⟨o, ho, rfl⟩ := List.mem_map.mp hd
  exact ⟨o, mem_boundTo_of_group hg (List.mem_of_mem_tail ho), rfl⟩

theorem exists_of_undeclared (hd : d ∈ c.undeclared) :
    ∃ o ∈ c.boundTo o.name, d = o.diagnostic (.undeclared o.name) := by
  obtain ⟨o, ho, rfl⟩ := List.mem_map.mp hd
  refine ⟨o, List.mem_append_right _ ?_, rfl⟩
  rw [referencesTo_eq]
  exact List.mem_filter.mpr ⟨(List.mem_filter.mp ho).1, decide_eq_true rfl⟩

theorem exists_of_unreferenced (hd : d ∈ c.unreferenced) :
    ∃ o ∈ c.boundTo o.name, d = o.diagnostic (.unreferenced o.name) := by
  rw [unreferenced] at hd
  split at hd
  · obtain ⟨o, ho, rfl⟩ := List.mem_map.mp hd
    obtain ⟨group, hg, first⟩ := List.mem_filterMap.mp (List.mem_filter.mp ho).1
    exact ⟨o, mem_boundTo_of_group hg (List.mem_of_mem_head? first), rfl⟩
  · cases hd

theorem of_mem_nameDiagnostics (genuine : c.IsGenuine) (hd : d ∈ c.nameDiagnostics) :
    d.file ∈ c.sources.keys ∧ d.problem.IsOfName := by
  rcases List.mem_append.mp hd with hd | hd
  · rcases List.mem_append.mp hd with hd | hd
    · obtain ⟨o, bound, rfl⟩ := exists_of_duplicate hd
      exact ⟨mem_keys_of_bound genuine.file_eq bound, o.name, Or.inl rfl⟩
    · obtain ⟨o, bound, rfl⟩ := exists_of_undeclared hd
      exact ⟨mem_keys_of_bound genuine.file_eq bound, o.name, Or.inr (Or.inl rfl)⟩
  · obtain ⟨o, bound, rfl⟩ := exists_of_unreferenced hd
    exact ⟨mem_keys_of_bound genuine.file_eq bound, o.name, Or.inr (Or.inr rfl)⟩

theorem filter_nameDiagnostics (c : Compilation) (name : String) :
    c.nameDiagnostics.filter (·.problem = .duplicate name) =
        c.duplicates.filter (·.problem = .duplicate name) ∧
      c.nameDiagnostics.filter (·.problem = .undeclared name) =
        c.undeclared.filter (·.problem = .undeclared name) ∧
      c.nameDiagnostics.filter (·.problem = .unreferenced name) =
        c.unreferenced.filter (·.problem = .unreferenced name) := by
  have none : ∀ (all : List Diagnostic) (problem : Problem) (other : String → Problem),
      (∀ d ∈ all, ∃ o ∈ c.boundTo o.name, d = o.diagnostic (other o.name)) → (∀ n, other n ≠ problem) →
      all.filter (·.problem = problem) = [] := by
    intro all problem other reports apart
    refine List.filter_eq_nil_iff.mpr fun d hd same => ?_
    obtain ⟨o, -, rfl⟩ := reports d hd
    exact apart o.name (of_decide_eq_true same)
  have duplicates (problem : Problem) := none c.duplicates problem .duplicate fun _ => exists_of_duplicate
  have undeclared (problem : Problem) := none c.undeclared problem .undeclared fun _ => exists_of_undeclared
  have unreferenced (problem : Problem) :=
    none c.unreferenced problem .unreferenced fun _ => exists_of_unreferenced
  simp only [nameDiagnostics, List.filter_append]
  refine ⟨?_, ?_, ?_⟩
  · rw [undeclared (.duplicate name) fun _ => nofun, unreferenced (.duplicate name) fun _ => nofun,
      List.append_nil, List.append_nil]
  · rw [duplicates (.undeclared name) fun _ => nofun, unreferenced (.undeclared name) fun _ => nofun,
      List.append_nil, List.nil_append]
  · rw [duplicates (.unreferenced name) fun _ => nofun, undeclared (.unreferenced name) fun _ => nofun,
      List.nil_append, List.nil_append]

/-- A file has its syntax errors, then its imports that are not loaded, then what is wrong with its names. -/
theorem diagnosticsFor_eq (genuine : c.IsGenuine) (hs : c.source? file = some s) :
    c.diagnosticsFor file =
      s.syntaxDiagnostics ++ c.importDiagnostics file s ++ c.nameDiagnostics.filter (·.file = file) := by
  have file_eq := genuine.file_eq file s hs
  have imports : c.unreadable s = c.importDiagnostics file s := by
    rw [unreadable, importDiagnostics, file_eq]
    congr 1
    refine List.filter_congr fun i _ => ?_
    rw [Source.target, file_eq, Table.contains, List.contains_eq_mem, decide_not]
  rw [diagnosticsFor, hs, ← imports, nameDiagnostics]

theorem filter_allDiagnostics (genuine : c.IsGenuine) {problem : Problem} (ofName : problem.IsOfName) :
    (c.allDiagnostics.filter (·.problem = problem)).Perm (c.nameDiagnostics.filter (·.problem = problem)) := by
  have perFile : ∀ file ∈ c.sources.keys, (c.diagnosticsFor file).filter (·.problem = problem) =
      (c.nameDiagnostics.filter (·.problem = problem)).filter (·.file = file) := by
    intro file loaded
    obtain ⟨s, hs⟩ := Table.mem_keys_iff.mp loaded
    have own : (s.syntaxDiagnostics ++ c.importDiagnostics file s).filter (·.problem = problem) = [] := by
      refine List.filter_eq_nil_iff.mpr fun d hd same => ?_
      rw [decide_eq_true_eq] at same
      obtain ⟨name, rfl | rfl | rfl⟩ := ofName <;> rcases List.mem_append.mp hd with hd | hd <;>
        obtain ⟨_, -, rfl⟩ := List.mem_map.mp hd <;> cases same
    rw [diagnosticsFor_eq genuine hs, List.filter_append, own, List.nil_append, List.filter_comm]
  have inside : (c.nameDiagnostics.filter (·.problem = problem)).filter (·.file ∈ c.sources.keys) =
      c.nameDiagnostics.filter (·.problem = problem) :=
    List.filter_eq_self.mpr fun d hd =>
      decide_eq_true (of_mem_nameDiagnostics genuine (List.mem_filter.mp hd).1).1
  rw [allDiagnostics, List.filter_flatMap, ← inside, List.flatMap_congr perFile]
  exact perm_flatMap_filter Diagnostic.file c.sources.keys_nodup _

theorem nodup_places (genuine : c.IsGenuine) (name : String) :
    ((c.declaredAs name ++ c.mentionedAs name).map fun o => (o.file, o.span)).Nodup := by
  have nodup := nodup_boundTo genuine name
  rw [boundTo, declarationsOf_eq, referencesTo_eq] at nodup
  refine nodup.map_on fun o ho o' ho' same => ?_
  have named : ∀ o ∈ c.declaredAs name ++ c.mentionedAs name, o.name = name := by
    intro o ho
    rcases List.mem_append.mp ho with ho | ho <;> exact of_decide_eq_true (List.mem_filter.mp ho).2
  obtain ⟨file, id⟩ := o
  obtain ⟨file', id'⟩ := o'
  obtain ⟨file_eq, span_eq⟩ := Prod.mk.inj same
  have name_eq : id.name = id'.name := (named _ ho).trans (named _ ho').symm
  rw [Occurrence.mk.injEq]
  refine ⟨file_eq, ?_⟩
  obtain ⟨_, _⟩ := id
  obtain ⟨_, _⟩ := id'
  exact Identifier.mk.injEq .. ▸ ⟨name_eq, span_eq⟩

/-- What is diagnosed in a compilation. The list of a file names that file, and begins with its syntax
errors and its imports that are not loaded; the rest are problems of names. Of a name, these are, over all
files: a duplicate at every declaration but the first; an undeclared name at every mention, if there is no
declaration; and one that is not referred to at the first declaration, if that is asked for and there is
no mention. -/
structure Diagnoses (c : Compilation) : Prop where
  named : ∀ file, ∀ d ∈ c.diagnosticsFor file, d.file = file ∧ file ∈ c.sources.keys
  begins : ∀ file s, c.source? file = some s → ∃ ofNames,
    c.diagnosticsFor file = s.syntaxDiagnostics ++ c.importDiagnostics file s ++ ofNames ∧
      ∀ d ∈ ofNames, d.problem.IsOfName
  duplicate : ∀ name, (c.allDiagnostics.filter (·.problem = .duplicate name)).Perm
    ((c.declaredAs name).tail.map (·.diagnostic (.duplicate name)))
  undeclared : ∀ name, (c.allDiagnostics.filter (·.problem = .undeclared name)).Perm
    (if c.declaredAs name = [] then (c.mentionedAs name).map (·.diagnostic (.undeclared name)) else [])
  unreferenced : ∀ name, (c.allDiagnostics.filter (·.problem = .unreferenced name)).Perm
    (if c.request.reportUnused ∧ c.mentionedAs name = [] then
      (c.declaredAs name).head?.toList.map (·.diagnostic (.unreferenced name)) else [])
  places : ∀ name, ((c.declaredAs name ++ c.mentionedAs name).map fun o => (o.file, o.span)).Nodup

/-- Whatever the files, the roots and the options are, this is diagnosed, and nothing else. -/
theorem diagnoses_of_isGenuine (c : Compilation) (genuine : c.IsGenuine) : Diagnoses c where
  named file d hd := by
    cases hs : c.source? file with
    | none =>
      rw [diagnosticsFor, hs] at hd
      cases hd
    | some s =>
      refine ⟨?_, Table.mem_keys_of_get? hs⟩
      rw [diagnosticsFor_eq genuine hs] at hd
      rcases List.mem_append.mp hd with hd | hd
      · rcases List.mem_append.mp hd with hd | hd
        · obtain ⟨_, -, rfl⟩ := List.mem_map.mp hd
          exact genuine.file_eq file s hs
        · obtain ⟨_, -, rfl⟩ := List.mem_map.mp hd
          rfl
      · exact of_decide_eq_true (List.mem_filter.mp hd).2
  begins file s hs :=
    ⟨_, diagnosticsFor_eq genuine hs, fun _ hd => (of_mem_nameDiagnostics genuine (List.mem_filter.mp hd).1).2⟩
  duplicate name := by
    rw [← filter_duplicate, ← (filter_nameDiagnostics c name).1]
    exact filter_allDiagnostics genuine ⟨name, Or.inl rfl⟩
  undeclared name := by
    rw [← filter_undeclared_name, ← (filter_nameDiagnostics c name).2.1]
    exact filter_allDiagnostics genuine ⟨name, Or.inr (Or.inl rfl)⟩
  unreferenced name := by
    rw [← filter_unreferenced_name, ← (filter_nameDiagnostics c name).2.2]
    exact filter_allDiagnostics genuine ⟨name, Or.inr (Or.inr rfl)⟩
  places := nodup_places genuine

/-- Two files that share names, with an error, an import that is not there, and a name without a reference. -/
def untidy : Compilation :=
  (ofFiles (.ofList [("/a", "@import \"b\"; @import \"gone\"; x:=z; y:='1'; :=;"), ("/b", "x:='2'; x:=x z;")])
    0 ⟨["/a"], true⟩ none).1

theorem diagnoses_of_isGenuine_untidy : untidy.IsGenuine ∧ Diagnoses untidy ∧
    untidy.allDiagnostics.map (fun d => (d.file, d.problem.code, d.span.start.column)) =
      [("/a", 1000, 44), ("/a", 2000, 14), ("/a", 2002, 33), ("/a", 2003, 36),
        ("/b", 2001, 1), ("/b", 2001, 9), ("/b", 2002, 14)] := by
  have genuine : untidy.IsGenuine := isGenuine_ofFiles_none _ _ _
  exact ⟨genuine, diagnoses_of_isGenuine untidy genuine, by decide +kernel⟩

end Grammar.Compilation
end GrammarWorkspace
