import GrammarWorkspace.Proofs.Grammar.Breadth
import GrammarWorkspace.Proofs.Grammar.Diagnosis

/-!
# What depends on the roots

Where compiling starts settles in which order files are loaded, and so which of several declarations of a
name comes first. All else depends on which files the roots reach, in whatever order they are named, how
often, and whether another root imports them anyway.
-/
namespace GrammarWorkspace

theorem Table.perm_values {α β : Type} [DecidableEq α] {t t' : Table α β}
    (get?_eq : ∀ key, t.get? key = t'.get? key) : t.values.Perm t'.values := by
  have entries : t.entries.Perm t'.entries := by
    refine (List.perm_ext_iff_of_nodup t.nodup.of_map t'.nodup.of_map).mpr fun ⟨key, value⟩ => ?_
    rw [← get?_eq_some_iff, ← get?_eq_some_iff, get?_eq]
  exact entries.map Prod.snd

namespace Grammar

theorem Reached.of_reached {reading : Reading} {roots roots' : List String} {file : String}
    (covered : ∀ root ∈ roots, (∃ text, reading root = .ok (some text)) → Reached reading roots' root)
    (h : Reached reading roots file) (readable : ∃ text, reading file = .ok (some text)) :
    Reached reading roots' file := by
  induction h with
  | root listed => exact covered _ listed readable
  | @imported _ text _ _ found imported ih => exact .imported (ih ⟨text, found⟩) found imported

namespace Compilation

section Order

variable {c c' : Compilation}

theorem SameSources.perm_flatMap (same : SameSources c c') {f : Source → List Occurrence}
    (blind : ∀ s, f s = f s.unsigned) :
    (c.sources.values.flatMap f).Perm (c'.sources.values.flatMap f) := by
  have unsigned : ∀ sources : Table String Source,
      sources.values.flatMap f = (sources.mapValues Source.unsigned).values.flatMap f := by
    intro sources
    rw [Table.values_mapValues, List.flatMap_map]
    exact List.flatMap_congr fun s _ => blind s
  have values : (c.sources.mapValues Source.unsigned).values.Perm
      (c'.sources.mapValues Source.unsigned).values := by
    refine Table.perm_values fun file => ?_
    rw [Table.get?_mapValues, Table.get?_mapValues]
    exact same.source?_eq file
  rw [unsigned c.sources, unsigned c'.sources]
  exact values.flatMap_right f

theorem SameSources.perm_declaredAs (same : SameSources c c') (name : String) :
    (c.declaredAs name).Perm (c'.declaredAs name) := (same.perm_flatMap fun _ => rfl).filter _

theorem SameSources.perm_mentionedAs (same : SameSources c c') (name : String) :
    (c.mentionedAs name).Perm (c'.mentionedAs name) := (same.perm_flatMap fun _ => rfl).filter _

end Order

section Counting

variable {c : Compilation}

theorem length_duplicates (genuine : c.IsGenuine) (name : String) :
    (c.allDiagnostics.filter (·.problem = .duplicate name)).length = (c.declaredAs name).length - 1 := by
  rw [(filter_allDiagnostics genuine ⟨name, Or.inl rfl⟩).length_eq, (filter_nameDiagnostics c name).1,
    filter_duplicate, List.length_map, List.length_tail]

/-- It is warned of the names that are declared and not mentioned, if that is asked for. -/
theorem exists_unreferenced_iff (genuine : c.IsGenuine) (name : String) :
    (∃ d ∈ c.allDiagnostics, d.problem = .unreferenced name) ↔
      c.request.reportUnused = true ∧ c.mentionedAs name = [] ∧ c.declaredAs name ≠ [] := by
  have reported := (filter_allDiagnostics genuine ⟨name, Or.inr (Or.inr rfl)⟩).length_eq
  rw [(filter_nameDiagnostics c name).2.2, filter_unreferenced_name] at reported
  have listed : (∃ d ∈ c.allDiagnostics, d.problem = .unreferenced name) ↔
      0 < (c.allDiagnostics.filter (·.problem = .unreferenced name)).length := by
    rw [List.length_pos_iff_exists_mem]
    simp only [List.mem_filter, decide_eq_true_eq]
  rw [listed, reported, ← and_assoc]
  split
  · rename_i silent
    rw [List.length_map, and_iff_right silent]
    cases c.declaredAs name <;> simp
  · rename_i spoken
    simp [spoken]

/-- If each name is a duplicate equally often, the duplicates are the same but for their places. -/
theorem perm_duplicates {c' : Compilation}
    (counts : ∀ name, (c.allDiagnostics.filter (·.problem = .duplicate name)).length =
      (c'.allDiagnostics.filter (·.problem = .duplicate name)).length) :
    ((c.allDiagnostics.filter (·.problem.code = 2001)).map Diagnostic.problem).Perm
      ((c'.allDiagnostics.filter (·.problem.code = 2001)).map Diagnostic.problem) := by
  have count_eq : ∀ (all : List Diagnostic) (problem : Problem),
      ((all.filter (·.problem.code = 2001)).map Diagnostic.problem).count problem =
        if problem.code = 2001 then (all.filter (·.problem = problem)).length else 0 := by
    intro all problem
    rw [List.count, List.countP_map, List.countP_filter, List.countP_eq_length_filter]
    split
    · rename_i coded
      congr 1
      refine List.filter_congr fun d _ => ?_
      by_cases same : d.problem = problem <;> simp [same, coded]
    · rename_i other
      rw [List.length_eq_zero_iff, List.filter_eq_nil_iff]
      intro d _ both
      simp only [Function.comp_apply, beq_iff_eq, Bool.and_eq_true, decide_eq_true_eq] at both
      exact other (both.1 ▸ both.2)
  refine List.perm_iff_count.mpr fun problem => ?_
  rw [count_eq, count_eq]
  split
  · rename_i coded
    cases problem with
    | duplicate name => exact counts name
    | _ => cases coded
  · rfl

end Counting

/-- Roots of two lists that are reached from the other one, as far as they can be read, reach the same. -/
theorem reached_iff_of_covered {files : Table String String} {roots roots' : List String}
    (covered : ∀ root ∈ roots, root ∈ files.keys → Reached (readingOf files) roots' root)
    (covered' : ∀ root ∈ roots', root ∈ files.keys → Reached (readingOf files) roots root) :
    ∀ file ∈ files.keys, Reached (readingOf files) roots file ↔ Reached (readingOf files) roots' file := by
  have readable_iff : ∀ file, (∃ text, readingOf files file = .ok (some text)) ↔ file ∈ files.keys := by
    intro file
    rw [Table.mem_keys_iff]
    simp only [readingOf, Except.ok.injEq]
  intro file readable
  have readable := (readable_iff file).mpr readable
  constructor
  · exact fun h => h.of_reached (fun root listed found => covered root listed ((readable_iff root).mp found)) readable
  · exact fun h => h.of_reached (fun root listed found => covered' root listed ((readable_iff root).mp found)) readable

section Roots

variable {files : Table String String} {serial serial' : Nat} {request request' : Request}
  {previous previous' : Option Compilation}

/-- The files that are loaded are those that the roots reach and that can be read. -/
theorem mem_keys_ofFiles_iff (genuine : ∀ c, previous = some c → c.IsGenuine) {file : String} :
    file ∈ (ofFiles files serial request previous).1.sources.keys ↔
      Reached (readingOf files) request.roots file ∧ file ∈ files.keys := by
  have alike := (ofFiles_of_previous files serial serial request genuine).1
  rw [alike.keys_eq, (loads_ofFiles files serial request).mem_keys_iff, Table.mem_keys_iff]
  simp only [readingOf, Except.ok.injEq]

theorem sameSources_ofFiles (genuine : ∀ c, previous = some c → c.IsGenuine)
    (genuine' : ∀ c, previous' = some c → c.IsGenuine)
    (reached_iff : ∀ file ∈ files.keys,
      Reached (readingOf files) request.roots file ↔ Reached (readingOf files) request'.roots file) :
    SameSources (ofFiles files serial request previous).1 (ofFiles files serial' request' previous').1 := by
  refine SameSources.of_texts files.get? (fun _ _ hs => parsed_ofFiles genuine hs)
    (fun _ _ hs => parsed_ofFiles genuine' hs) fun file => ?_
  rw [mem_keys_ofFiles_iff genuine, mem_keys_ofFiles_iff genuine']
  exact and_congr_left (reached_iff file)

theorem isGenuine_ofFiles (genuine : ∀ c, previous = some c → c.IsGenuine) :
    (ofFiles files serial request previous).1.IsGenuine := fun _ _ hs =>
  (parsed_ofFiles genuine hs).imp fun _ => And.right

end Roots

/-- Two compilations that say the same but for which of several declarations comes first: the same files;
of each file the same syntax errors, unreadable imports and undeclared names; of each name the same
declarations and references, as many duplicates, and the same warning. -/
structure Corresponds (c c' : Compilation) : Prop where
  files_iff : ∀ file, file ∈ c.sources.keys ↔ file ∈ c'.sources.keys
  settled_eq : ∀ file, (c.diagnosticsFor file).filter (·.problem.code ∈ [1000, 2000, 2002]) =
    (c'.diagnosticsFor file).filter (·.problem.code ∈ [1000, 2000, 2002])
  declarations : ∀ name, (c.declarationsOf name).Perm (c'.declarationsOf name)
  references : ∀ name, (c.referencesTo name).Perm (c'.referencesTo name)
  duplicates : ∀ name, (c.allDiagnostics.filter (·.problem = .duplicate name)).length =
    (c'.allDiagnostics.filter (·.problem = .duplicate name)).length
  allDuplicates : (c.allDiagnostics.filter (·.problem.code = 2001)).length =
    (c'.allDiagnostics.filter (·.problem.code = 2001)).length
  unreferenced : ∀ name, (∃ d ∈ c.allDiagnostics, d.problem = .unreferenced name) ↔
    ∃ d ∈ c'.allDiagnostics, d.problem = .unreferenced name

theorem settledFor_eq_filter (c : Compilation) (file : String) :
    c.settledFor file = (c.diagnosticsFor file).filter (·.problem.code ∈ [1000, 2000, 2002]) := by
  refine List.filter_congr fun d _ => ?_
  cases d.problem <;> rfl

theorem SameSources.corresponds {c c' : Compilation} (same : SameSources c c') (genuine : c.IsGenuine)
    (genuine' : c'.IsGenuine) (reportUnused_eq : c.request.reportUnused = c'.request.reportUnused) :
    Corresponds c c' := by
  have counts : ∀ name, (c.allDiagnostics.filter (·.problem = .duplicate name)).length =
      (c'.allDiagnostics.filter (·.problem = .duplicate name)).length := by
    intro name
    rw [length_duplicates genuine, length_duplicates genuine', (same.perm_declaredAs name).length_eq]
  refine ⟨fun file => ?_, fun file => ?_, fun name => ?_, fun name => ?_, counts, ?_, fun name => ?_⟩
  · rw [← Table.contains_iff, ← Table.contains_iff, same.contains_eq]
  · rw [← settledFor_eq_filter, ← settledFor_eq_filter, same.settledFor_eq]
  · rw [declarationsOf_eq, declarationsOf_eq]
    exact same.perm_declaredAs name
  · rw [referencesTo_eq, referencesTo_eq]
    exact same.perm_mentionedAs name
  · have lengths := (perm_duplicates counts).length_eq
    rwa [List.length_map, List.length_map] at lengths
  · have nil_iff {l l' : List Occurrence} (perm : l.Perm l') : l = [] ↔ l' = [] :=
      ⟨fun h => (h ▸ perm).symm.eq_nil, fun h => (h ▸ perm).eq_nil⟩
    rw [exists_unreferenced_iff genuine, exists_unreferenced_iff genuine', reportUnused_eq,
      nil_iff (same.perm_mentionedAs name), Ne, Ne, nil_iff (same.perm_declaredAs name)]

/-- Roots that reach the same files lead to compilations that correspond, whatever has been compiled
before each of them. -/
theorem corresponds_of_reached_iff (files : Table String String) (reportUnused : Bool)
    (roots roots' : List String)
    (reached_iff : ∀ file ∈ files.keys,
      Reached (readingOf files) roots file ↔ Reached (readingOf files) roots' file)
    (serial serial' : Nat) (previous previous' : Option Compilation)
    (genuine : ∀ c, previous = some c → c.IsGenuine) (genuine' : ∀ c, previous' = some c → c.IsGenuine) :
    Corresponds (ofFiles files serial ⟨roots, reportUnused⟩ previous).1
      (ofFiles files serial' ⟨roots', reportUnused⟩ previous').1 :=
  (sameSources_ofFiles genuine genuine' reached_iff).corresponds (isGenuine_ofFiles genuine)
    (isGenuine_ofFiles genuine') rfl

/-- Three files that declare one name, of which the first imports the second. -/
def sharing : Table String String := .ofList [
  ("/a", "@import 'b'; @import 'gone'; x:=y;"), ("/b", "x:=x; w:='1';"), ("/c", "x:='3'; z:=z; :=;")]

/-- The second file is a root as well, one root comes twice, and one is not there. -/
theorem corresponds_of_reached_iff_sharing :
    (∀ file ∈ sharing.keys, Reached (readingOf sharing) ["/a", "/c"] file ↔
      Reached (readingOf sharing) ["/c", "/none", "/b", "/a", "/c"] file) ∧
    Corresponds (ofFiles sharing 0 ⟨["/a", "/c"], true⟩ none).1
      (ofFiles sharing 1 ⟨["/c", "/none", "/b", "/a", "/c"], true⟩ none).1 ∧
    (ofFiles sharing 0 ⟨["/a", "/c"], true⟩ none).1.sources.keys = ["/a", "/c", "/b"] ∧
    (ofFiles sharing 1 ⟨["/c", "/none", "/b", "/a", "/c"], true⟩ none).1.sources.keys = ["/c", "/b", "/a"] := by
  have imported : Reached (readingOf sharing) ["/a", "/c"] "/b" := by
    have root : Reached (readingOf sharing) ["/a", "/c"] "/a" := .root (by decide)
    have found : readingOf sharing "/a" = .ok (some "@import 'b'; @import 'gone'; x:=y;") := rfl
    exact .imported root found (by decide +kernel)
  have reached_iff : ∀ file ∈ sharing.keys, Reached (readingOf sharing) ["/a", "/c"] file ↔
      Reached (readingOf sharing) ["/c", "/none", "/b", "/a", "/c"] file := by
    refine reached_iff_of_covered (fun root listed _ => .root ?_) fun root listed readable => ?_
    · revert root
      decide
    · have roots : root = "/b" ∨ root ∈ ["/a", "/c"] := by
        revert root
        decide
      rcases roots with rfl | listed
      · exact imported
      · exact .root listed
  refine ⟨reached_iff, ?_, by decide +kernel⟩
  exact corresponds_of_reached_iff sharing true _ _ reached_iff 0 1 none none (fun _ absent => nomatch absent)
    fun _ absent => nomatch absent

end Compilation
end Grammar
end GrammarWorkspace
