import GrammarWorkspace.Proofs.Grammar.Pointing
import GrammarWorkspace.Proofs.Workspace.Placing
import GrammarWorkspace.Proofs.Workspace.View

/-!
# Where a name is declared and mentioned

On a request for a position the client is told of every declaration of the name there, and of every
mention of it, in all loaded files. Each answer goes by the URI of a document in which it selects the name.
The root of the host has to be absolute for that: with a relative one the answers can go by a URI that no
document has.
-/
namespace GrammarWorkspace

open Grammar (Compilation Identifier Occurrence Source)
open GrammarWorkspace.Path (IsNormal)

namespace Grammar.Compilation

variable {c : Compilation} {file : String} {source : Source} {line character : Int}

/-- The declarations of a name, file by file as they were loaded and in the order of the text. -/
def declaring (c : Compilation) (name : String) : List Occurrence :=
  (c.sources.values.flatMap Source.declared).filter (·.name = name)

def mentioning (c : Compilation) (name : String) : List Occurrence :=
  (c.sources.values.flatMap Source.mentioned).filter (·.name = name)

theorem boundTo_eq (c : Compilation) (name : String) : c.boundTo name = c.declaring name ++ c.mentioning name := by
  rw [boundTo, declarationsOf_eq, referencesTo_eq]
  rfl

theorem identifierAt_eq_none (compiled : c.source? file = some source)
    (outside : ∀ id ∈ source.tree.identifiers, ¬ id.span.Contains line character) :
    c.identifierAt file line character = none := by
  have none : source.tree.identifierAt line character = none :=
    List.find?_eq_none.mpr fun id hid => by simpa using outside id hid
  simp [identifierAt, compiled, none]

theorem identifierAt_eq_some (compiled : c.source? file = some source) {text : String} (of : source.IsOf file text)
    {id : Identifier} (mem : id ∈ source.tree.identifiers) (inside : id.span.Contains line character) :
    c.identifierAt file line character = some ⟨file, id⟩ := by
  rw [of.tree_eq] at mem
  have found := identifierAt_of_contains mem inside
  rw [← of.tree_eq] at found
  simp [identifierAt, compiled, found]

theorem bound_of_declarationsAt {o : Occurrence} (ho : o ∈ c.declarationsAt file line character) :
    ∃ name, o ∈ c.boundTo name := by
  unfold declarationsAt at ho
  split at ho
  · cases ho
  · rename_i o' _
    exact ⟨o'.name, List.mem_append_left _ ho⟩

theorem bound_of_referencesAt {withDeclaration : Bool} {o : Occurrence}
    (ho : o ∈ c.referencesAt file line character withDeclaration) : ∃ name, o ∈ c.boundTo name := by
  unfold referencesAt at ho
  split at ho
  · cases ho
  · rename_i o' _
    refine ⟨o'.name, ?_⟩
    rcases List.mem_append.mp ho with ho | ho
    · split at ho
      · exact List.mem_append_left _ ho
      · cases ho
    · exact List.mem_append_right _ ho

end Grammar.Compilation

namespace Workspace

variable {host : Host} {w w' : Workspace} {c : Compilation} {d : Document} {source : Source} {uri : String}
  {line character : Int}

/-- An access leaves a workspace at rest, with the compilation that it has found. -/
theorem Resting.access (hr : w.Resting (.readers host)) (accessed : w.access = (.ok c, w')) :
    w'.Resting (.readers host) ∧ w'.compilation = some c ∧ w'.holdings.clientFiles = w.holdings.clientFiles := by
  have rebuilt := hr.rebuilt
  rw [accessed] at rebuilt
  exact ⟨hr.drifts rebuilt.drifts, rebuilt.compilation_eq c rfl, rebuilt.drifts.core.later.clientFiles_eq⟩

/-- What the client is told of a position in a source, and what is left afterwards. -/
structure Answers (w : Workspace) (uri : String) (line character : Int) (c : Compilation) (source : Source)
    (w' : Workspace) : Prop where
  nowhere : (∀ id ∈ source.tree.identifiers, ¬ id.span.Contains line character) →
    (w.turn (.definition uri line character)).1.result = .ok (.places []) ∧
      ∀ withDeclaration, (w.turn (.references uri line character withDeclaration)).1.result = .ok (.places [])
  declared : ∀ id ∈ source.tree.identifiers, id.span.Contains line character →
    (w.turn (.definition uri line character)).1.result = .ok (.places (placesAt w'.uriOf (c.declaring id.name)))
  mentioned : ∀ id ∈ source.tree.identifiers, id.span.Contains line character → ∀ withDeclaration,
    (w.turn (.references uri line character withDeclaration)).1.result = .ok (.places (placesAt w'.uriOf
      ((if withDeclaration then c.declaring id.name else []) ++ c.mentioning id.name)))
  once : ∀ name, (c.declaring name ++ c.mentioning name).Nodup
  selects : ∀ name, ∀ p ∈ placesAt w'.uriOf (c.declaring name ++ c.mentioning name),
    ∃ d ∈ w'.trackedDocuments, ∃ text, d.uri = p.uri ∧ d.text = some text ∧ p.range.selected text = name
  after : (w.turn (.definition uri line character)).2 = w' ∧
    ∀ withDeclaration, (w.turn (.references uri line character withDeclaration)).2 = w'

theorem isGenuine_of_fits (fits : w.core.Fits c) : c.IsGenuine := fun _ _ hs =>
  (fits.loads.source_is_of hs).imp fun _ both => both.2

theorem exists_selected (hk : w.holdings.Known []) (fits : w.core.Fits c) {name : String} {o : Occurrence}
    (ho : o ∈ c.boundTo name) :
    ∃ d ∈ w.trackedDocuments, ∃ text, d.uri = w.uriOf o.file ∧ d.text = some text ∧
      (Range.ofSpan o.span).selected text = name := by
  obtain ⟨d, hm, file_eq⟩ := exists_document_of_file hk (mem_files_of_bound fits ho)
  obtain ⟨s, text, hs, text_eq, of⟩ := exists_source hk fits hm
  obtain ⟨s', hs', mem, name_eq⟩ := Compilation.identifier_of_bound (isGenuine_of_fits fits) ho
  rw [← file_eq, hs, Option.some.injEq] at hs'
  subst hs'
  rw [of.tree_eq] at mem
  refine ⟨d, hm, text, ?_, text_eq, ?_⟩
  · rw [← file_eq, uriOf_eq hk hm]
  · rw [← name_eq]
    exact Grammar.selected_of_identifier mem

theorem Resting.answers (hr : w.Resting (.readers host)) (rooted : host.IsRooted) (known : w.Named host)
    (accessed : w.access = (.ok c, w')) (tracked : d ∈ w.trackedDocuments) (compiled : c.source? d.file = some source)
    (named : host.fileName (.reference (.text uri)) = .ok d.file) (line character : Int) :
    w.Answers uri line character c source w' := by
  obtain ⟨hr', cached, clientFiles_eq⟩ := hr.access accessed
  have normal := hr'.isNormal_of_tracked rooted (fun file hm => known file (clientFiles_eq ▸ hm)) cached
  have fits := hr'.sound.fits rfl c cached
  obtain ⟨text, -, of⟩ := fits.loads.source_is_of compiled
  have loaded : d.file ∈ c.sources.keys := Table.mem_keys_of_get? compiled
  have held : d.file ∈ w.files := by
    obtain ⟨id, ht, -⟩ := tracked_of_mem hr.known.filed tracked
    exact Table.mem_keys_of_get? ht
  rw [← hr.quiet.1] at named
  have located {o : Occurrence} (bound : ∃ name, o ∈ c.boundTo name) : w'.Locates o.file (w'.uriOf o.file) := by
    obtain ⟨name, ho⟩ := bound
    have held := mem_files_of_bound fits ho
    exact locates_of_isNormal hr'.known (normal _ held) held
  have definition := turn_definition hr.known named held accessed loaded w'.uriOf line character fun o ho =>
    located (Compilation.bound_of_declarationsAt ho)
  have references (withDeclaration : Bool) := turn_references hr.known named held accessed loaded w'.uriOf line character
    withDeclaration fun o ho => located (Compilation.bound_of_referencesAt ho)
  refine ⟨fun outside => ?_, fun id mem inside => ?_, fun id mem inside withDeclaration => ?_, fun name => ?_,
    fun name p hp => ?_, definition.2, fun withDeclaration => (references withDeclaration).2⟩
  · have none := Compilation.identifierAt_eq_none compiled outside
    simp only [Compilation.declarationsAt, Compilation.referencesAt, none] at definition references
    exact ⟨definition.1, fun withDeclaration => (references withDeclaration).1⟩
  · have found := Compilation.identifierAt_eq_some compiled of mem inside
    simp only [Compilation.declarationsAt, found, Compilation.declarationsOf_eq] at definition
    exact definition.1
  · have found := Compilation.identifierAt_eq_some compiled of mem inside
    simp only [Compilation.referencesAt, found, Compilation.declarationsOf_eq, Compilation.referencesTo_eq] at references
    exact (references withDeclaration).1
  · rw [← Compilation.boundTo_eq]
    exact Compilation.nodup_boundTo (isGenuine_of_fits fits) name
  · rw [← Compilation.boundTo_eq] at hp
    obtain ⟨o, ho, rfl⟩ := List.mem_map.mp hp
    exact exists_selected hr'.known fits ho

/-- After any operations, what the client is told of a position in a tracked document is complete, and
selects the name. -/
theorem answers_run (s : Setup) (rooted : s.host.IsRooted)
    (cast : ∀ c ∈ s.cast, Action.arePassive c.script.actions = true)
    (actions : List Action) (plain : ∀ action ∈ actions, action.isPlain = true)
    (accessed : ((ofSetup s).run actions).access = (.ok c, w'))
    (tracked : d ∈ ((ofSetup s).run actions).trackedDocuments) (compiled : c.source? d.file = some source)
    (named : s.host.fileName (.reference (.text uri)) = .ok d.file) (line character : Int) :
    ((ofSetup s).run actions).Answers uri line character c source w' :=
  ((resting_ofSetup s cast).run plain).answers rooted ((resting_ofSetup s cast).named_run plain (named_ofSetup s))
    accessed tracked compiled named line character

def answering : Setup := serving [("/b", [120, 58, 61, 39, 98, 39, 59])]

/-- A document imports the file and mentions its name. -/
def asking : List Action := [.openOnClient "file:///a" "@import 'b';y:=x;"]

set_option maxRecDepth 4000 in
theorem answers_run_asking : ∃ (c : Compilation) (source : Source),
    ((ofSetup answering).run asking).access = (.ok c, (ofSetup answering).run asking) ∧
      c.source? "/a" = some source ∧ (∃ id ∈ source.tree.identifiers, id.name = "x" ∧ id.span.Contains 0 15) ∧
      ((ofSetup answering).run asking).Answers "file:///a" 0 15 c source ((ofSetup answering).run asking) := by
  obtain ⟨c, cached⟩ : ∃ c, ((ofSetup answering).run asking).compilation = some c :=
    Option.isSome_iff_exists.mp (by decide +kernel)
  have pointed : ((ofSetup answering).run asking).compilation.bind (fun c =>
      (c.source? "/a").bind (·.tree.identifierAt 0 15)) = some ⟨"x", ⟨⟨15, 1, 16⟩, ⟨16, 1, 17⟩⟩⟩ := by decide +kernel
  rw [cached, Option.bind_some] at pointed
  obtain ⟨source, compiled, pointed⟩ := Option.bind_eq_some_iff.mp pointed
  have tracked : ⟨"/a", "file:///a", some "@import 'b';y:=x;", true, false, true⟩ ∈
      ((ofSetup answering).run asking).trackedDocuments := List.mem_of_getElem? (i := 0) (by decide +kernel)
  have named : answering.host.fileName (.reference (.text "file:///a")) = .ok "/a" := rfl
  refine ⟨c, source, access_of_cached cached, compiled, ⟨_, List.mem_of_find?_eq_some pointed, rfl, by decide⟩, ?_⟩
  exact answers_run answering (by intro root given; cases given) (by decide) asking (by decide)
    (access_of_cached cached) tracked compiled named 0 15

set_option maxRecDepth 4000 in
theorem declared_drifting {c : Compilation} (cached : drifting.compilation = some c) :
    c.declarationsAt "w/a" 0 0 = [⟨"w/a", ⟨"x", ⟨⟨0, 1, 1⟩, ⟨1, 1, 2⟩⟩⟩⟩] := by
  have declared : drifting.compilation.map (·.declarationsAt "w/a" 0 0) =
      some [⟨"w/a", ⟨"x", ⟨⟨0, 1, 1⟩, ⟨1, 1, 2⟩⟩⟩⟩] := by decide +kernel
  rw [cached] at declared
  exact Option.some.inj declared

set_option maxRecDepth 4000 in
/-- With a relative root the client can be told of a place in a document that there is not. -/
theorem answers_astray :
    (drifting.turn (.definition "a" 0 0)).1.result = .ok (.places [⟨"file:///w/a", ⟨0, 0, 0, 1⟩⟩]) ∧
      (drifting.turn (.definition "a" 0 0)).2.trackedDocuments.map Document.uri = ["a"] := by
  obtain ⟨c, cached, loaded, -⟩ := compiled_drifting
  have declared := declared_drifting cached
  have named : adrift.host.fileName (.reference (.text "a")) = .ok "w/a" := rfl
  have answered := turn_definition resting_drifting.known (by rw [resting_drifting.quiet.1]; exact named)
    (by rw [files_drifting]; decide) (access_of_cached cached) (by rw [loaded]; decide)
    (fun _ => "file:///w/a") 0 0 (fun o ho => by
      rw [declared, List.mem_singleton] at ho
      rw [ho]
      exact locates_drifting)
  rw [declared] at answered
  have uris : drifting.trackedDocuments.map Document.uri = ["a"] := by decide +kernel
  exact ⟨answered.1, by rw [answered.2, uris]⟩

end Workspace
end GrammarWorkspace
