import GrammarWorkspace.Proofs.Grammar.Bindings
import GrammarWorkspace.Proofs.Grammar.Editing
import GrammarWorkspace.Proofs.Grammar.Freshness
import GrammarWorkspace.Proofs.Workspace.Placing
import GrammarWorkspace.Proofs.Workspace.View

/-!
# Renaming

The edits that rename a production reach every identifier of its name in every document, and nothing
else. With the edits made, the documents are what they were, under the new name. The root of the host
has to be absolute for that: with a relative one the edits can go to a URI that no document has.
-/
namespace GrammarWorkspace

open Grammar (Compilation IsName Occurrence)
open GrammarWorkspace.Path (IsNormal)
open Work (Ends)

namespace Workspace

variable {w : Workspace} {c : Compilation} {d : Document} {name newName : String}

/-- The texts of the tracked documents after edits that go by their URIs. -/
def editedTexts (w : Workspace) (edits : Table String (List Edit)) : Table String String :=
  w.tracked.filterMap fun id => (w.document? id).bind fun d =>
    d.text.map (Edit.apply ((edits.get? d.uri).getD []))

section Fitting

variable (hk : w.holdings.Known []) (fits : w.core.Fits c)

include hk fits

/-- The edits of a document put the new name in at its identifiers of the old one. -/
theorem edits_perm (distinct : (w.trackedDocuments.map Document.uri).Nodup) (hm : d ∈ w.trackedDocuments)
    {s : Grammar.Source} (hs : c.source? d.file = some s) :
    (((editsAt w.uriOf newName (c.boundTo name)).get? d.uri).getD []).Perm
      ((s.tree.respelling name newName).places.map (s.tree.respelling name newName).edit) := by
  have same : (c.boundTo name).filter (w.uriOf ·.file = d.uri) = (c.boundTo name).filter (·.file = d.file) := by
    refine List.filter_congr fun o ho => ?_
    obtain ⟨e, he, file_eq⟩ := exists_document_of_file hk (mem_files_of_bound fits ho)
    rw [← file_eq, uriOf_eq hk he, Bool.eq_iff_iff, decide_eq_true_iff, decide_eq_true_iff]
    constructor
    · intro uri_eq
      rw [List.inj_on_of_nodup_map distinct he hm uri_eq]
    · intro file_eq
      rw [← uriOf_eq hk he, file_eq, uriOf_eq hk hm]
  have bound := (Compilation.bound_perm (genuine_of_fits fits) hs name).map
    fun o => Edit.mk (.ofSpan o.span) newName
  rw [editsAt, Table.getD_foldl_push, same]
  rw [List.map_map] at bound
  rw [Grammar.Tree.respelling, List.map_map]
  exact bound

/-- With the edits made, every document has its text with the new name put in. -/
theorem reading_edited (distinct : (w.trackedDocuments.map Document.uri).Nodup) :
    Compilation.readingOf (w.editedTexts (editsAt w.uriOf newName (c.boundTo name))) =
      Grammar.Reading.renamed name newName fun file => .ok (w.holdings.text? file) := by
  funext file
  rw [Compilation.readingOf, editedTexts, Table.get?_filterMap]
  cases ht : w.tracked.get? file with
  | none =>
    rw [Grammar.Reading.renamed, Holdings.text?, show w.holdings.tracked.get? file = none from ht]
    rfl
  | some id =>
    obtain ⟨d, hd, rfl, -⟩ := hk file id ht
    have hm : d ∈ w.trackedDocuments := List.mem_filterMap.mpr
      ⟨id, List.mem_map_of_mem (Table.get?_eq_some_iff.mp ht), hd⟩
    obtain ⟨s, text, hs, text_eq, of⟩ := exists_source hk fits hm
    have perm : (((editsAt w.uriOf newName (c.boundTo name)).get? d.uri).getD []).Perm _ :=
      edits_perm hk fits distinct hm hs
    rw [of.tree_eq] at perm
    have edited := (Grammar.apply_edits perm).2
    have held : w.holdings.text? d.file = some text := by
      rw [Holdings.text?, show w.holdings.tracked.get? d.file = some id from ht, Option.bind_some, hd,
        Option.bind_some, text_eq]
    rw [Option.bind_some, show w.document? id = some d from hd, Option.bind_some, text_eq, Option.map_some,
      edited, Grammar.Reading.renamed, held]
    rfl

theorem pairwise_edits (distinct : (w.trackedDocuments.map Document.uri).Nodup) (uri : String) :
    (((editsAt w.uriOf newName (c.boundTo name)).get? uri).getD []).Pairwise Edit.Disjoint := by
  by_cases known : ∃ d ∈ w.trackedDocuments, d.uri = uri
  · obtain ⟨d, hm, rfl⟩ := known
    obtain ⟨s, text, hs, -, of⟩ := exists_source hk fits hm
    have perm : (((editsAt w.uriOf newName (c.boundTo name)).get? d.uri).getD []).Perm _ :=
      edits_perm hk fits distinct hm hs
    rw [of.tree_eq] at perm
    exact (Grammar.apply_edits perm).1
  · have none : (c.boundTo name).filter (w.uriOf ·.file = uri) = [] := by
      refine List.filter_eq_nil_iff.mpr fun o ho same => known ?_
      obtain ⟨d, hm, file_eq⟩ := exists_document_of_file hk (mem_files_of_bound fits ho)
      exact ⟨d, hm, by rw [← uriOf_eq hk hm, file_eq]; simpa using same⟩
    rw [editsAt, Table.getD_foldl_push, none]
    exact List.Pairwise.nil

end Fitting

/-- Where a compilation is cached and no two documents share a URI, the edits that rename a production do
not reach into one another. With them made, compiling the documents again finds the same under the new
name, as long as this is the name of no production and of no reference yet. -/
theorem rename_run (s : Setup) (rooted : s.host.IsRooted)
    (cast : ∀ c ∈ s.cast, Action.arePassive c.script.actions = true)
    (actions : List Action) (plain : ∀ action ∈ actions, action.isPlain = true)
    (cached : ((ofSetup s).run actions).compilation = some c)
    (distinct : (((ofSetup s).run actions).trackedDocuments.map Document.uri).Nodup)
    (tracked : d ∈ ((ofSetup s).run actions).trackedDocuments) {uri : String}
    (named : s.host.fileName (.reference (.text uri)) = .ok d.file) {line character : Int}
    {o : Occurrence} (found : c.identifierAt d.file line character = some o) {newName : String}
    (isName : IsName newName.toList) (fresh : c.Fresh newName) :
    ∃ edits : Table String (List Edit),
      (((ofSetup s).run actions).turn (.rename uri line character newName)).1.result =
          .ok (.edits edits.entries) ∧
        (∀ uri, ((edits.get? uri).getD []).Pairwise Edit.Disjoint) ∧
        c.Renames o.name newName
          (Compilation.ofFiles (((ofSetup s).run actions).editedTexts edits) 0 c.request none).1 := by
  have resting := (resting_ofSetup s cast).run plain
  have named_files := (resting_ofSetup s cast).named_run plain (named_ofSetup s)
  have normal := resting.isNormal_of_tracked rooted named_files cached
  have host_eq : ((ofSetup s).run actions).host = s.host := resting.quiet.1
  generalize (ofSetup s).run actions = w at *
  have fits := resting.sound.fits rfl c cached
  have genuine := genuine_of_fits fits
  obtain ⟨all_eq, mem⟩ := Compilation.referencesAt_of_identifierAt genuine found
  have loaded : d.file ∈ c.sources.keys := by
    obtain ⟨id, ht, -⟩ := tracked_of_mem resting.known.filed tracked
    exact (fits.keys_iff d.file).mpr (Table.mem_keys_of_get? ht)
  refine ⟨editsAt w.uriOf newName (c.boundTo o.name), ?_, pairwise_edits resting.known fits distinct, ?_⟩
  · have located : ∀ o' ∈ c.boundTo o.name, w.Locates o'.file (w.uriOf o'.file) := by
      intro o' ho'
      have held := mem_files_of_bound fits ho'
      exact locates_of_isNormal resting.known (normal _ held) held
    have answered := (turn_rename resting.known (by rw [host_eq]; exact named) ((fits.keys_iff _).mp loaded)
      (access_of_cached cached) loaded w.uriOf line character newName (by rw [all_eq]; exact located)
      (by rw [all_eq]; exact List.ne_nil_of_mem mem)).1
    rwa [all_eq] at answered
  · have loads := Compilation.loads_ofFiles (w.editedTexts (editsAt w.uriOf newName (c.boundTo o.name))) 0 c.request
    rw [reading_edited resting.known fits distinct] at loads
    have fits_loads := fits.loads
    rw [show w.core.holdings.clientFiles = c.request.roots by rw [fits.request_eq]] at fits_loads
    exact Compilation.renames_of_loads rfl fits_loads loads isName fresh

def lent : Setup := serving [("/b", [120, 58, 61, 39, 98, 39, 59])]

/-- A document imports the file and mentions its name beside a quote that is never closed. -/
def lending : List Action := [.openOnClient "file:///a" "@import 'b';y:=x\"[\"x;"]

set_option maxRecDepth 4000 in
theorem rename_run_lent : ∃ c : Compilation, ((ofSetup lent).run lending).compilation = some c ∧
    c.identifierAt "/a" 0 15 = some ⟨"/a", ⟨"x", ⟨⟨15, 1, 16⟩, ⟨16, 1, 17⟩⟩⟩⟩ ∧
      ∃ edits : Table String (List Edit),
        (((ofSetup lent).run lending).turn (.rename "file:///a" 0 15 "z")).1.result =
            .ok (.edits edits.entries) ∧
          (∀ uri, ((edits.get? uri).getD []).Pairwise Edit.Disjoint) ∧
          c.Renames "x" "z"
            (Compilation.ofFiles (((ofSetup lent).run lending).editedTexts edits) 0 c.request none).1 := by
  obtain ⟨c, cached⟩ : ∃ c, ((ofSetup lent).run lending).compilation = some c :=
    Option.isSome_iff_exists.mp (by decide +kernel)
  have declared : ((ofSetup lent).run lending).compilation.map (·.declarations.keys) = some ["y", "x"] := by
    decide +kernel
  have mentioned : ((ofSetup lent).run lending).compilation.map (·.references.keys) = some ["x"] := by decide +kernel
  have found : ((ofSetup lent).run lending).compilation.bind (·.identifierAt "/a" 0 15) =
      some ⟨"/a", ⟨"x", ⟨⟨15, 1, 16⟩, ⟨16, 1, 17⟩⟩⟩⟩ := by decide +kernel
  rw [cached] at declared mentioned found
  have declared : c.declarations.keys = ["y", "x"] := Option.some.inj declared
  have mentioned : c.references.keys = ["x"] := Option.some.inj mentioned
  have uris : ((ofSetup lent).run lending).trackedDocuments.map Document.uri = ["file:///a", "file:///b"] := by
    decide +kernel
  have tracked : ⟨"/a", "file:///a", some "@import 'b';y:=x\"[\"x;", true, false, true⟩ ∈
      ((ofSetup lent).run lending).trackedDocuments := List.mem_of_getElem? (i := 0) (by decide +kernel)
  have named : lent.host.fileName (.reference (.text "file:///a")) = .ok "/a" := rfl
  exact ⟨c, cached, found, rename_run lent (by intro root given; cases given) (by decide) lending (by decide)
    cached (by rw [uris]; decide) tracked named found (by decide)
    ⟨by rw [declared]; decide, by rw [mentioned]; decide⟩⟩

/-- The edits that rename what is opened under a relative root. -/
def driftedEdits : Table String (List Edit) := editsAt (fun _ => "file:///w/a") "y" drifted

set_option maxRecDepth 4000 in
/-- With a relative root the edits can go to a URI that no document has, and then nothing gets the new
name. -/
theorem renames_astray :
    (drifting.turn (.rename "a" 0 0 "y")).1.result = .ok (.edits driftedEdits.entries) ∧
      driftedEdits.keys = ["file:///w/a"] ∧ drifting.editedTexts driftedEdits = ⟨[("w/a", "x:=x;")], by simp⟩ := by
  obtain ⟨c, cached, loaded, bound⟩ := compiled_drifting
  have named : adrift.host.fileName (.reference (.text "a")) = .ok "w/a" := rfl
  have file_eq : ∀ o ∈ drifted, o.file = "w/a" := by decide
  have answered := (turn_rename resting_drifting.known (by rw [resting_drifting.quiet.1]; exact named)
    (by rw [files_drifting]; decide) (access_of_cached cached) (by rw [loaded]; decide)
    (fun _ => "file:///w/a") 0 0 "y"
    (fun o ho => by rw [file_eq o (bound ▸ ho)]; exact locates_drifting)
    (by rw [bound]; exact List.cons_ne_nil _ _)).1
  rw [bound] at answered
  exact ⟨answered, by decide, Table.ext_entries (by decide +kernel)⟩

end Workspace
end GrammarWorkspace
