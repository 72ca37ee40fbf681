import GrammarWorkspace.Proofs.Workspace.Operation

/-!
# Coherence of the cached compilation

A cached compilation is what compiling the tracked documents anew would give. It is so after every
operation of every session whose listeners only read, however they make the compilation be rebuilt
in the middle of an operation, and whatever happens to the files on disk between operations.
-/
namespace GrammarWorkspace

open Grammar (Compilation Loads Source)

namespace Workspace

def texts (w : Workspace) : Table String String :=
  w.tracked.filterMap fun id => (w.document? id).bind Document.text

/-- The compilation of the tracked documents from some roots, with nothing taken over from an earlier
one. -/
def compiledFrom (w : Workspace) (roots : List String) : Compilation :=
  (Compilation.ofFiles w.texts 0 ⟨roots, w.reportUnused⟩ none).1

def anew (w : Workspace) : Compilation := w.compiledFrom w.holdings.clientFiles

/-- Everybody tracked is held and has a text, and a cached compilation is that of the tracked
documents. -/
structure Coherent (w : Workspace) : Prop where
  filed : w.trackedDocuments.map Document.file = w.files
  held : ∀ d ∈ w.trackedDocuments, d.isOpen = true ∧ ∃ text, d.text = some text
  synced : w.compilation = none ↔ w.roots = none
  roots_eq : ∀ c, w.compilation = some c →
    c.request.roots = (w.trackedDocuments.filter Document.onClient).map Document.file ∧
      w.roots = some c.request.roots
  keys_iff : ∀ c, w.compilation = some c → ∀ file, file ∈ c.sources.keys ↔ file ∈ w.files
  text_eq : ∀ c, w.compilation = some c → ∀ d ∈ w.trackedDocuments,
    (c.source? d.file).map Source.text = d.text
  declarations_eq : ∀ c, w.compilation = some c → c.declarations = w.anew.declarations
  references_eq : ∀ c, w.compilation = some c → c.references = w.anew.references
  diagnosticsFor_eq : ∀ c, w.compilation = some c → ∀ file,
    c.diagnosticsFor file = w.anew.diagnosticsFor file

variable {w : Workspace}

theorem alike_compiledFrom {c : Compilation} (reportUnused_eq : c.request.reportUnused = w.reportUnused)
    (loads : Loads (fun file => .ok (w.holdings.text? file)) {} c.request.roots c.sources) :
    c.Alike (w.compiledFrom c.request.roots) := by
  have reading_eq : Compilation.readingOf w.texts = fun file => .ok (w.holdings.text? file) := by
    funext file
    rw [Compilation.readingOf, texts, Table.get?_filterMap]
    rfl
  have anew := Compilation.loads_ofFiles w.texts 0 ⟨c.request.roots, w.reportUnused⟩
  rw [reading_eq] at anew
  exact ⟨reportUnused_eq, loads.unsigned_eq anew rfl⟩

theorem alike_anew {c : Compilation} (fits : w.core.Fits c) : c.Alike w.anew := by
  have roots_eq : c.request.roots = w.holdings.clientFiles :=
    congrArg Grammar.Request.roots fits.request_eq
  have alike := alike_compiledFrom (c := c) (congrArg Grammar.Request.reportUnused fits.request_eq)
    (by rw [roots_eq]; exact fits.loads)
  rw [roots_eq] at alike
  exact alike

theorem Resting.coherent {F : Frame} (hr : w.Resting F) : w.Coherent where
  filed := map_file_trackedDocuments hr.known.filed
  held d hm := by
    obtain ⟨id, ht, hd⟩ := tracked_of_mem hr.known.filed hm
    obtain ⟨e, he, -, hx, ho⟩ := hr.known d.file id ht
    rw [hd] at he
    cases he
    exact ⟨ho.resolve_right (by simp), hx⟩
  synced := hr.sound.synced
  roots_eq c hc := by
    have fits := hr.sound.fits rfl c hc
    rw [fits.request_eq]
    exact ⟨rfl, fits.roots_eq⟩
  keys_iff c hc := (hr.sound.fits rfl c hc).keys_iff
  text_eq c hc d hm := by
    have fits := hr.sound.fits rfl c hc
    obtain ⟨id, ht, hd⟩ := tracked_of_mem hr.known.filed hm
    obtain ⟨s, hs⟩ := Table.mem_keys_iff.mp ((fits.keys_iff d.file).mpr (Table.mem_keys_of_get? ht))
    obtain ⟨text, hx, of⟩ := fits.loads.source_is_of hs
    rw [Compilation.source?, hs, Option.map_some, of.text_eq]
    have : w.holdings.text? d.file = d.text := by simp [Holdings.text?, ht, hd]
    rw [← this]
    exact (Except.ok.inj hx).symm
  declarations_eq c hc := (alike_anew (hr.sound.fits rfl c hc)).declarations_eq
  references_eq c hc := (alike_anew (hr.sound.fits rfl c hc)).references_eq
  diagnosticsFor_eq c hc := (alike_anew (hr.sound.fits rfl c hc)).diagnosticsFor_eq

/-- After any operations, the cached compilation is coherent with the documents. -/
theorem coherent_run (s : Setup) (cast : ∀ c ∈ s.cast, Action.arePassive c.script.actions = true)
    (actions : List Action) (plain : ∀ action ∈ actions, action.isPlain = true) :
    ((ofSetup s).run actions).Coherent :=
  ((resting_ofSetup s cast).run plain).coherent

/-- Two files, and a listener that asks for the compilation whenever a document is created. -/
def nested : Setup where
  host := ⟨none⟩
  files := [("/b", [])]
  reportUnused := true
  hasWatcher := false
  hasClient := false
  cast := [⟨.created, none, ⟨2, [.sources]⟩⟩]

set_option maxRecDepth 4000 in
theorem coherent_run_nested :
    ((ofSetup nested).run [.openOnClient "/a" "@import 'b';"]).Coherent ∧
      (((ofSetup nested).run [.openOnClient "/a" "@import 'b';"]).compilation.map
        (·.sources.keys)) = some ["/a", "/b"] :=
  ⟨coherent_run nested (by decide) _ (by decide), by decide +kernel⟩

end Workspace
end GrammarWorkspace
