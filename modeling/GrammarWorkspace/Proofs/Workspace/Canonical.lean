import GrammarWorkspace.Proofs.Naming.Normal
import GrammarWorkspace.Proofs.Workspace.Addressing

/-!
# Names that stand for themselves

A file goes by one name: an absolute path that is no URI and leads back to itself. What a locator stands for
has such a name, and so has all that the compiler comes to from there. So the locators of a client and the
imports of a text meet in one document.
-/
namespace GrammarWorkspace

open Grammar (Compilation Source)
open Work (Ends)

namespace Host

variable {host : Host} {file : String} {locator : Locator}

structure Keeps (host : Host) (file : String) : Prop where
  isAbsolute : Path.isAbsolute file = true
  not_isUri : Uri.isUri file = false
  named : host.fileName (.text file) = .ok file

theorem keeps_of_isNormal (normal : Path.IsNormal file) : host.Keeps file :=
  ⟨normal.isAbsolute, not_isUri_of_isAbsolute normal.isAbsolute, fileName_of_isNormal normal⟩

theorem IsRooted.keeps_fileName (rooted : host.IsRooted) (named : host.fileName locator = .ok file) :
    host.Keeps file := keeps_of_isNormal (rooted.isNormal_fileName named)

theorem Keeps.relativeTo (h : host.Keeps file) (path : String) : host.Keeps (Path.relativeTo file path) :=
  keeps_of_isNormal (Path.isNormal_relativeTo h.isAbsolute path)

end Host

def Naming.canonical {host : Host} (rooted : host.IsRooted) : Naming host where
  allows _ := True
  names := host.Keeps
  shows _ _ := True
  opened _ _ _ _ named _ := ⟨rooted.keeps_fileName named, trivial⟩
  sent _ _ named := ⟨rooted.keeps_fileName named, trivial⟩
  read _ _ _ _ := trivial
  imported _ path kept := kept.relativeTo path

inductive Grammar.TakesTurn {σ : Type} (read : String → Work σ (Option String))
    (sourceOf : String → String → Source) (file : String) (u : σ) : Table String Source → List String → σ → Prop where
  | here {loaded queue} : file ∉ loaded.keys → TakesTurn read sourceOf file u loaded (file :: queue) u
  | known {loaded f queue s} : f ∈ loaded.keys → TakesTurn read sourceOf file u loaded queue s →
      TakesTurn read sourceOf file u loaded (f :: queue) s
  | missing {loaded f queue s s'} : f ∉ loaded.keys → (read f).run.run s = (.ok none, s') →
      TakesTurn read sourceOf file u loaded queue s' → TakesTurn read sourceOf file u loaded (f :: queue) s
  | load {loaded f queue s s' t} : f ∉ loaded.keys → (read f).run.run s = (.ok (some t), s') →
      TakesTurn read sourceOf file u (loaded.insert f (sourceOf f t)) (queue ++ (sourceOf f t).targets) s' →
      TakesTurn read sourceOf file u loaded (f :: queue) s

/-- Only names of the queue, and of the imports of what is loaded, have a turn. -/
theorem Grammar.TakesTurn.names {σ : Type} {read : String → Work σ (Option String)}
    {sourceOf : String → String → Source} {names : String → Prop} {file : String} {s u : σ}
    {loaded : Table String Source} {queue : List String} (turn : TakesTurn read sourceOf file u loaded queue s)
    (files : ∀ file text, (sourceOf file text).file = file)
    (imported : ∀ file path, names file → names (Path.relativeTo file path)) (queued : ∀ f ∈ queue, names f) :
    names file := by
  induction turn with
  | here _ => exact queued _ List.mem_cons_self
  | known _ _ ih | missing _ _ _ ih => exact ih (List.forall_mem_cons.mp queued).2
  | @load loaded f queue s s' text _ _ _ ih =>
    obtain ⟨first, others⟩ := List.forall_mem_cons.mp queued
    apply ih
    rw [List.forall_mem_append]
    refine ⟨others, fun target hm => ?_⟩
    obtain ⟨i, -, rfl⟩ := List.mem_map.mp hm
    apply imported
    rw [files]
    exact first

namespace Workspace

variable {host : Host} {n : Naming host} {w u : Workspace} {depth : Nat} {file : String}

def ComesTo (v : Workspace) (depth : Nat) (file : String) (u : Workspace) : Prop :=
  Ends Task.markRoots v.counted fun r v' => ∃ roots, r = .ok roots ∧
    Grammar.TakesTurn (Task.fetch (Task.call depth) v.begun) (Compilation.sourceOf v.begun v'.previous) file u {}
      roots v'

/-- A rebuild that begins here loads the compilation, with listeners at work inside one another down to a depth. -/
def Makes (v : Workspace) (depth : Nat) (c : Compilation) : Prop :=
  Ends (Task.loadAnew (Task.call depth)) v fun r _ => r = .ok c

/-- In a rebuild that begins here, all that is asked for has a name of this kind. -/
theorem Abides.names_of_comesTo (hw : w.Abides n) (comes : w.ComesTo depth file u) : n.names file := by
  have counted : w.counted.Abides n := hw.of_same rfl rfl rfl rfl rfl rfl rfl
  obtain ⟨⟨hw', named⟩, roots, answered, turn⟩ := (Task.ends_markRoots_abides counted).and comes
  have files := Grammar.Compilation.file_sourceOf fun c made => hw'.compiled c (Or.inr made)
  exact turn.names (files _) n.imported (named roots answered)

/-- The document of a file, as all ways to the file find it: a locator, an operation that would make a
document if there were none, and the compiler, which is given the text and marks the document. -/
structure Meets (w : Workspace) (file : String) (id : DocumentId) (d : Document) : Prop where
  document : w.document? id = some d
  file_eq : d.file = file
  found : ∀ locator, w.host.fileName locator = .ok file → Ends (Task.find locator) w fun r w' =>
    r = .ok (some id) ∧ w' = w
  entered : Ends (Task.getOrCreate file) w fun r w' => r = .ok (id, false) ∧ w' = w
  read : ∀ call, Ends (Task.readForCompiler call file) w fun r w' =>
    r = .ok d.text ∧ w'.document? id = some { d with isMarked := true }

theorem meets_of_tracked (filed : w.holdings.Filed) {id : DocumentId} (tracked : w.tracked.get? file = some id) :
    ∃ d, w.Meets file id d := by
  obtain ⟨d, hd, file_eq⟩ := filed file id tracked
  refine ⟨d, hd, file_eq, fun locator named => ?_, ?_, fun call => ?_⟩
  · rw [← bind_pure (Task.find locator)]
    apply Task.ends_find
    · intro fault failed
      rw [named] at failed
      cases failed
    · intro other named'
      rw [named] at named'
      cases named'
      rw [tracked]
      exact ⟨rfl, rfl⟩
  · rw [Task.getOrCreate, Work.ends_bind, Work.ends_get, Work.next_ok, tracked]
    exact ⟨rfl, rfl⟩
  · rw [Task.readForCompiler, Work.ends_bind, Work.ends_get, Work.next_ok, tracked]
    dsimp only
    rw [pure_bind]
    change Ends (Task.give id) w _
    rw [Task.ends_give_of hd]
    refine ⟨rfl, ?_⟩
    change (w.holdings.revise id _).document? id = _
    rw [Holdings.document?_revise, if_pos rfl, hd, Option.map_some]

/-- All names stand for themselves: those of all documents that have ever been tracked, of what was read from
disk, of what the compiler asks for when it begins here, and of what is compiled. Each file that is tracked
has one document, where all ways to it meet. -/
structure IsCanonical (w : Workspace) (host : Host) : Prop where
  meets : ∀ file id, w.tracked.get? file = some id → ∃ d, w.Meets file id d
  documents : ∀ d ∈ w.documents, host.Keeps d.file
  read : ∀ file outcome, .read file outcome ∈ w.record → host.Keeps file
  asked : ∀ depth file u, w.ComesTo depth file u → host.Keeps file
  compiled : ∀ c, (w.compilation = some c ∨ w.previous = some c ∨ ∃ depth, w.Makes depth c) →
    ∀ file source, c.source? file = some source → source.file = file ∧ host.Keeps file

theorem Abides.isCanonical {rooted : host.IsRooted} (hw : w.Abides (Naming.canonical rooted)) :
    w.IsCanonical host where
  meets _ _ tracked := meets_of_tracked hw.bears.filed tracked
  documents d hm := by
    obtain ⟨id, hd⟩ := List.mem_iff_getElem?.mp hm
    exact (hw.bears.shown id d hd).1
  read := hw.read
  asked _ _ _ := hw.names_of_comesTo
  compiled c made := by
    rcases made with kept | kept | ⟨depth, makes⟩
    · exact hw.compiled c (Or.inl kept)
    · exact hw.compiled c (Or.inr kept)
    · exact (Task.ends_loadAnew_abides (Task.abiding_call depth) hw).2 c makes

/-- If relative paths start at an absolute place, whatever a locator stands for has a name that stands for
itself, and so has whatever a path leads to from there; and in every session all names are of this kind. -/
theorem isCanonical_run (s : Setup) (rooted : s.host.IsRooted) (actions : List Action) :
    (∀ locator file, s.host.fileName locator = .ok file → s.host.Keeps file) ∧
      (∀ file, s.host.Keeps file → ∀ path, s.host.Keeps (Path.relativeTo file path)) ∧
      ((ofSetup s).run actions).host = s.host ∧ ((ofSetup s).run actions).IsCanonical s.host := by
  have start : (ofSetup s).Abides (Naming.canonical rooted) := abides_ofSetup s fun _ _ _ _ => trivial
  have abides : ((ofSetup s).run actions).Abides (Naming.canonical rooted) :=
    start.run actions fun _ _ => trivial
  exact ⟨fun _ _ => rooted.keeps_fileName, fun _ => Host.Keeps.relativeTo, abides.host_eq, abides.isCanonical⟩

/-- A listener for which the client opens a document by a roundabout way when another one comes up. -/
def meandering : Setup where
  host := ⟨some "/w/"⟩
  files := [("/b", []), ("//s/b", []), ("/w/x", []), ("/w/x/file:/c", [])]
  reportUnused := false
  hasWatcher := true
  hasClient := false
  cast := [⟨.openedOnServer, none, ⟨1, [.openOnClient "file:///w/x/.././/y" ""]⟩⟩]

/-- The client's document imports by paths that go too far up, are doubled at the front, are empty, or look
like URIs; and the client and the server come to the same files. -/
def meanders : List Action :=
  [.openOnClient "file:///w/./x/../x/a"
      "@import '../../../../b'; @import '//s/../s/b'; @import ''; @import 'file:/c';",
    .sources, .openOnClient "file:///w/../b" "", .openOnServer (.reference (.text "file://s/b"))]

theorem isCanonical_run_meanders :
    meandering.host.IsRooted ∧
      ((ofSetup meandering).run meanders).files = ["/w/x/a", "/b", "/w/y", "//s/b", "/w/x", "/w/x/file:/c"] ∧
      (∀ locator file, meandering.host.fileName locator = .ok file → meandering.host.Keeps file) ∧
      (∀ file, meandering.host.Keeps file → ∀ path, meandering.host.Keeps (Path.relativeTo file path)) ∧
      ((ofSetup meandering).run meanders).host = meandering.host ∧
      ((ofSetup meandering).run meanders).IsCanonical meandering.host := by
  have rooted : meandering.host.IsRooted := by
    intro root given
    cases given
    exact Or.inr (by decide)
  exact ⟨rooted, by decide +kernel, isCanonical_run meandering rooted meanders⟩

end Workspace
end GrammarWorkspace
