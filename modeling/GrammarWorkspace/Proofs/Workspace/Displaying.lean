import GrammarWorkspace.Proofs.Naming.Display
import GrammarWorkspace.Proofs.Workspace.Addressing

/-!
# Where the URIs of documents lead

The client may send back the URI under which it knows a document, and so may reach it again. A URI that the
client or the server has named the document by leads back. One that was made from a path leads back if the
path is absolute, has no backslash and is left as it is by decoding; otherwise it may lead elsewhere, for
it shows the path from the root of all files, with slashes for backslashes.
-/
namespace GrammarWorkspace

open Work (Ends)

namespace Host

variable {host : Host} {file path uri : String}

def LeadsBack (host : Host) (file uri : String) : Prop := host.fileName (.text uri) = .ok file

/-- The URI was made from a path of the file, and does not show it as it is: the path is relative, or has a
backslash, or is changed by decoding. If decoding is not what changes it, the URI leads to the path as it is
shown: from the root of all files, with slashes for backslashes. -/
structure Recasts (host : Host) (path file uri : String) : Prop where
  plain : ¬ Uri.isUri path = true
  named : host.fileName (.text path) = .ok file
  uri_eq : uri = Uri.ofPath path
  changed : Path.isAbsolute path = false ∨ '\\' ∈ path.toList ∨ Text.Percent.decode path.toList ≠ path.toList
  leads : Text.Percent.decode (Uri.slashed path.toList) = Uri.slashed path.toList →
    host.fileName (.text uri) = .ok (Path.normalize (String.ofList (Uri.slashed path.toList)))

theorem leadsBack_or_recasts (plain : ¬ Uri.isUri path = true) (named : host.fileName (.text path) = .ok file) :
    host.LeadsBack file (Uri.ofPath path) ∨ host.Recasts path file (Uri.ofPath path) := by
  have recasts (changed : Path.isAbsolute path = false ∨ '\\' ∈ path.toList ∨
      Text.Percent.decode path.toList ≠ path.toList) : host.Recasts path file (Uri.ofPath path) := by
    refine ⟨plain, named, rfl, changed, fun decoded => ?_⟩
    rw [fileName_ofPath, decoded]
  by_cases absolute : Path.isAbsolute path = true
  · by_cases backward : '\\' ∈ path.toList
    · exact Or.inr (recasts (Or.inr (Or.inl backward)))
    · by_cases decoded : Text.Percent.decode path.toList = path.toList
      · exact Or.inl ((fileName_ofPath_of_isAbsolute host absolute backward decoded).trans named)
      · exact Or.inr (recasts (Or.inr (Or.inr decoded)))
  · exact Or.inr (recasts (Or.inl (Bool.eq_false_iff.mpr absolute)))

/-- The URI leads back to the file, or shows in another way a path by which the file was named: one of those
given, or the file's own. -/
def Displays (host : Host) (given : List String) (file uri : String) : Prop :=
  host.LeadsBack file uri ∨ ∃ path, (path ∈ given ∨ path = file) ∧ host.Recasts path file uri

end Host

/-- Files are in normal form, and URIs display them, if the server opens nothing but texts that are given. -/
def Naming.displaying {host : Host} (rooted : host.IsRooted) (given : List String) : Naming host where
  allows locator := locator ∈ given.map .text
  names := Path.IsNormal
  shows := host.Displays given
  opened locator file u := by
    intro mem named carried
    obtain ⟨name, listed, rfl⟩ := List.mem_map.mp mem
    refine ⟨rooted.isNormal_fileName named, ?_⟩
    have u_eq : (if Uri.isUri name then name else Uri.ofPath name) = u := Except.ok.inj carried
    by_cases looks : Uri.isUri name = true
    · rw [if_pos looks] at u_eq
      exact Or.inl (u_eq ▸ named)
    · rw [if_neg looks] at u_eq
      rw [← u_eq]
      exact (Host.leadsBack_or_recasts looks named).imp_right fun recasts => ⟨name, Or.inl listed, recasts⟩
  sent _ _ named := ⟨rooted.isNormal_fileName named, Or.inl named⟩
  read file u normal carried := by
    have plain : ¬ Uri.isUri file = true := by
      rw [Host.not_isUri_of_isAbsolute normal.isAbsolute]
      exact Bool.false_ne_true
    have u_eq : (if Uri.isUri file then file else Uri.ofPath file) = u := Except.ok.inj carried
    rw [if_neg plain] at u_eq
    rw [← u_eq]
    exact (Host.leadsBack_or_recasts plain (Host.fileName_of_isNormal normal)).imp_right fun recasts =>
      ⟨file, Or.inr rfl, recasts⟩
  imported _ path normal := Path.isNormal_relativeTo normal.isAbsolute path

namespace Workspace

/-- All locators that the server is to open in a session, be it by a listener's script. -/
def Setup.openings (s : Setup) (actions : List Action) : List Locator :=
  s.cast.flatMap (fun c => Action.allOpenings c.script.actions) ++ Action.allOpenings actions

/-- The URIs of the tracked documents display their files, and those that lead back are all different. -/
structure Displays (w : Workspace) (host : Host) (given : List String) : Prop where
  display : ∀ d ∈ w.trackedDocuments, host.Displays given d.file d.uri
  apart : ∀ i ∈ w.tracked.values, ∀ j ∈ w.tracked.values, ∀ d e,
    w.document? i = some d → w.document? j = some e →
    host.LeadsBack d.file d.uri → host.LeadsBack e.file e.uri → d.uri = e.uri → i = j

variable {w : Workspace} {host : Host} {given : List String}

theorem eq_of_leadsBack (filed : w.holdings.Filed) {i j : DocumentId} (hi : i ∈ w.tracked.values)
    (hj : j ∈ w.tracked.values) {d e : Document} (hd : w.document? i = some d) (he : w.document? j = some e)
    (back : host.LeadsBack d.file d.uri) (back' : host.LeadsBack e.file e.uri) (same : d.uri = e.uri) : i = j := by
  have file_eq : d.file = e.file := by
    rw [Host.LeadsBack, same, show host.fileName (.text e.uri) = .ok e.file from back'] at back
    exact (Except.ok.inj back).symm
  have tracked := filed.get?_of_mem_values hi hd
  rw [file_eq, filed.get?_of_mem_values hj he] at tracked
  exact (Option.some.inj tracked).symm

theorem Abides.displays {rooted : host.IsRooted} (hw : w.Abides (Naming.displaying rooted given)) :
    w.Displays host given where
  display d hm := by
    obtain ⟨id, -, hd⟩ := List.mem_filterMap.mp hm
    exact (hw.bears.shown id d hd).2
  apart _ hi _ hj _ _ := eq_of_leadsBack hw.bears.filed hi hj

/-- If relative paths start at an absolute place and the server is told to open texts only, the URI of every
document leads back to it, unless it shows a path that the server was told to open, or that the compiler
came to, in another way. Documents whose URIs lead back do not share them. -/
theorem displays_run (s : Setup) (rooted : s.host.IsRooted) (actions : List Action)
    (texts : s.openings actions = given.map .text) : ((ofSetup s).run actions).Displays s.host given := by
  have start : (ofSetup s).Abides (Naming.displaying rooted given) := by
    apply abides_ofSetup s
    intro c hc locator opens
    have mem : locator ∈ s.openings actions := List.mem_append_left _ (List.mem_flatMap.mpr ⟨c, hc, opens⟩)
    rw [texts] at mem
    exact mem
  have abides : ((ofSetup s).run actions).Abides (Naming.displaying rooted given) := by
    apply start.run actions
    intro locator opens
    have mem : locator ∈ s.openings actions := List.mem_append_right _ opens
    rw [texts] at mem
    exact mem
  exact abides.displays

/-- Files that the server is told to open by paths of all kinds, by the session and by a listener. -/
def scattered : Setup where
  host := ⟨some "/w"⟩
  files := [("/w/rel/a", []), ("/rel/a", []), ("/w/x\\y", []), ("/w/b c", [])]
  reportUnused := false
  hasWatcher := false
  hasClient := false
  cast := [⟨.openedOnClient, none, ⟨1, [.openOnServer (.text "/w/x\\y")]⟩⟩]

def scattering : List Action :=
  [.openOnServer (.text "rel/a"), .openOnServer (.text "/rel/a"), .openOnClient "file:///w/d" "@import 'b c';",
    .sources, .openOnServer (.text "rel/a"), .openOnServer (.text "/rel/a"), .openOnServer (.text "/w/x\\y")]

theorem displays_run_scattering :
    scattered.host.IsRooted ∧
      scattered.openings scattering = ["/w/x\\y", "rel/a", "/rel/a", "rel/a", "/rel/a", "/w/x\\y"].map .text ∧
      ((ofSetup scattered).run scattering).Displays scattered.host
        ["/w/x\\y", "rel/a", "/rel/a", "rel/a", "/rel/a", "/w/x\\y"] := by
  have rooted : scattered.host.IsRooted := by
    intro root given
    cases given
    exact Or.inr (by decide)
  have texts : scattered.openings scattering =
      ["/w/x\\y", "rel/a", "/rel/a", "rel/a", "/rel/a", "/w/x\\y"].map .text := rfl
  exact ⟨rooted, texts, displays_run scattered rooted scattering texts⟩

/-- Relative paths and backslashes lead astray, and two documents come to share a URI. -/
theorem not_leadsBack_scattering :
    ((ofSetup scattered).run scattering).trackedDocuments.map (fun d => (d.file, d.uri)) =
        [("/w/d", "file:///w/d"), ("/w/b c", "file:///w/b%20c"), ("/w/rel/a", "file:///rel/a"),
          ("/rel/a", "file:///rel/a"), ("/w/x\\y", "file:///w/x/y")] ∧
      ¬ scattered.host.LeadsBack "/w/rel/a" "file:///rel/a" ∧
      ¬ scattered.host.LeadsBack "/w/x\\y" "file:///w/x/y" := by
  refine ⟨by decide +kernel, fun back => ?_, fun back => ?_⟩
  · have led : scattered.host.fileName (.text "file:///rel/a") = .ok "/rel/a" := rfl
    rw [Host.LeadsBack, led] at back
    exact absurd (Except.ok.inj back) (by decide)
  · have led : scattered.host.fileName (.text "file:///w/x/y") = .ok "/w/x/y" := rfl
    rw [Host.LeadsBack, led] at back
    exact absurd (Except.ok.inj back) (by decide)

end Workspace
end GrammarWorkspace
