import GrammarWorkspace.Proofs.Naming.Carrying
import GrammarWorkspace.Proofs.Workspace.Addressing
import GrammarWorkspace.Proofs.Workspace.Exactness
import GrammarWorkspace.Proofs.Workspace.Provenance

/-!
# Documents that requests are about

A notification passes the URI of its document as a text, a request carries it. If the text reads alike, a
request is about the document of the notification until that document is removed, whatever is done meanwhile
and whatever listeners do. If it does not, a document that the client has open may be one that no request
finds.
-/
namespace GrammarWorkspace

open Work (Ends Along Inside)

namespace Work

variable {σ α β : Type} {s : σ} {work work' : Work σ α}

def SameAt (s : σ) (work work' : Work σ α) : Prop := work.run.run s = work'.run.run s

theorem SameAt.bind (h : SameAt s work work') (next : α → Work σ β) :
    SameAt s (work >>= next) (work' >>= next) := by
  change (ExceptT.bindCont next (work.run.run s).1).run (work.run.run s).2 =
    (ExceptT.bindCont next (work'.run.run s).1).run (work'.run.run s).2
  rw [show work.run.run s = work'.run.run s from h]

/-- Work that comes to a value and leaves the state alone is the same as coming to the value at once. -/
theorem sameAt_pure_iff {a : α} : SameAt s work (pure a) ↔ Ends work s fun r s' => r = .ok a ∧ s' = s :=
  Prod.ext_iff

end Work

open Work (SameAt)

namespace Task

def compiledAt (call : Calling) (id : DocumentId) : Task (Option (String × Grammar.Compilation)) := do
  let file := (← document id).file
  let c ← compilation call
  return if (c.source? file).isSome then some (file, c) else none

def declarationPlaces (line character : Int) : Option (String × Grammar.Compilation) → Task (List Place)
  | none => return []
  | some (file, c) => (c.declarationsAt file line character).mapM place

def referencePlaces (line character : Int) (withDeclaration : Bool) :
    Option (String × Grammar.Compilation) → Task (List Place)
  | none => return []
  | some (file, c) => (c.referencesAt file line character withDeclaration).mapM place

def renameEdits (line character : Int) (newName : String) :
    Option (String × Grammar.Compilation) → Task (Option (Table String (List Edit)))
  | none => return none
  | some (file, c) => do
    let occurrences := c.referencesAt file line character true
    if occurrences.isEmpty then return none
    let places ← occurrences.mapM place
    return some (places.foldl (fun edits p => edits.push p.uri ⟨p.range, newName⟩) {})

variable {w : Workspace} {call : Calling} {u : String} {id : DocumentId} {line character : Int}

theorem compiledDocument_eq : compiledDocument call u =
    find (.reference (.text u)) >>= (Option.elim · (return none) (compiledAt call)) := by
  refine bind_congr fun found => ?_
  cases found <;> rfl

theorem definition_eq : definition call u line character =
    compiledDocument call u >>= declarationPlaces line character := by
  refine bind_congr fun found => ?_
  cases found <;> rfl

theorem references_eq {withDeclaration : Bool} : references call u line character withDeclaration =
    compiledDocument call u >>= referencePlaces line character withDeclaration := by
  refine bind_congr fun found => ?_
  cases found <;> rfl

theorem rename_eq {newName : String} : rename call u line character newName =
    compiledDocument call u >>= renameEdits line character newName := by
  refine bind_congr fun found => ?_
  cases found <;> rfl

theorem sameAt_compiledDocument (found : SameAt w (find (.reference (.text u))) (pure (some id))) :
    SameAt w (compiledDocument call u) (compiledAt call id) := by
  rw [compiledDocument_eq]
  exact found.bind _

end Task

namespace Workspace

/-- Requests with this URI are about this document: it is what they find, and they start from what was
compiled of it. -/
structure Inquires (w : Workspace) (u : String) (id : DocumentId) : Prop where
  found : SameAt w (Task.find (.reference (.text u))) (pure (some id))
  definition : ∀ call line character, SameAt w (Task.definition call u line character)
    (Task.compiledAt call id >>= Task.declarationPlaces line character)
  references : ∀ call line character withDeclaration,
    SameAt w (Task.references call u line character withDeclaration)
      (Task.compiledAt call id >>= Task.referencePlaces line character withDeclaration)
  rename : ∀ call line character newName, SameAt w (Task.rename call u line character newName)
    (Task.compiledAt call id >>= Task.renameEdits line character newName)

variable {w w' : Workspace} {u file : String} {id : DocumentId}

theorem inquires_of_tracked (named : w.host.fileName (.reference (.text u)) = .ok file)
    (tracked : w.tracked.get? file = some id) : w.Inquires u id := by
  have found : SameAt w (Task.find (.reference (.text u))) (pure (some id)) := by
    have finds : Ends (Task.find (.reference (.text u)) >>= pure) w fun r w' => r = .ok (some id) ∧ w' = w := by
      apply Task.ends_find
      · intro fault failed
        rw [named] at failed
        cases failed
      · intro file' named'
        rw [named] at named'
        cases named'
        rw [tracked]
        exact ⟨rfl, rfl⟩
    rw [bind_pure] at finds
    exact Work.sameAt_pure_iff.mpr finds
  refine ⟨found, fun call line character => ?_, fun call line character withDeclaration => ?_,
    fun call line character newName => ?_⟩
  · rw [Task.definition_eq]
    exact (Task.sameAt_compiledDocument found).bind _
  · rw [Task.references_eq]
    exact (Task.sameAt_compiledDocument found).bind _
  · rw [Task.rename_eq]
    exact (Task.sameAt_compiledDocument found).bind _

def Lasts (w w' : Workspace) : Prop := ∀ id file, w.fileOf? id = some file → w'.fileOf? id = some file

instance : IsPreorder Workspace Lasts where
  refl _ _ _ here := here
  trans _ _ _ h h' id file here := h' id file (h id file here)

theorem lasts_run (w : Workspace) (actions : List Action) : w.Lasts (w.run actions) := (Tends.run w actions).files

theorem fileOf?_eq_some {d : Document} (hd : w.holdings.document? id = some d) : w.fileOf? id = some d.file :=
  congrArg (Option.map Document.file) hd

end Workspace

namespace Task

open Workspace (Lasts)

variable {w : Workspace} {u file text : String} {depth : Nat}

theorem lasting_call (depth : Nat) (listener : Listener) (topic : Topic) (about : Option DocumentId) :
    Along Lasts (Task.call depth listener topic about) :=
  (heeding_call depth listener topic about).mono fun _ _ tends => tends.files

theorem lasting_tell (id : DocumentId) (isNew hasChanged : Bool) (opened : Option Topic) :
    Along Lasts (tell (Task.call depth) id isNew hasChanged opened) := by
  have passes (m : Moment) : Along Lasts (pass m) := fun _ _ _ here => here
  have fires (topic : Topic) (about : Option DocumentId) : Along Lasts (fire (Task.call depth) topic about) :=
    along_fire passes (lasting_call depth) topic about
  have ignored : Gate.Ignored Lasts := fun _ _ _ _ here => here
  exact along_tell Inside.self (fires _ _) (fun topic _ => fires topic _) (fires _ _)
    (Gate.along_request ignored (fires .updated none))

/-- What the client sends goes to a document of the file, which is there afterwards. -/
theorem ends_updateOnClient_receiver (filed : w.holdings.Filed) (named : w.host.fileName (.text u) = .ok file) :
    Ends (updateOnClient (Task.call depth) u text) w fun _ w' => w'.fileOf? (w.receiver file) = some file := by
  apply ends_updateOnClient_of filed
  · intro fault failed
    rw [named] at failed
    cases failed
  · intro file' id isNew d h named' p
    rw [named] at named'
    cases named'
    have receives : w.receiver file = id := by
      cases p with
      | found ht _ => exact congrArg (Option.getD · w.documents.length) ht
      | made new => exact congrArg (Option.getD · w.documents.length) new
    have here : ((w.clientOpened h id d u text).outdated (d.text ≠ some text)).fileOf? id = some file := by
      have held := Workspace.fileOf?_eq_some (Workspace.document?_clientOpened p u text)
      rw [← p.file_eq filed]
      exact held
    rw [receives]
    exact (lasting_tell id isNew _ _ _).mono fun _ _ lasts => lasts id file here

end Task

/-- The client opens a document under this URI, or sends its new text. -/
inductive Action.Notifies (u : String) : Action → Prop
  | opened (text : String) : Notifies u (.openOnClient u text)
  | changed {texts : List String} (sent : texts ≠ []) : Notifies u (.changeOnClient u texts)

namespace Workspace

variable {w : Workspace} {u file : String} {action : Action}

theorem fileOf?_receiver_turn (filed : w.holdings.Filed) (named : w.host.fileName (.text u) = .ok file)
    (notifies : action.Notifies u) : (w.turn action).2.fileOf? (w.receiver file) = some file := by
  have answer {task : Task Unit} (h : Ends task w fun _ w' => w'.fileOf? (w.receiver file) = some file) :
      Ends (do task; return Answer.nothing) w fun _ w' => w'.fileOf? (w.receiver file) = some file :=
    h.bind (fun _ _ here => here) fun _ _ here => here
  cases notifies with
  | opened text =>
    have performed : Ends (Task.perform (Task.call (w.restlessness + Action.weight (.openOnClient u text) + 1))
        (.openOnClient u text)) w fun _ w' => w'.fileOf? (w.receiver file) = some file :=
      answer (Task.ends_updateOnClient_receiver filed named)
    exact performed
  | @changed texts sent =>
    have sends : Ends (Task.changeOnClient (Task.call (w.restlessness + Action.weight (.changeOnClient u texts) + 1))
        u texts) w fun _ w' => w'.fileOf? (w.receiver file) = some file := by
      rw [Task.changeOnClient, List.getLast?_eq_some_getLast sent]
      exact Task.ends_updateOnClient_receiver filed named
    have performed : Ends (Task.perform (Task.call (w.restlessness + Action.weight (.changeOnClient u texts) + 1))
        (.changeOnClient u texts)) w fun _ w' => w'.fileOf? (w.receiver file) = some file := answer sends
    exact performed

end Workspace

def Naming.free (host : Host) : Naming host where
  allows _ := True
  names _ := True
  shows _ _ := True
  opened _ _ _ _ _ _ := ⟨trivial, trivial⟩
  sent _ _ _ := ⟨trivial, trivial⟩
  read _ _ _ _ := trivial
  imported _ _ _ := trivial

namespace Workspace

variable {u file : String} {notice : Action}

/-- Whatever listeners do, the host stays the same, and tracked documents are filed under their own files. -/
theorem filed_run (s : Setup) (actions : List Action) :
    ((ofSetup s).run actions).host = s.host ∧ ((ofSetup s).run actions).holdings.Filed := by
  have start : (ofSetup s).Abides (Naming.free s.host) := abides_ofSetup s fun _ _ _ _ => trivial
  have abides := start.run actions fun _ _ => trivial
  exact ⟨abides.host_eq, abides.bears.filed⟩

/-- A notification with a URI that reads alike has a document, and from then on the requests with the same
URI are about this document, until it is removed. -/
theorem inquires_run (s : Setup) (alike : Host.ReadsAlike u) (named : s.host.fileName (.text u) = .ok file)
    (before : List Action) (notifies : notice.Notifies u) (after : List Action) :
    s.host.fileName (.reference (.text u)) = .ok file ∧
      ((ofSetup s).run (before ++ notice :: after)).fileOf? (((ofSetup s).run before).receiver file) = some file ∧
      (((ofSetup s).run before).receiver file ∈ ((ofSetup s).run (before ++ notice :: after)).tracked.values →
        ((ofSetup s).run (before ++ notice :: after)).Inquires u (((ofSetup s).run before).receiver file)) := by
  have carried : s.host.fileName (.reference (.text u)) = .ok file := (alike.fileName_eq s.host).trans named
  obtain ⟨host_eq, filed⟩ := filed_run s before
  obtain ⟨host_eq', filed'⟩ := filed_run s (before ++ notice :: after)
  have here : ((ofSetup s).run (before ++ notice :: after)).fileOf? (((ofSetup s).run before).receiver file) =
      some file := by
    rw [run_append]
    exact lasts_run _ after _ _ (fileOf?_receiver_turn filed (host_eq ▸ named) notifies)
  refine ⟨carried, here, fun tracked => ?_⟩
  obtain ⟨d, hd, file_eq⟩ := Option.map_eq_some_iff.mp here
  have ht := filed'.get?_of_mem_values tracked hd
  rw [file_eq] at ht
  exact inquires_of_tracked (host_eq' ▸ carried) ht

/-- A listener meddles with another document whenever a text changes. -/
def addressed : Setup where
  host := ⟨some "/w"⟩
  files := [("/w/b", [])]
  reportUnused := false
  hasWatcher := true
  hasClient := true
  cast := [⟨.contentChanged, none, ⟨2, [.openOnServer (.text "b"), .closeOnClient "file:///w/b"]⟩⟩]

/-- The client changes a document that it names by a path, with a detour, and opens and closes another. -/
def winding : Workspace :=
  (ofSetup addressed).run ([.openOnClient "file:///w/b" "y:='y';"] ++
    .changeOnClient "c/../a" ["", "x:=x;"] :: [.closeOnClient "file:///w/b", .compile])

theorem inquires_run_winding :
    Host.ReadsAlike "c/../a" ∧ addressed.host.fileName (.text "c/../a") = .ok "/w/a" ∧
      Action.Notifies "c/../a" (.changeOnClient "c/../a" ["", "x:=x;"]) ∧
      1 ∈ winding.tracked.values ∧ winding.Inquires "c/../a" 1 := by
  have alike : Host.ReadsAlike "c/../a" := Or.inr rfl
  have named : addressed.host.fileName (.text "c/../a") = .ok "/w/a" := rfl
  have notifies : Action.Notifies "c/../a" (.changeOnClient "c/../a" ["", "x:=x;"]) := .changed (by decide)
  have receives : ((ofSetup addressed).run [.openOnClient "file:///w/b" "y:='y';"]).receiver "/w/a" = 1 := by
    decide +kernel
  have tracked : 1 ∈ winding.tracked.values := by decide +kernel
  have inquires := (inquires_run addressed alike named [.openOnClient "file:///w/b" "y:='y';"] notifies
    [.closeOnClient "file:///w/b", .compile]).2.2
  rw [receives] at inquires
  exact ⟨alike, named, notifies, tracked, inquires tracked⟩

/-- The client has opened a document that is not on disk yet. -/
def untitled : Workspace :=
  (ofSetup { addressed with cast := [] }).run [.openOnClient "untitled:Untitled-1" "x:=x;"]

/-- The document is tracked as that of a path, but requests look for another path. -/
theorem not_inquires_untitled :
    addressed.host.fileName (.text "untitled:Untitled-1") = .ok "/w/untitled:Untitled-1" ∧
      addressed.host.fileName (.reference (.text "untitled:Untitled-1")) = .ok "/w/Untitled-1" ∧
      untitled.tracked.get? "/w/untitled:Untitled-1" = some 0 ∧ ¬ untitled.Inquires "untitled:Untitled-1" 0 := by
  have carried : addressed.host.fileName (.reference (.text "untitled:Untitled-1")) = .ok "/w/Untitled-1" := rfl
  have tracked : untitled.tracked.get? "/w/untitled:Untitled-1" = some 0 := by decide +kernel
  have missing : untitled.tracked.get? "/w/Untitled-1" = none := by decide +kernel
  have host_eq : untitled.host = addressed.host := (filed_run { addressed with cast := [] } _).1
  refine ⟨rfl, carried, tracked, fun inquires => ?_⟩
  have finds : Ends (Task.find (.reference (.text "untitled:Untitled-1")) >>= pure) untitled
      fun r _ => r = .ok none := by
    apply Task.ends_find
    · intro fault failed
      rw [host_eq, carried] at failed
      cases failed
    · intro file named
      rw [host_eq, carried] at named
      cases named
      rw [missing]
      rfl
  rw [bind_pure] at finds
  have found : Ends (Task.find (.reference (.text "untitled:Untitled-1"))) untitled fun r _ => r = .ok (some 0) :=
    (Work.sameAt_pure_iff.mp inquires.found).mono fun _ _ here => here.1
  have same : (Except.ok none : Except Fault (Option DocumentId)) = .ok (some 0) := finds.symm.trans found
  cases same

end Workspace
end GrammarWorkspace
