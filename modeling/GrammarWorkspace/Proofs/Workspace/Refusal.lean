import GrammarWorkspace.Proofs.Workspace.Registry

/-!
# Actions on documents are refused or carried out

What can go wrong with an action on a document goes wrong before anything is done: its document has no
name, or its file cannot be read. After that the action is carried out, whatever listeners come to in the
update that it requests. There is one way to fail halfway. When the client closes a document that the
server holds too, a listener that is told of it may have all compiled, and the rebuild may remove the
document first.
-/
namespace GrammarWorkspace

open Work (Ends)

namespace Action

/-- A document is opened or closed, or its text is sent. -/
def isOnDocument : Action → Bool
  | openOnServer _ | closeOnServer _ | openOnClient _ _ | changeOnClient _ _ | closeOnClient _ => true
  | _ => false

end Action

def Fault.of? {α : Type} : Except Fault α → Option Fault
  | .error fault => some fault
  | .ok _ => none

namespace Workspace

/-- Why an action on a document is not carried out. -/
def refusal? (w : Workspace) : Action → Option Fault
  | .openOnServer locator => Fault.of? (w.host.fileName locator >>= w.holdings.stored)
  | .closeOnServer locator => Fault.of? (w.host.fileName locator)
  | .openOnClient uri _ | .closeOnClient uri => Fault.of? (w.host.fileName (.text uri))
  | .changeOnClient uri texts => if texts = [] then none else Fault.of? (w.host.fileName (.text uri))
  | _ => none

/-- Nothing has been done, though a file may have been read. -/
def Unmoved (w w' : Workspace) : Prop := w' = w ∨ ∃ file outcome, w' = w.noting (.read file outcome)

/-- Both sides hold the document of a file that the client closes, and it is gone before the action can
remove it. -/
structure Overtakes (w : Workspace) (uri file : String) (w' : Workspace) : Prop where
  named : w.host.fileName (.text uri) = .ok file
  shared : ∃ d ∈ w.trackedDocuments, d.file = file ∧ d.onClient = true ∧ d.onServer = true
  gone : file ∉ w'.files

inductive Resolves (w : Workspace) : Action → Except Fault Answer → Workspace → Prop
  | refused {action fault w'} : w.refusal? action = some fault → w.Unmoved w' →
      w.Resolves action (.error fault) w'
  | unread {locator w'} : w.refusal? (.openOnServer locator) = none →
      w.given? (.openOnServer locator) = none → w.Unmoved w' →
        w.Resolves (.openOnServer locator) (.ok .nothing) w'
  | opened {locator given file w'} : w.refusal? (.openOnServer locator) = none →
      w.given? (.openOnServer locator) = some given → w.Resolves (.openOnServer locator) (.ok (.text file)) w'
  | done {action w'} : (∀ locator, action ≠ .openOnServer locator) → w.refusal? action = none →
      w.Resolves action (.ok .nothing) w'
  | overtaken {uri file w'} : w.Overtakes uri file w' →
      w.Resolves (.closeOnClient uri) (.error (.untracked file)) w'

end Workspace

open Workspace (Resolves)

namespace Task

variable {F : Frame} {host : Host} {call : Calling} {w : Workspace} {id : DocumentId} {file : String}
  {d : Document} {dropping : List DocumentId}

theorem ends_request_ok (w : Workspace) : Ends (Gate.request (report call)) w fun r _ => r = .ok () := by
  rw [Gate.request, Work.ends_bind, Gate.change, Work.ends_modify, Work.next_ok]
  exact ends_flush _

theorem ends_bind_ok {task : Task Unit} {next : Task Unit} (first : Ends task w fun r _ => r = .ok ())
    (then_ok : ∀ w', Ends next w' fun r _ => r = .ok ()) :
    Ends (task >>= fun _ => next) w fun r _ => r = .ok () := by
  apply first.bind
  · exact fun _ w' _ => then_ok w'
  · intro _ _ failed
    cases failed

theorem ends_tell_ok (isNew hasChanged : Bool) (opened : Option Topic) (w : Workspace) :
    Ends (tell call id isNew hasChanged opened) w fun r _ => r = .ok () := by
  have last (w : Workspace) : Ends (if hasChanged then do
      fire call .contentChanged (some id)
      Gate.request (report call)
      else pure ()) w fun r _ => r = .ok () := by
    cases hasChanged with
    | false => rfl
    | true => exact ends_bind_ok (ends_fire_ok _ _ w) ends_request_ok
  have middle (w : Workspace) : Ends (tellOpened call id opened (if hasChanged then do
      fire call .contentChanged (some id)
      Gate.request (report call)
      else pure ())) w fun r _ => r = .ok () := by
    cases opened with
    | none => exact last w
    | some topic => exact ends_bind_ok (ends_fire_ok topic _ w) last
  cases isNew with
  | false => exact middle w
  | true => exact ends_bind_ok (ends_fire_ok .created _ w) middle

theorem ends_openOnServer_unread {locator : Locator} (hf : w.host.fileName locator = .ok file)
    (unread : ∀ text, w.holdings.stored file ≠ .ok (some text)) :
    Ends (openOnServer call locator) w fun r w' =>
      r = (w.holdings.stored file).map (fun _ => none) ∧ ∃ outcome, w' = w.noting (.read file outcome) := by
  rw [openOnServer]
  apply ends_fileName
  · intro fault unnamed
    rw [hf] at unnamed
    cases unnamed
  · intro file' hf'
    rw [hf] at hf'
    cases hf'
    rw [Work.ends_bind]
    apply ends_readFile_of
    intro outcome
    rcases hs : w.holdings.stored file with fault | _ | text
    · exact ⟨rfl, outcome, rfl⟩
    · exact ⟨rfl, outcome, rfl⟩
    · exact absurd hs (unread text)

theorem ends_openOnServer_read {locator : Locator} {text : String} (filed : w.holdings.Filed)
    (hf : w.host.fileName locator = .ok file) (hs : w.holdings.stored file = .ok (some text)) :
    Ends (openOnServer call locator) w fun r _ => ∃ id, r = .ok (some id) := by
  apply ends_openOnServer_of filed
  · intro fault unnamed
    rw [hf] at unnamed
    cases unnamed
  · intro file' r outcome hf' unread
    rw [hf] at hf'
    cases hf'
    exact absurd hs (unread text)
  · intro file' text' outcome id isNew d h u _ _ _ _
    refine (ends_tell_ok isNew _ _ _).mono ?_
    rintro _ _ rfl
    exact ⟨id, rfl⟩

theorem resolves_openOnServer (filed : w.holdings.Filed) (locator : Locator) :
    Ends (perform call (.openOnServer locator)) w (w.Resolves (.openOnServer locator)) := by
  rw [perform]
  cases hf : w.host.fileName locator with
  | error fault =>
    have refused : w.refusal? (.openOnServer locator) = some fault := by
      rw [Workspace.refusal?, hf]
      rfl
    rw [Work.ends_bind, openOnServer]
    apply ends_fileName
    · intro fault' hf'
      rw [hf] at hf'
      cases hf'
      exact .refused refused (Or.inl rfl)
    · intro file hf'
      rw [hf] at hf'
      cases hf'
  | ok file =>
    have refusal : w.refusal? (.openOnServer locator) = Fault.of? (w.holdings.stored file) := by
      rw [Workspace.refusal?, hf]
      rfl
    by_cases read : ∃ text, w.holdings.stored file = .ok (some text)
    · obtain ⟨text, hs⟩ := read
      rw [hs] at refusal
      have given : w.given? (.openOnServer locator) = some (file, text) :=
        Workspace.given?_openOnServer_iff.mpr ⟨hf, hs⟩
      apply (ends_openOnServer_read filed hf hs).bind
      · rintro _ w' ⟨id, here⟩
        cases here
        exact .opened refusal given
      · rintro _ _ ⟨_, failed⟩
        cases failed
    · have unread : ∀ text, w.holdings.stored file ≠ .ok (some text) := fun text hs => read ⟨text, hs⟩
      have given : w.given? (.openOnServer locator) = none := by
        apply Workspace.given?_openOnServer_eq_none
        intro other hf' text
        rw [hf] at hf'
        cases hf'
        exact unread text
      have ended : Ends (openOnServer call locator) w fun r w' =>
          r = (w.holdings.stored file).map (fun _ => none) ∧
            ∃ outcome, w' = w.noting (.read file outcome) := ends_openOnServer_unread hf unread
      rcases hs : w.holdings.stored file with fault | _ | text
      · rw [hs] at refusal ended
        apply ended.bind
        · rintro _ _ ⟨done, -⟩
          cases done
        · rintro _ w' ⟨failed, outcome, rfl⟩
          cases failed
          exact .refused refusal (Or.inr ⟨file, outcome, rfl⟩)
      · rw [hs] at refusal ended
        apply ended.bind
        · rintro _ w' ⟨done, outcome, rfl⟩
          cases done
          exact .unread refusal given (Or.inr ⟨file, outcome, rfl⟩)
        · rintro _ _ ⟨failed, -⟩
          cases failed
      · exact absurd hs (unread text)

theorem ends_updateOnClient_resolved (filed : w.holdings.Filed) (u text : String) :
    Ends (updateOnClient call u text) w fun r w' =>
      (∃ fault, w.host.fileName (.text u) = .error fault ∧ r = .error fault ∧ w' = w) ∨
        Fault.of? (w.host.fileName (.text u)) = none ∧ r = .ok () := by
  apply ends_updateOnClient_of filed
  · exact fun fault hf => Or.inl ⟨fault, hf, rfl, rfl⟩
  · intro file id isNew d h hf _
    refine (ends_tell_ok isNew _ _ _).mono fun r _ told => Or.inr ⟨?_, told⟩
    rw [hf]
    rfl

theorem resolves_updateOnClient (filed : w.holdings.Filed) {action : Action} {u : String} (text : String)
    (other : ∀ locator, action ≠ .openOnServer locator)
    (refusal : w.refusal? action = Fault.of? (w.host.fileName (.text u))) :
    Ends (do updateOnClient call u text; return Answer.nothing) w (w.Resolves action) := by
  apply (ends_updateOnClient_resolved filed u text).bind
  · rintro _ w' (⟨fault, -, failed, -⟩ | ⟨named, -⟩)
    · cases failed
    · exact .done other (refusal.trans named)
  · rintro fault w' (⟨fault', unnamed, failed, rfl⟩ | ⟨-, done⟩)
    · cases failed
      refine .refused (refusal.trans ?_) (Or.inl rfl)
      rw [unnamed]
      rfl
    · cases done

/-- One side has let go of a document. Unless it is the client and the server holds the document still,
the document is there to be removed. -/
theorem ends_letGo_calm (calm : Calm F call) (topic : Topic) (hq : F.Quiet w) (hs : w.core.Sound dropping)
    (ht : w.holdings.tracked.get? file = some id) (hd : w.holdings.document? id = some d) (hf : d.file = file) :
    Ends (letGo call topic id) w fun r w' =>
      r = .ok () ∨ d.onServer = true ∧ r = .error (.untracked file) ∧ w'.holdings.tracked.get? file = none := by
  apply ends_letGo_of (P := fun e w' => w.Drifts F dropping w' ∧ e.file = file)
  · apply ends_fire calm hq hs
    intro w' drifts
    obtain ⟨e, he, lasts⟩ := drifts.core.later.document id d hd
    exact ⟨rfl, e, he, drifts, lasts.file_eq.trans hf⟩
  · exact fun _ _ _ _ => Or.inl rfl
  · rintro e w' ⟨drifts, here⟩ he closed
    apply ends_remove_of he
    · rw [here]
      intro untracked
      refine Or.inr ⟨?_, rfl, untracked⟩
      by_contra unheld
      have kept := drifts.core.later.kept file id d ht hd (Or.inr (Bool.eq_false_iff.mpr unheld))
      have gone : w'.core.holdings.tracked.get? file = none := untracked
      rw [kept] at gone
      cases gone
    · intro _ _
      exact (ends_bind_ok (ends_fire_ok _ _ _) ends_request_ok).mono fun _ _ ok => Or.inl ok

theorem ends_releaseOnServer_ok (calm : Calm (.readers host) call) (hr : w.Resting (.readers host))
    (ht : w.holdings.tracked.get? file = some id) :
    Ends (releaseOnServer call id) w fun r _ => r = .ok () := by
  apply ends_releaseOnServer_of
  · rfl
  · intro d hd hs
    obtain ⟨e, he, hf, -⟩ := hr.known file id ht
    rw [hd] at he
    cases he
    have known : (w.holdings.revise id ({ · with onServer := false })).Known [id] :=
      Holdings.known_revise (hr.known.mono (List.nil_subset _)) (fun _ _ => rfl)
        (fun _ _ hx => Option.isSome_iff_exists.mp hx) fun _ _ _ => Or.inr List.mem_cons_self
    have sound : (w.serverClosed id d).core.Sound [id] := Core.sound_dropping hr.sound known
    have quiet : (Frame.readers host).Quiet (w.serverClosed id d) := hr.quiet
    refine (ends_letGo_calm calm .closedOnServer quiet sound ht (Workspace.document?_serverClosed hd) hf).mono ?_
    rintro r w' (ok | ⟨held, -⟩)
    · exact ok
    · cases held

theorem resolves_closeOnServer (calm : Calm (.readers host) call) (hr : w.Resting (.readers host))
    (locator : Locator) :
    Ends (perform call (.closeOnServer locator)) w (w.Resolves (.closeOnServer locator)) := by
  have other : ∀ l, Action.closeOnServer locator ≠ .openOnServer l := fun _ same => by cases same
  rw [perform, closeOnServer, Work.ends_bind]
  apply ends_find
  · intro fault unnamed
    refine .refused ?_ (Or.inl rfl)
    rw [Workspace.refusal?, unnamed]
    rfl
  · intro file hf
    have accepted : w.refusal? (.closeOnServer locator) = none := by
      rw [Workspace.refusal?, hf]
      rfl
    cases ht : w.tracked.get? file with
    | none => exact .done other accepted
    | some id =>
      refine (ends_releaseOnServer_ok calm hr ht).mono ?_
      rintro _ w' rfl
      exact .done other accepted

theorem resolves_closeOnClient (calm : Calm (.readers host) call) (hr : w.Resting (.readers host)) (u : String) :
    Ends (perform call (.closeOnClient u)) w (w.Resolves (.closeOnClient u)) := by
  have other : ∀ l, Action.closeOnClient u ≠ .openOnServer l := fun _ same => by cases same
  have accepted {file : String} (hf : w.host.fileName (.text u) = .ok file) :
      w.refusal? (.closeOnClient u) = none := by
    rw [Workspace.refusal?, hf]
    rfl
  rw [perform, Work.ends_bind]
  apply ends_closeOnClient_of hr.known.filed
  · intro fault unnamed
    refine .refused ?_ (Or.inl rfl)
    rw [Workspace.refusal?, unnamed]
    rfl
  · exact fun file hf _ => .done other (accepted hf)
  · intro file id d hf ht hd here hc
    have sound : (w.clientClosed id d).core.Sound (if d.onServer then [] else [id]) := by
      rw [Workspace.core_clientClosed hr.phase_eq]
      exact Core.sound_stale hr.sound (Holdings.known_release hr.known hd)
    have quiet : (Frame.readers host).Quiet (w.clientClosed id d) := hr.quiet
    refine (ends_letGo_calm calm .closedOnClient quiet sound ht (Workspace.document?_clientClosed hd) here).mono ?_
    rintro r w' (rfl | ⟨held, rfl, gone⟩)
    · exact .done other (accepted hf)
    · refine .overtaken ⟨hf, ⟨d, Workspace.mem_of_tracked ht hd, here, hc, held⟩, ?_⟩
      exact (Table.get?_eq_none_iff).mp gone

/-- Every action on a document is refused, comes to nothing, or is done, unless it is overtaken. -/
theorem resolves_perform (calm : Calm (.readers host) call) (hr : w.Resting (.readers host)) {action : Action}
    (onDocument : action.isOnDocument = true) : Ends (perform call action) w (w.Resolves action) := by
  cases action with
  | openOnServer locator => exact resolves_openOnServer hr.known.filed locator
  | closeOnServer locator => exact resolves_closeOnServer calm hr locator
  | openOnClient u text => exact resolves_updateOnClient hr.known.filed text (fun _ same => by cases same) rfl
  | changeOnClient u texts =>
    have other : ∀ l, Action.changeOnClient u texts ≠ .openOnServer l := fun _ same => by cases same
    rw [perform, changeOnClient]
    cases last : texts.getLast? with
    | none =>
      refine .done other ?_
      rw [Workspace.refusal?, if_pos (List.getLast?_eq_none_iff.mp last)]
    | some text =>
      apply resolves_updateOnClient hr.known.filed text other
      rw [Workspace.refusal?, if_neg]
      rintro rfl
      cases last
  | closeOnClient u => exact resolves_closeOnClient calm hr u
  | _ => cases onDocument

end Task

namespace Workspace

variable {w : Workspace} {action : Action}

/-- A failure leaves all as it was, and so does an opening that opens nothing. -/
structure Atomic (w : Workspace) (action : Action) : Prop where
  failed : ∀ fault, (w.turn action).1.result = .error fault → w.Unmoved (w.turn action).2
  unopened : ∀ locator, action = .openOnServer locator → (w.turn action).1.result = .ok .nothing →
    w.Unmoved (w.turn action).2

/-- In any state that listeners who only read have part in, an action on a document fails just if it is
refused, an opening that is not refused opens nothing just if there is nothing to read, and in both cases
all is left as it was. Only a client's closing may find that the document is gone, if the server held it
too. -/
theorem atomic_or_overtaken (s : Setup) (cast : ∀ c ∈ s.cast, Action.arePassive c.script.actions = true)
    (actions : List Action) (plain : ∀ action ∈ actions, action.isPlain = true) (action : Action)
    (onDocument : action.isOnDocument = true) :
    ((((ofSetup s).run actions).Atomic action ∧
        (∀ fault, (((ofSetup s).run actions).turn action).1.result = .error fault ↔
          ((ofSetup s).run actions).refusal? action = some fault) ∧
        ∀ locator, action = .openOnServer locator → ((ofSetup s).run actions).refusal? action = none →
          ((((ofSetup s).run actions).turn action).1.result = .ok .nothing ↔
            ((ofSetup s).run actions).given? action = none)) ∨
      ∃ uri file, action = .closeOnClient uri ∧
        (((ofSetup s).run actions).turn action).1.result = .error (.untracked file) ∧
        ((ofSetup s).run actions).Overtakes uri file (((ofSetup s).run actions).turn action).2) := by
  have resting : ((ofSetup s).run actions).Resting (.readers s.host) := (resting_ofSetup s cast).run plain
  generalize (ofSetup s).run actions = w at resting ⊢
  have settled : w.Resolves action (w.turn action).1.result (w.turn action).2 :=
    Task.resolves_perform (Task.calm_call (w.restlessness + action.weight + 1)) resting onDocument
  generalize hr : (w.turn action).1.result = r at settled ⊢
  generalize hw : (w.turn action).2 = w' at settled ⊢
  cases settled with
  | @refused _ fault _ refused unmoved =>
    refine Or.inl ⟨⟨fun _ _ => hw ▸ unmoved, fun _ _ _ => hw ▸ unmoved⟩, fun fault' => ?_, fun _ _ accepted => ?_⟩
    · rw [refused]
      simp
    · rw [refused] at accepted
      cases accepted
  | unread accepted nothing unmoved =>
    refine Or.inl ⟨⟨fun _ _ => hw ▸ unmoved, fun _ _ _ => hw ▸ unmoved⟩, fun fault => ?_, fun locator same _ => ?_⟩
    · rw [accepted]
      simp
    · cases same
      rw [nothing]
      exact iff_of_true rfl rfl
  | opened accepted given =>
    refine Or.inl ⟨⟨fun _ failed => ?_, fun _ _ unopened => ?_⟩, fun fault => ?_, fun locator same _ => ?_⟩
    · rw [hr] at failed
      cases failed
    · rw [hr] at unopened
      cases unopened
    · rw [accepted]
      simp
    · cases same
      rw [given]
      simp
  | done other accepted =>
    refine Or.inl ⟨⟨fun _ failed => ?_, fun l same => absurd same (other l)⟩, fun fault => ?_, fun l same => ?_⟩
    · rw [hr] at failed
      cases failed
    · rw [accepted]
      simp
    · exact absurd same (other l)
  | overtaken overtakes => exact Or.inr ⟨_, _, rfl, rfl, overtakes⟩

/-- A file on disk, and a listener that has all compiled when the client lets go of a document. -/
def inquisitive : Setup where
  host := ⟨none⟩
  files := [("/a", []), ("/b", [])]
  reportUnused := false
  hasWatcher := false
  hasClient := false
  cast := [⟨.closedOnClient, none, ⟨1, [.compile]⟩⟩]

/-- Both sides hold a document, and reads of another file fail. -/
def shared : Workspace :=
  (ofSetup inquisitive).run
    [.openOnServer (.text "/a"), .openOnClient "file:///a" "", .setFailing "/b" true]

theorem atomic_or_overtaken_unreadable :
    (∃ fault, (shared.turn (.openOnServer (.text "/b"))).1.result = .error fault) ∧
      shared.Unmoved (shared.turn (.openOnServer (.text "/b"))).2 := by
  have refused : (shared.refusal? (.openOnServer (.text "/b"))).isSome = true := by decide +kernel
  obtain ⟨fault, here⟩ := Option.isSome_iff_exists.mp refused
  have ended := atomic_or_overtaken inquisitive (by decide)
    [.openOnServer (.text "/a"), .openOnClient "file:///a" "", .setFailing "/b" true] (by decide)
    (.openOnServer (.text "/b")) rfl
  rcases ended with ⟨atomic, fails_iff, -⟩ | ⟨_, _, other, -⟩
  · have failed := (fails_iff fault).mpr here
    exact ⟨⟨fault, failed⟩, atomic.failed fault failed⟩
  · cases other

set_option maxRecDepth 4000 in
/-- What the listener has compiled needs the document no more, so it is gone when it is to be removed. -/
theorem not_atomic_closed : ¬ shared.Atomic (.closeOnClient "file:///a") := by
  intro atomic
  have failed : (Fault.of? (shared.turn (.closeOnClient "file:///a")).1.result).isSome = true := by
    decide +kernel
  have before : "/a" ∈ shared.files := by decide +kernel
  have after : "/a" ∉ (shared.turn (.closeOnClient "file:///a")).2.files := by decide +kernel
  have unread (o : Observation) : (shared.noting o).files = shared.files := by
    rw [files, files, noting]
  cases result : (shared.turn (.closeOnClient "file:///a")).1.result with
  | ok answer =>
    rw [result] at failed
    cases failed
  | error fault =>
    rcases atomic.failed fault result with same | ⟨file, outcome, same⟩
    · rw [same] at after
      exact after before
    · rw [same, unread] at after
      exact after before

end Workspace
end GrammarWorkspace
