import GrammarWorkspace.Proofs.Workspace.Registry

/-!
# Where texts come from

A document has the text that the client has sent last, and keeps it when the client closes the document
while the server holds it. Only the server's opening the document puts the text of the file in its place;
a document of which the client has sent nothing has the text of its file.
-/
namespace GrammarWorkspace

open Work (Ends Along Inside Keeping)

abbrev Mail := DocumentId → Option String

namespace Action

def keepsDisk : Action → Bool
  | write _ _ | delete _ | setFailing _ _ => false
  | _ => true

def sent? : Action → String → Option String
  | openOnServer _, _ => none
  | _, text => some text

end Action

namespace Workspace

/-- The document that is given a text for a file: the tracked one, or else a new one. -/
def receiver (w : Workspace) (file : String) : DocumentId := (w.tracked.get? file).getD w.documents.length

/-- The client's texts after one more action. What a document is given now replaces what the client has sent
for it before. -/
def mailed (w : Workspace) (mail : Mail) (action : Action) : Mail :=
  match w.given? action with
  | some (file, text) => Function.update mail (w.receiver file) (action.sent? text)
  | none => mail

/-- The client's texts after a run: what the client has sent for each document since the server has opened it
last. -/
def mail (w : Workspace) (before : Mail) : List Action → Mail
  | [] => before
  | action :: rest => (w.turn action).2.mail (w.mailed before action) rest

def Passive (w : Workspace) : Prop := ∀ s ∈ w.scripts, Action.arePassive s.actions = true

structure Sourced (w : Workspace) (mail : Mail) : Prop where
  passive : w.Passive
  filed : w.holdings.Filed
  sent : ∀ id text, mail id = some text → ∃ d, w.holdings.document? id = some d ∧ d.text = some text
  read : ∀ file id d, w.holdings.tracked.get? file = some id → w.holdings.document? id = some d →
    mail id = none → ∃ text, d.text = some text ∧ w.holdings.stored file = .ok (some text)

/-- Texts are as they were, and so is the disk. Documents that are new have the text of their file. -/
structure Retains (w w' : Workspace) : Prop where
  stored_eq : w'.holdings.stored = w.holdings.stored
  document : ∀ id d, w.holdings.document? id = some d →
    ∃ d', w'.holdings.document? id = some d' ∧ d'.file = d.file ∧ d'.text = d.text
  found : ∀ file id, w'.holdings.tracked.get? file = some id → w.holdings.tracked.get? file = some id ∨
    ∃ d text, w'.holdings.document? id = some d ∧ d.file = file ∧ d.text = some text ∧
      w.holdings.stored file = .ok (some text)

variable {w w' w'' : Workspace} {mail : Mail} {id : DocumentId} {file : String}

theorem Retains.of_same (holdings : w'.holdings = w.holdings) : w.Retains w' where
  stored_eq := by rw [holdings]
  document id d hd := by
    rw [holdings]
    exact ⟨d, hd, rfl, rfl⟩
  found file id ht := by
    rw [holdings] at ht
    exact Or.inl ht

theorem Retains.trans (h : w.Retains w') (h' : w'.Retains w'') : w.Retains w'' where
  stored_eq := h'.stored_eq.trans h.stored_eq
  document id d hd := by
    obtain ⟨d', hd', file, text⟩ := h.document id d hd
    obtain ⟨d'', hd'', file', text'⟩ := h'.document id d' hd'
    exact ⟨d'', hd'', file'.trans file, text'.trans text⟩
  found file id ht := by
    rcases h'.found file id ht with ht | ⟨d, text, hd, hf, hx, read⟩
    · rcases h.found file id ht with ht | ⟨d, text, hd, hf, hx, read⟩
      · exact Or.inl ht
      · obtain ⟨d', hd', file_eq, text_eq⟩ := h'.document id d hd
        exact Or.inr ⟨d', text, hd', file_eq.trans hf, text_eq.trans hx, read⟩
    · rw [h.stored_eq] at read
      exact Or.inr ⟨d, text, hd, hf, hx, read⟩

instance : IsPreorder Workspace Retains where
  refl _ := .of_same rfl
  trans _ _ _ h h' := h.trans h'

abbrev Retaining : Workspace → Workspace → Prop := Keeping Passive Retains

theorem retaining_of_same (scripts : w'.scripts = w.scripts) (holdings : w'.holdings = w.holdings) :
    Retaining w w' := by
  intro hw
  refine ⟨?_, .of_same holdings⟩
  rw [Passive, scripts]
  exact hw

theorem peruses_retaining : Peruses Passive Retains where
  passive _ hw := hw
  noted _ _ _ := retaining_of_same rfl rfl
  answered _ _ := retaining_of_same rfl rfl
  listening _ _ _ _ passive _ := ⟨passive, .of_same rfl⟩

theorem ignored_retaining : Gate.Ignored Retaining := fun _ _ => retaining_of_same rfl rfl

theorem retains_revise {f : Document → Document} (holdings : w'.holdings = w.holdings.revise id f)
    (same : ∀ d, (f d).file = d.file ∧ (f d).text = d.text) : w.Retains w' where
  stored_eq := by
    rw [holdings]
    rfl
  document other d hd := by
    rw [holdings]
    exact Holdings.revise_induction (P := fun _ d d' => d'.file = d.file ∧ d'.text = d.text)
      (fun d _ => same d) (fun _ _ => ⟨rfl, rfl⟩) hd
  found file other ht := by
    rw [holdings] at ht
    exact Or.inl ht

theorem retains_forget (holdings : w'.holdings = w.holdings.forget file) : w.Retains w' where
  stored_eq := by
    rw [holdings]
    rfl
  document other d hd := by
    rw [holdings]
    exact ⟨d, hd, rfl, rfl⟩
  found other id ht := by
    rw [holdings, Holdings.forget, Table.get?_erase] at ht
    split at ht
    · cases ht
    · exact Or.inl ht

theorem retains_serverOpened {text : String} (new : w.holdings.tracked.get? file = none)
    (read : w.holdings.stored file = .ok (some text)) (u : String) :
    w.Retains (w.serverOpened (w.holdings.add (.new file)) w.documents.length (.new file) u text) where
  stored_eq := rfl
  document id d hd := by
    have made : w.holdings.Provides file w.documents.length true (.new file) (w.holdings.add (.new file)) :=
      .made new
    exact ⟨d, made.document?_revise_of_ne (made.ne_of_made hd) hd, rfl, rfl⟩
  found other id ht := by
    replace ht : (w.holdings.add (.new file)).tracked.get? other = some id := ht
    rw [Holdings.tracked_add] at ht
    split at ht
    · rename_i here
      subst here
      cases ht
      exact Or.inr ⟨_, text, document?_serverOpened (.made new) u text, rfl, rfl, read⟩
    · exact Or.inl ht

end Workspace

open Workspace (Retaining Retains)

namespace Task

variable {call : Calling} {depth : Nat}

abbrev Retained {α : Type} (task : Task α) : Prop := Along Retaining task

theorem retained_mark (id : DocumentId) (mark : Document → Bool) :
    Retained (update id fun d => { d with isMarked := mark d }) := fun _ hw =>
  ⟨hw, Workspace.retains_revise rfl fun _ => ⟨rfl, rfl⟩⟩

theorem retained_pass (m : Moment) : Retained (pass m) := fun _ => Workspace.retaining_of_same rfl rfl

section

variable (calls : ∀ listener topic about, Retained (call listener topic about))

include calls

theorem retained_report : Retained (report call) := along_fire retained_pass calls .updated none

theorem retained_request : Retained (Gate.request (report call)) :=
  Gate.along_request Workspace.ignored_retaining (retained_report calls)

theorem retained_readForCompiler (file : String) : Retained (readForCompiler call file) := by
  apply along_readForCompiler
  · exact fun id => retained_mark id fun _ => true
  · exact fun _ _ => Workspace.retaining_of_same rfl rfl
  · intro w text u _ new read
    have opened : Retaining w
        (w.serverOpened (w.holdings.add (.new file)) w.documents.length (.new file) u text) :=
      fun hw => ⟨hw, Workspace.retains_serverOpened new read u⟩
    have told := (along_fire retained_pass calls .created (some w.documents.length)).bind fun _ =>
      along_fire retained_pass calls .openedOnServer (some w.documents.length)
    exact (told _).mono fun _ _ h => trans_of Retaining opened h

/-- A document that goes keeps its text, though nobody can find it any longer. -/
theorem retained_remove (id : DocumentId) : Retained (remove call id) := by
  refine (along_document id).bind fun d => Work.along_get_bind fun w => ?_
  split
  · exact ((retained_pass _).bind fun _ => Work.along_throw _) w
  · have gone : Retaining w (w.forgetting d.file) := fun hw => ⟨hw, Workspace.retains_forget rfl⟩
    have rest : Retained (do
        fire call .closed (some id)
        Gate.request (report call)) :=
      (along_fire retained_pass calls .closed (some id)).bind fun _ => retained_request calls
    rw [Work.ends_bind, Work.ends_set, Work.next_ok, Work.ends_bind, ends_invalidate_iff, Work.next_ok]
    exact (rest (w.forgetting d.file)).mono fun _ _ h => trans_of Retaining gone h

theorem retained_letGo (topic : Topic) (id : DocumentId) : Retained (letGo call topic id) := by
  refine (along_fire retained_pass calls topic (some id)).bind fun _ => (along_document id).bind fun d => ?_
  split
  · exact retained_remove calls id
  · exact Work.along_pure ()

theorem retained_releaseOnServer (id : DocumentId) : Retained (releaseOnServer call id) := by
  intro w
  apply ends_releaseOnServer_of
  · exact refl_of Retaining w
  · intro d _ _
    have released : Retaining w (w.serverClosed id d) := fun hw =>
      ⟨hw, Workspace.retains_revise rfl fun _ => ⟨rfl, rfl⟩⟩
    exact (retained_letGo calls .closedOnServer id _).mono fun _ _ h => trans_of Retaining released h

theorem retained_rebuild : Retained (rebuild call) := by
  apply along_rebuild Workspace.ignored_retaining (retained_report calls)
  · apply along_loadAnew
    · exact fun id => retained_mark id Document.onClient
    · exact fun _ => Workspace.retaining_of_same rfl rfl
    · exact fun _ _ => Workspace.retaining_of_same rfl rfl
    · exact retained_readForCompiler calls
  · exact fun _ _ _ => Workspace.retaining_of_same rfl rfl
  · exact retained_releaseOnServer calls

end

theorem retained_call (depth : Nat) (listener : Listener) (topic : Topic) (about : Option DocumentId) :
    Retained (Task.call depth listener topic about) :=
  along_call Workspace.peruses_retaining (fun _ => retained_rebuild) depth listener topic about

end Task

namespace Workspace

variable {w w' : Workspace} {mail : Mail} {action : Action} {id : DocumentId} {file text : String}
  {h : Holdings} {d : Document} {isNew : Bool}

theorem Sourced.retains (hw : w.Sourced mail) (h : Retaining w w') : w'.Sourced mail := by
  obtain ⟨passive, retains⟩ := h hw.passive
  constructor
  case passive => exact passive
  case filed =>
    intro file id ht
    rcases retains.found file id ht with ht | ⟨d, text, hd, hf, -⟩
    · obtain ⟨d, hd, hf⟩ := hw.filed file id ht
      obtain ⟨d', hd', same, -⟩ := retains.document id d hd
      exact ⟨d', hd', same.trans hf⟩
    · exact ⟨d, hd, hf⟩
  case sent =>
    intro id text own
    obtain ⟨d, hd, hx⟩ := hw.sent id text own
    obtain ⟨d', hd', -, same⟩ := retains.document id d hd
    exact ⟨d', hd', same.trans hx⟩
  case read =>
    intro file id d' ht hd' unsent
    rw [retains.stored_eq]
    -- A document that was not tracked before comes from the compiler, which has read its file.
    rcases retains.found file id ht with ht | ⟨d, text, hd, -, hx, read⟩
    · obtain ⟨d, hd, -⟩ := hw.filed file id ht
      obtain ⟨e, he, -, same⟩ := retains.document id d hd
      rw [hd'] at he
      cases he
      obtain ⟨text, hx, read⟩ := hw.read file id d ht hd unsent
      exact ⟨text, same.trans hx, read⟩
    · rw [hd'] at hd
      cases hd
      exact ⟨text, hx, read⟩

theorem mailed_of_not (given : w.given? action = none) : w.mailed mail action = mail := by
  rw [mailed, given]

theorem mailed_of_given (p : w.holdings.Provides file id isNew d h)
    (given : w.given? action = some (file, text)) :
    w.mailed mail action = Function.update mail id (action.sent? text) := by
  have receives : w.receiver file = id := by
    cases p with
    | found ht _ => exact congrArg (Option.getD · w.documents.length) ht
    | made new => exact congrArg (Option.getD · w.documents.length) new
  rw [mailed, given, ← receives]

/-- A document is given a text by the client, or by the server, which has it from the file. -/
theorem Sourced.give {f : Document → Document} (hw : w.Sourced mail)
    (p : w.holdings.Provides file id isNew d h) (given : w.given? action = some (file, text))
    (giver : action.sent? text = some text ∨ action.sent? text = none ∧ w.holdings.stored file = .ok (some text))
    (scripts : w'.scripts = w.scripts) (holdings : w'.holdings = h.revise id f)
    (written : ∀ e, (f e).file = e.file ∧ (f e).text = some text) : w'.Sourced (w.mailed mail action) := by
  have here : w'.holdings.document? id = some (f d) := by
    rw [holdings, Holdings.document?_revise, if_pos rfl, p.document?_eq, Option.map_some]
  have elsewhere {other : DocumentId} {e : Document} (apart : other ≠ id)
      (he : w.holdings.document? other = some e) : w'.holdings.document? other = some e := by
    rw [holdings]
    exact p.document?_revise_of_ne apart he
  have filed : w'.holdings.Filed := by
    rw [holdings]
    exact (p.filed hw.filed).revise fun e _ => (written e).1
  rw [mailed_of_given p given]
  constructor
  case passive =>
    rw [Passive, scripts]
    exact hw.passive
  case filed => exact filed
  case sent =>
    intro other t own
    by_cases same : other = id
    · subst same
      rw [Function.update_self] at own
      rcases giver with client | ⟨server, -⟩
      · rw [client] at own
        cases own
        exact ⟨f d, here, (written d).2⟩
      · rw [server] at own
        cases own
    · rw [Function.update_of_ne same] at own
      obtain ⟨e, he, hx⟩ := hw.sent other t own
      exact ⟨e, elsewhere same he, hx⟩
  case read =>
    intro place other e ht he unsent
    have stored : w'.holdings.stored = w.holdings.stored := by
      rw [holdings]
      exact p.stored_eq
    have ht' : h.tracked.get? place = some other := by
      rw [holdings] at ht
      exact ht
    rw [stored]
    by_cases same : other = id
    · subst same
      rw [here] at he
      cases he
      rw [Function.update_self] at unsent
      rcases giver with client | ⟨-, read⟩
      · rw [client] at unsent
        cases unsent
      · have placed : place = file := (p.filed hw.filed).file_unique ht' p.tracked_eq
        subst placed
        exact ⟨text, (written d).2, read⟩
    · -- The document of another file: it was tracked before, with the same text.
      rw [Function.update_of_ne same] at unsent
      have before := p.tracked_of_ne same ht'
      obtain ⟨e', he', -⟩ := hw.filed place other before
      rw [elsewhere same he'] at he
      cases he
      exact hw.read place other e before he' unsent

end Workspace

namespace Task

variable {w : Workspace} {mail : Mail} {depth : Nat}

theorem retained_tell (id : DocumentId) (isNew hasChanged : Bool) (opened : Option Topic) :
    Retained (tell (Task.call depth) id isNew hasChanged opened) := by
  have fires (topic : Topic) : Retained (fire (Task.call depth) topic (some id)) :=
    along_fire retained_pass (retained_call depth) topic _
  exact along_tell Inside.self (fires _) (fun topic _ => fires topic) (fires _)
    (retained_request (retained_call depth))

theorem ends_openOnServer_sourced (locator : Locator) (hw : w.Sourced mail) :
    Ends (openOnServer (Task.call depth) locator) w fun _ w' =>
      w'.Sourced (w.mailed mail (.openOnServer locator)) := by
  apply ends_openOnServer_of hw.filed
  · intro fault unnamed
    rw [Workspace.mailed_of_not]
    · exact hw
    · apply Workspace.given?_openOnServer_eq_none
      intro file named
      rw [unnamed] at named
      cases named
  · intro file r outcome named unread
    rw [Workspace.mailed_of_not]
    · exact hw.retains (Workspace.retaining_of_same rfl rfl)
    · apply Workspace.given?_openOnServer_eq_none
      intro file' named'
      rw [named] at named'
      cases named'
      exact unread
  · intro file text outcome id isNew d h u named _ read p
    have given := Workspace.given?_openOnServer_iff.mpr ⟨named, read⟩
    have opened : (((w.noting (.read file outcome)).serverOpened h id d u text).outdated
        (d.text ≠ some text)).Sourced (w.mailed mail (.openOnServer locator)) :=
      hw.give p given (Or.inr ⟨rfl, read⟩) rfl rfl fun _ => ⟨rfl, rfl⟩
    exact (retained_tell id isNew _ _ _).mono fun _ _ told => opened.retains told

theorem ends_updateOnClient_sourced {action : Action} {u text : String} (hw : w.Sourced mail)
    (own : action.sent? text = some text) (gives : w.given? action = w.given? (.openOnClient u text)) :
    Ends (updateOnClient (Task.call depth) u text) w fun _ w' => w'.Sourced (w.mailed mail action) := by
  apply ends_updateOnClient_of hw.filed
  · intro fault unnamed
    rw [Workspace.mailed_of_not]
    · exact hw
    · exact gives.trans (Workspace.given?_openOnClient_eq_none unnamed text)
  · intro file id isNew d h named p
    have given : w.given? action = some (file, text) :=
      gives.trans (Workspace.given?_openOnClient_iff.mpr ⟨named, rfl⟩)
    have opened : ((w.clientOpened h id d u text).outdated (d.text ≠ some text)).Sourced
        (w.mailed mail action) := hw.give p given (Or.inl own) rfl rfl fun _ => ⟨rfl, rfl⟩
    exact (retained_tell id isNew _ _ _).mono fun _ _ told => opened.retains told

theorem ends_closeOnClient_sourced (u : String) (hw : w.Sourced mail) :
    Ends (closeOnClient (Task.call depth) u) w fun _ w' => w'.Sourced mail := by
  apply ends_closeOnClient_of hw.filed
  · exact fun _ _ => hw
  · exact fun _ _ _ => hw
  · intro file id d _ _ _ _ _
    have released : Retaining w (w.clientClosed id d) := fun passive =>
      ⟨passive, Workspace.retains_revise rfl fun _ => ⟨rfl, rfl⟩⟩
    exact (retained_letGo (retained_call depth) .closedOnClient id _).mono fun _ _ told =>
      (hw.retains released).retains told

theorem retained_closeOnServer (locator : Locator) : Retained (closeOnServer (Task.call depth) locator) := by
  refine (along_find locator).bind fun found => ?_
  cases found with
  | none => exact Work.along_pure ()
  | some id => exact retained_releaseOnServer (retained_call depth) id

theorem retained_dispose : Retained dispose := by
  intro w passive
  refine ⟨passive, rfl, fun id d hd => ⟨d, hd, rfl, rfl⟩, fun file id ht => ?_⟩
  cases ht

theorem ends_perform_sourced (action : Action) (plain : action.isPlain = true) (still : action.keepsDisk = true)
    (hw : w.Sourced mail) :
    Ends (perform (Task.call depth) action) w fun _ w' => w'.Sourced (w.mailed mail action) := by
  have reports := retained_report (retained_call depth)
  have keeping {action : Action} (given : w.given? action = none) (h : Retained (perform (Task.call depth) action)) :
      Ends (perform (Task.call depth) action) w fun _ w' => w'.Sourced (w.mailed mail action) := by
    rw [Workspace.mailed_of_not given]
    exact (h w).mono fun _ _ told => hw.retains told
  have answer {mail' : Mail} {α : Type} {task : Task α} {give : α → Task Answer}
      (h : Ends task w fun _ w' => w'.Sourced mail') (hn : ∀ a, Retained (give a)) :
      Ends (task >>= give) w fun _ w' => w'.Sourced mail' :=
    h.bind (fun a w' hw' => (hn a w').mono fun _ _ told => hw'.retains told) fun _ _ hw' => hw'
  by_cases passive : action.isPassive = true
  · apply keeping
    · cases action <;> first | rfl | cases passive
    · exact along_perform_passive Workspace.peruses_retaining (retained_rebuild (retained_call depth)) action passive
  · cases action with
    | openOnServer locator =>
      apply answer (ends_openOnServer_sourced locator hw)
      intro found
      cases found with
      | none => exact Work.along_pure _
      | some id => exact (along_document id).bind fun _ => Work.along_pure _
    | closeOnServer locator =>
      exact keeping rfl ((retained_closeOnServer locator).bind fun _ => Work.along_pure _)
    | openOnClient u text =>
      exact answer (ends_updateOnClient_sourced hw rfl rfl) fun _ => Work.along_pure _
    | changeOnClient u texts =>
      apply answer _ fun _ => Work.along_pure _
      rw [changeOnClient]
      cases last : texts.getLast? with
      | none =>
        rw [Workspace.mailed_of_not]
        · exact hw
        · rw [Workspace.given?_changeOnClient, last, Option.bind_none]
      | some text =>
        apply ends_updateOnClient_sourced hw rfl
        rw [Workspace.given?_changeOnClient, last, Option.bind_some]
    | closeOnClient u =>
      rw [Workspace.mailed_of_not rfl]
      exact answer (ends_closeOnClient_sourced u hw) fun _ => Work.along_pure _
    | suspend => exact keeping rfl ((Workspace.ignored_retaining _).bind fun _ => Work.along_pure _)
    | resume =>
      exact keeping rfl ((Gate.along_resume Workspace.ignored_retaining reports).bind fun _ => Work.along_pure _)
    | request => exact keeping rfl ((retained_request (retained_call depth)).bind fun _ => Work.along_pure _)
    | dispose | shutDown => exact keeping rfl (retained_dispose.bind fun _ => Work.along_pure _)
    | write _ _ | delete _ | setFailing _ _ => cases still
    | suspended _ | rebuilding _ => cases plain
    | subscribe _ _ _ _ => exact absurd plain passive
    | _ => exact absurd rfl passive

end Task

namespace Workspace

variable {w : Workspace} {mail : Mail} {file : String} {id : DocumentId} {d : Document}

theorem sourced_ofSetup (s : Setup) (cast : ∀ c ∈ s.cast, Action.arePassive c.script.actions = true) :
    (ofSetup s).Sourced fun _ => none := by
  have resting := resting_ofSetup s cast
  obtain ⟨bus, subscriptions, scripts, start⟩ := exists_ofSetup s
  rw [start] at resting ⊢
  constructor
  case passive => exact resting.quiet.2
  case filed =>
    intro file id ht
    cases ht
  case sent =>
    intro id text own
    cases own
  case read =>
    intro file id d ht
    cases ht

theorem Sourced.run (hw : w.Sourced mail) {actions : List Action}
    (still : ∀ action ∈ actions, action.isPlain = true ∧ action.keepsDisk = true) :
    (w.run actions).Sourced (w.mail mail actions) := by
  induction actions generalizing w mail with
  | nil => exact hw
  | cons action rest ih =>
    obtain ⟨plain, keeps⟩ := still action List.mem_cons_self
    have performed : Ends (Task.perform (Task.call (w.restlessness + action.weight + 1)) action) w
        fun _ w' => w'.Sourced (w.mailed mail action) := Task.ends_perform_sourced action plain keeps hw
    have turned : (w.turn action).2.Sourced (w.mailed mail action) := performed
    exact ih turned fun a hm => still a (List.mem_cons_of_mem _ hm)

/-- As long as listeners only read, a document has the text that the client has sent last, or else that of
its file: if the client has sent nothing, or the server has opened the file since. -/
theorem exists_text_run (s : Setup) (cast : ∀ c ∈ s.cast, Action.arePassive c.script.actions = true)
    (actions : List Action) (still : ∀ action ∈ actions, action.isPlain = true ∧ action.keepsDisk = true)
    (ht : ((ofSetup s).run actions).holdings.tracked.get? file = some id)
    (hd : ((ofSetup s).run actions).holdings.document? id = some d) :
    d.file = file ∧ ∃ text, d.text = some text ∧
      ((ofSetup s).mail (fun _ => none) actions id = some text ∨
        (ofSetup s).mail (fun _ => none) actions id = none ∧
          ((ofSetup s).run actions).holdings.stored file = .ok (some text)) := by
  have sourced := (sourced_ofSetup s cast).run still
  obtain ⟨e, he, hf⟩ := sourced.filed file id ht
  rw [hd] at he
  cases he
  refine ⟨hf, ?_⟩
  cases own : (ofSetup s).mail (fun _ => none) actions id with
  | none =>
    obtain ⟨text, hx, read⟩ := sourced.read file id d ht hd own
    exact ⟨text, hx, Or.inr ⟨rfl, read⟩⟩
  | some text =>
    obtain ⟨e, he, hx⟩ := sourced.sent id text own
    rw [hd] at he
    cases he
    exact ⟨text, hx, Or.inl rfl⟩

def ShowsFiles (w : Workspace) : Prop :=
  ∀ d ∈ w.trackedDocuments, d.onServer = true → d.onClient = false →
    (w.holdings.stored d.file).toOption = some d.text

instance (w : Workspace) : Decidable w.ShowsFiles :=
  inferInstanceAs (Decidable (∀ d ∈ w.trackedDocuments, d.onServer = true → d.onClient = false →
    (w.holdings.stored d.file).toOption = some d.text))

/-- A file on disk, and a listener that reads when the client closes a document. -/
def backed : Setup where
  host := ⟨none⟩
  files := [("/b", [])]
  reportUnused := false
  hasWatcher := true
  hasClient := true
  cast := [⟨.closedOnClient, none, ⟨2, [.sources]⟩⟩]

/-- The client opens and closes a file that another one imports, with a text that is not that on disk. -/
def unsaved : List Action :=
  [.openOnClient "file:///a" "@import 'b';", .openOnClient "file:///b" "x:='x';", .closeOnClient "file:///b"]

set_option maxRecDepth 4000 in
theorem exists_text_run_unsaved :
    ((ofSetup backed).run unsaved).holdings.tracked.get? "/b" = some 1 ∧
      ((ofSetup backed).run unsaved).holdings.document? 1 =
        some ⟨"/b", "file:///b", some "x:='x';", false, true, true⟩ ∧
      ("/b" = "/b" ∧ ∃ text, some "x:='x';" = some text ∧
        ((ofSetup backed).mail (fun _ => none) unsaved 1 = some text ∨
          (ofSetup backed).mail (fun _ => none) unsaved 1 = none ∧
            ((ofSetup backed).run unsaved).holdings.stored "/b" = .ok (some text))) ∧
      (ofSetup backed).mail (fun _ => none) unsaved 1 = some "x:='x';" ∧
      (ofSetup backed).mail (fun _ => none) (unsaved ++ [.openOnServer (.text "/b")]) 1 = none := by
  have ht : ((ofSetup backed).run unsaved).holdings.tracked.get? "/b" = some 1 := by decide +kernel
  have hd : ((ofSetup backed).run unsaved).holdings.document? 1 =
      some ⟨"/b", "file:///b", some "x:='x';", false, true, true⟩ := by decide +kernel
  exact ⟨ht, hd, exists_text_run backed (by decide) unsaved (by decide) ht hd, by decide +kernel,
    by decide +kernel⟩

set_option maxRecDepth 4000 in
/-- The server goes on showing the text that the client has not saved. -/
theorem not_showsFiles : ¬ ((ofSetup { backed with cast := [] }).run unsaved).ShowsFiles := by decide +kernel

end Workspace
end GrammarWorkspace
