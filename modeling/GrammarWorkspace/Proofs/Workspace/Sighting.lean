import GrammarWorkspace.Proofs.Workspace.Docility

/-!
# What observers know

Who is told of all events of documents from the start knows after every action which files are tracked
and which sides hold their documents. No event comes that does not go with what is known.
-/
namespace GrammarWorkspace

open Work (Ends Along Inside Stays)

structure Sides where
  onClient : Bool
  onServer : Bool
  deriving DecidableEq, Repr

def Document.sides (d : Document) : Sides := ⟨d.onClient, d.onServer⟩

/-- What an event of a file makes of its document. There is nothing to make if the event does not go
with the document as it is known. -/
def Topic.turn? : Topic → Option Sides → Option (Option Sides)
  | created, none => some (some ⟨false, false⟩)
  | openedOnClient, some ⟨false, onServer⟩ => some (some ⟨true, onServer⟩)
  | openedOnServer, some ⟨onClient, false⟩ => some (some ⟨onClient, true⟩)
  | closedOnClient, some ⟨true, onServer⟩ => some (some ⟨false, onServer⟩)
  | closedOnServer, some ⟨onClient, true⟩ => some (some ⟨onClient, false⟩)
  | closed, some ⟨false, false⟩ => some none
  | contentChanged, known => some known
  | _, _ => none

abbrev Knowledge := String → Option Sides

def Knowledge.next? (k : Knowledge) (event : Topic × String) : Option Knowledge :=
  (event.1.turn? (k event.2)).map (Function.update k event.2)

theorem Knowledge.foldlM_next? (k : Knowledge) (file : String) (topics : List Topic) :
    topics.foldlM (fun k topic => next? k (topic, file)) k =
      (topics.foldlM (fun known topic => Topic.turn? topic known) (k file)).map (Function.update k file) := by
  induction topics generalizing k with
  | nil => simp
  | cons topic rest ih =>
    rw [List.foldlM_cons, List.foldlM_cons, next?]
    cases topic.turn? (k file) with
    | none => rfl
    | some known =>
      have again : Function.update (Function.update k file known) file = Function.update k file := by
        funext value
        simp only [Function.update_idem]
      have rest_eq := ih (Function.update k file known)
      rw [Function.update_self, again] at rest_eq
      exact rest_eq

namespace Holdings

variable {h : Holdings} {id : DocumentId} {file : String} {d : Document} {f : Document → Document}

def registry (h : Holdings) : Knowledge := h.view Document.sides

theorem registry_of_tracked (ht : h.tracked.get? file = some id) (hd : h.document? id = some d) :
    h.registry file = some d.sides := view_of_tracked ht hd

theorem registry_revise (hr : h.Registered) (ht : h.tracked.get? file = some id)
    (hd : h.document? id = some d) :
    (h.revise id f).registry = Function.update h.registry file (some (f d).sides) := hr.view_revise ht hd

theorem registry_revise_of_same (same : ∀ d, h.document? id = some d → (f d).sides = d.sides) :
    (h.revise id f).registry = h.registry := view_revise_of_same same

theorem registry_forget (h : Holdings) (file : String) :
    (h.forget file).registry = Function.update h.registry file none := h.view_forget file

theorem Provides.registry_eq {h₁ : Holdings} {isNew : Bool} (p : h.Provides file id isNew d h₁) :
    h.registry file = if isNew then none else some d.sides := p.view_eq

theorem Provides.registry_revise {h₁ : Holdings} {isNew : Bool} (p : h.Provides file id isNew d h₁)
    (hr : h.Registered) :
    (h₁.revise id f).registry = Function.update h.registry file (some (f d).sides) := p.view_revise hr

end Holdings

namespace Workspace

/-- What is known from the events alone, if they go together. -/
def knowledge? (w : Workspace) : Option Knowledge := w.sightings.foldlM Knowledge.next? fun _ => none

structure Described (w : Workspace) : Prop where
  docile : w.Docile
  registered : w.holdings.Registered
  known : w.knowledge? = some w.holdings.registry

structure Knows (w : Workspace) (h : Holdings) (k : Knowledge) : Prop where
  docile : w.Docile
  holdings_eq : w.holdings = h
  known : w.knowledge? = some k

variable {w w' : Workspace} {h : Holdings} {k m : Knowledge}

theorem sightings_noting (w : Workspace) {o : Observation} (unseen : o.sighting? = none) :
    (w.noting o).sightings = w.sightings := by
  simp [sightings, noting, unseen]

theorem sightings_asked (w : Workspace) (reason : Bool) {o : Observation} (unseen : o.sighting? = none) :
    (w.asked reason o).sightings = w.sightings := by
  simp only [sightings, asked, List.filterMap_append]
  cases reason && w.hasWatcher <;> simp [unseen]

theorem Described.knows (hw : w.Described) : w.Knows w.holdings w.holdings.registry :=
  ⟨hw.docile, rfl, hw.known⟩

theorem Knows.described (hw : w.Knows h h.registry) (registered : h.Registered) : w.Described := by
  refine ⟨hw.docile, ?_, ?_⟩
  · rw [hw.holdings_eq]
    exact registered
  · rw [hw.holdings_eq]
    exact hw.known

theorem Knows.of_same (hw : w.Knows h k) (bus : w'.bus = w.bus)
    (subscriptions : w'.subscriptions = w.subscriptions) (scripts : w'.scripts = w.scripts)
    (sightings : w'.sightings = w.sightings) : w'.Knows w'.holdings k :=
  ⟨hw.docile.of_same bus subscriptions scripts, rfl, by rw [knowledge?, sightings]; exact hw.known⟩

theorem Described.of_same (hw : w.Described) (holdings : w'.holdings = w.holdings) (bus : w'.bus = w.bus)
    (subscriptions : w'.subscriptions = w.subscriptions) (scripts : w'.scripts = w.scripts)
    (sightings : w'.sightings = w.sightings) : w'.Described := by
  have knows := hw.knows.of_same bus subscriptions scripts sightings
  rw [holdings] at knows
  exact knows.described hw.registered

theorem Described.on_disk (hw : w.Described) (disk : Table String (List UInt8)) (failing : List String) :
    { w with disk := disk, failing := failing }.Described :=
  ⟨hw.docile.of_same rfl rfl rfl, ⟨hw.registered.filed, hw.registered.held⟩, hw.known⟩

theorem Described.noting (hw : w.Described) {o : Observation} (unseen : o.sighting? = none) :
    (w.noting o).Described := hw.of_same rfl rfl rfl rfl (w.sightings_noting unseen)

theorem Described.of_idly (hw : w.Described) (idly : Idly w w') : w'.Described := by
  obtain ⟨docile, heard⟩ := idly hw.docile
  refine ⟨docile, ?_, ?_⟩
  · rw [heard.holdings_eq]
    exact hw.registered
  · rw [knowledge?, heard.sightings_eq, List.append_nil, heard.holdings_eq]
    exact hw.known

theorem Hears.known {event : Topic × String} {news : List Moment} (heard : w.Hears [event] news w')
    (known : w.knowledge? = some k) (next : k.next? event = some m) : w'.knowledge? = some m := by
  have known : w.sightings.foldlM Knowledge.next? (fun _ => none) = some k := known
  rw [knowledge?, heard.sightings_eq, List.foldlM_append, known]
  simp [next]

end Workspace

open Workspace (Described Knows Idly)

namespace Task

variable {w : Workspace} {depth : Nat} {id : DocumentId} {file : String} {d : Document} {h : Holdings}
  {k m : Knowledge}

theorem ends_fire_knows {topic : Topic} (hw : w.Knows h k) (quiet : topic ≠ .updated)
    (hd : h.document? id = some d) (turns : k.next? (topic, d.file) = some m) :
    Ends (fire (Task.call depth) topic (some id)) w fun r w' => r = .ok () ∧ w'.Knows h m := by
  have here : w.document? id = some d := by
    rw [← hw.holdings_eq] at hd
    exact hd
  refine (ends_fire_of_document hw.docile quiet here).mono ?_
  rintro r w' ⟨ok, docile, heard⟩
  exact ⟨ok, docile, heard.holdings_eq.trans hw.holdings_eq, heard.known hw.known turns⟩

theorem ends_fire_knowing {topic : Topic} {next : Unit → Task Unit} {Q : Except Fault Unit → Workspace → Prop}
    (hw : w.Knows h k) (quiet : topic ≠ .updated) (hd : h.document? id = some d)
    (turns : k.next? (topic, d.file) = some m) (rest : ∀ w', w'.Knows h m → Ends (next ()) w' Q) :
    Ends (fire (Task.call depth) topic (some id) >>= next) w Q := by
  apply (ends_fire_knows hw quiet hd turns).bind
  · rintro ⟨⟩ w' ⟨-, hw'⟩
    exact rest w' hw'
  · rintro _ _ ⟨failed, -⟩
    cases failed

theorem ignored_described : Gate.Ignored (Stays Described) := by
  intro f w hw
  exact hw.of_same rfl rfl rfl rfl rfl

section

variable (reports : Along (Stays Described) (report (Task.call depth)))

include reports

theorem ends_request_described (hw : w.Described) :
    Ends (Gate.request (report (Task.call depth))) w fun _ w' => w'.Described :=
  (Gate.along_request ignored_described reports w).mono fun _ _ h => h hw

theorem ends_remove_described (hw : w.Described) (ht : w.holdings.tracked.get? file = some id)
    (hd : w.holdings.document? id = some d) (hf : d.file = file) (closed : d.isOpen = false) :
    Ends (remove (Task.call depth) id) w fun _ w' => w'.Described := by
  subst hf
  apply ends_remove_of hd
  · intro gone
    rw [gone] at ht
    cases ht
  · intro _ _
    have sides : d.sides = ⟨false, false⟩ := by
      simpa [Document.sides, Document.isOpen] using closed
    have before : (w.forgetting d.file).Knows (w.holdings.forget d.file) w.holdings.registry :=
      hw.knows.of_same rfl rfl rfl rfl
    apply ends_fire_knowing before (by decide) (d := d) hd (m := (w.holdings.forget d.file).registry)
    · rw [Knowledge.next?, Holdings.registry_of_tracked ht hd, sides, Holdings.registry_forget]
      rfl
    · intro w' hw'
      exact ends_request_described reports (hw'.described (hw.registered.forget ht hd closed))

theorem ends_letGo_described {topic : Topic} (quiet : topic ≠ .updated) (hw : w.Knows h k)
    (hr : h.Registered) (ht : h.tracked.get? file = some id) (hd : h.document? id = some d)
    (hf : d.file = file) (turns : k.next? (topic, file) = some h.registry) :
    Ends (letGo (Task.call depth) topic id) w fun _ w' => w'.Described := by
  subst hf
  apply ends_letGo_of (P := fun e w' => e = d ∧ w'.Knows h h.registry)
  · refine (ends_fire_knows hw quiet hd turns).mono ?_
    rintro r w' ⟨ok, hw'⟩
    refine ⟨ok, d, ?_, rfl, hw'⟩
    rw [hw'.holdings_eq]
    exact hd
  · rintro _ w' ⟨-, hw'⟩ _
    exact hw'.described hr
  · rintro _ w' ⟨rfl, hw'⟩ hd' closed
    rw [← hw'.holdings_eq] at ht
    exact ends_remove_described reports (hw'.described hr) ht hd' rfl closed

theorem staying_releaseOnServer (id : DocumentId) :
    Along (Stays Described) (releaseOnServer (Task.call depth) id) := by
  apply Work.along_stays_of
  intro w hw
  apply ends_releaseOnServer_of
  · exact hw
  · intro d hd hs
    have ht := hw.registered.held id d hd (by simp [Document.isOpen, hs])
    have before : (w.serverClosed id d).Knows (w.holdings.revise id ({ · with onServer := false }))
        w.holdings.registry :=
      hw.knows.of_same rfl rfl rfl (Workspace.sightings_asked _ _ rfl)
    apply ends_letGo_described reports (by decide) before (Workspace.registered_serverClosed hw.registered id d)
      ht (Workspace.document?_serverClosed hd)
    · rfl
    · rw [Knowledge.next?, Holdings.registry_of_tracked ht hd, Holdings.registry_revise hw.registered ht hd]
      simp [Document.sides, Topic.turn?, hs]

theorem staying_closeOnServer (locator : Locator) :
    Along (Stays Described) (closeOnServer (Task.call depth) locator) := by
  refine (along_find locator).bind fun found => ?_
  cases found with
  | none => exact Work.along_pure ()
  | some id => exact staying_releaseOnServer reports id

theorem staying_closeOnClient (u : String) :
    Along (Stays Described) (closeOnClient (Task.call depth) u) := by
  apply Work.along_stays_of
  intro w hw
  apply ends_closeOnClient_of hw.registered.filed
  · exact fun _ _ => hw
  · exact fun _ _ _ => hw
  · intro file id d _ ht hd hf hc
    have before : (w.clientClosed id d).Knows (w.holdings.revise id ({ · with onClient := false }))
        w.holdings.registry :=
      hw.knows.of_same rfl rfl rfl (Workspace.sightings_asked _ _ rfl)
    apply ends_letGo_described reports (by decide) before (Workspace.registered_clientClosed hw.registered id d)
      ht (Workspace.document?_clientClosed hd)
    · exact hf
    · rw [Knowledge.next?, Holdings.registry_of_tracked ht hd, Holdings.registry_revise hw.registered ht hd]
      simp [Document.sides, Topic.turn?, hc]

theorem ends_tell_described {isNew hasChanged : Bool} {opened : Option Topic} (hw : w.Knows h k)
    (hr : h.Registered) (hd : h.document? id = some d) (quiet : opened ≠ some .updated)
    (others : h.registry = Function.update k d.file (some d.sides))
    (turns : ((if isNew then [Topic.created] else []) ++ opened.toList).foldlM
      (fun known topic => Topic.turn? topic known) (k d.file) = some (some d.sides)) :
    Ends (tell (Task.call depth) id isNew hasChanged opened) w fun _ w' => w'.Described := by
  replace turns : ((if isNew then [Topic.created] else []) ++ opened.toList).foldlM
      (fun k topic => Knowledge.next? k (topic, d.file)) k = some h.registry := by
    rw [Knowledge.foldlM_next?, turns, others, Option.map_some]
  have last (w' : Workspace) (hw' : w'.Knows h h.registry) : Ends (if hasChanged then do
      fire (Task.call depth) .contentChanged (some id)
      Gate.request (report (Task.call depth))
      else pure ()) w' fun _ w'' => w''.Described := by
    cases hasChanged with
    | false => exact hw'.described hr
    | true =>
      apply ends_fire_knowing hw' (by decide) hd (m := h.registry)
      · simp [Knowledge.next?, Topic.turn?]
      · exact fun w'' hw'' => ends_request_described reports (hw''.described hr)
  have middle (w' : Workspace) {m : Knowledge} (hw' : w'.Knows h m)
      (turns : opened.toList.foldlM (fun k topic => Knowledge.next? k (topic, d.file)) m =
        some h.registry) : Ends (tellOpened (Task.call depth) id opened (if hasChanged then do
      fire (Task.call depth) .contentChanged (some id)
      Gate.request (report (Task.call depth))
      else pure ())) w' fun _ w'' => w''.Described := by
    cases opened with
    | none =>
      obtain rfl : m = h.registry := Option.some.inj turns
      exact last w' hw'
    | some topic =>
      simp only [Option.toList_some, List.foldlM_cons, List.foldlM_nil, bind_pure] at turns
      exact ends_fire_knowing hw' (fun he => quiet (by rw [he])) hd turns last
  cases isNew with
  | false => exact middle w hw turns
  | true =>
    simp only [if_true, List.singleton_append, List.foldlM_cons] at turns
    obtain ⟨k₁, created, turns⟩ := Option.bind_eq_some_iff.mp turns
    exact ends_fire_knowing hw (by decide) hd created fun w' hw' => middle w' hw' turns

theorem staying_openOnServer (locator : Locator) :
    Along (Stays Described) (openOnServer (Task.call depth) locator) := by
  apply Work.along_stays_of
  intro w hw
  apply ends_openOnServer_of hw.registered.filed
  · exact fun _ _ => hw
  · intro file _ outcome _ _
    exact hw.noting rfl
  · intro file text outcome id isNew d h u _ _ _ p
    let written (d : Document) : Document := { d with uri := u, text := some text, onServer := true }
    have hf : (written d).file = file := p.file_eq hw.registered.filed
    have p' : (w.noting (.read file outcome)).holdings.Provides file id isNew d h := p
    have here : (h.revise id written).document? id = some (written d) :=
      Workspace.document?_serverOpened p' u text
    have before : (((w.noting (.read file outcome)).serverOpened h id d u text).outdated
        (d.text ≠ some text)).Knows (h.revise id written) w.holdings.registry :=
      hw.knows.of_same rfl rfl rfl ((Workspace.sightings_asked _ _ rfl).trans (w.sightings_noting rfl))
    apply ends_tell_described reports before (p.registered_revise hw.registered fun _ => rfl) here
    · split <;> decide
    · rw [hf]
      exact p.registry_revise hw.registered
    · rw [hf, p.registry_eq]
      cases p with
      | made _ => rfl
      | found _ _ =>
        by_cases hs : d.onServer = true <;> simp [written, Document.sides, Topic.turn?, hs]

theorem staying_updateOnClient (u text : String) :
    Along (Stays Described) (updateOnClient (Task.call depth) u text) := by
  apply Work.along_stays_of
  intro w hw
  apply ends_updateOnClient_of hw.registered.filed
  · exact fun _ _ => hw
  · intro file id isNew d h _ p
    let written (d : Document) : Document := { d with uri := u, text := some text, onClient := true }
    have hf : (written d).file = file := p.file_eq hw.registered.filed
    have here : (h.revise id written).document? id = some (written d) :=
      Workspace.document?_clientOpened p u text
    have before : ((w.clientOpened h id d u text).outdated (d.text ≠ some text)).Knows
        (h.revise id written) w.holdings.registry :=
      hw.knows.of_same rfl rfl rfl (Workspace.sightings_asked _ _ rfl)
    apply ends_tell_described reports before (p.registered_revise hw.registered fun _ => rfl) here
    · split <;> decide
    · rw [hf]
      exact p.registry_revise hw.registered
    · rw [hf, p.registry_eq]
      cases p with
      | made _ => rfl
      | found _ _ =>
        by_cases hc : d.onClient = true <;> simp [written, Document.sides, Topic.turn?, hc]

theorem staying_changeOnClient (u : String) (texts : List String) :
    Along (Stays Described) (changeOnClient (Task.call depth) u texts) := by
  rw [changeOnClient]
  cases texts.getLast? with
  | none => exact Work.along_pure ()
  | some text => exact staying_updateOnClient reports u text

omit reports in
theorem staying_mark (id : DocumentId) (mark : Document → Bool) :
    Along (Stays Described) (update id fun d => { d with isMarked := mark d }) := by
  apply Work.along_stays_of
  intro w hw
  let marked : Holdings := w.holdings.revise id fun d => { d with isMarked := mark d }
  have registered : marked.Registered := hw.registered.revise (fun _ _ => rfl) fun _ _ ho => Or.inl ho
  have registry : marked.registry = w.holdings.registry :=
    Holdings.registry_revise_of_same fun _ _ => rfl
  have knows : (w.holding marked).Knows marked w.holdings.registry := hw.knows.of_same rfl rfl rfl rfl
  rw [ends_update_iff]
  rw [← registry] at knows
  exact knows.described registered

omit reports in
theorem staying_readForCompiler (file : String) :
    Along (Stays Described) (readForCompiler (Task.call depth) file) := by
  apply along_readForCompiler
  · exact fun id => staying_mark id fun _ => true
  · exact fun w outcome hw => hw.noting rfl
  · intro w text u _ new _ hw
    let written (d : Document) : Document := { d with uri := u, text := some text, onServer := true }
    let opened : Holdings := (w.holdings.add (.new file)).revise w.documents.length written
    have p : w.holdings.Provides file w.documents.length true (.new file) (w.holdings.add (.new file)) :=
      .made new
    have here : opened.document? w.documents.length = some (written (.new file)) :=
      Workspace.document?_serverOpened p u text
    have before : (w.serverOpened (w.holdings.add (.new file)) w.documents.length (.new file) u text).Knows
        opened w.holdings.registry := hw.knows.of_same rfl rfl rfl (w.sightings_asked _ rfl)
    have unknown : w.holdings.registry file = none := p.registry_eq
    have events : [Topic.created, .openedOnServer].foldlM (fun k topic => Knowledge.next? k (topic, file))
        w.holdings.registry = some opened.registry := by
      rw [Knowledge.foldlM_next?, unknown, p.registry_revise hw.registered]
      rfl
    obtain ⟨k, created, opened_on_server⟩ := Option.bind_eq_some_iff.mp events
    have told : Ends (do
        fire (Task.call depth) .created (some w.documents.length)
        fire (Task.call depth) .openedOnServer (some w.documents.length))
        (w.serverOpened (w.holdings.add (.new file)) w.documents.length (.new file) u text)
        fun _ w' => w'.Described := by
      apply ends_fire_knowing before (by decide) here created
      intro w' hw'
      simp only [List.foldlM_cons, List.foldlM_nil, bind_pure] at opened_on_server
      refine (ends_fire_knows hw' (by decide) here opened_on_server).mono fun _ w'' hw'' => ?_
      exact hw''.2.described (p.registered_revise hw.registered fun _ => rfl)
    exact told

theorem staying_rebuild : Along (Stays Described) (rebuild (Task.call depth)) := by
  apply along_rebuild ignored_described reports
  · apply along_loadAnew
    · exact fun id => staying_mark id Document.onClient
    · exact fun w hw => hw.of_same rfl rfl rfl rfl rfl
    · exact fun w _ hw => hw.of_same rfl rfl rfl rfl rfl
    · exact staying_readForCompiler
  · exact fun w roots c hw => hw.of_same rfl rfl rfl rfl rfl
  · exact staying_releaseOnServer reports

end

theorem aside_described : ∀ w w' : Workspace, Idly w w' → Stays Described w w' :=
  fun _ _ idly hw => hw.of_idly idly

/-- Whoever is told of an update may have the documents compiled, which leaves them known. -/
theorem staying_report (depth : Nat) : Along (Stays Described) (report (Task.call depth)) := by
  induction depth using Nat.strong_induction_on with
  | _ depth ih =>
    apply Work.along_stays_of
    intro w hw
    rw [report, ends_fire_iff]
    have telling : (w.passed (.telling .updated none)).Described := hw.of_same rfl rfl rfl rfl rfl
    refine (Bus.ends_deliver (I := Described) _ _ telling ?_).mono fun _ w' h' =>
      h'.2.of_same rfl rfl rfl rfl rfl
    intro listener _ w' hw'
    refine (ends_call_of_permits aside_described (fun _ => rfl) ?_ (hw'.docile.permits listener)).mono
      fun _ _ h => h hw'
    exact fun _ lower below => staying_rebuild (ih lower below)

mutual

theorem staying_perform (depth : Nat) (action : Action) (lasting : action.isLasting = true) :
    Along (Stays Described) (perform (Task.call depth) action) := by
  have reports := staying_report depth
  by_cases reading : action.isReading = true
  · apply along_perform Inside.self (Workspace.overlooks_idly.mono aside_described) action reading
    · exact fun _ => staying_rebuild reports
    · rintro topic name plays script rfl
      have added : Along Idly (addListener topic name ⟨plays, script⟩) := along_addListener topic name lasting
      exact added.mono aside_described
  · cases action with
    | openOnServer locator =>
      refine (staying_openOnServer reports locator).bind fun found => ?_
      cases found with
      | none => exact Work.along_pure _
      | some id => exact (along_document id).bind fun _ => Work.along_pure _
    | closeOnServer locator =>
      exact (staying_closeOnServer reports locator).bind fun _ => Work.along_pure _
    | openOnClient u text => exact (staying_updateOnClient reports u text).bind fun _ => Work.along_pure _
    | changeOnClient u texts =>
      exact (staying_changeOnClient reports u texts).bind fun _ => Work.along_pure _
    | closeOnClient u => exact (staying_closeOnClient reports u).bind fun _ => Work.along_pure _
    | suspend => exact (ignored_described _).bind fun _ => Work.along_pure _
    | resume =>
      exact (Gate.along_resume ignored_described reports).bind fun _ => Work.along_pure _
    | request =>
      exact (Gate.along_request ignored_described reports).bind fun _ => Work.along_pure _
    | suspended actions =>
      exact (Gate.along_suspended ignored_described reports
        (staying_performAll depth actions lasting)).bind fun _ => Work.along_pure _
    | rebuilding actions =>
      exact (Gate.along_rebuilding ignored_described reports
        (staying_performAll depth actions lasting)).bind fun _ => Work.along_pure _
    | write file bytes => exact Along.bind (fun w hw => hw.on_disk _ w.failing) fun _ => Work.along_pure _
    | delete file => exact Work.along_get_bind fun w hw => hw.on_disk _ w.failing
    | setFailing file failing =>
      exact Along.bind (fun w hw => hw.on_disk w.disk _) fun _ => Work.along_pure _
    | dispose | shutDown => cases lasting
    | _ => exact absurd rfl reading

theorem staying_performAll (depth : Nat) (actions : List Action) (lasting : Action.areLasting actions = true) :
    Along (Stays Described) (performAll (Task.call depth) actions) := by
  cases actions with
  | nil => exact Work.along_pure _
  | cons action rest =>
    simp only [Action.areLasting, Bool.and_eq_true] at lasting
    exact (staying_perform depth action lasting.1).bind fun _ =>
      (staying_performAll depth rest lasting.2).bind fun _ => Work.along_pure _

end

end Task

namespace Workspace

theorem described_ofSetup (s : Setup)
    (cast : ∀ c ∈ s.cast, Action.areMeek (c.topic = .updated) c.script.actions = true) :
    (ofSetup s).Described := by
  have docile := docile_ofSetup s cast
  obtain ⟨bus, subscriptions, scripts, start⟩ := exists_ofSetup s
  rw [start] at docile ⊢
  refine ⟨docile, ⟨?_, ?_⟩, rfl⟩
  · intro file id ht
    cases ht
  · intro id d hd
    cases hd

theorem Described.run {w : Workspace} (hw : w.Described) (actions : List Action)
    (lasting : ∀ action ∈ actions, action.isLasting = true) : (w.run actions).Described := by
  induction actions generalizing w with
  | nil => exact hw
  | cons action rest ih =>
    have performed : Ends (Task.perform (Task.call (w.restlessness + action.weight + 1)) action) w
        fun _ w' => w'.Described :=
      (Task.staying_perform _ action (lasting action List.mem_cons_self) w).mono fun _ _ h => h hw
    have turned : (w.turn action).2.Described := performed
    exact ih turned fun a hm => lasting a (List.mem_cons_of_mem _ hm)

/-- As long as listeners ask for the compilation only at updates, all events go together, and who has
been told of them knows just the files that are tracked and the sides that hold their documents. -/
theorem exists_knowledge?_run (s : Setup)
    (cast : ∀ c ∈ s.cast, Action.areMeek (c.topic = .updated) c.script.actions = true)
    (actions : List Action) (lasting : ∀ action ∈ actions, action.isLasting = true) :
    ∃ k, ((ofSetup s).run actions).knowledge? = some k ∧
      (∀ file, file ∈ ((ofSetup s).run actions).files ↔ (k file).isSome = true) ∧
      ∀ d ∈ ((ofSetup s).run actions).trackedDocuments, k d.file = some d.sides := by
  have described := (described_ofSetup s cast).run actions lasting
  refine ⟨_, described.known, fun file => ?_, fun d hm => ?_⟩
  · constructor
    · intro hm
      obtain ⟨id, ht⟩ := Table.mem_keys_iff.mp hm
      obtain ⟨d, hd, -⟩ := described.registered.filed file id ht
      rw [Holdings.registry_of_tracked ht hd, Option.isSome_some]
    · intro known
      obtain ⟨sides, hs⟩ := Option.isSome_iff_exists.mp known
      obtain ⟨d, hd, -⟩ := Option.map_eq_some_iff.mp hs
      obtain ⟨id, ht, -⟩ := Holdings.filed?_eq_some hd
      exact Table.mem_keys_iff.mpr ⟨id, ht⟩
  · obtain ⟨id, ht, hd⟩ := tracked_of_mem described.registered.filed hm
    exact Holdings.registry_of_tracked ht hd

/-- The client has a file open that imports another one, until it opens that one instead. -/
def importing : Setup where
  host := ⟨none⟩
  files := [("/b", [])]
  reportUnused := false
  hasWatcher := true
  hasClient := true
  cast := [⟨.updated, none, ⟨2, [.sources]⟩⟩]

set_option maxRecDepth 4000 in
theorem exists_knowledge?_run_importing :
    (∃ k, ((ofSetup importing).run [.openOnClient "/a" "@import 'b';", .closeOnClient "/a"]).knowledge? =
        some k ∧ (∀ file, file ∈ ((ofSetup importing).run
          [.openOnClient "/a" "@import 'b';", .closeOnClient "/a"]).files ↔ (k file).isSome = true) ∧
        ∀ d ∈ ((ofSetup importing).run
          [.openOnClient "/a" "@import 'b';", .closeOnClient "/a"]).trackedDocuments,
            k d.file = some d.sides) ∧
      ((ofSetup importing).run [.openOnClient "/a" "@import 'b';", .closeOnClient "/a"]).sightings =
        [(.created, "/a"), (.openedOnClient, "/a"), (.contentChanged, "/a"), (.created, "/b"),
          (.openedOnServer, "/b"), (.closedOnClient, "/a"), (.closed, "/a"), (.closedOnServer, "/b"),
          (.closed, "/b")] :=
  ⟨exists_knowledge?_run importing (by decide) _ (by decide), by decide +kernel⟩

end Workspace
end GrammarWorkspace
