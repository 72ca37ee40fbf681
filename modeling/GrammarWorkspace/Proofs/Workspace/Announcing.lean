import GrammarWorkspace.Proofs.Workspace.Solitude

/-!
# What a report publishes

With the client as the only listener, a report first takes back what was published of the documents that its
rebuild lets go of. Then it publishes the diagnostics of each document that is still tracked, once each and in
the order of tracking.
-/
namespace GrammarWorkspace

open Grammar (Compilation)
open Work (Ends Along Inside Keeping)

/-- What is done in a session with the client alone: nobody else comes to listen, and the session goes on. -/
def Action.isSolitary : Action → Bool
  | .suspended _ | .rebuilding _ | .subscribe _ _ _ _ | .dispose | .shutDown => false
  | _ => true

theorem Action.isPlain_of_isSolitary {action : Action} (solitary : action.isSolitary = true) :
    action.isPlain = true := by
  cases action <;> first | rfl | cases solitary

def noticesOf (c : Compilation) (d : Document) : List Notice := (c.diagnosticsFor d.file).map .ofDiagnostic

/-- Every report of the history has come to its end, before any other began. What was shown at its beginning
and at its end are related. -/
def EveryReport (R : Scene → Scene → Prop) (history : List Passage) : Prop :=
  ∀ before v after, history = before ++ ⟨.telling .updated none, v⟩ :: after →
    ∃ during v' rest, after = during ++ ⟨.told .updated none, v'⟩ :: rest ∧
      (∀ p ∈ during, p.moment.isUpdate = false) ∧ R v v'

namespace EveryReport

variable {R : Scene → Scene → Prop} {history news : List Passage}

/-- A report that begins among the passages that are added is not an earlier one. -/
theorem append_of (h : EveryReport R history)
    (new : ∀ before v after, news = before ++ ⟨.telling .updated none, v⟩ :: after →
      ∃ during v' rest, after = during ++ ⟨.told .updated none, v'⟩ :: rest ∧
        (∀ p ∈ during, p.moment.isUpdate = false) ∧ R v v') : EveryReport R (history ++ news) := by
  intro before v after split
  rcases List.append_eq_append_iff.mp split with ⟨early, -, rest⟩ | ⟨late, here, rest⟩
  · exact new early v after rest
  · cases late with
    | nil => exact new [] v after rest.symm
    | cons p late =>
      rw [List.cons_append] at rest
      obtain ⟨rfl, later⟩ := List.cons.inj rest
      obtain ⟨during, v', more, rfl, plain, related⟩ := h before v late here
      exact ⟨during, v', more ++ news, by rw [later, List.append_assoc, List.cons_append], plain, related⟩

theorem append (h : EveryReport R history) (plain : ∀ p ∈ news, p.moment.isUpdate = false) :
    EveryReport R (history ++ news) := by
  apply h.append_of
  rintro before v after rfl
  cases plain ⟨.telling .updated none, v⟩ (by simp)

theorem append_report {inner : List Passage} {v v' : Scene} (h : EveryReport R history)
    (plain : ∀ p ∈ inner, p.moment.isUpdate = false) (related : R v v') : EveryReport R
      (history ++ (⟨.telling .updated none, v⟩ :: inner ++ [⟨.told .updated none, v'⟩])) := by
  apply h.append_of
  intro before u after split
  cases before with
  | nil =>
    cases split
    exact ⟨inner, v', [], rfl, plain, related⟩
  | cons p before =>
    have rest : inner ++ [⟨.told .updated none, v'⟩] = before ++ ⟨.telling .updated none, u⟩ :: after :=
      (List.cons.inj split).2
    have later : (⟨.telling .updated none, u⟩ : Passage) ∈ inner ++ [⟨.told .updated none, v'⟩] := by
      rw [rest]
      simp
    rcases List.mem_append.mp later with hm | hm
    · cases plain _ hm
    · cases List.mem_singleton.mp hm

end EveryReport

/-- An empty list has been published for each document that has gone, and then the diagnostics of each
tracked document that was compiled. -/
structure Scene.Announces (v : Scene) (c : Compilation) (v' : Scene) : Prop where
  compilation_eq : v'.compilation = some c
  published_eq : v'.published = v.published ++ (v.departed v').map (fun d => (d.uri, [])) ++
    (v'.documents.filter fun d => (c.source? d.file).isSome).map fun d => (d.uri, noticesOf c d)

/-- Everything has been published once: an empty list for each document that has gone, and then what the
compilation says of each tracked document. -/
structure Scene.Publicizes (v : Scene) (c : Compilation) (v' : Scene) : Prop where
  compilation_eq : v'.compilation = some c
  compiled : ∀ d ∈ v'.documents, (c.source? d.file).isSome = true
  published_eq : v'.published = v.published ++ (v.departed v').map (fun d => (d.uri, [])) ++
    v'.documents.map fun d => (d.uri, noticesOf c d)

namespace Workspace

/-- The one state is what a report makes of the other. If it has nothing to announce, a read has failed. -/
structure Informs (w w' : Workspace) : Prop where
  record : w.record <+: w'.record
  history : ∃ inner, w'.history = w.history ++
    (⟨.telling .updated none, w.scene⟩ :: inner ++ [⟨.told .updated none, w'.scene⟩]) ∧
      ∀ p ∈ inner, p.moment.isUpdate = false
  announces : (∃ c, w.scene.Announces c w'.scene) ∨ (w'.compilation = none ∧ w.Stumbles w')

def showingAll (w : Workspace) (notices : Document → List Notice) (all : List Document) : Workspace :=
  { w with record := w.record ++ all.map fun d => .published d.uri (notices d) }

variable {w w' w'' : Workspace} {c : Compilation}

theorem published_showingAll (w : Workspace) (notices : Document → List Notice) (all : List Document) :
    (w.showingAll notices all).published = w.published ++ all.map fun d => (d.uri, notices d) := by
  simp [showingAll, published, Scene.published, scene, List.filterMap_map, Function.comp_def, Observation.notices?]

theorem isSome_source? (fits : w.core.Fits c) (filed : w.holdings.Filed) :
    ∀ d ∈ w.trackedDocuments, (c.source? d.file).isSome = true := by
  intro d hm
  obtain ⟨id, ht, hd⟩ := tracked_of_mem filed hm
  obtain ⟨s, hs⟩ := Table.mem_keys_iff.mp ((fits.keys_iff d.file).mpr (Table.mem_keys_of_get? ht))
  rw [Compilation.source?, hs]
  rfl

theorem departed_self (v : Scene) : v.departed v = [] := by
  rw [Scene.departed, List.filter_eq_nil_iff]
  intro d hm
  simpa using ⟨d, hm, rfl⟩

end Workspace

namespace Task

variable {w : Workspace} {depth : Nat}

/-- The diagnostics of the documents that are part of the compilation are published. -/
theorem ends_publishCompiled {Q : Except Fault Unit → Workspace → Prop} (c : Compilation) (all : List Document)
    (w : Workspace) :
    Ends (all.forM fun d => do
      if (c.source? d.file).isSome then
        observe (.published d.uri ((c.diagnosticsFor d.file).map .ofDiagnostic))) w Q ↔
      Q (.ok ()) (w.showingAll (noticesOf c) (all.filter fun d => (c.source? d.file).isSome)) := by
  induction all generalizing w with
  | nil => simp [Workspace.showingAll]
  | cons d rest ih =>
    rw [List.forM, Work.ends_bind]
    by_cases compiled : (c.source? d.file).isSome = true
    · rw [if_pos compiled, observe, Work.ends_modify, Work.next_ok, ih]
      simp [Workspace.showingAll, noticesOf, compiled]
    · rw [if_neg compiled, Work.ends_pure, Work.next_ok, ih]
      simp [compiled]

theorem ends_compilation_reporting (solo : w.Solo) (phase : w.gate.phase = .reporting) :
    Ends (compilation (Task.call depth)) w fun r w' => w'.Solo ∧ w.Quietly w' ∧ w'.gate = w.gate ∧
      match r with
      | .ok c => w'.compilation = some c ∧
          w'.published = w.published ++ (w.scene.departed w'.scene).map fun d => (d.uri, [])
      | .error _ => w'.compilation = none ∧ w.Stumbles w' := by
  rw [compilation, Work.ends_bind, Work.ends_get, Work.next_ok]
  cases made : w.compilation with
  | some c =>
    dsimp only
    rw [Work.ends_pure]
    refine ⟨solo, refl_of Workspace.Quietly w, rfl, made, ?_⟩
    rw [Workspace.departed_self, List.map_nil, List.append_nil]
  | none =>
    have begun : { w with gate := { w.gate with phase := .rebuilding } }.Solo :=
      solo.of_same rfl rfl rfl solo.filed
    have leaves {w₁ : Workspace} (solo₁ : w₁.Solo) : (leaving w w₁).Solo :=
      solo₁.of_same rfl rfl rfl solo₁.filed
    have gates {w₁ : Workspace} (suspensions : w₁.gate.suspensions = w.gate.suspensions) :
        (leaving w w₁).gate = w.gate := gate_leaving suspensions fun outside => absurd phase outside
    dsimp only
    rw [rebuild_eq]
    apply ends_rebuilding (ends_rebuildBody_solo begun rfl)
    · rintro c w₁ ⟨solo₁, quietly, suspensions, remakes⟩
      rw [Gate.ends_flush_of_not]
      · exact ⟨leaves solo₁, ⟨quietly.record, quietly.news⟩, gates suspensions, remakes.compilation_eq,
          remakes.published_eq⟩
      · rintro ⟨-, idle⟩
        have idle : (leaving w w₁).gate.phase = .idle := idle
        rw [gates suspensions, phase] at idle
        cases idle
    · rintro fault w₁ ⟨solo₁, quietly, suspensions, unmade, stumbles⟩
      exact ⟨leaves solo₁, ⟨quietly.record, quietly.news⟩, gates suspensions, unmade.trans made, stumbles⟩

/-- The inside of a report: the compilation is made if need be, and what it says is published. -/
theorem ends_publish_solo (solo : w.Solo) (phase : w.gate.phase = .reporting) :
    Ends (publish (Task.call depth)) w fun _ w' => w'.Solo ∧ w.Quietly w' ∧ w'.gate = w.gate ∧
      ((∃ c, w.scene.Announces c w'.scene) ∨ (w'.compilation = none ∧ w.Stumbles w')) := by
  rw [publish]
  apply (ends_compilation_reporting solo phase).bind
  · rintro c w₁ ⟨solo₁, quietly, gate, compiled, cleared⟩
    rw [Work.ends_bind, Work.ends_get, Work.next_ok, ends_publishCompiled]
    refine ⟨solo₁.of_same rfl rfl rfl solo₁.filed, ?_, gate, Or.inl ⟨c, compiled, ?_⟩⟩
    · exact quietly.trans (.of_same (List.prefix_append _ _) rfl)
    · refine (Workspace.published_showingAll _ _ _).trans ?_
      rw [cleared]
      rfl
  · rintro fault w₁ ⟨solo₁, quietly, gate, unmade⟩
    exact ⟨solo₁, quietly, gate, Or.inr unmade⟩

theorem ends_report_solo (solo : w.Solo) (phase : w.gate.phase = .reporting) :
    Ends (report (Task.call (depth + 1))) w fun r w' => r = .ok () ∧ w'.Solo ∧ w'.gate = w.gate ∧
      w.Informs w' := by
  let told := w.passed (.telling .updated none)
  have solo₁ : told.Solo := solo.of_same rfl rfl rfl solo.filed
  rw [report, ends_fire_iff, solo.listeners_eq .updated, Topic.tellers, Bus.deliver, Work.ends_bind,
    Work.ends_quietly]
  refine (ends_publish_solo solo₁ phase).mono ?_
  rintro _ w₁ ⟨solo₂, ⟨record, inner, history, plain⟩, gate, announces⟩
  rw [Work.next_ok, Bus.deliver, Work.ends_bind, Work.ends_quietly, call_observer, note, observe,
    Work.ends_modify, Work.next_ok, Bus.deliver, Work.ends_pure]
  refine ⟨rfl, solo₂.of_same rfl rfl rfl solo₂.filed, gate, record.trans (List.prefix_append _ _),
    ⟨inner, ?_, plain⟩, announces.imp ?_ ?_⟩
  · change w₁.history ++ [⟨.told .updated none, (w₁.noting .updated).scene⟩] = _
    rw [history]
    simp [told, Workspace.passed]
    rfl
  · rintro ⟨c, compiled, published⟩
    have unsent : (w₁.noting .updated).published = w₁.published := Workspace.published_noting rfl
    exact ⟨c, compiled, unsent.trans published⟩
  · rintro ⟨unmade, stumbles⟩
    exact ⟨unmade, stumbles.until (List.prefix_append _ _)⟩

end Task

namespace Workspace

structure Ready (w : Workspace) : Prop extends w.Solo where
  phase_eq : w.gate.phase = .idle

structure Rests (w w' : Workspace) : Prop extends w.Quietly w' where
  holdings_eq : w'.holdings = w.holdings
  compilation_eq : w'.compilation = w.compilation

inductive Announced (w w' : Workspace) : Prop
  | quietly : w.Quietly w' → Announced w w'
  | told {w₁ w₂} : w.Quietly w₁ → w₁.Informs w₂ → w₂.Rests w' → Announced w w'

variable {w w' w'' : Workspace}

theorem Ready.of_same (ready : w.Ready) (phase : w'.gate.phase = w.gate.phase) (bus : w'.bus = w.bus)
    (scripts : w'.scripts = w.scripts) (subscriptions : w'.subscriptions = w.subscriptions)
    (filed : w'.holdings.Filed) : w'.Ready :=
  ⟨ready.toSolo.of_same bus scripts subscriptions filed, phase.trans ready.phase_eq⟩

theorem Rests.of_same (record : w.record <+: w'.record) (history : w'.history = w.history)
    (holdings : w'.holdings = w.holdings) (compilation : w'.compilation = w.compilation) : w.Rests w' :=
  ⟨.of_same record history, holdings, compilation⟩

instance : IsPreorder Workspace Rests where
  refl _ := .of_same (List.prefix_refl _) rfl rfl rfl
  trans _ _ _ h h' :=
    ⟨h.toQuietly.trans h'.toQuietly, h'.holdings_eq.trans h.holdings_eq, h'.compilation_eq.trans h.compilation_eq⟩

theorem Announced.before (quietly : w.Quietly w') (h : Announced w' w'') : Announced w w'' := by
  cases h with
  | quietly h' => exact .quietly (quietly.trans h')
  | told h' informs rests => exact .told (quietly.trans h') informs rests

theorem Announced.after (h : Announced w w') (rests : w'.Rests w'') : Announced w w'' := by
  cases h with
  | quietly h' => exact .quietly (h'.trans rests.toQuietly)
  | told h' informs rests' => exact .told h' informs (trans_of Rests rests' rests)

abbrev Restful : Workspace → Workspace → Prop := Keeping Ready Rests

abbrev Announcing : Workspace → Workspace → Prop := Keeping Ready (Announced)

theorem inside_announcing : Inside Restful Announcing where
  widen h ready := ⟨(h ready).1, .quietly (h ready).2.toQuietly⟩
  before h h' ready := by
    obtain ⟨ready', rests⟩ := h ready
    exact ⟨(h' ready').1, .before rests.toQuietly (h' ready').2⟩
  after h h' ready := by
    obtain ⟨ready', announced⟩ := h ready
    exact ⟨(h' ready').1, announced.after (h' ready').2⟩

theorem restful_noting (w : Workspace) (o : Observation) : Restful w (w.noting o) := fun ready =>
  ⟨ready.of_same rfl rfl rfl rfl ready.filed, .of_same (List.prefix_append _ _) rfl rfl rfl⟩

theorem overlooks_restful : Overlooks Restful where
  remarked w o _ := restful_noting w o
  answered _ _ ready :=
    ⟨ready.of_same rfl rfl rfl rfl ready.filed, .of_same (List.prefix_refl _) rfl rfl rfl⟩
  unsubscribed _ _ _ subscribed ready := by
    rw [ready.subscriptions_eq] at subscribed
    cases subscribed

theorem restful_gate (w : Workspace) (g : Gate) (same : g.phase = w.gate.phase) :
    Restful w { w with gate := g } := fun ready =>
  ⟨ready.of_same same rfl rfl rfl ready.filed, .of_same (List.prefix_refl _) rfl rfl rfl⟩

end Workspace

open Workspace (Announcing Restful Announced Ready)

namespace Task

variable {w : Workspace} {depth : Nat} {id : DocumentId} {d : Document}

theorem restful_fire {topic : Topic} (quiet : topic ≠ .updated) (id : DocumentId) :
    Along Restful (fire (Task.call depth) topic (some id)) := by
  apply Work.along_keeping_of
  intro w ready
  rw [ends_fire_solo ready.toSolo quiet]
  exact ⟨ready.of_same rfl rfl rfl rfl ready.filed, Workspace.quietly_heard quiet, rfl, rfl⟩

theorem ends_flush_told (ready : w.Ready) (due : w.gate.isDue = true) :
    Ends (Gate.flush (report (Task.call (depth + 1)))) w fun _ w' => w'.Ready ∧
      w'.gate = { w.gate with pending := false } ∧ w.Informs w' := by
  let inside := { w with gate := { w.gate with phase := .reporting, pending := false } }
  have solo : inside.Solo := ready.toSolo.of_same rfl rfl rfl ready.filed
  apply Gate.ends_flush_once due ready.phase_eq
  refine (ends_report_solo (w := inside) solo rfl).mono ?_
  rintro r w₁ ⟨ok, solo₁, gate, record, history, announces⟩
  refine ⟨ok, gate, ⟨solo₁.of_same rfl rfl rfl solo₁.filed, rfl⟩, ?_, record, history, announces⟩
  change Gate.mk .idle w.gate.suspensions false = _
  rw [← ready.phase_eq]

/-- What has been noted is reported as soon as nothing stands in the way, and by one report. -/
theorem announcing_flush : Along Announcing (Gate.flush (report (Task.call (depth + 1)))) := by
  apply Work.along_keeping_of
  intro w ready
  by_cases due : w.gate.isDue = true
  · refine (ends_flush_told ready due).mono ?_
    rintro _ w' ⟨ready', -, informs⟩
    exact ⟨ready', .told (refl_of Workspace.Quietly w) informs (refl_of Workspace.Rests w')⟩
  · rw [Gate.ends_flush_of_not fun both => due both.1]
    exact ⟨ready, .quietly (refl_of Workspace.Quietly w)⟩

theorem announcing_request : Along Announcing (Gate.request (report (Task.call (depth + 1)))) := by
  apply Workspace.inside_announcing.bind_before
  · exact fun w => Workspace.restful_gate w _ rfl
  · exact fun _ => announcing_flush

theorem announcing_resume : Along Announcing (Gate.resume (report (Task.call (depth + 1)))) := by
  apply Workspace.inside_announcing.bind_before Gate.along_read
  intro g
  split
  · apply Workspace.inside_announcing.bind_before
    · exact fun w => Workspace.restful_gate w _ rfl
    · exact fun _ => announcing_flush
  · exact (Work.along_pure ()).mono fun _ _ => Workspace.inside_announcing.widen

theorem announcing_rebuild : Along Announcing (rebuild (Task.call (depth + 1))) := by
  apply Work.along_keeping_of
  intro w ready
  have begun : { w with gate := { w.gate with phase := .rebuilding } }.Solo :=
    ready.toSolo.of_same rfl rfl rfl ready.filed
  have leaves {w₁ : Workspace} (solo₁ : w₁.Solo) : (leaving w w₁).Ready :=
    ⟨solo₁.of_same rfl rfl rfl solo₁.filed, ready.phase_eq⟩
  rw [rebuild_eq]
  apply ends_rebuilding (ends_rebuildBody_solo begun rfl)
  · rintro c w₁ ⟨solo₁, quietly, -⟩
    have rebuilt : w.Quietly (leaving w w₁) := ⟨quietly.record, quietly.news⟩
    refine (announcing_flush (leaving w w₁)).mono ?_
    intro r w' h'
    obtain ⟨ready', announced⟩ := h' (leaves solo₁)
    have both : w'.Ready ∧ Announced w w' := ⟨ready', announced.before rebuilt⟩
    cases r <;> exact both
  · rintro fault w₁ ⟨solo₁, quietly, -⟩
    exact ⟨leaves solo₁, .quietly ⟨quietly.record, quietly.news⟩⟩

theorem ends_of_announcing {α : Type} {task : Task α} {w w₁ : Workspace} (told : Along Announcing task)
    (ready : w₁.Ready) (quietly : w.Quietly w₁) :
    Ends task w₁ fun _ w' => w'.Ready ∧ Announced w w' :=
  (told w₁).mono fun _ _ h' => ⟨(h' ready).1, (h' ready).2.before quietly⟩

theorem announcing_tell {isNew hasChanged : Bool} {opened : Option Topic}
    (quiet : ∀ topic ∈ opened, topic ≠ .updated) (id : DocumentId) :
    Along Announcing (tell (Task.call (depth + 1)) id isNew hasChanged opened) :=
  along_tell Workspace.inside_announcing (restful_fire (by decide) id)
    (fun topic hm => restful_fire (quiet topic hm) id) (restful_fire (by decide) id) announcing_request

theorem ends_remove_announced (ready : w.Ready) (hd : w.holdings.document? id = some d) :
    Ends (remove (Task.call (depth + 1)) id) w fun _ w' => w'.Ready ∧ Announced w w' := by
  apply ends_remove_of hd
  · intro _
    have passes : w.Quietly (w.passed (.missing id)) :=
      ⟨List.prefix_refl _, [⟨.missing id, w.scene⟩], rfl, by simp [Moment.isUpdate]⟩
    exact ⟨ready.of_same rfl rfl rfl rfl ready.filed, .quietly passes⟩
  · intro _ _
    have told : Along Announcing (do
        fire (Task.call (depth + 1)) .closed (some id)
        Gate.request (report (Task.call (depth + 1)))) :=
      Workspace.inside_announcing.bind_before (restful_fire (by decide) id) fun _ => announcing_request
    exact ends_of_announcing told (ready.of_same rfl rfl rfl rfl ready.filed.forget)
      (.of_same (List.prefix_refl _) rfl)

theorem ends_letGo_announced {topic : Topic} (ready : w.Ready) (quiet : topic ≠ .updated)
    (hd : w.holdings.document? id = some d) :
    Ends (letGo (Task.call (depth + 1)) topic id) w fun _ w' => w'.Ready ∧ Announced w w' := by
  apply ends_letGo_of (P := fun _ w' => w'.Ready ∧ w.Rests w')
  · refine ((ends_fire_ok topic _ w).and (restful_fire quiet id w)).mono ?_
    rintro r w' ⟨ok, h'⟩
    obtain ⟨ready', rests⟩ := h' ready
    exact ⟨ok, d, by rw [rests.holdings_eq, hd], ready', rests⟩
  · exact fun _ w' ⟨ready', rests⟩ _ => ⟨ready', .quietly rests.toQuietly⟩
  · rintro e w' ⟨ready', rests⟩ hd' _
    exact (ends_remove_announced ready' hd').mono fun _ _ h => ⟨h.1, h.2.before rests.toQuietly⟩

theorem announcing_releaseOnServer (id : DocumentId) :
    Along Announcing (releaseOnServer (Task.call (depth + 1)) id) := by
  apply Work.along_keeping_of
  intro w ready
  apply ends_releaseOnServer_of
  · exact ⟨ready, .quietly (refl_of Workspace.Quietly w)⟩
  · intro d hd _
    have ready₁ : (w.serverClosed id d).Ready :=
      ready.of_same rfl rfl rfl rfl (ready.filed.revise fun _ _ => rfl)
    have closes : w.Quietly (w.serverClosed id d) := .of_same (List.prefix_append _ _) rfl
    refine (ends_letGo_announced ready₁ (by decide) (Workspace.document?_serverClosed hd)).mono ?_
    exact fun _ _ h => ⟨h.1, h.2.before closes⟩

theorem announcing_closeOnServer (locator : Locator) :
    Along Announcing (closeOnServer (Task.call (depth + 1)) locator) := by
  apply Workspace.inside_announcing.bind_before (along_find locator)
  intro found
  cases found with
  | none => exact (Work.along_pure ()).mono fun _ _ => Workspace.inside_announcing.widen
  | some id => exact announcing_releaseOnServer id

theorem announcing_closeOnClient (u : String) :
    Along Announcing (closeOnClient (Task.call (depth + 1)) u) := by
  apply Work.along_keeping_of
  intro w ready
  have still : w.Ready ∧ Announced w w := ⟨ready, .quietly (refl_of Workspace.Quietly w)⟩
  apply ends_closeOnClient_of ready.filed
  · exact fun _ _ => still
  · exact fun _ _ _ => still
  · intro file id d _ _ hd _ _
    have ready₁ : (w.clientClosed id d).Ready :=
      ready.of_same rfl rfl rfl rfl (ready.filed.revise fun _ _ => rfl)
    have closes : w.Quietly (w.clientClosed id d) := .of_same (List.prefix_append _ _) rfl
    refine (ends_letGo_announced ready₁ (by decide) (Workspace.document?_clientClosed hd)).mono ?_
    exact fun _ _ h => ⟨h.1, h.2.before closes⟩

theorem announcing_updateOnClient (u text : String) :
    Along Announcing (updateOnClient (Task.call (depth + 1)) u text) := by
  apply Work.along_keeping_of
  intro w ready
  apply ends_updateOnClient_of ready.filed
  · exact fun _ _ => ⟨ready, .quietly (refl_of Workspace.Quietly w)⟩
  · intro file id isNew d h _ p
    apply ends_of_announcing
    · apply announcing_tell
      intro topic hm
      split at hm <;> cases hm
      decide
    · exact ready.of_same rfl rfl rfl rfl ((p.filed ready.filed).revise fun _ _ => rfl)
    · exact .of_same (List.prefix_append _ _) rfl

theorem announcing_openOnServer (locator : Locator) :
    Along Announcing (openOnServer (Task.call (depth + 1)) locator) := by
  apply Work.along_keeping_of
  intro w ready
  apply ends_openOnServer_of ready.filed
  · exact fun _ _ => ⟨ready, .quietly (refl_of Workspace.Quietly w)⟩
  · intro file _ outcome _ _
    obtain ⟨ready', rests⟩ := Workspace.restful_noting w (.read file outcome) ready
    exact ⟨ready', .quietly rests.toQuietly⟩
  · intro file text outcome id isNew d h u _ _ _ p
    apply ends_of_announcing
    · apply announcing_tell
      intro topic hm
      split at hm <;> cases hm
      decide
    · exact ready.of_same rfl rfl rfl rfl ((p.filed ready.filed).revise fun _ _ => rfl)
    · exact .of_same ((List.prefix_append _ _).trans (List.prefix_append _ _)) rfl

theorem announcing_changeOnClient (u : String) (texts : List String) :
    Along Announcing (changeOnClient (Task.call (depth + 1)) u texts) := by
  rw [changeOnClient]
  cases texts.getLast? with
  | none => exact (Work.along_pure ()).mono fun _ _ => Workspace.inside_announcing.widen
  | some text => exact announcing_updateOnClient u text

theorem announced_on_disk (ready : w.Ready) (disk : Table String (List UInt8)) (failing : List String) :
    { w with disk := disk, failing := failing }.Ready ∧
      Announced w { w with disk := disk, failing := failing } :=
  ⟨ready.of_same rfl rfl rfl rfl ready.filed, .quietly (.of_same (List.prefix_refl _) rfl)⟩

theorem announcing_perform {action : Action} (solitary : action.isSolitary = true) :
    Along Announcing (perform (Task.call (depth + 1)) action) := by
  have answer {α : Type} {task : Task α} {give : α → Task Answer} (h : Along Announcing task)
      (hn : ∀ a, Along Restful (give a)) : Along Announcing (task >>= give) :=
    Workspace.inside_announcing.bind_after h hn
  have aside {task : Task Unit} (h : Along Restful task) : Along Announcing task :=
    h.mono fun _ _ => Workspace.inside_announcing.widen
  by_cases reading : action.isReading = true
  · apply along_perform Workspace.inside_announcing Workspace.overlooks_restful action reading
    · exact fun _ => announcing_rebuild
    · rintro _ _ _ _ rfl
      cases solitary
  · cases action with
    | openOnServer locator =>
      apply answer (announcing_openOnServer locator)
      intro found
      cases found with
      | none => exact Work.along_pure _
      | some id => exact (along_document id).bind fun _ => Work.along_pure _
    | closeOnServer locator => exact answer (announcing_closeOnServer locator) fun _ => Work.along_pure _
    | openOnClient u text => exact answer (announcing_updateOnClient u text) fun _ => Work.along_pure _
    | changeOnClient u texts => exact answer (announcing_changeOnClient u texts) fun _ => Work.along_pure _
    | closeOnClient u => exact answer (announcing_closeOnClient u) fun _ => Work.along_pure _
    | suspend =>
      exact answer (aside fun w => Workspace.restful_gate w _ rfl) fun _ => Work.along_pure _
    | resume => exact answer announcing_resume fun _ => Work.along_pure _
    | request => exact answer announcing_request fun _ => Work.along_pure _
    | write file bytes => exact fun w ready => announced_on_disk ready _ w.failing
    | delete file => exact fun w ready => announced_on_disk ready _ w.failing
    | setFailing file failing => exact fun w ready => announced_on_disk ready w.disk _
    | suspended _ | rebuilding _ | subscribe _ _ _ _ | dispose | shutDown => cases solitary
    | _ => exact absurd rfl reading

end Task

namespace Workspace

variable {w : Workspace} {action : Action} {actions : List Action}

theorem ready_ofSetup (s : Setup) (alone : s.cast = []) (client : s.hasClient = true) : (ofSetup s).Ready := by
  have listeners := listeners_ofSetup s alone client
  obtain ⟨host, files, reportUnused, hasWatcher, hasClient, cast⟩ := s
  cases alone
  cases client
  refine ⟨⟨⟨listeners, rfl⟩, rfl, ?_⟩, rfl⟩
  intro file id ht
  cases ht

theorem Ready.turn (ready : w.Ready) (solitary : action.isSolitary = true) :
    (w.turn action).2.Ready ∧ w.Announced (w.turn action).2 :=
  Task.announcing_perform solitary w ready

theorem Ready.run (ready : w.Ready) (solitary : ∀ action ∈ actions, action.isSolitary = true) :
    (w.run actions).Ready := by
  induction actions generalizing w with
  | nil => exact ready
  | cons action rest ih =>
    exact ih (ready.turn (solitary action List.mem_cons_self)).1
      fun a hm => solitary a (List.mem_cons_of_mem _ hm)

/-- When all is in order after the report, each tracked document was compiled. -/
theorem Informs.publicizes {w₁ w₂ : Workspace} (informs : w₁.Informs w₂) (rests : w₂.Rests w)
    (sound : w.core.Sound []) (read : ∀ file, .read file .failed ∉ w₂.record.drop w₁.record.length) :
    ∃ c, w₁.scene.Publicizes c w₂.scene := by
  rcases informs.announces with ⟨c, compilation, published⟩ | ⟨-, file, news, record, failed⟩
  · have made : w.core.compilation = some c := rests.compilation_eq.trans compilation
    have same : w.trackedDocuments = w₂.trackedDocuments :=
      congrArg (fun h : Holdings => h.tracked.values.filterMap h.document?) rests.holdings_eq
    have compiled : ∀ d ∈ w₂.scene.documents, (c.source? d.file).isSome = true := by
      intro d hm
      apply isSome_source? (sound.fits rfl c made) sound.known.filed
      rw [same]
      exact hm
    refine ⟨c, compilation, compiled, ?_⟩
    rw [published, List.filter_eq_self.mpr compiled]
  · apply absurd failed
    have later : w₂.record.drop w₁.record.length = news := by rw [record, List.drop_left]
    rw [← later]
    exact read file

/-- What an action adds to the history are whole reports, and what is no part of a report. -/
theorem Announced.everyReport {R : Scene → Scene → Prop} {w' : Workspace} (h : w.Announced w')
    (reports : ∀ w₁ w₂ : Workspace, w₁.Informs w₂ → w₂.Rests w' → R w₁.scene w₂.scene)
    (before : EveryReport R w.history) : EveryReport R w'.history := by
  cases h with
  | quietly quietly =>
    obtain ⟨news, history, plain⟩ := quietly.news
    rw [history]
    exact before.append plain
  | @told w₁ w₂ quietly informs rests =>
    obtain ⟨news, history, plain⟩ := quietly.news
    obtain ⟨inner, history₁, plain₁⟩ := informs.history
    obtain ⟨more, history₂, plain₂⟩ := rests.news
    rw [history₂, history₁, history]
    exact ((before.append plain).append_report plain₁ (reports w₁ w₂ informs rests)).append plain₂

/-- In a session with the client as the only listener, every report in which no read fails publishes
everything once. First come empty lists for the documents that its rebuild lets go of, in the order of
tracking. Then there is one list for each document that is tracked at the end, in that order, with the
diagnostics of its source in the compilation. -/
theorem publicizes_run (s : Setup) (alone : s.cast = []) (client : s.hasClient = true) (actions : List Action)
    (solitary : ∀ a ∈ actions, a.isSolitary = true) :
    EveryReport (fun v v' => v.record <+: v'.record ∧
      ((∀ file, .read file .failed ∉ v'.record.drop v.record.length) → ∃ c, v.Publicizes c v'))
        ((ofSetup s).run actions).history := by
  have passive : ∀ c ∈ s.cast, Action.arePassive c.script.actions = true := by
    rw [alone]
    exact fun _ hm => by cases hm
  induction actions using List.reverseRecOn with
  | nil =>
    obtain ⟨bus, subscriptions, scripts, start⟩ := exists_ofSetup s
    rw [start]
    exact fun before v after none => by simp [run, empty] at none
  | append_singleton actions action ih =>
    have earlier : ∀ a ∈ actions, a.isSolitary = true := fun a hm => solitary a (List.mem_append_left _ hm)
    have last : action.isSolitary = true := solitary action (by simp)
    have sound := ((resting_ofSetup s passive).run fun a hm =>
      Action.isPlain_of_isSolitary (solitary a hm)).sound
    -- No report goes on from one action to the next, so the reports of the last action are its own.
    have announced := (((ready_ofSetup s alone client).run earlier).turn last).2
    rw [run_concat] at sound ⊢
    refine announced.everyReport (fun w₁ w₂ informs rests => ?_) (ih earlier)
    exact ⟨informs.record, informs.publicizes rests sound⟩

/-- A client, and a file that a document of its own may import. -/
def library : Setup := ⟨⟨none⟩, [("/b", [120, 58, 61, 39, 98, 39, 59])], false, false, true, []⟩

/-- The client opens a document that imports the file, and then does not import it any more. -/
def borrowing : List Action :=
  [.openOnClient "file:///a" "@import 'b'; y:=x;", .changeOnClient "file:///a" ["y:=x;"]]

set_option maxRecDepth 4000 in
theorem publicizes_run_borrowing :
    EveryReport (fun v v' => v.record <+: v'.record ∧
      ((∀ file, .read file .failed ∉ v'.record.drop v.record.length) → ∃ c, v.Publicizes c v'))
        ((ofSetup library).run borrowing).history ∧
      ((ofSetup library).run borrowing).tally = 2 ∧
      (((ofSetup library).run borrowing).record.all fun | .read _ .failed => false | _ => true) = true ∧
      ((ofSetup library).run borrowing).published =
        [("file:///a", []), ("file:///b", []), ("file:///b", []),
          ("file:///a", [⟨⟨0, 3, 0, 4⟩, 1, 2002, "GrammarLanguageServer", "Cannot find production 'x'."⟩])] :=
  ⟨publicizes_run library rfl rfl borrowing (by decide), by decide +kernel⟩

end Workspace
end GrammarWorkspace
