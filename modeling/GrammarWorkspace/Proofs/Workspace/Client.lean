import GrammarWorkspace.Proofs.Workspace.Listening

/-!
# The client as the only listener

Without scripts, the publisher and the clearer are the only listeners whose calls can be told from
outside. Whatever they do in the middle of other work, a URI under which the client was last shown
something stays that of a tracked document.
-/
namespace GrammarWorkspace

open Grammar (Compilation)
open Work (Ends)

def Topic.tellers : Topic → List Listener
  | .updated => [.publisher, .observer]
  | .closed => [.clearer, .observer]
  | _ => [.observer]

namespace Holdings

variable {h h' : Holdings} {uri : String}

def Names (h : Holdings) (uri : String) : Prop :=
  ∃ file id d, h.tracked.get? file = some id ∧ h.document? id = some d ∧ d.uri = uri

theorem Keeps.names (keeps : h.Keeps h') (hn : h.Names uri) : h'.Names uri := by
  obtain ⟨file, id, d, ht, hd, hu⟩ := hn
  obtain ⟨ht', d', hd', hu'⟩ := keeps file id d ht hd
  exact ⟨file, id, d', ht', hd', hu'.trans hu⟩

theorem names_forget {file : String} {id : DocumentId} {d : Document}
    (ht : h.tracked.get? file = some id) (hd : h.document? id = some d) (hne : d.uri ≠ uri)
    (hn : h.Names uri) : (h.forget file).Names uri := by
  obtain ⟨file', id', d', ht', hd', hu⟩ := hn
  refine ⟨file', id', d', ?_, hd', hu⟩
  rw [forget, Table.get?_erase, if_neg, ht']
  rintro rfl
  rw [ht] at ht'
  cases ht'
  rw [hd] at hd'
  cases hd'
  exact hne hu

end Holdings

namespace Workspace

variable {w w' : Workspace}

structure Attended (w : Workspace) : Prop where
  listeners_eq : ∀ topic : Topic, w.bus.listeners topic = topic.tellers
  scripts_eq : w.scripts = []

theorem Attended.same (h : w.Attended) (outside : w.SameOutside w') : w'.Attended where
  listeners_eq topic := by
    rw [outside.bus_eq]
    exact h.listeners_eq topic
  scripts_eq := outside.scripts_eq.trans h.scripts_eq

theorem listeners_ofSetup (s : Setup) (alone : s.cast = []) (client : s.hasClient = true) (topic : Topic) :
    (ofSetup s).bus.listeners topic = topic.tellers := by
  obtain ⟨host, files, reportUnused, hasWatcher, hasClient, cast⟩ := s
  cases alone
  cases client
  have bus_eq : (ofSetup ⟨host, files, reportUnused, hasWatcher, true, []⟩).bus =
      ⟨10, [⟨0, .updated, .publisher⟩, ⟨1, .closed, .clearer⟩, ⟨2, .created, .observer⟩,
        ⟨3, .openedOnClient, .observer⟩, ⟨4, .openedOnServer, .observer⟩,
        ⟨5, .contentChanged, .observer⟩, ⟨6, .closed, .observer⟩, ⟨7, .closedOnClient, .observer⟩,
        ⟨8, .closedOnServer, .observer⟩, ⟨9, .updated, .observer⟩]⟩ := rfl
  rw [bus_eq]
  cases topic <;> rfl

def Tidy (w : Workspace) (uri : String) : Prop :=
  ∀ notices, lastPublished uri w.record = some notices → notices ≠ [] → w.holdings.Names uri

theorem tidy_of_keeps {uri : String} (outside : w.SameOutside w') (keeps : w.holdings.Keeps w'.holdings)
    (tidy : w.Tidy uri) : w'.Tidy uri := by
  intro notices last shown
  rw [outside.published_eq] at last
  exact keeps.names (tidy notices last shown)

theorem names_of_mem {d : Document} (hm : d ∈ w.trackedDocuments) : w.holdings.Names d.uri := by
  obtain ⟨id, hi, hd⟩ := List.mem_filterMap.mp hm
  obtain ⟨⟨file, id'⟩, entry, rfl⟩ := List.mem_map.mp hi
  exact ⟨file, id', d, Table.get?_eq_some_iff.mpr entry, hd, rfl⟩

theorem tidy_published {uri u : String} {notices : List Notice}
    (named : notices ≠ [] → w.holdings.Names uri) (tidy : w.Tidy u) :
    (w.showing uri notices).Tidy u := by
  intro all last shown
  rw [showing, lastPublished_published] at last
  split at last
  · rename_i he
    subst he
    cases last
    exact named shown
  · exact tidy all last shown

end Workspace

/-- The client listens, and what it is shown stays tidy. -/
def Frame.client : Frame where
  Quiet := Workspace.Attended
  Extra w w' := ∀ uri, w.Tidy uri → w'.Tidy uri
  refl _ _ tidy := tidy
  trans h h' uri tidy := h' uri (h uri tidy)
  quiet_of_same := Workspace.Attended.same
  extra_of_keeps outside keeps _ := Workspace.tidy_of_keeps outside keeps
  extra_of_published _ hm _ := Workspace.tidy_published fun _ => Workspace.names_of_mem hm
  extra_of_cleared _ _ _ := Workspace.tidy_published fun shown => absurd rfl shown
  quiet_of_showing _ _ hq := ⟨hq.listeners_eq, hq.scripts_eq⟩

namespace Task

variable {depth : Nat} {dropping : List DocumentId} {w w₁ w' : Workspace} {k : Core}
  {id : DocumentId} {file : String} {d : Document}

theorem ends_note {Q : Except Fault Unit → Workspace → Prop} {topic : Topic}
    {about : Option DocumentId} (h : w.Becomes k w')
    (hq : ∀ w'', w.Becomes k w'' → Q (.ok ()) w'') : Ends (note topic about) w' Q := by
  cases about with
  | none => exact ends_observe h rfl hq
  | some id =>
    rw [note, document, Work.ends_bind, Work.ends_bind, Work.ends_get, Work.next_ok, Work.ends_pure,
      Work.next_ok, Work.ends_bind, Work.ends_get, Work.next_ok]
    exact ends_observe h rfl hq

theorem ends_fire_cleared (attended : w₁.Attended) (hd : w₁.document? id = some d) :
    Ends (fire (Task.call depth) .closed (some id)) w₁ fun r w' =>
      r = .ok () ∧ (w₁.showing d.uri []).Becomes w₁.core w' := by
  rw [ends_fire_iff, attended.listeners_eq .closed, Topic.tellers, Bus.deliver, Work.ends_bind,
    Work.ends_quietly, call_clearer, clearNotices, Work.ends_bind]
  refine ends_document ((Workspace.Becomes.refl w₁).passed _) hd ?_
  have shown : (w₁.showing d.uri []).Becomes w₁.core ((w₁.passed (.telling .closed (some id))).showing d.uri []) :=
    ⟨rfl, rfl, rfl, rfl, rfl, rfl, fun _ => rfl⟩
  rw [Work.next_ok, observe, Work.ends_modify, Work.next_ok, Bus.deliver, Work.ends_bind,
    Work.ends_quietly, call_observer]
  exact ends_note shown fun _ h' => ⟨rfl, h'.passed _⟩

theorem tidy_closed (outside : w.SameOutside w₁) (forgotten : w₁.holdings = w.holdings.forget file)
    (ht : w.tracked.get? file = some id) (hd : w.document? id = some d)
    (h : (w₁.showing d.uri []).Becomes w₁.core w') {uri : String} (tidy : w.Tidy uri) : w'.Tidy uri := by
  intro notices last shown
  rw [h.outside.published_eq, Workspace.showing, Workspace.lastPublished_published] at last
  rw [h.holdings_eq, Workspace.core_holdings, forgotten]
  split at last
  · cases last
    exact absurd rfl shown
  · rw [outside.published_eq] at last
    exact Holdings.names_forget ht hd ‹_› (tidy notices last shown)

theorem calm_client (depth : Nat) : Calm .client (Task.call depth) := by
  have closing : ∀ depth, ∀ {w w₁ : Workspace} {id : DocumentId} {file : String} {d : Document},
      w.Attended → w.tracked.get? file = some id → w.document? id = some d → w.SameOutside w₁ →
      w₁.holdings = w.holdings.forget file →
      Ends (fire (Task.call depth) .closed (some id)) w₁ fun _ w' => ∀ uri, w.Tidy uri → w'.Tidy uri := by
    intro depth w w₁ id file d attended ht hd outside forgotten
    have hd₁ : w₁.document? id = some d := by
      rw [← hd]
      exact congrArg (Holdings.document? · id) forgotten
    exact (ends_fire_cleared (attended.same outside) hd₁).mono fun _ _ h _ =>
      tidy_closed outside forgotten ht hd h.2
  refine ⟨?_, closing depth⟩
  induction depth with
  | zero =>
    intro dropping listener topic about
    cases listener with
    | observer => exact soft_note topic about
    | clearer => exact soft_clearNotices about
    | publisher => exact soft_pure _
    | scripted number => exact soft_pure _
  | succ depth ih =>
    intro dropping listener topic about
    cases listener with
    | observer => exact soft_note topic about
    | clearer => exact soft_clearNotices about
    | publisher => exact soft_publish ⟨ih, closing depth⟩
    | scripted number =>
      intro w hq hs
      have none : w.scripts[number]? = none := by rw [hq.scripts_eq]; rfl
      rw [Task.call, Work.ends_bind, nextPlay, Work.ends_bind, Work.ends_get, Work.next_ok, none]
      exact .refl hq hs

end Task
end GrammarWorkspace
