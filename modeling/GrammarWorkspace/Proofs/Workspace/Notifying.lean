import GrammarWorkspace.Proofs.Workspace.Announcing

/-!
# Notifications of the client

With the client as the only listener, a notification that changes a text or takes away the last holder of a
document is answered by one update. What is published then comes from a compilation of just the tracked documents.
The other notifications may change the roots and URIs, but nothing is published.
-/
namespace GrammarWorkspace

open Grammar (Compilation Loads Reached)
open Work (Ends)

def lastOf (uri : String) (published : List (String × List Notice)) : Option (List Notice) :=
  published.foldl (fun last p => if p.1 = uri then some p.2 else last) none

theorem lastOf_append_singleton (uri : String) (published : List (String × List Notice)) (p : String × List Notice) :
    lastOf uri (published ++ [p]) = if p.1 = uri then some p.2 else lastOf uri published := by
  rw [lastOf, List.foldl_append]
  rfl

/-- Of the lists that are published for some documents, the one of a document is the last one for its URI if
those with the same URI have the same list. -/
theorem lastOf_append_map (published : List (String × List Notice)) (notices : Document → List Notice)
    (all : List Document) {d : Document} (hm : d ∈ all)
    (alone : ∀ e ∈ all, e.uri = d.uri → notices e = notices d) :
    lastOf d.uri (published ++ all.map fun e => (e.uri, notices e)) = some (notices d) := by
  induction all using List.reverseRecOn with
  | nil => cases hm
  | append_singleton rest e ih =>
    rw [List.map_append, ← List.append_assoc, List.map_singleton, lastOf_append_singleton]
    split
    · rename_i same
      rw [alone e (List.mem_append_right _ List.mem_cons_self) same]
    · rename_i other
      refine ih ?_ fun e' hm' => alone e' (List.mem_append_left _ hm')
      rcases List.mem_append.mp hm with hm | hm
      · exact hm
      · rw [List.mem_singleton.mp hm] at other
        exact absurd rfl other

def Scene.Alone (v : Scene) (d : Document) : Prop := ∀ e ∈ v.documents, e.uri = d.uri → e.file = d.file

def Action.spelling? : Action → Option String
  | .openOnClient uri _ => some uri
  | .changeOnClient uri texts => texts.getLast?.map fun _ => uri
  | _ => none

/-- The client opens, changes or closes a document. -/
def Action.isNotification : Action → Bool
  | openOnClient _ _ | changeOnClient _ _ | closeOnClient _ => true
  | _ => false

namespace Holdings

variable {h : Holdings} {id : DocumentId} {file uri : String} {f : Document → Document}

theorem Names.revise (hn : h.Names uri)
    (kept : ∀ d, h.document? id = some d → d.uri = uri → (f d).uri = uri) : (h.revise id f).Names uri := by
  obtain ⟨file, other, d, ht, hd, hu⟩ := hn
  obtain ⟨d', hd', hu'⟩ : ∃ d', (h.revise id f).document? other = some d' ∧ d'.uri = uri := by
    rw [document?_revise]
    by_cases he : id = other
    · subst he
      exact ⟨f d, by rw [if_pos rfl, hd, Option.map_some], kept d hd hu⟩
    · exact ⟨d, by rw [if_neg he, hd], hu⟩
  exact ⟨file, other, d', ht, hd', hu'⟩

theorem Provides.opens {isNew : Bool} {d : Document} {h₁ : Holdings} (p : h.Provides file id isNew d h₁)
    (hk : h.Known []) : h.Opens h₁ file id isNew d := by
  cases p with
  | found ht hd => exact .of_tracked hk ht hd
  | made new => exact .of_untracked hk new

end Holdings

namespace Workspace

variable {w w' : Workspace} {g c : Compilation} {uri : String}

theorem lastPublished_eq (uri : String) (w : Workspace) : lastPublished uri w.record = lastOf uri w.published := by
  rw [lastPublished, lastOf, published, Scene.published, scene, List.foldl_filterMap]
  congr
  funext last o
  cases o <;> rfl

/-- What the workspace showed when the last update had been told. Before the first one there was nothing. -/
def lastUpdate (w : Workspace) : Scene :=
  ((w.history.filter (·.moment = .told .updated none)).getLast?.map Passage.scene).getD ⟨[], none, []⟩

theorem not_mem_moments {news : List Passage} {moment : Moment} (plain : ∀ p ∈ news, p.moment.isUpdate = false)
    (update : moment.isUpdate = true) : moment ∉ news.map Passage.moment := by
  intro happens
  obtain ⟨p, hm, rfl⟩ := List.mem_map.mp happens
  rw [plain p hm] at update
  cases update

theorem lastUpdate_of_quietly (quietly : w.Quietly w') : w'.lastUpdate = w.lastUpdate := by
  obtain ⟨news, history, plain⟩ := quietly.news
  have none : news.filter (·.moment = .told .updated none) = [] := by
    rw [List.filter_eq_nil_iff]
    intro p hm told
    exact not_mem_moments plain rfl (List.mem_map.mpr ⟨p, hm, of_decide_eq_true told⟩)
  rw [lastUpdate, lastUpdate, history, List.filter_append, none, List.append_nil]

theorem lastUpdate_of_informs (informs : w.Informs w') : w'.lastUpdate = w'.scene := by
  obtain ⟨inner, history, -⟩ := informs.history
  rw [lastUpdate, history, ← List.append_assoc, List.filter_append]
  simp

theorem tally_of_quietly (quietly : w.Quietly w') : w'.tally = w.tally := by
  obtain ⟨news, history, plain⟩ := quietly.news
  have none : (news.map Passage.moment).count (.telling .updated none) = 0 :=
    List.count_eq_zero.mpr (not_mem_moments plain rfl)
  rw [tally, tally, moments, moments, history, List.map_append, List.count_append, none, Nat.add_zero]

theorem tally_of_informs (informs : w.Informs w') : w'.tally = w.tally + 1 := by
  obtain ⟨inner, history, plain⟩ := informs.history
  have none : (inner.map Passage.moment).count (.telling .updated none) = 0 :=
    List.count_eq_zero.mpr (not_mem_moments plain rfl)
  rw [tally, tally, moments, moments, history]
  simp [none]

/-- What is published under the URIs of the last update comes from this compilation of just the tracked
documents, from the roots of then. -/
structure Informed (w : Workspace) (g : Compilation) : Prop where
  reportUnused_eq : g.request.reportUnused = w.reportUnused
  roots_eq : g.request.roots = w.lastUpdate.roots
  loads : Loads w.holdings.reading {} g.request.roots g.sources
  keys_iff : ∀ file, file ∈ g.sources.keys ↔ file ∈ w.files
  files_iff : ∀ file, (∃ d ∈ w.lastUpdate.documents, d.file = file) ↔ file ∈ w.files
  shows : ∀ d ∈ w.lastUpdate.documents, w.lastUpdate.Alone d →
    lastPublished d.uri w.record = some (noticesOf g d)

structure Obstructed (w : Workspace) : Prop where
  compilation_eq : w.compilation = none
  tracked : ∀ root ∈ w.lastUpdate.roots, root ∈ w.files
  breaks : ∃ file fault, Reached w.holdings.reading w.lastUpdate.roots file ∧
    w.holdings.reading file = .error fault

/-- Between notifications all is in order, and the client has been told what there was to tell. -/
structure Served (w : Workspace) : Prop extends w.Ready where
  sound : w.core.Sound []
  gate_eq : w.gate = .initial
  failing_eq : w.failing = []
  told : (∃ g, w.Informed g) ∨ w.Obstructed

structure Unserved (w : Workspace) : Prop extends w.Ready where
  sound : w.core.Sound []
  gate_eq : w.gate = { Gate.initial with pending := true }
  failing_eq : w.failing = []
  compilation_eq : w.compilation = none

theorem Served.still (hs : w.Served) (ready : w'.Ready) (sound : w'.core.Sound []) (gate : w'.gate = w.gate)
    (quietly : w.Quietly w') (published : w'.published = w.published) (failing : w'.failing = w.failing)
    (reportUnused : w'.reportUnused = w.reportUnused) (files : w'.files = w.files)
    (reading : w'.holdings.reading = w.holdings.reading)
    (compilation : w'.compilation = w.compilation ∨ w'.compilation = none) : w'.Served where
  toReady := ready
  sound := sound
  gate_eq := gate.trans hs.gate_eq
  failing_eq := failing.trans hs.failing_eq
  told := by
    have last := lastUpdate_of_quietly quietly
    refine hs.told.imp ?_ ?_
    · rintro ⟨g, informed⟩
      refine ⟨g, informed.reportUnused_eq.trans reportUnused.symm, ?_, ?_, ?_, ?_, ?_⟩
      · rw [last]
        exact informed.roots_eq
      · rw [reading]
        exact informed.loads
      · rw [files]
        exact informed.keys_iff
      · rw [files, last]
        exact informed.files_iff
      · rw [last]
        intro d hm alone
        rw [lastPublished_eq, published, ← lastPublished_eq]
        exact informed.shows d hm alone
    · intro obstructed
      refine ⟨?_, ?_, ?_⟩
      · rw [obstructed.compilation_eq, or_self] at compilation
        exact compilation
      · rw [files, last]
        exact obstructed.tracked
      · rw [reading, last]
        exact obstructed.breaks

/-- A report of which something was announced shows the client what the compilation says. -/
theorem informed_of_informs (gathered : w'.holdings.Gathered) (fits : w'.core.Fits c) (filed : w'.holdings.Filed)
    (last : w'.lastUpdate = w'.scene) (announces : w.scene.Announces c w'.scene) : w'.Informed c := by
  have roots : c.request.roots = w'.holdings.clientFiles := congrArg Grammar.Request.roots fits.request_eq
  refine ⟨congrArg Grammar.Request.reportUnused fits.request_eq, ?_, ?_, fits.keys_iff, ?_, ?_⟩
  · rw [last, roots]
    rfl
  · rw [roots]
    exact Holdings.loads_reading gathered fits.loads
  · intro file
    rw [last, ← map_file_trackedDocuments filed, List.mem_map]
    rfl
  · rw [last]
    intro d hm alone
    have compiled : ∀ e ∈ w'.scene.documents, (c.source? e.file).isSome = true := isSome_source? fits filed
    have published := announces.published_eq
    rw [List.filter_eq_self.mpr compiled] at published
    rw [lastPublished_eq, Workspace.published, published]
    apply lastOf_append_map _ (noticesOf c) _ hm
    intro e he same
    rw [noticesOf, noticesOf, alone e he same]

theorem served_of_informs (hs : w.Unserved) (ready : w'.Ready) (gate : w'.gate = .initial)
    (drifts : w.Drifts .client [] w') (informs : w.Informs w')
    (breaks : w'.compilation = none → w.holdings.Breaks) : w'.Served where
  toReady := ready
  sound := drifts.sound
  gate_eq := gate
  failing_eq := drifts.core.later.failing_eq.trans hs.failing_eq
  told := by
    have last := lastUpdate_of_informs informs
    rcases informs.announces with ⟨c, announces⟩ | ⟨unmade, -⟩
    · have compiled : w'.compilation = some c := announces.compilation_eq
      have gathered := drifts.core.gathered hs.compilation_eq (by rw [core_compilation, compiled]; rfl)
      exact Or.inl ⟨c, informed_of_informs gathered (drifts.sound.fits rfl c compiled) ready.filed last announces⟩
    · refine Or.inr ⟨unmade, ?_, ?_⟩
      · rw [last]
        intro root hm
        obtain ⟨id, d, ht, -⟩ := (Holdings.mem_clientFiles drifts.sound.known).mp hm
        exact Table.mem_keys_of_get? ht
      · rw [last]
        exact drifts.core.later.breaks_iff.mpr (breaks unmade)

def rewrites (w : Workspace) (u text : String) : Bool :=
  match w.host.fileName (.text u) with
  | .ok file => w.holdings.text? file ≠ some text
  | .error _ => false

def frees (w : Workspace) (u : String) : Bool :=
  match w.host.fileName (.text u) with
  | .ok file => (w.holdings.filed? file).any fun d => d.onClient && !d.onServer
  | .error _ => false

def updates (w : Workspace) : Action → Bool
  | .openOnClient u text => w.rewrites u text
  | .changeOnClient u texts => texts.getLast?.any (w.rewrites u)
  | .closeOnClient u => w.frees u
  | _ => false

def Respells (w : Workspace) (u uri : String) : Prop :=
  ∃ d ∈ w.trackedDocuments, w.host.fileName (.text u) = .ok d.file ∧ d.uri = uri ∧ u ≠ uri

/-- A notification has been answered. Nothing comes to be shown without a document, unless under a lost URI. -/
structure Serves (w : Workspace) (updates : Bool) (lost : String → Prop) (w' : Workspace) : Prop where
  served : w'.Served
  tally_eq : w'.tally = w.tally + if updates then 1 else 0
  tidy : ∀ uri, ¬ lost uri → w.Tidy uri → w'.Tidy uri

structure Overhears (w w' : Workspace) : Prop extends w.Quietly w' where
  ready : w'.Ready
  core_eq : w'.core = w.core
  gate_eq : w'.gate = w.gate
  published_eq : w'.published = w.published

variable {topic : Topic} {id : DocumentId} {d : Document} {file : String}

theorem Served.serves (hs : w.Served) (lost : String → Prop) : w.Serves false lost w :=
  ⟨hs, rfl, fun _ _ tidy => tidy⟩

theorem Overhears.refl (ready : w.Ready) : w.Overhears w := ⟨refl_of Quietly w, ready, rfl, rfl, rfl⟩

theorem Overhears.heard (h : w.Overhears w') (quiet : topic ≠ .updated) (unclosed : topic ≠ .closed) :
    w.Overhears (w'.heard topic id) where
  toQuietly := h.toQuietly.trans (quietly_heard quiet)
  ready := h.ready.of_same rfl rfl rfl rfl h.ready.filed
  core_eq := h.core_eq
  gate_eq := h.gate_eq
  published_eq := (published_heard unclosed).trans h.published_eq

theorem Overhears.holdings_eq (h : w.Overhears w') : w'.holdings = w.holdings := congrArg Core.holdings h.core_eq

theorem tidy_of_published (published : w'.published = w.published)
    (names : w.holdings.Names uri → w'.holdings.Names uri) (tidy : w.Tidy uri) : w'.Tidy uri := by
  intro notices last shown
  rw [lastPublished_eq, published, ← lastPublished_eq] at last
  exact names (tidy notices last shown)

theorem tidy_of_cleared (ht : w.holdings.tracked.get? file = some id) (hd : w.holdings.document? id = some d)
    (published : w'.published = w.published ++ [(d.uri, [])]) (holdings : w'.holdings = w.holdings.forget file)
    (tidy : w.Tidy uri) : w'.Tidy uri := by
  intro notices last shown
  rw [lastPublished_eq, published, lastOf_append_singleton] at last
  split at last
  · cases last
    exact absurd rfl shown
  · rw [← lastPublished_eq] at last
    rw [holdings]
    exact Holdings.names_forget ht hd ‹_› (tidy notices last shown)

/-- A document whose text is written keeps its URI, unless another is spelled. -/
theorem names_of_opens {h : Holdings} {isNew : Bool} {u text : String}
    (hf : w.host.fileName (.text u) = .ok file) (opens : w.holdings.Opens h file id isNew d) (named : d.file = file)
    (kept : ¬ w.Respells u uri) (names : w.holdings.Names uri) :
    (h.revise id fun d => { d with uri := u, text := some text, onClient := true }).Names uri := by
  by_cases same : isNew = false → u = d.uri
  · exact (opens.keeps _ rfl same).names names
  · obtain ⟨old, other⟩ := Classical.not_imp.mp same
    have unmade := opens.old old
    have hd := opens.document?_eq
    have ht := opens.tracked_eq
    subst unmade
    apply names.revise
    intro e he spelled
    rw [hd] at he
    cases he
    by_contra apart
    refine kept ⟨d, mem_of_tracked ht hd, ?_, spelled, fun respelled => apart (respelled ▸ rfl)⟩
    rw [named]
    exact hf

variable {h : Holdings} {isNew changed : Bool} {u text : String}

theorem rewrites_clientOpened (phase : w.gate.phase = .idle) :
    (w.clientOpened h id d u text).core.Rewrites (w.core.holding h) id d
      fun d => { d with uri := u, text := some text, onClient := true } := by
  rw [core_clientOpened phase]
  split
  · rename_i held
    exact Or.inl ⟨held.symm, rfl⟩
  · exact Or.inr rfl

theorem writes_clientOpened (d : Document) (u text : String) :
    d.Writes (fun d => { d with uri := u, text := some text, onClient := true }) text :=
  ⟨rfl, rfl, by simp [Document.isOpen]⟩

theorem quietly_opened (overhears : ((w.clientOpened h id d u text).outdated changed).Overhears w') : w.Quietly w' := by
  have opens : w.Quietly ((w.clientOpened h id d u text).outdated changed) := .of_same (List.prefix_append _ _) rfl
  exact opens.trans overhears.toQuietly

theorem published_opened (overhears : ((w.clientOpened h id d u text).outdated changed).Overhears w') :
    w'.published = w.published :=
  overhears.published_eq.trans (published_asked (w := (w.holding (h.revise id
    fun d => { d with uri := u, text := some text, onClient := true })).outdated (!d.onClient)) rfl)

namespace Served

variable (hs : w.Served) (p : w.holdings.Provides file id isNew d h)
include hs p

theorem tidy_opened (overhears : ((w.clientOpened h id d u text).outdated changed).Overhears w')
    (hf : w.host.fileName (.text u) = .ok file) (kept : ¬ w.Respells u uri) (tidy : w.Tidy uri) : w'.Tidy uri := by
  refine tidy_of_published (published_opened overhears) (fun names => ?_) tidy
  rw [overhears.holdings_eq]
  exact names_of_opens hf (p.opens hs.sound.known) (p.file_eq hs.filed) kept names

theorem reopened (overhears : ((w.clientOpened h id d u text).outdated false).Overhears w')
    (before : d.text = some text) : w'.Served := by
  have opens := p.opens hs.sound.known
  have rewrites : (w.clientOpened h id d u text).core.Rewrites _ id d _ := rewrites_clientOpened hs.phase_eq
  have unmade := opens.unmade (by rw [before]; rfl)
  have hd := opens.document?_eq
  subst unmade
  have same : w'.core = (w.clientOpened w.holdings id d u text).core := overhears.core_eq
  have revised : w'.holdings = w.holdings.revise id
      fun d => { d with uri := u, text := some text, onClient := true } := overhears.holdings_eq
  apply hs.still overhears.ready
  · rw [same]
    exact rewrites.sound hs.sound opens (writes_clientOpened d u text) before
  · exact overhears.gate_eq
  · exact quietly_opened overhears
  · exact published_opened overhears
  · exact congrArg Holdings.failing revised
  · exact (congrArg Core.reportUnused same).trans rewrites.reportUnused_eq
  · exact congrArg (fun h : Holdings => h.tracked.keys) revised
  · rw [revised]
    apply Holdings.reading_revise
    intro e he
    rw [hd] at he
    cases he
    exact before.symm
  · have dropped := congrArg Core.compilation same
    rw [core_clientOpened hs.phase_eq] at dropped
    split at dropped
    · exact Or.inl dropped
    · exact Or.inr dropped

theorem unserved_opened (overhears : ((w.clientOpened h id d u text).outdated true).Overhears w') :
    { w' with gate := { w'.gate with pending := true } }.Unserved := by
  have opens := p.opens hs.sound.known
  have same : w'.core = (w.clientOpened h id d u text).core.stale :=
    overhears.core_eq.trans (core_outdated (w := w.clientOpened h id d u text) hs.phase_eq true)
  refine ⟨overhears.ready.of_same rfl rfl rfl rfl overhears.ready.filed, ?_, ?_, ?_, ?_⟩
  · change w'.core.Sound []
    rw [same]
    exact (rewrites_clientOpened hs.phase_eq).sound_stale hs.sound opens (writes_clientOpened d u text)
  · have gate : w'.gate = .initial := overhears.gate_eq.trans hs.gate_eq
    change { w'.gate with pending := true } = _
    rw [gate]
  · have kept : w'.failing = h.failing := congrArg Holdings.failing overhears.holdings_eq
    exact kept.trans (opens.failing_eq.trans hs.failing_eq)
  · exact congrArg Core.compilation same

end Served

section

variable (overhears : (w.clientClosed id d).Overhears w')
include overhears

theorem quietly_closed : w.Quietly w' := by
  have closes : w.Quietly (w.clientClosed id d) := .of_same (List.prefix_append _ _) rfl
  exact closes.trans overhears.toQuietly

theorem tidy_closed (tidy : w.Tidy uri) : w'.Tidy uri := by
  have published : w'.published = w.published := overhears.published_eq.trans (published_asked rfl)
  have kept : w.holdings.Keeps w'.holdings := by
    rw [overhears.holdings_eq]
    exact Holdings.keeps_revise fun _ _ => rfl
  exact tidy_of_published published kept.names tidy

theorem quietly_removed {w₂ : Workspace} (removed : (w'.forgetting d.file).heard .closed id = w₂) : w.Quietly w₂ := by
  have forgets : w'.Quietly (w'.forgetting d.file) := .of_same (List.prefix_refl _) rfl
  rw [← removed]
  exact ((quietly_closed overhears).trans forgets).trans (quietly_heard (by decide))

theorem tidy_removed {w₂ : Workspace} (ht : w.holdings.tracked.get? d.file = some id)
    (hd : w.holdings.document? id = some d) (removed : (w'.forgetting d.file).heard .closed id = w₂)
    (tidy : w.Tidy uri) : w₂.Tidy uri := by
  have holdings : w'.holdings = w.holdings.revise id ({ · with onClient := false }) := overhears.holdings_eq
  have here : w'.holdings.document? id = some { d with onClient := false } := by
    rw [holdings]
    exact document?_clientClosed hd
  have there : w'.holdings.tracked.get? d.file = some id := by
    rw [holdings]
    exact ht
  have published : w₂.published = w'.published ++ [(d.uri, [])] := by
    rw [← removed]
    exact published_heard_closed (w := w'.forgetting d.file) (d := { d with onClient := false }) here
  have forgotten : w₂.holdings = w'.holdings.forget d.file := by rw [← removed]; rfl
  exact tidy_of_cleared there here published forgotten (tidy_closed overhears tidy)

theorem core_closed (phase : w.gate.phase = .idle) :
    w'.core = (w.core.revise id ({ · with onClient := false })).stale :=
  overhears.core_eq.trans (core_clientClosed phase id d)

namespace Served

variable (hs : w.Served) (hd : w.holdings.document? id = some d)
include hs hd

theorem released (held : d.onServer = true) : w'.Served := by
  have same := core_closed overhears hs.phase_eq
  have known := Holdings.known_release hs.sound.known hd
  have holdings : w'.holdings = w.holdings.revise id ({ · with onClient := false }) := overhears.holdings_eq
  rw [if_pos held] at known
  apply hs.still overhears.ready
  · rw [same]
    exact Core.sound_stale hs.sound known
  · exact overhears.gate_eq
  · exact quietly_closed overhears
  · exact overhears.published_eq.trans (published_asked rfl)
  · exact congrArg Holdings.failing holdings
  · exact congrArg Core.reportUnused same
  · exact congrArg (fun h : Holdings => h.tracked.keys) holdings
  · rw [holdings]
    exact Holdings.reading_revise fun _ _ => rfl
  · exact Or.inr (congrArg Core.compilation same)

/-- The client has closed a document that nobody else holds, and it is tracked no longer. -/
theorem unserved_removed (ht : w.holdings.tracked.get? d.file = some id) (alone : d.onServer = false)
    {w₂ : Workspace} (removed : (w'.forgetting d.file).heard .closed id = w₂) :
    { w₂ with gate := { w₂.gate with pending := true } }.Unserved := by
  have phase : w'.gate.phase = .idle := overhears.ready.phase_eq
  have closed := core_closed overhears hs.phase_eq
  have known := Holdings.known_release hs.sound.known hd
  rw [alone, if_neg Bool.false_ne_true] at known
  have holdings : w'.holdings = w.holdings.revise id ({ · with onClient := false }) := overhears.holdings_eq
  have sound : w'.core.Sound [id] := by
    rw [closed]
    exact Core.sound_stale hs.sound known
  have forgets : w₂.core = (w'.core.holding (w'.holdings.forget d.file)).stale := by
    rw [← removed]
    exact core_outdated (w := w'.holding (w'.holdings.forget d.file)) phase true
  refine ⟨?_, ?_, ?_, ?_, congrArg Core.compilation forgets⟩
  · rw [← removed]
    exact overhears.ready.of_same rfl rfl rfl rfl overhears.ready.filed.forget
  · change w₂.core.Sound []
    rw [forgets]
    apply Core.sound_stale sound
    apply Holdings.known_forget sound.known
    intro other hm
    rw [List.mem_singleton.mp hm, core_holdings, holdings]
    exact ht
  · have gate : w₂.gate = .initial := by
      rw [← removed]
      exact overhears.gate_eq.trans hs.gate_eq
    change { w₂.gate with pending := true } = _
    rw [gate]
  · have kept : w₂.failing = w'.failing := by rw [← removed]; rfl
    exact (kept.trans (congrArg Holdings.failing holdings)).trans hs.failing_eq

end Served
end

end Workspace

open Workspace (Overhears Serves)

namespace Task

variable {w : Workspace} {depth : Nat} {id : DocumentId} {file : String} {d : Document}

theorem ends_report_breaks (attended : w.Attended) (sound : w.core.Sound []) :
    Ends (report (Task.call (depth + 1))) w fun _ w' => w'.compilation = none → w.holdings.Breaks := by
  rw [report, ends_fire_iff, attended.listeners_eq .updated, Topic.tellers, Bus.deliver, Work.ends_bind,
    Work.ends_quietly]
  have published : Ends (publish (Task.call depth)) (w.passed (.telling .updated none)) fun _ w' =>
      w'.compilation = none → w.holdings.Breaks := by
    apply (ends_compilation (calm_client depth) (attended.same (w.sameOutside_passed _)) sound).bind
    · intro c w₁ rebuilt
      rw [Work.ends_bind, Work.ends_get, Work.next_ok, ends_publishCompiled]
      intro unmade
      have made : w₁.compilation = some c := rebuilt.compilation_eq c rfl
      rw [show w₁.compilation = none from unmade] at made
      cases made
    · exact fun fault _ rebuilt _ => rebuilt.breaks fault rfl
  refine Work.Ends.mono published fun _ w₁ h₁ => ?_
  rw [Work.next_ok, Bus.deliver, Work.ends_bind, Work.ends_quietly, call_observer, note, observe,
    Work.ends_modify, Work.next_ok, Bus.deliver, Work.ends_pure]
  exact h₁

theorem ends_flush_breaks (ready : w.Ready) (sound : w.core.Sound []) (due : w.gate.isDue = true) :
    Ends (Gate.flush (report (Task.call (depth + 1)))) w fun _ w' =>
      w'.compilation = none → w.holdings.Breaks := by
  let inside := { w with gate := { w.gate with phase := .reporting, pending := false } }
  have solo : inside.Solo := ready.toSolo.of_same rfl rfl rfl ready.filed
  apply Gate.ends_flush_once due ready.phase_eq
  refine ((ends_report_solo (w := inside) solo rfl).and (ends_report_breaks (w := inside) solo.toAttended sound)).mono ?_
  rintro r w₁ ⟨⟨ok, -, gate, -⟩, breaks⟩
  exact ⟨ok, gate, breaks⟩

theorem ends_request_served {w₁ : Workspace}
    (h : { w₁ with gate := { w₁.gate with pending := true } }.Unserved) :
    Ends (Gate.request (report (Task.call (depth + 1)))) w₁ (fun _ w' => w₁.Serves true (fun _ => False) w') := by
  let asked := { w₁ with gate := { w₁.gate with pending := true } }
  have due : asked.gate.isDue = true := by
    rw [h.gate_eq]
    rfl
  rw [Gate.request, Gate.change, Work.ends_bind, Work.ends_modify, Work.next_ok]
  refine Work.Ends.mono (((ends_flush_told h.toReady due).and (ends_flush_breaks h.toReady h.sound due)).and
    (soft_flush (soft_report (calm_client (depth + 1))) asked h.toAttended h.sound)) ?_
  rintro r w' ⟨⟨⟨ready, gate, informs⟩, breaks⟩, drifts⟩
  have settled : w'.gate = .initial := by
    rw [gate, h.gate_eq]
    rfl
  refine ⟨Workspace.served_of_informs h ready settled drifts informs breaks, ?_, fun uri _ tidy => ?_⟩
  · exact (Workspace.tally_of_informs informs : w'.tally = asked.tally + 1)
  · exact drifts.extra uri tidy

/-- Listeners are told of a document. If it has changed, an update is told in the end. -/
theorem ends_tell_heard {Q : Except Fault Unit → Workspace → Prop} {isNew changed : Bool} {opened : Option Topic}
    (ready : w.Ready) (noted : ∀ topic ∈ opened, topic ≠ .updated ∧ topic ≠ .closed)
    (still : changed = false → ∀ w', w.Overhears w' → Q (.ok ()) w')
    (told : changed = true → ∀ w', w.Overhears w' → Ends (Gate.request (report (Task.call depth))) w' Q) :
    Ends (tell (Task.call depth) id isNew changed opened) w Q := by
  have last : ∀ w', w.Overhears w' → Ends (if changed then do
      fire (Task.call depth) .contentChanged (some id)
      Gate.request (report (Task.call depth))
      else pure ()) w' Q := by
    intro w' overhears
    cases changed with
    | false => exact still rfl w' overhears
    | true =>
      rw [if_pos rfl, Work.ends_bind, ends_fire_solo overhears.ready.toSolo (by decide), Work.next_ok]
      exact told rfl _ (overhears.heard (by decide) (by decide))
  have middle : ∀ w', w.Overhears w' → Ends (tellOpened (Task.call depth) id opened (if changed then do
      fire (Task.call depth) .contentChanged (some id)
      Gate.request (report (Task.call depth))
      else pure ())) w' Q := by
    intro w' overhears
    cases opened with
    | none => exact last w' overhears
    | some topic =>
      obtain ⟨quiet, unclosed⟩ := noted topic rfl
      rw [tellOpened, Work.ends_bind, ends_fire_solo overhears.ready.toSolo quiet, Work.next_ok]
      exact last _ (overhears.heard quiet unclosed)
  cases isNew with
  | false => exact middle w (.refl ready)
  | true =>
    rw [tell, if_pos rfl, Work.ends_bind, ends_fire_solo ready.toSolo (by decide), Work.next_ok]
    exact middle _ ((Overhears.refl ready).heard (by decide) (by decide))

theorem ends_updateOnClient_served (hs : w.Served) (u text : String) :
    Ends (updateOnClient (Task.call (depth + 1)) u text) w
      fun _ w' => w.Serves (w.rewrites u text) (w.Respells u) w' := by
  apply ends_updateOnClient_of hs.filed
  · intro fault unnamed
    rw [Workspace.rewrites, unnamed]
    exact hs.serves _
  · intro file id isNew d h hf p
    generalize changes : decide (d.text ≠ some text) = changed
    have rewrites : w.rewrites u text = changed := by
      rw [Workspace.rewrites, hf, ← changes]
      exact congrArg (fun text' => decide (text' ≠ some text)) p.text?_eq
    rw [rewrites]
    apply ends_tell_heard
    · exact hs.toReady.of_same rfl rfl rfl rfl ((p.filed hs.filed).revise fun _ _ => rfl)
    · intro topic hm
      split at hm <;> cases hm
      decide
    · rintro rfl w' overhears
      refine ⟨hs.reopened p overhears (by simpa using changes), ?_, fun uri kept before => ?_⟩
      · exact Workspace.tally_of_quietly (Workspace.quietly_opened overhears)
      · exact hs.tidy_opened p overhears hf kept before
    · rintro rfl w₁ overhears
      refine (ends_request_served (hs.unserved_opened p overhears)).mono fun _ w' serves =>
        ⟨serves.served, ?_, fun uri kept before => ?_⟩
      · rw [serves.tally_eq, Workspace.tally_of_quietly (Workspace.quietly_opened overhears)]
      · exact serves.tidy uri not_false (hs.tidy_opened p overhears hf kept before)

theorem ends_closeOnClient_served (hs : w.Served) (u : String) :
    Ends (closeOnClient (Task.call (depth + 1)) u) w
      fun _ w' => w.Serves (w.frees u) (fun _ => False) w' := by
  apply ends_closeOnClient_of hs.filed
  · intro fault unnamed
    rw [Workspace.frees, unnamed]
    exact hs.serves _
  · intro file hf unheld
    have kept : w.frees u = false := by
      rw [Workspace.frees, hf]
      dsimp only
      cases tracked : w.holdings.filed? file with
      | none => rfl
      | some d => rw [Option.any_some, unheld d tracked, Bool.false_and]
    rw [kept]
    exact hs.serves _
  · intro file id d hf ht hd here hc
    subst here
    have frees : w.frees u = !d.onServer := by
      simp [Workspace.frees, hf, Holdings.filed?_of_tracked ht, hd, hc]
    have ready : (w.clientClosed id d).Ready :=
      hs.toReady.of_same rfl rfl rfl rfl (hs.filed.revise fun _ _ => rfl)
    have overhears : (w.clientClosed id d).Overhears ((w.clientClosed id d).heard .closedOnClient id) :=
      (Overhears.refl ready).heard (by decide) (by decide)
    have closed : ((w.clientClosed id d).heard .closedOnClient id).holdings.document? id =
        some { d with onClient := false } := Workspace.document?_clientClosed hd
    rw [frees, letGo, Work.ends_bind, ends_fire_solo ready.toSolo (by decide), Work.next_ok, Work.ends_bind,
      ends_document_of closed, Work.next_ok]
    cases held : d.onServer with
    | true =>
      refine ⟨hs.released overhears hd held, ?_, fun uri _ tidy => Workspace.tidy_closed overhears tidy⟩
      exact Workspace.tally_of_quietly (Workspace.quietly_closed overhears)
    | false =>
      apply ends_remove_of closed
      · intro gone
        rw [show ((w.clientClosed id d).heard .closedOnClient id).holdings.tracked.get? d.file = some id from ht] at gone
        cases gone
      · intro _ _
        have forgotten : (((w.clientClosed id d).heard .closedOnClient id).forgetting d.file).Ready :=
          overhears.ready.of_same rfl rfl rfl rfl overhears.ready.filed.forget
        rw [Work.ends_bind, ends_fire_solo forgotten.toSolo (by decide), Work.next_ok]
        generalize closing : (((w.clientClosed id d).heard .closedOnClient id).forgetting d.file).heard .closed id = w₂
        refine (ends_request_served (hs.unserved_removed overhears hd ht held closing)).mono fun _ w' serves =>
          ⟨serves.served, ?_, fun uri _ tidy => serves.tidy uri not_false ?_⟩
        · rw [serves.tally_eq, Workspace.tally_of_quietly (Workspace.quietly_removed overhears closing)]
          rfl
        · exact Workspace.tidy_removed overhears ht hd closing tidy

theorem ends_perform_served (hs : w.Served) {action : Action} (notify : action.isNotification = true) :
    Ends (perform (Task.call (depth + 1)) action) w fun _ w' =>
      w.Serves (w.updates action) (fun uri => ∃ u, action.spelling? = some u ∧ w.Respells u uri) w' := by
  cases action with
  | openOnClient u text =>
    refine (ends_updateOnClient_served hs u text).bind ?_ ?_ <;>
      exact fun _ w' h' => ⟨h'.served, h'.tally_eq, fun uri kept => h'.tidy uri fun lost => kept ⟨u, rfl, lost⟩⟩
  | changeOnClient u texts =>
    rw [perform, changeOnClient, Workspace.updates]
    cases last : texts.getLast? with
    | none => exact hs.serves _
    | some text =>
      have spelled : (Action.changeOnClient u texts).spelling? = some u := by
        rw [Action.spelling?, last]
        rfl
      refine (ends_updateOnClient_served hs u text).bind ?_ ?_ <;>
        exact fun _ w' h' => ⟨h'.served, h'.tally_eq, fun uri kept => h'.tidy uri fun lost => kept ⟨u, spelled, lost⟩⟩
  | closeOnClient u =>
    refine (ends_closeOnClient_served hs u).bind ?_ ?_ <;>
      exact fun _ w' h' => ⟨h'.served, h'.tally_eq, fun uri _ => h'.tidy uri not_false⟩
  | _ => cases notify

end Task
end GrammarWorkspace
