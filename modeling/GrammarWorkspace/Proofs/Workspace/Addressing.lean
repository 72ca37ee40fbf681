import GrammarWorkspace.Proofs.Workspace.Registry

/-!
# What documents are called

A document comes to its file and its URI in one of three ways: the server opens a locator, the client sends
a text under a URI, or the compiler reads what a file imports. What is true of whatever comes in on each of
these ways is true of all documents, even if listeners do all that actions can do.
-/
namespace GrammarWorkspace

open Work (Ends Along Inside Stays)

namespace Action

mutual

/-- The locators that the server is to open, by the action itself or by a script that it brings with it. -/
def openings : Action → List Locator
  | openOnServer locator => [locator]
  | suspended actions | rebuilding actions => allOpenings actions
  | subscribe _ _ _ script => allOpenings script
  | _ => []

def allOpenings : List Action → List Locator
  | [] => []
  | action :: rest => action.openings ++ allOpenings rest

end

theorem mem_allOpenings {actions : List Action} {action : Action} {locator : Locator}
    (here : action ∈ actions) (opens : locator ∈ action.openings) : locator ∈ allOpenings actions := by
  induction actions with
  | nil => cases here
  | cons first rest ih =>
    rw [allOpenings, List.mem_append]
    rcases List.mem_cons.mp here with rfl | here
    · exact Or.inl opens
    · exact Or.inr (ih here)

end Action

/-- What is to be true of the files of documents and of the URIs that go with them. It is true of all that
comes in, as long as the server opens nothing but what is allowed. -/
structure Naming (host : Host) where
  allows : Locator → Prop
  names : String → Prop
  shows : String → String → Prop
  opened : ∀ locator file u, allows locator → host.fileName locator = .ok file → Host.uri locator = .ok u →
    names file ∧ shows file u
  sent : ∀ file u, host.fileName (.text u) = .ok file → names file ∧ shows file u
  read : ∀ file u, names file → Host.uri (.text file) = .ok u → shows file u
  imported : ∀ file path, names file → names (Path.relativeTo file path)

namespace Grammar.Compilation

variable {σ : Type} {s : σ} {P : σ → Prop} {names : String → Prop}
  {read : String → Work σ (Option String)} {sourceOf : String → String → Source} {queue : List String}

def Names (names : String → Prop) (sources : Table String Source) : Prop :=
  ∀ file source, sources.get? file = some source → source.file = file ∧ names file

theorem file_sourceOf {previous : Option Compilation} (known : ∀ c, previous = some c → Names names c.sources)
    (serial : Nat) (file text : String) : (Compilation.sourceOf serial previous file text).file = file := by
  unfold Compilation.sourceOf
  split
  · rename_i old found
    obtain ⟨c, made, kept⟩ := Option.bind_eq_some_iff.mp found
    split
    · exact (known c made file old kept).1
    · rfl
  · rfl

variable (reads : ∀ file, names file → Along (Stays P) (read file))

include reads

theorem ends_nextReadable_names (loaded : Table String Source) (queued : ∀ file ∈ queue, names file) (h : P s) :
    Ends (nextReadable read loaded queue) s fun r s' => P s' ∧ ∀ file text rest,
      r = .ok (some (file, text, rest)) → names file ∧ ∀ file ∈ rest, names file := by
  induction queue generalizing s with
  | nil => exact ⟨h, fun _ _ _ found => by cases found⟩
  | cons file queue ih =>
    obtain ⟨first, others⟩ := List.forall_mem_cons.mp queued
    rw [nextReadable]
    split
    · exact ih others h
    · have answered : Ends (read file) s fun _ s' => P s' := reads file first s h
      apply answered.bind
      · intro answer s' h'
        cases answer with
        | none => exact ih others h'
        | some text =>
          refine ⟨h', fun _ _ _ found => ?_⟩
          cases found
          exact ⟨first, others⟩
      · exact fun _ _ h' => ⟨h', fun _ _ _ found => by cases found⟩

/-- Loading reads files with names of this kind only, and keeps each under its own. -/
theorem ends_loadFrom_names (files : ∀ file text, (sourceOf file text).file = file)
    (imported : ∀ file path, names file → names (Path.relativeTo file path)) (bound : Nat)
    {loaded : Table String Source} (known : Names names loaded) (queued : ∀ file ∈ queue, names file) (h : P s) :
    Ends (loadFrom read sourceOf bound loaded queue) s fun r s' =>
      P s' ∧ ∀ sources, r = .ok sources → Names names sources := by
  induction bound generalizing loaded queue s with
  | zero =>
    refine ⟨h, fun _ same => ?_⟩
    cases same
    exact known
  | succ bound ih =>
    rw [loadFrom]
    apply (ends_nextReadable_names reads loaded queued h).bind
    · rintro next s' ⟨h', found⟩
      rcases next with _ | ⟨file, text, rest⟩
      · refine ⟨h', fun _ same => ?_⟩
        cases same
        exact known
      · obtain ⟨first, others⟩ := found file text rest rfl
        apply ih _ _ h'
        · intro other source kept
          rw [Table.get?_insert] at kept
          split at kept
          · rename_i here
            subst here
            cases kept
            exact ⟨files file text, first⟩
          · exact known other source kept
        · intro target hm
          rcases List.mem_append.mp hm with hm | hm
          · exact others target hm
          · obtain ⟨i, -, rfl⟩ := List.mem_map.mp hm
            apply imported
            rw [files]
            exact first
    · exact fun _ _ h' => ⟨h'.1, fun _ failed => by cases failed⟩

end Grammar.Compilation

variable {host : Host} {n : Naming host}

/-- Documents, tracked or not, have files and URIs of this kind, and each is filed under its own file. -/
structure Holdings.Bears (h : Holdings) (n : Naming host) : Prop where
  filed : h.Filed
  shown : ∀ id d, h.document? id = some d → n.names d.file ∧ n.shows d.file d.uri

namespace Holdings.Bears

variable {h h₁ : Holdings} {id : DocumentId} {file : String} {isNew : Bool} {d : Document}
  {f : Document → Document}

theorem revise (hb : h.Bears n) (same : ∀ d, (f d).file = d.file ∧ (f d).uri = d.uri) :
    (h.revise id f).Bears n where
  filed := hb.filed.revise fun d _ => (same d).1
  shown other d hd := by
    rw [document?_revise] at hd
    split at hd
    · obtain ⟨e, he, rfl⟩ := Option.map_eq_some_iff.mp hd
      rw [(same e).1, (same e).2]
      exact hb.shown other e he
    · exact hb.shown other d hd

theorem forget (hb : h.Bears n) (file : String) : (h.forget file).Bears n where
  filed other id ht := by
    rw [Holdings.forget, Table.get?_erase] at ht
    split at ht
    · cases ht
    · exact hb.filed other id ht
  shown := hb.shown

theorem provide (hb : h.Bears n) (p : h.Provides file id isNew d h₁) (named : n.names file) {u : String}
    (shown : n.shows file u) (written : ∀ d, (f d).file = d.file ∧ (f d).uri = u) :
    (h₁.revise id f).Bears n where
  filed := (p.filed hb.filed).revise fun d _ => (written d).1
  shown other e he := by
    by_cases same : other = id
    · subst same
      rw [document?_revise, if_pos rfl, p.document?_eq, Option.map_some] at he
      cases he
      rw [(written d).1, (written d).2, p.file_eq hb.filed]
      exact ⟨named, shown⟩
    · rw [document?_revise, if_neg fun here => same here.symm] at he
      cases p with
      | found _ _ => exact hb.shown other e he
      | made _ =>
        rw [Holdings.document?, Holdings.add] at he
        rcases Nat.lt_trichotomy other h.documents.length with less | rfl | more
        · rw [List.getElem?_append_left less] at he
          exact hb.shown other e he
        · exact absurd rfl same
        · have beyond : (h.documents ++ [Document.new file]).length ≤ other := by
            rw [List.length_append]
            exact more
          rw [List.getElem?_eq_none beyond] at he
          cases he

end Holdings.Bears

namespace Workspace

/-- Scripts keep to what is allowed, and all documents and compilations are of this kind, and so is all that
has been read. -/
structure Abides (w : Workspace) (n : Naming host) : Prop where
  host_eq : w.host = host
  scripts : ∀ s ∈ w.scripts, ∀ locator ∈ Action.allOpenings s.actions, n.allows locator
  bears : w.holdings.Bears n
  compiled : ∀ c, w.compilation = some c ∨ w.previous = some c → Grammar.Compilation.Names n.names c.sources
  read : ∀ file outcome, .read file outcome ∈ w.record → n.names file

variable {w w' : Workspace} {h : Holdings} {id : DocumentId} {file u text : String} {isNew : Bool} {d : Document}

namespace Abides

theorem onward (hw : w.Abides n) (host_eq : w'.host = w.host) (scripts : w'.scripts = w.scripts)
    (bears : w'.holdings.Bears n) (compilations : ∀ c, w'.compilation = some c ∨ w'.previous = some c →
      w.compilation = some c ∨ w.previous = some c) (record : w'.record = w.record) : w'.Abides n where
  host_eq := host_eq.trans hw.host_eq
  scripts := by
    rw [scripts]
    exact hw.scripts
  bears := bears
  compiled c made := hw.compiled c (compilations c made)
  read file outcome hm := hw.read file outcome (record ▸ hm)

theorem of_same (hw : w.Abides n) (host_eq : w'.host = w.host) (scripts : w'.scripts = w.scripts)
    (documents : w'.documents = w.documents) (tracked : w'.tracked = w.tracked)
    (compilation : w'.compilation = w.compilation) (previous : w'.previous = w.previous)
    (record : w'.record = w.record) : w'.Abides n := by
  refine hw.onward host_eq scripts ⟨?_, ?_⟩ (fun c made => ?_) record
  · intro file id ht
    obtain ⟨d, hd, here⟩ := hw.bears.filed file id ((congrArg (Table.get? · file) tracked).symm.trans ht)
    exact ⟨d, (congrArg (fun all : List Document => all[id]?) documents).trans hd, here⟩
  · intro id d hd
    exact hw.bears.shown id d ((congrArg (fun all : List Document => all[id]?) documents).symm.trans hd)
  · rwa [compilation, previous] at made

theorem holding (hw : w.Abides n) (bears : h.Bears n) : (w.holding h).Abides n :=
  hw.onward rfl rfl bears (fun _ made => made) rfl

theorem observing (hw : w.Abides n) {all : List Observation}
    (known : ∀ file outcome, .read file outcome ∈ all → n.names file) :
    { w with record := w.record ++ all }.Abides n where
  host_eq := hw.host_eq
  scripts := hw.scripts
  bears := hw.bears
  compiled := hw.compiled
  read file outcome hm := (List.mem_append.mp hm).elim (hw.read file outcome) (known file outcome)

theorem noting (hw : w.Abides n) {o : Observation} (unread : ∀ file outcome, .read file outcome ≠ o) :
    (w.noting o).Abides n :=
  hw.observing fun file outcome hm => absurd (List.mem_singleton.mp hm) (unread file outcome)

theorem reading (hw : w.Abides n) (named : n.names file) (outcome : ReadOutcome) :
    (w.noting (.read file outcome)).Abides n := by
  apply hw.observing
  intro other _ hm
  cases List.mem_singleton.mp hm
  exact named

theorem asked (hw : w.Abides n) (reason : Bool) {o : Observation}
    (unread : ∀ file outcome, .read file outcome ≠ o) : (w.asked reason o).Abides n := by
  apply hw.observing
  intro file outcome hm
  split at hm
  · exact absurd (List.mem_singleton.mp hm) (unread file outcome)
  · cases hm

theorem outdated (hw : w.Abides n) (changed : Bool) : (w.outdated changed).Abides n := by
  refine hw.onward rfl rfl hw.bears (fun c made => made.imp_left fun kept => ?_) rfl
  replace kept : (if changed && !w.gate.isRebuilding then none else w.compilation) = some c := kept
  split at kept
  · cases kept
  · exact kept

theorem forgetting (hw : w.Abides n) (file : String) : (w.forgetting file).Abides n :=
  (hw.holding (hw.bears.forget file)).outdated true

theorem serverClosed (hw : w.Abides n) (id : DocumentId) (d : Document) : (w.serverClosed id d).Abides n :=
  (hw.holding (hw.bears.revise (f := ({ · with onServer := false })) fun _ => ⟨rfl, rfl⟩)).asked _ fun _ _ => nofun

theorem clientClosed (hw : w.Abides n) (id : DocumentId) (d : Document) : (w.clientClosed id d).Abides n := by
  have bears : (w.holdings.revise id ({ · with onClient := false })).Bears n := hw.bears.revise fun _ => ⟨rfl, rfl⟩
  exact ((hw.holding bears).asked (o := .watched d.file) _ fun _ _ => nofun).outdated true

theorem serverOpened (hw : w.Abides n) (p : w.holdings.Provides file id isNew d h) (named : n.names file)
    (shown : n.shows file u) (text : String) : (w.serverOpened h id d u text).Abides n := by
  have bears := hw.bears.provide p named shown
    (f := fun d => { d with uri := u, text := some text, onServer := true }) fun _ => ⟨rfl, rfl⟩
  exact (hw.holding bears).asked _ fun _ _ => nofun

theorem clientOpened (hw : w.Abides n) (p : w.holdings.Provides file id isNew d h) (named : n.names file)
    (shown : n.shows file u) (text : String) : (w.clientOpened h id d u text).Abides n := by
  have bears := hw.bears.provide p named shown
    (f := fun d => { d with uri := u, text := some text, onClient := true }) fun _ => ⟨rfl, rfl⟩
  exact ((hw.holding bears).outdated _).asked _ fun _ _ => nofun

theorem names_clientFiles (hw : w.Abides n) :
    ∀ file ∈ (w.trackedDocuments.filter Document.onClient).map Document.file, n.names file := by
  intro file hm
  obtain ⟨d, held, rfl⟩ := List.mem_map.mp hm
  obtain ⟨listed, -⟩ := List.mem_filter.mp held
  obtain ⟨id, -, hd⟩ := List.mem_filterMap.mp listed
  exact (hw.bears.shown id d hd).1

end Abides

theorem ignored_abides : Gate.Ignored (Stays fun w : Workspace => w.Abides n) := fun _ _ hw =>
  hw.of_same rfl rfl rfl rfl rfl rfl rfl

theorem overlooks_abides : Overlooks (Stays fun w => w.Abides n) where
  remarked _ o remark hw := hw.noting fun _ _ same => by
    rw [← same] at remark
    cases remark
  answered _ _ hw := hw.of_same rfl rfl rfl rfl rfl rfl rfl
  unsubscribed _ _ _ _ hw := hw.of_same rfl rfl rfl rfl rfl rfl rfl

end Workspace

namespace Task

abbrev Abiding {α : Type} (n : Naming host) (task : Task α) : Prop :=
  Along (Stays fun w : Workspace => w.Abides n) task

variable {call : Calling}

theorem abiding_pass (m : Moment) : Abiding n (pass m) := fun _ hw => hw.of_same rfl rfl rfl rfl rfl rfl rfl

theorem abiding_mark (id : DocumentId) (mark : Document → Bool) :
    Abiding n (update id fun d => { d with isMarked := mark d }) := fun _ hw =>
  hw.holding (hw.bears.revise (f := fun d => { d with isMarked := mark d }) fun _ => ⟨rfl, rfl⟩)

section

variable (calls : ∀ listener topic about, Abiding n (call listener topic about))

include calls

theorem abiding_fire (topic : Topic) (about : Option DocumentId) : Abiding n (fire call topic about) :=
  along_fire abiding_pass calls topic about

theorem abiding_report : Abiding n (report call) := abiding_fire calls .updated none

theorem abiding_request : Abiding n (Gate.request (report call)) :=
  Gate.along_request Workspace.ignored_abides (abiding_report calls)

theorem abiding_tell (id : DocumentId) (isNew hasChanged : Bool) (opened : Option Topic) :
    Abiding n (tell call id isNew hasChanged opened) := by
  have fires (topic : Topic) : Abiding n (fire call topic (some id)) := abiding_fire calls topic _
  exact along_tell Inside.self (fires _) (fun topic _ => fires topic) (fires _) (abiding_request calls)

theorem abiding_remove (id : DocumentId) : Abiding n (remove call id) := by
  refine (along_document id).bind fun d => Work.along_get_bind fun w => ?_
  split
  · exact ((abiding_pass _).bind fun _ => Work.along_throw _) w
  · have rest : Abiding n (do
        fire call .closed (some id)
        Gate.request (report call)) := (abiding_fire calls .closed (some id)).bind fun _ => abiding_request calls
    rw [Work.ends_bind, Work.ends_set, Work.next_ok, Work.ends_bind, ends_invalidate_iff, Work.next_ok]
    exact (rest (w.forgetting d.file)).mono fun _ _ told hw => told (hw.forgetting d.file)

theorem abiding_letGo (topic : Topic) (id : DocumentId) : Abiding n (letGo call topic id) := by
  refine (abiding_fire calls topic (some id)).bind fun _ => (along_document id).bind fun d => ?_
  split
  · exact abiding_remove calls id
  · exact Work.along_pure ()

theorem abiding_releaseOnServer (id : DocumentId) : Abiding n (releaseOnServer call id) := by
  apply Work.along_stays_of
  intro w hw
  apply ends_releaseOnServer_of
  · exact hw
  · exact fun d _ _ => abiding_letGo calls .closedOnServer id _ (hw.serverClosed id d)

theorem abiding_openOnServer {locator : Locator} (allowed : n.allows locator) :
    Abiding n (openOnServer call locator) := by
  apply Work.along_stays_of
  intro w hw
  apply ends_openOnServer_of hw.bears.filed
  · exact fun _ _ => hw
  · intro file r outcome named _
    obtain ⟨u, carried⟩ := uri_of_fileName named
    rw [hw.host_eq] at named
    exact hw.reading (n.opened locator file u allowed named carried).1 outcome
  · intro file text outcome id isNew d h u named carried _ p
    rw [hw.host_eq] at named
    obtain ⟨named, shown⟩ := n.opened locator file u allowed named carried
    have opened := (hw.reading named outcome).serverOpened p named shown text
    exact abiding_tell calls id isNew _ _ _ (opened.outdated (d.text ≠ some text))

theorem abiding_updateOnClient (u text : String) : Abiding n (updateOnClient call u text) := by
  apply Work.along_stays_of
  intro w hw
  apply ends_updateOnClient_of hw.bears.filed
  · exact fun _ _ => hw
  · intro file id isNew d h named p
    rw [hw.host_eq] at named
    obtain ⟨named, shown⟩ := n.sent file u named
    exact abiding_tell calls id isNew _ _ _ ((hw.clientOpened p named shown text).outdated (d.text ≠ some text))

theorem abiding_changeOnClient (u : String) (texts : List String) : Abiding n (changeOnClient call u texts) := by
  rw [changeOnClient]
  split
  · exact Work.along_pure ()
  · exact abiding_updateOnClient calls u _

theorem abiding_closeOnServer (locator : Locator) : Abiding n (closeOnServer call locator) := by
  refine (along_find locator).bind fun found => ?_
  cases found with
  | none => exact Work.along_pure ()
  | some id => exact abiding_releaseOnServer calls id

theorem abiding_closeOnClient (u : String) : Abiding n (closeOnClient call u) := by
  apply Work.along_stays_of
  intro w hw
  apply ends_closeOnClient_of hw.bears.filed
  · exact fun _ _ => hw
  · exact fun _ _ _ => hw
  · exact fun file id d _ _ _ _ _ => abiding_letGo calls .closedOnClient id _ (hw.clientClosed id d)

theorem abiding_readForCompiler {file : String} (named : n.names file) : Abiding n (readForCompiler call file) := by
  apply along_readForCompiler
  · exact fun id => abiding_mark id fun _ => true
  · exact fun _ outcome hw => hw.reading named outcome
  · intro w text u carried new _ hw
    have told := (abiding_fire calls .created (some w.documents.length)).bind fun _ =>
      abiding_fire calls .openedOnServer (some w.documents.length)
    exact told _ (hw.serverOpened (.made new) named (n.read file u named carried) text)

theorem abiding_fetch {serial : Nat} {file : String} (named : n.names file) :
    Abiding n (fetch call serial file) := by
  apply Work.along_stays_of
  intro w hw
  have read : Ends (readForCompiler call file) w fun _ w' => w'.Abides n :=
    abiding_readForCompiler calls named w hw
  exact ends_fetch read fun _ _ _ h => h.of_same rfl rfl rfl rfl rfl rfl rfl

omit calls in
theorem ends_markRoots_abides {w : Workspace} (hw : w.Abides n) : Ends markRoots w fun r w' =>
    w'.Abides n ∧ ∀ roots, r = .ok roots → ∀ file ∈ roots, n.names file := by
  rw [markRoots, Work.ends_bind, Work.ends_get, Work.next_ok]
  have marking : Ends (w.tracked.values.forM fun id => update id fun d => { d with isMarked := d.onClient }) w
      fun _ w' => w'.Abides n :=
    Work.along_forM (R := Stays fun w : Workspace => w.Abides n) w.tracked.values
      (fun id => abiding_mark id Document.onClient) w hw
  apply marking.bind
  · intro _ w' hw'
    refine ⟨hw', fun roots same => ?_⟩
    cases same
    exact hw.names_clientFiles
  · exact fun _ _ hw' => ⟨hw', fun _ failed => by cases failed⟩

theorem ends_loadAnew_abides {w : Workspace} (hw : w.Abides n) : Ends (loadAnew call) w fun r w' =>
    w'.Abides n ∧ ∀ c, r = .ok c → Grammar.Compilation.Names n.names c.sources := by
  have counted : w.counted.Abides n := hw.of_same rfl rfl rfl rfl rfl rfl rfl
  rw [loadAnew, Work.ends_bind, ends_beginBuild, Work.next_ok]
  apply (ends_markRoots_abides counted).bind
  · rintro roots w₁ ⟨hw₁, named⟩
    rw [Work.ends_bind, Work.ends_get, Work.next_ok, Grammar.Compilation.load]
    apply (Grammar.Compilation.ends_loadFrom_names (fun file => abiding_fetch calls)
      (Grammar.Compilation.file_sourceOf (fun c made => hw₁.compiled c (Or.inr made)) w.begun) n.imported _
      (fun _ _ none => by cases none) (named roots rfl) hw₁).bind
    · rintro sources w₂ ⟨hw₂, known⟩
      refine ⟨hw₂, fun c same => ?_⟩
      cases same
      exact known sources rfl
    · exact fun _ _ h => ⟨h.1, fun _ failed => by cases failed⟩
  · exact fun _ _ h => ⟨h.1, fun _ failed => by cases failed⟩

theorem abiding_rebuild : Abiding n (rebuild call) := by
  have sweeps : Abiding n (sweep call) := by
    refine .get_bind fun w => Work.along_forM _ fun id => (along_document id).bind fun d => ?_
    split
    · exact abiding_releaseOnServer calls id
    · exact Work.along_pure ()
  rw [rebuild_eq]
  apply Gate.along_rebuilding Workspace.ignored_abides (abiding_report calls)
  apply Work.along_stays_of
  intro w hw
  rw [rebuildBody_eq]
  apply (ends_loadAnew_abides calls hw).bind
  · rintro c w₁ ⟨hw₁, named⟩
    have made : (compiled c.request.roots c w₁).Abides n := by
      refine ⟨hw₁.host_eq, hw₁.scripts, hw₁.bears, fun c' kept => ?_, hw₁.read⟩
      obtain rfl : c = c' := by
        rcases kept with kept | kept
        · exact Option.some.inj kept
        · exact Option.some.inj kept
      exact named c rfl
    rw [Work.ends_bind, Work.ends_modify, Work.next_ok]
    exact (sweeps.bind fun _ => Work.along_pure c) _ made
  · exact fun _ _ h => h.1

end

theorem abiding_dispose : Abiding n dispose := by
  intro w hw
  refine ⟨hw.host_eq, hw.scripts, ⟨?_, hw.bears.shown⟩, fun c made => ?_, hw.read⟩
  · intro file id ht
    cases ht
  · rcases made with made | made <;> cases made

theorem abiding_addListener (topic : Topic) (name : Option String) {script : Script}
    (allowed : ∀ locator ∈ Action.allOpenings script.actions, n.allows locator) :
    Abiding n (addListener topic name script) := by
  refine Work.along_get_bind fun w hw => ⟨hw.host_eq, fun s hs => ?_, hw.bears, hw.compiled, hw.read⟩
  rcases List.mem_append.mp hs with hs | hs
  · exact hw.scripts s hs
  · rw [List.mem_singleton.mp hs]
    exact allowed

mutual

theorem abiding_perform (calls : ∀ listener topic about, Abiding n (call listener topic about)) (action : Action)
    (allowed : ∀ locator ∈ action.openings, n.allows locator) : Abiding n (perform call action) := by
  by_cases reading : action.isReading = true
  · apply along_perform Inside.self Workspace.overlooks_abides action reading
    · exact fun _ => abiding_rebuild calls
    · rintro topic name plays script rfl
      rw [Action.openings] at allowed
      exact abiding_addListener topic name allowed
  · cases action with
    | openOnServer locator =>
      rw [Action.openings] at allowed
      refine (abiding_openOnServer calls (allowed locator (List.mem_singleton_self locator))).bind fun found => ?_
      cases found with
      | none => exact Work.along_pure _
      | some id => exact (along_document id).bind fun _ => Work.along_pure _
    | closeOnServer locator => exact (abiding_closeOnServer calls locator).bind fun _ => Work.along_pure _
    | openOnClient u text => exact (abiding_updateOnClient calls u text).bind fun _ => Work.along_pure _
    | changeOnClient u texts => exact (abiding_changeOnClient calls u texts).bind fun _ => Work.along_pure _
    | closeOnClient u => exact (abiding_closeOnClient calls u).bind fun _ => Work.along_pure _
    | suspended actions =>
      rw [Action.openings] at allowed
      exact (Gate.along_suspended Workspace.ignored_abides (abiding_report calls)
        (abiding_performAll calls actions allowed)).bind fun _ => Work.along_pure _
    | rebuilding actions =>
      rw [Action.openings] at allowed
      exact (Gate.along_rebuilding Workspace.ignored_abides (abiding_report calls)
        (abiding_performAll calls actions allowed)).bind fun _ => Work.along_pure _
    | suspend => exact (Workspace.ignored_abides _).bind fun _ => Work.along_pure _
    | resume =>
      exact (Gate.along_resume Workspace.ignored_abides (abiding_report calls)).bind fun _ => Work.along_pure _
    | request => exact (abiding_request calls).bind fun _ => Work.along_pure _
    | dispose | shutDown => exact abiding_dispose.bind fun _ => Work.along_pure _
    | write file bytes | setFailing file failing =>
      exact Along.bind (fun _ hw => hw.of_same rfl rfl rfl rfl rfl rfl rfl) fun _ => Work.along_pure _
    | delete file => exact Work.along_get_bind fun _ hw => hw.of_same rfl rfl rfl rfl rfl rfl rfl
    | _ => exact absurd rfl reading

theorem abiding_performAll (calls : ∀ listener topic about, Abiding n (call listener topic about))
    (actions : List Action) (allowed : ∀ locator ∈ Action.allOpenings actions, n.allows locator) :
    Abiding n (performAll call actions) := by
  cases actions with
  | nil => exact Work.along_pure _
  | cons action rest =>
    rw [Action.allOpenings] at allowed
    obtain ⟨first, others⟩ := List.forall_mem_append.mp allowed
    exact (abiding_perform calls action first).bind fun _ => (abiding_performAll calls rest others).bind fun _ =>
      Work.along_pure _

end

theorem ends_nextPlay_abides (number : Nat) {w : Workspace} (hw : w.Abides n) :
    Ends (nextPlay number) w fun r w' => w'.Abides n ∧
      ∀ actions, r = .ok actions → ∀ locator ∈ Action.allOpenings actions, n.allows locator := by
  rw [nextPlay, Work.ends_bind, Work.ends_get, Work.next_ok]
  rcases hn : w.scripts[number]? with _ | ⟨_ | plays, actions⟩
  · refine ⟨hw, fun _ same => ?_⟩
    cases same
    exact List.forall_mem_nil _
  · refine ⟨hw, fun _ same => ?_⟩
    cases same
    exact List.forall_mem_nil _
  · have allowed := hw.scripts _ (List.mem_of_getElem? hn)
    refine ⟨⟨hw.host_eq, fun s hs => ?_, hw.bears, hw.compiled, hw.read⟩, fun _ same => ?_⟩
    · rcases List.mem_or_eq_of_mem_set hs with hs | rfl
      · exact hw.scripts s hs
      · exact allowed
    · cases same
      exact allowed

/-- However deep listeners are at work inside one another, documents stay of this kind. -/
theorem abiding_call (depth : Nat) (listener : Listener) (topic : Topic) (about : Option DocumentId) :
    Abiding n (Task.call depth listener topic about) := by
  have notes (topic : Topic) (about : Option DocumentId) : Abiding n (note topic about) :=
    along_note (fun _ o plain hw => hw.noting fun _ _ same => by
      rw [← same] at plain
      cases plain) topic about
  induction depth generalizing listener topic about with
  | zero =>
    cases listener with
    | observer => exact notes topic about
    | clearer => exact along_clearNotices Workspace.overlooks_abides about
    | publisher => exact Work.along_pure ()
    | scripted number => exact Work.along_pure ()
  | succ depth ih =>
    cases listener with
    | observer => exact notes topic about
    | clearer => exact along_clearNotices Workspace.overlooks_abides about
    | publisher => exact along_publish Inside.self (abiding_rebuild ih) Workspace.overlooks_abides
    | scripted number =>
      intro w hw
      have played : Ends (Task.call (depth + 1) (.scripted number) topic about) w fun _ w' => w'.Abides n := by
        apply (ends_nextPlay_abides number hw).bind
        · rintro actions w' ⟨hw', allowed⟩
          have plays : Abiding n (play (Task.call depth) actions) :=
            along_play Workspace.overlooks_abides actions fun action hm =>
              abiding_perform ih action fun locator opens =>
                allowed actions rfl locator (Action.mem_allOpenings hm opens)
          exact plays w' hw'
        · exact fun _ _ h => h.1
      exact played

end Task

namespace Workspace

variable {w : Workspace}

/-- After a whole run all documents are of one kind, if the server opens nothing but what is allowed. -/
theorem Abides.run (hw : w.Abides n) (actions : List Action)
    (allowed : ∀ locator ∈ Action.allOpenings actions, n.allows locator) : (w.run actions).Abides n := by
  induction actions generalizing w with
  | nil => exact hw
  | cons action rest ih =>
    rw [Action.allOpenings] at allowed
    obtain ⟨first, others⟩ := List.forall_mem_append.mp allowed
    have performed : Ends (Task.perform (Task.call (w.restlessness + action.weight + 1)) action) w
        fun _ w' => w'.Abides n := Task.abiding_perform (Task.abiding_call _) action first w hw
    have turned : (w.turn action).2.Abides n := performed
    exact ih turned others

theorem scripts_ofSetup (s : Setup) : (ofSetup s).scripts = s.cast.map Cast.script := by
  have listeners : ∀ (all : List (Topic × Listener)) (w : Workspace),
      (all.foldl withListener w).scripts = w.scripts := by
    intro all
    induction all with
    | nil => exact fun _ => rfl
    | cons entry rest ih => exact fun w => ih (w.withListener entry)
  have casts : ∀ (all : List Cast) (w : Workspace),
      (all.foldl withCast w).scripts = w.scripts ++ all.map Cast.script := by
    intro all
    induction all with
    | nil => exact fun w => (List.append_nil w.scripts).symm
    | cons c rest ih =>
      intro w
      have one : (w.withCast c).scripts = w.scripts ++ [c.script] := rfl
      rw [List.foldl_cons, ih, one, List.append_assoc]
      rfl
  rw [ofSetup, casts, listeners]
  rfl

/-- The scripts of the listeners that are there from the start keep to what is allowed. -/
theorem abides_ofSetup (s : Setup) {n : Naming s.host}
    (cast : ∀ c ∈ s.cast, ∀ locator ∈ Action.allOpenings c.script.actions, n.allows locator) :
    (ofSetup s).Abides n := by
  have scripts := scripts_ofSetup s
  obtain ⟨bus, subscriptions, scripts', start⟩ := exists_ofSetup s
  rw [start] at scripts ⊢
  constructor
  case host_eq => rfl
  case scripts =>
    intro script hm
    rw [scripts] at hm
    obtain ⟨c, hc, rfl⟩ := List.mem_map.mp hm
    exact cast c hc
  case bears =>
    refine ⟨?_, ?_⟩
    · intro file id ht
      cases ht
    · intro id d hd
      cases hd
  case compiled =>
    intro c made
    rcases made with made | made <;> cases made
  case read => exact fun _ _ hm => nomatch hm

end Workspace
end GrammarWorkspace
