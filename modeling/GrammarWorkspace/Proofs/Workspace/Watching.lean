import GrammarWorkspace.Proofs.Workspace.Registry
import Mathlib.Data.List.Chain

/-!
# What the watcher is asked

The watcher watches just the files whose documents the server holds alone. Listeners may read whenever
they are told of something, so a rebuild may come in the middle of an operation; even so no file is
watched twice, and none is left.
-/
namespace GrammarWorkspace

open Work (Ends Along Inside Stays Keeping)

namespace Observation

def vigil? (file : String) : Observation → Option Bool
  | .watched f => if f = file then some true else none
  | .unwatched f => if f = file then some false else none
  | _ => none

theorem vigil?_of_not_isAsking {o : Observation} {file : String} (unasked : o.isAsking = false) :
    o.vigil? file = none := by
  cases o <;> first | rfl | cases unasked

end Observation

def Action.isDisposal : Action → Bool
  | .dispose | .shutDown => true
  | _ => false

def Document.isGuarded (d : Document) : Bool := d.onServer && !d.onClient

namespace Holdings

variable {h h₁ : Holdings} {id : DocumentId} {file : String} {d : Document} {f : Document → Document} {isNew : Bool}

def guards (h : Holdings) (file : String) : Bool := (h.view Document.isGuarded file).getD false

theorem guards_of_tracked (ht : h.tracked.get? file = some id) (hd : h.document? id = some d) :
    h.guards file = d.isGuarded := by
  rw [guards, view_of_tracked ht hd, Option.getD_some]

theorem Registered.guards_revise (hr : h.Registered) (ht : h.tracked.get? file = some id)
    (hd : h.document? id = some d) :
    (h.revise id f).guards = Function.update h.guards file (f d).isGuarded := by
  funext other
  rw [guards, hr.view_revise ht hd]
  by_cases he : other = file <;> simp [he, guards]

theorem guards_revise_of_same (same : ∀ d, h.document? id = some d → (f d).isGuarded = d.isGuarded) :
    (h.revise id f).guards = h.guards := by
  funext file
  rw [guards, view_revise_of_same same, guards]

theorem guards_forget (h : Holdings) (file : String) :
    (h.forget file).guards = Function.update h.guards file false := by
  funext other
  rw [guards, view_forget]
  by_cases he : other = file <;> simp [he, guards]

theorem Provides.guards_eq (p : h.Provides file id isNew d h₁) : h.guards file = d.isGuarded := by
  rw [guards, p.view_eq]
  cases p with
  | found _ _ => rfl
  | made _ => rfl

theorem Provides.guards_revise (p : h.Provides file id isNew d h₁) (hr : h.Registered) :
    (h₁.revise id f).guards = Function.update h.guards file (f d).isGuarded := by
  funext other
  rw [guards, p.view_revise hr]
  by_cases he : other = file <;> simp [he, guards]

end Holdings

namespace Workspace

/-- What the watcher was asked about a file, oldest first. -/
def vigils (w : Workspace) (file : String) : List Bool := w.record.filterMap (Observation.vigil? file)

/-- The watcher was asked in turns to watch a file and to watch it no longer, and what it was asked last
is right. At first no file is watched. -/
def Guarded (w : Workspace) : Prop := ∀ file,
  (false :: w.vigils file).IsChain (· ≠ ·) ∧
    (false :: w.vigils file).getLast? = some (w.holdings.guards file)

variable {w w' : Workspace} {file : String}

theorem vigils_noting {o : Observation} (unasked : o.vigil? file = none) :
    (w.noting o).vigils file = w.vigils file := by
  simp [vigils, noting, unasked]

theorem Guarded.of_same (hw : w.Guarded) (vigils : ∀ file, w'.vigils file = w.vigils file)
    (guards : w'.holdings.guards = w.holdings.guards) : w'.Guarded := by
  intro file
  rw [vigils, guards]
  exact hw file

/-- The watcher is asked just if the file has come under guard or is not under guard any more. -/
theorem Guarded.asked {h : Holdings} {reason now : Bool} {o : Observation} (hw : w.Guarded)
    (watcher : w.hasWatcher = true) (file : String) (asks : Bool)
    (about : ∀ other, o.vigil? other = if other = file then some asks else none)
    (guards : h.guards = Function.update w.holdings.guards file now)
    (turns : reason = true → now = asks ∧ w.holdings.guards file ≠ asks)
    (stays : reason = false → now = w.holdings.guards file) :
    ((w.holding h).asked reason o).Guarded := by
  intro other
  obtain ⟨chain, last⟩ := hw other
  have vigils : ((w.holding h).asked reason o).vigils other =
      w.vigils other ++ if reason = true ∧ other = file then [asks] else [] := by
    have watcher' : (w.holding h).hasWatcher = true := watcher
    rw [Workspace.vigils, Workspace.asked, watcher', Bool.and_true, List.filterMap_append]
    cases reason with
    | false => simp [Workspace.vigils, holding]
    | true => by_cases he : other = file <;> simp [Workspace.vigils, holding, about, he]
  have guards' : ((w.holding h).asked reason o).holdings.guards other =
      Function.update w.holdings.guards file now other := congrFun guards other
  rw [vigils, guards']
  by_cases asked : reason = true ∧ other = file
  · obtain ⟨because, rfl⟩ := asked
    obtain ⟨rfl, differs⟩ := turns because
    rw [if_pos ⟨because, rfl⟩, Function.update_self, ← List.cons_append]
    constructor
    · rw [List.isChain_append]
      refine ⟨chain, List.isChain_singleton _, ?_⟩
      intro x hx y hy
      rw [last] at hx
      cases hx
      cases hy
      exact differs
    · exact List.getLast?_concat
  · rw [if_neg asked, List.append_nil]
    refine ⟨chain, last.trans (congrArg some ?_)⟩
    by_cases he : other = file
    · subst he
      have unasked : reason = false := by
        rw [← Bool.not_eq_true]
        exact fun because => asked ⟨because, rfl⟩
      rw [Function.update_self, stays unasked]
    · rw [Function.update_of_ne he]

structure Vigilant (w : Workspace) : Prop where
  passive : ∀ s ∈ w.scripts, Action.arePassive s.actions = true
  watcher : w.hasWatcher = true
  registered : w.holdings.Registered
  guarded : w.Guarded

/-- Whatever listeners read, they may have the documents compiled. So the server may open some and let go
of others, which go unless the client holds them. All others stay. -/
structure Passes (w w' : Workspace) : Prop where
  phase_eq : w'.gate.phase = w.gate.phase
  compiled : w.compilation.isSome = true → w'.compilation.isSome = true
  document : ∀ id d, w.holdings.document? id = some d → ∃ d', w'.holdings.document? id = some d' ∧
    d'.file = d.file ∧ d'.onClient = d.onClient ∧ (d'.onServer = true → d.onServer = true)
  kept : ∀ id d, w.holdings.tracked.get? d.file = some id → w.holdings.document? id = some d →
    d.onServer = false ∨ w'.compilation = none → w'.holdings.tracked.get? d.file = some id

theorem Passes.of_same (phase : w'.gate.phase = w.gate.phase) (compilation : w'.compilation = w.compilation)
    (holdings : w'.holdings = w.holdings) : w.Passes w' where
  phase_eq := phase
  compiled h := by
    rw [compilation]
    exact h
  document id d hd := by
    rw [holdings]
    exact ⟨d, hd, rfl, rfl, fun hs => hs⟩
  kept id d ht _ _ := by
    rw [holdings]
    exact ht

theorem Passes.trans {w'' : Workspace} (h : w.Passes w') (h' : w'.Passes w'') : w.Passes w'' where
  phase_eq := h'.phase_eq.trans h.phase_eq
  compiled made := h'.compiled (h.compiled made)
  document id d hd := by
    obtain ⟨d', hd', file, client, server⟩ := h.document id d hd
    obtain ⟨d'', hd'', file', client', server'⟩ := h'.document id d' hd'
    exact ⟨d'', hd'', file'.trans file, client'.trans client, server ∘ server'⟩
  kept id d ht hd stays := by
    obtain ⟨d', hd', file, -, server⟩ := h.document id d hd
    have before : d.onServer = false ∨ w'.compilation = none := by
      rcases stays with unheld | none
      · exact Or.inl unheld
      · right
        cases made : w'.compilation with
        | none => rfl
        | some c =>
          have still := h'.compiled (by rw [made]; rfl)
          rw [none] at still
          cases still
    have ht' := h.kept id d ht hd before
    rw [← file] at ht' ⊢
    apply h'.kept id d' ht' hd'
    rcases stays with unheld | none
    · left
      rw [← Bool.not_eq_true] at unheld ⊢
      exact fun held => unheld (server held)
    · exact Or.inr none

instance : IsPreorder Workspace Passes where
  refl _ := .of_same rfl rfl rfl
  trans _ _ _ h h' := h.trans h'

abbrev Watchful : Workspace → Workspace → Prop := Keeping Vigilant Passes

theorem Vigilant.of_same (hw : w.Vigilant) (scripts : w'.scripts = w.scripts)
    (watcher : w'.hasWatcher = w.hasWatcher) (holdings : w'.holdings = w.holdings)
    (vigils : ∀ file, w'.vigils file = w.vigils file) : w'.Vigilant where
  passive := by
    rw [scripts]
    exact hw.passive
  watcher := watcher.trans hw.watcher
  registered := by
    rw [holdings]
    exact hw.registered
  guarded := hw.guarded.of_same vigils (by rw [holdings])

theorem watchful_noting {o : Observation} (unasked : ∀ file, o.vigil? file = none) :
    Watchful w (w.noting o) := fun hw =>
  ⟨hw.of_same rfl rfl rfl fun _ => vigils_noting (unasked _), .of_same rfl rfl rfl⟩

theorem peruses_watchful : Peruses Vigilant Passes where
  passive _ hw := hw.passive
  noted _ _ unasked := watchful_noting fun _ => Observation.vigil?_of_not_isAsking unasked
  answered _ _ hw := ⟨hw.of_same rfl rfl rfl fun _ => rfl, .of_same rfl rfl rfl⟩
  listening _ _ _ _ passive hw :=
    ⟨⟨passive, hw.watcher, hw.registered, hw.guarded⟩, .of_same rfl rfl rfl⟩

theorem phased_watchful : Gate.Phased Watchful where
  noted _ _ same hw := ⟨hw.of_same rfl rfl rfl fun _ => rfl, .of_same same rfl rfl⟩
  visited {w w'} phase g h same hw := by
    have hw' : (HasGate.setGate { HasGate.gate w with phase := phase } w).Vigilant :=
      hw.of_same rfl rfl rfl fun _ => rfl
    obtain ⟨hw'', passes⟩ := h hw'
    exact ⟨hw''.of_same rfl rfl rfl fun _ => rfl, same, passes.compiled, passes.document, passes.kept⟩

section

variable {h : Holdings} {id : DocumentId} {d : Document} {isNew : Bool}

theorem Vigilant.serverOpened (hw : w.Vigilant) (p : w.holdings.Provides file id isNew d h) (u text : String) :
    (w.serverOpened h id d u text).Vigilant where
  passive := hw.passive
  watcher := hw.watcher
  registered := registered_serverOpened p hw.registered u text
  guarded := by
    have here : d.file = file := p.file_eq hw.registered.filed
    apply hw.guarded.asked hw.watcher d.file true
    · exact fun other => by simp [Observation.vigil?, eq_comm]
    · rw [here]
      exact p.guards_revise hw.registered
    · rw [here, p.guards_eq]
      cases hc : d.onClient <;> simp [Document.isOpen, Document.isGuarded, hc]
    · rw [here, p.guards_eq]
      cases hc : d.onClient <;> simp [Document.isOpen, Document.isGuarded, hc]

theorem Vigilant.clientOpened (hw : w.Vigilant) (p : w.holdings.Provides file id isNew d h) (u text : String) :
    (w.clientOpened h id d u text).Vigilant where
  passive := hw.passive
  watcher := hw.watcher
  registered := registered_clientOpened p hw.registered u text
  guarded := by
    have here : d.file = file := p.file_eq hw.registered.filed
    apply hw.guarded.asked hw.watcher d.file false
    · exact fun other => by simp [Observation.vigil?, eq_comm]
    · rw [here]
      exact p.guards_revise hw.registered
    · rw [here, p.guards_eq]
      cases hc : d.onClient <;> simp [Document.isGuarded, hc]
    · rw [here, p.guards_eq]
      cases hc : d.onClient <;> simp [Document.isGuarded, hc]

theorem Vigilant.serverClosed (hw : w.Vigilant) (hd : w.holdings.document? id = some d) (hs : d.onServer = true) :
    (w.serverClosed id d).Vigilant where
  passive := hw.passive
  watcher := hw.watcher
  registered := registered_serverClosed hw.registered id d
  guarded := by
    have ht := hw.registered.held id d hd (by simp [Document.isOpen, hs])
    apply hw.guarded.asked hw.watcher d.file false
    · exact fun other => by simp [Observation.vigil?, eq_comm]
    · exact hw.registered.guards_revise ht hd
    · rw [Holdings.guards_of_tracked ht hd]
      cases hc : d.onClient <;> simp [Document.isGuarded, hc, hs]
    · rw [Holdings.guards_of_tracked ht hd]
      cases hc : d.onClient <;> simp [Document.isGuarded, hc]

theorem Vigilant.clientClosed (hw : w.Vigilant) (hd : w.holdings.document? id = some d) (hc : d.onClient = true) :
    (w.clientClosed id d).Vigilant where
  passive := hw.passive
  watcher := hw.watcher
  registered := registered_clientClosed hw.registered id d
  guarded := by
    have ht := hw.registered.held id d hd (by simp [Document.isOpen, hc])
    apply hw.guarded.asked hw.watcher d.file true
    · exact fun other => by simp [Observation.vigil?, eq_comm]
    · exact hw.registered.guards_revise ht hd
    · rw [Holdings.guards_of_tracked ht hd]
      cases hs : d.onServer <;> simp [Document.isGuarded, hc, hs]
    · rw [Holdings.guards_of_tracked ht hd]
      cases hs : d.onServer <;> simp [Document.isGuarded, hc, hs]

theorem Vigilant.forgetting (hw : w.Vigilant) (ht : w.holdings.tracked.get? d.file = some id)
    (hd : w.holdings.document? id = some d) (closed : d.isOpen = false) : (w.forgetting d.file).Vigilant where
  passive := hw.passive
  watcher := hw.watcher
  registered := hw.registered.forget ht hd closed
  guarded := by
    have unguarded : w.holdings.guards d.file = false := by
      rw [Holdings.guards_of_tracked ht hd]
      simp only [Document.isOpen, Bool.or_eq_false_iff] at closed
      simp [Document.isGuarded, closed.2]
    have same : (w.forgetting d.file).holdings.guards = w.holdings.guards := by
      refine (w.holdings.guards_forget d.file).trans ?_
      rw [← unguarded]
      exact Function.update_eq_self _ _
    exact hw.guarded.of_same (fun _ => rfl) same

theorem passes_serverOpened (new : w.holdings.tracked.get? file = none) (u text : String) : w.Passes
    (w.serverOpened (w.holdings.add (.new file)) w.documents.length (.new file) u text) where
  phase_eq := rfl
  compiled h := h
  document id d hd := by
    have made : w.holdings.Provides file w.documents.length true (.new file) (w.holdings.add (.new file)) :=
      .made new
    exact ⟨d, made.document?_revise_of_ne (made.ne_of_made hd) hd, rfl, rfl, fun hs => hs⟩
  kept id d ht hd _ := by
    have apart : file ≠ d.file := by
      intro same
      rw [← same, new] at ht
      cases ht
    exact Holdings.tracked_add.trans ((if_neg apart).trans ht)

theorem passes_serverClosed (w : Workspace) (id : DocumentId) (d : Document) : w.Passes (w.serverClosed id d) where
  phase_eq := rfl
  compiled h := h
  document other e he := by
    apply Holdings.revise_induction (P := fun _ e e' => e'.file = e.file ∧ e'.onClient = e.onClient ∧
      (e'.onServer = true → e.onServer = true)) _ _ he
    · exact fun _ _ => ⟨rfl, rfl, fun held => by cases held⟩
    · exact fun _ _ => ⟨rfl, rfl, fun held => held⟩
  kept _ _ ht _ _ := ht

/-- A document goes after the server has let go of it, while a compilation is there. -/
theorem Passes.forgetting (h : w.Passes w') (hr : w.holdings.Registered)
    (hd : w.holdings.document? id = some d) (hs : d.onServer = true) (phase : w.gate.phase = .rebuilding)
    (made : w.compilation.isSome = true) : w.Passes (w'.forgetting d.file) := by
  have rebuilding : w'.gate.isRebuilding = true := by
    rw [Gate.isRebuilding, h.phase_eq, phase]
    rfl
  have compilation : (w'.forgetting d.file).compilation = w'.compilation := by
    change (if true && !w'.gate.isRebuilding then none else w'.compilation) = _
    rw [rebuilding]
    rfl
  have made' : (w'.forgetting d.file).compilation.isSome = true := by
    rw [compilation]
    exact h.compiled made
  refine ⟨h.phase_eq, fun _ => made', h.document, fun other e ht he stays => ?_⟩
  have apart : e.file ≠ d.file := by
    intro same
    rw [same, hr.held id d hd (by simp [Document.isOpen, hs])] at ht
    cases ht
    rw [hd] at he
    cases he
    rcases stays with unheld | none
    · rw [hs] at unheld
      cases unheld
    · rw [none] at made'
      cases made'
  have unheld : e.onServer = false ∨ w'.compilation = none := by
    rw [← compilation]
    exact stays
  refine (Table.get?_erase _ _ _).trans ?_
  rw [if_neg apart]
  exact h.kept other e ht he unheld

end

end Workspace

open Workspace (Vigilant Passes Watchful)

namespace Task

variable {w : Workspace} {id : DocumentId} {file : String} {d : Document} {call : Calling}

abbrev Watched {α : Type} (task : Task α) : Prop := Along Watchful task

theorem watched_mark (id : DocumentId) (mark : Document → Bool) :
    Watched (update id fun d => { d with isMarked := mark d }) := by
  intro w hw
  constructor
  · refine ⟨hw.passive, hw.watcher, hw.registered.revise (fun _ _ => rfl) fun _ _ ho => Or.inl ho, ?_⟩
    have same : (w.holdings.revise id fun d => { d with isMarked := mark d }).guards = w.holdings.guards :=
      Holdings.guards_revise_of_same fun _ _ => rfl
    exact hw.guarded.of_same (fun _ => rfl) same
  · refine ⟨rfl, fun h => h, fun other e he => ?_, fun _ _ ht _ _ => ht⟩
    apply Holdings.revise_induction (P := fun _ e e' => e'.file = e.file ∧ e'.onClient = e.onClient ∧
      (e'.onServer = true → e.onServer = true)) _ _ he
    · exact fun _ _ => ⟨rfl, rfl, fun held => held⟩
    · exact fun _ _ => ⟨rfl, rfl, fun held => held⟩

theorem watched_pass (m : Moment) : Watched (pass m) := fun _ hw =>
  ⟨hw.of_same rfl rfl rfl fun _ => rfl, .of_same rfl rfl rfl⟩

section

variable (calls : ∀ listener topic about, Watched (call listener topic about))

include calls

theorem watched_fire (topic : Topic) (about : Option DocumentId) : Watched (fire call topic about) :=
  along_fire watched_pass calls topic about

theorem watched_report : Watched (report call) := watched_fire calls .updated none

theorem watched_request : Watched (Gate.request (report call)) :=
  Gate.along_request_phased (watched_report calls) Workspace.phased_watchful

theorem watched_readForCompiler (file : String) : Watched (readForCompiler call file) := by
  apply along_readForCompiler
  · exact fun id => watched_mark id fun _ => true
  · exact fun w outcome => Workspace.watchful_noting fun _ => rfl
  · intro w text u _ new _ hw
    have opened : Watchful w
        (w.serverOpened (w.holdings.add (.new file)) w.documents.length (.new file) u text) :=
      fun hw => ⟨hw.serverOpened (.made new) u text, Workspace.passes_serverOpened new u text⟩
    have told := (watched_fire calls .created (some w.documents.length)).bind fun _ =>
      watched_fire calls .openedOnServer (some w.documents.length)
    exact (told _).mono fun _ _ h => trans_of Watchful opened h hw

theorem watched_loadAnew : Watched (loadAnew call) := by
  apply along_loadAnew
  · exact fun id => watched_mark id Document.onClient
  · exact fun w hw => ⟨hw.of_same rfl rfl rfl fun _ => rfl, .of_same rfl rfl rfl⟩
  · exact fun w _ hw => ⟨hw.of_same rfl rfl rfl fun _ => rfl, .of_same rfl rfl rfl⟩
  · exact watched_readForCompiler calls

theorem ends_remove_watchful (hw : w.Vigilant) (hd : w.holdings.document? id = some d) (closed : d.isOpen = false)
    (own : ∀ other, w.holdings.tracked.get? d.file = some other → other = id) :
    Ends (remove call id) w fun _ w' => w'.Vigilant ∧ (w.Passes w' ∨ (w.forgetting d.file).Passes w') := by
  apply ends_remove_of hd
  · intro _
    exact ⟨hw.of_same rfl rfl rfl fun _ => rfl, Or.inl (.of_same rfl rfl rfl)⟩
  · intro other ht
    obtain rfl := own other ht
    have told := (watched_fire calls .closed (some other)).bind fun _ => watched_request calls
    refine (told (w.forgetting d.file)).mono fun _ w' h => ?_
    obtain ⟨hw', passes⟩ := h (hw.forgetting ht hd closed)
    exact ⟨hw', Or.inr passes⟩

/-- One side has let go of a document. What listeners then do leaves no other document of its file. -/
theorem ends_letGo_watchful {topic : Topic} {P : Workspace → Prop} (hw : w.Vigilant)
    (hd : w.holdings.document? id = some d) (fired : Ends (fire call topic (some id)) w fun _ w' => P w')
    (own : ∀ w', P w' → w.Passes w' → ∀ other, w'.holdings.tracked.get? d.file = some other → other = id) :
    Ends (letGo call topic id) w fun _ w' => w'.Vigilant ∧
      ∃ w₁, w.Passes w₁ ∧ (w₁.Passes w' ∨ (w₁.forgetting d.file).Passes w') := by
  apply ends_letGo_of (P := fun e w' => w'.Vigilant ∧ w.Passes w' ∧ P w' ∧ e.file = d.file)
  · refine ((ends_fire_ok topic (some id) w).and (fired.and (watched_fire calls topic (some id) w))).mono ?_
    rintro r w' ⟨ok, hp, h⟩
    obtain ⟨hw', passes⟩ := h hw
    obtain ⟨d', hd', here, -⟩ := passes.document id d hd
    exact ⟨ok, d', hd', hw', passes, hp, here⟩
  · rintro e w' ⟨hw', passes, -, -⟩ _
    exact ⟨hw', w', passes, Or.inl (refl_of Passes w')⟩
  · rintro e w' ⟨hw', passes, hp, here⟩ he closed
    have own' : ∀ other, w'.holdings.tracked.get? e.file = some other → other = id := by
      rw [here]
      exact own w' hp passes
    refine (ends_remove_watchful calls hw' he closed own').mono fun _ w'' h => ?_
    rw [here] at h
    exact ⟨h.1, w', passes, h.2⟩

/-- A document that the server does not hold stays tracked, as long as nobody else has it removed. -/
theorem ends_letGo_closedOnServer (hw : w.Vigilant) (hd : w.holdings.document? id = some d)
    (hs : d.onServer = true) :
    Ends (letGo call .closedOnServer id) (w.serverClosed id d) fun _ w' => w'.Vigilant ∧
      ∃ w₁, w.Passes w₁ ∧ (w₁.Passes w' ∨ (w₁.forgetting d.file).Passes w') := by
  have ht := hw.registered.held id d hd (by simp [Document.isOpen, hs])
  have released := Workspace.passes_serverClosed w id d
  have here := Workspace.document?_serverClosed hd
  refine (ends_letGo_watchful calls (hw.serverClosed hd hs) here (P := fun _ => True) trivial ?_).mono ?_
  · intro w' _ passes other ht'
    have kept := passes.kept id { d with onServer := false } ht here (Or.inl rfl)
    rw [ht'] at kept
    exact Option.some.inj kept
  · rintro _ w' ⟨hw', w₁, passes, h⟩
    exact ⟨hw', w₁, released.trans passes, h⟩

theorem staying_releaseOnServer_vigilant (id : DocumentId) : Along (Stays Vigilant) (releaseOnServer call id) := by
  apply Work.along_stays_of
  intro w hw
  apply ends_releaseOnServer_of
  · exact hw
  · exact fun d hd hs => (ends_letGo_closedOnServer calls hw hd hs).mono fun _ _ h => h.1

theorem ends_releaseOnServer_watchful (hw : w.Vigilant) (phase : w.gate.phase = .rebuilding)
    (made : w.compilation.isSome = true) :
    Ends (releaseOnServer call id) w fun _ w' => w'.Vigilant ∧ w.Passes w' := by
  apply ends_releaseOnServer_of
  · exact ⟨hw, refl_of Passes w⟩
  · intro d hd hs
    refine (ends_letGo_closedOnServer calls hw hd hs).mono ?_
    rintro _ w' ⟨hw', w₁, passes, stayed | gone⟩
    · exact ⟨hw', passes.trans stayed⟩
    · exact ⟨hw', (passes.forgetting hw.registered hd hs phase made).trans gone⟩

theorem ends_sweep_watchful (hw : w.Vigilant) (phase : w.gate.phase = .rebuilding)
    (made : w.compilation.isSome = true) :
    Ends (sweep call) w fun _ w' => w'.Vigilant ∧ w.Passes w' := by
  have releases (all : List DocumentId) (w₁ : Workspace) (hw₁ : w₁.Vigilant) (passes : w.Passes w₁) :
      Ends (all.forM fun id => do
        let d ← document id
        if !d.isMarked && !d.onClient then releaseOnServer call id) w₁ fun _ w' =>
          w'.Vigilant ∧ w.Passes w' := by
    induction all generalizing w₁ with
    | nil => exact ⟨hw₁, passes⟩
    | cons id rest ih =>
      have released : Ends (do
          let d ← document id
          if !d.isMarked && !d.onClient then releaseOnServer call id) w₁ fun _ w' =>
            w'.Vigilant ∧ w.Passes w' := by
        rw [Work.ends_bind, ends_document_iff, Work.next_ok]
        split
        · refine (ends_releaseOnServer_watchful calls hw₁ (passes.phase_eq.trans phase)
            (passes.compiled made)).mono fun _ _ h => ?_
          exact ⟨h.1, passes.trans h.2⟩
        · exact ⟨hw₁, passes⟩
      exact released.bind (fun _ w₂ h => ih w₂ h.1 h.2) fun _ _ h => h
  exact releases w.tracked.values w hw (refl_of Passes w)

theorem ends_rebuildBody_watchful (hw : w.Vigilant) (phase : w.gate.phase = .rebuilding) :
    Ends (rebuildBody call) w fun _ w' => w'.Vigilant ∧ w.Passes w' := by
  rw [rebuildBody_eq]
  apply (watched_loadAnew calls w).bind
  · intro c w₁ h₁
    obtain ⟨hw₁, passes₁⟩ := h₁ hw
    let w₂ := compiled c.request.roots c w₁
    have hw₂ : w₂.Vigilant := hw₁.of_same rfl rfl rfl fun _ => rfl
    have made : w₂.compilation.isSome = true := rfl
    have passes₂ : w.Passes w₂ := by
      refine ⟨passes₁.phase_eq, fun _ => made, passes₁.document, fun id d ht hd stays => ?_⟩
      exact passes₁.kept id d ht hd (Or.inl (stays.resolve_right (by simp [w₂, compiled])))
    rw [Work.ends_bind, Work.ends_modify, Work.next_ok]
    refine (ends_sweep_watchful calls hw₂ (passes₂.phase_eq.trans phase) made).bind ?_ ?_
    · exact fun _ _ h => ⟨h.1, passes₂.trans h.2⟩
    · exact fun _ _ h => ⟨h.1, passes₂.trans h.2⟩
  · exact fun _ _ h => h hw

theorem watched_rebuild : Watched (rebuild call) := by
  rw [rebuild_eq]
  apply Gate.along_rebuilding_phased (watched_report calls) Workspace.phased_watchful
  exact fun w phase hw => ends_rebuildBody_watchful calls hw phase

end

/-- Whatever listeners do inside one another leaves the watcher as it should be. -/
theorem watched_call (depth : Nat) (listener : Listener) (topic : Topic) (about : Option DocumentId) :
    Watched (Task.call depth listener topic about) :=
  along_call Workspace.peruses_watchful (fun _ => watched_rebuild) depth listener topic about

section

variable {depth : Nat}

theorem watched_tell (id : DocumentId) (isNew hasChanged : Bool) (opened : Option Topic) :
    Watched (tell (Task.call depth) id isNew hasChanged opened) := by
  have fires (topic : Topic) : Watched (fire (Task.call depth) topic (some id)) :=
    watched_fire (watched_call depth) topic _
  exact along_tell Inside.self (fires _) (fun topic _ => fires topic) (fires _) (watched_request (watched_call depth))

theorem staying_openOnServer_vigilant (locator : Locator) :
    Along (Stays Vigilant) (openOnServer (Task.call depth) locator) := by
  apply Work.along_stays_of
  intro w hw
  apply ends_openOnServer_of hw.registered.filed
  · exact fun _ _ => hw
  · exact fun file r outcome _ _ => (Workspace.watchful_noting (fun _ => rfl) hw).1
  · intro file text outcome id isNew d h u _ _ _ p
    have read : (w.noting (.read file outcome)).Vigilant := (Workspace.watchful_noting (fun _ => rfl) hw).1
    have opened := read.serverOpened p u text
    refine (watched_tell id isNew _ _ _).mono fun _ w' h => ?_
    exact (h (opened.of_same rfl rfl rfl fun _ => rfl)).1

theorem staying_updateOnClient_vigilant (u text : String) :
    Along (Stays Vigilant) (updateOnClient (Task.call depth) u text) := by
  apply Work.along_stays_of
  intro w hw
  apply ends_updateOnClient_of hw.registered.filed
  · exact fun _ _ => hw
  · intro file id isNew d h _ p
    have opened := hw.clientOpened p u text
    refine (watched_tell id isNew _ _ _).mono fun _ w' h => ?_
    exact (h (opened.of_same rfl rfl rfl fun _ => rfl)).1

end

end Task

theorem Core.Fits.reaches {k : Core} {c : Grammar.Compilation} {file : String} (fits : k.Fits c)
    (tracked : file ∈ k.holdings.tracked.keys) : k.holdings.Reaches file := by
  have reached := (fits.loads.mem_keys_iff.mp ((fits.keys_iff file).mpr tracked)).1
  clear tracked
  induction reached with
  | root hm => exact .root hm
  | @imported file text target _ here imports ih =>
    refine ih.imported ?_ imports
    cases ht : k.holdings.tracked.get? file with
    | some id =>
      rw [Holdings.reading_tracked ht]
      exact here
    | none =>
      have unread : k.holdings.text? file = none := by simp [Holdings.text?, ht]
      rw [unread] at here
      cases here

namespace Task

variable {w : Workspace} {depth : Nat}

/-- If a rebuild has removed a document that the client has let go of, its file has no other. -/
theorem ends_closeOnClient_vigilant {host : Host} (u : String) (hr : w.Resting (.readers host)) (hw : w.Vigilant) :
    Ends (closeOnClient (Task.call depth) u) w fun _ w' => w'.Vigilant := by
  apply ends_closeOnClient_of hw.registered.filed
  · exact fun _ _ => hw
  · exact fun _ _ _ => hw
  · intro file id d _ ht hd hf hc
    subst hf
    have closed := hw.clientClosed hd hc
    have here := Workspace.document?_clientClosed hd
    have calls := watched_call depth
    cases hs : d.onServer with
    | false =>
      refine (ends_letGo_watchful calls closed here (P := fun _ => True) trivial ?_).mono fun _ _ h => h.1
      intro w' _ passes other ht'
      have kept := passes.kept id { d with onClient := false } ht here (Or.inl hs)
      rw [ht'] at kept
      exact Option.some.inj kept
    | true =>
      have sound : (w.clientClosed id d).core.Sound [] := by
        rw [Workspace.core_clientClosed hr.phase_eq]
        have known := Holdings.known_release hr.known hd
        rw [hs] at known
        exact Core.sound_stale hr.sound known
      have quiet : (Frame.readers host).Quiet (w.clientClosed id d) := hr.quiet
      have fired := soft_fire (calm_call depth) .closedOnClient (some id) _ quiet sound
      refine (ends_letGo_watchful calls closed here fired ?_).mono fun _ _ h => h.1
      intro w' drifts passes other ht'
      suffices kept : w'.holdings.tracked.get? d.file = some id by
        rw [ht'] at kept
        exact Option.some.inj kept
      cases made : w'.compilation with
      | none => exact passes.kept id { d with onClient := false } ht here (Or.inr made)
      | some c =>
        have fits := drifts.sound.fits rfl c made
        have reached := fits.reaches (Table.mem_keys_of_get? ht')
        exact drifts.core.later.kept d.file id _ ht here (Or.inl (drifts.core.later.reaches_iff.mp reached))

theorem watched_resume : Watched (Gate.resume (report (Task.call depth))) := by
  refine Gate.along_read.bind fun g => ?_
  split
  · exact (Work.Along.bind (fun w => Workspace.phased_watchful.noted w _ rfl) fun _ =>
      Gate.along_flush_phased (watched_report (watched_call depth)) Workspace.phased_watchful)
  · exact Work.along_pure ()

theorem vigilant_on_disk (hw : w.Vigilant) (disk : Table String (List UInt8)) (failing : List String) :
    { w with disk := disk, failing := failing }.Vigilant :=
  ⟨hw.passive, hw.watcher, ⟨hw.registered.filed, hw.registered.held⟩, hw.guarded⟩

theorem ends_perform_vigilant {host : Host} (action : Action) (plain : action.isPlain = true)
    (lasts : action.isDisposal = false) (hr : w.Resting (.readers host)) (hw : w.Vigilant) :
    Ends (perform (Task.call depth) action) w fun _ w' => w'.Vigilant := by
  have calls := watched_call depth
  have answer {α : Type} {task : Task α} {give : α → Task Answer}
      (h : Ends task w fun _ w' => w'.Vigilant) (hn : ∀ a, Watched (give a)) :
      Ends (task >>= give) w fun _ w' => w'.Vigilant :=
    h.bind (fun a w' hw' => (hn a w').mono fun _ _ h' => (h' hw').1) fun _ _ hw' => hw'
  have stays {α : Type} {task : Task α} (h : Watched task) : Ends task w fun _ w' => w'.Vigilant :=
    (h w).mono fun _ _ h' => (h' hw).1
  by_cases passive : action.isPassive = true
  · exact stays (along_perform_passive Workspace.peruses_watchful (watched_rebuild calls) action passive)
  · cases action with
    | openOnServer locator =>
      apply answer (staying_openOnServer_vigilant locator w hw)
      intro found
      cases found with
      | none => exact Work.along_pure _
      | some id => exact (along_document id).bind fun _ => Work.along_pure _
    | closeOnServer locator =>
      apply answer _ fun _ => Work.along_pure _
      refine ends_find (fun _ _ => hw) fun file _ => ?_
      cases w.tracked.get? file with
      | none => exact hw
      | some id => exact staying_releaseOnServer_vigilant calls id w hw
    | openOnClient u text =>
      exact answer (staying_updateOnClient_vigilant u text w hw) fun _ => Work.along_pure _
    | changeOnClient u texts =>
      apply answer _ fun _ => Work.along_pure _
      rw [changeOnClient]
      cases texts.getLast? with
      | none => exact hw
      | some text => exact staying_updateOnClient_vigilant u text w hw
    | closeOnClient u => exact answer (ends_closeOnClient_vigilant u hr hw) fun _ => Work.along_pure _
    | suspend =>
      have suspends : Watched (Gate.suspend : Task Unit) := fun w => Workspace.phased_watchful.noted w _ rfl
      exact answer (stays suspends) fun _ => Work.along_pure _
    | resume => exact answer (stays watched_resume) fun _ => Work.along_pure _
    | request => exact answer (stays (watched_request calls)) fun _ => Work.along_pure _
    | write file bytes => exact vigilant_on_disk hw _ w.failing
    | delete file => exact vigilant_on_disk hw _ w.failing
    | setFailing file failing => exact vigilant_on_disk hw w.disk _
    | suspended _ | rebuilding _ => cases plain
    | dispose | shutDown => cases lasts
    | subscribe _ _ _ _ => exact absurd plain passive
    | _ => exact absurd rfl passive

end Task

namespace Workspace

variable {w : Workspace} {file : String}

theorem vigilant_ofSetup (s : Setup) (watcher : s.hasWatcher = true)
    (cast : ∀ c ∈ s.cast, Action.arePassive c.script.actions = true) : (ofSetup s).Vigilant := by
  have resting := resting_ofSetup s cast
  obtain ⟨bus, subscriptions, scripts, start⟩ := exists_ofSetup s
  rw [start] at resting ⊢
  refine ⟨resting.quiet.2, watcher, ⟨?_, ?_⟩, fun file => ⟨List.isChain_singleton _, rfl⟩⟩
  · intro file id ht
    cases ht
  · intro id d hd
    cases hd

theorem Vigilant.run {host : Host} (hw : w.Vigilant) (hr : w.Resting (.readers host)) {actions : List Action}
    (plain : ∀ action ∈ actions, action.isPlain = true ∧ action.isDisposal = false) :
    (w.run actions).Vigilant := by
  induction actions generalizing w with
  | nil => exact hw
  | cons action rest ih =>
    obtain ⟨first, lasts⟩ := plain action List.mem_cons_self
    have performed : Ends (Task.perform (Task.call (w.restlessness + action.weight + 1)) action) w
        fun _ w' => w'.Vigilant := Task.ends_perform_vigilant action first lasts hr hw
    have turned : (w.turn action).2.Vigilant := performed
    exact ih turned (hr.turn first) fun a hm => plain a (List.mem_cons_of_mem _ hm)

theorem guards_iff (hr : w.holdings.Registered) : w.holdings.guards file = true ↔
    ∃ d ∈ w.trackedDocuments, d.file = file ∧ d.onServer = true ∧ d.onClient = false := by
  constructor
  · intro guarded
    cases ht : w.holdings.tracked.get? file with
    | none =>
      rw [Holdings.guards, Holdings.view, Holdings.filed?_of_untracked ht] at guarded
      cases guarded
    | some id =>
      obtain ⟨d, hd, hf⟩ := hr.filed file id ht
      rw [Holdings.guards_of_tracked ht hd] at guarded
      simp only [Document.isGuarded, Bool.and_eq_true, Bool.not_eq_true'] at guarded
      exact ⟨d, mem_of_tracked ht hd, hf, guarded⟩
  · rintro ⟨d, hm, rfl, hs, hc⟩
    obtain ⟨id, ht, hd⟩ := tracked_of_mem hr.filed hm
    rw [Holdings.guards_of_tracked ht hd, Document.isGuarded, hs, hc]
    rfl

/-- As long as listeners only read, whatever they are told of, the watcher is asked in turns to watch a
file and to watch it no longer. It watches the files whose documents the server holds and the client does
not. -/
theorem vigils_run (s : Setup) (watcher : s.hasWatcher = true)
    (cast : ∀ c ∈ s.cast, Action.arePassive c.script.actions = true) (actions : List Action)
    (plain : ∀ action ∈ actions, action.isPlain = true ∧ action.isDisposal = false) (file : String) :
    (false :: ((ofSetup s).run actions).vigils file).IsChain (· ≠ ·) ∧
      ((((ofSetup s).run actions).vigils file).getLast? = some true ↔
        ∃ d ∈ ((ofSetup s).run actions).trackedDocuments,
          d.file = file ∧ d.onServer = true ∧ d.onClient = false) := by
  have vigilant := (vigilant_ofSetup s watcher cast).run (resting_ofSetup s cast) plain
  obtain ⟨chain, last⟩ := vigilant.guarded file
  refine ⟨chain, ?_⟩
  rw [← guards_iff vigilant.registered, ← Option.some.inj (List.getLast?_cons.symm.trans last)]
  cases (((ofSetup s).run actions).vigils file).getLast? with
  | none => simp
  | some asked => simp

/-- A file on disk, a watcher, and a listener that reads in the middle of what the client does. -/
def overlooked : Setup where
  host := ⟨none⟩
  files := [("/b", [])]
  reportUnused := false
  hasWatcher := true
  hasClient := true
  cast := [⟨.closedOnClient, none, ⟨2, [.sources]⟩⟩]

/-- The client has a file open that imports another one, which it opens and closes as well. -/
def handover : List Action :=
  [.openOnClient "/a" "@import 'b';", .openOnClient "/b" "x:='x';", .closeOnClient "/b", .closeOnClient "/a"]

set_option maxRecDepth 4000 in
theorem vigils_run_handover :
    ((false :: ((ofSetup overlooked).run handover).vigils "/b").IsChain (· ≠ ·) ∧
      ((((ofSetup overlooked).run handover).vigils "/b").getLast? = some true ↔
        ∃ d ∈ ((ofSetup overlooked).run handover).trackedDocuments,
          d.file = "/b" ∧ d.onServer = true ∧ d.onClient = false)) ∧
      ((ofSetup overlooked).run (handover.take 3)).vigils "/b" = [true, false, true] ∧
      ((ofSetup overlooked).run handover).vigils "/b" = [true, false, true, false] :=
  ⟨vigils_run overlooked rfl (by decide) handover (by decide) "/b", by decide +kernel⟩

end Workspace
end GrammarWorkspace
