import GrammarWorkspace.Proofs.Workspace.Docility

/-!
# How often updates are told

As long as listeners ask for the compilation only at updates, an action tells of an update at most once.
It does so if the text of a document has changed, or a document has been removed, since the last update
was told, and no suspension is left. What is removed by a rebuild inside a report belongs to the update
that is reported.
-/
namespace GrammarWorkspace

open Work (Ends Along Inside Keeping)

namespace Moment

def isUpdate : Moment → Bool
  | .telling .updated none | .told .updated none => true
  | _ => false

def isClosing : Moment → Bool
  | .telling .closed (some _) => true
  | _ => false

theorem isClosing_iff {m : Moment} : m.isClosing = true ↔ ∃ id, m = .telling .closed (some id) := by
  constructor
  · intro closes
    unfold isClosing at closes
    split at closes
    · exact ⟨_, rfl⟩
    · cases closes
  · rintro ⟨id, rfl⟩
    rfl

end Moment

def Plain (news : List Moment) : Prop := ∀ m ∈ news, m.isUpdate = false

theorem plain_append {news news' : List Moment} (h : Plain news) (h' : Plain news') :
    Plain (news ++ news') := by
  intro m hm
  rcases List.mem_append.mp hm with hm | hm
  · exact h m hm
  · exact h' m hm

theorem Plain.count_telling {news : List Moment} (h : Plain news) : news.count (.telling .updated none) = 0 :=
  List.count_eq_zero.mpr fun hm => Bool.noConfusion (h _ hm)

theorem Plain.count_told {news : List Moment} (h : Plain news) : news.count (.told .updated none) = 0 :=
  List.count_eq_zero.mpr fun hm => Bool.noConfusion (h _ hm)

theorem plain_nil : Plain [] := fun _ hm => by cases hm

/-- Whenever a document is removed inside a report, the end of the report is still to come. -/
theorem Plain.unbalanced {inner before after : List Moment} {id : DocumentId} (h : Plain inner)
    (told : .telling .updated none :: inner ++ [.told .updated none] =
      before ++ .telling .closed (some id) :: after) :
    before.count (.telling .updated none) ≠ before.count (.told .updated none) := by
  cases before with
  | nil => cases told
  | cons m before =>
    obtain ⟨rfl, rest⟩ := List.cons.inj told
    have early : ∃ more, inner = before ++ more := by
      rcases List.append_eq_append_iff.mp rest with ⟨bs, rfl, tail⟩ | ⟨as, here, -⟩
      · cases bs with
        | nil => exact ⟨[], by simp⟩
        | cons m bs =>
          rw [List.cons_append] at tail
          have none := (List.cons.inj tail).2
          simp at none
      · exact ⟨as, here⟩
    obtain ⟨more, rfl⟩ := early
    have plain : Plain before := fun m hm => h m (List.mem_append_left _ hm)
    rw [List.count_cons_self, List.count_cons_of_ne (by decide), plain.count_telling, plain.count_told]
    decide

namespace Action

/-- What a session is made of from outside, unless it works on the gate itself or ends: documents are
opened, changed and closed, files change or can no longer be read, updates are suspended and resumed, and
anything may be asked. Listeners that are added are meek. -/
def isOperation : Action → Bool
  | request | suspended _ | rebuilding _ | dispose | shutDown => false
  | subscribe topic _ _ script => areMeek (topic = .updated) script
  | _ => true

end Action

namespace Workspace

def tally (w : Workspace) : Nat := w.moments.count (.telling .updated none)

def Alters (w : Workspace) (action : Action) : Prop :=
  ∃ file text, w.given? action = some (file, text) ∧ w.holdings.text? file ≠ some text

theorem not_alters {w : Workspace} {action : Action} (given : w.given? action = none) : ¬ w.Alters action := by
  rintro ⟨file, text, given', -⟩
  rw [given] at given'
  cases given'

def Removes (w : Workspace) (action : Action) : Prop :=
  ∃ before id after,
    (w.turn action).2.moments = w.moments ++ before ++ .telling .closed (some id) :: after ∧
      before.count (.telling .updated none) = before.count (.told .updated none)

def Changes (w : Workspace) (action : Action) : Prop := w.Alters action ∨ w.Removes action

structure Sober (w : Workspace) : Prop where
  docile : w.Docile
  registered : w.holdings.Registered

structure Tells (closes : Bool) (w w' : Workspace) : Prop where
  gate_eq : w'.gate = w.gate
  news : ∃ news, w'.moments = w.moments ++ news ∧ Plain news ∧ news.any Moment.isClosing = closes

variable {w w' w'' : Workspace} {closes closes' : Bool}

theorem Sober.of_same (hw : w.Sober) (bus : w'.bus = w.bus) (subscriptions : w'.subscriptions = w.subscriptions)
    (scripts : w'.scripts = w.scripts) (holdings : w'.holdings = w.holdings) : w'.Sober :=
  ⟨hw.docile.of_same bus subscriptions scripts, by rw [holdings]; exact hw.registered⟩

theorem Sober.of_idly (hw : w.Sober) (idly : Idly w w') : w'.Sober := by
  obtain ⟨docile, heard⟩ := idly hw.docile
  refine ⟨docile, ?_⟩
  rw [heard.holdings_eq]
  exact hw.registered

theorem Tells.of_same (gate : w'.gate = w.gate) (moments : w'.moments = w.moments) : w.Tells false w' :=
  ⟨gate, [], by rw [moments, List.append_nil], plain_nil, rfl⟩

theorem Tells.trans (h : w.Tells closes w') (h' : w'.Tells closes' w'') : w.Tells (closes || closes') w'' := by
  obtain ⟨news, moments, plain, closing⟩ := h.news
  obtain ⟨news', moments', plain', closing'⟩ := h'.news
  refine ⟨h'.gate_eq.trans h.gate_eq, news ++ news', ?_, plain_append plain plain', ?_⟩
  · rw [moments', moments, List.append_assoc]
  · rw [List.any_append, closing, closing']

instance : IsPreorder Workspace (Tells false) where
  refl _ := .of_same rfl rfl
  trans _ _ _ h h' := h.trans h'

theorem Tells.of_idly (hw : w.Sober) (idly : Idly w w') : w.Tells false w' := by
  have heard := (idly hw.docile).2
  exact .of_same heard.gate_eq (heard.moments_eq.trans (List.append_nil _))

end Workspace

open Workspace (Sober Tells Idly)

namespace Task

variable {w : Workspace} {depth : Nat} {id : DocumentId} {file : String} {d : Document}

theorem ends_fire_tells {topic : Topic} (hw : w.Sober) (quiet : topic ≠ .updated)
    (hd : w.holdings.document? id = some d) :
    Ends (fire (Task.call depth) topic (some id)) w fun r w' => r = .ok () ∧ w'.Sober ∧
      w'.holdings = w.holdings ∧ w.Tells (topic = .closed) w' := by
  refine (ends_fire_of_document hw.docile quiet hd).mono ?_
  rintro r w' ⟨ok, docile, heard⟩
  refine ⟨ok, ⟨docile, ?_⟩, heard.holdings_eq, heard.gate_eq, _, heard.moments_eq, ?_, ?_⟩
  · rw [heard.holdings_eq]
    exact hw.registered
  · intro m hm
    rcases List.mem_pair.mp hm with rfl | rfl <;> cases topic <;> rfl
  · cases topic <;> first | exact absurd rfl quiet | rfl

theorem ends_fire_telling {topic : Topic} {next : Unit → Task Unit} {Q : Except Fault Unit → Workspace → Prop}
    (hw : w.Sober) (quiet : topic ≠ .updated) (hd : w.holdings.document? id = some d)
    (rest : ∀ w', w'.Sober → w'.holdings = w.holdings → w.Tells (topic = .closed) w' → Ends (next ()) w' Q) :
    Ends (fire (Task.call depth) topic (some id) >>= next) w Q := by
  apply (ends_fire_tells hw quiet hd).bind
  · rintro ⟨⟩ w' ⟨-, hw', same, told⟩
    exact rest w' hw' same told
  · rintro _ _ ⟨failed, -⟩
    cases failed

theorem ends_remove_tells {Q : Except Fault Unit → Workspace → Prop} (hw : w.Sober)
    (ht : w.holdings.tracked.get? file = some id) (hd : w.holdings.document? id = some d)
    (hf : d.file = file) (closed : d.isOpen = false)
    (rest : ∀ w', w'.Sober → w.Tells true w' → Ends (Gate.request (report (Task.call depth))) w' Q) :
    Ends (remove (Task.call depth) id) w Q := by
  subst hf
  apply ends_remove_of hd
  · intro gone
    rw [gone] at ht
    cases ht
  · intro _ _
    have hw' : (w.forgetting d.file).Sober :=
      ⟨hw.docile.of_same rfl rfl rfl, hw.registered.forget ht hd closed⟩
    have begun : w.Tells false (w.forgetting d.file) := .of_same rfl rfl
    apply ends_fire_telling hw' (by decide) (d := d) hd
    intro w' hw' _ told
    exact rest w' hw' (begun.trans told)

/-- One side has let go of a document. If that was the last one, the document goes as well. -/
theorem ends_letGo_tells {topic : Topic} {Q : Except Fault Unit → Workspace → Prop} (hw : w.Sober)
    (quiet : topic ≠ .updated) (silent : topic ≠ .closed) (ht : w.holdings.tracked.get? file = some id)
    (hd : w.holdings.document? id = some d) (hf : d.file = file)
    (kept : ∀ w', w'.Sober → w.Tells false w' → Q (.ok ()) w')
    (gone : ∀ w', w'.Sober → w.Tells true w' → Ends (Gate.request (report (Task.call depth))) w' Q) :
    Ends (letGo (Task.call depth) topic id) w Q := by
  subst hf
  apply ends_letGo_of (P := fun e w' => e = d ∧ w'.Sober ∧ w'.holdings = w.holdings ∧ w.Tells false w')
  · refine (ends_fire_tells hw quiet hd).mono ?_
    rintro r w' ⟨ok, hw', same, told⟩
    rw [decide_eq_false silent] at told
    refine ⟨ok, d, ?_, rfl, hw', same, told⟩
    rw [same]
    exact hd
  · rintro _ w' ⟨-, hw', -, told⟩ _
    exact kept w' hw' told
  · rintro _ w' ⟨rfl, hw', same, told⟩ hd' closed
    rw [← same] at ht
    apply ends_remove_tells hw' ht hd' rfl closed
    intro w'' hw'' told'
    exact gone w'' hw'' (told.trans told')

theorem ends_releaseOnServer_tells {Q : Except Fault Unit → Workspace → Prop} (hw : w.Sober)
    (kept : ∀ w', w'.Sober → w.Tells false w' → Q (.ok ()) w')
    (gone : ∀ w', w'.Sober → w.Tells true w' → Ends (Gate.request (report (Task.call depth))) w' Q) :
    Ends (releaseOnServer (Task.call depth) id) w Q := by
  apply ends_releaseOnServer_of
  · exact kept w hw (.of_same rfl rfl)
  · intro d hd hs
    have ht := hw.registered.held id d hd (by simp [Document.isOpen, hs])
    have hw' : (w.serverClosed id d).Sober :=
      ⟨hw.docile.of_same rfl rfl rfl, Workspace.registered_serverClosed hw.registered id d⟩
    have released : w.Tells false (w.serverClosed id d) := .of_same rfl rfl
    apply ends_letGo_tells hw' (by decide) (by decide) ht
      (Workspace.document?_serverClosed hd) rfl
    · exact fun w' hw' told => kept w' hw' (released.trans told)
    · exact fun w' hw' told => gone w' hw' (released.trans told)

end Task

namespace Workspace

structure Notes (w w' : Workspace) : Prop where
  phase_eq : w'.gate.phase = w.gate.phase
  suspensions_eq : w'.gate.suspensions = w.gate.suspensions
  news : ∃ news, w'.moments = w.moments ++ news ∧ Plain news ∧
    w'.gate.pending = (w.gate.pending || news.any Moment.isClosing)

variable {w w' w'' : Workspace}

theorem Tells.notes (h : w.Tells false w') : w.Notes w' := by
  obtain ⟨gate, news, moments, plain, closing⟩ := h
  refine ⟨by rw [gate], by rw [gate], news, moments, plain, ?_⟩
  rw [gate, closing, Bool.or_false]

theorem Notes.trans (h : w.Notes w') (h' : w'.Notes w'') : w.Notes w'' := by
  obtain ⟨news, moments, plain, pending⟩ := h.news
  obtain ⟨news', moments', plain', pending'⟩ := h'.news
  refine ⟨h'.phase_eq.trans h.phase_eq, h'.suspensions_eq.trans h.suspensions_eq, news ++ news', ?_,
    plain_append plain plain', ?_⟩
  · rw [moments', moments, List.append_assoc]
  · rw [pending', pending, List.any_append, Bool.or_assoc]

instance : IsPreorder Workspace Notes where
  refl _ := (Tells.of_same rfl rfl).notes
  trans _ _ _ h h' := h.trans h'

end Workspace

open Workspace (Notes)

namespace Task

variable {w : Workspace} {depth : Nat} {id : DocumentId}

abbrev Telling {α : Type} (task : Task α) : Prop := Along (Keeping Sober (Tells false)) task

theorem telling_mark (id : DocumentId) (mark : Document → Bool) :
    Telling (update id fun d => { d with isMarked := mark d }) := by
  intro w hw
  refine ⟨⟨hw.docile.of_same rfl rfl rfl, ?_⟩, .of_same rfl rfl⟩
  exact hw.registered.revise (fun _ _ => rfl) fun _ _ ho => Or.inl ho

theorem telling_readForCompiler (file : String) : Telling (readForCompiler (Task.call depth) file) := by
  apply along_readForCompiler
  · exact fun id => telling_mark id fun _ => true
  · exact fun w outcome hw => ⟨hw.of_same rfl rfl rfl rfl, .of_same rfl rfl⟩
  · intro w text u _ new _ hw
    let opened := w.serverOpened (w.holdings.add (.new file)) w.documents.length (.new file) u text
    have p : w.holdings.Provides file w.documents.length true (.new file) (w.holdings.add (.new file)) :=
      .made new
    have here := Workspace.document?_serverOpened p u text
    have hw' : opened.Sober :=
      ⟨hw.docile.of_same rfl rfl rfl, Workspace.registered_serverOpened p hw.registered u text⟩
    have begun : w.Tells false opened := .of_same rfl rfl
    have told : Ends (do
        fire (Task.call depth) .created (some w.documents.length)
        fire (Task.call depth) .openedOnServer (some w.documents.length)) opened
        fun _ w' => w'.Sober ∧ w.Tells false w' := by
      apply ends_fire_telling hw' (by decide) here
      intro w₁ hw₁ same told
      rw [← same] at here
      refine (ends_fire_tells hw₁ (by decide) here).mono ?_
      rintro _ w₂ ⟨-, hw₂, -, told'⟩
      exact ⟨hw₂, (begun.trans told).trans told'⟩
    exact told

theorem telling_loadAnew : Telling (loadAnew (Task.call depth)) := by
  apply along_loadAnew
  · exact fun id => telling_mark id Document.onClient
  · exact fun w hw => ⟨hw.of_same rfl rfl rfl rfl, .of_same rfl rfl⟩
  · exact fun w _ hw => ⟨hw.of_same rfl rfl rfl rfl, .of_same rfl rfl⟩
  · exact telling_readForCompiler

theorem ends_request_notes {w' : Workspace} (phase : w.gate.phase = .rebuilding) (hw' : w'.Sober)
    (told : w.Tells true w') : Ends (Gate.request (report (Task.call depth))) w' fun r w'' =>
      r = .ok () ∧ w''.Sober ∧ w.Notes w'' := by
  obtain ⟨gate, news, moments, plain, closing⟩ := told
  have phase_eq : w'.gate.phase = w.gate.phase := congrArg Gate.phase gate
  have suspensions_eq : w'.gate.suspensions = w.gate.suspensions := congrArg Gate.suspensions gate
  rw [Gate.request, Work.ends_bind, Gate.change, Work.ends_modify, Work.next_ok]
  refine (Gate.ends_flush_of_not ?_).mpr ?_
  · rintro ⟨-, idle⟩
    have idle : w'.gate.phase = .idle := idle
    rw [phase_eq, phase] at idle
    cases idle
  · refine ⟨rfl, hw'.of_same rfl rfl rfl rfl, phase_eq, suspensions_eq, news, moments, plain, ?_⟩
    rw [closing, Bool.or_true]
    rfl

/-- Whatever is removed by a sweep calls for an update, which waits for the end of the rebuild. -/
theorem ends_sweep_notes (hw : w.Sober) (phase : w.gate.phase = .rebuilding) :
    Ends (sweep (Task.call depth)) w fun r w' => r = .ok () ∧ w'.Sober ∧ w.Notes w' := by
  rw [sweep, Work.ends_bind, Work.ends_get, Work.next_ok]
  apply Work.ends_forM (I := fun (_ : List DocumentId) w' => w'.Sober ∧ w.Notes w')
  · exact ⟨hw, refl_of Notes w⟩
  · rintro _ id _ _ w₁ ⟨hw₁, noted⟩
    rw [Work.ends_bind, ends_document_iff, Work.next_ok]
    split
    · apply ends_releaseOnServer_tells hw₁
      · exact fun w₂ hw₂ told => ⟨rfl, hw₂, noted.trans told.notes⟩
      · intro w₂ hw₂ told
        refine (ends_request_notes (noted.phase_eq.trans phase) hw₂ told).mono ?_
        rintro r w₃ ⟨ok, hw₃, noted'⟩
        exact ⟨ok, hw₃, noted.trans noted'⟩
    · exact ⟨rfl, hw₁, noted⟩

theorem ends_rebuildBody_notes (hw : w.Sober) (phase : w.gate.phase = .rebuilding) :
    Ends (rebuildBody (Task.call depth)) w fun r w' => w'.Sober ∧ w.Notes w' ∧
      (r.isOk = false → w.Tells false w') := by
  rw [rebuildBody_eq]
  apply (telling_loadAnew w).bind
  · intro c w₁ h₁
    obtain ⟨hw₁, told⟩ := h₁ hw
    have hw₂ : (compiled c.request.roots c w₁).Sober := hw₁.of_same rfl rfl rfl rfl
    have phase₂ : (compiled c.request.roots c w₁).gate.phase = .rebuilding := told.notes.phase_eq.trans phase
    rw [Work.ends_bind, Work.ends_modify, Work.next_ok, Work.ends_bind]
    refine (ends_sweep_notes hw₂ phase₂).mono ?_
    rintro r w₃ ⟨rfl, hw₃, noted⟩
    have compiles : w₁.Tells false (compiled c.request.roots c w₁) := .of_same rfl rfl
    refine ⟨hw₃, (told.trans compiles).notes.trans noted, fun failed => ?_⟩
    cases failed
  · intro fault w₁ h₁
    obtain ⟨hw₁, told⟩ := h₁ hw
    exact ⟨hw₁, told.notes, fun _ => told⟩

end Task

namespace Workspace

structure Reporting (w : Workspace) : Prop where
  sober : w.Sober
  phase_eq : w.gate.phase = .reporting

structure Absorbs (w w' : Workspace) : Prop where
  gate_eq : w'.gate = w.gate
  news : ∃ news, w'.moments = w.moments ++ news ∧ Plain news

variable {w w' w'' : Workspace}

theorem Tells.absorbs {closes : Bool} (h : w.Tells closes w') : w.Absorbs w' := by
  obtain ⟨gate, news, moments, plain, -⟩ := h
  exact ⟨gate, news, moments, plain⟩

theorem Absorbs.trans (h : w.Absorbs w') (h' : w'.Absorbs w'') : w.Absorbs w'' := by
  obtain ⟨news, moments, plain⟩ := h.news
  obtain ⟨news', moments', plain'⟩ := h'.news
  refine ⟨h'.gate_eq.trans h.gate_eq, news ++ news', ?_, plain_append plain plain'⟩
  rw [moments', moments, List.append_assoc]

instance : IsPreorder Workspace Absorbs where
  refl _ := ⟨rfl, [], (List.append_nil _).symm, plain_nil⟩
  trans _ _ _ h h' := h.trans h'

abbrev Absorbing : Workspace → Workspace → Prop := Keeping Reporting Absorbs

theorem absorbing_of_idly (idly : Idly w w') : Absorbing w w' := by
  rintro ⟨hw, phase⟩
  have told := Tells.of_idly hw idly
  exact ⟨⟨hw.of_idly idly, by rw [told.gate_eq, phase]⟩, told.absorbs⟩

structure Reports (w w' : Workspace) : Prop where
  gate_eq : w'.gate = w.gate
  news : ∃ inner, w'.moments = w.moments ++ .telling .updated none :: inner ++ [.told .updated none] ∧
    Plain inner

end Workspace

open Workspace (Reporting Absorbs Absorbing Reports)

namespace Task

variable {w : Workspace} {depth : Nat}

theorem absorbing_rebuild (depth : Nat) : Along Absorbing (rebuild (Task.call depth)) := by
  rintro w
  suffices absorbed : w.Reporting → Ends (rebuild (Task.call depth)) w fun _ w' => w'.Reporting ∧ w.Absorbs w' from
    absorbed
  rintro ⟨hw, phase⟩
  let inside := { w with gate := { w.gate with phase := .rebuilding } }
  have hw' : inside.Sober := hw.of_same rfl rfl rfl rfl
  have left {w₁ : Workspace} (hw₁ : w₁.Sober) (noted : inside.Notes w₁) :
      (leaving w w₁).Reporting ∧ w.Absorbs (leaving w w₁) := by
    obtain ⟨-, suspensions, news, moments, plain, -⟩ := noted
    exact ⟨⟨hw₁.of_same rfl rfl rfl rfl, phase⟩, gate_leaving suspensions fun outside => absurd phase outside,
      news, moments, plain⟩
  apply ends_rebuilding (ends_rebuildBody_notes (w := inside) hw' rfl)
  · rintro c w₁ ⟨hw₁, noted, -⟩
    have ends := left hw₁ noted
    refine (Gate.ends_flush_of_not ?_).mpr ?_
    · rintro ⟨-, idle⟩
      have idle : (leaving w w₁).gate.phase = .idle := idle
      rw [ends.1.phase_eq] at idle
      cases idle
    · exact ends
  · rintro fault w₁ ⟨hw₁, noted, -⟩
    exact left hw₁ noted

theorem ends_report_reports (hw : w.Reporting) :
    Ends (report (Task.call depth)) w fun r w' => r = .ok () ∧ w'.Reporting ∧ w.Reports w' := by
  let w₁ := w.passed (.telling .updated none)
  have hw₁ : w₁.Reporting := ⟨hw.sober.of_same rfl rfl rfl rfl, hw.phase_eq⟩
  rw [report, ends_fire_iff]
  refine (Bus.ends_deliver (I := fun w' => w'.Reporting ∧ w₁.Absorbs w') _ _ ⟨hw₁, refl_of Absorbs w₁⟩ ?_).mono ?_
  · rintro listener _ w' ⟨hw', absorbed⟩
    refine (ends_call_of_permits (B := Absorbing) (fun _ _ => Workspace.absorbing_of_idly) (fun _ => rfl)
      (fun _ lower _ => absorbing_rebuild lower) (hw'.sober.docile.permits listener)).mono fun _ w'' h => ?_
    obtain ⟨hw'', absorbed'⟩ := h hw'
    exact ⟨hw'', absorbed.trans absorbed'⟩
  · rintro r w' ⟨-, hw', gate, inner, moments, plain⟩
    refine ⟨rfl, ⟨hw'.sober.of_same rfl rfl rfl rfl, hw'.phase_eq⟩, gate, inner, ?_, plain⟩
    simp [moments, w₁]

end Task

namespace Workspace

structure AtRest (w : Workspace) : Prop where
  sober : w.Sober
  phase_eq : w.gate.phase = .idle
  suspensions_nonneg : 0 ≤ w.gate.suspensions
  settled : w.gate.suspensions = 0 → w.gate.pending = false

/-- An update is called for: one waits already, or a text has been altered, or a document removed. -/
def Owes (w : Workspace) (altered : Prop) (news : List Moment) : Prop :=
  w.gate.pending = true ∨ altered ∨ news.any Moment.isClosing = true

structure Accrues (altered : Prop) (w w' : Workspace) : Prop where
  sober : w'.Sober
  phase_eq : w'.gate.phase = .idle
  suspensions_nonneg : 0 ≤ w'.gate.suspensions
  news : ∃ news, w'.moments = w.moments ++ news ∧ Plain news ∧
    (w'.gate.pending = true ↔ w.Owes altered news)

inductive Tallies (altered : Prop) (w w' : Workspace) : Prop
  | noted {news : List Moment} : w'.moments = w.moments ++ news → Plain news →
      (w'.gate.pending = true ↔ w.Owes altered news) → Tallies altered w w'
  | reported {news inner : List Moment} :
      w'.moments = w.moments ++ news ++ .telling .updated none :: inner ++ [.told .updated none] →
      Plain news → Plain inner → w.Owes altered news → w'.gate.suspensions = 0 →
      w'.gate.pending = false → Tallies altered w w'

variable {w w' w'' : Workspace} {altered : Prop}

theorem AtRest.of_tells (hw : w.AtRest) (hw' : w'.Sober) (told : w.Tells false w') : w'.AtRest := by
  refine ⟨hw', ?_, ?_, ?_⟩ <;> rw [told.gate_eq]
  · exact hw.phase_eq
  · exact hw.suspensions_nonneg
  · exact hw.settled

theorem Tells.tallies (told : w.Tells false w') (same : ¬ altered) : Tallies altered w w' := by
  obtain ⟨gate, news, moments, plain, closing⟩ := told
  refine .noted moments plain ?_
  rw [gate, Owes, closing]
  simp [same]

theorem Tallies.before (gate : w'.gate = w.gate) (moments : w'.moments = w.moments)
    (h : Tallies altered w' w'') : Tallies altered w w'' := by
  have owes (news : List Moment) : w'.Owes altered news ↔ w.Owes altered news := by
    rw [Owes, Owes, gate]
  cases h with
  | noted told plain pending =>
    rw [moments] at told
    exact .noted told plain (pending.trans (owes _))
  | reported told plain inside called suspensions pending =>
    rw [moments] at told
    exact .reported told plain inside ((owes _).mp called) suspensions pending

theorem Tallies.after (gate : w''.gate = w'.gate) (moments : w''.moments = w'.moments)
    (h : Tallies altered w w') : Tallies altered w w'' := by
  cases h with
  | noted told plain pending =>
    rw [← gate] at pending
    exact .noted (moments.trans told) plain pending
  | reported told plain inside called suspensions pending =>
    rw [← gate] at suspensions pending
    exact .reported (moments.trans told) plain inside called suspensions pending

end Workspace

open Workspace (AtRest Owes Accrues Tallies)

namespace Task

variable {w w' : Workspace} {depth : Nat} {id : DocumentId} {altered : Prop}

theorem ends_flush_due (hw : w.Sober) (phase : w.gate.phase = .idle) (pending : w.gate.pending = true)
    (suspensions : w.gate.suspensions = 0) :
    Ends (Gate.flush (report (Task.call depth))) w fun _ w' => w'.Sober ∧ w'.gate = .initial ∧
      ∃ inner, w'.moments = w.moments ++ .telling .updated none :: inner ++ [.told .updated none] ∧
        Plain inner := by
  let inside := { w with gate := ⟨.reporting, w.gate.suspensions, false⟩ }
  have due : w.gate.isDue = true := by simp [Gate.isDue, pending, suspensions]
  have reporting : inside.Reporting := ⟨hw.of_same rfl rfl rfl rfl, rfl⟩
  apply Gate.ends_flush_once due phase
  refine (ends_report_reports (w := inside) reporting).mono ?_
  rintro r w₁ ⟨ok, hw₁, gate, inner, moments, plain⟩
  refine ⟨ok, gate, hw₁.sober.of_same rfl rfl rfl rfl, ?_, inner, moments, plain⟩
  change Gate.mk .idle w.gate.suspensions false = _
  rw [suspensions]
  rfl

theorem ends_flush_tallies (h : Accrues altered w w') :
    Ends (Gate.flush (report (Task.call depth))) w' fun _ w'' => w''.AtRest ∧ Tallies altered w w'' := by
  obtain ⟨hw', phase, nonneg, news, moments, plain, pending⟩ := h
  by_cases due : w'.gate.pending = true ∧ w'.gate.suspensions = 0
  · refine (ends_flush_due hw' phase due.1 due.2).mono ?_
    rintro _ w'' ⟨hw'', gate, inner, told, inside⟩
    rw [moments] at told
    constructor
    · refine ⟨hw'', ?_, ?_, fun _ => ?_⟩ <;> rw [gate]
      · rfl
      · exact Int.le_refl 0
      · rfl
    · exact .reported told plain inside (pending.mp due.1) (by rw [gate]; rfl) (by rw [gate]; rfl)
  · refine (Gate.ends_flush_of_not ?_).mpr ?_
    · rintro ⟨due', -⟩
      apply due
      have due' : (w'.gate.pending && w'.gate.suspensions == 0) = true := due'
      simpa using due'
    · refine ⟨⟨hw', phase, nonneg, fun suspensions => ?_⟩, .noted moments plain pending⟩
      rw [← Bool.not_eq_true]
      exact fun waits => due ⟨waits, suspensions⟩

theorem ends_request_tallies {closes : Bool} (hw : w.AtRest) (hw' : w'.Sober) (told : w.Tells closes w')
    (calls : altered ∨ closes = true) :
    Ends (Gate.request (report (Task.call depth))) w' fun _ w'' => w''.AtRest ∧ Tallies altered w w'' := by
  obtain ⟨gate, news, moments, plain, closing⟩ := told
  rw [Gate.request, Work.ends_bind, Gate.change, Work.ends_modify, Work.next_ok]
  apply ends_flush_tallies
  refine ⟨hw'.of_same rfl rfl rfl rfl, ?_, ?_, news, moments, plain, iff_of_true rfl ?_⟩
  · exact (congrArg Gate.phase gate).trans hw.phase_eq
  · exact hw.suspensions_nonneg.trans_eq (congrArg Gate.suspensions gate).symm
  · rw [Owes, closing]
    exact Or.inr calls

theorem ends_rebuild_tallies (hw : w.AtRest) :
    Ends (rebuild (Task.call depth)) w fun _ w' => w'.AtRest ∧ Tallies False w w' := by
  let inside := { w with gate := { w.gate with phase := .rebuilding } }
  have hw' : inside.Sober := hw.sober.of_same rfl rfl rfl rfl
  have pending_eq (w₁ : Workspace) : (leaving w w₁).gate.pending = w₁.gate.pending := by
    rw [leaving, if_neg]
    rw [hw.phase_eq]
    decide
  apply ends_rebuilding (ends_rebuildBody_notes (w := inside) hw' rfl)
  · rintro c w₁ ⟨hw₁, noted, -⟩
    obtain ⟨-, suspensions, news, moments, plain, pending⟩ := noted
    have accrues : Accrues False w (leaving w w₁) := by
      refine ⟨hw₁.of_same rfl rfl rfl rfl, hw.phase_eq, hw.suspensions_nonneg.trans_eq suspensions.symm, news,
        moments, plain, ?_⟩
      rw [pending_eq, pending, Owes]
      simp [inside]
    refine (ends_flush_tallies accrues).mono fun r w₂ h => ?_
    cases r <;> exact h
  · rintro fault w₁ ⟨hw₁, -, told⟩
    obtain ⟨gate, news, moments, plain, closing⟩ := told rfl
    have same : (leaving w w₁).gate = w.gate := by
      apply gate_leaving
      · rw [gate]
      · rw [gate]
        exact fun _ => rfl
    have told' : w.Tells false (leaving w w₁) := ⟨same, news, moments, plain, closing⟩
    exact ⟨hw.of_tells (hw₁.of_same rfl rfl rfl rfl) told', told'.tallies id⟩

abbrev Tallying {α : Type} (altered : Workspace → Prop) (task : Task α) : Prop :=
  ∀ w : Workspace, w.AtRest → Ends task w fun _ w' => w'.AtRest ∧ Tallies (altered w) w w'

/-- Listeners are told of a document, and an update is called for if its text has changed. -/
theorem ends_tell_tallies {d : Document} {isNew hasChanged : Bool} {opened : Option Topic}
    (hw : w.AtRest) (hw' : w'.Sober) (told : w.Tells false w') (hd : w'.holdings.document? id = some d)
    (quiet : opened ≠ some .updated) (silent : opened ≠ some .closed) (changes : altered ↔ hasChanged = true) :
    Ends (tell (Task.call depth) id isNew hasChanged opened) w' fun _ w'' =>
      w''.AtRest ∧ Tallies altered w w'' := by
  have last (w₁ : Workspace) (hw₁ : w₁.Sober) (told₁ : w.Tells false w₁)
      (hd₁ : w₁.holdings.document? id = some d) : Ends (if hasChanged then do
        fire (Task.call depth) .contentChanged (some id)
        Gate.request (report (Task.call depth))
        else pure ()) w₁ fun _ w'' => w''.AtRest ∧ Tallies altered w w'' := by
    cases hasChanged with
    | false => exact ⟨hw.of_tells hw₁ told₁, told₁.tallies (by simp [changes])⟩
    | true =>
      apply ends_fire_telling hw₁ (by decide) hd₁
      intro w₂ hw₂ _ told₂
      exact ends_request_tallies hw hw₂ (told₁.trans told₂) (Or.inl (changes.mpr rfl))
  have middle (w₁ : Workspace) (hw₁ : w₁.Sober) (told₁ : w.Tells false w₁)
      (hd₁ : w₁.holdings.document? id = some d) : Ends (tellOpened (Task.call depth) id opened
        (if hasChanged then do
          fire (Task.call depth) .contentChanged (some id)
          Gate.request (report (Task.call depth))
          else pure ())) w₁ fun _ w'' => w''.AtRest ∧ Tallies altered w w'' := by
    cases opened with
    | none => exact last w₁ hw₁ told₁ hd₁
    | some topic =>
      apply ends_fire_telling hw₁ (fun he => quiet (by rw [he])) hd₁
      intro w₂ hw₂ same told₂
      rw [decide_eq_false fun he => silent (by rw [he])] at told₂
      exact last w₂ hw₂ (told₁.trans told₂) (by rw [same]; exact hd₁)
  cases isNew with
  | false => exact middle w' hw' told hd
  | true =>
    apply ends_fire_telling hw' (by decide) hd
    intro w₁ hw₁ same told₁
    exact middle w₁ hw₁ (told.trans told₁) (by rw [same]; exact hd)

theorem tallying_openOnServer (locator : Locator) :
    Tallying (Workspace.Alters · (.openOnServer locator)) (openOnServer (Task.call depth) locator) := by
  intro w hw
  apply ends_openOnServer_of hw.sober.registered.filed
  · intro fault unnamed
    refine ⟨hw, (Tells.of_same rfl rfl).tallies (Workspace.not_alters ?_)⟩
    apply Workspace.given?_openOnServer_eq_none
    intro file named
    rw [unnamed] at named
    cases named
  · intro file r outcome named unread
    have told : w.Tells false (w.noting (.read file outcome)) := .of_same rfl rfl
    refine ⟨hw.of_tells (hw.sober.of_same rfl rfl rfl rfl) told, told.tallies (Workspace.not_alters ?_)⟩
    apply Workspace.given?_openOnServer_eq_none
    intro file' named'
    rw [named] at named'
    cases named'
    exact unread
  · intro file text outcome id isNew d h u named _ read p
    have p' : (w.noting (.read file outcome)).holdings.Provides file id isNew d h := p
    have here := Workspace.document?_serverOpened p' u text
    let opened := ((w.noting (.read file outcome)).serverOpened h id d u text).outdated (d.text ≠ some text)
    have hw' : opened.Sober :=
      ⟨hw.sober.docile.of_same rfl rfl rfl, Workspace.registered_serverOpened p' hw.sober.registered u text⟩
    have told : w.Tells false opened := .of_same rfl rfl
    apply ends_tell_tallies hw hw' told here
    · split <;> decide
    · split <;> decide
    · have given := Workspace.given?_openOnServer_iff.mpr ⟨named, read⟩
      simp [Workspace.Alters, given, p.text?_eq]

theorem tallying_updateOnClient (u text : String) :
    Tallying (Workspace.Alters · (.openOnClient u text)) (updateOnClient (Task.call depth) u text) := by
  intro w hw
  apply ends_updateOnClient_of hw.sober.registered.filed
  · intro fault unnamed
    exact ⟨hw, (Tells.of_same rfl rfl).tallies
      (Workspace.not_alters (Workspace.given?_openOnClient_eq_none unnamed text))⟩
  · intro file id isNew d h named p
    have here := Workspace.document?_clientOpened p u text
    let opened := (w.clientOpened h id d u text).outdated (d.text ≠ some text)
    have hw' : opened.Sober :=
      ⟨hw.sober.docile.of_same rfl rfl rfl, Workspace.registered_clientOpened p hw.sober.registered u text⟩
    have told : w.Tells false opened := .of_same rfl rfl
    apply ends_tell_tallies hw hw' told here
    · split <;> decide
    · split <;> decide
    · have given : w.given? (.openOnClient u text) = some (file, text) :=
        Workspace.given?_openOnClient_iff.mpr ⟨named, rfl⟩
      simp [Workspace.Alters, given, p.text?_eq]

theorem tallying_changeOnClient (u : String) (texts : List String) :
    Tallying (Workspace.Alters · (.changeOnClient u texts)) (changeOnClient (Task.call depth) u texts) := by
  intro w hw
  rw [changeOnClient]
  cases hl : texts.getLast? with
  | none =>
    refine ⟨hw, (Tells.of_same rfl rfl).tallies (Workspace.not_alters ?_)⟩
    rw [Workspace.given?_changeOnClient, hl, Option.bind_none]
  | some text =>
    have same : w.given? (.changeOnClient u texts) = w.given? (.openOnClient u text) := by
      rw [Workspace.given?_changeOnClient, hl, Option.bind_some]
    simp only [Workspace.Alters, same]
    exact tallying_updateOnClient u text w hw

theorem tallying_releaseOnServer (id : DocumentId) :
    Tallying (fun _ => False) (releaseOnServer (Task.call depth) id) := by
  intro w hw
  apply ends_releaseOnServer_tells hw.sober
  · exact fun w' hw' told => ⟨hw.of_tells hw' told, told.tallies not_false⟩
  · exact fun w' hw' told => ends_request_tallies hw hw' told (Or.inr rfl)

theorem tallying_closeOnServer (locator : Locator) :
    Tallying (fun _ => False) (closeOnServer (Task.call depth) locator) := by
  intro w hw
  have kept : w.AtRest ∧ Tallies False w w := ⟨hw, (Tells.of_same rfl rfl).tallies not_false⟩
  rw [closeOnServer]
  refine ends_find (fun _ _ => kept) fun file _ => ?_
  cases w.tracked.get? file with
  | none => exact kept
  | some id => exact tallying_releaseOnServer id w hw

theorem tallying_closeOnClient (u : String) :
    Tallying (fun _ => False) (closeOnClient (Task.call depth) u) := by
  intro w hw
  have kept : w.AtRest ∧ Tallies False w w := ⟨hw, (Tells.of_same rfl rfl).tallies not_false⟩
  apply ends_closeOnClient_of hw.sober.registered.filed
  · exact fun _ _ => kept
  · exact fun _ _ _ => kept
  · intro file id d _ ht hd hf _
    have hw' : (w.clientClosed id d).Sober :=
      ⟨hw.sober.docile.of_same rfl rfl rfl, Workspace.registered_clientClosed hw.sober.registered id d⟩
    have released : w.Tells false (w.clientClosed id d) := .of_same rfl rfl
    apply ends_letGo_tells hw' (by decide) (by decide) ht (Workspace.document?_clientClosed hd) hf
    · exact fun w' hw' told => ⟨hw.of_tells hw' (released.trans told), (released.trans told).tallies not_false⟩
    · exact fun w' hw' told => ends_request_tallies hw hw' (released.trans told) (Or.inr rfl)

theorem tallying_suspend : Tallying (fun _ => False) (Gate.suspend : Task Unit) := by
  intro w hw
  have nonneg := hw.suspensions_nonneg
  constructor
  · refine ⟨hw.sober.of_same rfl rfl rfl rfl, hw.phase_eq, Int.le_add_one nonneg, fun none => ?_⟩
    have none : w.gate.suspensions + 1 = 0 := none
    omega
  · refine .noted (List.append_nil _).symm plain_nil ?_
    simp [Owes]
    rfl

theorem tallying_resume : Tallying (fun _ => False) (Gate.resume (report (Task.call depth))) := by
  intro w hw
  rw [Gate.resume, Gate.read, Work.ends_bind, Work.ends_bind, Work.ends_get, Work.next_ok, Work.ends_pure,
    Work.next_ok]
  split
  · rename_i suspended
    have some : 0 < w.gate.suspensions := of_decide_eq_true suspended
    rw [Work.ends_bind, Gate.change, Work.ends_modify, Work.next_ok]
    apply ends_flush_tallies
    refine ⟨hw.sober.of_same rfl rfl rfl rfl, hw.phase_eq, Int.sub_nonneg_of_le some, [],
      (List.append_nil _).symm, plain_nil, ?_⟩
    simp [Owes]
    rfl
  · exact ⟨hw, (Tells.of_same rfl rfl).tallies not_false⟩

/-- Whatever only reads tells of an update if it has the documents compiled and one of them goes. -/
theorem tallying_perform_of_isReading {action : Action} (reading : action.isReading = true)
    (operation : action.isOperation = true) :
    Tallying (fun _ => False) (perform (Task.call depth) action) := by
  have inside : Inside Idly fun w w' : Workspace => w.AtRest → w'.AtRest ∧ Tallies False w w' := by
    constructor
    · intro w w' idly hw
      have told := Tells.of_idly hw.sober idly
      exact ⟨hw.of_tells (hw.sober.of_idly idly) told, told.tallies not_false⟩
    · intro w w' w'' idly h hw
      have heard := (idly hw.sober.docile).2
      obtain ⟨hw'', tallied⟩ := h (hw.of_tells (hw.sober.of_idly idly) (Tells.of_idly hw.sober idly))
      exact ⟨hw'', tallied.before heard.gate_eq (heard.moments_eq.trans (List.append_nil _))⟩
    · intro w w' w'' h idly hw
      obtain ⟨hw', tallied⟩ := h hw
      have heard := (idly hw'.sober.docile).2
      exact ⟨hw'.of_tells (hw'.sober.of_idly idly) (Tells.of_idly hw'.sober idly),
        tallied.after heard.gate_eq (heard.moments_eq.trans (List.append_nil _))⟩
  suffices along : Along (fun w w' : Workspace => w.AtRest → w'.AtRest ∧ Tallies False w w')
      (perform (Task.call depth) action) from fun w hw => (along w).mono fun _ _ h => h hw
  apply along_perform inside Workspace.overlooks_idly action reading
  · intro _ w
    suffices rebuilt : w.AtRest → Ends (rebuild (Task.call depth)) w fun _ w' =>
      w'.AtRest ∧ Tallies False w w' from rebuilt
    exact ends_rebuild_tallies
  · rintro topic name plays script rfl
    exact along_addListener topic name operation

theorem tallies_on_disk (hw : w.AtRest) (disk : Table String (List UInt8)) (failing : List String) :
    { w with disk := disk, failing := failing }.AtRest ∧
      Tallies False w { w with disk := disk, failing := failing } := by
  have sober : { w with disk := disk, failing := failing }.Sober :=
    ⟨hw.sober.docile.of_same rfl rfl rfl, hw.sober.registered.filed, hw.sober.registered.held⟩
  have told : w.Tells false { w with disk := disk, failing := failing } := .of_same rfl rfl
  exact ⟨hw.of_tells sober told, told.tallies not_false⟩

theorem Tallying.answer {α : Type} {altered : Workspace → Prop} {task : Task α} (h : Tallying altered task)
    (answer : Answer) : Tallying altered (task >>= fun _ => pure answer) := fun w hw =>
  (h w hw).bind (fun _ _ h' => h') fun _ _ h' => h'

theorem tallying_perform (action : Action) (operation : action.isOperation = true) :
    Tallying (Workspace.Alters · action) (perform (Task.call depth) action) := by
  have giving_nothing {task : Task Answer} (given : ∀ w : Workspace, w.given? action = none)
      (h : Tallying (fun _ => False) task) : Tallying (Workspace.Alters · action) task := by
    have same (w : Workspace) : w.Alters action = False := eq_false (Workspace.not_alters (given w))
    simpa only [Tallying, same] using h
  by_cases reading : action.isReading = true
  · apply giving_nothing
    · intro w
      cases action <;> first | rfl | cases reading
    · exact tallying_perform_of_isReading reading operation
  · cases action with
    | openOnServer locator =>
      intro w hw
      apply (tallying_openOnServer locator w hw).bind
      · intro found w' h'
        cases found with
        | none => exact h'
        | some id =>
          rw [Work.ends_bind, ends_document_iff]
          exact h'
      · exact fun _ _ h' => h'
    | closeOnServer locator =>
      exact giving_nothing (fun _ => rfl) ((tallying_closeOnServer locator).answer _)
    | openOnClient u text => exact (tallying_updateOnClient u text).answer _
    | changeOnClient u texts => exact (tallying_changeOnClient u texts).answer _
    | closeOnClient u => exact giving_nothing (fun _ => rfl) ((tallying_closeOnClient u).answer _)
    | suspend => exact giving_nothing (fun _ => rfl) (tallying_suspend.answer _)
    | resume => exact giving_nothing (fun _ => rfl) (tallying_resume.answer _)
    | write file bytes =>
      exact giving_nothing (fun _ => rfl) fun w hw => tallies_on_disk hw _ w.failing
    | delete file => exact giving_nothing (fun _ => rfl) fun w hw => tallies_on_disk hw _ w.failing
    | setFailing file failing =>
      exact giving_nothing (fun _ => rfl) fun w hw => tallies_on_disk hw w.disk _
    | request | suspended actions | rebuilding actions | dispose | shutDown => cases operation
    | _ => exact absurd rfl reading

end Task

namespace Workspace

variable {w : Workspace} {action : Action} {actions : List Action}

theorem atRest_ofSetup (s : Setup)
    (cast : ∀ c ∈ s.cast, Action.areMeek (c.topic = .updated) c.script.actions = true) :
    (ofSetup s).AtRest := by
  have docile := docile_ofSetup s cast
  obtain ⟨bus, subscriptions, scripts, start⟩ := exists_ofSetup s
  rw [start] at docile ⊢
  refine ⟨⟨docile, ?_, ?_⟩, rfl, Int.le_refl 0, fun _ => rfl⟩
  · intro file id ht
    cases ht
  · intro id d hd
    cases hd

theorem AtRest.turn (hw : w.AtRest) (operation : action.isOperation = true) :
    (w.turn action).2.AtRest ∧ Tallies (w.Alters action) w (w.turn action).2 :=
  Task.tallying_perform action operation w hw

theorem AtRest.run (hw : w.AtRest) (operations : ∀ action ∈ actions, action.isOperation = true) :
    (w.run actions).AtRest := by
  induction actions generalizing w with
  | nil => exact hw
  | cons action rest ih =>
    exact ih (hw.turn (operations action List.mem_cons_self)).1
      fun a hm => operations a (List.mem_cons_of_mem _ hm)

/-- If all that comes after the news is inside a report, what counts as removed is among the news. -/
theorem removes_iff {news tail : List Moment} (moments : (w.turn action).2.moments = w.moments ++ news ++ tail)
    (plain : Plain news)
    (inside : ∀ before id after, tail = before ++ .telling .closed (some id) :: after →
      before.count (.telling .updated none) ≠ before.count (.told .updated none)) :
    w.Removes action ↔ news.any Moment.isClosing = true := by
  constructor
  · rintro ⟨before, id, after, moments', balanced⟩
    rw [moments, List.append_assoc, List.append_assoc, List.append_cancel_left_eq] at moments'
    rcases List.append_eq_append_iff.mp moments' with ⟨bs, rfl, rest⟩ | ⟨as, rfl, rest⟩
    · apply absurd _ (inside bs id after rest)
      simpa [plain.count_telling, plain.count_told] using balanced
    · cases as with
      | nil => exact absurd rfl (inside [] id after rest.symm)
      | cons m as =>
        obtain rfl : m = .telling .closed (some id) := (List.cons.inj rest).1.symm
        simp [Moment.isClosing]
  · intro closing
    obtain ⟨m, hm, closes⟩ := List.any_eq_true.mp closing
    obtain ⟨id, rfl⟩ := Moment.isClosing_iff.mp closes
    obtain ⟨before, after, rfl⟩ := List.append_of_mem hm
    have plain' : Plain before := fun m hm => plain m (List.mem_append_left _ hm)
    refine ⟨before, id, after ++ tail, ?_, ?_⟩
    · rw [moments]
      simp
    · rw [plain'.count_telling, plain'.count_told]

/-- What an action that begins at rest comes to: an update is called for or not, and it is told or
waits. -/
structure Settles (w : Workspace) (action : Action) (w' : Workspace) : Prop where
  noted : w'.tally = w.tally → (w'.gate.pending = true ↔ w.gate.pending = true ∨ w.Changes action)
  reported : w'.tally ≠ w.tally → w'.tally = w.tally + 1 ∧ w'.gate.suspensions = 0 ∧
    w'.gate.pending = false ∧ (w.gate.pending = true ∨ w.Changes action)

theorem Tallies.settles (h : Tallies (w.Alters action) w (w.turn action).2) :
    w.Settles action (w.turn action).2 := by
  cases h with
  | noted moments plain pending =>
    have moments' := moments
    rw [← List.append_nil (w.moments ++ _)] at moments'
    have removes := removes_iff moments' plain fun before id after none => by simp at none
    have same : (w.turn action).2.tally = w.tally := by
      simp [tally, moments, plain.count_telling]
    refine ⟨fun _ => ?_, fun other => absurd same other⟩
    rw [pending, Owes, Changes, removes]
  | @reported news inner moments plain inside called suspensions pending =>
    have moments' := moments
    rw [List.append_assoc (w.moments ++ _)] at moments'
    have removes := removes_iff moments' plain fun before id after told => inside.unbalanced told
    have next : (w.turn action).2.tally = w.tally + 1 := by
      simp [tally, moments, plain.count_telling, inside.count_telling]
    refine ⟨fun same => ?_, fun _ => ⟨next, suspensions, pending, ?_⟩⟩
    · omega
    · rw [Changes, removes]
      exact called

theorem AtRest.settles (hw : w.AtRest) (operation : action.isOperation = true) :
    w.Settles action (w.turn action).2 := (hw.turn operation).2.settles

theorem run_concat (w : Workspace) (actions : List Action) (action : Action) :
    w.run (actions ++ [action]) = ((w.run actions).turn action).2 := w.run_append actions [action]

/-- After so many updates had been told and no more, one of the actions called for another one. -/
def CalledSince (w : Workspace) (tally : Nat) (actions : List Action) : Prop :=
  ∃ before action after, actions = before ++ action :: after ∧
    (w.run before).tally = tally ∧ (w.run before).Changes action

theorem calledSince_concat {tally : Nat} : w.CalledSince tally (actions ++ [action]) ↔
    w.CalledSince tally actions ∨ ((w.run actions).tally = tally ∧ (w.run actions).Changes action) := by
  constructor
  · rintro ⟨before, a, after, split, same, changes⟩
    rcases List.eq_nil_or_concat' after with rfl | ⟨after, last, rfl⟩
    · obtain ⟨rfl, here⟩ := List.append_inj' split rfl
      cases here
      exact Or.inr ⟨same, changes⟩
    · rw [← List.cons_append, ← List.append_assoc] at split
      obtain ⟨rfl, -⟩ := List.append_inj' split rfl
      exact Or.inl ⟨before, a, after, rfl, same, changes⟩
  · rintro (⟨before, a, after, rfl, same, changes⟩ | ⟨same, changes⟩)
    · exact ⟨before, a, after ++ [action], by simp, same, changes⟩
    · exact ⟨actions, action, [], rfl, same, changes⟩

theorem tally_le_turn (settles : w.Settles action (w.turn action).2) : w.tally ≤ (w.turn action).2.tally := by
  by_cases same : (w.turn action).2.tally = w.tally
  · omega
  · have next := (settles.reported same).1
    omega

theorem AtRest.tally_le_run (hw : w.AtRest) (operations : ∀ action ∈ actions, action.isOperation = true) :
    w.tally ≤ (w.run actions).tally := by
  induction actions generalizing w with
  | nil => exact Nat.le_refl _
  | cons action rest ih =>
    have operation := operations action List.mem_cons_self
    have first := tally_le_turn (hw.settles operation)
    have rest := ih (hw.turn operation).1 fun a hm => operations a (List.mem_cons_of_mem _ hm)
    exact Nat.le_trans first rest

/-- No action can have called for an update after more updates than have been told. -/
theorem AtRest.not_calledSince (hw : w.AtRest) (operations : ∀ action ∈ actions, action.isOperation = true)
    {tally : Nat} (more : (w.run actions).tally < tally) : ¬ w.CalledSince tally actions := by
  rintro ⟨before, action, after, rfl, same, -⟩
  have earlier := hw.run fun a hm => operations a (List.mem_append_left _ hm)
  have le := earlier.tally_le_run fun a hm => operations a (List.mem_append_right _ hm)
  rw [← run_append] at le
  omega

/-- At rest an update waits if one has been called for since the last one was told. -/
theorem AtRest.pending_iff (hw : w.AtRest) (settled : w.gate.pending = false)
    (operations : ∀ action ∈ actions, action.isOperation = true) :
    (w.run actions).gate.pending = true ↔ w.CalledSince (w.run actions).tally actions := by
  induction actions using List.reverseRecOn with
  | nil =>
    refine iff_of_false ?_ ?_
    · rw [show w.run [] = w from rfl, settled]
      exact Bool.false_ne_true
    · rintro ⟨before, action, after, split, -⟩
      simp at split
  | append_singleton actions action ih =>
    have earlier : ∀ a ∈ actions, a.isOperation = true := fun a hm => operations a (List.mem_append_left _ hm)
    have last : action.isOperation = true := operations action (by simp)
    have settles := (hw.run earlier).settles last
    rw [← run_concat] at settles
    rw [calledSince_concat]
    by_cases same : (w.run (actions ++ [action])).tally = (w.run actions).tally
    · rw [settles.noted same, ih earlier, same]
      simp
    · obtain ⟨next, -, pending, -⟩ := settles.reported same
      refine iff_of_false (by simp [pending]) ?_
      rintro (called | ⟨here, -⟩)
      · exact hw.not_calledSince earlier (by omega) called
      · omega

/-- As long as listeners ask for the compilation only at updates, an action tells of an update at most
once. It does so just if no suspension is left when it ends, and an update has been called for since the
last one was told, by this action or by one before. -/
theorem tally_run_concat (s : Setup)
    (cast : ∀ c ∈ s.cast, Action.areMeek (c.topic = .updated) c.script.actions = true)
    (actions : List Action) (action : Action)
    (operations : ∀ a ∈ actions ++ [action], a.isOperation = true) :
    ((ofSetup s).run (actions ++ [action])).tally ≤ ((ofSetup s).run actions).tally + 1 ∧
      (((ofSetup s).run (actions ++ [action])).tally = ((ofSetup s).run actions).tally + 1 ↔
        ((ofSetup s).run (actions ++ [action])).gate.suspensions = 0 ∧
          (ofSetup s).CalledSince ((ofSetup s).run actions).tally (actions ++ [action])) := by
  have start := atRest_ofSetup s cast
  have settled : (ofSetup s).gate.pending = false := by
    obtain ⟨bus, subscriptions, scripts, same⟩ := exists_ofSetup s
    rw [same]
    rfl
  have earlier : ∀ a ∈ actions, a.isOperation = true := fun a hm => operations a (List.mem_append_left _ hm)
  have settles := (start.run earlier).settles (operations action (by simp))
  have rest := (start.run operations).settled
  rw [← run_concat] at settles
  have waits := start.pending_iff settled earlier
  rw [calledSince_concat, ← waits]
  by_cases same : ((ofSetup s).run (actions ++ [action])).tally = ((ofSetup s).run actions).tally
  · refine ⟨by omega, iff_of_false (by omega) ?_⟩
    rintro ⟨suspensions, called⟩
    have pending := (settles.noted same).mpr (called.imp_right And.right)
    rw [rest suspensions] at pending
    cases pending
  · obtain ⟨next, suspensions, -, called⟩ := settles.reported same
    exact ⟨by omega, iff_of_true next ⟨suspensions, called.imp_right fun changes => ⟨rfl, changes⟩⟩⟩

/-- Updates are suspended while the server opens a file and the client one that does not import it. -/
def burst : List Action :=
  [.suspend, .openOnServer (.text "/b"), .openOnClient "/a" "x:='a';", .changeOnClient "/a" ["x:='b';"]]

/-- A client, a file on disk, and a listener that looks at the compilation when it is told of an update. -/
def attended : Setup where
  host := ⟨none⟩
  files := [("/b", [])]
  reportUnused := false
  hasWatcher := false
  hasClient := true
  cast := [⟨.updated, none, ⟨1, [.sources]⟩⟩]

set_option maxRecDepth 4000 in
theorem tally_run_concat_burst :
    (((ofSetup attended).run (burst ++ [.resume])).tally ≤ ((ofSetup attended).run burst).tally + 1 ∧
      (((ofSetup attended).run (burst ++ [.resume])).tally = ((ofSetup attended).run burst).tally + 1 ↔
        ((ofSetup attended).run (burst ++ [.resume])).gate.suspensions = 0 ∧
          (ofSetup attended).CalledSince ((ofSetup attended).run burst).tally (burst ++ [.resume]))) ∧
      ((ofSetup attended).run burst).files = ["/b", "/a"] ∧ ((ofSetup attended).run burst).tally = 0 ∧
      ((ofSetup attended).run (burst ++ [.resume])).files = ["/a"] ∧
      ((ofSetup attended).run (burst ++ [.resume])).tally = 1 :=
  ⟨tally_run_concat attended (by decide) burst .resume (by decide), by decide +kernel⟩

end Workspace
end GrammarWorkspace
