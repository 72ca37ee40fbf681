import GrammarWorkspace.Proofs.Agreeing
import GrammarWorkspace.Proofs.Workspace.Acting
import GrammarWorkspace.Proofs.Workspace.Registry

/-!
# Operations that agree

Two ways of calling listeners that come to the same for every listener but the publisher come to the
same in every operation, since the publisher hears of updates only. What scripts may still do, and the
phase of the gate, is followed on the way: the phase is always restored.
-/
namespace GrammarWorkspace

open Work (Ends Along Agree Inside Stays)

namespace Workspace

variable {phase : Phase} {n m : Nat} {w w' : Workspace}

def Seated (w : Workspace) : Prop := ∀ s ∈ w.bus.active, s.listener = .publisher → s.topic = .updated

theorem Seated.subscribe (seated : w.Seated) {topic : Topic} {listener : Listener}
    (allowed : listener = .publisher → topic = .updated)
    (active : w'.bus.active = w.bus.active ++ [⟨w.bus.next, topic, listener⟩]) : w'.Seated := by
  intro s hs publishes
  rw [active] at hs
  rcases List.mem_append.mp hs with hs | hs
  · exact seated s hs publishes
  · rw [List.mem_singleton.mp hs] at publishes ⊢
    exact allowed publishes

theorem Seated.ne_publisher (seated : w.Seated) {topic : Topic} (other : topic ≠ .updated)
    {listener : Listener} (hm : listener ∈ w.bus.listeners topic) : listener ≠ .publisher := by
  rintro rfl
  obtain ⟨s, hs, publishes⟩ := List.mem_map.mp hm
  obtain ⟨active, here⟩ := List.mem_filter.mp hs
  exact other ((of_decide_eq_true here).symm.trans (seated s active publishes))

structure Within (phase : Phase) (n : Nat) (w : Workspace) : Prop where
  phase_eq : w.gate.phase = phase
  restlessness_le : w.restlessness ≤ n
  seated : w.Seated

namespace Within

theorem mono (hw : w.Within phase n) (le : n ≤ m) : w.Within phase m :=
  ⟨hw.phase_eq, hw.restlessness_le.trans le, hw.seated⟩

theorem of_same (hw : w.Within phase n) (scripts : w'.scripts = w.scripts) (bus : w'.bus = w.bus)
    (gate : w'.gate = w.gate) : w'.Within phase n where
  phase_eq := by rw [gate, hw.phase_eq]
  restlessness_le := by
    rw [restlessness, scripts]
    exact hw.restlessness_le
  seated := by
    rw [Seated, bus]
    exact hw.seated

theorem setGate (hw : w.Within phase n) (g : Gate) : (HasGate.setGate g w : Workspace).Within g.phase n :=
  ⟨rfl, hw.restlessness_le, hw.seated⟩

end Within
end Workspace

namespace Task

variable {α β : Type} {p : Phase} {n m : Nat} {call call' : Calling}

abbrev Inert (p : Phase) (n : Nat) (task : Task α) : Prop := Along (Stays (Workspace.Within p n)) task

theorem inert_modify {f : Workspace → Workspace} (scripts : ∀ w, (f w).scripts = w.scripts)
    (bus : ∀ w, (f w).bus = w.bus) (gate : ∀ w, (f w).gate = w.gate) : Inert p n (modify f : Task Unit) :=
  fun w hw => hw.of_same (scripts w) (bus w) (gate w)

theorem inert_observe (o : Observation) : Inert p n (observe o) :=
  inert_modify (fun _ => rfl) (fun _ => rfl) fun _ => rfl

theorem inert_pass (m : Moment) : Inert p n (pass m) :=
  inert_modify (fun _ => rfl) (fun _ => rfl) fun _ => rfl

theorem inert_update (id : DocumentId) (f : Document → Document) : Inert p n (update id f) :=
  inert_modify (fun _ => rfl) (fun _ => rfl) fun _ => rfl

theorem inert_watch (file : String) : Inert p n (watch file) :=
  .get_bind fun _ => by
    split
    · exact inert_observe _
    · exact Work.along_pure ()

theorem inert_unwatch (file : String) : Inert p n (unwatch file) :=
  .get_bind fun _ => by
    split
    · exact inert_observe _
    · exact Work.along_pure ()

theorem inert_invalidate : Inert p n invalidate :=
  .get_bind fun _ => by
    split
    · exact inert_modify (fun _ => rfl) (fun _ => rfl) fun _ => rfl
    · exact Work.along_pure ()

theorem inert_readFile (file : String) : Inert p n (readFile file) :=
  .get_bind fun _ => by
    split
    · exact (inert_observe _).bind fun _ => Work.along_throw _
    · exact (inert_observe _).bind fun _ => Work.along_pure _

theorem inert_getOrCreate (file : String) : Inert p n (getOrCreate file) :=
  Work.along_get_bind fun w hw => by
    split
    · exact hw
    · exact hw.of_same rfl rfl rfl

theorem inert_holdOnClient (id : DocumentId) : Inert p n (holdOnClient id) := by
  refine (along_document id).bind fun d => ?_
  split
  · refine (inert_update _ _).bind fun _ => inert_invalidate.bind fun _ =>
      (along_document id).bind fun d => ?_
    split
    · exact inert_unwatch _
    · exact Work.along_pure ()
  · exact Work.along_pure ()

theorem inert_holdOnServer (id : DocumentId) : Inert p n (holdOnServer id) := by
  refine (along_document id).bind fun d => ?_
  split
  · refine (inert_update _ _).bind fun _ => (along_document id).bind fun d => ?_
    split
    · exact inert_watch _
    · exact Work.along_pure ()
  · exact Work.along_pure ()

theorem inert_markRoots : Inert p n markRoots :=
  .get_bind fun _ => (Work.along_forM _ fun _ => inert_update _ _).bind fun _ => Work.along_pure _

theorem inert_fetched (f : Fetch) : Inert p n (modify (·.fetched f) : Task Unit) :=
  inert_modify (fun _ => rfl) (fun _ => rfl) fun _ => rfl

theorem inert_beginBuild : Inert p n beginBuild := fun _ hw => hw.of_same rfl rfl rfl

/-- In a phase, while scripts contain at most `n` actions, the two come to the same, and stay there. -/
abbrev Agrees (p : Phase) (n : Nat) (task task' : Task α) : Prop :=
  Agree (Workspace.Within p n) (Workspace.Within p n) task task'

theorem agree_read_bind {Q : Workspace → Prop} {next next' : Gate → Task β}
    (h : ∀ g : Gate, g.phase = p → Agree (Workspace.Within p n) Q (next g) (next' g)) :
    Agree (Workspace.Within p n) Q (Gate.read >>= next) (Gate.read >>= next') := by
  have read_bind (next : Gate → Task β) : Gate.read >>= next = get >>= fun w => next (HasGate.gate w) := by
    simp only [Gate.read, bind_assoc, pure_bind]
  rw [read_bind, read_bind]
  exact .look fun w hw => h w.gate hw.phase_eq

theorem agree_change (f : Gate → Gate) {q : Phase} (phase : ∀ g, g.phase = p → (f g).phase = q) :
    Agree (Workspace.Within p n) (Workspace.Within q n) (Gate.change f : Task Unit) (Gate.change f) :=
  .refl fun w hw => phase w.gate hw.phase_eq ▸ hw.setGate (f w.gate)

theorem agree_change_bind (f : Gate → Gate) {Q : Workspace → Prop} {q : Phase}
    {next next' : Unit → Task β} (phase : ∀ g, g.phase = p → (f g).phase = q)
    (h : Agree (Workspace.Within q n) Q (next ()) (next' ())) :
    Agree (Workspace.Within p n) Q (Gate.change f >>= next) (Gate.change f >>= next') := by
  have change_bind (next : Unit → Task β) :
      Gate.change f >>= next = get >>= fun w => set (HasGate.setGate (f (HasGate.gate w)) w) >>= next := rfl
  rw [change_bind, change_bind]
  exact .get_bind fun w hw => .set_bind (phase w.gate hw.phase_eq ▸ hw.setGate (f w.gate)) h

variable {reports reports' : Task Unit}

theorem agree_reportWhileDue (h : Agrees p n reports reports') (rounds : Nat) :
    Agrees p n (Gate.reportWhileDue reports rounds) (Gate.reportWhileDue reports' rounds) := by
  induction rounds with
  | zero => exact .of_along (Work.along_pure ())
  | succ rounds ih =>
    refine agree_read_bind fun g hg => ?_
    split
    · refine agree_change_bind _ (fun _ same => ?_) (h.then fun _ => ih)
      exact same
    · exact .of_along (Work.along_pure ())

theorem agree_flush (h : p = .idle → Agrees .reporting n reports reports') :
    Agrees p n (Gate.flush reports) (Gate.flush reports') := by
  refine agree_read_bind fun g hg => ?_
  split
  · rename_i due
    obtain rfl : p = .idle := hg.symm.trans due.2.2
    refine agree_change_bind (q := .reporting) _ (fun _ _ => rfl) (.look fun w _ => ?_)
    exact (agree_reportWhileDue (h rfl) _).ensuring (agree_change _ fun _ _ => rfl)
  · exact .of_along (Work.along_pure ())

theorem agree_request (h : p = .idle → Agrees .reporting n reports reports') :
    Agrees p n (Gate.request reports) (Gate.request reports') := by
  refine agree_change_bind _ (fun _ same => ?_) (agree_flush h)
  exact same

theorem agree_resume (h : p = .idle → Agrees .reporting n reports reports') :
    Agrees p n (Gate.resume reports) (Gate.resume reports') := by
  refine agree_read_bind fun g _ => ?_
  split
  · refine agree_change_bind _ (fun _ same => ?_) (agree_flush h)
    exact same
  · exact .of_along (Work.along_pure ())

theorem agree_suspended {task task' : Task α} (h : p = .idle → Agrees .reporting m reports reports')
    (ht : Agree (Workspace.Within p n) (Workspace.Within p m) task task') :
    Agree (Workspace.Within p n) (Workspace.Within p m) (Gate.suspended reports task)
      (Gate.suspended reports' task') := by
  refine agree_change_bind _ (fun _ same => ?_) (ht.ensuring (agree_resume h))
  exact same

theorem agree_rebuilding {task task' : Task α} (h : p = .idle → Agrees .reporting m reports reports')
    (ht : Agree (Workspace.Within .rebuilding n) (Workspace.Within .rebuilding m) task task') :
    Agree (Workspace.Within p n) (Workspace.Within p m) (Gate.rebuilding reports task)
      (Gate.rebuilding reports' task') := by
  refine agree_read_bind fun g hg => agree_change_bind (q := .rebuilding) _ (fun _ _ => rfl) ?_
  refine Agree.bind (ht.ensuring (agree_change _ fun _ _ => hg)) (fun a => ?_) fun _ => id
  exact (agree_flush h).then fun _ => .of_along (Work.along_pure a)

/-- Two ways of calling listeners agree in a phase and in all that it may go over to: on everybody but the
publisher, and on reports where they may begin. -/
structure Concord (p : Phase) (n : Nat) (call call' : Calling) : Prop where
  calls : ∀ q, (q = .idle → p = .idle) → ∀ listener topic about, listener ≠ .publisher →
    Agrees q n (call listener topic about) (call' listener topic about)
  reports : p = .idle → Agrees .reporting n (report call) (report call')

theorem Concord.rebuilding (agreed : Concord p n call call') : Concord .rebuilding n call call' where
  calls q same := agreed.calls q fun idle => nomatch same idle
  reports := nofun

section

variable (agreed : Concord p n call call')

include agreed

theorem agree_fire {topic : Topic} (other : topic ≠ .updated) (about : Option DocumentId) :
    Agrees p n (fire call topic about) (fire call' topic about) := by
  refine (inert_pass _).then_agree fun _ => .look fun w hw => ?_
  refine (Bus.agree_deliver _ fun listener hm => ?_).then fun _ => .of_along (inert_pass _)
  exact agreed.calls p id listener topic about (hw.seated.ne_publisher other hm)

theorem agree_requestReport : Agrees p n (Gate.request (report call)) (Gate.request (report call')) :=
  agree_request agreed.reports

theorem agree_remove (id : DocumentId) : Agrees p n (remove call id) (remove call' id) := by
  refine (along_document id).then_agree fun d => .get_bind fun w hw => ?_
  split
  · have failing : Inert p n (do pass (.missing id); throw (.untracked d.file) : Task Unit) :=
      (inert_pass _).bind fun _ => Work.along_throw _
    exact (Agree.of_along failing).mono (fun _ here => here ▸ hw) fun _ kept => kept
  · refine .set_bind (Q := Workspace.Within p n) (hw.of_same rfl rfl rfl) ?_
    exact inert_invalidate.then_agree fun _ => (agree_fire agreed (by decide) _).then fun _ =>
      agree_requestReport agreed

theorem agree_letGo {topic : Topic} (other : topic ≠ .updated) (id : DocumentId) :
    Agrees p n (letGo call topic id) (letGo call' topic id) := by
  refine (agree_fire agreed other _).then fun _ => (along_document id).then_agree fun d => ?_
  split
  · exact agree_remove agreed id
  · exact .of_along (Work.along_pure ())

theorem agree_releaseOnServer (id : DocumentId) :
    Agrees p n (releaseOnServer call id) (releaseOnServer call' id) := by
  refine (along_document id).then_agree fun d => ?_
  split
  · refine (inert_update _ _).then_agree fun _ => (along_document id).then_agree fun d => ?_
    split
    · exact (inert_unwatch _).then_agree fun _ => agree_letGo agreed (by decide) id
    · exact agree_letGo agreed (by decide) id
  · exact .of_along (Work.along_pure ())

theorem agree_tell (id : DocumentId) (isNew hasChanged : Bool) {opened : Option Topic}
    (other : ∀ topic ∈ opened, topic ≠ .updated) :
    Agrees p n (tell call id isNew hasChanged opened) (tell call' id isNew hasChanged opened) := by
  have last : Agrees p n (if hasChanged then do
      fire call .contentChanged (some id)
      Gate.request (report call)
      else pure ()) (if hasChanged then do
      fire call' .contentChanged (some id)
      Gate.request (report call')
      else pure ()) := by
    split
    · exact (agree_fire agreed (by decide) _).then fun _ => agree_requestReport agreed
    · exact .of_along (Work.along_pure ())
  have opens {rest rest' : Task Unit} (h : Agrees p n rest rest') :
      Agrees p n (tellOpened call id opened rest) (tellOpened call' id opened rest') := by
    cases opened with
    | none => exact h
    | some topic => exact (agree_fire agreed (other topic rfl) _).then fun _ => h
  simp only [tell]
  cases isNew with
  | false =>
    simp only [Bool.false_eq_true, if_false]
    exact opens last
  | true =>
    simp only [if_true]
    exact (agree_fire agreed (by decide) _).then fun _ => opens last

theorem agree_announce (id : DocumentId) (isNew hasChanged : Bool) {opened : Option Topic}
    (other : ∀ topic ∈ opened, topic ≠ .updated) :
    Agrees p n (announce call id isNew hasChanged opened) (announce call' id isNew hasChanged opened) := by
  rw [announce_eq, announce_eq]
  cases hasChanged with
  | false => exact agree_tell agreed id isNew false other
  | true => exact inert_invalidate.then_agree fun _ => agree_tell agreed id isNew true other

theorem agree_openOnServer (locator : Locator) :
    Agrees p n (openOnServer call locator) (openOnServer call' locator) := by
  refine (along_fileName locator).then_agree fun file =>
    (inert_readFile file).then_agree fun found => ?_
  cases found with
  | none => exact .of_along (Work.along_pure _)
  | some text =>
    refine (inert_getOrCreate file).then_agree fun made =>
      (along_document made.1).then_agree fun before => (along_uri locator).then_agree fun _ =>
        (inert_update _ _).then_agree fun _ => (inert_holdOnServer _).then_agree fun _ =>
          (agree_announce agreed made.1 made.2 _ fun topic opened => ?_).then fun _ =>
            .of_along (Work.along_pure _)
    split at opened <;> cases opened
    decide

theorem agree_closeOnServer (locator : Locator) :
    Agrees p n (closeOnServer call locator) (closeOnServer call' locator) := by
  refine (along_find locator).then_agree fun found => ?_
  cases found with
  | none => exact .of_along (Work.along_pure _)
  | some id => exact agree_releaseOnServer agreed id

theorem agree_updateOnClient (uri text : String) :
    Agrees p n (updateOnClient call uri text) (updateOnClient call' uri text) := by
  refine (along_fileName _).then_agree fun file =>
    (inert_getOrCreate file).then_agree fun made =>
      (along_document made.1).then_agree fun before =>
        (inert_update _ _).then_agree fun _ => (inert_holdOnClient _).then_agree fun _ =>
          agree_announce agreed made.1 made.2 _ fun topic opened => ?_
  split at opened <;> cases opened
  decide

theorem agree_changeOnClient (uri : String) (texts : List String) :
    Agrees p n (changeOnClient call uri texts) (changeOnClient call' uri texts) := by
  rw [changeOnClient, changeOnClient]
  cases texts.getLast? with
  | none => exact .of_along (Work.along_pure _)
  | some text => exact agree_updateOnClient agreed uri text

theorem agree_closeOnClient (uri : String) :
    Agrees p n (closeOnClient call uri) (closeOnClient call' uri) := by
  refine (along_find _).then_agree fun found => ?_
  cases found with
  | none => exact .of_along (Work.along_pure _)
  | some id =>
    have closed : Agrees p n (do invalidate; letGo call .closedOnClient id)
        (do invalidate; letGo call' .closedOnClient id) :=
      inert_invalidate.then_agree fun _ => agree_letGo agreed (by decide) id
    refine (along_document id).then_agree fun d => ?_
    dsimp only
    split
    · refine (inert_update _ _).then_agree fun _ => ?_
      split
      · exact (inert_watch _).then_agree fun _ => closed
      · exact closed
    · exact .of_along (Work.along_pure _)

theorem agree_readForCompiler (file : String) :
    Agrees p n (readForCompiler call file) (readForCompiler call' file) := by
  have give (id : DocumentId) : Inert p n (do
      update id ({ · with isMarked := true })
      return (← document id).text) :=
    (inert_update _ _).bind fun _ => (along_document id).bind fun _ => Work.along_pure _
  refine .look fun w _ => ?_
  cases w.tracked.get? file with
  | some id => exact .of_along (give id)
  | none =>
    refine (inert_readFile file).then_agree fun found => ?_
    cases found with
    | none => exact .of_along (Work.along_pure _)
    | some text =>
      exact (inert_getOrCreate file).then_agree fun made =>
        (along_uri _).then_agree fun _ => (inert_update _ _).then_agree fun _ =>
          (inert_holdOnServer _).then_agree fun _ => (agree_fire agreed (by decide) _).then fun _ =>
            (agree_fire agreed (by decide) _).then fun _ => .of_along (give made.1)

theorem agree_sweep : Agrees p n (sweep call) (sweep call') :=
  .look fun w _ => .forM _ fun id => (along_document id).then_agree fun d => by
    split
    · exact agree_releaseOnServer agreed id
    · exact .of_along (Work.along_pure ())

theorem agree_fetch (serial : Nat) (file : String) : Agrees p n (fetch call serial file) (fetch call' serial file) :=
  .look fun w _ => (agree_readForCompiler agreed file).then fun text =>
    .of_along ((inert_fetched ⟨serial, file, (w.tracked.get? file).bind w.document?, text⟩).bind fun _ =>
      Work.along_pure text)

theorem agree_loadAnew : Agrees p n (loadAnew call) (loadAnew call') := by
  refine inert_beginBuild.then_agree fun serial => inert_markRoots.then_agree fun roots => .look fun w hw => ?_
  have loads : Agrees p n
      (Grammar.Compilation.loadFrom (fetch call serial) (Grammar.Compilation.sourceOf serial w.previous)
        (readableBound w + 1) {} roots)
      (Grammar.Compilation.loadFrom (fetch call' serial) (Grammar.Compilation.sourceOf serial w.previous)
        (readableBound w + 1) {} roots) :=
    Grammar.loadFrom_related (P := Agrees p n) _ (fun a => .of_along (Work.along_pure a)) .then
      (agree_fetch agreed serial) _ _ _
  exact loads.then fun _ => .of_along (Work.along_pure _)

end

theorem agree_rebuild (agreed : Concord p n call call') :
    Agrees p n (rebuild call) (rebuild call') := by
  rw [rebuild_eq, rebuild_eq]
  refine agree_rebuilding agreed.reports ?_
  rw [rebuildBody_eq, rebuildBody_eq]
  refine (agree_loadAnew agreed.rebuilding).then fun c => (Agree.of_along ?_).then fun _ =>
    (agree_sweep agreed.rebuilding).then fun _ => .of_along (Work.along_pure c)
  exact inert_modify (fun _ => rfl) (fun _ => rfl) fun _ => rfl

section

variable (agreed : Concord p n call call')

include agreed

theorem agree_compilation : Agrees p n (compilation call) (compilation call') := by
  refine .look fun w _ => ?_
  cases w.compilation with
  | some c => exact .of_along (Work.along_pure c)
  | none => exact agree_rebuild agreed

theorem agree_roots : Agrees p n (roots call) (roots call') := by
  refine .look fun w _ => ?_
  cases w.roots with
  | some all => exact .of_along (Work.along_pure all)
  | none => exact (agree_rebuild agreed).then fun _ => .of_along (Work.along_pure _)

theorem agree_source? (locator : Locator) : Agrees p n (source? call locator) (source? call' locator) :=
  (agree_compilation agreed).then fun _ =>
    .of_along ((along_fileName locator).bind fun _ => Work.along_pure _)

theorem agree_compiledDocument (uri : String) :
    Agrees p n (compiledDocument call uri) (compiledDocument call' uri) := by
  refine (along_find _).then_agree fun found => ?_
  cases found with
  | none => exact .of_along (Work.along_pure _)
  | some id =>
    exact (along_document id).then_agree fun _ => (agree_compilation agreed).then fun _ =>
      .of_along (Work.along_pure _)

theorem agree_definition (uri : String) (line character : Int) :
    Agrees p n (definition call uri line character) (definition call' uri line character) := by
  refine (agree_compiledDocument agreed uri).then fun found => .of_along ?_
  match found with
  | none => exact Work.along_pure _
  | some (file, c) => exact Work.along_mapM _ along_place

theorem agree_references (uri : String) (line character : Int) (withDeclaration : Bool) :
    Agrees p n (references call uri line character withDeclaration)
      (references call' uri line character withDeclaration) := by
  refine (agree_compiledDocument agreed uri).then fun found => .of_along ?_
  match found with
  | none => exact Work.along_pure _
  | some (file, c) => exact Work.along_mapM _ along_place

theorem agree_rename (uri : String) (line character : Int) (newName : String) :
    Agrees p n (rename call uri line character newName) (rename call' uri line character newName) := by
  refine (agree_compiledDocument agreed uri).then fun found => .of_along ?_
  match found with
  | none => exact Work.along_pure _
  | some (file, c) =>
    dsimp only
    split
    · exact Work.along_pure _
    · exact (Work.along_mapM _ along_place).bind fun _ => Work.along_pure _

theorem agree_publish : Agrees p n (publish call) (publish call') := by
  refine (agree_compilation agreed).then fun c => .of_along (.get_bind fun w => Work.along_forM _ fun d => ?_)
  split
  · exact inert_observe _
  · exact Work.along_pure ()

theorem agree_compare : Agrees p n (compare call) (compare call') :=
  (agree_compilation agreed).then fun _ => .of_along (Work.along_get_bind fun _ hw => hw.of_same rfl rfl rfl)

end

theorem agree_addListener (topic : Topic) (name : Option String) (script : Script) :
    Agree (Workspace.Within p n) (Workspace.Within p (n + script.weight)) (addListener topic name script)
      (addListener topic name script) := by
  refine .refl fun w hw => ?_
  have added : Ends (addListener topic name script) w fun _ w' => w'.gate = w.gate ∧
      w'.scripts = w.scripts ++ [script] ∧
      w'.bus.active = w.bus.active ++ [⟨w.bus.next, topic, .scripted w.scripts.length⟩] :=
    ⟨rfl, rfl, rfl⟩
  refine added.mono fun _ w' ⟨gate, scripts, active⟩ => ⟨?_, ?_, ?_⟩
  · rw [gate, hw.phase_eq]
  · rw [Workspace.restlessness_append scripts]
    exact Nat.add_le_add_right hw.restlessness_le _
  · refine hw.seated.subscribe (fun publishes => ?_) active
    cases publishes

theorem inert_dispose : Inert p n dispose :=
  fun _ hw => ⟨hw.phase_eq, hw.restlessness_le, fun _ hs => nomatch hs⟩

theorem overlooks_within : Workspace.Overlooks (Stays (Workspace.Within p n)) where
  remarked _ _ _ hw := hw.of_same rfl rfl rfl
  answered _ _ hw := hw.of_same rfl rfl rfl
  unsubscribed _ _ _ _ hw :=
    ⟨hw.phase_eq, hw.restlessness_le, fun s hs => hw.seated s (List.mem_of_mem_eraseP hs)⟩

mutual

theorem agree_perform {p : Phase} {n : Nat} (agreed : ∀ k ≤ m, Concord p k call call') (action : Action)
    (le : n + action.weight ≤ m) :
    Agree (Workspace.Within p n) (Workspace.Within p (n + action.weight)) (perform call action)
      (perform call' action) := by
  have here : Concord p n call call' := agreed n (by omega)
  have kept {task task' : Task Answer} (h : Agrees p n task task') :
      Agree (Workspace.Within p n) (Workspace.Within p (n + action.weight)) task task' :=
    h.mono (fun _ hw => hw) fun _ hw => hw.mono (Nat.le_add_right _ _)
  have answer {α : Type} {task task' : Task α} {give : α → Task Answer} (h : Agrees p n task task')
      (hn : ∀ a, Inert p n (give a)) :
      Agree (Workspace.Within p n) (Workspace.Within p (n + action.weight)) (task >>= give)
        (task' >>= give) :=
    kept (h.then fun a => .of_along (hn a))
  cases action with
  | openOnServer locator =>
    refine answer (agree_openOnServer here locator) fun found => ?_
    cases found with
    | none => exact Work.along_pure _
    | some id => exact (along_document id).bind fun _ => Work.along_pure _
  | closeOnServer locator => exact answer (agree_closeOnServer here locator) fun _ => Work.along_pure _
  | openOnClient uri text => exact answer (agree_updateOnClient here uri text) fun _ => Work.along_pure _
  | changeOnClient uri texts => exact answer (agree_changeOnClient here uri texts) fun _ => Work.along_pure _
  | closeOnClient uri => exact answer (agree_closeOnClient here uri) fun _ => Work.along_pure _
  | find _ | isTracked _ | files | fileName _ | displayUri _
  | dump | unsubscribe _ | listenerCounts | interrupt =>
    exact kept (.of_along (along_perform Inside.self overlooks_within _ rfl nofun nofun))
  | roots => exact answer (agree_roots here) fun _ => Work.along_pure _
  | sources => exact answer (agree_compilation here) fun _ => Work.along_pure _
  | source locator =>
    refine answer (agree_source? here locator) fun found => ?_
    cases found with
    | none => exact Work.along_pure _
    | some s => exact Work.along_pure _
  | compile => exact answer (agree_compare here) fun _ => Work.along_pure _
  | publish => exact answer (agree_publish here) fun _ => Work.along_pure _
  | definition uri line character =>
    exact answer (agree_definition here uri line character) fun _ => Work.along_pure _
  | references uri line character withDeclaration =>
    exact answer (agree_references here uri line character withDeclaration) fun _ => Work.along_pure _
  | rename uri line character newName =>
    refine answer (agree_rename here uri line character newName) fun found => ?_
    cases found with
    | none => exact Work.along_pure _
    | some edits => exact Work.along_pure _
  | suspend =>
    have suspends : Agrees p n (Gate.suspend : Task Unit) Gate.suspend := agree_change _ fun _ same => same
    exact answer suspends fun _ => Work.along_pure _
  | resume => exact answer (agree_resume here.reports) fun _ => Work.along_pure _
  | request => exact answer (agree_requestReport here) fun _ => Work.along_pure _
  | suspended actions =>
    simp only [Action.weight] at le ⊢
    have performs := agree_performAll (n := n) agreed actions (by omega)
    have suspends := agree_suspended (agreed _ (by omega)).reports performs
    refine suspends.bind (fun _ => .refl fun _ hw => ?_) fun _ hw => ?_
    · exact hw.mono (by omega)
    · exact hw.mono (by omega)
  | rebuilding actions =>
    simp only [Action.weight] at le ⊢
    have performs := agree_performAll (n := n) (fun k hk => (agreed k hk).rebuilding) actions (by omega)
    have rebuilds := agree_rebuilding (agreed _ (by omega)).reports performs
    refine rebuilds.bind (fun _ => .refl fun _ hw => ?_) fun _ hw => ?_
    · exact hw.mono (by omega)
    · exact hw.mono (by omega)
  | dispose | shutDown => exact kept (.of_along (inert_dispose.bind fun _ => Work.along_pure _))
  | write file bytes | setFailing file failing =>
    exact kept (.of_along (Along.bind (fun _ hw => hw.of_same rfl rfl rfl) fun _ => Work.along_pure _))
  | delete file => exact kept (.of_along (Work.along_get_bind fun _ hw => hw.of_same rfl rfl rfl))
  | subscribe topic name plays script =>
    simp only [Action.weight] at le ⊢
    have listens := agree_addListener (p := p) (n := n) topic name ⟨plays, script⟩
    simp only [Script.weight] at listens
    refine listens.bind (fun _ => .refl fun _ hw => ?_) fun _ hw => ?_
    · exact hw.mono (by omega)
    · exact hw.mono (by omega)

theorem agree_performAll {p : Phase} {n : Nat} (agreed : ∀ k ≤ m, Concord p k call call')
    (actions : List Action) (le : n + Action.weights actions ≤ m) :
    Agree (Workspace.Within p n) (Workspace.Within p (n + Action.weights actions)) (performAll call actions)
      (performAll call' actions) := by
  cases actions with
  | nil => exact .refl fun _ hw => hw
  | cons action rest =>
    simp only [Action.weights] at le ⊢
    refine (agree_perform agreed action (by omega)).bind (fun answer => ?_) fun _ hw => hw.mono (by omega)
    rw [← Nat.add_assoc] at le ⊢
    exact (agree_performAll agreed rest le).bind (fun answers => .refl fun _ hw => hw) fun _ hw => hw

end

theorem agree_play (agreed : ∀ k ≤ m, Concord p k call call')
    (actions : List Action) (le : n + Action.weights actions ≤ m) :
    Agree (Workspace.Within p n) (Workspace.Within p (n + Action.weights actions)) (play call actions)
      (play call' actions) := by
  induction actions generalizing n with
  | nil => exact .refl fun _ hw => hw
  | cons action rest ih =>
    simp only [Action.weights] at le ⊢
    refine (agree_perform agreed action (by omega)).bind (fun answer => ?_) fun _ hw => hw.mono (by omega)
    rw [← Nat.add_assoc] at le ⊢
    exact (Agree.of_along (inert_observe _)).bind (fun _ => ih le) fun _ hw => hw.mono (by omega)

end Task
end GrammarWorkspace
