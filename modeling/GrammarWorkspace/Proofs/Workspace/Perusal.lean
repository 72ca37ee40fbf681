import GrammarWorkspace.Proofs.Along
import GrammarWorkspace.Proofs.Workspace.Listening
import GrammarWorkspace.Proofs.Workspace.Rebuild

/-! Actions that only read, followed along a relation. Apart from the rebuild that a compilation may
cost, they leave remarks in the record and change who listens; so a relation that overlooks this needs
to be shown of a rebuild alone. -/
namespace GrammarWorkspace

open Work (Ends Along Inside Keeping)

def Observation.isRemark : Observation → Bool
  | .published _ _ | .message _ | .performed _ _ => true
  | _ => false

def Observation.isAsking : Observation → Bool
  | .read _ _ | .watched _ | .unwatched _ => true
  | _ => false

namespace Action

def isReading : Action → Bool
  | find _ | isTracked _ | files | fileName _ | displayUri _ | dump => true
  | roots | sources | source _ | compile | publish => true
  | definition _ _ _ | references _ _ _ _ | rename _ _ _ _ => true
  | subscribe _ _ _ _ | unsubscribe _ | listenerCounts | interrupt => true
  | _ => false

theorem isReading_of_isPassive {action : Action} (passive : action.isPassive = true) :
    action.isReading = true := by
  cases action <;> first | rfl | cases passive

def compiles : Action → Bool
  | roots | sources | source _ | compile | publish => true
  | definition _ _ _ | references _ _ _ _ | rename _ _ _ _ => true
  | _ => false

end Action

namespace Workspace

def noting (w : Workspace) (o : Observation) : Workspace := { w with record := w.record ++ [o] }

structure Overlooks (R : Workspace → Workspace → Prop) : Prop where
  remarked : ∀ (w : Workspace) (o : Observation), o.isRemark = true → R w (w.noting o)
  answered : ∀ (w : Workspace) (c : Option Grammar.Compilation), R w { w with answered := c }
  unsubscribed : ∀ (w : Workspace) (name : String) (subscription : Subscription Topic Listener),
    w.subscriptions.get? name = some subscription → R w { w with bus := w.bus.dispose subscription }

structure Peruses (P : Workspace → Prop) (R : Workspace → Workspace → Prop) : Prop where
  passive : ∀ w, P w → ∀ s ∈ w.scripts, Action.arePassive s.actions = true
  noted : ∀ (w : Workspace) (o : Observation), o.isAsking = false → Keeping P R w (w.noting o)
  answered : ∀ (w : Workspace) (c : Option Grammar.Compilation), Keeping P R w { w with answered := c }
  listening : ∀ (w : Workspace) (bus : Bus Topic Listener)
    (subscriptions : Table String (Subscription Topic Listener)) (scripts : List Script),
    (∀ s ∈ scripts, Action.arePassive s.actions = true) →
      Keeping P R w { w with bus := bus, subscriptions := subscriptions, scripts := scripts }

theorem Peruses.overlooks {P : Workspace → Prop} {R : Workspace → Workspace → Prop} (h : Peruses P R) :
    Overlooks (Keeping P R) where
  remarked w o remark := h.noted w o (by cases o <;> first | rfl | cases remark)
  answered := h.answered
  unsubscribed w _ _ _ hw := h.listening w _ w.subscriptions w.scripts (h.passive w hw) hw

end Workspace

namespace Task

variable {A T : Workspace → Workspace → Prop} [IsPreorder Workspace A] {call : Calling}

theorem along_document (id : DocumentId) : Along A (document id) :=
  .get_bind fun _ => Work.along_pure _

theorem along_fileName (locator : Locator) : Along A (fileName locator) :=
  .get_bind fun _ => Work.along_ofExcept _

theorem along_uri (locator : Locator) : Along A (uri locator) := Work.along_ofExcept _

theorem along_find (locator : Locator) : Along A (find locator) :=
  (along_fileName locator).bind fun _ => .get_bind fun _ => Work.along_pure _

theorem along_place (o : Grammar.Occurrence) : Along A (place o) := by
  refine Along.bind ?_ fun _ => Work.along_pure _
  refine (along_find _).bind fun found => ?_
  cases found with
  | none => exact along_uri _
  | some id => exact (along_document id).bind fun _ => Work.along_pure _

theorem along_fire (passes : ∀ m, Along A (pass m)) (calls : ∀ listener topic about, Along A (call listener topic about))
    (topic : Topic) (about : Option DocumentId) : Along A (fire call topic about) :=
  (passes _).bind fun _ => .get_bind fun _ =>
    (Bus.along_deliver (fun listener => calls listener topic about) _).bind fun _ => passes _

section

variable (inside : Inside A T) (rebuilds : Along T (rebuild call))

include inside rebuilds

theorem along_compilation : Along T (compilation call) := by
  refine .get_bind fun w => ?_
  cases w.compilation with
  | some c => exact (Work.along_pure c).mono fun _ _ => inside.widen
  | none => exact rebuilds

theorem along_roots : Along T (roots call) := by
  refine .get_bind fun w => ?_
  cases w.roots with
  | some all => exact (Work.along_pure all).mono fun _ _ => inside.widen
  | none => exact inside.bind_after rebuilds fun _ => Work.along_pure _

theorem along_source? (locator : Locator) : Along T (source? call locator) :=
  inside.bind_after (along_compilation inside rebuilds) fun _ =>
    (along_fileName locator).bind fun _ => Work.along_pure _

theorem along_compiledDocument (uri : String) : Along T (compiledDocument call uri) := by
  refine inside.bind_before (along_find _) fun found => ?_
  cases found with
  | none => exact (Work.along_pure _).mono fun _ _ => inside.widen
  | some id =>
    exact inside.bind_before (along_document id) fun _ =>
      inside.bind_after (along_compilation inside rebuilds) fun _ => Work.along_pure _

theorem along_definition (uri : String) (line character : Int) :
    Along T (definition call uri line character) := by
  refine inside.bind_after (along_compiledDocument inside rebuilds uri) fun found => ?_
  match found with
  | none => exact Work.along_pure _
  | some (file, c) => exact Work.along_mapM _ along_place

theorem along_references (uri : String) (line character : Int) (withDeclaration : Bool) :
    Along T (references call uri line character withDeclaration) := by
  refine inside.bind_after (along_compiledDocument inside rebuilds uri) fun found => ?_
  match found with
  | none => exact Work.along_pure _
  | some (file, c) => exact Work.along_mapM _ along_place

theorem along_rename (uri : String) (line character : Int) (newName : String) :
    Along T (rename call uri line character newName) := by
  refine inside.bind_after (along_compiledDocument inside rebuilds uri) fun found => ?_
  match found with
  | none => exact Work.along_pure _
  | some (file, c) =>
    dsimp only
    split
    · exact Work.along_pure _
    · exact (Work.along_mapM _ along_place).bind fun _ => Work.along_pure _

variable (overlooks : Workspace.Overlooks A)

include overlooks

omit [IsPreorder Workspace A] inside rebuilds in
theorem along_remark {o : Observation} (remark : o.isRemark = true) : Along A (observe o) :=
  fun w => overlooks.remarked w o remark

theorem along_publish : Along T (publish call) := by
  refine inside.bind_after (along_compilation inside rebuilds) fun c => .get_bind fun w => ?_
  refine Work.along_forM _ fun d => ?_
  split
  · exact along_remark overlooks rfl
  · exact Work.along_pure ()

theorem along_compare : Along T (compare call) :=
  inside.bind_after (along_compilation inside rebuilds) fun _ =>
    Work.along_get_bind fun w => overlooks.answered w _

omit rebuilds in
theorem along_perform (action : Action) (reading : action.isReading = true)
    (rebuilds : action.compiles = true → Along T (rebuild call))
    (subscribes : ∀ topic name plays script, action = .subscribe topic name plays script →
      Along A (addListener topic name ⟨plays, script⟩)) : Along T (perform call action) := by
  have aside {α : Type} {task : Task α} (h : Along A task) : Along T task :=
    h.mono fun _ _ => inside.widen
  have answer {α : Type} {task : Task α} {give : α → Task Answer} (h : Along T task)
      (hn : ∀ a, Along A (give a)) : Along T (task >>= give) := inside.bind_after h hn
  cases action with
  | find locator =>
    refine aside ((along_find locator).bind fun found => ?_)
    cases found with
    | none => exact Work.along_pure _
    | some id => exact (along_document id).bind fun _ => Work.along_pure _
  | isTracked locator => exact aside ((along_find locator).bind fun _ => Work.along_pure _)
  | fileName locator => exact aside ((along_fileName locator).bind fun _ => Work.along_pure _)
  | displayUri locator => exact aside ((along_uri locator).bind fun _ => Work.along_pure _)
  | files | listenerCounts => exact aside (.get_bind fun _ => Work.along_pure _)
  | roots => exact answer (along_roots inside (rebuilds rfl)) fun _ => Work.along_pure _
  | sources => exact answer (along_compilation inside (rebuilds rfl)) fun _ => Work.along_pure _
  | source locator =>
    refine answer (along_source? inside (rebuilds rfl) locator) fun found => ?_
    cases found with
    | none => exact Work.along_pure _
    | some s => exact Work.along_pure _
  | compile => exact answer (along_compare inside (rebuilds rfl) overlooks) fun _ => Work.along_pure _
  | dump =>
    refine aside (.get_bind fun w => ?_)
    split
    · exact (along_remark overlooks rfl).bind fun _ => Work.along_pure _
    · exact Work.along_pure _
  | subscribe topic name plays script =>
    exact aside ((subscribes topic name plays script rfl).bind fun _ => Work.along_pure _)
  | unsubscribe name =>
    refine aside (Work.along_get_bind fun w => ?_)
    cases hs : w.subscriptions.get? name with
    | none => exact refl_of A w
    | some subscription => exact overlooks.unsubscribed w name subscription hs
  | interrupt => exact aside (Work.along_throw _)
  | publish => exact answer (along_publish inside (rebuilds rfl) overlooks) fun _ => Work.along_pure _
  | definition uri line character =>
    exact answer (along_definition inside (rebuilds rfl) uri line character) fun _ => Work.along_pure _
  | references uri line character withDeclaration =>
    exact answer (along_references inside (rebuilds rfl) uri line character withDeclaration) fun _ =>
      Work.along_pure _
  | rename uri line character newName =>
    refine answer (along_rename inside (rebuilds rfl) uri line character newName) fun found => ?_
    cases found with
    | none => exact Work.along_pure _
    | some edits => exact Work.along_pure _
  | _ => cases reading

end

theorem along_play (overlooks : Workspace.Overlooks A) (actions : List Action)
    (h : ∀ action ∈ actions, Along A (perform call action)) : Along A (play call actions) := by
  induction actions with
  | nil => exact Work.along_pure ()
  | cons action rest ih =>
    exact (h action List.mem_cons_self).bind fun _ => (along_remark overlooks rfl).bind fun _ =>
      ih fun a ha => h a (List.mem_cons_of_mem _ ha)

theorem along_note (noted : ∀ (w : Workspace) (o : Observation), o.isAsking = false → A w (w.noting o))
    (topic : Topic) (about : Option DocumentId) : Along A (note topic about) := by
  cases about with
  | none => exact fun w => noted w _ rfl
  | some id => exact (along_document id).bind fun d => Work.along_get_bind fun w => noted w _ rfl

theorem along_clearNotices (overlooks : Workspace.Overlooks A) (about : Option DocumentId) :
    Along A (clearNotices about) := by
  cases about with
  | none => exact Work.along_pure ()
  | some id => exact (along_document id).bind fun _ => along_remark overlooks rfl

theorem along_loadAnew
    (marks : ∀ id, Along A (update id fun d => { d with isMarked := d.onClient }))
    (counts : ∀ w : Workspace, A w w.counted)
    (fetched : ∀ (w : Workspace) (f : Fetch), A w (w.fetched f))
    (reads : ∀ file, Along A (readForCompiler call file)) : Along A (loadAnew call) := by
  have roots : Along A markRoots :=
    .get_bind fun _ => (Work.along_forM _ marks).bind fun _ => Work.along_pure _
  have begins : Along A beginBuild := fun w => counts w
  refine begins.bind fun serial => roots.bind fun roots => .get_bind fun w => ?_
  have fetches (file : String) : Along A (fetch call serial file) := by
    refine .get_bind fun v => (reads file).bind fun text => ?_
    have noted : Along A (modify (·.fetched ⟨serial, file, (v.tracked.get? file).bind v.document?, text⟩)) :=
      fun w => fetched w _
    exact noted.bind fun _ => Work.along_pure _
  have loading : Along A (Grammar.Compilation.loadFrom (fetch call serial)
      (Grammar.Compilation.sourceOf serial w.previous) (readableBound w + 1) {} roots) :=
    Grammar.loadFrom_closed (P := Along A) Work.along_pure Along.bind fetches _ _ _
  exact loading.bind fun _ => Work.along_pure _

/-- A rebuild loads what is compiled, and then lets go of what has not been read. -/
theorem along_rebuild (ignored : Gate.Ignored A) (reports : Along A (report call))
    (loads : Along A (loadAnew call)) (compiles : ∀ (w : Workspace) roots c, A w (compiled roots c w))
    (releases : ∀ id, Along A (releaseOnServer call id)) : Along A (rebuild call) := by
  have sweeps : Along A (sweep call) := by
    refine .get_bind fun w => Work.along_forM _ fun id => (along_document id).bind fun d => ?_
    split
    · exact releases id
    · exact Work.along_pure ()
  have sets (roots : List String) (c : Grammar.Compilation) : Along A (modify (compiled roots c) : Task Unit) :=
    fun w => compiles w roots c
  rw [rebuild_eq]
  apply Gate.along_rebuilding ignored reports
  rw [rebuildBody_eq]
  exact loads.bind fun c => (sets _ c).bind fun _ => sweeps.bind fun _ => Work.along_pure c

section

variable {P : Workspace → Prop} {R : Workspace → Workspace → Prop} [IsPreorder Workspace R]
  (peruses : Workspace.Peruses P R)

include peruses

omit [IsPreorder Workspace R] in
theorem along_addListener_passive (topic : Topic) (name : Option String) {script : Script}
    (passive : Action.arePassive script.actions = true) :
    Along (Keeping P R) (addListener topic name script) := by
  refine Work.along_get_bind fun w hw => peruses.listening w _ _ _ ?_ hw
  intro s hs
  rcases List.mem_append.mp hs with hs | hs
  · exact peruses.passive w hw s hs
  · rw [List.mem_singleton.mp hs]
    exact passive

theorem along_perform_passive {call : Calling} (rebuilds : Along (Keeping P R) (rebuild call)) (action : Action)
    (passive : action.isPassive = true) : Along (Keeping P R) (perform call action) := by
  apply along_perform Inside.self peruses.overlooks action (Action.isReading_of_isPassive passive)
  · exact fun _ => rebuilds
  · rintro topic name plays script rfl
    exact along_addListener_passive peruses topic name passive

theorem ends_nextPlay_passive (number : Nat) {w : Workspace} (hw : P w) : Ends (nextPlay number) w fun r w' =>
    (P w' ∧ R w w') ∧ ∀ actions, r = .ok actions → Action.arePassive actions = true := by
  have kept := (refl_of (Keeping P R) w) hw
  rw [nextPlay, Work.ends_bind, Work.ends_get, Work.next_ok]
  rcases hn : w.scripts[number]? with _ | ⟨_ | plays, actions⟩
  · exact ⟨kept, fun _ he => by cases he; rfl⟩
  · exact ⟨kept, fun _ he => by cases he; rfl⟩
  · have passive := peruses.passive w hw _ (List.mem_of_getElem? hn)
    have scripts : ∀ s ∈ w.scripts.set number ⟨plays, actions⟩, Action.arePassive s.actions = true := by
      intro s hs
      rcases List.mem_or_eq_of_mem_set hs with hs | rfl
      · exact peruses.passive w hw s hs
      · exact passive
    refine ⟨peruses.listening w w.bus w.subscriptions _ scripts hw, fun _ he => ?_⟩
    cases he
    exact passive

/-- Whatever listeners do inside one another, it is followed if rebuilds are. -/
theorem along_call (rebuilds : ∀ depth, (∀ listener topic about,
      Along (Keeping P R) (Task.call depth listener topic about)) →
        Along (Keeping P R) (rebuild (Task.call depth)))
    (depth : Nat) (listener : Listener) (topic : Topic) (about : Option DocumentId) :
    Along (Keeping P R) (Task.call depth listener topic about) := by
  induction depth generalizing listener topic about with
  | zero =>
    cases listener with
    | observer => exact along_note peruses.noted topic about
    | clearer => exact along_clearNotices peruses.overlooks about
    | publisher => exact Work.along_pure ()
    | scripted number => exact Work.along_pure ()
  | succ depth ih =>
    cases listener with
    | observer => exact along_note peruses.noted topic about
    | clearer => exact along_clearNotices peruses.overlooks about
    | publisher => exact along_publish Inside.self (rebuilds _ ih) peruses.overlooks
    | scripted number =>
      intro w hw
      have played : Ends (Task.call (depth + 1) (.scripted number) topic about) w fun _ w' =>
          P w' ∧ R w w' := by
        apply (ends_nextPlay_passive peruses number hw).bind
        · rintro actions w' ⟨⟨hw', taken⟩, passive⟩
          have plays : Along (Keeping P R) (play (Task.call depth) actions) :=
            along_play peruses.overlooks actions fun action hm =>
              along_perform_passive peruses (rebuilds _ ih) action
                (Action.isPassive_of_mem (passive actions rfl) hm)
          refine (plays w').mono fun _ w'' h => ?_
          exact ⟨(h hw').1, trans_of R taken (h hw').2⟩
        · exact fun _ _ h => h.1
      exact played

end

end Task
end GrammarWorkspace
