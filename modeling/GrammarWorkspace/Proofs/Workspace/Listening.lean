import GrammarWorkspace.Proofs.Workspace.Rebuild

/-!
# Listeners that only read

The publisher, the clearer and the observer only read, and so do scripts of passive actions, however
deep they are at work inside one another.
-/
namespace GrammarWorkspace

open Grammar (Compilation)
open Work (Ends)

namespace Task

variable {F : Frame} {call : Calling} {dropping : List DocumentId} {w : Workspace}

theorem ends_compilation_cached {c : Compilation} (cached : w.compilation = some c) :
    Ends (compilation call) w fun r w' => r = .ok c ∧ w' = w := by
  rw [compilation, Work.ends_bind, Work.ends_get, Work.next_ok, cached]
  exact ⟨rfl, rfl⟩

theorem ends_compilation (calm : Calm F call) (hq : F.Quiet w) (hs : w.core.Sound dropping) :
    Ends (compilation call) w (Rebuilt F dropping w) := by
  cases hc : w.compilation with
  | some c =>
    refine (ends_compilation_cached hc).mono ?_
    rintro r w' ⟨rfl, rfl⟩
    refine ⟨.refl hq hs, fun c' hc' => ?_, fun _ hr => (by cases hr), fun none => ?_⟩
    · cases hc'
      exact hc
    · rw [hc] at none
      cases none
  | none =>
    rw [compilation, Work.ends_bind, Work.ends_get, Work.next_ok, hc]
    exact ends_rebuild calm hq hs hc

theorem soft_compilation (calm : Calm F call) : Soft F dropping (compilation call) :=
  fun _ hq hs => (ends_compilation calm hq hs).mono fun _ _ h => h.drifts

theorem soft_roots (calm : Calm F call) : Soft F dropping (roots call) := by
  refine soft_get_bind fun w hq hs => ?_
  cases hr : w.roots with
  | some all => exact .refl hq hs
  | none =>
    refine ((ends_rebuild calm hq hs (hs.synced.mpr hr)).mono fun _ _ h => h.drifts).bind ?_ ?_
    · exact fun _ _ h => h
    · exact fun _ _ h => h

theorem soft_source? (calm : Calm F call) (locator : Locator) :
    Soft F dropping (source? call locator) :=
  (soft_compilation calm).bind fun _ => (soft_fileName locator).bind fun _ => soft_pure _

theorem soft_compiledDocument (calm : Calm F call) (uri : String) :
    Soft F dropping (compiledDocument call uri) := by
  refine (soft_find _).bind fun found => ?_
  cases found with
  | none => exact soft_pure _
  | some id => exact (soft_document id).bind fun _ => (soft_compilation calm).bind fun _ => soft_pure _

theorem soft_place (o : Grammar.Occurrence) : Soft F dropping (place o) := by
  refine Soft.bind ?_ fun _ => soft_pure _
  refine (soft_find _).bind fun found => ?_
  cases found with
  | none => exact soft_uri _
  | some id => exact (soft_document id).bind fun _ => soft_pure _

theorem soft_definition (calm : Calm F call) (uri : String) (line character : Int) :
    Soft F dropping (definition call uri line character) := by
  refine (soft_compiledDocument calm uri).bind fun found => ?_
  match found with
  | none => exact soft_pure _
  | some (file, c) => exact soft_mapM _ soft_place

theorem soft_references (calm : Calm F call) (uri : String) (line character : Int)
    (withDeclaration : Bool) :
    Soft F dropping (references call uri line character withDeclaration) := by
  refine (soft_compiledDocument calm uri).bind fun found => ?_
  match found with
  | none => exact soft_pure _
  | some (file, c) => exact soft_mapM _ soft_place

theorem soft_rename (calm : Calm F call) (uri : String) (line character : Int) (newName : String) :
    Soft F dropping (rename call uri line character newName) := by
  refine (soft_compiledDocument calm uri).bind fun found => ?_
  match found with
  | none => exact soft_pure _
  | some (file, c) =>
    dsimp only
    split
    · exact soft_pure _
    · exact (soft_mapM _ soft_place).bind fun _ => soft_pure _

theorem soft_publishAll (dropping : List DocumentId) (notices : Document → Option (List Notice))
    (hq : F.Quiet w) (hs : w.core.Sound dropping) :
    Ends (w.trackedDocuments.forM fun d =>
      match notices d with
      | some all => observe (.published d.uri all)
      | none => pure ()) w fun _ w' => w.Drifts F dropping w' := by
  refine (Work.ends_forM (I := fun _ w' => w'.core = w.core ∧ w.Drifts F dropping w') _ _
    ⟨rfl, .refl hq hs⟩ ?_).mono fun _ _ h => h.2.2
  rintro done d rest listed w' ⟨same, h'⟩
  have tracked : d ∈ w'.trackedDocuments := by
    rw [show w'.trackedDocuments = w.trackedDocuments from congrArg
      (fun k : Core => k.holdings.tracked.values.filterMap k.holdings.document?) same, listed]
    exact List.mem_append_right _ List.mem_cons_self
  cases notices d with
  | none => exact ⟨rfl, same, h'⟩
  | some all =>
    exact ⟨rfl, same, h'.trans (.of_core_eq (F.quiet_of_showing _ _ h'.quiet) h'.sound rfl rfl
      (F.extra_of_published all tracked))⟩

theorem soft_publish (calm : Calm F call) : Soft F dropping (publish call) := by
  refine (soft_compilation calm).bind fun c => soft_get_bind fun w hq hs => ?_
  have all := soft_publishAll dropping (fun d => if (c.source? d.file).isSome
    then some ((c.diagnosticsFor d.file).map .ofDiagnostic) else none) hq hs
  convert all using 3 with d
  split <;> rfl

theorem soft_compare (calm : Calm F call) : Soft F dropping (compare call) := by
  refine (soft_compilation calm).bind fun c => soft_get_bind fun w hq hs => ?_
  exact .of_same hq hs rfl rfl ⟨rfl, rfl, rfl, rfl, fun _ => rfl⟩

theorem soft_note (topic : Topic) (about : Option DocumentId) : Soft F dropping (note topic about) := by
  cases about with
  | none => exact soft_observe rfl
  | some id => exact (soft_document id).bind fun _ => Soft.get_bind fun _ => soft_observe rfl

theorem soft_clearNotices (about : Option DocumentId) : Soft F dropping (clearNotices about) := by
  cases about with
  | none => exact soft_pure _
  | some id =>
    refine (soft_document id).bind fun d w hq hs => ?_
    exact .of_core_eq (F.quiet_of_showing _ _ hq) hs rfl rfl (F.extra_of_cleared w d.uri)

end Task

namespace Action

mutual

/-- The action changes no document, neither itself nor through the script that it brings with it. -/
def isPassive : Action → Bool
  | openOnServer _ | closeOnServer _ => false
  | openOnClient _ _ | changeOnClient _ _ | closeOnClient _ => false
  | suspend | resume | request | suspended _ | rebuilding _ => false
  | dispose | shutDown => false
  | write _ _ | delete _ | setFailing _ _ => false
  | subscribe _ _ _ script => arePassive script
  | _ => true

def arePassive : List Action → Bool
  | [] => true
  | action :: rest => action.isPassive && arePassive rest

end

theorem isPassive_of_mem {actions : List Action} {action : Action} (passive : arePassive actions = true)
    (hm : action ∈ actions) : action.isPassive = true := by
  induction actions with
  | nil => cases hm
  | cons first rest ih =>
    simp only [arePassive, Bool.and_eq_true] at passive
    rcases List.mem_cons.mp hm with rfl | hm
    · exact passive.1
    · exact ih passive.2 hm

end Action

def Frame.readers (host : Host) : Frame where
  Quiet w := w.host = host ∧ ∀ script ∈ w.scripts, Action.arePassive script.actions = true
  Extra _ _ := True
  refl _ := trivial
  trans _ _ := trivial
  quiet_of_same hq outside := by
    rw [outside.host_eq, outside.scripts_eq]
    exact hq
  extra_of_keeps _ _ := trivial
  extra_of_published _ _ := trivial
  extra_of_cleared _ _ := trivial
  quiet_of_showing _ _ hq := hq

namespace Task

variable {host : Host} {call : Calling} {dropping : List DocumentId} {w : Workspace}

theorem soft_addListener (topic : Topic) (name : Option String) (script : Script)
    (passive : Action.arePassive script.actions = true) :
    Soft (.readers host) dropping (addListener topic name script) := by
  refine soft_get_bind fun w hq hs => .of_core_eq ⟨hq.1, ?_⟩ hs rfl rfl trivial
  intro s hm
  rcases List.mem_append.mp hm with hm | hm
  · exact hq.2 s hm
  · rw [List.mem_singleton.mp hm]
    exact passive

theorem soft_perform (calm : Calm (.readers host) call) (action : Action) (passive : action.isPassive = true) :
    Soft (.readers host) dropping (perform call action) := by
  cases action with
  | find locator =>
    refine (soft_find locator).bind fun found => ?_
    cases found with
    | none => exact soft_pure _
    | some id => exact (soft_document id).bind fun _ => soft_pure _
  | isTracked locator => exact (soft_find locator).bind fun _ => soft_pure _
  | files => exact Soft.get_bind fun _ => soft_pure _
  | fileName locator => exact (soft_fileName locator).bind fun _ => soft_pure _
  | displayUri locator => exact (soft_uri locator).bind fun _ => soft_pure _
  | roots => exact (soft_roots calm).bind fun _ => soft_pure _
  | sources => exact (soft_compilation calm).bind fun _ => soft_pure _
  | source locator =>
    refine (soft_source? calm locator).bind fun found => ?_
    cases found with
    | none => exact soft_pure _
    | some s => exact soft_pure _
  | compile => exact (soft_compare calm).bind fun _ => soft_pure _
  | dump =>
    refine Soft.get_bind fun w => ?_
    split
    · exact (soft_observe rfl).bind fun _ => soft_pure _
    · exact soft_pure _
  | subscribe topic name plays script =>
    exact (soft_addListener topic name ⟨plays, script⟩ passive).bind fun _ => soft_pure _
  | unsubscribe name =>
    refine soft_get_bind fun w hq hs => ?_
    cases w.subscriptions.get? name with
    | none => exact .refl hq hs
    | some subscription => exact .of_core_eq hq hs rfl rfl trivial
  | listenerCounts => exact Soft.get_bind fun _ => soft_pure _
  | interrupt => exact soft_throw _
  | publish => exact (soft_publish calm).bind fun _ => soft_pure _
  | definition uri line character =>
    exact (soft_definition calm uri line character).bind fun _ => soft_pure _
  | references uri line character withDeclaration =>
    exact (soft_references calm uri line character withDeclaration).bind fun _ => soft_pure _
  | rename uri line character newName =>
    refine (soft_rename calm uri line character newName).bind fun found => ?_
    cases found with
    | none => exact soft_pure _
    | some edits => exact soft_pure _
  | _ => cases passive

theorem soft_play (calm : Calm (.readers host) call) (actions : List Action)
    (passive : Action.arePassive actions = true) : Soft (.readers host) dropping (play call actions) := by
  induction actions with
  | nil => exact soft_pure _
  | cons action rest ih =>
    simp only [Action.arePassive, Bool.and_eq_true] at passive
    exact (soft_perform calm action passive.1).bind fun _ =>
      (soft_observe rfl).bind fun _ => ih passive.2

theorem ends_nextPlay (number : Nat) (hq : (Frame.readers host).Quiet w) (hs : w.core.Sound dropping) :
    Ends (nextPlay number) w fun r w' =>
      w.Drifts (.readers host) dropping w' ∧ ∀ actions, r = .ok actions → Action.arePassive actions = true := by
  rw [nextPlay, Work.ends_bind, Work.ends_get, Work.next_ok]
  match hn : w.scripts[number]? with
  | some ⟨plays + 1, actions⟩ =>
    have passive := hq.2 _ (List.mem_of_getElem? hn)
    refine ⟨.of_core_eq ⟨hq.1, ?_⟩ hs rfl rfl trivial, fun _ hr => by cases hr; exact passive⟩
    intro s hm
    rcases List.mem_or_eq_of_mem_set hm with hm | rfl
    · exact hq.2 s hm
    · exact passive
  | some ⟨0, actions⟩ => exact ⟨.refl hq hs, fun _ hr => by cases hr; rfl⟩
  | none => exact ⟨.refl hq hs, fun _ hr => by cases hr; rfl⟩

theorem calm_call (depth : Nat) : Calm (.readers host) (Task.call depth) := by
  refine ⟨?_, fun _ _ _ _ _ => trivial⟩
  induction depth with
  | zero =>
    intro dropping listener topic about
    cases listener with
    | observer => exact soft_note topic about
    | clearer => exact soft_clearNotices about
    | publisher => exact soft_pure _
    | scripted number => exact soft_pure _
  | succ depth ih =>
    have calm : Calm (.readers host) (Task.call depth) := ⟨ih, fun _ _ _ _ _ => trivial⟩
    intro dropping listener topic about
    cases listener with
    | observer => exact soft_note topic about
    | clearer => exact soft_clearNotices about
    | publisher => exact soft_publish calm
    | scripted number =>
      intro w hq hs
      refine (ends_nextPlay number hq hs).bind (fun actions w' h' => ?_) fun _ _ h' => h'.1
      refine (soft_play calm actions (h'.2 actions rfl) w' h'.1.quiet h'.1.sound).mono ?_
      exact fun _ _ h'' => h'.1.trans h''

end Task
end GrammarWorkspace
