import GrammarWorkspace.Proofs.Workspace.Reentry

/-! Whatever actions and listeners do, removals are exact just if they are in order. -/
namespace GrammarWorkspace

open Moment (Orderly Void)
open Work (Ends Along)
open Workspace (Tends)

theorem Workspace.overlooks_tends : Workspace.Overlooks (Tends []) where
  remarked _ _ _ := .of_same rfl rfl rfl
  answered _ _ := .of_same rfl rfl rfl
  unsubscribed _ _ _ _ := .of_same rfl rfl rfl

namespace Task

variable {call : Calling}

theorem tending_rebuild (heeding : Heeding call) : Tending (rebuild call) := by
  apply along_rebuild ignored_gate (tending_report heeding)
  · apply along_loadAnew
    · exact fun id => tending_update id (f := fun d => { d with isMarked := d.onClient }) (fun _ => rfl)
        fun _ => rfl
    · exact fun _ => .of_same rfl rfl rfl
    · exact fun _ _ => .of_same rfl rfl rfl
    · exact tending_readForCompiler heeding
  · exact fun _ _ _ => .of_same rfl rfl rfl
  · exact tending_releaseOnServer heeding

theorem tending_dispose : Tending dispose := fun w => .forgotten rfl (w.moments_passed .forgotten)

mutual

theorem tending_perform (heeding : Heeding call) (action : Action) : Tending (perform call action) := by
  by_cases reading : action.isReading = true
  · apply along_perform Work.Inside.self Workspace.overlooks_tends action reading
    · exact fun _ => tending_rebuild heeding
    · exact fun _ _ _ _ _ => Work.along_get_bind fun _ => .of_same rfl rfl rfl
  · cases action with
    | openOnServer locator =>
      refine (tending_openOnServer heeding locator).bind fun found => ?_
      cases found with
      | none => exact Work.along_pure _
      | some id => exact (along_document id).bind fun _ => Work.along_pure _
    | closeOnServer locator =>
      exact (tending_closeOnServer heeding locator).bind fun _ => Work.along_pure _
    | openOnClient uri text =>
      exact (tending_updateOnClient heeding uri text).bind fun _ => Work.along_pure _
    | changeOnClient uri texts =>
      exact (tending_changeOnClient heeding uri texts).bind fun _ => Work.along_pure _
    | closeOnClient uri => exact (tending_closeOnClient heeding uri).bind fun _ => Work.along_pure _
    | suspended actions =>
      exact (Gate.along_suspended ignored_gate (tending_report heeding)
        (tending_performAll heeding actions)).bind fun _ => Work.along_pure _
    | rebuilding actions =>
      exact (Gate.along_rebuilding ignored_gate (tending_report heeding)
        (tending_performAll heeding actions)).bind fun _ => Work.along_pure _
    | suspend => exact (ignored_gate _).bind fun _ => Work.along_pure _
    | resume =>
      exact (Gate.along_resume ignored_gate (tending_report heeding)).bind fun _ => Work.along_pure _
    | request => exact (tending_request heeding).bind fun _ => Work.along_pure _
    | dispose | shutDown => exact tending_dispose.bind fun _ => Work.along_pure _
    | write file bytes | setFailing file failing =>
      exact Along.bind (fun _ => .of_same rfl rfl rfl) fun _ => Work.along_pure _
    | delete file => exact Work.along_get_bind fun _ => .of_same rfl rfl rfl
    | _ => exact absurd rfl reading

theorem tending_performAll (heeding : Heeding call) (actions : List Action) : Tending (performAll call actions) := by
  cases actions with
  | nil => exact Work.along_pure _
  | cons action rest =>
    exact (tending_perform heeding action).bind fun _ => (tending_performAll heeding rest).bind fun _ =>
      Work.along_pure _

end

theorem tending_nextPlay (number : Nat) : Tending (nextPlay number) := by
  refine Work.along_get_bind fun w => ?_
  split
  · exact .of_same rfl rfl rfl
  · exact .refl w

/-- However deep listeners are at work inside one another, removals stay as they should be. -/
theorem heeding_call (depth : Nat) : Heeding (Task.call depth) := by
  have notes (topic : Topic) (about : Option DocumentId) : Tending (note topic about) :=
    along_note (fun _ _ _ => .of_same rfl rfl rfl) topic about
  induction depth with
  | zero =>
    intro listener topic about
    cases listener with
    | observer => exact notes topic about
    | clearer => exact along_clearNotices Workspace.overlooks_tends about
    | publisher => exact Work.along_pure ()
    | scripted number => exact Work.along_pure ()
  | succ depth ih =>
    intro listener topic about
    cases listener with
    | observer => exact notes topic about
    | clearer => exact along_clearNotices Workspace.overlooks_tends about
    | publisher =>
      exact along_publish Work.Inside.self (tending_rebuild ih) Workspace.overlooks_tends
    | scripted number =>
      refine (tending_nextPlay number).bind fun actions => ?_
      exact along_play Workspace.overlooks_tends actions fun action _ => tending_perform ih action

end Task

namespace Workspace

variable {w : Workspace}

/-- After an action from outside: no document is ever missing when it is to be removed, listeners have
been told of each document that is not tracked any more that it was closed, just once, and a file is
tracked just if the document made last for it is open. -/
structure Exact (w : Workspace) : Prop where
  never_missing : ∀ id, .missing id ∉ w.moments
  closed_once : ∀ id, w.Removed id → w.closings id = 1
  unclosed : ∀ id, ¬ w.Removed id → w.closings id = 0
  tracked_iff : ∀ file id, w.tracked.get? file = some id ↔ w.Latest file id ∧ w.Open id

theorem Tends.run (w : Workspace) (actions : List Action) : w.Tends [] (w.run actions) := by
  induction actions generalizing w with
  | nil => exact .refl w
  | cons action rest ih =>
    have performed : Ends (Task.perform (Task.call (w.restlessness + action.weight + 1)) action) w
        fun _ w' => w.Tends [] w' := Task.tending_perform (Task.heeding_call _) action w
    exact Tends.trans performed (ih (w.turn action).2)

theorem bare_ofSetup (s : Setup) : (ofSetup s).documents = [] ∧ (ofSetup s).tracked = {} ∧
    (ofSetup s).moments = [] := by
  obtain ⟨bus, subscriptions, scripts, start⟩ := exists_ofSetup s
  rw [start]
  exact ⟨rfl, rfl, rfl⟩

theorem regular_ofSetup (s : Setup) : (ofSetup s).Regular := by
  obtain ⟨documents, tracked, moments⟩ := bare_ofSetup s
  have none_removed (id : DocumentId) : ¬ (ofSetup s).Removed id := by
    rintro ⟨file, hf, -⟩
    rw [fileOf?, document?, documents] at hf
    cases hf
  refine ⟨?_, ?_, ?_, ?_, ?_, ?_⟩
  · intro file id ht
    rw [tracked] at ht
    cases ht
  · intro id mem
    rw [moments] at mem
    cases mem
  · exact fun id gone => absurd gone (none_removed id)
  · exact fun id gone => absurd gone (none_removed id)
  · intro id _
    rw [closings, moments]
    rfl
  · rw [moments]
    exact List.Pairwise.nil

theorem Exact.of_regular (h : w.Regular) (settled : ∀ id, ¬ w.Idle id) : w.Exact := by
  refine ⟨h.never_missing, h.closed_once, h.unclosed, fun file id => ?_⟩
  constructor
  · intro ht
    refine ⟨h.filed file id ht, ?_⟩
    by_contra closed
    exact settled id ⟨⟨file, ht⟩, closed⟩
  · rintro ⟨latest, is_open⟩
    by_contra gone
    exact h.released id ⟨file, latest.1, gone⟩ is_open

/-- As long as nothing is forgotten, removals are exact after every action just if none has come
before all had been told that one of the sides of the document had let go of it. -/
theorem exact_iff_orderly (s : Setup) (actions : List Action)
    (lasting : .forgotten ∉ ((ofSetup s).run actions).moments) :
    ((ofSetup s).run actions).Exact ↔ Orderly ((ofSetup s).run actions).moments := by
  rcases (Tends.run (ofSetup s) actions).regular (regular_ofSetup s) with void | ⟨regular, idle⟩
  · rcases void with forgotten | ⟨disorder, broken⟩
    · exact absurd forgotten lasting
    · refine iff_of_false (fun exact_ => ?_) disorder
      rcases broken with ⟨id, missing⟩ | ⟨id, twice⟩
      · exact exact_.never_missing id missing
      · by_cases gone : ((ofSetup s).run actions).Removed id
        · have once := exact_.closed_once id gone
          rw [closings] at once
          omega
        · have never := exact_.unclosed id gone
          rw [closings] at never
          omega
  · refine iff_of_true (.of_regular regular fun id still => ?_) regular.orderly
    obtain ⟨⟨file, ht⟩, -⟩ := (idle id still).resolve_left List.not_mem_nil
    rw [(bare_ofSetup s).2.1] at ht
    cases ht

def alert (files : List (String × List UInt8)) (actions : List Action) : Setup where
  host := ⟨none⟩
  files := files
  reportUnused := false
  hasWatcher := false
  hasClient := false
  cast := [⟨.closedOnClient, none, ⟨1, actions⟩⟩]

/-- The client closes a document that the listener opens for it again. -/
def reopened : Workspace :=
  (ofSetup (alert [] [.openOnClient "file:///a" "x"])).run
    [.openOnClient "file:///a" "", .closeOnClient "file:///a"]

set_option maxRecDepth 4000 in
theorem exact_iff_orderly_reopened :
    .forgotten ∉ reopened.moments ∧ (reopened.Exact ↔ Orderly reopened.moments) := by
  have lasts : (reopened.moments.all fun m => m ≠ .forgotten) = true := by decide +kernel
  have lasting : .forgotten ∉ reopened.moments := by
    intro mem
    have := List.all_eq_true.mp lasts _ mem
    simp at this
  exact ⟨lasting, exact_iff_orderly _ _ lasting⟩

/-- The client closes a document that the server holds too, and the listener has the server let go of
it. -/
def dropped : Workspace :=
  (ofSetup (alert [("/a", [])] [.closeOnServer (.text "/a")])).run
    [.openOnServer (.text "/a"), .openOnClient "file:///a" "", .closeOnClient "file:///a"]

set_option maxRecDepth 4000 in
/-- The listener's removal comes first, so there is nothing left to remove. -/
theorem not_exact_dropped : ¬ dropped.Exact := by
  intro exact_
  have missing : (dropped.moments.any fun m => m = .missing 0) = true := by decide +kernel
  obtain ⟨m, mem, here⟩ := List.any_eq_true.mp missing
  rw [of_decide_eq_true here] at mem
  exact exact_.never_missing 0 mem

end Workspace
end GrammarWorkspace
