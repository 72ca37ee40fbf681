import GrammarWorkspace.Proofs.Workspace.Agreement

/-!
# Deep enough

Listeners are at work inside one another no deeper, and reports ask for reports no more often, than the
scripts still contain actions. So the room that a session gives them never runs out: with more of it
everything comes to the same.
-/
namespace GrammarWorkspace

open Work (Ends Along Agree Keeping Stays)

namespace Workspace

def Tires (w w' : Workspace) : Prop :=
  w'.restlessness < w.restlessness ∨
    w'.restlessness ≤ w.restlessness ∧ (w'.gate.pending = true → w.gate.pending = true)

instance : IsPreorder Workspace Tires where
  refl _ := Or.inr ⟨Nat.le_refl _, id⟩
  trans _ _ _ h h' := by
    rcases h with less | ⟨le, before⟩ <;> rcases h' with less' | ⟨le', after⟩
    · exact Or.inl (Nat.lt_trans less' less)
    · exact Or.inl (Nat.lt_of_le_of_lt le' less)
    · exact Or.inl (Nat.lt_of_lt_of_le less' le)
    · exact Or.inr ⟨Nat.le_trans le' le, before ∘ after⟩

end Workspace

namespace Task

variable {α : Type} {p : Phase} {n depth rounds : Nat} {call call' : Calling} {w : Workspace}

theorem ends_nextPlay_costs (number : Nat) : Ends (nextPlay number) w fun r w' =>
    (r = .ok [] ∧ w' = w) ∨ ∃ actions, r = .ok actions ∧
      w'.restlessness + (Action.weights actions + 1) = w.restlessness ∧ w'.bus = w.bus ∧
      w'.gate = w.gate := by
  rw [nextPlay, Work.ends_bind, Work.ends_get, Work.next_ok]
  rcases hn : w.scripts[number]? with _ | ⟨_ | plays, actions⟩
  · exact Or.inl ⟨rfl, rfl⟩
  · exact Or.inl ⟨rfl, rfl⟩
  · let w' := { w with scripts := w.scripts.set number ⟨plays, actions⟩ }
    have less : w'.restlessness + Script.weight ⟨plays + 1, actions⟩ =
        w.restlessness + Script.weight ⟨plays, actions⟩ := Workspace.restlessness_set hn rfl
    simp only [Script.weight, Nat.add_mul] at less
    have costs : w'.restlessness + (Action.weights actions + 1) = w.restlessness := by omega
    exact Or.inr ⟨actions, rfl, costs, rfl, rfl⟩

theorem agree_script (agreed : ∀ k < n, Concord p k call call') (number : Nat) :
    Agrees p n (do play call (← nextPlay number)) (do play call' (← nextPlay number)) := by
  refine .bind_of_ends fun w hw => (ends_nextPlay_costs number).mono ?_
  rintro _ w' (⟨rfl, rfl⟩ | ⟨actions, rfl, costs, bus, gate⟩)
  · refine ⟨fun _ failed => (by cases failed), fun _ same => ?_⟩
    cases same
    exact .refl fun _ here => here ▸ hw
  · have left : w'.Within p w'.restlessness :=
      ⟨gate ▸ hw.phase_eq, Nat.le_refl _, fun s hs => hw.seated s (bus ▸ hs)⟩
    have some : w.restlessness ≤ n := hw.restlessness_le
    have plays : Agree (Workspace.Within p w'.restlessness) _ (play call actions) (play call' actions) :=
      agree_play (m := n - 1) (fun k hk => agreed k (by omega)) actions (by omega)
    refine ⟨fun _ failed => (by cases failed), fun _ same => ?_⟩
    cases same
    exact plays.mono (fun _ here => here ▸ left) fun _ hw => hw.mono (by omega)

theorem agree_script_zero (call : Calling) (number : Nat) :
    Agrees p 0 (pure ()) (do play call (← nextPlay number)) := by
  intro w hw
  have none : w.restlessness = 0 := Nat.le_zero.mp hw.restlessness_le
  refine ⟨?_, hw⟩
  apply Work.run_eq_of_ends
  intro Q here
  rw [Work.ends_bind]
  refine (ends_nextPlay_costs number).mono ?_
  rintro _ w' (⟨rfl, rfl⟩ | ⟨actions, rfl, costs, -⟩)
  · exact here
  · omega

theorem inert_note (topic : Topic) (about : Option DocumentId) : Inert p n (note topic about) :=
  along_note (fun _ _ _ hw => hw.of_same rfl rfl rfl) topic about

theorem inert_clearNotices (about : Option DocumentId) : Inert p n (clearNotices about) :=
  along_clearNotices overlooks_within about

theorem concord_call_busy (busy : p ≠ .idle) (le : n ≤ depth) :
    Concord p n (Task.call depth) (Task.call (depth + 1)) := by
  refine ⟨fun q from_idle listener topic about other => ?_, fun idle => absurd idle busy⟩
  replace busy : q ≠ .idle := busy ∘ from_idle
  clear from_idle
  induction depth generalizing n q listener topic about with
  | zero =>
    obtain rfl : n = 0 := Nat.le_zero.mp le
    cases listener with
    | observer => exact .of_along (inert_note topic about)
    | clearer => exact .of_along (inert_clearNotices about)
    | publisher => exact absurd rfl other
    | scripted number => exact agree_script_zero _ number
  | succ depth ih =>
    cases listener with
    | observer => exact .of_along (inert_note topic about)
    | clearer => exact .of_along (inert_clearNotices about)
    | publisher => exact absurd rfl other
    | scripted number =>
      refine agree_script (fun k hk => ⟨fun q' from_idle l t a ne => ?_, fun idle => ?_⟩) number
      · exact ih (by omega) q' l t a ne (busy ∘ from_idle)
      · exact absurd idle busy

theorem agree_call_reporting (lt : n < depth) (listener : Listener) (topic : Topic)
    (about : Option DocumentId) : Agrees .reporting n (Task.call depth listener topic about)
      (Task.call (depth + 1) listener topic about) := by
  have busy : Phase.reporting ≠ .idle := by decide
  by_cases publishes : listener = .publisher
  · obtain ⟨depth, rfl⟩ := Nat.exists_eq_add_of_lt lt
    subst publishes
    exact agree_publish (concord_call_busy busy (by omega))
  · exact (concord_call_busy busy (by omega)).calls .reporting id listener topic about publishes

theorem agree_report_call (lt : n < depth) :
    Agrees .reporting n (report (Task.call depth)) (report (Task.call (depth + 1))) := by
  refine (inert_pass _).then_agree fun _ => .look fun w hw => ?_
  refine (Bus.agree_deliver _ fun listener _ => ?_).then fun _ => .of_along (inert_pass _)
  exact agree_call_reporting lt listener .updated none

theorem concord_call (lt : n < depth) : Concord p n (Task.call depth) (Task.call (depth + 1)) := by
  refine ⟨fun q from_idle listener topic about other => ?_, fun _ => agree_report_call lt⟩
  clear from_idle
  induction depth generalizing n q listener topic about with
  | zero => omega
  | succ depth ih =>
    cases listener with
    | observer => exact .of_along (inert_note topic about)
    | clearer => exact .of_along (inert_clearNotices about)
    | publisher => exact absurd rfl other
    | scripted number =>
      refine agree_script (fun k hk => ?_) number
      have deep : k < depth := by omega
      exact ⟨fun q' _ l t a ne => ih deep q' l t a ne, fun _ => agree_report_call deep⟩

theorem agree_perform_deeper {action : Action} (lt : n + action.weight < depth) (more : Nat) :
    Agree (Workspace.Within p n) (Workspace.Within p (n + action.weight))
      (perform (Task.call depth) action) (perform (Task.call (depth + more)) action) := by
  have one {depth : Nat} (lt : n + action.weight < depth) :
      Agree (Workspace.Within p n) (Workspace.Within p (n + action.weight))
        (perform (Task.call depth) action) (perform (Task.call (depth + 1)) action) :=
    agree_perform (fun k hk => concord_call (by omega)) action (Nat.le_refl _)
  induction more with
  | zero => exact .refl fun w hw => (one lt w hw).2
  | succ more ih => exact ih.trans (one (by omega))

/-- What is asked for by a rebuild inside a report is part of what is being reported. -/
theorem ends_rebuilding_reporting (reporting : w.gate.phase = .reporting) {reports : Task Unit}
    (task : Task α) :
    Ends (Gate.rebuilding reports task) w fun _ w' => w'.gate.pending = w.gate.pending := by
  rw [Gate.rebuilding, Work.ends_bind, Gate.read, Work.ends_bind, Work.ends_get, Work.next_ok,
    Work.ends_pure, Work.next_ok, Work.ends_bind, Gate.change, Work.ends_modify, Work.next_ok,
    Work.ends_bind, Work.ends_ensuring]
  refine Ends.mono (Q := fun _ _ => True) trivial fun r w₁ _ => ?_
  rw [Gate.change, Work.ends_modify, Work.next_ok, Work.ends_ofExcept]
  have restored : (if w.gate.phase = .reporting then w.gate.pending else w₁.gate.pending) =
      w.gate.pending := if_pos reporting
  cases r with
  | error fault => exact restored
  | ok a =>
    rw [Work.next_ok, Work.ends_bind, Gate.ends_flush_of_not]
    · exact restored
    · rintro ⟨-, idle⟩
      exact absurd (reporting.symm.trans idle) (by decide)

theorem ends_publish_reporting (reporting : w.gate.phase = .reporting) :
    Ends (publish call) w fun _ w' => w'.gate.pending = w.gate.pending := by
  have compiled : Ends (compilation call) w fun _ w' => w'.gate.pending = w.gate.pending := by
    rw [compilation, Work.ends_bind, Work.ends_get, Work.next_ok]
    cases w.compilation with
    | some c => exact rfl
    | none => exact ends_rebuilding_reporting reporting _
  refine compiled.bind (fun c w₁ same => ?_) fun _ _ same => same
  have sends : Along (Stays fun w' : Workspace => w'.gate.pending = w.gate.pending) (do
      (← get).trackedDocuments.forM fun d => do
        if (c.source? d.file).isSome then
          observe (.published d.uri ((c.diagnosticsFor d.file).map .ofDiagnostic))) := by
    refine .get_bind fun _ => Work.along_forM _ fun d => ?_
    split
    · exact fun _ => id
    · exact Work.along_pure ()
  exact sends w₁ same

theorem ends_script_tires (hw : w.Within .reporting n) (le : n ≤ depth + 1) (number : Nat) :
    Ends (do play (Task.call depth) (← nextPlay number)) w fun _ w' => w.Tires w' := by
  rw [Work.ends_bind]
  refine (ends_nextPlay_costs number).mono ?_
  rintro _ w' (⟨rfl, rfl⟩ | ⟨actions, rfl, costs, bus, gate⟩)
  · exact refl_of Workspace.Tires w'
  · have left : w'.Within .reporting w'.restlessness :=
      ⟨gate ▸ hw.phase_eq, Nat.le_refl _, fun s hs => hw.seated s (bus ▸ hs)⟩
    have some : w.restlessness ≤ n := hw.restlessness_le
    have plays : Agree (Workspace.Within .reporting w'.restlessness) _
        (play (Task.call depth) actions) (play (Task.call (depth + 1)) actions) :=
      agree_play (m := n - 1) (fun k hk => concord_call_busy (by decide) (by omega)) actions (by omega)
    rw [Work.next_ok]
    refine (plays w' left).2.mono fun _ w'' hw'' => Or.inl ?_
    have less : w''.restlessness ≤ w'.restlessness + Action.weights actions := hw''.restlessness_le
    omega

theorem along_call_tires (lt : n < depth) (listener : Listener) (topic : Topic)
    (about : Option DocumentId) : Along (Keeping (Workspace.Within .reporting n) Workspace.Tires)
      (Task.call depth listener topic about) := by
  have noting (o : Observation) : Along Workspace.Tires (observe o) :=
    fun w => Or.inr ⟨Nat.le_refl _, id⟩
  intro w hw
  have tires : Ends (Task.call depth listener topic about) w fun _ w' => w.Tires w' := by
    cases listener with
    | observer =>
      rw [call_observer]
      exact along_note (fun w o _ => noting o w) topic about w
    | clearer =>
      rw [call_clearer]
      cases about with
      | none => exact refl_of Workspace.Tires w
      | some id => exact (along_document id).bind (fun _ => noting _) w
    | publisher =>
      have own : w.Within .reporting w.restlessness := ⟨hw.phase_eq, Nat.le_refl _, hw.seated⟩
      have deep : w.restlessness < depth := Nat.lt_of_le_of_lt hw.restlessness_le lt
      have few := (agree_call_reporting deep .publisher topic about w own).2
      obtain ⟨depth, rfl⟩ := Nat.exists_eq_add_of_lt lt
      exact (few.and (ends_publish_reporting hw.phase_eq)).mono fun _ w' h =>
        Or.inr ⟨h.1.restlessness_le, fun noted => h.2 ▸ noted⟩
    | scripted number =>
      obtain ⟨depth, rfl⟩ := Nat.exists_eq_add_of_lt lt
      exact ends_script_tires hw (by omega) number
  exact ⟨(agree_call_reporting lt listener topic about w hw).2, tires⟩

theorem along_report_tires (lt : n < depth) :
    Along (Keeping (Workspace.Within .reporting n) Workspace.Tires) (report (Task.call depth)) := by
  apply along_fire
  · exact fun _ w hw => ⟨hw.of_same rfl rfl rfl, Or.inr ⟨Nat.le_refl _, id⟩⟩
  · exact along_call_tires lt

theorem run_reportWhileDue_succ (lt : n < depth) (hw : w.Within .reporting n)
    (enough : w.gate.pending = true → w.restlessness < rounds) :
    (Gate.reportWhileDue (report (Task.call depth)) (rounds + 1)).run.run w =
      (Gate.reportWhileDue (report (Task.call depth)) rounds).run.run w := by
  induction rounds generalizing w with
  | zero =>
    have still : ¬ (HasGate.gate w).isDue = true := fun due =>
      absurd (enough (Bool.and_eq_true_iff.mp due).1) (Nat.not_lt_zero _)
    apply Work.run_eq_of_ends
    intro Q h
    rw [Gate.ends_reportWhileDue_of_not still] at h ⊢
    exact h
  | succ rounds ih =>
    apply Work.run_eq_of_ends
    intro Q h
    by_cases due : (HasGate.gate w).isDue = true
    · rw [Gate.ends_reportWhileDue_of_due due] at h ⊢
      let begun : Workspace := HasGate.setGate { HasGate.gate w with pending := false } w
      have told : Ends (report (Task.call depth)) begun fun _ w' =>
          w'.Within .reporting n ∧ begun.Tires w' :=
        along_report_tires lt begun ⟨hw.phase_eq, hw.restlessness_le, hw.seated⟩
      refine (told.and h).mono ?_
      rintro r w' ⟨⟨hw', tires⟩, onward⟩
      cases r with
      | error fault => exact onward
      | ok _ =>
        refine Work.ends_of_run_eq (ih hw' fun noted => ?_) onward
        have left : w.restlessness < rounds + 1 := enough (Bool.and_eq_true_iff.mp due).1
        rcases tires with less | ⟨-, before⟩
        · exact Nat.lt_of_lt_of_le less (Nat.le_of_lt_succ left)
        · cases before noted
    · rw [Gate.ends_reportWhileDue_of_not due] at h ⊢
      exact h

theorem run_reportWhileDue_eq (lt : n < depth) (hw : w.Within .reporting n)
    (enough : w.restlessness < rounds) :
    (Gate.reportWhileDue (report (Task.call depth)) rounds).run.run w =
      (Gate.reportWhileDue (report (Task.call depth)) (w.restlessness + 1)).run.run w := by
  induction rounds, Nat.succ_le_of_lt enough using Nat.le_induction with
  | base => rfl
  | succ rounds le ih => exact (run_reportWhileDue_succ lt hw fun _ => le).trans (ih le)

end Task

namespace Workspace

variable {w : Workspace}

theorem Seated.turn (seated : w.Seated) (action : Action) : (w.turn action).2.Seated := by
  have here : w.Within w.gate.phase w.restlessness := ⟨rfl, Nat.le_refl _, seated⟩
  have performed : Ends (Task.perform (Task.call (w.restlessness + action.weight + 1)) action) w
      fun _ w' => w'.Seated :=
    (Task.agree_perform_deeper (Nat.lt_succ_self _) 0 w here).2.mono fun _ _ hw' => hw'.seated
  exact performed

theorem Seated.run (seated : w.Seated) (actions : List Action) : (w.run actions).Seated := by
  induction actions generalizing w with
  | nil => exact seated
  | cons action rest ih => exact ih (seated.turn action)

theorem seated_ofSetup (s : Setup) : (ofSetup s).Seated := by
  have silent (all : List (Topic × Listener)) (w : Workspace) (seated : w.Seated)
      (allowed : ∀ e ∈ all, e.2 = .publisher → e.1 = .updated) : (all.foldl withListener w).Seated := by
    induction all generalizing w with
    | nil => exact seated
    | cons e rest ih =>
      obtain ⟨first, others⟩ := List.forall_mem_cons.mp allowed
      exact ih _ (seated.subscribe first rfl) others
  have casts (all : List Cast) (w : Workspace) (seated : w.Seated) : (all.foldl withCast w).Seated := by
    induction all generalizing w with
    | nil => exact seated
    | cons c rest ih =>
      have plays : Listener.scripted w.scripts.length = .publisher → c.topic = .updated := nofun
      exact ih _ (seated.subscribe plays rfl)
  refine casts s.cast _ (silent _ _ (fun _ hs => nomatch hs) ?_)
  cases s.hasClient <;> decide

theorem Seated.perform_eq_act (seated : w.Seated) {action : Action} {depth : Nat}
    (enough : w.restlessness + action.weight < depth) :
    (Task.perform (Task.call depth) action).run.run w = (Task.act action).run.run w := by
  have here : w.Within w.gate.phase w.restlessness := ⟨rfl, Nat.le_refl _, seated⟩
  obtain ⟨more, same⟩ := Nat.exists_eq_add_of_le enough
  have deeper : (Task.perform (Task.call (w.restlessness + action.weight + 1 + more)) action).run.run w =
      (Task.perform (Task.call (w.restlessness + action.weight + 1)) action).run.run w :=
    (Task.agree_perform_deeper (Nat.lt_succ_self _) more w here).1
  rw [same]
  apply Work.run_eq_of_ends
  intro Q h
  rw [Task.act, Work.ends_bind, Work.ends_get, Work.next_ok] at h
  exact Work.ends_of_run_eq deeper h

/-- At any time in a session an action comes to the same, however much deeper listeners might be at work
inside one another. -/
theorem perform_eq_act_run (s : Setup) (actions : List Action) {action : Action} {depth : Nat}
    (enough : ((ofSetup s).run actions).restlessness + action.weight < depth) :
    (Task.perform (Task.call depth) action).run.run ((ofSetup s).run actions) =
      (Task.act action).run.run ((ofSetup s).run actions) :=
  ((seated_ofSetup s).run actions).perform_eq_act enough

end Workspace
end GrammarWorkspace
