import GrammarWorkspace.Proofs.Update.Running

/-! Whatever steps are performed and whatever reports do: reports and rebuilding blocks exclude one
another, and no request is lost and none answered twice. -/
namespace GrammarWorkspace.Update

open Work (Ends)

namespace Run

variable {r r' : Run} {depth : Nat} {work : Work Run Unit}

def begun (r : Run) : Run :=
  let g : Gate := { r.gate with pending := false }
  r.extend ⟨.passed .reportBegun, g⟩ g

theorem sound_begun (kept : r.Kept) (phase_eq : r.gate.phase = .reporting)
    (free : phaseOf (underWay r.history) = .idle) (due : r.gate.isDue = true) : r.begun.Sound := by
  have owed : Owed r.history :=
    kept.owed_of_pending (absorbs_of_idle free) (Gate.pending_of_isDue due)
  constructor
  · refine kept.extend rfl (fun _ => ⟨free, Gate.suspensions_of_isDue due, owed⟩) (fun _ => rfl) nofun
      (add_zero _).symm ⟨fun _ => free, kept.single⟩ ?_ ?_
    · intro still
      rcases since_append.mp still with ⟨asks, -⟩ | ⟨-, begins⟩
      · cases asks
      · cases begins
    · intro _ pending
      cases pending
  · rw [begun, underWay_extend]
    exact phase_eq

theorem settled_begun (phase_eq : r.gate.phase = .reporting) : r.begun.Settled := by
  constructor
  · intro idle
    rw [begun, Run.extend, phase_eq] at idle
    cases idle
  · exact not_ripe_append rfl

theorem reported_of_arrives (phase_eq : r.gate.phase = .reporting)
    (free : phaseOf (underWay r.history) = .idle) (h : r.begun.Arrives r')
    (spent : r'.scripts.length < r.scripts.length ∨ r'.gate.pending = false)
    (result : Except Fault Unit) :
    r.Reported result (r'.extend ⟨.over .report !result.isOk, r'.gate⟩ r'.gate) := by
  have under_way : underWay r'.history =
      ⟨.report, { r.gate with pending := false }⟩ :: underWay r.history :=
    h.advances.underWay_eq.trans (underWay_extend _ _ _)
  refine ⟨?_, h.advances.phase_eq.trans phase_eq, ?_, not_ripe_append rfl, h.advances.scripts_le, spent, ?_⟩
  · apply h.sound.toKept.extend_quiet h.settled.unripe (e := ⟨.over .report !result.isOk, r'.gate⟩)
      rfl rfl rfl
    · rintro _ _ ⟨⟩
      exact ⟨_, _, under_way, rfl, h.advances.phase_eq⟩
    · exact (add_zero _).symm
    · have single := h.sound.single
      rw [under_way] at single ⊢
      exact single.2
    · exact h.sound.pending_of_owed
    · intro _
      apply h.sound.owed_of_pending
      rw [under_way, absorbs, absorbs_of_idle free]
      rfl
  · rw [underWay_extend, under_way]
    rfl
  · intro failed
    apply since_append.mpr
    left
    rw [Event.escapes, failed]
    rfl

theorem ends_reporting (kept : r.Kept) (phase_eq : r.gate.phase = .reporting)
    (free : phaseOf (underWay r.history) = .idle) (due : r.gate.isDue = true)
    (h : r.begun.Sound → r.begun.Settled → Ends work r.begun fun _ r' =>
      r.begun.Arrives r' ∧ (r'.scripts.length < r.scripts.length ∨ r'.gate.pending = false)) :
    Ends (do pass .reportBegun; closing .report work)
      { r with gate := { r.gate with pending := false } } r.Reported := by
  rw [Work.ends_bind, pass, ends_note, Work.next_ok, ends_closing]
  refine (h (sound_begun kept phase_eq free due) (settled_begun phase_eq)).mono ?_
  rintro result r' ⟨arrives, spent⟩
  exact reported_of_arrives phase_eq free arrives spent result

theorem arrives_taken (sound : r.Sound) (settled : r.Settled) :
    r.Arrives { r with scripts := r.scripts.tail } := by
  refine ⟨⟨⟨sound.exclusive, sound.answering, sound.prompt, sound.balanced, sound.single,
    sound.pending_of_owed, sound.owed_of_pending⟩, sound.phase_eq⟩,
    ⟨settled.answered, settled.unripe⟩, rfl, rfl, ?_, fun _ => Iff.rfl⟩
  rw [List.length_tail]
  exact Nat.sub_le _ _

theorem answers_report (depth : Nat) : Answers depth (report depth) := by
  induction depth with
  | zero =>
    intro r kept phase_eq free due few
    apply ends_reporting kept phase_eq free due
    intro sound settled
    exact ⟨(arrives_refl sound settled).plain rfl, Or.inr rfl⟩
  | succ depth ih =>
    intro r kept phase_eq free due few
    apply ends_reporting kept phase_eq free due
    intro sound settled
    have taken := arrives_taken sound settled
    rw [nextScript, bind_assoc, Work.ends_bind, Work.ends_get, Work.next_ok, bind_assoc,
      Work.ends_bind, Work.ends_set, Work.next_ok, pure_bind]
    cases given : r.scripts with
    | nil =>
      have nothing : r.begun.scripts.headD [] = [] := by
        change r.scripts.headD [] = []
        rw [given]
        rfl
      rw [nothing]
      exact ⟨taken.plain rfl, Or.inr rfl⟩
    | cons script rest =>
      have fewer : r.begun.scripts.tail.length ≤ depth := by
        change r.scripts.tail.length ≤ depth
        rw [given] at few ⊢
        exact Nat.le_of_succ_le_succ few
      have less : r.begun.scripts.tail.length < (script :: rest).length := by
        change r.scripts.tail.length < _
        rw [given]
        exact Nat.lt_succ_self _
      apply (steady_performAll ih _ _ taken.sound taken.settled fewer).bind
      · intro _ r' h
        exact ⟨(taken.trans h).plain rfl, Or.inl (Nat.lt_of_le_of_lt h.advances.scripts_le less)⟩
      · intro _ r' h
        exact ⟨taken.trans h, Or.inl (Nat.lt_of_le_of_lt h.advances.scripts_le less)⟩

theorem arrives_after (sound : r.Sound) (settled : r.Settled) (step : Step) :
    r.Arrives (r.after step) := by
  change Ends (topStep step) r fun _ r' => r.Arrives r'
  rw [topStep, Work.ends_bind, Work.ends_get, Work.next_ok, Work.ends_bind, Work.ends_outcome]
  refine (steady_perform (answers_report _) step r sound settled (Nat.le_refl _)).mono ?_
  intro result r' h
  rw [Work.next_ok]
  cases result with
  | ok _ => exact h
  | error fault => exact h.plain rfl

theorem arrives_foldl (steps : List Step) :
    ∀ r : Run, r.Sound → r.Settled → r.Arrives (steps.foldl after r) := by
  induction steps with
  | nil =>
    intro r sound settled
    exact arrives_refl sound settled
  | cons step rest ih =>
    intro r sound settled
    have first := arrives_after sound settled step
    exact first.trans (ih _ first.sound first.settled)

end Run

variable (steps : List Step) (scripts : List (List Step))

theorem sound_start : (start scripts).Sound := by
  refine ⟨⟨throughout_nil, throughout_nil, throughout_nil, rfl, trivial, ?_, ?_⟩, rfl⟩
  · intro owed
    exact absurd owed not_since_nil
  · intro _ pending
    cases pending

theorem settled_start : (start scripts).Settled := by
  constructor
  · intro _ due
    cases due
  · intro ripe
    exact absurd ripe.owed not_since_nil

theorem arrives_runOf : (start scripts).Arrives (runOf steps scripts) :=
  Run.arrives_foldl steps _ (sound_start scripts) (settled_start scripts)

theorem underWay_runOf : underWay (runOf steps scripts).history = [] :=
  (arrives_runOf steps scripts).advances.underWay_eq

theorem phase_runOf : (runOf steps scripts).gate.phase = .idle :=
  (arrives_runOf steps scripts).advances.phase_eq

theorem pending_iff_owed :
    (runOf steps scripts).gate.pending = true ↔ Owed (runOf steps scripts).history := by
  have sound := (arrives_runOf steps scripts).sound
  constructor
  · apply sound.owed_of_pending
    rw [underWay_runOf]
    rfl
  · exact sound.pending_of_owed

/-- A report begins only while no report and no rebuilding block is under way and no suspension is
held; the suspensions are those taken and not given back, never less than none; whatever ends leaves
the phase as it was found, and between steps of their own the gate is idle. -/
theorem reports_exclude :
    Throughout Exclusive (runOf steps scripts).history ∧
      (∀ before, before <+: (runOf steps scripts).history → 0 ≤ balance before) ∧
      underWay (runOf steps scripts).history = [] ∧ (runOf steps scripts).gate.phase = .idle := by
  have sound := (arrives_runOf steps scripts).sound
  refine ⟨sound.exclusive, ?_, underWay_runOf steps scripts, phase_runOf steps scripts⟩
  rintro before ⟨after, split⟩
  apply balance_nonneg
  rintro earlier e later rfl
  exact sound.exclusive earlier e (later ++ after) (by rw [← split, List.append_assoc]; rfl)

/-- Every request that no report takes along is followed by a report, or still pending; every report
has such a request since the last one; a pending request that could be answered is left over only by
a fault that has left a report or a rebuilding block since; and once a request is owed, the first
call or end of a block that leaves nothing in the way of a report is followed by one at once. -/
theorem requests_answered :
    (∀ before e after, (runOf steps scripts).history = before ++ e :: after → Direct before e →
        (∃ x ∈ after, x.beginsReport = true) ∨ (runOf steps scripts).gate.pending = true) ∧
      Throughout Answering (runOf steps scripts).history ∧
      ((runOf steps scripts).gate.pending = true → (runOf steps scripts).gate.suspensions = 0 →
        Escaped (runOf steps scripts).history) ∧
      ((runOf steps scripts).gate.pending = true ↔ Owed (runOf steps scripts).history) ∧
      Throughout Prompt (runOf steps scripts).history ∧ ¬ Ripe (runOf steps scripts).history := by
  have h := arrives_runOf steps scripts
  refine ⟨?_, h.sound.answering, ?_, pending_iff_owed steps scripts, h.sound.prompt, h.settled.unripe⟩
  · intro before e after split direct
    by_cases begins : ∃ x ∈ after, x.beginsReport = true
    · exact Or.inl begins
    · right
      apply h.sound.pending_of_owed
      refine ⟨before, e, after, split, direct, ?_⟩
      intro x hx
      rw [← Bool.not_eq_true]
      intro begun
      exact begins ⟨x, hx, begun⟩
  · intro pending none
    apply h.settled.answered (phase_runOf steps scripts)
    simp [Gate.isDue, pending, none]

/-- What a report asks for is answered by another one, what its rebuilding asks for is not. -/
example :
    (runOf [.request] [[.request], [.within .rebuilding [.request]]]).history.countP
      Event.beginsReport = 2 := by
  decide

end GrammarWorkspace.Update
