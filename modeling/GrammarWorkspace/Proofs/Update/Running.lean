import GrammarWorkspace.Proofs.Update.Steadiness

/-! Every step keeps the invariants of the gate: calls, blocks of either kind, steps given up at a
fault, and reports that are made of such steps. -/
namespace GrammarWorkspace.Update

open Work (Ends)

namespace Run

variable {r r' : Run} {depth : Nat} {report work : Work Run Unit} {block : Block}

theorem steady_request (answers : Answers depth report) : Steady depth (perform report .request) := by
  intro r sound settled few
  have asked : (r.extend ⟨.calling .request, r.gate⟩ { r.gate with pending := true }).Kept := by
    apply sound.toKept.extend (e := ⟨.calling .request, r.gate⟩) rfl
    · intro begins
      cases begins
    · exact fun ripe => absurd ripe settled.unripe
    · intro scope byFault ended
      cases ended
    · exact (add_zero _).symm
    · exact sound.single
    · intro _
      rfl
    · intro direct _
      exact since_append.mpr (Or.inl ⟨rfl, direct⟩)
  have advances : r.Advances (r.extend ⟨.calling .request, r.gate⟩ { r.gate with pending := true }) := by
    refine ⟨underWay_extend _ _ _, rfl, Nat.le_refl _, ?_⟩
    intro absorbing
    rw [Run.extend, Owed, since_append, Direct, absorbing]
    simp [Event.beginsReport]
  rw [perform, Work.ends_bind, ends_note, Work.next_ok, Work.ends_bind, Gate.request, Work.ends_bind,
    ends_change, Work.next_ok]
  refine (ends_flush answers ⟨asked, ?_⟩ few).mono ?_
  · rw [underWay_extend]
    exact sound.phase_eq
  · intro result r₁ h₁
    have arrives : r.Arrives r₁ := ⟨h₁.sound, h₁.settled, advances.trans h₁.advances⟩
    cases result with
    | ok _ => exact arrives.plain rfl
    | error fault => exact arrives

theorem Settled.suspended {e : Event} (settled : r.Settled) (kept : r.Kept) (begins : e.beginsReport = false)
    (frees : e.frees = false) :
    (r.extend e { r.gate with suspensions := r.gate.suspensions + 1 }).Settled := by
  apply settled.extend begins frees
  intro _ due
  have none := Gate.suspensions_of_isDue due
  have counted : 0 ≤ r.gate.suspensions := kept.balanced ▸ balance_nonneg kept.exclusive
  dsimp only at none
  omega

theorem steady_suspend (depth : Nat) (report : Work Run Unit) :
    Steady depth (perform report .suspend) := by
  intro r sound settled few
  have arrives : r.Arrives (r.extend ⟨.calling .suspend, r.gate⟩
      { r.gate with suspensions := r.gate.suspensions + 1 }) := by
    constructor
    · exact sound.extend settled.unripe rfl rfl rfl nofun (.refl _) rfl rfl rfl
    · exact settled.suspended sound.toKept rfl rfl
    · exact ⟨underWay_extend _ _ _, rfl, Nat.le_refl _, fun _ => owed_append_iff rfl rfl⟩
  exact arrives.plain rfl

/-- A resume, from the moment that it is noted: at the end of a block as well as by itself. -/
theorem ends_resume (answers : Answers depth report) (before : Run) {e : Event} (noted : e.gate = r.gate)
    (begins : e.beginsReport = false) (frees : e.frees = e.gate.isSuspended)
    (change : e.change = if e.gate.isSuspended then -1 else 0)
    (sound : ∀ g : Gate, g.suspensions = r.gate.suspensions + e.change →
      g.phase = r.gate.phase → g.pending = r.gate.pending → (r.extend e g).Sound)
    (advances : ∀ g : Gate, g.phase = r.gate.phase → before.Advances (r.extend e g))
    (settled : r.Settled) (few : r.scripts.length ≤ depth) :
    Ends (Gate.resume report) (r.extend e r.gate) fun _ r' => before.Arrives r' := by
  rw [Gate.resume, Work.ends_bind, ends_read, Work.next_ok]
  rw [noted] at change frees
  cases held : r.gate.isSuspended with
  | false =>
    rw [if_neg (by simp [Run.extend, held])]
    rw [held] at change frees
    exact ⟨sound r.gate (by simp [change]) rfl rfl, settled.extend begins frees And.intro,
      advances r.gate rfl⟩
  | true =>
    rw [if_pos (by simp [Run.extend, held]), Work.ends_bind, ends_change, Work.next_ok]
    rw [held] at change
    have taken_back := sound { r.gate with suspensions := r.gate.suspensions - 1 }
      (by rw [change, if_pos rfl]; rfl) rfl rfl
    refine (ends_flush answers taken_back few).mono ?_
    intro _ r₁ h₁
    exact ⟨h₁.sound, h₁.settled,
      (advances { r.gate with suspensions := r.gate.suspensions - 1 } rfl).trans h₁.advances⟩

theorem steady_resume (answers : Answers depth report) : Steady depth (perform report .resume) := by
  intro r sound settled few
  rw [perform, Work.ends_bind, ends_note, Work.next_ok, Work.ends_bind]
  refine (ends_resume answers r (e := ⟨.calling .resume, r.gate⟩) rfl rfl rfl rfl ?_ ?_
    settled few).mono ?_
  · intro g balanced phase_eq pending_eq
    exact sound.extend settled.unripe rfl rfl rfl nofun (.refl _) balanced phase_eq pending_eq
  · intro g phase_eq
    exact ⟨underWay_extend _ _ _, phase_eq, Nat.le_refl _, fun _ => owed_append_iff rfl rfl⟩
  · intro result r₁ arrives
    cases result with
    | ok _ => exact arrives.plain rfl
    | error fault => exact arrives

def bodyOf (block : Block) (work : Work Run Unit) : Work Run Unit := do
  pass (.entered block)
  closing (.body block) work

theorem ends_suspended (answers : Answers depth report) (steady : Steady depth work)
    (sound : r.Sound) (settled : r.Settled) (few : r.scripts.length ≤ depth) :
    Ends (Gate.suspended report (bodyOf .suspended work))
      (r.extend ⟨.passed (.opening .suspended), r.gate⟩ r.gate) fun _ r' =>
      ∃ g : Gate, g.phase = r.gate.phase ∧
        (r.extend ⟨.passed (.opening .suspended), r.gate⟩ g).Arrives r' := by
  let opened := r.extend ⟨.passed (.opening .suspended), r.gate⟩
    { r.gate with suspensions := r.gate.suspensions + 1 }
  let entered := opened.extend ⟨.passed (.entered .suspended), opened.gate⟩ opened.gate
  have opened_sound : opened.Sound :=
    sound.extend settled.unripe rfl rfl rfl nofun (alike_push rfl) rfl rfl rfl
  have opened_settled : opened.Settled := settled.suspended sound.toKept rfl rfl
  have entered_sound : entered.Sound :=
    opened_sound.extend opened_settled.unripe rfl rfl rfl nofun (alike_push rfl)
      (add_zero _).symm rfl rfl
  have entered_settled : entered.Settled := opened_settled.extend rfl rfl And.intro
  rw [Gate.suspended, Gate.suspend, Work.ends_bind, ends_change, Work.next_ok, Work.ends_ensuring,
    bodyOf, Work.ends_bind, pass, ends_note, Work.next_ok, ends_closing]
  refine (steady entered entered_sound entered_settled few).mono ?_
  intro result left h
  have under_way : underWay left.history = ⟨.body .suspended, opened.gate⟩ :: underWay opened.history :=
    h.advances.underWay_eq.trans (underWay_extend _ _ _)
  have few' : left.scripts.length ≤ depth := Nat.le_trans h.advances.scripts_le few
  refine (ends_resume answers opened
    (e := ⟨.over (.body .suspended) !result.isOk, left.gate⟩) rfl rfl rfl rfl ?_ ?_ h.settled
    few').mono ?_
  · intro g balanced phase_eq pending_eq
    refine h.sound.extend h.settled.unripe rfl rfl rfl ?_ ?_ balanced phase_eq pending_eq
    · rintro _ _ ⟨⟩
      exact ⟨_, _, under_way, rfl, h.advances.phase_eq⟩
    · rw [under_way]
      exact alike_pop rfl
  · intro g phase_eq
    exact h.advances.enclose rfl rfl rfl (phase_eq.trans h.advances.phase_eq)
  · intro ended last h'
    rw [next_regardless]
    exact ⟨opened.gate, rfl, h'⟩

def rebuildingBody (r : Run) : Run :=
  let g : Gate := { r.gate with phase := .rebuilding }
  r.extend ⟨.passed (.entered .rebuilding), g⟩ g

def rebuilt (before g : Gate) : Gate :=
  { g with
    phase := before.phase
    pending := if before.phase = .reporting then before.pending else g.pending }

theorem sound_rebuildingBody (sound : r.Sound) (unripe : ¬ Ripe r.history) :
    r.rebuildingBody.Sound := by
  constructor
  · refine sound.toKept.extend_quiet unripe rfl rfl rfl nofun (add_zero _).symm ⟨nofun, sound.single⟩
      sound.pending_of_owed ?_
    intro direct
    rw [follow, absorbs, Bool.or_eq_false_iff] at direct
    exact sound.owed_of_pending direct.2
  · rw [rebuildingBody, underWay_extend]
    rfl

theorem settled_rebuildingBody (settled : r.Settled) : r.rebuildingBody.Settled := by
  apply settled.extend rfl rfl
  intro idle
  cases idle

/-- Inside a report the requests of the body are forgotten, and otherwise they are kept. -/
theorem sound_rebuilt (sound : r.Sound) (h : r.rebuildingBody.Arrives r') (byFault : Bool) :
    (r'.extend ⟨.over (.body .rebuilding) byFault, r'.gate⟩ (rebuilt r.gate r'.gate)).Sound := by
  have under_way : underWay r'.history =
      ⟨.body .rebuilding, { r.gate with phase := .rebuilding }⟩ :: underWay r.history :=
    h.advances.underWay_eq.trans (underWay_extend _ _ _)
  have owed_iff (reporting : r.gate.phase = .reporting) : Owed r'.history ↔ Owed r.history := by
    have absorbing : absorbs (underWay r.rebuildingBody.history) = true := by
      rw [rebuildingBody, underWay_extend, follow, absorbs,
        any_report_of_reporting (sound.phase_eq.symm.trans reporting)]
      rfl
    exact (h.advances.owed_iff absorbing).trans (owed_append_iff rfl rfl)
  have change : Event.change ⟨.over (.body .rebuilding) byFault, r'.gate⟩ = 0 := rfl
  constructor
  · apply h.sound.toKept.extend_quiet h.settled.unripe
      (e := ⟨.over (.body .rebuilding) byFault, r'.gate⟩) rfl rfl rfl
    · rintro _ _ ⟨⟩
      exact ⟨_, _, under_way, rfl, h.advances.phase_eq⟩
    · rw [change, add_zero]
      rfl
    · rw [under_way]
      exact sound.single
    · intro owed
      by_cases reporting : r.gate.phase = .reporting
      · rw [rebuilt, if_pos reporting]
        exact sound.pending_of_owed ((owed_iff reporting).mp owed)
      · rw [rebuilt, if_neg reporting]
        exact h.sound.pending_of_owed owed
    · rw [under_way, follow, List.tail_cons]
      intro direct pending
      by_cases reporting : r.gate.phase = .reporting
      · rw [rebuilt, if_pos reporting] at pending
        exact (owed_iff reporting).mpr (sound.owed_of_pending direct pending)
      · rw [rebuilt, if_neg reporting] at pending
        apply h.sound.owed_of_pending _ pending
        have none : (underWay r.history).any (·.scope = .report) = false := by
          apply any_report_of_not_absorbs direct
          rw [← sound.phase_eq]
          exact reporting
        rw [under_way, absorbs, direct, none]
        rfl
  · rw [underWay_extend, under_way]
    exact sound.phase_eq

theorem ends_rebuilding (answers : Answers depth report) (steady : Steady depth work)
    (sound : r.Sound) (settled : r.Settled) (few : r.scripts.length ≤ depth) :
    Ends (Gate.rebuilding report (bodyOf .rebuilding work)) r fun _ r' => r.Arrives r' := by
  rw [Gate.rebuilding, Work.ends_bind, ends_read, Work.next_ok, Work.ends_bind, ends_change,
    Work.next_ok, Work.ends_bind, Work.ends_ensuring, bodyOf, Work.ends_bind, pass, ends_note,
    Work.next_ok, ends_closing]
  refine (steady r.rebuildingBody (sound_rebuildingBody sound settled.unripe)
    (settled_rebuildingBody settled) few).mono ?_
  intro result left h
  have left_sound := sound_rebuilt sound h !result.isOk
  have advances : r.Advances (left.extend ⟨.over (.body .rebuilding) !result.isOk, left.gate⟩
      (rebuilt r.gate left.gate)) := h.advances.enclose rfl rfl rfl rfl
  rw [ends_change, Work.next_ok, Work.ends_ofExcept]
  cases result with
  | ok _ =>
    rw [Work.next_ok, Work.ends_bind]
    refine (ends_flush answers left_sound (Nat.le_trans advances.scripts_le few)).mono ?_
    intro ended last h'
    have arrives : r.Arrives last := ⟨h'.sound, h'.settled, advances.trans h'.advances⟩
    cases ended with
    | ok _ => exact arrives
    | error fault => exact arrives
  | error fault =>
    rw [Work.next_error]
    refine ⟨left_sound, ⟨?_, not_ripe_append rfl⟩, advances⟩
    intro _ _
    exact since_append.mpr (Or.inl rfl)

theorem steady_within (answers : Answers depth report) {body : List Step}
    (steady : Steady depth (performAll report body)) :
    Steady depth (perform report (.within block body)) := by
  intro r sound settled few
  have opened_sound : (r.extend ⟨.passed (.opening .rebuilding), r.gate⟩ r.gate).Sound :=
    sound.extend settled.unripe rfl rfl rfl nofun (alike_push rfl) (add_zero _).symm rfl rfl
  have opened_settled : (r.extend ⟨.passed (.opening .rebuilding), r.gate⟩ r.gate).Settled :=
    settled.extend rfl rfl And.intro
  have enclosed : Ends (inBlock report block (bodyOf block (performAll report body)))
      (r.extend ⟨.passed (.opening block), r.gate⟩ r.gate) fun _ r' =>
      ∃ g : Gate, g.phase = r.gate.phase ∧
        (r.extend ⟨.passed (.opening block), r.gate⟩ g).Arrives r' := by
    cases block with
    | suspended => exact ends_suspended answers steady sound settled few
    | rebuilding =>
      refine (ends_rebuilding answers steady opened_sound opened_settled few).mono ?_
      intro _ r' h
      exact ⟨r.gate, rfl, h⟩
  rw [perform, Work.ends_bind, pass, ends_note, Work.next_ok, Work.ends_bind, ends_closing]
  refine Ends.mono enclosed ?_
  rintro result r' ⟨g, phase_eq, h⟩
  have arrives := h.enclose (a := ⟨.block block, r.gate⟩) (!result.isOk) rfl rfl rfl rfl rfl
    phase_eq rfl rfl
  cases result with
  | ok _ => exact arrives.plain rfl
  | error fault => exact arrives

theorem steady_attempt {body : List Step} (steady : Steady depth (performAll report body)) :
    Steady depth (perform report (.attempt body)) := by
  intro r sound settled few
  rw [perform, Work.ends_bind, Work.ends_outcome]
  refine (steady r sound settled few).mono ?_
  intro result r' arrives
  rw [Work.next_ok]
  cases result with
  | ok _ => exact arrives.plain rfl
  | error fault =>
    have noted : r.Arrives (r'.extend ⟨.caught fault, r'.gate⟩ r'.gate) := arrives.plain rfl
    exact noted.plain rfl

mutual

theorem steady_perform (answers : Answers depth report) :
    ∀ step : Step, Steady depth (perform report step)
  | .request => steady_request answers
  | .suspend => steady_suspend depth report
  | .resume => steady_resume answers
  | .interrupt => fun _ sound settled _ => arrives_refl sound settled
  | .within _ body => steady_within answers (steady_performAll answers body)
  | .attempt body => steady_attempt (steady_performAll answers body)

theorem steady_performAll (answers : Answers depth report) :
    ∀ steps : List Step, Steady depth (performAll report steps)
  | [] => fun _ sound settled _ => arrives_refl sound settled
  | step :: rest => (steady_perform answers step).bind (steady_performAll answers rest)

end

end Run
end GrammarWorkspace.Update
