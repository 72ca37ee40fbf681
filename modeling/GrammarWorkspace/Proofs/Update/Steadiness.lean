import GrammarWorkspace.Proofs.Ending
import GrammarWorkspace.Proofs.Update.History
import Mathlib.Data.List.Induction

/-! The invariants of the update gate. Every step of a run keeps them and leaves the phase as it was
found, whatever reports do and however it ends. A report finds the gate in a phase of its own, so
that nothing it does begins another one. -/
namespace GrammarWorkspace

open Work (Ends)

namespace Gate

theorem suspensions_of_isDue {g : Gate} (due : g.isDue = true) : g.suspensions = 0 := by
  simp only [isDue, Bool.and_eq_true, beq_iff_eq] at due
  exact due.2

theorem pending_of_isDue {g : Gate} (due : g.isDue = true) : g.pending = true := by
  simp only [isDue, Bool.and_eq_true] at due
  exact due.1

end Gate

namespace Update

/-- The law of mutual exclusion, for an event after the events before it. -/
structure Exclusive (before : List Event) (e : Event) : Prop where
  alone : e.beginsReport = true →
    (∀ a ∈ underWay before, a.excludes = false) ∧ e.gate.suspensions = 0
  counted : e.gate.suspensions = balance before
  restored : ∀ scope byFault, e.what = .over scope byFault →
    ∃ a rest, underWay before = a :: rest ∧ a.scope = scope ∧ e.gate.phase = a.found.phase

def Answering (before : List Event) (e : Event) : Prop := e.beginsReport = true → Owed before

/-- When a report has to begin, it is the next thing that happens. -/
def Prompt (before : List Event) (e : Event) : Prop := Ripe before → e.beginsReport = true

/-- A suspension is given back only where one is held, so there are never less than none. -/
theorem balance_nonneg {h : List Event} (exclusive : Throughout Exclusive h) : 0 ≤ balance h := by
  induction h using List.reverseRecOn with
  | nil => exact Int.le_refl 0
  | append_singleton h e ih =>
    obtain ⟨before, last⟩ := throughout_append.mp exclusive
    have held := ih before
    rw [balance_append]
    rcases e.change_eq with change | change | ⟨change, suspended⟩
    · omega
    · omega
    · have counted := last.counted
      rw [Gate.isSuspended, decide_eq_true_eq] at suspended
      omega

theorem owed_append_iff {h : List Event} {e : Event} (asks : e.requests = false)
    (begins : e.beginsReport = false) : Owed (h ++ [e]) ↔ Owed h := by
  rw [Owed, since_append, Direct, asks, begins]
  simp

theorem escaped_append {h : List Event} {e : Event} (escaped : Escaped h)
    (begins : e.beginsReport = false) : Escaped (h ++ [e]) :=
  since_append.mpr (Or.inr ⟨escaped, begins⟩)

namespace Run

structure Kept (r : Run) : Prop where
  exclusive : Throughout Exclusive r.history
  answering : Throughout Answering r.history
  prompt : Throughout Prompt r.history
  balanced : r.gate.suspensions = balance r.history
  single : Single (underWay r.history)
  pending_of_owed : Owed r.history → r.gate.pending = true
  owed_of_pending : absorbs (underWay r.history) = false → r.gate.pending = true → Owed r.history

structure Sound (r : Run) : Prop extends r.Kept where
  phase_eq : r.gate.phase = phaseOf (underWay r.history)

/-- No report has to begin now, and a request that could be answered was left alone at a fault. -/
structure Settled (r : Run) : Prop where
  answered : r.gate.phase = .idle → r.gate.isDue = true → Escaped r.history
  unripe : ¬ Ripe r.history

structure Advances (r r' : Run) : Prop where
  underWay_eq : underWay r'.history = underWay r.history
  phase_eq : r'.gate.phase = r.gate.phase
  scripts_le : r'.scripts.length ≤ r.scripts.length
  owed_iff : absorbs (underWay r.history) = true → (Owed r'.history ↔ Owed r.history)

structure Arrives (r r' : Run) : Prop where
  sound : r'.Sound
  settled : r'.Settled
  advances : r.Advances r'

variable {r r' r'' : Run} {depth : Nat} {what : Happening} {e e' : Event} {g g' : Gate}
  {a : Activity} {scope : Scope}

theorem Advances.refl (r : Run) : r.Advances r := ⟨rfl, rfl, Nat.le_refl _, fun _ => Iff.rfl⟩

theorem Advances.trans (h : r.Advances r') (h' : r'.Advances r'') : r.Advances r'' where
  underWay_eq := h'.underWay_eq.trans h.underWay_eq
  phase_eq := h'.phase_eq.trans h.phase_eq
  scripts_le := Nat.le_trans h'.scripts_le h.scripts_le
  owed_iff absorbing := by
    rw [h'.owed_iff (by rw [h.underWay_eq]; exact absorbing)]
    exact h.owed_iff absorbing

theorem arrives_refl (sound : r.Sound) (settled : r.Settled) : r.Arrives r :=
  ⟨sound, settled, .refl r⟩

theorem Arrives.trans (h : r.Arrives r') (h' : r'.Arrives r'') : r.Arrives r'' :=
  ⟨h'.sound, h'.settled, h.advances.trans h'.advances⟩

def extend (r : Run) (e : Event) (g : Gate) : Run := { r with gate := g, history := r.history ++ [e] }

@[simp] theorem underWay_extend (r : Run) (e : Event) (g : Gate) :
    underWay (r.extend e g).history = follow (underWay r.history) e := underWay_append _ _

theorem ends_read {Q : Except Fault Gate → Run → Prop} :
    Ends (Gate.read : Work Run Gate) r Q ↔ Q (.ok r.gate) r := Iff.rfl

theorem ends_change {Q : Except Fault Unit → Run → Prop} {f : Gate → Gate} :
    Ends (Gate.change f) r Q ↔ Q (.ok ()) { r with gate := f r.gate } := Iff.rfl

theorem ends_note {Q : Except Fault Unit → Run → Prop} :
    Ends (note what) r Q ↔ Q (.ok ()) (r.extend ⟨what, r.gate⟩ r.gate) := Iff.rfl

theorem ends_closing {Q : Except Fault Unit → Run → Prop} {work : Work Run Unit} :
    Ends (closing scope work) r Q ↔ Ends work r fun result r' =>
      Q result (r'.extend ⟨.over scope !result.isOk, r'.gate⟩ r'.gate) := by
  simp [closing, ends_note]

theorem next_regardless {α : Type} {ended : Except Fault Unit} {result : Except Fault α}
    {P : Run → Prop} :
    Work.Next (fun _ => ofExcept result) (fun _ r' => P r') ended r ↔ P r := by
  cases ended <;> simp

theorem Kept.not_ripe (k : r.Kept) (undue : phaseOf (underWay r.history) = .idle →
    r.gate.isDue = false) : ¬ Ripe r.history := by
  intro ripe
  have none : r.gate.suspensions = 0 := by
    rw [k.balanced, ripe.balance_eq]
  have due : r.gate.isDue = true := by
    simp [Gate.isDue, none, k.pending_of_owed ripe.owed]
  rw [undue (phaseOf_eq_idle_iff.mpr ripe.free)] at due
  cases due

theorem Kept.extend (k : r.Kept) (same : e.gate.suspensions = r.gate.suspensions)
    (alone : e.beginsReport = true →
      phaseOf (underWay r.history) = .idle ∧ r.gate.suspensions = 0 ∧ Owed r.history)
    (prompt : Prompt r.history e)
    (restored : ∀ scope byFault, e.what = .over scope byFault → ∃ a rest,
      underWay r.history = a :: rest ∧ a.scope = scope ∧ e.gate.phase = a.found.phase)
    (balanced : g.suspensions = r.gate.suspensions + e.change)
    (single : Single (follow (underWay r.history) e))
    (pending_of_owed : Owed (r.history ++ [e]) → g.pending = true)
    (owed_of_pending : absorbs (follow (underWay r.history) e) = false → g.pending = true →
      Owed (r.history ++ [e])) : (r.extend e g).Kept where
  exclusive := by
    refine throughout_append.mpr ⟨k.exclusive, ?_, ?_, restored⟩
    · intro begins
      obtain ⟨free, none, -⟩ := alone begins
      exact ⟨phaseOf_eq_idle_iff.mp free, same.trans none⟩
    · rw [same]
      exact k.balanced
  answering := throughout_append.mpr ⟨k.answering, fun begins => (alone begins).2.2⟩
  prompt := throughout_append.mpr ⟨k.prompt, prompt⟩
  balanced := by
    rw [Run.extend, balance_append, ← k.balanced]
    exact balanced
  single := by
    rw [underWay_extend]
    exact single
  pending_of_owed := pending_of_owed
  owed_of_pending := by
    rw [underWay_extend]
    exact owed_of_pending

/-- Whether requests are owed does not change with an event that is neither request nor report. -/
theorem Kept.extend_quiet (k : r.Kept) (unripe : ¬ Ripe r.history)
    (same : e.gate.suspensions = r.gate.suspensions)
    (asks : e.requests = false) (begins : e.beginsReport = false)
    (restored : ∀ scope byFault, e.what = .over scope byFault → ∃ a rest,
      underWay r.history = a :: rest ∧ a.scope = scope ∧ e.gate.phase = a.found.phase)
    (balanced : g.suspensions = r.gate.suspensions + e.change)
    (single : Single (follow (underWay r.history) e))
    (pending_of_owed : Owed r.history → g.pending = true)
    (owed_of_pending : absorbs (follow (underWay r.history) e) = false → g.pending = true →
      Owed r.history) : (r.extend e g).Kept := by
  apply k.extend same _ (fun ripe => absurd ripe unripe) restored balanced single
  · rw [owed_append_iff asks begins]
    exact pending_of_owed
  · rw [owed_append_iff asks begins]
    exact owed_of_pending
  · intro begun
    rw [begins] at begun
    cases begun

/-- An event after which the gate is in the same situation, but for its suspensions. -/
theorem Sound.extend (sound : r.Sound) (unripe : ¬ Ripe r.history) (same : e.gate = r.gate)
    (asks : e.requests = false) (begins : e.beginsReport = false)
    (restored : ∀ scope byFault, e.what = .over scope byFault → ∃ a rest,
      underWay r.history = a :: rest ∧ a.scope = scope ∧ r.gate.phase = a.found.phase)
    (alike : Alike (underWay r.history) (follow (underWay r.history) e))
    (balanced : g.suspensions = r.gate.suspensions + e.change)
    (phase_eq : g.phase = r.gate.phase) (pending_eq : g.pending = r.gate.pending) :
    (r.extend e g).Sound := by
  constructor
  · apply sound.extend_quiet unripe _ asks begins _ balanced (alike.single sound.single)
    · rw [pending_eq]
      exact sound.pending_of_owed
    · rw [pending_eq, alike.absorbs_eq]
      exact sound.owed_of_pending
    · rw [same]
    · rw [same]
      exact restored
  · rw [underWay_extend, alike.phaseOf_eq]
    exact phase_eq.trans sound.phase_eq

theorem Settled.extend (settled : r.Settled) (begins : e.beginsReport = false)
    (frees : e.frees = false)
    (less : g.phase = .idle → g.isDue = true → r.gate.phase = .idle ∧ r.gate.isDue = true) :
    (r.extend e g).Settled := by
  constructor
  · intro idle due
    obtain ⟨idle, due⟩ := less idle due
    exact escaped_append (settled.answered idle due) begins
  · exact not_ripe_append frees

theorem Advances.enclose (h : (r.extend e g).Advances r')
    (opens : follow (underWay r.history) e = a :: underWay r.history)
    (asks : e.requests = false) (begins : e.beginsReport = false) {byFault : Bool}
    (phase_eq : g'.phase = r.gate.phase) :
    r.Advances (r'.extend ⟨.over scope byFault, r'.gate⟩ g') := by
  have opened : underWay r'.history = a :: underWay r.history := by
    rw [h.underWay_eq, underWay_extend, opens]
  refine ⟨?_, phase_eq, h.scripts_le, ?_⟩
  · rw [underWay_extend, opened]
    rfl
  · intro absorbing
    have inside : absorbs (underWay (r.extend e g).history) = true := by
      rw [underWay_extend, opens, absorbs, absorbing, Bool.or_true]
    calc Owed (r'.history ++ [⟨.over scope byFault, r'.gate⟩])
        ↔ Owed r'.history := owed_append_iff rfl rfl
      _ ↔ Owed (r.history ++ [e]) := h.owed_iff inside
      _ ↔ Owed r.history := owed_append_iff asks begins

theorem Arrives.enclose (h : (r.extend e g).Arrives r') (byFault : Bool)
    (shared : a.excludes = false)
    (opens : follow (underWay r.history) e = a :: underWay r.history)
    (asks : e.requests = false) (begins : e.beginsReport = false)
    (same : a.found.phase = r.gate.phase) (phase_eq : g.phase = r.gate.phase)
    (frees : Event.frees ⟨.over a.scope byFault, r'.gate⟩ = false)
    (change : Event.change ⟨.over a.scope byFault, r'.gate⟩ = 0) :
    r.Arrives (r'.extend ⟨.over a.scope byFault, r'.gate⟩ r'.gate) := by
  have opened : underWay r'.history = a :: underWay r.history := by
    rw [h.advances.underWay_eq, underWay_extend, opens]
  have phase_eq : r'.gate.phase = r.gate.phase := h.advances.phase_eq.trans phase_eq
  constructor
  · apply h.sound.extend h.settled.unripe rfl rfl rfl _ _ _ rfl rfl
    · rintro _ _ ⟨⟩
      exact ⟨a, _, opened, rfl, phase_eq.trans same.symm⟩
    · rw [opened]
      exact alike_pop shared
    · rw [change, add_zero]
  · exact h.settled.extend rfl frees And.intro
  · exact h.advances.enclose opens asks begins phase_eq

theorem Arrives.plain (h : r.Arrives r') (plain : what.isPlain = true) :
    r.Arrives (r'.extend ⟨what, r'.gate⟩ r'.gate) := by
  have same : follow (underWay r'.history) ⟨what, r'.gate⟩ = underWay r'.history := by
    revert plain
    cases what with
    | passed mark => cases mark <;> simp [Happening.isPlain, follow]
    | _ => simp [Happening.isPlain, follow]
  have asks : Event.requests ⟨what, r'.gate⟩ = false := by
    revert plain
    cases what <;> simp [Happening.isPlain, Event.requests]
  have begins : Event.beginsReport ⟨what, r'.gate⟩ = false := by
    revert plain
    cases what with
    | passed mark => cases mark <;> simp [Happening.isPlain, Event.beginsReport]
    | _ => simp [Event.beginsReport]
  have frees : Event.frees ⟨what, r'.gate⟩ = false := by
    revert plain
    cases what <;> simp [Happening.isPlain, Event.frees]
  have change : Event.change ⟨what, r'.gate⟩ = 0 := by
    revert plain
    cases what with
    | passed mark => cases mark <;> simp [Happening.isPlain, Event.change]
    | _ => simp [Happening.isPlain, Event.change]
  apply h.trans
  constructor
  · apply h.sound.extend h.settled.unripe rfl asks begins _ _ _ rfl rfl
    · rintro scope byFault rfl
      cases plain
    · rw [same]
      exact .refl _
    · rw [change, add_zero]
  · exact h.settled.extend begins frees And.intro
  · refine ⟨?_, rfl, Nat.le_refl _, fun _ => owed_append_iff asks begins⟩
    rw [underWay_extend, same]

structure Reported (r : Run) (result : Except Fault Unit) (r' : Run) : Prop where
  kept : r'.Kept
  phase_eq : r'.gate.phase = .reporting
  underWay_eq : underWay r'.history = underWay r.history
  unripe : ¬ Ripe r'.history
  scripts_le : r'.scripts.length ≤ r.scripts.length
  spent : r'.scripts.length < r.scripts.length ∨ r'.gate.pending = false
  escaped : result.isOk = false → Escaped r'.history

/-- Reports with scripts for no more than this keep the invariants. -/
def Answers (depth : Nat) (report : Work Run Unit) : Prop :=
  ∀ r : Run, r.Kept → r.gate.phase = .reporting → phaseOf (underWay r.history) = .idle →
    r.gate.isDue = true → r.scripts.length ≤ depth →
    Ends report { r with gate := { r.gate with pending := false } } r.Reported

def Steady (depth : Nat) (work : Work Run Unit) : Prop :=
  ∀ r : Run, r.Sound → r.Settled → r.scripts.length ≤ depth →
    Ends work r fun _ r' => r.Arrives r'

structure Delivered (r : Run) (result : Except Fault Unit) (r' : Run) : Prop where
  kept : r'.Kept
  phase_eq : r'.gate.phase = .reporting
  underWay_eq : underWay r'.history = underWay r.history
  unripe : ¬ Ripe r'.history
  scripts_le : r'.scripts.length ≤ r.scripts.length
  rested : result.isOk = true → r'.gate.isDue = false
  escaped : result.isOk = false → Escaped r'.history

variable {report : Work Run Unit}

theorem delivered_refl (kept : r.Kept) (phase_eq : r.gate.phase = .reporting)
    (rested : r.gate.isDue = false) : r.Delivered (.ok ()) r := by
  refine ⟨kept, phase_eq, rfl, kept.not_ripe fun _ => rested, Nat.le_refl _, fun _ => rested, ?_⟩
  intro failed
  cases failed

theorem ends_reportWhileDue (answers : Answers depth report) (rounds : Nat) :
    ∀ r : Run, r.Kept → r.gate.phase = .reporting → phaseOf (underWay r.history) = .idle →
      r.scripts.length ≤ depth → (r.gate.isDue = true → r.scripts.length < rounds) →
      Ends (Gate.reportWhileDue report rounds) r r.Delivered := by
  induction rounds with
  | zero =>
    intro r kept phase_eq free few enough
    apply delivered_refl kept phase_eq
    rw [← Bool.not_eq_true]
    intro due
    exact Nat.not_lt_zero _ (enough due)
  | succ rounds ih =>
    intro r kept phase_eq free few enough
    rw [Gate.reportWhileDue, Work.ends_bind, ends_read, Work.next_ok]
    cases due : r.gate.isDue with
    | false =>
      rw [if_neg Bool.false_ne_true]
      exact delivered_refl kept phase_eq due
    | true =>
      rw [if_pos rfl, Work.ends_bind, ends_change, Work.next_ok]
      apply (answers r kept phase_eq free due few).bind
      · intro _ r₁ h₁
        have enough₁ : r₁.gate.isDue = true → r₁.scripts.length < rounds := by
          intro due₁
          rcases h₁.spent with less | idle
          · have := enough due
            omega
          · rw [Gate.pending_of_isDue due₁] at idle
            cases idle
        have free₁ : phaseOf (underWay r₁.history) = .idle := by
          rw [h₁.underWay_eq]
          exact free
        refine (ih r₁ h₁.kept h₁.phase_eq free₁ (Nat.le_trans h₁.scripts_le few) enough₁).mono ?_
        intro result r₂ h₂
        exact ⟨h₂.kept, h₂.phase_eq, h₂.underWay_eq.trans h₁.underWay_eq, h₂.unripe,
          Nat.le_trans h₂.scripts_le h₁.scripts_le, h₂.rested, h₂.escaped⟩
      · intro fault r₁ h₁
        refine ⟨h₁.kept, h₁.phase_eq, h₁.underWay_eq, h₁.unripe, h₁.scripts_le, ?_, h₁.escaped⟩
        intro ok
        cases ok

theorem Kept.phased (k : r.Kept) (phase : Phase) :
    Kept { r with gate := { r.gate with phase := phase } } :=
  ⟨k.exclusive, k.answering, k.prompt, k.balanced, k.single, k.pending_of_owed, k.owed_of_pending⟩

theorem ends_flush (answers : Answers depth report) (sound : r.Sound)
    (few : r.scripts.length ≤ depth) :
    Ends (Gate.flush report) r fun _ r' => r.Arrives r' := by
  by_cases due : r.gate.isDue = true ∧ r.gate.phase = .idle
  · apply (Gate.ends_flush_of_due due.1 due.2).mpr
    have free : phaseOf (underWay r.history) = .idle := by
      rw [← sound.phase_eq]
      exact due.2
    refine (ends_reportWhileDue answers _ _ (sound.phased .reporting) rfl free few ?_).mono ?_
    · intro _
      exact Nat.lt_succ_self _
    · intro result r₁ h₁
      refine ⟨⟨h₁.kept.phased .idle, ?_⟩, ⟨?_, h₁.unripe⟩, ?_⟩
      · change Phase.idle = phaseOf (underWay r₁.history)
        rw [h₁.underWay_eq]
        exact free.symm
      · intro _ due₁
        cases result with
        | ok _ =>
          have rested : r₁.gate.isDue = false := h₁.rested rfl
          change r₁.gate.isDue = true at due₁
          rw [rested] at due₁
          cases due₁
        | error fault => exact h₁.escaped rfl
      · refine ⟨h₁.underWay_eq, due.2.symm, h₁.scripts_le, ?_⟩
        intro absorbing
        rw [absorbs_of_idle free] at absorbing
        cases absorbing
  · rw [Gate.ends_flush_of_not due]
    have undue : r.gate.phase = .idle → r.gate.isDue = false := by
      intro idle
      rw [← Bool.not_eq_true]
      intro due'
      exact due ⟨due', idle⟩
    apply arrives_refl sound
    constructor
    · intro idle due'
      exact absurd ⟨due', idle⟩ due
    · apply sound.not_ripe
      rw [← sound.phase_eq]
      exact undue

theorem Steady.bind {work next : Work Run Unit} (h : Steady depth work) (h' : Steady depth next) :
    Steady depth (work >>= fun _ => next) := by
  intro r sound settled few
  apply (h r sound settled few).bind
  · intro _ r₁ h₁
    refine (h' r₁ h₁.sound h₁.settled (Nat.le_trans h₁.advances.scripts_le few)).mono ?_
    intro _ r₂ h₂
    exact h₁.trans h₂
  · intro _ r₁ h₁
    exact h₁

end Run
end Update
end GrammarWorkspace
