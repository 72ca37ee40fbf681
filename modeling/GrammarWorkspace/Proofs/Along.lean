import GrammarWorkspace.Proofs.Ending
import GrammarWorkspace.Update.Gate
import Mathlib.Order.Defs.Unbundled

/-!
# Work along a relation

A relation between states that goes on is followed by work from wherever it begins, if it is
followed by each of its parts: whatever they come to, and be they given up at a fault.
-/
namespace GrammarWorkspace

open Work (Ends)

namespace Work

variable {σ α β : Type} {R : σ → σ → Prop}

def Along (R : σ → σ → Prop) (work : Work σ α) : Prop := ∀ s, Ends work s fun _ s' => R s s'

variable [IsPreorder σ R]

theorem along_pure (a : α) : Along R (pure a : Work σ α) := fun s => refl_of R s

theorem along_throw (fault : Fault) : Along R (throw fault : Work σ α) := fun s => refl_of R s

theorem along_ofExcept (r : Except Fault α) : Along R (ofExcept r : Work σ α) := by
  intro s
  rw [ends_ofExcept]
  exact refl_of R s

theorem Along.bind {work : Work σ α} {next : α → Work σ β} (h : Along R work)
    (hn : ∀ a, Along R (next a)) : Along R (work >>= next) := by
  intro s
  apply (h s).bind
  · intro a s' h'
    exact (hn a s').mono fun _ _ h'' => trans_of R h' h''
  · intro _ _ h'
    exact h'

omit [IsPreorder σ R] in
theorem along_get_bind {next : σ → Work σ β} (h : ∀ s, Ends (next s) s fun _ s' => R s s') :
    Along R (get >>= next) := by
  intro s
  rw [ends_bind]
  exact h s

omit [IsPreorder σ R] in
theorem Along.get_bind {next : σ → Work σ β} (h : ∀ s, Along R (next s)) :
    Along R (get >>= next) := along_get_bind fun s => h s s

omit [IsPreorder σ R] in
theorem Along.quietly {work : Work σ Unit} (h : Along R work) : Along R work.quietly := by
  intro s
  rw [ends_quietly]
  exact h s

theorem along_forM (all : List α) {body : α → Work σ Unit} (h : ∀ a, Along R (body a)) :
    Along R (all.forM body) := by
  induction all with
  | nil => exact along_pure ()
  | cons a rest ih => exact (h a).bind fun _ => ih

theorem along_mapM (all : List α) {body : α → Work σ β} (h : ∀ a, Along R (body a)) :
    Along R (all.mapM body) := by
  induction all with
  | nil => exact along_pure []
  | cons a rest ih =>
    rw [List.mapM_cons]
    exact (h a).bind fun _ => ih.bind fun _ => along_pure _

omit [IsPreorder σ R] in
theorem Along.mono {R' : σ → σ → Prop} {work : Work σ α} (h : Along R work)
    (wide : ∀ s s', R s s' → R' s s') : Along R' work := fun s => (h s).mono fun _ => wide s

def Keeping (P : σ → Prop) (R : σ → σ → Prop) (s s' : σ) : Prop := P s → P s' ∧ R s s'

instance (P : σ → Prop) : IsPreorder σ (Keeping P R) where
  refl s h := ⟨h, refl_of R s⟩
  trans _ _ _ h h' hs :=
    ⟨(h' (h hs).1).1, trans_of R (h hs).2 (h' (h hs).1).2⟩

omit [IsPreorder σ R] in
theorem along_keeping_of {P : σ → Prop} {work : Work σ α}
    (h : ∀ s, P s → Ends work s fun _ s' => P s' ∧ R s s') : Along (Keeping P R) work := h

def Stays (P : σ → Prop) (s s' : σ) : Prop := P s → P s'

instance (P : σ → Prop) : IsPreorder σ (Stays P) where
  refl _ := id
  trans _ _ _ h h' := h' ∘ h

omit [IsPreorder σ R] in
theorem along_stays_of {P : σ → Prop} {work : Work σ α} (h : ∀ s, P s → Ends work s fun _ s' => P s') :
    Along (Stays P) work := h

structure Inside (A T : σ → σ → Prop) : Prop where
  widen : ∀ {s s'}, A s s' → T s s'
  before : ∀ {s s' s''}, A s s' → T s' s'' → T s s''
  after : ∀ {s s' s''}, T s s' → A s' s'' → T s s''

theorem Inside.self : Inside R R := ⟨id, fun h h' => trans_of R h h', fun h h' => trans_of R h h'⟩

omit [IsPreorder σ R] in
theorem Inside.bind_before {A T : σ → σ → Prop} (inside : Inside A T) {work : Work σ α}
    {next : α → Work σ β} (h : Along A work) (hn : ∀ a, Along T (next a)) :
    Along T (work >>= next) := by
  intro s
  apply (h s).bind
  · intro a s' h'
    exact (hn a s').mono fun _ _ h'' => inside.before h' h''
  · intro _ _ h'
    exact inside.widen h'

omit [IsPreorder σ R] in
theorem Inside.bind_after {A T : σ → σ → Prop} (inside : Inside A T) {work : Work σ α}
    {next : α → Work σ β} (h : Along T work) (hn : ∀ a, Along A (next a)) :
    Along T (work >>= next) := by
  intro s
  apply (h s).bind
  · intro a s' h'
    exact (hn a s').mono fun _ _ h'' => inside.after h' h''
  · intro _ _ h'
    exact h'

omit [IsPreorder σ R] in
theorem Inside.ensuring {A T : σ → σ → Prop} (inside : Inside A T) {work : Work σ α} {cleanup : Work σ Unit}
    (h : Along T work) (hc : Along A cleanup) : Along T (work.ensuring cleanup) := by
  intro s
  rw [ends_ensuring]
  refine (h s).mono fun r s' h' => (hc s').mono fun r' s'' h'' => ?_
  have both : T s s'' := inside.after h' h''
  cases r' with
  | error _ => exact both
  | ok _ =>
    rw [next_ok, ends_ofExcept]
    exact both

theorem Along.ensuring {work : Work σ α} {cleanup : Work σ Unit} (h : Along R work)
    (hc : Along R cleanup) : Along R (work.ensuring cleanup) := Inside.self.ensuring h hc

end Work

namespace Bus

variable {ι σ : Type} {R : σ → σ → Prop} [IsPreorder σ R]

theorem along_deliver {call : ι → Work σ Unit} (h : ∀ l, Work.Along R (call l)) (listeners : List ι) :
    Work.Along R (deliver call listeners) := by
  induction listeners with
  | nil => exact Work.along_pure ()
  | cons l rest ih => exact (h l).quietly.bind fun _ => ih

end Bus

namespace Gate

variable {σ α : Type} [HasGate σ] {R : σ → σ → Prop} [IsPreorder σ R] {report : Work σ Unit}

def Ignored (R : σ → σ → Prop) : Prop := ∀ f : Gate → Gate, Work.Along R (change f : Work σ Unit)

variable (ignored : Ignored R) (reports : Work.Along R report)

theorem along_read : Work.Along R (read : Work σ Gate) := .get_bind fun _ => Work.along_pure _

include ignored reports

theorem along_reportWhileDue (rounds : Nat) : Work.Along R (reportWhileDue report rounds) := by
  induction rounds with
  | zero => exact Work.along_pure ()
  | succ rounds ih =>
    refine along_read.bind fun g => ?_
    split
    · exact (ignored _).bind fun _ => reports.bind fun _ => ih
    · exact Work.along_pure ()

theorem along_flush : Work.Along R (flush report) := by
  refine along_read.bind fun g => ?_
  split
  · refine (ignored _).bind fun _ => .get_bind fun s => ?_
    exact (along_reportWhileDue ignored reports _).ensuring (ignored _)
  · exact Work.along_pure ()

theorem along_request : Work.Along R (request report) :=
  (ignored _).bind fun _ => along_flush ignored reports

theorem along_resume : Work.Along R (resume report) := by
  refine along_read.bind fun g => ?_
  split
  · exact (ignored _).bind fun _ => along_flush ignored reports
  · exact Work.along_pure ()

theorem along_suspended {work : Work σ α} (h : Work.Along R work) :
    Work.Along R (suspended report work) :=
  (ignored _).bind fun _ => h.ensuring (along_resume ignored reports)

theorem along_rebuilding {work : Work σ α} (h : Work.Along R work) :
    Work.Along R (rebuilding report work) :=
  along_read.bind fun _ => (ignored _).bind fun _ => (h.ensuring (ignored _)).bind fun _ =>
    (along_flush ignored reports).bind fun _ => Work.along_pure _

omit [IsPreorder σ R] in
/-- Of the gate the relation looks at nothing but the phase, and it does not mind another phase in
between. -/
structure Phased (R : σ → σ → Prop) : Prop where
  noted : ∀ (s : σ) (g : Gate), g.phase = (HasGate.gate s).phase → R s (HasGate.setGate g s)
  visited : ∀ {s s' : σ} (phase : Phase) (g : Gate),
    R (HasGate.setGate { HasGate.gate s with phase := phase } s) s' →
      g.phase = (HasGate.gate s).phase → R s (HasGate.setGate g s')

variable (phased : Phased R)

omit ignored reports [IsPreorder σ R] in
include phased in
theorem along_pending (pending : Bool) :
    Work.Along R (change ({ · with pending := pending }) : Work σ Unit) :=
  fun s => phased.noted s _ rfl

omit ignored in
include phased in
theorem along_flush_phased : Work.Along R (flush report) := by
  have rounds_along (rounds : Nat) : Work.Along R (reportWhileDue report rounds) := by
    induction rounds with
    | zero => exact Work.along_pure ()
    | succ rounds ih =>
      refine along_read.bind fun g => ?_
      split
      · exact (along_pending phased _).bind fun _ => reports.bind fun _ => ih
      · exact Work.along_pure ()
  intro s
  rw [flush, Work.ends_bind, read, Work.ends_bind, Work.ends_get, Work.next_ok, Work.ends_pure,
    Work.next_ok]
  split
  · rename_i due
    rw [Work.ends_bind, change, Work.ends_modify, Work.next_ok, Work.ends_bind, Work.ends_get,
      Work.next_ok, Work.ends_ensuring]
    refine (rounds_along _ _).mono fun r s' h' => ?_
    rw [change, Work.ends_modify, Work.next_ok, Work.ends_ofExcept]
    exact phased.visited .reporting _ h' due.2.2.symm
  · exact refl_of R s

omit ignored in
include phased in
theorem along_request_phased : Work.Along R (request report) :=
  (along_pending phased _).bind fun _ => along_flush_phased reports phased

omit ignored in
include phased in
/-- What rebuilds has to follow the relation only where a rebuild is under way. -/
theorem along_rebuilding_phased {work : Work σ α}
    (h : ∀ s, (HasGate.gate s).phase = .rebuilding → Ends work s fun _ s' => R s s') :
    Work.Along R (rebuilding report work) := by
  intro s
  rw [rebuilding, Work.ends_bind, read, Work.ends_bind, Work.ends_get, Work.next_ok, Work.ends_pure,
    Work.next_ok, Work.ends_bind, change, Work.ends_modify, Work.next_ok, Work.ends_bind,
    Work.ends_ensuring]
  refine (h _ (by rw [HasGate.gate_setGate])).mono fun r s' h' => ?_
  rw [change, Work.ends_modify, Work.next_ok, Work.ends_ofExcept]
  have left : R s _ := phased.visited .rebuilding
    { HasGate.gate s' with
      phase := (HasGate.gate s).phase
      pending := if (HasGate.gate s).phase = .reporting then (HasGate.gate s).pending
        else (HasGate.gate s').pending } h' rfl
  cases r with
  | error fault => exact left
  | ok a =>
    rw [Work.next_ok, Work.ends_bind]
    refine (along_flush_phased reports phased _).mono fun r s'' h'' => ?_
    have both : R s s'' := trans_of R left h''
    cases r <;> exact both

end Gate
end GrammarWorkspace
