import GrammarWorkspace.Bus.Basic
import GrammarWorkspace.Update.Gate

/-!
# How work ends

`Ends work s Q` says of one run of some work what holds of its outcome and of the state it leaves,
be the outcome a result or a fault. There is one rule for each way of putting work together.
-/
namespace GrammarWorkspace.Work

variable {σ α β : Type} {s : σ} {Q : Except Fault α → σ → Prop}

def Ends (work : Work σ α) (s : σ) (Q : Except Fault α → σ → Prop) : Prop :=
  Q (work.run.run s).1 (work.run.run s).2

theorem Ends.mono {work : Work σ α} {Q' : Except Fault α → σ → Prop} (h : Ends work s Q)
    (hq : ∀ r s', Q r s' → Q' r s') : Ends work s Q' := hq _ _ h

theorem Ends.and {work : Work σ α} {Q' : Except Fault α → σ → Prop} (h : Ends work s Q)
    (h' : Ends work s Q') : Ends work s fun r s' => Q r s' ∧ Q' r s' := ⟨h, h'⟩

@[simp] theorem ends_pure (a : α) : Ends (pure a) s Q ↔ Q (.ok a) s := Iff.rfl

@[simp] theorem ends_throw (fault : Fault) : Ends (throw fault) s Q ↔ Q (.error fault) s := Iff.rfl

@[simp] theorem ends_get {Q : Except Fault σ → σ → Prop} :
    Ends (get : Work σ σ) s Q ↔ Q (.ok s) s := Iff.rfl

@[simp] theorem ends_set {Q : Except Fault PUnit → σ → Prop} (s' : σ) :
    Ends (set s' : Work σ PUnit) s Q ↔ Q (.ok ()) s' := Iff.rfl

@[simp] theorem ends_modify {Q : Except Fault PUnit → σ → Prop} (f : σ → σ) :
    Ends (modify f : Work σ PUnit) s Q ↔ Q (.ok ()) (f s) := Iff.rfl

@[simp] theorem ends_ofExcept (r : Except Fault α) : Ends (ofExcept r : Work σ α) s Q ↔ Q r s := by
  cases r <;> exact Iff.rfl

def Next (next : α → Work σ β) (Q : Except Fault β → σ → Prop) : Except Fault α → σ → Prop
  | .ok a, s => Ends (next a) s Q
  | .error fault, s => Q (.error fault) s

@[simp] theorem next_ok (next : α → Work σ β) (Q : Except Fault β → σ → Prop) (a : α) :
    Next next Q (.ok a) s ↔ Ends (next a) s Q := Iff.rfl

@[simp] theorem next_error (next : α → Work σ β) (Q : Except Fault β → σ → Prop)
    (fault : Fault) : Next next Q (.error fault) s ↔ Q (.error fault) s := Iff.rfl

@[simp] theorem ends_bind {Q : Except Fault β → σ → Prop} (work : Work σ α)
    (next : α → Work σ β) : Ends (work >>= next) s Q ↔ Ends work s (Next next Q) := by
  have run_bind : (work >>= next).run.run s =
      match work.run.run s with
      | (.ok a, s') => (next a).run.run s'
      | (.error fault, s') => (.error fault, s') := by
    change (ExceptT.bindCont next ((work.run.run s).1)).run (work.run.run s).2 = _
    rcases work.run.run s with ⟨_ | _, _⟩ <;> rfl
  unfold Ends
  rw [run_bind]
  rcases work.run.run s with ⟨_ | _, _⟩ <;> exact Iff.rfl

@[simp] theorem ends_map {Q : Except Fault β → σ → Prop} (work : Work σ α) (f : α → β) :
    Ends (f <$> work) s Q ↔ Ends work s fun r s' => Q (r.map f) s' := by
  have : f <$> work = work >>= fun a => pure (f a) := (bind_pure_comp f work).symm
  rw [this, ends_bind]
  unfold Ends
  rcases work.run.run s with ⟨_ | _, _⟩ <;> exact Iff.rfl

@[simp] theorem ends_outcome {Q : Except Fault (Except Fault α) → σ → Prop} (work : Work σ α) :
    Ends work.outcome s Q ↔ Ends work s fun r s' => Q (.ok r) s' := Iff.rfl

@[simp] theorem ends_quietly {Q : Except Fault Unit → σ → Prop} (work : Work σ Unit) :
    Ends work.quietly s Q ↔ Ends work s fun _ s' => Q (.ok ()) s' := Iff.rfl

@[simp] theorem ends_ensuring (work : Work σ α) (cleanup : Work σ Unit) :
    Ends (work.ensuring cleanup) s Q ↔
      Ends work s fun r s' => Ends cleanup s' (Next (fun _ => ofExcept r) Q) := by
  simp [Work.ensuring, Next]

theorem Ends.bind {work : Work σ α} {next : α → Work σ β} {P : Except Fault α → σ → Prop}
    {Q : Except Fault β → σ → Prop} (h : Ends work s P)
    (ok : ∀ a s', P (.ok a) s' → Ends (next a) s' Q)
    (error : ∀ fault s', P (.error fault) s' → Q (.error fault) s') : Ends (work >>= next) s Q := by
  rw [ends_bind]
  refine h.mono fun r s' hr => ?_
  cases r with
  | ok a => exact ok a s' hr
  | error fault => exact error fault s' hr

/-- Rule for loops that come to an end: an invariant over the part of the list that is done. -/
theorem ends_forM {I : List α → σ → Prop} (body : α → Work σ PUnit) (all : List α) (h : I [] s)
    (keep : ∀ done a rest, all = done ++ a :: rest → ∀ s', I done s' →
      Ends (body a) s' fun r s'' => r = .ok () ∧ I (done ++ [a]) s'') :
    Ends (all.forM body) s fun r s' => r = .ok () ∧ I all s' := by
  suffices onward : ∀ rest done, all = done ++ rest → ∀ s', I done s' →
      Ends (rest.forM body) s' fun r s'' => r = .ok () ∧ I all s'' from onward all [] rfl s h
  intro rest
  induction rest with
  | nil =>
    intro done hd s' h'
    rw [List.append_nil] at hd
    exact ⟨rfl, hd ▸ h'⟩
  | cons a rest ih =>
    intro done hd s' h'
    refine Ends.bind (keep done a rest hd s' h') (fun _ s'' h'' => ?_) fun _ _ h'' => by cases h''.1
    exact ih (done ++ [a]) (by rw [hd, List.append_assoc]; rfl) s'' h''.2

end Work

namespace Bus

variable {ι σ : Type} {s : σ}

/-- Delivery never fails, and what each call adds comes together, with an invariant over the listeners
that have been called. -/
theorem ends_deliver_each {I : List ι → σ → Prop} (call : ι → Work σ Unit) (listeners : List ι) (h : I [] s)
    (keep : ∀ done l rest, listeners = done ++ l :: rest → ∀ s', I done s' →
      (call l).Ends s' fun _ s'' => I (done ++ [l]) s'') :
    (deliver call listeners).Ends s fun r s' => r = .ok () ∧ I listeners s' := by
  suffices onward : ∀ rest done, listeners = done ++ rest → ∀ s', I done s' →
      (deliver call rest).Ends s' fun r s'' => r = .ok () ∧ I listeners s'' from
    onward listeners [] rfl s h
  intro rest
  induction rest with
  | nil =>
    intro done hd s' h'
    rw [List.append_nil] at hd
    exact ⟨rfl, hd ▸ h'⟩
  | cons l rest ih =>
    intro done hd s' h'
    rw [deliver, Work.ends_bind, Work.ends_quietly]
    refine (keep done l rest hd s' h').mono fun _ s'' h'' => ?_
    exact ih (done ++ [l]) (by rw [hd, List.append_assoc]; rfl) s'' h''

theorem ends_deliver {I : σ → Prop} (call : ι → Work σ Unit) (listeners : List ι) (h : I s)
    (keep : ∀ l ∈ listeners, ∀ s', I s' → (call l).Ends s' fun _ s'' => I s'') :
    (deliver call listeners).Ends s fun r s' => r = .ok () ∧ I s' := by
  apply ends_deliver_each (I := fun _ => I) call listeners h
  intro done l rest hd
  apply keep
  rw [hd]
  exact List.mem_append_right _ List.mem_cons_self

end Bus

namespace Gate

variable {σ : Type} [HasGate σ] {s : σ} {report : Work σ Unit} {Q : Except Fault Unit → σ → Prop}

theorem ends_reportWhileDue_of_not (still : ¬ (HasGate.gate s).isDue = true) (rounds : Nat) :
    (reportWhileDue report rounds).Ends s Q ↔ Q (.ok ()) s := by
  cases rounds with
  | zero => exact Iff.rfl
  | succ rounds =>
    rw [reportWhileDue, read, Work.ends_bind, Work.ends_bind, Work.ends_get, Work.next_ok,
      Work.ends_pure, Work.next_ok, if_neg still, Work.ends_pure]

theorem ends_reportWhileDue_of_due (due : (HasGate.gate s).isDue = true) (rounds : Nat) :
    (reportWhileDue report (rounds + 1)).Ends s Q ↔
      report.Ends (HasGate.setGate { HasGate.gate s with pending := false } s)
        (Work.Next (fun _ => reportWhileDue report rounds) Q) := by
  rw [reportWhileDue, read, Work.ends_bind, Work.ends_bind, Work.ends_get, Work.next_ok,
    Work.ends_pure, Work.next_ok, if_pos due, Work.ends_bind, change, Work.ends_modify, Work.next_ok,
    Work.ends_bind]

theorem opens_of_isDue {g : Gate} (due : g.isDue = true) (phase : g.phase = .idle) :
    g.pending = true ∧ ¬ g.isSuspended = true ∧ g.phase = .idle := by
  simp only [isDue, Bool.and_eq_true, beq_iff_eq] at due
  simp [isSuspended, due, phase]

/-- Nothing is reported while no request is due or something else is under way. -/
theorem ends_flush_of_not (shut : ¬ ((HasGate.gate s).isDue = true ∧ (HasGate.gate s).phase = .idle)) :
    (flush report).Ends s Q ↔ Q (.ok ()) s := by
  rw [flush, read, Work.ends_bind, Work.ends_bind, Work.ends_get, Work.next_ok, Work.ends_pure,
    Work.next_ok]
  split
  · -- With less than no suspension the loop has nothing to do, and the phase is set back.
    rename_i opened
    have idle : (HasGate.gate s).phase = .idle := opened.2.2
    have still : ¬ (HasGate.gate (HasGate.setGate { HasGate.gate s with phase := .reporting } s)).isDue = true := by
      rw [HasGate.gate_setGate]
      exact fun due => shut ⟨due, idle⟩
    have back : HasGate.setGate { HasGate.gate (HasGate.setGate { HasGate.gate s with phase := .reporting } s) with
        phase := .idle } (HasGate.setGate { HasGate.gate s with phase := .reporting } s) = s := by
      rw [HasGate.setGate_setGate, HasGate.gate_setGate, ← idle, HasGate.setGate_gate]
    rw [Work.ends_bind, change, Work.ends_modify, Work.next_ok, Work.ends_bind, Work.ends_get, Work.next_ok,
      Work.ends_ensuring, ends_reportWhileDue_of_not still, change, Work.ends_modify, Work.next_ok, Work.ends_ofExcept,
      back]
  · rw [Work.ends_pure]

theorem ends_flush_of_due (due : (HasGate.gate s).isDue = true) (phase : (HasGate.gate s).phase = .idle) :
    (flush report).Ends s Q ↔
      (reportWhileDue report (HasGate.restless s + 1)).Ends
        (HasGate.setGate { HasGate.gate s with phase := .reporting } s)
        fun r s' => Q r (HasGate.setGate { HasGate.gate s' with phase := .idle } s') := by
  rw [flush, read, Work.ends_bind, Work.ends_bind, Work.ends_get, Work.next_ok, Work.ends_pure,
    Work.next_ok, if_pos (opens_of_isDue due phase), Work.ends_bind, change, Work.ends_modify, Work.next_ok,
    Work.ends_bind, Work.ends_get, Work.next_ok, Work.ends_ensuring, HasGate.restless_setGate]
  simp only [change, Work.ends_modify, Work.next_ok, Work.ends_ofExcept]

/-- If a report makes no request of its own, one report answers all that have been noted. -/
theorem ends_flush_once (due : (HasGate.gate s).isDue = true)
    (phase : (HasGate.gate s).phase = .idle)
    (h : report.Ends (HasGate.setGate { HasGate.gate s with phase := .reporting, pending := false } s)
      fun r s' => r = .ok () ∧
        HasGate.gate s' = { HasGate.gate s with phase := .reporting, pending := false } ∧
        Q (.ok ()) (HasGate.setGate { HasGate.gate s with phase := .idle, pending := false } s')) :
    (flush report).Ends s Q := by
  have inside : (HasGate.gate (HasGate.setGate { HasGate.gate s with phase := .reporting } s)).isDue = true := by
    rw [HasGate.gate_setGate]
    exact due
  rw [ends_flush_of_due due phase, ends_reportWhileDue_of_due inside, HasGate.gate_setGate, HasGate.setGate_setGate]
  refine h.mono ?_
  rintro r s' ⟨rfl, gate, kept⟩
  have settled : ¬ (HasGate.gate s').isDue = true := by
    rw [gate]
    exact Bool.false_ne_true
  rw [Work.next_ok, ends_reportWhileDue_of_not settled, gate]
  exact kept

end Gate
end GrammarWorkspace
