import GrammarWorkspace.Proofs.Along

/-!
# Work that agrees

Two pieces of work agree from some states if they come to the same outcome and the same state. They
do so if their parts do, as long as each part ends in states from which the next ones agree.
-/
namespace GrammarWorkspace

open Work (Ends Along Stays)

namespace Work

variable {σ α β : Type} {s : σ} {P P' Q Q' R : σ → Prop} {work work' : Work σ α}
  {next next' : α → Work σ β}

def Agree (P Q : σ → Prop) (work work' : Work σ α) : Prop :=
  ∀ s, P s → work'.run.run s = work.run.run s ∧ Ends work s fun _ s' => Q s'

theorem run_eq_of_ends (h : ∀ Q, Ends work s Q → Ends work' s Q) : work'.run.run s = work.run.run s :=
  h (fun r s' => (r, s') = work.run.run s) rfl

theorem ends_of_run_eq {Q : Except Fault α → σ → Prop} (same : work'.run.run s = work.run.run s)
    (h : Ends work s Q) : Ends work' s Q := by
  unfold Ends
  rw [same]
  exact h

theorem Agree.refl (h : ∀ s, P s → Ends work s fun _ s' => Q s') : Agree P Q work work :=
  fun s hs => ⟨rfl, h s hs⟩

theorem Agree.of_along (h : Along (Stays P) work) : Agree P P work work := .refl h

theorem Agree.mono (h : Agree P Q work work') (pre : ∀ s, P' s → P s) (post : ∀ s, Q s → Q' s) :
    Agree P' Q' work work' := fun s hs =>
  ⟨(h s (pre s hs)).1, (h s (pre s hs)).2.mono fun _ s' => post s'⟩

theorem Agree.trans {work'' : Work σ α} (h : Agree P Q work work') (h' : Agree P Q work' work'') :
    Agree P Q work work'' := fun s hs => ⟨(h' s hs).1.trans (h s hs).1, (h s hs).2⟩

theorem Agree.bind (h : Agree P Q work work') (hn : ∀ a, Agree Q R (next a) (next' a))
    (failed : ∀ s, Q s → R s) : Agree P R (work >>= next) (work' >>= next') := by
  intro s hs
  obtain ⟨same, stays⟩ := h s hs
  constructor
  · apply run_eq_of_ends
    intro S both
    rw [ends_bind] at both ⊢
    refine ends_of_run_eq same ((stays.and both).mono fun r s' h' => ?_)
    cases r with
    | ok a => exact ends_of_run_eq (hn a s' h'.1).1 h'.2
    | error fault => exact h'.2
  · exact stays.bind (fun a s' hs' => (hn a s' hs').2) fun _ s' hs' => failed s' hs'

theorem Agree.then (h : Agree P P work work') (hn : ∀ a, Agree P P (next a) (next' a)) :
    Agree P P (work >>= next) (work' >>= next') := h.bind hn fun _ => id

theorem Along.then_agree (h : Along (Stays P) work) (hn : ∀ a, Agree P P (next a) (next' a)) :
    Agree P P (work >>= next) (work >>= next') := (Agree.of_along h).then hn

/-- The first part is the same, and what comes after it agrees where that leads. -/
theorem Agree.bind_of_ends (h : ∀ s, P s → Ends work s fun r s' =>
      (∀ fault, r = .error fault → Q s') ∧ ∀ a, r = .ok a → Agree (· = s') Q (next a) (next' a)) :
    Agree P Q (work >>= next) (work >>= next') := by
  intro s hs
  constructor
  · apply run_eq_of_ends
    intro S both
    rw [ends_bind] at both ⊢
    refine ((h s hs).and both).mono fun r s' h' => ?_
    cases r with
    | ok a => exact ends_of_run_eq (h'.1.2 a rfl s' rfl).1 h'.2
    | error fault => exact h'.2
  · rw [ends_bind]
    refine (h s hs).mono fun r s' h' => ?_
    cases r with
    | ok a => exact (h'.2 a rfl s' rfl).2
    | error fault => exact h'.1 fault rfl

theorem Agree.get_bind {next next' : σ → Work σ β}
    (h : ∀ s, P s → Agree (· = s) Q (next s) (next' s)) : Agree P Q (get >>= next) (get >>= next') := by
  refine .bind_of_ends fun s hs => ?_
  rw [ends_get]
  refine ⟨fun _ failed => (by cases failed), fun _ same => ?_⟩
  cases same
  exact h s hs

theorem Agree.look {next next' : σ → Work σ β} (h : ∀ s, P s → Agree P Q (next s) (next' s)) :
    Agree P Q (get >>= next) (get >>= next') :=
  .get_bind fun s hs => (h s hs).mono (fun _ here => here ▸ hs) fun _ => id

theorem Agree.set_bind {s' : σ} {next next' : PUnit → Work σ β} (hs : Q s')
    (h : Agree Q R (next ()) (next' ())) : Agree P R (set s' >>= next) (set s' >>= next') := by
  refine .bind_of_ends fun s _ => ?_
  rw [ends_set]
  exact ⟨fun _ failed => (by cases failed), fun _ _ => h.mono (fun _ here => here ▸ hs) fun _ => id⟩

theorem Agree.quietly {work work' : Work σ Unit} (h : Agree P Q work work') :
    Agree P Q work.quietly work'.quietly := by
  intro s hs
  obtain ⟨same, stays⟩ := h s hs
  constructor
  · apply run_eq_of_ends
    intro S both
    rw [ends_quietly] at both ⊢
    exact ends_of_run_eq same both
  · rw [ends_quietly]
    exact stays

theorem Agree.ensuring {cleanup cleanup' : Work σ Unit} (h : Agree P Q work work')
    (hc : Agree Q R cleanup cleanup') : Agree P R (work.ensuring cleanup) (work'.ensuring cleanup') := by
  intro s hs
  obtain ⟨same, stays⟩ := h s hs
  constructor
  · apply run_eq_of_ends
    intro S both
    rw [ends_ensuring] at both ⊢
    refine ends_of_run_eq same ((stays.and both).mono fun r s' h' => ?_)
    exact ends_of_run_eq (hc s' h'.1).1 h'.2
  · rw [ends_ensuring]
    refine stays.mono fun r s' hs' => ((hc s' hs').2).mono fun r' s'' hs'' => ?_
    cases r' with
    | error _ => exact hs''
    | ok _ =>
      rw [next_ok, ends_ofExcept]
      exact hs''

theorem Agree.forM (all : List α) {body body' : α → Work σ Unit}
    (h : ∀ a, Agree P P (body a) (body' a)) : Agree P P (all.forM body) (all.forM body') := by
  induction all with
  | nil => exact .of_along (along_pure ())
  | cons a rest ih => exact (h a).then fun _ => ih

end Work

namespace Bus

variable {ι σ : Type} {P : σ → Prop}

theorem agree_deliver {call call' : ι → Work σ Unit} (listeners : List ι)
    (h : ∀ l ∈ listeners, Work.Agree P P (call l) (call' l)) :
    Work.Agree P P (deliver call listeners) (deliver call' listeners) := by
  induction listeners with
  | nil => exact .of_along (Work.along_pure ())
  | cons l rest ih =>
    exact (h l List.mem_cons_self).quietly.then fun _ => ih fun l' hm => h l' (List.mem_cons_of_mem _ hm)

end Bus
end GrammarWorkspace
