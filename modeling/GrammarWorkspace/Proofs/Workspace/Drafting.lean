import GrammarWorkspace.Proofs.Workspace.View
import Mathlib.Logic.Function.Basic

/-! What the client's notifications alone say of each file: the text it was last given, and whether the
client still has it open. Compilations may come between them at any time; whatever they open is read
from disk, and what they drop can be read there again. -/
namespace GrammarWorkspace

open Work (Ends)

structure Draft where
  text : String
  isOpen : Bool

abbrev Drafts := String → Option Draft

namespace Drafts

variable (host : Host) (drafts : Drafts)

def write (u text : String) : Drafts :=
  match host.fileName (.text u) with
  | .ok file => Function.update drafts file (some ⟨text, true⟩)
  | .error _ => drafts

def close (u : String) : Drafts :=
  match host.fileName (.text u) with
  | .ok file => Function.update drafts file ((drafts file).map ({ · with isOpen := false }))
  | .error _ => drafts

def after : Action → Drafts
  | .openOnClient u text => drafts.write host u text
  | .changeOnClient u texts =>
    match texts.getLast? with
    | some text => drafts.write host u text
    | none => drafts
  | .closeOnClient u => drafts.close host u
  | _ => drafts

def afterAll (actions : List Action) : Drafts := actions.foldl (after host) drafts

def Changes : Drafts → List Action → Prop
  | _, [] => False
  | drafts, action :: rest => drafts.after host action ≠ drafts ∨ Changes (drafts.after host action) rest

end Drafts

inductive Drafted (draft : Option Draft) (stored : Except Fault (Option String)) : Option Document → Prop
  | held {d : Document} {text} : draft = some ⟨text, true⟩ → d.onClient = true → d.text = some text →
      Drafted draft stored (some d)
  | left {d : Document} {text} : draft = some ⟨text, false⟩ → d.onClient = false → d.text = some text →
      Drafted draft stored (some d)
  | read {d : Document} : (∀ text, draft ≠ some ⟨text, true⟩) → d.onClient = false →
      stored = .ok d.text → Drafted draft stored (some d)
  | absent : (∀ text, draft ≠ some ⟨text, true⟩) → Drafted draft stored none

namespace Drafted

variable {draft : Option Draft} {stored : Except Fault (Option String)} {found : Option Document}
  {d d' : Document} {text : String}

theorem held_of_open (h : Drafted draft stored found) (he : draft = some ⟨text, true⟩) :
    ∃ d, found = some d ∧ d.onClient = true ∧ d.text = some text := by
  cases h with
  | held he' hc hx =>
    rw [he] at he'
    cases he'
    exact ⟨_, rfl, hc, hx⟩
  | left he' _ _ =>
    rw [he] at he'
    cases he'
  | read closed _ _ => exact absurd he (closed text)
  | absent closed => exact absurd he (closed text)

theorem open_of_held (h : Drafted draft stored (some d)) (hc : d.onClient = true) :
    ∃ text, draft = some ⟨text, true⟩ ∧ d.text = some text := by
  cases h with
  | held he _ hx => exact ⟨_, he, hx⟩
  | left _ hc' _ =>
    rw [hc] at hc'
    cases hc'
  | read _ hc' _ =>
    rw [hc] at hc'
    cases hc'

theorem of_same (h : Drafted draft stored (some d)) (text_eq : d'.text = d.text)
    (onClient_eq : d'.onClient = d.onClient) : Drafted draft stored (some d') := by
  cases h with
  | held he hc hx => exact .held he (onClient_eq.trans hc) (text_eq.trans hx)
  | left he hc hx => exact .left he (onClient_eq.trans hc) (text_eq.trans hx)
  | read closed hc hs => exact .read closed (onClient_eq.trans hc) (by rw [text_eq, hs])

end Drafted

namespace Holdings

variable {h h' : Holdings} {drafts : Drafts} {dropping : List DocumentId} {file other : String}
  {id : DocumentId} {d : Document} {f : Document → Document}

theorem filed?_revise_other (known : h.Known dropping) (ht : h.tracked.get? file = some id)
    (hne : other ≠ file) : (h.revise id f).filed? other = h.filed? other := by
  cases ht' : h.tracked.get? other with
  | none => rw [filed?_of_untracked (h := h.revise id f) ht', filed?_of_untracked ht']
  | some id' =>
    have distinct : id ≠ id' := by
      rintro rfl
      exact hne (known.file_unique ht' ht)
    rw [filed?_of_tracked (h := h.revise id f) ht', filed?_of_tracked ht', document?_revise,
      if_neg distinct]

theorem Opens.filed?_other {isNew : Bool} {text : String} (opens : h.Opens h' file id isNew d)
    (writes : d.Writes f text) (known : h.Known dropping) (hne : other ≠ file) :
    (h'.revise id f).filed? other = h.filed? other := by
  have tracked_eq := opens.others other hne
  cases ht : h.tracked.get? other with
  | none =>
    rw [ht] at tracked_eq
    rw [filed?_of_untracked (h := h'.revise id f) tracked_eq, filed?_of_untracked ht]
  | some id' =>
    rw [ht] at tracked_eq
    have distinct : id ≠ id' := by
      rintro rfl
      exact hne ((opens.known_written writes).file_unique tracked_eq opens.tracked_eq)
    obtain ⟨e, he, -⟩ := known other id' ht
    rw [filed?_of_tracked (h := h'.revise id f) tracked_eq, filed?_of_tracked ht, document?_revise,
      if_neg distinct, he, opens.document?_of_some id' e he]

def Follows (h : Holdings) (drafts : Drafts) : Prop :=
  ∀ file, Drafted (drafts file) (h.stored file) (h.filed? file)

namespace Follows

theorem update (follows : h.Follows drafts) (h' : Holdings) {draft : Option Draft} (stored_eq : h'.stored = h.stored)
    (others : ∀ other, other ≠ file → h'.filed? other = h.filed? other)
    (here : Drafted draft (h.stored file) (h'.filed? file)) :
    h'.Follows (Function.update drafts file draft) := by
  intro other
  rw [stored_eq]
  by_cases he : other = file
  · subst he
    rw [Function.update_self]
    exact here
  · rw [Function.update_of_ne he, others other he]
    exact follows other

theorem later_open (follows : h.Follows drafts) (known : h.Known dropping) (l : h.Later h') {text : String}
    (he : drafts file = some ⟨text, true⟩) : ∃ id d', h.tracked.get? file = some id ∧
      h'.tracked.get? file = some id ∧ h'.document? id = some d' ∧ d'.onClient = true := by
  obtain ⟨d, found, hc, -⟩ := (follows file).held_of_open he
  obtain ⟨id, ht, hd⟩ := filed?_eq_some found
  obtain ⟨d', hd', lasts⟩ := l.document id d hd
  have ht' := l.kept file id d ht hd (Or.inl (reaches_of_onClient known ht hd hc))
  exact ⟨id, d', ht, ht', hd', lasts.onClient_eq.trans hc⟩

theorem later (follows : h.Follows drafts) (known : h.Known dropping) (l : h.Later h') :
    h'.Follows drafts := by
  intro file
  rw [l.stored_eq]
  cases ht' : h'.tracked.get? file with
  | none =>
    rw [filed?_of_untracked ht']
    apply Drafted.absent
    intro text he
    obtain ⟨id, d, -, still, -⟩ := follows.later_open known l he
    rw [ht'] at still
    cases still
  | some id =>
    rcases l.found file id ht' with ht | ⟨d', hd', hc, hs, -⟩
    · obtain ⟨d, hd, -⟩ := known file id ht
      obtain ⟨d', hd', lasts⟩ := l.document id d hd
      have before := follows file
      rw [filed?_of_tracked ht, hd] at before
      rw [filed?_of_tracked ht', hd']
      exact before.of_same lasts.text_eq lasts.onClient_eq
    · rw [filed?_of_tracked ht', hd']
      refine .read (fun text he => ?_) hc hs
      obtain ⟨id', e, -, still, he', held⟩ := follows.later_open known l he
      rw [ht'] at still
      cases still
      rw [hd'] at he'
      cases he'
      rw [hc] at held
      cases held

theorem written (follows : h.Follows drafts) (known : h.Known dropping) {isNew : Bool} {text : String}
    (opens : h.Opens h' file id isNew d) (writes : d.Writes f text) (held : (f d).onClient = true) :
    (h'.revise id f).Follows (Function.update drafts file (some ⟨text, true⟩)) := by
  refine follows.update (h'.revise id f) opens.stored_eq
    (fun other hne => opens.filed?_other writes known hne) ?_
  rw [filed?_revise_self opens.tracked_eq opens.document?_eq]
  exact .held rfl held writes.text_eq

theorem revise (follows : h.Follows drafts) (known : h.Known dropping)
    (ht : h.tracked.get? file = some id) (hd : h.document? id = some d) (text_eq : (f d).text = d.text)
    (onClient_eq : (f d).onClient = d.onClient) : (h.revise id f).Follows drafts := by
  have here := follows file
  rw [filed?_of_tracked ht, hd] at here
  rw [← Function.update_eq_self file drafts]
  refine follows.update (h.revise id f) rfl (fun other hne => filed?_revise_other known ht hne) ?_
  rw [filed?_revise_self ht hd]
  exact here.of_same text_eq onClient_eq

theorem released (follows : h.Follows drafts) (known : h.Known dropping)
    (ht : h.tracked.get? file = some id) (hd : h.document? id = some d) {text : String}
    (he : drafts file = some ⟨text, true⟩) :
    (h.revise id ({ · with onClient := false })).Follows
      (Function.update drafts file (some ⟨text, false⟩)) := by
  refine follows.update (h.revise id _) rfl (fun other hne => filed?_revise_other known ht hne) ?_
  rw [filed?_revise_self ht hd]
  obtain ⟨e, found, -, hx⟩ := (follows file).held_of_open he
  rw [filed?_of_tracked ht, hd] at found
  cases found
  exact .left rfl rfl hx

theorem forget (follows : h.Follows drafts) (closed : ∀ text, drafts file ≠ some ⟨text, true⟩) :
    (h.forget file).Follows drafts := by
  rw [← Function.update_eq_self file drafts]
  refine follows.update (h.forget file) rfl (fun other hne => filed?_forget_other hne) ?_
  rw [filed?_forget_self]
  exact .absent closed

end Follows
end Holdings

/-- At first the drafts are the texts of the tracked documents. -/
def Workspace.drafts (w : Workspace) : Drafts := fun file =>
  (w.holdings.filed? file).bind fun d => d.text.map (⟨·, d.onClient⟩)

/-- Since this core some drafts may have changed. As long as none has, the compilation is still the
old one; a newer one has taken in the files as they are on disk. -/
structure Core.Heeds (start : Core) (drafts : Drafts) (renewed : Prop) (k : Core) : Prop where
  stored_eq : k.holdings.stored = start.holdings.stored
  reportUnused_eq : k.reportUnused = start.reportUnused
  follows : k.holdings.Follows drafts
  kept : ¬ renewed → k.compilation.isSome ∧ k.compilation = start.compilation
  gathered : renewed → k.compilation.isSome → k.holdings.Gathered

namespace Core.Heeds

variable {start k k' : Core} {drafts : Drafts} {renewed : Prop} {dropping : List DocumentId}
  {file text : String} {id : DocumentId} {d : Document}

theorem drifts (heeds : start.Heeds drafts renewed k) (known : k.holdings.Known dropping)
    (drifts : k.Drifts dropping k') : start.Heeds drafts renewed k' where
  stored_eq := drifts.later.stored_eq.trans heeds.stored_eq
  reportUnused_eq := drifts.reportUnused_eq.trans heeds.reportUnused_eq
  follows := heeds.follows.later known drifts.later
  kept old := by
    obtain ⟨made, same⟩ := heeds.kept old
    rw [drifts.still made]
    exact ⟨made, same⟩
  gathered new made := by
    cases hc : k.compilation with
    | none => exact drifts.gathered hc made
    | some c =>
      have made : k.compilation.isSome := by rw [hc]; rfl
      rw [drifts.still made]
      exact heeds.gathered new made

theorem written (heeds : start.Heeds drafts renewed k) (known : k.holdings.Known [])
    (written : k.Written file text k') :
    start.Heeds (Function.update drafts file (some ⟨text, true⟩))
      (renewed ∨ Function.update drafts file (some ⟨text, true⟩) ≠ drafts) k' := by
  cases written with
  | @again id d f ht hd held before same =>
    have here := heeds.follows file
    rw [Holdings.filed?_of_tracked ht, hd] at here
    obtain ⟨text', drafted, hx⟩ := here.open_of_held held
    rw [before] at hx
    cases hx
    have unchanged : Function.update drafts file (some ⟨text, true⟩) = drafts := by
      rw [← drafted, Function.update_eq_self]
    rw [unchanged]
    refine ⟨heeds.stored_eq, heeds.reportUnused_eq, ?_, fun old => ?_, fun new made => ?_⟩
    · exact heeds.follows.revise known ht hd same.2.1 same.2.2
    · exact heeds.kept fun new => old (Or.inl new)
    · refine (heeds.gathered (new.resolve_right fun hne => hne rfl) made).revise fun e he => ?_
      rw [hd] at he
      cases he
      exact same
  | @anew h id isNew d f opens writes held changed =>
    have stale : Function.update drafts file (some ⟨text, true⟩) ≠ drafts := by
      intro same
      have drafted : drafts file = some ⟨text, true⟩ := by rw [← same, Function.update_self]
      obtain ⟨e, found, hc, hx⟩ := (heeds.follows file).held_of_open drafted
      have text_eq := opens.text_eq
      rw [Holdings.text?_eq_filed?, found, Option.bind_some, hx] at text_eq
      have unmade := opens.unmade (by rw [← text_eq]; rfl)
      subst unmade
      rw [Holdings.filed?_of_tracked opens.tracked_eq, opens.document?_eq] at found
      cases found
      exact changed ⟨hc, hx⟩
    refine ⟨opens.stored_eq.trans heeds.stored_eq, heeds.reportUnused_eq, ?_, fun old => ?_,
      fun _ made => by cases made⟩
    · exact heeds.follows.written known opens writes held
    · exact absurd (Or.inr stale) old

theorem released (heeds : start.Heeds drafts renewed k) (known : k.holdings.Known [])
    (ht : k.holdings.tracked.get? file = some id) (hd : k.holdings.document? id = some d)
    (drafted : drafts file = some ⟨text, true⟩) :
    start.Heeds (Function.update drafts file (some ⟨text, false⟩)) True
      (k.revise id ({ · with onClient := false })).stale where
  stored_eq := heeds.stored_eq
  reportUnused_eq := heeds.reportUnused_eq
  follows := heeds.follows.released known ht hd drafted
  kept old := absurd trivial old
  gathered _ made := by cases made

theorem forget (heeds : start.Heeds drafts True k) (closed : ∀ text, drafts file ≠ some ⟨text, true⟩) :
    start.Heeds drafts True (k.holding (k.holdings.forget file)).stale where
  stored_eq := heeds.stored_eq
  reportUnused_eq := heeds.reportUnused_eq
  follows := heeds.follows.forget closed
  kept old := absurd trivial old
  gathered _ made := by cases made

end Core.Heeds

namespace Workspace

variable {F : Frame} {start : Core} {w w' : Workspace} {drafts : Drafts} {renewed : Prop}
  {u text file : String}

theorem Writes.heeds (writes : w.Writes F u text w') (heeds : start.Heeds drafts renewed w.core)
    (known : w.holdings.Known []) : start.Heeds (drafts.write w.host u text)
      (renewed ∨ drafts.write w.host u text ≠ drafts) w'.core := by
  cases writes with
  | unnamed hn same =>
    subst same
    simp only [Drafts.write, hn, ne_eq, not_true_eq_false, or_false]
    exact heeds
  | written hn written becomes sound drifts =>
    simp only [Drafts.write, hn]
    have after := heeds.written known written
    rw [← becomes.core_eq] at after
    exact after.drifts sound.known drifts.core

theorem Drops.heeds (drops : w.Drops F file w') (heeds : start.Heeds drafts True w.core)
    (closed : ∀ text, drafts file ≠ some ⟨text, true⟩) : start.Heeds drafts True w'.core := by
  cases drops with
  | kept same =>
    rw [same]
    exact heeds
  | removed becomes sound drifts =>
    have after : start.Heeds drafts True (w.core.holding (w.holdings.forget file)).stale :=
      heeds.forget closed
    rw [← becomes.core_eq] at after
    exact after.drifts sound.known drifts.core

theorem Closes.heeds (closes : w.Closes F u w') (heeds : start.Heeds drafts renewed w.core)
    (known : w.holdings.Known []) : start.Heeds (drafts.close w.host u)
      (renewed ∨ drafts.close w.host u ≠ drafts) w'.core := by
  cases closes with
  | unnamed hn same =>
    subst same
    simp only [Drafts.close, hn, ne_eq, not_true_eq_false, or_false]
    exact heeds
  | @unheld file hn unheld same =>
    subst same
    have closed : (drafts file).map ({ · with isOpen := false }) = drafts file := by
      match he : drafts file with
      | none => rfl
      | some ⟨text, false⟩ => rfl
      | some ⟨text, true⟩ =>
        obtain ⟨d, found, hc, -⟩ := (heeds.follows file).held_of_open he
        obtain ⟨id, ht, hd⟩ := Holdings.filed?_eq_some found
        rw [unheld id d ht hd] at hc
        cases hc
    simp only [Drafts.close, hn, closed, Function.update_eq_self, ne_eq, not_true_eq_false, or_false]
    exact heeds
  | @closed file id d dropping w₁ w₂ hn ht hd held becomes sound drifts drops =>
    have here := heeds.follows file
    rw [core_holdings, Holdings.filed?_of_tracked ht, hd] at here
    obtain ⟨text, drafted, -⟩ := here.open_of_held held
    have names : drafts.close w.host u = Function.update drafts file (some ⟨text, false⟩) := by
      simp only [Drafts.close, hn, drafted, Option.map_some]
    have changed : Function.update drafts file (some ⟨text, false⟩) ≠ drafts := by
      intro same
      rw [← same, Function.update_self] at drafted
      cases drafted
    rw [names, eq_true (Or.inr changed : renewed ∨ _)]
    have after := heeds.released known ht hd drafted
    rw [← becomes.core_eq] at after
    apply drops.heeds (after.drifts sound.known drifts.core)
    intro text' he
    rw [Function.update_self] at he
    cases he

structure Drafting (host : Host) (start : Core) (drafts : Drafts) (renewed : Prop) (w : Workspace) :
    Prop where
  resting : w.Resting (.readers host)
  heeds : start.Heeds drafts renewed w.core

theorem Drafting.drifts {host : Host} (h : Drafting host start drafts renewed w)
    (drifts : w.Drifts (.readers host) [] w') : Drafting host start drafts renewed w' :=
  ⟨h.resting.drifts drifts, h.heeds.drifts h.resting.known drifts.core⟩

end Workspace

namespace Task

variable {host : Host} {start : Core} {call : Calling} {w : Workspace} {drafts : Drafts} {renewed : Prop}

open Workspace (Drafting)

theorem ends_updateOnClient_drafting (calm : Calm (.readers host) call) (u text : String)
    (h : Drafting host start drafts renewed w) : Ends (updateOnClient call u text) w fun _ w' =>
      Drafting host start (drafts.write host u text) (renewed ∨ drafts.write host u text ≠ drafts) w' := by
  apply (ends_updateOnClient calm u text h.resting).mono
  rintro r w' ⟨resting, writes⟩
  have heeds := writes.heeds h.heeds h.resting.known
  rw [h.resting.quiet.1] at heeds
  exact ⟨resting, heeds⟩

theorem ends_closeOnClient_drafting (calm : Calm (.readers host) call) (u : String)
    (h : Drafting host start drafts renewed w) : Ends (closeOnClient call u) w fun _ w' =>
      Drafting host start (drafts.close host u) (renewed ∨ drafts.close host u ≠ drafts) w' := by
  apply (ends_closeOnClient calm u h.resting).mono
  rintro r w' ⟨resting, closes⟩
  have heeds := closes.heeds h.heeds h.resting.known
  rw [h.resting.quiet.1] at heeds
  exact ⟨resting, heeds⟩

theorem ends_perform_drafting (calm : Calm (.readers host) call) {action : Action}
    (notify : action.isNotification = true) (h : Drafting host start drafts renewed w) :
    Ends (perform call action) w fun _ w' => Drafting host start (drafts.after host action)
      (renewed ∨ drafts.after host action ≠ drafts) w' := by
  cases action with
  | openOnClient u text =>
    exact (ends_updateOnClient_drafting calm u text h).bind (fun _ _ h' => h') fun _ _ h' => h'
  | changeOnClient u texts =>
    rw [perform, changeOnClient, Drafts.after]
    cases texts.getLast? with
    | none =>
      simp only [ne_eq, not_true_eq_false, or_false]
      exact h
    | some text =>
      exact (ends_updateOnClient_drafting calm u text h).bind (fun _ _ h' => h') fun _ _ h' => h'
  | closeOnClient u =>
    exact (ends_closeOnClient_drafting calm u h).bind (fun _ _ h' => h') fun _ _ h' => h'
  | _ => cases notify

end Task

namespace Workspace

variable {host : Host} {start : Core} {w : Workspace} {drafts : Drafts} {renewed : Prop}

theorem Drafting.notified {action : Action} (h : Drafting host start drafts renewed w)
    (notify : action.isNotification = true) : Drafting host start (drafts.after host action)
      (renewed ∨ drafts.after host action ≠ drafts) (w.turn action).2 := by
  have ends := Task.ends_perform_drafting (Task.calm_call (w.restlessness + action.weight + 1)) notify h
  exact ends

theorem Drafting.run {actions : List Action} (h : Drafting host start drafts renewed w)
    (notify : ∀ action ∈ actions, action.isNotification = true) :
    Drafting host start (drafts.afterAll host actions) (renewed ∨ drafts.Changes host actions)
      (w.run actions) := by
  induction actions generalizing w drafts renewed with
  | nil =>
    simp only [Drafts.Changes, or_false]
    exact h
  | cons action rest ih =>
    have tail := ih (h.notified (notify action List.mem_cons_self))
      fun a hm => notify a (List.mem_cons_of_mem _ hm)
    rw [or_assoc] at tail
    exact tail

theorem Drafting.suspended (h : Drafting host start drafts renewed w) :
    Drafting host start drafts renewed (w.turn .suspend).2 :=
  ⟨⟨h.resting.quiet, h.resting.sound, h.resting.phase_eq⟩, h.heeds⟩

theorem Drafting.resumed (h : Drafting host start drafts renewed w) :
    Drafting host start drafts renewed (w.turn .resume).2 := by
  have calm : Task.Calm (.readers host) (Task.call (w.restlessness + Action.resume.weight + 1)) :=
    Task.calm_call _
  have resumes : Ends (Gate.resume (Task.report (Task.call (w.restlessness + Action.resume.weight + 1)))) w
      fun _ w' => Drafting host start drafts renewed w' := by
    rw [Gate.resume, Work.ends_bind, Gate.read, Work.ends_bind, Work.ends_get, Work.next_ok,
      Work.ends_pure, Work.next_ok]
    split
    · rw [Work.ends_bind, Gate.change, Work.ends_modify, Work.next_ok]
      have fewer : Drafting host start drafts renewed
          { w with gate := { w.gate with suspensions := w.gate.suspensions - 1 } } :=
        ⟨⟨h.resting.quiet, h.resting.sound, h.resting.phase_eq⟩, h.heeds⟩
      exact (Task.soft_flush (Task.soft_report calm) _ fewer.resting.quiet fewer.resting.sound).mono
        fun _ _ drifts => fewer.drifts drifts
    · exact h
  have ends : Ends (Task.perform (Task.call (w.restlessness + Action.resume.weight + 1)) .resume) w
      fun _ w' => Drafting host start drafts renewed w' :=
    resumes.bind (fun _ _ h' => h') fun _ _ h' => h'
  exact ends

theorem drafting_start (hr : w.Resting (.readers host)) :
    Drafting host w.core w.drafts (w.compilation = none) w := by
  refine ⟨hr, rfl, rfl, fun file => ?_, fun made => ⟨Option.isSome_iff_ne_none.mpr made, rfl⟩,
    fun unmade made => ?_⟩
  · rw [core_holdings]
    cases ht : w.holdings.tracked.get? file with
    | none =>
      rw [Workspace.drafts, Holdings.filed?_of_untracked ht]
      exact .absent fun text => by simp
    | some id =>
      obtain ⟨d, hd, -, ⟨text, hx⟩, -⟩ := hr.known file id ht
      rw [Workspace.drafts, Holdings.filed?_of_tracked ht, hd, Option.bind_some, hx, Option.map_some]
      cases hc : d.onClient with
      | true => exact .held rfl hc hx
      | false => exact .left rfl hc hx
  · rw [core_compilation, unmade] at made
    cases made

end Workspace
end GrammarWorkspace
