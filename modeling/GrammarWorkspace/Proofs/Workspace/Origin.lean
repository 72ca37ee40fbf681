import GrammarWorkspace.Proofs.Workspace.Acting
import GrammarWorkspace.Proofs.Workspace.Operation

/-!
# Where a compilation comes from

Whatever listeners do, a compilation that is found at rest was loaded by a rebuild of the session. Its source of
a file says what this rebuild read when the turn of the file came. A change that comes after that turn is not
seen, and there is nothing that would make up for it.
-/
namespace GrammarWorkspace

open Grammar (Compilation Replays Source)
open Work (Ends Along Inside)
open Workspace (Proceeding inside_proceeding)

namespace Task

variable {α β : Type} {depth : Nat} {w : Workspace}

/-- The work is given a compilation that was there before, or that has been begun and loaded meanwhile. -/
def Provides (task : Task Compilation) : Prop :=
  ∀ w : Workspace, Ends task w fun r w' => w.Proceeds 0 w' ∧
    ∀ c, r = .ok c → w.Dated → w.compilation = some c ∨ (w.begun ≤ c.serial ∧ w'.Stems c)

theorem Provides.along {task : Task Compilation} (h : Provides task) : Along (Proceeding 0) task :=
  fun w => (h w).mono fun _ _ h' => h'.1

variable (told : Told (Task.call depth))

include told

theorem provides_rebuildBody : Provides (rebuildBody (Task.call depth)) := by
  intro w
  rw [rebuildBody_eq]
  refine (ends_loadAnew_stems told).bind (fun c w₁ h₁ => ?_) fun _ _ h₁ => ⟨h₁.1, fun _ hr => by cases hr⟩
  obtain ⟨loaded, made⟩ := h₁
  have store : w₁.Precedes (compiled c.request.roots c w₁) := .of_same (List.prefix_refl _) rfl rfl
  have made (dated : w.Dated) : w.begun ≤ c.serial ∧ (compiled c.request.roots c w₁).Stems c := by
    obtain ⟨since, stems⟩ := made c rfl dated
    exact ⟨since, stems.later store⟩
  have stored : w.Proceeds 0 (compiled c.request.roots c w₁) := by
    refine ⟨loaded.toPrecedes.trans store, loaded.room_le, fun dated c' hc => ?_⟩
    cases hc
    exact Or.inr (made dated)
  rw [Work.ends_bind, Work.ends_modify, Work.next_ok]
  refine (proceeding_sweep told _).bind (fun _ w₂ h₂ => ?_)
    fun _ _ h₂ => ⟨stored.trans h₂, fun _ hr => by cases hr⟩
  refine ⟨stored.trans h₂, fun c' hr dated => ?_⟩
  cases hr
  obtain ⟨since, stems⟩ := made dated
  exact Or.inr ⟨since, stems.later h₂.toPrecedes⟩

theorem provides_rebuild : Provides (rebuild (Task.call depth)) := by
  intro w
  let inside := { w with gate := { w.gate with phase := .rebuilding } }
  have enter : w.Proceeds 0 inside := .of_same (List.prefix_refl _) rfl rfl rfl rfl rfl (Or.inl rfl)
  have leave : ∀ w₁ : Workspace, w₁.Proceeds 0 (leaving w w₁) := fun w₁ =>
    .of_same (List.prefix_refl _) rfl rfl rfl rfl rfl (Or.inl rfl)
  rw [rebuild_eq]
  refine ends_rebuilding (provides_rebuildBody told inside) (fun c w₁ h₁ => ?_) fun fault w₁ h₁ =>
    ⟨(enter.trans h₁.1).trans (leave w₁), fun _ hr => by cases hr⟩
  refine (Gate.along_flush proceeding_change (proceeding_report told) _).mono fun r w₂ h₂ => ?_
  have after := (leave w₁).trans h₂
  have all := (enter.trans h₁.1).trans after
  cases r with
  | error fault => exact ⟨all, fun _ hr => by cases hr⟩
  | ok _ =>
    refine ⟨all, fun c' hr dated => ?_⟩
    cases hr
    rcases h₁.2 c rfl dated with hc | ⟨since, stems⟩
    · exact Or.inl hc
    · exact Or.inr ⟨since, stems.later after.toPrecedes⟩

theorem provides_compilation : Provides (compilation (Task.call depth)) := by
  intro w
  rw [compilation, Work.ends_bind, Work.ends_get, Work.next_ok]
  cases hc : w.compilation with
  | some c => exact ⟨.refl w, fun c' hr _ => by cases hr; exact Or.inl rfl⟩
  | none =>
    refine (provides_rebuild told w).mono fun r w' h' => ⟨h'.1, fun c hr => ?_⟩
    rw [← hc]
    exact h'.2 c hr

omit told

theorem proceeding_addListener (topic : Topic) (name : Option String) (script : Script) :
    Along (Proceeding script.weight) (addListener topic name script) := by
  refine Work.along_get_bind fun w => ?_
  let w' := ((addListener topic name script).run.run w).2
  have room_le : ∀ seen, (w'.room seen : Int) ≤ w.room seen + script.weight := by
    intro seen
    have more : w'.restlessness = w.restlessness + script.weight :=
      Workspace.restlessness_append rfl
    have := Workspace.room_of_same_files w w' rfl rfl seen
    omega
  exact ⟨.of_same (List.prefix_refl _) rfl rfl, room_le, fun _ _ => Or.inl⟩

theorem ends_nextPlay_proceeds (number : Nat) : Ends (nextPlay number) w fun r w' =>
    ∃ actions, r = .ok actions ∧ w.Proceeds (-(Action.weights actions)) w' := by
  rw [nextPlay, Work.ends_bind, Work.ends_get, Work.next_ok]
  rcases hn : w.scripts[number]? with _ | ⟨_ | plays, actions⟩
  · exact ⟨[], rfl, .refl w⟩
  · exact ⟨[], rfl, .refl w⟩
  · let w' := { w with scripts := w.scripts.set number ⟨plays, actions⟩ }
    have room_le : ∀ seen, (w'.room seen : Int) ≤ w.room seen + -(Action.weights actions) := by
      intro seen
      have less : w'.restlessness + Script.weight ⟨plays + 1, actions⟩ =
          w.restlessness + Script.weight ⟨plays, actions⟩ := Workspace.restlessness_set hn rfl
      have := Workspace.room_of_same_files w w' rfl rfl seen
      simp only [Script.weight, Nat.add_mul] at less
      omega
    exact ⟨actions, rfl, .of_same (List.prefix_refl _) rfl rfl, room_le, fun _ _ => Or.inl⟩

theorem proceeding_dispose : Along (Proceeding 0) dispose := fun _ =>
  .of_no_new_file (.of_same (List.prefix_refl _) rfl rfl) (fun _ hm =>
    hm.imp_left fun hm => (List.not_mem_nil hm).elim) rfl (Or.inr rfl)

theorem proceeding_write (file : String) (bytes : List UInt8) :
    Along (Proceeding 1) (modify fun w => { w with disk := w.disk.insert file bytes } : Task Unit) := fun _ =>
  .of_new_file file (.of_same (List.prefix_refl _) rfl rfl) (fun f hm => by
    rcases hm with hm | hm
    · exact Or.inr (Or.inl hm)
    · exact (Table.mem_keys_insert.mp hm).imp_right Or.inr) rfl rfl

mutual

theorem proceeding_perform (told : Told (Task.call depth)) (action : Action) :
    Along (Proceeding action.weight) (perform (Task.call depth) action) := by
  have aside {α : Type} {task : Task α} (h : Along (Proceeding 0) task) : Along (Proceeding action.weight) task :=
    h.mono fun _ _ => (inside_proceeding _).widen
  have answer {α : Type} {task : Task α} {give : α → Answer} (h : Along (Proceeding action.weight) task) :
      Along (Proceeding action.weight) (task >>= fun a => pure (give a)) :=
    (inside_proceeding _).bind_after h fun _ => Work.along_pure _
  cases action with
  | openOnServer locator =>
    refine aside ((proceeding_openOnServer told locator).bind fun found => ?_)
    cases found with
    | none => exact Work.along_pure _
    | some id => exact (along_document id).bind fun _ => Work.along_pure _
  | closeOnServer locator => exact aside ((proceeding_closeOnServer told locator).bind fun _ => Work.along_pure _)
  | openOnClient uri text => exact answer (proceeding_updateOnClient told uri text)
  | changeOnClient uri texts => exact answer (proceeding_changeOnClient told uri texts)
  | closeOnClient uri => exact aside ((proceeding_closeOnClient told uri).bind fun _ => Work.along_pure _)
  | suspended actions =>
    refine answer (proceeding_suspended (proceeding_report told) ?_)
    exact (proceeding_performAll told actions).mono fun _ _ h => h.mono (Int.ofNat_le.mpr (Nat.le_add_left _ _))
  | rebuilding actions =>
    refine answer (proceeding_rebuilding (proceeding_report told) ?_)
    exact (proceeding_performAll told actions).mono fun _ _ h => h.mono (Int.ofNat_le.mpr (Nat.le_add_left _ _))
  | suspend => exact aside ((proceeding_change _).bind fun _ => Work.along_pure _)
  | resume =>
    exact aside ((Gate.along_resume proceeding_change (proceeding_report told)).bind fun _ => Work.along_pure _)
  | request => exact aside ((proceeding_request told).bind fun _ => Work.along_pure _)
  | dispose | shutDown => exact aside (proceeding_dispose.bind fun _ => Work.along_pure _)
  | write file bytes => exact answer (proceeding_write file bytes)
  | delete file =>
    refine aside (Work.along_get_bind fun w => ?_)
    have deleted : w.Proceeds 0 { w with disk := w.disk.erase file } :=
      .of_no_new_file (.of_same (List.prefix_refl _) rfl rfl)
        (fun f hm => hm.imp_right fun hm => (Table.mem_keys_erase.mp hm).1) rfl (Or.inl rfl)
    exact deleted
  | setFailing file failing =>
    refine aside (Along.bind (fun w => ?_) fun _ => Work.along_pure _)
    exact .of_same (List.prefix_refl _) rfl rfl rfl rfl rfl (Or.inl rfl)
  | subscribe topic name plays script =>
    refine answer ((proceeding_addListener topic name ⟨plays, script⟩).mono fun _ _ h => h.mono ?_)
    exact Int.ofNat_le.mpr (Nat.le_add_left _ _)
  | _ =>
    exact along_perform (inside_proceeding _) Workspace.overlooks_proceeding _ rfl
      (fun _ => aside (provides_rebuild told).along) fun _ _ _ _ other => nomatch other

theorem proceeding_performAll (told : Told (Task.call depth)) (actions : List Action) :
    Along (Proceeding (Action.weights actions)) (performAll (Task.call depth) actions) := by
  cases actions with
  | nil => exact fun w => .refl w
  | cons action rest =>
    refine Proceeding.bind (proceeding_perform told action) fun _ => ?_
    exact (inside_proceeding _).bind_after (proceeding_performAll told rest) fun _ => Work.along_pure _

end

theorem proceeding_play (told : Told (Task.call depth)) (actions : List Action) :
    Along (Proceeding (Action.weights actions)) (play (Task.call depth) actions) := by
  induction actions with
  | nil => exact fun w => .refl w
  | cons action rest ih =>
    refine Proceeding.bind (proceeding_perform told action) fun answer => ?_
    exact (inside_proceeding _).bind_before (proceeding_observe _) fun _ => ih

/-- However deep listeners are at work inside one another, they bring what was counted. -/
theorem told_call (depth : Nat) : Told (Task.call depth) := by
  have noted (topic : Topic) (about : Option DocumentId) : Along (Proceeding 0) (note topic about) :=
    along_note (fun w o _ => proceeding_observe o w) topic about
  have cleared (about : Option DocumentId) : Along (Proceeding 0) (clearNotices about) :=
    along_clearNotices Workspace.overlooks_proceeding about
  induction depth with
  | zero =>
    intro listener topic about
    cases listener with
    | observer => exact noted topic about
    | clearer => exact cleared about
    | publisher | scripted _ => exact Work.along_pure ()
  | succ depth ih =>
    intro listener topic about
    cases listener with
    | observer => exact noted topic about
    | clearer => exact cleared about
    | publisher => exact along_publish Inside.self (provides_rebuild ih).along Workspace.overlooks_proceeding
    | scripted number =>
      intro w
      refine (ends_nextPlay_proceeds number).bind (fun actions w₁ h₁ => ?_) fun _ _ h₁ => ?_
      · obtain ⟨_, ⟨⟩, taken⟩ := h₁
        refine (proceeding_play ih actions w₁).mono fun _ _ h₂ => ?_
        exact (taken.trans h₂).mono (by omega)
      · obtain ⟨_, hr, -⟩ := h₁
        cases hr

end Task

namespace Workspace

variable {w : Workspace} {c : Compilation} {file text : String}

theorem Proceeds.turn (w : Workspace) (action : Action) :
    w.Proceeds action.weight (w.turn action).2 := by
  have performed : Ends (Task.perform (Task.call (w.restlessness + action.weight + 1)) action) w
      fun _ w' => w.Proceeds action.weight w' := Task.proceeding_perform (Task.told_call _) action w
  exact performed

theorem Proceeds.run (w : Workspace) (actions : List Action) :
    w.Proceeds (Action.weights actions) (w.run actions) := by
  induction actions generalizing w with
  | nil => exact .refl w
  | cons action rest ih =>
    have := (Proceeds.turn w action).trans (ih (w.turn action).2)
    rwa [← Int.natCast_add] at this

theorem mem_reads {serial : Nat} {answer : Option String} :
    (file, answer) ∈ w.reads serial ↔ ∃ f ∈ w.fetches, f.serial = serial ∧ f.file = file ∧ f.text = answer := by
  simp only [reads, List.mem_map, List.mem_filter, decide_eq_true_eq, Prod.mk.injEq, and_assoc]

/-- A rebuild of the session loaded the compilation, from the roots with which the rebuild began. -/
structure Recalls (w : Workspace) (c : Compilation) : Prop where
  begun : ∃ v, w.builds[c.serial]? = some v ∧ c.request.roots = v.roots
  /-- The turn comes for the roots, and for all that is imported by what is loaded. -/
  turns : ∀ file, (∃ f ∈ w.fetches, f.serial = c.serial ∧ f.file = file) ↔
    file ∈ c.request.roots ∨ ∃ f s, c.source? f = some s ∧ file ∈ s.targets
  /-- If a document was tracked when its turn came, its text was read as it was then. -/
  known : ∀ f ∈ w.fetches, f.serial = c.serial → ∀ d, f.known = some d → f.text = d.text
  /-- The text of a file is the one that was read when its turn came. -/
  text : ∀ file text, (c.source? file).map Source.text = some text ↔
    ∃ f ∈ w.fetches, f.serial = c.serial ∧ f.file = file ∧ f.text = some text

theorem Stems.recalls (stems : w.Stems c) (honest : ∀ f ∈ w.fetches, f.IsHonest) : w.Recalls c := by
  obtain ⟨begun, previous, replays⟩ := stems
  refine ⟨begun, fun file => ⟨?_, fun asked => ?_⟩, fun f hm _ => honest f hm, fun file text => ?_⟩
  · rintro ⟨f, hm, serial, rfl⟩
    exact replays.asked (mem_reads.mpr ⟨f, hm, serial, rfl, rfl⟩)
  · have unloaded (f : String) : f ∉ (({} : Table String Source)).keys := List.not_mem_nil
    have read := replays.reads_of_asked (asked.imp_right fun ⟨f, s, hs, target⟩ => ⟨f, s, unloaded f, hs, target⟩)
    obtain ⟨answer, hm⟩ := read.resolve_left (unloaded file)
    obtain ⟨f, hm, serial, named, -⟩ := mem_reads.mp hm
    exact ⟨f, hm, serial, named⟩
  · rw [Compilation.source?, replays.text_iff (Compilation.text_sourceOf _ _), mem_reads]
    exact or_iff_right fun none => by cases none

/-- The compilation that the next access answers with has of each file the text that was read when the turn of
the file came in the rebuild that loaded it. A change that came later is not in it. -/
theorem recalls_run (s : Setup) (actions : List Action) {c : Compilation}
    (answered : ((ofSetup s).run actions).access.1 = .ok c) : ((ofSetup s).run actions).access.2.Recalls c := by
  have ran := Proceeds.run (ofSetup s) actions
  have provides := Task.provides_compilation
    (Task.told_call (((ofSetup s).run actions).restlessness + Action.sources.weight + 1)) ((ofSetup s).run actions)
  have accessed : ((ofSetup s).run actions).Proceeds 0 ((ofSetup s).run actions).access.2 := provides.1
  have all := ran.trans accessed
  have unread : (ofSetup s).fetches = [] ∧ (ofSetup s).compilation = none := by
    obtain ⟨bus, subscriptions, scripts, start⟩ := exists_ofSetup s
    rw [start]
    exact ⟨rfl, rfl⟩
  have dated : (ofSetup s).Dated := by
    intro f hm
    rw [unread.1] at hm
    cases hm
  -- The access may have rebuilt. If not, the cached compilation is from the actions, since there was none at first.
  have stems : ((ofSetup s).run actions).access.2.Stems c := by
    rcases provides.2 c answered (ran.dated dated) with cached | ⟨-, stems⟩
    · rcases ran.made dated c cached with before | ⟨-, stems⟩
      · rw [unread.2] at before
        cases before
      · exact stems.later accessed.toPrecedes
    · exact stems
  refine stems.recalls fun f hm => ?_
  obtain ⟨more, fetches, new⟩ := all.fetches
  rw [fetches, unread.1, List.nil_append] at hm
  exact (new f hm).2.2

def meddling : Setup where
  host := ⟨none⟩
  files := [("/b", [])]
  reportUnused := false
  hasWatcher := false
  hasClient := false
  cast := [⟨.openedOnServer, none, ⟨1, [.changeOnClient "file:///a" ["@import 'b'; "]]⟩⟩]

/-- The client opens the other document, and the compilation is made while the listener is at work. -/
def meddled : Workspace :=
  (ofSetup meddling).run [.openOnClient "file:///a" "@import 'b';", .sources]

/-- The answer has the text of every document that the client has open. -/
def isCurrent : Except Fault Compilation × Workspace → Bool
  | (.ok c, w) => w.trackedDocuments.all fun d =>
    !d.onClient || (c.source? d.file).map Source.text = d.text
  | (.error _, _) => true

set_option maxRecDepth 4000 in
theorem recalls_run_meddled : ∃ c, meddled.access.1 = .ok c ∧ meddled.access.2.Recalls c := by
  have answers : meddled.access.1.isOk = true := by decide +kernel
  cases answered : meddled.access.1 with
  | error fault =>
    rw [answered] at answers
    cases answers
  | ok c => exact ⟨c, rfl, recalls_run meddling _ answered⟩

set_option maxRecDepth 4000 in
/-- A change that comes after the turn of its document is lost. -/
theorem not_isCurrent : isCurrent meddled.access = false := by decide +kernel

end Workspace
end GrammarWorkspace
