import GrammarWorkspace.Proofs.Grammar.Loading
import GrammarWorkspace.Proofs.Workspace.Operation
import GrammarWorkspace.Proofs.Workspace.Perusal
import GrammarWorkspace.Proofs.Workspace.Removal

/-! Every operation keeps removals in order, under listeners that may do all that actions can do. A
document is removed by whoever let go of it last, unless it has been removed in the middle of this. -/
namespace GrammarWorkspace

open Moment (Orderly Void)
open Work (Ends Along)
open Workspace (Tends)

namespace Task

variable {α β : Type} {w w' : Workspace} {call : Calling} {id : DocumentId} {file : String}

abbrev Tending (task : Task α) : Prop := Along (Tends []) task

def Heeding (call : Calling) : Prop := ∀ listener topic about, Tending (call listener topic about)

theorem tending_modify {f : Workspace → Workspace} (documents : ∀ w, (f w).documents = w.documents)
    (tracked : ∀ w, (f w).tracked = w.tracked) (moments : ∀ w, (f w).moments = w.moments) :
    Tending (modify f : Task Unit) := fun w => .of_same (documents w) (tracked w) (moments w)

theorem tending_observe (o : Observation) : Tending (observe o) :=
  tending_modify (fun _ => rfl) (fun _ => rfl) fun _ => rfl

theorem ignored_gate : Gate.Ignored (Tends []) := fun _ =>
  tending_modify (fun _ => rfl) (fun _ => rfl) fun _ => rfl

theorem tending_pass {m : Moment} (plain : m.isPlain = true) : Tending (pass m) := fun w =>
  .passed w plain

def Aside (task : Task Unit) : Prop :=
  ∀ w : Workspace, Ends task w fun r w' => r = .ok () ∧ w'.documents = w.documents ∧
    w'.tracked = w.tracked ∧ w'.moments = w.moments

theorem Aside.tending {task : Task Unit} (h : Aside task) : Tending task := fun w =>
  (h w).mono fun _ _ ⟨_, documents, tracked, moments⟩ => .of_same documents tracked moments

theorem Aside.ends_bind {task : Task Unit} {next : Unit → Task α}
    {Q : Except Fault α → Workspace → Prop} (h : Aside task)
    (hn : ∀ w', w'.documents = w.documents → w'.tracked = w.tracked → w'.moments = w.moments →
      Ends (next ()) w' Q) : Ends (task >>= next) w Q := by
  apply (h w).bind
  · rintro ⟨⟩ w' ⟨-, documents, tracked, moments⟩
    exact hn w' documents tracked moments
  · rintro _ _ ⟨failed, -⟩
    cases failed

theorem aside_watch (file : String) : Aside (watch file) := by
  intro w
  rw [watch, Work.ends_bind, Work.ends_get, Work.next_ok]
  split
  · exact ⟨rfl, rfl, rfl, rfl⟩
  · exact ⟨rfl, rfl, rfl, rfl⟩

theorem aside_unwatch (file : String) : Aside (unwatch file) := by
  intro w
  rw [unwatch, Work.ends_bind, Work.ends_get, Work.next_ok]
  split
  · exact ⟨rfl, rfl, rfl, rfl⟩
  · exact ⟨rfl, rfl, rfl, rfl⟩

theorem aside_invalidate : Aside invalidate := by
  intro w
  rw [invalidate, Work.ends_bind, Work.ends_get, Work.next_ok]
  split
  · exact ⟨rfl, rfl, rfl, rfl⟩
  · exact ⟨rfl, rfl, rfl, rfl⟩

theorem tending_readFile (file : String) : Tending (readFile file) :=
  .get_bind fun _ => by
    split
    · exact (tending_observe _).bind fun _ => Work.along_throw _
    · exact (tending_observe _).bind fun _ => Work.along_pure _

theorem fileOf?_update (w : Workspace) {f : Document → Document} (file_eq : ∀ d, (f d).file = d.file)
    (id' : DocumentId) :
    Workspace.fileOf? { w with documents := w.documents.modify id f } id' = w.fileOf? id' := by
  simp only [Workspace.fileOf?, Workspace.document?, List.getElem?_modify]
  split
  · simp [file_eq, Function.comp_def]
  · simp

theorem open_update (w : Workspace) {f : Document → Document} (id' : DocumentId) :
    Workspace.Open { w with documents := w.documents.modify id f } id' ↔
      ∃ d, w.document? id' = some d ∧ (if id = id' then f d else d).isOpen = true := by
  simp only [Workspace.Open, Workspace.document?, List.getElem?_modify]
  split <;> simp

theorem tending_update (id : DocumentId) {f : Document → Document} (file_eq : ∀ d, (f d).file = d.file)
    (open_eq : ∀ d, (f d).isOpen = d.isOpen) : Tending (update id f) := by
  intro w
  have same (id' : DocumentId) :
      Workspace.Open { w with documents := w.documents.modify id f } id' ↔ w.Open id' := by
    rw [open_update, Workspace.Open]
    refine exists_congr fun d => and_congr_right fun _ => ?_
    split
    · rw [open_eq]
    · exact Iff.rfl
  exact .of_same_files (fileOf?_update w file_eq) rfl rfl (fun id' _ ho => Or.inl ((same id').mp ho))
    fun id' ho => Or.inr (mt (same id').mpr ho)

theorem tends_opened {f : Document → Document} (file_eq : ∀ d, (f d).file = d.file)
    (opens : ∀ d, (f d).isOpen = true) (here : w.Regular → ¬ w.Removed id) :
    w.Tends [] { w with documents := w.documents.modify id f } := by
  apply Tends.of_same_files (fileOf?_update w file_eq) rfl rfl
  · intro id' regular ho
    obtain ⟨d, hd, open_d⟩ := (open_update w id').mp ho
    by_cases same : id = id'
    · rw [← same]
      exact Or.inr (here regular)
    · rw [if_neg same] at open_d
      exact Or.inl ⟨d, hd, open_d⟩
  · intro id' ho
    right
    rintro ⟨d, hd, open_d⟩
    refine ho ((open_update w id').mpr ⟨d, hd, ?_⟩)
    split
    · exact opens d
    · exact open_d

theorem tends_released {f : Document → Document} (file_eq : ∀ d, (f d).file = d.file)
    (closes : ∀ d, (f d).isOpen = true → d.isOpen = true) :
    w.Tends [id] { w with documents := w.documents.modify id f } := by
  apply Tends.of_same_files (fileOf?_update w file_eq) rfl rfl
  · intro id' _ ho
    obtain ⟨d, hd, open_d⟩ := (open_update w id').mp ho
    refine Or.inl ⟨d, hd, ?_⟩
    split at open_d
    · exact closes d open_d
    · exact open_d
  · intro id' ho
    by_cases same : id = id'
    · exact Or.inl (List.mem_singleton.mpr same.symm)
    · right
      rintro ⟨d, hd, open_d⟩
      refine ho ((open_update w id').mpr ⟨d, hd, ?_⟩)
      rw [if_neg same]
      exact open_d

theorem ends_document_iff {Q : Except Fault Document → Workspace → Prop} :
    Ends (document id) w Q ↔ Q (.ok ((w.document? id).getD default)) w := Iff.rfl

theorem document?_of_ne {p : Document → Bool} (holds : p ((w.document? id).getD default) = true)
    (default_not : p default = false) :
    w.document? id = some ((w.document? id).getD default) := by
  cases hd : w.document? id with
  | some d => rfl
  | none =>
    rw [hd, Option.getD_none, default_not] at holds
    cases holds

def Takes (id : DocumentId) (task : Task α) : Prop :=
  ∀ w : Workspace, (w.Regular → ¬ w.Removed id) → Ends task w fun _ w' =>
    w.Tends [] w' ∧ (w.Regular → Void w'.moments ∨ ¬ w'.Idle id)

theorem takes_update {f : Document → Document} (file_eq : ∀ d, (f d).file = d.file)
    (opens : ∀ d, (f d).isOpen = true) {rest : Task Unit} (after : Tending rest) :
    Takes id (do update id f; rest) := by
  intro w here
  have opened : w.Tends [] { w with documents := w.documents.modify id f } :=
    tends_opened file_eq opens here
  rw [Work.ends_bind, update, Work.ends_modify, Work.next_ok]
  refine (after _).mono fun _ w' h' => ⟨opened.trans h', fun regular => ?_⟩
  rcases opened.regular regular with void | ⟨regular', -⟩
  · exact Or.inl (void.mono h'.moments)
  · apply h'.not_idle regular'
    rintro ⟨⟨file, ht⟩, closed⟩
    obtain ⟨d, hd, -⟩ := Option.map_eq_some_iff.mp (regular.filed file id ht).1
    refine closed ((open_update w id).mpr ⟨d, hd, ?_⟩)
    rw [if_pos rfl]
    exact opens d

theorem takes_holdOnClient (id : DocumentId) : Takes id (holdOnClient id) := by
  intro w here
  rw [holdOnClient, Work.ends_bind, ends_document_iff, Work.next_ok]
  cases held : ((w.document? id).getD default).onClient with
  | true =>
    have hd := document?_of_ne (p := Document.onClient) held rfl
    refine ⟨.refl w, fun _ => Or.inr fun idle => idle.2 ⟨_, hd, ?_⟩⟩
    rw [Document.isOpen, held, Bool.true_or]
  | false =>
    have after : Tending (do
        invalidate
        let d ← document id
        if d.onServer then unwatch d.file) :=
      aside_invalidate.tending.bind fun _ => (along_document id).bind fun d => by
        split
        · exact (aside_unwatch _).tending
        · exact Work.along_pure ()
    exact takes_update (f := ({ · with onClient := true })) (fun _ => rfl)
      (fun d => by simp [Document.isOpen]) after w here

theorem takes_holdOnServer (id : DocumentId) : Takes id (holdOnServer id) := by
  intro w here
  rw [holdOnServer, Work.ends_bind, ends_document_iff, Work.next_ok]
  cases held : ((w.document? id).getD default).onServer with
  | true =>
    have hd := document?_of_ne (p := Document.onServer) held rfl
    refine ⟨.refl w, fun _ => Or.inr fun idle => idle.2 ⟨_, hd, ?_⟩⟩
    rw [Document.isOpen, held, Bool.or_true]
  | false =>
    have after : Tending (do
        let d ← document id
        if !d.onClient then watch d.file) :=
      (along_document id).bind fun d => by
        split
        · exact (aside_watch _).tending
        · exact Work.along_pure ()
    exact takes_update (f := ({ · with onServer := true })) (fun _ => rfl)
      (fun d => by simp [Document.isOpen]) after w here

theorem ends_getOrCreate_tends (file : String) : Ends (getOrCreate file) w fun r w' =>
    ∃ made, r = .ok made ∧ w.Tends [made.1] w' ∧ w'.tracked.get? file = some made.1 := by
  rw [getOrCreate, Work.ends_bind, Work.ends_get, Work.next_ok]
  cases ht : w.tracked.get? file with
  | some id => exact ⟨_, rfl, .refl w, ht⟩
  | none =>
    let w' : Workspace := { w with
      documents := w.documents ++ [Document.new file]
      tracked := w.tracked.insert file w.documents.length }
    have gains : w.Gains file w' := ⟨ht, rfl, rfl, rfl⟩
    refine ⟨(w.documents.length, true), rfl, gains.tends, ?_⟩
    change (w.tracked.insert file w.documents.length).get? file = _
    rw [Table.get?_insert, if_pos rfl]

/-- Between the moment that a document is found or made and the one that someone takes hold of it
nothing comes in between. -/
theorem ends_opened {w₁ : Workspace} {hold : Task Unit} (takes : Takes id hold)
    (h : w.Tends [id] w₁) (ht : w₁.tracked.get? file = some id) {f : Document → Document}
    (file_eq : ∀ d, (f d).file = d.file) (open_eq : ∀ d, (f d).isOpen = d.isOpen) {next : Task β}
    (after : Tending next) : Ends (do update id f; hold; next) w₁ fun _ w' => w.Tends [] w' := by
  let w₂ : Workspace := { w₁ with documents := w₁.documents.modify id f }
  have updated : w₁.Tends [] w₂ := tending_update id file_eq open_eq w₁
  rw [Work.ends_bind, update, Work.ends_modify, Work.next_ok]
  apply (takes w₂ fun regular => regular.not_removed ht).bind
  · rintro _ w₃ ⟨h₃, held⟩
    refine (after w₃).mono fun _ _ h₄ => ?_
    exact ((h.trans updated.widen).settle h₃ held).trans h₄
  · rintro _ w₃ ⟨h₃, held⟩
    exact (h.trans updated.widen).settle h₃ held

section

variable (heeding : Heeding call)

include heeding

theorem tending_deliver (topic : Topic) (about : Option DocumentId) (listeners : List Listener) :
    Tending (Bus.deliver (fun listener => call listener topic about) listeners) :=
  Bus.along_deliver (fun listener => heeding listener topic about) listeners

/-- Listeners are told of anything but a document that is closed or let go of. -/
theorem tending_fire {topic : Topic} {about : Option DocumentId}
    (telling : (Moment.telling topic about).isPlain = true)
    (told : (Moment.told topic about).isPlain = true) : Tending (fire call topic about) :=
  (tending_pass telling).bind fun _ => .get_bind fun _ =>
    (tending_deliver heeding topic about _).bind fun _ => tending_pass told

theorem tending_report : Tending (report call) := tending_fire heeding rfl rfl

theorem tending_request : Tending (Gate.request (report call)) :=
  Gate.along_request ignored_gate (tending_report heeding)

/-- After it has been taken out, listeners are told that the document is closed. -/
theorem ends_closed (w : Workspace) : Ends (do
      invalidate
      fire call .closed (some id)
      Gate.request (report call)) w fun _ w' =>
    ∃ w₁ : Workspace, w₁.documents = w.documents ∧ w₁.tracked = w.tracked ∧
      w₁.moments = w.moments ++ [.telling .closed (some id)] ∧ w₁.Tends [] w' := by
  refine aside_invalidate.ends_bind fun w₁ documents tracked moments => ?_
  have begun : (w₁.passed (.telling .closed (some id))).moments =
      w.moments ++ [.telling .closed (some id)] := by
    rw [← moments, Workspace.moments_passed]
  rw [Work.ends_bind, ends_fire_iff]
  refine (tending_deliver heeding .closed (some id) _ _).mono fun _ w₂ h₂ => ?_
  rw [Work.next_ok]
  refine (tending_request heeding _).mono fun _ w₃ h₃ => ?_
  exact ⟨w₁.passed _, documents, tracked, begun, (h₂.trans (.passed w₂ rfl)).trans h₃⟩

omit heeding in
theorem ends_remove_iff {Q : Except Fault Unit → Workspace → Prop} {d : Document}
    (hd : w.document? id = some d) : Ends (remove call id) w Q ↔
      if w.tracked.contains d.file then
        Ends (do invalidate; fire call .closed (some id); Gate.request (report call))
          { w with tracked := w.tracked.erase d.file } Q
      else Q (.error (.untracked d.file)) (w.passed (.missing id)) := by
  rw [remove, Work.ends_bind, ends_document_iff, Work.next_ok, hd, Option.getD_some, Work.ends_bind,
    Work.ends_get, Work.next_ok]
  cases w.tracked.contains d.file with
  | true => exact Iff.rfl
  | false => exact Iff.rfl

omit heeding in
/-- A document that was removed before all had been told that it was let go of. -/
theorem disorderly {m : Moment} (hm : m.released? = some id) (regular : w.Regular)
    (gone : w.Removed id) :
    .telling .closed (some id) ∈ w.moments ∧ ¬ Orderly (w.passed m).moments := by
  have told : .telling .closed (some id) ∈ w.moments := by
    apply List.count_pos_iff.mp
    rw [show w.moments.count (.telling .closed (some id)) = 1 from regular.closed_once id gone]
    exact Nat.one_pos
  refine ⟨told, fun orderly => ?_⟩
  rw [Workspace.moments_passed] at orderly
  exact (Moment.orderly_append.mp orderly).2 id hm told

omit heeding in
theorem regular_told {m : Moment} (hm : m.released? = some id) (regular : w.Regular)
    (here : ¬ w.Removed id) : (w.passed m).Regular := by
  apply regular.passed
  · rintro id rfl
    cases hm
  · rintro id rfl
    cases hm
  · intro id' released
    rw [hm] at released
    cases released
    exact here

/-- The document goes now; if it has gone before, it goes a second time, or another one goes in its
place. -/
theorem ends_remove_told {m : Moment} {d : Document} (hm : m.released? = some id)
    (hd : w.document? id = some d) (closed : ¬ w.Open id) :
    Ends (remove call id) (w.passed m) fun _ w' =>
      w.Tends [] w' ∧ (w.Regular → Void w'.moments ∨ ¬ w'.Idle id) := by
  have hf : w.fileOf? id = some d.file := by rw [Workspace.fileOf?, hd]; rfl
  have more : w.moments <+: (w.passed m).moments := Workspace.moments_prefix_passed w m
  have orderly_of {m' : Moment} (h : Orderly ((w.passed m).moments ++ [m'])) :
      Orderly (w.passed m).moments := (Moment.orderly_append.mp h).1
  rw [ends_remove_iff (w := w.passed m) hd]
  cases hc : (w.passed m).tracked.contains d.file with
  | false =>
    rw [if_neg Bool.false_ne_true]
    have untracked : w.tracked.get? d.file = none := by
      rw [Table.get?_eq_none_iff, ← Table.contains_iff]
      exact Bool.eq_false_iff.mp hc
    have void (regular : w.Regular) : Void ((w.passed m).passed (.missing id)).moments := by
      have gone : w.Removed id := ⟨d.file, hf, by rw [untracked]; exact (Option.some_ne_none id).symm⟩
      right
      rw [Workspace.moments_passed (w.passed m)]
      constructor
      · exact fun orderly => (disorderly hm regular gone).2 (orderly_of orderly)
      · exact Or.inl ⟨id, List.mem_append_right _ (List.mem_singleton_self _)⟩
    refine ⟨⟨more.trans (Workspace.moments_prefix_passed _ _), fun _ _ h => h, ?_⟩, ?_⟩
    · exact fun regular => Or.inl (void regular)
    · exact fun regular => Or.inl (void regular)
  | true =>
    rw [if_pos rfl]
    refine (ends_closed heeding _).mono ?_
    rintro _ w' ⟨w₁, documents, tracked, moments, h₁⟩
    have onward : w.moments <+: w₁.moments := by
      rw [moments]
      exact more.trans (List.prefix_append _ _)
    have files : ∀ id file, w.fileOf? id = some file → w₁.fileOf? id = some file := by
      intro id file hf
      rw [Workspace.fileOf?, Workspace.document?, documents]
      exact hf
    -- Either it is still there to be removed, or it was removed while listeners were told.
    have removed : w.Regular → Void w₁.moments ∨
        (w₁.Regular ∧ ∀ id', w₁.Idle id' → w.Idle id' ∧ id' ≠ id) := by
      intro regular
      by_cases here : w.tracked.get? d.file = some id
      · right
        exact (regular_told hm regular (regular.not_removed here)).removed here closed documents
          tracked moments
      · left
        right
        obtain ⟨told, disorder⟩ := disorderly hm regular ⟨d.file, hf, here⟩
        rw [moments]
        refine ⟨fun orderly => disorder (orderly_of orderly), Or.inr ⟨id, ?_⟩⟩
        rw [List.count_append, List.count_singleton, if_pos (beq_self_eq_true _)]
        exact Nat.succ_le_succ (List.count_pos_iff.mpr (more.subset told))
    have tends : w.Tends [] w₁ := by
      refine ⟨onward, files, fun regular => (removed regular).imp_right fun h => ⟨h.1, ?_⟩⟩
      exact fun id' idle => Or.inr (h.2 id' idle).1
    refine ⟨tends.trans h₁, fun regular => ?_⟩
    rcases removed regular with void | ⟨regular₁, idle⟩
    · exact Or.inl (void.mono h₁.moments)
    · exact h₁.not_idle regular₁ fun still => (idle id still).2 rfl

/-- Listeners have been told that one side has let go of a document. It is removed unless it is open. -/
theorem ends_leave {m : Moment} (hm : m.released? = some id) (hf : w.fileOf? id = some file) :
    Ends (do if !(← document id).isOpen then remove call id) (w.passed m) fun _ w' =>
      w.Tends [] w' ∧ (w.Regular → Void w'.moments ∨ ¬ w'.Idle id) := by
  obtain ⟨d, hd, rfl⟩ := Option.map_eq_some_iff.mp hf
  rw [Work.ends_bind, ends_document_iff, Work.next_ok,
    show (w.passed m).document? id = some d from hd, Option.getD_some]
  cases ho : d.isOpen with
  | true =>
    have is_open : w.Open id := ⟨d, hd, ho⟩
    refine ⟨⟨Workspace.moments_prefix_passed w m, fun _ _ h => h, fun regular => Or.inr ⟨?_, ?_⟩⟩, ?_⟩
    · exact regular_told hm regular fun gone => regular.released id gone is_open
    · exact fun _ idle => Or.inr idle
    · exact fun _ => Or.inr fun idle => idle.2 is_open
  | false =>
    apply ends_remove_told heeding hm hd
    rintro ⟨d', hd', open'⟩
    rw [hd] at hd'
    cases hd'
    rw [ho] at open'
    cases open'

/-- One side lets go of a document, listeners are told, and it is removed unless it is open. -/
theorem ends_letGo {w₁ : Workspace} (h : w.Tends [id] w₁) {topic : Topic}
    (hm : (Moment.told topic (some id)).released? = some id) (hf : w₁.fileOf? id = some file)
    (telling : (Moment.telling topic (some id)).isPlain = true) :
    Ends (do
      fire call topic (some id)
      if !(← document id).isOpen then remove call id) w₁ fun _ w' => w.Tends [] w' := by
  rw [Work.ends_bind, ends_fire_iff]
  refine (tending_deliver heeding topic (some id) _ _).mono fun _ w₂ h₂ => ?_
  have told : w₁.Tends [] w₂ := (Tends.passed w₁ telling).trans h₂
  rw [Work.next_ok]
  refine (ends_leave heeding hm (told.files id file hf)).mono ?_
  rintro _ w' ⟨h', gone⟩
  exact (h.trans told.widen).settle h' gone

omit heeding in
theorem fileOf?_of_documents {w₁ : Workspace} (documents : w₁.documents = w.documents) (id : DocumentId) :
    w₁.fileOf? id = w.fileOf? id := by
  rw [Workspace.fileOf?, Workspace.fileOf?, Workspace.document?, Workspace.document?, documents]

theorem tending_releaseOnServer (id : DocumentId) : Tending (releaseOnServer call id) := by
  intro w
  rw [releaseOnServer, Work.ends_bind, ends_document_iff, Work.next_ok]
  cases held : ((w.document? id).getD default).onServer with
  | false => exact .refl w
  | true =>
    have hd := document?_of_ne (p := Document.onServer) held rfl
    let f : Document → Document := ({ · with onServer := false })
    let w₁ : Workspace := { w with documents := w.documents.modify id f }
    have released : w.Tends [id] w₁ := by
      apply tends_released (f := f) fun _ => rfl
      intro d
      simp only [f, Document.isOpen, Bool.or_false, Bool.or_eq_true]
      exact Or.inl
    have hf : w₁.fileOf? id = some ((w.document? id).getD default).file := by
      rw [fileOf?_update w (f := f) fun _ => rfl, Workspace.fileOf?, hd]
      rfl
    rw [if_pos rfl, Work.ends_bind, update, Work.ends_modify, Work.next_ok, Work.ends_bind,
      ends_document_iff, Work.next_ok]
    split
    · refine (aside_unwatch _).ends_bind fun w₂ documents tracked moments => ?_
      have same : w₁.Tends [id] w₂ := .of_same documents tracked moments
      exact ends_letGo heeding (released.trans same) rfl ((fileOf?_of_documents documents id).trans hf) rfl
    · exact ends_letGo heeding released rfl hf rfl

theorem tending_closeOnServer (locator : Locator) : Tending (closeOnServer call locator) := by
  refine (along_find locator).bind fun found => ?_
  cases found with
  | none => exact Work.along_pure ()
  | some id => exact tending_releaseOnServer heeding id

theorem tending_closeOnClient (uri : String) : Tending (closeOnClient call uri) := by
  refine (along_find _).bind fun found => ?_
  cases found with
  | none => exact Work.along_pure ()
  | some id =>
    intro w
    dsimp only
    rw [Work.ends_bind, ends_document_iff, Work.next_ok]
    cases held : ((w.document? id).getD default).onClient with
    | false => exact .refl w
    | true =>
      have hd := document?_of_ne (p := Document.onClient) held rfl
      let f : Document → Document := ({ · with onClient := false })
      let w₁ : Workspace := { w with documents := w.documents.modify id f }
      have released : w.Tends [id] w₁ := by
        apply tends_released (f := f) fun _ => rfl
        intro d
        simp only [f, Document.isOpen, Bool.false_or, Bool.or_eq_true]
        exact Or.inr
      have hf : w₁.fileOf? id = some ((w.document? id).getD default).file := by
        rw [fileOf?_update w (f := f) fun _ => rfl, Workspace.fileOf?, hd]
        rfl
      have told : ∀ w₂, w₂.documents = w₁.documents → w₂.tracked = w₁.tracked →
          w₂.moments = w₁.moments → Ends (do
            invalidate
            fire call .closedOnClient (some id)
            if !(← document id).isOpen then remove call id) w₂ fun _ w' => w.Tends [] w' := by
        intro w₂ documents tracked moments
        have same : w₁.Tends [id] w₂ := .of_same documents tracked moments
        refine aside_invalidate.ends_bind fun w₃ documents' tracked' moments' => ?_
        have same' : w₂.Tends [id] w₃ := .of_same documents' tracked' moments'
        have hf' : w₃.fileOf? id = _ :=
          ((fileOf?_of_documents documents' id).trans (fileOf?_of_documents documents id)).trans hf
        exact ends_letGo heeding ((released.trans same).trans same') rfl hf' rfl
      rw [if_pos rfl, Work.ends_bind, update, Work.ends_modify, Work.next_ok]
      split
      · exact (aside_watch _).ends_bind told
      · exact told w₁ rfl rfl rfl

theorem tending_announce (id : DocumentId) (isNew hasChanged : Bool) {opened : Option Topic}
    (opening : ∀ topic, opened = some topic → topic = .openedOnClient ∨ topic = .openedOnServer) :
    Tending (announce call id isNew hasChanged opened) := by
  have changed : Tending (do
      fire call .contentChanged (some id)
      Gate.request (report call)) :=
    (tending_fire heeding rfl rfl).bind fun _ => tending_request heeding
  have opens : ∀ {rest : Task Unit}, Tending rest →
      Tending (tellOpened call id opened rest) := by
    intro rest hr
    cases opened with
    | some topic =>
      refine Along.bind ?_ fun _ => hr
      rcases opening topic rfl with rfl | rfl
      · exact tending_fire heeding rfl rfl
      · exact tending_fire heeding rfl rfl
    | none => exact hr
  have created : Tending (fire call .created (some id)) := tending_fire heeding rfl rfl
  rw [announce_eq]
  cases hasChanged with
  | true =>
    refine aside_invalidate.tending.bind fun _ => ?_
    cases isNew with
    | true => exact created.bind fun _ => opens changed
    | false => exact opens changed
  | false =>
    cases isNew with
    | true => exact created.bind fun _ => opens (Work.along_pure ())
    | false => exact opens (Work.along_pure ())

theorem tending_updateOnClient (uri text : String) : Tending (updateOnClient call uri text) := by
  refine (along_fileName _).bind fun file w => ?_
  apply (ends_getOrCreate_tends file).bind
  · rintro made w₁ ⟨_, ⟨⟩, h₁, ht⟩
    rw [Work.ends_bind, ends_document_iff, Work.next_ok]
    apply ends_opened (takes_holdOnClient _) h₁ ht (f := ({ · with uri := uri, text := some text }))
      (fun _ => rfl) fun _ => rfl
    apply tending_announce heeding
    intro topic h
    split at h
    · cases h
    · cases h
      exact Or.inl rfl
  · rintro _ _ ⟨_, failed, -⟩
    cases failed

theorem tending_changeOnClient (uri : String) (texts : List String) :
    Tending (changeOnClient call uri texts) := by
  rw [changeOnClient]
  cases texts.getLast? with
  | none => exact Work.along_pure ()
  | some text => exact tending_updateOnClient heeding uri text

/-- What can be a file can be shown under a URI, so that no document is left without a holder. -/
theorem tending_openOnServer (locator : Locator) : Tending (openOnServer call locator) := by
  intro w
  rw [openOnServer]
  refine ends_fileName (fun _ _ => .refl w) fun file hf => ?_
  obtain ⟨u, hu⟩ := uri_of_fileName hf
  apply (tending_readFile file w).bind
  · intro found w₁ h₁
    cases found with
    | none => exact h₁
    | some text =>
      apply (ends_getOrCreate_tends file).bind
      · rintro made w₂ ⟨_, ⟨⟩, h₂, ht⟩
        rw [Work.ends_bind, ends_document_iff, Work.next_ok, uri, hu, Work.ends_bind, Work.ends_ofExcept,
          Work.next_ok]
        refine (ends_opened (takes_holdOnServer _) (h₁.widen.trans h₂) ht
          (f := ({ · with uri := u, text := some text })) (fun _ => rfl) (fun _ => rfl) ?_)
        refine Along.bind (tending_announce heeding _ _ _ ?_) fun _ => Work.along_pure _
        intro topic h
        split at h
        · cases h
        · cases h
          exact Or.inr rfl
      · rintro _ _ ⟨_, failed, -⟩
        cases failed
  · exact fun _ _ h₁ => h₁

theorem tending_readForCompiler (file : String) : Tending (readForCompiler call file) := by
  have give : ∀ id : DocumentId, Tending (do
      update id ({ · with isMarked := true })
      return (← document id).text) := fun id =>
    (tending_update id (f := ({ · with isMarked := true })) (fun _ => rfl) fun _ => rfl).bind fun _ =>
      (along_document id).bind fun _ =>
      Work.along_pure _
  intro w
  rw [readForCompiler, Work.ends_bind, Work.ends_get, Work.next_ok]
  cases w.tracked.get? file with
  | some id => exact give id w
  | none =>
    dsimp only
    apply (tending_readFile file w).bind
    · intro found w₁ h₁
      cases found with
      | none => exact h₁
      | some text =>
        apply (ends_getOrCreate_tends file).bind
        · rintro made w₂ ⟨_, ⟨⟩, h₂, ht⟩
          rw [Work.ends_bind]
          refine ends_uri_text fun u _ => ?_
          rw [Work.next_ok]
          apply ends_opened (takes_holdOnServer _) (h₁.widen.trans h₂) ht
            (f := ({ · with uri := u, text := some text })) (fun _ => rfl) fun _ => rfl
          exact (tending_fire heeding rfl rfl).bind fun _ => (tending_fire heeding rfl rfl).bind fun _ =>
            give made.1
        · rintro _ _ ⟨_, failed, -⟩
          cases failed
    · exact fun _ _ h₁ => h₁

end

end Task
end GrammarWorkspace
