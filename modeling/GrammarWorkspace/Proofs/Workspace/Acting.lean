import GrammarWorkspace.Proofs.Workspace.Progress
import GrammarWorkspace.Proofs.Workspace.Registry

/-!
# What actions and listeners bring

Every operation is followed under listeners that may do all that actions can do. Each takes as much
as it was given, so what a script brings has been counted before it is played.
-/
namespace GrammarWorkspace

open Grammar (Compilation Replays Source)
open Work (Ends Along Inside)

namespace Workspace

variable {w w' : Workspace}

theorem restlessness_append {s : Script} (h : w'.scripts = w.scripts ++ [s]) :
    w'.restlessness = w.restlessness + s.weight := by
  rw [restlessness, restlessness, h]
  generalize w.scripts = scripts
  induction scripts with
  | nil => simp
  | cons script rest ih =>
    simp only [List.cons_append, List.foldr_cons, ih]
    omega

theorem restlessness_set {number : Nat} {s t : Script} (hn : w.scripts[number]? = some s)
    (h : w'.scripts = w.scripts.set number t) :
    w'.restlessness + s.weight = w.restlessness + t.weight := by
  rw [restlessness, restlessness, h]
  generalize w.scripts = scripts at hn
  clear h
  induction scripts generalizing number with
  | nil => cases hn
  | cons script rest ih =>
    cases number with
    | zero =>
      cases hn
      simp only [List.set_cons_zero, List.foldr_cons]
      omega
    | succ number =>
      have := ih hn
      simp only [List.set_cons_succ, List.foldr_cons]
      omega

theorem room_of_same_files (w w' : Workspace) (tracked : w'.tracked = w.tracked) (disk : w'.disk = w.disk)
    (seen : List String) : w'.room seen + w.restlessness = w.room seen + w'.restlessness := by
  rw [room, room, tracked, disk]
  omega

end Workspace

open Workspace (Proceeding inside_proceeding)

namespace Task

variable {α β : Type} {k depth : Nat} {w : Workspace} {call : Calling} {reports : Task Unit}

/-- Listeners, when they are called, bring no more than has been counted. -/
def Told (call : Calling) : Prop := ∀ listener topic about, Along (Proceeding 0) (call listener topic about)

theorem proceeding_suspended (h : Along (Proceeding 0) reports) {task : Task α} (ht : Along (Proceeding k) task) :
    Along (Proceeding k) (Gate.suspended reports task) :=
  (inside_proceeding k).bind_before (proceeding_change _) fun _ =>
    (inside_proceeding k).ensuring ht (Gate.along_resume proceeding_change h)

theorem proceeding_rebuilding (h : Along (Proceeding 0) reports) {task : Task α} (ht : Along (Proceeding k) task) :
    Along (Proceeding k) (Gate.rebuilding reports task) :=
  (inside_proceeding k).bind_before Gate.along_read fun _ => (inside_proceeding k).bind_before (proceeding_change _) fun _ =>
    (inside_proceeding k).bind_after ((inside_proceeding k).ensuring ht (proceeding_change _)) fun _ =>
      (Gate.along_flush proceeding_change h).bind fun _ => Work.along_pure _

theorem proceeding_holdOnClient (id : DocumentId) : Along (Proceeding 0) (holdOnClient id) := by
  refine (along_document id).bind fun d => ?_
  split
  · refine (proceeding_update _ _).bind fun _ => proceeding_invalidate.bind fun _ =>
      (along_document id).bind fun d => ?_
    split
    · exact proceeding_unwatch _
    · exact Work.along_pure ()
  · exact Work.along_pure ()

theorem proceeding_holdOnServer (id : DocumentId) : Along (Proceeding 0) (holdOnServer id) := by
  refine (along_document id).bind fun d => ?_
  split
  · refine (proceeding_update _ _).bind fun _ => (along_document id).bind fun d => ?_
    split
    · exact proceeding_watch _
    · exact Work.along_pure ()
  · exact Work.along_pure ()

variable (told : Told call)

include told

theorem proceeding_fire (topic : Topic) (about : Option DocumentId) : Along (Proceeding 0) (fire call topic about) :=
  along_fire proceeding_pass told topic about

theorem proceeding_report : Along (Proceeding 0) (report call) := proceeding_fire told .updated none

theorem proceeding_request : Along (Proceeding 0) (Gate.request (report call)) :=
  Gate.along_request proceeding_change (proceeding_report told)

theorem proceeding_remove (id : DocumentId) : Along (Proceeding 0) (remove call id) := by
  refine (along_document id).bind fun d => Work.along_get_bind fun w => ?_
  split
  · exact proceeding_pass _ w
  · have erased : w.Proceeds 0 { w with tracked := w.tracked.erase d.file } :=
      .of_no_new_file (.of_same (List.prefix_refl _) rfl rfl)
        (fun f hm => hm.imp_left fun hm => (Table.mem_keys_erase.mp hm).1) rfl (Or.inl rfl)
    have after : Along (Proceeding 0) (do
        invalidate
        fire call .closed (some id)
        Gate.request (report call)) :=
      proceeding_invalidate.bind fun _ => (proceeding_fire told _ _).bind fun _ => proceeding_request told
    rw [Work.ends_bind, Work.ends_set, Work.next_ok]
    exact (after _).mono fun _ _ h => erased.trans h

theorem proceeding_letGo (topic : Topic) (id : DocumentId) : Along (Proceeding 0) (letGo call topic id) := by
  refine (proceeding_fire told _ _).bind fun _ => (along_document id).bind fun d => ?_
  split
  · exact proceeding_remove told id
  · exact Work.along_pure ()

theorem proceeding_releaseOnServer (id : DocumentId) : Along (Proceeding 0) (releaseOnServer call id) := by
  refine (along_document id).bind fun d => ?_
  split
  · refine (proceeding_update _ _).bind fun _ => (along_document id).bind fun d => ?_
    split
    · exact (proceeding_unwatch _).bind fun _ => proceeding_letGo told _ id
    · exact proceeding_letGo told _ id
  · exact Work.along_pure ()

theorem proceeding_announce (id : DocumentId) (isNew hasChanged : Bool) (opened : Option Topic) :
    Along (Proceeding 0) (announce call id isNew hasChanged opened) := by
  have tells (hasChanged : Bool) : Along (Proceeding 0) (tell call id isNew hasChanged opened) :=
    along_tell Inside.self (proceeding_fire told _ _) (fun topic _ => proceeding_fire told topic _)
      (proceeding_fire told _ _) (proceeding_request told)
  rw [announce_eq]
  cases hasChanged with
  | true => exact proceeding_invalidate.bind fun _ => tells true
  | false => exact tells false

theorem proceeding_openOnServer (locator : Locator) : Along (Proceeding 0) (openOnServer call locator) := by
  refine (along_fileName locator).bind fun file w => ?_
  refine (ends_readFile_proceeds file).bind (fun found w₁ h₁ => ?_) fun _ _ h₁ => h₁.1
  obtain ⟨read, disk_eq, on_disk⟩ := h₁
  cases found with
  | none => exact read
  | some text =>
    have here : file ∈ w₁.disk.keys := by
      rw [disk_eq]
      exact on_disk text rfl
    have got := ends_getOrCreate_proceeds (w := w₁) file
    rw [if_pos here] at got
    refine got.bind (fun made w₂ h₂ => ?_) fun _ _ h₂ => read.trans h₂
    have rest : Along (Proceeding 0) (do
        let before ← document made.1
        let uri ← uri locator
        update made.1 ({ · with uri := uri, text := some text })
        holdOnServer made.1
        announce call made.1 made.2 (before.text ≠ some text)
          (if before.onServer then none else some .openedOnServer)
        return some made.1) :=
      (along_document _).bind fun _ => (along_uri _).bind fun _ => (proceeding_update _ _).bind fun _ =>
        (proceeding_holdOnServer _).bind fun _ => (proceeding_announce told _ _ _ _).bind fun _ =>
          Work.along_pure _
    exact (rest w₂).mono fun _ _ h₃ => (read.trans h₂).trans h₃

theorem proceeding_closeOnServer (locator : Locator) : Along (Proceeding 0) (closeOnServer call locator) := by
  refine (along_find locator).bind fun found => ?_
  cases found with
  | none => exact Work.along_pure ()
  | some id => exact proceeding_releaseOnServer told id

/-- Only the document that is given a text may be of a new file. -/
theorem proceeding_updateOnClient (uri text : String) : Along (Proceeding 1) (updateOnClient call uri text) :=
  (inside_proceeding 1).bind_before (along_fileName _) fun file =>
    (inside_proceeding 1).bind_after (proceeding_getOrCreate file) fun _ => (along_document _).bind fun _ =>
      (proceeding_update _ _).bind fun _ => (proceeding_holdOnClient _).bind fun _ =>
        proceeding_announce told _ _ _ _

theorem proceeding_changeOnClient (uri : String) (texts : List String) :
    Along (Proceeding 1) (changeOnClient call uri texts) := by
  rw [changeOnClient]
  cases texts.getLast? with
  | none => exact (Work.along_pure ()).mono fun _ _ => (inside_proceeding 1).widen
  | some text => exact proceeding_updateOnClient told uri text

theorem proceeding_closeOnClient (uri : String) : Along (Proceeding 0) (closeOnClient call uri) := by
  refine (along_find _).bind fun found => ?_
  cases found with
  | none => exact Work.along_pure ()
  | some id =>
    have closed : Along (Proceeding 0) (do invalidate; letGo call .closedOnClient id) :=
      proceeding_invalidate.bind fun _ => proceeding_letGo told _ id
    refine (along_document id).bind fun d => ?_
    dsimp only
    split
    · refine (proceeding_update _ _).bind fun _ => ?_
      split
      · exact (proceeding_watch _).bind fun _ => closed
      · exact closed
    · exact Work.along_pure ()

/-- What the compiler gets to read is tracked or on disk. Of a document it gets the text. -/
theorem ends_readForCompiler_proceeds (file : String) : Ends (readForCompiler call file) w
    fun r w' => w.Proceeds 0 w' ∧ ∀ answer, r = .ok answer →
      (∀ text, answer = some text → file ∈ w.tracked.keys ∨ file ∈ w.disk.keys) ∧
        ∀ d, (w.tracked.get? file).bind w.document? = some d → answer = d.text := by
  have gives (id : DocumentId) : Along (Proceeding 0) (give id) :=
    (proceeding_update _ _).bind fun _ => (along_document id).bind fun _ => Work.along_pure _
  rw [readForCompiler, Work.ends_bind, Work.ends_get, Work.next_ok]
  cases ht : w.tracked.get? file with
  | some id =>
    have given : Ends (give id) w fun r _ => ∀ d, w.document? id = some d → r = .ok d.text := by
      intro d hd
      exact (ends_give_of (Q := fun r _ => r = .ok d.text) hd).mpr rfl
    refine Work.Ends.mono ((gives id w).and given) ?_
    rintro r w' ⟨proceeds, text⟩
    refine ⟨proceeds, fun answer hr => ⟨fun _ _ => Or.inl (Table.mem_keys_of_get? ht), fun d hd => ?_⟩⟩
    have same := text d hd
    rw [hr] at same
    exact Except.ok.inj same
  | none =>
    dsimp only
    refine (ends_readFile_proceeds file).bind (fun found w₁ h₁ => ?_) fun _ _ h₁ =>
      ⟨h₁.1, fun _ hr => by cases hr⟩
    obtain ⟨read, disk_eq, on_disk⟩ := h₁
    cases found with
    | none =>
      refine ⟨read, fun answer hr => ⟨fun text found => ?_, fun d none => ?_⟩⟩
      · cases hr
        cases found
      · cases none
    | some text =>
      have here : file ∈ w₁.disk.keys := by
        rw [disk_eq]
        exact on_disk text rfl
      have got := ends_getOrCreate_proceeds (w := w₁) file
      rw [if_pos here] at got
      refine got.bind (fun made w₂ h₂ => ?_) fun _ _ h₂ => ⟨read.trans h₂, fun _ hr => by cases hr⟩
      have rest : Along (Proceeding 0) (do
          let uri ← uri (.text file)
          update made.1 ({ · with uri := uri, text := some text })
          holdOnServer made.1
          fire call .created (some made.1)
          fire call .openedOnServer (some made.1)
          give made.1) :=
        (along_uri _).bind fun _ => (proceeding_update _ _).bind fun _ => (proceeding_holdOnServer _).bind fun _ =>
          (proceeding_fire told _ _).bind fun _ => (proceeding_fire told _ _).bind fun _ => gives made.1
      refine (rest w₂).mono fun r w₃ h₃ => ⟨(read.trans h₂).trans h₃, fun answer _ => ⟨fun _ _ => ?_, fun d none => ?_⟩⟩
      · exact Or.inr (on_disk text rfl)
      · cases none

theorem ends_fetch_proceeds {serial : Nat} (early : serial < w.begun) (file : String) :
    Ends (fetch call serial file) w fun r w' => w.Proceeds 0 w' (some serial) ∧ ∀ answer, r = .ok answer →
      w'.reads serial = w.reads serial ++ [(file, answer)] ∧
        ∀ text, answer = some text → file ∈ w.tracked.keys ∨ file ∈ w.disk.keys := by
  rw [fetch, Work.ends_bind, Work.ends_get, Work.next_ok]
  refine (ends_readForCompiler_proceeds told file).bind (fun answer w₁ h₁ => ?_) fun _ _ h₁ =>
    ⟨h₁.1.inside, fun _ hr => by cases hr⟩
  obtain ⟨read, here⟩ := h₁
  obtain ⟨readable, honest⟩ := here answer rfl
  rw [Work.ends_bind, Work.ends_modify, Work.next_ok, Work.ends_pure]
  let f : Fetch := ⟨serial, file, (w.tracked.get? file).bind w.document?, answer⟩
  have noted : w₁.Proceeds 0 (w₁.fetched f) (some serial) := by
    refine .of_same_files ⟨List.prefix_refl _, List.prefix_refl _, [f], rfl, fun g hm => ?_⟩ rfl rfl rfl (Or.inl rfl)
    rw [List.mem_singleton.mp hm]
    exact ⟨Or.inr rfl, early.trans_le read.begun, honest⟩
  refine ⟨.trans_of ?_ read.inside noted, fun answer' hr => ?_⟩
  · rintro _ ⟨⟩
    exact early
  · cases hr
    refine ⟨?_, readable⟩
    rw [← read.reads_eq early (fun none => by cases none), Workspace.reads, Workspace.reads, Workspace.fetched,
      List.filter_append]
    simp

/-- Reading for a compilation that has begun, listeners bring no more than has been counted. -/
theorem notes_fetch {serial : Nat} {w : Workspace} (early : serial < w.begun) : Grammar.Notes (fetch call serial)
    (fun w' => w.Proceeds 0 w' (some serial)) (fun seen w => w.room seen) (·.reads serial) where
  holds _ _ nodup := Workspace.length_le_room nodup
  reads seen file w₁ h₁ := by
    refine (ends_fetch_proceeds told (early.trans_le h₁.begun) file).mono fun r w' h' => ?_
    have less : ∀ seen, w'.room seen ≤ w₁.room seen := fun seen => by
      have := h'.1.room_le seen
      omega
    refine ⟨.trans_of ?_ h₁ h'.1, less seen, fun answer hr => ?_⟩
    · rintro _ ⟨⟩
      exact early
    · obtain ⟨noted, readable⟩ := h'.2 answer hr
      refine ⟨noted, fun text found => ?_⟩
      rw [← Workspace.room_append_of_mem (readable text found) seen]
      exact less _

omit told in
theorem ends_markRoots_proceeds : Ends markRoots w fun r w' => r = .ok w.scene.roots ∧ w.Proceeds 0 w' ∧
    w'.compilation = w.compilation ∧ w'.builds = w.builds := by
  rw [markRoots, Work.ends_bind, Work.ends_get, Work.next_ok]
  refine (Work.ends_forM (I := fun _ w' => w.Proceeds 0 w' ∧ w'.compilation = w.compilation ∧ w'.builds = w.builds)
    _ _ ⟨.refl w, rfl, rfl⟩ ?_).bind ?_ ?_
  · rintro _ id _ _ w' ⟨proceeds, same⟩
    exact ⟨rfl, proceeds.trans (proceeding_update id _ w'), same⟩
  · exact fun _ _ h => ⟨rfl, h.2⟩
  · rintro fault w' ⟨failed, -⟩
    cases failed

theorem ends_loadAnew_stems : Ends (loadAnew call) w fun r w' => w.Proceeds 0 w' ∧
    ∀ c, r = .ok c → w.Dated → w.begun ≤ c.serial ∧ w'.Stems c := by
  have counted : w.Proceeds 0 w.counted :=
    .of_same_files ⟨List.prefix_refl _, List.prefix_append _ _, [], (List.append_nil _).symm, fun _ hm => by cases hm⟩
      rfl rfl rfl (Or.inl rfl)
  rw [loadAnew, Work.ends_bind, ends_beginBuild, Work.next_ok]
  refine ends_markRoots_proceeds.bind ?_ ?_
  · rintro roots w₁ ⟨answer, marked, same, builds⟩
    cases answer
    have before := counted.trans marked
    have early : w.begun < w₁.begun := by
      rw [Workspace.begun, Workspace.begun, builds]
      simp [Workspace.counted]
    rw [Work.ends_bind, Work.ends_get, Work.next_ok, Compilation.load]
    apply (Grammar.ends_loadFrom_replays (notes_fetch told early) (readableBound w₁ + 1) {} _ (.refl w₁) ?_).bind
    · rintro sources w₂ ⟨loading, replays⟩
      refine ⟨.since_begun before same (Nat.le_refl _) loading, fun c hr dated => ?_⟩
      cases hr
      obtain ⟨reads, noted, replays⟩ := replays sources rfl
      have begun : w₂.builds[w.begun]? = some w.scene := by
        obtain ⟨more, later⟩ := loading.builds
        rw [← later, builds, Workspace.counted, Workspace.begun, List.append_assoc,
          List.getElem?_append_right (Nat.le_refl _), Nat.sub_self]
        rfl
      -- Nothing has been read for the number before.
      have fresh : w₁.reads w.begun = [] := by
        have kept : w₁.reads w.begun = w.counted.reads w.begun :=
          marked.reads_eq (by simp [Workspace.begun, Workspace.counted]) fun none => by cases none
        exact kept.trans dated.reads_begun
      rw [fresh, List.nil_append] at noted
      refine ⟨Nat.le_refl _, ⟨w.scene, begun, rfl⟩, w₁.previous, ?_⟩
      change Replays _ _ _ (w₂.reads w.begun) _
      rw [noted]
      exact replays
    · exact fun fault w₂ h₂ => ⟨.since_begun before same (Nat.le_refl _) h₂.1, fun _ failed => by cases failed⟩
    · exact Nat.lt_of_lt_of_eq w₁.room_nil_lt (Nat.zero_add _).symm
  · rintro fault w₁ ⟨failed, -⟩
    cases failed

theorem proceeding_sweep : Along (Proceeding 0) (sweep call) :=
  .get_bind fun _ => Work.along_forM _ fun id => (along_document id).bind fun d => by
    split
    · exact proceeding_releaseOnServer told id
    · exact Work.along_pure ()

end Task
end GrammarWorkspace
