import GrammarWorkspace.Proofs.Along
import GrammarWorkspace.Workspace.State
import Mathlib.Data.List.Infix

/-! When documents are removed. Listeners may act in the middle of this, and as long as none of them
has a document removed that is being let go of, each goes just once and just when it is not open any
more. -/
namespace GrammarWorkspace

namespace Moment

def released? : Moment → Option DocumentId
  | .told .closedOnClient about | .told .closedOnServer about => about
  | _ => none

def isPlain : Moment → Bool
  | .telling .closed _ | .missing _ | .forgotten => false
  | m => m.released?.isNone

/-- No document is removed before all have been told that one of its sides has let go of it. -/
def Orderly (moments : List Moment) : Prop :=
  moments.Pairwise fun earlier later => ∀ id, later.released? = some id → earlier ≠ .telling .closed (some id)

def Broken (moments : List Moment) : Prop :=
  (∃ id, .missing id ∈ moments) ∨ ∃ id, 2 ≤ moments.count (.telling .closed (some id))

def Void (moments : List Moment) : Prop := .forgotten ∈ moments ∨ (¬ Orderly moments ∧ Broken moments)

variable {moments moments' : List Moment} {m : Moment}

theorem orderly_append : Orderly (moments ++ [m]) ↔
    Orderly moments ∧ ∀ id, m.released? = some id → .telling .closed (some id) ∉ moments := by
  rw [Orderly, List.pairwise_append]
  constructor
  · rintro ⟨orderly, -, across⟩
    refine ⟨orderly, fun id released mem => ?_⟩
    exact across _ mem m (List.mem_singleton_self m) id released rfl
  · rintro ⟨orderly, apart⟩
    refine ⟨orderly, List.pairwise_singleton _ _, fun earlier mem later last id released same => ?_⟩
    rw [List.mem_singleton.mp last] at released
    rw [same] at mem
    exact apart id released mem

theorem Void.mono (h : Void moments) (more : moments <+: moments') : Void moments' := by
  rcases h with forgotten | ⟨disorder, broken⟩
  · exact Or.inl (more.subset forgotten)
  · right
    constructor
    · intro orderly
      exact disorder (orderly.sublist more.sublist)
    · rcases broken with ⟨id, missing⟩ | ⟨id, twice⟩
      · exact Or.inl ⟨id, more.subset missing⟩
      · exact Or.inr ⟨id, Nat.le_trans twice (more.sublist.count_le _)⟩

end Moment

open Moment (Orderly Broken Void)

namespace Workspace

def fileOf? (w : Workspace) (id : DocumentId) : Option String := (w.document? id).map Document.file

def Latest (w : Workspace) (file : String) (id : DocumentId) : Prop :=
  w.fileOf? id = some file ∧ ∀ id', w.fileOf? id' = some file → id' ≤ id

def Open (w : Workspace) (id : DocumentId) : Prop := ∃ d, w.document? id = some d ∧ d.isOpen = true

def Removed (w : Workspace) (id : DocumentId) : Prop :=
  ∃ file, w.fileOf? id = some file ∧ w.tracked.get? file ≠ some id

def Idle (w : Workspace) (id : DocumentId) : Prop :=
  (∃ file, w.tracked.get? file = some id) ∧ ¬ w.Open id

def closings (w : Workspace) (id : DocumentId) : Nat := w.moments.count (.telling .closed (some id))

structure Regular (w : Workspace) : Prop where
  filed : ∀ file id, w.tracked.get? file = some id → w.Latest file id
  never_missing : ∀ id, .missing id ∉ w.moments
  released : ∀ id, w.Removed id → ¬ w.Open id
  closed_once : ∀ id, w.Removed id → w.closings id = 1
  unclosed : ∀ id, ¬ w.Removed id → w.closings id = 0
  orderly : Orderly w.moments

/-- What may happen while some documents are being opened or closed. Whatever others are idle have
been so before. -/
structure Tends (busy : List DocumentId) (w w' : Workspace) : Prop where
  moments : w.moments <+: w'.moments
  files : ∀ id file, w.fileOf? id = some file → w'.fileOf? id = some file
  regular : w.Regular → Void w'.moments ∨ (w'.Regular ∧ ∀ id, w'.Idle id → id ∈ busy ∨ w.Idle id)

variable {w w' w'' : Workspace} {busy : List DocumentId} {id : DocumentId} {file : String} {m : Moment}

theorem Regular.not_removed (h : w.Regular) (tracked : w.tracked.get? file = some id) :
    ¬ w.Removed id := by
  rintro ⟨other, of_other, gone⟩
  rw [(h.filed file id tracked).1] at of_other
  cases of_other
  exact gone tracked

theorem Regular.not_told (h : w.Regular) (here : ¬ w.Removed id) :
    .telling .closed (some id) ∉ w.moments :=
  List.count_eq_zero.mp (h.unclosed id here)

namespace Tends

theorem refl (w : Workspace) : w.Tends busy w :=
  ⟨List.prefix_refl _, fun _ _ h => h, fun h => Or.inr ⟨h, fun _ idle => Or.inr idle⟩⟩

theorem trans (h : w.Tends busy w') (h' : w'.Tends busy w'') : w.Tends busy w'' where
  moments := h.moments.trans h'.moments
  files id file hf := h'.files id file (h.files id file hf)
  regular regular := by
    rcases h.regular regular with void | ⟨regular', idle⟩
    · exact Or.inl (void.mono h'.moments)
    · rcases h'.regular regular' with void | ⟨regular'', idle'⟩
      · exact Or.inl void
      · refine Or.inr ⟨regular'', fun id hi => ?_⟩
        rcases idle' id hi with hb | hi
        · exact Or.inl hb
        · exact idle id hi

theorem widen (h : w.Tends [] w') : w.Tends busy w' where
  moments := h.moments
  files := h.files
  regular regular := by
    refine (h.regular regular).imp_right fun ⟨regular', idle⟩ => ⟨regular', fun id hi => ?_⟩
    exact Or.inr ((idle id hi).resolve_left List.not_mem_nil)

theorem not_idle (h : w.Tends [] w') (regular : w.Regular) (before : ¬ w.Idle id) :
    Void w'.moments ∨ ¬ w'.Idle id :=
  (h.regular regular).imp_right fun h' idle =>
    before ((h'.2 id idle).resolve_left List.not_mem_nil)

theorem settle (h : w.Tends [id] w') (h' : w'.Tends [] w'')
    (done : w'.Regular → Void w''.moments ∨ ¬ w''.Idle id) : w.Tends [] w'' where
  moments := h.moments.trans h'.moments
  files id file hf := h'.files id file (h.files id file hf)
  regular regular := by
    rcases h.regular regular with void | ⟨regular', idle⟩
    · exact Or.inl (void.mono h'.moments)
    · rcases done regular' with void | done
      · exact Or.inl void
      · rcases h'.regular regular' with void | ⟨regular'', idle'⟩
        · exact Or.inl void
        · refine Or.inr ⟨regular'', fun id' hi => ?_⟩
          rcases idle id' ((idle' id' hi).resolve_left List.not_mem_nil) with hb | before
          · rw [List.mem_singleton.mp hb] at hi
            exact absurd hi done
          · exact Or.inr before

instance : IsPreorder Workspace (Tends []) where
  refl := Tends.refl
  trans _ _ _ := Tends.trans

/-- The same documents are tracked, and only those that are tracked may come to be open. -/
theorem of_same_files (files : ∀ id, w'.fileOf? id = w.fileOf? id) (tracked : w'.tracked = w.tracked)
    (moments : w'.moments = w.moments)
    (opens : ∀ id, w.Regular → w'.Open id → w.Open id ∨ ¬ w.Removed id)
    (closes : ∀ id, ¬ w'.Open id → id ∈ busy ∨ ¬ w.Open id) : w.Tends busy w' := by
  have latest (file : String) (id : DocumentId) : w'.Latest file id ↔ w.Latest file id := by
    simp only [Latest, files]
  have removed (id : DocumentId) : w'.Removed id ↔ w.Removed id := by
    simp only [Removed, files, tracked]
  have closings (id : DocumentId) : w'.closings id = w.closings id := by rw [closings, moments]; rfl
  refine ⟨by rw [moments], fun id file hf => by rw [files]; exact hf, fun h => Or.inr ⟨?_, ?_⟩⟩
  · refine ⟨?_, by rw [moments]; exact h.never_missing, ?_, ?_, ?_, by rw [moments]; exact h.orderly⟩
    · intro file id ht
      rw [tracked] at ht
      exact (latest file id).mpr (h.filed file id ht)
    · intro id hr ho
      rw [removed] at hr
      rcases opens id h ho with ho | hn
      · exact h.released id hr ho
      · exact hn hr
    · intro id hr
      rw [closings]
      exact h.closed_once id ((removed id).mp hr)
    · intro id hr
      rw [closings]
      exact h.unclosed id (mt (removed id).mpr hr)
  · rintro id ⟨ht, ho⟩
    rw [tracked] at ht
    exact (closes id ho).imp_right fun ho => ⟨ht, ho⟩

theorem of_same (documents : w'.documents = w.documents) (tracked : w'.tracked = w.tracked)
    (moments : w'.moments = w.moments) : w.Tends busy w' := by
  have opens (id : DocumentId) : w'.Open id ↔ w.Open id := by simp only [Open, document?, documents]
  apply of_same_files _ tracked moments
  · intro id _ ho
    exact Or.inl ((opens id).mp ho)
  · intro id ho
    exact Or.inr (mt (opens id).mpr ho)
  · intro id
    rw [fileOf?, fileOf?, document?, document?, documents]

theorem forgotten (documents : w'.documents = w.documents)
    (moments : w'.moments = w.moments ++ [.forgotten]) : w.Tends busy w' where
  moments := by
    rw [moments]
    exact List.prefix_append _ _
  files id file hf := by
    rw [fileOf?, document?, documents]
    exact hf
  regular _ := by
    rw [moments]
    exact Or.inl (Or.inl (List.mem_append_right _ (List.mem_singleton_self _)))

end Tends

theorem moments_prefix_passed (w : Workspace) (m : Moment) : w.moments <+: (w.passed m).moments := by
  rw [moments_passed]
  exact List.prefix_append _ _

theorem Regular.passed (h : w.Regular) (missing : ∀ id, m ≠ .missing id)
    (closed : ∀ id, m ≠ .telling .closed (some id))
    (released : ∀ id, m.released? = some id → ¬ w.Removed id) :
    (w.passed m).Regular := by
  have closings (id : DocumentId) : (w.passed m).closings id = w.closings id := by
    rw [Workspace.closings, moments_passed, List.count_append, List.count_singleton, if_neg, Nat.add_zero]
    · rfl
    · rw [beq_iff_eq]
      exact closed id
  refine ⟨h.filed, ?_, h.released, ?_, ?_, ?_⟩
  · intro id mem
    rw [moments_passed] at mem
    rcases List.mem_append.mp mem with mem | mem
    · exact h.never_missing id mem
    · exact missing id (List.mem_singleton.mp mem).symm
  · intro id hr
    exact (closings id).trans (h.closed_once id hr)
  · intro id hr
    exact (closings id).trans (h.unclosed id hr)
  · rw [moments_passed, Moment.orderly_append]
    refine ⟨h.orderly, fun id hm => ?_⟩
    exact h.not_told (released id hm)

theorem Tends.passed (w : Workspace) (plain : m.isPlain = true) :
    w.Tends busy (w.passed m) := by
  refine ⟨moments_prefix_passed w m, fun _ _ hf => hf, fun h => Or.inr ⟨h.passed ?_ ?_ ?_, ?_⟩⟩
  · rintro id rfl
    cases plain
  · rintro id rfl
    cases plain
  · intro id released
    cases m with
    | told topic about => cases topic <;> simp_all [Moment.isPlain, Moment.released?]
    | _ => cases released
  · exact fun id hi => Or.inr hi

structure Gains (w : Workspace) (file : String) (w' : Workspace) : Prop where
  untracked : w.tracked.get? file = none
  documents_eq : w'.documents = w.documents ++ [Document.new file]
  tracked_eq : w'.tracked = w.tracked.insert file w.documents.length
  moments_eq : w'.moments = w.moments

namespace Gains

variable {d : Document} {f : String} (h : w.Gains file w')

include h

theorem document?_new : w'.document? w.documents.length = some (Document.new file) := by
  rw [document?, h.documents_eq]
  simp

theorem document?_of_some (hd : w.document? id = some d) : w'.document? id = some d := by
  obtain ⟨less, -⟩ := List.getElem?_eq_some_iff.mp hd
  rw [document?, h.documents_eq, List.getElem?_append_left less]
  exact hd

theorem document?_cases (hd : w'.document? id = some d) :
    (id = w.documents.length ∧ d = Document.new file) ∨ w.document? id = some d := by
  rcases Nat.lt_trichotomy id w.documents.length with less | rfl | more
  · right
    rw [document?, h.documents_eq, List.getElem?_append_left less] at hd
    exact hd
  · rw [h.document?_new] at hd
    cases hd
    exact Or.inl ⟨rfl, rfl⟩
  · have beyond : (w.documents ++ [Document.new file]).length ≤ id := by
      rw [List.length_append]
      exact more
    rw [document?, h.documents_eq, List.getElem?_eq_none beyond] at hd
    cases hd

theorem fileOf?_of_some (hf : w.fileOf? id = some f) : w'.fileOf? id = some f := by
  obtain ⟨d, hd, rfl⟩ := Option.map_eq_some_iff.mp hf
  rw [fileOf?, h.document?_of_some hd]
  rfl

theorem fileOf?_cases (hf : w'.fileOf? id = some f) :
    (id = w.documents.length ∧ f = file) ∨ w.fileOf? id = some f := by
  obtain ⟨d, hd, rfl⟩ := Option.map_eq_some_iff.mp hf
  rcases h.document?_cases hd with ⟨rfl, rfl⟩ | hd
  · exact Or.inl ⟨rfl, rfl⟩
  · right
    rw [fileOf?, hd]
    rfl

theorem open_iff : w'.Open id ↔ w.Open id := by
  constructor
  · rintro ⟨d, hd, is_open⟩
    rcases h.document?_cases hd with ⟨rfl, rfl⟩ | hd
    · cases is_open
    · exact ⟨d, hd, is_open⟩
  · rintro ⟨d, hd, is_open⟩
    exact ⟨d, h.document?_of_some hd, is_open⟩

omit h in
theorem lt_of_fileOf? (hf : w.fileOf? id = some f) : id < w.documents.length := by
  obtain ⟨d, hd, -⟩ := Option.map_eq_some_iff.mp hf
  exact (List.getElem?_eq_some_iff.mp hd).1

theorem removed_iff : w'.Removed id ↔ w.Removed id := by
  constructor
  · rintro ⟨f, hf, gone⟩
    rw [h.tracked_eq, Table.get?_insert] at gone
    rcases h.fileOf?_cases hf with ⟨rfl, rfl⟩ | hf
    · rw [if_pos rfl] at gone
      exact absurd rfl gone
    · refine ⟨f, hf, ?_⟩
      split at gone
      · rename_i same
        rw [← same, h.untracked]
        exact (Option.some_ne_none id).symm
      · exact gone
  · rintro ⟨f, hf, gone⟩
    refine ⟨f, h.fileOf?_of_some hf, ?_⟩
    rw [h.tracked_eq, Table.get?_insert]
    split
    · intro same
      exact absurd (Option.some.inj same) (Nat.ne_of_gt (lt_of_fileOf? hf))
    · exact gone

theorem closings_eq : w'.closings id = w.closings id := by rw [closings, h.moments_eq, closings]

theorem regular (regular : w.Regular) : w'.Regular := by
  refine ⟨?_, ?_, ?_, ?_, ?_, ?_⟩
  · intro f id ht
    rw [h.tracked_eq, Table.get?_insert] at ht
    split at ht
    · rename_i same
      subst same
      cases ht
      refine ⟨?_, fun id' hf => ?_⟩
      · rw [fileOf?, h.document?_new]
        rfl
      · rcases h.fileOf?_cases hf with ⟨rfl, -⟩ | hf
        · exact Nat.le_refl _
        · exact Nat.le_of_lt (lt_of_fileOf? hf)
    · rename_i other
      obtain ⟨hf, last⟩ := regular.filed f id ht
      refine ⟨h.fileOf?_of_some hf, fun id' hf' => ?_⟩
      rcases h.fileOf?_cases hf' with ⟨-, rfl⟩ | hf'
      · exact absurd rfl other
      · exact last id' hf'
  · rw [h.moments_eq]
    exact regular.never_missing
  · intro id hr ho
    exact regular.released id (h.removed_iff.mp hr) (h.open_iff.mp ho)
  · intro id hr
    rw [h.closings_eq]
    exact regular.closed_once id (h.removed_iff.mp hr)
  · intro id hr
    rw [h.closings_eq]
    exact regular.unclosed id (mt h.removed_iff.mpr hr)
  · rw [h.moments_eq]
    exact regular.orderly

theorem tends : w.Tends [w.documents.length] w' := by
  refine ⟨by rw [h.moments_eq], fun _ _ => h.fileOf?_of_some, fun regular =>
    Or.inr ⟨h.regular regular, ?_⟩⟩
  rintro id ⟨⟨f, ht⟩, ho⟩
  rw [h.tracked_eq, Table.get?_insert] at ht
  split at ht
  · cases ht
    exact Or.inl (List.mem_singleton_self _)
  · exact Or.inr ⟨⟨f, ht⟩, mt h.open_iff.mpr ho⟩

end Gains

theorem Regular.removed (h : w.Regular) (ht : w.tracked.get? file = some id) (closed : ¬ w.Open id)
    (documents : w'.documents = w.documents) (tracked : w'.tracked = w.tracked.erase file)
    (moments : w'.moments = w.moments ++ [.telling .closed (some id)]) :
    w'.Regular ∧ ∀ id', w'.Idle id' → w.Idle id' ∧ id' ≠ id := by
  have documents_eq (id : DocumentId) : w'.document? id = w.document? id := by
    rw [document?, document?, documents]
  have file_eq : w.fileOf? id = some file := (h.filed file id ht).1
  have gone : w'.Removed id := by
    refine ⟨file, ?_, ?_⟩
    · rw [fileOf?, documents_eq]
      exact file_eq
    · rw [tracked, Table.get?_erase, if_pos rfl]
      exact (Option.some_ne_none id).symm
  have removed_iff {id' : DocumentId} (other : id' ≠ id) : w'.Removed id' ↔ w.Removed id' := by
    simp only [Removed, fileOf?, documents_eq, tracked, Table.get?_erase]
    refine exists_congr fun f => and_congr_right fun _ => ?_
    split
    · rename_i same
      rw [same, ht]
      simp [Ne.symm other]
    · exact Iff.rfl
  have closings_eq {id' : DocumentId} (other : id' ≠ id) : w'.closings id' = w.closings id' := by
    rw [closings, moments, List.count_append, List.count_singleton, if_neg, Nat.add_zero]
    · rfl
    · rw [beq_iff_eq]
      rintro ⟨⟩
      exact other rfl
  have tracked_sub {f : String} {id' : DocumentId} (ht' : w'.tracked.get? f = some id') :
      f ≠ file ∧ w.tracked.get? f = some id' := by
    rw [tracked, Table.get?_erase] at ht'
    split at ht'
    · cases ht'
    · exact ⟨‹_›, ht'⟩
  refine ⟨⟨?_, ?_, ?_, ?_, ?_, ?_⟩, ?_⟩
  · intro f id' ht'
    have latest := h.filed f id' (tracked_sub ht').2
    simp only [Latest, fileOf?, documents_eq] at latest ⊢
    exact latest
  · intro id' mem
    rw [moments] at mem
    rcases List.mem_append.mp mem with mem | mem
    · exact h.never_missing id' mem
    · cases List.mem_singleton.mp mem
  · intro id' hr ho
    simp only [Open, documents_eq] at ho
    by_cases same : id' = id
    · rw [same] at ho
      exact closed ho
    · exact h.released id' ((removed_iff same).mp hr) ho
  · intro id' hr
    by_cases same : id' = id
    · rw [same, closings, moments, List.count_append, List.count_singleton, if_pos (beq_self_eq_true _)]
      rw [show w.moments.count (.telling .closed (some id)) = 0 from
        h.unclosed id (h.not_removed ht)]
    · rw [closings_eq same]
      exact h.closed_once id' ((removed_iff same).mp hr)
  · intro id' hr
    by_cases same : id' = id
    · rw [same] at hr
      exact absurd gone hr
    · rw [closings_eq same]
      exact h.unclosed id' (mt (removed_iff same).mpr hr)
  · rw [moments, Moment.orderly_append]
    exact ⟨h.orderly, fun _ released => by cases released⟩
  · rintro id' ⟨⟨f, ht'⟩, ho⟩
    obtain ⟨other, ht'⟩ := tracked_sub ht'
    refine ⟨⟨⟨f, ht'⟩, ?_⟩, ?_⟩
    · intro open_
      simp only [Open, documents_eq] at ho
      exact ho open_
    · rintro rfl
      have other_file := (h.filed f id' ht').1
      rw [file_eq] at other_file
      exact other (Option.some.inj other_file).symm

end Workspace
end GrammarWorkspace
