import GrammarWorkspace.Proofs.Grammar.Turns
import GrammarWorkspace.Proofs.Workspace.Perusal
import Mathlib.Data.Finset.Card

/-!
# Work whatever listeners do

No action and no listener, of those that a session can have, takes back what was observed, or puts a
compilation in place that no rebuild has loaded. Listeners may bring new files to be loaded, but each
action of theirs brings one at most.
-/
namespace GrammarWorkspace

open Grammar (Compilation Replays)
open Work (Ends Along Inside)

def Fetch.IsHonest (f : Fetch) : Prop := ∀ d, f.known = some d → f.text = d.text

namespace Workspace

def room (w : Workspace) (seen : List String) : Nat :=
  (seen ++ (w.tracked.keys ++ w.disk.keys)).toFinset.card + w.restlessness

def reads (w : Workspace) (serial : Nat) : List (String × Option String) :=
  (w.fetches.filter (·.serial = serial)).map fun f => (f.file, f.text)

/-- A rebuild of the session has loaded the compilation, from the roots with which it began and from what was read
for it. -/
structure Stems (w : Workspace) (c : Compilation) : Prop where
  begun : ∃ v, w.builds[c.serial]? = some v ∧ c.request.roots = v.roots
  replays : ∃ previous, Replays (Compilation.sourceOf c.serial previous) {} c.request.roots (w.reads c.serial) c.sources

/-- From the one to the other, observations are added, and compilations are begun. Files are read for these, or for
one that is in progress. -/
structure Precedes (w w' : Workspace) (current : Option Nat := none) : Prop where
  record : w.record <+: w'.record
  builds : w.builds <+: w'.builds
  fetches : ∃ more, w'.fetches = w.fetches ++ more ∧
    ∀ f ∈ more, (w.begun ≤ f.serial ∨ current = some f.serial) ∧ f.serial < w'.begun ∧ f.IsHonest

def Dated (w : Workspace) : Prop := ∀ f ∈ w.fetches, f.serial < w.begun

structure Proceeds (w : Workspace) (spent : Int) (w' : Workspace) (current : Option Nat := none) : Prop
    extends w.Precedes w' current where
  room_le : ∀ seen, (w'.room seen : Int) ≤ w.room seen + spent
  made : w.Dated → ∀ c, w'.compilation = some c → w.compilation = some c ∨ (w.begun ≤ c.serial ∧ w'.Stems c)

variable {w w' w'' : Workspace} {c : Compilation} {j k : Int} {current : Option Nat}

theorem Dated.reads_begun (dated : w.Dated) : w.reads w.begun = [] := by
  rw [reads, List.filter_eq_nil_iff.mpr, List.map_nil]
  intro f hm same
  exact (dated f hm).ne (of_decide_eq_true same)

theorem Stems.serial_lt (h : w.Stems c) : c.serial < w.begun := by
  obtain ⟨v, begun, -⟩ := h.begun
  exact (List.getElem?_eq_some_iff.mp begun).1

namespace Precedes

theorem begun (h : w.Precedes w' current) : w.begun ≤ w'.begun := h.builds.length_le

theorem of_same (record : w.record <+: w'.record) (builds : w'.builds = w.builds)
    (fetches : w'.fetches = w.fetches) : w.Precedes w' current :=
  ⟨record, by rw [builds], [], by rw [fetches, List.append_nil], fun _ hm => by cases hm⟩

theorem refl (w : Workspace) : w.Precedes w current := of_same (List.prefix_refl _) rfl rfl

theorem trans (h : w.Precedes w' current) (h' : w'.Precedes w'' current) : w.Precedes w'' current where
  record := h.record.trans h'.record
  builds := h.builds.trans h'.builds
  fetches := by
    obtain ⟨more, fetches, new⟩ := h.fetches
    obtain ⟨more', fetches', new'⟩ := h'.fetches
    refine ⟨more ++ more', by rw [fetches', fetches, List.append_assoc], fun f hm => ?_⟩
    rcases List.mem_append.mp hm with hm | hm
    · obtain ⟨since, before, honest⟩ := new f hm
      exact ⟨since, before.trans_le h'.begun, honest⟩
    · obtain ⟨since, before, honest⟩ := new' f hm
      exact ⟨since.imp_left h.begun.trans, before, honest⟩

theorem dated (h : w.Precedes w' current) (dated : w.Dated) : w'.Dated := by
  obtain ⟨more, fetches, new⟩ := h.fetches
  intro f hm
  rw [fetches] at hm
  rcases List.mem_append.mp hm with hm | hm
  · exact (dated f hm).trans_le h.begun
  · exact (new f hm).2.1

theorem inside (h : w.Precedes w') : w.Precedes w' current where
  record := h.record
  builds := h.builds
  fetches := by
    obtain ⟨more, fetches, new⟩ := h.fetches
    refine ⟨more, fetches, fun f hm => ?_⟩
    obtain ⟨since, rest⟩ := new f hm
    exact ⟨since.imp_right fun none => (by cases none), rest⟩

theorem reads_eq {serial : Nat} (h : w.Precedes w' current) (early : serial < w.begun)
    (other : current ≠ some serial) : w'.reads serial = w.reads serial := by
  obtain ⟨more, fetches, new⟩ := h.fetches
  have none : more.filter (·.serial = serial) = [] := by
    rw [List.filter_eq_nil_iff]
    intro f hm same
    rw [decide_eq_true_eq] at same
    subst same
    obtain ⟨since | current, -⟩ := new f hm
    · exact absurd since (Nat.not_le.mpr early)
    · exact other current
  rw [reads, reads, fetches, List.filter_append, none, List.append_nil]

end Precedes

theorem Stems.during (stems : w.Stems c) (h : w.Precedes w' current) (other : current ≠ some c.serial) :
    w'.Stems c where
  begun := by
    obtain ⟨v, begun, roots⟩ := stems.begun
    obtain ⟨more, builds⟩ := h.builds
    refine ⟨v, ?_, roots⟩
    rw [← builds, List.getElem?_append_left stems.serial_lt, begun]
  replays := by
    rw [h.reads_eq stems.serial_lt other]
    exact stems.replays

theorem Stems.later (stems : w.Stems c) (h : w.Precedes w') : w'.Stems c :=
  stems.during h fun none => by cases none

theorem room_append_of_mem {file : String} (hm : file ∈ w.tracked.keys ∨ file ∈ w.disk.keys)
    (seen : List String) : w.room (seen ++ [file]) = w.room seen := by
  have same : (seen ++ [file] ++ (w.tracked.keys ++ w.disk.keys)).toFinset =
      (seen ++ (w.tracked.keys ++ w.disk.keys)).toFinset := by
    ext f
    simp only [List.mem_toFinset, List.mem_append, List.mem_singleton]
    constructor
    · rintro ((h | rfl) | h)
      · exact Or.inl h
      · exact Or.inr hm
      · exact Or.inr h
    · rintro (h | h)
      · exact Or.inl (Or.inl h)
      · exact Or.inr h
  rw [room, room, same]

theorem length_le_room {seen : List String} (nodup : seen.Nodup) : seen.length ≤ w.room seen := by
  have within : seen.toFinset ⊆ (seen ++ (w.tracked.keys ++ w.disk.keys)).toFinset := by
    intro file hm
    simp only [List.mem_toFinset, List.mem_append] at hm ⊢
    exact Or.inl hm
  have few := Finset.card_le_card within
  rw [List.toFinset_card_of_nodup nodup] at few
  rw [room]
  omega

theorem room_nil_lt (w : Workspace) : w.room [] < Task.readableBound w + 1 := by
  have few := List.toFinset_card_le (w.tracked.keys ++ w.disk.keys)
  simp only [Table.keys, List.length_append, List.length_map] at few
  simp only [room, Task.readableBound, Table.size, Table.keys, List.nil_append]
  omega

namespace Proceeds

theorem refl (w : Workspace) : w.Proceeds 0 w current :=
  ⟨.refl w, fun _ => by omega, fun _ _ => Or.inl⟩

theorem trans_of (early : ∀ serial, current = some serial → serial < w.begun) (h : w.Proceeds j w' current)
    (h' : w'.Proceeds k w'' current) : w.Proceeds (j + k) w'' current where
  toPrecedes := h.toPrecedes.trans h'.toPrecedes
  room_le seen := by
    have := h.room_le seen
    have := h'.room_le seen
    omega
  made dated c hc := by
    rcases h'.made (h.dated dated) c hc with hc | ⟨since, stems⟩
    · rcases h.made dated c hc with hc | ⟨since, stems⟩
      · exact Or.inl hc
      · refine Or.inr ⟨since, stems.during h'.toPrecedes fun same => ?_⟩
        exact absurd since (Nat.not_le.mpr (early _ same))
    · exact Or.inr ⟨h.begun.trans since, stems⟩

theorem trans (h : w.Proceeds j w') (h' : w'.Proceeds k w'') : w.Proceeds (j + k) w'' :=
  trans_of (fun _ none => by cases none) h h'

theorem inside (h : w.Proceeds k w') : w.Proceeds k w' current := ⟨h.toPrecedes.inside, h.room_le, h.made⟩

theorem since_begun {serial : Nat} (h : w.Proceeds 0 w') (same : w'.compilation = w.compilation)
    (since : w.begun ≤ serial) (h' : w'.Proceeds k w'' (some serial)) : w.Proceeds k w'' where
  record := h.record.trans h'.record
  builds := h.builds.trans h'.builds
  fetches := by
    obtain ⟨more, fetches, new⟩ := h.fetches
    obtain ⟨more', fetches', new'⟩ := h'.fetches
    refine ⟨more ++ more', by rw [fetches', fetches, List.append_assoc], fun f hm => ?_⟩
    rcases List.mem_append.mp hm with hm | hm
    · obtain ⟨after, before, honest⟩ := new f hm
      exact ⟨after, before.trans_le h'.begun, honest⟩
    · obtain ⟨after | current, before, honest⟩ := new' f hm
      · exact ⟨Or.inl (h.begun.trans after), before, honest⟩
      · cases current
        exact ⟨Or.inl since, before, honest⟩
  room_le seen := by
    have := h.room_le seen
    have := h'.room_le seen
    omega
  made dated c hc := by
    rcases h'.made (h.dated dated) c hc with kept | ⟨after, stems⟩
    · exact Or.inl (same.symm.trans kept)
    · exact Or.inr ⟨h.begun.trans after, stems⟩

theorem mono (h : w.Proceeds j w') (le : j ≤ k) : w.Proceeds k w' :=
  ⟨h.toPrecedes, fun seen => by have := h.room_le seen; omega, h.made⟩

/-- A change that brings no new files and no scripts. The compilation may be dropped. -/
theorem of_no_new_file (precedes : w.Precedes w' current)
    (sub : ∀ file, file ∈ w'.tracked.keys ∨ file ∈ w'.disk.keys →
      file ∈ w.tracked.keys ∨ file ∈ w.disk.keys) (scripts : w'.scripts = w.scripts)
    (compilation : w'.compilation = w.compilation ∨ w'.compilation = none) : w.Proceeds 0 w' current where
  toPrecedes := precedes
  room_le seen := by
    have few : (seen ++ (w'.tracked.keys ++ w'.disk.keys)).toFinset.card ≤
        (seen ++ (w.tracked.keys ++ w.disk.keys)).toFinset.card := by
      refine Finset.card_le_card fun file hm => ?_
      simp only [List.mem_toFinset, List.mem_append] at hm ⊢
      exact hm.imp_right (sub file)
    rw [room, room, restlessness, restlessness, scripts]
    omega
  made _ c hc := by
    rcases compilation with he | he
    · exact Or.inl (he ▸ hc)
    · rw [he] at hc
      cases hc

theorem of_new_file (new : String) (precedes : w.Precedes w')
    (sub : ∀ file, file ∈ w'.tracked.keys ∨ file ∈ w'.disk.keys →
      file = new ∨ file ∈ w.tracked.keys ∨ file ∈ w.disk.keys) (scripts : w'.scripts = w.scripts)
    (compilation : w'.compilation = w.compilation) : w.Proceeds 1 w' where
  toPrecedes := precedes
  room_le seen := by
    have within : (seen ++ (w'.tracked.keys ++ w'.disk.keys)).toFinset ⊆
        insert new (seen ++ (w.tracked.keys ++ w.disk.keys)).toFinset := by
      intro file hm
      simp only [List.mem_toFinset, List.mem_append, Finset.mem_insert] at hm ⊢
      rcases hm with hm | hm
      · exact Or.inr (Or.inl hm)
      · exact (sub file hm).imp_right Or.inr
    have few := (Finset.card_le_card within).trans (Finset.card_insert_le _ _)
    rw [room, room, restlessness, restlessness, scripts]
    omega
  made _ c hc := Or.inl (compilation ▸ hc)

theorem of_same_files (precedes : w.Precedes w' current) (tracked : w'.tracked = w.tracked)
    (disk : w'.disk = w.disk) (scripts : w'.scripts = w.scripts)
    (compilation : w'.compilation = w.compilation ∨ w'.compilation = none) : w.Proceeds 0 w' current :=
  of_no_new_file precedes (fun file hm => by rwa [tracked, disk] at hm) scripts compilation

theorem of_same (record : w.record <+: w'.record) (builds : w'.builds = w.builds) (fetches : w'.fetches = w.fetches)
    (tracked : w'.tracked = w.tracked) (disk : w'.disk = w.disk) (scripts : w'.scripts = w.scripts)
    (compilation : w'.compilation = w.compilation ∨ w'.compilation = none) : w.Proceeds 0 w' :=
  of_same_files (.of_same record builds fetches) tracked disk scripts compilation

end Proceeds

/-- On the way from the one to the other, no more is done than actions of this weight can do. -/
abbrev Proceeding (spent : Nat) (w w' : Workspace) : Prop := w.Proceeds spent w'

instance : IsPreorder Workspace (Proceeding 0) where
  refl w := .refl w
  trans _ _ _ h h' := h.trans h'

theorem inside_proceeding (spent : Nat) : Inside (Proceeding 0) (Proceeding spent) where
  widen h := h.mono (Int.natCast_nonneg spent)
  before h h' := (h.trans h').mono (by omega)
  after h h' := (h.trans h').mono (by omega)

theorem overlooks_proceeding : Overlooks (Proceeding 0) where
  remarked _ _ _ := .of_same (List.prefix_append _ _) rfl rfl rfl rfl rfl (Or.inl rfl)
  answered _ _ := .of_same (List.prefix_refl _) rfl rfl rfl rfl rfl (Or.inl rfl)
  unsubscribed _ _ _ _ := .of_same (List.prefix_refl _) rfl rfl rfl rfl rfl (Or.inl rfl)

end Workspace

open Workspace (Proceeding inside_proceeding)

namespace Task

variable {α β : Type} {j k : Nat} {w : Workspace} {file : String}

theorem Proceeding.bind {task : Task α} {next : α → Task β} (h : Along (Proceeding j) task)
    (hn : ∀ a, Along (Proceeding k) (next a)) : Along (Proceeding (j + k)) (task >>= next) := by
  intro w
  refine (h w).bind (fun a w' h' => ?_) fun _ _ h' => h'.mono (by omega)
  exact (hn a w').mono fun _ _ h'' => by
    rw [Proceeding, Int.natCast_add]
    exact h'.trans h''

theorem proceeding_pass (m : Moment) : Along (Proceeding 0) (pass m) := fun _ =>
  .of_same (List.prefix_refl _) rfl rfl rfl rfl rfl (Or.inl rfl)

theorem proceeding_observe (o : Observation) : Along (Proceeding 0) (observe o) := fun _ =>
  .of_same (List.prefix_append _ _) rfl rfl rfl rfl rfl (Or.inl rfl)

theorem proceeding_update (id : DocumentId) (f : Document → Document) : Along (Proceeding 0) (update id f) := fun _ =>
  .of_same (List.prefix_refl _) rfl rfl rfl rfl rfl (Or.inl rfl)

theorem proceeding_watch (file : String) : Along (Proceeding 0) (watch file) :=
  .get_bind fun _ => by
    split
    · exact proceeding_observe _
    · exact Work.along_pure ()

theorem proceeding_unwatch (file : String) : Along (Proceeding 0) (unwatch file) :=
  .get_bind fun _ => by
    split
    · exact proceeding_observe _
    · exact Work.along_pure ()

theorem proceeding_invalidate : Along (Proceeding 0) invalidate :=
  .get_bind fun _ => by
    split
    · exact fun _ => .of_same (List.prefix_refl _) rfl rfl rfl rfl rfl (Or.inr rfl)
    · exact Work.along_pure ()

theorem proceeding_change : Gate.Ignored (Proceeding 0) := fun _ _ =>
  .of_same (List.prefix_refl _) rfl rfl rfl rfl rfl (Or.inl rfl)

theorem ends_readFile_proceeds (file : String) : Ends (readFile file) w fun r w' =>
    w.Proceeds 0 w' ∧ w'.disk = w.disk ∧ ∀ text, r = .ok (some text) → file ∈ w.disk.keys := by
  rw [readFile, Work.ends_bind, Work.ends_get, Work.next_ok]
  split
  · exact ⟨proceeding_observe _ w, rfl, fun _ hr => by cases hr⟩
  · refine ⟨proceeding_observe _ w, rfl, fun text hr => ?_⟩
    obtain ⟨bytes, hb, -⟩ := Option.bind_eq_some_iff.mp (Except.ok.inj hr)
    exact Table.mem_keys_of_get? hb

theorem ends_getOrCreate_proceeds (file : String) : Ends (getOrCreate file) w fun _ w' =>
    w.Proceeds (if file ∈ w.disk.keys then 0 else 1) w' := by
  rw [getOrCreate, Work.ends_bind, Work.ends_get, Work.next_ok]
  cases w.tracked.get? file with
  | some id =>
    refine (Workspace.Proceeds.refl w).mono ?_
    split <;> decide
  | none =>
    let w' : Workspace := { w with
      documents := w.documents ++ [Document.new file]
      tracked := w.tracked.insert file w.documents.length }
    have sub : ∀ f, f ∈ w'.tracked.keys ∨ f ∈ w'.disk.keys →
        f = file ∨ f ∈ w.tracked.keys ∨ f ∈ w.disk.keys := by
      rintro f (hm | hm)
      · exact (Table.mem_keys_insert.mp hm).imp_right Or.inl
      · exact Or.inr (Or.inr hm)
    have created : w.Proceeds (if file ∈ w.disk.keys then 0 else 1) w' := by
      by_cases hd : file ∈ w.disk.keys
      · rw [if_pos hd]
        refine .of_no_new_file (.of_same (List.prefix_refl _) rfl rfl) (fun f hm => ?_) rfl (Or.inl rfl)
        rcases sub f hm with rfl | hm
        · exact Or.inr hd
        · exact hm
      · rw [if_neg hd]
        exact .of_new_file file (.of_same (List.prefix_refl _) rfl rfl) sub rfl rfl
    exact created

theorem proceeding_getOrCreate (file : String) : Along (Proceeding 1) (getOrCreate file) := fun _ =>
  (ends_getOrCreate_proceeds file).mono fun _ _ h => h.mono (by split <;> decide)

end Task
end GrammarWorkspace
