import GrammarWorkspace.Proofs.Grammar.Bindings
import GrammarWorkspace.Proofs.Naming.Normal
import GrammarWorkspace.Proofs.Workspace.Coherence

/-!
# Places in answers

A place goes by the URI of the document of its file, as long as this document is found by the name of
the file. So it is where the root of the host is absolute: all that is tracked beside a compilation then
has a name in normal form. With a relative root a file need not be found again by its own name.
-/
namespace GrammarWorkspace

open Grammar (Compilation Occurrence)
open GrammarWorkspace.Path (IsNormal)
open Work (Ends)

namespace Workspace

variable {host : Host} {w : Workspace} {c : Compilation}

def Named (host : Host) (w : Workspace) : Prop :=
  ∀ file ∈ w.holdings.clientFiles, ∃ locator, host.fileName locator = .ok file

theorem Resting.named_turn (hr : w.Resting (.readers host)) {action : Action}
    (plain : action.isPlain = true) (named : w.Named host) : (w.turn action).2.Named host := by
  intro file hm
  have admitted := hr.admits_turn plain file hm
  rw [hr.quiet.1] at admitted
  exact admitted.elim (named file) id

theorem Resting.named_run (hr : w.Resting (.readers host)) {actions : List Action}
    (plain : ∀ action ∈ actions, action.isPlain = true) (named : w.Named host) :
    (w.run actions).Named host := by
  induction actions generalizing w with
  | nil => exact named
  | cons action rest ih =>
    have first := plain action List.mem_cons_self
    exact ih (hr.turn first) (fun a hm => plain a (List.mem_cons_of_mem _ hm)) (hr.named_turn first named)

theorem named_ofSetup (s : Setup) : (ofSetup s).Named s.host := by
  obtain ⟨bus, subscriptions, scripts, start⟩ := exists_ofSetup s
  rw [start]
  intro file hm
  cases hm

/-- All that is tracked beside a compilation is reached from what the client has named. -/
theorem Resting.isNormal_of_tracked (hr : w.Resting (.readers host)) (rooted : host.IsRooted)
    (named : w.Named host) (cached : w.compilation = some c) : ∀ file ∈ w.files, IsNormal file := by
  have fits := hr.sound.fits rfl c cached
  intro file hm
  refine fits.loads.keys_induction (P := IsNormal) (by simp) (fun root hroot => ?_)
    (fun f text target normal _ ht => ?_) file ((fits.keys_iff file).mpr hm)
  · obtain ⟨locator, hl⟩ := named root hroot
    exact rooted.isNormal_fileName hl
  · obtain ⟨i, -, rfl⟩ := List.mem_map.mp ht
    exact Path.isNormal_relativeTo normal.isAbsolute i.path

theorem exists_document_of_file (hk : w.holdings.Known []) {file : String} (hm : file ∈ w.files) :
    ∃ d ∈ w.trackedDocuments, d.file = file := by
  rw [← map_file_trackedDocuments hk.filed] at hm
  exact List.mem_map.mp hm

section Fitting

variable (hk : w.holdings.Known []) (fits : w.core.Fits c)

include hk fits

theorem exists_source {d : Document} (hm : d ∈ w.trackedDocuments) :
    ∃ s text, c.source? d.file = some s ∧ d.text = some text ∧ s.IsOf d.file text := by
  obtain ⟨id, ht, hd⟩ := tracked_of_mem hk.filed hm
  obtain ⟨s, hs⟩ := Table.mem_keys_iff.mp ((fits.keys_iff d.file).mpr (Table.mem_keys_of_get? ht))
  obtain ⟨text, hx, of⟩ := fits.loads.source_is_of hs
  have text_eq : w.holdings.text? d.file = d.text := by simp [Holdings.text?, ht, hd]
  exact ⟨s, text, hs, text_eq.symm.trans (Except.ok.inj hx), of⟩

omit hk in
theorem genuine_of_fits : ∀ file s, c.source? file = some s → s.file = file := fun _ _ hs =>
  (fits.loads.source_is_of hs).choose_spec.2.file_eq

omit hk in
theorem mem_files_of_bound {name : String} {o : Occurrence} (ho : o ∈ c.boundTo name) : o.file ∈ w.files :=
  (fits.keys_iff o.file).mp (Compilation.mem_keys_of_bound (genuine_of_fits fits) ho)

end Fitting

def uriOf (w : Workspace) (file : String) : String :=
  (((w.tracked.get? file).bind w.document?).map Document.uri).getD ""

theorem uriOf_eq (hk : w.holdings.Known []) {d : Document} (hm : d ∈ w.trackedDocuments) :
    w.uriOf d.file = d.uri := by
  obtain ⟨id, ht, hd⟩ := tracked_of_mem hk.filed hm
  rw [uriOf, show w.tracked.get? d.file = some id from ht, Option.bind_some,
    show w.document? id = some d from hd]
  rfl

def Locates (w : Workspace) (file uri : String) : Prop :=
  Ends (Task.uriOfFile file) w fun r w' => r = .ok uri ∧ w' = w

/-- A tracked file with a name in normal form goes by the URI of its document. -/
theorem locates_of_isNormal (hk : w.holdings.Known []) {file : String} (normal : IsNormal file)
    (tracked : file ∈ w.files) : w.Locates file (w.uriOf file) := by
  obtain ⟨id, ht⟩ := Table.mem_keys_iff.mp tracked
  obtain ⟨d, hd, -⟩ := hk file id ht
  have itself : w.host.fileName (.text file) = .ok file := Host.fileName_of_isNormal normal
  rw [Locates, Task.uriOfFile]
  refine Task.ends_find (fun fault hf => ?_) fun file' hf => ?_
  · rw [itself] at hf
    cases hf
  · rw [itself] at hf
    cases hf
    rw [ht]
    dsimp only
    rw [Work.ends_bind]
    refine Task.ends_document (.refl w) hd ⟨?_, rfl⟩
    rw [uriOf, ht, Option.bind_some, show w.document? id = some d from hd]
    rfl

/-- A file whose own name stands for a file that is not tracked goes by the URI of its path. -/
theorem locates_of_untracked {file file' : String} (named : w.host.fileName (.text file) = .ok file')
    (untracked : file' ∉ w.files) {uri : String} (shown : Host.uri (.text file) = .ok uri) :
    w.Locates file uri := by
  rw [Locates, Task.uriOfFile]
  refine Task.ends_find (fun fault hf => ?_) fun found hf => ?_
  · rw [named] at hf
    cases hf
  · rw [named] at hf
    cases hf
    rw [Table.get?_eq_none_iff.mpr untracked]
    dsimp only
    rw [Task.uri, Work.ends_ofExcept]
    exact ⟨shown, rfl⟩

end Workspace

def placesAt (uriOf : String → String) (all : List Occurrence) : List Place :=
  all.map fun o => ⟨uriOf o.file, .ofSpan o.span⟩

def editsAt (uriOf : String → String) (newName : String) (all : List Occurrence) :
    Table String (List Edit) :=
  all.foldl (fun edits o => edits.push (uriOf o.file) ⟨.ofSpan o.span, newName⟩) {}

namespace Task

variable {w w' : Workspace} {c : Compilation} {call : Calling} {all : List Occurrence}
  {uriOf : String → String}

theorem ends_mapM_still {α β : Type} {body : α → Task β} {value : α → β} (all : List α)
    (each : ∀ a ∈ all, Ends (body a) w fun r w' => r = .ok (value a) ∧ w' = w) :
    Ends (all.mapM body) w fun r w' => r = .ok (all.map value) ∧ w' = w := by
  induction all with
  | nil => exact ⟨rfl, rfl⟩
  | cons a rest ih =>
    rw [List.mapM_cons]
    refine (each a List.mem_cons_self).bind ?_ fun _ _ h => by cases h.1
    rintro b w' ⟨hb, rfl⟩
    cases hb
    refine (ih fun a' hm => each a' (List.mem_cons_of_mem a hm)).bind ?_ fun _ _ h => by cases h.1
    rintro bs w' ⟨hbs, rfl⟩
    cases hbs
    exact ⟨rfl, rfl⟩

theorem ends_places (located : ∀ o ∈ all, w.Locates o.file (uriOf o.file)) :
    Ends (all.mapM place) w fun r w' => r = .ok (placesAt uriOf all) ∧ w' = w := by
  refine ends_mapM_still all fun o ho => ?_
  refine Ends.bind (located o ho) ?_ fun _ _ h => by cases h.1
  rintro u w' ⟨hu, rfl⟩
  cases hu
  exact ⟨rfl, rfl⟩

section Answers

variable (hk : w.holdings.Known []) {uri file : String}
  (named : w.host.fileName (.reference (.text uri)) = .ok file) (tracked : file ∈ w.files)
  (compiles : Ends (compilation call) w fun r v => r = .ok c ∧ v = w') (loaded : file ∈ c.sources.keys)

include hk named tracked compiles loaded

theorem ends_compiledDocument :
    Ends (compiledDocument call uri) w fun r v => r = .ok (some (file, c)) ∧ v = w' := by
  obtain ⟨id, ht⟩ := Table.mem_keys_iff.mp tracked
  obtain ⟨d, hd, rfl, -⟩ := hk file id ht
  rw [compiledDocument]
  refine ends_find (fun fault hf => ?_) fun file' hf => ?_
  · rw [named] at hf
    cases hf
  · rw [named] at hf
    cases hf
    rw [ht]
    dsimp only
    rw [Work.ends_bind]
    refine ends_document (.refl w) hd ?_
    rw [Work.next_ok]
    refine compiles.bind ?_ fun _ _ h => by cases h.1
    rintro c' v ⟨hc, rfl⟩
    cases hc
    obtain ⟨s, hs⟩ := Table.mem_keys_iff.mp loaded
    rw [if_pos (by rw [Compilation.source?, hs]; rfl)]
    exact ⟨rfl, rfl⟩

theorem ends_definition {line character : Int}
    (located : ∀ o ∈ c.declarationsAt file line character, w'.Locates o.file (uriOf o.file)) :
    Ends (definition call uri line character) w fun r v =>
      r = .ok (placesAt uriOf (c.declarationsAt file line character)) ∧ v = w' := by
  rw [definition]
  refine (ends_compiledDocument hk named tracked compiles loaded).bind ?_ fun _ _ h => by cases h.1
  rintro found v ⟨hf, rfl⟩
  cases hf
  exact ends_places located

theorem ends_references {line character : Int} {withDeclaration : Bool}
    (located : ∀ o ∈ c.referencesAt file line character withDeclaration,
      w'.Locates o.file (uriOf o.file)) :
    Ends (references call uri line character withDeclaration) w fun r v =>
      r = .ok (placesAt uriOf (c.referencesAt file line character withDeclaration)) ∧ v = w' := by
  rw [references]
  refine (ends_compiledDocument hk named tracked compiles loaded).bind ?_ fun _ _ h => by cases h.1
  rintro found v ⟨hf, rfl⟩
  cases hf
  exact ends_places located

theorem ends_rename {line character : Int} {newName : String}
    (located : ∀ o ∈ c.referencesAt file line character true, w'.Locates o.file (uriOf o.file))
    (bound : c.referencesAt file line character true ≠ []) :
    Ends (rename call uri line character newName) w fun r v =>
      r = .ok (some (editsAt uriOf newName (c.referencesAt file line character true))) ∧ v = w' := by
  rw [rename]
  refine (ends_compiledDocument hk named tracked compiles loaded).bind ?_ fun _ _ h => by cases h.1
  rintro found v ⟨hf, rfl⟩
  cases hf
  dsimp only
  rw [if_neg (by simpa using bound)]
  refine (ends_places located).bind ?_ fun _ _ h => by cases h.1
  rintro all v ⟨hall, rfl⟩
  cases hall
  rw [placesAt, List.foldl_map]
  exact ⟨rfl, rfl⟩

end Answers
end Task

namespace Workspace

variable {w w' : Workspace} {c : Compilation}

theorem turn_of_ends {action : Action} {Q : Except Fault Answer → Workspace → Prop} (h : Ends (Task.act action) w Q) :
    Q (w.turn action).1.result (w.turn action).2 := h

section Turns

variable (hk : w.holdings.Known []) {uri file : String}
  (named : w.host.fileName (.reference (.text uri)) = .ok file) (tracked : file ∈ w.files)
  (accessed : w.access = (.ok c, w')) (loaded : file ∈ c.sources.keys)

include hk named tracked accessed loaded

theorem turn_definition (uriOf : String → String) (line character : Int)
    (located : ∀ o ∈ c.declarationsAt file line character, w'.Locates o.file (uriOf o.file)) :
    (w.turn (.definition uri line character)).1.result =
        .ok (.places (placesAt uriOf (c.declarationsAt file line character))) ∧
      (w.turn (.definition uri line character)).2 = w' := by
  have performed : Ends (Task.act (.definition uri line character)) w fun r v =>
      r = .ok (.places (placesAt uriOf (c.declarationsAt file line character))) ∧ v = w' := by
    rw [Task.act, Work.ends_bind, Work.ends_get, Work.next_ok]
    refine (Task.ends_definition hk named tracked (Prod.ext_iff.mp accessed) loaded located).bind ?_
      fun _ _ h => by cases h.1
    rintro r v ⟨hr, rfl⟩
    cases hr
    exact ⟨rfl, rfl⟩
  exact turn_of_ends performed

theorem turn_references (uriOf : String → String) (line character : Int) (withDeclaration : Bool)
    (located : ∀ o ∈ c.referencesAt file line character withDeclaration,
      w'.Locates o.file (uriOf o.file)) :
    (w.turn (.references uri line character withDeclaration)).1.result =
        .ok (.places (placesAt uriOf (c.referencesAt file line character withDeclaration))) ∧
      (w.turn (.references uri line character withDeclaration)).2 = w' := by
  have performed : Ends (Task.act (.references uri line character withDeclaration)) w fun r v =>
      r = .ok (.places (placesAt uriOf (c.referencesAt file line character withDeclaration))) ∧ v = w' := by
    rw [Task.act, Work.ends_bind, Work.ends_get, Work.next_ok]
    refine (Task.ends_references hk named tracked (Prod.ext_iff.mp accessed) loaded located).bind ?_
      fun _ _ h => by cases h.1
    rintro r v ⟨hr, rfl⟩
    cases hr
    exact ⟨rfl, rfl⟩
  exact turn_of_ends performed

theorem turn_rename (uriOf : String → String) (line character : Int) (newName : String)
    (located : ∀ o ∈ c.referencesAt file line character true, w'.Locates o.file (uriOf o.file))
    (bound : c.referencesAt file line character true ≠ []) :
    (w.turn (.rename uri line character newName)).1.result =
        .ok (.edits (editsAt uriOf newName (c.referencesAt file line character true)).entries) ∧
      (w.turn (.rename uri line character newName)).2 = w' := by
  have performed : Ends (Task.act (.rename uri line character newName)) w fun r v =>
      r = .ok (.edits (editsAt uriOf newName (c.referencesAt file line character true)).entries) ∧
        v = w' := by
    rw [Task.act, Work.ends_bind, Work.ends_get, Work.next_ok]
    refine (Task.ends_rename hk named tracked (Prod.ext_iff.mp accessed) loaded located bound).bind ?_
      fun _ _ h => by cases h.1
    rintro r v ⟨hr, rfl⟩
    cases hr
    exact ⟨rfl, rfl⟩
  exact turn_of_ends performed

end Turns
end Workspace

namespace Workspace

def adrift : Setup := ⟨⟨some "w"⟩, [], false, false, true, []⟩

/-- The client opens a document by a relative path. -/
def drifting : Workspace := (ofSetup adrift).run [.openOnClient "a" "x:=x;"]

theorem resting_drifting : drifting.Resting (.readers adrift.host) :=
  (resting_ofSetup adrift (by decide)).run (by decide)

set_option maxRecDepth 4000 in
theorem files_drifting : drifting.files = ["w/a"] := by decide +kernel

set_option maxRecDepth 4000 in
/-- The document that the client has opened is not found by the name of its file. -/
theorem locates_drifting : drifting.Locates "w/a" "file:///w/a" := by
  have named : adrift.host.fileName (.text "w/a") = .ok "w/w/a" := rfl
  rw [← show drifting.host = adrift.host from resting_drifting.quiet.1] at named
  refine locates_of_untracked named ?_ rfl
  rw [files_drifting]
  decide

def drifted : List Occurrence :=
  [⟨"w/a", ⟨"x", ⟨⟨0, 1, 1⟩, ⟨1, 1, 2⟩⟩⟩⟩, ⟨"w/a", ⟨"x", ⟨⟨3, 1, 4⟩, ⟨4, 1, 5⟩⟩⟩⟩]

set_option maxRecDepth 4000 in
theorem compiled_drifting : ∃ c, drifting.compilation = some c ∧ c.sources.keys = ["w/a"] ∧
    c.referencesAt "w/a" 0 0 true = drifted := by
  have compiled : drifting.compilation.map (fun c => (c.sources.keys, c.referencesAt "w/a" 0 0 true)) =
      some (["w/a"], drifted) := by decide +kernel
  obtain ⟨c, cached, both⟩ := Option.map_eq_some_iff.mp compiled
  exact ⟨c, cached, congrArg Prod.fst both, congrArg Prod.snd both⟩

end Workspace
end GrammarWorkspace
