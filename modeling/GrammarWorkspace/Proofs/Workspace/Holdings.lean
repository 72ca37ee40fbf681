import GrammarWorkspace.Proofs.Grammar.Loading
import GrammarWorkspace.Workspace.State

/-!
# What a workspace holds

The files on disk and the documents are all that a compilation depends on. A rebuild changes them:
it marks documents, opens what it reads, and drops what no root reaches. `Later` says what survives
such changes, so that a rebuild which is interrupted by others still finds what it would have found
alone.
-/
namespace GrammarWorkspace

open Grammar (Comes Reading Reached importsOf reached_iff_of_same)

/-- Some of the old files in their old order, and then all that was loaded and is not among them. -/
def Arranged (loaded old new : List String) : Prop :=
  new = old.filter (· ∈ new) ++ loaded.filter (· ∉ old)

namespace Arranged

variable {first second loaded old mid new : List String} {file : String}

theorem of_filter (p : String → Bool) (old : List String) : Arranged [] old (old.filter p) := by
  unfold Arranged
  rw [List.filter_nil, List.append_nil]
  apply List.filter_congr
  intro f hf
  simp [hf]

theorem refl (old : List String) : Arranged [] old old := by
  have all := of_filter (fun _ => true) old
  rwa [List.filter_eq_self.mpr fun _ _ => rfl] at all

theorem mem_iff (h : Arranged loaded old new) :
    file ∈ new ↔ (file ∈ old ∧ file ∈ new) ∨ (file ∈ loaded ∧ file ∉ old) := by
  have parts : file ∈ new ↔ file ∈ old.filter (· ∈ new) ++ loaded.filter (· ∉ old) := by
    rw [← h]
  simpa using parts

/-- What is loaded first is not let go of again, and what was let go of is not loaded. -/
theorem trans (h : Arranged first old mid) (h' : Arranged second mid new)
    (early : ∀ f ∈ second, f ∈ old → f ∈ mid) (late : ∀ f ∈ first, f ∈ mid → f ∈ new) :
    Arranged (first ++ second.filter (· ∉ first)) old new := by
  have stays : (old.filter (· ∈ mid)).filter (· ∈ new) = old.filter (· ∈ new) := by
    rw [List.filter_filter]
    apply List.filter_congr
    intro f hf
    by_cases hn : f ∈ new
    · have hm : f ∈ mid := by
        rcases h'.mem_iff.mp hn with ⟨hm, -⟩ | ⟨hs, -⟩
        · exact hm
        · exact early f hs hf
      simp [hn, hm]
    · simp [hn]
  have joins : (first.filter (· ∉ old)).filter (· ∈ new) = first.filter (· ∉ old) := by
    rw [List.filter_eq_self]
    intro f hf
    have fresh : f ∈ first ∧ f ∉ old := by simpa using hf
    simpa using late f fresh.1 (h.mem_iff.mpr (Or.inr fresh))
  have follows : second.filter (· ∉ mid) = (second.filter (· ∉ first)).filter (· ∉ old) := by
    rw [List.filter_filter]
    apply List.filter_congr
    intro f hf
    have there : f ∈ mid ↔ f ∈ old ∨ f ∈ first := by
      constructor
      · intro hm
        rcases h.mem_iff.mp hm with ⟨ho, -⟩ | ⟨hl, -⟩
        · exact Or.inl ho
        · exact Or.inr hl
      · intro hm
        by_cases ho : f ∈ old
        · exact early f hf ho
        · exact h.mem_iff.mpr (Or.inr ⟨hm.resolve_left ho, ho⟩)
    simp [there]
  have split : mid.filter (· ∈ new) = old.filter (· ∈ new) ++ first.filter (· ∉ old) := by
    conv_lhs => rw [h]
    rw [List.filter_append, stays, joins]
  refine Eq.trans h' ?_
  rw [split, follows, List.filter_append, List.append_assoc]

end Arranged

structure Holdings where
  disk : Table String (List UInt8)
  failing : List String
  documents : List Document
  tracked : Table String DocumentId

namespace Holdings

def document? (h : Holdings) (id : DocumentId) : Option Document := h.documents[id]?

def text? (h : Holdings) (file : String) : Option String :=
  (h.tracked.get? file).bind fun id => (h.document? id).bind Document.text

/-- What an attempt to read a file from disk comes to. -/
def stored (h : Holdings) : Reading := fun file =>
  match Host.obstacle? h.failing file with
  | some fault => .error fault
  | none => .ok ((h.disk.get? file).bind Host.contents)

def reading (h : Holdings) : Reading := fun file =>
  match h.tracked.get? file with
  | some _ => .ok (h.text? file)
  | none => h.stored file

def clientFiles (h : Holdings) : List String :=
  ((h.tracked.values.filterMap h.document?).filter Document.onClient).map Document.file

def Reaches (h : Holdings) (file : String) : Prop := Reached h.reading h.clientFiles file

def Marks (h : Holdings) (file : String) : Prop :=
  ∃ id d, h.tracked.get? file = some id ∧ h.document? id = some d ∧ d.isMarked = true

def Breaks (h : Holdings) : Prop := ∃ file fault, h.Reaches file ∧ h.reading file = .error fault

def Nameable (h : Holdings) : Prop := ∀ file, h.Reaches file → file ∉ h.tracked.keys → '\x00' ∉ file.toList

/-- All that the compiler comes across and can read is tracked, and the rest is known to be missing. -/
def Gathered (h : Holdings) : Prop := ∀ file, h.Reaches file → h.reading file = .ok (h.text? file)

def Awaits (h : Holdings) (file : String) : Prop :=
  ∃ loaded queue, Comes h.reading h.clientFiles loaded (file :: queue) ∧ file ∉ loaded ∧
    ∀ f ∈ loaded, f ∈ h.tracked.keys

def Filed (h : Holdings) : Prop :=
  ∀ file id, h.tracked.get? file = some id → ∃ d, h.document? id = some d ∧ d.file = file

/-- Every tracked document is filed under its own file and has a text, and somebody holds it or it
is about to be dropped. -/
def Known (h : Holdings) (dropping : List DocumentId) : Prop :=
  ∀ file id, h.tracked.get? file = some id → ∃ d, h.document? id = some d ∧ d.file = file ∧
    (∃ text, d.text = some text) ∧ (d.isOpen = true ∨ id ∈ dropping)

variable {h h' h'' : Holdings} {file : String} {id : DocumentId} {dropping : List DocumentId}

theorem reading_tracked (ht : h.tracked.get? file = some id) : h.reading file = .ok (h.text? file) := by
  simp only [reading, ht]

theorem reading_untracked (ht : h.tracked.get? file = none) :
    h.reading file = h.stored file := by
  simp only [reading, ht]

theorem stored_of_obstacle {fault : Fault} (obstacle : Host.obstacle? h.failing file = some fault) :
    h.stored file = .error fault := by
  simp only [stored, obstacle]

theorem stored_of_no_obstacle (clear : Host.obstacle? h.failing file = none) :
    h.stored file = .ok ((h.disk.get? file).bind Host.contents) := by
  simp only [stored, clear]

theorem breaks_iff_not_nameable (failing : h.failing = []) : h.Breaks ↔ ¬ h.Nameable := by
  have obstacle (file : String) :
      h.stored file = if '\x00' ∈ file.toList then .error (.flawed .nullCharacter)
        else .ok ((h.disk.get? file).bind Host.contents) := by
    have unlisted : file ∉ h.failing := failing ▸ List.not_mem_nil
    by_cases null : '\x00' ∈ file.toList
    · rw [if_pos null, stored_of_obstacle (by rw [Host.obstacle?, if_neg unlisted, if_pos null])]
    · rw [if_neg null, stored_of_no_obstacle (by rw [Host.obstacle?, if_neg unlisted, if_neg null])]
  constructor
  · rintro ⟨file, fault, hr, he⟩ nameable
    cases ht : h.tracked.get? file with
    | some id =>
      rw [reading_tracked ht] at he
      cases he
    | none =>
      rw [reading_untracked ht, obstacle, if_neg (nameable file hr (Table.get?_eq_none_iff.mp ht))] at he
      cases he
  · intro unnameable
    simp only [Nameable, not_forall, not_not] at unnameable
    obtain ⟨file, hr, untracked, null⟩ := unnameable
    refine ⟨file, .flawed .nullCharacter, hr, ?_⟩
    rw [reading_untracked (Table.get?_eq_none_iff.mpr untracked), obstacle, if_pos null]

theorem Known.mono {more : List DocumentId} (hk : h.Known dropping) (sub : dropping ⊆ more) :
    h.Known more := by
  intro file id ht
  obtain ⟨d, hd, hf, hx, ho⟩ := hk file id ht
  exact ⟨d, hd, hf, hx, ho.imp_right fun hm => sub hm⟩

theorem Known.text (hk : h.Known dropping) (ht : h.tracked.get? file = some id) :
    ∃ text, h.text? file = some text := by
  obtain ⟨d, hd, -, ⟨text, hx⟩, -⟩ := hk file id ht
  exact ⟨text, by simp [text?, ht, hd, hx]⟩

theorem Known.filed (hk : h.Known dropping) : h.Filed := by
  intro file id ht
  obtain ⟨d, hd, hf, -⟩ := hk file id ht
  exact ⟨d, hd, hf⟩

theorem Filed.file_unique (hf : h.Filed) {other : String} (ht : h.tracked.get? file = some id)
    (ht' : h.tracked.get? other = some id) : file = other := by
  obtain ⟨d, hd, here⟩ := hf file id ht
  obtain ⟨d', hd', here'⟩ := hf other id ht'
  rw [hd] at hd'
  cases hd'
  exact here.symm.trans here'

theorem Filed.get?_of_mem_values (hf : h.Filed) {d : Document} (tracked : id ∈ h.tracked.values)
    (hd : h.document? id = some d) : h.tracked.get? d.file = some id := by
  obtain ⟨⟨file, id⟩, entry, rfl⟩ := List.mem_map.mp tracked
  have ht := Table.get?_eq_some_iff.mpr entry
  obtain ⟨e, he, file_eq⟩ := hf file id ht
  rw [he] at hd
  cases hd
  rw [file_eq]
  exact ht

theorem Known.file_unique (hk : h.Known dropping) {other : String}
    (ht : h.tracked.get? file = some id) (ht' : h.tracked.get? other = some id) : file = other :=
  hk.filed.file_unique ht ht'

def clientFile? (h : Holdings) (id : DocumentId) : Option String :=
  (h.document? id).bind fun d => if d.onClient then some d.file else none

theorem clientFiles_eq (h : Holdings) : h.clientFiles = h.tracked.values.filterMap h.clientFile? := by
  rw [clientFiles, ← List.filterMap_eq_filter, List.filterMap_filterMap, List.map_filterMap]
  congr 1
  funext id
  unfold clientFile?
  cases h.document? id with
  | none => rfl
  | some d => cases hc : d.onClient <;> simp [Option.guard, hc]

theorem mem_clientFiles (hk : h.Known dropping) : file ∈ h.clientFiles ↔
    ∃ id d, h.tracked.get? file = some id ∧ h.document? id = some d ∧ d.onClient = true := by
  rw [clientFiles_eq]
  simp only [List.mem_filterMap, Table.values, List.mem_map]
  constructor
  · rintro ⟨id, ⟨⟨f, id'⟩, hm, rfl⟩, hc⟩
    have ht := Table.get?_eq_some_iff.mpr hm
    obtain ⟨d, hd, hf, -⟩ := hk f id' ht
    cases hc' : d.onClient with
    | false => simp [clientFile?, hd, hc'] at hc
    | true =>
      have he : d.file = file := by simpa [clientFile?, hd, hc'] using hc
      exact ⟨id', d, by rw [← he, hf]; exact ht, hd, hc'⟩
  · rintro ⟨id, d, ht, hd, hc⟩
    obtain ⟨d', hd', hf, -⟩ := hk file id ht
    rw [hd] at hd'
    cases hd'
    exact ⟨id, ⟨(file, id), Table.get?_eq_some_iff.mp ht, rfl⟩, by simp [clientFile?, hd, hc, hf]⟩

theorem reaches_of_onClient (hk : h.Known dropping) {d : Document}
    (ht : h.tracked.get? file = some id) (hd : h.document? id = some d) (hc : d.onClient = true) :
    h.Reaches file := .root ((mem_clientFiles hk).mpr ⟨id, d, ht, hd, hc⟩)

structure Lasts (d d' : Document) : Prop where
  file_eq : d'.file = d.file
  uri_eq : d'.uri = d.uri
  text_eq : d'.text = d.text
  onClient_eq : d'.onClient = d.onClient
  onServer_of : d'.onServer = true → d.onServer = true
  onServer_eq : d.onClient = true → d'.onServer = d.onServer

theorem Lasts.refl (d : Document) : Lasts d d := ⟨rfl, rfl, rfl, rfl, id, fun _ => rfl⟩

theorem Lasts.trans {d d' d'' : Document} (h : Lasts d d') (h' : Lasts d' d'') : Lasts d d'' :=
  ⟨h'.file_eq.trans h.file_eq, h'.uri_eq.trans h.uri_eq, h'.text_eq.trans h.text_eq,
    h'.onClient_eq.trans h.onClient_eq, fun hs => h.onServer_of (h'.onServer_of hs),
    fun hc => (h'.onServer_eq (h.onClient_eq.trans hc)).trans (h.onServer_eq hc)⟩

/-- The changes that a compilation makes on the way: documents come and go, but not those that the
roots reach, and reading what the roots reach comes to the same. -/
structure Later (h h' : Holdings) : Prop where
  disk_eq : h'.disk = h.disk
  failing_eq : h'.failing = h.failing
  document : ∀ id d, h.document? id = some d → ∃ d', h'.document? id = some d' ∧ Lasts d d'
  clientFiles_eq : h'.clientFiles = h.clientFiles
  reading_eq : ∀ file, h.Reaches file → h'.reading file = h.reading file
  kept : ∀ file id d, h.tracked.get? file = some id → h.document? id = some d →
    h.Reaches file ∨ d.onServer = false → h'.tracked.get? file = some id
  found : ∀ file id, h'.tracked.get? file = some id → h.tracked.get? file = some id ∨
    ∃ d', h'.document? id = some d' ∧ d'.onClient = false ∧ h.stored file = .ok d'.text ∧
      Host.uri (.text file) = .ok d'.uri
  keys_eq : ∃ loaded queue, Comes h.reading h.clientFiles loaded queue ∧
    Arranged loaded h.tracked.keys h'.tracked.keys

namespace Later

theorem refl (h : Holdings) : h.Later h :=
  ⟨rfl, rfl, fun _ d hd => ⟨d, hd, .refl d⟩, rfl, fun _ _ => rfl, fun _ _ _ ht _ _ => ht,
    fun _ _ ht => Or.inl ht, [], h.clientFiles, .start _ _, .refl _⟩

theorem stored_eq (l : h.Later h') : h'.stored = h.stored := by
  unfold stored
  rw [l.disk_eq, l.failing_eq]

theorem reaches_iff (l : h.Later h') : h'.Reaches file ↔ h.Reaches file := by
  unfold Reaches
  rw [l.clientFiles_eq]
  exact reached_iff_of_same l.reading_eq

theorem mem_keys {text : String} (l : h.Later h') (hr : h.Reaches file)
    (hx : h.reading file = .ok (some text)) (hm : file ∈ h.tracked.keys) : file ∈ h'.tracked.keys := by
  obtain ⟨id, ht⟩ := Table.mem_keys_iff.mp hm
  rw [reading_tracked ht, text?, ht, Option.bind_some] at hx
  obtain ⟨d, hd, -⟩ := Option.bind_eq_some_iff.mp (Except.ok.inj hx)
  exact Table.mem_keys_of_get? (l.kept file id d ht hd (Or.inl hr))

theorem trans (l : h.Later h') (l' : h'.Later h'') : h.Later h'' where
  disk_eq := l'.disk_eq.trans l.disk_eq
  failing_eq := l'.failing_eq.trans l.failing_eq
  document id d hd := by
    obtain ⟨d', hd', lasts⟩ := l.document id d hd
    obtain ⟨d'', hd'', lasts'⟩ := l'.document id d' hd'
    exact ⟨d'', hd'', lasts.trans lasts'⟩
  clientFiles_eq := l'.clientFiles_eq.trans l.clientFiles_eq
  reading_eq file hr := (l'.reading_eq file (l.reaches_iff.mpr hr)).trans (l.reading_eq file hr)
  kept file id d ht hd hr := by
    obtain ⟨d', hd', lasts⟩ := l.document id d hd
    refine l'.kept file id d' (l.kept file id d ht hd hr) hd' ?_
    rcases hr with hr | hs
    · exact Or.inl (l.reaches_iff.mpr hr)
    · refine Or.inr (Bool.eq_false_iff.mpr fun hs' => ?_)
      rw [lasts.onServer_of hs'] at hs
      cases hs
  found file id ht := by
    rcases l'.found file id ht with ht | ⟨d, hd, hc, hx, hu⟩
    · rcases l.found file id ht with ht | ⟨d, hd, hc, hx, hu⟩
      · exact Or.inl ht
      · obtain ⟨d', hd', lasts⟩ := l'.document id d hd
        refine Or.inr ⟨d', hd', lasts.onClient_eq.trans hc, ?_, ?_⟩
        · rw [lasts.text_eq, hx]
        · rw [lasts.uri_eq, hu]
    · refine Or.inr ⟨d, hd, hc, ?_, hu⟩
      rw [← l.stored_eq, hx]
  keys_eq := by
    obtain ⟨first, queue, come, arranged⟩ := l.keys_eq
    obtain ⟨second, queue', come', arranged'⟩ := l'.keys_eq
    have again := come'.congr fun file answer hr hx =>
      (l.reading_eq file (l.reaches_iff.mp hr)).symm.trans hx
    rw [l.clientFiles_eq] at again
    obtain ⟨rest, joined⟩ := come.join again
    refine ⟨_, rest, joined, arranged.trans arranged' ?_ ?_⟩
    · intro file hm old
      obtain ⟨hr, text, hx⟩ := again.reached.1 file hm
      exact l.mem_keys hr hx old
    · intro file hm mid
      obtain ⟨hr, text, hx⟩ := come.reached.1 file hm
      exact l'.mem_keys (l.reaches_iff.mpr hr) ((l.reading_eq file hr).trans hx) mid

theorem breaks_iff (l : h.Later h') : h'.Breaks ↔ h.Breaks := by
  constructor
  · rintro ⟨file, fault, hr, he⟩
    have hr' := l.reaches_iff.mp hr
    exact ⟨file, fault, hr', by rw [← l.reading_eq file hr', he]⟩
  · rintro ⟨file, fault, hr, he⟩
    exact ⟨file, fault, l.reaches_iff.mpr hr, by rw [l.reading_eq file hr, he]⟩

end Later

/-- Whatever is tracked stays tracked under its URI. -/
def Keeps (h h' : Holdings) : Prop :=
  ∀ file id d, h.tracked.get? file = some id → h.document? id = some d →
    h'.tracked.get? file = some id ∧ ∃ d', h'.document? id = some d' ∧ d'.uri = d.uri

theorem Keeps.refl (h : Holdings) : h.Keeps h := fun _ _ d ht hd => ⟨ht, d, hd, rfl⟩

theorem Keeps.trans (k : h.Keeps h') (k' : h'.Keeps h'') : h.Keeps h'' := by
  intro file id d ht hd
  obtain ⟨ht', d', hd', hu⟩ := k file id d ht hd
  obtain ⟨ht'', d'', hd'', hu'⟩ := k' file id d' ht' hd'
  exact ⟨ht'', d'', hd'', hu'.trans hu⟩

def revise (h : Holdings) (id : DocumentId) (f : Document → Document) : Holdings :=
  { h with documents := h.documents.modify id f }

@[simp] theorem tracked_revise (f : Document → Document) :
    (h.revise id f).tracked = h.tracked := rfl

theorem document?_revise (h : Holdings) (id other : DocumentId) (f : Document → Document) :
    (h.revise id f).document? other =
      if id = other then (h.document? other).map f else h.document? other := by
  simp only [document?, revise, List.getElem?_modify]
  split <;> simp

/-- What is true of every document and of the new version of the one that changes. -/
theorem revise_induction {P : DocumentId → Document → Document → Prop} {f : Document → Document}
    (changed : ∀ d, h.document? id = some d → P id d (f d)) (rest : ∀ other d, P other d d)
    {other : DocumentId} {d : Document} (hd : h.document? other = some d) :
    ∃ d', (h.revise id f).document? other = some d' ∧ P other d d' := by
  rw [document?_revise, hd]
  by_cases he : id = other
  · subst he
    exact ⟨f d, by simp, changed d hd⟩
  · exact ⟨d, by simp [he], rest other d⟩

theorem text?_revise {f : Document → Document}
    (same : ∀ d, h.document? id = some d → (f d).text = d.text) :
    (h.revise id f).text? file = h.text? file := by
  unfold text?
  rw [tracked_revise]
  congr 1
  funext other
  rw [document?_revise]
  by_cases he : id = other
  · subst he
    cases hd : h.document? id with
    | none => simp
    | some d => simp [same d hd]
  · simp [he]

theorem reading_revise {f : Document → Document}
    (same : ∀ d, h.document? id = some d → (f d).text = d.text) :
    (h.revise id f).reading = h.reading := by
  funext file
  unfold reading
  rw [tracked_revise, text?_revise same]
  rfl

theorem clientFiles_revise {f : Document → Document}
    (same : ∀ d, h.document? id = some d → (f d).onClient = d.onClient ∧ (f d).file = d.file) :
    (h.revise id f).clientFiles = h.clientFiles := by
  rw [clientFiles_eq, clientFiles_eq, tracked_revise]
  congr 1
  funext other
  unfold clientFile?
  rw [document?_revise]
  by_cases he : id = other
  · subst he
    cases hd : h.document? id with
    | none => simp
    | some d => simp [same d hd]
  · simp [he]

theorem Gathered.revise {f : Document → Document} (gathered : h.Gathered)
    (same : ∀ d, h.document? id = some d →
      (f d).file = d.file ∧ (f d).text = d.text ∧ (f d).onClient = d.onClient) :
    (h.revise id f).Gathered := by
  have text (d : Document) (hd : h.document? id = some d) : (f d).text = d.text := (same d hd).2.1
  intro file hr
  rw [Reaches, reading_revise text,
    clientFiles_revise fun d hd => ⟨(same d hd).2.2, (same d hd).1⟩] at hr
  rw [reading_revise text, text?_revise text]
  exact gathered file hr

theorem later_revise {f : Document → Document}
    (lasts : ∀ d, h.document? id = some d → Lasts d (f d)) : h.Later (h.revise id f) where
  disk_eq := rfl
  failing_eq := rfl
  document other d hd := revise_induction (P := fun _ => Lasts) lasts (fun _ => Lasts.refl) hd
  clientFiles_eq := clientFiles_revise fun d hd => ⟨(lasts d hd).onClient_eq, (lasts d hd).file_eq⟩
  reading_eq file _ := by rw [reading_revise fun d hd => (lasts d hd).text_eq]
  kept _ _ _ ht _ _ := ht
  found _ _ ht := Or.inl ht
  keys_eq := ⟨[], h.clientFiles, .start _ _, .refl _⟩

theorem keeps_revise {f : Document → Document}
    (same : ∀ d, h.document? id = some d → (f d).uri = d.uri) : h.Keeps (h.revise id f) := by
  intro file other d ht hd
  exact ⟨ht, revise_induction (P := fun _ d d' => d'.uri = d.uri) same (fun _ _ => rfl) hd⟩

theorem known_revise {f : Document → Document} (hk : h.Known dropping)
    (file_eq : ∀ d, h.document? id = some d → (f d).file = d.file)
    (text : ∀ d, h.document? id = some d → d.text.isSome → ∃ text, (f d).text = some text)
    (isOpen : ∀ d, h.document? id = some d → d.isOpen = true →
      (f d).isOpen = true ∨ id ∈ dropping) : (h.revise id f).Known dropping := by
  intro file other ht
  obtain ⟨d, hd, hf, ⟨t, hx⟩, ho⟩ := hk file other ht
  rw [document?_revise, hd]
  by_cases he : id = other
  · subst he
    refine ⟨f d, by simp, (file_eq d hd).trans hf, text d hd (by simp [hx]), ?_⟩
    exact ho.elim (isOpen d hd) Or.inr
  · exact ⟨d, by simp [he], hf, ⟨t, hx⟩, ho⟩

def add (h : Holdings) (d : Document) : Holdings :=
  { h with
    documents := h.documents ++ [d]
    tracked := h.tracked.insert d.file h.documents.length }

theorem document?_add_of_some {d e : Document} (he : h.document? id = some e) :
    (h.add d).document? id = some e := by
  have inside : id < h.documents.length := (List.getElem?_eq_some_iff.mp he).1
  simp only [document?, add]
  rw [List.getElem?_append_left inside]
  exact he

@[simp] theorem document?_add_self (h : Holdings) (d : Document) :
    (h.add d).document? h.documents.length = some d := by
  simp [document?, add]

theorem tracked_add {d : Document} :
    (h.add d).tracked.get? file =
      if d.file = file then some h.documents.length else h.tracked.get? file :=
  Table.get?_insert _ _ _ _

theorem keeps_add {d : Document} (new : h.tracked.get? d.file = none) : h.Keeps (h.add d) := by
  intro file id e ht he
  have hne : d.file ≠ file := by
    rintro rfl
    rw [new] at ht
    cases ht
  exact ⟨by rw [tracked_add, if_neg hne, ht], e, document?_add_of_some he, rfl⟩

theorem known_add {d : Document} (hk : h.Known dropping) (text : ∃ text, d.text = some text)
    (isOpen : d.isOpen = true) : (h.add d).Known dropping := by
  intro file id ht
  rw [tracked_add] at ht
  split at ht
  · rename_i hf
    cases ht
    exact ⟨d, document?_add_self h d, hf, text, Or.inl isOpen⟩
  · obtain ⟨e, he, rest⟩ := hk file id ht
    exact ⟨e, document?_add_of_some he, rest⟩

theorem reading_add {d : Document} (hk : h.Known dropping)
    (same : h.reading d.file = .ok d.text) : (h.add d).reading = h.reading := by
  funext file
  by_cases hf : d.file = file
  · subst hf
    rw [reading_tracked (by rw [tracked_add, if_pos rfl]), same]
    simp [text?, tracked_add]
  · cases ht : h.tracked.get? file with
    | none =>
      rw [reading_untracked ht, reading_untracked (by rw [tracked_add, if_neg hf, ht])]
      rfl
    | some id =>
      obtain ⟨e, he, -⟩ := hk file id ht
      have ht' : (h.add d).tracked.get? file = some id := by rw [tracked_add, if_neg hf, ht]
      rw [reading_tracked ht, reading_tracked ht']
      simp [text?, ht, ht', he, document?_add_of_some he]

theorem clientFiles_add {d : Document} (hk : h.Known dropping)
    (new : h.tracked.get? d.file = none) (hc : d.onClient = false) :
    (h.add d).clientFiles = h.clientFiles := by
  have values : (h.add d).tracked.values = h.tracked.values ++ [h.documents.length] := by
    simp only [Table.values, add]
    rw [Table.entries_insert_of_not_mem _ (Table.get?_eq_none_iff.mp new), List.map_append]
    rfl
  have last : (h.add d).clientFile? h.documents.length = none := by
    simp [clientFile?, hc]
  rw [clientFiles_eq, clientFiles_eq, values, List.filterMap_append]
  simp only [List.filterMap_cons, last, List.filterMap_nil, List.append_nil]
  apply List.filterMap_congr
  intro id hm
  obtain ⟨⟨file, id'⟩, entry, rfl⟩ := List.mem_map.mp hm
  obtain ⟨e, he, -⟩ := hk file id' (Table.get?_eq_some_iff.mpr entry)
  simp only [clientFile?, he, document?_add_of_some he]

theorem keys_add {d : Document} (new : h.tracked.get? d.file = none) :
    (h.add d).tracked.keys = h.tracked.keys ++ [d.file] :=
  Table.keys_insert_of_not_mem _ (Table.get?_eq_none_iff.mp new)

theorem Awaits.arranged {d : Document} {text : String} (awaits : h.Awaits d.file)
    (new : h.tracked.get? d.file = none) (same : h.reading d.file = .ok (some text)) :
    ∃ loaded queue, Comes h.reading h.clientFiles loaded queue ∧
      Arranged loaded h.tracked.keys (h.add d).tracked.keys := by
  obtain ⟨loaded, queue, come, unloaded, known⟩ := awaits
  refine ⟨_, _, come.tail (.load unloaded same), ?_⟩
  have untracked : d.file ∉ h.tracked.keys := Table.get?_eq_none_iff.mp new
  unfold Arranged
  rw [keys_add new, List.filter_eq_self.mpr, List.filter_append, List.filter_eq_nil_iff.mpr]
  · simp [untracked]
  · intro f hf
    simpa using known f hf
  · intro f hf
    simp [hf]

theorem later_add {d : Document} {text : String} (hk : h.Known dropping)
    (new : h.tracked.get? d.file = none) (hx : d.text = some text) (hc : d.onClient = false)
    (same : h.reading d.file = .ok d.text) (uri : Host.uri (.text d.file) = .ok d.uri)
    (awaits : h.Awaits d.file) : h.Later (h.add d) where
  disk_eq := rfl
  failing_eq := rfl
  document _ e he := ⟨e, document?_add_of_some he, .refl e⟩
  clientFiles_eq := clientFiles_add hk new hc
  reading_eq file _ := by rw [reading_add hk same]
  kept file id _ ht _ _ := by
    have hne : d.file ≠ file := by
      rintro rfl
      rw [new] at ht
      cases ht
    rw [tracked_add, if_neg hne, ht]
  found file id ht := by
    rw [tracked_add] at ht
    split at ht
    · rename_i here
      subst here
      cases ht
      refine Or.inr ⟨d, document?_add_self h d, hc, ?_, uri⟩
      rw [← same, reading_untracked new]
    · exact Or.inl ht
  keys_eq := awaits.arranged new (by rw [same, hx])

theorem marks_add {d : Document} (hk : h.Known dropping) (new : h.tracked.get? d.file = none)
    (hm : d.isMarked = false) : (h.add d).Marks file ↔ h.Marks file := by
  constructor
  · rintro ⟨id, e, ht, he, hm'⟩
    rw [tracked_add] at ht
    split at ht
    · cases ht
      rw [document?_add_self] at he
      cases he
      rw [hm] at hm'
      cases hm'
    · obtain ⟨e', he', -⟩ := hk file id ht
      rw [document?_add_of_some he'] at he
      cases he
      exact ⟨id, _, ht, he', hm'⟩
  · rintro ⟨id, e, ht, he, hm'⟩
    have hne : d.file ≠ file := by
      rintro rfl
      rw [new] at ht
      cases ht
    exact ⟨id, e, by rw [tracked_add, if_neg hne, ht], document?_add_of_some he, hm'⟩

def forget (h : Holdings) (file : String) : Holdings := { h with tracked := h.tracked.erase file }

/-- The server lets go of the document of a file, which is no longer tracked. -/
def drop (h : Holdings) (file : String) (id : DocumentId) : Holdings :=
  (h.revise id ({ · with onServer := false })).forget file

theorem tracked_drop {other : String} : (h.drop file id).tracked.get? other =
    if other = file then none else h.tracked.get? other := Table.get?_erase _ _ _

theorem document?_drop (h : Holdings) (file : String) (id other : DocumentId) :
    (h.drop file id).document? other =
      if id = other then (h.document? other).map ({ · with onServer := false })
      else h.document? other := document?_revise h id other _

theorem tracked_of_drop {other : String} {id' : DocumentId}
    (ht : (h.drop file id).tracked.get? other = some id') :
    other ≠ file ∧ h.tracked.get? other = some id' := by
  rw [tracked_drop] at ht
  split at ht
  · cases ht
  · exact ⟨‹_›, ht⟩

theorem document?_of_drop {other : String} {id' : DocumentId} (hk : h.Known dropping)
    (ht : h.tracked.get? file = some id) (ht' : (h.drop file id).tracked.get? other = some id') :
    (h.drop file id).document? id' = h.document? id' := by
  obtain ⟨hne, ht'⟩ := tracked_of_drop ht'
  rw [document?_drop, if_neg]
  rintro rfl
  exact hne (hk.file_unique ht' ht)

theorem known_drop (hk : h.Known dropping) (ht : h.tracked.get? file = some id) :
    (h.drop file id).Known dropping := by
  intro other id' ht'
  rw [document?_of_drop hk ht ht']
  exact hk other id' (tracked_of_drop ht').2

theorem reading_drop {other : String} (hne : other ≠ file) :
    (h.drop file id).reading other = h.reading other := by
  have ht : (h.drop file id).tracked.get? other = h.tracked.get? other := by
    rw [tracked_drop, if_neg hne]
  have text : (h.drop file id).text? other = h.text? other := by
    have same : (h.revise id ({ · with onServer := false })).text? other = h.text? other :=
      text?_revise fun _ _ => rfl
    rw [← same]
    unfold text?
    rw [ht]
    rfl
  unfold reading
  rw [ht, text]
  rfl

theorem clientFiles_drop {d : Document} (ht : h.tracked.get? file = some id)
    (hd : h.document? id = some d) (hc : d.onClient = false) :
    (h.drop file id).clientFiles = h.clientFiles := by
  have same : (h.drop file id).clientFile? = h.clientFile? := by
    funext other
    unfold clientFile?
    rw [document?_drop]
    by_cases he : id = other
    · subst he
      simp [hd]
    · simp [he]
  rw [clientFiles_eq, clientFiles_eq, same]
  simp only [Table.values, List.filterMap_map, drop, forget, tracked_revise, Table.erase,
    List.filterMap_filter]
  apply List.filterMap_congr
  rintro ⟨other, id'⟩ hm
  by_cases he : other = file
  · subst he
    have : id' = id := by
      rw [Table.get?_eq_some_iff.mpr hm] at ht
      exact Option.some.inj ht
    subst this
    simp [clientFile?, hd, hc]
  · simp [he]

theorem later_drop {d : Document} (ht : h.tracked.get? file = some id)
    (hd : h.document? id = some d) (hc : d.onClient = false) (hs : d.onServer = true)
    (unreached : ¬ h.Reaches file) : h.Later (h.drop file id) where
  disk_eq := rfl
  failing_eq := rfl
  document other e he := by
    refine revise_induction (P := fun _ => Lasts) (fun e he => ?_) (fun _ => Lasts.refl) he
    refine ⟨rfl, rfl, rfl, rfl, fun h => (by cases h), fun held => ?_⟩
    rw [hd] at he
    cases he
    rw [hc] at held
    cases held
  clientFiles_eq := clientFiles_drop ht hd hc
  reading_eq other hr := reading_drop fun he => unreached (he ▸ hr)
  kept other id' d' ht' hd' hr := by
    rw [tracked_drop, if_neg, ht']
    rintro rfl
    rw [ht] at ht'
    cases ht'
    rw [hd] at hd'
    cases hd'
    rcases hr with hr | hs'
    · exact unreached hr
    · rw [hs] at hs'
      cases hs'
  found _ _ ht' := Or.inl (tracked_of_drop ht').2
  keys_eq := by
    refine ⟨[], h.clientFiles, .start _ _, ?_⟩
    rw [show (h.drop file id).tracked.keys = h.tracked.keys.filter (· ≠ file) from Table.keys_erase _ _]
    exact .of_filter _ _

theorem marks_drop {d : Document} (hk : h.Known dropping) (ht : h.tracked.get? file = some id)
    (hd : h.document? id = some d) (hm : d.isMarked = false) {other : String} :
    (h.drop file id).Marks other ↔ h.Marks other := by
  constructor
  · rintro ⟨id', e, ht', he, hm'⟩
    rw [document?_of_drop hk ht ht'] at he
    exact ⟨id', e, (tracked_of_drop ht').2, he, hm'⟩
  · rintro ⟨id', e, ht', he, hm'⟩
    have hne : other ≠ file := by
      rintro rfl
      rw [ht] at ht'
      cases ht'
      rw [hd] at he
      cases he
      rw [hm] at hm'
      cases hm'
    have ht'' : (h.drop file id).tracked.get? other = some id' := by
      rw [tracked_drop, if_neg hne, ht']
    exact ⟨id', e, ht'', by rw [document?_of_drop hk ht ht'', he], hm'⟩

variable {d : Document} {f : Document → Document} {other : String}

theorem Filed.revise (hf : h.Filed) (file_eq : ∀ d, h.document? id = some d → (f d).file = d.file) :
    (h.revise id f).Filed := by
  intro file other ht
  obtain ⟨d, hd, here⟩ := hf file other ht
  obtain ⟨d', hd', same⟩ := revise_induction (P := fun _ d d' => d'.file = d.file) file_eq
    (fun _ _ => rfl) hd
  exact ⟨d', hd', same.trans here⟩

theorem Filed.add (hf : h.Filed) : (h.add d).Filed := by
  intro file id ht
  rw [tracked_add] at ht
  split at ht
  · rename_i here
    cases ht
    exact ⟨d, document?_add_self h d, here⟩
  · obtain ⟨e, he, here⟩ := hf file id ht
    exact ⟨e, document?_add_of_some he, here⟩

theorem Filed.forget (hf : h.Filed) : (h.forget file).Filed := by
  intro other id ht
  rw [Holdings.forget, Table.get?_erase] at ht
  split at ht
  · cases ht
  · exact hf other id ht

def filed? (h : Holdings) (file : String) : Option Document := (h.tracked.get? file).bind h.document?

theorem filed?_of_tracked (ht : h.tracked.get? file = some id) : h.filed? file = h.document? id := by
  rw [filed?, ht, Option.bind_some]

theorem filed?_of_untracked (ht : h.tracked.get? file = none) : h.filed? file = none := by
  rw [filed?, ht, Option.bind_none]

theorem filed?_eq_some (hd : h.filed? file = some d) :
    ∃ id, h.tracked.get? file = some id ∧ h.document? id = some d := Option.bind_eq_some_iff.mp hd

theorem Known.exists_filed? (hk : h.Known dropping) (tracked : file ∈ h.tracked.keys) :
    ∃ d, h.filed? file = some d := by
  obtain ⟨id, ht⟩ := Table.mem_keys_iff.mp tracked
  obtain ⟨d, hd, -⟩ := hk file id ht
  exact ⟨d, by rw [filed?_of_tracked ht, hd]⟩

theorem Known.of_filed? (hk : h.Known []) (hf : h.filed? file = some d) :
    d.file = file ∧ (∃ text, d.text = some text) ∧ d.isOpen = true := by
  obtain ⟨id, ht, hd⟩ := filed?_eq_some hf
  obtain ⟨d', hd', named, text, held | dropped⟩ := hk file id ht
  · rw [hd] at hd'
    cases hd'
    exact ⟨named, text, held⟩
  · cases dropped

theorem text?_eq_filed? : h.text? file = (h.filed? file).bind Document.text := by
  rw [text?, filed?, Option.bind_assoc]

theorem filed?_revise_self (ht : h.tracked.get? file = some id) (hd : h.document? id = some d) :
    (h.revise id f).filed? file = some (f d) := by
  rw [filed?_of_tracked (h := h.revise id f) ht, document?_revise, if_pos rfl, hd, Option.map_some]

theorem filed?_forget_self : (h.forget file).filed? file = none := by
  apply filed?_of_untracked
  rw [forget, Table.get?_erase, if_pos rfl]

theorem filed?_forget_other (hne : other ≠ file) : (h.forget file).filed? other = h.filed? other := by
  rw [filed?, filed?, forget, Table.get?_erase, if_neg hne]
  rfl

end Holdings
end GrammarWorkspace
