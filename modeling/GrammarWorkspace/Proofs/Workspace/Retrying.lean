import GrammarWorkspace.Proofs.Workspace.Failure
import GrammarWorkspace.Proofs.Workspace.Transparency

/-!
# Trying again after a failure

What is tracked when a compilation has been made depends on what was held before, and on nothing that came
between. A failed compilation has opened the first of the files that the next one loads. So once all files
can be read, that one ends as it would have ended without the failure.
-/
namespace GrammarWorkspace

open Grammar (Comes Compilation Loads)
open Work (Ends)

namespace Arranged

variable {loaded all old new new' : List String}

theorem extend (h : Arranged loaded old new) (first : loaded <+: all) (nodup : all.Nodup)
    (there : ∀ file ∈ all, file ∈ new) : Arranged all old new := by
  obtain ⟨rest, rfl⟩ := first
  have apart := (List.nodup_append.mp nodup).2.2
  have known : rest.filter (· ∉ old) = [] := by
    rw [List.filter_eq_nil_iff]
    intro file hf
    rcases h.mem_iff.mp (there file (List.mem_append_right _ hf)) with ⟨ho, -⟩ | ⟨hl, -⟩
    · simpa using ho
    · exact absurd rfl (apart file hl file hf)
  unfold Arranged
  rw [List.filter_append, known, List.append_nil]
  exact h

theorem unique (h : Arranged all old new) (h' : Arranged all old new')
    (same : ∀ file, file ∈ new ↔ file ∈ new') : new = new' := by
  have stays : old.filter (· ∈ new) = old.filter (· ∈ new') := by
    apply List.filter_congr
    intro file _
    simp [same file]
  calc
    new = old.filter (· ∈ new) ++ all.filter (· ∉ old) := h
    _ = old.filter (· ∈ new') ++ all.filter (· ∉ old) := by rw [stays]
    _ = new' := h'.symm

end Arranged

theorem Document.eq_of_unmarked {d d' : Document} (same : d.unmarked = d'.unmarked)
    (marks : d.isMarked = d'.isMarked) : d = d' := by
  have marked (e : Document) : { e.unmarked with isMarked := e.isMarked } = e := rfl
  rw [← marked d, ← marked d', same, marks]

theorem Host.obstacle?_nil {failing : List String} {file : String} (clear : obstacle? failing file = none) :
    obstacle? [] file = none := by
  unfold obstacle? at clear ⊢
  split at clear
  · cases clear
  · rw [if_neg List.not_mem_nil]
    exact clear

namespace Holdings

variable {h h' h'' : Holdings} {c c' : Compilation} {file : String} {id : DocumentId} {d d' : Document}
  {dropping : List DocumentId}

structure Yields (h : Holdings) (c : Compilation) (h' : Holdings) : Prop where
  later : h.Later h'
  known : h'.Known []
  loads : Loads h.reading {} h.clientFiles c.sources
  keys_iff : ∀ file, file ∈ c.sources.keys ↔ file ∈ h'.tracked.keys
  marked : ∀ file ∈ c.sources.keys, h'.Marks file

/-- What lasts of one document and is still held differs in its mark at most. -/
theorem Lasts.unmarked_eq (l : Lasts d d') {d'' : Document} (l' : Lasts d d'') (held : d'.isOpen = true)
    (held' : d''.isOpen = true) : d'.unmarked = d''.unmarked := by
  have onServer : d'.onServer = d''.onServer := by
    cases hc : d.onClient with
    | true => rw [l.onServer_eq hc, l'.onServer_eq hc]
    | false =>
      rw [Document.isOpen, l.onClient_eq, hc, Bool.false_or] at held
      rw [Document.isOpen, l'.onClient_eq, hc, Bool.false_or] at held'
      rw [held, held']
  simp only [Document.unmarked, l.file_eq, l.uri_eq, l.text_eq, l.onClient_eq, onServer, l'.file_eq,
    l'.uri_eq, l'.text_eq, l'.onClient_eq]

namespace Yields

theorem of_later (l : h.Later h') (y : h'.Yields c h'') : h.Yields c h'' where
  later := l.trans y.later
  known := y.known
  loads := l.loads y.loads
  keys_iff := y.keys_iff
  marked := y.marked

theorem arranged (y : h.Yields c h') : Arranged c.sources.keys h.tracked.keys h'.tracked.keys := by
  obtain ⟨loaded, queue, come, arranged⟩ := y.later.keys_eq
  exact arranged.extend (come.prefix_of_loads y.loads) c.sources.keys_nodup fun file => (y.keys_iff file).mp

theorem sources_eq (y : h.Yields c h') (y' : h.Yields c' h'') :
    c.sources.mapValues Grammar.Source.unsigned = c'.sources.mapValues Grammar.Source.unsigned :=
  y.loads.unsigned_eq y'.loads rfl

theorem keys_eq (y : h.Yields c h') (y' : h.Yields c' h'') : h'.tracked.keys = h''.tracked.keys := by
  have sources := Table.keys_eq_of_mapValues (y.sources_eq y')
  have arranged' := y'.arranged
  rw [← sources] at arranged'
  apply y.arranged.unique arranged'
  intro file
  rw [← y.keys_iff, sources, y'.keys_iff]

theorem reaches (y : h.Yields c h') (ht : h'.tracked.get? file = some id) : h.Reaches file :=
  (y.loads.mem_keys_iff.mp ((y.keys_iff file).mpr (Table.mem_keys_of_get? ht))).1

theorem isMarked (y : h.Yields c h') (hf : h'.filed? file = some d) : d.isMarked = true := by
  obtain ⟨id, ht, hd⟩ := filed?_eq_some hf
  obtain ⟨id', d', ht', hd', marked⟩ := y.marked file ((y.keys_iff file).mpr (Table.mem_keys_of_get? ht))
  rw [ht] at ht'
  cases ht'
  rw [hd] at hd'
  cases hd'
  exact marked

theorem lasts (y : h.Yields c h') (old : h.filed? file = some d) (hf : h'.filed? file = some d') :
    Lasts d d' := by
  obtain ⟨id, ht, hd⟩ := filed?_eq_some old
  obtain ⟨id', ht', hd'⟩ := filed?_eq_some hf
  rw [y.later.kept file id d ht hd (Or.inl (y.reaches ht'))] at ht'
  cases ht'
  obtain ⟨d'', hd'', lasts⟩ := y.later.document id d hd
  rw [hd'] at hd''
  cases hd''
  exact lasts

theorem isRead (y : h.Yields c h') (new : file ∉ h.tracked.keys) (hf : h'.filed? file = some d') :
    h.IsRead file d' := by
  obtain ⟨id, ht, hd⟩ := filed?_eq_some hf
  rcases y.later.found file id ht with old | ⟨d, hd', client, stored, uri⟩
  · exact absurd (Table.mem_keys_of_get? old) new
  · rw [hd] at hd'
    cases hd'
    obtain ⟨named, ⟨text, hx⟩, held⟩ := y.known.of_filed? hf
    have server : d'.onServer = true := by simpa [Document.isOpen, client] using held
    refine ⟨d'.uri, text, uri, by rw [stored, hx], ?_⟩
    simp only [Document.unmarked, named, hx, client, server]

theorem filed?_eq (y : h.Yields c h') (y' : h.Yields c' h'') (hk : h.Known dropping) (file : String) :
    h'.filed? file = h''.filed? file := by
  by_cases tracked : file ∈ h'.tracked.keys
  · obtain ⟨d, hf⟩ := y.known.exists_filed? tracked
    obtain ⟨d', hf'⟩ := y'.known.exists_filed? (y.keys_eq y' ▸ tracked)
    rw [hf, hf']
    apply congrArg some
    apply Document.eq_of_unmarked
    · by_cases before : file ∈ h.tracked.keys
      · obtain ⟨d₀, old⟩ := hk.exists_filed? before
        have held := (y.known.of_filed? hf).2.2
        have held' := (y'.known.of_filed? hf').2.2
        exact (y.lasts old hf).unmarked_eq (y'.lasts old hf') held held'
      · exact (y.isRead before hf).unique (y'.isRead before hf')
    · rw [y.isMarked hf, y'.isMarked hf']
  · have tracked' : file ∉ h''.tracked.keys := y.keys_eq y' ▸ tracked
    rw [filed?_of_untracked (Table.get?_eq_none_iff.mpr tracked),
      filed?_of_untracked (Table.get?_eq_none_iff.mpr tracked')]

end Yields

def mended (h : Holdings) : Holdings := { h with failing := [] }

theorem stored_mended_of_ok {answer : Option String} (hs : h.stored file = .ok answer) :
    h.mended.stored file = .ok answer := by
  cases obstacle : Host.obstacle? h.failing file with
  | some fault =>
    rw [stored_of_obstacle obstacle] at hs
    cases hs
  | none =>
    rw [stored_of_no_obstacle obstacle] at hs
    rw [stored_of_no_obstacle (h := h.mended) (Host.obstacle?_nil obstacle)]
    exact hs

theorem reading_mended_of_ok {answer : Option String} (hx : h.reading file = .ok answer) :
    h.mended.reading file = .ok answer := by
  cases ht : h.tracked.get? file with
  | some id =>
    rw [reading_tracked ht] at hx
    rw [reading_tracked (h := h.mended) ht]
    exact hx
  | none =>
    rw [reading_untracked ht] at hx
    rw [reading_untracked (h := h.mended) ht]
    exact stored_mended_of_ok hx

theorem Later.text?_eq (l : h.Later h') (hk : h.Known dropping) (ht : h.tracked.get? file = some id)
    (ht' : h'.tracked.get? file = some id) : h'.text? file = h.text? file := by
  obtain ⟨d, hd, -⟩ := hk file id ht
  obtain ⟨d', hd', lasts⟩ := l.document id d hd
  rw [text?_eq_filed?, text?_eq_filed?, filed?_of_tracked ht, filed?_of_tracked ht', hd, hd']
  exact lasts.text_eq

theorem Later.stored_of_found (l : h.Later h') (ht : h.tracked.get? file = none)
    (ht' : h'.tracked.get? file = some id) : h.stored file = .ok (h'.text? file) := by
  rcases l.found file id ht' with old | ⟨d, hd, -, stored, -⟩
  · rw [ht] at old
    cases old
  · rw [text?_eq_filed?, filed?_of_tracked ht', hd]
    exact stored

theorem Later.reading_mended (l : h.Later h') (hk : h.Known dropping)
    (kept : ∀ file id, h.tracked.get? file = some id → h'.tracked.get? file = some id) (file : String) :
    h'.mended.reading file = h.mended.reading file := by
  cases ht : h.tracked.get? file with
  | some id =>
    have ht' := kept file id ht
    calc
      h'.mended.reading file = .ok (h'.text? file) := reading_tracked ht'
      _ = .ok (h.text? file) := by rw [l.text?_eq hk ht ht']
      _ = h.mended.reading file := (reading_tracked (h := h.mended) ht).symm
  | none =>
    have read : h.mended.reading file = h.mended.stored file := reading_untracked ht
    cases ht' : h'.tracked.get? file with
    | some id =>
      calc
        h'.mended.reading file = .ok (h'.text? file) := reading_tracked ht'
        _ = h.mended.stored file := (stored_mended_of_ok (l.stored_of_found ht ht')).symm
        _ = h.mended.reading file := read.symm
    | none =>
      have read' : h'.mended.reading file = h'.mended.stored file := reading_untracked ht'
      rw [read, read', stored, stored, show h'.mended.disk = h.mended.disk from l.disk_eq]
      rfl

/-- Where nothing has been let go of, the changes are of the same kind with all files readable. -/
theorem Later.mended (l : h.Later h') (hk : h.Known dropping)
    (kept : ∀ file id, h.tracked.get? file = some id → h'.tracked.get? file = some id) :
    h.mended.Later h'.mended where
  disk_eq := l.disk_eq
  failing_eq := rfl
  document := l.document
  clientFiles_eq := l.clientFiles_eq
  reading_eq file _ := l.reading_mended hk kept file
  kept file id _ ht _ _ := kept file id ht
  found file id ht := by
    rcases l.found file id ht with old | ⟨d', hd', client, stored, uri⟩
    · exact Or.inl old
    · exact Or.inr ⟨d', hd', client, stored_mended_of_ok stored, uri⟩
  keys_eq := by
    obtain ⟨loaded, queue, come, arranged⟩ := l.keys_eq
    exact ⟨loaded, queue, come.congr fun _ _ _ => reading_mended_of_ok, arranged⟩

end Holdings

namespace Workspace

variable {host : Host} {w w' : Workspace} {c : Compilation}

theorem trackedDocuments_eq (w : Workspace) : w.trackedDocuments = w.files.filterMap w.holdings.filed? := by
  rw [trackedDocuments, files, Table.values, Table.keys, List.filterMap_map, List.filterMap_map]
  apply List.filterMap_congr
  intro e hm
  exact (Holdings.filed?_of_tracked (h := w.holdings) (Table.get?_eq_some_iff.mpr hm)).symm

def mended (w : Workspace) : Workspace := w.run (w.failing.map fun file => .setFailing file false)

theorem run_mending (files : List String) (w : Workspace) :
    w.run (files.map fun file => .setFailing file false) =
      { w with failing := w.failing.filter (· ∉ files) } := by
  induction files generalizing w with
  | nil => simp [run]
  | cons file rest ih =>
    have turn : (w.turn (.setFailing file false)).2 = { w with failing := w.failing.filter (· ≠ file) } := rfl
    rw [List.map_cons, run, List.foldl_cons, turn]
    refine (ih _).trans ?_
    rw [List.filter_filter]
    simp [Bool.and_comm]

theorem mended_eq (w : Workspace) : w.mended = { w with failing := [] } := by
  have none : w.failing.filter (· ∉ w.failing) = [] := by
    rw [List.filter_eq_nil_iff]
    simp
  rw [mended, run_mending, none]

theorem holdings_mended (w : Workspace) : w.mended.holdings = w.holdings.mended := by
  rw [mended_eq]
  rfl

namespace Resting

theorem mended (hr : w.Resting (.readers host)) : w.mended.Resting (.readers host) := by
  rw [mended_eq]
  exact Task.resting_disk hr w.disk []

theorem yields (hr : w.Resting (.readers host)) (hn : w.compilation = none) (made : w.access.1 = .ok c) :
    c.request = ⟨w.holdings.clientFiles, w.reportUnused⟩ ∧ w.holdings.Yields c w.access.2.holdings := by
  have rebuilt := hr.rebuilt
  have compiled := rebuilt.compilation_eq c made
  have fits := rebuilt.drifts.sound.fits rfl c compiled
  have later : w.holdings.Later w.access.2.holdings := rebuilt.drifts.core.later
  have gathered := rebuilt.drifts.core.gathered hn (by rw [core_compilation, compiled]; rfl)
  have reportUnused_eq : w.access.2.reportUnused = w.reportUnused := rebuilt.drifts.core.reportUnused_eq
  constructor
  · rw [fits.request_eq, ← later.clientFiles_eq, ← reportUnused_eq]
    rfl
  · exact ⟨later, rebuilt.drifts.sound.known, later.loads (Holdings.loads_reading gathered fits.loads),
      fits.keys_iff, rebuilt.marked hn c made⟩

theorem unmade_mended (hn : w.compilation = none) : w.mended.compilation = none := by
  rw [mended_eq]
  exact hn

theorem access_mended (hr : w.Resting (.readers host)) (hn : w.compilation = none)
    (fine : ¬ w.holdings.mended.Breaks) : ∃ c, w.mended.access.1 = .ok c ∧
      c.request = ⟨w.holdings.clientFiles, w.reportUnused⟩ ∧
      w.holdings.mended.Yields c w.mended.access.2.holdings := by
  cases made : w.mended.access.1 with
  | error fault =>
    have breaks := hr.mended.rebuilt.breaks fault made
    rw [holdings_mended] at breaks
    exact absurd breaks fine
  | ok c =>
    obtain ⟨request_eq, yields⟩ := hr.mended.yields (unmade_mended hn) made
    rw [holdings_mended] at request_eq yields
    refine ⟨c, rfl, ?_, yields⟩
    rw [request_eq, mended_eq]
    rfl

theorem fails (hr : w.Resting (.readers host)) (hn : w.compilation = none) (breaks : w.holdings.Breaks) :
    (∃ fault, w.access.1 = .error fault) ∧ w.access.2.Barred host ∧ w.Spares w.access.2 := by
  have barred : w.Barred host := ⟨hr.quiet, hr.sound, hn, breaks⟩
  exact Task.ends_compilation_barred _ barred

end Resting

/-- Accesses to either workspace find the same compilation, but for who read what, and leave the same
documents. If a file has a name by which nothing can be looked for, both fail. -/
structure Rejoins (w w' : Workspace) : Prop where
  found : w.holdings.Nameable → ∃ c c', w.access.1 = .ok c ∧ w'.access.1 = .ok c' ∧ c'.request = c.request ∧
    c.Alike c' ∧ w'.access.2.trackedDocuments = w.access.2.trackedDocuments
  missed : ¬ w.holdings.Nameable → ∃ fault fault', w.access.1 = .error fault ∧ w'.access.1 = .error fault'

/-- An access to a compilation that cannot be made does no harm: it leaves all as it was, but for marks and
for documents that could be read, and after all files can be read again the next access comes to the same as
without it. -/
structure Harmless (w : Workspace) : Prop where
  roots_eq : w.access.2.roots = none
  compilation_eq : w.access.2.compilation = none
  spares : w.Spares w.access.2
  rejoins : w.mended.Rejoins w.access.2.mended

theorem Spares.kept (h : w.Spares w') (file : String) (id : DocumentId)
    (ht : w.holdings.tracked.get? file = some id) : w'.holdings.tracked.get? file = some id := by
  obtain ⟨opened, -, entries, -⟩ := h.opened
  rw [Table.get?_eq_some_iff] at ht ⊢
  rw [show w'.holdings.tracked.entries = w.holdings.tracked.entries ++ opened from entries]
  exact List.mem_append_left _ ht

theorem Resting.rejoins (hr : w.Resting (.readers host)) (hr' : w'.Resting (.readers host))
    (hn : w.compilation = none) (hn' : w'.compilation = none)
    (reportUnused_eq : w'.reportUnused = w.reportUnused) (later : w.holdings.Later w'.holdings)
    (spares : w.Spares w') : w.mended.Rejoins w'.mended := by
  have mended := later.mended hr.known spares.kept
  have nameable : w.holdings.mended.Breaks ↔ ¬ w.mended.holdings.Nameable := by
    rw [holdings_mended]
    exact Holdings.breaks_iff_not_nameable rfl
  refine ⟨fun named => ?_, fun unnamed => ?_⟩
  · have fine : ¬ w.holdings.mended.Breaks := fun breaks => nameable.mp breaks named
    obtain ⟨c, made, request_eq, yields⟩ := hr.access_mended hn fine
    obtain ⟨c', made', request_eq', yields'⟩ := hr'.access_mended hn' fun breaks => fine (mended.breaks_iff.mp breaks)
    have same : c'.request = c.request := by
      rw [request_eq, request_eq', later.clientFiles_eq, reportUnused_eq]
    -- The failed access is a part of the way to the compilation that is made in the end.
    have again := yields'.of_later mended
    refine ⟨c, c', made, made', same, ?_, ?_⟩
    · exact ⟨congrArg Grammar.Request.reportUnused same.symm, yields.sources_eq again⟩
    · have files : w'.mended.access.2.files = w.mended.access.2.files := (yields.keys_eq again).symm
      rw [trackedDocuments_eq, trackedDocuments_eq, files]
      apply List.filterMap_congr
      intro file _
      exact (yields.filed?_eq again hr.known file).symm
  · have breaks := nameable.mpr unnamed
    have breaks' := mended.breaks_iff.mpr breaks
    rw [← holdings_mended] at breaks breaks'
    obtain ⟨⟨fault, failed⟩, -⟩ := hr.mended.fails (Resting.unmade_mended hn) breaks
    obtain ⟨⟨fault', failed'⟩, -⟩ := hr'.mended.fails (Resting.unmade_mended hn') breaks'
    exact ⟨fault, fault', failed, failed'⟩

theorem Resting.harmless (hr : w.Resting (.readers host)) (fails : w.access.1.isOk = false) : w.Harmless := by
  have rebuilt := hr.rebuilt
  have unmade : w.compilation = none := by
    cases hc : w.compilation with
    | none => rfl
    | some c =>
      rw [access_of_cached hc] at fails
      cases fails
  have breaks : w.holdings.Breaks := by
    cases failed : w.access.1 with
    | error fault => exact rebuilt.breaks fault failed
    | ok c =>
      rw [failed] at fails
      cases fails
  obtain ⟨-, barred', spares⟩ := hr.fails unmade breaks
  exact ⟨barred'.roots_eq, barred'.compilation_eq, spares,
    hr.rejoins (hr.drifts rebuilt.drifts) unmade barred'.compilation_eq rebuilt.drifts.core.reportUnused_eq
      rebuilt.drifts.core.later spares⟩

/-- In any state of a session, an access that fails does no harm. -/
theorem harmless_run (s : Setup) (cast : ∀ c ∈ s.cast, Action.arePassive c.script.actions = true)
    (actions : List Action) (plain : ∀ action ∈ actions, action.isPlain = true)
    (fails : ((ofSetup s).run actions).access.1.isOk = false) : ((ofSetup s).run actions).Harmless :=
  ((resting_ofSetup s cast).run plain).harmless fails

/-- Three files, of which the server opens one. From then on a listener asks for the compilation when the
server opens another. The client opens a document that imports two, and the second cannot be read. -/
def stumbled : Workspace :=
  (ofSetup ⟨⟨none⟩, [("/b", []), ("/c", []), ("/d", [])], false, false, false, []⟩).run
    [.openOnServer (.text "/d"), .subscribe .openedOnServer none 2 [.sources], .setFailing "/c" true,
      .openOnClient "/a" "@import 'b'; @import 'c';"]

set_option maxRecDepth 4000 in
/-- The access opens the first import, and the listener fails inside it. When all can be read, what is
missing is opened and what is not imported is dropped. -/
theorem harmless_run_stumbled : stumbled.Harmless ∧ stumbled.files = ["/d", "/a"] ∧
    stumbled.access.2.files = ["/d", "/a", "/b"] ∧
    stumbled.access.2.mended.access.2.files = ["/a", "/b", "/c"] := by
  have before : stumbled.files = ["/d", "/a"] := by decide +kernel
  have between : stumbled.access.2.files = ["/d", "/a", "/b"] := by decide +kernel
  have after : stumbled.access.2.mended.access.2.files = ["/a", "/b", "/c"] := by decide +kernel
  exact ⟨harmless_run _ (by decide) _ (by decide) (by decide +kernel), before, between, after⟩

end Workspace
end GrammarWorkspace
