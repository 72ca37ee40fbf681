import GrammarWorkspace.Proofs.Grammar.Locality
import GrammarWorkspace.Proofs.Workspace.Coherence
import GrammarWorkspace.Proofs.Workspace.Notifying

/-!
# What the client sees of the compilation

The client sees the diagnostics of the tracked documents as they were compiled at the last update. The roots
may have changed since, and with them the order of loading, but not the texts and the files.
-/
namespace GrammarWorkspace

open Grammar (Compilation Loads Reached Source)
open Work (Ends)

namespace Workspace

variable {w w' : Workspace} {g c : Compilation} {file : String} {id : DocumentId}

structure Recovers (w : Workspace) (c : Compilation) (w' : Workspace) : Prop where
  sound : w.core.Sound []
  drifts : w.Drifts .client [] w'
  unmade : w.compilation = none
  compilation_eq : w'.compilation = some c
  entries : ∃ more, w'.tracked.entries = w.tracked.entries ++ more
  published_eq : w'.published = w.published
  quietly : w.Quietly w'

namespace Recovers

variable (recovers : w.Recovers c w')
include recovers

theorem fits : w'.core.Fits c := recovers.drifts.sound.fits rfl c recovers.compilation_eq

theorem loads : Loads w.holdings.reading {} w.holdings.clientFiles c.sources := by
  have later : w.holdings.Later w'.holdings := recovers.drifts.core.later
  have gathered := recovers.drifts.core.gathered recovers.unmade (by
    rw [core_compilation, recovers.compilation_eq]
    rfl)
  have loads := Holdings.loads_reading gathered recovers.fits.loads
  rw [show w'.core.holdings.clientFiles = w.holdings.clientFiles from later.clientFiles_eq] at loads
  refine loads.congr (P := w.holdings.Reaches) (fun _ => .root) (fun file text target hr hx hi => ?_) fun file hr => ?_
  · exact .imported hr ((later.reading_eq file hr).symm.trans hx) hi
  · exact (later.reading_eq file hr).symm

theorem tracked_of_tracked (ht : w.holdings.tracked.get? file = some id) :
    w'.holdings.tracked.get? file = some id := by
  obtain ⟨more, entries⟩ := recovers.entries
  apply Table.get?_eq_some_iff.mpr
  rw [show w'.holdings.tracked.entries = _ from entries]
  exact List.mem_append_left _ (Table.get?_eq_some_iff.mp ht)

/-- The last update came to a compilation: otherwise a file that could not be read then could not be read now. -/
theorem not_obstructed : ¬ w.Obstructed := by
  rintro ⟨-, tracked, file, fault, reached, failed⟩
  have loads := recovers.loads
  have reaches : w.holdings.Reaches file := by
    clear failed
    induction reached with
    | root hm =>
      obtain ⟨id, ht⟩ := Table.mem_keys_iff.mp (tracked _ hm)
      have loaded := (recovers.fits.keys_iff _).mpr (Table.mem_keys_of_get? (recovers.tracked_of_tracked ht))
      exact (loads.mem_keys_iff.mp loaded).1
    | imported _ read imported ih => exact .imported ih read imported
  exact Holdings.not_breaks_of_loads loads ⟨file, fault, reaches, failed⟩

theorem files_iff (informed : w.Informed g) : file ∈ w'.files ↔ file ∈ w.files := by
  have loads := recovers.loads
  -- A file that is loaded and was not missing at the last update was loaded then.
  have before : ∀ file text, file ∈ w.files ∨ w.holdings.reading file = .ok none →
      w.holdings.reading file = .ok (some text) → file ∈ w.files := by
    intro file text known read
    refine known.resolve_right fun absent => ?_
    rw [read] at absent
    cases absent
  have found := loads.keys_induction (P := fun file => file ∈ w.files ∨ w.holdings.reading file = .ok none)
    (by simp)
    (fun file hc => by
      obtain ⟨id, d, ht, -⟩ := (Holdings.mem_clientFiles recovers.sound.known).mp hc
      exact Or.inl (Table.mem_keys_of_get? ht))
    (fun file text target known read imported => by
      rw [← informed.keys_iff target]
      exact informed.loads.answers_imports read ((informed.keys_iff file).mpr (before file text known read)) (by simp)
        imported)
  constructor
  · intro hm
    have loaded := (recovers.fits.keys_iff file).mpr hm
    obtain ⟨-, text, read⟩ := loads.mem_keys_iff.mp loaded
    exact before file text (found file loaded) read
  · intro hm
    obtain ⟨id, ht⟩ := Table.mem_keys_iff.mp hm
    exact Table.mem_keys_of_get? (recovers.tracked_of_tracked ht)

theorem reading_eq (informed : w.Informed g) : w'.holdings.reading = w.holdings.reading := by
  have later : w.holdings.Later w'.holdings := recovers.drifts.core.later
  funext file
  cases ht : w.holdings.tracked.get? file with
  | some id =>
    have ht' := recovers.tracked_of_tracked ht
    obtain ⟨d, hd, -⟩ := recovers.sound.known file id ht
    obtain ⟨d', hd', lasts⟩ := later.document id d hd
    rw [core_holdings] at hd
    rw [Holdings.reading_tracked ht, Holdings.reading_tracked ht']
    simp only [Holdings.text?, ht, ht', hd, hd', Option.bind_some, lasts.text_eq]
  | none =>
    have ht' : w'.holdings.tracked.get? file = none := Table.get?_eq_none_iff.mpr fun hm =>
      Table.get?_eq_none_iff.mp ht ((recovers.files_iff informed).mp hm)
    rw [Holdings.reading_untracked ht, Holdings.reading_untracked ht', later.stored_eq]

theorem informed (informed : w.Informed g) : w'.Informed g := by
  have last := lastUpdate_of_quietly recovers.quietly
  refine ⟨informed.reportUnused_eq.trans recovers.drifts.core.reportUnused_eq.symm, ?_, ?_, fun file => ?_,
    fun file => ?_, ?_⟩
  · rw [last]
    exact informed.roots_eq
  · rw [recovers.reading_eq informed]
    exact informed.loads
  · rw [recovers.files_iff informed]
    exact informed.keys_iff file
  · rw [recovers.files_iff informed, last]
    exact informed.files_iff file
  · rw [last]
    intro d hm alone
    rw [lastPublished_eq, recovers.published_eq, ← lastPublished_eq]
    exact informed.shows d hm alone

end Recovers
end Workspace

namespace Task

variable {depth : Nat} {w : Workspace}

/-- A rebuild is answered by an update if it has let go of something, and otherwise it leaves the client
informed. -/
theorem ends_rebuild_served (hs : w.Served) (unmade : w.compilation = none) :
    Ends (rebuild (Task.call (depth + 1))) w fun r w' => w.Drifts .client [] w' ∧
      match r with
      | .ok c => w'.compilation = some c ∧ ∃ g, w'.Informed g
      | .error _ => w.holdings.Breaks := by
  let inside := { w with gate := { w.gate with phase := .rebuilding } }
  have solo : inside.Solo := hs.toSolo.of_same rfl rfl rfl hs.filed
  have calm := calm_client (depth + 1)
  rw [rebuild_eq]
  apply ends_rebuilding ((ends_rebuildBody_solo solo rfl).and
    (ends_rebuildBody calm (w := inside) solo.toAttended hs.sound rfl unmade))
  · rintro c w₁ ⟨⟨solo₁, quietly, suspensions, remakes⟩, rebuilt⟩
    have drifts := drifts_leaving rebuilt.drifts
    have ready : (leaving w w₁).Ready := ⟨solo₁.of_same rfl rfl rfl solo₁.filed, hs.phase_eq⟩
    have gate : (leaving w w₁).gate = { Gate.initial with pending := w₁.gate.pending } := by
      change Gate.mk w.gate.phase w₁.gate.suspensions (if w.gate.phase = .reporting then _ else _) = _
      rw [suspensions, if_neg (by rw [hs.phase_eq]; decide)]
      change Gate.mk w.gate.phase w.gate.suspensions _ = _
      rw [hs.gate_eq]
    cases waits : w₁.gate.pending with
    | false =>
      rw [Gate.ends_flush_of_not]
      · obtain ⟨entries, published⟩ := remakes.still waits
        have recovers : w.Recovers c (leaving w w₁) := ⟨hs.sound, drifts, unmade, remakes.compilation_eq, entries, published,
          ⟨quietly.record, quietly.news⟩⟩
        obtain ⟨g, informed⟩ := hs.told.resolve_right recovers.not_obstructed
        exact ⟨drifts, remakes.compilation_eq, g, recovers.informed informed⟩
      · rintro ⟨due, -⟩
        rw [show (HasGate.gate (leaving w w₁)) = _ from gate, waits] at due
        cases due
    | true =>
      have due : (leaving w w₁).gate.isDue = true := by
        rw [gate, waits]
        rfl
      refine ((ends_flush_told ready due).and ((ends_flush _).and
        (soft_flush (soft_report calm) _ drifts.quiet drifts.sound))).mono ?_
      rintro r w₂ ⟨⟨ready₂, -, informs⟩, rfl, drifts₂⟩
      have onward := drifts.trans drifts₂
      have same : w₂.core = (leaving w w₁).core := drifts₂.core.still (by
        rw [Workspace.core_compilation, show (leaving w w₁).compilation = some c from remakes.compilation_eq]
        rfl)
      have compiled : w₂.compilation = some c := (congrArg Core.compilation same).trans remakes.compilation_eq
      refine ⟨onward, compiled, ?_⟩
      rcases informs.announces with ⟨c', announces⟩ | ⟨none, -⟩
      · have made : w₂.compilation = some c' := announces.compilation_eq
        have gathered := onward.core.gathered unmade (by rw [Workspace.core_compilation, made]; rfl)
        exact ⟨c', Workspace.informed_of_informs gathered (onward.sound.fits rfl c' made) ready₂.filed
          (Workspace.lastUpdate_of_informs informs) announces⟩
      · rw [compiled] at none
        cases none
  · rintro fault w₁ ⟨-, rebuilt⟩
    exact ⟨drifts_leaving rebuilt.drifts, rebuilt.breaks fault rfl⟩

theorem ends_compilation_served (hs : w.Served) :
    Ends (compilation (Task.call (depth + 1))) w fun r w' => w.Drifts .client [] w' ∧
      match r with
      | .ok c => w'.compilation = some c ∧ ∃ g, w'.Informed g
      | .error _ => w.holdings.Breaks := by
  rw [compilation, Work.ends_bind, Work.ends_get, Work.next_ok]
  cases made : w.compilation with
  | some c =>
    refine ⟨.refl hs.toAttended hs.sound, made, hs.told.resolve_right fun obstructed => ?_⟩
    rw [obstructed.compilation_eq] at made
    cases made
  | none => exact ends_rebuild_served hs made

end Task

namespace Workspace

variable {w : Workspace} {g c : Compilation}

/-- The client sees the diagnostics of the tracked documents, as they are when compiled from the roots of the
last update. Where other roots make a difference, it is in the order of loading alone. -/
structure Viewed (w : Workspace) (c : Compilation) : Prop where
  compiled : ∀ file, file ∈ c.sources.keys ↔ file ∈ w.files
  shown : ∀ d ∈ w.trackedDocuments, (∀ e ∈ w.lastUpdate.documents, e.uri = d.uri ↔ e.file = d.file) →
    lastPublished d.uri w.record = some (noticesOf (w.compiledFrom w.lastUpdate.roots) d)
  settled : ∀ file, (w.compiledFrom w.lastUpdate.roots).settledFor file = c.settledFor file
  fresh : (w.compiledFrom w.lastUpdate.roots).sources.keys = c.sources.keys →
    ∀ file, (w.compiledFrom w.lastUpdate.roots).diagnosticsFor file = c.diagnosticsFor file
  ordered : w.lastUpdate.roots = c.request.roots →
    (w.compiledFrom w.lastUpdate.roots).sources.keys = c.sources.keys

theorem Informed.alike (informed : w.Informed g) : g.Alike (w.compiledFrom g.request.roots) := by
  refine alike_compiledFrom informed.reportUnused_eq ?_
  refine informed.loads.congr (P := Grammar.Reached w.holdings.reading g.request.roots)
    (fun _ => .root) (fun _ _ _ => .imported) fun file hr => ?_
  cases ht : w.holdings.tracked.get? file with
  | some id => rw [Holdings.reading_tracked ht]
  | none =>
    have unloaded : file ∉ g.sources.keys := fun hm =>
      Table.get?_eq_none_iff.mp ht ((informed.keys_iff file).mp hm)
    rw [(informed.loads.answers_reached hr).resolve_left unloaded]
    simp [Holdings.text?, ht]

theorem Informed.sameSources (informed : w.Informed g) (fits : w.core.Fits c) : g.SameSources c := by
  refine ⟨fun file => ?_, fun file s hs => ?_⟩
  · cases hs : g.source? file with
    | none =>
      have absent : c.source? file = none := Table.get?_eq_none_iff.mpr fun hm =>
        Table.get?_eq_none_iff.mp hs ((informed.keys_iff file).mpr ((fits.keys_iff file).mp hm))
      rw [absent]
    | some s =>
      have tracked := (informed.keys_iff file).mp (Table.mem_keys_of_get? hs)
      obtain ⟨s', hs'⟩ := Table.mem_keys_iff.mp ((fits.keys_iff file).mpr tracked)
      obtain ⟨id, ht⟩ := Table.mem_keys_iff.mp tracked
      obtain ⟨text, hx, of⟩ := informed.loads.source_is_of hs
      obtain ⟨text', hx', of'⟩ := fits.loads.source_is_of hs'
      have same : text' = text := by
        rw [Holdings.reading_tracked ht] at hx
        exact Option.some.inj ((Except.ok.inj hx').symm.trans (Except.ok.inj hx))
      rw [Compilation.source?, hs', Option.map_some, Option.map_some, of.unsigned, of'.unsigned, same]
  · obtain ⟨text, -, of⟩ := informed.loads.source_is_of hs
    exact of.file_eq

theorem Informed.viewed (informed : w.Informed g) (fits : w.core.Fits c) (filed : w.holdings.Filed) : w.Viewed c := by
  have alike := informed.alike
  have same := informed.sameSources fits
  rw [informed.roots_eq] at alike
  refine ⟨fits.keys_iff, fun d hm alone => ?_, fun file => ?_, fun keys_eq file => ?_, fun roots_eq => ?_⟩
  · obtain ⟨id, ht, -⟩ := tracked_of_mem filed hm
    obtain ⟨e, he, named⟩ := (informed.files_iff d.file).mpr (Table.mem_keys_of_get? ht)
    have spelled : e.uri = d.uri := (alone e he).mpr named
    have shown := informed.shows e he fun e' he' same => by
      rw [named]
      exact (alone e' he').mp (same.trans spelled)
    rw [← spelled, shown, noticesOf, noticesOf, alike.diagnosticsFor_eq, named]
  · rw [← same.settledFor_eq, Compilation.settledFor, Compilation.settledFor, alike.diagnosticsFor_eq]
  · rw [← alike.keys_eq] at keys_eq
    rw [← alike.diagnosticsFor_eq]
    refine (same.alike ?_ keys_eq).diagnosticsFor_eq file
    rw [informed.reportUnused_eq, fits.request_eq]
    rfl
  · rw [roots_eq, fits.request_eq]
    exact (alike_anew fits).keys_eq.symm

theorem served_ofSetup (s : Setup) (alone : s.cast = []) (client : s.hasClient = true) : (ofSetup s).Served := by
  have ready := ready_ofSetup s alone client
  obtain ⟨host, files, reportUnused, hasWatcher, hasClient, cast⟩ := s
  cases alone
  cases client
  have sound := (resting_ofSetup ⟨host, files, reportUnused, hasWatcher, true, []⟩ (by simp)).sound
  refine ⟨ready, sound, rfl, rfl, Or.inl ⟨⟨0, ⟨[], reportUnused⟩, {}⟩, rfl, rfl, .done _, fun _ => Iff.rfl, ?_, ?_⟩⟩
  · intro file
    exact iff_of_false (fun ⟨d, hm, _⟩ => by cases hm) (fun hm => by cases hm)
  · intro d hm
    cases hm

theorem Served.turn (hs : w.Served) {action : Action} (notify : action.isNotification = true) :
    w.Serves (w.updates action) (fun uri => ∃ u, action.spelling? = some u ∧ w.Respells u uri) (w.turn action).2 :=
  Task.ends_perform_served hs notify

theorem Served.run {actions : List Action} (hs : w.Served) (notify : ∀ action ∈ actions, action.isNotification = true) :
    (w.run actions).Served := by
  induction actions generalizing w with
  | nil => exact hs
  | cons action rest ih =>
    exact ih (hs.turn (notify action List.mem_cons_self)).served fun a hm => notify a (List.mem_cons_of_mem _ hm)

/-- One of the actions spells a tracked document in another way than by this URI, which it had. -/
def Abandons (w : Workspace) (actions : List Action) (uri : String) : Prop :=
  ∃ before action after u, actions = before ++ action :: after ∧ action.spelling? = some u ∧ (w.run before).Respells u uri

theorem Served.tidy_run {actions : List Action} {uri : String} (hs : w.Served)
    (notify : ∀ action ∈ actions, action.isNotification = true) (kept : ¬ w.Abandons actions uri) (tidy : w.Tidy uri) :
    (w.run actions).Tidy uri := by
  induction actions generalizing w with
  | nil => exact tidy
  | cons action rest ih =>
    have serves := hs.turn (notify action List.mem_cons_self)
    apply ih serves.served (fun a hm => notify a (List.mem_cons_of_mem _ hm))
    · rintro ⟨before, a, after, u, rfl, spelled, lost⟩
      exact kept ⟨action :: before, a, after, u, rfl, spelled, lost⟩
    · apply serves.tidy uri _ tidy
      rintro ⟨u, spelled, lost⟩
      exact kept ⟨[], action, rest, u, rfl, spelled, lost⟩

theorem Served.access (hs : w.Served) : (∀ uri, w.Tidy uri → (w.turn .sources).2.Tidy uri) ∧
    (¬ w.holdings.Breaks → ∃ c, (w.turn .sources).1.result = .ok (.texts c.sources.keys) ∧
      (w.turn .sources).2.compilation = some c ∧ (w.turn .sources).2.Viewed c) := by
  have accessed : Ends (Task.perform (Task.call (w.restlessness + Action.sources.weight + 1)) .sources) w
      fun r w' => (∀ uri, w.Tidy uri → w'.Tidy uri) ∧ (¬ w.holdings.Breaks →
        ∃ c, r = .ok (.texts c.sources.keys) ∧ w'.compilation = some c ∧ w'.Viewed c) := by
    refine (Task.ends_compilation_served hs).bind ?_ ?_
    · rintro c w' ⟨drifts, compiled, g, informed⟩
      have viewed := informed.viewed (drifts.sound.fits rfl c compiled) drifts.sound.known.filed
      exact ⟨drifts.extra, fun _ => ⟨c, rfl, compiled, viewed⟩⟩
    · rintro fault w' ⟨drifts, breaks⟩
      exact ⟨drifts.extra, fun fine => absurd breaks fine⟩
  exact accessed

/-- What the client is told of some notifications, and sees of the compilation that is asked for after them. -/
structure Oversees (w : Workspace) (actions : List Action) : Prop where
  /-- A notification is answered by an update just if it changes a text or takes away a last holder. -/
  told : ∀ before action after, actions = before ++ action :: after →
    (w.run (before ++ [action])).tally = (w.run before).tally + if (w.run before).updates action then 1 else 0
  /-- Nothing is shown under a URI that no document has, unless it was given up for another spelling. -/
  cleared : ∀ uri notices, lastPublished uri ((w.run actions).turn .sources).2.record = some notices →
    (∀ d ∈ ((w.run actions).turn .sources).2.trackedDocuments, d.uri ≠ uri) → ¬ w.Abandons actions uri → notices = []
  /-- A compilation is found, unless a file cannot be looked for by its name. -/
  viewed : (w.run actions).holdings.Nameable →
    ∃ c, ((w.run actions).turn .sources).1.result = .ok (.texts c.sources.keys) ∧
      ((w.run actions).turn .sources).2.compilation = some c ∧ ((w.run actions).turn .sources).2.Viewed c

/-- After any notifications, what the client sees is up to date but for the order of loading. -/
theorem viewed_run (s : Setup) (alone : s.cast = []) (client : s.hasClient = true) (actions : List Action)
    (notify : ∀ action ∈ actions, action.isNotification = true) : (ofSetup s).Oversees actions := by
  have start := served_ofSetup s alone client
  have served := start.run notify
  refine ⟨?_, ?_, ?_⟩
  · rintro before action after rfl
    have early : ((ofSetup s).run before).Served := start.run fun a hm => notify a (List.mem_append_left _ hm)
    rw [run_concat]
    exact (early.turn (notify action (by simp))).tally_eq
  · intro uri notices last unnamed kept
    by_contra shown
    have unshown : (ofSetup s).Tidy uri := by
      obtain ⟨bus, subscriptions, scripts, begins⟩ := exists_ofSetup s
      rw [begins]
      exact fun notices last _ => by cases last
    obtain ⟨file, id, d, ht, hd, spelled⟩ := served.access.1 uri (start.tidy_run notify kept unshown) notices last shown
    exact unnamed d (mem_of_tracked ht hd) spelled
  · intro nameable
    exact served.access.2 fun breaks => (Holdings.breaks_iff_not_nameable served.failing_eq).mp breaks nameable

def serving (files : List (String × List UInt8)) : Setup :=
  ⟨⟨none⟩, files, false, false, true, []⟩

def twofold : Setup :=
  serving [("/b", [120, 58, 61, 39, 98, 39, 59]), ("/c", [120, 58, 61, 39, 99, 39, 59])]

/-- The client opens a document that imports both files, and then one of these as it is. -/
def opening : List Action :=
  [.openOnClient "file:///a" "@import 'b'; @import 'c';", .openOnClient "file:///c" "x:='c';"]

theorem nameable_of_tracked (roots : ∀ file ∈ w.holdings.clientFiles, file ∈ w.files)
    (closed : ∀ file ∈ w.files, ∀ target ∈ Grammar.importsOf file ((w.holdings.text? file).getD ""), target ∈ w.files) :
    w.holdings.Nameable := by
  intro file reaches untracked
  refine absurd ?_ untracked
  clear untracked
  induction reaches with
  | root hm => exact roots _ hm
  | @imported file text target _ read imported ih =>
    obtain ⟨id, ht⟩ := Table.mem_keys_iff.mp ih
    rw [Holdings.reading_tracked ht] at read
    apply closed file ih
    rw [Except.ok.inj read]
    exact imported

set_option maxRecDepth 4000 in
theorem viewed_run_twofold : (ofSetup twofold).Oversees opening ∧ ((ofSetup twofold).run opening).tally = 1 ∧
    ∃ c, (((ofSetup twofold).run opening).turn .sources).1.result = .ok (.texts c.sources.keys) ∧
      (((ofSetup twofold).run opening).turn .sources).2.Viewed c := by
  have oversees := viewed_run twofold rfl rfl opening (by decide)
  obtain ⟨c, result, -, viewed⟩ := oversees.viewed (nameable_of_tracked (by decide +kernel) (by decide +kernel))
  exact ⟨oversees, by decide +kernel, c, result, viewed⟩

/-- The client sees what the compilation says of every tracked document, as far as it was compiled. -/
def seesAll (w : Workspace) : Bool :=
  w.compilation.all fun c => w.trackedDocuments.all fun d =>
    !(c.source? d.file).isSome || lastPublished d.uri w.record = some (noticesOf c d)

set_option maxRecDepth 4000 in
/-- The client need not see all. Another order of the roots moves a duplicate to another file, a
document that is opened again may change its URI, and two files may have one URI. -/
theorem not_seesAll :
    (((ofSetup twofold).run opening).turn .sources).2.seesAll = false ∧
      (((ofSetup (serving [("/b", [59])])).run
        [.openOnClient "file:///a" "@import 'b';", .openOnClient "/b" ";"]).turn
          .sources).2.seesAll = false ∧
      (((ofSetup (serving [("/x/y", []), ("/x\\y", [59])])).run
        [.openOnClient "file:///a" "@import 'x\\\\y'; @import 'x/y';"]).turn
          .sources).2.seesAll = false :=
  ⟨by decide +kernel, by decide +kernel, by decide +kernel⟩

end Workspace
end GrammarWorkspace
