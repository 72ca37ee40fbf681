import GrammarWorkspace.Proofs.Workspace.Drafting

/-! What suspension changes. While updates are suspended no compilation comes between notifications, so
the server opens and drops other documents on the way. In the end this shows only where a document was
closed with another text than that of its file, and in the order of loading. -/
namespace GrammarWorkspace

open Grammar (Compilation Loads Reading)

/-- The same files with the same texts, and the same diagnostics but for those that say which of
several files declares a name first. -/
structure Grammar.Compilation.Agrees (c c' : Compilation) : Prop where
  text_eq : ∀ file, (c.source? file).map Source.text = (c'.source? file).map Source.text
  localFor_eq : ∀ file, c.localFor file = c'.localFor file
  diagnosticsFor_eq : c.sources.keys = c'.sources.keys →
    ∀ file, c.diagnosticsFor file = c'.diagnosticsFor file

theorem Grammar.Compilation.Agrees.refl (c : Compilation) : c.Agrees c :=
  ⟨fun _ => rfl, fun _ => rfl, fun _ _ => rfl⟩

theorem Grammar.Compilation.SameSources.agrees {c c' : Compilation} (same : c.SameSources c')
    (reportUnused_eq : c.request.reportUnused = c'.request.reportUnused) : c.Agrees c' where
  text_eq file := by
    have texts := congrArg (Option.map Source.text) (same.source?_eq file)
    rw [Option.map_map, Option.map_map] at texts
    exact texts
  localFor_eq := same.localFor_eq reportUnused_eq
  diagnosticsFor_eq keys_eq := (same.alike reportUnused_eq keys_eq).diagnosticsFor_eq

namespace Drafts

variable {drafts : Drafts} {stored : Reading} {file : String}

def reading (drafts : Drafts) (stored : Reading) : Reading := fun file =>
  match drafts file with
  | some ⟨text, true⟩ => .ok (some text)
  | _ => stored file

theorem reading_of_open {text : String} (drafted : drafts file = some ⟨text, true⟩) :
    drafts.reading stored file = .ok (some text) := by
  simp only [reading, drafted]

theorem reading_of_closed (closed : ∀ text, drafts file ≠ some ⟨text, true⟩) :
    drafts.reading stored file = stored file := by
  unfold reading
  split
  · rename_i text drafted
    exact absurd drafted (closed text)
  · rfl

end Drafts

namespace Holdings

variable {h h' : Holdings} {drafts : Drafts} {dropping : List DocumentId} {file : String}
  {sources : Table String Grammar.Source}

/-- What the compiler comes across, and the client does not have open, is on disk as it was last
given. -/
def Saved (h : Holdings) (drafts : Drafts) : Prop :=
  ∀ file text, h.Reaches file → drafts file = some ⟨text, false⟩ → h.stored file = .ok (some text)

theorem Follows.reading_eq (follows : h.Follows drafts) (known : h.Known dropping)
    (saved : ∀ text, drafts file = some ⟨text, false⟩ → h.stored file = .ok (some text)) :
    h.reading file = drafts.reading h.stored file := by
  have here := follows file
  cases ht : h.tracked.get? file with
  | none =>
    rw [filed?_of_untracked ht] at here
    cases here with
    | absent closed => rw [reading_untracked ht, Drafts.reading_of_closed closed, stored]
  | some id =>
    obtain ⟨d, hd, -⟩ := known file id ht
    rw [filed?_of_tracked ht, hd] at here
    rw [reading_tracked ht, text?_eq_filed?, filed?_of_tracked ht, hd, Option.bind_some]
    cases here with
    | held drafted _ hx => rw [Drafts.reading_of_open drafted, hx]
    | left drafted _ hx =>
      have closed (text : String) : drafts file ≠ some ⟨text, true⟩ := by
        rw [drafted]
        simp
      rw [Drafts.reading_of_closed closed, saved _ drafted, hx]
    | read closed _ hs => rw [Drafts.reading_of_closed closed, hs]

theorem Follows.mem_clientFiles_iff (follows : h.Follows drafts) (known : h.Known dropping) :
    file ∈ h.clientFiles ↔ ∃ text, drafts file = some ⟨text, true⟩ := by
  rw [mem_clientFiles known]
  constructor
  · rintro ⟨id, d, ht, hd, hc⟩
    have here := follows file
    rw [filed?_of_tracked ht, hd] at here
    obtain ⟨text, drafted, -⟩ := here.open_of_held hc
    exact ⟨text, drafted⟩
  · rintro ⟨text, drafted⟩
    obtain ⟨d, found, hc, -⟩ := (follows file).held_of_open drafted
    obtain ⟨id, ht, hd⟩ := filed?_eq_some found
    exact ⟨id, d, ht, hd, hc⟩

structure Like (h h' : Holdings) : Prop where
  roots_iff : ∀ file, file ∈ h'.clientFiles ↔ file ∈ h.clientFiles
  reading_eq : ∀ file, h.Reaches file → h'.reading file = h.reading file

theorem Like.reaches_iff (like : h.Like h') : h'.Reaches file ↔ h.Reaches file := by
  have same : Grammar.Reached h'.reading h.clientFiles file ↔ h.Reaches file :=
    Grammar.reached_iff_of_same like.reading_eq
  rw [← same]
  constructor
  · exact Grammar.Reached.of_roots fun f => (like.roots_iff f).mp
  · exact Grammar.Reached.of_roots fun f => (like.roots_iff f).mpr

theorem Like.breaks_iff (like : h.Like h') : h'.Breaks ↔ h.Breaks := by
  constructor
  · rintro ⟨file, fault, hr, he⟩
    have hr := like.reaches_iff.mp hr
    rw [like.reading_eq file hr] at he
    exact ⟨file, fault, hr, he⟩
  · rintro ⟨file, fault, hr, he⟩
    rw [← like.reading_eq file hr] at he
    exact ⟨file, fault, like.reaches_iff.mpr hr, he⟩

theorem Follows.like (follows : h.Follows drafts) (known : h.Known dropping)
    (follows' : h'.Follows drafts) (known' : h'.Known dropping) (stored_eq : h'.stored = h.stored)
    (saved : h.Saved drafts) : h.Like h' where
  roots_iff file := by
    rw [follows.mem_clientFiles_iff known, follows'.mem_clientFiles_iff known']
  reading_eq file hr := by
    have here (text : String) := saved file text hr
    rw [follows.reading_eq known here, follows'.reading_eq known' (by rw [stored_eq]; exact here),
      stored_eq]

theorem Later.loads (l : h.Later h') (loads : Loads h'.reading {} h'.clientFiles sources) :
    Loads h.reading {} h.clientFiles sources := by
  rw [← l.clientFiles_eq]
  apply loads.congr (P := h'.Reaches) (fun _ => .root) (fun _ _ _ => .imported)
  intro file hr
  exact (l.reading_eq file (l.reaches_iff.mp hr)).symm

end Holdings

namespace Workspace

variable {host : Host} {start : Core} {drafts : Drafts} {renewed : Prop} {w w' : Workspace}

/-- The next accesses find compilations that agree, or both fail. -/
def Concurs (w w' : Workspace) : Prop :=
  (∃ c c', w.access.1 = .ok c ∧ w'.access.1 = .ok c' ∧ c.Agrees c') ∨
    ∃ fault fault', w.access.1 = .error fault ∧ w'.access.1 = .error fault'

theorem Drafting.access_old (h : Drafting host start drafts renewed w) (old : ¬ renewed) :
    ∃ c, start.compilation = some c ∧ w.access.1 = .ok c := by
  obtain ⟨made, same⟩ := h.heeds.kept old
  rw [core_compilation] at made same
  obtain ⟨c, hc⟩ := Option.isSome_iff_exists.mp made
  exact ⟨c, same.symm.trans hc, congrArg Prod.fst (access_of_cached hc)⟩

theorem Drafting.access_new (h : Drafting host start drafts renewed w) (new : renewed) :
    (∃ c, w.access.1 = .ok c ∧ c.request.reportUnused = start.reportUnused ∧
      Loads w.holdings.reading {} w.holdings.clientFiles c.sources) ∨
    ∃ fault, w.access.1 = .error fault ∧ w.holdings.Breaks := by
  have rebuilt := h.resting.rebuilt
  have after := h.drifts rebuilt.drifts
  cases answer : w.access.1 with
  | error fault => exact Or.inr ⟨fault, rfl, rebuilt.breaks fault answer⟩
  | ok c =>
    have compiled := rebuilt.compilation_eq c answer
    have fits := after.resting.sound.fits rfl c compiled
    have gathered := after.heeds.gathered new (by rw [core_compilation, compiled]; rfl)
    refine Or.inl ⟨c, rfl, ?_, ?_⟩
    · rw [fits.request_eq]
      exact after.heeds.reportUnused_eq
    · exact rebuilt.drifts.core.later.loads (Holdings.loads_reading gathered fits.loads)

theorem Drafting.concurs (h : Drafting host start drafts renewed w)
    (h' : Drafting host start drafts renewed w') (saved : w.holdings.Saved drafts) : w.Concurs w' := by
  by_cases new : renewed
  · have like : w.holdings.Like w'.holdings :=
      h.heeds.follows.like h.resting.known h'.heeds.follows h'.resting.known
        (h'.heeds.stored_eq.trans h.heeds.stored_eq.symm) saved
    rcases h.access_new new with ⟨c, found, reportUnused_eq, loads⟩ | ⟨fault, failed, breaks⟩
    · rcases h'.access_new new with ⟨c', found', reportUnused_eq', loads'⟩ | ⟨fault', -, breaks'⟩
      · refine Or.inl ⟨c, c', found, found', ?_⟩
        have same := Compilation.SameSources.of_loads loads loads' like.roots_iff like.reading_eq
        exact same.agrees (reportUnused_eq.trans reportUnused_eq'.symm)
      · exact absurd (like.breaks_iff.mp breaks') (Holdings.not_breaks_of_loads loads)
    · rcases h'.access_new new with ⟨c', -, -, loads'⟩ | ⟨fault', failed', -⟩
      · exact absurd (like.breaks_iff.mpr breaks) (Holdings.not_breaks_of_loads loads')
      · exact Or.inr ⟨fault, fault', failed, failed'⟩
  · obtain ⟨c, made, found⟩ := h.access_old new
    obtain ⟨c', made', found'⟩ := h'.access_old new
    rw [made] at made'
    cases made'
    exact Or.inl ⟨c, c, found, found', .refl c⟩

/-- From any state of a session, notifications come to the same with and without suspension, if what
they leave closed is saved. -/
theorem transparent_run (s : Setup) (cast : ∀ c ∈ s.cast, Action.arePassive c.script.actions = true)
    (before : List Action) (plain : ∀ action ∈ before, action.isPlain = true)
    (actions : List Action) (notify : ∀ action ∈ actions, action.isNotification = true)
    (saved : (((ofSetup s).run before).run actions).holdings.Saved
      (((ofSetup s).run before).drafts.afterAll s.host actions)) :
    (((ofSetup s).run before).run actions).Concurs
      (((ofSetup s).run before).run (.suspend :: actions ++ [.resume])) := by
  have start := drafting_start ((resting_ofSetup s cast).run plain)
  have withheld := (start.suspended.run notify).resumed
  rw [run_append]
  exact (start.run notify).concurs withheld saved

def declaring : Setup := serving [("/b", [120, 58, 61, 39, 98, 39, 59])]

/-- The client opens a document that imports the file, opens the file too, and closes it as it was. -/
def visiting : List Action :=
  [.openOnClient "file:///a" "@import 'b';", .openOnClient "file:///b" ";",
    .changeOnClient "file:///b" ["x:='b';"], .closeOnClient "file:///b"]

theorem saved_visiting : ((ofSetup declaring).run visiting).holdings.Saved
    ((ofSetup declaring).drafts.afterAll declaring.host visiting) := by
  have a : declaring.host.fileName (.text "file:///a") = .ok "/a" := rfl
  have b : declaring.host.fileName (.text "file:///b") = .ok "/b" := rfl
  have read : (((ofSetup declaring).run visiting).holdings.stored "/b").toOption = some (some "x:='b';") := by
    decide +kernel
  have stored : ((ofSetup declaring).run visiting).holdings.stored "/b" = .ok (some "x:='b';") := by
    generalize ((ofSetup declaring).run visiting).holdings.stored "/b" = result at read
    cases result with
    | error fault => cases read
    | ok text => exact congrArg Except.ok (Option.some.inj read)
  intro file text _ drafted
  simp only [Drafts.afterAll, visiting, List.foldl_cons, List.foldl_nil, Drafts.after, Drafts.write,
    Drafts.close, a, b, List.getLast?_singleton] at drafted
  by_cases hb : file = "/b"
  · subst hb
    rw [Function.update_self, Function.update_self] at drafted
    cases drafted
    exact stored
  · rw [Function.update_of_ne hb, Function.update_of_ne hb, Function.update_of_ne hb] at drafted
    by_cases ha : file = "/a"
    · subst ha
      rw [Function.update_self] at drafted
      cases drafted
    · rw [Function.update_of_ne ha] at drafted
      cases drafted

theorem transparent_run_visiting : ((ofSetup declaring).run visiting).Concurs
    ((ofSetup declaring).run (.suspend :: visiting ++ [.resume])) :=
  transparent_run declaring (by decide) [] (by decide) visiting (by decide) saved_visiting

/-- The text of a file in the compilation that is found next. -/
def nextText (w : Workspace) (file : String) : Option String :=
  (w.access.1.toOption.bind (·.source? file)).map Grammar.Source.text

/-- The diagnostics of a file in the compilation that is found next. -/
def nextDiagnostics (w : Workspace) (file : String) : List Grammar.Diagnostic :=
  w.access.1.toOption.elim [] (·.diagnosticsFor file)

/-- The client leaves the file with another text, which the server goes on holding. -/
def parting : List Action :=
  [.openOnClient "file:///a" "@import 'b';", .openOnClient "file:///b" ";", .closeOnClient "file:///b"]

/-- The client opens the file after one that declares the same name. -/
def repeating : List Action :=
  [.openOnClient "file:///a" "@import 'b';", .openOnClient "file:///c" "x:='c';",
    .openOnClient "file:///b" "x:='b';"]

set_option maxRecDepth 4000 in
/-- Suspension shows in a text that the server would have kept, and in the order of the roots. -/
theorem not_transparent :
    ((ofSetup declaring).run parting).nextText "/b" ≠
        ((ofSetup declaring).run (.suspend :: parting ++ [.resume])).nextText "/b" ∧
      ((ofSetup declaring).run repeating).nextDiagnostics "/b" ≠
        ((ofSetup declaring).run (.suspend :: repeating ++ [.resume])).nextDiagnostics "/b" := by
  constructor
  · have kept : ((ofSetup declaring).run parting).nextText "/b" = some ";" := by decide +kernel
    have read : ((ofSetup declaring).run (.suspend :: parting ++ [.resume])).nextText "/b" =
        some "x:='b';" := by decide +kernel
    rw [kept, read]
    decide
  · have none : (((ofSetup declaring).run repeating).nextDiagnostics "/b").length = 0 := by decide +kernel
    have one : (((ofSetup declaring).run (.suspend :: repeating ++ [.resume])).nextDiagnostics
        "/b").length = 1 := by decide +kernel
    intro same
    rw [same, one] at none
    cases none

end Workspace
end GrammarWorkspace
