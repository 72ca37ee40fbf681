import GrammarWorkspace.Proofs.Grammar.Likeness
import GrammarWorkspace.Proofs.Workspace.Holdings
import GrammarWorkspace.Workspace.Session

/-!
# Work that only reads

Listeners that only read may have the compilation made, and nothing else. A workspace that drifts
has done just that: if there was a compilation, nothing has changed at all. What else is to be
followed through such work is left open: a `Frame` says which listeners there are, and what they and
the work around them keep.
-/
namespace GrammarWorkspace

open Grammar (Compilation Loads Reading)
open Work (Ends)

structure Core where
  holdings : Holdings
  reportUnused : Bool
  roots : Option (List String)
  compilation : Option Compilation
  previous : Option Compilation

namespace Core

structure Fits (k : Core) (c : Compilation) : Prop where
  roots_eq : k.roots = some k.holdings.clientFiles
  request_eq : c.request = ⟨k.holdings.clientFiles, k.reportUnused⟩
  keys_iff : ∀ file, file ∈ c.sources.keys ↔ file ∈ k.holdings.tracked.keys
  loads : Loads (fun file => .ok (k.holdings.text? file)) {} k.holdings.clientFiles c.sources

structure Sound (k : Core) (dropping : List DocumentId) : Prop where
  known : k.holdings.Known dropping
  synced : k.compilation = none ↔ k.roots = none
  genuine : ∀ c, k.previous = some c → ∀ file s, c.source? file = some s →
    ∃ text, s.IsOf file text
  fits : dropping = [] → ∀ c, k.compilation = some c → k.Fits c

structure Drifts (dropping : List DocumentId) (k k' : Core) : Prop where
  sound : k'.Sound dropping
  later : k.holdings.Later k'.holdings
  reportUnused_eq : k'.reportUnused = k.reportUnused
  marks_reached : (∀ file, k.holdings.Marks file → k.holdings.Reaches file) →
    ∀ file, k'.holdings.Marks file → k'.holdings.Reaches file
  marks_kept : k.holdings.Breaks ∨
    ∀ file, k.holdings.Reaches file → k.holdings.Marks file → k'.holdings.Marks file
  gathered : k.compilation = none → k'.compilation.isSome → k'.holdings.Gathered
  still : k.compilation.isSome → k' = k

namespace Drifts

variable {dropping : List DocumentId} {k k' k'' : Core}

theorem refl (hs : k.Sound dropping) : Drifts dropping k k :=
  ⟨hs, .refl _, rfl, fun h => h, Or.inr fun _ _ h => h, fun hn hc => by simp [hn] at hc,
    fun _ => rfl⟩

theorem trans (h : Drifts dropping k k') (h' : Drifts dropping k' k'') : Drifts dropping k k'' where
  sound := h'.sound
  later := h.later.trans h'.later
  reportUnused_eq := h'.reportUnused_eq.trans h.reportUnused_eq
  marks_reached hm := h'.marks_reached (h.marks_reached hm)
  marks_kept := by
    rcases h.marks_kept with hb | kept
    · exact Or.inl hb
    · rcases h'.marks_kept with hb | kept'
      · exact Or.inl (h.later.breaks_iff.mp hb)
      · exact Or.inr fun file hr hm => kept' file (h.later.reaches_iff.mpr hr) (kept file hr hm)
  gathered hn hc := by
    cases hc' : k'.compilation with
    | none => exact h'.gathered hc' hc
    | some c =>
      have some' : k'.compilation.isSome := by rw [hc']; rfl
      rw [h'.still some']
      exact h.gathered hn some'
  still hc := by
    have := h.still hc
    subst this
    exact h'.still hc

end Drifts
end Core

def Observation.isUnpublished : Observation → Bool
  | .published _ _ => false
  | _ => true

namespace Workspace

def holdings (w : Workspace) : Holdings := ⟨w.disk, w.failing, w.documents, w.tracked⟩

theorem tracked_of_mem {w : Workspace} (filed : w.holdings.Filed) {d : Document}
    (hm : d ∈ w.trackedDocuments) :
    ∃ id, w.holdings.tracked.get? d.file = some id ∧ w.holdings.document? id = some d := by
  obtain ⟨id, hi, hd⟩ := List.mem_filterMap.mp hm
  exact ⟨id, filed.get?_of_mem_values hi hd, hd⟩

theorem map_file_trackedDocuments {w : Workspace} (filed : w.holdings.Filed) :
    w.trackedDocuments.map Document.file = w.files := by
  have step : ∀ e ∈ w.tracked.entries, ((w.document? e.2).map Document.file) = some e.1 := by
    intro e hm
    obtain ⟨d, hd, hf⟩ := filed e.1 e.2 (Table.get?_eq_some_iff.mpr hm)
    rw [show w.document? e.2 = some d from hd, Option.map_some, hf]
  rw [trackedDocuments, List.map_filterMap, Table.values, List.filterMap_map]
  rw [show w.files = w.tracked.entries.filterMap fun e => some e.1 by
    rw [files, Table.keys, ← List.filterMap_eq_map]
    rfl]
  exact List.filterMap_congr step

theorem mem_of_tracked {w : Workspace} {file : String} {id : DocumentId} {d : Document}
    (ht : w.holdings.tracked.get? file = some id) (hd : w.holdings.document? id = some d) :
    d ∈ w.trackedDocuments :=
  List.mem_filterMap.mpr ⟨id, List.mem_map.mpr ⟨(file, id), Table.get?_eq_some_iff.mp ht, rfl⟩, hd⟩

def core (w : Workspace) : Core := ⟨w.holdings, w.reportUnused, w.roots, w.compilation, w.previous⟩

@[simp] theorem core_holdings (w : Workspace) : w.core.holdings = w.holdings := rfl

@[simp] theorem core_compilation (w : Workspace) : w.core.compilation = w.compilation := rfl

def lastPublished (uri : String) (record : List Observation) : Option (List Notice) :=
  record.foldl (fun last o =>
    match o with
    | .published u notices => if u = uri then some notices else last
    | _ => last) none

theorem lastPublished_published (uri u : String) (notices : List Notice) (record : List Observation) :
    lastPublished uri (record ++ [.published u notices]) =
      if u = uri then some notices else lastPublished uri record := by
  simp [lastPublished]

theorem lastPublished_unpublished (uri : String) {o : Observation} (h : o.isUnpublished = true)
    (record : List Observation) : lastPublished uri (record ++ [o]) = lastPublished uri record := by
  cases o with
  | published => cases h
  | _ => simp [lastPublished]

def showing (w : Workspace) (uri : String) (notices : List Notice) : Workspace :=
  { w with record := w.record ++ [.published uri notices] }

structure SameOutside (w w' : Workspace) : Prop where
  host_eq : w'.host = w.host
  bus_eq : w'.bus = w.bus
  scripts_eq : w'.scripts = w.scripts
  suspensions_eq : w'.gate.suspensions = w.gate.suspensions
  published_eq : ∀ uri, lastPublished uri w'.record = lastPublished uri w.record

theorem SameOutside.refl (w : Workspace) : w.SameOutside w := ⟨rfl, rfl, rfl, rfl, fun _ => rfl⟩

theorem SameOutside.trans {w w' w'' : Workspace} (h : w.SameOutside w') (h' : w'.SameOutside w'') :
    w.SameOutside w'' :=
  ⟨h'.host_eq.trans h.host_eq, h'.bus_eq.trans h.bus_eq, h'.scripts_eq.trans h.scripts_eq,
    h'.suspensions_eq.trans h.suspensions_eq,
    fun uri => (h'.published_eq uri).trans (h.published_eq uri)⟩

theorem sameOutside_passed (w : Workspace) (m : Moment) : w.SameOutside (w.passed m) :=
  ⟨rfl, rfl, rfl, rfl, fun _ => rfl⟩

end Workspace

structure Frame where
  Quiet : Workspace → Prop
  Extra : Workspace → Workspace → Prop
  refl : ∀ w, Extra w w
  trans : ∀ {w w' w''}, Extra w w' → Extra w' w'' → Extra w w''
  quiet_of_same : ∀ {w w' : Workspace}, Quiet w → w.SameOutside w' → Quiet w'
  extra_of_keeps : ∀ {w w' : Workspace}, w.SameOutside w' → w.holdings.Keeps w'.holdings → Extra w w'
  /-- The notices of a tracked document are published. -/
  extra_of_published : ∀ {w : Workspace} {d : Document} (notices : List Notice),
    d ∈ w.trackedDocuments → Extra w (w.showing d.uri notices)
  /-- The notices of some document are taken back. -/
  extra_of_cleared : ∀ (w : Workspace) (uri : String), Extra w (w.showing uri [])
  quiet_of_showing : ∀ {w : Workspace} (uri : String) (notices : List Notice), Quiet w →
    Quiet (w.showing uri notices)

namespace Workspace

variable {F : Frame} {dropping : List DocumentId} {w w' w'' : Workspace}

structure Drifts (F : Frame) (dropping : List DocumentId) (w w' : Workspace) : Prop where
  quiet : F.Quiet w'
  core : w.core.Drifts dropping w'.core
  phase_eq : w'.gate.phase = w.gate.phase
  extra : F.Extra w w'

namespace Drifts

theorem refl (hq : F.Quiet w) (hs : w.core.Sound dropping) : w.Drifts F dropping w :=
  ⟨hq, .refl hs, rfl, F.refl w⟩

theorem trans (h : w.Drifts F dropping w') (h' : w'.Drifts F dropping w'') :
    w.Drifts F dropping w'' :=
  ⟨h'.quiet, h.core.trans h'.core, h'.phase_eq.trans h.phase_eq, F.trans h.extra h'.extra⟩

theorem sound (h : w.Drifts F dropping w') : w'.core.Sound dropping := h.core.sound

theorem of_core_eq (hq : F.Quiet w') (hs : w.core.Sound dropping) (same : w'.core = w.core)
    (phase_eq : w'.gate.phase = w.gate.phase) (extra : F.Extra w w') : w.Drifts F dropping w' :=
  ⟨hq, by rw [same]; exact .refl hs, phase_eq, extra⟩

theorem of_same (hq : F.Quiet w) (hs : w.core.Sound dropping) (same : w'.core = w.core)
    (phase_eq : w'.gate.phase = w.gate.phase) (outside : w.SameOutside w') :
    w.Drifts F dropping w' := by
  refine of_core_eq (F.quiet_of_same hq outside) hs same phase_eq (F.extra_of_keeps outside ?_)
  rw [show w'.holdings = w.holdings from congrArg Core.holdings same]
  exact .refl _

theorem passed (h : w.Drifts F dropping w') (m : Moment) : w.Drifts F dropping (w'.passed m) :=
  h.trans (.of_same h.quiet h.sound rfl rfl (sameOutside_passed w' m))

theorem fetched (h : w.Drifts F dropping w') (f : Fetch) : w.Drifts F dropping (w'.fetched f) :=
  h.trans (.of_same h.quiet h.sound rfl rfl ⟨rfl, rfl, rfl, rfl, fun _ => rfl⟩)

end Drifts
end Workspace

namespace Task

variable {F : Frame} {α β : Type} {dropping : List DocumentId} {w : Workspace}

def Soft (F : Frame) (dropping : List DocumentId) (task : Task α) : Prop :=
  ∀ w : Workspace, F.Quiet w → w.core.Sound dropping →
    Ends task w fun _ w' => w.Drifts F dropping w'

theorem soft_pure (a : α) : Soft F dropping (pure a : Task α) := fun _ hq hs => .refl hq hs

theorem soft_throw (fault : Fault) : Soft F dropping (throw fault : Task α) :=
  fun _ hq hs => .refl hq hs

theorem soft_ofExcept (r : Except Fault α) : Soft F dropping (ofExcept r : Task α) := by
  intro w hq hs
  rw [Work.ends_ofExcept]
  exact .refl hq hs

theorem soft_modify {f : Workspace → Workspace} (core_eq : ∀ w, (f w).core = w.core)
    (phase_eq : ∀ w, (f w).gate.phase = w.gate.phase) (outside : ∀ w : Workspace, w.SameOutside (f w)) :
    Soft F dropping (modify f : Task Unit) := by
  intro w hq hs
  rw [Work.ends_modify]
  exact .of_same hq hs (core_eq w) (phase_eq w) (outside w)

theorem Soft.bind {task : Task α} {next : α → Task β} (h : Soft F dropping task)
    (hn : ∀ a, Soft F dropping (next a)) : Soft F dropping (task >>= next) := by
  intro w hq hs
  refine (h w hq hs).bind (fun a w' h' => ?_) fun _ _ h' => h'
  exact (hn a w' h'.quiet h'.sound).mono fun _ _ h'' => h'.trans h''

theorem soft_get_bind {next : Workspace → Task β}
    (h : ∀ w : Workspace, F.Quiet w → w.core.Sound dropping →
      Ends (next w) w fun _ w' => w.Drifts F dropping w') :
    Soft F dropping (get >>= next) := by
  intro w hq hs
  rw [Work.ends_bind]
  exact h w hq hs

theorem Soft.get_bind {next : Workspace → Task β} (h : ∀ w, Soft F dropping (next w)) :
    Soft F dropping (get >>= next) := soft_get_bind fun w => h w w

theorem soft_mapM {body : α → Task β} (all : List α) (h : ∀ a, Soft F dropping (body a)) :
    Soft F dropping (all.mapM body) := by
  induction all with
  | nil => exact soft_pure []
  | cons a rest ih =>
    rw [List.mapM_cons]
    exact (h a).bind fun _ => ih.bind fun _ => soft_pure _

theorem soft_observe {o : Observation} (h : o.isUnpublished = true) :
    Soft F dropping (observe o) :=
  soft_modify (fun _ => rfl) (fun _ => rfl) fun w =>
    ⟨rfl, rfl, rfl, rfl, fun uri => Workspace.lastPublished_unpublished uri h w.record⟩

theorem soft_document (id : DocumentId) : Soft F dropping (document id) :=
  .get_bind fun _ => soft_pure _

theorem soft_fileName (locator : Locator) : Soft F dropping (fileName locator) :=
  .get_bind fun _ => soft_ofExcept _

theorem soft_uri (locator : Locator) : Soft F dropping (uri locator) := soft_ofExcept _

theorem soft_find (locator : Locator) : Soft F dropping (find locator) :=
  (soft_fileName locator).bind fun _ => .get_bind fun _ => soft_pure _

/-- A way of calling listeners under which they only read. While a document is being closed, what
is kept may be out of order until they have been told. -/
structure Calm (F : Frame) (call : Calling) : Prop where
  soft : ∀ dropping listener topic about, Soft F dropping (call listener topic about)
  closing : ∀ {w w₁ : Workspace} {id : DocumentId} {file : String} {d : Document}, F.Quiet w →
    w.tracked.get? file = some id → w.document? id = some d → w.SameOutside w₁ →
    w₁.holdings = w.holdings.forget file →
    Ends (fire call .closed (some id)) w₁ fun _ w' => F.Extra w w'

variable {call : Calling}

theorem call_observer (depth : Nat) (topic : Topic) (about : Option DocumentId) :
    Task.call depth .observer topic about = note topic about := by cases depth <;> rfl

theorem call_clearer (depth : Nat) (topic : Topic) (about : Option DocumentId) :
    Task.call depth .clearer topic about = clearNotices about := by cases depth <;> rfl

theorem ends_beginBuild {Q : Except Fault Nat → Workspace → Prop} :
    Ends beginBuild w Q ↔ Q (.ok w.begun) w.counted := Iff.rfl

/-- What is kept when a file is noted down is kept by reading it for a compilation. -/
theorem ends_fetch {Q : Except Fault (Option String) → Workspace → Prop} {serial : Nat} {file : String}
    (h : Ends (readForCompiler call file) w Q)
    (noted : ∀ text w' f, Q (.ok text) w' → Q (.ok text) (w'.fetched f)) : Ends (fetch call serial file) w Q := by
  rw [fetch, Work.ends_bind, Work.ends_get, Work.next_ok]
  refine h.bind (fun text w' hw' => ?_) fun _ _ hw' => hw'
  rw [Work.ends_bind, Work.ends_modify, Work.next_ok]
  exact noted text w' _ hw'

theorem ends_fire_iff {Q : Except Fault Unit → Workspace → Prop} {topic : Topic}
    {about : Option DocumentId} : Ends (fire call topic about) w Q ↔
      Ends (Bus.deliver (fun listener => call listener topic about) (w.bus.listeners topic))
        (w.passed (.telling topic about)) fun _ w' => Q (.ok ()) (w'.passed (.told topic about)) := by
  have ok := Bus.ends_deliver (I := fun _ => True) (s := w.passed (.telling topic about))
    (fun listener => call listener topic about) (w.bus.listeners topic) trivial fun _ _ _ _ => trivial
  rw [fire, Work.ends_bind, pass, Work.ends_modify, Work.next_ok, Work.ends_bind, Work.ends_get,
    Work.next_ok, Work.ends_bind]
  constructor
  · intro h
    refine (h.and ok).mono ?_
    rintro r w' ⟨h', rfl, -⟩
    exact h'
  · intro h
    refine (h.and ok).mono ?_
    rintro r w' ⟨h', rfl, -⟩
    exact h'

theorem ends_fire_ok (topic : Topic) (about : Option DocumentId) (w : Workspace) :
    Ends (fire call topic about) w fun r _ => r = .ok () := by
  rw [ends_fire_iff]
  exact (Bus.ends_deliver (I := fun _ => True) _ _ trivial fun _ _ _ _ => trivial).mono
    fun _ _ _ => rfl

theorem ends_fire {Q : Except Fault Unit → Workspace → Prop} (calm : Calm F call)
    {topic : Topic} {about : Option DocumentId} (hq : F.Quiet w) (hs : w.core.Sound dropping)
    (h : ∀ w', w.Drifts F dropping w' → Q (.ok ()) w') : Ends (fire call topic about) w Q := by
  have begun : w.Drifts F dropping (w.passed (.telling topic about)) := (Workspace.Drifts.refl hq hs).passed _
  rw [ends_fire_iff]
  refine (Bus.ends_deliver (I := fun w' => w.Drifts F dropping w') _ _ begun ?_).mono ?_
  · intro listener _ w' h'
    refine (calm.soft dropping listener topic about w' h'.quiet h'.sound).mono fun _ _ h'' => ?_
    exact h'.trans h''
  · rintro r w' ⟨rfl, h'⟩
    exact h _ (h'.passed _)

/-- After listeners have been told of a document that is closed, all is kept again. -/
theorem ends_fire_closed {Q : Except Fault Unit → Workspace → Prop} (calm : Calm F call)
    {w₁ : Workspace} {id : DocumentId} {file : String} {d : Document} (hq : F.Quiet w)
    (ht : w.tracked.get? file = some id) (hd : w.document? id = some d)
    (outside : w.SameOutside w₁) (forgotten : w₁.holdings = w.holdings.forget file)
    (hs : w₁.core.Sound dropping)
    (h : ∀ w', w₁.Drifts F dropping w' → F.Extra w w' → Q (.ok ()) w') :
    Ends (fire call .closed (some id)) w₁ Q := by
  have fired : Ends (fire call .closed (some id)) w₁
      fun r w' => r = .ok () ∧ w₁.Drifts F dropping w' :=
    ends_fire calm (F.quiet_of_same hq outside) hs fun _ h' => ⟨rfl, h'⟩
  refine (fired.and (calm.closing hq ht hd outside forgotten)).mono ?_
  rintro r w' ⟨⟨rfl, h'⟩, extra⟩
  exact h w' h' extra

theorem soft_fire (calm : Calm F call) (topic : Topic) (about : Option DocumentId) :
    Soft F dropping (fire call topic about) := fun _ hq hs => ends_fire calm hq hs fun _ h => h

theorem soft_report (calm : Calm F call) : Soft F dropping (report call) :=
  soft_fire calm .updated none

theorem soft_change {f : Gate → Gate} (phase_eq : ∀ g, (f g).phase = g.phase)
    (suspensions_eq : ∀ g, (f g).suspensions = g.suspensions) :
    Soft F dropping (Gate.change f : Task Unit) :=
  soft_modify (fun _ => rfl) (fun w => phase_eq w.gate)
    fun w => ⟨rfl, rfl, rfl, suspensions_eq w.gate, fun _ => rfl⟩

theorem soft_reportWhileDue {task : Task Unit} (h : Soft F dropping task) (rounds : Nat) :
    Soft F dropping (Gate.reportWhileDue task rounds) := by
  induction rounds with
  | zero => exact soft_pure ()
  | succ rounds ih =>
    refine Soft.bind (Soft.get_bind fun _ => soft_pure _) fun g => ?_
    split
    · exact Soft.bind (soft_change (fun _ => rfl) fun _ => rfl) fun _ => h.bind fun _ => ih
    · exact soft_pure ()

theorem sameOutside_phase (w : Workspace) (phase : Phase) (pending : Bool) :
    w.SameOutside { w with gate := ⟨phase, w.gate.suspensions, pending⟩ } :=
  ⟨rfl, rfl, rfl, rfl, fun _ => rfl⟩

theorem soft_flush {task : Task Unit} (h : Soft F dropping task) :
    Soft F dropping (Gate.flush task) := by
  refine soft_get_bind fun w hq hs => ?_
  split
  · rename_i due
    rw [Work.ends_bind, Gate.change, Work.ends_modify, Work.next_ok, Work.ends_bind, Work.ends_get,
      Work.next_ok, Work.ends_ensuring]
    let inside := { w with gate := { w.gate with phase := .reporting } }
    have enter : w.SameOutside inside := sameOutside_phase w .reporting w.gate.pending
    refine (soft_reportWhileDue h _ inside (F.quiet_of_same hq enter) hs).mono fun r w' h' => ?_
    rw [Gate.change, Work.ends_modify, Work.next_ok, Work.ends_ofExcept]
    have leave := sameOutside_phase w' .idle w'.gate.pending
    exact ⟨F.quiet_of_same h'.quiet leave, h'.core, due.2.2.symm,
      F.trans (F.extra_of_keeps enter (.refl _)) (F.trans h'.extra (F.extra_of_keeps leave (.refl _)))⟩
  · exact .refl hq hs

theorem soft_request {task : Task Unit} (h : Soft F dropping task) :
    Soft F dropping (Gate.request task) :=
  Soft.bind (soft_change (fun _ => rfl) fun _ => rfl) fun _ => soft_flush h

theorem ends_report (w : Workspace) : Ends (report call) w fun r _ => r = .ok () :=
  ends_fire_ok .updated none w

theorem ends_flush (w : Workspace) : Ends (Gate.flush (report call)) w fun r _ => r = .ok () := by
  have reports : ∀ rounds w, Ends (Gate.reportWhileDue (report call) rounds) w
      fun r _ => r = .ok () := by
    intro rounds
    induction rounds with
    | zero => exact fun _ => rfl
    | succ rounds ih =>
      intro w
      rw [Gate.reportWhileDue, Work.ends_bind, Gate.read, Work.ends_bind, Work.ends_get, Work.next_ok,
        Work.ends_pure, Work.next_ok]
      split
      · rw [Work.ends_bind, Gate.change, Work.ends_modify, Work.next_ok]
        refine (ends_report _).bind (fun _ w' _ => ih w') fun _ _ hr => ?_
        cases hr
      · rfl
  rw [Gate.flush, Work.ends_bind, Gate.read, Work.ends_bind, Work.ends_get, Work.next_ok,
    Work.ends_pure, Work.next_ok]
  split
  · rw [Work.ends_bind, Gate.change, Work.ends_modify, Work.next_ok, Work.ends_bind, Work.ends_get,
      Work.next_ok, Work.ends_ensuring]
    refine (reports _ _).mono fun r w' hr => ?_
    rw [Gate.change, Work.ends_modify, Work.next_ok, Work.ends_ofExcept]
    exact hr
  · rfl

end Task
end GrammarWorkspace
