import GrammarWorkspace.Proofs.Workspace.Sweep

/-!
# Rebuilding

A rebuild that comes to an end leaves a compilation of just the tracked documents, or fails because
something that the roots reach cannot be read. Either way it is one of the changes that those who
only read may make.
-/
namespace GrammarWorkspace

open Grammar (Compilation Loads Reached)
open Work (Ends)

namespace Holdings

variable {h₀ h₁ h : Holdings} {dropping : List DocumentId} {sources : Table String Grammar.Source}

theorem not_breaks_of_loads (loads : Loads h.reading {} h.clientFiles sources) : ¬ h.Breaks := by
  rintro ⟨file, fault, hr, he⟩
  rcases loads.answers_reached hr with hk | hn
  · obtain ⟨-, text, hx⟩ := loads.mem_keys_iff.mp hk
    rw [he] at hx
    cases hx
  · rw [he] at hn
    cases hn

theorem loads_reading (gathered : h.Gathered)
    (loads : Loads (fun file => .ok (h.text? file)) {} h.clientFiles sources) :
    Loads h.reading {} h.clientFiles sources := by
  refine loads.congr (P := h.Reaches) (fun _ => .root) (fun file text target hr hx => ?_) gathered
  exact .imported hr ((gathered file hr).trans hx)

/-- A file that the compiler comes across is loaded if its document is tracked. -/
theorem mem_keys_of_tracked {file : String} {id : DocumentId}
    (loads : Loads h₀.reading {} h₀.clientFiles sources) (later : h₀.Later h)
    (hk : h.Known dropping) (hr : h₀.Reaches file) (ht : h.tracked.get? file = some id) :
    file ∈ sources.keys := by
  obtain ⟨text, hx⟩ := hk.text ht
  refine loads.mem_keys_iff.mpr ⟨hr, text, ?_⟩
  rw [← later.reading_eq file hr, reading_tracked ht, hx]

theorem tracked_of_mem_keys {file : String} (marked : ∀ file ∈ sources.keys, h₁.Marks file)
    {done : List DocumentId} (swept : h₁.Swept dropping done h) (hm : file ∈ sources.keys) :
    ∃ id, h.tracked.get? file = some id := by
  obtain ⟨id, -, ht, -⟩ := (swept.marks_iff file).mpr (marked file hm)
  exact ⟨id, ht⟩

theorem gathered_of_swept (loads : Loads h₀.reading {} h₀.clientFiles sources)
    (later : h₀.Later h₁) (marked : ∀ file ∈ sources.keys, h₁.Marks file)
    {done : List DocumentId} (swept : h₁.Swept dropping done h) : h.Gathered := by
  intro file hr
  have later' := later.trans swept.later
  have hr₀ := later'.reaches_iff.mp hr
  cases ht : h.tracked.get? file with
  | some id => exact reading_tracked ht
  | none =>
    have unloaded : file ∉ sources.keys := by
      intro hm
      obtain ⟨id, ht'⟩ := tracked_of_mem_keys marked swept hm
      rw [ht] at ht'
      cases ht'
    rw [later'.reading_eq file hr₀, (loads.answers_reached hr₀).resolve_left unloaded]
    simp [text?, ht]

theorem mem_keys_iff_of_swept (loads : Loads h₀.reading {} h₀.clientFiles sources)
    (later : h₀.Later h₁) (marked : ∀ file ∈ sources.keys, h₁.Marks file)
    (reached : ∀ file, h₁.Marks file → h₁.Reaches file)
    (swept : h₁.Swept [] h₁.tracked.values h) (file : String) :
    file ∈ sources.keys ↔ file ∈ h.tracked.keys := by
  have later' := later.trans swept.later
  constructor
  · intro hm
    exact Table.mem_keys_iff.mpr (tracked_of_mem_keys marked swept hm)
  · intro hm
    obtain ⟨id, ht⟩ := Table.mem_keys_iff.mp hm
    obtain ⟨d, hd, -, -, ho⟩ := swept.known file id ht
    have listed : id ∈ h₁.tracked.values :=
      List.mem_map_of_mem (Table.get?_eq_some_iff.mp (swept.tracked_of file id ht))
    have held : d.isMarked = true ∨ d.onClient = true := by
      rcases swept.swept file id d listed ht hd with hm | hc | hs
      · exact Or.inl hm
      · exact Or.inr hc
      · refine Or.inr ?_
        rcases ho with ho | ho
        · simpa [Document.isOpen, hs] using ho
        · cases ho
    have hr : h₀.Reaches file := by
      rcases held with hm | hc
      · exact later.reaches_iff.mp (reached file ((swept.marks_iff file).mp ⟨id, d, ht, hd, hm⟩))
      · exact later'.reaches_iff.mp (reaches_of_onClient swept.known ht hd hc)
    exact mem_keys_of_tracked loads later' swept.known hr ht

theorem loads_of_swept (loads : Loads h₀.reading {} h₀.clientFiles sources) (later : h₀.Later h)
    (keys : ∀ file, file ∈ sources.keys ↔ file ∈ h.tracked.keys) :
    Loads (fun file => .ok (h.text? file)) {} h.clientFiles sources := by
  rw [later.clientFiles_eq]
  refine loads.congr (P := h₀.Reaches) (fun _ => .root) (fun _ _ _ => .imported) fun file hr => ?_
  cases ht : h.tracked.get? file with
  | some id => rw [← later.reading_eq file hr, reading_tracked ht]
  | none =>
    have unloaded : file ∉ sources.keys := fun hm =>
      Table.get?_eq_none_iff.mp ht ((keys file).mp hm)
    rw [(loads.answers_reached hr).resolve_left unloaded]
    simp [text?, ht]

end Holdings

namespace Task

variable {F : Frame} {call : Calling} {dropping : List DocumentId} {w₀ w : Workspace}

theorem ends_load (calm : Calm F call) {serial : Nat} {reportUnused : Bool}
    {previous : Option Compilation} {bound : Nat}
    (genuine : ∀ c, previous = some c → ∀ file s, c.source? file = some s → ∃ text, s.IsOf file text)
    (enough : w₀.tracked.size + w₀.disk.size < bound) (l : Loading F dropping w₀ [] w) :
    Ends (Compilation.load (fetch call serial) bound serial
        ⟨w₀.holdings.clientFiles, reportUnused⟩ previous) w fun r w' =>
      match r with
      | .ok c => c.request = ⟨w₀.holdings.clientFiles, reportUnused⟩ ∧
          Loads w₀.holdings.reading {} w₀.holdings.clientFiles c.sources ∧
          Loading F dropping w₀ c.sources.keys w'
      | .error _ => w₀.holdings.Breaks ∧ Amid F dropping w₀ w' := by
  have readable : ∀ file text, w₀.holdings.reading file = .ok (some text) →
      file ∈ w₀.tracked.keys ++ w₀.disk.keys := by
    intro file text hx
    cases ht : w₀.holdings.tracked.get? file with
    | some id => exact List.mem_append_left _ (Table.mem_keys_of_get? ht)
    | none =>
      rw [Holdings.reading_untracked ht, Holdings.stored] at hx
      split at hx
      · cases hx
      · obtain ⟨bytes, hb, -⟩ := Option.bind_eq_some_iff.mp (Except.ok.inj hx)
        exact List.mem_append_right _ (Table.mem_keys_of_get? hb)
  rw [Compilation.load]
  refine Work.Ends.bind (Grammar.ends_loadFrom (reads_fetch calm w₀ serial)
    (Compilation.isOf_sourceOf serial genuine) _ readable bound {} _ (.start _ _) ?_ l) ?_ ?_
  · simp only [Table.size, Table.keys, List.length_append, List.length_map] at enough ⊢
    omega
  · rintro sources w' ⟨l', loads⟩
    exact ⟨rfl, loads, l'⟩
  · rintro fault w' ⟨keys, file, fault', l', hr, hx⟩
    exact ⟨⟨file, fault', hr, hx⟩, l'.amid⟩

structure Rebuilt (F : Frame) (dropping : List DocumentId) (w : Workspace) (r : Except Fault Compilation)
    (w' : Workspace) : Prop where
  drifts : w.Drifts F dropping w'
  compilation_eq : ∀ c, r = .ok c → w'.compilation = some c
  breaks : ∀ fault, r = .error fault → w.holdings.Breaks
  marked : w.compilation = none → ∀ c, r = .ok c → ∀ file ∈ c.sources.keys, w'.holdings.Marks file

theorem Amid.drifts_of_error {w' : Workspace} (a : Amid F dropping w w')
    (phase : w.gate.phase = .rebuilding) (hn : w.compilation = none) (hb : w.holdings.Breaks) :
    w.Drifts F dropping w' where
  quiet := a.quiet
  phase_eq := a.phase_eq.trans phase.symm
  extra := a.extra
  core :=
    { sound := a.sound
      later := a.later
      reportUnused_eq := a.reportUnused_eq
      marks_reached := fun _ => a.marks_reached
      marks_kept := Or.inl hb
      gathered := fun _ => a.gathered
      still := fun hc => by rw [Workspace.core_compilation, hn] at hc; cases hc }

/-- The workspace with a compilation that has just been loaded. -/
def compiled (roots : List String) (c : Compilation) (w : Workspace) : Workspace :=
  { w with roots := some roots, compilation := some c, previous := some c }

theorem sameOutside_compiled (roots : List String) (c : Compilation) (w : Workspace) :
    w.SameOutside (compiled roots c w) := ⟨rfl, rfl, rfl, rfl, fun _ => rfl⟩

structure Finished (F : Frame) (dropping : List DocumentId) (w₀ : Workspace) (c : Compilation)
    (w w' : Workspace) : Prop where
  request_eq : c.request = ⟨w₀.holdings.clientFiles, w₀.reportUnused⟩
  loads : Loads w₀.holdings.reading {} w₀.holdings.clientFiles c.sources
  loading : Loading F dropping w₀ c.sources.keys w
  sweeping : Sweeping F dropping (compiled w₀.holdings.clientFiles c w) w.tracked.values w'

namespace Finished

variable {c : Compilation} {w' : Workspace}

theorem marked (f : Finished F dropping w₀ c w w') : ∀ file ∈ c.sources.keys, w.holdings.Marks file :=
  f.loading.marked.resolve_left (Holdings.not_breaks_of_loads f.loads)

theorem swept (f : Finished F dropping w₀ c w w') :
    w.holdings.Swept dropping w.tracked.values w'.holdings := f.sweeping.swept

theorem later (f : Finished F dropping w₀ c w w') : w₀.holdings.Later w'.holdings :=
  f.loading.amid.later.trans f.swept.later

theorem compilation_eq (f : Finished F dropping w₀ c w w') : w'.compilation = some c :=
  congrArg Core.compilation f.sweeping.core_eq

theorem reportUnused_eq (f : Finished F dropping w₀ c w w') : w'.reportUnused = w₀.reportUnused :=
  (congrArg Core.reportUnused f.sweeping.core_eq).trans f.loading.amid.reportUnused_eq

theorem fits (f : Finished F [] w₀ c w w') : w'.core.Fits c := by
  have keys := Holdings.mem_keys_iff_of_swept f.loads f.loading.amid.later f.marked
    f.loading.amid.marks_reached f.swept
  refine ⟨?_, ?_, keys, Holdings.loads_of_swept f.loads f.later keys⟩
  · rw [Workspace.core_holdings, f.later.clientFiles_eq]
    exact congrArg Core.roots f.sweeping.core_eq
  · rw [f.request_eq, Workspace.core_holdings, f.later.clientFiles_eq]
    exact congrArg _ f.reportUnused_eq.symm

theorem extra (f : Finished F dropping w₀ c w w') : F.Extra w₀ w' :=
  F.trans f.loading.amid.extra
    (F.trans (F.extra_of_keeps (sameOutside_compiled _ c w) (.refl _)) f.sweeping.extra)

theorem sound (f : Finished F dropping w₀ c w w') : w'.core.Sound dropping where
  known := f.swept.known
  synced := by
    rw [f.sweeping.core_eq]
    exact iff_of_false (fun h => by cases h) (fun h => by cases h)
  genuine := by
    rw [f.sweeping.core_eq]
    rintro c' he file s hs
    cases he
    obtain ⟨text, -, of⟩ := f.loads.source_is_of hs
    exact ⟨text, of⟩
  fits := by
    rintro rfl c' hc'
    rw [Workspace.core_compilation, f.compilation_eq] at hc'
    cases hc'
    exact f.fits

theorem rebuilt (f : Finished F dropping w₀ c w w') (hs : w₀.core.Sound dropping)
    (phase : w₀.gate.phase = .rebuilding) (hn : w₀.compilation = none) :
    Rebuilt F dropping w₀ (.ok c) w' where
  compilation_eq c' hc' := by
    cases hc'
    exact f.compilation_eq
  breaks fault hr := by cases hr
  marked _ c' hc' file hm := by
    cases hc'
    exact (f.swept.marks_iff file).mpr (f.marked file hm)
  drifts :=
    { quiet := f.sweeping.quiet
      phase_eq := f.sweeping.phase_eq.trans phase.symm
      extra := f.extra
      core :=
        { sound := f.sound
          later := f.later
          reportUnused_eq := f.reportUnused_eq
          marks_reached := fun _ file hm => f.swept.later.reaches_iff.mpr
            (f.loading.amid.marks_reached file ((f.swept.marks_iff file).mp hm))
          marks_kept := by
            refine Or.inr ?_
            rintro file hr ⟨id, d, ht, -⟩
            have key := Holdings.mem_keys_of_tracked f.loads (.refl _) hs.known hr ht
            exact (f.swept.marks_iff file).mpr (f.marked file key)
          gathered := fun _ _ =>
            Holdings.gathered_of_swept f.loads f.loading.amid.later f.marked f.swept
          still := fun hc => by rw [Workspace.core_compilation, hn] at hc; cases hc } }

end Finished

theorem ends_finish (calm : Calm F call) {c : Compilation}
    (request_eq : c.request = ⟨w₀.holdings.clientFiles, w₀.reportUnused⟩)
    (loads : Loads w₀.holdings.reading {} w₀.holdings.clientFiles c.sources)
    (l : Loading F dropping w₀ c.sources.keys w) :
    Ends (do modify (compiled w₀.holdings.clientFiles c); sweep call; return c) w
      fun r w' => r = .ok c ∧ Finished F dropping w₀ c w w' := by
  have marked := l.marked.resolve_left (Holdings.not_breaks_of_loads loads)
  have sound : ∀ id, (compiled w₀.holdings.clientFiles c w).core.Sound (id :: dropping) := by
    intro id
    refine ⟨l.amid.sound.known.mono (List.subset_cons_self _ _), ?_, ?_, fun he => by cases he⟩
    · exact iff_of_false (fun h => by cases h) (fun h => by cases h)
    · rintro c' he file s hs
      cases he
      obtain ⟨text, -, of⟩ := loads.source_is_of hs
      exact ⟨text, of⟩
  have covered : ∀ file id, w.holdings.Reaches file → w.holdings.tracked.get? file = some id →
      w.holdings.Marks file := fun file id hr ht =>
    marked file (Holdings.mem_keys_of_tracked loads l.amid.later l.amid.sound.known
      (l.amid.later.reaches_iff.mp hr) ht)
  have quiet : F.Quiet (compiled w₀.holdings.clientFiles c w) :=
    F.quiet_of_same l.amid.quiet (sameOutside_compiled _ c w)
  rw [Work.ends_bind, Work.ends_modify, Work.next_ok, Work.ends_bind]
  refine (ends_sweep calm quiet l.amid.phase_eq rfl l.amid.sound.known sound covered).mono ?_
  rintro r w' ⟨rfl, s⟩
  exact ⟨rfl, request_eq, loads, l, s⟩

theorem loading_start {w₁ : Workspace} {h : Holdings} (hq : F.Quiet w) (hs : w.core.Sound dropping)
    (phase : w.gate.phase = .rebuilding) (hn : w.compilation = none)
    (hb : w.Becomes (w.core.holding h) w₁)
    (m : w.holdings.Marking dropping w.tracked.values h) : Loading F dropping w [] w₁ := by
  have same : w₁.holdings = h := hb.holdings_eq
  refine ⟨⟨hb.quiet hq, ?_, hb.phase_eq.trans phase, ?_, ?_, ?_, ?_, hb.extra m.keeps⟩, ?_, ?_, Or.inr ?_⟩
  · rw [hb.core_eq]
    exact Core.sound_of_none hs hn m.known
  · exact congrArg Core.reportUnused hb.core_eq
  · rw [same]
    exact m.later
  · rw [same]
    rintro file ⟨id, d, ht, hd, hm⟩
    have listed : id ∈ w.tracked.values := by
      rw [m.tracked_eq] at ht
      exact List.mem_map_of_mem (Table.get?_eq_some_iff.mp ht)
    rw [m.marked id listed d hd] at hm
    exact Holdings.reaches_of_onClient m.known ht hd hm
  · intro hc
    have : w₁.compilation = none := (congrArg Core.compilation hb.core_eq).trans hn
    rw [this] at hc
    cases hc
  · exact fun _ hm => by cases hm
  · exact fun _ hm => by cases hm
  · exact fun _ hm => by cases hm

def rebuildBody (call : Calling) : Task Compilation := do
  let serial ← beginBuild
  let roots ← markRoots
  let w ← get
  let c ← Compilation.load (fetch call serial) (readableBound w + 1) serial ⟨roots, w.reportUnused⟩
    w.previous
  modify (compiled roots c)
  sweep call
  return c

def loadAnew (call : Calling) : Task Compilation := do
  let serial ← beginBuild
  let roots ← markRoots
  let w ← get
  Compilation.load (fetch call serial) (readableBound w + 1) serial ⟨roots, w.reportUnused⟩ w.previous

theorem rebuildBody_eq (call : Calling) : rebuildBody call = do
    let c ← loadAnew call
    modify (compiled c.request.roots c)
    sweep call
    return c := by
  simp only [rebuildBody, loadAnew, Compilation.load, bind_assoc, pure_bind]

theorem rebuild_eq (call : Calling) :
    rebuild call = Gate.rebuilding (report call) (rebuildBody call) := rfl

theorem ends_loadAnew (calm : Calm F call) (hq : F.Quiet w) (hs : w.core.Sound dropping)
    (phase : w.gate.phase = .rebuilding) (hn : w.compilation = none) :
    Ends (loadAnew call) w fun r w' =>
      match r with
      | .ok c => c.request = ⟨w.holdings.clientFiles, w.reportUnused⟩ ∧
          Loads w.holdings.reading {} w.holdings.clientFiles c.sources ∧
          Loading F dropping w c.sources.keys w'
      | .error _ => w.holdings.Breaks ∧ Amid F dropping w w' := by
  rw [loadAnew, Work.ends_bind, ends_beginBuild, Work.next_ok, Work.ends_bind]
  refine (ends_markRoots (w := w.counted) hs).mono ?_
  rintro r w₁ ⟨rfl, h, marked, marking⟩
  have counted : w.Becomes w.core w.counted := ⟨rfl, rfl, rfl, rfl, rfl, rfl, fun _ => rfl⟩
  have hb : w.Becomes (w.core.holding h) w₁ := counted.trans marked
  have l := loading_start hq hs phase hn hb marking
  have reportUnused_eq : w₁.reportUnused = w.reportUnused :=
    congrArg Core.reportUnused hb.core_eq
  have genuine : ∀ c, w₁.previous = some c → ∀ file s, c.source? file = some s →
      ∃ text, s.IsOf file text := by
    rw [show w₁.previous = w.previous from congrArg Core.previous hb.core_eq]
    exact hs.genuine
  have enough : w.tracked.size + w.disk.size < readableBound w₁ + 1 := by
    have tracked_eq : w₁.tracked = w.tracked := hb.tracked_eq.trans marking.tracked_eq
    have disk_eq : w₁.disk = w.disk :=
      (congrArg Holdings.disk hb.holdings_eq).trans marking.later.disk_eq
    rw [readableBound, tracked_eq, disk_eq]
    omega
  rw [Work.next_ok, Work.ends_bind, Work.ends_get, Work.next_ok]
  refine (ends_load calm genuine enough l).mono fun r w₂ h₂ => ?_
  cases r with
  | error fault => exact h₂
  | ok c =>
    rw [reportUnused_eq] at h₂
    exact h₂

theorem ends_rebuildBody (calm : Calm F call) (hq : F.Quiet w) (hs : w.core.Sound dropping)
    (phase : w.gate.phase = .rebuilding) (hn : w.compilation = none) :
    Ends (rebuildBody call) w (Rebuilt F dropping w) := by
  rw [rebuildBody_eq, Work.ends_bind]
  refine (ends_loadAnew calm hq hs phase hn).mono fun r w₁ h₁ => ?_
  cases r with
  | error fault =>
    exact ⟨h₁.2.drifts_of_error phase hn h₁.1, fun _ hc => (by cases hc), fun _ _ => h₁.1,
      fun _ _ hc => by cases hc⟩
  | ok c =>
    obtain ⟨request_eq, loads, l⟩ := h₁
    rw [Work.next_ok, show c.request.roots = w.holdings.clientFiles from
      congrArg Grammar.Request.roots request_eq]
    refine (ends_finish calm request_eq loads l).mono ?_
    rintro r w' ⟨rfl, finished⟩
    exact finished.rebuilt hs phase hn

def leaving (w w₁ : Workspace) : Workspace :=
  { w₁ with
    gate :=
      { w₁.gate with
        phase := w.gate.phase
        pending := if w.gate.phase = .reporting then w.gate.pending else w₁.gate.pending } }

/-- A rebuild during which nothing came to wait leaves the gate as it was. Inside a report this does not
matter. -/
theorem gate_leaving {w₁ : Workspace} (suspensions : w₁.gate.suspensions = w.gate.suspensions)
    (pending : w.gate.phase ≠ .reporting → w₁.gate.pending = w.gate.pending) :
    (leaving w w₁).gate = w.gate := by
  change Gate.mk w.gate.phase w₁.gate.suspensions _ = _
  rw [suspensions]
  split
  · rfl
  · rename_i outside
    rw [pending outside]

theorem ends_rebuilding {α : Type} {report : Task Unit} {work : Task α}
    {P Q : Except Fault α → Workspace → Prop}
    (h : Ends work { w with gate := { w.gate with phase := .rebuilding } } P)
    (ok : ∀ a w₁, P (.ok a) w₁ →
      Ends (Gate.flush report) (leaving w w₁) (Work.Next (fun _ => pure a) Q))
    (error : ∀ fault w₁, P (.error fault) w₁ → Q (.error fault) (leaving w w₁)) :
    Ends (Gate.rebuilding report work) w Q := by
  rw [Gate.rebuilding, Work.ends_bind, Gate.read, Work.ends_bind, Work.ends_get, Work.next_ok,
    Work.ends_pure, Work.next_ok, Work.ends_bind, Gate.change, Work.ends_modify, Work.next_ok,
    Work.ends_bind, Work.ends_ensuring]
  refine Work.Ends.mono (Q := P) h fun r w₁ h₁ => ?_
  rw [Gate.change, Work.ends_modify, Work.next_ok, Work.ends_ofExcept]
  cases r with
  | error fault => exact error fault w₁ h₁
  | ok a =>
    rw [Work.next_ok, Work.ends_bind]
    exact ok a w₁ h₁

theorem drifts_leaving {w₁ : Workspace}
    (h : { w with gate := { w.gate with phase := .rebuilding } }.Drifts F dropping w₁) :
    w.Drifts F dropping (leaving w w₁) := by
  have enter : w.SameOutside { w with gate := { w.gate with phase := .rebuilding } } :=
    sameOutside_phase w .rebuilding w.gate.pending
  have leave : w₁.SameOutside (leaving w w₁) := sameOutside_phase w₁ _ _
  exact ⟨F.quiet_of_same h.quiet leave, h.core, rfl,
    F.trans (F.extra_of_keeps enter (.refl _)) (F.trans h.extra (F.extra_of_keeps leave (.refl _)))⟩

theorem ends_rebuild (calm : Calm F call) (hq : F.Quiet w) (hs : w.core.Sound dropping)
    (hn : w.compilation = none) : Ends (rebuild call) w (Rebuilt F dropping w) := by
  let inside := { w with gate := { w.gate with phase := .rebuilding } }
  have enter : w.SameOutside inside := sameOutside_phase w .rebuilding w.gate.pending
  have body : Ends (rebuildBody call) inside (Rebuilt F dropping inside) :=
    ends_rebuildBody calm (F.quiet_of_same hq enter) hs rfl hn
  rw [rebuild_eq]
  refine ends_rebuilding body (fun c w₁ h₁ => ?_) fun fault w₁ h₁ =>
    ⟨drifts_leaving h₁.drifts, fun _ hc => (by cases hc), h₁.breaks, fun _ _ hc => by cases hc⟩
  have h₂ := drifts_leaving h₁.drifts
  have compiled : (leaving w w₁).compilation = some c := h₁.compilation_eq c rfl
  refine ((ends_flush (leaving w w₁)).and (soft_flush (soft_report calm) _ h₂.quiet h₂.sound)).mono ?_
  rintro r w₃ ⟨rfl, h₃⟩
  have same : w₃.core = (leaving w w₁).core := h₃.core.still (by
    rw [Workspace.core_compilation, compiled]
    rfl)
  refine ⟨h₂.trans h₃, ?_, fun _ hr => (by cases hr), fun _ c' hc' file hm => ?_⟩
  · rintro c' hc'
    cases hc'
    exact (congrArg Core.compilation same).trans compiled
  · have holdings_eq : w₃.holdings = w₁.holdings := congrArg Core.holdings same
    change w₃.holdings.Marks file
    rw [holdings_eq]
    exact h₁.marked hn c' hc' file hm

end Task
end GrammarWorkspace
