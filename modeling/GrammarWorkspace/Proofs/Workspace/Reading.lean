import GrammarWorkspace.Proofs.Workspace.Step

/-!
# Reading for a rebuild while listeners read

A rebuild tells listeners of the documents that it opens, and these may start rebuilds of their own
in the middle of it. What carries the proof is that all of them read the same files with the same
outcome, so that each of them marks and keeps what the others need.
-/
namespace GrammarWorkspace

open Grammar (Compilation Loads Reached ReadsBy importsOf)
open Work (Ends)

namespace Core

variable {k : Core} {dropping : List DocumentId} {id : DocumentId}

theorem sound_of_none {h : Holdings} (hs : k.Sound dropping) (hn : k.compilation = none)
    (known : h.Known dropping) : (k.holding h).Sound dropping :=
  ⟨known, hs.synced, hs.genuine, fun _ c hc => by rw [holding_compilation, hn] at hc; cases hc⟩

/-- A compilation does not depend on URIs and marks, nor on what the server holds. -/
theorem sound_revise {f : Document → Document} (hs : k.Sound dropping)
    (known : (k.holdings.revise id f).Known dropping)
    (same : ∀ d, k.holdings.document? id = some d →
      (f d).file = d.file ∧ (f d).text = d.text ∧ (f d).onClient = d.onClient) :
    (k.revise id f).Sound dropping where
  known := known
  synced := hs.synced
  genuine := hs.genuine
  fits hd c hc := by
    have fit := hs.fits hd c hc
    have text : ∀ file, (k.holdings.revise id f).text? file = k.holdings.text? file :=
      fun file => Holdings.text?_revise fun d hd => (same d hd).2.1
    have files : (k.holdings.revise id f).clientFiles = k.holdings.clientFiles :=
      Holdings.clientFiles_revise fun d hd => ⟨(same d hd).2.2, (same d hd).1⟩
    refine ⟨?_, ?_, fit.keys_iff, ?_⟩
    · simp only [revise_holdings, files]
      exact fit.roots_eq
    · simp only [revise_holdings, files]
      exact fit.request_eq
    · simp only [revise_holdings, files, text]
      exact fit.loads

theorem sound_mark (hs : k.Sound dropping) :
    (k.revise id ({ · with isMarked := true })).Sound dropping :=
  sound_revise hs (Holdings.known_revise hs.known (fun _ _ => rfl)
    (fun _ _ hx => Option.isSome_iff_exists.mp hx) fun _ _ ho => Or.inl ho) fun _ _ => ⟨rfl, rfl, rfl⟩

end Core

namespace Holdings

variable {h h' : Holdings} {file : String} {id : DocumentId} {dropping : List DocumentId}

theorem marks_mark {d : Document} (ht : h.tracked.get? file = some id)
    (hd : h.document? id = some d) :
    (h.revise id ({ · with isMarked := true })).Marks file := by
  refine ⟨id, { d with isMarked := true }, ht, ?_, rfl⟩
  simp [document?_revise, hd]

theorem marks_mark_of_marks {other : String} (hm : h.Marks other) :
    (h.revise id ({ · with isMarked := true })).Marks other := by
  obtain ⟨id', d, ht, hd, hm⟩ := hm
  obtain ⟨d', hd', hm'⟩ : ∃ d', (h.revise id ({ · with isMarked := true })).document? id' = some d' ∧
      (d.isMarked = true → d'.isMarked = true) :=
    revise_induction (P := fun _ d d' => d.isMarked = true → d'.isMarked = true) (fun _ _ _ => rfl)
      (fun _ _ h => h) hd
  exact ⟨id', d', ht, hd', hm' hm⟩

theorem marks_of_mark {other : String} (hk : h.Known dropping)
    (ht : h.tracked.get? file = some id)
    (hm : (h.revise id ({ · with isMarked := true })).Marks other) : other = file ∨ h.Marks other := by
  obtain ⟨id', d, ht', hd, hm⟩ := hm
  rw [document?_revise] at hd
  by_cases he : id = id'
  · subst he
    exact Or.inl (hk.file_unique ht' ht)
  · rw [if_neg he] at hd
    exact Or.inr ⟨id', d, ht', hd, hm⟩

/-- The start of a rebuild: among the documents done, those of the client are marked and no
others. -/
structure Marking (h : Holdings) (dropping : List DocumentId) (done : List DocumentId)
    (h' : Holdings) : Prop where
  later : h.Later h'
  keeps : h.Keeps h'
  known : h'.Known dropping
  tracked_eq : h'.tracked = h.tracked
  marked : ∀ id ∈ done, ∀ d, h'.document? id = some d → d.isMarked = d.onClient

theorem Marking.next {done : List DocumentId} (m : h.Marking dropping done h') (id : DocumentId) :
    h.Marking dropping (done ++ [id]) (h'.revise id fun d => { d with isMarked := d.onClient }) where
  later := m.later.trans (later_revise fun _ _ => ⟨rfl, rfl, rfl, rfl, fun h => h, fun _ => rfl⟩)
  keeps := m.keeps.trans (keeps_revise fun _ _ => rfl)
  known := known_revise m.known (fun _ _ => rfl) (fun _ _ hx => Option.isSome_iff_exists.mp hx)
    fun _ _ ho => Or.inl ho
  tracked_eq := m.tracked_eq
  marked other ho d hd := by
    rw [document?_revise] at hd
    by_cases he : id = other
    · subst he
      obtain ⟨e, -, rfl⟩ := Option.map_eq_some_iff.mp (by rwa [if_pos rfl] at hd)
      rfl
    · rw [if_neg he] at hd
      rcases List.mem_append.mp ho with ho | ho
      · exact m.marked other ho d hd
      · exact absurd (List.mem_singleton.mp ho).symm he

end Holdings

namespace Task

variable {F : Frame} {call : Calling} {dropping : List DocumentId} {w w' : Workspace}

theorem ends_markRoots (hs : w.core.Sound dropping) :
    Ends markRoots w fun r w' => r = .ok w.holdings.clientFiles ∧
      ∃ h, w.Becomes (w.core.holding h) w' ∧
        w.holdings.Marking dropping w.tracked.values h := by
  rw [markRoots, Work.ends_bind, Work.ends_get, Work.next_ok]
  have start : ∃ h, w.Becomes (w.core.holding h) w ∧
      w.holdings.Marking dropping [] h :=
    ⟨w.holdings, .refl w, .refl _, .refl _, hs.known, rfl, fun _ hm => by cases hm⟩
  refine (Work.ends_forM (I := fun done w' => ∃ h, w.Becomes (w.core.holding h) w' ∧
    w.holdings.Marking dropping done h) _ _ start ?_).bind ?_ ?_
  · rintro done id rest - w' ⟨h, hb, marking⟩
    exact ends_update hb fun w'' hb' => ⟨rfl, _, hb', marking.next id⟩
  · rintro a w' ⟨-, hw⟩
    exact ⟨rfl, hw⟩
  · rintro fault w' ⟨hr, -⟩
    cases hr

structure Amid (F : Frame) (dropping : List DocumentId) (w₀ w : Workspace) : Prop where
  quiet : F.Quiet w
  sound : w.core.Sound dropping
  phase_eq : w.gate.phase = .rebuilding
  reportUnused_eq : w.reportUnused = w₀.reportUnused
  later : w₀.holdings.Later w.holdings
  marks_reached : ∀ file, w.holdings.Marks file → w.holdings.Reaches file
  gathered : w.compilation.isSome → w.holdings.Gathered
  extra : F.Extra w₀ w

namespace Amid

variable {w₀ : Workspace} {file : String} {id : DocumentId}

theorem drifts (a : Amid F dropping w₀ w) (h : w.Drifts F dropping w') : Amid F dropping w₀ w' where
  quiet := h.quiet
  sound := h.sound
  phase_eq := h.phase_eq.trans a.phase_eq
  reportUnused_eq := h.core.reportUnused_eq.trans a.reportUnused_eq
  later := a.later.trans h.core.later
  marks_reached := h.core.marks_reached a.marks_reached
  gathered hc := by
    cases hc' : w.compilation with
    | none => exact h.core.gathered hc' hc
    | some c =>
      have some' : w.core.compilation.isSome := by
        change w.compilation.isSome = true
        rw [hc']
        rfl
      have same : w'.holdings = w.holdings := congrArg Core.holdings (h.core.still some')
      rw [same]
      exact a.gathered some'
  extra := F.trans a.extra h.extra

theorem mark (a : Amid F dropping w₀ w) (hr : w₀.holdings.Reaches file)
    (ht : w.holdings.tracked.get? file = some id)
    (hb : w.Becomes (w.core.revise id ({ · with isMarked := true })) w') :
    Amid F dropping w₀ w' ∧ w'.holdings.Marks file ∧
      ∀ other, w.holdings.Marks other → w'.holdings.Marks other := by
  have same : w'.holdings = w.holdings.revise id ({ · with isMarked := true }) := hb.holdings_eq
  have step : w.holdings.Later w'.holdings := by
    rw [same]
    exact Holdings.later_revise fun _ _ => ⟨rfl, rfl, rfl, rfl, fun h => h, fun _ => rfl⟩
  obtain ⟨d, hd, -⟩ := a.sound.known file id ht
  have keeps : w.holdings.Keeps (w.core.revise id ({ · with isMarked := true })).holdings :=
    Holdings.keeps_revise fun _ _ => rfl
  refine ⟨⟨hb.quiet a.quiet, ?_, hb.phase_eq.trans a.phase_eq, ?_, a.later.trans step, ?_, ?_,
    F.trans a.extra (hb.extra keeps)⟩, ?_, ?_⟩
  · rw [hb.core_eq]
    exact Core.sound_mark a.sound
  · exact (congrArg Core.reportUnused hb.core_eq).trans a.reportUnused_eq
  · intro other hm
    rw [same] at hm
    rcases Holdings.marks_of_mark a.sound.known ht hm with rfl | hm
    · exact step.reaches_iff.mpr (a.later.reaches_iff.mpr hr)
    · exact step.reaches_iff.mpr (a.marks_reached other hm)
  · intro hc
    have hc' : w.compilation.isSome := by
      rw [show w.compilation = w'.compilation from (congrArg Core.compilation hb.core_eq).symm]
      exact hc
    rw [same]
    exact (a.gathered hc').revise fun _ _ => ⟨rfl, rfl, rfl⟩
  · rw [same]
    exact Holdings.marks_mark ht hd
  · intro other hm
    rw [same]
    exact Holdings.marks_mark_of_marks hm

theorem add (a : Amid F dropping w₀ w) {d : Document} {text : String}
    (new : w.holdings.tracked.get? d.file = none) (hn : w.compilation = none)
    (hx : d.text = some text) (hc : d.onClient = false) (ho : d.onServer = true)
    (hm : d.isMarked = false) (same : w.holdings.reading d.file = .ok d.text)
    (uri : Host.uri (.text d.file) = .ok d.uri) (awaits : w.holdings.Awaits d.file)
    (hb : w.Becomes (w.core.holding (w.holdings.add d)) w') :
    Amid F dropping w₀ w' ∧ ∀ other, w.holdings.Marks other → w'.holdings.Marks other := by
  have known : w.holdings.Known dropping := a.sound.known
  have step : w.holdings.Later w'.holdings := by
    rw [hb.holdings_eq]
    exact Holdings.later_add known new hx hc same uri awaits
  refine ⟨⟨hb.quiet a.quiet, ?_, hb.phase_eq.trans a.phase_eq, ?_, a.later.trans step, ?_, ?_,
    F.trans a.extra (hb.extra (Holdings.keeps_add new))⟩, ?_⟩
  · rw [hb.core_eq]
    exact Core.sound_of_none a.sound hn
      (Holdings.known_add known ⟨text, hx⟩ (by simp [Document.isOpen, ho]))
  · exact (congrArg Core.reportUnused hb.core_eq).trans a.reportUnused_eq
  · intro other hm'
    rw [hb.holdings_eq, Core.holding_holdings, Holdings.marks_add known new hm] at hm'
    exact step.reaches_iff.mpr (a.marks_reached other hm')
  · intro hc'
    have : w'.compilation = none := (congrArg Core.compilation hb.core_eq).trans hn
    rw [this] at hc'
    cases hc'
  · intro other hm'
    rw [hb.holdings_eq, Core.holding_holdings, Holdings.marks_add known new hm]
    exact hm'

/-- As long as a file has not been opened that can be read, there is no compilation. -/
theorem no_compilation (a : Amid F dropping w₀ w) {text : String} (hr : w₀.holdings.Reaches file)
    (ht : w.holdings.tracked.get? file = none)
    (hx : w₀.holdings.reading file = .ok (some text)) : w.compilation = none := by
  cases hc : w.compilation with
  | none => rfl
  | some c =>
    have some' : w.compilation.isSome := by rw [hc]; rfl
    have found := a.gathered some' file (a.later.reaches_iff.mpr hr)
    rw [a.later.reading_eq file hr, hx] at found
    simp [Holdings.text?, ht] at found

end Amid

/-- In the middle of a rebuild that has loaded some files. Their documents are tracked, and unless the
rebuild is bound to fail they are marked. -/
structure Loading (F : Frame) (dropping : List DocumentId) (w₀ : Workspace) (keys : List String)
    (w : Workspace) : Prop where
  amid : Amid F dropping w₀ w
  reached : ∀ file ∈ keys, w₀.holdings.Reaches file
  tracked : ∀ file ∈ keys, file ∈ w.holdings.tracked.keys
  marked : w₀.holdings.Breaks ∨ ∀ file ∈ keys, w.holdings.Marks file

namespace Loading

variable {w₀ : Workspace} {keys : List String} {file : String} {id : DocumentId}

theorem amid_to (l : Loading F dropping w₀ keys w) (a : Amid F dropping w₀ w')
    (still : w.holdings.tracked.keys ⊆ w'.holdings.tracked.keys)
    (kept : ∀ file, w.holdings.Marks file → w'.holdings.Marks file) :
    Loading F dropping w₀ keys w' :=
  ⟨a, l.reached, fun file hf => still (l.tracked file hf),
    l.marked.imp_right fun hm file hf => kept file (hm file hf)⟩

theorem drifts (l : Loading F dropping w₀ keys w) (h : w.Drifts F dropping w') :
    Loading F dropping w₀ keys w' := by
  refine ⟨l.amid.drifts h, l.reached, fun file hf => ?_, ?_⟩
  · obtain ⟨id, ht⟩ := Table.mem_keys_iff.mp (l.tracked file hf)
    obtain ⟨text, hx⟩ := l.amid.sound.known.text ht
    exact h.core.later.mem_keys (l.amid.later.reaches_iff.mpr (l.reached file hf))
      ((Holdings.reading_tracked ht).trans (congrArg Except.ok hx)) (l.tracked file hf)
  rcases h.core.marks_kept with hb | kept
  · exact Or.inl (l.amid.later.breaks_iff.mp hb)
  · refine l.marked.imp_right fun hm file hf => ?_
    exact kept file (l.amid.later.reaches_iff.mpr (l.reached file hf)) (hm file hf)

theorem fetched (l : Loading F dropping w₀ keys w) (f : Fetch) : Loading F dropping w₀ keys (w.fetched f) :=
  l.drifts ((Workspace.Drifts.refl l.amid.quiet l.amid.sound).fetched f)

end Loading

theorem Loading.awaits {w₀ : Workspace} {keys queue : List String} {file : String}
    (l : Loading F dropping w₀ keys w)
    (come : Grammar.Comes w₀.holdings.reading w₀.holdings.clientFiles keys (file :: queue))
    (new : file ∉ keys) : w.holdings.Awaits file := by
  have again := come.congr fun f answer hr hx => (l.amid.later.reading_eq f hr).trans hx
  rw [← l.amid.later.clientFiles_eq] at again
  exact ⟨keys, queue, again, new, l.tracked⟩

theorem ends_markAndGive {w₀ : Workspace} {keys : List String} {file : String} {id : DocumentId}
    (l : Loading F dropping w₀ keys w) (hr : w₀.holdings.Reaches file)
    (ht : w.holdings.tracked.get? file = some id) :
    Ends (do update id ({ · with isMarked := true }); return (← document id).text) w fun r w' =>
      r = w₀.holdings.reading file ∧ Loading F dropping w₀ keys w' ∧
        ∀ text, w₀.holdings.reading file = .ok (some text) →
          Loading F dropping w₀ (keys ++ [file]) w' := by
  obtain ⟨d, hd, -⟩ := l.amid.sound.known file id ht
  have answer : w₀.holdings.reading file = .ok d.text := by
    rw [← l.amid.later.reading_eq file hr, Holdings.reading_tracked ht]
    rw [Workspace.core_holdings] at hd
    simp [Holdings.text?, ht, hd]
  rw [Work.ends_bind]
  refine ends_update (.refl w) fun w' hb => ?_
  obtain ⟨a, here, kept⟩ := l.amid.mark hr ht hb
  have l' := l.amid_to a (fun _ hm => by rw [hb.holdings_eq]; exact hm) kept
  rw [Work.next_ok, Work.ends_bind]
  refine ends_document hb (d := { d with isMarked := true }) ?_ ?_
  · rw [Workspace.core_holdings] at hd
    simp [Holdings.document?_revise, hd]
  · refine ⟨answer.symm, l', fun text _ => ⟨a, ?_, ?_, ?_⟩⟩
    · intro f hf
      rcases List.mem_append.mp hf with hf | hf
      · exact l.reached f hf
      · rw [List.mem_singleton.mp hf]
        exact hr
    · intro f hf
      rcases List.mem_append.mp hf with hf | hf
      · exact l'.tracked f hf
      · obtain ⟨id, d, ht, -⟩ := here
        rw [List.mem_singleton.mp hf]
        exact Table.mem_keys_of_get? ht
    · refine l'.marked.imp_right fun hm f hf => ?_
      rcases List.mem_append.mp hf with hf | hf
      · exact hm f hf
      · rw [List.mem_singleton.mp hf]
        exact here

theorem ends_tellAndGive {w₀ : Workspace} {keys : List String} {file : String} {id : DocumentId}
    (calm : Calm F call) (l : Loading F dropping w₀ keys w) (hr : w₀.holdings.Reaches file)
    (ht : w.holdings.tracked.get? file = some id) :
    Ends (do
      fire call .created (some id)
      fire call .openedOnServer (some id)
      update id ({ · with isMarked := true })
      return (← document id).text) w fun r w' =>
      r = w₀.holdings.reading file ∧ Loading F dropping w₀ keys w' ∧
        ∀ text, w₀.holdings.reading file = .ok (some text) →
          Loading F dropping w₀ (keys ++ [file]) w' := by
  rw [Work.ends_bind]
  refine ends_fire calm l.amid.quiet l.amid.sound fun w₁ h₁ => ?_
  rw [Work.next_ok, Work.ends_bind]
  refine ends_fire calm h₁.quiet h₁.sound fun w₂ h₂ => ?_
  have drifts := h₁.trans h₂
  obtain ⟨d, hd, -⟩ := l.amid.sound.known file id ht
  have stays : w₂.holdings.tracked.get? file = some id :=
    drifts.core.later.kept file id d ht hd (Or.inl (l.amid.later.reaches_iff.mpr hr))
  exact ends_markAndGive (l.drifts drifts) hr stays

/-- The compiler reads what was there to read when the rebuild began, whatever listeners do to a
document that is opened for it. -/
theorem reads_readForCompiler (calm : Calm F call) (w₀ : Workspace) :
    ReadsBy w₀.holdings.reading w₀.holdings.clientFiles (Loading F dropping w₀)
      (readForCompiler call) := by
  intro keys file queue w come new l
  have hr : w₀.holdings.Reaches file := come.reached.2 file List.mem_cons_self
  have answer := l.amid.later.reading_eq file hr
  rw [readForCompiler, Work.ends_bind, Work.ends_get, Work.next_ok]
  cases ht : w.tracked.get? file with
  | some id => exact ends_markAndGive l hr ht
  | none =>
    have untracked : w.holdings.tracked.get? file = none := ht
    dsimp only
    rw [Work.ends_bind]
    refine ends_readFile_of_untracked (.refl w) untracked fun w₁ h₁ => ?_
    have a₁ := l.amid.drifts (h₁.drifts l.amid.quiet l.amid.sound)
    have l₁ := l.amid_to a₁ (fun f hm => by rw [h₁.holdings_eq]; exact hm)
      fun f hm => by rw [h₁.holdings_eq]; exact hm
    rw [Workspace.core_holdings, answer]
    match hx : w₀.holdings.reading file with
    | .error fault => exact ⟨rfl, l₁, fun text h => by cases h⟩
    | .ok none => exact ⟨rfl, l₁, fun text h => by cases h⟩
    | .ok (some text) =>
      have untracked₁ : w₁.holdings.tracked.get? file = none := by
        rw [h₁.holdings_eq]
        exact untracked
      have hn := l₁.amid.no_compilation hr untracked₁ hx
      rw [Work.next_ok]
      dsimp only
      rw [Work.ends_bind]
      refine ends_getOrCreate_of_untracked (.refl w₁) untracked₁ fun w₂ h₂ => ?_
      rw [Work.next_ok, Work.ends_bind]
      refine ends_uri_text fun u hu => ?_
      rw [Work.next_ok, Work.ends_bind]
      refine ends_update h₂ fun w₃ h₃ => ?_
      rw [Work.next_ok, Work.ends_bind]
      rw [Core.revise_add _ rfl] at h₃
      refine ends_holdOnServer h₃ (Holdings.document?_add_self _ _) fun w₄ h₄ => ?_
      rw [Core.revise_add _ rfl] at h₄
      have h₄' : w₁.Becomes (w₁.core.holding
          (w₁.holdings.add ⟨file, u, some text, false, true, false⟩)) w₄ := h₄
      obtain ⟨a₄, kept⟩ := l₁.amid.add untracked₁ hn rfl rfl rfl rfl
        ((l₁.amid.later.reading_eq file hr).trans hx) hu (l₁.awaits come new) h₄'
      have ht₄ : w₄.holdings.tracked.get? file = some w₁.holdings.documents.length := by
        rw [h₄'.holdings_eq, Core.holding_holdings, Holdings.tracked_add]
        exact if_pos rfl
      have more : w₁.holdings.tracked.keys ⊆ w₄.holdings.tracked.keys := by
        intro f hm
        rw [h₄'.holdings_eq]
        exact Table.mem_keys_insert.mpr (Or.inr hm)
      have tail := ends_tellAndGive calm (l₁.amid_to a₄ more kept) hr ht₄
      rw [hx] at tail
      exact tail

theorem reads_fetch (calm : Calm F call) (w₀ : Workspace) (serial : Nat) :
    ReadsBy w₀.holdings.reading w₀.holdings.clientFiles (Loading F dropping w₀) (fetch call serial) := by
  intro keys file queue w come new l
  apply ends_fetch (reads_readForCompiler calm w₀ keys file queue w come new l)
  rintro text w' f ⟨same, kept, more⟩
  exact ⟨same, kept.fetched f, fun text hx => (more text hx).fetched f⟩

end Task
end GrammarWorkspace
