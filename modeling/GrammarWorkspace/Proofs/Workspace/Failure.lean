import GrammarWorkspace.Proofs.Workspace.Registry

/-!
# What a failed compilation leaves

A compilation that cannot be made fails in the middle of loading, after documents have been marked and
opened. Listeners who ask for it while they are told of these documents fail as well, so nothing is let go
of and nothing is reported. Marks and newly opened documents are all that is left in the end.
-/
namespace GrammarWorkspace

open Work (Ends Along Keeping)

def Document.unmarked (d : Document) : Document := { d with isMarked := false }

namespace Holdings

variable {h h' : Holdings} {file : String} {d d' : Document}

def IsRead (h : Holdings) (file : String) (d : Document) : Prop :=
  ∃ u text, Host.uri (.text file) = .ok u ∧ h.stored file = .ok (some text) ∧
    d.unmarked = ⟨file, u, some text, false, true, false⟩

theorem IsRead.congr (hr : h.IsRead file d) (stored : h'.stored file = h.stored file)
    (same : d'.unmarked = d.unmarked) : h'.IsRead file d' := by
  obtain ⟨u, text, hu, hs, hd⟩ := hr
  exact ⟨u, text, hu, stored.trans hs, same.trans hd⟩

theorem IsRead.unique (hr : h.IsRead file d) (hr' : h.IsRead file d') : d.unmarked = d'.unmarked := by
  obtain ⟨u, text, hu, hs, hd⟩ := hr
  obtain ⟨u', text', hu', hs', hd'⟩ := hr'
  rw [hu] at hu'
  rw [hs] at hs'
  cases hu'
  cases hs'
  rw [hd, hd']

theorem breaks_add {dropping : List DocumentId} (hk : h.Known dropping)
    (new : h.tracked.get? d.file = none) (hc : d.onClient = false)
    (same : h.reading d.file = .ok d.text) : (h.add d).Breaks ↔ h.Breaks := by
  unfold Breaks Reaches
  rw [reading_add hk same, clientFiles_add hk new hc]

end Holdings

namespace Workspace

/-- Between the two, documents were marked and opened. Those that were opened were read from their files;
all else is as it was. -/
structure Spares (w w' : Workspace) : Prop where
  gate_eq : w'.gate = w.gate
  disk_eq : w'.disk = w.disk
  failing_eq : w'.failing = w.failing
  previous_eq : w'.previous = w.previous
  document : ∀ id d, w.holdings.document? id = some d →
    ∃ d', w'.holdings.document? id = some d' ∧ d'.unmarked = d.unmarked
  opened : ∃ opened seen, w'.tracked.entries = w.tracked.entries ++ opened ∧
    w'.record = w.record ++ seen ∧ ∀ e ∈ opened, .read e.1 .contents ∈ seen ∧
      ∃ d, w'.holdings.document? e.2 = some d ∧ w.holdings.IsRead e.1 d

variable {w w' w'' : Workspace} {file : String} {id : DocumentId}

theorem Spares.stored_eq (h : w.Spares w') : w'.holdings.stored = w.holdings.stored := by
  unfold Holdings.stored
  rw [show w'.holdings.disk = w.holdings.disk from h.disk_eq,
    show w'.holdings.failing = w.holdings.failing from h.failing_eq]

theorem Spares.of_same (gate : w'.gate = w.gate) (holdings : w'.holdings = w.holdings)
    (previous : w'.previous = w.previous) (record : w.record <+: w'.record) : w.Spares w' where
  gate_eq := gate
  disk_eq := congrArg Holdings.disk holdings
  failing_eq := congrArg Holdings.failing holdings
  previous_eq := previous
  document id d hd := ⟨d, by rw [holdings]; exact hd, rfl⟩
  opened := by
    obtain ⟨seen, recorded⟩ := record
    have tracked : w'.tracked = w.tracked := congrArg Holdings.tracked holdings
    exact ⟨[], seen, by rw [tracked, List.append_nil], recorded.symm, fun _ hm => by cases hm⟩

theorem Spares.trans (h : w.Spares w') (h' : w'.Spares w'') : w.Spares w'' where
  gate_eq := h'.gate_eq.trans h.gate_eq
  disk_eq := h'.disk_eq.trans h.disk_eq
  failing_eq := h'.failing_eq.trans h.failing_eq
  previous_eq := h'.previous_eq.trans h.previous_eq
  document id d hd := by
    obtain ⟨d', hd', same⟩ := h.document id d hd
    obtain ⟨d'', hd'', same'⟩ := h'.document id d' hd'
    exact ⟨d'', hd'', same'.trans same⟩
  opened := by
    obtain ⟨opened, seen, entries, record, read⟩ := h.opened
    obtain ⟨opened', seen', entries', record', read'⟩ := h'.opened
    refine ⟨opened ++ opened', seen ++ seen', ?_, ?_, fun e he => ?_⟩
    · rw [entries', entries, List.append_assoc]
    · rw [record', record, List.append_assoc]
    · rcases List.mem_append.mp he with he | he
      · obtain ⟨observed, d, hd, isRead⟩ := read e he
        obtain ⟨d', hd', same⟩ := h'.document _ d hd
        exact ⟨List.mem_append_left _ observed, d', hd', isRead.congr rfl same⟩
      · obtain ⟨observed, d, hd, isRead⟩ := read' e he
        exact ⟨List.mem_append_right _ observed, d, hd, isRead.congr (congrFun h.stored_eq.symm _) rfl⟩

instance : IsPreorder Workspace Spares where
  refl _ := .of_same rfl rfl rfl (List.prefix_refl _)
  trans _ _ _ := Spares.trans

theorem spares_mark (w : Workspace) (id : DocumentId) (mark : Document → Bool) :
    w.Spares (w.holding (w.holdings.revise id fun d => { d with isMarked := mark d })) where
  gate_eq := rfl
  disk_eq := rfl
  failing_eq := rfl
  previous_eq := rfl
  document _ _ hd := Holdings.revise_induction (f := fun d => { d with isMarked := mark d })
    (P := fun _ d d' => d'.unmarked = d.unmarked) (fun _ _ => rfl) (fun _ _ => rfl) hd
  opened := ⟨[], [], (List.append_nil _).symm, (List.append_nil _).symm, fun _ hm => by cases hm⟩

def readOpened (w : Workspace) (file u text : String) : Workspace :=
  (w.noting (.read file .contents)).serverOpened (w.holdings.add (.new file)) w.documents.length
    (.new file) u text

theorem holdings_readOpened (w : Workspace) (file u text : String) :
    (w.readOpened file u text).holdings = w.holdings.add ⟨file, u, some text, false, true, false⟩ :=
  Holdings.revise_add (h := w.holdings) (d := .new file)
    (f := fun d => { d with uri := u, text := some text, onServer := true }) rfl

theorem spares_readOpened {u text : String} (hu : Host.uri (.text file) = .ok u)
    (new : w.holdings.tracked.get? file = none) (hs : w.holdings.stored file = .ok (some text)) :
    w.Spares (w.readOpened file u text) where
  gate_eq := rfl
  disk_eq := rfl
  failing_eq := rfl
  previous_eq := rfl
  document id d hd := by
    rw [holdings_readOpened]
    exact ⟨d, Holdings.document?_add_of_some hd, rfl⟩
  opened := by
    have untracked : file ∉ w.tracked.keys := Table.get?_eq_none_iff.mp new
    refine ⟨[(file, w.documents.length)], .read file .contents :: if w.hasWatcher then [.watched file]
      else [], Table.entries_insert_of_not_mem _ untracked, ?_, fun e he => ?_⟩
    · simp [readOpened, serverOpened, asked, holding, noting, Document.new, Document.isOpen]
    · rw [List.mem_singleton.mp he, holdings_readOpened]
      exact ⟨List.mem_cons_self, _, Holdings.document?_add_self w.holdings _, u, text, hu, hs, rfl⟩

structure Barred (host : Host) (w : Workspace) : Prop where
  quiet : (Frame.readers host).Quiet w
  sound : w.core.Sound []
  compilation_eq : w.compilation = none
  breaks : w.holdings.Breaks

namespace Barred

variable {host : Host}

theorem roots_eq (hw : w.Barred host) : w.roots = none := hw.sound.synced.mp hw.compilation_eq

theorem of_core_eq (hw : w.Barred host) (quiet : (Frame.readers host).Quiet w') (same : w'.core = w.core) :
    w'.Barred host where
  quiet := quiet
  sound := by
    rw [same]
    exact hw.sound
  compilation_eq := (congrArg Core.compilation same).trans hw.compilation_eq
  breaks := by
    rw [show w'.holdings = w.holdings from congrArg Core.holdings same]
    exact hw.breaks

theorem mark (hw : w.Barred host) (id : DocumentId) (mark : Document → Bool) :
    (w.holding (w.holdings.revise id fun d => { d with isMarked := mark d })).Barred host where
  quiet := hw.quiet
  sound := by
    refine Core.sound_of_none hw.sound hw.compilation_eq (Holdings.known_revise hw.sound.known ?_ ?_ ?_)
    · exact fun _ _ => rfl
    · exact fun _ _ hx => Option.isSome_iff_exists.mp hx
    · exact fun _ _ ho => Or.inl ho
  compilation_eq := hw.compilation_eq
  breaks := by
    have later : w.holdings.Later (w.holdings.revise id fun d => { d with isMarked := mark d }) :=
      Holdings.later_revise fun _ _ => ⟨rfl, rfl, rfl, rfl, fun h => h, fun _ => rfl⟩
    exact later.breaks_iff.mpr hw.breaks

theorem readOpened (hw : w.Barred host) {u text : String} (new : w.holdings.tracked.get? file = none)
    (hs : w.holdings.stored file = .ok (some text)) : (w.readOpened file u text).Barred host where
  quiet := hw.quiet
  sound := by
    apply Core.sound_of_none (h := (w.readOpened file u text).holdings) hw.sound hw.compilation_eq
    rw [holdings_readOpened]
    exact Holdings.known_add hw.sound.known ⟨text, rfl⟩ rfl
  compilation_eq := hw.compilation_eq
  breaks := by
    have known : w.holdings.Known [] := hw.sound.known
    rw [holdings_readOpened, Holdings.breaks_add known new rfl]
    · exact hw.breaks
    · rw [Holdings.reading_untracked new]
      exact hs

end Barred

abbrev Sparing (host : Host) : Workspace → Workspace → Prop := Keeping (Barred host) Spares

theorem peruses_sparing (host : Host) : Peruses (Barred host) Spares where
  passive _ hw := hw.quiet.2
  noted _ _ _ hw := ⟨hw.of_core_eq hw.quiet rfl, .of_same rfl rfl rfl (List.prefix_append _ _)⟩
  answered _ _ hw := ⟨hw.of_core_eq hw.quiet rfl, .of_same rfl rfl rfl (List.prefix_refl _)⟩
  listening _ _ _ _ passive hw :=
    ⟨hw.of_core_eq ⟨hw.quiet.1, passive⟩ rfl, .of_same rfl rfl rfl (List.prefix_refl _)⟩

end Workspace

namespace Task

open Workspace (Barred Spares Sparing)

variable {host : Host} {call : Calling} {w : Workspace}

theorem sparing_mark (id : DocumentId) (mark : Document → Bool) :
    Along (Sparing host) (update id fun d => { d with isMarked := mark d }) :=
  fun w hw => ⟨hw.mark id mark, w.spares_mark id mark⟩

section

variable (calls : ∀ listener topic about, Along (Sparing host) (call listener topic about))

include calls

theorem sparing_fire (topic : Topic) (about : Option DocumentId) :
    Along (Sparing host) (fire call topic about) := by
  apply along_fire _ calls
  intro m w hw
  exact ⟨hw.of_core_eq hw.quiet rfl, .of_same rfl rfl rfl (List.prefix_refl _)⟩

/-- What can be read is opened, with listeners being told of it; nothing else comes of reading. -/
theorem sparing_readForCompiler (file : String) : Along (Sparing host) (readForCompiler call file) := by
  have gives (id : DocumentId) : Along (Sparing host) (give id) :=
    (sparing_mark id fun _ => true).bind fun _ => (along_document id).bind fun _ => Work.along_pure _
  apply Work.along_keeping_of
  intro w hw
  apply ends_readForCompiler_of
  · exact fun id _ => gives id w hw
  · exact fun _ => ⟨hw.of_core_eq hw.quiet rfl, .of_same rfl rfl rfl (List.prefix_append _ _)⟩
  · intro text u hu new hs
    have tells : Along (Sparing host) (do
        fire call .created (some w.documents.length)
        fire call .openedOnServer (some w.documents.length)
        give w.documents.length) :=
      (sparing_fire calls _ _).bind fun _ => (sparing_fire calls _ _).bind fun _ => gives _
    apply Work.Ends.mono (Q := fun _ w' => w'.Barred host ∧ (w.readOpened file u text).Spares w')
    · exact tells (w.readOpened file u text) (hw.readOpened new hs)
    · exact fun _ _ h => ⟨h.1, (Workspace.spares_readOpened hu new hs).trans h.2⟩

theorem sparing_loadAnew : Along (Sparing host) (loadAnew call) := by
  apply along_loadAnew (fun id => sparing_mark id Document.onClient) _ _ (sparing_readForCompiler calls)
  · exact fun w hw => ⟨hw.of_core_eq hw.quiet rfl, .of_same rfl rfl rfl (List.prefix_refl _)⟩
  · exact fun w _ hw => ⟨hw.of_core_eq hw.quiet rfl, .of_same rfl rfl rfl (List.prefix_refl _)⟩

/-- A rebuild fails where none can succeed, and then the gate is as it was before. -/
theorem ends_rebuild_barred (calm : Calm (.readers host) call) (hw : w.Barred host) :
    Ends (rebuild call) w fun r w' => (∃ fault, r = .error fault) ∧ w'.Barred host ∧ w.Spares w' := by
  let inside := { w with gate := { w.gate with phase := .rebuilding } }
  have barred : inside.Barred host := hw.of_core_eq hw.quiet rfl
  have loads : Ends (loadAnew call) inside fun r w' =>
      (∃ fault, r = .error fault) ∧ w'.Barred host ∧ inside.Spares w' := by
    have stops := ends_loadAnew calm barred.quiet barred.sound rfl barred.compilation_eq
    have spared : Ends (loadAnew call) inside fun _ w' => w'.Barred host ∧ inside.Spares w' :=
      sparing_loadAnew calls inside barred
    refine (stops.and spared).mono ?_
    rintro r w' ⟨stopped, spared⟩
    cases r with
    | error fault => exact ⟨⟨fault, rfl⟩, spared⟩
    | ok c => exact absurd barred.breaks (Holdings.not_breaks_of_loads stopped.2.1)
  have body : Ends (rebuildBody call) inside fun r w' =>
      (∃ fault, r = .error fault) ∧ w'.Barred host ∧ inside.Spares w' := by
    rw [rebuildBody_eq]
    apply loads.bind
    · rintro c w' ⟨⟨_, failed⟩, -⟩
      cases failed
    · rintro fault w' ⟨-, spared⟩
      exact ⟨⟨fault, rfl⟩, spared⟩
  rw [rebuild_eq]
  apply ends_rebuilding body
  · rintro c w' ⟨⟨_, failed⟩, -⟩
    cases failed
  · rintro fault w' ⟨-, barred', spares⟩
    refine ⟨⟨fault, rfl⟩, barred'.of_core_eq barred'.quiet rfl, ?_⟩
    have gate : (leaving w w').gate = w.gate := by
      apply gate_leaving
      · rw [spares.gate_eq]
      · intro _
        rw [spares.gate_eq]
    exact ⟨gate, spares.disk_eq, spares.failing_eq, spares.previous_eq, spares.document, spares.opened⟩

end

/-- Listeners fail with the rebuild, however deep they are at work inside one another. -/
theorem sparing_call (depth : Nat) (listener : Listener) (topic : Topic) (about : Option DocumentId) :
    Along (Sparing host) (Task.call depth listener topic about) := by
  apply along_call (Workspace.peruses_sparing host)
  intro depth calls w hw
  exact (ends_rebuild_barred calls (calm_call depth) hw).mono fun _ _ h => h.2

theorem ends_compilation_barred (depth : Nat) (hw : w.Barred host) :
    Ends (compilation (Task.call depth)) w fun r w' =>
      (∃ fault, r = .error fault) ∧ w'.Barred host ∧ w.Spares w' := by
  rw [compilation, Work.ends_bind, Work.ends_get, Work.next_ok, hw.compilation_eq]
  exact ends_rebuild_barred (sparing_call depth) (calm_call depth) hw

end Task
end GrammarWorkspace
