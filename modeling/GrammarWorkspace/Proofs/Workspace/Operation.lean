import GrammarWorkspace.Proofs.Workspace.Listening

/-!
# Operations from outside

Between operations all is in order. Each operation takes a workspace from one such state to another,
whatever listeners read meanwhile and whether or not it fails.
-/
namespace GrammarWorkspace

open Grammar (Compilation Loads)
open Work (Ends)

namespace Core

variable {k : Core} {h : Holdings} {id : DocumentId} {dropping : List DocumentId}

theorem sound_stale (hs : k.Sound dropping) {more : List DocumentId} (known : h.Known more) :
    (k.holding h).stale.Sound more :=
  ⟨known, iff_of_true rfl rfl, hs.genuine, fun _ _ hc => by cases hc⟩

/-- While documents are about to be dropped, nothing is said of a compilation. -/
theorem sound_dropping (hs : k.Sound dropping) (known : h.Known [id]) :
    (k.holding h).Sound [id] :=
  ⟨known, hs.synced, hs.genuine, fun he => by cases he⟩

end Core

namespace Holdings

variable {h : Holdings} {id : DocumentId} {file : String}

theorem known_forget {dropping : List DocumentId} (hk : h.Known dropping)
    (gone : ∀ id ∈ dropping, h.tracked.get? file = some id) : (h.forget file).Known [] := by
  intro other id' ht
  rw [forget, Table.get?_erase] at ht
  split at ht
  · cases ht
  · rename_i hne
    obtain ⟨d, hd, hf, hx, ho⟩ := hk other id' ht
    refine ⟨d, hd, hf, hx, Or.inl (ho.resolve_right fun hm => ?_)⟩
    exact hne (hk.file_unique ht (gone id' hm))

theorem known_release (hk : h.Known []) {d : Document} (hd : h.document? id = some d) :
    (h.revise id ({ · with onClient := false })).Known (if d.onServer then [] else [id]) := by
  refine known_revise (hk.mono (List.nil_subset _)) (fun _ _ => rfl)
    (fun _ _ hx => Option.isSome_iff_exists.mp hx) fun e he _ => ?_
  rw [hd] at he
  cases he
  cases hs : d.onServer with
  | true => exact Or.inl (by simp [Document.isOpen])
  | false => exact Or.inr List.mem_cons_self

theorem clientFiles_subset {h h' : Holdings} (tracked : h'.tracked.values ⊆ h.tracked.values)
    (client : ∀ id file, h'.clientFile? id = some file → h.clientFile? id = some file) :
    h'.clientFiles ⊆ h.clientFiles := by
  intro file hm
  rw [clientFiles_eq] at hm ⊢
  obtain ⟨id, hi, hc⟩ := List.mem_filterMap.mp hm
  exact List.mem_filterMap.mpr ⟨id, tracked hi, client id file hc⟩

theorem clientFiles_forget_subset (h : Holdings) (file : String) :
    (h.forget file).clientFiles ⊆ h.clientFiles :=
  clientFiles_subset (List.filter_sublist.map Prod.snd).subset fun _ _ hc => hc

theorem clientFiles_release_subset (h : Holdings) (id : DocumentId) :
    (h.revise id ({ · with onClient := false })).clientFiles ⊆ h.clientFiles := by
  refine clientFiles_subset (List.Subset.refl _) fun other file hc => ?_
  unfold clientFile? at hc ⊢
  rw [document?_revise] at hc
  by_cases he : id = other
  · subst he
    cases hd : h.document? id <;> simp [hd] at hc
  · rwa [if_neg he] at hc

structure Opens (h₀ h : Holdings) (file : String) (id : DocumentId) (isNew : Bool) (d : Document) :
    Prop where
  document?_eq : h.document? id = some d
  tracked_eq : h.tracked.get? file = some id
  text_eq : h₀.text? file = d.text
  new : isNew = true → d.text = none
  old : isNew = false → h = h₀
  failing_eq : h.failing = h₀.failing
  stored_eq : h.stored = h₀.stored
  others : ∀ other, other ≠ file → h.tracked.get? other = h₀.tracked.get? other
  document?_of_some : ∀ other e, h₀.document? other = some e → h.document? other = some e
  known : ∀ f : Document → Document, (f d).file = d.file → (f d).text.isSome →
    (f d).isOpen = true → (h.revise id f).Known []
  keeps : ∀ f : Document → Document, (f d).file = d.file → (isNew = false → (f d).uri = d.uri) →
    h₀.Keeps (h.revise id f)

theorem Opens.unmade {h₀ : Holdings} {isNew : Bool} {d : Document} (opens : h₀.Opens h file id isNew d)
    (text : d.text.isSome) : h = h₀ := by
  cases isNew with
  | false => exact opens.old rfl
  | true =>
    rw [opens.new rfl] at text
    cases text

theorem Opens.of_tracked (hk : h.Known []) (ht : h.tracked.get? file = some id) {d : Document}
    (hd : h.document? id = some d) : h.Opens h file id false d where
  document?_eq := hd
  tracked_eq := ht
  text_eq := by simp [text?, ht, hd]
  new hn := by cases hn
  old _ := rfl
  failing_eq := rfl
  stored_eq := rfl
  others _ _ := rfl
  document?_of_some _ _ he := he
  known f file_eq text isOpen := by
    have only : ∀ e, h.document? id = some e → e = d := fun e he => by
      rw [hd] at he
      exact (Option.some.inj he).symm
    refine known_revise hk (fun e he => ?_) (fun e he _ => ?_) fun e he _ => Or.inl ?_
    · rw [only e he, file_eq]
    · rw [only e he]
      exact Option.isSome_iff_exists.mp text
    · rw [only e he, isOpen]
  keeps f _ uri_eq := keeps_revise fun e he => by
    rw [hd] at he
    cases he
    exact uri_eq rfl

theorem Opens.of_untracked (hk : h.Known []) (new : h.tracked.get? file = none) :
    h.Opens (h.add (.new file)) file h.documents.length true (.new file) where
  document?_eq := document?_add_self h _
  tracked_eq := by
    rw [tracked_add]
    exact if_pos rfl
  text_eq := by simp [text?, new, Document.new]
  new _ := rfl
  old hn := by cases hn
  failing_eq := rfl
  stored_eq := rfl
  others other hne := by
    rw [tracked_add]
    exact if_neg fun he => hne he.symm
  document?_of_some _ _ he := document?_add_of_some he
  known f file_eq text isOpen := by
    rw [revise_add file_eq]
    exact known_add hk (Option.isSome_iff_exists.mp text) isOpen
  keeps f file_eq _ := by
    rw [revise_add file_eq]
    refine keeps_add ?_
    rw [file_eq]
    exact new

theorem Opens.mem_clientFiles {h₀ : Holdings} {isNew : Bool} {d : Document} {f : Document → Document}
    {other : String} (opens : h₀.Opens h file id isNew d) (known₀ : h₀.Known [])
    (known : (h.revise id f).Known []) (hm : other ∈ (h.revise id f).clientFiles) :
    other ∈ h₀.clientFiles ∨ other = file := by
  by_cases he : other = file
  · exact .inr he
  obtain ⟨id', e, ht, hd, hc⟩ := (Holdings.mem_clientFiles known).mp hm
  have apart : id ≠ id' := by
    rintro rfl
    exact he (known.file_unique ht opens.tracked_eq)
  rw [tracked_revise, opens.others other he] at ht
  rw [document?_revise, if_neg apart] at hd
  obtain ⟨e₀, hd₀, -⟩ := known₀ other id' ht
  rw [opens.document?_of_some id' e₀ hd₀] at hd
  cases hd
  exact .inl ((Holdings.mem_clientFiles known₀).mpr ⟨id', _, ht, hd₀, hc⟩)

end Holdings

structure Document.Writes (d : Document) (f : Document → Document) (text : String) : Prop where
  file_eq : (f d).file = d.file
  text_eq : (f d).text = some text
  isOpen : (f d).isOpen = true

theorem Holdings.Opens.known_written {h₀ h : Holdings} {file : String} {id : DocumentId} {isNew : Bool}
    {d : Document} {f : Document → Document} {text : String} (opens : h₀.Opens h file id isNew d)
    (writes : d.Writes f text) : (h.revise id f).Known [] :=
  opens.known f writes.file_eq (by rw [writes.text_eq]; rfl) writes.isOpen

/-- The core in which a document has changed. The compilation stays only if the client's hold does. -/
def Core.Rewrites (k' k : Core) (id : DocumentId) (d : Document) (f : Document → Document) : Prop :=
  (f d).onClient = d.onClient ∧ k' = k.revise id f ∨ k' = (k.revise id f).stale

namespace Core.Rewrites

variable {k k' : Core} {h : Holdings} {id : DocumentId} {file : String} {isNew : Bool} {d : Document}
  {f : Document → Document} {text : String}

theorem holdings_eq (hk : k'.Rewrites k id d f) : k'.holdings = k.holdings.revise id f := by
  rcases hk with ⟨-, rfl⟩ | rfl <;> rfl

theorem reportUnused_eq (hk : k'.Rewrites k id d f) : k'.reportUnused = k.reportUnused := by
  rcases hk with ⟨-, rfl⟩ | rfl <;> rfl

theorem sound_stale (hk : k'.Rewrites (k.holding h) id d f) (hs : k.Sound [])
    (opens : k.holdings.Opens h file id isNew d) (writes : d.Writes f text) :
    k'.stale.Sound [] := by
  have stale : (k.holding (h.revise id f)).stale.Sound [] :=
    Core.sound_stale hs (opens.known_written writes)
  rcases hk with ⟨-, rfl⟩ | rfl
  · exact stale
  · exact stale

theorem sound (hk : k'.Rewrites (k.holding h) id d f) (hs : k.Sound [])
    (opens : k.holdings.Opens h file id isNew d) (writes : d.Writes f text)
    (before : d.text = some text) : k'.Sound [] := by
  have known := opens.known_written writes
  rcases hk with ⟨same, rfl⟩ | rfl
  · have hd := opens.document?_eq
    have unmade := opens.unmade (by rw [before]; rfl)
    subst unmade
    refine sound_revise hs known fun e he => ?_
    rw [holding_holdings, hd] at he
    cases he
    exact ⟨writes.file_eq, writes.text_eq.trans before.symm, same⟩
  · exact Core.sound_stale hs known

end Core.Rewrites

/-- The core after the client has written a document. Only if it has written the same before does the
compilation stay. -/
inductive Core.Written (k : Core) (file text : String) : Core → Prop
  | again {id d f} : k.holdings.tracked.get? file = some id → k.holdings.document? id = some d →
      d.onClient = true → d.text = some text →
      ((f d).file = d.file ∧ (f d).text = d.text ∧ (f d).onClient = d.onClient) →
      Core.Written k file text (k.revise id f)
  | anew {h id isNew d f} : k.holdings.Opens h file id isNew d → d.Writes f text →
      (f d).onClient = true → ¬ (d.onClient = true ∧ d.text = some text) →
      Core.Written k file text ((k.holding h).revise id f).stale

inductive Workspace.Writes (F : Frame) (w : Workspace) (u text : String) (w' : Workspace) : Prop
  | unnamed {fault} : w.host.fileName (.text u) = .error fault → w' = w → w.Writes F u text w'
  | written {file k w₁} : w.host.fileName (.text u) = .ok file → w.core.Written file text k →
      w.Becomes k w₁ → w₁.core.Sound [] → w₁.Drifts F [] w' → w.Writes F u text w'

inductive Workspace.Drops (F : Frame) (w : Workspace) (file : String) (w' : Workspace) : Prop
  | kept : w'.core = w.core → w.Drops F file w'
  | removed {w₁} : w.Becomes (w.core.holding (w.holdings.forget file)).stale w₁ →
      w₁.core.Sound [] → w₁.Drifts F [] w' → w.Drops F file w'

inductive Workspace.Closes (F : Frame) (w : Workspace) (u : String) (w' : Workspace) : Prop
  | unnamed {fault} : w.host.fileName (.text u) = .error fault → w' = w → w.Closes F u w'
  | unheld {file} : w.host.fileName (.text u) = .ok file →
      (∀ id d, w.holdings.tracked.get? file = some id → w.holdings.document? id = some d →
        d.onClient = false) → w' = w → w.Closes F u w'
  | closed {file id d dropping w₁ w₂} : w.host.fileName (.text u) = .ok file →
      w.holdings.tracked.get? file = some id → w.holdings.document? id = some d →
      d.onClient = true → w.Becomes (w.core.revise id ({ · with onClient := false })).stale w₁ →
      w₁.core.Sound dropping → w₁.Drifts F dropping w₂ → w₂.Drops F file w' → w.Closes F u w'

structure Workspace.Resting (F : Frame) (w : Workspace) : Prop where
  quiet : F.Quiet w
  sound : w.core.Sound []
  phase_eq : w.gate.phase = .idle

namespace Workspace.Resting

variable {F : Frame} {w w' : Workspace} {k : Core}

theorem known (h : w.Resting F) : w.holdings.Known [] := h.sound.known

theorem drifts (h : w.Resting F) (hd : w.Drifts F [] w') : w'.Resting F :=
  ⟨hd.quiet, hd.sound, hd.phase_eq.trans h.phase_eq⟩

theorem becomes (h : w.Resting F) (hb : w.Becomes k w') (hs : k.Sound []) : w'.Resting F :=
  ⟨hb.quiet h.quiet, by rw [hb.core_eq]; exact hs, hb.phase_eq.trans h.phase_eq⟩

end Workspace.Resting

theorem Workspace.Drifts.clientFiles_eq {F : Frame} {w w' : Workspace} {dropping : List DocumentId}
    (h : w.Drifts F dropping w') : w'.holdings.clientFiles = w.holdings.clientFiles :=
  h.core.later.clientFiles_eq

def Workspace.Admits (w w' : Workspace) : Prop :=
  ∀ file ∈ w'.holdings.clientFiles,
    file ∈ w.holdings.clientFiles ∨ ∃ locator, w.host.fileName locator = .ok file

namespace Workspace.Admits

variable {F : Frame} {w w' w'' : Workspace} {k : Core} {dropping : List DocumentId} {file : String}

theorem of_subset (h : w'.holdings.clientFiles ⊆ w.holdings.clientFiles) : w.Admits w' :=
  fun _ hm => .inl (h hm)

theorem of_eq (h : w'.holdings.clientFiles = w.holdings.clientFiles) : w.Admits w' := by
  rw [Admits, h]
  exact fun _ => .inl

theorem refl (w : Workspace) : w.Admits w := of_eq rfl

theorem onward (h : w.Admits w') (sub : w''.holdings.clientFiles ⊆ w'.holdings.clientFiles) : w.Admits w'' :=
  fun file hm => h file (sub hm)

theorem drifts (h : w.Admits w') (hd : w'.Drifts F dropping w'') : w.Admits w'' :=
  h.onward (by rw [hd.clientFiles_eq]; exact List.Subset.refl _)

theorem of_opens {h : Holdings} {id : DocumentId} {isNew : Bool} {d : Document} {f : Document → Document}
    {locator : Locator} (named : w.host.fileName locator = .ok file)
    (opens : w.holdings.Opens h file id isNew d) (known₀ : w.holdings.Known [])
    (known : (h.revise id f).Known []) (holdings_eq : w'.holdings = h.revise id f) : w.Admits w' := by
  intro other hm
  rw [holdings_eq] at hm
  rcases opens.mem_clientFiles known₀ known hm with hm | rfl
  · exact .inl hm
  · exact .inr ⟨locator, named⟩

end Workspace.Admits

theorem Workspace.Drops.clientFiles_subset {F : Frame} {w w' : Workspace} {file : String}
    (h : w.Drops F file w') : w'.holdings.clientFiles ⊆ w.holdings.clientFiles := by
  cases h with
  | kept same =>
    rw [show w'.holdings = w.holdings from congrArg Core.holdings same]
    exact List.Subset.refl _
  | removed becomes _ drifts =>
    rw [drifts.clientFiles_eq, becomes.holdings_eq]
    exact Holdings.clientFiles_forget_subset _ _

theorem Workspace.Writes.admits {F : Frame} {w w' : Workspace} {u text : String} (h : w.Writes F u text w')
    (known : w.holdings.Known []) : w.Admits w' := by
  cases h with
  | unnamed _ same => exact same ▸ .refl w
  | @written file k w₁ named written becomes sound drifts =>
    refine Workspace.Admits.drifts ?_ drifts
    cases written with
    | again ht hd _ _ same =>
      refine .of_eq ?_
      rw [becomes.holdings_eq]
      refine Holdings.clientFiles_revise fun e he => ?_
      rw [show w.core.holdings.document? _ = _ from hd] at he
      cases he
      exact ⟨same.2.2, same.1⟩
    | anew opens writes =>
      exact .of_opens named opens known (opens.known_written writes) becomes.holdings_eq

theorem Workspace.Closes.admits {F : Frame} {w w' : Workspace} {u : String} (h : w.Closes F u w') :
    w.Admits w' := by
  cases h with
  | unnamed _ same => exact same ▸ .refl w
  | unheld _ _ same => exact same ▸ .refl w
  | closed _ _ _ _ becomes _ drifts drops =>
    refine (Workspace.Admits.of_subset ?_).onward drops.clientFiles_subset
    rw [drifts.clientFiles_eq, becomes.holdings_eq]
    exact Holdings.clientFiles_release_subset _ _

namespace Task

variable {F : Frame} {call : Calling} {w w' : Workspace} {k : Core} {id : DocumentId} {file : String}

theorem ends_of_soft {α : Type} {task : Task α} (h : Soft F [] task) (hr : w.Resting F) :
    Ends task w fun _ w' => w'.Resting F ∧ w.Admits w' :=
  (h w hr.quiet hr.sound).mono fun _ _ hd => ⟨hr.drifts hd, (Workspace.Admits.refl w).drifts hd⟩

theorem uri_of_fileName {host : Host} {locator : Locator} (h : host.fileName locator = .ok file) :
    ∃ uri, Host.uri locator = .ok uri := by
  unfold Host.uri
  cases locator with
  | text s => exact ⟨_, rfl⟩
  | reference uri =>
    cases uri with
    | text s => exact ⟨s, rfl⟩
    | _ => cases h
  | other value => cases h

theorem ends_fileName {α : Type} {locator : Locator} {next : String → Task α}
    {Q : Except Fault α → Workspace → Prop}
    (error : ∀ fault, w.host.fileName locator = .error fault → Q (.error fault) w)
    (ok : ∀ file, w.host.fileName locator = .ok file → Ends (next file) w Q) :
    Ends (fileName locator >>= next) w Q := by
  rw [fileName, Work.ends_bind, Work.ends_bind, Work.ends_get, Work.next_ok, Work.ends_ofExcept]
  cases hf : w.host.fileName locator with
  | error fault => exact error fault hf
  | ok file => exact ok file hf

theorem ends_find {α : Type} {locator : Locator} {next : Option DocumentId → Task α}
    {Q : Except Fault α → Workspace → Prop}
    (error : ∀ fault, w.host.fileName locator = .error fault → Q (.error fault) w)
    (ok : ∀ file, w.host.fileName locator = .ok file → Ends (next (w.tracked.get? file)) w Q) :
    Ends (find locator >>= next) w Q := by
  rw [find, Work.ends_bind]
  refine ends_fileName error fun file hf => ?_
  rw [Work.ends_bind, Work.ends_get, Work.next_ok]
  exact ok file hf

theorem ends_holdOnClient {Q : Except Fault Unit → Workspace → Prop} (h : w.Becomes k w')
    (phase : w.gate.phase = .idle) {d : Document} (hd : k.holdings.document? id = some d)
    (held : d.onClient = true → Q (.ok ()) w')
    (new : d.onClient = false → ∀ w'', w.Becomes (k.revise id ({ · with onClient := true })).stale w'' →
      Q (.ok ()) w'') : Ends (holdOnClient id) w' Q := by
  rw [holdOnClient, Work.ends_bind]
  refine ends_document h hd ?_
  rw [Work.next_ok]
  cases hc : d.onClient with
  | true => exact held hc
  | false =>
    rw [if_pos Bool.not_false, Work.ends_bind]
    refine ends_update h fun w₁ h₁ => ?_
    rw [Work.next_ok, Work.ends_bind]
    refine ends_invalidate h₁ phase fun w₂ h₂ => ?_
    rw [Work.next_ok, Work.ends_bind]
    refine ends_document h₂ (d := { d with onClient := true }) ?_ ?_
    · simp [Holdings.document?_revise, hd]
    · rw [Work.next_ok]
      split
      · exact ends_unwatch h₂ (new hc)
      · exact new hc w₂ h₂

/-- Telling about a document makes the compilation stale if the text has changed, and is reading
otherwise. -/
theorem ends_announce (calm : Calm F call) (hq : F.Quiet w) (phase : w.gate.phase = .idle)
    {isNew hasChanged : Bool} {opened : Option Topic}
    (hs : (if hasChanged then w.core.stale else w.core).Sound []) :
    Ends (announce call id isNew hasChanged opened) w fun _ w' =>
      ∃ w₁, w.Becomes (if hasChanged then w.core.stale else w.core) w₁ ∧ w₁.Drifts F [] w' := by
  have last : Soft F [] (if hasChanged then do
      fire call .contentChanged (some id)
      Gate.request (report call)
      else pure ()) := by
    split
    · exact (soft_fire calm _ _).bind fun _ => soft_request (soft_report calm)
    · exact soft_pure _
  have middle : Soft F [] (tellOpened call id opened (if hasChanged then do
      fire call .contentChanged (some id)
      Gate.request (report call)
      else pure ())) := by
    cases opened with
    | some topic => exact (soft_fire calm _ _).bind fun _ => last
    | none => exact last
  rw [announce_eq]
  cases hasChanged with
  | false =>
    have told : ∀ {task : Task Unit}, Soft F [] task → Ends task w fun _ w' =>
        ∃ w₁, w.Becomes w.core w₁ ∧ w₁.Drifts F [] w' := fun soft =>
      (soft w hq hs).mono fun _ _ h => ⟨w, .refl w, h⟩
    cases isNew with
    | false => exact told middle
    | true => exact told ((soft_fire calm _ _).bind fun _ => middle)
  | true =>
    dsimp only
    rw [if_pos rfl, Work.ends_bind]
    refine ends_invalidate (.refl w) phase fun w₁ h₁ => ?_
    have told : ∀ {task : Task Unit}, Soft F [] task → Ends task w₁ fun _ w' =>
        ∃ w₁, w.Becomes w.core.stale w₁ ∧ w₁.Drifts F [] w' := fun soft =>
      (soft w₁ (h₁.quiet hq) (by rw [h₁.core_eq]; exact hs)).mono fun _ _ h => ⟨w₁, h₁, h⟩
    cases isNew with
    | false => exact told middle
    | true => exact told ((soft_fire calm _ _).bind fun _ => middle)

theorem ends_getOrCreate {α : Type} {next : DocumentId × Bool → Task α}
    {Q : Except Fault α → Workspace → Prop} (hr : w.Resting F)
    (rest : ∀ w₁ id isNew h d, w.Becomes (w.core.holding h) w₁ →
      w.holdings.Opens h file id isNew d → Ends (next (id, isNew)) w₁ Q) :
    Ends (getOrCreate file >>= next) w Q := by
  rw [Work.ends_bind]
  cases ht : w.holdings.tracked.get? file with
  | some id =>
    obtain ⟨d, hd, -⟩ := hr.known file id ht
    exact ends_getOrCreate_of_tracked (.refl w) ht
      (rest w id false w.holdings d (.refl w) (.of_tracked hr.sound.known ht hd))
  | none =>
    exact ends_getOrCreate_of_untracked (.refl w) ht fun w₁ h₁ =>
      rest w₁ _ true _ _ h₁ (.of_untracked hr.sound.known ht)

/-- A document with its new text is told about: if the text is the old one the compilation stays. -/
theorem ends_announce_written (calm : Calm F call) (hr : w.Resting F) {h : Holdings} {isNew : Bool}
    {d : Document} {f : Document → Document} {text : String} {opened : Option Topic}
    (opens : w.holdings.Opens h file id isNew d) (writes : d.Writes f text)
    (hk : k.Rewrites (w.core.holding h) id d f) (hb : w.Becomes k w') :
    Ends (announce call id isNew (d.text ≠ some text) opened) w' fun _ w'' => ∃ w₁,
      w.Becomes (if d.text = some text then k else k.stale) w₁ ∧ w₁.Resting F ∧
        w₁.Drifts F [] w'' := by
  have sound : (if d.text = some text then k else k.stale).Sound [] := by
    split
    · exact hk.sound hr.sound opens writes ‹_›
    · exact hk.sound_stale hr.sound opens writes
  have core_eq : (if decide (d.text ≠ some text) = true then w'.core.stale else w'.core) =
      if d.text = some text then k else k.stale := by
    simp only [decide_eq_true_eq, hb.core_eq, ite_not]
  refine (ends_announce calm (hb.quiet hr.quiet) (hb.phase_eq.trans hr.phase_eq) ?_).mono ?_
  · rw [core_eq]
    exact sound
  · rintro r w'' ⟨w₁, h₁, drifts⟩
    rw [core_eq] at h₁
    have becomes := hb.trans h₁
    exact ⟨w₁, becomes, hr.becomes becomes sound, drifts⟩

theorem ends_openOnServer (calm : Calm F call) (locator : Locator) (hr : w.Resting F) :
    Ends (openOnServer call locator) w fun _ w' => w'.Resting F ∧ w.Admits w' := by
  rw [openOnServer]
  refine ends_fileName (fun _ _ => ⟨hr, .refl w⟩) fun file hf => ?_
  obtain ⟨u, hu⟩ := uri_of_fileName hf
  rw [Work.ends_bind]
  refine ends_readFile (.refl w) fun w₁ h₁ => ?_
  have resting := hr.becomes h₁ hr.sound
  have unchanged : w₁.holdings = w.holdings := h₁.holdings_eq
  have admits : w.Admits w₁ := .of_eq (by rw [unchanged])
  cases w.core.holdings.stored file with
  | error fault => exact ⟨resting, admits⟩
  | ok found =>
    rw [Work.next_ok]
    cases found with
    | none => exact ⟨resting, admits⟩
    | some text =>
      refine ends_getOrCreate resting fun w₂ id isNew h d h₂ opens => ?_
      rw [Work.ends_bind]
      refine ends_document h₂ opens.document?_eq ?_
      rw [Work.next_ok, Work.ends_bind, uri, hu, Work.ends_ofExcept, Work.next_ok, Work.ends_bind]
      refine ends_update h₂ fun w₃ h₃ => ?_
      rw [Work.next_ok, Work.ends_bind]
      refine ends_holdOnServer h₃ (d := { d with uri := u, text := some text }) ?_ fun w₄ h₄ => ?_
      · simp [Holdings.document?_revise, opens.document?_eq]
      rw [Core.revise_revise] at h₄
      rw [Work.next_ok, Work.ends_bind]
      let written (d : Document) : Document := { d with uri := u, text := some text, onServer := true }
      have writes : d.Writes written text := ⟨rfl, rfl, by simp [written, Document.isOpen]⟩
      refine (ends_announce_written calm resting opens writes (Or.inl ⟨rfl, rfl⟩) h₄).mono ?_
      rintro r w₅ ⟨w₆, becomes, told, drifts⟩
      rw [unchanged] at opens
      have holdings_eq : w₆.holdings = h.revise id written := by
        rw [becomes.holdings_eq]
        split <;> rfl
      have opened : w.Admits w₆ :=
        .of_opens hf opens hr.known (opens.known_written writes) holdings_eq
      cases r <;> exact ⟨told.drifts drifts, opened.drifts drifts⟩

theorem ends_updateOnClient (calm : Calm F call) (u text : String) (hr : w.Resting F) :
    Ends (updateOnClient call u text) w fun _ w' => w'.Resting F ∧ w.Writes F u text w' := by
  rw [updateOnClient]
  refine ends_fileName (fun _ hf => ⟨hr, .unnamed hf rfl⟩) fun file hf => ?_
  refine ends_getOrCreate hr fun w₁ id isNew h d h₁ opens => ?_
  rw [Work.ends_bind]
  refine ends_document h₁ opens.document?_eq ?_
  rw [Work.next_ok, Work.ends_bind]
  refine ends_update h₁ fun w₂ h₂ => ?_
  rw [Work.next_ok, Work.ends_bind]
  refine ends_holdOnClient h₂ hr.phase_eq (d := { d with uri := u, text := some text }) ?_ ?_ ?_
  · simp [Holdings.document?_revise, opens.document?_eq]
  · intro held
    rw [Work.next_ok]
    refine (ends_announce_written calm hr opens
      ⟨rfl, rfl, by simpa [Document.isOpen] using Or.inl held⟩ (Or.inl ⟨rfl, rfl⟩) h₂).mono ?_
    rintro r w' ⟨w₃, h₃, told, drifts⟩
    refine ⟨told.drifts drifts, .written hf ?_ h₃ told.sound drifts⟩
    split
    · rename_i before
      have unmade := opens.unmade (by rw [before]; rfl)
      subst unmade
      exact .again opens.tracked_eq opens.document?_eq held before ⟨rfl, before.symm, rfl⟩
    · rename_i changed
      exact .anew opens ⟨rfl, rfl, by simpa [Document.isOpen] using Or.inl held⟩ held
        fun same => changed same.2
  · intro unheld w₃ h₃
    rw [Core.revise_revise] at h₃
    rw [Work.next_ok]
    refine (ends_announce_written calm hr opens ⟨rfl, rfl, by simp [Document.isOpen]⟩ (Or.inr rfl)
      h₃).mono ?_
    rintro r w' ⟨w₄, h₄, told, drifts⟩
    have becomes : w.Becomes ((w.core.holding h).revise id
        (({ · with onClient := true }) ∘ ({ · with uri := u, text := some text }))).stale w₄ := by
      split at h₄
      · exact h₄
      · exact h₄
    refine ⟨told.drifts drifts, .written hf (.anew opens ?_ rfl ?_) becomes told.sound drifts⟩
    · exact ⟨rfl, rfl, by simp [Document.isOpen]⟩
    · intro same
      have held := same.1
      rw [show d.onClient = false from unheld] at held
      cases held

/-- A document that nobody holds any more, or that a listener's rebuild may have removed already. -/
theorem ends_remove_resting (calm : Calm F call) (hq : F.Quiet w) (phase : w.gate.phase = .idle)
    {dropping : List DocumentId} (hs : w.core.Sound dropping) {d : Document}
    (hd : w.holdings.document? id = some d) (hf : d.file = file)
    (gone : ∀ id ∈ dropping, w.holdings.tracked.get? file = some id) :
    Ends (remove call id) w fun _ w' => w'.Resting F ∧ w.Drops F file w' := by
  by_cases ht : file ∈ w.holdings.tracked.keys
  · refine ends_remove hd hf ht fun w₁ h₁ => ?_
    rw [Work.ends_bind]
    refine ends_invalidate h₁ phase fun w₂ h₂ => ?_
    have resting : w₂.Resting F := by
      refine ⟨h₂.quiet hq, ?_, h₂.phase_eq.trans phase⟩
      rw [h₂.core_eq]
      exact Core.sound_stale hs (Holdings.known_forget hs.known gone)
    have soft : Soft F [] (do fire call .closed (some id); Gate.request (report call)) :=
      (soft_fire calm _ _).bind fun _ => soft_request (soft_report calm)
    rw [Work.next_ok]
    exact (soft w₂ resting.quiet resting.sound).mono fun _ _ drifts =>
      ⟨resting.drifts drifts, .removed h₂ resting.sound drifts⟩
  · have kept : dropping = [] := by
      cases dropping with
      | nil => rfl
      | cons id' rest => exact absurd (Table.mem_keys_of_get? (gone id' List.mem_cons_self)) ht
    subst kept
    exact ends_remove_of_untracked hd hf ht
      ⟨⟨F.quiet_of_same hq (w.sameOutside_passed _), hs, phase⟩, .kept rfl⟩

theorem ends_releaseOnServer_resting (calm : Calm F call) (hr : w.Resting F)
    (ht : w.holdings.tracked.get? file = some id) :
    Ends (releaseOnServer call id) w fun _ w' => w'.Resting F ∧ w.Admits w' := by
  obtain ⟨d, hd, hf, -⟩ := hr.known file id ht
  have client : (w.holdings.revise id ({ · with onServer := false })).clientFiles = w.holdings.clientFiles :=
    Holdings.clientFiles_revise fun _ _ => ⟨rfl, rfl⟩
  have known : (w.holdings.revise id ({ · with onServer := false })).Known [id] :=
    Holdings.known_revise (hr.known.mono (List.nil_subset _)) (fun _ _ => rfl)
      (fun _ _ hx => Option.isSome_iff_exists.mp hx) fun _ _ _ => Or.inr List.mem_cons_self
  cases hs : d.onServer with
  | false => exact ends_releaseOnServer_of_released hd hs ⟨hr, .refl w⟩
  | true =>
    cases hc : d.onClient with
    | true =>
      have known' : (w.holdings.revise id ({ · with onServer := false })).Known [] := by
        refine Holdings.known_revise hr.known (fun _ _ => rfl)
          (fun _ _ hx => Option.isSome_iff_exists.mp hx) fun e he _ => ?_
        rw [hd] at he
        cases he
        exact Or.inl (by simp [Document.isOpen, hc])
      have sound := Core.sound_revise hr.sound known' fun _ _ => ⟨rfl, rfl, rfl⟩
      refine ends_releaseOnServer calm hd hs hr.quiet sound fun w₁ w₂ h₁ h₂ => ⟨fun _ => ?_, ?_⟩
      · have admits : w.Admits w₁ := .of_eq (by rw [h₁.holdings_eq]; exact client)
        exact ⟨(hr.becomes h₁ sound).drifts h₂, admits.drifts h₂⟩
      · intro hc'
        rw [hc] at hc'
        cases hc'
    | false =>
      refine ends_releaseOnServer calm hd hs hr.quiet (Core.sound_dropping hr.sound known)
        fun w₁ w₂ h₁ h₂ => ⟨?_, fun _ => ?_⟩
      · intro hc'
        rw [hc] at hc'
        cases hc'
      have hd₁ : w₁.holdings.document? id = some { d with onServer := false } := by
        rw [h₁.holdings_eq]
        simp [Holdings.document?_revise, hd]
      have ht₁ : w₁.holdings.tracked.get? file = some id := by
        rw [h₁.holdings_eq]
        exact ht
      obtain ⟨d₂, hd₂, lasts⟩ := h₂.core.later.document id _ hd₁
      have admits : w.Admits w₁ := .of_eq (by rw [h₁.holdings_eq]; exact client)
      refine (ends_remove_resting calm h₂.quiet ?_ h₂.sound hd₂ (lasts.file_eq.trans hf) ?_).mono
        fun _ _ h => ⟨h.1, (admits.drifts h₂).onward h.2.clientFiles_subset⟩
      · exact (h₂.phase_eq.trans h₁.phase_eq).trans hr.phase_eq
      · intro id' hm
        rw [List.mem_singleton.mp hm]
        exact h₂.core.later.kept file id _ ht₁ hd₁ (Or.inr rfl)

theorem ends_closeOnServer (calm : Calm F call) (locator : Locator) (hr : w.Resting F) :
    Ends (closeOnServer call locator) w fun _ w' => w'.Resting F ∧ w.Admits w' := by
  rw [closeOnServer]
  refine ends_find (fun _ _ => ⟨hr, .refl w⟩) fun file _ => ?_
  cases ht : w.tracked.get? file with
  | none => exact ⟨hr, .refl w⟩
  | some id => exact ends_releaseOnServer_resting calm hr ht

theorem ends_closedOnClient (calm : Calm F call) (hr : w.Resting F) {u : String}
    (hn : w.host.fileName (.text u) = .ok file) (ht : w.holdings.tracked.get? file = some id)
    {d : Document} (hd : w.holdings.document? id = some d) (held : d.onClient = true)
    (hb : w.Becomes (w.core.revise id ({ · with onClient := false })) w') :
    Ends (do
      invalidate
      fire call .closedOnClient (some id)
      if !(← document id).isOpen then remove call id) w' fun _ w'' =>
        w''.Resting F ∧ w.Closes F u w'' := by
  obtain ⟨d', hd', hf, -⟩ := hr.known file id ht
  rw [hd] at hd'
  cases hd'
  have known : (w.holdings.revise id ({ · with onClient := false })).Known
      (if d.onServer then [] else [id]) := Holdings.known_release hr.known hd
  rw [Work.ends_bind]
  refine ends_invalidate hb hr.phase_eq fun w₁ h₁ => ?_
  have sound₁ : w₁.core.Sound (if d.onServer then [] else [id]) := by
    rw [h₁.core_eq]
    exact Core.sound_stale hr.sound known
  rw [Work.next_ok, Work.ends_bind]
  refine ends_fire calm (h₁.quiet hr.quiet) sound₁ fun w₂ h₂ => ?_
  have phase : w₂.gate.phase = .idle := (h₂.phase_eq.trans h₁.phase_eq).trans hr.phase_eq
  have hd₁ : w₁.holdings.document? id = some { d with onClient := false } := by
    rw [h₁.holdings_eq]
    simp [Holdings.document?_revise, hd]
  have ht₁ : w₁.holdings.tracked.get? file = some id := by
    rw [h₁.holdings_eq]
    exact ht
  obtain ⟨d₂, hd₂, lasts⟩ := h₂.core.later.document id _ hd₁
  have gone : ∀ id' ∈ (if d.onServer then [] else [id]), w₂.holdings.tracked.get? file = some id' := by
    cases hs : d.onServer with
    | true => exact fun _ hm => by cases hm
    | false =>
      intro id' hm
      rw [List.mem_singleton.mp hm]
      exact h₂.core.later.kept file id _ ht₁ hd₁ (Or.inr hs)
  rw [Work.next_ok, Work.ends_bind]
  refine ends_document (.refl w₂) hd₂ ?_
  rw [Work.next_ok]
  have closes : ∀ w'', w₂.Drops F file w'' → w.Closes F u w'' := fun _ drops =>
    .closed hn ht hd held h₁ sound₁ h₂ drops
  cases ho : d₂.isOpen with
  | false =>
    exact (ends_remove_resting calm h₂.quiet phase h₂.sound hd₂ (lasts.file_eq.trans hf) gone).mono
      fun _ _ h => ⟨h.1, closes _ h.2⟩
  | true =>
    have hs : d.onServer = true := by
      simp only [Document.isOpen, lasts.onClient_eq, Bool.false_or] at ho
      exact lasts.onServer_of ho
    have sound := h₂.sound
    rw [if_pos hs] at sound
    exact ⟨⟨h₂.quiet, sound, phase⟩, closes _ (.kept rfl)⟩

theorem ends_closeOnClient (calm : Calm F call) (u : String) (hr : w.Resting F) :
    Ends (closeOnClient call u) w fun _ w' => w'.Resting F ∧ w.Closes F u w' := by
  rw [closeOnClient]
  refine ends_find (fun _ hn => ⟨hr, .unnamed hn rfl⟩) fun file hn => ?_
  cases ht : w.tracked.get? file with
  | none =>
    refine ⟨hr, .unheld hn (fun id d ht' _ => ?_) rfl⟩
    rw [show w.tracked.get? file = some id from ht'] at ht
    cases ht
  | some id =>
    obtain ⟨d, hd, -⟩ := hr.known file id ht
    dsimp only
    rw [Work.ends_bind]
    refine ends_document (.refl w) hd ?_
    rw [Work.next_ok]
    cases hc : d.onClient with
    | true =>
      rw [if_pos rfl, Work.ends_bind]
      refine ends_update (.refl w) fun w₁ h₁ => ?_
      rw [Work.next_ok]
      split
      · rw [Work.ends_bind]
        exact ends_watch h₁ fun w₂ h₂ => ends_closedOnClient calm hr hn ht hd hc h₂
      · exact ends_closedOnClient calm hr hn ht hd hc h₁
    | false =>
      refine ⟨hr, .unheld hn (fun id' d' ht' hd' => ?_) rfl⟩
      rw [show w.holdings.tracked.get? file = some id from ht] at ht'
      cases ht'
      rw [hd] at hd'
      cases hd'
      exact hc

end Task

namespace Action

/-- One operation, and not a block of several. A script that it brings with it only reads. -/
def isPlain : Action → Bool
  | suspended _ | rebuilding _ => false
  | subscribe _ _ _ script => arePassive script
  | _ => true

end Action

namespace Task

variable {host : Host} {call : Calling} {w : Workspace}

theorem resting_dispose (hr : w.Resting (.readers host)) :
    Ends dispose w fun _ w' => w'.Resting (.readers host) ∧ w.Admits w' := by
  refine ⟨⟨hr.quiet, ⟨?_, iff_of_true rfl rfl, ?_, ?_⟩, hr.phase_eq⟩, .of_subset (List.nil_subset _)⟩
  · intro file id ht
    cases ht
  · intro c hc
    cases hc
  · intro _ c hc
    cases hc

/-- A compilation has taken in what it needs from the disk, so changes there do not touch it. -/
theorem resting_disk (hr : w.Resting (.readers host)) (disk : Table String (List UInt8)) (failing : List String) :
    { w with disk := disk, failing := failing }.Resting (.readers host) := by
  refine ⟨hr.quiet, ⟨hr.sound.known, hr.sound.synced, hr.sound.genuine, fun he c hc => ?_⟩, hr.phase_eq⟩
  have fit := hr.sound.fits he c hc
  exact ⟨fit.roots_eq, fit.request_eq, fit.keys_iff, fit.loads⟩

theorem resting_suspensions (hr : w.Resting (.readers host)) (suspensions : Int) :
    { w with gate := { w.gate with suspensions := suspensions } }.Resting (.readers host) :=
  ⟨hr.quiet, hr.sound, hr.phase_eq⟩

theorem ends_resume (calm : Calm (.readers host) call) (hr : w.Resting (.readers host)) :
    Ends (Gate.resume (report call)) w fun _ w' => w'.Resting (.readers host) ∧ w.Admits w' := by
  rw [Gate.resume, Work.ends_bind, Gate.read, Work.ends_bind, Work.ends_get, Work.next_ok,
    Work.ends_pure, Work.next_ok]
  split
  · rw [Work.ends_bind, Gate.change, Work.ends_modify, Work.next_ok]
    have quieter := resting_suspensions hr (w.gate.suspensions - 1)
    exact (soft_flush (soft_report calm) _ quieter.quiet quieter.sound).mono fun _ _ hd =>
      ⟨quieter.drifts hd, .of_eq hd.clientFiles_eq⟩
  · exact ⟨hr, .refl w⟩

theorem ends_perform (calm : Calm (.readers host) call) (action : Action) (plain : action.isPlain = true)
    (hr : w.Resting (.readers host)) :
    Ends (perform call action) w fun _ w' => w'.Resting (.readers host) ∧ w.Admits w' := by
  by_cases passive : action.isPassive = true
  · exact ends_of_soft (soft_perform calm action passive) hr
  cases action with
  | openOnServer locator =>
    rw [perform]
    refine (ends_openOnServer calm locator hr).bind (fun found w' h' => ?_) fun _ _ h' => h'
    cases found with
    | none => exact h'
    | some id => exact h'
  | closeOnServer locator =>
    exact (ends_closeOnServer calm locator hr).bind (fun _ _ h' => h') fun _ _ h' => h'
  | openOnClient u text =>
    exact (ends_updateOnClient calm u text hr).bind (fun _ _ h' => ⟨h'.1, h'.2.admits hr.known⟩)
      fun _ _ h' => ⟨h'.1, h'.2.admits hr.known⟩
  | changeOnClient u texts =>
    rw [perform, changeOnClient]
    cases texts.getLast? with
    | none => exact ⟨hr, .refl w⟩
    | some text =>
      exact (ends_updateOnClient calm u text hr).bind (fun _ _ h' => ⟨h'.1, h'.2.admits hr.known⟩)
        fun _ _ h' => ⟨h'.1, h'.2.admits hr.known⟩
  | closeOnClient u =>
    exact (ends_closeOnClient calm u hr).bind (fun _ _ h' => ⟨h'.1, h'.2.admits⟩)
      fun _ _ h' => ⟨h'.1, h'.2.admits⟩
  | suspend => exact ⟨resting_suspensions hr _, .of_eq rfl⟩
  | resume => exact (ends_resume calm hr).bind (fun _ _ h' => h') fun _ _ h' => h'
  | request => exact ends_of_soft ((soft_request (soft_report calm)).bind fun _ => soft_pure _) hr
  | dispose => exact (resting_dispose hr).bind (fun _ _ h' => h') fun _ _ h' => h'
  | shutDown => exact (resting_dispose hr).bind (fun _ _ h' => h') fun _ _ h' => h'
  | write file bytes => exact ⟨resting_disk hr _ w.failing, .of_eq rfl⟩
  | delete file => exact ⟨resting_disk hr _ w.failing, .of_eq rfl⟩
  | setFailing file failing => exact ⟨resting_disk hr w.disk _, .of_eq rfl⟩
  | suspended actions => cases plain
  | rebuilding actions => cases plain
  | subscribe topic name plays script => exact absurd plain passive
  | _ => exact absurd rfl passive

end Task

namespace Workspace

/-- The workspace after some actions from outside. -/
def run (w : Workspace) (actions : List Action) : Workspace :=
  actions.foldl (fun w action => (w.turn action).2) w

theorem run_append (w : Workspace) (actions more : List Action) :
    w.run (actions ++ more) = (w.run actions).run more := List.foldl_append

/-- The next access to the compilation: what it comes to, and the workspace that it leaves. -/
def access (w : Workspace) : Except Fault Compilation × Workspace :=
  (Task.compilation (Task.call (w.restlessness + Action.sources.weight + 1))).run.run w

/-- A compilation that is cached is what an access finds, and nothing else happens. -/
theorem access_of_cached {w : Workspace} {c : Compilation} (cached : w.compilation = some c) :
    w.access = (.ok c, w) :=
  Prod.ext_iff.mpr (Task.ends_compilation_cached cached)

theorem Resting.rebuilt {host : Host} {w : Workspace} (hr : w.Resting (.readers host)) :
    Task.Rebuilt (.readers host) [] w w.access.1 w.access.2 :=
  Task.ends_compilation (Task.calm_call _) hr.quiet hr.sound

theorem Resting.turn {host : Host} {w : Workspace} (hr : w.Resting (.readers host)) {action : Action}
    (plain : action.isPlain = true) : (w.turn action).2.Resting (.readers host) := by
  have ends := Task.ends_perform (Task.calm_call (w.restlessness + action.weight + 1)) action plain hr
  exact ends.1

theorem Resting.admits_turn {host : Host} {w : Workspace} (hr : w.Resting (.readers host)) {action : Action}
    (plain : action.isPlain = true) : w.Admits (w.turn action).2 := by
  have ends := Task.ends_perform (Task.calm_call (w.restlessness + action.weight + 1)) action plain hr
  exact ends.2

theorem Resting.run {host : Host} {w : Workspace} (hr : w.Resting (.readers host)) {actions : List Action}
    (plain : ∀ action ∈ actions, action.isPlain = true) : (w.run actions).Resting (.readers host) := by
  induction actions generalizing w with
  | nil => exact hr
  | cons action rest ih =>
    exact ih (hr.turn (plain action List.mem_cons_self))
      fun a hm => plain a (List.mem_cons_of_mem _ hm)

theorem exists_ofSetup (s : Setup) : ∃ bus subscriptions scripts, ofSetup s = { empty s.host with
    reportUnused := s.reportUnused
    hasWatcher := s.hasWatcher
    hasClient := s.hasClient
    disk := .ofList s.files
    bus, subscriptions, scripts } := by
  have listeners : ∀ (all : List (Topic × Listener)) (w : Workspace), ∃ bus,
      all.foldl withListener w = { w with bus } := by
    intro all
    induction all with
    | nil => exact fun w => ⟨w.bus, rfl⟩
    | cons entry rest ih => exact fun w => ih (w.withListener entry)
  have casts : ∀ (all : List Cast) (w : Workspace), ∃ bus subscriptions scripts,
      all.foldl withCast w = { w with bus, subscriptions, scripts } := by
    intro all
    induction all with
    | nil => exact fun w => ⟨w.bus, w.subscriptions, w.scripts, rfl⟩
    | cons c rest ih => exact fun w => ih (w.withCast c)
  rw [ofSetup]
  obtain ⟨bus, listening⟩ := listeners ((if s.hasClient then publishing else []) ++
    Topic.all.map fun t => (t, .observer)) _
  rw [listening]
  exact casts s.cast _

theorem resting_ofSetup (s : Setup)
    (cast : ∀ c ∈ s.cast, Action.arePassive c.script.actions = true) : (ofSetup s).Resting (.readers s.host) := by
  have listeners : ∀ (all : List (Topic × Listener)) (w : Workspace), w.Resting (.readers s.host) →
      (all.foldl withListener w).Resting (.readers s.host) := by
    intro all
    induction all with
    | nil => exact fun _ hr => hr
    | cons entry rest ih => exact fun w hr => ih _ ⟨hr.quiet, hr.sound, hr.phase_eq⟩
  have casts : ∀ (all : List Cast) (w : Workspace), w.Resting (.readers s.host) →
      (∀ c ∈ all, Action.arePassive c.script.actions = true) →
      (all.foldl withCast w).Resting (.readers s.host) := by
    intro all
    induction all with
    | nil => exact fun _ hr _ => hr
    | cons c rest ih =>
      intro w hr passive
      refine ih _ ?_ fun c' hm => passive c' (List.mem_cons_of_mem _ hm)
      have ends := Task.ends_of_soft
        (Task.soft_addListener c.topic c.name c.script (passive c List.mem_cons_self)) hr
      exact ends.1
  refine casts _ _ (listeners _ _ ⟨⟨rfl, ?_⟩, ⟨?_, iff_of_true rfl rfl, ?_, ?_⟩, rfl⟩) cast
  · intro script hm
    cases hm
  · intro file id ht
    cases ht
  · intro c hc
    cases hc
  · intro _ c hc
    cases hc

end Workspace
end GrammarWorkspace
