import GrammarWorkspace.Proofs.Workspace.Reading

/-!
# Sweeping

When all is loaded the server lets go of the documents without a mark. There is a compilation by
then, so listeners that only read change nothing, and the sweep does what it would do alone.
-/
namespace GrammarWorkspace

open Work (Ends)

namespace Holdings

variable {h h₁ : Holdings} {file : String} {id : DocumentId} {dropping done : List DocumentId}

structure Swept (h₁ : Holdings) (dropping done : List DocumentId) (h : Holdings) : Prop where
  later : h₁.Later h
  known : h.Known dropping
  marks_iff : ∀ file, h.Marks file ↔ h₁.Marks file
  tracked_of : ∀ file id, h.tracked.get? file = some id → h₁.tracked.get? file = some id
  held : ∀ file id d, h₁.tracked.get? file = some id → h.document? id = some d →
    d.onServer = true → h.tracked.get? file = some id
  swept : ∀ file id d, id ∈ done → h.tracked.get? file = some id → h.document? id = some d →
    d.isMarked = true ∨ d.onClient = true ∨ d.onServer = false

theorem Swept.start (hk : h.Known dropping) : h.Swept dropping [] h where
  later := .refl h
  known := hk
  marks_iff _ := Iff.rfl
  tracked_of _ _ ht := ht
  held _ _ _ ht _ _ := ht
  swept _ _ _ hm := by cases hm

theorem Swept.skip (s : h₁.Swept dropping done h)
    (spared : ∀ d, h.document? id = some d →
      d.isMarked = true ∨ d.onClient = true ∨ d.onServer = false) :
    h₁.Swept dropping (done ++ [id]) h where
  later := s.later
  known := s.known
  marks_iff := s.marks_iff
  tracked_of := s.tracked_of
  held := s.held
  swept file other d ho ht hd := by
    rcases List.mem_append.mp ho with ho | ho
    · exact s.swept file other d ho ht hd
    · rw [List.mem_singleton.mp ho] at hd
      exact spared d hd

theorem Swept.drop (s : h₁.Swept dropping done h)
    (covered : ∀ file id, h₁.Reaches file → h₁.tracked.get? file = some id → h₁.Marks file)
    {d : Document} (ht : h.tracked.get? file = some id) (hd : h.document? id = some d)
    (hm : d.isMarked = false) (hc : d.onClient = false) (hs : d.onServer = true) :
    h₁.Swept dropping (done ++ [id]) (h.drop file id) where
  later := by
    refine s.later.trans (later_drop ht hd hc hs fun hr => ?_)
    have marked := covered file id (s.later.reaches_iff.mp hr) (s.tracked_of file id ht)
    obtain ⟨id', d', ht', hd', hm'⟩ := (s.marks_iff file).mpr marked
    rw [ht] at ht'
    cases ht'
    rw [hd] at hd'
    cases hd'
    rw [hm] at hm'
    cases hm'
  known := known_drop s.known ht
  marks_iff other := (marks_drop s.known ht hd hm).trans (s.marks_iff other)
  tracked_of other id' ht' := s.tracked_of other id' (tracked_of_drop ht').2
  held other id' d' ht' hd' hs' := by
    rw [document?_drop] at hd'
    by_cases he : id = id'
    · subst he
      obtain ⟨e, -, rfl⟩ := Option.map_eq_some_iff.mp (by rwa [if_pos rfl] at hd')
      cases hs'
    · rw [if_neg he] at hd'
      have held := s.held other id' d' ht' hd' hs'
      rw [tracked_drop, if_neg, held]
      rintro rfl
      rw [ht] at held
      exact he (Option.some.inj held)
  swept other id' d' ho ht' hd' := by
    rw [document?_of_drop s.known ht ht'] at hd'
    obtain ⟨hne, ht'⟩ := tracked_of_drop ht'
    rcases List.mem_append.mp ho with ho | ho
    · exact s.swept other id' d' ho ht' hd'
    · rw [List.mem_singleton.mp ho] at ht'
      exact absurd (s.known.file_unique ht' ht) hne

end Holdings

namespace Task

variable {F : Frame} {call : Calling} {dropping : List DocumentId} {w : Workspace} {id : DocumentId}

/-- The server lets go of a document, which listeners are told; then it is removed unless the client
holds it. -/
theorem ends_releaseOnServer {Q : Except Fault Unit → Workspace → Prop} (calm : Calm F call)
    {d : Document} (hd : w.holdings.document? id = some d) (hon : d.onServer = true) (hq : F.Quiet w)
    (hs : (w.core.revise id ({ · with onServer := false })).Sound dropping)
    (rest : ∀ w₁ w₂, w.Becomes (w.core.revise id ({ · with onServer := false })) w₁ →
      w₁.Drifts F dropping w₂ → (d.onClient = true → Q (.ok ()) w₂) ∧
        (d.onClient = false → Ends (remove call id) w₂ Q)) :
    Ends (releaseOnServer call id) w Q := by
  have hd₁ : (w.core.revise id ({ · with onServer := false })).holdings.document? id =
      some { d with onServer := false } := by simp [Holdings.document?_revise, hd]
  have told : ∀ w₁, w.Becomes (w.core.revise id ({ · with onServer := false })) w₁ →
      Ends (do
        fire call .closedOnServer (some id)
        if !(← document id).isOpen then remove call id) w₁ Q := by
    intro w₁ h₁
    rw [Work.ends_bind]
    refine ends_fire calm (h₁.quiet hq) (by rw [h₁.core_eq]; exact hs) fun w₂ h₂ => ?_
    obtain ⟨d₂, hd₂, lasts⟩ := h₂.core.later.document id _
      (by rw [Workspace.core_holdings, h₁.holdings_eq]; exact hd₁)
    have isOpen : d₂.isOpen = d.onClient := by
      have : d₂.onServer = false := Bool.eq_false_iff.mpr fun h => by cases lasts.onServer_of h
      rw [Document.isOpen, this, lasts.onClient_eq, Bool.or_false]
    rw [Work.next_ok, Work.ends_bind]
    refine ends_document (.refl w₂) hd₂ ?_
    rw [Work.next_ok, isOpen]
    obtain ⟨stays, goes⟩ := rest w₁ w₂ h₁ h₂
    cases hc : d.onClient with
    | true => exact stays hc
    | false => exact goes hc
  rw [releaseOnServer, Work.ends_bind]
  refine ends_document (.refl w) hd ?_
  rw [Work.next_ok, if_pos hon, Work.ends_bind]
  refine ends_update (.refl w) fun w₁ h₁ => ?_
  rw [Work.next_ok, Work.ends_bind]
  refine ends_document h₁ hd₁ ?_
  rw [Work.next_ok]
  split
  · rw [Work.ends_bind]
    exact ends_unwatch h₁ told
  · exact told w₁ h₁

theorem ends_releaseOnServer_of_released {Q : Except Fault Unit → Workspace → Prop} {d : Document}
    (hd : w.holdings.document? id = some d) (hs : d.onServer = false) (hq : Q (.ok ()) w) :
    Ends (releaseOnServer call id) w Q := by
  rw [releaseOnServer, Work.ends_bind]
  refine ends_document (.refl w) hd ?_
  rw [Work.next_ok, hs]
  exact hq

theorem ends_remove {Q : Except Fault Unit → Workspace → Prop} {d : Document} {file : String}
    (hd : w.holdings.document? id = some d) (hf : d.file = file) (ht : file ∈ w.holdings.tracked.keys)
    (rest : ∀ w₁, w.Becomes (w.core.holding (w.holdings.forget file)) w₁ →
      Ends (do invalidate; fire call .closed (some id); Gate.request (report call)) w₁ Q) :
    Ends (remove call id) w Q := by
  subst hf
  have contains : w.tracked.contains d.file = true := Table.contains_iff.mpr ht
  rw [remove, Work.ends_bind]
  refine ends_document (.refl w) hd ?_
  rw [Work.next_ok, Work.ends_bind, Work.ends_get, Work.next_ok, contains]
  exact rest _ ⟨rfl, rfl, ⟨rfl, rfl, rfl, rfl, fun _ => rfl⟩⟩

theorem ends_remove_of_untracked {Q : Except Fault Unit → Workspace → Prop} {d : Document}
    {file : String} (hd : w.holdings.document? id = some d) (hf : d.file = file)
    (ht : file ∉ w.holdings.tracked.keys)
    (hq : Q (.error (.untracked file)) (w.passed (.missing id))) :
    Ends (remove call id) w Q := by
  subst hf
  have absent : w.tracked.contains d.file = false :=
    Bool.eq_false_iff.mpr fun hc => ht (Table.contains_iff.mp hc)
  rw [remove, Work.ends_bind]
  refine ends_document (.refl w) hd ?_
  rw [Work.next_ok, Work.ends_bind, Work.ends_get, Work.next_ok, absent]
  exact hq

theorem ends_request_of_rebuilding {Q : Except Fault Unit → Workspace → Prop} {task : Task Unit}
    (phase : w.gate.phase = .rebuilding)
    (hq : ∀ w', w'.core = w.core → w.SameOutside w' → w'.gate.phase = w.gate.phase →
      Q (.ok ()) w') : Ends (Gate.request task) w Q := by
  rw [Gate.request, Gate.change, Work.ends_bind, Work.ends_modify, Work.next_ok, Gate.flush,
    Work.ends_bind, Gate.read, Work.ends_bind, Work.ends_get, Work.next_ok, Work.ends_pure,
    Work.next_ok, if_neg]
  · exact hq _ rfl ⟨rfl, rfl, rfl, rfl, fun _ => rfl⟩ rfl
  · rintro ⟨-, -, idle⟩
    have : w.gate.phase = .idle := idle
    rw [phase] at this
    cases this

structure Sweeping (F : Frame) (dropping : List DocumentId) (w₁ : Workspace) (done : List DocumentId)
    (w : Workspace) : Prop where
  quiet : F.Quiet w
  core_eq : w.core = w₁.core.holding w.holdings
  phase_eq : w.gate.phase = .rebuilding
  swept : w₁.holdings.Swept dropping done w.holdings
  extra : F.Extra w₁ w

variable {w₁ : Workspace} {done : List DocumentId} {file : String}

theorem ends_drop (calm : Calm F call) (compiled : w₁.compilation.isSome)
    (sound : ∀ id, w₁.core.Sound (id :: dropping))
    (covered : ∀ file id, w₁.holdings.Reaches file → w₁.holdings.tracked.get? file = some id →
      w₁.holdings.Marks file) {d : Document} (s : Sweeping F dropping w₁ done w)
    (ht : w.holdings.tracked.get? file = some id) (hd : w.holdings.document? id = some d)
    (hm : d.isMarked = false) (hc : d.onClient = false) (hs : d.onServer = true) :
    Ends (releaseOnServer call id) w fun r w' =>
      r = .ok () ∧ Sweeping F dropping w₁ (done ++ [id]) w' := by
  have compiled' : w.core.compilation.isSome := by
    rw [s.core_eq]
    exact compiled
  have sound' : ∀ h : Holdings, h.Known (id :: dropping) → (w.core.holding h).Sound (id :: dropping) := by
    intro h hk
    rw [s.core_eq]
    exact ⟨hk, (sound id).synced, (sound id).genuine, fun he => by cases he⟩
  have known : w.holdings.Known (id :: dropping) := s.swept.known.mono (List.subset_cons_self _ _)
  have known' := known_release known
  have file_eq : d.file = file := by
    obtain ⟨e, he, hf, -⟩ := known file id ht
    rw [hd] at he
    cases he
    exact hf
  refine ends_releaseOnServer calm hd hs s.quiet (sound' _ known') fun w₂ w₃ h₂ h₃ => ⟨?_, fun _ => ?_⟩
  · intro hc'
    rw [hc] at hc'
    cases hc'
  have core₃ : w₃.core = w.core.revise id ({ · with onServer := false }) := by
    rw [← h₂.core_eq]
    exact h₃.core.still (by rw [h₂.core_eq]; exact compiled')
  have holdings₃ : w₃.holdings = w.holdings.revise id ({ · with onServer := false }) :=
    congrArg Core.holdings core₃
  have phase₃ : w₃.gate.phase = .rebuilding := (h₃.phase_eq.trans h₂.phase_eq).trans s.phase_eq
  refine ends_remove (d := { d with onServer := false }) ?_ file_eq ?_ fun w₄ h₄ => ?_
  · rw [holdings₃]
    simp [Holdings.document?_revise, hd]
  · rw [holdings₃]
    exact Table.mem_keys_of_get? ht
  have core₄ : w₄.core = w.core.holding (w.holdings.drop file id) := by
    rw [h₄.core_eq, holdings₃, core₃]
    rfl
  rw [Work.ends_bind]
  refine ends_invalidate_of_rebuilding (.refl w₄) (h₄.phase_eq.trans phase₃) ?_
  rw [Work.next_ok, Work.ends_bind]
  have sound₄ : w₄.core.Sound (id :: dropping) := by
    rw [core₄]
    exact sound' _ (Holdings.known_drop known ht)
  have ht₃ : w₃.tracked.get? file = some id := by
    change w₃.holdings.tracked.get? file = some id
    rw [holdings₃]
    exact ht
  have hd₃ : w₃.document? id = some { d with onServer := false } := by
    change w₃.holdings.document? id = _
    rw [holdings₃]
    simp [Holdings.document?_revise, hd]
  refine ends_fire_closed calm h₃.quiet ht₃ hd₃ h₄.outside h₄.holdings_eq sound₄ fun w₅ h₅ extra₅ => ?_
  have core₅ : w₅.core = w.core.holding (w.holdings.drop file id) := by
    rw [← core₄]
    exact h₅.core.still (by rw [core₄]; exact compiled')
  have phase₅ := h₅.phase_eq.trans (h₄.phase_eq.trans phase₃)
  rw [Work.next_ok]
  refine ends_request_of_rebuilding phase₅ fun w₆ core₆ outside₆ phase₆ => ⟨rfl, ?_⟩
  have holdings₆ : w₆.holdings = w.holdings.drop file id := congrArg Core.holdings (core₆.trans core₅)
  have keeps₂ : w.holdings.Keeps (w.core.revise id ({ · with onServer := false })).holdings :=
    Holdings.keeps_revise fun _ _ => rfl
  have keeps₆ : w₅.holdings.Keeps w₆.holdings := by
    rw [show w₆.holdings = w₅.holdings from congrArg Core.holdings core₆]
    exact .refl _
  refine ⟨F.quiet_of_same h₅.quiet outside₆, ?_, phase₆.trans phase₅, ?_, ?_⟩
  · rw [core₆, core₅, holdings₆, s.core_eq]
    rfl
  · rw [holdings₆]
    exact s.swept.drop covered ht hd hm hc hs
  · exact F.trans s.extra (F.trans (h₂.extra keeps₂)
      (F.trans h₃.extra (F.trans extra₅ (F.extra_of_keeps outside₆ keeps₆))))
where
  known_release {h : Holdings} {id : DocumentId} {dropping : List DocumentId}
      (hk : h.Known (id :: dropping)) :
      (h.revise id ({ · with onServer := false })).Known (id :: dropping) :=
    Holdings.known_revise hk (fun _ _ => rfl) (fun _ _ hx => Option.isSome_iff_exists.mp hx)
      fun _ _ _ => Or.inr List.mem_cons_self

/-- The sweep never fails, and drops exactly what has no mark and no other holder. -/
theorem ends_sweep (calm : Calm F call) (hq : F.Quiet w₁) (phase : w₁.gate.phase = .rebuilding)
    (compiled : w₁.compilation.isSome) (known : w₁.holdings.Known dropping)
    (sound : ∀ id, w₁.core.Sound (id :: dropping))
    (covered : ∀ file id, w₁.holdings.Reaches file → w₁.holdings.tracked.get? file = some id →
      w₁.holdings.Marks file) :
    Ends (sweep call) w₁ fun r w' =>
      r = .ok () ∧ Sweeping F dropping w₁ w₁.tracked.values w' := by
  rw [sweep, Work.ends_bind, Work.ends_get, Work.next_ok]
  refine Work.ends_forM _ _ ⟨hq, rfl, phase, .start known, F.refl w₁⟩ ?_
  intro done id rest hall w s
  have listed : id ∈ w₁.tracked.values := by
    rw [hall]
    exact List.mem_append_right _ List.mem_cons_self
  obtain ⟨⟨file, id'⟩, hm, rfl⟩ := List.mem_map.mp listed
  have ht₁ : w₁.holdings.tracked.get? file = some id' := Table.get?_eq_some_iff.mpr hm
  obtain ⟨d₁, hd₁, -⟩ := known file id' ht₁
  obtain ⟨d, hd, -⟩ := s.swept.later.document id' d₁ hd₁
  have skip : (d.isMarked = true ∨ d.onClient = true ∨ d.onServer = false) →
      Sweeping F dropping w₁ (done ++ [id']) w := by
    intro spared
    refine ⟨s.quiet, s.core_eq, s.phase_eq, s.swept.skip fun e he => ?_, s.extra⟩
    rw [hd] at he
    cases he
    exact spared
  rw [Work.ends_bind]
  refine ends_document (.refl w) hd ?_
  rw [Work.next_ok]
  cases hm : d.isMarked with
  | true => exact ⟨rfl, skip (Or.inl hm)⟩
  | false =>
    cases hc : d.onClient with
    | true => exact ⟨rfl, skip (Or.inr (Or.inl hc))⟩
    | false =>
      cases hs : d.onServer with
      | true =>
        exact ends_drop calm compiled sound covered s (s.swept.held file id' d ht₁ hd hs) hd hm hc hs
      | false =>
        refine ends_releaseOnServer_of_released hd hs ⟨rfl, skip (Or.inr (Or.inr hs))⟩

end Task
end GrammarWorkspace
