import GrammarWorkspace.Proofs.Workspace.Perusal
import GrammarWorkspace.Proofs.Workspace.Reentry
import Mathlib.Logic.Function.Basic

/-! What the documents are like whenever listeners may look at them. Each operation is split here into
what it does on its own, which is given as a state, and what comes with telling listeners. -/
namespace GrammarWorkspace

open Work (Ends Along Inside)

namespace Holdings

variable {h h' : Holdings} {id : DocumentId} {file : String} {d : Document} {f : Document → Document}

/-- Tracked documents are filed under their own files, and a document that somebody holds is tracked. -/
structure Registered (h : Holdings) : Prop where
  filed : h.Filed
  held : ∀ id d, h.document? id = some d → d.isOpen = true → h.tracked.get? d.file = some id

namespace Registered

theorem revise (hr : h.Registered)
    (file_eq : ∀ d, h.document? id = some d → (f d).file = d.file)
    (holds : ∀ d, h.document? id = some d → (f d).isOpen = true →
      d.isOpen = true ∨ h.tracked.get? d.file = some id) : (h.revise id f).Registered where
  filed := hr.filed.revise file_eq
  held other d hd ho := by
    rw [document?_revise] at hd
    by_cases he : id = other
    · subst he
      rw [if_pos rfl] at hd
      obtain ⟨e, he, rfl⟩ := Option.map_eq_some_iff.mp hd
      rw [tracked_revise, file_eq e he]
      exact (holds e he ho).elim (hr.held id e he) fun ht => ht
    · rw [if_neg he] at hd
      exact hr.held other d hd ho

theorem add (hr : h.Registered) (new : h.tracked.get? d.file = none) : (h.add d).Registered where
  filed := hr.filed.add
  held id e he ho := by
    rw [tracked_add]
    rcases Nat.lt_trichotomy id h.documents.length with less | rfl | more
    · have old : h.document? id = some e := by
        rw [document?, Holdings.add, List.getElem?_append_left less] at he
        exact he
      have ht := hr.held id e old ho
      rw [if_neg, ht]
      intro same
      rw [← same, new] at ht
      cases ht
    · rw [document?_add_self] at he
      cases he
      exact if_pos rfl
    · have beyond : (h.documents ++ [d]).length ≤ id := by
        rw [List.length_append]
        exact more
      rw [document?, Holdings.add, List.getElem?_eq_none beyond] at he
      cases he

theorem forget (hr : h.Registered) (ht : h.tracked.get? file = some id)
    (hd : h.document? id = some d) (closed : d.isOpen = false) : (h.forget file).Registered where
  filed := hr.filed.forget
  held id' e he ho := by
    have ht' := hr.held id' e he ho
    rw [Holdings.forget, Table.get?_erase, if_neg, ht']
    intro same
    rw [same, ht] at ht'
    cases ht'
    rw [show h.document? id = some e from he] at hd
    cases hd
    rw [ho] at closed
    cases closed

theorem filed?_revise (hr : h.Registered) (ht : h.tracked.get? file = some id)
    (hd : h.document? id = some d) :
    (h.revise id f).filed? = Function.update h.filed? file (some (f d)) := by
  funext other
  by_cases he : other = file
  · subst he
    rw [Function.update_self, filed?_revise_self ht hd]
  · rw [Function.update_of_ne he]
    cases ht' : h.tracked.get? other with
    | none => rw [filed?_of_untracked (h := h.revise id f) ht', filed?_of_untracked ht']
    | some id' =>
      have distinct : id ≠ id' := by
        rintro rfl
        exact he (hr.filed.file_unique ht' ht)
      rw [filed?_of_tracked (h := h.revise id f) ht', filed?_of_tracked ht', document?_revise,
        if_neg distinct]

theorem filed?_add (hr : h.Registered) : (h.add d).filed? = Function.update h.filed? d.file (some d) := by
  funext other
  by_cases he : other = d.file
  · subst he
    rw [Function.update_self, filed?_of_tracked (by rw [tracked_add, if_pos rfl]),
      document?_add_self]
  · rw [Function.update_of_ne he]
    have ht : (h.add d).tracked.get? other = h.tracked.get? other := by
      rw [tracked_add, if_neg fun same => he same.symm]
    cases ht' : h.tracked.get? other with
    | none => rw [filed?_of_untracked (ht.trans ht'), filed?_of_untracked ht']
    | some id =>
      obtain ⟨e, he, -⟩ := hr.filed other id ht'
      rw [filed?_of_tracked (ht.trans ht'), filed?_of_tracked ht', he, document?_add_of_some he]

end Registered

theorem filed?_forget (h : Holdings) (file : String) :
    (h.forget file).filed? = Function.update h.filed? file none := by
  funext other
  by_cases he : other = file
  · subst he
    rw [Function.update_self, filed?_forget_self]
  · rw [Function.update_of_ne he, filed?_forget_other he]

def view {β : Type} (g : Document → β) (h : Holdings) (file : String) : Option β := (h.filed? file).map g

section

variable {β : Type} {g : Document → β}

theorem view_of_tracked (ht : h.tracked.get? file = some id) (hd : h.document? id = some d) :
    h.view g file = some (g d) := by
  rw [view, filed?_of_tracked ht, hd, Option.map_some]

theorem Registered.view_revise (hr : h.Registered) (ht : h.tracked.get? file = some id)
    (hd : h.document? id = some d) :
    (h.revise id f).view g = Function.update (h.view g) file (some (g (f d))) := by
  funext other
  rw [view, hr.filed?_revise ht hd]
  by_cases he : other = file
  · subst he
    simp
  · simp [he, view]

theorem view_revise_of_same (same : ∀ d, h.document? id = some d → g (f d) = g d) :
    (h.revise id f).view g = h.view g := by
  funext file
  cases ht : h.tracked.get? file with
  | none => rw [view, view, filed?_of_untracked (h := h.revise id f) ht, filed?_of_untracked ht]
  | some other =>
    rw [view, view, filed?_of_tracked (h := h.revise id f) ht, filed?_of_tracked ht, document?_revise]
    by_cases he : id = other
    · subst he
      rw [if_pos rfl]
      cases hd : h.document? id with
      | none => rfl
      | some d => simp [same d hd]
    · rw [if_neg he]

theorem view_forget (h : Holdings) (file : String) :
    (h.forget file).view g = Function.update (h.view g) file none := by
  funext other
  rw [view, filed?_forget]
  by_cases he : other = file
  · subst he
    simp
  · simp [he, view]

end

inductive Provides (h : Holdings) (file : String) : DocumentId → Bool → Document → Holdings → Prop
  | found {id : DocumentId} {d : Document} : h.tracked.get? file = some id → h.document? id = some d →
      Provides h file id false d h
  | made : h.tracked.get? file = none →
      Provides h file h.documents.length true (.new file) (h.add (.new file))

namespace Provides

variable {isNew : Bool} {h₁ : Holdings}

theorem tracked_eq (p : h.Provides file id isNew d h₁) : h₁.tracked.get? file = some id := by
  cases p with
  | found ht hd => exact ht
  | made _ =>
    rw [tracked_add]
    exact if_pos rfl

theorem document?_eq (p : h.Provides file id isNew d h₁) : h₁.document? id = some d := by
  cases p with
  | found ht hd => exact hd
  | made new => exact document?_add_self h _

theorem stored_eq (p : h.Provides file id isNew d h₁) : h₁.stored = h.stored := by
  cases p <;> rfl

theorem file_eq (p : h.Provides file id isNew d h₁) (hf : h.Filed) : d.file = file := by
  cases p with
  | found ht hd =>
    obtain ⟨e, he, here⟩ := hf file id ht
    rw [hd] at he
    cases he
    exact here
  | made new => rfl

theorem filed?_eq (p : h.Provides file id isNew d h₁) :
    h.filed? file = if isNew then none else some d := by
  cases p with
  | found ht hd =>
    rw [filed?_of_tracked ht]
    exact hd
  | made new => exact filed?_of_untracked new

theorem text?_eq (p : h.Provides file id isNew d h₁) : h.text? file = d.text := by
  rw [text?_eq_filed?, p.filed?_eq]
  cases p <;> rfl

theorem filed (p : h.Provides file id isNew d h₁) (hf : h.Filed) : h₁.Filed := by
  cases p with
  | found ht hd => exact hf
  | made new => exact hf.add

theorem document?_revise_of_ne (p : h.Provides file id isNew d h₁) {other : DocumentId} {e : Document}
    (apart : other ≠ id) (he : h.document? other = some e) : (h₁.revise id f).document? other = some e := by
  rw [document?_revise, if_neg apart.symm]
  cases p with
  | found ht hd => exact he
  | made new => exact document?_add_of_some he

theorem ne_of_made {other : DocumentId} {e : Document} (p : h.Provides file id true d h₁)
    (he : h.document? other = some e) : other ≠ id := by
  cases p
  exact Nat.ne_of_lt (List.getElem?_eq_some_iff.mp he).1

theorem tracked_of_ne (p : h.Provides file id isNew d h₁) {place : String} {other : DocumentId}
    (apart : other ≠ id) (ht : h₁.tracked.get? place = some other) : h.tracked.get? place = some other := by
  cases p with
  | found _ _ => exact ht
  | made _ =>
    rw [tracked_add] at ht
    split at ht
    · cases ht
      exact absurd rfl apart
    · exact ht

theorem registered (p : h.Provides file id isNew d h₁) (hr : h.Registered) : h₁.Registered := by
  cases p with
  | found ht hd => exact hr
  | made new => exact hr.add new

theorem registered_revise (p : h.Provides file id isNew d h₁) (hr : h.Registered)
    (file_eq : ∀ d, (f d).file = d.file) : (h₁.revise id f).Registered := by
  refine (p.registered hr).revise (fun _ _ => file_eq _) fun e he _ => Or.inr ?_
  rw [p.document?_eq] at he
  cases he
  rw [p.file_eq hr.filed]
  exact p.tracked_eq

theorem filed?_revise (p : h.Provides file id isNew d h₁) (hr : h.Registered) :
    (h₁.revise id f).filed? = Function.update h.filed? file (some (f d)) := by
  rw [(p.registered hr).filed?_revise p.tracked_eq p.document?_eq]
  cases p with
  | found ht hd => rfl
  | made _ =>
    rw [hr.filed?_add (d := .new file)]
    exact Function.update_idem _ _ _

theorem view_eq {β : Type} {g : Document → β} (p : h.Provides file id isNew d h₁) :
    h.view g file = if isNew then none else some (g d) := by
  rw [view, p.filed?_eq]
  cases isNew <;> rfl

theorem view_revise {β : Type} {g : Document → β} (p : h.Provides file id isNew d h₁) (hr : h.Registered) :
    (h₁.revise id f).view g = Function.update (h.view g) file (some (g (f d))) := by
  funext other
  rw [view, p.filed?_revise hr]
  by_cases he : other = file
  · subst he
    simp
  · simp [he, view]

end Provides
end Holdings

def ReadOutcome.of : Except Fault (Option String) → ReadOutcome
  | .ok (some _) => .contents
  | .ok none => .nothing
  | .error _ => .failed

namespace Workspace

def holding (w : Workspace) (h : Holdings) : Workspace :=
  { w with disk := h.disk, failing := h.failing, documents := h.documents, tracked := h.tracked }

@[simp] theorem holdings_holding (w : Workspace) (h : Holdings) : (w.holding h).holdings = h := rfl

def asked (w : Workspace) (reason : Bool) (o : Observation) : Workspace :=
  { w with record := w.record ++ if reason && w.hasWatcher then [o] else [] }

theorem asked_of_not {w : Workspace} {reason : Bool} {o : Observation}
    (h : ¬ (reason && w.hasWatcher) = true) : w.asked reason o = w := by
  rw [asked, if_neg h, List.append_nil]

def outdated (w : Workspace) (changed : Bool) : Workspace :=
  { w with
    roots := if changed && !w.gate.isRebuilding then none else w.roots
    compilation := if changed && !w.gate.isRebuilding then none else w.compilation }

def serverOpened (w : Workspace) (h : Holdings) (id : DocumentId) (d : Document) (u text : String) :
    Workspace :=
  (w.holding (h.revise id fun d => { d with uri := u, text := some text, onServer := true })).asked
    (!d.isOpen) (.watched d.file)

def clientOpened (w : Workspace) (h : Holdings) (id : DocumentId) (d : Document) (u text : String) :
    Workspace :=
  ((w.holding (h.revise id fun d => { d with uri := u, text := some text, onClient := true })).outdated
    (!d.onClient)).asked (!d.onClient && d.onServer) (.unwatched d.file)

def serverClosed (w : Workspace) (id : DocumentId) (d : Document) : Workspace :=
  (w.holding (w.holdings.revise id ({ · with onServer := false }))).asked (!d.onClient)
    (.unwatched d.file)

def clientClosed (w : Workspace) (id : DocumentId) (d : Document) : Workspace :=
  ((w.holding (w.holdings.revise id ({ · with onClient := false }))).asked d.onServer
    (.watched d.file)).outdated true

def forgetting (w : Workspace) (file : String) : Workspace :=
  (w.holding (w.holdings.forget file)).outdated true

section

variable {w : Workspace} {h : Holdings} {id : DocumentId} {file : String} {isNew : Bool} {d : Document}

theorem registered_serverOpened (p : w.holdings.Provides file id isNew d h) (hr : w.holdings.Registered)
    (u text : String) : (w.serverOpened h id d u text).holdings.Registered :=
  p.registered_revise hr fun _ => rfl

theorem registered_clientOpened (p : w.holdings.Provides file id isNew d h) (hr : w.holdings.Registered)
    (u text : String) : (w.clientOpened h id d u text).holdings.Registered :=
  p.registered_revise hr fun _ => rfl

theorem registered_serverClosed (hr : w.holdings.Registered) (id : DocumentId) (d : Document) :
    (w.serverClosed id d).holdings.Registered := by
  apply hr.revise
  · exact fun _ _ => rfl
  · intro e _ ho
    simp only [Document.isOpen, Bool.or_false] at ho ⊢
    exact Or.inl (by rw [ho, Bool.true_or])

theorem registered_clientClosed (hr : w.holdings.Registered) (id : DocumentId) (d : Document) :
    (w.clientClosed id d).holdings.Registered := by
  apply hr.revise
  · exact fun _ _ => rfl
  · intro e _ ho
    simp only [Document.isOpen, Bool.false_or] at ho ⊢
    exact Or.inl (by rw [ho, Bool.or_true])

theorem document?_serverOpened (p : w.holdings.Provides file id isNew d h) (u text : String) :
    (w.serverOpened h id d u text).holdings.document? id =
      some { d with uri := u, text := some text, onServer := true } := by
  refine (h.document?_revise id id _).trans ?_
  rw [if_pos rfl, p.document?_eq, Option.map_some]

theorem document?_clientOpened (p : w.holdings.Provides file id isNew d h) (u text : String) :
    (w.clientOpened h id d u text).holdings.document? id =
      some { d with uri := u, text := some text, onClient := true } := by
  refine (h.document?_revise id id _).trans ?_
  rw [if_pos rfl, p.document?_eq, Option.map_some]

theorem document?_serverClosed (hd : w.holdings.document? id = some d) :
    (w.serverClosed id d).holdings.document? id = some { d with onServer := false } := by
  refine (w.holdings.document?_revise id id _).trans ?_
  rw [if_pos rfl, hd, Option.map_some]

theorem document?_clientClosed (hd : w.holdings.document? id = some d) :
    (w.clientClosed id d).holdings.document? id = some { d with onClient := false } := by
  refine (w.holdings.document?_revise id id _).trans ?_
  rw [if_pos rfl, hd, Option.map_some]

theorem isRebuilding_of_idle (phase : w.gate.phase = .idle) : w.gate.isRebuilding = false := by
  rw [Gate.isRebuilding, phase]
  rfl

theorem core_outdated (phase : w.gate.phase = .idle) (changed : Bool) :
    (w.outdated changed).core = if changed then w.core.stale else w.core := by
  cases changed with
  | false => rfl
  | true =>
    simp only [outdated, isRebuilding_of_idle phase, Bool.not_false, Bool.and_true, if_true]
    rfl

theorem core_clientClosed (phase : w.gate.phase = .idle) (id : DocumentId) (d : Document) :
    (w.clientClosed id d).core = (w.core.revise id ({ · with onClient := false })).stale :=
  core_outdated (w := (w.holding (w.holdings.revise id ({ · with onClient := false }))).asked d.onServer
    (.watched d.file)) phase true

theorem core_clientOpened (phase : w.gate.phase = .idle) (h : Holdings) (id : DocumentId) (d : Document)
    (u text : String) : (w.clientOpened h id d u text).core =
      if d.onClient then (w.core.holding h).revise id fun d => { d with uri := u, text := some text, onClient := true }
      else ((w.core.holding h).revise id fun d => { d with uri := u, text := some text, onClient := true }).stale := by
  refine Eq.trans (core_outdated (w := w.holding (h.revise id
    fun d => { d with uri := u, text := some text, onClient := true })) phase (!d.onClient)) ?_
  cases d.onClient <;> rfl

end

end Workspace

namespace Task

variable {call : Calling} {w : Workspace} {id : DocumentId} {file : String} {d : Document}
  {Q : Except Fault Unit → Workspace → Prop}

theorem ends_update_iff {f : Document → Document} :
    Ends (update id f) w Q ↔ Q (.ok ()) (w.holding (w.holdings.revise id f)) := Iff.rfl

theorem ends_document_of {Q : Except Fault Document → Workspace → Prop}
    (hd : w.holdings.document? id = some d) : Ends (document id) w Q ↔ Q (.ok d) w := by
  rw [ends_document_iff, show w.document? id = some d from hd, Option.getD_some]

theorem ends_when_bind {α : Type} {reason : Bool} {task : Task Unit} {next : Unit → Task α}
    {Q : Except Fault α → Workspace → Prop} :
    Ends (if reason = true then task >>= next else next ()) w Q ↔
      Ends (if reason = true then task else pure ()) w (Work.Next next Q) := by
  cases reason <;> simp

theorem ends_watch_iff {reason : Bool} :
    Ends (if reason then watch file else pure ()) w Q ↔ Q (.ok ()) (w.asked reason (.watched file)) := by
  by_cases asks : (reason && w.hasWatcher) = true
  · obtain ⟨rfl, watcher⟩ := Bool.and_eq_true_iff.mp asks
    simp [watch, observe, watcher, Workspace.asked]
  · rw [Workspace.asked_of_not asks]
    cases reason
    · simp
    · simp_all [watch]

theorem ends_unwatch_iff {reason : Bool} :
    Ends (if reason then unwatch file else pure ()) w Q ↔
      Q (.ok ()) (w.asked reason (.unwatched file)) := by
  by_cases asks : (reason && w.hasWatcher) = true
  · obtain ⟨rfl, watcher⟩ := Bool.and_eq_true_iff.mp asks
    simp [unwatch, observe, watcher, Workspace.asked]
  · rw [Workspace.asked_of_not asks]
    cases reason
    · simp
    · simp_all [unwatch]

theorem ends_invalidate_iff : Ends invalidate w Q ↔ Q (.ok ()) (w.outdated true) := by
  unfold invalidate Workspace.outdated
  by_cases rebuilding : w.gate.isRebuilding = true <;> simp [rebuilding]

theorem ends_readFile_iff {Q : Except Fault (Option String) → Workspace → Prop} :
    Ends (readFile file) w Q ↔ Q (w.holdings.stored file)
      (w.noting (.read file (.of (w.holdings.stored file)))) := by
  rw [readFile, Work.ends_bind, Work.ends_get, Work.next_ok]
  cases obstacle : Host.obstacle? w.failing file with
  | some fault =>
    rw [Holdings.stored_of_obstacle obstacle]
    exact Iff.rfl
  | none =>
    rw [show w.holdings.stored file = .ok ((w.disk.get? file).bind Host.contents) from
      Holdings.stored_of_no_obstacle obstacle]
    cases (w.disk.get? file).bind Host.contents <;> exact Iff.rfl

theorem ends_readFile_of {Q : Except Fault (Option String) → Workspace → Prop}
    (h : ∀ outcome, Q (w.holdings.stored file) (w.noting (.read file outcome))) :
    Ends (readFile file) w Q := ends_readFile_iff.mpr (h _)

theorem ends_getOrCreate_iff_of_untracked {Q : Except Fault (DocumentId × Bool) → Workspace → Prop}
    (ht : w.holdings.tracked.get? file = none) : Ends (getOrCreate file) w Q ↔
      Q (.ok (w.documents.length, true)) (w.holding (w.holdings.add (.new file))) := by
  rw [getOrCreate, Work.ends_bind, Work.ends_get, Work.next_ok, show w.tracked.get? file = none from ht]
  exact Iff.rfl

theorem ends_getOrCreate_of {Q : Except Fault (DocumentId × Bool) → Workspace → Prop}
    (filed : w.holdings.Filed)
    (h : ∀ id isNew d h₁, w.holdings.Provides file id isNew d h₁ → Q (.ok (id, isNew)) (w.holding h₁)) :
    Ends (getOrCreate file) w Q := by
  cases ht : w.holdings.tracked.get? file with
  | none => exact (ends_getOrCreate_iff_of_untracked ht).mpr (h _ true _ _ (.made ht))
  | some id =>
    obtain ⟨d, hd, -⟩ := filed file id ht
    have here : w.tracked.get? file = some id := ht
    rw [getOrCreate, Work.ends_bind, Work.ends_get, Work.next_ok, here]
    exact h id false d w.holdings (.found ht hd)

theorem ends_holdOnServer_of (hd : w.holdings.document? id = some d) :
    Ends (holdOnServer id) w Q ↔ Q (.ok ())
      ((w.holding (w.holdings.revise id ({ · with onServer := true }))).asked (!d.isOpen)
        (.watched d.file)) := by
  rw [holdOnServer, Work.ends_bind, ends_document_of hd, Work.next_ok]
  by_cases hs : d.onServer = true
  · have same : w.holdings.revise id ({ · with onServer := true }) = w.holdings := by
      apply Holdings.revise_of_eq
      intro e he
      rw [hd] at he
      cases he
      rw [← hs]
    rw [same, Workspace.asked_of_not (by simp [Document.isOpen, hs])]
    simp [hs, Workspace.holding, Workspace.holdings]
  · have held : (w.holding (w.holdings.revise id ({ · with onServer := true }))).holdings.document? id =
        some { d with onServer := true } := by simp [Holdings.document?_revise, hd]
    rw [if_pos (by simp [hs]), Work.ends_bind, ends_update_iff, Work.next_ok, Work.ends_bind,
      ends_document_of held, Work.next_ok, ends_watch_iff]
    simp [Document.isOpen, hs]

theorem ends_holdOnClient_of (hd : w.holdings.document? id = some d) :
    Ends (holdOnClient id) w Q ↔ Q (.ok ())
      (((w.holding (w.holdings.revise id ({ · with onClient := true }))).outdated (!d.onClient)).asked
        (!d.onClient && d.onServer) (.unwatched d.file)) := by
  rw [holdOnClient, Work.ends_bind, ends_document_of hd, Work.next_ok]
  by_cases hc : d.onClient = true
  · have same : w.holdings.revise id ({ · with onClient := true }) = w.holdings := by
      apply Holdings.revise_of_eq
      intro e he
      rw [hd] at he
      cases he
      rw [← hc]
    rw [same, Workspace.asked_of_not (by simp [hc])]
    simp [hc, Workspace.holding, Workspace.holdings, Workspace.outdated]
  · have held : ((w.holding (w.holdings.revise id ({ · with onClient := true }))).outdated
        true).holdings.document? id = some { d with onClient := true } := by
      change (w.holdings.revise id _).document? id = _
      simp [Holdings.document?_revise, hd]
    rw [if_pos (by simp [hc]), Work.ends_bind, ends_update_iff, Work.next_ok, Work.ends_bind,
      ends_invalidate_iff, Work.next_ok, Work.ends_bind, ends_document_of held, Work.next_ok,
      ends_unwatch_iff]
    simp [hc]

theorem ends_writeOnServer {h : Holdings} {u text : String} (hd : h.document? id = some d) :
    Ends (do update id ({ · with uri := u, text := some text }); holdOnServer id) (w.holding h) Q ↔
      Q (.ok ()) (w.serverOpened h id d u text) := by
  have written : (w.holding (h.revise id
      ({ · with uri := u, text := some text }))).holdings.document? id =
        some { d with uri := u, text := some text } := by simp [Holdings.document?_revise, hd]
  rw [Work.ends_bind, ends_update_iff, Work.next_ok]
  refine (ends_holdOnServer_of written).trans ?_
  exact Iff.of_eq (congrArg (fun h => Q (.ok ()) ((w.holding h).asked _ _))
    (Holdings.revise_revise h id _ _))

theorem ends_writeOnClient {h : Holdings} {u text : String} (hd : h.document? id = some d) :
    Ends (do update id ({ · with uri := u, text := some text }); holdOnClient id) (w.holding h) Q ↔
      Q (.ok ()) (w.clientOpened h id d u text) := by
  have written : (w.holding (h.revise id
      ({ · with uri := u, text := some text }))).holdings.document? id =
        some { d with uri := u, text := some text } := by simp [Holdings.document?_revise, hd]
  rw [Work.ends_bind, ends_update_iff, Work.next_ok]
  refine (ends_holdOnClient_of written).trans ?_
  exact Iff.of_eq (congrArg (fun h => Q (.ok ()) (((w.holding h).outdated _).asked _ _))
    (Holdings.revise_revise h id _ _))

def letGo (call : Calling) (topic : Topic) (id : DocumentId) : Task Unit := do
  fire call topic (some id)
  if !(← document id).isOpen then remove call id

/-- Tell of what has happened to a document, after the compilation has been dropped if need be. -/
def tell (call : Calling) (id : DocumentId) (isNew hasChanged : Bool) (opened : Option Topic) :
    Task Unit := do
  if isNew then fire call .created (some id)
  tellOpened call id opened (if hasChanged then do
    fire call .contentChanged (some id)
    Gate.request (report call)
    else pure ())

theorem along_tell {A T : Workspace → Workspace → Prop} [IsPreorder Workspace A] (inside : Inside A T)
    {isNew hasChanged : Bool} {opened : Option Topic} (created : Along A (fire call .created (some id)))
    (fires : ∀ topic ∈ opened, Along A (fire call topic (some id)))
    (changed : Along A (fire call .contentChanged (some id))) (requests : Along T (Gate.request (report call))) :
    Along T (tell call id isNew hasChanged opened) := by
  have last : Along T (if hasChanged then do
      fire call .contentChanged (some id)
      Gate.request (report call)
      else pure ()) := by
    cases hasChanged with
    | false => exact (Work.along_pure ()).mono fun _ _ => inside.widen
    | true => exact inside.bind_before changed fun _ => requests
  have middle : Along T (tellOpened call id opened (if hasChanged then do
      fire call .contentChanged (some id)
      Gate.request (report call)
      else pure ())) := by
    cases opened with
    | none => exact last
    | some topic => exact inside.bind_before (fires topic rfl) fun _ => last
  cases isNew with
  | false => exact middle
  | true => exact inside.bind_before created fun _ => middle

/-- Letting go is told of, and then it is seen whether anybody still holds the document. -/
theorem ends_letGo_of {topic : Topic} {P : Document → Workspace → Prop}
    (fired : Ends (fire call topic (some id)) w fun r w' =>
      r = .ok () ∧ ∃ d, w'.holdings.document? id = some d ∧ P d w')
    (stays : ∀ d w', P d w' → d.isOpen = true → Q (.ok ()) w')
    (goes : ∀ d w', P d w' → w'.holdings.document? id = some d → d.isOpen = false →
      Ends (remove call id) w' Q) : Ends (letGo call topic id) w Q := by
  apply fired.bind
  · rintro ⟨⟩ w' ⟨-, d, hd, hp⟩
    rw [Work.ends_bind, ends_document_of hd, Work.next_ok]
    cases ho : d.isOpen with
    | true => exact stays d w' hp ho
    | false => exact goes d w' hp hd ho
  · rintro _ _ ⟨failed, -⟩
    cases failed

theorem ends_announce_iff {isNew hasChanged : Bool} {opened : Option Topic} :
    Ends (announce call id isNew hasChanged opened) w Q ↔
      Ends (tell call id isNew hasChanged opened) (w.outdated hasChanged) Q := by
  rw [announce_eq]
  cases hasChanged with
  | false => exact Iff.rfl
  | true =>
    simp only [if_true]
    rw [Work.ends_bind, ends_invalidate_iff]
    exact Iff.rfl

theorem ends_releaseOnServer_iff (hd : w.holdings.document? id = some d) (hs : d.onServer = true) :
    Ends (releaseOnServer call id) w Q ↔
      Ends (letGo call .closedOnServer id) (w.serverClosed id d) Q := by
  have here : (w.holding (w.holdings.revise id ({ · with onServer := false }))).holdings.document? id =
      some { d with onServer := false } := by
    rw [Workspace.holdings_holding, Holdings.document?_revise, if_pos rfl, hd, Option.map_some]
  rw [releaseOnServer, Work.ends_bind, ends_document_of hd, Work.next_ok, if_pos hs, Work.ends_bind,
    ends_update_iff, Work.next_ok, Work.ends_bind, ends_document_of here, Work.next_ok]
  dsimp only
  rw [ends_when_bind, ends_unwatch_iff]
  exact Iff.rfl

theorem ends_releaseOnServer_of (released : Q (.ok ()) w)
    (held : ∀ d, w.holdings.document? id = some d → d.onServer = true →
      Ends (letGo call .closedOnServer id) (w.serverClosed id d) Q) :
    Ends (releaseOnServer call id) w Q := by
  by_cases hs : ((w.document? id).getD default).onServer = true
  · have hd := document?_of_ne (p := Document.onServer) hs rfl
    generalize (w.document? id).getD default = d at hd hs
    exact (ends_releaseOnServer_iff hd hs).mpr (held d hd hs)
  · rw [releaseOnServer, Work.ends_bind, ends_document_iff, Work.next_ok, if_neg hs]
    exact released

theorem ends_closeOnClient_of {u : String} (filed : w.holdings.Filed)
    (unnamed : ∀ fault, w.host.fileName (.text u) = .error fault → Q (.error fault) w)
    (unheld : ∀ file, w.host.fileName (.text u) = .ok file →
      (∀ d, w.holdings.filed? file = some d → d.onClient = false) → Q (.ok ()) w)
    (held : ∀ file id d, w.host.fileName (.text u) = .ok file →
      w.holdings.tracked.get? file = some id → w.holdings.document? id = some d → d.file = file →
        d.onClient = true → Ends (letGo call .closedOnClient id) (w.clientClosed id d) Q) :
    Ends (closeOnClient call u) w Q := by
  rw [closeOnClient]
  refine ends_find unnamed fun file hf => ?_
  cases ht : w.tracked.get? file with
  | none =>
    apply unheld file hf
    intro d tracked
    rw [Holdings.filed?_of_untracked ht] at tracked
    cases tracked
  | some id =>
    obtain ⟨d, hd, here⟩ := filed file id ht
    dsimp only
    rw [Work.ends_bind, ends_document_of hd, Work.next_ok]
    by_cases hc : d.onClient = true
    · rw [if_pos hc, Work.ends_bind, ends_update_iff, Work.next_ok]
      rw [ends_when_bind, ends_watch_iff, Work.next_ok, Work.ends_bind, ends_invalidate_iff]
      exact held file id d hf ht hd here hc
    · rw [if_neg hc]
      apply unheld file hf
      intro e tracked
      rw [Holdings.filed?_of_tracked ht, hd] at tracked
      cases tracked
      exact Bool.eq_false_iff.mpr hc

theorem ends_remove_of (hd : w.holdings.document? id = some d)
    (gone : w.holdings.tracked.get? d.file = none → Q (.error (.untracked d.file)) (w.passed (.missing id)))
    (there : ∀ other, w.holdings.tracked.get? d.file = some other →
      Ends (do fire call .closed (some id); Gate.request (report call)) (w.forgetting d.file) Q) :
    Ends (remove call id) w Q := by
  rw [ends_remove_iff hd]
  by_cases ht : w.tracked.contains d.file = true
  · obtain ⟨other, ht'⟩ := Table.mem_keys_iff.mp (Table.contains_iff.mp ht)
    rw [if_pos ht, Work.ends_bind, ends_invalidate_iff]
    exact there other ht'
  · rw [if_neg ht]
    apply gone
    rw [Table.get?_eq_none_iff, ← Table.contains_iff]
    exact ht

theorem ends_openOnServer_of {locator : Locator}
    {Q : Except Fault (Option DocumentId) → Workspace → Prop} (filed : w.holdings.Filed)
    (unnamed : ∀ fault, w.host.fileName locator = .error fault → Q (.error fault) w)
    (unread : ∀ file r outcome, w.host.fileName locator = .ok file →
      (∀ text, w.holdings.stored file ≠ .ok (some text)) → Q r (w.noting (.read file outcome)))
    (opened : ∀ file text outcome id isNew d h u, w.host.fileName locator = .ok file →
      Host.uri locator = .ok u → w.holdings.stored file = .ok (some text) →
      w.holdings.Provides file id isNew d h →
        Ends (tell call id isNew (d.text ≠ some text)
            (if d.onServer then none else some .openedOnServer))
          (((w.noting (.read file outcome)).serverOpened h id d u text).outdated (d.text ≠ some text))
          fun r w' => Q (r.map fun _ => some id) w') :
    Ends (openOnServer call locator) w Q := by
  rw [openOnServer]
  refine ends_fileName unnamed fun file hf => ?_
  obtain ⟨u, hu⟩ := uri_of_fileName hf
  rw [Work.ends_bind]
  refine ends_readFile_of fun outcome => ?_
  cases hs : w.holdings.stored file with
  | error fault => exact unread file _ outcome hf fun text found => by rw [hs] at found; cases found
  | ok found =>
    cases found with
    | none => exact unread file _ outcome hf fun text found => by rw [hs] at found; cases found
    | some text =>
      rw [Work.next_ok]
      dsimp only
      rw [Work.ends_bind]
      apply ends_getOrCreate_of (w := w.noting _) filed
      intro id isNew d h p
      have read : Host.uri locator = .ok u := hu
      rw [Work.next_ok]
      dsimp only
      rw [Work.ends_bind, ends_document_of (w := (w.noting _).holding h) p.document?_eq, Work.next_ok,
        uri, read, Work.ends_bind, Work.ends_ofExcept, Work.next_ok, ← bind_assoc, Work.ends_bind,
        ends_writeOnServer p.document?_eq, Work.next_ok, bind_pure_comp, Work.ends_map,
        ends_announce_iff]
      exact opened file text outcome id isNew d h u hf hu hs p

theorem ends_updateOnClient_of {u text : String} (filed : w.holdings.Filed)
    (unnamed : ∀ fault, w.host.fileName (.text u) = .error fault → Q (.error fault) w)
    (opened : ∀ file id isNew d h, w.host.fileName (.text u) = .ok file →
      w.holdings.Provides file id isNew d h →
        Ends (tell call id isNew (d.text ≠ some text)
            (if d.onClient then none else some .openedOnClient))
          ((w.clientOpened h id d u text).outdated (d.text ≠ some text)) Q) :
    Ends (updateOnClient call u text) w Q := by
  rw [updateOnClient]
  refine ends_fileName unnamed fun file hf => ?_
  rw [Work.ends_bind]
  apply ends_getOrCreate_of filed
  intro id isNew d h p
  rw [Work.next_ok]
  dsimp only
  rw [Work.ends_bind, ends_document_of (w := w.holding h) p.document?_eq, Work.next_ok, ← bind_assoc,
    Work.ends_bind, ends_writeOnClient p.document?_eq, Work.next_ok, ends_announce_iff]
  exact opened file id isNew d h hf p

def give (id : DocumentId) : Task (Option String) := do
  update id ({ · with isMarked := true })
  return (← document id).text

theorem ends_give_of {Q : Except Fault (Option String) → Workspace → Prop}
    (hd : w.holdings.document? id = some d) : Ends (give id) w Q ↔
      Q (.ok d.text) (w.holding (w.holdings.revise id ({ · with isMarked := true }))) := by
  have marked : (w.holding (w.holdings.revise id ({ · with isMarked := true }))).holdings.document? id =
      some { d with isMarked := true } := by
    rw [Workspace.holdings_holding, Holdings.document?_revise, if_pos rfl, hd, Option.map_some]
  rw [give, Work.ends_bind, ends_update_iff, Work.next_ok, Work.ends_bind, ends_document_of marked,
    Work.next_ok]
  exact Iff.rfl

/-- The compiler is given the text of a document, or the server has to open one for it. -/
theorem ends_readForCompiler_of {Q : Except Fault (Option String) → Workspace → Prop}
    (tracked : ∀ id, w.holdings.tracked.get? file = some id → Ends (give id) w Q)
    (unread : (∀ text, w.holdings.stored file ≠ .ok (some text)) →
      Q (w.holdings.stored file) (w.noting (.read file (.of (w.holdings.stored file)))))
    (opened : ∀ text u, Host.uri (.text file) = .ok u → w.holdings.tracked.get? file = none →
      w.holdings.stored file = .ok (some text) →
        Ends (do
            fire call .created (some w.documents.length)
            fire call .openedOnServer (some w.documents.length)
            give w.documents.length)
          ((w.noting (.read file .contents)).serverOpened (w.holdings.add (.new file))
            w.documents.length (.new file) u text) Q) :
    Ends (readForCompiler call file) w Q := by
  rw [readForCompiler, Work.ends_bind, Work.ends_get, Work.next_ok]
  cases ht : w.tracked.get? file with
  | some id => exact tracked id ht
  | none =>
    dsimp only
    rw [Work.ends_bind, ends_readFile_iff]
    rcases hs : w.holdings.stored file with fault | _ | text
    · have failed := unread fun text read => by rw [hs] at read; cases read
      rw [hs] at failed
      exact failed
    · have missing := unread fun text read => by rw [hs] at read; cases read
      rw [hs] at missing
      exact missing
    · rw [Work.next_ok]
      dsimp only [ReadOutcome.of]
      rw [Work.ends_bind]
      let w₁ := w.noting (.read file .contents)
      have new : w₁.holdings.tracked.get? file = none := ht
      have made : (w₁.holdings.add (.new file)).document? w₁.documents.length = some (.new file) :=
        Holdings.document?_add_self w₁.holdings _
      rw [ends_getOrCreate_iff_of_untracked (w := w₁) new, Work.next_ok]
      dsimp only
      rw [Work.ends_bind]
      obtain ⟨u, hu⟩ : ∃ u, Host.uri (.text file) = .ok u := ⟨_, rfl⟩
      rw [uri, hu, Work.ends_ofExcept, Work.next_ok, ← bind_assoc, Work.ends_bind,
        ends_writeOnServer made, Work.next_ok]
      exact opened text u hu new hs

theorem along_readForCompiler {R : Workspace → Workspace → Prop} [IsPreorder Workspace R]
    (marks : ∀ id, Along R (update id ({ · with isMarked := true })))
    (reads : ∀ (w : Workspace) outcome, R w (w.noting (.read file outcome)))
    (opens : ∀ (w : Workspace) text u, Host.uri (.text file) = .ok u →
      w.holdings.tracked.get? file = none → w.holdings.stored file = .ok (some text) →
        Ends (do
            fire call .created (some w.documents.length)
            fire call .openedOnServer (some w.documents.length))
          (w.serverOpened (w.holdings.add (.new file)) w.documents.length (.new file) u text)
          fun _ w' => R w w') :
    Along R (readForCompiler call file) := by
  have gives (id : DocumentId) : Along R (give id) :=
    (marks id).bind fun _ => (along_document id).bind fun _ => Work.along_pure _
  intro w
  apply ends_readForCompiler_of
  · exact fun id _ => gives id w
  · exact fun _ => reads w _
  · intro text u hu new hs
    have read := reads w .contents
    rw [← bind_assoc]
    apply (opens (w.noting (.read file .contents)) text u hu new hs).bind
    · exact fun _ w₂ h₂ => (gives _ w₂).mono fun _ _ h₃ => trans_of R (trans_of R read h₂) h₃
    · exact fun _ _ h₂ => trans_of R read h₂

end Task

namespace Workspace

/-- The file and the text that an action gives its document. The server gives the text of the file, the
client a text of its own. -/
def given? (w : Workspace) : Action → Option (String × String)
  | .openOnServer locator =>
    match w.host.fileName locator with
    | .ok file =>
      match w.holdings.stored file with
      | .ok (some text) => some (file, text)
      | _ => none
    | .error _ => none
  | .openOnClient u text => (w.host.fileName (.text u)).toOption.map (·, text)
  | .changeOnClient u texts =>
    texts.getLast?.bind fun text => (w.host.fileName (.text u)).toOption.map (·, text)
  | _ => none

variable {w : Workspace} {file text : String}

theorem given?_openOnServer_iff {locator : Locator} : w.given? (.openOnServer locator) = some (file, text) ↔
    w.host.fileName locator = .ok file ∧ w.holdings.stored file = .ok (some text) := by
  rw [given?]
  cases w.host.fileName locator with
  | error fault => simp
  | ok file' =>
    simp only [Except.ok.injEq]
    by_cases same : file' = file
    · subst same
      rcases w.holdings.stored file' with fault | _ | text' <;> simp
    · rcases w.holdings.stored file' with fault | _ | text' <;> simp [same]

theorem given?_openOnServer_eq_none {locator : Locator} (unread : ∀ file, w.host.fileName locator = .ok file →
    ∀ text, w.holdings.stored file ≠ .ok (some text)) : w.given? (.openOnServer locator) = none := by
  rw [Option.eq_none_iff_forall_ne_some]
  rintro ⟨file, text⟩ given
  obtain ⟨named, read⟩ := given?_openOnServer_iff.mp given
  exact unread file named text read

theorem given?_changeOnClient (u : String) (texts : List String) : w.given? (.changeOnClient u texts) =
    texts.getLast?.bind fun text => w.given? (.openOnClient u text) := rfl

theorem given?_openOnClient_iff {u text' : String} : w.given? (.openOnClient u text') = some (file, text) ↔
    w.host.fileName (.text u) = .ok file ∧ text' = text := by
  rw [given?]
  cases w.host.fileName (.text u) <;> simp [Except.toOption]

theorem given?_openOnClient_eq_none {u : String} {fault : Fault}
    (unnamed : w.host.fileName (.text u) = .error fault) (text : String) :
    w.given? (.openOnClient u text) = none := by
  rw [given?, unnamed]
  rfl

end Workspace
end GrammarWorkspace
