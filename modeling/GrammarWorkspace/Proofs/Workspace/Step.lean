import GrammarWorkspace.Proofs.Workspace.Drift

/-!
# What the small operations do

Each operation below changes the core of a workspace in a way of its own and leaves the listeners and
the gate as they are. The rules are made to be followed by what comes next: they ask for the
condition to hold in every state that the operation may leave.
-/
namespace GrammarWorkspace

open Work (Ends)

namespace Holdings

variable {h : Holdings} {id : DocumentId}

theorem revise_add {d : Document} {f : Document → Document} (same : (f d).file = d.file) :
    (h.add d).revise h.documents.length f = h.add (f d) := by
  have documents : (h.documents ++ [d]).modify h.documents.length f = h.documents ++ [f d] := by
    apply List.ext_getElem?
    intro i
    rw [List.getElem?_modify]
    by_cases hi : h.documents.length = i
    · subst hi
      simp
    · rcases Nat.lt_or_ge i h.documents.length with hl | hl
      · simp [hi, List.getElem?_append_left hl]
      · have beyond : ∀ e : Document, (h.documents ++ [e])[i]? = none := fun e =>
          List.getElem?_eq_none (by rw [List.length_append, List.length_singleton]; omega)
        rw [beyond, beyond]
        rfl
  simp only [revise, add, documents, same]

theorem revise_of_eq {f : Document → Document} (same : ∀ d, h.document? id = some d → f d = d) :
    h.revise id f = h := by
  have documents : h.documents.modify id f = h.documents := by
    apply List.ext_getElem?
    intro i
    rw [List.getElem?_modify]
    by_cases hi : id = i
    · subst hi
      cases hd : h.documents[id]? with
      | none => simp
      | some d => simp [same d hd]
    · simp [hi]
  simp only [revise, documents]

theorem revise_revise (h : Holdings) (id : DocumentId) (f g : Document → Document) :
    (h.revise id f).revise id g = h.revise id (g ∘ f) := by
  have documents : (h.documents.modify id f).modify id g = h.documents.modify id (g ∘ f) := by
    apply List.ext_getElem?
    intro i
    simp only [List.getElem?_modify]
    by_cases hi : id = i
    · simp [hi, Function.comp_def]
    · simp [hi]
  simp only [revise, documents]

end Holdings

namespace Core

def holding (k : Core) (h : Holdings) : Core := { k with holdings := h }

@[simp] theorem holding_holdings (k : Core) (h : Holdings) : (k.holding h).holdings = h := rfl

@[simp] theorem holding_compilation (k : Core) (h : Holdings) :
    (k.holding h).compilation = k.compilation := rfl

@[simp] theorem holding_self (k : Core) : k.holding k.holdings = k := rfl

def revise (k : Core) (id : DocumentId) (f : Document → Document) : Core :=
  k.holding (k.holdings.revise id f)

@[simp] theorem revise_holdings (k : Core) (id : DocumentId) (f : Document → Document) :
    (k.revise id f).holdings = k.holdings.revise id f := rfl

theorem revise_revise (k : Core) (id : DocumentId) (f g : Document → Document) :
    (k.revise id f).revise id g = k.revise id (g ∘ f) := by
  simp only [revise, holding_holdings, Holdings.revise_revise]
  rfl

theorem revise_add (k : Core) {h : Holdings} {d : Document} {f : Document → Document}
    (same : (f d).file = d.file) :
    (k.holding (h.add d)).revise h.documents.length f = k.holding (h.add (f d)) := by
  rw [revise, holding_holdings, Holdings.revise_add same]
  rfl

def stale (k : Core) : Core := { k with roots := none, compilation := none }

@[simp] theorem stale_holdings (k : Core) : k.stale.holdings = k.holdings := rfl

end Core

structure Workspace.Becomes (w : Workspace) (k : Core) (w' : Workspace) : Prop where
  core_eq : w'.core = k
  gate_eq : w'.gate = w.gate
  outside : w.SameOutside w'

namespace Workspace.Becomes

variable {w w' w'' : Workspace} {k k' : Core} {F : Frame}

theorem refl (w : Workspace) : w.Becomes w.core w := ⟨rfl, rfl, .refl w⟩

theorem trans (h : w.Becomes k w') (h' : w'.Becomes k' w'') : w.Becomes k' w'' :=
  ⟨h'.core_eq, h'.gate_eq.trans h.gate_eq, h.outside.trans h'.outside⟩

theorem holdings_eq (h : w.Becomes k w') : w'.holdings = k.holdings :=
  congrArg Core.holdings h.core_eq

theorem document?_eq (h : w.Becomes k w') (id : DocumentId) :
    w'.document? id = k.holdings.document? id :=
  congrArg (Holdings.document? · id) h.holdings_eq

theorem tracked_eq (h : w.Becomes k w') : w'.tracked = k.holdings.tracked :=
  congrArg Holdings.tracked h.holdings_eq

theorem passed (h : w.Becomes k w') (m : Moment) : w.Becomes k (w'.passed m) :=
  ⟨h.core_eq, h.gate_eq, h.outside.trans (w'.sameOutside_passed m)⟩

theorem quiet (h : w.Becomes k w') (hq : F.Quiet w) : F.Quiet w' := F.quiet_of_same hq h.outside

theorem extra (h : w.Becomes k w') (keeps : w.holdings.Keeps k.holdings) : F.Extra w w' :=
  F.extra_of_keeps h.outside (by rw [h.holdings_eq]; exact keeps)

theorem phase_eq (h : w.Becomes k w') : w'.gate.phase = w.gate.phase := congrArg Gate.phase h.gate_eq

theorem drifts {dropping : List DocumentId} (h : w.Becomes w.core w') (hq : F.Quiet w)
    (hs : w.core.Sound dropping) : w.Drifts F dropping w' :=
  .of_same hq hs h.core_eq h.phase_eq h.outside

end Workspace.Becomes

namespace Task

variable {α : Type} {w w' : Workspace} {k : Core} {id : DocumentId} {file : String}

def tellOpened (call : Calling) (id : DocumentId) (opened : Option Topic) (rest : Task Unit) : Task Unit :=
  match opened with
  | some topic => fire call topic (some id) >>= fun _ => rest
  | none => rest

theorem announce_eq (call : Calling) (id : DocumentId) (isNew hasChanged : Bool) (opened : Option Topic) :
    announce call id isNew hasChanged opened = (do
      if hasChanged then invalidate
      if isNew then fire call .created (some id)
      tellOpened call id opened (if hasChanged then do
        fire call .contentChanged (some id)
        Gate.request (report call)
        else pure ())) := by
  cases hasChanged <;> cases isNew <;> cases opened <;> rfl

theorem ends_observe {Q : Except Fault Unit → Workspace → Prop} (h : w.Becomes k w')
    {o : Observation} (ho : o.isUnpublished = true) (hq : ∀ w'', w.Becomes k w'' → Q (.ok ()) w'') :
    Ends (observe o) w' Q :=
  hq _ ⟨h.core_eq, h.gate_eq, h.outside.trans
    ⟨rfl, rfl, rfl, rfl, fun uri => Workspace.lastPublished_unpublished uri ho w'.record⟩⟩

theorem ends_document {Q : Except Fault Document → Workspace → Prop} (h : w.Becomes k w')
    {d : Document} (hd : k.holdings.document? id = some d) (hq : Q (.ok d) w') :
    Ends (document id) w' Q := by
  have : (w'.document? id).getD default = d := by rw [h.document?_eq, hd]; rfl
  rw [document, Work.ends_bind, Work.ends_get, Work.next_ok, this]
  exact hq

theorem ends_update {Q : Except Fault Unit → Workspace → Prop} (h : w.Becomes k w')
    {f : Document → Document} (hq : ∀ w'', w.Becomes (k.revise id f) w'' → Q (.ok ()) w'') :
    Ends (update id f) w' Q :=
  hq _ ⟨by rw [← h.core_eq]; rfl, h.gate_eq, h.outside.trans ⟨rfl, rfl, rfl, rfl, fun _ => rfl⟩⟩

theorem ends_watch {Q : Except Fault Unit → Workspace → Prop} (h : w.Becomes k w')
    (hq : ∀ w'', w.Becomes k w'' → Q (.ok ()) w'') : Ends (watch file) w' Q := by
  rw [watch, Work.ends_bind, Work.ends_get, Work.next_ok]
  split
  · exact ends_observe h rfl hq
  · exact hq _ h

theorem ends_unwatch {Q : Except Fault Unit → Workspace → Prop} (h : w.Becomes k w')
    (hq : ∀ w'', w.Becomes k w'' → Q (.ok ()) w'') : Ends (unwatch file) w' Q := by
  rw [unwatch, Work.ends_bind, Work.ends_get, Work.next_ok]
  split
  · exact ends_observe h rfl hq
  · exact hq _ h

theorem ends_invalidate_of_rebuilding {Q : Except Fault Unit → Workspace → Prop}
    (h : w.Becomes k w') (phase : w.gate.phase = .rebuilding) (hq : Q (.ok ()) w') :
    Ends invalidate w' Q := by
  have : w'.gate.isRebuilding = true := by rw [Gate.isRebuilding, h.phase_eq, phase]; rfl
  rw [invalidate, Work.ends_bind, Work.ends_get, Work.next_ok, this]
  exact hq

theorem ends_invalidate {Q : Except Fault Unit → Workspace → Prop} (h : w.Becomes k w')
    (phase : w.gate.phase = .idle) (hq : ∀ w'', w.Becomes k.stale w'' → Q (.ok ()) w'') :
    Ends invalidate w' Q := by
  have : w'.gate.isRebuilding = false := by rw [Gate.isRebuilding, h.phase_eq, phase]; rfl
  rw [invalidate, Work.ends_bind, Work.ends_get, Work.next_ok, this]
  exact hq _ ⟨by rw [← h.core_eq]; rfl, h.gate_eq, h.outside.trans ⟨rfl, rfl, rfl, rfl, fun _ => rfl⟩⟩

theorem ends_holdOnServer {Q : Except Fault Unit → Workspace → Prop} (h : w.Becomes k w')
    {d : Document} (hd : k.holdings.document? id = some d)
    (hq : ∀ w'', w.Becomes (k.revise id ({ · with onServer := true })) w'' → Q (.ok ()) w'') :
    Ends (holdOnServer id) w' Q := by
  rw [holdOnServer, Work.ends_bind]
  refine ends_document h hd ?_
  rw [Work.next_ok]
  by_cases hs : d.onServer = true
  · have same : k.revise id ({ · with onServer := true }) = k := by
      rw [Core.revise, Holdings.revise_of_eq, Core.holding_self]
      intro e he
      rw [hd] at he
      cases he
      rw [← hs]
    simp only [hs, Bool.not_true, Bool.false_eq_true, if_false, Work.ends_pure]
    exact hq w' (by rw [same]; exact h)
  · rw [if_pos (by simpa using hs), Work.ends_bind]
    refine ends_update h fun w₁ h₁ => ?_
    rw [Work.next_ok, Work.ends_bind]
    refine ends_document h₁ (d := { d with onServer := true }) ?_ ?_
    · simp [Holdings.document?_revise, hd]
    · rw [Work.next_ok]
      split
      · exact ends_watch h₁ hq
      · exact hq _ h₁

theorem ends_readFile {Q : Except Fault (Option String) → Workspace → Prop} (h : w.Becomes k w')
    (hq : ∀ w'', w.Becomes k w'' →
      Q (k.holdings.stored file) w'') :
    Ends (readFile file) w' Q := by
  have failing : w'.failing = k.holdings.failing := congrArg Holdings.failing h.holdings_eq
  have disk : w'.disk = k.holdings.disk := congrArg Holdings.disk h.holdings_eq
  rw [readFile, Work.ends_bind, Work.ends_get, Work.next_ok, failing, disk]
  cases obstacle : Host.obstacle? k.holdings.failing file with
  | some fault =>
    rw [Holdings.stored_of_obstacle obstacle] at hq
    rw [Work.ends_bind]
    exact ends_observe h rfl hq
  | none =>
    rw [Holdings.stored_of_no_obstacle obstacle] at hq
    rw [Work.ends_bind]
    exact ends_observe h rfl hq

theorem ends_readFile_of_untracked {Q : Except Fault (Option String) → Workspace → Prop}
    (h : w.Becomes k w') (ht : k.holdings.tracked.get? file = none)
    (hq : ∀ w'', w.Becomes k w'' → Q (k.holdings.reading file) w'') : Ends (readFile file) w' Q := by
  refine ends_readFile h fun w'' h'' => ?_
  rw [← Holdings.reading_untracked ht]
  exact hq w'' h''

theorem ends_getOrCreate_of_tracked {Q : Except Fault (DocumentId × Bool) → Workspace → Prop}
    (h : w.Becomes k w') (ht : k.holdings.tracked.get? file = some id) (hq : Q (.ok (id, false)) w') :
    Ends (getOrCreate file) w' Q := by
  rw [← h.tracked_eq] at ht
  simp only [getOrCreate, Work.ends_bind, Work.ends_get, Work.next_ok, ht, Work.ends_pure]
  exact hq

theorem ends_getOrCreate_of_untracked {Q : Except Fault (DocumentId × Bool) → Workspace → Prop}
    (h : w.Becomes k w') (ht : k.holdings.tracked.get? file = none)
    (hq : ∀ w'', w.Becomes (k.holding (k.holdings.add (.new file))) w'' →
      Q (.ok (k.holdings.documents.length, true)) w'') : Ends (getOrCreate file) w' Q := by
  have documents : w'.documents = k.holdings.documents := congrArg Holdings.documents h.holdings_eq
  rw [← h.tracked_eq] at ht
  simp only [getOrCreate, Work.ends_bind, Work.ends_get, Work.next_ok, ht, documents]
  refine hq _ ⟨?_, h.gate_eq, h.outside.trans ⟨rfl, rfl, rfl, rfl, fun _ => rfl⟩⟩
  rw [← h.core_eq]
  rfl

theorem ends_uri_text {Q : Except Fault String → Workspace → Prop} {name : String}
    (hq : ∀ u, Host.uri (.text name) = .ok u → Q (.ok u) w') : Ends (uri (.text name)) w' Q := hq _ rfl

end Task
end GrammarWorkspace
