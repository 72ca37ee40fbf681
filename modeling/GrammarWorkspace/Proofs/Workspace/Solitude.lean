import GrammarWorkspace.Proofs.Workspace.Client
import GrammarWorkspace.Proofs.Workspace.Tallying
import Mathlib.Data.List.Nodup

/-!
# The client alone

With the client as the only listener nothing comes in the way of a rebuild. It marks the roots, reads what
they reach, and then clears one document after the other that it has not come across.
-/
namespace GrammarWorkspace

open Grammar (Compilation)
open Work (Ends Along Keeping)

def Observation.notices? : Observation → Option (String × List Notice)
  | .published uri notices => some (uri, notices)
  | _ => none

/-- The server alone holds the document, and the compilation in progress has not come across it. -/
def Document.isStray (d : Document) : Bool := !d.isMarked && !d.onClient && d.onServer

theorem Holdings.Filed.nodup_values {h : Holdings} (filed : h.Filed) : h.tracked.values.Nodup := by
  apply List.Nodup.map_on
  · rintro ⟨file, id⟩ here ⟨other, id'⟩ there same
    cases same
    rw [filed.file_unique (Table.get?_eq_some_iff.mpr here) (Table.get?_eq_some_iff.mpr there)]
  · exact List.Nodup.of_map Prod.fst h.tracked.nodup

namespace Scene

def published (v : Scene) : List (String × List Notice) := v.record.filterMap Observation.notices?

def departed (v v' : Scene) : List Document := v.documents.filter fun d => d.file ∉ v'.documents.map Document.file

end Scene

namespace Workspace

def published (w : Workspace) : List (String × List Notice) := w.scene.published

def strays (w : Workspace) (id : DocumentId) : Bool := (w.document? id).any Document.isStray

/-- What is observed when listeners are told of a document. The client is sent an empty list for one that
is closed. -/
def hearsay (w : Workspace) (topic : Topic) (d : Document) : List Observation :=
  (if topic = .closed then [.published d.uri []] else []) ++
    [.happened topic d.file d.onClient d.onServer (w.tracked.contains d.file)]

def heard (w : Workspace) (topic : Topic) (id : DocumentId) : Workspace :=
  let record := w.record ++ w.hearsay topic ((w.document? id).getD default)
  { w with
    record
    history := w.history ++
      [⟨.telling topic (some id), w.scene⟩, ⟨.told topic (some id), { w.scene with record }⟩] }

structure Solo (w : Workspace) : Prop extends w.Attended where
  subscriptions_eq : w.subscriptions = {}
  filed : w.holdings.Filed

structure Quietly (w w' : Workspace) : Prop where
  record : w.record <+: w'.record
  news : ∃ news, w'.history = w.history ++ news ∧ ∀ p ∈ news, p.moment.isUpdate = false

variable {w w' w'' : Workspace} {topic : Topic} {id : DocumentId} {d : Document}

theorem Solo.of_same (solo : w.Solo) (bus : w'.bus = w.bus) (scripts : w'.scripts = w.scripts)
    (subscriptions : w'.subscriptions = w.subscriptions) (filed : w'.holdings.Filed) : w'.Solo where
  listeners_eq topic := by
    rw [bus]
    exact solo.listeners_eq topic
  scripts_eq := scripts.trans solo.scripts_eq
  subscriptions_eq := subscriptions.trans solo.subscriptions_eq
  filed := filed

theorem Solo.heard (solo : w.Solo) : (w.heard topic id).Solo := solo.of_same rfl rfl rfl solo.filed

theorem Quietly.of_same (record : w.record <+: w'.record) (history : w'.history = w.history) :
    w.Quietly w' := ⟨record, [], by rw [history, List.append_nil], fun _ hm => by cases hm⟩

theorem Quietly.trans (h : w.Quietly w') (h' : w'.Quietly w'') : w.Quietly w'' := by
  obtain ⟨news, history, plain⟩ := h.news
  obtain ⟨news', history', plain'⟩ := h'.news
  refine ⟨h.record.trans h'.record, news ++ news', ?_, fun p hm => ?_⟩
  · rw [history', history, List.append_assoc]
  · exact (List.mem_append.mp hm).elim (plain p) (plain' p)

instance : IsPreorder Workspace Quietly where
  refl _ := .of_same (List.prefix_refl _) rfl
  trans _ _ _ h h' := h.trans h'

theorem heard_eq (w : Workspace) (topic : Topic) (id : DocumentId) : w.heard topic id =
    { w.passed (.telling topic (some id)) with
      record := w.record ++ w.hearsay topic ((w.document? id).getD default) : Workspace }.passed
        (.told topic (some id)) := by
  simp only [heard, passed, List.append_assoc]
  rfl

theorem quietly_heard (quiet : topic ≠ .updated) : w.Quietly (w.heard topic id) := by
  refine ⟨List.prefix_append _ _, _, rfl, ?_⟩
  intro p hm
  rcases List.mem_pair.mp hm with rfl | rfl <;> cases topic <;> rfl

theorem published_heard (quiet : topic ≠ .closed) : (w.heard topic id).published = w.published := by
  simp [heard, hearsay, published, Scene.published, scene, quiet, Observation.notices?]

theorem published_heard_closed (hd : w.holdings.document? id = some d) :
    (w.heard .closed id).published = w.published ++ [(d.uri, [])] := by
  simp [heard, hearsay, published, Scene.published, scene, Observation.notices?, show w.document? id = some d from hd]

theorem published_noting {o : Observation} (unsent : o.notices? = none) :
    (w.noting o).published = w.published := by
  simp [noting, published, Scene.published, scene, unsent]

theorem published_asked {reason : Bool} {o : Observation} (unsent : o.notices? = none) :
    (w.asked reason o).published = w.published := by
  by_cases asks : (reason && w.hasWatcher) = true
  · simp [asked, published, Scene.published, scene, asks, unsent]
  · rw [asked_of_not asks]

end Workspace

open Workspace (Solo Quietly)

namespace Task

variable {w : Workspace} {depth : Nat} {topic : Topic} {id : DocumentId} {file : String} {d : Document}

theorem ends_fire_solo {Q : Except Fault Unit → Workspace → Prop} (solo : w.Solo) (quiet : topic ≠ .updated) :
    Ends (fire (Task.call depth) topic (some id)) w Q ↔ Q (.ok ()) (w.heard topic id) := by
  rw [ends_fire_iff, solo.listeners_eq topic]
  by_cases closed : topic = .closed
  · subst closed
    rw [Topic.tellers, Bus.deliver, Work.ends_bind, Work.ends_quietly, call_clearer, clearNotices,
      Work.ends_bind, ends_document_iff, Work.next_ok, observe, Work.ends_modify, Work.next_ok,
      Bus.deliver, Work.ends_bind, Work.ends_quietly, call_observer, note, Work.ends_bind, ends_document_iff,
      Work.next_ok, Work.ends_bind, Work.ends_get, Work.next_ok, observe, Work.ends_modify,
      Workspace.heard_eq, Workspace.hearsay, if_pos rfl, ← List.append_assoc]
    exact Iff.rfl
  · have observed : topic.tellers = [.observer] := by
      cases topic <;> first | rfl | exact absurd rfl quiet | exact absurd rfl closed
    rw [observed, Bus.deliver, Work.ends_bind, Work.ends_quietly, call_observer, note, Work.ends_bind,
      ends_document_iff, Work.next_ok, Work.ends_bind, Work.ends_get, Work.next_ok, observe, Work.ends_modify,
      Workspace.heard_eq, Workspace.hearsay, if_neg closed, List.nil_append]
    exact Iff.rfl

end Task

namespace Workspace

/-- What is compiled has been marked and read: what had to be opened comes last, and is marked. -/
structure Gathers (w w' : Workspace) : Prop where
  quietly : w.Quietly w'
  gate_eq : w'.gate = w.gate
  compilation_eq : w'.compilation = w.compilation
  published_eq : w'.published = w.published
  document : ∀ id d, w.holdings.document? id = some d → ∃ d', w'.holdings.document? id = some d' ∧
    d'.file = d.file ∧ d'.uri = d.uri
  entries : ∃ more, w'.tracked.entries = w.tracked.entries ++ more ∧
    ∀ e ∈ more, ∃ d, w'.holdings.document? e.2 = some d ∧ d.isMarked = true

def Stumbles (w w' : Workspace) : Prop :=
  ∃ file news, w'.record = w.record ++ news ∧ .read file .failed ∈ news

structure Grows (w w' : Workspace) : Prop extends w.Gathers w' where
  marks : ∀ id d d', w.holdings.document? id = some d → w'.holdings.document? id = some d' →
    d.isMarked = true → d'.isMarked = true

variable {w w' w'' : Workspace} {h : Holdings} {id : DocumentId} {file : String}

theorem Stumbles.since (record : w.record <+: w'.record) (h : w'.Stumbles w'') : w.Stumbles w'' := by
  obtain ⟨earlier, begun⟩ := record
  obtain ⟨file, news, later, failed⟩ := h
  exact ⟨file, earlier ++ news, by rw [later, ← begun, List.append_assoc], List.mem_append_right _ failed⟩

theorem Stumbles.until (h : w.Stumbles w') (record : w'.record <+: w''.record) : w.Stumbles w'' := by
  obtain ⟨more, later⟩ := record
  obtain ⟨file, news, begun, failed⟩ := h
  exact ⟨file, news ++ more, by rw [← later, begun, List.append_assoc], List.mem_append_left _ failed⟩

theorem Gathers.grows (gathers : w.Gathers w') (grows : w'.Grows w'') : w.Gathers w'' where
  quietly := gathers.quietly.trans grows.quietly
  gate_eq := grows.gate_eq.trans gathers.gate_eq
  compilation_eq := grows.compilation_eq.trans gathers.compilation_eq
  published_eq := grows.published_eq.trans gathers.published_eq
  document id d hd := by
    obtain ⟨d', hd', file, uri⟩ := gathers.document id d hd
    obtain ⟨d'', hd'', file', uri'⟩ := grows.document id d' hd'
    exact ⟨d'', hd'', file'.trans file, uri'.trans uri⟩
  entries := by
    obtain ⟨more, entries, marked⟩ := gathers.entries
    obtain ⟨more', entries', marked'⟩ := grows.entries
    refine ⟨more ++ more', by rw [entries', entries, List.append_assoc], ?_⟩
    intro e hm
    rcases List.mem_append.mp hm with hm | hm
    · obtain ⟨d, hd, mark⟩ := marked e hm
      obtain ⟨d', hd', -⟩ := grows.document e.2 d hd
      exact ⟨d', hd', grows.marks e.2 d d' hd hd' mark⟩
    · exact marked' e hm

theorem Grows.trans (grows : w.Grows w') (grows' : w'.Grows w'') : w.Grows w'' where
  toGathers := grows.toGathers.grows grows'
  marks id d d'' hd hd'' mark := by
    obtain ⟨d', hd', -⟩ := grows.document id d hd
    exact grows'.marks id d' d'' hd' hd'' (grows.marks id d d' hd hd' mark)

theorem grows_of_tracked (quietly : w.Quietly w') (gate : w'.gate = w.gate)
    (compilation : w'.compilation = w.compilation) (published : w'.published = w.published)
    (tracked : w'.tracked = w.tracked)
    (document : ∀ id d, w.holdings.document? id = some d → ∃ d', w'.holdings.document? id = some d' ∧
      d'.file = d.file ∧ d'.uri = d.uri ∧ (d.isMarked = true → d'.isMarked = true)) : w.Grows w' where
  quietly := quietly
  gate_eq := gate
  compilation_eq := compilation
  published_eq := published
  document id d hd := by
    obtain ⟨d', hd', file, uri, -⟩ := document id d hd
    exact ⟨d', hd', file, uri⟩
  entries := ⟨[], by rw [List.append_nil]; exact congrArg Table.entries tracked, fun _ hm => by cases hm⟩
  marks id d d' hd hd' := by
    obtain ⟨e, he, -, -, kept⟩ := document id d hd
    rw [hd'] at he
    cases he
    exact kept

theorem grows_of_same (quietly : w.Quietly w') (gate : w'.gate = w.gate)
    (compilation : w'.compilation = w.compilation) (published : w'.published = w.published)
    (holdings : w'.holdings = w.holdings) : w.Grows w' := by
  apply grows_of_tracked quietly gate compilation published (congrArg Holdings.tracked holdings)
  intro id d hd
  exact ⟨d, by rw [holdings, hd], rfl, rfl, fun kept => kept⟩

instance : IsPreorder Workspace Grows where
  refl w := grows_of_same (refl_of Quietly w) rfl rfl rfl rfl
  trans _ _ _ := Grows.trans

theorem grows_of_opened {f : Document → Document} (new : w.holdings.tracked.get? file = none)
    (quietly : w.Quietly w') (gate : w'.gate = w.gate) (compilation : w'.compilation = w.compilation)
    (published : w'.published = w.published) (marked : (f (.new file)).isMarked = true)
    (holdings : w'.holdings = (w.holdings.add (.new file)).revise w.documents.length f) : w.Grows w' := by
  have kept (id : DocumentId) (d : Document) (hd : w.holdings.document? id = some d) :
      w'.holdings.document? id = some d := by
    have apart : w.documents.length ≠ id := Nat.ne_of_gt (List.getElem?_eq_some_iff.mp hd).1
    rw [holdings, Holdings.document?_revise, if_neg apart]
    exact Holdings.document?_add_of_some hd
  refine ⟨⟨quietly, gate, compilation, published, fun id d hd => ⟨d, kept id d hd, rfl, rfl⟩, ?_⟩, ?_⟩
  · refine ⟨[(file, w.documents.length)], ?_, ?_⟩
    · rw [show w'.tracked = w.tracked.insert file w.documents.length from congrArg Holdings.tracked holdings]
      exact Table.entries_insert_of_not_mem _ (Table.get?_eq_none_iff.mp new)
    · intro e hm
      rw [List.mem_singleton.mp hm, holdings]
      refine ⟨f (.new file), ?_, marked⟩
      have made : (w.holdings.add (.new file)).document? w.documents.length = some (.new file) :=
        Holdings.document?_add_self w.holdings _
      rw [Holdings.document?_revise, if_pos rfl, made, Option.map_some]
  · intro id d d' hd hd' mark
    rw [kept id d hd] at hd'
    cases hd'
    exact mark

end Workspace

open Workspace (Grows Gathers Stumbles)

namespace Task

variable {w : Workspace} {depth : Nat} {id : DocumentId} {file : String} {d : Document}

def Growing {α : Type} (task : Task α) : Prop := ∀ w : Workspace, w.Solo →
  Ends task w fun r w' => w'.Solo ∧ w.Grows w' ∧ ∀ fault, r = .error fault → w.Stumbles w'

theorem growing_pure {α : Type} (a : α) : Growing (pure a) := fun w solo =>
  ⟨solo, refl_of Grows w, fun _ failed => by cases failed⟩

theorem Growing.bind {α β : Type} {task : Task α} {next : α → Task β} (h : Growing task)
    (hn : ∀ a, Growing (next a)) : Growing (task >>= next) := by
  intro w solo
  apply (h w solo).bind
  · rintro a w' ⟨solo', grows, -⟩
    refine (hn a w' solo').mono ?_
    rintro r w'' ⟨solo'', grows', stumbles⟩
    exact ⟨solo'', grows.trans grows', fun fault failed => (stumbles fault failed).since grows.quietly.record⟩
  · rintro fault w' ⟨solo', grows, stumbles⟩
    exact ⟨solo', grows, fun _ _ => stumbles fault rfl⟩

theorem growing_fetched (f : Fetch) : Growing (modify (·.fetched f)) := fun w solo =>
  ⟨solo.of_same rfl rfl rfl solo.filed,
    Workspace.grows_of_same (.of_same (List.prefix_refl w.record) rfl) rfl rfl rfl rfl,
    fun _ failed => by cases failed⟩

theorem grows_marked (w : Workspace) (id : DocumentId) :
    w.Grows (w.holding (w.holdings.revise id ({ · with isMarked := true }))) := by
  refine Workspace.grows_of_tracked (.of_same (List.prefix_refl _) rfl) rfl rfl rfl rfl ?_
  intro other d hd
  refine Holdings.revise_induction (P := fun _ d d' => d'.file = d.file ∧ d'.uri = d.uri ∧
    (d.isMarked = true → d'.isMarked = true)) ?_ ?_ hd
  · exact fun _ _ => ⟨rfl, rfl, fun _ => by rfl⟩
  · exact fun _ _ => ⟨rfl, rfl, fun kept => kept⟩

theorem ends_readForCompiler_solo (solo : w.Solo) :
    Ends (readForCompiler (Task.call depth) file) w fun r w' =>
      w'.Solo ∧ w.Grows w' ∧ ∀ fault, r = .error fault → w.Stumbles w' := by
  apply ends_readForCompiler_of
  · intro id ht
    obtain ⟨d, hd, -⟩ := solo.filed file id ht
    rw [ends_give_of hd]
    exact ⟨solo.of_same rfl rfl rfl (solo.filed.revise fun _ _ => rfl), grows_marked w id,
      fun _ failed => by cases failed⟩
  · intro _
    refine ⟨solo.of_same rfl rfl rfl solo.filed, ?_, ?_⟩
    · exact Workspace.grows_of_same (.of_same (List.prefix_append _ _) rfl) rfl rfl
        (Workspace.published_noting rfl) rfl
    · intro fault failed
      refine ⟨file, _, rfl, ?_⟩
      rw [failed]
      exact List.mem_singleton_self _
  · intro text u _ new _
    have p : w.holdings.Provides file w.documents.length true (.new file) (w.holdings.add (.new file)) :=
      .made new
    let opened := (w.noting (.read file .contents)).serverOpened (w.holdings.add (.new file)) w.documents.length
      (.new file) u text
    have solo₁ : opened.Solo := solo.of_same rfl rfl rfl ((p.filed solo.filed).revise fun _ _ => rfl)
    rw [Work.ends_bind, ends_fire_solo solo₁ (by decide), Work.next_ok, Work.ends_bind,
      ends_fire_solo solo₁.heard (by decide), Work.next_ok]
    let told := (opened.heard .created w.documents.length).heard .openedOnServer w.documents.length
    obtain ⟨d, here⟩ : ∃ d, told.holdings.document? w.documents.length = some d :=
      ⟨_, Workspace.document?_serverOpened (w := w.noting (.read file .contents)) p u text⟩
    rw [ends_give_of here]
    have quietly : w.Quietly told := by
      have began : w.Quietly opened :=
        .of_same ((List.prefix_append _ _).trans (List.prefix_append _ _)) rfl
      exact (began.trans (Workspace.quietly_heard (by decide))).trans (Workspace.quietly_heard (by decide))
    have published : told.published = w.published := by
      have asked : opened.published = (w.noting (.read file .contents)).published := Workspace.published_asked rfl
      rw [Workspace.published_heard (by decide), Workspace.published_heard (by decide), asked,
        Workspace.published_noting rfl]
    have solo₂ : told.Solo := solo₁.heard.heard
    refine ⟨solo₂.of_same rfl rfl rfl (solo₂.filed.revise fun _ _ => rfl), ?_, fun _ failed => by cases failed⟩
    let f (d : Document) : Document :=
      { d with uri := u, text := some text, onServer := true, isMarked := true }
    apply Workspace.grows_of_opened (f := f) new
    · exact quietly.trans (.of_same (List.prefix_refl _) rfl)
    · rfl
    · rfl
    · exact published
    · rfl
    · exact Holdings.revise_revise (w.holdings.add (.new file)) w.documents.length
        (fun d => { d with uri := u, text := some text, onServer := true }) ({ · with isMarked := true })

/-- Before anything is read, marks are set on the roots and taken from all others. -/
theorem ends_markRoots_solo (solo : w.Solo) :
    Ends markRoots w fun r w' => (∃ roots, r = .ok roots) ∧ w'.Solo ∧ w.Gathers w' := by
  rw [markRoots, Work.ends_bind, Work.ends_get, Work.next_ok]
  apply Work.Ends.bind (P := fun r w' => r = .ok () ∧ w'.Solo ∧ w.Gathers w')
  · apply (Work.ends_forM (I := fun _ w' => w'.Solo ∧ ∃ h : Holdings, w' = w.holding h ∧
      h.tracked = w.tracked ∧ ∀ id d, w.holdings.document? id = some d →
        ∃ d', h.document? id = some d' ∧ d'.file = d.file ∧ d'.uri = d.uri) _ _ ?_ ?_).mono
    · rintro _ _ ⟨ok, solo', h, rfl, tracked, document⟩
      refine ⟨ok, solo', .of_same (List.prefix_refl _) rfl, rfl, rfl, rfl, document, [], ?_, fun _ hm => by cases hm⟩
      rw [List.append_nil]
      exact congrArg Table.entries tracked
    · exact ⟨solo, w.holdings, rfl, rfl, fun _ d hd => ⟨d, hd, rfl, rfl⟩⟩
    · rintro _ id _ _ _ ⟨solo', h, rfl, tracked, document⟩
      let f (d : Document) : Document := { d with isMarked := d.onClient }
      refine ⟨rfl, solo'.of_same rfl rfl rfl (solo'.filed.revise fun _ _ => rfl), h.revise id f, rfl, tracked, ?_⟩
      intro other d hd
      obtain ⟨d', hd', file, uri⟩ := document other d hd
      obtain ⟨d'', hd'', file', uri'⟩ : ∃ d'', (h.revise id f).document? other = some d'' ∧
          d''.file = d'.file ∧ d''.uri = d'.uri :=
        Holdings.revise_induction (f := f) (P := fun _ d d' => d'.file = d.file ∧ d'.uri = d.uri)
          (fun _ _ => ⟨rfl, rfl⟩) (fun _ _ => ⟨rfl, rfl⟩) hd'
      exact ⟨d'', hd'', file'.trans file, uri'.trans uri⟩
  · exact fun _ _ h => ⟨⟨_, rfl⟩, h.2⟩
  · rintro fault _ ⟨ok, -⟩
    cases ok

theorem growing_fetch (serial : Nat) (file : String) : Growing (fetch (Task.call depth) serial file) := by
  intro w solo
  have reads : Growing (readForCompiler (Task.call depth) file) := fun _ solo => ends_readForCompiler_solo solo
  rw [fetch, Work.ends_bind, Work.ends_get, Work.next_ok]
  exact reads.bind (fun text => (growing_fetched _).bind fun _ => growing_pure text) w solo

theorem ends_loadAnew_solo (solo : w.Solo) : Ends (loadAnew (Task.call depth)) w fun r w' =>
    w'.Solo ∧ w.Gathers w' ∧ ∀ fault, r = .error fault → w.Stumbles w' := by
  have counted : w.counted.Solo := solo.of_same rfl rfl rfl solo.filed
  rw [loadAnew, Work.ends_bind, ends_beginBuild, Work.next_ok]
  apply (ends_markRoots_solo counted).bind
  · rintro roots w₁ ⟨-, solo₁, gathers⟩
    rw [Work.ends_bind, Work.ends_get, Work.next_ok]
    have loads : Growing (Compilation.load (fetch (Task.call depth) w.begun) (readableBound w₁ + 1) w.begun
        ⟨roots, w₁.reportUnused⟩ w₁.previous) := by
      have files : Growing (Compilation.loadFrom (fetch (Task.call depth) w.begun)
          (Compilation.sourceOf w.begun w₁.previous) (readableBound w₁ + 1) {} roots) :=
        Grammar.loadFrom_closed (P := Growing) growing_pure .bind (growing_fetch w.begun) _ _ _
      exact files.bind fun _ => growing_pure _
    have before : w.Gathers w₁ := ⟨⟨gathers.quietly.record, gathers.quietly.news⟩, gathers.gate_eq,
      gathers.compilation_eq, gathers.published_eq, gathers.document, gathers.entries⟩
    refine (loads w₁ solo₁).mono ?_
    rintro r w' ⟨solo', grows, stumbles⟩
    exact ⟨solo', before.grows grows, fun fault failed => (stumbles fault failed).since before.quietly.record⟩
  · rintro fault w₁ ⟨⟨roots, ok⟩, -⟩
    cases ok

end Task

namespace Workspace

/-- In a rebuild the server has let go of a document, and the client has been sent an empty list for it. -/
structure Clears (w : Workspace) (id : DocumentId) (d : Document) (w' : Workspace) : Prop where
  quietly : w.Quietly w'
  phase_eq : w'.gate.phase = w.gate.phase
  suspensions_eq : w'.gate.suspensions = w.gate.suspensions
  compilation_eq : w'.compilation = w.compilation
  holdings_eq : w'.holdings = w.holdings.drop d.file id
  published_eq : w'.published = w.published ++ [(d.uri, [])]
  pending_eq : w'.gate.pending = true

structure Sheds (w : Workspace) (done : List DocumentId) (w' : Workspace) : Prop where
  quietly : w.Quietly w'
  phase_eq : w'.gate.phase = w.gate.phase
  suspensions_eq : w'.gate.suspensions = w.gate.suspensions
  compilation_eq : w'.compilation = w.compilation
  document?_eq : ∀ id, id ∉ done → w'.holdings.document? id = w.holdings.document? id
  entries_eq : w'.tracked.entries = w.tracked.entries.filter fun e => !(e.2 ∈ done && w.strays e.2)
  published_eq : w'.published = w.published ++
    ((done.filterMap w.document?).filter Document.isStray).map fun d => (d.uri, [])
  settled : w'.gate.pending = false → ∀ id ∈ done, w.strays id = false

variable {w w' w'' : Workspace} {done : List DocumentId} {id : DocumentId} {d : Document}

theorem sheds_nil (w : Workspace) : w.Sheds [] w where
  quietly := refl_of Quietly w
  phase_eq := rfl
  suspensions_eq := rfl
  compilation_eq := rfl
  document?_eq _ _ := rfl
  entries_eq := by simp
  published_eq := by simp
  settled _ _ hm := by cases hm

theorem strays_eq (hd : w.holdings.document? id = some d) : w.strays id = d.isStray := by
  rw [strays, show w.document? id = some d from hd]
  rfl

theorem Sheds.skip (h : w.Sheds done w') (hd : w.holdings.document? id = some d) (kept : d.isStray = false) :
    w.Sheds (done ++ [id]) w' where
  quietly := h.quietly
  phase_eq := h.phase_eq
  suspensions_eq := h.suspensions_eq
  compilation_eq := h.compilation_eq
  document?_eq other hm := h.document?_eq other fun hm' => hm (List.mem_append_left _ hm')
  entries_eq := by
    have unstray : w.strays id = false := (strays_eq hd).trans kept
    rw [h.entries_eq]
    apply List.filter_congr
    intro e _
    by_cases he : e.2 = id
    · simp [he, unstray]
    · simp [he]
  published_eq := by
    rw [h.published_eq]
    simp [show w.document? id = some d from hd, kept]
  settled waits other hm := by
    rcases List.mem_append.mp hm with hm | hm
    · exact h.settled waits other hm
    · rw [List.mem_singleton.mp hm]
      exact (strays_eq hd).trans kept

theorem Sheds.clear (h : w.Sheds done w') (filed : w.holdings.Filed) (hd : w.holdings.document? id = some d)
    (ht : w.holdings.tracked.get? d.file = some id) (stray : d.isStray = true)
    (clears : w'.Clears id d w'') : w.Sheds (done ++ [id]) w'' where
  quietly := h.quietly.trans clears.quietly
  phase_eq := clears.phase_eq.trans h.phase_eq
  suspensions_eq := clears.suspensions_eq.trans h.suspensions_eq
  compilation_eq := clears.compilation_eq.trans h.compilation_eq
  document?_eq other hm := by
    have apart : id ≠ other := fun he => hm (by simp [he])
    rw [clears.holdings_eq, Holdings.document?_drop, if_neg apart]
    exact h.document?_eq other fun hm' => hm (List.mem_append_left _ hm')
  entries_eq := by
    have strays : w.strays id = true := (strays_eq hd).trans stray
    have erased : w''.tracked.entries = w'.tracked.entries.filter fun e => e.1 ≠ d.file :=
      congrArg (fun h : Holdings => h.tracked.entries) clears.holdings_eq
    rw [erased, h.entries_eq, List.filter_filter]
    apply List.filter_congr
    rintro ⟨file, other⟩ hm
    have same : file = d.file ↔ other = id := by
      have here := Table.get?_eq_some_iff.mpr hm
      constructor
      · rintro rfl
        exact Option.some.inj (here.symm.trans ht)
      · rintro rfl
        exact filed.file_unique here ht
    by_cases he : other = id
    · simp [he, same.mpr he, strays]
    · simp [he, mt same.mp he]
  published_eq := by
    rw [clears.published_eq, h.published_eq]
    simp [show w.document? id = some d from hd, stray]
  settled waits := by
    rw [clears.pending_eq] at waits
    cases waits

theorem Sheds.still (h : w.Sheds w.tracked.values w') (waits : w'.gate.pending = false) :
    w'.tracked.entries = w.tracked.entries ∧ w'.published = w.published := by
  have none := h.settled waits
  constructor
  · rw [h.entries_eq, List.filter_eq_self]
    intro e hm
    simp [none e.2 (List.mem_map_of_mem hm)]
  · have kept : (w.tracked.values.filterMap w.document?).filter Document.isStray = [] := by
      rw [List.filter_eq_nil_iff]
      intro d hm
      obtain ⟨id, hi, hd⟩ := List.mem_filterMap.mp hm
      rw [← strays_eq hd, none id hi]
      exact Bool.false_ne_true
    rw [h.published_eq, kept, List.map_nil, List.append_nil]

end Workspace

open Workspace (Sheds)

namespace Task

variable {w : Workspace} {depth : Nat} {id : DocumentId} {d : Document} {Q : Except Fault Unit → Workspace → Prop}

theorem ends_request_busy {task : Task Unit} (busy : w.gate.phase ≠ .idle) :
    Ends (Gate.request task) w Q ↔ Q (.ok ()) { w with gate := { w.gate with pending := true } } := by
  rw [Gate.request, Gate.change, Work.ends_bind, Work.ends_modify, Work.next_ok, Gate.ends_flush_of_not]
  · exact Iff.rfl
  · exact fun due => busy due.2

theorem ends_releaseOnServer_stray (solo : w.Solo) (phase : w.gate.phase = .rebuilding)
    (hd : w.holdings.document? id = some d) (ht : w.holdings.tracked.get? d.file = some id)
    (stray : d.isStray = true) : Ends (releaseOnServer (Task.call depth) id) w fun r w' =>
      r = .ok () ∧ w'.Solo ∧ w.Clears id d w' := by
  simp only [Document.isStray, Bool.and_eq_true, Bool.not_eq_true'] at stray
  obtain ⟨⟨-, client⟩, server⟩ := stray
  let closed := w.serverClosed id d
  let left := closed.heard .closedOnServer id
  have solo₁ : closed.Solo := solo.of_same rfl rfl rfl (solo.filed.revise fun _ _ => rfl)
  have solo₂ : left.Solo := solo₁.heard
  have here : left.holdings.document? id = some { d with onServer := false } :=
    Workspace.document?_serverClosed hd
  have unheld : ({ d with onServer := false } : Document).isOpen = false := by simp [Document.isOpen, client]
  rw [ends_releaseOnServer_iff hd server, letGo, Work.ends_bind, ends_fire_solo solo₁ (by decide),
    Work.next_ok, Work.ends_bind, ends_document_of here, Work.next_ok, unheld]
  apply ends_remove_of here
  · intro gone
    rw [show left.holdings.tracked.get? d.file = some id from ht] at gone
    cases gone
  · intro _ _
    let forgotten := left.forgetting d.file
    have solo₃ : forgotten.Solo := solo₂.of_same rfl rfl rfl solo₂.filed.forget
    let told := forgotten.heard .closed id
    have solo₄ : told.Solo := solo₃.heard
    have busy : told.gate.phase ≠ .idle := by
      change w.gate.phase ≠ .idle
      rw [phase]
      decide
    rw [Work.ends_bind, ends_fire_solo solo₃ (by decide), Work.next_ok, ends_request_busy busy]
    refine ⟨rfl, solo₄.of_same rfl rfl rfl solo₄.filed, ?_, rfl, rfl, ?_, rfl, ?_, rfl⟩
    · have begun : w.Quietly closed := .of_same (List.prefix_append _ _) rfl
      have forgets : left.Quietly forgotten := .of_same (List.prefix_refl _) rfl
      have noted : told.Quietly { told with gate := { told.gate with pending := true } } :=
        .of_same (List.prefix_refl _) rfl
      have quietly := (begun.trans (Workspace.quietly_heard (by decide))).trans forgets
      exact (quietly.trans (Workspace.quietly_heard (by decide))).trans noted
    · have rebuilding : left.gate.isRebuilding = true := by
        exact beq_iff_eq.mpr phase
      change (if (true && !left.gate.isRebuilding) = true then none else left.compilation) = w.compilation
      rw [rebuilding, if_neg (by decide)]
      rfl
    · have asked : closed.published = w.published := Workspace.published_asked rfl
      have unsent : left.published = closed.published := Workspace.published_heard (by decide)
      have cleared : told.published = forgotten.published ++ [(d.uri, [])] :=
        Workspace.published_heard_closed (w := forgotten) (d := { d with onServer := false }) here
      change told.published = _
      rw [cleared, show forgotten.published = left.published from rfl, unsent, asked]

theorem ends_sweep_solo (solo : w.Solo) (phase : w.gate.phase = .rebuilding) :
    Ends (sweep (Task.call depth)) w fun r w' => r = .ok () ∧ w'.Solo ∧ w.Sheds w.tracked.values w' := by
  rw [sweep, Work.ends_bind, Work.ends_get, Work.next_ok]
  apply Work.ends_forM (I := fun done w' => w'.Solo ∧ w.Sheds done w')
  · exact ⟨solo, Workspace.sheds_nil w⟩
  · rintro done id rest all w' ⟨solo', sheds⟩
    have nodup : (done ++ id :: rest).Nodup := all ▸ solo.filed.nodup_values
    have fresh : id ∉ done := fun hm => (List.nodup_append.mp nodup).2.2 id hm id List.mem_cons_self rfl
    have listed : id ∈ w.tracked.values := by
      rw [all]
      exact List.mem_append_right _ List.mem_cons_self
    obtain ⟨⟨file, id⟩, entry, rfl⟩ := List.mem_map.mp listed
    obtain ⟨d, hd, rfl⟩ := solo.filed file id (Table.get?_eq_some_iff.mpr entry)
    have hd' : w'.holdings.document? id = some d := (sheds.document?_eq id fresh).trans hd
    rw [Work.ends_bind, ends_document_of hd', Work.next_ok]
    by_cases unreached : (!d.isMarked && !d.onClient) = true
    · rw [if_pos unreached]
      cases hs : d.onServer with
      | true =>
        have stray : d.isStray = true := by rw [Document.isStray, unreached, hs]; rfl
        have ht' : w'.holdings.tracked.get? d.file = some id := by
          apply Table.get?_eq_some_iff.mpr
          rw [show w'.holdings.tracked.entries = _ from sheds.entries_eq]
          exact List.mem_filter.mpr ⟨entry, by simp [fresh]⟩
        refine (ends_releaseOnServer_stray solo' (sheds.phase_eq.trans phase) hd' ht' stray).mono ?_
        rintro r w'' ⟨ok, solo'', clears⟩
        exact ⟨ok, solo'', sheds.clear solo.filed hd (Table.get?_eq_some_iff.mpr entry) stray clears⟩
      | false =>
        apply ends_releaseOnServer_of_released hd' hs
        exact ⟨rfl, solo', sheds.skip hd (by rw [Document.isStray, hs, Bool.and_false])⟩
    · rw [if_neg unreached]
      have kept : d.isStray = false := by
        rw [Document.isStray, Bool.eq_false_iff.mpr unreached, Bool.false_and]
      exact ⟨rfl, solo', sheds.skip hd kept⟩

end Task

namespace Workspace

/-- A rebuild has come to its end: one empty list has been sent for each document that has gone. -/
structure Remakes (w : Workspace) (c : Compilation) (w' : Workspace) : Prop where
  compilation_eq : w'.compilation = some c
  published_eq : w'.published = w.published ++ (w.scene.departed w'.scene).map fun d => (d.uri, [])
  still : w'.gate.pending = false →
    (∃ more, w'.tracked.entries = w.tracked.entries ++ more) ∧ w'.published = w.published

variable {w w₁ w₂ : Workspace} {file : String} {id : DocumentId} {d : Document}

theorem Sheds.mem_files_iff (sheds : w₁.Sheds w₁.tracked.values w₂)
    (ht : w₁.holdings.tracked.get? file = some id) (hd : w₁.holdings.document? id = some d) :
    file ∈ w₂.files ↔ d.isStray = false := by
  have entry : (file, id) ∈ w₁.tracked.entries := Table.get?_eq_some_iff.mp ht
  have strays : w₁.strays id = d.isStray := strays_eq hd
  rw [files, Table.keys, sheds.entries_eq]
  constructor
  · intro hm
    obtain ⟨⟨file, other⟩, left, rfl⟩ := List.mem_map.mp hm
    obtain ⟨entry', kept⟩ := List.mem_filter.mp left
    have same : other = id := Option.some.inj ((Table.get?_eq_some_iff.mpr entry').symm.trans ht)
    subst same
    have listed : other ∈ w₁.tracked.values := List.mem_map_of_mem entry
    simpa [listed, strays] using kept
  · intro kept
    exact List.mem_map.mpr ⟨(file, id), List.mem_filter.mpr ⟨entry, by simp [strays, kept]⟩, rfl⟩

/-- What is swept are the documents that have gone. Those that were opened meanwhile are marked. -/
theorem map_stray_eq (filed : w.holdings.Filed) (filed₂ : w₂.holdings.Filed) (gathers : w.Gathers w₁)
    (sheds : w₁.Sheds w₁.tracked.values w₂) :
    ((w₁.trackedDocuments.filter Document.isStray).map fun d => (d.uri, ([] : List Notice))) =
      (w.scene.departed w₂.scene).map fun d => (d.uri, []) := by
  obtain ⟨more, entries, marked⟩ := gathers.entries
  have old : w₁.trackedDocuments =
      w.tracked.values.filterMap w₁.document? ++ (more.map Prod.snd).filterMap w₁.document? := by
    rw [trackedDocuments, Table.values, entries, List.map_append, List.filterMap_append]
    rfl
  have new : ((more.map Prod.snd).filterMap w₁.document?).filter Document.isStray = [] := by
    rw [List.filter_eq_nil_iff]
    intro d hm
    obtain ⟨id, hi, hd⟩ := List.mem_filterMap.mp hm
    obtain ⟨e, he, rfl⟩ := List.mem_map.mp hi
    obtain ⟨d', hd', mark⟩ := marked e he
    rw [show w₁.holdings.document? e.2 = some d from hd] at hd'
    cases hd'
    simp [Document.isStray, mark]
  have files : w₂.scene.documents.map Document.file = w₂.files := map_file_trackedDocuments filed₂
  rw [old, List.filter_append, new, List.append_nil, Scene.departed, files, scene, trackedDocuments]
  simp only [Table.values, List.filterMap_map, ← List.filterMap_eq_filter, List.filterMap_filterMap,
    List.map_filterMap]
  apply List.filterMap_congr
  rintro ⟨file, id⟩ hm
  obtain ⟨d, hd, rfl⟩ := filed file id (Table.get?_eq_some_iff.mpr hm)
  obtain ⟨d', hd', file_eq, uri_eq⟩ := gathers.document id d hd
  have ht : w₁.holdings.tracked.get? d.file = some id := by
    apply Table.get?_eq_some_iff.mpr
    rw [show w₁.holdings.tracked.entries = _ from entries]
    exact List.mem_append_left _ hm
  have gone := sheds.mem_files_iff ht hd'
  simp only [Function.comp_apply, show w.document? id = some d from hd, show w₁.document? id = some d' from hd']
  cases stray : d'.isStray <;> simp [Option.guard, stray, gone, uri_eq]

end Workspace

open Workspace (Remakes)

namespace Task

variable {w : Workspace} {depth : Nat}

/-- Undisturbed, a rebuild reads and then sweeps. If it fails, then while it reads. -/
theorem ends_rebuildBody_solo (solo : w.Solo) (phase : w.gate.phase = .rebuilding) :
    Ends (rebuildBody (Task.call depth)) w fun r w' => w'.Solo ∧ w.Quietly w' ∧
      w'.gate.suspensions = w.gate.suspensions ∧
        match r with
        | .ok c => w.Remakes c w'
        | .error _ => w'.compilation = w.compilation ∧ w.Stumbles w' := by
  rw [rebuildBody_eq]
  apply (ends_loadAnew_solo solo).bind
  · rintro c w₁ ⟨solo₁, gathers, -⟩
    let made := compiled c.request.roots c w₁
    have solo₂ : made.Solo := solo₁.of_same rfl rfl rfl solo₁.filed
    have phase₂ : made.gate.phase = .rebuilding := (congrArg Gate.phase gathers.gate_eq).trans phase
    rw [Work.ends_bind, Work.ends_modify, Work.next_ok, Work.ends_bind]
    refine (ends_sweep_solo solo₂ phase₂).mono ?_
    rintro r w₃ ⟨rfl, solo₃, sheds⟩
    rw [Work.next_ok, Work.ends_pure]
    have makes : w₁.Quietly made := .of_same (List.prefix_refl _) rfl
    refine ⟨solo₃, (gathers.quietly.trans makes).trans sheds.quietly, ?_, sheds.compilation_eq, ?_, fun waits => ?_⟩
    · exact sheds.suspensions_eq.trans (congrArg Gate.suspensions gathers.gate_eq)
    · let unmade := { w with compilation := some c }
      have gathers₂ : unmade.Gathers made :=
        ⟨⟨gathers.quietly.record, gathers.quietly.news⟩, gathers.gate_eq, rfl, gathers.published_eq,
          gathers.document, gathers.entries⟩
      have cleared := Workspace.map_stray_eq (w := unmade) solo.filed solo₃.filed gathers₂ sheds
      have before : made.published = w.published := gathers.published_eq
      rw [sheds.published_eq, before]
      exact congrArg (w.published ++ ·) cleared
    · obtain ⟨entries, published⟩ := sheds.still waits
      obtain ⟨more, grown, -⟩ := gathers.entries
      exact ⟨⟨more, entries.trans grown⟩, published.trans gathers.published_eq⟩
  · rintro fault w₁ ⟨solo₁, gathers, stumbles⟩
    exact ⟨solo₁, gathers.quietly, by rw [gathers.gate_eq], gathers.compilation_eq, stumbles fault rfl⟩

end Task
end GrammarWorkspace
