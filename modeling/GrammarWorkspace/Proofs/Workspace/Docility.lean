import GrammarWorkspace.Proofs.Workspace.Registry

/-! Listeners that leave the documents alone, and ask for the compilation only when they are told of an
update. To tell them of a document comes to nothing but the telling. -/
namespace GrammarWorkspace

open Work (Ends Along Inside Keeping)

namespace Action

mutual

/-- The action only reads, and asks for the compilation only if it may. Of what it brings to be played
later, this holds as well: at updates it may ask for the compilation. -/
def isMeek (mayCompile : Bool) : Action → Bool
  | subscribe topic _ _ script => areMeek (topic = .updated) script
  | action => action.isReading && (mayCompile || !action.compiles)

def areMeek (mayCompile : Bool) : List Action → Bool
  | [] => true
  | action :: rest => action.isMeek mayCompile && areMeek mayCompile rest

end

variable {mayCompile : Bool} {action : Action} {actions : List Action}

theorem isMeek_of_mem (meek : areMeek mayCompile actions = true) (hm : action ∈ actions) :
    action.isMeek mayCompile = true := by
  induction actions with
  | nil => cases hm
  | cons first rest ih =>
    simp only [areMeek, Bool.and_eq_true] at meek
    rcases List.mem_cons.mp hm with rfl | hm
    · exact meek.1
    · exact ih meek.2 hm

theorem isMeek_mono (meek : action.isMeek mayCompile = true) : action.isMeek true = true := by
  cases action <;> simp_all [isMeek]

theorem areMeek_mono (meek : areMeek mayCompile actions = true) : areMeek true actions = true := by
  induction actions with
  | nil => rfl
  | cons action rest ih =>
    simp only [areMeek, Bool.and_eq_true] at meek ⊢
    exact ⟨isMeek_mono meek.1, ih meek.2⟩

theorem isReading_of_isMeek (meek : action.isMeek mayCompile = true) : action.isReading = true := by
  cases action <;> simp_all [isMeek, isReading]

theorem mayCompile_of_isMeek (meek : action.isMeek mayCompile = true) (compiles : action.compiles = true) :
    mayCompile = true := by
  cases action <;> simp_all [isMeek, Action.compiles]

end Action

namespace Action

mutual

/-- The action leaves the session going, and what it brings to be played later is meek. -/
def isLasting : Action → Bool
  | dispose | shutDown => false
  | subscribe topic _ _ script => areMeek (topic = .updated) script
  | suspended actions | rebuilding actions => areLasting actions
  | _ => true

def areLasting : List Action → Bool
  | [] => true
  | action :: rest => action.isLasting && areLasting rest

end

end Action

def Observation.sighting? : Observation → Option (Topic × String)
  | .happened topic file _ _ _ => some (topic, file)
  | _ => none

theorem Observation.sighting?_of_isRemark {o : Observation} (remark : o.isRemark = true) :
    o.sighting? = none := by
  cases o <;> simp_all [isRemark, sighting?]

namespace Workspace

/-- The events of documents that observers have noted, oldest first. -/
def sightings (w : Workspace) : List (Topic × String) := w.record.filterMap Observation.sighting?

def Permits (w : Workspace) (topic : Topic) : Listener → Prop
  | .publisher => topic = .updated
  | .clearer | .observer => True
  | .scripted number => ∀ s, w.scripts[number]? = some s →
      Action.areMeek (topic = .updated) s.actions = true

def Trusts (w : Workspace) (topic : Topic) : Listener → Prop
  | .publisher => topic = .updated
  | .clearer | .observer => True
  | .scripted number => ∃ s, w.scripts[number]? = some s ∧
      Action.areMeek (topic = .updated) s.actions = true

structure Docile (w : Workspace) : Prop where
  trusted : ∀ s ∈ w.bus.active, w.Trusts s.topic s.listener
  observed : ∀ topic, (w.bus.listeners topic).count .observer = 1
  named : ∀ name s, w.subscriptions.get? name = some s → s.listener ≠ .observer
  tame : ∀ s ∈ w.scripts, Action.areMeek true s.actions = true

def Remembers (w w' : Workspace) : Prop :=
  ∀ (number : Nat) (s : Script), w.scripts[number]? = some s →
    ∃ s', w'.scripts[number]? = some s' ∧ s'.actions = s.actions

structure Hears (seen : List (Topic × String)) (news : List Moment) (w w' : Workspace) : Prop where
  core_eq : w'.core = w.core
  gate_eq : w'.gate = w.gate
  sightings_eq : w'.sightings = w.sightings ++ seen
  moments_eq : w'.moments = w.moments ++ news
  remembers : w.Remembers w'

variable {w w' w'' : Workspace} {seen seen' : List (Topic × String)} {news news' : List Moment}
  {topic : Topic} {listener : Listener}

theorem Remembers.refl (w : Workspace) : w.Remembers w := fun _ s hs => ⟨s, hs, rfl⟩

theorem Remembers.of_eq (h : w'.scripts = w.scripts) : w.Remembers w' := by
  intro number s hs
  rw [← h] at hs
  exact ⟨s, hs, rfl⟩

theorem Remembers.trans (h : w.Remembers w') (h' : w'.Remembers w'') : w.Remembers w'' := by
  intro number s hs
  obtain ⟨s', hs', same⟩ := h number s hs
  obtain ⟨s'', hs'', same'⟩ := h' number s' hs'
  exact ⟨s'', hs'', same'.trans same⟩

theorem Trusts.mono (h : w.Trusts topic listener) (remembers : w.Remembers w') :
    w'.Trusts topic listener := by
  cases listener with
  | scripted number =>
    obtain ⟨s, hs, meek⟩ := h
    obtain ⟨s', hs', same⟩ := remembers number s hs
    exact ⟨s', hs', by rw [same]; exact meek⟩
  | _ => exact h

theorem Trusts.permits (h : w.Trusts topic listener) : w.Permits topic listener := by
  cases listener with
  | scripted number =>
    obtain ⟨s, hs, meek⟩ := h
    intro s' hs'
    rw [hs] at hs'
    cases hs'
    exact meek
  | _ => exact h

theorem Docile.trusts (h : w.Docile) (hm : listener ∈ w.bus.listeners topic) :
    w.Trusts topic listener := by
  obtain ⟨s, hs, rfl⟩ := List.mem_map.mp hm
  obtain ⟨active, here⟩ := List.mem_filter.mp hs
  have trusted := h.trusted s active
  rwa [of_decide_eq_true here] at trusted

theorem Docile.permits (h : w.Docile) (listener : Listener) : w.Permits .updated listener := by
  cases listener with
  | publisher => rfl
  | clearer | observer => trivial
  | scripted number => exact fun s hs => h.tame s (List.mem_of_getElem? hs)

theorem Docile.of_same (h : w.Docile) (bus : w'.bus = w.bus) (subscriptions : w'.subscriptions = w.subscriptions)
    (scripts : w'.scripts = w.scripts) : w'.Docile where
  trusted s hs := by
    rw [bus] at hs
    exact (h.trusted s hs).mono (.of_eq scripts)
  observed := by
    rw [bus]
    exact h.observed
  named := by
    rw [subscriptions]
    exact h.named
  tame := by
    rw [scripts]
    exact h.tame

namespace Hears

theorem trans (h : w.Hears seen news w') (h' : w'.Hears seen' news' w'') :
    w.Hears (seen ++ seen') (news ++ news') w'' where
  core_eq := h'.core_eq.trans h.core_eq
  gate_eq := h'.gate_eq.trans h.gate_eq
  sightings_eq := by rw [h'.sightings_eq, h.sightings_eq, List.append_assoc]
  moments_eq := by rw [h'.moments_eq, h.moments_eq, List.append_assoc]
  remembers := h.remembers.trans h'.remembers

theorem holdings_eq (h : w.Hears seen news w') : w'.holdings = w.holdings :=
  congrArg Core.holdings h.core_eq

theorem passed (w : Workspace) (m : Moment) : w.Hears [] [m] (w.passed m) where
  core_eq := rfl
  gate_eq := rfl
  sightings_eq := (List.append_nil _).symm
  moments_eq := w.moments_passed m
  remembers := .refl w

theorem noting (w : Workspace) (o : Observation) : w.Hears o.sighting?.toList [] (w.noting o) where
  core_eq := rfl
  gate_eq := rfl
  sightings_eq := by
    simp only [sightings, Workspace.noting, List.filterMap_append, List.filterMap_cons, List.filterMap_nil]
    cases o.sighting? <;> rfl
  moments_eq := (List.append_nil _).symm
  remembers := .refl w

end Hears

instance : IsPreorder Workspace (Hears [] []) where
  refl w := ⟨rfl, rfl, (List.append_nil _).symm, (List.append_nil _).symm, .refl w⟩
  trans _ _ _ h h' := h.trans h'

abbrev Idly : Workspace → Workspace → Prop := Keeping Docile (Hears [] [])

end Workspace

open Workspace (Docile Hears Idly)

namespace Bus

variable {τ ι : Type} [DecidableEq τ] [DecidableEq ι] {listener other : ι}

theorem count_subscribe (b : Bus τ ι) (topic topic' : τ) (hne : other ≠ listener) :
    ((b.subscribe topic' other).2.listeners topic).count listener = (b.listeners topic).count listener := by
  simp only [listeners, subscribe, List.filter_append, List.map_append, List.count_append]
  by_cases here : topic' = topic <;> simp [here, hne]

theorem count_unsubscribe (b : Bus τ ι) (topic topic' : τ) (hne : other ≠ listener) :
    ((b.unsubscribe topic' other).listeners topic).count listener = (b.listeners topic).count listener := by
  simp only [listeners, unsubscribe, Bool.decide_and]
  induction b.active with
  | nil => rfl
  | cons s rest ih =>
    by_cases ends : s.topic = topic' ∧ s.listener = other
    · have apart : s.listener ≠ listener := by
        rw [ends.2]
        exact hne
      rw [List.eraseP_cons_of_pos (by simpa using ends)]
      by_cases here : s.topic = topic <;> simp [here, apart]
    · rw [List.eraseP_cons_of_neg (by simpa using ends)]
      by_cases here : s.topic = topic <;> simp [here, List.count_cons, ih]

end Bus

namespace Workspace

theorem Overlooks.mono {R R' : Workspace → Workspace → Prop} (h : Overlooks R)
    (wide : ∀ w w', R w w' → R' w w') : Overlooks R' where
  remarked w o remark := wide _ _ (h.remarked w o remark)
  answered w c := wide _ _ (h.answered w c)
  unsubscribed w name subscription found := wide _ _ (h.unsubscribed w name subscription found)

theorem overlooks_idly : Overlooks Idly where
  remarked w o remark docile := by
    have heard := Hears.noting w o
    rw [Observation.sighting?_of_isRemark remark] at heard
    exact ⟨docile.of_same rfl rfl rfl, heard⟩
  answered w c docile :=
    ⟨docile.of_same rfl rfl rfl, rfl, rfl, (List.append_nil _).symm, (List.append_nil _).symm, .refl w⟩
  unsubscribed w name subscription found docile := by
    refine ⟨⟨?_, ?_, docile.named, docile.tame⟩, rfl, rfl, (List.append_nil _).symm, (List.append_nil _).symm, .refl w⟩
    · intro s hs
      exact docile.trusted s (List.eraseP_sublist.subset hs)
    · intro topic
      rw [← docile.observed topic]
      exact w.bus.count_unsubscribe topic subscription.topic (docile.named name subscription found)

end Workspace

namespace Task

variable {w : Workspace} {depth : Nat} {topic : Topic} {listener : Listener} {about : Option DocumentId}

theorem along_addListener (topic : Topic) (name : Option String) {script : Script}
    (meek : Action.areMeek (topic = .updated) script.actions = true) :
    Along Idly (addListener topic name script) := by
  refine Work.along_get_bind fun w docile => ?_
  have remembers (number : Nat) (s : Script) (hs : w.scripts[number]? = some s) :
      (w.scripts ++ [script])[number]? = some s := by
    rw [List.getElem?_append_left (List.getElem?_eq_some_iff.mp hs).1]
    exact hs
  refine ⟨⟨?_, ?_, ?_, ?_⟩, rfl, rfl, (List.append_nil _).symm, (List.append_nil _).symm, ?_⟩
  · intro s hs
    rcases List.mem_append.mp hs with hs | hs
    · exact (docile.trusted s hs).mono fun number s hs => ⟨s, remembers number s hs, rfl⟩
    · rw [List.mem_singleton.mp hs]
      exact ⟨script, List.getElem?_concat_length, meek⟩
  · intro topic'
    rw [← docile.observed topic']
    exact w.bus.count_subscribe topic' topic Listener.noConfusion
  · intro other s found
    cases name with
    | none => exact docile.named other s found
    | some name =>
      have found : (w.subscriptions.insert name _).get? other = some s := found
      rw [Table.get?_insert] at found
      split at found
      · cases found
        exact Listener.noConfusion
      · exact docile.named other s found
  · intro s hs
    rcases List.mem_append.mp hs with hs | hs
    · exact docile.tame s hs
    · rw [List.mem_singleton.mp hs]
      exact Action.areMeek_mono meek
  · exact fun number s hs => ⟨s, remembers number s hs, rfl⟩

theorem ends_nextPlay_idly (number : Nat) {mayCompile : Bool}
    (meek : ∀ s, w.scripts[number]? = some s → Action.areMeek mayCompile s.actions = true) :
    Ends (nextPlay number) w fun r w' =>
      Idly w w' ∧ ∀ actions, r = .ok actions → Action.areMeek mayCompile actions = true := by
  rw [nextPlay, Work.ends_bind, Work.ends_get, Work.next_ok]
  rcases hn : w.scripts[number]? with _ | ⟨_ | plays, actions⟩
  · exact ⟨refl_of Idly w, fun _ h => by cases h; rfl⟩
  · exact ⟨refl_of Idly w, fun _ h => by cases h; rfl⟩
  · have remembers : w.Remembers { w with scripts := w.scripts.set number ⟨plays, actions⟩ } := by
      intro other s hs
      by_cases here : number = other
      · subst here
        rw [hn] at hs
        cases hs
        exact ⟨⟨plays, actions⟩, List.getElem?_set_self (List.getElem?_eq_some_iff.mp hn).1, rfl⟩
      · exact ⟨s, by rw [List.getElem?_set_ne here]; exact hs, rfl⟩
    constructor
    · intro docile
      refine ⟨⟨?_, docile.observed, docile.named, ?_⟩, rfl, rfl, (List.append_nil _).symm,
        (List.append_nil _).symm, remembers⟩
      · exact fun s hs => (docile.trusted s hs).mono remembers
      · intro s hs
        rcases List.mem_or_eq_of_mem_set hs with hs | rfl
        · exact docile.tame s hs
        · exact docile.tame ⟨plays + 1, actions⟩ (List.mem_of_getElem? hn)
    · intro all h
      cases h
      exact meek _ hn

section

variable {B : Workspace → Workspace → Prop} [IsPreorder Workspace B] (aside : ∀ w w', Idly w w' → B w w')

include aside

theorem along_perform_meek {call : Calling} {mayCompile : Bool} {action : Action}
    (rebuilds : mayCompile = true → Along B (rebuild call)) (meek : action.isMeek mayCompile = true) :
    Along B (perform call action) := by
  apply along_perform Inside.self (Workspace.overlooks_idly.mono aside) action
    (Action.isReading_of_isMeek meek)
  · intro compiles
    exact rebuilds (Action.mayCompile_of_isMeek meek compiles)
  · rintro topic name plays script rfl
    have added : Along Idly (addListener topic name ⟨plays, script⟩) := along_addListener topic name meek
    exact added.mono aside

theorem ends_call_of_permits (noted : listener = .observer → about = none)
    (rebuilds : topic = .updated → ∀ lower < depth, Along B (rebuild (Task.call lower)))
    (permitted : w.Permits topic listener) :
    Ends (Task.call depth listener topic about) w fun _ w' => B w w' := by
  have overlooks := Workspace.overlooks_idly.mono aside
  cases listener with
  | observer =>
    rw [noted rfl, call_observer]
    have noted : Idly w (w.noting .updated) := fun docile =>
      ⟨docile.of_same rfl rfl rfl, Hears.noting w .updated⟩
    exact aside _ _ noted
  | clearer =>
    rw [call_clearer]
    exact along_clearNotices overlooks about w
  | publisher =>
    cases depth with
    | zero => exact refl_of B w
    | succ depth =>
      exact along_publish Inside.self (rebuilds permitted depth (Nat.lt_succ_self depth)) overlooks w
  | scripted number =>
    cases depth with
    | zero => exact refl_of B w
    | succ depth =>
      have plays (actions : List Action) (meek : Action.areMeek (topic = .updated) actions = true) :
          Along B (play (Task.call depth) actions) := by
        apply along_play overlooks
        intro action hm
        apply along_perform_meek aside _ (Action.isMeek_of_mem meek hm)
        intro updated
        exact rebuilds (of_decide_eq_true updated) depth (Nat.lt_succ_self depth)
      apply (ends_nextPlay_idly number (w := w) ?_).bind
      · rintro actions w' ⟨taken, meek⟩
        refine (plays actions (meek actions rfl) w').mono fun _ w'' h => ?_
        exact trans_of B (aside _ _ taken) h
      · rintro _ w' ⟨taken, -⟩
        exact aside _ _ taken
      · exact permitted

end

theorem ends_fire_of_document {id : DocumentId} {d : Document} (docile : w.Docile)
    (quiet : topic ≠ .updated) (hd : w.document? id = some d) :
    Ends (fire (Task.call depth) topic (some id)) w fun r w' => r = .ok () ∧ w'.Docile ∧
      w.Hears [(topic, d.file)] [.telling topic (some id), .told topic (some id)] w' := by
  let w₁ := w.passed (.telling topic (some id))
  have docile₁ : w₁.Docile := docile.of_same rfl rfl rfl
  rw [ends_fire_iff]
  apply (Bus.ends_deliver_each (I := fun done w' => w'.Docile ∧
    w₁.Hears (List.replicate (done.count .observer) (topic, d.file)) [] w') _ _
    ⟨docile₁, refl_of (Hears [] []) w₁⟩ ?_).mono
  · rintro _ w' ⟨rfl, docile', heard⟩
    rw [docile.observed topic] at heard
    exact ⟨rfl, docile'.of_same rfl rfl rfl, ((Hears.passed w _).trans heard).trans (Hears.passed w' _)⟩
  · rintro done listener rest listed w' ⟨docile', heard⟩
    rw [List.count_append]
    by_cases observes : listener = .observer
    · subst observes
      have here : w'.document? id = some d := by
        have same : w'.holdings.document? id = w.holdings.document? id := by rw [heard.holdings_eq]; rfl
        exact same.trans hd
      have noted := Hears.noting w' (.happened topic d.file d.onClient d.onServer (w'.tracked.contains d.file))
      rw [call_observer, note, Work.ends_bind, ends_document_iff, here, Option.getD_some, Work.next_ok,
        Work.ends_bind, Work.ends_get, Work.next_ok, List.count_singleton_self, List.replicate_add]
      exact ⟨docile'.of_same rfl rfl rfl, heard.trans noted⟩
    · have trusted : w'.Trusts topic listener := by
        have member : listener ∈ w.bus.listeners topic := by
          rw [listed]
          exact List.mem_append_right _ List.mem_cons_self
        exact (docile.trusts member).mono heard.remembers
      have unnoted : [listener].count Listener.observer = 0 := by simp [observes]
      rw [unnoted, Nat.add_zero]
      refine (ends_call_of_permits (B := Idly) (fun _ _ h => h) (fun h => absurd h observes)
        (fun h => absurd h quiet) trusted.permits).mono fun _ w'' h => ?_
      obtain ⟨docile'', heard'⟩ := h docile'
      have both := heard.trans heard'
      rw [List.append_nil] at both
      exact ⟨docile'', both⟩

end Task

namespace Workspace

def standing (hasClient : Bool) : Bus Topic Listener :=
  ((if hasClient then publishing else []) ++ Topic.all.map fun t => (t, Listener.observer)).foldl
    (fun b e => (b.subscribe e.1 e.2).2) .empty

theorem trusted_standing (hasClient : Bool) : ∀ s ∈ (standing hasClient).active,
    (s.listener = .publisher ∧ s.topic = .updated) ∨ s.listener = .clearer ∨ s.listener = .observer := by
  cases hasClient <;> decide

theorem observed_standing (hasClient : Bool) (topic : Topic) :
    ((standing hasClient).listeners topic).count .observer = 1 := by
  cases hasClient <;> cases topic <;> decide

theorem docile_of_standing {w : Workspace} (hasClient : Bool) (bus : w.bus = standing hasClient)
    (subscriptions : w.subscriptions = {}) (scripts : w.scripts = []) : w.Docile where
  trusted s hs := by
    rw [bus] at hs
    rcases trusted_standing hasClient s hs with ⟨publisher, updated⟩ | clearer | observer
    · rw [publisher]
      exact updated
    · rw [clearer]
      trivial
    · rw [observer]
      trivial
  observed topic := by
    rw [bus]
    exact observed_standing hasClient topic
  named name s found := by
    rw [subscriptions] at found
    cases found
  tame s hs := by
    rw [scripts] at hs
    cases hs

theorem docile_ofSetup (s : Setup)
    (cast : ∀ c ∈ s.cast, Action.areMeek (c.topic = .updated) c.script.actions = true) :
    (ofSetup s).Docile := by
  have casts (all : List Cast) (w : Workspace) (docile : w.Docile)
      (meek : ∀ c ∈ all, Action.areMeek (c.topic = .updated) c.script.actions = true) :
      (all.foldl withCast w).Docile := by
    induction all generalizing w with
    | nil => exact docile
    | cons c rest ih =>
      have added := Task.along_addListener c.topic c.name (meek c List.mem_cons_self) w docile
      exact ih _ added.1 fun c' hm => meek c' (List.mem_cons_of_mem _ hm)
  have listening (all : List (Topic × Listener)) (w : Workspace) : all.foldl withListener w =
      { w with bus := all.foldl (fun b e => (b.subscribe e.1 e.2).2) w.bus } := by
    induction all generalizing w with
    | nil => rfl
    | cons entry rest ih => exact ih (w.withListener entry)
  apply casts _ _ _ cast
  rw [listening]
  exact docile_of_standing s.hasClient rfl rfl rfl

end Workspace
end GrammarWorkspace
