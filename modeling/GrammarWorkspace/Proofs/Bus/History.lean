import GrammarWorkspace.Bus.Scenario
import Mathlib.Data.List.Induction
import Mathlib.Data.List.Perm.Subperm

/-!
# What the history of a run tells

The events tell which subscriptions have been made and which of them are in force, and who has been called by
which fire. The history of a run is one of steps done one after the other: each makes or ends the subscriptions
that it is to make or end, and a fire calls, one after the other, the listeners that were attached to its
stream when it began.
-/
namespace GrammarWorkspace.Bus

variable {α : Type}

namespace Event

def made? : Event α → Option (Subscription String String)
  | subscribed _ s => some s
  | _ => none

def gone : Event α → List (Subscription String String)
  | ended _ gone => gone
  | _ => []

/-- The subscription that can be ended by the disposer from now on. -/
def given? (disposer : String) : Event α → Option (Subscription String String)
  | subscribed other s => if other = disposer then some s else none
  | _ => none

def isNeutral : Event α → Bool
  | subscribed _ _ | ended _ _ => false
  | _ => true

end Event

def follow (subs : List (Subscription String String)) (e : Event α) : List (Subscription String String) :=
  without subs e.gone ++ e.made?.toList

def attached (h : List (Event α)) : List (Subscription String String) := h.foldl follow []

/-- All subscriptions that have been made, in order. -/
def made (h : List (Event α)) : List (Subscription String String) := h.filterMap Event.made?

def lost (h : List (Event α)) : List (Subscription String String) := h.flatMap Event.gone

def held (disposer : String) (h : List (Event α)) : Option (Subscription String String) :=
  (h.filterMap (Event.given? disposer)).getLast?

def onStream (stream : String) (subs : List (Subscription String String)) :
    List (Subscription String String) := subs.filter (·.topic = stream)

def keysOn (stream : String) (subs : List (Subscription String String)) : List String :=
  (onStream stream subs).map Subscription.listener

def isOf (stream key : String) (s : Subscription String String) : Bool := s.topic = stream ∧ s.listener = key

/-- Of the subscriptions in force those that are ended: the oldest one of a listener to a stream, or all of
some streams. -/
def Cause.takes (subs : List (Subscription String String)) : Cause → List (Subscription String String)
  | unsubscribed stream key => (subs.find? (isOf stream key)).toList
  | disposed _ s => (subs.find? (isOf s.topic s.listener)).toList
  | cleared streams => subs.filter (·.topic ∈ streams)

@[simp] theorem attached_append (h : List (Event α)) (e : Event α) :
    attached (h ++ [e]) = follow (attached h) e := by
  simp [attached]

@[simp] theorem made_append (h : List (Event α)) (e : Event α) : made (h ++ [e]) = made h ++ e.made?.toList := by
  rw [made, List.filterMap_append]
  cases given : e.made? <;> simp [made, given]

@[simp] theorem lost_append (h : List (Event α)) (e : Event α) : lost (h ++ [e]) = lost h ++ e.gone := by
  simp [lost]

@[simp] theorem held_append (disposer : String) (h : List (Event α)) (e : Event α) :
    held disposer (h ++ [e]) = (e.given? disposer).or (held disposer h) := by
  rw [held, List.filterMap_append, List.getLast?_append]
  cases given : e.given? disposer <;> simp [held, given]

@[simp] theorem follow_begun (subs : List (Subscription String String)) (step : Step α) :
    follow subs (.begun step) = subs := by
  simp [follow, without, Event.gone, Event.made?]

theorem follow_ended (subs gone : List (Subscription String String)) (cause : Cause) :
    follow subs (.ended (α := α) cause gone) = without subs gone := List.append_nil _

theorem attached_sublist (h : List (Event α)) : (attached h).Sublist (made h) := by
  induction h using List.reverseRecOn with
  | nil => exact List.Sublist.refl _
  | append_singleton h e ih =>
    rw [attached_append, made_append]
    exact (List.filter_sublist.trans ih).append (List.Sublist.refl _)

theorem nodup_of_ordered {subs : List (Subscription String String)}
    (ordered : subs.Pairwise fun s t => s.id < t.id) : subs.Nodup := by
  refine ordered.imp ?_
  rintro s _ less rfl
  exact Nat.lt_irrefl s.id less

theorem filter_part_eq {β : Type} [DecidableEq β] {l part : List β} (sub : part.Sublist l) (nodup : l.Nodup) :
    l.filter (· ∈ part) = part := by
  have atLeast : part.Sublist (l.filter (· ∈ part)) := by
    have kept : part.filter (· ∈ part) = part := List.filter_eq_self.mpr fun a ha => by simpa using ha
    have filtered := sub.filter (· ∈ part)
    rwa [kept] at filtered
  have atMost : (l.filter (· ∈ part)).Subperm part := by
    refine List.subperm_of_subset (nodup.filter _) fun a ha => ?_
    simpa using (List.mem_filter.mp ha).2
  exact (atLeast.eq_of_length_le atMost.length_le).symm

theorem without_without {subs taken : List (Subscription String String)} (part : taken.Sublist subs)
    (nodup : subs.Nodup) : without subs (without subs taken) = taken := by
  refine Eq.trans (List.filter_congr fun s hs => ?_) (filter_part_eq part nodup)
  simp [without, hs]

theorem find?_sublist {β : Type} (p : β → Bool) (l : List β) : (l.find? p).toList.Sublist l := by
  cases found : l.find? p with
  | none => exact List.nil_sublist l
  | some a => exact List.singleton_sublist.mpr (List.mem_of_find?_eq_some found)

theorem eraseP_eq_without {p : Subscription String String → Bool} {subs : List (Subscription String String)}
    (nodup : subs.Nodup) : subs.eraseP p = without subs (subs.find? p).toList := by
  rw [without]
  induction subs with
  | nil => rfl
  | cons s subs ih =>
    obtain ⟨new, nodup⟩ := List.nodup_cons.mp nodup
    by_cases hp : p s = true
    · rw [List.eraseP_cons_of_pos hp, List.find?_cons_of_pos hp, List.filter_cons_of_neg (by simp)]
      refine (List.filter_eq_self.mpr fun t ht => ?_).symm
      have other : t ≠ s := fun same => new (same ▸ ht)
      simpa using other
    · rw [List.eraseP_cons_of_neg hp, List.find?_cons_of_neg hp, List.filter_cons_of_pos, ih nodup]
      simpa using fun found => new (List.mem_of_find?_eq_some found)

theorem Cause.takes_sublist (cause : Cause) (subs : List (Subscription String String)) :
    (cause.takes subs).Sublist subs := by
  cases cause with
  | unsubscribed stream key => exact find?_sublist _ subs
  | disposed disposer s => exact find?_sublist _ subs
  | cleared streams => exact List.filter_sublist

inductive Changes (before : List (Event α)) : Step α → Event α → Prop
  | subscribe (stream key disposer : String) : Changes before (.subscribe stream key disposer)
      (.subscribed disposer ⟨(made before).length, stream, key⟩)
  | unsubscribe (stream key : String) : Changes before (.unsubscribe stream key)
      (.ended (.unsubscribed stream key) ((Cause.unsubscribed stream key).takes (attached before)))
  | dispose {disposer : String} {s : Subscription String String} (given : held disposer before = some s) :
      Changes before (.dispose disposer)
        (.ended (.disposed disposer s) ((Cause.disposed disposer s).takes (attached before)))
  | clear (stream : String) : Changes before (.clear stream)
      (.ended (.cleared [stream]) ((Cause.cleared [stream]).takes (attached before)))
  | clearAll : Changes before .clearAll (.ended (.cleared (Topic.all.map Topic.name))
      ((Cause.cleared (Topic.all.map Topic.name)).takes (attached before)))

namespace Step

def stream? : Step α → Option String
  | subscribe stream _ _ | unsubscribe stream _ | fire stream _ | clear stream | describe stream => some stream
  | _ => none

def isReading : Step α → Bool
  | describe _ | names => true
  | _ => false

end Step

inductive Refused (streams : List String) (before : List (Event α)) : Step α → Prop
  | unknown {step : Step α} {stream : String} (named : step.stream? = some stream) (unknown : stream ∉ streams) :
      Refused streams before step
  | unheld {disposer : String} (unheld : held disposer before = none) : Refused streams before (.dispose disposer)
  | interrupt : Refused streams before .interrupt

inductive Course (α : Type) where
  | steps
  | calls (keys : List String) (value : α)

/-- After a history, what is going on may go on by these events until it is over, or given up at a fault. -/
inductive Unfolds (streams : List String) : List (Event α) → Course α → List (Event α) → Prop
  | stop {before} : Unfolds streams before .steps []
  | read {before step result rest} (reading : step.isReading = true)
      (next : Unfolds streams (before ++ [.begun step, .done step result]) .steps rest) :
      Unfolds streams before .steps (.begun step :: .done step result :: rest)
  | change {before step e rest} (changes : Changes before step e)
      (next : Unfolds streams (before ++ [.begun step, e, .done step .nothing]) .steps rest) :
      Unfolds streams before .steps (.begun step :: e :: .done step .nothing :: rest)
  | fire {before stream value delivery rest}
      (delivers : Unfolds streams (before ++ [.begun (.fire stream value)])
        (.calls (keysOn stream (attached before)) value) delivery)
      (next : Unfolds streams
        (before ++ .begun (.fire stream value) :: delivery ++ [.done (.fire stream value) .nothing]) .steps rest) :
      Unfolds streams before .steps
        (.begun (.fire stream value) :: delivery ++ .done (.fire stream value) .nothing :: rest)
  | refuse {before step rest} (refused : Refused streams before step)
      (next : Unfolds streams (before ++ [.begun step]) .steps rest) :
      Unfolds streams before .steps (.begun step :: rest)
  | fail {before fault rest} (next : Unfolds streams (before ++ [.failed fault]) .steps rest) :
      Unfolds streams before .steps (.failed fault :: rest)
  | delivered {before value} : Unfolds streams before (.calls [] value) []
  | call {before key keys value byFault inner rest}
      (answers : Unfolds streams (before ++ [.called key value]) .steps inner)
      (next : Unfolds streams (before ++ .called key value :: inner ++ [.returned key byFault]) (.calls keys value)
        rest) :
      Unfolds streams before (.calls (key :: keys) value)
        (.called key value :: inner ++ .returned key byFault :: rest)

variable {streams : List String} {before after : List (Event α)} {e : Event α}

theorem Unfolds.append {events more : List (Event α)} (first : Unfolds streams before .steps events)
    (next : Unfolds streams (before ++ events) .steps more) : Unfolds streams before .steps (events ++ more) := by
  generalize going : Course.steps = course at first
  induction first with
  | stop =>
    rw [List.append_nil] at next
    exact next
  | read reading _ ih => exact .read reading (ih (by simpa using next) going)
  | change changes _ ih => exact .change changes (ih (by simpa using next) going)
  | fire delivers _ _ ih =>
    have rest := Unfolds.fire delivers (ih (by simpa using next) going)
    simpa using rest
  | refuse refused _ ih => exact .refuse refused (ih (by simpa using next) going)
  | fail _ ih => exact .fail (ih (by simpa using next) going)
  | delivered => cases going
  | call => cases going

inductive Answered (streams : List String) (before : List (Event α)) : Step α → List (Event α) → Prop
  | read {step result rest} (reading : step.isReading = true) :
      Answered streams before step (.done step result :: rest)
  | change {step e rest} (changes : Changes before step e) :
      Answered streams before step (e :: .done step .nothing :: rest)
  | fire {stream value delivery rest}
      (delivers : Unfolds streams (before ++ [.begun (.fire stream value)])
        (.calls (keysOn stream (attached before)) value) delivery) :
      Answered streams before (.fire stream value) (delivery ++ .done (.fire stream value) .nothing :: rest)
  | refuse {step rest} (refused : Refused streams before step) : Answered streams before step rest

theorem Answered.append {step : Step α} (answered : Answered streams before step after)
    (more : List (Event α)) : Answered streams before step (after ++ more) := by
  cases answered with
  | read reading => exact .read reading
  | change changes => exact .change changes
  | fire delivers =>
    rw [List.append_assoc]
    exact .fire delivers
  | refuse refused => exact .refuse refused

theorem split_around {first second : List (Event α)} {x : Event α}
    (same : first ++ x :: second = before ++ e :: after) :
    (∃ rest, first = before ++ e :: rest ∧ after = rest ++ x :: second) ∨
      (before = first ∧ e = x ∧ after = second) ∨
      ∃ rest, before = first ++ x :: rest ∧ second = rest ++ e :: after := by
  rcases List.append_eq_append_iff.mp same with ⟨rest, before_eq, second_eq⟩ | ⟨rest, first_eq, after_eq⟩
  · right
    cases rest with
    | nil =>
      cases second_eq
      exact Or.inl ⟨by simpa using before_eq, rfl, rfl⟩
    | cons y rest =>
      cases second_eq
      exact Or.inr ⟨rest, before_eq, rfl⟩
  · cases rest with
    | nil =>
      cases after_eq
      exact Or.inr (Or.inl ⟨by simpa using first_eq.symm, rfl, rfl⟩)
    | cons y rest =>
      cases after_eq
      exact Or.inl ⟨rest, first_eq, rfl⟩

theorem split_first {second : List (Event α)} {x : Event α} (same : x :: second = before ++ e :: after) :
    (before = [] ∧ e = x ∧ after = second) ∨ ∃ rest, before = x :: rest ∧ second = rest ++ e :: after := by
  have same : [] ++ x :: second = before ++ e :: after := same
  rcases split_around same with ⟨rest, vacant, -⟩ | here | later
  · simp at vacant
  · exact Or.inl here
  · exact Or.inr later

theorem split_later {second : List (Event α)} {x : Event α} (same : x :: second = before ++ e :: after)
    (other : e ≠ x) : ∃ rest, before = x :: rest ∧ second = rest ++ e :: after :=
  (split_first same).resolve_left fun here => other here.2.1

theorem Unfolds.answered {start h : List (Event α)} {course : Course α} {begun : Step α}
    (unfolds : Unfolds streams start course h) (split : h = before ++ .begun begun :: after) :
    Answered streams (start ++ before) begun after := by
  -- A step inside a fire or a call is found by the hypothesis about the inside; what follows there is only
  -- the first part of what follows here.
  induction unfolds generalizing before after with
  | stop | delivered => simp at split
  | read reading _ ih =>
    rcases split_first split with ⟨rfl, same, rfl⟩ | ⟨rest, rfl, later⟩
    · cases same
      exact .read reading
    · obtain ⟨rest, rfl, beyond⟩ := split_later later nofun
      simpa using ih beyond
  | @change start step x rest changes _ ih =>
    rcases split_first split with ⟨rfl, same, rfl⟩ | ⟨rest, rfl, later⟩
    · cases same
      rw [List.append_nil]
      exact .change changes
    · obtain ⟨rest, rfl, later'⟩ := split_later later (by cases changes <;> nofun)
      obtain ⟨rest, rfl, beyond⟩ := split_later later' nofun
      simpa using ih beyond
  | @fire start stream value delivery others delivers _ inside ih =>
    rcases split_first split with ⟨rfl, same, rfl⟩ | ⟨rest, rfl, later⟩
    · cases same
      rw [List.append_nil]
      exact .fire delivers
    · rcases split_around later with ⟨rest, here, rfl⟩ | ⟨-, same, -⟩ | ⟨rest, rfl, beyond⟩
      · have answered := (inside here).append (.done (.fire stream value) .nothing :: others)
        simpa using answered
      · cases same
      · simpa using ih beyond
  | refuse refused _ ih =>
    rcases split_first split with ⟨rfl, same, rfl⟩ | ⟨rest, rfl, later⟩
    · cases same
      rw [List.append_nil]
      exact .refuse refused
    · simpa using ih later
  | fail _ ih =>
    obtain ⟨rest, rfl, later⟩ := split_later split nofun
    simpa using ih later
  | @call start key keys value byFault inner others _ _ inside ih =>
    obtain ⟨rest, rfl, later⟩ := split_later split nofun
    rcases split_around later with ⟨rest, here, rfl⟩ | ⟨-, same, -⟩ | ⟨rest, rfl, beyond⟩
    · have answered := (inside here).append (.returned key byFault :: others)
      simpa using answered
    · cases same
    · simpa using ih beyond

/-- A fire on a stream that is there is followed by the calls that it has to make, and then is over. -/
theorem Unfolds.fires {h : List (Event α)} (unfolds : Unfolds streams [] .steps h) {stream : String} {value : α}
    (split : h = before ++ .begun (.fire stream value) :: after) (known : stream ∈ streams) :
    ∃ delivery rest, after = delivery ++ .done (.fire stream value) .nothing :: rest ∧
      Unfolds streams (before ++ [.begun (.fire stream value)]) (.calls (keysOn stream (attached before)) value)
        delivery := by
  have answered : Answered streams before (.fire stream value) after := unfolds.answered split
  cases answered with
  | read reading => cases reading
  | change changes => cases changes
  | fire delivers => exact ⟨_, _, rfl, delivers⟩
  | refuse refused =>
    cases refused with
    | unknown named unknown =>
      cases named
      exact absurd known unknown

theorem Unfolds.disposes {h : List (Event α)} (unfolds : Unfolds streams [] .steps h) {disposer : String}
    (split : h = before ++ .begun (.dispose disposer) :: after) {s : Subscription String String}
    (given : held disposer before = some s) : ∃ rest,
      after = .ended (.disposed disposer s) ((Cause.disposed disposer s).takes (attached before)) ::
        .done (.dispose disposer) .nothing :: rest := by
  have answered : Answered streams before (.dispose disposer) after := unfolds.answered split
  cases answered with
  | read reading => cases reading
  | change changes =>
    cases changes with
    | dispose given' =>
      cases Option.some.inj (given.symm.trans given')
      exact ⟨_, rfl⟩
  | refuse refused =>
    cases refused with
    | unknown named _ => cases named
    | unheld unheld => cases given.symm.trans unheld

end GrammarWorkspace.Bus
