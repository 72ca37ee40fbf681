import GrammarWorkspace.Proofs.Along
import GrammarWorkspace.Proofs.Bus.History

/-!
# Delivery

Whatever listeners do when they are called, and however deep they are called inside one another, every fire
calls those listeners that were attached to its stream when it began, as often and in the order in which they
were attached, and then it is over without a fault.
-/
namespace GrammarWorkspace.Bus

open Work (Along Ends Keeping)

variable {α : Type}

section

variable {b : Bus String String} {stream key : String}

theorem active_unsubscribe (nodup : b.active.Nodup) :
    (b.unsubscribe stream key).active = without b.active (b.active.find? (isOf stream key)).toList :=
  eraseP_eq_without nodup

theorem active_foldl_clear (streams : List String) (b : Bus String String) :
    (streams.foldl Bus.clear b).active = without b.active (b.active.filter (·.topic ∈ streams)) := by
  have cleared : (streams.foldl Bus.clear b).active = b.active.filter (·.topic ∉ streams) := by
    induction streams generalizing b with
    | nil => simp
    | cons stream streams ih =>
      rw [List.foldl_cons, ih, clear, List.filter_filter]
      refine List.filter_congr fun s _ => ?_
      simp [Bool.and_comm]
  rw [cleared, without]
  refine List.filter_congr fun s hs => ?_
  simp [hs]

theorem next_foldl_clear (streams : List String) (b : Bus String String) :
    (streams.foldl Bus.clear b).next = b.next := by
  induction streams generalizing b with
  | nil => rfl
  | cons stream streams ih => exact ih (b.clear stream)

end

namespace Run

variable {r r' : Run α} {e : Event α} {step : Step α} {cause : Cause} {stream key disposer : String}
  {call : String → α → Work (Run α) Unit}

/-- The bus and the disposers are as the history tells, and every subscription that was made is in force or
has come to an end. -/
structure Sound (r : Run α) : Prop where
  active_eq : r.bus.active = attached r.history
  numbered : (made r.history).map Subscription.id = List.range r.bus.next
  settled : (attached r.history ++ lost r.history).Perm (made r.history)
  held_eq : ∀ disposer, r.disposers.get? disposer = held disposer r.history

theorem Sound.ordered (hr : r.Sound) : (made r.history).Pairwise fun s t => s.id < t.id := by
  rw [← List.pairwise_map, hr.numbered]
  exact List.pairwise_lt_range

theorem Sound.nodup_attached (hr : r.Sound) : (attached r.history).Nodup :=
  (nodup_of_ordered hr.ordered).sublist (attached_sublist r.history)

theorem Sound.extend (hr : r.Sound) (history_eq : r'.history = r.history ++ [e])
    (part : e.gone.Sublist (attached r.history))
    (active_eq : r'.bus.active = without r.bus.active e.gone ++ e.made?.toList)
    (numbered : List.range r'.bus.next = List.range r.bus.next ++ e.made?.toList.map Subscription.id)
    (given : ∀ disposer, r'.disposers.get? disposer = (e.given? disposer).or (r.disposers.get? disposer)) :
    r'.Sound := by
  constructor
  case active_eq => rw [history_eq, attached_append, active_eq, hr.active_eq, follow]
  case numbered => rw [history_eq, made_append, List.map_append, hr.numbered, numbered]
  case settled =>
    have parts := List.filter_append_perm (· ∈ e.gone) (attached r.history)
    rw [filter_part_eq part hr.nodup_attached] at parts
    rw [history_eq, attached_append, made_append, lost_append, follow, without, List.perm_iff_count]
    intro s
    have left := parts.count_eq s
    have all := hr.settled.count_eq s
    simp only [List.count_append, decide_not] at left all ⊢
    omega
  case held_eq =>
    intro disposer
    rw [history_eq, held_append, given, hr.held_eq]

def noting (r : Run α) (e : Event α) : Run α := { r with history := r.history ++ [e] }

theorem Sound.noting (hr : r.Sound) (neutral : e.isNeutral = true) : (r.noting e).Sound := by
  have same : e.gone = [] ∧ e.made? = none ∧ ∀ disposer, e.given? disposer = none := by
    cases e with
    | subscribed | ended => cases neutral
    | _ => exact ⟨rfl, rfl, fun _ => rfl⟩
  obtain ⟨gone_eq, made_eq, given_eq⟩ := same
  apply hr.extend rfl
  case part =>
    rw [gone_eq]
    exact List.nil_sublist _
  case active_eq => simp [gone_eq, made_eq, without, Run.noting]
  case numbered => simp [made_eq, Run.noting]
  case given => simp [given_eq, Run.noting]

def Steps (r r' : Run α) : Prop := r'.streams = r.streams ∧
  ∃ events, r'.history = r.history ++ events ∧ Unfolds r.streams r.history .steps events

instance : IsPreorder (Run α) Steps where
  refl r := ⟨rfl, [], (List.append_nil _).symm, .stop⟩
  trans := by
    rintro r r' r'' ⟨streams_eq, events, history_eq, unfolds⟩ ⟨streams_eq', more, history_eq', unfolds'⟩
    rw [history_eq] at history_eq'
    rw [streams_eq, history_eq] at unfolds'
    exact ⟨streams_eq'.trans streams_eq, events ++ more, by rw [history_eq', List.append_assoc],
      unfolds.append unfolds'⟩

abbrev Orderly {β : Type} (work : Work (Run α) β) : Prop := Along (Keeping Sound Steps) work

/-- A call leads from the one to the other: it is noted when it begins and when it is over, and goes on by steps
meanwhile. -/
def Called (r : Run α) (key : String) (value : α) (r' : Run α) : Prop := r'.streams = r.streams ∧ ∃ inner byFault,
  r'.history = r.history ++ .called key value :: inner ++ [.returned key byFault] ∧
    Unfolds r.streams (r.history ++ [.called key value]) .steps inner

/-- Every call is noted in that way, whoever is called. -/
def Answers (call : String → α → Work (Run α) Unit) : Prop := ∀ key value r, r.Sound →
  Ends (call key value) r fun _ r' => r'.Sound ∧ r.Called key value r'

@[simp] theorem ends_note {Q : Except Fault PUnit → Run α → Prop} :
    Ends (note e) r Q ↔ Q (.ok ()) (r.noting e) := Iff.rfl

theorem ends_require {next : PUnit → Work (Run α) PUnit} {Q : Except Fault PUnit → Run α → Prop}
    (unknown : stream ∉ r.streams → Q (.error (.unknownName stream)) r)
    (known : stream ∈ r.streams → Ends (next ()) r Q) : Ends (require stream >>= next) r Q := by
  rw [require, bind_assoc, Work.ends_bind, Work.ends_get, Work.next_ok, Work.ends_bind]
  split
  · exact unknown ‹_›
  · exact known (not_not.mp ‹_›)

theorem steps_refused (hr : r.Sound) (refused : Refused r.streams r.history step) :
    (r.noting (.begun step)).Sound ∧ r.Steps (r.noting (.begun step)) :=
  ⟨hr.noting rfl, rfl, [.begun step], rfl, .refuse refused .stop⟩

theorem steps_change (changes : Changes r.history step e)
    (history_eq : r'.history = r.history ++ [.begun step, e]) (streams_eq : r'.streams = r.streams)
    (hr' : r'.Sound) : (r'.noting (.done step .nothing)).Sound ∧ r.Steps (r'.noting (.done step .nothing)) := by
  refine ⟨hr'.noting rfl, streams_eq, [.begun step, e, .done step .nothing], ?_, .change changes .stop⟩
  rw [noting, history_eq, List.append_assoc]
  rfl

def attaching (r : Run α) (stream key disposer : String) : Run α :=
  { r with
    bus := (r.bus.subscribe stream key).2
    disposers := r.disposers.insert disposer (r.bus.subscribe stream key).1
    history := r.history ++ [.subscribed disposer (r.bus.subscribe stream key).1] }

theorem Sound.attaching (hr : r.Sound) (stream key disposer : String) :
    (r.attaching stream key disposer).Sound := by
  apply hr.extend rfl
  case part => exact List.nil_sublist _
  case active_eq => simp [Event.gone, Event.made?, without, Run.attaching, Bus.subscribe]
  case numbered => exact List.range_succ
  case given =>
    intro other
    rw [Run.attaching, Table.get?_insert, Event.given?]
    split <;> rfl

def detaching (r : Run α) (cause : Cause) (f : Bus String String → Bus String String) : Run α :=
  { r with bus := f r.bus, history := r.history ++ [.ended cause (cause.takes (attached r.history))] }

structure Fulfils (f : Bus String String → Bus String String) (cause : Cause) : Prop where
  active_eq : ∀ b : Bus String String, b.active.Nodup → (f b).active = without b.active (cause.takes b.active)
  next_eq : ∀ b, (f b).next = b.next

theorem ends_detach {f : Bus String String → Bus String String} {Q : Except Fault PUnit → Run α → Prop}
    (hr : r.Sound) (fulfils : Fulfils f cause) :
    Ends (detach cause f) r Q ↔ Q (.ok ()) (r.detaching cause f) := by
  have nodup : r.bus.active.Nodup := hr.active_eq ▸ hr.nodup_attached
  have gone : without r.bus.active (f r.bus).active = cause.takes (attached r.history) := by
    rw [fulfils.active_eq r.bus nodup, without_without (cause.takes_sublist _) nodup, hr.active_eq]
  rw [detach, Work.ends_modify, gone]
  exact Iff.rfl

theorem Sound.detaching {f : Bus String String → Bus String String} (hr : r.Sound) (fulfils : Fulfils f cause) :
    (r.detaching cause f).Sound := by
  have nodup : r.bus.active.Nodup := hr.active_eq ▸ hr.nodup_attached
  apply hr.extend rfl
  case part => exact cause.takes_sublist _
  case active_eq =>
    refine (fulfils.active_eq r.bus nodup).trans ?_
    rw [hr.active_eq]
    exact (List.append_nil _).symm
  case numbered => simp [Event.made?, Run.detaching, fulfils.next_eq]
  case given => exact fun _ => rfl

theorem fulfils_unsubscribe (stream key : String) :
    Fulfils (·.unsubscribe stream key) (.unsubscribed stream key) where
  active_eq _ := active_unsubscribe
  next_eq _ := rfl

theorem fulfils_dispose (disposer : String) (s : Subscription String String) :
    Fulfils (·.dispose s) (.disposed disposer s) where
  active_eq _ := active_unsubscribe
  next_eq _ := rfl

theorem fulfils_clear (streams : List String) : Fulfils (streams.foldl Bus.clear ·) (.cleared streams) where
  active_eq b _ := active_foldl_clear streams b
  next_eq b := next_foldl_clear streams b

theorem ends_detach_done {f : Bus String String → Bus String String} (hr : r.Sound) (fulfils : Fulfils f cause)
    (changes : Changes r.history step (.ended cause (cause.takes (attached r.history)))) :
    Ends (detach cause f >>= fun _ => note (.done step .nothing)) (r.noting (.begun step))
      fun _ r' => r'.Sound ∧ r.Steps r' := by
  have begun : (r.noting (.begun step)).Sound := hr.noting rfl
  rw [Work.ends_bind, ends_detach begun fulfils]
  refine steps_change changes ?_ rfl (begun.detaching fulfils)
  rw [Run.detaching, noting, attached_append, follow_begun, List.append_assoc]
  rfl

/-- While a fire delivers, the calls that it has to make come one after the other. -/
theorem ends_deliver_calls (answers : Answers call) (keys : List String) (value : α) (hr : r.Sound) :
    Ends (deliver (call · value) keys) r fun result r' => result = .ok () ∧ r'.Sound ∧
      r'.streams = r.streams ∧ ∃ delivery, r'.history = r.history ++ delivery ∧
        Unfolds r.streams r.history (.calls keys value) delivery := by
  induction keys generalizing r with
  | nil => exact ⟨rfl, hr, rfl, [], (List.append_nil _).symm, .delivered⟩
  | cons key keys ih =>
    rw [deliver, Work.ends_bind, Work.ends_quietly]
    apply (answers key value r hr).mono
    rintro _ r₁ ⟨hr₁, streams_eq, inner, byFault, history_eq, answered⟩
    rw [Work.next_ok]
    apply (ih hr₁).mono
    rintro result r₂ ⟨fine, hr₂, streams_eq', delivery, history_eq', delivers⟩
    rw [history_eq] at history_eq'
    rw [streams_eq, history_eq] at delivers
    refine ⟨fine, hr₂, streams_eq'.trans streams_eq,
      .called key value :: inner ++ .returned key byFault :: delivery, ?_, .call answered delivers⟩
    rw [history_eq']
    simp

/-- A fire that has begun, and whose stream is there, comes to an end without a fault. -/
theorem ends_fire_done (answers : Answers call) (stream : String) (value : α) (hr : r.Sound) :
    Ends (get >>= fun r₀ => deliver (call · value) (r₀.bus.listeners stream) >>= fun _ =>
        note (.done (.fire stream value) .nothing))
      (r.noting (.begun (.fire stream value))) fun _ r' => r'.Sound ∧ r.Steps r' := by
  -- The listeners are those of the moment; calls that change the bus come after that.
  have keys_eq : (r.noting (.begun (.fire stream value))).bus.listeners stream =
      keysOn stream (attached r.history) := by
    rw [← hr.active_eq]
    rfl
  rw [Work.ends_bind, Work.ends_get, Work.next_ok, keys_eq]
  apply (ends_deliver_calls answers (keysOn stream (attached r.history)) value (hr.noting rfl)).bind
  · rintro _ r₁ ⟨-, hr₁, streams_eq, delivery, history_eq, delivers⟩
    have delivers : Unfolds r.streams (r.history ++ [.begun (.fire stream value)])
      (.calls (keysOn stream (attached r.history)) value) delivery := delivers
    rw [ends_note]
    refine ⟨hr₁.noting rfl, streams_eq,
      .begun (.fire stream value) :: delivery ++ [.done (.fire stream value) .nothing], ?_, .fire delivers .stop⟩
    rw [noting, history_eq, noting]
    simp
  · rintro fault _ ⟨failed, -⟩
    cases failed

theorem orderly_perform (answers : Answers call) (step : Step α) : Orderly (perform call step) := by
  apply Work.along_keeping_of
  intro r hr
  have unknown {stream : String} (named : step.stream? = some stream) (unknown : stream ∉ r.streams) :=
    steps_refused hr (.unknown named unknown)
  rw [perform, Work.ends_bind, ends_note, Work.next_ok]
  cases step with
  | subscribe stream key disposer =>
    rw [result, bind_assoc]
    apply ends_require (unknown rfl)
    intro _
    rw [bind_assoc, Work.ends_bind, attach, Work.ends_modify, Work.next_ok, pure_bind, ends_note]
    have id_eq : r.bus.next = (made r.history).length := by
      simpa using (congrArg List.length hr.numbered).symm
    have changes : Changes r.history (.subscribe stream key disposer)
        (.subscribed disposer (r.bus.subscribe stream key).1) := by
      rw [Bus.subscribe, id_eq]
      exact .subscribe stream key disposer
    have begun : (r.noting (.begun (.subscribe stream key disposer))).Sound := hr.noting rfl
    exact steps_change changes (List.append_assoc _ _ _) rfl (begun.attaching stream key disposer)
  | unsubscribe stream key =>
    rw [result, bind_assoc]
    apply ends_require (unknown rfl)
    intro _
    rw [bind_assoc]
    exact ends_detach_done hr (fulfils_unsubscribe stream key) (.unsubscribe stream key)
  | dispose disposer =>
    rw [result, bind_assoc, Work.ends_bind, Work.ends_get, Work.next_ok]
    have held_eq : (r.noting (.begun (.dispose disposer))).disposers.get? disposer = held disposer r.history :=
      hr.held_eq disposer
    rw [held_eq]
    cases given : held disposer r.history with
    | none => exact steps_refused hr (.unheld given)
    | some s =>
      dsimp only
      rw [bind_assoc]
      exact ends_detach_done hr (fulfils_dispose disposer s) (.dispose given)
  | fire stream value =>
    rw [result, bind_assoc]
    apply ends_require (unknown rfl)
    intro _
    rw [bind_assoc]
    simp only [bind_assoc, pure_bind]
    exact ends_fire_done answers stream value hr
  | clear stream =>
    rw [result, bind_assoc]
    apply ends_require (unknown rfl)
    intro _
    rw [bind_assoc]
    exact ends_detach_done hr (fulfils_clear [stream]) (.clear stream)
  | clearAll =>
    rw [result, bind_assoc]
    exact ends_detach_done hr (fulfils_clear _) .clearAll
  | describe stream =>
    rw [result, bind_assoc]
    apply ends_require (unknown rfl)
    intro _
    exact ⟨(hr.noting rfl).noting rfl, rfl, _, List.append_assoc _ _ _, .read rfl .stop⟩
  | names => exact ⟨(hr.noting rfl).noting rfl, rfl, _, List.append_assoc _ _ _, .read rfl .stop⟩
  | interrupt => exact steps_refused hr .interrupt

theorem orderly_play (answers : Answers call) (script : Script α) : Orderly (play call script) := by
  -- What comes next depends on what happened in the step, so the hypothesis holds for every history.
  induction script with
  | stop => exact Work.along_pure ()
  | step step next ih => exact (orderly_perform answers step).bind fun _ => .get_bind fun r => ih r.history

theorem ends_answering {work : Work (Run α) Unit} (orderly : Orderly work) (key : String) (value : α)
    (hr : r.Sound) : Ends (answering key value work) r fun _ r' => r'.Sound ∧ r.Called key value r' := by
  rw [answering, Work.ends_bind, ends_note, Work.next_ok, Work.ends_bind, Work.ends_outcome]
  apply (orderly (r.noting (.called key value))).mono
  intro ended r₁ steps
  obtain ⟨hr₁, streams_eq, inner, history_eq, unfolds⟩ := steps (hr.noting rfl)
  rw [Work.next_ok, Work.ends_bind, ends_note, Work.next_ok, Work.ends_ofExcept]
  refine ⟨hr₁.noting rfl, streams_eq, inner, !ended.isOk, ?_, unfolds⟩
  rw [noting, history_eq, noting]
  simp

/-- However deep listeners are called inside one another, their calls are noted and go on by steps. -/
theorem answers_call (conduct : Conduct α) (depth : Nat) : Answers (Run.call conduct depth) := by
  induction depth with
  | zero => exact fun key value r => ends_answering (Work.along_pure ()) key value
  | succ depth ih =>
    intro key value r
    exact ends_answering (.get_bind fun r => orderly_play ih (conduct r.history key value)) key value

theorem orderly_topStep (conduct : Conduct α) (depth : Nat) (step : Step α) :
    Orderly (topStep conduct depth step) := by
  apply Work.along_keeping_of
  intro r hr
  rw [topStep, Work.ends_bind, Work.ends_outcome]
  apply (orderly_perform (answers_call conduct depth) step r).mono
  intro ended r₁ steps
  obtain ⟨hr₁, steps₁⟩ := steps hr
  rw [Work.next_ok]
  cases ended with
  | ok _ => exact ⟨hr₁, steps₁⟩
  | error fault =>
    have failing : r₁.Steps (r₁.noting (.failed fault)) := ⟨rfl, _, rfl, .fail .stop⟩
    exact ⟨hr₁.noting rfl, trans_of Steps steps₁ failing⟩

theorem sound_start (others : List String) : (start others : Run α).Sound where
  active_eq := rfl
  numbered := rfl
  settled := .refl _
  held_eq _ := rfl

theorem keeping_runOf (conduct : Conduct α) (depth : Nat) (others : List String) (steps : List (Step α)) :
    Keeping Sound Steps (start others) (runOf conduct depth others steps) := by
  rw [runOf]
  generalize start others = r
  induction steps generalizing r with
  | nil => exact refl_of (Keeping Sound Steps) r
  | cons step rest ih => exact trans_of (Keeping Sound Steps) (orderly_topStep conduct depth step r) (ih _)

theorem sound_runOf (conduct : Conduct α) (depth : Nat) (others : List String) (steps : List (Step α)) :
    (runOf conduct depth others steps).Sound :=
  (keeping_runOf conduct depth others steps (sound_start others)).1

theorem unfolds_runOf (conduct : Conduct α) (depth : Nat) (others : List String) (steps : List (Step α)) :
    Unfolds (runOf conduct depth others steps).streams [] .steps (runOf conduct depth others steps).history := by
  obtain ⟨streams_eq, events, history_eq, unfolds⟩ :=
    (keeping_runOf conduct depth others steps (sound_start others)).2
  rw [streams_eq, history_eq]
  exact unfolds

theorem Sound.count_eq (hr : r.Sound) (stream : String) :
    r.bus.count stream + (onStream stream (lost r.history)).length =
      (onStream stream (made r.history)).length := by
  have all := (hr.settled.filter (·.topic = stream)).length_eq
  rw [List.filter_append, List.length_append, ← hr.active_eq] at all
  rw [count, listeners, List.length_map]
  exact all

/-- In the course of a run, each fire on a stream that is there calls the listeners that were attached to it when
the fire began, with its value and in their order, and is then over without a fault. What is attached in the end is
what has been attached without what has gone. -/
structure Delivers (r : Run α) : Prop where
  active_eq : r.bus.active = attached r.history
  unfolds : Unfolds r.streams [] .steps r.history
  fires : ∀ before stream value after, r.history = before ++ .begun (.fire stream value) :: after →
    stream ∈ r.streams → ∃ delivery rest, after = delivery ++ .done (.fire stream value) .nothing :: rest ∧
      Unfolds r.streams (before ++ [.begun (.fire stream value)]) (.calls (keysOn stream (attached before)) value)
        delivery
  count_eq : ∀ stream, r.bus.count stream + (onStream stream (lost r.history)).length =
    (onStream stream (made r.history)).length

theorem delivers_runOf (conduct : Conduct α) (depth : Nat) (others : List String) (steps : List (Step α)) :
    (runOf conduct depth others steps).Delivers where
  active_eq := (sound_runOf conduct depth others steps).active_eq
  unfolds := unfolds_runOf conduct depth others steps
  fires _ _ _ _ := (unfolds_runOf conduct depth others steps).fires
  count_eq := (sound_runOf conduct depth others steps).count_eq

/-- A listener that detaches itself and the next one when it is called: the next one is called all the same,
but by no later fire. -/
example : ((runOf (playing (.ofList [("once", ⟨1, [.dispose "first", .dispose "second"]⟩)])) 1 []
    [.subscribe "created" "once" "first", .subscribe "created" "twice" "second",
      .subscribe "created" "always" "third", .fire "created" 1, .fire "created" 2]).history.filterMap fun e =>
        match e with
        | .called key value => some (key, value)
        | _ => none) = [("once", 1), ("twice", 1), ("always", 1), ("always", 2)] := by decide +kernel

end Run
end GrammarWorkspace.Bus
