import GrammarWorkspace.Proofs.Bus.Delivery

/-!
# What disposers end

A disposer goes by the listener that it was made for: it ends the oldest subscription of that listener to its
stream. That is its own one if no older one is in force, as when no listener subscribes twice. Otherwise it is
another one, and the listener may move to a later place among those that are called.
-/
namespace GrammarWorkspace.Bus

variable {α : Type}

theorem find?_eq_some_iff_least {β : Type} {rank : β → Nat} {p : β → Bool} {l : List β}
    (ordered : l.Pairwise fun a b => rank a < rank b) {a : β} :
    l.find? p = some a ↔ a ∈ l ∧ p a = true ∧ ∀ b ∈ l, p b = true → rank a ≤ rank b := by
  induction l with
  | nil => simp
  | cons first l ih =>
    obtain ⟨later, ordered⟩ := List.pairwise_cons.mp ordered
    by_cases hp : p first = true
    · rw [List.find?_cons_of_pos hp, Option.some.injEq]
      constructor
      · rintro rfl
        refine ⟨List.mem_cons_self, hp, fun b hb _ => ?_⟩
        rcases List.mem_cons.mp hb with rfl | hb
        · exact Nat.le_refl _
        · exact Nat.le_of_lt (later b hb)
      · rintro ⟨here, -, least⟩
        rcases List.mem_cons.mp here with rfl | here
        · rfl
        · exact absurd (later a here) (Nat.not_lt.mpr (least first List.mem_cons_self hp))
    · rw [List.find?_cons_of_neg hp, ih ordered]
      constructor
      · rintro ⟨here, ha, least⟩
        refine ⟨List.mem_cons_of_mem _ here, ha, fun b hb hpb => ?_⟩
        rcases List.mem_cons.mp hb with rfl | hb
        · exact absurd hpb hp
        · exact least b hb hpb
      · rintro ⟨here, ha, least⟩
        rcases List.mem_cons.mp here with rfl | here
        · exact absurd ha hp
        · exact ⟨here, ha, fun b hb => least b (List.mem_cons_of_mem _ hb)⟩

def Alike (s t : Subscription String String) : Prop := t.topic = s.topic ∧ t.listener = s.listener

theorem isOf_iff {s t : Subscription String String} : isOf s.topic s.listener t = true ↔ Alike s t := by
  simp [isOf, Alike]

/-- Of the subscriptions in force, the oldest one of the listener of `s` to its stream goes, and no other. It
is `s` itself just if `s` is in force and no older one of them is, and none goes just if there is none. -/
structure EndsOldest (s : Subscription String String) (subs gone rest : List (Subscription String String)) :
    Prop where
  gone_eq : gone = (subs.find? (isOf s.topic s.listener)).toList
  rest_eq : rest = without subs gone
  own_iff : gone = [s] ↔ s ∈ subs ∧ ∀ t ∈ subs, Alike s t → s.id ≤ t.id
  none_iff : rest = subs ↔ ∀ t ∈ subs, ¬ Alike s t

theorem endsOldest {s : Subscription String String} {subs gone : List (Subscription String String)}
    (ordered : subs.Pairwise fun s t => s.id < t.id)
    (gone_eq : gone = (subs.find? (isOf s.topic s.listener)).toList) :
    EndsOldest s subs gone (without subs gone) where
  gone_eq := gone_eq
  rest_eq := rfl
  own_iff := by
    have self : Alike s s := ⟨rfl, rfl⟩
    rw [gone_eq, Option.toList_eq_singleton_iff, find?_eq_some_iff_least ordered]
    simp only [isOf_iff, self, true_and]
  none_iff := by
    rw [gone_eq, ← eraseP_eq_without (nodup_of_ordered ordered), List.eraseP_eq_self_iff]
    simp only [isOf_iff]

namespace Run

/-- In the course of a run, a disposer that is called ends the oldest subscription that its listener still has
to its stream, and no fault keeps it from that. What remains is called in the order in which it was made. -/
structure Disposes (r : Run α) : Prop where
  disposed : ∀ before disposer after, r.history = before ++ .begun (.dispose disposer) :: after →
    ∀ s, held disposer before = some s → ∃ gone rest,
      after = .ended (.disposed disposer s) gone :: .done (.dispose disposer) .nothing :: rest ∧
        EndsOldest s (attached before) gone
          (attached (before ++ [.begun (.dispose disposer), .ended (.disposed disposer s) gone]))
  fires : ∀ before stream value after, r.history = before ++ .begun (.fire stream value) :: after →
    stream ∈ r.streams → (attached before).Sublist (made before) ∧ ∃ delivery rest,
      after = delivery ++ .done (.fire stream value) .nothing :: rest ∧
        Unfolds r.streams (before ++ [.begun (.fire stream value)]) (.calls (keysOn stream (attached before)) value)
          delivery

theorem Sound.ordered_attached {r : Run α} (hr : r.Sound) {before after : List (Event α)}
    (split : r.history = before ++ after) : (attached before).Pairwise fun s t => s.id < t.id := by
  have first : (made before).Sublist (made r.history) := by
    rw [split, made, made, List.filterMap_append]
    exact List.sublist_append_left _ _
  exact hr.ordered.sublist ((attached_sublist before).trans first)

theorem disposes_runOf (conduct : Conduct α) (depth : Nat) (others : List String) (steps : List (Step α)) :
    (runOf conduct depth others steps).Disposes where
  disposed before disposer after split s given := by
    obtain ⟨rest, rfl⟩ := (unfolds_runOf conduct depth others steps).disposes split given
    refine ⟨_, rest, rfl, ?_⟩
    rw [List.append_cons, attached_append, attached_append, follow_begun, follow_ended]
    exact endsOldest ((sound_runOf conduct depth others steps).ordered_attached split) rfl
  fires before _ _ _ split known :=
    ⟨attached_sublist before, (unfolds_runOf conduct depth others steps).fires split known⟩

/-- Every disposer ends its own subscription if it is in force, and otherwise none. -/
def EndsOwn (r : Run α) : Prop := ∀ before disposer s gone after,
  r.history = before ++ .ended (.disposed disposer s) gone :: after →
    (s ∈ attached before → gone = [s]) ∧ (s ∉ attached before → gone = [])

/-- A listener subscribes, another one does, and the first one subscribes again. Its second disposer is called. -/
def recurrent : Run Nat := runOf (playing {}) 0 []
  [.subscribe "created" "a" "first", .subscribe "created" "b" "second", .subscribe "created" "a" "third",
    .dispose "third", .fire "created" 1]

/-- It is the first subscription that goes, so that the listener is called after the other one. -/
theorem not_endsOwn_recurrent : ¬ recurrent.EndsOwn := by
  intro own
  obtain ⟨gone_eq, -⟩ := own (recurrent.history.take 10) "third" ⟨2, "created", "a"⟩ [⟨0, "created", "a"⟩]
    (recurrent.history.drop 11) rfl
  exact absurd (gone_eq (by decide +kernel)) (by decide +kernel)

end Run
end GrammarWorkspace.Bus
