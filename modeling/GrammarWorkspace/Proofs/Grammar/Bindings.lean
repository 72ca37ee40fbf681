import GrammarWorkspace.Proofs.Grammar.Ordering
import Mathlib.Data.List.Perm.Basic

/-!
# All that is bound to a name

The declarations of a name and the references to it are the identifiers of this name in the loaded
files, each of them once.
-/
namespace GrammarWorkspace

namespace Table

variable {α β γ : Type} [DecidableEq α]

theorem getD_foldl_push (key : β → α) (value : β → γ) (all : List β) (t : Table α (List γ)) (k : α) :
    ((all.foldl (fun t b => t.push (key b) (value b)) t).get? k).getD [] =
      (t.get? k).getD [] ++ (all.filter (key · = k)).map value := by
  induction all generalizing t with
  | nil => simp
  | cons b rest ih =>
    rw [List.foldl_cons, ih, push, get?_insert]
    by_cases hk : key b = k
    · simp [hk]
    · simp [hk]

theorem getD_groupBy (key : β → α) (values : List β) (k : α) :
    ((groupBy key values).get? k).getD [] = values.filter (key · = k) := by
  have pushed := getD_foldl_push key id values empty k
  rw [List.map_id] at pushed
  exact pushed

end Table

namespace Grammar

theorem Tree.identifiers_perm (t : Tree) : t.identifiers.Perm
    (t.productions.map Production.name ++ t.productions.flatMap Production.mentions) :=
  (List.map_append_flatMap_perm t.productions Production.name Production.mentions).symm

namespace Compilation

variable {c : Compilation} {file name : String} {s : Source}

theorem declarationsOf_eq (c : Compilation) (name : String) :
    c.declarationsOf name = (c.sources.values.flatMap Source.declared).filter (·.name = name) :=
  Table.getD_groupBy _ _ _

theorem referencesTo_eq (c : Compilation) (name : String) :
    c.referencesTo name = (c.sources.values.flatMap Source.mentioned).filter (·.name = name) :=
  Table.getD_groupBy _ _ _

def boundTo (c : Compilation) (name : String) : List Occurrence := c.declarationsOf name ++ c.referencesTo name

theorem mem_boundTo {o : Occurrence} : o ∈ c.boundTo name ↔
    o.name = name ∧ ∃ s ∈ c.sources.values, o ∈ s.declared ∨ o ∈ s.mentioned := by
  simp only [boundTo, declarationsOf_eq, referencesTo_eq, List.mem_append, List.mem_filter,
    List.mem_flatMap, decide_eq_true_iff]
  constructor
  · rintro (⟨⟨s, hs, ho⟩, named⟩ | ⟨⟨s, hs, ho⟩, named⟩)
    · exact ⟨named, s, hs, .inl ho⟩
    · exact ⟨named, s, hs, .inr ho⟩
  · rintro ⟨named, s, hs, ho | ho⟩
    · exact .inl ⟨⟨s, hs, ho⟩, named⟩
    · exact .inr ⟨⟨s, hs, ho⟩, named⟩

theorem file_of_occurs {o : Occurrence} (ho : o ∈ s.declared ∨ o ∈ s.mentioned) : o.file = s.file := by
  rcases ho with ho | ho
  · obtain ⟨p, -, rfl⟩ := List.mem_map.mp ho
    rfl
  · obtain ⟨p, -, ho⟩ := List.mem_flatMap.mp ho
    obtain ⟨id, -, rfl⟩ := List.mem_map.mp ho
    rfl

theorem mem_keys_of_bound (genuine : ∀ file s, c.source? file = some s → s.file = file) {o : Occurrence}
    (ho : o ∈ c.boundTo name) : o.file ∈ c.sources.keys := by
  obtain ⟨-, s, hs, ho⟩ := mem_boundTo.mp ho
  obtain ⟨⟨file, s⟩, mem, rfl⟩ := List.mem_map.mp hs
  have found := Table.get?_eq_some_iff.mpr mem
  rw [file_of_occurs ho, genuine file s found]
  exact Table.mem_keys_of_get? found

/-- What is bound to a name in one file are the identifiers of this name there. -/
theorem bound_perm (genuine : ∀ file s, c.source? file = some s → s.file = file)
    (hs : c.source? file = some s) (name : String) :
    ((c.boundTo name).filter (·.file = file)).Perm
      ((s.tree.identifiers.filter (·.name = name)).map (⟨file, ·⟩)) := by
  have own (f : Source → List Occurrence) (filed : ∀ s, ∀ o ∈ f s, o.file = s.file) :
      (c.sources.values.flatMap f).filter (·.file = file) = f s := by
    have mine := c.sources.filter_flatMap_values f Occurrence.file
      (fun key s' hs' o ho => (filed s' o ho).trans (genuine key s' hs')) file
    rwa [show c.sources.get? file = some s from hs] at mine
  have declared := own Source.declared fun _ _ ho => file_of_occurs (.inl ho)
  have mentioned := own Source.mentioned fun _ _ ho => file_of_occurs (.inr ho)
  have file_eq := genuine file s hs
  rw [boundTo, declarationsOf_eq, referencesTo_eq, List.filter_append, List.filter_comm, declared,
    List.filter_comm, mentioned, ← List.filter_append]
  have all : (s.declared ++ s.mentioned).Perm (s.tree.identifiers.map (⟨file, ·⟩)) := by
    have listed : s.declared ++ s.mentioned = (s.tree.productions.map Production.name ++
        s.tree.productions.flatMap Production.mentions).map (⟨file, ·⟩) := by
      simp [Source.declared, Source.mentioned, file_eq, List.map_flatMap, Function.comp_def]
    rw [listed]
    exact s.tree.identifiers_perm.symm.map _
  have named := all.filter (·.name = name)
  rwa [List.filter_map] at named

/-- At an identifier, all that is bound to its name is found, and it is among that itself. -/
theorem referencesAt_of_identifierAt (genuine : ∀ file s, c.source? file = some s → s.file = file)
    {line character : Int} {o : Occurrence} (found : c.identifierAt file line character = some o) :
    c.referencesAt file line character true = c.boundTo o.name ∧ o ∈ c.boundTo o.name := by
  constructor
  · rw [referencesAt, found]
    rfl
  · obtain ⟨s, hs, found⟩ := Option.bind_eq_some_iff.mp found
    obtain ⟨id, hid, same⟩ := Option.bind_eq_some_iff.mp found
    cases same
    have mem : id ∈ s.tree.identifiers := List.mem_of_find?_eq_some hid
    refine (List.mem_filter.mp ((bound_perm genuine hs id.name).symm.subset ?_)).1
    exact List.mem_map_of_mem (List.mem_filter.mpr ⟨mem, decide_eq_true rfl⟩)

end Compilation
end Grammar
end GrammarWorkspace
