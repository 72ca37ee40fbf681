/-!
# Tables in order of first arrival

A finite map that remembers the order in which its keys arrived. Writing a key that is already
there changes its value and leaves its place, so the key order is the order of first arrival.
-/
namespace GrammarWorkspace

namespace Table

variable {α : Type u} {β : Type v}

/-- Change the value of the first entry for a key, or add the key at the end. -/
def put [DecidableEq α] (key : α) (value : β) : List (α × β) → List (α × β)
  | [] => [(key, value)]
  | entry :: rest =>
    if entry.1 = key then (entry.1, value) :: rest else entry :: put key value rest

theorem mem_keys_put [DecidableEq α] {key k : α} {value : β} {entries : List (α × β)} :
    k ∈ (put key value entries).map Prod.fst ↔ k = key ∨ k ∈ entries.map Prod.fst := by
  induction entries with
  | nil => simp [put]
  | cons entry rest ih =>
    by_cases h : entry.1 = key
    · simp [put, h]
    · simp only [put, h, if_false, List.map_cons, List.mem_cons, ih]
      exact or_left_comm

theorem nodup_put [DecidableEq α] (key : α) (value : β) {entries : List (α × β)}
    (h : (entries.map Prod.fst).Nodup) : ((put key value entries).map Prod.fst).Nodup := by
  induction entries with
  | nil => simp [put]
  | cons entry rest ih =>
    simp only [List.map_cons, List.nodup_cons] at h
    by_cases hk : entry.1 = key
    · simpa [put, hk] using h
    · rw [put, if_neg hk]
      simp only [List.map_cons, List.nodup_cons, mem_keys_put, not_or]
      exact ⟨⟨hk, h.1⟩, ih h.2⟩

theorem keys_put_of_mem [DecidableEq α] {key : α} {entries : List (α × β)} (value : β)
    (h : key ∈ entries.map Prod.fst) :
    (put key value entries).map Prod.fst = entries.map Prod.fst := by
  induction entries with
  | nil => simp at h
  | cons entry rest ih =>
    by_cases hk : entry.1 = key
    · simp [put, hk]
    · have hr : key ∈ rest.map Prod.fst := by
        rcases List.mem_cons.mp h with h | h
        · exact absurd h.symm hk
        · exact h
      simp [put, hk, ih hr]

theorem keys_put_of_not_mem [DecidableEq α] {key : α} {entries : List (α × β)} (value : β)
    (h : key ∉ entries.map Prod.fst) :
    (put key value entries).map Prod.fst = entries.map Prod.fst ++ [key] := by
  induction entries with
  | nil => rfl
  | cons entry rest ih =>
    simp only [List.map_cons, List.mem_cons, not_or] at h
    simp [put, Ne.symm h.1, ih h.2]

theorem put_of_not_mem [DecidableEq α] {key : α} {entries : List (α × β)} (value : β)
    (h : key ∉ entries.map Prod.fst) : put key value entries = entries ++ [(key, value)] := by
  induction entries with
  | nil => rfl
  | cons entry rest ih =>
    simp only [List.map_cons, List.mem_cons, not_or] at h
    simp [put, Ne.symm h.1, ih h.2]

theorem find?_eq_some_iff [DecidableEq α] {key : α} {value : β} {entries : List (α × β)}
    (h : (entries.map Prod.fst).Nodup) :
    (entries.find? (·.1 = key)).map Prod.snd = some value ↔ (key, value) ∈ entries := by
  induction entries with
  | nil => simp
  | cons entry rest ih =>
    simp only [List.map_cons, List.nodup_cons] at h
    by_cases hk : entry.1 = key
    · have absent : (key, value) ∉ rest := fun hm =>
        h.1 (List.mem_map.mpr ⟨(key, value), hm, hk.symm⟩)
      simp [hk, absent, Prod.ext_iff, eq_comm]
    · have hne : (key, value) ≠ entry := fun he => hk (congrArg Prod.fst he).symm
      simp only [List.find?_cons_of_neg, hk, decide_false, Bool.false_eq_true, not_false_eq_true,
        List.mem_cons, hne, false_or]
      exact ih h.2

theorem find?_put [DecidableEq α] (key k : α) (value : β) (entries : List (α × β)) :
    ((put key value entries).find? (·.1 = k)).map Prod.snd =
      if key = k then some value else (entries.find? (·.1 = k)).map Prod.snd := by
  induction entries with
  | nil => by_cases h : key = k <;> simp [put, h]
  | cons entry rest ih =>
    by_cases hk : entry.1 = key
    · by_cases h : key = k <;> simp [put, hk, h]
    · rw [put, if_neg hk]
      by_cases he : entry.1 = k
      · have hne : key ≠ k := fun h => hk (he.trans h.symm)
        simp [he, hne]
      · simpa [he] using ih

theorem nodup_filter (p : α × β → Bool) {entries : List (α × β)}
    (h : (entries.map Prod.fst).Nodup) : ((entries.filter p).map Prod.fst).Nodup :=
  h.sublist (List.filter_sublist.map Prod.fst)

end Table

/-- An insertion-ordered finite map. No key occurs twice. -/
structure Table (α : Type u) (β : Type v) where
  entries : List (α × β)
  nodup : (entries.map Prod.fst).Nodup

namespace Table

variable {α : Type u} {β : Type v}

def empty : Table α β := ⟨[], List.nodup_nil⟩

instance : EmptyCollection (Table α β) := ⟨empty⟩

instance : Inhabited (Table α β) := ⟨empty⟩

def keys (t : Table α β) : List α := t.entries.map Prod.fst

def values (t : Table α β) : List β := t.entries.map Prod.snd

def size (t : Table α β) : Nat := t.entries.length

theorem keys_nodup (t : Table α β) : t.keys.Nodup := t.nodup

@[simp] theorem keys_empty : (∅ : Table α β).keys = [] := rfl

variable [DecidableEq α]

def get? (t : Table α β) (key : α) : Option β :=
  (t.entries.find? (·.1 = key)).map Prod.snd

def contains (t : Table α β) (key : α) : Bool := t.keys.contains key

def insert (t : Table α β) (key : α) (value : β) : Table α β :=
  ⟨put key value t.entries, nodup_put key value t.nodup⟩

def erase (t : Table α β) (key : α) : Table α β :=
  ⟨t.entries.filter (·.1 ≠ key), nodup_filter _ t.nodup⟩

/-- A later value of a key replaces an earlier one. -/
def ofList (entries : List (α × β)) : Table α β :=
  entries.foldl (fun t entry => t.insert entry.1 entry.2) empty

def push (t : Table α (List β)) (key : α) (value : β) : Table α (List β) :=
  t.insert key ((t.get? key).getD [] ++ [value])

def groupBy (key : β → α) (values : List β) : Table α (List β) :=
  values.foldl (fun t value => t.push (key value) value) empty

@[simp] theorem get?_empty (key : α) : (∅ : Table α β).get? key = none := rfl

@[simp] theorem mem_keys_insert {t : Table α β} {key k : α} {value : β} :
    k ∈ (t.insert key value).keys ↔ k = key ∨ k ∈ t.keys := mem_keys_put

theorem get?_insert (t : Table α β) (key k : α) (value : β) :
    (t.insert key value).get? k = if key = k then some value else t.get? k :=
  find?_put key k value t.entries

theorem keys_insert_of_mem {t : Table α β} {key : α} (value : β) (h : key ∈ t.keys) :
    (t.insert key value).keys = t.keys := keys_put_of_mem value h

theorem keys_insert_of_not_mem {t : Table α β} {key : α} (value : β) (h : key ∉ t.keys) :
    (t.insert key value).keys = t.keys ++ [key] := keys_put_of_not_mem value h

theorem entries_insert_of_not_mem {t : Table α β} {key : α} (value : β) (h : key ∉ t.keys) :
    (t.insert key value).entries = t.entries ++ [(key, value)] := put_of_not_mem value h

@[simp] theorem contains_iff {t : Table α β} {key : α} : t.contains key = true ↔ key ∈ t.keys := by
  simp [contains]

theorem get?_eq_some_iff {t : Table α β} {key : α} {value : β} :
    t.get? key = some value ↔ (key, value) ∈ t.entries := find?_eq_some_iff t.nodup

theorem get?_eq_none_iff {t : Table α β} {key : α} : t.get? key = none ↔ key ∉ t.keys := by
  simp only [get?, Option.map_eq_none_iff, List.find?_eq_none, decide_eq_true_eq, keys,
    List.mem_map, not_exists, not_and]

theorem mem_keys_iff {t : Table α β} {key : α} : key ∈ t.keys ↔ ∃ value, t.get? key = some value := by
  cases h : t.get? key with
  | none => simpa using get?_eq_none_iff.mp h
  | some value => exact ⟨fun _ => ⟨value, rfl⟩, fun _ => List.mem_map_of_mem (get?_eq_some_iff.mp h)⟩

theorem mem_keys_of_get? {t : Table α β} {key : α} {value : β} (h : t.get? key = some value) :
    key ∈ t.keys := mem_keys_iff.mpr ⟨value, h⟩

theorem get?_erase (t : Table α β) (key k : α) :
    (t.erase key).get? k = if k = key then none else t.get? k := by
  ext value
  rw [get?_eq_some_iff]
  by_cases h : k = key
  · simp [erase, h]
  · simp [erase, h, get?_eq_some_iff]

theorem keys_erase (t : Table α β) (key : α) : (t.erase key).keys = t.keys.filter (· ≠ key) := by
  simp only [keys, erase, List.filter_map, Function.comp_def]

theorem mem_keys_erase {t : Table α β} {key k : α} :
    k ∈ (t.erase key).keys ↔ k ∈ t.keys ∧ k ≠ key := by
  simp [keys_erase]

end Table
end GrammarWorkspace
