import GrammarWorkspace.Grammar.Binding
import GrammarWorkspace.Proofs.Grammar.Loading

/-!
# Compilations that only differ in who read what

Serial numbers tell which compilation read a source, so that sharing can be seen. Compilations that
are alike but for them have the same declarations, references and diagnostics, and two loads of the
same reading come out alike.
-/
namespace GrammarWorkspace

namespace Table

variable {α β γ : Type}

def mapValues (f : β → γ) (t : Table α β) : Table α γ :=
  ⟨t.entries.map fun e => (e.1, f e.2), by simpa [Function.comp_def] using t.nodup⟩

@[simp] theorem keys_mapValues (f : β → γ) (t : Table α β) : (t.mapValues f).keys = t.keys := by
  simp [mapValues, keys, Function.comp_def]

theorem keys_eq_of_mapValues {f : β → γ} {t t' : Table α β} (same : t.mapValues f = t'.mapValues f) :
    t.keys = t'.keys := by
  rw [← keys_mapValues f t, same, keys_mapValues]

@[simp] theorem values_mapValues (f : β → γ) (t : Table α β) :
    (t.mapValues f).values = t.values.map f := by
  simp [mapValues, values, Function.comp_def]

@[simp] theorem get?_mapValues [DecidableEq α] (f : β → γ) (t : Table α β) (key : α) :
    (t.mapValues f).get? key = (t.get? key).map f := by
  simp [mapValues, get?, List.find?_map, Function.comp_def]

theorem ext_entries {t t' : Table α β} (h : t.entries = t'.entries) : t = t' := by
  cases t
  cases t'
  cases h
  rfl

theorem put_map [DecidableEq α] {ρ : α → α} {f : β → γ} {key : α} {value : β} {entries : List (α × β)}
    (apart : ∀ e ∈ entries, ρ e.1 = ρ key → e.1 = key) :
    put (ρ key) (f value) (entries.map fun e => (ρ e.1, f e.2)) =
      (put key value entries).map fun e => (ρ e.1, f e.2) := by
  induction entries with
  | nil => rfl
  | cons e rest ih =>
    have tail := ih fun e' hm => apart e' (List.mem_cons_of_mem e hm)
    by_cases he : e.1 = key
    · simp [put, he]
    · have other : ρ e.1 ≠ ρ key := fun same => he (apart e List.mem_cons_self same)
      rw [List.map_cons, put, if_neg other, tail, put, if_neg he, List.map_cons]

theorem mapValues_insert [DecidableEq α] (f : β → γ) (t : Table α β) (key : α) (value : β) :
    (t.insert key value).mapValues f = (t.mapValues f).insert key (f value) :=
  ext_entries (put_map (ρ := id) fun _ _ same => same).symm

def filterMap (f : β → Option γ) (t : Table α β) : Table α γ where
  entries := t.entries.filterMap fun e => (f e.2).map (Prod.mk e.1)
  nodup := by
    have sub : ∀ entries : List (α × β),
        ((entries.filterMap fun e => (f e.2).map (Prod.mk e.1)).map Prod.fst).Sublist
          (entries.map Prod.fst) := by
      intro entries
      induction entries with
      | nil => exact .slnil
      | cons e rest ih =>
        cases h : f e.2 with
        | none =>
          rw [List.filterMap_cons_none (by rw [h]; rfl)]
          exact ih.cons e.1
        | some c =>
          rw [List.filterMap_cons_some (b := (e.1, c)) (by rw [h]; rfl)]
          exact ih.cons_cons e.1
    exact t.nodup.sublist (sub t.entries)

theorem get?_filterMap [DecidableEq α] (f : β → Option γ) (t : Table α β) (key : α) :
    (t.filterMap f).get? key = (t.get? key).bind f := by
  ext c
  rw [get?_eq_some_iff, Option.bind_eq_some_iff]
  simp only [filterMap, List.mem_filterMap, Option.map_eq_some_iff, Prod.mk.injEq]
  constructor
  · rintro ⟨⟨key', b⟩, hm, c', hf, rfl, rfl⟩
    exact ⟨b, get?_eq_some_iff.mpr hm, hf⟩
  · rintro ⟨b, hb, hf⟩
    exact ⟨(key, b), get?_eq_some_iff.mp hb, c, hf, rfl, rfl⟩

end Table

namespace Grammar

def Source.unsigned (s : Source) : Source := { s with readBy := 0 }

theorem Source.IsOf.unsigned {s : Source} {file text : String} (h : s.IsOf file text) :
    s.unsigned = .read 0 file text := by
  obtain ⟨rfl, rfl, tree_eq⟩ := h
  simp only [Source.unsigned, Source.read, tree_eq]

theorem Source.eq_of_unsigned {s s' : Source} (h : s.unsigned = s'.unsigned) :
    s.file = s'.file ∧ s.text = s'.text ∧ s.tree = s'.tree := by
  simpa [Source.unsigned] using h

theorem Loads.unsigned_eq {reading : Reading} {loaded loaded' result result' : Table String Source}
    {queue : List String} (h : Loads reading loaded queue result)
    (h' : Loads reading loaded' queue result')
    (same : loaded.mapValues Source.unsigned = loaded'.mapValues Source.unsigned) :
    result.mapValues Source.unsigned = result'.mapValues Source.unsigned := by
  induction h generalizing loaded' with
  | done =>
    cases h'
    exact same
  | known hf _ ih =>
    cases h' with
    | known _ rest => exact ih rest same
    | missing hn => exact absurd (Table.keys_eq_of_mapValues same ▸ hf) hn
    | load hn => exact absurd (Table.keys_eq_of_mapValues same ▸ hf) hn
  | missing hf hr _ ih =>
    cases h' with
    | known hk => exact absurd (Table.keys_eq_of_mapValues same ▸ hk) hf
    | missing _ _ rest => exact ih rest same
    | load _ hr' =>
      rw [hr] at hr'
      cases hr'
  | load hf hr hs _ ih =>
    cases h' with
    | known hk => exact absurd (Table.keys_eq_of_mapValues same ▸ hk) hf
    | missing _ hr' =>
      rw [hr] at hr'
      cases hr'
    | load hn hr' hs' rest =>
      rw [hr] at hr'
      cases hr'
      refine ih rest ?_
      rw [Table.mapValues_insert, Table.mapValues_insert, same, hs.unsigned, hs'.unsigned]

namespace Compilation

structure Alike (c c' : Compilation) : Prop where
  reportUnused_eq : c.request.reportUnused = c'.request.reportUnused
  sources_eq : c.sources.mapValues Source.unsigned = c'.sources.mapValues Source.unsigned

namespace Alike

variable {c c' : Compilation}

theorem keys_eq (h : Alike c c') : c.sources.keys = c'.sources.keys :=
  Table.keys_eq_of_mapValues h.sources_eq

theorem source?_eq (h : Alike c c') (file : String) :
    (c.source? file).map Source.unsigned = (c'.source? file).map Source.unsigned := by
  have := congrArg (Table.get? · file) h.sources_eq
  simpa [source?] using this

theorem flatMap_eq {α : Type} (h : Alike c c') (f : Source → List α)
    (hf : ∀ s, f s = f s.unsigned) : c.sources.values.flatMap f = c'.sources.values.flatMap f := by
  have unsign : ∀ t : Table String Source,
      t.values.flatMap f = (t.mapValues Source.unsigned).values.flatMap f := by
    intro t
    rw [Table.values_mapValues, List.flatMap_map]
    exact congrArg (List.flatMap · t.values) (funext hf)
  rw [unsign, h.sources_eq, ← unsign]

theorem declarations_eq (h : Alike c c') : c.declarations = c'.declarations := by
  unfold declarations
  rw [h.flatMap_eq Source.declared fun _ => rfl]

theorem references_eq (h : Alike c c') : c.references = c'.references := by
  unfold references
  rw [h.flatMap_eq Source.mentioned fun _ => rfl]

theorem undeclared_eq (h : Alike c c') : c.undeclared = c'.undeclared := by
  unfold undeclared
  rw [h.declarations_eq, h.flatMap_eq Source.mentioned fun _ => rfl]

theorem unreferenced_eq (h : Alike c c') : c.unreferenced = c'.unreferenced := by
  unfold unreferenced
  rw [h.declarations_eq, h.references_eq, h.reportUnused_eq]

theorem unreadable_eq (h : Alike c c') {s s' : Source} (hs : s.unsigned = s'.unsigned) :
    c.unreadable s = c'.unreadable s' := by
  obtain ⟨file_eq, -, tree_eq⟩ := Source.eq_of_unsigned hs
  have contains_eq : ∀ file, c.sources.contains file = c'.sources.contains file := fun file => by
    unfold Table.contains
    rw [h.keys_eq]
  unfold unreadable Source.target
  simp only [file_eq, tree_eq, contains_eq]

theorem diagnosticsFor_eq (h : Alike c c') (file : String) :
    c.diagnosticsFor file = c'.diagnosticsFor file := by
  have sources := h.source?_eq file
  unfold diagnosticsFor duplicates
  rw [h.declarations_eq, h.undeclared_eq, h.unreferenced_eq]
  cases hs : c.source? file with
  | none =>
    cases hs' : c'.source? file with
    | none => rfl
    | some s' => simp [hs, hs'] at sources
  | some s =>
    cases hs' : c'.source? file with
    | none => simp [hs, hs'] at sources
    | some s' =>
      simp only [hs, hs', Option.map_some, Option.some.injEq] at sources
      obtain ⟨file_eq, -, tree_eq⟩ := Source.eq_of_unsigned sources
      simp only [h.unreadable_eq sources, Source.syntaxDiagnostics, file_eq, tree_eq]

end Alike

/-- The reading of a table of files: what is not in it has no text. -/
def readingOf (files : Table String String) : Reading := fun file => .ok (files.get? file)

theorem nextReadable_lift {σ : Type} (read : String → StateM σ (Option String))
    (loaded : Table String Source) (queue : List String) :
    nextReadable (m := Work σ) (fun file => ExceptT.lift (read file)) loaded queue =
      ExceptT.lift (nextReadable read loaded queue) := by
  induction queue with
  | nil => simp [nextReadable]
  | cons file queue ih =>
    rw [nextReadable, nextReadable]
    split
    · exact ih
    · simp only [ExceptT.lift_bind]
      congr 1
      funext answer
      cases answer with
      | none => exact ih
      | some text => simp

theorem loadFrom_lift {σ : Type} (read : String → StateM σ (Option String))
    (sourceOf : String → String → Source) (bound : Nat) (loaded : Table String Source)
    (queue : List String) :
    loadFrom (m := Work σ) (fun file => ExceptT.lift (read file)) sourceOf bound loaded queue =
      ExceptT.lift (loadFrom read sourceOf bound loaded queue) := by
  induction bound generalizing loaded queue with
  | zero => simp [loadFrom]
  | succ bound ih =>
    rw [loadFrom, loadFrom, nextReadable_lift, ExceptT.lift_bind]
    congr 1
    funext answer
    rcases answer with _ | ⟨file, text, rest⟩
    · simp
    · exact ih _ _

theorem text_sourceOf (serial : Nat) (previous : Option Compilation) (file text : String) :
    (sourceOf serial previous file text).text = text := by
  unfold sourceOf
  split
  · split
    · assumption
    · rfl
  · rfl

theorem isOf_sourceOf (serial : Nat) {previous : Option Compilation}
    (genuine : ∀ c, previous = some c → ∀ file s, c.source? file = some s →
      ∃ text, s.IsOf file text) (file text : String) :
    (sourceOf serial previous file text).IsOf file text := by
  unfold sourceOf
  split
  · rename_i old hold
    obtain ⟨c, hc, hs⟩ := Option.bind_eq_some_iff.mp hold
    obtain ⟨t, ht⟩ := genuine c hc file old hs
    split
    · rename_i he
      have : t = text := ht.text_eq.symm.trans he
      exact this ▸ ht
    · exact ⟨rfl, rfl, rfl⟩
  · exact ⟨rfl, rfl, rfl⟩

theorem loads_ofFiles (files : Table String String) (serial : Nat) (request : Request) :
    Loads (readingOf files) {} request.roots (ofFiles files serial request none).1.sources := by
  have reads : ReadsBy (readingOf files) request.roots (fun _ (_ : List String) => True)
      fun file => ExceptT.lift (readFrom files file) :=
    fun _ _ _ _ _ _ _ => ⟨rfl, trivial, fun _ _ => trivial⟩
  have enough : files.keys.length < (∅ : Table String Source).size + (files.size + 1) := by
    simp only [Table.keys, Table.size, List.length_map]
    omega
  have genuine : ∀ c, (none : Option Compilation) = some c → ∀ file s, c.source? file = some s →
      ∃ text, s.IsOf file text := fun _ hc => by cases hc
  have loads := ends_loadFrom reads (isOf_sourceOf serial genuine) files.keys
    (fun file text h => Table.mem_keys_of_get? (Except.ok.inj h)) (files.size + 1) {} request.roots
    (.start _ _) enough (s := []) trivial
  rw [loadFrom_lift] at loads
  exact loads.2

end Compilation
end Grammar
end GrammarWorkspace
