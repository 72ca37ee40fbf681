import GrammarWorkspace.Grammar.Compilation
import GrammarWorkspace.Proofs.Ending
import Mathlib.Data.List.Perm.Subperm
import Mathlib.Logic.Relation

/-!
# What loading reads, and in which order

`Loads` is breadth-first loading as a relation, apart from bounds and from who reads: a reading says
of every file what an attempt to read it comes to. Loading that ends has answered every file that the
roots reach, and its outcome depends on nothing else.
-/
namespace GrammarWorkspace.Grammar

abbrev Reading := String → Except Fault (Option String)

def importsOf (file text : String) : List String := (Source.read 0 file text).targets

/-- The files that the roots reach through imports of files with a text. -/
inductive Reached (reading : Reading) (roots : List String) : String → Prop where
  | root {file} : file ∈ roots → Reached reading roots file
  | imported {file text target} : Reached reading roots file → reading file = .ok (some text) →
      target ∈ importsOf file text → Reached reading roots target

structure Source.IsOf (s : Source) (file text : String) : Prop where
  file_eq : s.file = file
  text_eq : s.text = text
  tree_eq : s.tree = parse text

theorem Source.IsOf.targets {s : Source} {file text : String} (h : s.IsOf file text) :
    s.targets = importsOf file text := by
  obtain ⟨rfl, rfl, tree_eq⟩ := h
  unfold Source.targets importsOf
  rw [tree_eq]
  rfl

inductive Loads (reading : Reading) :
    Table String Source → List String → Table String Source → Prop where
  | done (loaded) : Loads reading loaded [] loaded
  | known {loaded file queue result} : file ∈ loaded.keys → Loads reading loaded queue result →
      Loads reading loaded (file :: queue) result
  | missing {loaded file queue result} : file ∉ loaded.keys → reading file = .ok none →
      Loads reading loaded queue result → Loads reading loaded (file :: queue) result
  | load {loaded file queue result text} {s : Source} : file ∉ loaded.keys →
      reading file = .ok (some text) → s.IsOf file text →
      Loads reading (loaded.insert file s) (queue ++ importsOf file text) result →
      Loads reading loaded (file :: queue) result

namespace Loads

variable {reading reading' : Reading} {loaded result : Table String Source} {queue : List String}

theorem keeps_loaded (h : Loads reading loaded queue result) {file : String} {s : Source}
    (hs : loaded.get? file = some s) : result.get? file = some s := by
  induction h with
  | done => exact hs
  | known _ _ ih => exact ih hs
  | missing _ _ _ ih => exact ih hs
  | @load loaded f _ _ _ _ hf _ _ _ ih =>
    apply ih
    rw [Table.get?_insert, if_neg, hs]
    rintro rfl
    exact hf (Table.mem_keys_of_get? hs)

/-- Every file of the queue has been answered: it is loaded, or it has no text. -/
theorem answers_queue (h : Loads reading loaded queue result) :
    ∀ file ∈ queue, file ∈ result.keys ∨ reading file = .ok none := by
  induction h with
  | done => simp
  | known hf rest ih =>
    intro file hm
    rcases List.mem_cons.mp hm with rfl | hm
    · obtain ⟨s, hs⟩ := Table.mem_keys_iff.mp hf
      exact Or.inl (Table.mem_keys_of_get? (rest.keeps_loaded hs))
    · exact ih file hm
  | missing _ hr _ ih =>
    intro file hm
    rcases List.mem_cons.mp hm with rfl | hm
    · exact Or.inr hr
    · exact ih file hm
  | @load loaded f _ _ _ s hf hr hs rest ih =>
    intro file hm
    rcases List.mem_cons.mp hm with rfl | hm
    · have here : (loaded.insert file s).get? file = some s := by rw [Table.get?_insert, if_pos rfl]
      exact Or.inl (Table.mem_keys_of_get? (rest.keeps_loaded here))
    · exact ih file (List.mem_append_left _ hm)

/-- What is true of the sources at the start and of every source that is read is true in the end. -/
theorem sources_induction {P : String → Source → Prop} (h : Loads reading loaded queue result)
    (start : ∀ file s, loaded.get? file = some s → P file s)
    (read : ∀ file text s, reading file = .ok (some text) → s.IsOf file text → P file s) :
    ∀ file s, result.get? file = some s → P file s := by
  induction h with
  | done => exact start
  | known _ _ ih => exact ih start
  | missing _ _ _ ih => exact ih start
  | load _ hr hs _ ih =>
    refine ih fun file s hf => ?_
    rw [Table.get?_insert] at hf
    split at hf
    · rename_i he
      subst he
      cases hf
      exact read _ _ _ hr hs
    · exact start file s hf

theorem source_is_of (h : Loads reading {} queue result) {file : String} {s : Source}
    (hs : result.get? file = some s) :
    ∃ text, reading file = .ok (some text) ∧ s.IsOf file text :=
  h.sources_induction (P := fun file s => ∃ text, reading file = .ok (some text) ∧ s.IsOf file text)
    (fun _ _ h => by cases h) (fun _ text _ hr hs => ⟨text, hr, hs⟩) file s hs

theorem answers_imports (h : Loads reading loaded queue result) {file text target : String}
    (hr : reading file = .ok (some text)) (hf : file ∈ result.keys) (hn : file ∉ loaded.keys)
    (ht : target ∈ importsOf file text) : target ∈ result.keys ∨ reading target = .ok none := by
  induction h with
  | done => exact absurd hf hn
  | known _ _ ih => exact ih hf hn
  | missing _ _ _ ih => exact ih hf hn
  | @load loaded f queue result t s _ hr' _ rest ih =>
    by_cases he : file = f
    · subst he
      have : t = text := by
        rw [hr] at hr'
        cases hr'
        rfl
      subst this
      exact rest.answers_queue target (List.mem_append_right _ ht)
    · exact ih hf (by simp [Table.mem_keys_insert, he, hn])

theorem answers_reached {roots : List String} (h : Loads reading {} roots result) {file : String}
    (hf : Reached reading roots file) : file ∈ result.keys ∨ reading file = .ok none := by
  induction hf with
  | root hm => exact h.answers_queue _ hm
  | imported _ hr ht ih =>
    rcases ih with ih | ih
    · exact h.answers_imports hr ih (by simp) ht
    · rw [hr] at ih
      cases ih

/-- Whatever contains the start and goes with every import contains all that is loaded. -/
theorem keys_induction {P : String → Prop} (h : Loads reading loaded queue result)
    (start : ∀ file ∈ loaded.keys, P file) (queued : ∀ file ∈ queue, P file)
    (closed : ∀ file text target, P file → reading file = .ok (some text) →
      target ∈ importsOf file text → P target) : ∀ file ∈ result.keys, P file := by
  induction h with
  | done => exact start
  | known _ _ ih => exact ih start fun f hf => queued f (List.mem_cons_of_mem _ hf)
  | missing _ _ _ ih => exact ih start fun f hf => queued f (List.mem_cons_of_mem _ hf)
  | @load loaded f _ _ text _ _ hr _ _ ih =>
    have here : P f := queued f List.mem_cons_self
    refine ih (fun g hg => ?_) fun g hg => ?_
    · rcases Table.mem_keys_insert.mp hg with rfl | hg
      · exact here
      · exact start g hg
    · rcases List.mem_append.mp hg with hg | hg
      · exact queued g (List.mem_cons_of_mem _ hg)
      · exact closed f text g here hr hg

theorem mem_keys_iff {roots : List String} (h : Loads reading {} roots result) {file : String} :
    file ∈ result.keys ↔ Reached reading roots file ∧ ∃ text, reading file = .ok (some text) := by
  constructor
  · intro hf
    obtain ⟨s, hs⟩ := Table.mem_keys_iff.mp hf
    obtain ⟨text, hr, -⟩ := h.source_is_of hs
    refine ⟨?_, text, hr⟩
    exact h.keys_induction (by simp) (fun _ => .root) (fun _ _ _ => .imported) file hf
  · rintro ⟨hf, text, hr⟩
    refine (h.answers_reached hf).resolve_right fun hn => ?_
    rw [hr] at hn
    cases hn

/-- Loading depends on the reading of the files that it comes across, and on no other. -/
theorem congr {P : String → Prop} (h : Loads reading loaded queue result)
    (queued : ∀ file ∈ queue, P file)
    (closed : ∀ file text target, P file → reading file = .ok (some text) →
      target ∈ importsOf file text → P target)
    (same : ∀ file, P file → reading' file = reading file) :
    Loads reading' loaded queue result := by
  induction h with
  | done => exact .done _
  | known hf _ ih => exact .known hf (ih fun f hf => queued f (List.mem_cons_of_mem _ hf))
  | missing hf hr _ ih =>
    refine .missing hf ?_ (ih fun f hf => queued f (List.mem_cons_of_mem _ hf))
    rw [same _ (queued _ List.mem_cons_self), hr]
  | @load _ f _ _ text _ hf hr hs _ ih =>
    have here : P f := queued f List.mem_cons_self
    refine .load hf (by rw [same f here, hr]) hs (ih fun g hg => ?_)
    rcases List.mem_append.mp hg with hg | hg
    · exact queued g (List.mem_cons_of_mem _ hg)
    · exact closed f text g here hr hg

end Loads

theorem Reached.congr {reading reading' : Reading} {roots : List String}
    (same : ∀ file, Reached reading roots file → reading' file = reading file) {file : String}
    (h : Reached reading roots file) : Reached reading' roots file := by
  induction h with
  | root hm => exact .root hm
  | imported hg hr ht ih => exact .imported ih (by rw [same _ hg, hr]) ht

theorem reached_iff_of_same {reading reading' : Reading} {roots : List String}
    (same : ∀ file, Reached reading roots file → reading' file = reading file) {file : String} :
    Reached reading' roots file ↔ Reached reading roots file := by
  refine ⟨fun h => ?_, Reached.congr same⟩
  induction h with
  | root hm => exact .root hm
  | imported _ hr ht ih => exact .imported ih (by rw [← same _ ih, hr]) ht

theorem Reached.of_roots {reading : Reading} {roots roots' : List String} {file : String}
    (sub : ∀ file ∈ roots, file ∈ roots') (h : Reached reading roots file) :
    Reached reading roots' file := by
  induction h with
  | root hm => exact .root (sub _ hm)
  | imported _ hr ht ih => exact .imported ih hr ht

/-- Loading goes on with the first file of the queue. It is loaded, unless it has been loaded before or
has no text. -/
inductive Advances (reading : Reading) : List String × List String → List String × List String → Prop where
  | known {loaded file queue} : file ∈ loaded → Advances reading (loaded, file :: queue) (loaded, queue)
  | missing {loaded file queue} : file ∉ loaded → reading file = .ok none →
      Advances reading (loaded, file :: queue) (loaded, queue)
  | load {loaded file queue text} : file ∉ loaded → reading file = .ok (some text) →
      Advances reading (loaded, file :: queue) (loaded ++ [file], queue ++ importsOf file text)

/-- Loading from the roots comes to a point at which these files have been loaded, in this order, and
these wait in the queue. -/
def Comes (reading : Reading) (roots loaded queue : List String) : Prop :=
  Relation.ReflTransGen (Advances reading) ([], roots) (loaded, queue)

theorem rightUnique_advances (reading : Reading) : Relator.RightUnique (Advances reading) := by
  intro p q q' h h'
  cases h with
  | known hf =>
    cases h' with
    | known _ => rfl
    | missing hn _ => exact absurd hf hn
    | load hn _ => exact absurd hf hn
  | missing hf hr =>
    cases h' with
    | known hk => exact absurd hk hf
    | missing _ _ => rfl
    | load _ hr' =>
      rw [hr] at hr'
      cases hr'
  | load hf hr =>
    cases h' with
    | known hk => exact absurd hk hf
    | missing _ hr' =>
      rw [hr] at hr'
      cases hr'
    | load _ hr' =>
      rw [hr] at hr'
      cases hr'
      rfl

theorem prefix_of_advances {reading : Reading} {p q : List String × List String}
    (h : Relation.ReflTransGen (Advances reading) p q) : p.1 <+: q.1 := by
  induction h with
  | refl => exact List.prefix_refl _
  | tail _ step ih =>
    cases step with
    | known _ => exact ih
    | missing _ _ => exact ih
    | load _ _ => exact ih.trans (List.prefix_append _ _)

theorem Loads.advances {reading : Reading} {loaded result : Table String Source} {queue : List String}
    (h : Loads reading loaded queue result) :
    Relation.ReflTransGen (Advances reading) (loaded.keys, queue) (result.keys, []) := by
  induction h with
  | done => exact .refl
  | known hf _ ih => exact ih.head (.known hf)
  | missing hf hr _ ih => exact ih.head (.missing hf hr)
  | @load loaded file _ _ _ s hf hr _ _ ih =>
    rw [Table.keys_insert_of_not_mem s hf] at ih
    exact ih.head (.load hf hr)

namespace Comes

variable {reading reading' : Reading} {roots loaded loaded' queue queue' : List String} {file : String}

theorem induction {P : List String → List String → Prop} (h : Comes reading roots loaded queue)
    (start : P [] roots)
    (step : ∀ loaded queue loaded' queue', Comes reading roots loaded queue → P loaded queue →
      Advances reading (loaded, queue) (loaded', queue') → P loaded' queue') : P loaded queue := by
  suffices all : ∀ p, Relation.ReflTransGen (Advances reading) ([], roots) p → P p.1 p.2 from all _ h
  intro p hp
  induction hp with
  | refl => exact start
  | tail before advance ih => exact step _ _ _ _ before ih advance

theorem start (reading : Reading) (roots : List String) : Comes reading roots [] roots := .refl

/-- All that has been loaded has a text, and the roots reach it and all that waits. -/
theorem reached (h : Comes reading roots loaded queue) :
    (∀ file ∈ loaded, Reached reading roots file ∧ ∃ text, reading file = .ok (some text)) ∧
      ∀ file ∈ queue, Reached reading roots file := by
  apply h.induction (P := fun loaded queue =>
    (∀ file ∈ loaded, Reached reading roots file ∧ ∃ text, reading file = .ok (some text)) ∧
      ∀ file ∈ queue, Reached reading roots file)
  · exact ⟨fun _ hm => absurd hm List.not_mem_nil, fun _ => .root⟩
  · rintro loaded queue loaded' queue' - ⟨before, waiting⟩ advance
    cases advance with
    | known _ => exact ⟨before, fun f hf => waiting f (List.mem_cons_of_mem _ hf)⟩
    | missing _ _ => exact ⟨before, fun f hf => waiting f (List.mem_cons_of_mem _ hf)⟩
    | @load _ file _ text _ hr =>
      have here := waiting file List.mem_cons_self
      constructor
      · intro f hf
        rcases List.mem_append.mp hf with hf | hf
        · exact before f hf
        · rw [List.mem_singleton.mp hf]
          exact ⟨here, text, hr⟩
      · intro f hf
        rcases List.mem_append.mp hf with hf | hf
        · exact waiting f (List.mem_cons_of_mem _ hf)
        · exact .imported here hr hf

theorem nodup (h : Comes reading roots loaded queue) : loaded.Nodup := by
  apply h.induction (P := fun loaded _ => loaded.Nodup) List.nodup_nil
  intro loaded queue loaded' queue' _ nodup advance
  cases advance with
  | known _ => exact nodup
  | missing _ _ => exact nodup
  | load hf _ =>
    simp only [List.nodup_append, List.mem_singleton, forall_eq, List.nodup_cons, List.not_mem_nil,
      not_false_eq_true, List.nodup_nil, and_true, true_and]
    exact ⟨nodup, fun f hm same => hf (same ▸ hm)⟩

/-- Whatever reads the same wherever there was an answer comes to the same point. -/
theorem congr (h : Comes reading roots loaded queue)
    (same : ∀ file answer, Reached reading roots file → reading file = .ok answer →
      reading' file = .ok answer) : Comes reading' roots loaded queue := by
  apply h.induction (P := Comes reading' roots) (.start _ _)
  intro loaded queue loaded' queue' come ih advance
  cases advance with
  | known hf => exact ih.tail (.known hf)
  | missing hf hr => exact ih.tail (.missing hf (same _ _ (come.reached.2 _ List.mem_cons_self) hr))
  | load hf hr => exact ih.tail (.load hf (same _ _ (come.reached.2 _ List.mem_cons_self) hr))

theorem comparable (h : Comes reading roots loaded queue) (h' : Comes reading roots loaded' queue') :
    loaded <+: loaded' ∨ loaded' <+: loaded :=
  (Relation.ReflTransGen.total_of_right_unique (rightUnique_advances reading) h h').imp prefix_of_advances
    prefix_of_advances

/-- What has been loaded on the way comes first in what is loaded in the end. -/
theorem prefix_of_loads {result : Table String Source} (h : Comes reading roots loaded queue)
    (loads : Loads reading {} roots result) : loaded <+: result.keys := by
  have finish : Comes reading roots result.keys [] := loads.advances
  rcases Relation.ReflTransGen.total_of_right_unique (rightUnique_advances reading) h finish with
    onward | past
  · exact prefix_of_advances onward
  · rcases past.cases_head with same | ⟨_, advance, -⟩
    · cases same
      exact List.prefix_refl _
    · cases advance

/-- Of two points one is further than the other: it has loaded what has been loaded at either. -/
theorem join (h : Comes reading roots loaded queue) (h' : Comes reading roots loaded' queue') :
    ∃ queue, Comes reading roots (loaded ++ loaded'.filter (· ∉ loaded)) queue := by
  rcases h.comparable h' with ⟨rest, rfl⟩ | within
  · have apart := (List.nodup_append.mp h'.nodup).2.2
    refine ⟨queue', ?_⟩
    rw [List.filter_append, List.filter_eq_nil_iff.mpr, List.nil_append, List.filter_eq_self.mpr]
    · exact h'
    · intro f hf
      simpa using fun hm => apart f hm f hf rfl
    · intro f hf
      simpa using hf
  · refine ⟨queue, ?_⟩
    rw [List.filter_eq_nil_iff.mpr, List.append_nil]
    · exact h
    · intro f hf
      simpa using within.subset hf

end Comes

section Work

variable {σ : Type} {reading : Reading} {roots : List String} {I : List String → σ → Prop}
  {read : String → Work σ (Option String)} {sourceOf : String → String → Source}

/-- Reading a file whose turn it is comes to what the reading says, and keeps an invariant of the files
that have been loaded. -/
def ReadsBy (reading : Reading) (roots : List String) (I : List String → σ → Prop)
    (read : String → Work σ (Option String)) : Prop :=
  ∀ keys file queue s, Comes reading roots keys (file :: queue) → file ∉ keys → I keys s →
    (read file).Ends s fun r s' => r = reading file ∧ I keys s' ∧
      ∀ text, reading file = .ok (some text) → I (keys ++ [file]) s'

theorem ends_nextReadable (reads : ReadsBy reading roots I read) (loaded : Table String Source)
    (queue : List String) (come : Comes reading roots loaded.keys queue) {s : σ} (h : I loaded.keys s) :
    (Compilation.nextReadable read loaded queue).Ends s fun r s' =>
      match r with
      | .ok none => I loaded.keys s' ∧ Loads reading loaded queue loaded
      | .ok (some (file, text, rest)) =>
        I (loaded.keys ++ [file]) s' ∧ Comes reading roots loaded.keys (file :: rest) ∧
          file ∉ loaded.keys ∧ reading file = .ok (some text) ∧
          ∀ result, Loads reading loaded (file :: rest) result → Loads reading loaded queue result
      | .error _ => I loaded.keys s' ∧ ∃ file fault, Reached reading roots file ∧
          reading file = .error fault := by
  induction queue generalizing s with
  | nil => exact ⟨h, .done _⟩
  | cons file queue ih =>
    rw [Compilation.nextReadable]
    by_cases hk : file ∈ loaded.keys
    · rw [if_pos (Table.contains_iff.mpr hk)]
      refine (ih (come.tail (.known hk)) h).mono fun r s' hr => ?_
      match r with
      | .ok none => exact ⟨hr.1, .known hk hr.2⟩
      | .ok (some (f, text, rest)) =>
        exact ⟨hr.1, hr.2.1, hr.2.2.1, hr.2.2.2.1, fun result hl => .known hk (hr.2.2.2.2 result hl)⟩
      | .error _ => exact hr
    · rw [if_neg (fun hc => hk (Table.contains_iff.mp hc))]
      refine Work.Ends.bind (reads _ file queue s come hk h) (fun answer s' hr => ?_) fun fault s' hr => ?_
      · obtain ⟨hr, hi, ht⟩ := hr
        cases answer with
        | some text =>
          exact ⟨ht text hr.symm, come, hk, hr.symm, fun _ hl => hl⟩
        | none =>
          refine (ih (come.tail (.missing hk hr.symm)) hi).mono fun r s' hr' => ?_
          match r with
          | .ok none => exact ⟨hr'.1, .missing hk hr.symm hr'.2⟩
          | .ok (some (f, text, rest)) =>
            exact ⟨hr'.1, hr'.2.1, hr'.2.2.1, hr'.2.2.2.1,
              fun result hl => .missing hk hr.symm (hr'.2.2.2.2 result hl)⟩
          | .error _ => exact hr'
      · exact ⟨hr.2.1, file, fault, come.reached.2 file List.mem_cons_self, hr.1.symm⟩

/-- Loading follows the reading as long as its bound exceeds the number of files that can be read:
all of those are in `all`. -/
theorem ends_loadFrom (reads : ReadsBy reading roots I read)
    (sources : ∀ file text, (sourceOf file text).IsOf file text)
    (all : List String) (readable : ∀ file text, reading file = .ok (some text) → file ∈ all)
    (bound : Nat) (loaded : Table String Source) (queue : List String)
    (come : Comes reading roots loaded.keys queue) (enough : all.length < loaded.size + bound) {s : σ}
    (h : I loaded.keys s) :
    (Compilation.loadFrom read sourceOf bound loaded queue).Ends s fun r s' =>
      match r with
      | .ok result => I result.keys s' ∧ Loads reading loaded queue result
      | .error _ => ∃ keys file fault, I keys s' ∧ Reached reading roots file ∧
          reading file = .error fault := by
  induction bound generalizing loaded queue s with
  | zero =>
    have inside : loaded.keys ⊆ all := by
      intro file hm
      obtain ⟨-, text, hr⟩ := come.reached.1 file hm
      exact readable file text hr
    have few : loaded.keys.length ≤ all.length :=
      (List.subperm_of_subset loaded.keys_nodup inside).length_le
    simp only [Table.keys, Table.size, List.length_map] at few enough
    omega
  | succ bound ih =>
    rw [Compilation.loadFrom]
    refine Work.Ends.bind (ends_nextReadable reads loaded queue come h) (fun answer s' hr => ?_)
      fun fault s' hr => ⟨_, _, _, hr.1, hr.2.choose_spec.choose_spec⟩
    rcases answer with _ | ⟨file, text, rest⟩
    · exact hr
    · obtain ⟨hi, hq, hk, ht, onward⟩ := hr
      have hs := sources file text
      have keys : (loaded.insert file (sourceOf file text)).keys = loaded.keys ++ [file] :=
        Table.keys_insert_of_not_mem _ hk
      have larger : (loaded.insert file (sourceOf file text)).size = loaded.size + 1 := by
        simp only [Table.size, Table.entries_insert_of_not_mem _ hk, List.length_append,
          List.length_singleton]
      dsimp only
      rw [hs.targets]
      refine (ih (loaded.insert file (sourceOf file text)) (rest ++ importsOf file text) ?_ ?_
        (by rw [keys]; exact hi)).mono fun r s' hr => ?_
      · rw [keys]
        exact hq.tail (.load hk ht)
      · omega
      · cases r with
        | ok result => exact ⟨hr.1, onward result (.load hk ht hs hr.2)⟩
        | error _ => exact hr

/-- Loading is related in two ways of reading as reading is, if sequences of work are related as their
parts are. -/
theorem loadFrom_related {P : {α : Type} → Work σ α → Work σ α → Prop} (read' : String → Work σ (Option String))
    (pure : ∀ {α : Type} (a : α), P (pure a : Work σ α) (pure a))
    (bind : ∀ {α β : Type} {work work' : Work σ α} {next next' : α → Work σ β}, P work work' →
      (∀ a, P (next a) (next' a)) → P (work >>= next) (work' >>= next'))
    (related : ∀ file, P (read file) (read' file)) (bound : Nat) (loaded : Table String Source)
    (queue : List String) :
    P (Compilation.loadFrom read sourceOf bound loaded queue)
      (Compilation.loadFrom read' sourceOf bound loaded queue) := by
  have found : ∀ loaded queue,
      P (Compilation.nextReadable read loaded queue) (Compilation.nextReadable read' loaded queue) := by
    intro loaded queue
    induction queue with
    | nil => exact pure none
    | cons file queue ih =>
      rw [Compilation.nextReadable, Compilation.nextReadable]
      split
      · exact ih
      · refine bind (related file) fun answer => ?_
        cases answer with
        | none => exact ih
        | some text => exact pure _
  induction bound generalizing loaded queue with
  | zero => exact pure loaded
  | succ bound ih =>
    rw [Compilation.loadFrom, Compilation.loadFrom]
    refine bind (found loaded queue) fun next => ?_
    match next with
    | none => exact pure loaded
    | some (file, text, rest) => exact ih _ _

theorem loadFrom_closed {P : {α : Type} → Work σ α → Prop}
    (pure : ∀ {α : Type} (a : α), P (pure a : Work σ α))
    (bind : ∀ {α β : Type} {work : Work σ α} {next : α → Work σ β}, P work → (∀ a, P (next a)) →
      P (work >>= next))
    (kept : ∀ file, P (read file)) (bound : Nat) (loaded : Table String Source)
    (queue : List String) : P (Compilation.loadFrom read sourceOf bound loaded queue) :=
  loadFrom_related (P := fun work _ => P work) read pure bind kept bound loaded queue

end Work
end GrammarWorkspace.Grammar
