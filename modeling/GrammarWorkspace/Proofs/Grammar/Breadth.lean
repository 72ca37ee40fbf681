import GrammarWorkspace.Proofs.Grammar.Generations
import Mathlib.Logic.Function.Iterate
import Mathlib.Order.Bounds.Basic

/-!
# Loading is breadth-first closure under imports

The loop that loads files takes one name off a queue at a time, with nothing that bounds it. Over a table
of files it ends, and compiling from the table is what it ends with. The loaded files are the least set
that is closed under imports, in layers: first the roots, then what they import, and so on.
-/
namespace GrammarWorkspace.Grammar.Compilation

structure Front where
  loaded : Table String Source
  queue : List String
  reads : List String

namespace Front

/-- Take one name off the queue, read it unless it is loaded, and queue what it imports. With an empty
queue nothing changes any more. -/
def next (files : Table String String) (sourceOf : String → String → Source) (front : Front) : Front :=
  match front.queue with
  | [] => front
  | file :: queue =>
    if file ∈ front.loaded.keys then { front with queue }
    else
      match files.get? file with
      | none => { front with queue, reads := front.reads ++ [file] }
      | some text =>
        let source := sourceOf file text
        ⟨front.loaded.insert file source, queue ++ source.targets, front.reads ++ [file]⟩

def Leads (files : Table String String) (sourceOf : String → String → Source) (f g : Front) : Prop :=
  ∃ turns, (next files sourceOf)^[turns] f = g

variable {files : Table String String} {sourceOf : String → String → Source} {f g h : Front}
  {loaded : Table String Source} {file text : String} {queue reads : List String}

theorem Leads.refl (f : Front) : Leads files sourceOf f f := ⟨0, rfl⟩

theorem Leads.trans (before : Leads files sourceOf f g) (after : Leads files sourceOf g h) :
    Leads files sourceOf f h := by
  obtain ⟨turns, rfl⟩ := before
  obtain ⟨turns', rfl⟩ := after
  exact ⟨turns' + turns, Function.iterate_add_apply _ _ _ _⟩

theorem leads_next (f : Front) : Leads files sourceOf f (f.next files sourceOf) := ⟨1, rfl⟩

theorem next_of_loaded (known : file ∈ loaded.keys) :
    (Front.mk loaded (file :: queue) reads).next files sourceOf = ⟨loaded, queue, reads⟩ := by
  simp only [next, known, if_true]

theorem next_of_missing (new : file ∉ loaded.keys) (missing : files.get? file = none) :
    (Front.mk loaded (file :: queue) reads).next files sourceOf = ⟨loaded, queue, reads ++ [file]⟩ := by
  simp only [next, new, if_false, missing]

theorem next_of_text (new : file ∉ loaded.keys) (found : files.get? file = some text) :
    (Front.mk loaded (file :: queue) reads).next files sourceOf =
      ⟨loaded.insert file (sourceOf file text), queue ++ (sourceOf file text).targets, reads ++ [file]⟩ := by
  simp only [next, new, if_false, found]

end Front

section Simulation

variable {files : Table String String} {loaded : Table String Source} {file text : String}
  {queue reads : List String}

theorem nextReadable_of_loaded (known : file ∈ loaded.keys) :
    (nextReadable (readFrom files) loaded (file :: queue)).run reads =
      (nextReadable (readFrom files) loaded queue).run reads := by
  rw [nextReadable, if_pos (Table.contains_iff.mpr known)]

theorem nextReadable_of_missing (new : file ∉ loaded.keys) (missing : files.get? file = none) :
    (nextReadable (readFrom files) loaded (file :: queue)).run reads =
      (nextReadable (readFrom files) loaded queue).run (reads ++ [file]) := by
  rw [nextReadable, if_neg fun contained => new (Table.contains_iff.mp contained)]
  simp [readFrom, missing]

theorem nextReadable_of_text (new : file ∉ loaded.keys) (found : files.get? file = some text) :
    (nextReadable (readFrom files) loaded (file :: queue)).run reads =
      (some (file, text, queue), reads ++ [file]) := by
  rw [nextReadable, if_neg fun contained => new (Table.contains_iff.mp contained)]
  simp [readFrom, found]
  rfl

variable (files) (sourceOf : String → String → Source)

/-- The loop comes to the next file that can be read, or to the end of the queue. -/
theorem leads_nextReadable (loaded : Table String Source) (queue reads : List String) :
    match (nextReadable (readFrom files) loaded queue).run reads with
    | (none, reads') => Front.Leads files sourceOf ⟨loaded, queue, reads⟩ ⟨loaded, [], reads'⟩
    | (some (file, text, rest), reads') => file ∉ loaded.keys ∧ files.get? file = some text ∧
        Front.Leads files sourceOf ⟨loaded, queue, reads⟩
          ⟨loaded.insert file (sourceOf file text), rest ++ (sourceOf file text).targets, reads'⟩ := by
  induction queue generalizing reads with
  | nil => exact Front.Leads.refl _
  | cons file queue ih =>
    have turn : Front.Leads files sourceOf ⟨loaded, file :: queue, reads⟩ _ := Front.leads_next _
    by_cases known : file ∈ loaded.keys
    · rw [Front.next_of_loaded known] at turn
      rw [nextReadable_of_loaded known]
      have later := ih reads
      split at later
      · exact turn.trans later
      · exact ⟨later.1, later.2.1, turn.trans later.2.2⟩
    · cases found : files.get? file with
      | none =>
        rw [Front.next_of_missing known found] at turn
        rw [nextReadable_of_missing known found]
        have later := ih (reads ++ [file])
        split at later
        · exact turn.trans later
        · exact ⟨later.1, later.2.1, turn.trans later.2.2⟩
      | some text =>
        rw [Front.next_of_text known found] at turn
        rw [nextReadable_of_text known found]
        exact ⟨known, found, turn⟩

/-- With a bound above the number of files that can be read, the loop comes to the end of the queue where
bounded loading stops. -/
theorem leads_loadFrom (bound : Nat) (loaded : Table String Source) (queue reads : List String)
    (inside : ∀ file ∈ loaded.keys, file ∈ files.keys) (enough : files.size < loaded.size + bound) :
    Front.Leads files sourceOf ⟨loaded, queue, reads⟩
      ⟨((loadFrom (readFrom files) sourceOf bound loaded queue).run reads).1, [],
        ((loadFrom (readFrom files) sourceOf bound loaded queue).run reads).2⟩ := by
  induction bound generalizing loaded queue reads with
  | zero =>
    have few : loaded.keys.length ≤ files.keys.length :=
      (List.subperm_of_subset loaded.keys_nodup inside).length_le
    simp only [Table.keys, Table.size, List.length_map] at few enough
    omega
  | succ bound ih =>
    have way := leads_nextReadable files sourceOf loaded queue reads
    rw [loadFrom, StateT.run_bind]
    rcases ran : (nextReadable (readFrom files) loaded queue).run reads with ⟨_ | ⟨file, text, rest⟩, reads'⟩
    · rw [ran] at way
      exact way
    · rw [ran] at way
      obtain ⟨new, found, way⟩ := way
      have larger : (loaded.insert file (sourceOf file text)).size = loaded.size + 1 := by
        simp only [Table.size, Table.entries_insert_of_not_mem _ new, List.length_append,
          List.length_singleton]
      refine way.trans (ih _ _ reads' ?_ (by omega))
      intro f hf
      rcases Table.mem_keys_insert.mp hf with rfl | hf
      · exact Table.mem_keys_of_get? found
      · exact inside f hf

end Simulation

section Runs

variable {files : Table String String} {sourceOf : String → String → Source}
  {I : Table String Source → List String → List String → Prop}

theorem Front.Leads.keeps
    (known : ∀ loaded file queue reads, file ∈ loaded.keys → I loaded (file :: queue) reads →
      I loaded queue reads)
    (missing : ∀ loaded file queue reads, file ∉ loaded.keys → files.get? file = none →
      I loaded (file :: queue) reads → I loaded queue (reads ++ [file]))
    (load : ∀ loaded file queue reads text, file ∉ loaded.keys → files.get? file = some text →
      I loaded (file :: queue) reads →
      I (loaded.insert file (sourceOf file text)) (queue ++ (sourceOf file text).targets)
        (reads ++ [file]))
    {f g : Front} (leads : Front.Leads files sourceOf f g) (start : I f.loaded f.queue f.reads) :
    I g.loaded g.queue g.reads := by
  obtain ⟨turns, rfl⟩ := leads
  refine Function.Iterate.rec (fun f : Front => I f.loaded f.queue f.reads) start (fun f held => ?_) turns
  obtain ⟨loaded, queue, reads⟩ := f
  cases queue with
  | nil => exact held
  | cons file queue =>
    by_cases present : file ∈ loaded.keys
    · rw [Front.next_of_loaded present]
      exact known loaded file queue reads present held
    · cases found : files.get? file with
      | none =>
        rw [Front.next_of_missing present found]
        exact missing loaded file queue reads present found held
      | some text =>
        rw [Front.next_of_text present found]
        exact load loaded file queue reads text present found held

end Runs

/-- The loop, started with the roots, ends with what compiling from the table makes and has read. -/
theorem leads_ofFiles (files : Table String String) (serial : Nat) (request : Request)
    (previous : Option Compilation) :
    Front.Leads files (sourceOf serial previous) ⟨{}, request.roots, []⟩
      ⟨(ofFiles files serial request previous).1.sources, [], (ofFiles files serial request previous).2⟩ := by
  refine leads_loadFrom files (sourceOf serial previous) (files.size + 1) {} request.roots [] (by simp) ?_
  simp only [Table.size]
  omega

section Compiling

variable {files : Table String String} {serial : Nat} {request : Request} {previous : Option Compilation}

/-- What holds of the roots before anything is read, and is kept by every turn of the loop, holds of what
is compiled from a table when earlier sources are genuine. -/
theorem ofFiles_induction {I : Table String Source → List String → List String → Prop}
    (genuine : ∀ c, previous = some c → c.IsGenuine)
    (start : I {} request.roots [])
    (known : ∀ loaded file queue reads, file ∈ loaded.keys → I loaded (file :: queue) reads →
      I loaded queue reads)
    (missing : ∀ loaded file queue reads, file ∉ loaded.keys → files.get? file = none →
      I loaded (file :: queue) reads → I loaded queue (reads ++ [file]))
    (load : ∀ loaded file queue reads text s, file ∉ loaded.keys → files.get? file = some text →
      s.IsOf file text → I loaded (file :: queue) reads →
      I (loaded.insert file s) (queue ++ importsOf file text) (reads ++ [file])) :
    I (ofFiles files serial request previous).1.sources [] (ofFiles files serial request previous).2 := by
  refine (leads_ofFiles files serial request previous).keeps (I := I) known missing ?_ start
  intro loaded file queue reads text new found held
  have of := isOf_sourceOf serial genuine file text
  rw [of.targets]
  exact load loaded file queue reads text _ new found of held

/-- Of the names that have been read: those that are loaded were read once, and the others have no text. -/
structure ReadsOnce (files : Table String String) (loaded : Table String Source) (reads : List String) :
    Prop where
  once : ∀ file ∈ loaded.keys, reads.count file = 1
  answered : ∀ name ∈ reads, name ∈ loaded.keys ∨ files.get? name = none

/-- What is read or about to be read is a root or imported by a loaded file, and all of that is. -/
def ReadsWanted (roots : List String) (loaded : Table String Source) (queue reads : List String) : Prop :=
  ∀ name, name ∈ reads ∨ name ∈ queue ↔
    name ∈ roots ∨ ∃ file s, loaded.get? file = some s ∧ name ∈ s.targets

theorem readsOnce_ofFiles (genuine : ∀ c, previous = some c → c.IsGenuine) :
    ReadsOnce files (ofFiles files serial request previous).1.sources
      (ofFiles files serial request previous).2 := by
  refine ofFiles_induction (I := fun loaded _ reads => ReadsOnce files loaded reads) genuine
    ⟨by simp, by simp⟩ (fun _ _ _ _ _ held => held) ?missing ?load
  case missing =>
    intro loaded file queue reads new missing held
    refine ⟨fun f hf => ?_, fun name hn => ?_⟩
    · have other : file ≠ f := by
        rintro rfl
        exact new hf
      rw [List.count_append, held.once f hf, List.count_singleton, beq_eq_false_iff_ne.mpr other]
      rfl
    · rcases List.mem_append.mp hn with hn | hn
      · exact held.answered name hn
      · rw [List.mem_singleton.mp hn]
        exact Or.inr missing
  case load =>
    intro loaded file queue reads text s new found of held
    have unread : file ∉ reads := by
      intro hm
      rcases held.answered file hm with hk | hk
      · exact new hk
      · rw [found] at hk
        cases hk
    refine ⟨fun f hf => ?_, fun name hn => ?_⟩
    · rw [List.count_append, List.count_singleton]
      rcases Table.mem_keys_insert.mp hf with rfl | hf
      · rw [List.count_eq_zero_of_not_mem unread]
        simp
      · have other : file ≠ f := by
          rintro rfl
          exact new hf
        rw [held.once f hf, beq_eq_false_iff_ne.mpr other]
        rfl
    · rcases List.mem_append.mp hn with hn | hn
      · rcases held.answered name hn with hk | hk
        · exact Or.inl (Table.mem_keys_insert.mpr (Or.inr hk))
        · exact Or.inr hk
      · rw [List.mem_singleton.mp hn]
        exact Or.inl (Table.mem_keys_insert.mpr (Or.inl rfl))

theorem mem_targets_insert {loaded : Table String Source} {file name : String} {s : Source}
    (new : file ∉ loaded.keys) :
    (∃ f s', (loaded.insert file s).get? f = some s' ∧ name ∈ s'.targets) ↔
      (∃ f s', loaded.get? f = some s' ∧ name ∈ s'.targets) ∨ name ∈ s.targets := by
  constructor
  · rintro ⟨f, s', found, imported⟩
    rw [Table.get?_insert] at found
    split at found
    · cases found
      exact Or.inr imported
    · exact Or.inl ⟨f, s', found, imported⟩
  · rintro (⟨f, s', found, imported⟩ | imported)
    · refine ⟨f, s', ?_, imported⟩
      rw [Table.get?_insert, if_neg, found]
      rintro rfl
      exact new (Table.mem_keys_of_get? found)
    · exact ⟨file, s, by rw [Table.get?_insert, if_pos rfl], imported⟩

theorem readsWanted_ofFiles (genuine : ∀ c, previous = some c → c.IsGenuine) :
    ReadsWanted request.roots (ofFiles files serial request previous).1.sources []
      (ofFiles files serial request previous).2 := by
  refine (ofFiles_induction (I := fun loaded queue reads =>
    ReadsWanted request.roots loaded queue reads ∧ ∀ file ∈ loaded.keys, file ∈ reads) genuine
    ⟨fun name => by simp, by simp⟩ ?known ?missing ?load).1
  case known =>
    rintro loaded file queue reads old ⟨wanted, read⟩
    refine ⟨fun name => ?_, read⟩
    rw [← wanted name, List.mem_cons]
    constructor
    · tauto
    · rintro (h | rfl | h)
      · exact Or.inl h
      · exact Or.inl (read name old)
      · exact Or.inr h
  case missing =>
    rintro loaded file queue reads - - ⟨wanted, read⟩
    refine ⟨fun name => ?_, fun f hf => List.mem_append_left _ (read f hf)⟩
    rw [← wanted name, List.mem_append, List.mem_singleton, List.mem_cons, or_assoc]
  case load =>
    rintro loaded file queue reads text s new - of ⟨wanted, read⟩
    refine ⟨fun name => ?_, fun f hf => ?_⟩
    · rw [mem_targets_insert new, of.targets, ← or_assoc, ← wanted name, List.mem_append, List.mem_append,
        List.mem_singleton, List.mem_cons]
      simp only [or_assoc]
    · rcases Table.mem_keys_insert.mp hf with rfl | hf
      · exact List.mem_append_right _ (List.mem_singleton_self f)
      · exact List.mem_append_left _ (read f hf)

theorem parsed_ofFiles (genuine : ∀ c, previous = some c → c.IsGenuine) {file : String} {s : Source}
    (hs : (ofFiles files serial request previous).1.source? file = some s) :
    ∃ text, files.get? file = some text ∧ s.IsOf file text := by
  refine ofFiles_induction (I := fun loaded _ _ => ∀ file s, loaded.get? file = some s →
    ∃ text, files.get? file = some text ∧ s.IsOf file text) genuine (by simp)
    (fun _ _ _ _ _ held => held) (fun _ _ _ _ _ _ held => held) ?_ file s hs
  intro loaded f queue reads text s' _ found of held file s hs
  rw [Table.get?_insert] at hs
  split at hs
  · rename_i same
    subst same
    cases hs
    exact ⟨text, found, of⟩
  · exact held file s hs

end Compiling

/-- A set that contains the roots that can be read and, with each of its files, what that file imports and
can be read. -/
structure ClosedUnderImports (files : Table String String) (roots : List String) (within : Set String) :
    Prop where
  roots : ∀ file ∈ roots, file ∈ files.keys → file ∈ within
  imports : ∀ file ∈ within, ∀ text, files.get? file = some text → ∀ target ∈ importsOf file text,
    target ∈ files.keys → target ∈ within

section Closure

variable {files : Table String String} {serial : Nat} {request : Request} {previous : Option Compilation}

theorem closed_ofFiles (genuine : ∀ c, previous = some c → c.IsGenuine) :
    ClosedUnderImports files request.roots
      (fun file => file ∈ (ofFiles files serial request previous).1.sources.keys) := by
  have once : ReadsOnce files (ofFiles files serial request previous).1.sources
      (ofFiles files serial request previous).2 := readsOnce_ofFiles genuine
  have wanted : ReadsWanted request.roots (ofFiles files serial request previous).1.sources []
      (ofFiles files serial request previous).2 := readsWanted_ofFiles genuine
  have answered : ∀ name ∈ (ofFiles files serial request previous).2, name ∈ files.keys →
      name ∈ (ofFiles files serial request previous).1.sources.keys := by
    intro name read readable
    refine (once.answered name read).resolve_right fun missing => ?_
    exact Table.get?_eq_none_iff.mp missing readable
  have reads : ∀ name, (name ∈ request.roots ∨ ∃ file s,
      (ofFiles files serial request previous).1.sources.get? file = some s ∧ name ∈ s.targets) →
      name ∈ (ofFiles files serial request previous).2 := fun name asked =>
    ((wanted name).mpr asked).resolve_right List.not_mem_nil
  refine ⟨fun file root => answered file (reads file (Or.inl root)), ?_⟩
  intro file loaded text found target imported
  obtain ⟨s, hs⟩ := Table.mem_keys_iff.mp loaded
  obtain ⟨text', found', of⟩ := parsed_ofFiles genuine hs
  rw [found] at found'
  cases found'
  exact answered target (reads target (Or.inr ⟨file, s, hs, by rwa [of.targets]⟩))

theorem subset_closed (genuine : ∀ c, previous = some c → c.IsGenuine) {within : Set String}
    (closed : ClosedUnderImports files request.roots within) {file : String}
    (loaded : file ∈ (ofFiles files serial request previous).1.sources.keys) : file ∈ within := by
  have queued : ∀ (queue : List String) file, (∀ f ∈ file :: queue, f ∈ files.keys → f ∈ within) →
      ∀ f ∈ queue, f ∈ files.keys → f ∈ within := fun _ _ held f hf => held f (List.mem_cons_of_mem _ hf)
  refine (ofFiles_induction (I := fun loaded queue _ => (∀ f ∈ loaded.keys, f ∈ within) ∧
    ∀ f ∈ queue, f ∈ files.keys → f ∈ within) genuine ⟨by simp, closed.roots⟩
    (fun _ _ queue _ _ held => ⟨held.1, queued queue _ held.2⟩)
    (fun _ _ queue _ _ _ held => ⟨held.1, queued queue _ held.2⟩) ?_).1 file loaded
  rintro loaded file queue reads text s - found - ⟨inside, coming⟩
  have here : file ∈ within := coming file List.mem_cons_self (Table.mem_keys_of_get? found)
  refine ⟨fun f hf => ?_, fun f hf readable => ?_⟩
  · rcases Table.mem_keys_insert.mp hf with rfl | hf
    · exact here
    · exact inside f hf
  · rcases List.mem_append.mp hf with hf | hf
    · exact queued queue file coming f hf readable
    · exact closed.imports file here text found f hf readable

end Closure

section Layers

variable (files : Table String String) (roots : List String)

def importedBy (file : String) : List String :=
  match files.get? file with
  | none => []
  | some text => importsOf file text

def gather (seen : List String) : List String → List String
  | [] => []
  | name :: names =>
    if name ∈ files.keys ∧ name ∉ seen then name :: gather (seen ++ [name]) names else gather seen names

mutual

/-- The files that so many imports lead to from a root, and no fewer, in the order in which the files of
the layer before import them. -/
def layer : Nat → List String
  | 0 => gather files [] roots
  | n + 1 => gather files (settled n ++ layer n) ((layer n).flatMap (importedBy files))

def settled : Nat → List String
  | 0 => []
  | n + 1 => settled n ++ layer n

end

def candidates : Nat → List String
  | 0 => roots
  | n + 1 => (layer files roots n).flatMap (importedBy files)

variable {files roots} {seen names : List String} {name : String} {n : Nat}

theorem mem_gather : name ∈ gather files seen names ↔ name ∈ names ∧ name ∈ files.keys ∧ name ∉ seen := by
  induction names generalizing seen with
  | nil => simp [gather]
  | cons first names ih =>
    rw [gather]
    split
    · rename_i new
      rw [List.mem_cons, ih, List.mem_append, List.mem_singleton, List.mem_cons]
      by_cases same : name = first
      · subst same
        simp [new]
      · simp [same]
    · rename_i old
      rw [ih, List.mem_cons]
      refine ⟨fun h => ⟨Or.inr h.1, h.2⟩, fun h => ⟨h.1.resolve_left ?_, h.2⟩⟩
      rintro rfl
      exact old h.2

theorem layer_eq_gather : ∀ n, layer files roots n = gather files (settled files roots n) (candidates files roots n)
  | 0 => rfl
  | _ + 1 => rfl

inductive LeadsTo (files : Table String String) (roots : List String) : Nat → String → Prop where
  | root {file} : file ∈ roots → file ∈ files.keys → LeadsTo files roots 0 file
  | imported {n file target} : LeadsTo files roots n file → target ∈ importedBy files file →
      target ∈ files.keys → LeadsTo files roots (n + 1) target

theorem leadsTo_zero : LeadsTo files roots 0 name ↔ name ∈ roots ∧ name ∈ files.keys := by
  constructor
  · rintro ⟨⟩
    constructor <;> assumption
  · rintro ⟨root, readable⟩
    exact .root root readable

theorem mem_layer : name ∈ layer files roots n ↔
    LeadsTo files roots n name ∧ ∀ m < n, ¬LeadsTo files roots m name := by
  -- The layers up to `n` are all that `n` imports or fewer lead to.
  suffices both : (∀ name, name ∈ settled files roots n ↔ ∃ m < n, LeadsTo files roots m name) ∧
      ∀ name, name ∈ layer files roots n ↔
        LeadsTo files roots n name ∧ ∀ m < n, ¬LeadsTo files roots m name from both.2 name
  induction n with
  | zero =>
    refine ⟨by simp [settled], fun name => ?_⟩
    rw [layer, mem_gather, leadsTo_zero]
    simp
  | succ n ih =>
    obtain ⟨before, here⟩ := ih
    have settled_iff : ∀ name, name ∈ settled files roots (n + 1) ↔
        ∃ m < n + 1, LeadsTo files roots m name := by
      intro name
      rw [settled, List.mem_append, before, here]
      constructor
      · rintro (⟨m, less, leads⟩ | ⟨leads, -⟩)
        · exact ⟨m, by omega, leads⟩
        · exact ⟨n, by omega, leads⟩
      · rintro ⟨m, less, leads⟩
        by_cases earlier : ∃ m < n, LeadsTo files roots m name
        · exact Or.inl earlier
        · push Not at earlier
          have last : m = n := by
            by_contra other
            exact earlier m (by omega) leads
          exact Or.inr ⟨last ▸ leads, earlier⟩
    refine ⟨settled_iff, fun name => ?_⟩
    rw [layer_eq_gather, mem_gather, settled_iff, candidates, List.mem_flatMap]
    push Not
    constructor
    · rintro ⟨⟨file, listed, imported⟩, readable, fresh⟩
      exact ⟨.imported ((here file).mp listed).1 imported readable, fresh⟩
    · rintro ⟨leads, fresh⟩
      cases leads with
      | @imported _ file _ leads imported readable =>
        refine ⟨⟨file, (here file).mpr ⟨leads, fun m less sooner => ?_⟩, imported⟩, readable, fresh⟩
        exact fresh (m + 1) (by omega) (.imported sooner imported readable)

/-- The loop is on its way through a layer: a part of it is loaded after the layers before it, the names
from which the rest is gathered come first in the queue, and after them what that part imports. -/
def Within (files : Table String String) (roots : List String) (n : Nat) (part pending : List String)
    (loaded : Table String Source) (queue : List String) : Prop :=
  queue = pending ++ part.flatMap (importedBy files) ∧
    loaded.keys = settled files roots n ++ part ∧
    layer files roots n = part ++ gather files (settled files roots n ++ part) pending

variable {loaded : Table String Source} {file : String} {queue : List String}

/-- With a name at the head of the queue, it is the next from which a layer is gathered: where one layer is
done, the next begins. -/
theorem within_of_cons (h : ∃ n part pending, Within files roots n part pending loaded (file :: queue)) :
    ∃ n part pending, Within files roots n part (file :: pending) loaded (file :: queue) := by
  obtain ⟨n, part, _ | ⟨name, pending⟩, queued, keys_eq, layer_eq⟩ := h
  · rw [gather, List.append_nil] at layer_eq
    rw [List.nil_append, ← layer_eq] at queued
    have done : loaded.keys = settled files roots (n + 1) ++ [] := by
      rw [settled, List.append_nil, keys_eq, layer_eq]
    refine ⟨n + 1, [], queue, by simp, done, ?_⟩
    rw [layer_eq_gather, candidates, ← queued]
    simp
  · obtain ⟨rfl, rfl⟩ := List.cons.inj queued
    exact ⟨n, part, pending, rfl, keys_eq, layer_eq⟩

theorem within_ofFiles {serial : Nat} {request : Request} {previous : Option Compilation}
    (genuine : ∀ c, previous = some c → c.IsGenuine) : ∃ n part pending,
    Within files request.roots n part pending (ofFiles files serial request previous).1.sources [] := by
  refine ofFiles_induction (I := fun loaded queue _ => ∃ n part pending,
    Within files request.roots n part pending loaded queue) genuine ?start ?known ?missing ?load
  case start => exact ⟨0, [], request.roots, by simp, rfl, by simp [layer, settled]⟩
  case known =>
    intro loaded file queue _ old h
    obtain ⟨n, part, pending, queued, keys_eq, layer_eq⟩ := within_of_cons h
    refine ⟨n, part, pending, (List.cons.inj queued).2, keys_eq, ?_⟩
    rw [layer_eq, gather, if_neg]
    rintro ⟨-, unseen⟩
    exact unseen (keys_eq ▸ old)
  case missing =>
    intro loaded file queue _ _ absent h
    obtain ⟨n, part, pending, queued, keys_eq, layer_eq⟩ := within_of_cons h
    refine ⟨n, part, pending, (List.cons.inj queued).2, keys_eq, ?_⟩
    rw [layer_eq, gather, if_neg]
    rintro ⟨readable, -⟩
    exact Table.get?_eq_none_iff.mp absent readable
  case load =>
    intro loaded file queue _ text s new found of h
    obtain ⟨n, part, pending, queued, keys_eq, layer_eq⟩ := within_of_cons h
    refine ⟨n, part ++ [file], pending, ?_, ?_, ?_⟩
    · have rest : queue = pending ++ part.flatMap (importedBy files) := (List.cons.inj queued).2
      have mine : importedBy files file = importsOf file text := by rw [importedBy, found]
      rw [rest, List.flatMap_append, List.flatMap_singleton, mine, List.append_assoc]
    · rw [Table.keys_insert_of_not_mem _ new, keys_eq, List.append_assoc]
    · rw [layer_eq, gather, if_pos ⟨Table.mem_keys_of_get? found, keys_eq ▸ new⟩, List.append_assoc,
        List.append_assoc, List.singleton_append]

/-- The files come layer after layer, up to the last layer that is not empty. -/
theorem keys_ofFiles {serial : Nat} {request : Request} {previous : Option Compilation}
    (genuine : ∀ c, previous = some c → c.IsGenuine) : ∃ depth,
    (ofFiles files serial request previous).1.sources.keys = settled files request.roots depth ∧
      ∀ m ≥ depth, layer files request.roots m = [] := by
  obtain ⟨n, part, pending, queued, keys_eq, layer_eq⟩ : ∃ n part pending, Within files request.roots n part
      pending (ofFiles files serial request previous).1.sources [] := within_ofFiles genuine
  obtain ⟨rfl, nothing⟩ := List.append_eq_nil_iff.mp queued.symm
  rw [gather, List.append_nil] at layer_eq
  refine ⟨n + 1, by rw [settled, keys_eq, layer_eq], fun m more => ?_⟩
  induction m, more using Nat.le_induction with
  | base => rw [layer_eq_gather, candidates, layer_eq, nothing, gather]
  | succ m _ ih => rw [layer_eq_gather, candidates, ih, List.flatMap_nil, gather]

end Layers

/-- What is loaded from a table of files: the least set closed under imports, layer after layer. Every
loaded file is read once and is what its text parses to; what is read at all is a root or imported by a
loaded file. -/
structure LoadsClosure (files : Table String String) (roots : List String) (made : Compilation × List String) :
    Prop where
  closure : IsLeast {within | ClosedUnderImports files roots within} {file | file ∈ made.1.sources.keys}
  layered : ∃ depth, made.1.sources.keys = settled files roots depth ∧
    ∀ m ≥ depth, layer files roots m = []
  once : ∀ file ∈ made.1.sources.keys, made.2.count file = 1
  parsed : ∀ file s, made.1.source? file = some s → ∃ text, files.get? file = some text ∧ s.IsOf file text
  asked : ∀ name, name ∈ made.2 ↔
    name ∈ roots ∨ ∃ file s, made.1.source? file = some s ∧ name ∈ s.targets

/-- Whatever files there are, whatever they import, and whatever has been compiled before, the loop that
loads them comes to the end of its queue, and has loaded the closure of the roots under imports. -/
theorem exists_turns_loadsClosure (files : Table String String) (serial : Nat) (request : Request)
    (previous : Option Compilation) (genuine : ∀ c, previous = some c → c.IsGenuine) :
    let made := ofFiles files serial request previous
    (∃ turns, (Front.next files (sourceOf serial previous))^[turns] ⟨{}, request.roots, []⟩ =
      ⟨made.1.sources, [], made.2⟩) ∧ LoadsClosure files request.roots made := by
  refine ⟨leads_ofFiles files serial request previous, ?_⟩
  exact {
    closure := ⟨closed_ofFiles genuine, fun _ closed _ loaded => subset_closed genuine closed loaded⟩
    layered := keys_ofFiles genuine
    once := (readsOnce_ofFiles genuine).once
    parsed := fun _ _ hs => parsed_ofFiles genuine hs
    asked := fun name => (or_iff_left List.not_mem_nil).symm.trans (readsWanted_ofFiles genuine name) }

/-- Files that import each other, one name twice, themselves, under another spelling, and a name that no
file has. -/
def entangled : Table String String := .ofList [
  ("/a", "@import \"b\"; @import \"./c\"; @import \"b\"; @import \"gone\"; x:=y;"),
  ("/b", "@import \"d\"; @import \"./a\";"),
  ("/c", "@import \"x/../d\"; @import \"c\";"),
  ("/d", "y:=y;"), ("/e", "z:=x;")]

def entangledBefore : Compilation :=
  (ofFiles (.ofList [("/b", "@import \"d\"; @import \"./a\";"), ("/d", "y:='y';")]) 0 ⟨["/b"], false⟩ none).1

theorem exists_turns_loadsClosure_entangled :
    let made := ofFiles entangled 1 ⟨["/a", "/gone", "/c", "/a"], true⟩ (some entangledBefore)
    ((∃ turns, (Front.next entangled (sourceOf 1 (some entangledBefore)))^[turns]
        ⟨{}, ["/a", "/gone", "/c", "/a"], []⟩ = ⟨made.1.sources, [], made.2⟩) ∧
      LoadsClosure entangled ["/a", "/gone", "/c", "/a"] made) ∧
      made.1.sources.keys = ["/a", "/c", "/b", "/d"] ∧
      made.1.sources.values.map Source.readBy = [1, 1, 0, 1] ∧
      made.2 = ["/a", "/gone", "/c", "/b", "/gone", "/d"] := by
  refine ⟨exists_turns_loadsClosure entangled 1 ⟨["/a", "/gone", "/c", "/a"], true⟩ (some entangledBefore) ?_,
    by decide +kernel⟩
  rintro _ ⟨⟩
  exact isGenuine_ofFiles_none _ _ _

end GrammarWorkspace.Grammar.Compilation
