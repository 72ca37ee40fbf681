import GrammarWorkspace.Proofs.Grammar.Likeness
import Mathlib.Data.List.Forall2

/-!
# Compiling again and again

A compilation that takes over the unchanged files of an earlier one cannot be told from one that reads
them all anew, except by who read what. What it takes over is genuine: every source is what reading its
text under its name gives. Compiling keeps this, so it holds however many compilations there have been,
and whichever of them the next one takes over from.
-/
namespace GrammarWorkspace.Grammar.Compilation

variable {m : Type → Type} [Monad m] {c c' : Compilation}

/-- Every source is what reading its text under its name gives. -/
def IsGenuine (c : Compilation) : Prop := ∀ file s, c.source? file = some s → ∃ text, s.IsOf file text

theorem Alike.isGenuine (h : c.Alike c') (genuine : c'.IsGenuine) : c.IsGenuine := by
  intro file s hs
  have found := h.source?_eq file
  rw [hs] at found
  obtain ⟨s', hs', same⟩ := Option.map_eq_some_iff.mp found.symm
  obtain ⟨text, of⟩ := genuine file s' hs'
  obtain ⟨file_eq, text_eq, tree_eq⟩ := Source.eq_of_unsigned same
  exact ⟨text, file_eq.symm.trans of.file_eq, text_eq.symm.trans of.text_eq, tree_eq.symm.trans of.tree_eq⟩

theorem isGenuine_ofFiles_none (files : Table String String) (serial : Nat) (request : Request) :
    (ofFiles files serial request none).1.IsGenuine := by
  intro file s hs
  obtain ⟨text, -, of⟩ := (loads_ofFiles files serial request).source_is_of hs
  exact ⟨text, of⟩

theorem nextReadable_congr (read : String → m (Option String)) {loaded loaded' : Table String Source}
    (keys_eq : loaded.keys = loaded'.keys) (queue : List String) :
    nextReadable read loaded queue = nextReadable read loaded' queue := by
  induction queue with
  | nil => rfl
  | cons file queue ih =>
    have contains_eq : loaded.contains file = loaded'.contains file := by
      unfold Table.contains
      rw [keys_eq]
    rw [nextReadable, nextReadable, contains_eq, ih]

variable [LawfulMonad m]

/-- Whatever reading a file does besides, loading does it alike for all ways to make genuine sources,
and loads the same. -/
theorem loadFrom_unsigned (read : String → m (Option String)) {sourceOf sourceOf' : String → String → Source}
    (genuine : ∀ file text, (sourceOf file text).IsOf file text)
    (genuine' : ∀ file text, (sourceOf' file text).IsOf file text) (bound : Nat)
    {loaded loaded' : Table String Source}
    (same : loaded.mapValues Source.unsigned = loaded'.mapValues Source.unsigned) (queue : List String) :
    Table.mapValues Source.unsigned <$> loadFrom read sourceOf bound loaded queue =
      Table.mapValues Source.unsigned <$> loadFrom read sourceOf' bound loaded' queue := by
  induction bound generalizing loaded loaded' queue with
  | zero =>
    simp only [loadFrom, map_pure]
    rw [same]
  | succ bound ih =>
    rw [loadFrom, loadFrom, nextReadable_congr read (Table.keys_eq_of_mapValues same), map_bind, map_bind]
    apply bind_congr
    intro next
    rcases next with _ | ⟨file, text, rest⟩
    · dsimp only
      rw [map_pure, map_pure, same]
    · dsimp only
      rw [(genuine file text).targets, (genuine' file text).targets]
      apply ih
      rw [Table.mapValues_insert, Table.mapValues_insert, same, (genuine file text).unsigned,
        (genuine' file text).unsigned]

/-- A compilation that takes over from a genuine one reads the same names and finds the same sources as
one that takes over nothing. -/
theorem ofFiles_of_previous (files : Table String String) (serial serial' : Nat) (request : Request)
    {previous : Option Compilation} (genuine : ∀ c, previous = some c → c.IsGenuine) :
    (ofFiles files serial request previous).1.Alike (ofFiles files serial' request none).1 ∧
      (ofFiles files serial request previous).2 = (ofFiles files serial' request none).2 := by
  have anew : ∀ file text, (sourceOf serial' none file text).IsOf file text :=
    isOf_sourceOf serial' fun _ absent => by cases absent
  have nothing : (∅ : Table String Source).mapValues Source.unsigned = Table.mapValues Source.unsigned ∅ := rfl
  have loads := loadFrom_unsigned (readFrom files) (isOf_sourceOf serial genuine) anew (files.size + 1)
    nothing request.roots
  obtain ⟨sources_eq, reads_eq⟩ := Prod.ext_iff.mp (congrFun loads [])
  exact ⟨⟨rfl, sources_eq⟩, reads_eq⟩

namespace Alike

theorem identifierAt_eq (h : c.Alike c') (file : String) (line character : Int) :
    c.identifierAt file line character = c'.identifierAt file line character := by
  have sources := h.source?_eq file
  unfold identifierAt
  cases hs : c.source? file with
  | none =>
    cases hs' : c'.source? file with
    | none => rfl
    | some s' => simp [hs, hs'] at sources
  | some s =>
    cases hs' : c'.source? file with
    | none => simp [hs, hs'] at sources
    | some s' =>
      simp only [hs, hs', Option.map_some, Option.some.injEq] at sources
      obtain ⟨-, -, tree_eq⟩ := Source.eq_of_unsigned sources
      simp only [Option.bind_eq_bind, Option.bind_some, tree_eq]

theorem declarationsAt_eq (h : c.Alike c') (file : String) (line character : Int) :
    c.declarationsAt file line character = c'.declarationsAt file line character := by
  unfold declarationsAt declarationsOf
  rw [h.identifierAt_eq, h.declarations_eq]

theorem referencesAt_eq (h : c.Alike c') (file : String) (line character : Int) (withDeclarations : Bool) :
    c.referencesAt file line character withDeclarations =
      c'.referencesAt file line character withDeclarations := by
  unfold referencesAt declarationsOf referencesTo
  rw [h.identifierAt_eq, h.declarations_eq, h.references_eq]

end Alike

/-- Two compilations, each with the names it has read, have the same sources, read the same names in the
same order, and say the same of names, of what is wrong, and of every position. -/
structure Matches (made anew : Compilation × List String) : Prop where
  request_eq : made.1.request = anew.1.request
  reads_eq : made.2 = anew.2
  files_eq : made.1.sources.keys = anew.1.sources.keys
  source_eq : ∀ file, (made.1.source? file).map (fun s => (s.file, s.text, s.tree)) =
    (anew.1.source? file).map fun s => (s.file, s.text, s.tree)
  declarations_eq : made.1.declarations = anew.1.declarations
  references_eq : made.1.references = anew.1.references
  diagnosticsFor_eq : ∀ file, made.1.diagnosticsFor file = anew.1.diagnosticsFor file
  identifierAt_eq : ∀ file line character,
    made.1.identifierAt file line character = anew.1.identifierAt file line character
  declarationsAt_eq : ∀ file line character,
    made.1.declarationsAt file line character = anew.1.declarationsAt file line character
  referencesAt_eq : ∀ file line character withDeclarations,
    made.1.referencesAt file line character withDeclarations =
      anew.1.referencesAt file line character withDeclarations

theorem matches_of_alike {reads reads' : List String} (h : c.Alike c') (request_eq : c.request = c'.request)
    (reads_eq : reads = reads') : Matches (c, reads) (c', reads') where
  request_eq := request_eq
  reads_eq := reads_eq
  files_eq := h.keys_eq
  source_eq file := by
    have parts := congrArg (Option.map fun s => (s.file, s.text, s.tree)) (h.source?_eq file)
    rwa [Option.map_map, Option.map_map] at parts
  declarations_eq := h.declarations_eq
  references_eq := h.references_eq
  diagnosticsFor_eq := h.diagnosticsFor_eq
  identifierAt_eq := h.identifierAt_eq
  declarationsAt_eq := h.declarationsAt_eq
  referencesAt_eq := h.referencesAt_eq

/-- What is compiled next: a request, the files that there are now, and which earlier compilation to take
over from, if any. -/
structure Generation where
  request : Request
  files : Table String String
  old : Option Nat

def chainFrom (earlier : List Compilation) : List Generation → List (Compilation × List String)
  | [] => []
  | g :: rest =>
    let made := ofFiles g.files earlier.length g.request (g.old.bind (earlier[·]?))
    made :: chainFrom (earlier ++ [made.1]) rest

def chain (generations : List Generation) : List (Compilation × List String) := chainFrom [] generations

/-- From genuine compilations on, every generation matches the one that is compiled anew. -/
theorem matches_chainFrom {earlier : List Compilation} (genuine : ∀ c ∈ earlier, c.IsGenuine) (serial : Nat)
    (generations : List Generation) :
    List.Forall₂ (fun g made => Matches made (ofFiles g.files serial g.request none)) generations
      (chainFrom earlier generations) := by
  induction generations generalizing earlier with
  | nil => exact .nil
  | cons g rest ih =>
    have taken : ∀ c, g.old.bind (earlier[·]?) = some c → c.IsGenuine := by
      intro c found
      obtain ⟨number, -, at_number⟩ := Option.bind_eq_some_iff.mp found
      exact genuine c (List.mem_of_getElem? at_number)
    obtain ⟨alike, reads_eq⟩ := ofFiles_of_previous g.files earlier.length serial g.request taken
    refine .cons (matches_of_alike alike rfl reads_eq) (ih fun c hc => ?_)
    rcases List.mem_append.mp hc with hc | hc
    · exact genuine c hc
    · rw [List.mem_singleton.mp hc]
      exact alike.isGenuine (isGenuine_ofFiles_none g.files serial g.request)

/-- However many compilations have been made, and whichever of them the next one takes over from, it
matches the one that takes over nothing. -/
theorem matches_chain (generations : List Generation) (serial : Nat) :
    List.Forall₂ (fun g made => Matches made (ofFiles g.files serial g.request none)) generations
      (chain generations) :=
  matches_chainFrom (fun _ absent => by cases absent) serial generations

end GrammarWorkspace.Grammar.Compilation
