import GrammarWorkspace.Naming.Host
import Mathlib.Data.List.TakeWhile

/-!
# Files in normal form

A host whose relative paths start at an absolute place gives only absolute files in normal form, and
takes each of them for itself. A path written in such a file stands for such a file.
-/
namespace GrammarWorkspace

namespace Text

theorem split_of_none {isSeparator : Char → Bool} {piece : List Char}
    (h : ∀ c ∈ piece, isSeparator c = false) : split isSeparator piece = [piece] := by
  induction piece with
  | nil => rfl
  | cons c rest ih =>
    rw [split, h c List.mem_cons_self, if_neg Bool.false_ne_true,
      ih fun d hd => h d (List.mem_cons_of_mem c hd)]

theorem split_append_cons {isSeparator : Char → Bool} {piece : List Char} {c : Char} {rest : List Char}
    (h : ∀ d ∈ piece, isSeparator d = false) (hc : isSeparator c = true) :
    split isSeparator (piece ++ c :: rest) = piece :: split isSeparator rest := by
  induction piece with
  | nil => rw [List.nil_append, split, if_pos hc]
  | cons d piece ih =>
    rw [List.cons_append, split, h d List.mem_cons_self, if_neg Bool.false_ne_true,
      ih fun e he => h e (List.mem_cons_of_mem d he)]

theorem not_mem_split {isSeparator : Char → Bool} (text : List Char) :
    ∀ piece ∈ split isSeparator text, ∀ c ∈ piece, isSeparator c = false := by
  induction text with
  | nil => simp [split]
  | cons c rest ih =>
    rw [split]
    by_cases hc : isSeparator c = true
    · rw [if_pos hc]
      exact List.forall_mem_cons.mpr ⟨by simp, ih⟩
    · have plain : isSeparator c = false := Bool.eq_false_iff.mpr hc
      rw [if_neg hc]
      cases hs : split isSeparator rest with
      | nil => exact List.forall_mem_singleton.mpr (List.forall_mem_singleton.mpr plain)
      | cons piece pieces =>
        rw [hs] at ih
        obtain ⟨first, others⟩ := List.forall_mem_cons.mp ih
        exact List.forall_mem_cons.mpr ⟨List.forall_mem_cons.mpr ⟨plain, first⟩, others⟩

theorem splitOn_join {separator : Char} {pieces : List (List Char)} (hne : pieces ≠ [])
    (h : ∀ piece ∈ pieces, ∀ c ∈ piece, c ≠ separator) : splitOn separator (join separator pieces) = pieces := by
  have plain : ∀ piece ∈ pieces, ∀ c ∈ piece, decide (c = separator) = false := fun piece hp c hc =>
    decide_eq_false (h piece hp c hc)
  induction pieces with
  | nil => exact absurd rfl hne
  | cons piece rest ih =>
    cases rest with
    | nil =>
      rw [join, List.intercalate_singleton]
      exact split_of_none (plain piece List.mem_cons_self)
    | cons next rest =>
      have joined : join separator (piece :: next :: rest) = piece ++ separator :: join separator (next :: rest) := by
        simp [join, List.intercalate]
      rw [joined, splitOn, split_append_cons (plain piece List.mem_cons_self) (decide_eq_true rfl)]
      congr 1
      exact ih (List.cons_ne_nil _ _) (fun p hp => h p (List.mem_cons_of_mem _ hp))
        fun p hp => plain p (List.mem_cons_of_mem _ hp)

end Text

namespace Path

structure IsPlain (segment : List Char) : Prop where
  ne_nil : segment ≠ []
  ne_here : segment ≠ ['.']
  ne_up : segment ≠ ['.', '.']
  no_slash : ∀ c ∈ segment, c ≠ '/'

theorem follow_of_plain {segment : List Char} (h : IsPlain segment) (rooted : Bool) (kept : List (List Char)) :
    follow rooted kept segment = segment :: kept := by
  simp [follow, h.ne_nil, h.ne_here, h.ne_up]

theorem plain_follow {segment : List Char} {kept : List (List Char)} (no_slash : ∀ c ∈ segment, c ≠ '/')
    (plain : ∀ s ∈ kept, IsPlain s) : ∀ s ∈ follow true kept segment, IsPlain s := by
  unfold follow
  split
  · exact plain
  · rename_i named
    obtain ⟨ne_nil, ne_here⟩ := not_or.mp named
    split
    · exact List.forall_mem_cons.mpr ⟨⟨ne_nil, ne_here, ‹_›, no_slash⟩, plain⟩
    · cases kept with
      | nil => simp
      | cons last before =>
        obtain ⟨first, others⟩ := List.forall_mem_cons.mp plain
        dsimp only
        rw [if_neg first.ne_up]
        exact others

theorem plain_foldl_follow {segments kept : List (List Char)} (no_slash : ∀ s ∈ segments, ∀ c ∈ s, c ≠ '/')
    (plain : ∀ s ∈ kept, IsPlain s) : ∀ s ∈ segments.foldl (follow true) kept, IsPlain s := by
  induction segments generalizing kept with
  | nil => exact plain
  | cons segment rest ih =>
    obtain ⟨first, others⟩ := List.forall_mem_cons.mp no_slash
    exact ih others (plain_follow first plain)

theorem foldl_follow_of_plain {segments kept : List (List Char)} (h : ∀ s ∈ segments, IsPlain s) (rooted : Bool) :
    segments.foldl (follow rooted) kept = segments.reverse ++ kept := by
  induction segments generalizing kept with
  | nil => rfl
  | cons segment rest ih =>
    rw [List.foldl_cons, follow_of_plain (h segment List.mem_cons_self),
      ih fun s hs => h s (List.mem_cons_of_mem _ hs)]
    simp

theorem rootOf_of_absolute {path : String} (h : isAbsolute path = true) :
    rootOf path.toList = ['/'] ∨ rootOf path.toList = ['/', '/'] := by
  unfold isAbsolute at h
  match hp : path.toList with
  | [] => rw [hp] at h; cases h
  | c :: rest =>
    rw [hp] at h
    simp at h
    subst h
    unfold rootOf
    split <;> simp_all

theorem normalize_of_absolute {path : String} (h : isAbsolute path = true) : ∃ root segments,
    (root = ['/'] ∨ root = ['/', '/']) ∧ (∀ s ∈ segments, IsPlain s) ∧
      normalize path = String.ofList (root ++ Text.join '/' segments) := by
  have rooted : (!(rootOf path.toList).isEmpty) = true := by
    rcases rootOf_of_absolute h with he | he <;> rw [he] <;> rfl
  have no_slash : ∀ s ∈ Text.splitOn '/' path.toList, ∀ c ∈ s, c ≠ '/' := fun s hs c hc =>
    of_decide_eq_false (Text.not_mem_split path.toList s hs c hc)
  have plain := plain_foldl_follow no_slash (List.forall_mem_nil IsPlain)
  refine ⟨rootOf path.toList, _, rootOf_of_absolute h, fun s hs => plain s (List.mem_reverse.mp hs), ?_⟩
  have ne : rootOf path.toList ≠ [] := by
    rcases rootOf_of_absolute h with he | he <;> rw [he] <;> exact List.cons_ne_nil _ _
  simp only [normalize, rooted, List.append_eq_nil_iff, ne, false_and, if_false]

theorem rootOf_append {root below : List Char} (hr : root = ['/'] ∨ root = ['/', '/'])
    (hb : below.head? ≠ some '/') : rootOf (root ++ below) = root := by
  cases below with
  | nil => rcases hr with rfl | rfl <;> rfl
  | cons c below =>
    have other : c ≠ '/' := by simpa using hb
    rcases hr with rfl | rfl <;> simp [rootOf, other]

theorem head?_join {segments : List (List Char)} (plain : ∀ s ∈ segments, IsPlain s) :
    (Text.join '/' segments).head? ≠ some '/' := by
  cases segments with
  | nil => simp [Text.join]
  | cons s rest =>
    have first := plain s List.mem_cons_self
    obtain ⟨c, s, rfl⟩ := List.exists_cons_of_ne_nil first.ne_nil
    rw [Text.join_cons_cons]
    simpa using first.no_slash c List.mem_cons_self

theorem foldl_follow_join {segments : List (List Char)} (plain : ∀ s ∈ segments, IsPlain s) (rooted : Bool) :
    (Text.splitOn '/' (Text.join '/' segments)).foldl (follow rooted) [] = segments.reverse := by
  cases segments with
  | nil => simp [Text.join, Text.splitOn, Text.split, follow]
  | cons s rest =>
    rw [Text.splitOn_join (List.cons_ne_nil s rest) fun p hp => (plain p hp).no_slash,
      foldl_follow_of_plain plain, List.append_nil]

theorem normalize_of_plain {root : List Char} {segments : List (List Char)}
    (hr : root = ['/'] ∨ root = ['/', '/']) (plain : ∀ s ∈ segments, IsPlain s) :
    normalize (String.ofList (root ++ Text.join '/' segments)) =
      String.ofList (root ++ Text.join '/' segments) := by
  have here : ∀ kept, follow true kept [] = kept := fun kept => by simp [follow]
  have skipped : ∀ below, (Text.splitOn '/' ('/' :: below)).foldl (follow true) [] =
      (Text.splitOn '/' below).foldl (follow true) [] := fun below => by
    rw [Text.splitOn, Text.split, if_pos (decide_eq_true rfl), List.foldl_cons, here]
    rfl
  have root_eq := rootOf_append hr (head?_join plain)
  have fold_eq : (Text.splitOn '/' (root ++ Text.join '/' segments)).foldl (follow true) [] =
      segments.reverse := by
    rcases hr with rfl | rfl
    · rw [List.singleton_append, skipped, foldl_follow_join plain]
    · rw [List.cons_append, List.singleton_append, skipped, skipped, foldl_follow_join plain]
  have ne : root ≠ [] := by rcases hr with rfl | rfl <;> exact List.cons_ne_nil _ _
  have rooted : (!root.isEmpty) = true := by rcases hr with rfl | rfl <;> rfl
  simp only [normalize, String.toList_ofList, root_eq, rooted, fold_eq, List.reverse_reverse,
    List.append_eq_nil_iff, ne, false_and, if_false]

structure IsNormal (path : String) : Prop where
  isAbsolute : Path.isAbsolute path = true
  normalize_eq : normalize path = path

theorem isNormal_normalize {path : String} (h : isAbsolute path = true) : IsNormal (normalize path) := by
  obtain ⟨root, segments, hr, plain, path_eq⟩ := normalize_of_absolute h
  rw [path_eq]
  refine ⟨?_, normalize_of_plain hr plain⟩
  rcases hr with rfl | rfl <;> simp [isAbsolute]

theorem isAbsolute_join {directory path : String} (h : isAbsolute directory = true) :
    isAbsolute (join directory path) = true := by
  have front : ∀ more : List Char, (directory.toList ++ more).head? = some '/' := fun more => by
    have first : directory.toList.head? = some '/' := by simpa [isAbsolute] using h
    rw [List.head?_append, first]
    rfl
  unfold join
  split
  · assumption
  · split
    · simp [isAbsolute, String.toList_append, front]
    · simp [isAbsolute, String.toList_append, front]

theorem initial_dropTrailing (isDropped : Char → Bool) (text : List Char) :
    (dropTrailing isDropped text).IsPrefix text := by
  have suffix := List.dropWhile_suffix isDropped (l := text.reverse)
  rw [← List.reverse_prefix, List.reverse_reverse] at suffix
  exact suffix

theorem head?_of_initial {a b : List Char} (h : a.IsPrefix b) (hne : a ≠ []) : a.head? = b.head? := by
  obtain ⟨rest, rfl⟩ := h
  cases a with
  | nil => exact absurd rfl hne
  | cons c a => rfl

theorem isAbsolute_directory {path : String} (h : isAbsolute path = true) :
    isAbsolute (directory path) = true := by
  have first : path.toList.head? = some '/' := by simpa [isAbsolute] using h
  let head := dropTrailing (· ≠ '/') path.toList
  let trimmed := dropTrailing (· = '/') head
  have head_ne : head ≠ [] := by
    intro none
    have all : path.toList.reverse.dropWhile (· ≠ '/') = [] := List.reverse_eq_nil_iff.mp none
    have mem : '/' ∈ path.toList.reverse := List.mem_reverse.mpr (List.mem_of_mem_head? first)
    have := List.dropWhile_eq_nil_iff.mp all '/' mem
    simp at this
  have head_first : head.head? = some '/' :=
    (head?_of_initial (initial_dropTrailing _ _) head_ne).trans first
  have known : (if trimmed = [] then head else trimmed).head? = some '/' := by
    split
    · exact head_first
    · exact (head?_of_initial (initial_dropTrailing _ _) ‹_›).trans head_first
  rw [isAbsolute, directory, String.toList_ofList]
  exact beq_iff_eq.mpr known

theorem isNormal_relativeTo {file : String} (h : isAbsolute file = true) (path : String) :
    IsNormal (relativeTo file path) :=
  isNormal_normalize (isAbsolute_join (isAbsolute_directory h))

end Path

open GrammarWorkspace.Path (IsNormal)

namespace Host

variable {host : Host} {file : String}

/-- Relative paths start at an absolute place: the root is absolute, or empty, or there is none. -/
def IsRooted (host : Host) : Prop :=
  ∀ root, host.root = some root → root = "" ∨ Path.isAbsolute root = true

theorem IsRooted.isAbsolute_resolve (h : host.IsRooted) (path : String) :
    Path.isAbsolute (host.resolve path) = true := by
  have working : Path.isAbsolute (Path.join host.surroundings.workingDirectory path) = true :=
    Path.isAbsolute_join host.surroundings.isAbsolute
  unfold resolve
  split
  · assumption
  · split
    · exact working
    · exact working
    · rename_i root named given
      exact Path.isAbsolute_join ((h root given).resolve_left named)

theorem IsRooted.isNormal_fileName (h : host.IsRooted) {locator : Locator}
    (hf : host.fileName locator = .ok file) : IsNormal file := by
  have made : ∀ path : Except Fault String,
      (path >>= fun path => pure (Path.normalize (host.resolve path))) = .ok file → IsNormal file := by
    intro path hf
    cases path with
    | error fault => cases hf
    | ok path =>
      cases hf
      exact Path.isNormal_normalize (h.isAbsolute_resolve path)
  unfold fileName at hf
  cases locator with
  | text name =>
    dsimp only at hf
    split at hf <;> exact made _ hf
  | reference uri => exact made _ hf
  | other value => exact made _ hf

theorem not_isUri_of_isAbsolute (h : Path.isAbsolute file = true) : Uri.isUri file = false := by
  unfold Path.isAbsolute at h
  unfold Uri.isUri
  split
  · rename_i first second rest file_eq
    rw [file_eq] at h
    have slash : first = '/' := by simpa using h
    rw [slash]
    rfl
  · rfl

theorem fileName_of_isNormal (h : IsNormal file) : host.fileName (.text file) = .ok file := by
  have resolve_eq : host.resolve file = file := if_pos h.isAbsolute
  simp only [fileName, not_isUri_of_isAbsolute h.isAbsolute, Bool.false_eq_true, if_false]
  change Except.ok (Path.normalize (host.resolve file)) = _
  rw [resolve_eq, h.normalize_eq]

end Host
end GrammarWorkspace
