import GrammarWorkspace.Proofs.Naming.Relative

/-!
# URIs that are carried

A text is taken for a path unless it looks like a URI, but a URI that something carries is always read as
one. The two come to the same file on every host just if the text looks like a URI, or names as a URI what
it names as a path.
-/
namespace GrammarWorkspace

namespace Path

theorem normalize_normalize (path : String) : normalize (normalize path) = normalize path := by
  cases absolute : isAbsolute path with
  | true => exact (isNormal_normalize absolute).normalize_eq
  | false =>
    apply normalize_congr
    · rw [rootOf_of_relative absolute, rootOf_of_relative (isAbsolute_normalize_of_relative absolute)]
    · exact fun rooted => foldl_follow_normalize absolute rooted []

theorem foldl_follow_above (kept segments : List (List Char)) :
    segments.foldl (follow false) (kept ++ [['.', '.']]) = segments.foldl (follow false) kept ++ [['.', '.']] := by
  induction segments generalizing kept with
  | nil => rfl
  | cons segment rest ih =>
    have step : follow false (kept ++ [['.', '.']]) segment = follow false kept segment ++ [['.', '.']] := by
      by_cases idle : segment = [] ∨ segment = ['.']
      · rw [follow_of_idle idle, follow_of_idle idle]
      · by_cases up : segment = ['.', '.']
        · subst up
          cases kept with
          | nil => rfl
          | cons last before =>
            rw [List.cons_append, follow_up, follow_up]
            split
            · rfl
            · rfl
        · rw [follow_of_named idle up, follow_of_named idle up, List.cons_append]
    rw [List.foldl_cons, List.foldl_cons, step, ih]

theorem normalize_join_up {path : String} (h : isAbsolute path = false) :
    normalize (join ".." path) = String.ofList
      (Text.join '/' (['.', '.'] :: ((Text.splitOn '/' path.toList).foldl (follow false) []).reverse)) := by
  have joined : (join ".." path).toList = ['.', '.'] ++ '/' :: path.toList := by
    have open_ended : ¬ ("..".toList = [] ∨ "..".toList.getLast? = some '/') := by decide
    rw [join, h, if_neg Bool.false_ne_true, if_neg open_ended, String.toList_append, String.toList_append,
      List.append_assoc]
    rfl
  have relative : isAbsolute (join ".." path) = false := by
    rw [isAbsolute, joined]
    rfl
  have split_eq : Text.splitOn '/' (join ".." path).toList = ['.', '.'] :: Text.splitOn '/' path.toList := by
    rw [joined, Text.splitOn, Text.split_append _ (decide_eq_true rfl)]
    rfl
  have followed : (Text.splitOn '/' (join ".." path).toList).foldl (follow false) [] =
      (Text.splitOn '/' path.toList).foldl (follow false) [] ++ [['.', '.']] := by
    rw [split_eq, List.foldl_cons]
    exact foldl_follow_above [] _
  rw [normalize_of_relative relative, followed, List.reverse_append, List.reverse_singleton,
    List.singleton_append, if_neg]
  rw [Text.join_cons_cons]
  exact List.cons_ne_nil _ _

theorem normalize_eq_of_join_up {path path' : String} (h : isAbsolute path = false) (h' : isAbsolute path' = false)
    (same : normalize (join ".." path) = normalize (join ".." path')) : normalize path = normalize path' := by
  have no_slash (path : String) :
      ∀ s ∈ ['.', '.'] :: ((Text.splitOn '/' path.toList).foldl (follow false) []).reverse, ∀ c ∈ s, c ≠ '/' := by
    intro s hs c hc
    rcases List.mem_cons.mp hs with rfl | hs
    · rintro rfl
      simp at hc
    · have mem := (named_foldl_follow _ s (List.mem_reverse.mp hs)).1
      exact of_decide_eq_false (Text.not_mem_split path.toList s mem c hc)
  rw [normalize_join_up h, normalize_join_up h', String.ofList_inj] at same
  have segments := congrArg (Text.splitOn '/') same
  rw [Text.splitOn_join (List.cons_ne_nil _ _) (no_slash path),
    Text.splitOn_join (List.cons_ne_nil _ _) (no_slash path')] at segments
  rw [normalize_of_relative h, normalize_of_relative h', (List.cons.inj segments).2]

end Path

namespace Host

variable {u : String}

theorem resolve_of_isAbsolute (host : Host) {path : String} (h : Path.isAbsolute path = true) :
    host.resolve path = path := if_pos h

theorem resolve_up {path : String} (h : Path.isAbsolute path = false) :
    resolve ⟨some ".."⟩ path = Path.join ".." path := by
  rw [resolve, h]
  rfl

theorem isAbsolute_normalize_resolve_up (path : String) :
    Path.isAbsolute (Path.normalize (resolve ⟨some ".."⟩ path)) = Path.isAbsolute path := by
  cases h : Path.isAbsolute path with
  | true =>
    rw [resolve_of_isAbsolute _ h]
    exact (Path.isNormal_normalize h).isAbsolute
  | false =>
    rw [resolve_up h]
    apply Path.isAbsolute_normalize_of_relative
    rw [Path.join, h]
    simp [Path.isAbsolute, String.toList_append]

/-- Where relative paths start at the directory above, all paths that differ stay apart. -/
theorem normalize_eq_of_resolve_up {path path' : String}
    (same : Path.normalize (resolve ⟨some ".."⟩ path) = Path.normalize (resolve ⟨some ".."⟩ path')) :
    Path.normalize path = Path.normalize path' := by
  have alike : Path.isAbsolute path = Path.isAbsolute path' := by
    rw [← isAbsolute_normalize_resolve_up path, same, isAbsolute_normalize_resolve_up]
  cases h : Path.isAbsolute path with
  | true => rwa [resolve_of_isAbsolute _ h, resolve_of_isAbsolute _ (alike ▸ h)] at same
  | false =>
    rw [resolve_up h, resolve_up (alike ▸ h)] at same
    exact Path.normalize_eq_of_join_up h (alike ▸ h) same

theorem normalize_pathOfUri {path : String} (h : pathOfUri u = .ok path) : Path.normalize path = path := by
  rw [pathOfUri] at h
  cases parsed : Uri.parse u with
  | error flaw =>
    rw [parsed] at h
    cases h
  | ok uri =>
    rw [parsed] at h
    dsimp only at h
    split at h
    · rw [← Except.ok.inj h, Path.normalize_normalize]
    · rw [← Except.ok.inj h, Path.normalize_normalize]

/-- The text looks like a URI, or names as a URI what it names as a path. -/
def ReadsAlike (u : String) : Prop := Uri.isUri u = true ∨ pathOfUri u = .ok (Path.normalize u)

theorem fileName_reference (host : Host) (u : String) : host.fileName (.reference (.text u)) =
    (pathOfUri u).map fun path => Path.normalize (host.resolve path) := by
  have carried : host.fileName (.reference (.text u)) =
      pathOfUri u >>= fun path => pure (Path.normalize (host.resolve path)) := rfl
  rw [carried]
  cases pathOfUri u with
  | error fault => rfl
  | ok path => rfl

theorem fileName_of_isUri (host : Host) (h : Uri.isUri u = true) :
    host.fileName (.text u) = host.fileName (.reference (.text u)) := by
  simp only [fileName, h, if_true]
  rfl

theorem fileName_of_not_isUri (host : Host) (h : ¬ Uri.isUri u = true) :
    host.fileName (.text u) = .ok (Path.normalize (host.resolve u)) := by
  simp only [fileName, h]
  rfl

theorem ReadsAlike.fileName_eq (h : ReadsAlike u) (host : Host) :
    host.fileName (.reference (.text u)) = host.fileName (.text u) := by
  by_cases looks : Uri.isUri u = true
  · exact (fileName_of_isUri host looks).symm
  · rw [fileName_reference, h.resolve_left looks, fileName_of_not_isUri host looks]
    exact congrArg Except.ok (normalize_resolve_normalize host u)

/-- A URI that is carried and the bare text stand for the same file, on every host, just if the text reads
alike. -/
theorem fileName_reference_eq_iff :
    (∀ host : Host, host.fileName (.reference (.text u)) = host.fileName (.text u)) ↔ ReadsAlike u := by
  refine ⟨fun same => ?_, ReadsAlike.fileName_eq⟩
  by_cases looks : Uri.isUri u = true
  · exact Or.inl looks
  · have seen := same ⟨some ".."⟩
    rw [fileName_reference, fileName_of_not_isUri _ looks] at seen
    cases named : pathOfUri u with
    | error fault =>
      rw [named] at seen
      cases seen
    | ok path =>
      rw [named] at seen
      have normal := normalize_eq_of_resolve_up (Except.ok.inj seen)
      rw [normalize_pathOfUri named] at normal
      exact Or.inr (named.trans (congrArg Except.ok normal))

end Host
end GrammarWorkspace
