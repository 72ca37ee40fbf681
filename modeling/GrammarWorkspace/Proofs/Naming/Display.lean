import GrammarWorkspace.Proofs.Naming.Carrying
import GrammarWorkspace.Proofs.Text.Encoding

/-!
# URIs of paths

The URI that shows a path leads to that path read from the root of all files, with slashes for backslashes
and with its escapes decoded once. So it leads back to the file of the path if the path is absolute, has no
backslash and is left as it is by decoding.
-/
namespace GrammarWorkspace

namespace Text

theorem mem_join {separator c : Char} {pieces : List (List Char)} (h : c ∈ join separator pieces) :
    c = separator ∨ ∃ piece ∈ pieces, c ∈ piece := by
  induction pieces with
  | nil => cases h
  | cons piece rest ih =>
    cases rest with
    | nil =>
      rw [join, List.intercalate_singleton] at h
      exact Or.inr ⟨piece, List.mem_cons_self, h⟩
    | cons next rest =>
      rw [join_cons, List.mem_append, List.mem_cons] at h
      rcases h with h | h | h
      · exact Or.inr ⟨piece, List.mem_cons_self, h⟩
      · exact Or.inl h
      · rcases ih h with h | ⟨p, hp, hc⟩
        · exact Or.inl h
        · exact Or.inr ⟨p, List.mem_cons_of_mem _ hp, hc⟩

/-- Pieces without the separator come to begin with it just if the first of several is empty. -/
theorem head?_join_eq_some_iff {separator : Char} {first : List Char} (others : List (List Char))
    (h : ∀ c ∈ first, c ≠ separator) :
    (join separator (first :: others)).head? = some separator ↔ first = [] ∧ others ≠ [] := by
  cases first with
  | nil =>
    cases others with
    | nil => simp [join]
    | cons next others => simp [join_cons]
  | cons c first =>
    have ne := h c List.mem_cons_self
    rw [join_cons_cons]
    simpa using ne

theorem join_split_or (separator other : Char) (text : List Char) :
    join separator (split (fun c => c == separator || c == other) text) =
      text.map fun c => if c = other then separator else c := by
  induction text with
  | nil => rfl
  | cons c rest ih =>
    have ne := split_ne_nil (fun c => c == separator || c == other) rest
    rw [split, List.map_cons]
    by_cases cut : (c == separator || c == other) = true
    · have forward : (if c = other then separator else c) = separator := by
        split
        · rfl
        · simp_all
      rw [if_pos cut, join_nil_cons separator ne, ih, forward]
    · have same : (if c = other then separator else c) = c := by
        rw [if_neg]
        simp_all
      rw [if_neg cut, same]
      cases pieces : split (fun c => c == separator || c == other) rest with
      | nil => exact absurd pieces ne
      | cons piece more =>
        rw [pieces] at ih
        dsimp only
        rw [join_cons_cons, ih]

end Text

namespace Uri

open Text (join split)

def slashed (path : List Char) : List Char :=
  let forward := path.map fun c => if c = '\\' then '/' else c
  if forward.head? = some '/' then forward else '/' :: forward

theorem head?_slashed (path : List Char) : (slashed path).head? = some '/' := by
  unfold slashed
  dsimp only
  split
  · assumption
  · rfl

theorem exists_slashed_eq_cons (path : List Char) : ∃ below, slashed path = '/' :: below := by
  have first := head?_slashed path
  cases h : slashed path with
  | nil =>
    rw [h] at first
    cases first
  | cons c below =>
    rw [h] at first
    cases first
    exact ⟨below, rfl⟩

theorem slashed_of_isAbsolute {path : String} (absolute : Path.isAbsolute path = true)
    (forward : '\\' ∉ path.toList) : slashed path.toList = path.toList := by
  have same : path.toList.map (fun c => if c = '\\' then '/' else c) = path.toList := by
    rw [List.map_congr_left, List.map_id]
    intro c hc
    rw [if_neg]
    · rfl
    · rintro rfl
      exact forward hc
  have first : path.toList.head? = some '/' := by simpa [Path.isAbsolute] using absolute
  simp only [slashed, same, first, if_true]

theorem exists_toList_ofPath (path : String) : ∃ segments,
    (ofPath path).toList = "file://".toList ++ join '/' (segments.map Text.Percent.encode) ∧
      (join '/' (segments.map Text.Percent.encode)).head? = some '/' ∧
      join '/' segments = slashed path.toList := by
  let isSeparator (c : Char) : Bool := c == '/' || c == '\\'
  have joined : join '/' (split isSeparator path.toList) = path.toList.map fun c => if c = '\\' then '/' else c :=
    Text.join_split_or '/' '\\' path.toList
  have no_slash : ∀ s ∈ split isSeparator path.toList, ∀ c ∈ s, c ≠ '/' := by
    rintro s hs _ hc rfl
    exact absurd (Text.not_mem_split path.toList s hs '/' hc) (by decide)
  have shown : (ofPath path).toList =
      (if (join '/' ((split isSeparator path.toList).map Text.Percent.encode)).head? = some '/' then "file://"
        else "file:///").toList ++ join '/' ((split isSeparator path.toList).map Text.Percent.encode) :=
    String.toList_ofList
  rw [shown, slashed, ← joined]
  cases segments : split isSeparator path.toList with
  | nil => exact absurd segments (Text.split_ne_nil _ _)
  | cons first others =>
    rw [segments] at no_slash
    have plain : ∀ c ∈ Text.Percent.encode first, c ≠ '/' := by
      rintro c hc rfl
      rcases Text.Percent.mem_encode hc with plain | percent
      · exact absurd plain (by decide)
      · exact absurd percent (by decide)
    have alike : (join '/' ((first :: others).map Text.Percent.encode)).head? = some '/' ↔
        (join '/' (first :: others)).head? = some '/' := by
      rw [List.map_cons, Text.head?_join_eq_some_iff _ plain,
        Text.head?_join_eq_some_iff _ (no_slash first List.mem_cons_self), Text.Percent.encode_eq_nil]
      simp
    by_cases rooted : (join '/' (first :: others)).head? = some '/'
    · refine ⟨first :: others, ?_, alike.mpr rooted, ?_⟩
      · rw [if_pos (alike.mpr rooted)]
      · rw [if_pos rooted]
    · -- A relative path gets an empty segment in front.
      have front : join '/' (([] :: first :: others).map Text.Percent.encode) =
          '/' :: join '/' ((first :: others).map Text.Percent.encode) :=
        Text.join_nil_cons '/' (List.cons_ne_nil _ _)
      refine ⟨[] :: first :: others, ?_, ?_, ?_⟩
      · rw [if_neg (mt alike.mp rooted), front]
        rfl
      · rw [front]
        rfl
      · rw [if_neg rooted]
        exact Text.join_nil_cons '/' (List.cons_ne_nil _ _)

theorem cut_of_none {isMark : Char → Bool} {text : List Char} (h : ∀ c ∈ text, isMark c = false) :
    cut isMark text = (text, none) := by
  have all : text.dropWhile (!isMark ·) = [] := by
    rw [List.dropWhile_eq_nil_iff]
    intro c hc
    rw [h c hc]
    rfl
  rw [cut, all]

theorem parse_file {body : List Char} (shown : ∀ c ∈ body, Text.Percent.isPlain c = true ∨ c = '%' ∨ c = '/')
    (rooted : body.head? = some '/') :
    parse (String.ofList ("file://".toList ++ body)) = .ok ⟨"", String.ofList body⟩ := by
  have avoids {d : Char} (mark : Text.Percent.isPlain d = false) (hp : d ≠ '%') (hs : d ≠ '/') :
      ∀ c ∈ body, c ≠ d := by
    rintro c hc rfl
    rcases shown c hc with plain | percent | slash
    · exact Text.Percent.ne_of_isPlain plain mark rfl
    · exact hp percent
    · exact hs slash
  have kept : strip ("file://".toList ++ body) = "file://".toList ++ body := by
    have begins : ("file://".toList ++ body).dropWhile (fun c => c.toNat ≤ 0x20) = "file://".toList ++ body := rfl
    rw [strip, begins, List.filter_eq_self]
    intro c hc
    rw [decide_eq_true_eq]
    rcases List.mem_append.mp hc with hc | hc
    · have all : "file://".toList.all (fun c => c ≠ '\t' ∧ c ≠ '\r' ∧ c ≠ '\n') = true := by decide
      exact of_decide_eq_true (List.all_eq_true.mp all c hc)
    · exact ⟨avoids (by decide) (by decide) (by decide) c hc, avoids (by decide) (by decide) (by decide) c hc,
        avoids (by decide) (by decide) (by decide) c hc⟩
  have scheme : splitScheme ("file://".toList ++ body) = ("file".toList, '/' :: '/' :: body) := rfl
  have authority : splitAuthority ('/' :: '/' :: body) = ([], body) := by
    cases body with
    | nil => cases rooted
    | cons c body =>
      cases rooted
      rfl
  have fragment : cut (· = '#') body = (body, none) :=
    cut_of_none fun c hc => decide_eq_false (avoids (by decide) (by decide) (by decide) c hc)
  have query : cut (· = '?') body = (body, none) :=
    cut_of_none fun c hc => decide_eq_false (avoids (by decide) (by decide) (by decide) c hc)
  have without : "file".toList ∉ schemesWithParameters := by decide
  rw [parse, String.toList_ofList, kept, scheme]
  dsimp only
  rw [authority]
  dsimp only
  rw [fragment, query, if_neg without]
  rfl

theorem isUri_ofPath (path : String) : isUri (ofPath path) = true := by
  obtain ⟨segments, shown, -, -⟩ := exists_toList_ofPath path
  rw [isUri, shown]
  rfl

/-- The URI of a path names the path from the root, with what decoding makes of it. -/
theorem pathOfUri_ofPath (path : String) : Host.pathOfUri (ofPath path) =
    .ok (Path.normalize (String.ofList (Text.Percent.decode (slashed path.toList)))) := by
  obtain ⟨segments, shown, rooted, joined⟩ := exists_toList_ofPath path
  have written : ofPath path = String.ofList ("file://".toList ++ join '/' (segments.map Text.Percent.encode)) := by
    rw [← shown, String.ofList_toList]
  have decoded := Text.Percent.decode_join segments
  rw [joined] at decoded
  have escaped : ∀ c ∈ join '/' (segments.map Text.Percent.encode),
      Text.Percent.isPlain c = true ∨ c = '%' ∨ c = '/' := by
    intro c hc
    rcases Text.mem_join hc with slash | ⟨piece, hp, hc⟩
    · exact Or.inr (Or.inr slash)
    · obtain ⟨segment, -, rfl⟩ := List.mem_map.mp hp
      exact (Text.Percent.mem_encode hc).imp_right Or.inl
  have parsed := parse_file escaped rooted
  rw [← written] at parsed
  rw [Host.pathOfUri, parsed]
  dsimp only
  rw [if_pos rfl, Host.decodePath, String.toList_ofList, decoded]

end Uri

namespace Host

theorem fileName_ofPath (host : Host) (path : String) : host.fileName (.text (Uri.ofPath path)) =
    .ok (Path.normalize (String.ofList (Text.Percent.decode (Uri.slashed path.toList)))) := by
  obtain ⟨below, rooted⟩ := Uri.exists_slashed_eq_cons path.toList
  have absolute : Path.isAbsolute (String.ofList (Text.Percent.decode (Uri.slashed path.toList))) = true := by
    rw [rooted, Text.Percent.decode_cons (by decide) (by decide), Path.isAbsolute, String.toList_ofList]
    rfl
  rw [fileName_of_isUri host (Uri.isUri_ofPath path), fileName_reference, Uri.pathOfUri_ofPath]
  refine congrArg Except.ok ((normalize_resolve_normalize host _).trans ?_)
  rw [resolve_of_isAbsolute host absolute]

/-- The URI of a path that is absolute and has neither backslashes nor escapes leads to the file of the path. -/
theorem fileName_ofPath_of_isAbsolute (host : Host) {path : String} (absolute : Path.isAbsolute path = true)
    (forward : '\\' ∉ path.toList) (decoded : Text.Percent.decode path.toList = path.toList) :
    host.fileName (.text (Uri.ofPath path)) = host.fileName (.text path) := by
  have plain : ¬ Uri.isUri path = true := by
    rw [not_isUri_of_isAbsolute absolute]
    exact Bool.false_ne_true
  rw [fileName_ofPath, Uri.slashed_of_isAbsolute absolute forward, decoded, String.ofList_toList,
    fileName_of_not_isUri host plain, resolve_of_isAbsolute host absolute]

end Host
end GrammarWorkspace
