import GrammarWorkspace.Proofs.Naming.Display

/-!
# Files that their URIs lead back to

Decoding a text either leaves it as it is or makes it shorter, and the normal form of an absolute path is
what remains of the path when some of its characters are taken out. So nothing can make up for a character
that decoding or a turned slash has changed, and the URI of a file in normal form leads back to the file only
if the file has no backslash and no escape.
-/
namespace GrammarWorkspace

namespace Text

namespace Utf8

/-- Every piece has a byte of its own, except one that ends a character left open. -/
theorem length_piecesFrom_le (opened : Option Partial) (bytes : List UInt8) :
    (piecesFrom opened bytes).length ≤ bytes.length + opened.toList.length := by
  fun_induction piecesFrom opened bytes <;> simp_all <;> omega

theorem length_decodeLenient_le (bytes : List UInt8) : (decodeLenient bytes).length ≤ bytes.length := by
  rw [decodeLenient, List.length_map]
  exact length_piecesFrom_le none bytes

theorem encode_concat (text : List Char) (c : Char) :
    encode (text ++ [c]) = encode text ++ String.utf8EncodeChar c := by
  rw [encode, List.flatMap_append, List.flatMap_singleton]
  rfl

end Utf8

namespace Percent

/-- A text without escapes is read character by character, any other gives fewer items. -/
theorem items_eq_or_length_lt (text : List Char) :
    items text = text.map Item.ofChar ∨ (items text).length < text.length := by
  fun_induction items text with
  | case1 => exact Or.inl rfl
  | case2 high low rest b escaped ih =>
    right
    rcases ih with same | shorter
    · simp [same]
    · simp only [List.length_cons]
      omega
  | case3 high low rest plain ih =>
    rcases ih with same | shorter
    · left
      rw [same]
      rfl
    · right
      exact Nat.succ_lt_succ shorter
  | case4 c rest plain ih =>
    rcases ih with same | shorter
    · left
      rw [same, List.map_cons]
    · right
      exact Nat.succ_lt_succ shorter

theorem length_assemble_le (run : List UInt8) (all : List Item) :
    (assemble run all).length ≤ run.length + all.length := by
  fun_induction assemble run all with
  | case1 run => exact Utf8.length_decodeLenient_le run
  | case2 run b rest ih =>
    simp only [List.length_append, List.length_singleton] at ih
    simp only [List.length_cons]
    omega
  | case3 run c rest ih =>
    have before := Utf8.length_decodeLenient_le run
    simp only [List.length_nil] at ih
    simp only [List.length_append, List.length_cons]
    omega

/-- Characters that are no escapes give the text again, after a run of bytes of other characters. -/
theorem assemble_map_ofChar (before text : List Char) :
    assemble (Utf8.encode before) (text.map Item.ofChar) = before ++ text := by
  induction text generalizing before with
  | nil =>
    rw [List.append_nil]
    exact Utf8.decodeLenient_encode before
  | cons c text ih =>
    rw [List.map_cons, Item.ofChar]
    by_cases ascii : c.toNat < 0x80
    · rw [if_pos ascii, assemble, ← Utf8.encodeChar_of_ascii ascii, ← Utf8.encode_concat, ih, List.append_assoc]
      rfl
    · rw [if_neg ascii, assemble, Utf8.decodeLenient_encode]
      exact congrArg (before ++ c :: ·) (ih [])

theorem decode_eq_or_length_lt (text : List Char) : decode text = text ∨ (decode text).length < text.length := by
  rcases items_eq_or_length_lt text with same | shorter
  · left
    rw [decode, same]
    exact assemble_map_ofChar [] text
  · right
    have bound := length_assemble_le [] (items text)
    rw [List.length_nil] at bound
    unfold decode
    omega

end Percent

theorem sublist_join {separator : Char} {kept pieces : List (List Char)} (h : kept.Sublist pieces) :
    (join separator kept).Sublist (join separator pieces) := by
  induction h with
  | slnil => exact List.Sublist.refl _
  | @cons kept pieces piece h ih =>
    cases pieces with
    | nil =>
      rw [List.sublist_nil.mp h]
      exact List.nil_sublist _
    | cons next rest =>
      rw [join_cons]
      exact (ih.cons separator).trans (List.sublist_append_right piece _)
  | @cons_cons kept pieces piece h ih =>
    cases pieces with
    | nil =>
      obtain rfl := List.sublist_nil.mp h
      exact List.Sublist.refl _
    | cons next rest =>
      cases kept with
      | nil =>
        rw [join_cons, join, List.intercalate_singleton]
        exact List.sublist_append_left piece _
      | cons first more =>
        rw [join_cons, join_cons]
        exact (List.Sublist.refl piece).append (ih.cons_cons separator)

end Text

namespace Path

theorem sublist_follow (rooted : Bool) (kept : List (List Char)) (segment : List Char) :
    (follow rooted kept segment).Sublist (segment :: kept) := by
  unfold follow
  split
  · exact List.sublist_cons_self segment kept
  · split
    · exact List.Sublist.refl _
    · cases kept with
      | nil =>
        dsimp only
        split
        · exact List.nil_sublist _
        · exact List.Sublist.refl _
      | cons last before =>
        dsimp only
        split
        · exact List.Sublist.refl _
        · exact ((List.sublist_cons_self last before).trans (List.sublist_cons_self segment _))

theorem sublist_foldl_follow (rooted : Bool) (segments kept : List (List Char)) :
    (segments.foldl (follow rooted) kept).reverse.Sublist (kept.reverse ++ segments) := by
  induction segments generalizing kept with
  | nil =>
    simp
  | cons segment rest ih =>
    have front := (sublist_follow rooted kept segment).reverse
    rw [List.reverse_cons] at front
    have whole := (ih (follow rooted kept segment)).trans (front.append_right rest)
    rwa [List.append_assoc] at whole

theorem sublist_join_foldl_follow (rooted : Bool) (text : List Char) :
    (Text.join '/' ((Text.splitOn '/' text).foldl (follow rooted) []).reverse).Sublist text := by
  have kept : (Text.join '/' _).Sublist (Text.join '/' _) :=
    Text.sublist_join (sublist_foldl_follow rooted (Text.splitOn '/' text) [])
  rwa [List.reverse_nil, List.nil_append, Text.join_splitOn] at kept

theorem foldl_follow_slash (rooted : Bool) (below : List Char) (kept : List (List Char)) :
    (Text.splitOn '/' ('/' :: below)).foldl (follow rooted) kept =
      (Text.splitOn '/' below).foldl (follow rooted) kept := by
  have here : follow rooted kept [] = kept := by simp [follow]
  rw [Text.splitOn, Text.split, if_pos (decide_eq_true rfl), List.foldl_cons, here]
  rfl

/-- The normal form of an absolute path is the path without some of its characters. -/
theorem sublist_normalize {path : String} (absolute : isAbsolute path = true) :
    (normalize path).toList.Sublist path.toList := by
  have root := rootOf_of_absolute absolute
  unfold normalize
  dsimp only
  generalize hp : path.toList = text at root ⊢
  have ne : rootOf text ≠ [] := by
    rcases root with root | root
    · rw [root]
      exact List.cons_ne_nil _ _
    · rw [root]
      exact List.cons_ne_nil _ _
  rw [String.toList_ofList, if_neg fun none => ne (List.append_eq_nil_iff.mp none).1]
  unfold rootOf at root ⊢
  split
  · rename_i below
    rw [foldl_follow_slash]
    exact (sublist_join_foldl_follow _ _).cons_cons '/'
  · rename_i below more
    rw [foldl_follow_slash, foldl_follow_slash]
    exact ((sublist_join_foldl_follow _ _).cons_cons '/').cons_cons '/'
  · rename_i below more _
    rw [foldl_follow_slash]
    exact (sublist_join_foldl_follow _ _).cons_cons '/'
  · simp at root

end Path

namespace Uri

open GrammarWorkspace.Path (IsNormal)

theorem length_slashed {path : String} (absolute : Path.isAbsolute path = true) :
    (slashed path.toList).length = path.toList.length := by
  have first : path.toList.head? = some '/' := by simpa [Path.isAbsolute] using absolute
  cases text : path.toList with
  | nil =>
    rw [text] at first
    cases first
  | cons c below =>
    rw [text] at first
    cases first
    rw [slashed]
    exact List.length_map _

theorem not_mem_slashed (path : List Char) : '\\' ∉ slashed path := by
  have forward : '\\' ∉ path.map fun c => if c = '\\' then '/' else c := by
    intro mem
    obtain ⟨c, -, turned⟩ := List.mem_map.mp mem
    split at turned
    · cases turned
    · exact absurd turned ‹_›
  unfold slashed
  dsimp only
  split
  · exact forward
  · exact List.not_mem_cons_of_ne_of_not_mem (by decide) forward

theorem eq_of_normalize_decode {path : String} (absolute : Path.isAbsolute path = true)
    (back : Path.normalize (String.ofList (Text.Percent.decode (slashed path.toList))) = path) :
    Text.Percent.decode (slashed path.toList) = path.toList ∧ slashed path.toList = path.toList := by
  obtain ⟨below, rooted⟩ := exists_slashed_eq_cons path.toList
  have decoded_absolute :
      Path.isAbsolute (String.ofList (Text.Percent.decode (slashed path.toList))) = true := by
    rw [rooted, Text.Percent.decode_cons (by decide) (by decide), Path.isAbsolute, String.toList_ofList]
    rfl
  have normal := Path.sublist_normalize decoded_absolute
  rw [back, String.toList_ofList] at normal
  have long := normal.length_le
  rw [← length_slashed absolute] at long
  rcases Text.Percent.decode_eq_or_length_lt (slashed path.toList) with same | shorter
  · rw [same] at normal ⊢
    have whole := normal.eq_of_length (length_slashed absolute).symm
    exact ⟨whole.symm, whole.symm⟩
  · exact absurd shorter (Nat.not_lt.mpr long)

end Uri

namespace Host

open GrammarWorkspace.Path (IsNormal)

/-- The URI of a file in normal form leads back to the file if and only if the file has no backslash and
decoding leaves it as it is. -/
theorem fileName_uri_eq_iff (host : Host) {file : String} (h : IsNormal file) :
    (Host.uri (.text file) >>= fun uri => host.fileName (.text uri)) = .ok file ↔
      '\\' ∉ file.toList ∧ Text.Percent.decode file.toList = file.toList := by
  have shown : Host.uri (.text file) = .ok (Uri.ofPath file) := by
    simp only [Host.uri, Locator.uri?, not_isUri_of_isAbsolute h.isAbsolute, Bool.false_eq_true, if_false]
  have followed : (Host.uri (.text file) >>= fun uri => host.fileName (.text uri)) =
      host.fileName (.text (Uri.ofPath file)) := by
    simp only [shown, bind, Except.bind]
  rw [followed]
  constructor
  · intro back
    rw [fileName_ofPath] at back
    obtain ⟨decoded, same⟩ := Uri.eq_of_normalize_decode h.isAbsolute (Except.ok.inj back)
    refine ⟨?_, ?_⟩
    · rw [← same]
      exact Uri.not_mem_slashed file.toList
    · rwa [same] at decoded
  · rintro ⟨forward, decoded⟩
    rw [fileName_ofPath_of_isAbsolute host h.isAbsolute forward decoded, fileName_of_isNormal h]

/-- A blank, a letter beyond ASCII and a percent sign that begins no escape all come back. -/
theorem fileName_uri_eq_iff_stray : IsNormal "/a b/é%zz" ∧
    (Host.uri (.text "/a b/é%zz") >>= fun uri => (Host.mk none).fileName (.text uri)) = .ok "/a b/é%zz" := by
  have normal : IsNormal "/a b/é%zz" := ⟨by decide +kernel, by decide +kernel⟩
  exact ⟨normal, (fileName_uri_eq_iff ⟨none⟩ normal).mpr ⟨by decide +kernel, by decide +kernel⟩⟩

end Host
end GrammarWorkspace
