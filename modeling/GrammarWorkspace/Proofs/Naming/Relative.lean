import GrammarWorkspace.Proofs.Naming.Normal
import Mathlib.Data.List.Induction

/-!
# Relative paths in normal form

To go along a relative path is to go along its normal form, from whatever directory. So it makes no
difference whether a path is put in normal form before it is resolved.
-/
namespace GrammarWorkspace

namespace Text

theorem split_append (isSeparator : Char → Bool) {c : Char} (hc : isSeparator c = true) (a b : List Char) :
    split isSeparator (a ++ c :: b) = split isSeparator a ++ split isSeparator b := by
  induction a with
  | nil => exact if_pos hc
  | cons d a ih =>
    rw [List.cons_append, split, split, ih]
    split
    · rfl
    · cases hs : split isSeparator a with
      | nil => exact absurd hs (split_ne_nil isSeparator a)
      | cons piece pieces => rfl

end Text

namespace Path

variable {segment last : List Char} {before kept : List (List Char)} {rooted : Bool}

theorem follow_of_idle (idle : segment = [] ∨ segment = ['.']) : follow rooted kept segment = kept := if_pos idle

theorem follow_of_named (busy : ¬(segment = [] ∨ segment = ['.'])) (named : segment ≠ ['.', '.']) :
    follow rooted kept segment = segment :: kept := by
  unfold follow
  rw [if_neg busy, if_pos named]

theorem follow_up (rooted : Bool) (last : List Char) (before : List (List Char)) :
    follow rooted (last :: before) ['.', '.'] =
      if last = ['.', '.'] then ['.', '.'] :: last :: before else before := by
  simp [follow]

theorem named_foldl_follow (segments : List (List Char)) :
    ∀ s ∈ segments.foldl (follow false) [], s ∈ segments ∧ s ≠ [] ∧ s ≠ ['.'] := by
  induction segments using List.reverseRecOn with
  | nil => exact List.forall_mem_nil _
  | append_singleton segments segment ih =>
    have before : ∀ s ∈ segments.foldl (follow false) [], s ∈ segments ++ [segment] ∧ s ≠ [] ∧ s ≠ ['.'] :=
      fun s hs => ⟨List.mem_append_left _ (ih s hs).1, (ih s hs).2⟩
    rw [List.foldl_append, List.foldl_cons, List.foldl_nil]
    by_cases idle : segment = [] ∨ segment = ['.']
    · rw [follow_of_idle idle]
      exact before
    · have here : segment ∈ segments ++ [segment] ∧ segment ≠ [] ∧ segment ≠ ['.'] :=
        ⟨List.mem_append_right _ (List.mem_singleton_self segment), not_or.mp idle⟩
      by_cases up : segment = ['.', '.']
      · subst up
        cases kept : segments.foldl (follow false) [] with
        | nil => exact List.forall_mem_singleton.mpr here
        | cons last rest =>
          rw [kept] at before
          rw [follow_up]
          split
          · exact List.forall_mem_cons.mpr ⟨here, before⟩
          · exact fun s hs => before s (List.mem_cons_of_mem last hs)
      · rw [follow_of_named idle up]
        exact List.forall_mem_cons.mpr ⟨here, before⟩

theorem foldl_follow_reduced (rooted : Bool) (kept : List (List Char)) (segments : List (List Char)) :
    (segments.foldl (follow false) []).reverse.foldl (follow rooted) kept =
      segments.foldl (follow rooted) kept := by
  induction segments using List.reverseRecOn with
  | nil => rfl
  | append_singleton segments segment ih =>
    rw [List.foldl_append, List.foldl_append, ← ih]
    simp only [List.foldl_cons, List.foldl_nil]
    by_cases idle : segment = [] ∨ segment = ['.']
    · rw [follow_of_idle idle, follow_of_idle idle]
    · by_cases up : segment = ['.', '.']
      · subst up
        have named := named_foldl_follow segments
        cases left : segments.foldl (follow false) [] with
        | nil => rfl
        | cons last before =>
          rw [left] at named
          obtain ⟨-, busy⟩ := named last List.mem_cons_self
          by_cases high : last = ['.', '.']
          · have lengthened : (['.', '.'] :: last :: before).reverse = (last :: before).reverse ++ [['.', '.']] :=
              List.reverse_cons
            rw [follow_up false, if_pos high, lengthened, List.foldl_append, List.foldl_cons, List.foldl_nil]
          · -- A name and the way up from it cancel out.
            rw [follow_up false, if_neg high, List.reverse_cons, List.foldl_append, List.foldl_cons,
              List.foldl_nil, follow_of_named (not_or.mpr busy) high, follow_up, if_neg high]
      · rw [follow_of_named idle up, List.reverse_cons, List.foldl_append, List.foldl_cons, List.foldl_nil]

theorem rootOf_of_relative {path : String} (h : isAbsolute path = false) : rootOf path.toList = [] := by
  unfold isAbsolute at h
  unfold rootOf
  split <;> simp_all

theorem normalize_of_relative {path : String} (h : isAbsolute path = false) :
    normalize path = String.ofList
      (if Text.join '/' ((Text.splitOn '/' path.toList).foldl (follow false) []).reverse = [] then ['.']
        else Text.join '/' ((Text.splitOn '/' path.toList).foldl (follow false) []).reverse) := by
  simp [normalize, rootOf_of_relative h]

theorem foldl_follow_normalize {path : String} (h : isAbsolute path = false) (rooted : Bool)
    (kept : List (List Char)) :
    (Text.splitOn '/' (normalize path).toList).foldl (follow rooted) kept =
      (Text.splitOn '/' path.toList).foldl (follow rooted) kept := by
  have named := named_foldl_follow (Text.splitOn '/' path.toList)
  have no_slash : ∀ s ∈ ((Text.splitOn '/' path.toList).foldl (follow false) []).reverse, ∀ c ∈ s, c ≠ '/' :=
    fun s hs c hc => of_decide_eq_false
      (Text.not_mem_split path.toList s (named s (List.mem_reverse.mp hs)).1 c hc)
  rw [normalize_of_relative h, String.toList_ofList]
  rw [← foldl_follow_reduced rooted kept (Text.splitOn '/' path.toList)]
  cases left : ((Text.splitOn '/' path.toList).foldl (follow false) []).reverse with
  | nil =>
    have stays : follow rooted kept ['.'] = kept := follow_of_idle (Or.inr rfl)
    exact stays
  | cons first rest =>
    rw [left] at no_slash
    have first_ne : first ≠ [] :=
      (named first (List.mem_reverse.mp (by rw [left]; exact List.mem_cons_self))).2.1
    have joined_ne : Text.join '/' (first :: rest) ≠ [] := by
      obtain ⟨c, first, rfl⟩ := List.exists_cons_of_ne_nil first_ne
      rw [Text.join_cons_cons]
      exact List.cons_ne_nil _ _
    rw [if_neg joined_ne, Text.splitOn_join (List.cons_ne_nil _ _) no_slash]

theorem isAbsolute_normalize_of_relative {path : String} (h : isAbsolute path = false) :
    isAbsolute (normalize path) = false := by
  have named := named_foldl_follow (Text.splitOn '/' path.toList)
  rw [normalize_of_relative h, isAbsolute, String.toList_ofList]
  split
  · rfl
  · cases left : ((Text.splitOn '/' path.toList).foldl (follow false) []).reverse with
    | nil => rfl
    | cons first rest =>
      obtain ⟨mem, ne_nil, -⟩ := named first (List.mem_reverse.mp (by rw [left]; exact List.mem_cons_self))
      obtain ⟨c, first, rfl⟩ := List.exists_cons_of_ne_nil ne_nil
      have other : c ≠ '/' := of_decide_eq_false
        (Text.not_mem_split path.toList _ mem c List.mem_cons_self)
      rw [Text.join_cons_cons]
      simpa using other

theorem exists_toList_join {directory : String} (hd : directory ≠ "") : ∃ front : List Char,
    ∀ path, isAbsolute path = false → (join directory path).toList = front ++ '/' :: path.toList := by
  have nonempty : directory.toList ≠ [] := fun none => hd (String.toList_inj.mp none)
  by_cases closed : directory.toList.getLast? = some '/'
  · obtain ⟨front, directory_eq⟩ := List.getLast?_eq_some_iff.mp closed
    refine ⟨front, fun path h => ?_⟩
    rw [join, h, if_neg Bool.false_ne_true, if_pos (Or.inr closed), String.toList_append, directory_eq,
      List.append_assoc, List.singleton_append]
  · refine ⟨directory.toList, fun path h => ?_⟩
    rw [join, h, if_neg Bool.false_ne_true, if_neg (not_or.mpr ⟨nonempty, closed⟩), String.toList_append,
      String.toList_append, List.append_assoc]
    rfl

theorem rootOf_append_cons (front : List Char) {below : List Char} (hb : below.head? ≠ some '/') :
    rootOf (front ++ '/' :: below) = rootOf (front ++ ['/']) := by
  match front with
  | [] =>
    cases below with
    | nil => rfl
    | cons c below =>
      have other : c ≠ '/' := by simpa using hb
      simp [rootOf, other]
  | [a] =>
    by_cases ha : a = '/'
    · cases below with
      | nil => rfl
      | cons c below =>
        have other : c ≠ '/' := by simpa using hb
        simp [rootOf, ha, other]
    · simp [rootOf, ha]
  | a :: b :: front =>
    by_cases ha : a = '/'
    · by_cases hb : b = '/'
      · cases front with
        | nil => simp [rootOf, ha, hb]
        | cons c front => by_cases hc : c = '/' <;> simp [rootOf, ha, hb, hc]
      · simp [rootOf, ha, hb]
    · simp [rootOf, ha]

/-- The normal form of a path depends on its root and on where its segments lead. -/
theorem normalize_congr {path path' : String} (root_eq : rootOf path.toList = rootOf path'.toList)
    (followed : ∀ rooted, (Text.splitOn '/' path.toList).foldl (follow rooted) [] =
      (Text.splitOn '/' path'.toList).foldl (follow rooted) []) : normalize path = normalize path' := by
  simp only [normalize, root_eq, followed]

/-- Seen from a directory, a relative path leads to where its normal form leads. -/
theorem normalize_join_normalize {directory path : String} (hd : directory ≠ "") (h : isAbsolute path = false) :
    normalize (join directory (normalize path)) = normalize (join directory path) := by
  obtain ⟨front, joined⟩ := exists_toList_join hd
  have h' := isAbsolute_normalize_of_relative h
  have first : path.toList.head? ≠ some '/' := by simpa [isAbsolute] using h
  have first' : (normalize path).toList.head? ≠ some '/' := by simpa [isAbsolute] using h'
  have cut (below : List Char) :
      Text.splitOn '/' (front ++ '/' :: below) = Text.splitOn '/' front ++ Text.splitOn '/' below :=
    Text.split_append _ (decide_eq_true rfl) front below
  refine normalize_congr ?_ fun rooted => ?_
  · rw [joined _ h, joined _ h', rootOf_append_cons front first, rootOf_append_cons front first']
  · rw [joined _ h, joined _ h', cut, cut, List.foldl_append, List.foldl_append, foldl_follow_normalize h]

end Path

namespace Host

/-- It makes no difference whether a path is put in normal form before it is resolved. -/
theorem normalize_resolve_normalize (host : Host) (path : String) :
    Path.normalize (host.resolve (Path.normalize path)) = Path.normalize (host.resolve path) := by
  cases absolute : Path.isAbsolute path with
  | true =>
    have normal := Path.isNormal_normalize absolute
    have resolve_eq : host.resolve path = path := if_pos absolute
    have resolve_eq' : host.resolve (Path.normalize path) = Path.normalize path := if_pos normal.isAbsolute
    rw [resolve_eq, resolve_eq', normal.normalize_eq]
  | false =>
    have relative := Path.isAbsolute_normalize_of_relative absolute
    obtain ⟨directory, ne, from_there⟩ : ∃ directory, directory ≠ "" ∧
        ∀ path, Path.isAbsolute path = false → host.resolve path = Path.join directory path := by
      have working : host.surroundings.workingDirectory ≠ "" := by
        intro empty
        have absolute := host.surroundings.isAbsolute
        rw [empty] at absolute
        exact absurd absolute (by decide)
      unfold resolve
      split
      · exact ⟨_, working, fun path h => by rw [h]; rfl⟩
      · exact ⟨_, working, fun path h => by rw [h]; rfl⟩
      · rename_i root named _
        exact ⟨root, named, fun path h => by rw [h]; rfl⟩
    rw [from_there _ relative, from_there _ absolute, Path.normalize_join_normalize ne absolute]

end Host
end GrammarWorkspace
