/-!
# Splitting at separators

A text is cut at every separator, so there is one piece more than there are separators, and putting
the separators back between the pieces gives the text again.
-/
namespace GrammarWorkspace.Text

def split (isSeparator : Char → Bool) : List Char → List (List Char)
  | [] => [[]]
  | c :: rest =>
    if isSeparator c then [] :: split isSeparator rest
    else
      match split isSeparator rest with
      | [] => [[c]]
      | piece :: pieces => (c :: piece) :: pieces

def join (separator : Char) (pieces : List (List Char)) : List Char :=
  [separator].intercalate pieces

def splitOn (separator : Char) (text : List Char) : List (List Char) :=
  split (· = separator) text

theorem split_ne_nil (isSeparator : Char → Bool) (text : List Char) :
    split isSeparator text ≠ [] := by
  cases text with
  | nil => simp [split]
  | cons c rest =>
    simp only [split]
    split
    · simp
    · split <;> simp

theorem join_cons_cons (separator c : Char) (piece : List Char) (pieces : List (List Char)) :
    join separator ((c :: piece) :: pieces) = c :: join separator (piece :: pieces) := by
  cases pieces <;> simp [join, List.intercalate, List.intersperse]

theorem join_nil_cons (separator : Char) {pieces : List (List Char)} (h : pieces ≠ []) :
    join separator ([] :: pieces) = separator :: join separator pieces := by
  cases pieces with
  | nil => exact absurd rfl h
  | cons piece rest => simp [join, List.intercalate, List.intersperse]

theorem join_cons (separator : Char) (first next : List Char) (others : List (List Char)) :
    join separator (first :: next :: others) = first ++ separator :: join separator (next :: others) := by
  simp [join, List.intercalate]

theorem join_splitOn (separator : Char) (text : List Char) :
    join separator (splitOn separator text) = text := by
  induction text with
  | nil => rfl
  | cons c rest ih =>
    have hne := split_ne_nil (fun c => decide (c = separator)) rest
    unfold splitOn at ih ⊢
    by_cases h : c = separator
    · simp only [split, h, decide_true, if_true]
      rw [join_nil_cons separator hne, ih]
    · simp only [split, h, decide_false, Bool.false_eq_true, if_false]
      cases hs : split (fun c => decide (c = separator)) rest with
      | nil => exact absurd hs hne
      | cons piece pieces =>
        rw [hs] at ih
        simp only
        rw [join_cons_cons, ih]

end GrammarWorkspace.Text
