import GrammarWorkspace.Proofs.Grammar.Lexing

/-!
# Reading a text that is spelled anew

Tokens make up a text, and are read again from the text that they make up. They also are when some
identifiers have been given another name, as long as none of these follows a token that might take
letters of the name.
-/
namespace GrammarWorkspace.Grammar

variable {here : Location} {text : List Char} {tokens tokens' : List Token}

def spelled (tokens : List Token) : List Char := tokens.flatMap (·.text.toList)

@[simp] theorem spelled_cons (t : Token) (tokens : List Token) :
    spelled (t :: tokens) = t.text.toList ++ spelled tokens := rfl

theorem spelled_tokensFrom (here : Location) (text : List Char) :
    spelled (tokensFrom here text) = text := flatMap_tokensFrom here text

def Lexed : List Token → Prop
  | [] => True
  | t :: rest => t.text.toList ≠ [] ∧
    firstToken (t.text.toList ++ spelled rest) = (t.kind, t.text.toList.length) ∧ Lexed rest

def placed : Location → List Token → List Token
  | _, [] => []
  | here, t :: rest =>
    let stop := here.advance t.text.toList
    ⟨t.kind, t.text, ⟨here, stop⟩⟩ :: placed stop rest

theorem tokensFrom_append (here : Location) {lexeme rest : List Char} {kind : Kind} (hne : lexeme ≠ [])
    (first : firstToken (lexeme ++ rest) = (kind, lexeme.length)) : tokensFrom here (lexeme ++ rest) =
      ⟨kind, .ofList lexeme, ⟨here, here.advance lexeme⟩⟩ :: tokensFrom (here.advance lexeme) rest := by
  obtain ⟨c, lexeme, rfl⟩ := List.exists_cons_of_ne_nil hne
  rw [List.cons_append] at first ⊢
  rw [tokensFrom, first]
  simp

theorem lengthToQuote_le {q : Char} {text : List Char} {n : Nat} (h : lengthToQuote q text = some n) :
    n ≤ text.length := by
  fun_induction lengthToQuote q text generalizing n with
  | case3 c rest hc ih =>
    obtain ⟨k, hk, rfl⟩ := Option.map_eq_some_iff.mp h
    have := ih hk
    simp only [List.length_cons]
    omega
  | case4 =>
    cases h
    simp
  | case6 c rest other hc plain ih =>
    obtain ⟨k, hk, rfl⟩ := Option.map_eq_some_iff.mp h
    have := ih hk
    simp only [List.length_cons]
    omega
  | _ => cases h

theorem Kind.length?_le {kind : Kind} {text : List Char} {n : Nat} (h : kind.length? text = some n) :
    n ≤ text.length := by
  have run : ∀ {first next : Char → Bool} {text : List Char} {n : Nat},
      runLength? first next text = some n → n ≤ text.length := by
    intro first next text n h
    cases text with
    | nil => cases h
    | cons c rest =>
      have := (List.takeWhile_sublist next (l := rest)).length_le
      simp only [runLength?] at h
      split at h
      · cases h
        simp only [List.length_cons]
        omega
      · cases h
  have word : ∀ {word text : List Char} {n : Nat}, wordLength? word text = some n → n ≤ text.length := by
    intro word text n h
    unfold wordLength? at h
    split at h
    · cases h
      exact (List.isPrefixOf_iff_prefix.mp ‹_›).length_le
    · cases h
  cases kind with
  | comment =>
    simp only [Kind.length?] at h
    split at h
    · rename_i rest
      have := (List.takeWhile_sublist (fun c => c ≠ '\n' ∧ c ≠ '\r') (l := rest)).length_le
      cases h
      simp only [List.length_cons]
      omega
    · cases h
  | directive =>
    simp only [Kind.length?] at h
    split at h
    · obtain ⟨m, hm, rfl⟩ := Option.map_eq_some_iff.mp h
      have := run hm
      simp only [List.length_cons]
      omega
    · cases h
  | string =>
    simp only [Kind.length?] at h
    split at h
    · obtain ⟨m, hm, rfl⟩ := Option.map_eq_some_iff.mp h
      have := lengthToQuote_le hm
      simp only [List.length_cons]
      omega
    · obtain ⟨m, hm, rfl⟩ := Option.map_eq_some_iff.mp h
      have := lengthToQuote_le hm
      simp only [List.length_cons]
      omega
    · cases h
  | newline =>
    simp only [Kind.length?] at h
    split at h
    · cases h
      simp only [List.length_cons]
      omega
    · cases h
      simp only [List.length_cons]
      omega
    · cases h
  | define | empty | bar | semicolon => exact word h
  | identifier | unknown | blanks | invalid => exact run h

theorem firstToken_length {c : Char} {rest : List Char} {kind : Kind} {n : Nat}
    (h : firstToken (c :: rest) = (kind, n)) : (c :: rest.take (n - 1)).length = n := by
  have fits := ((firstToken_eq_iff (List.cons_ne_nil c rest)).mp h).1
  have pos := Kind.length?_pos fits
  have le := Kind.length?_le fits
  simp only [List.length_cons, List.length_take] at le ⊢
  omega

theorem lexed_tokensFrom (here : Location) (text : List Char) : Lexed (tokensFrom here text) := by
  fun_induction tokensFrom here text with
  | case1 => trivial
  | case2 here c rest kind length taken lexeme stop ih =>
    refine ⟨by simp [lexeme], ?_, ih⟩
    have len : lexeme.length = length := firstToken_length taken
    rw [spelled_tokensFrom, String.toList_ofList, len, ← taken]
    simp [lexeme]

theorem placed_tokensFrom (here : Location) (text : List Char) :
    placed here (tokensFrom here text) = tokensFrom here text := by
  fun_induction tokensFrom here text with
  | case1 => rfl
  | case2 here c rest kind length taken lexeme stop ih =>
    simp only [placed, String.toList_ofList, ih, lexeme, stop]

theorem exists_split_of_mem {here : Location} {tokens : List Token} (h : placed here tokens = tokens) {t : Token}
    (ht : t ∈ tokens) : ∃ before after, spelled tokens = before ++ t.text.toList ++ after ∧
      t.span = ⟨here.advance before, here.advance (before ++ t.text.toList)⟩ := by
  induction tokens generalizing here with
  | nil => cases ht
  | cons u rest ih =>
    obtain ⟨head, tail⟩ := List.cons_eq_cons.mp h
    rcases List.mem_cons.mp ht with rfl | ht
    · exact ⟨[], spelled rest, rfl, (congrArg Token.span head).symm⟩
    · obtain ⟨before, after, rest_eq, span_eq⟩ := ih tail ht
      refine ⟨u.text.toList ++ before, after, ?_, ?_⟩
      · rw [spelled_cons, rest_eq]
        simp only [List.append_assoc]
      · rw [span_eq, List.append_assoc, ← Location.advance_append, ← Location.advance_append]

theorem tokensFrom_spelled (h : Lexed tokens) (here : Location) :
    tokensFrom here (spelled tokens) = placed here tokens := by
  induction tokens generalizing here with
  | nil => simp [spelled, placed, tokensFrom]
  | cons t rest ih =>
    obtain ⟨hne, first, lexed⟩ := h
    rw [spelled_cons, placed, tokensFrom_append here hne first, ih lexed, String.ofList_toList]

/-- The same tokens, where some identifiers have another name. None of them may follow a token that
would take letters of it. -/
inductive Respelled (name : List Char) : Bool → List Token → List Token → Prop
  | nil {parted} : Respelled name parted [] []
  | keep {parted t t' rest rest'} : t'.kind = t.kind → t'.text = t.text →
      Respelled name t.kind.parts rest rest' → Respelled name parted (t :: rest) (t' :: rest')
  | swap {t t' rest rest'} : t.kind = .identifier → t'.kind = .identifier → t'.text.toList = name →
      Respelled name true rest rest' → Respelled name true (t :: rest) (t' :: rest')

def ClosesAlike (q : Char) (a b : List Char) : Prop :=
  (lengthToQuote q a = none ↔ lengthToQuote q b = none) ∧
    (lengthToQuote q ('\\' :: a) = none ↔ lengthToQuote q ('\\' :: b) = none)

theorem lengthToQuote_cons_eq_none_iff {q c : Char} {rest : List Char} (hc : c ≠ '\\') :
    lengthToQuote q (c :: rest) = none ↔
      c ≠ q ∧ (c = '\n' ∨ c = '\r' ∨ lengthToQuote q rest = none) := by
  have unfolded : lengthToQuote q (c :: rest) =
      if c = q then some 1 else if c = '\\' ∨ c = '\n' ∨ c = '\r' then none
      else (lengthToQuote q rest).map (· + 1) := by
    rw [lengthToQuote]
    intro d rest' he
    cases he
    exact fun _ => hc rfl
  rw [unfolded]
  by_cases hq : c = q
  · simp [hq]
  · by_cases hn : c = '\n' ∨ c = '\r'
    · simp [hq, hn, ← or_assoc]
    · simp [hq, hc, not_or.mp hn]

theorem lengthToQuote_hidden_eq_none_iff {q c : Char} {rest : List Char} :
    lengthToQuote q ('\\' :: c :: rest) = none ↔ c = '\n' ∨ lengthToQuote q rest = none := by
  rw [lengthToQuote]
  by_cases hc : c = '\n' <;> simp [hc]

/-- Letters in a quoted text do not matter to where it ends, nor does the first of them if it is
hidden by a backslash. -/
theorem lengthToQuote_name {q : Char} (hq : continuesIdentifier q = false) {name : List Char}
    (continues : ∀ c ∈ name, continuesIdentifier c = true) (a : List Char) :
    lengthToQuote q (name ++ a) = none ↔ lengthToQuote q a = none := by
  induction name with
  | nil => exact Iff.rfl
  | cons c name ih =>
    have hc := continues c List.mem_cons_self
    have ne : ∀ d, continuesIdentifier d = false → c ≠ d := by
      rintro d hd rfl
      rw [hc] at hd
      cases hd
    rw [List.cons_append, lengthToQuote_cons_eq_none_iff (ne _ (by decide)),
      ih fun d hd => continues d (List.mem_cons_of_mem c hd)]
    simp [ne q hq, ne '\n' (by decide), ne '\r' (by decide)]

namespace ClosesAlike

variable {q : Char} {a b : List Char}

theorem cons (h : ClosesAlike q a b) (c : Char) : ClosesAlike q (c :: a) (c :: b) := by
  constructor
  · by_cases hc : c = '\\'
    · rw [hc]
      exact h.2
    · rw [lengthToQuote_cons_eq_none_iff hc, lengthToQuote_cons_eq_none_iff hc, h.1]
  · rw [lengthToQuote_hidden_eq_none_iff, lengthToQuote_hidden_eq_none_iff, h.1]

theorem append (h : ClosesAlike q a b) (l : List Char) : ClosesAlike q (l ++ a) (l ++ b) := by
  induction l with
  | nil => exact h
  | cons c l ih => exact ih.cons c

theorem names (h : ClosesAlike q a b) (hq : continuesIdentifier q = false) {n m : List Char}
    (hn : IsName n) (hm : IsName m) : ClosesAlike q (n ++ a) (m ++ b) := by
  have hidden : ∀ {name : List Char} (a), IsName name →
      (lengthToQuote q ('\\' :: (name ++ a)) = none ↔ lengthToQuote q a = none) := by
    intro name a word
    obtain ⟨c, rest, rfl, starts, continues⟩ := word.exists_cons
    rw [List.cons_append, lengthToQuote_hidden_eq_none_iff, lengthToQuote_name hq continues]
    exact or_iff_right (not_separator_of_starts starts).1
  constructor
  · rw [lengthToQuote_name hq hn.continues, lengthToQuote_name hq hm.continues, h.1]
  · rw [hidden a hn, hidden b hm, h.1]

end ClosesAlike

variable {name : List Char} {parted : Bool}

theorem Respelled.closesAlike (h : Respelled name parted tokens tokens') (lexed : Lexed tokens)
    (word : IsName name) {q : Char} (hq : continuesIdentifier q = false) :
    ClosesAlike q (spelled tokens) (spelled tokens') := by
  induction h with
  | nil => exact ⟨Iff.rfl, Iff.rfl⟩
  | keep _ text_eq _ ih =>
    rw [spelled_cons, spelled_cons, text_eq]
    exact (ih lexed.2.2).append _
  | swap kind _ text' _ ih =>
    obtain ⟨hne, first, lexed⟩ := lexed
    rw [kind] at first
    rw [spelled_cons, spelled_cons, text']
    exact (ih lexed).names hq ((firstToken_identifier_iff hne).mp first).1 word

theorem takeWhile_append_of_stops {p : Char → Bool} {a after : List Char}
    (all : ∀ c ∈ a, p c = true) (stops : Stops p after) : (a ++ after).takeWhile p = a := by
  rw [List.takeWhile_append_of_pos all]
  cases after with
  | nil => simp
  | cons c rest => simp [stops c rfl]

theorem empty_prefix_of_stops {name a b : List Char} (continues : ∀ c ∈ name, continuesIdentifier c = true)
    (stops : Stops continuesIdentifier b) (same : b.head? = some ']' → a.head? = some ']')
    (h : ['e', 'm', 'p', 't', 'y', ']'].isPrefixOf (name ++ b) = true) :
    ['e', 'm', 'p', 't', 'y', ']'].isPrefixOf (name ++ a) = true := by
  obtain ⟨z, hz⟩ := List.isPrefixOf_iff_prefix.mp h
  have taken : (name ++ b).takeWhile continuesIdentifier = name := takeWhile_append_of_stops continues stops
  rw [← hz] at taken
  have name_eq : name = ['e', 'm', 'p', 't', 'y'] := by
    rw [← taken]
    rfl
  subst name_eq
  have b_eq : ']' :: z = b := by simpa using hz
  have first := same (by rw [← b_eq]; rfl)
  cases a with
  | nil => cases first
  | cons c a =>
    cases first
    rfl

theorem Respelled.resembles (h : Respelled name parted tokens tokens') (lexed : Lexed tokens)
    (word : IsName name) : Resembles parted (spelled tokens) (spelled tokens') := by
  have plain : ∀ q ∈ ['\'', '"'], continuesIdentifier q = false :=
    List.forall_mem_cons.mpr ⟨rfl, List.forall_mem_singleton.mpr rfl⟩
  have quote := fun q hq => (h.closesAlike (q := q) lexed word (plain q hq)).1
  induction h with
  | nil => exact ⟨Or.inl rfl, quote, fun _ => id⟩
  | @keep parted t t' rest rest' _ text_eq respelled ih =>
    obtain ⟨hne, first, lexed⟩ := lexed
    have after := ih lexed fun q hq => (respelled.closesAlike lexed word (plain q hq)).1
    obtain ⟨c, l, hl⟩ := List.exists_cons_of_ne_nil hne
    refine ⟨Or.inl ?_, quote, fun _ empty => ?_⟩
    · rw [spelled_cons, spelled_cons, text_eq, hl]
      rfl
    · rw [spelled_cons, text_eq] at empty
      rw [spelled_cons]
      have starts : startsIdentifier c = true := by
        rw [hl] at empty
        simp only [List.cons_append, List.isPrefixOf, Bool.and_eq_true, beq_iff_eq] at empty
        rw [← empty.1]
        decide
      rw [hl] at first
      have kind := kind_eq_of_starts starts first
      rw [kind, ← hl] at first
      rw [kind] at after
      obtain ⟨old, stops⟩ := (firstToken_identifier_iff hne).mp first
      refine empty_prefix_of_stops old.continues (after.stops (fun _ c d hc hd => ?_) stops)
        (after.head_iff (by decide)).mpr empty
      rw [continuesIdentifier_of_starts hc, continuesIdentifier_of_starts hd]
  | @swap t t' rest rest' kind _ text' _ _ =>
    obtain ⟨hne, first, lexed⟩ := lexed
    rw [kind] at first
    have old := ((firstToken_identifier_iff hne).mp first).1
    obtain ⟨c, l, hc, starts, -⟩ := old.exists_cons
    obtain ⟨d, k, hd, starts', -⟩ := word.exists_cons
    refine ⟨Or.inr ⟨rfl, c, d, ?_, ?_, starts, starts'⟩, quote, fun free => by cases free⟩
    · rw [spelled_cons, hc]
      rfl
    · rw [spelled_cons, text', hd]
      rfl

/-- Tokens under another spelling are read as such from the text that they make up. -/
theorem Respelled.lexed (h : Respelled name parted tokens tokens') (lexed : Lexed tokens)
    (word : IsName name) : Lexed tokens' := by
  induction h with
  | nil => trivial
  | keep kind_eq text_eq respelled ih =>
    obtain ⟨hne, first, lexed⟩ := lexed
    refine ⟨by rwa [text_eq], ?_, ih lexed⟩
    rw [text_eq, kind_eq]
    exact firstToken_resembles hne (respelled.resembles lexed word) first
  | swap kind kind' text' respelled ih =>
    obtain ⟨hne, first, lexed⟩ := lexed
    rw [kind] at first
    have stops := ((firstToken_identifier_iff hne).mp first).2
    refine ⟨by rw [text']; exact word.ne_nil, ?_, ih lexed⟩
    rw [text', kind', firstToken_identifier_iff word.ne_nil]
    refine ⟨word, (respelled.resembles lexed word).stops (fun _ c d hc hd => ?_) stops⟩
    rw [continuesIdentifier_of_starts hc, continuesIdentifier_of_starts hd]

end GrammarWorkspace.Grammar
