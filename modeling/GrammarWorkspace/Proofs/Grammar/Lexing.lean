import GrammarWorkspace.Grammar.Token

/-!
# What a token depends on

A token is settled by its own characters and by a little of what comes after it: that its run of
characters ends there, that a quote is not closed later on. As long as these stay the same, the text
after a token may change and the token does not.
-/
namespace GrammarWorkspace.Grammar

def Kind.before (kind : Kind) : List Kind := Kind.inOrder.takeWhile (· ≠ kind)

theorem Kind.mem_inOrder (kind : Kind) : kind ∈ Kind.inOrder := by
  cases kind <;> decide

theorem findSome?_pair_iff {β : Type} (f : Kind → Option β) (kinds : List Kind) {kind : Kind} {b : β} :
    kinds.findSome? (fun k => (f k).map (k, ·)) = some (kind, b) ↔
      kind ∈ kinds ∧ f kind = some b ∧ ∀ k ∈ kinds.takeWhile (· ≠ kind), f k = none := by
  induction kinds with
  | nil => simp
  | cons k rest ih =>
    cases hf : f k with
    | some b' =>
      by_cases hk : k = kind
      · subst hk
        simp [hf]
      · simp [hf, hk]
    | none =>
      by_cases hk : k = kind
      · subst hk
        simp only [List.findSome?_cons, hf, Option.map_none, ih]
        simp
      · simp [hf, hk, ih, Ne.symm hk]

theorem exists_length?_of_ne_nil {text : List Char} (h : text ≠ []) :
    ∃ kind n, Kind.length? text kind = some n := by
  cases text with
  | nil => exact absurd rfl h
  | cons c rest =>
    by_cases hc : c = '\n'
    · subst hc
      exact ⟨.newline, 1, rfl⟩
    · exact ⟨.invalid, _, by simp [Kind.length?, runLength?, hc]; rfl⟩

theorem firstToken_eq_iff {text : List Char} (h : text ≠ []) {kind : Kind} {n : Nat} :
    firstToken text = (kind, n) ↔
      kind.length? text = some n ∧ ∀ k ∈ kind.before, k.length? text = none := by
  have found : ∀ p, Kind.inOrder.findSome? (fun k => (k.length? text).map (k, ·)) = some p ↔
      p.1.length? text = some p.2 ∧ ∀ k ∈ p.1.before, k.length? text = none := by
    rintro ⟨k, m⟩
    rw [findSome?_pair_iff]
    simp only [Kind.mem_inOrder, true_and, Kind.before]
  rw [firstToken]
  cases hf : Kind.inOrder.findSome? (fun k => (k.length? text).map (k, ·)) with
  | some p =>
    rw [Option.getD_some, ← found (kind, n), hf, Option.some.injEq]
  | none =>
    exfalso
    obtain ⟨k, m, hk⟩ := exists_length?_of_ne_nil h
    have none := List.findSome?_eq_none_iff.mp hf k k.mem_inOrder
    rw [hk] at none
    cases none

def Stops (p : Char → Bool) (after : List Char) : Prop := ∀ c, after.head? = some c → p c = false

theorem length_takeWhile_append_iff {p : Char → Bool} {a after : List Char} :
    ((a ++ after).takeWhile p).length = a.length ↔ (∀ c ∈ a, p c = true) ∧ Stops p after := by
  induction a with
  | nil =>
    cases after with
    | nil => simp [Stops]
    | cons c rest => cases hc : p c <;> simp [Stops, hc]
  | cons c a ih =>
    cases hc : p c with
    | true => simp [hc, ih]
    | false => simp [hc]

/-- Whether the text after a token of this kind may begin with another name than it does. A directive
might take letters of it, and a single character might be made a longer token. -/
def Kind.parts : Kind → Bool
  | .directive | .unknown => false
  | _ => true

structure Resembles (parted : Bool) (a b : List Char) : Prop where
  head : a.head? = b.head? ∨ parted = true ∧ ∃ c d, a.head? = some c ∧ b.head? = some d ∧
    startsIdentifier c = true ∧ startsIdentifier d = true
  quote : ∀ q ∈ ['\'', '"'], (lengthToQuote q a = none ↔ lengthToQuote q b = none)
  empty : parted = false → ['e', 'm', 'p', 't', 'y', ']'].isPrefixOf b = true →
    ['e', 'm', 'p', 't', 'y', ']'].isPrefixOf a = true

theorem continuesIdentifier_of_starts {c : Char} (h : startsIdentifier c = true) :
    continuesIdentifier c = true := by
  simp only [startsIdentifier, continuesIdentifier, Char.isAlphanum, Bool.or_eq_true] at h ⊢
  exact h.imp_left Or.inl

theorem ne_of_starts {c d : Char} (hc : startsIdentifier c = true) (hd : startsIdentifier d = false) :
    c ≠ d := by
  rintro rfl
  rw [hc] at hd
  cases hd

theorem not_separator_of_starts {c : Char} (hc : startsIdentifier c = true) :
    c ≠ '\n' ∧ c ≠ '\r' ∧ c ≠ ' ' ∧ c ≠ '\t' :=
  ⟨ne_of_starts hc (by decide), ne_of_starts hc (by decide), ne_of_starts hc (by decide),
    ne_of_starts hc (by decide)⟩

namespace Resembles

variable {parted : Bool} {a b l : List Char} {p : Char → Bool}

theorem stops (h : Resembles parted a b)
    (uniform : parted = true → ∀ c d, startsIdentifier c = true → startsIdentifier d = true → p c = p d)
    (stops : Stops p a) : Stops p b := by
  intro d hd
  rcases h.head with same | ⟨free, c, d', hc, hd', sc, sd⟩
  · exact stops d (same.trans hd)
  · rw [hd] at hd'
    cases hd'
    rw [← uniform free c d sc sd]
    exact stops c hc

theorem head_iff (h : Resembles parted a b) {c : Char} (hc : startsIdentifier c = false) :
    a.head? = some c ↔ b.head? = some c := by
  rcases h.head with same | ⟨-, d, e, hd, he, sd, se⟩
  · rw [same]
  · rw [hd, he]
    constructor
    · intro eq
      cases eq
      rw [hc] at sd
      cases sd
    · intro eq
      cases eq
      rw [hc] at se
      cases se

end Resembles

theorem runLength?_resembles {first next : Char → Bool} {l a b : List Char} (hl : l ≠ [])
    (same : Stops next a → Stops next b) (h : runLength? first next (l ++ a) = some l.length) :
    runLength? first next (l ++ b) = some l.length := by
  cases l with
  | nil => exact absurd rfl hl
  | cons c l =>
    rw [List.cons_append, runLength?] at h ⊢
    split at h
    · have run : ((l ++ a).takeWhile next).length = l.length := by
        simp only [Option.some.injEq, List.length_cons] at h
        omega
      rw [length_takeWhile_append_iff] at run
      have run' : ((l ++ b).takeWhile next).length = l.length :=
        length_takeWhile_append_iff.mpr ⟨run.1, same run.2⟩
      rw [if_pos ‹_›, run', List.length_cons, Nat.add_comm]
    · cases h

theorem eq_of_wordLength? {word l a : List Char} (h : wordLength? word (l ++ a) = some l.length) : l = word := by
  unfold wordLength? at h
  split at h
  · rename_i prefixed
    have len : word.length = l.length := Option.some.inj h
    have taken := List.prefix_iff_eq_take.mp (List.isPrefixOf_iff_prefix.mp prefixed)
    rw [taken, len, List.take_left']
    rfl
  · cases h

theorem wordLength?_resembles {word l a : List Char} (b : List Char)
    (h : wordLength? word (l ++ a) = some l.length) : wordLength? word (l ++ b) = some l.length := by
  obtain rfl := eq_of_wordLength? h
  simp [wordLength?]

theorem lengthToQuote_take {q : Char} (hq : q ≠ '\\') {text : List Char} {n : Nat}
    (h : lengthToQuote q text = some n) (b : List Char) :
    lengthToQuote q (text.take n ++ b) = some n := by
  fun_induction lengthToQuote q text generalizing n with
  | case1 => cases h
  | case2 rest => cases h
  | case3 c rest hc ih =>
    obtain ⟨k, hk, rfl⟩ := Option.map_eq_some_iff.mp h
    simp [lengthToQuote, hc, ih hk]
  | case4 rest other =>
    cases h
    simp [lengthToQuote, hq]
  | case5 => cases h
  | case6 c rest other hc plain ih =>
    obtain ⟨k, hk, rfl⟩ := Option.map_eq_some_iff.mp h
    simp only [not_or] at plain
    simp [lengthToQuote, hc, plain, ih hk]

theorem length?_string_resembles {q : Char} (hq : q ≠ '\\') {l a : List Char} (b : List Char)
    (h : (lengthToQuote q (l ++ a)).map (1 + ·) = some (l.length + 1)) :
    (lengthToQuote q (l ++ b)).map (1 + ·) = some (l.length + 1) := by
  obtain ⟨n, hn, len⟩ := Option.map_eq_some_iff.mp h
  have len : n = l.length := by omega
  subst len
  have := lengthToQuote_take hq hn b
  rw [List.take_left'] at this
  · rw [this, Option.map_some, Nat.add_comm]
  · rfl

theorem Kind.length?_string_append {l a : List Char} (hl : l ≠ []) (h : Kind.string.length? (l ++ a) = some l.length)
    (b : List Char) : Kind.string.length? (l ++ b) = some l.length := by
  obtain ⟨c, l, rfl⟩ := List.exists_cons_of_ne_nil hl
  simp only [Kind.length?, List.cons_append] at h ⊢
  split at h
  · rename_i rest he
    cases he
    exact length?_string_resembles (by decide) b h
  · rename_i rest he
    cases he
    exact length?_string_resembles (by decide) b h
  · cases h

theorem Kind.length?_comment (rest : List Char) : Kind.comment.length? ('/' :: '/' :: rest) =
    some (2 + (rest.takeWhile fun c => c ≠ '\n' ∧ c ≠ '\r').length) := rfl

theorem Kind.length?_directive (rest : List Char) : Kind.directive.length? ('@' :: rest) =
    (runLength? isLetter isLetter rest).map (1 + ·) := rfl

theorem Kind.length?_resembles {kind : Kind} {l a b : List Char} (hl : l ≠ [])
    (same : Resembles kind.parts a b) (h : kind.length? (l ++ a) = some l.length) :
    kind.length? (l ++ b) = some l.length := by
  cases kind with
  | comment =>
    rcases l with _ | ⟨c, _ | ⟨d, l⟩⟩
    · exact absurd rfl hl
    · simp only [Kind.length?, List.cons_append, List.nil_append] at h
      split at h
      · simp only [Option.some.injEq, List.length_singleton] at h
        omega
      · cases h
    · simp only [Kind.length?, List.cons_append] at h
      split at h
      · rename_i rest he
        cases he
        have run : ((l ++ a).takeWhile fun c => c ≠ '\n' ∧ c ≠ '\r').length = l.length := by
          simp only [Option.some.injEq, List.length_cons] at h
          omega
        rw [length_takeWhile_append_iff] at run
        have run' : ((l ++ b).takeWhile fun c => c ≠ '\n' ∧ c ≠ '\r').length = l.length := by
          refine length_takeWhile_append_iff.mpr ⟨run.1, same.stops (fun _ c d hc hd => ?_) run.2⟩
          simp [not_separator_of_starts hc, not_separator_of_starts hd]
        rw [List.cons_append, List.cons_append, Kind.length?_comment, run', List.length_cons, List.length_cons, Nat.add_comm]
      · cases h
  | directive =>
    rcases l with _ | ⟨c, l⟩
    · exact absurd rfl hl
    · simp only [Kind.length?, List.cons_append] at h
      split at h
      · rename_i rest he
        cases he
        obtain ⟨n, hn, len⟩ := Option.map_eq_some_iff.mp h
        have len : n = l.length := by
          rw [List.length_cons] at len
          omega
        subst len
        have inside : l ≠ [] := by
          rintro rfl
          exact Nat.lt_irrefl 0 (runLength?_pos hn)
        rw [List.cons_append, Kind.length?_directive, runLength?_resembles inside (same.stops fun free => by cases free) hn, Option.map_some,
          List.length_cons, Nat.add_comm]
      · cases h
  | string => exact Kind.length?_string_append hl h b
  | newline =>
    rcases l with _ | ⟨c, _ | ⟨d, l⟩⟩
    · exact absurd rfl hl
    · simp only [Kind.length?, List.cons_append, List.nil_append] at h ⊢
      split at h
      · cases h
      · rename_i he
        cases he
        rfl
      · cases h
    · simp only [Kind.length?, List.cons_append] at h ⊢
      split at h
      · rename_i he
        cases he
        exact h
      · rename_i he
        cases he
        exact h
      · cases h
  | define | empty | bar | semicolon => exact wordLength?_resembles b h
  | identifier =>
    refine runLength?_resembles hl (same.stops fun _ c d hc hd => ?_) h
    rw [continuesIdentifier_of_starts hc, continuesIdentifier_of_starts hd]
  | unknown => exact runLength?_resembles hl (fun _ _ _ => rfl) h
  | blanks =>
    refine runLength?_resembles hl (same.stops fun _ c d hc hd => ?_) h
    obtain ⟨-, -, c_blank, c_tab⟩ := not_separator_of_starts hc
    obtain ⟨-, -, d_blank, d_tab⟩ := not_separator_of_starts hd
    simp only [beq_false_of_ne c_blank, beq_false_of_ne c_tab, beq_false_of_ne d_blank,
      beq_false_of_ne d_tab]
  | invalid =>
    refine runLength?_resembles hl (same.stops fun _ c d hc hd => ?_) h
    simp [not_separator_of_starts hc, not_separator_of_starts hd]

theorem Kind.length?_unknown {c : Char} (hc : Text.isBlank c = false) (rest : List Char) :
    Kind.unknown.length? (c :: rest) = some 1 := by
  have none : rest.takeWhile (fun _ => false) = [] := by
    cases rest <;> rfl
  simp [Kind.length?, runLength?, hc, none]

/-- A character with which a longer token might begin stands alone if that token does not fit. -/
theorem unknown_of_mark {kind k : Kind} {c : Char} {text : List Char} {n : Nat}
    (mark : (k, c) ∈ [(Kind.directive, '@'), (.empty, '['), (.string, '\''), (.string, '"')])
    (h : kind.length? (c :: text) = some n) (hk : k ∈ kind.before)
    (earlier : ∀ k ∈ kind.before, k.length? (c :: text) = none) : kind = .unknown ∧ n = 1 := by
  have single : Kind.unknown.length? (c :: text) = some 1 := by
    apply Kind.length?_unknown
    simp only [List.mem_cons, Prod.mk.injEq, List.not_mem_nil, or_false] at mark
    rcases mark with ⟨-, rfl⟩ | ⟨-, rfl⟩ | ⟨-, rfl⟩ | ⟨-, rfl⟩ <;> decide
  cases kind with
  | unknown =>
    rw [single] at h
    exact ⟨rfl, (Option.some.inj h).symm⟩
  | newline | blanks | invalid =>
    rw [earlier .unknown (by decide)] at single
    cases single
  | _ =>
    simp only [List.mem_cons, Prod.mk.injEq, List.not_mem_nil, or_false] at mark
    rcases mark with ⟨rfl, rfl⟩ | ⟨rfl, rfl⟩ | ⟨rfl, rfl⟩ | ⟨rfl, rfl⟩ <;>
      first
      | exact absurd hk (by decide)
      | simp [Kind.length?, wordLength?, runLength?, startsIdentifier] at h

theorem Kind.length?_comment_eq_none_iff {c : Char} {text : List Char} :
    Kind.comment.length? (c :: text) = none ↔ ¬ (c = '/' ∧ text.head? = some '/') := by
  cases text with
  | nil => simp [Kind.length?]
  | cons d rest =>
    by_cases hc : c = '/' <;> by_cases hd : d = '/' <;> simp [Kind.length?, hc, hd]

theorem Kind.length?_define_eq_none_iff {c : Char} {text : List Char} :
    Kind.define.length? (c :: text) = none ↔ ¬ (c = ':' ∧ text.head? = some '=') := by
  cases text with
  | nil => simp [Kind.length?, wordLength?]
  | cons d rest =>
    by_cases hc : c = ':'
    · subst hc
      by_cases hd : d = '='
      · simp [Kind.length?, wordLength?, hd]
      · simp [Kind.length?, wordLength?, hd, Ne.symm hd]
    · simp [Kind.length?, wordLength?, hc, Ne.symm hc]

theorem Kind.length?_newline_eq_none_iff {c : Char} {text : List Char} :
    Kind.newline.length? (c :: text) = none ↔
      c ≠ '\n' ∧ ¬ (c = '\r' ∧ text.head? = some '\n') := by
  cases text with
  | nil => by_cases hc : c = '\n' <;> simp [Kind.length?, hc]
  | cons d rest =>
    by_cases hc : c = '\n' <;> by_cases hr : c = '\r' <;> by_cases hd : d = '\n' <;>
      simp_all [Kind.length?]

theorem Kind.length?_empty_eq_none_iff {text : List Char} :
    Kind.empty.length? ('[' :: text) = none ↔
      ¬ ['e', 'm', 'p', 't', 'y', ']'].isPrefixOf text = true := by
  simp [Kind.length?, wordLength?]

theorem runLength?_eq_none_iff {first next : Char → Bool} {text : List Char} :
    runLength? first next text = none ↔ Stops first text := by
  cases text with
  | nil => simp [runLength?, Stops]
  | cons c rest => cases hc : first c <;> simp [runLength?, Stops, hc]

/-- A kind that did not fit does not fit in front of a text that is the same to the token. -/
theorem Kind.length?_eq_none_resembles {kind k : Kind} {l a b : List Char} (hl : l ≠ [])
    (same : Resembles kind.parts a b) (h : kind.length? (l ++ a) = some l.length)
    (earlier : ∀ k ∈ kind.before, k.length? (l ++ a) = none) (hk : k ∈ kind.before) :
    k.length? (l ++ b) = none := by
  have none := earlier k hk
  obtain ⟨c, l, rfl⟩ := List.exists_cons_of_ne_nil hl
  rw [List.cons_append] at none h ⊢
  have second : ∀ d, startsIdentifier d = false → ((l ++ a).head? = some d ↔ (l ++ b).head? = some d) := by
    intro d hd
    cases l with
    | nil => exact same.head_iff hd
    | cons e l => exact Iff.rfl
  -- where a longer token might begin, this one is a single character, and nothing is free after it
  have alone : (k, c) ∈ [(Kind.directive, '@'), (.empty, '['), (.string, '\''), (.string, '"')] →
      l = [] ∧ Resembles false a b := by
    intro mark
    obtain ⟨rfl, hn⟩ := unknown_of_mark mark h hk earlier
    exact ⟨List.eq_nil_of_length_eq_zero (by simpa using hn), same⟩
  cases k with
  | comment =>
    rw [Kind.length?_comment_eq_none_iff] at none ⊢
    rwa [← second '/' (by decide)]
  | define =>
    rw [Kind.length?_define_eq_none_iff] at none ⊢
    rwa [← second '=' (by decide)]
  | newline =>
    rw [Kind.length?_newline_eq_none_iff] at none ⊢
    rwa [← second '\n' (by decide)]
  | directive =>
    by_cases hc : c = '@'
    · subst hc
      obtain ⟨rfl, same⟩ := alone (by decide)
      rw [Kind.length?_directive, Option.map_eq_none_iff, runLength?_eq_none_iff] at none ⊢
      exact same.stops (fun free => by cases free) none
    · simp [Kind.length?, hc]
  | empty =>
    by_cases hc : c = '['
    · subst hc
      obtain ⟨rfl, same⟩ := alone (by decide)
      rw [Kind.length?_empty_eq_none_iff] at none ⊢
      exact fun prefixed => none (same.empty rfl prefixed)
    · simp [Kind.length?, wordLength?, Ne.symm hc]
  | string =>
    by_cases hs : c = '\''
    · subst hs
      obtain ⟨rfl, same⟩ := alone (by decide)
      simp only [Kind.length?, Option.map_eq_none_iff] at none ⊢
      exact (same.quote _ (by decide)).mp none
    · by_cases hd : c = '"'
      · subst hd
        obtain ⟨rfl, same⟩ := alone (by decide)
        simp only [Kind.length?, Option.map_eq_none_iff] at none ⊢
        exact (same.quote _ (by decide)).mp none
      · simp [Kind.length?, hs, hd]
  | identifier | unknown | blanks =>
    simp only [Kind.length?, runLength?_eq_none_iff, Stops, List.head?_cons] at none ⊢
    exact none
  | bar | semicolon =>
    simp only [Kind.length?, wordLength?, List.isPrefixOf] at none ⊢
    exact none
  | invalid => cases kind <;> exact absurd hk (by decide)

theorem firstToken_resembles {kind : Kind} {l a b : List Char} (hl : l ≠ [])
    (same : Resembles kind.parts a b) (h : firstToken (l ++ a) = (kind, l.length)) :
    firstToken (l ++ b) = (kind, l.length) := by
  have full : ∀ text, l ++ text ≠ [] := fun _ => List.append_ne_nil_of_left_ne_nil hl _
  rw [firstToken_eq_iff (full _)] at h ⊢
  constructor
  · exact Kind.length?_resembles hl same h.1
  · intro k hk
    exact Kind.length?_eq_none_resembles hl same h.1 h.2 hk

def IsName (name : List Char) : Prop := Kind.identifier.length? name = some name.length

instance (name : List Char) : Decidable (IsName name) := inferInstanceAs (Decidable (_ = _))

theorem IsName.exists_cons {name : List Char} (h : IsName name) : ∃ c rest, name = c :: rest ∧
    startsIdentifier c = true ∧ ∀ d ∈ rest, continuesIdentifier d = true := by
  cases name with
  | nil => cases h
  | cons c rest =>
    simp only [IsName, Kind.length?, runLength?] at h
    split at h
    · refine ⟨c, rest, rfl, ‹_›, ?_⟩
      have run : (rest.takeWhile continuesIdentifier).length = rest.length := by
        simp only [Option.some.injEq, List.length_cons] at h
        omega
      have whole : (rest ++ []).takeWhile continuesIdentifier = rest.takeWhile continuesIdentifier := by
        rw [List.append_nil]
      rw [← whole, length_takeWhile_append_iff] at run
      exact run.1
    · cases h

theorem IsName.ne_nil {name : List Char} (h : IsName name) : name ≠ [] := by
  rintro rfl
  cases h

theorem IsName.continues {name : List Char} (h : IsName name) :
    ∀ c ∈ name, continuesIdentifier c = true := by
  obtain ⟨c, rest, rfl, starts, continues⟩ := h.exists_cons
  intro d hd
  rcases List.mem_cons.mp hd with rfl | hd
  · exact continuesIdentifier_of_starts starts
  · exact continues d hd

theorem IsName.no_newline {name : List Char} (h : IsName name) : ∀ c ∈ name, c ≠ '\n' := by
  rintro c hc rfl
  cases h.continues _ hc

theorem Kind.length?_eq_none_of_starts {k : Kind} {c : Char} (starts : startsIdentifier c = true)
    (hk : k ∈ Kind.identifier.before) (rest : List Char) : k.length? (c :: rest) = none := by
  have ne : ∀ d, startsIdentifier d = false → c ≠ d := fun d => ne_of_starts starts
  have slash := ne '/' (by decide)
  have at_sign := ne '@' (by decide)
  have colon := ne ':' (by decide)
  have bracket := ne '[' (by decide)
  cases k with
  | comment => simp [Kind.length?, slash]
  | directive => simp [Kind.length?, at_sign]
  | define => simp [Kind.length?, wordLength?, colon.symm]
  | empty => simp [Kind.length?, wordLength?, bracket.symm]
  | _ => exact absurd hk (by decide)

theorem kind_eq_of_starts {c : Char} {rest : List Char} {kind : Kind} {n : Nat}
    (starts : startsIdentifier c = true) (h : firstToken (c :: rest) = (kind, n)) :
    kind = .identifier := by
  have found : firstToken (c :: rest) = (.identifier, 1 + (rest.takeWhile continuesIdentifier).length) := by
    rw [firstToken_eq_iff (List.cons_ne_nil c rest)]
    constructor
    · rw [Kind.length?, runLength?, if_pos starts]
    · exact fun k hk => Kind.length?_eq_none_of_starts starts hk rest
  rw [h] at found
  exact (Prod.mk.inj found).1

theorem firstToken_identifier_iff {name after : List Char} (hn : name ≠ []) :
    firstToken (name ++ after) = (.identifier, name.length) ↔
      IsName name ∧ Stops continuesIdentifier after := by
  obtain ⟨c, rest, rfl⟩ := List.exists_cons_of_ne_nil hn
  rw [firstToken_eq_iff (by simp)]
  have length_iff : ∀ after, Kind.identifier.length? ((c :: rest) ++ after) = some (c :: rest).length ↔
      startsIdentifier c = true ∧ (∀ d ∈ rest, continuesIdentifier d = true) ∧
        Stops continuesIdentifier after := by
    intro after
    rw [List.cons_append, Kind.length?, runLength?, ← length_takeWhile_append_iff]
    cases hc : startsIdentifier c with
    | false => simp
    | true =>
      simp only [if_true, Option.some.injEq, List.length_cons, true_and]
      omega
  have name_iff : IsName (c :: rest) ↔ startsIdentifier c = true ∧ ∀ d ∈ rest, continuesIdentifier d = true := by
    have := length_iff []
    rw [List.append_nil] at this
    rw [IsName, this]
    simp [Stops]
  rw [length_iff, name_iff]
  constructor
  · rintro ⟨⟨starts, continues, stops⟩, -⟩
    exact ⟨⟨starts, continues⟩, stops⟩
  · rintro ⟨⟨starts, continues⟩, stops⟩
    refine ⟨⟨starts, continues, stops⟩, fun k hk => ?_⟩
    rw [List.cons_append]
    exact Kind.length?_eq_none_of_starts starts hk _

end GrammarWorkspace.Grammar
