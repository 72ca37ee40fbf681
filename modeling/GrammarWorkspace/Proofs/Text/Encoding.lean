import GrammarWorkspace.Text.Percent
import GrammarWorkspace.Text.Split
import Mathlib.Tactic.IntervalCases

/-!
# What is encoded is decoded

The bytes of a text give the text again, and so do the escapes of its bytes, also where slashes stand
between escaped segments.
-/
namespace GrammarWorkspace.Text

namespace Utf8

theorem toNat_ofNat_of_lt {n : Nat} (h : n < 256) : (UInt8.ofNat n).toNat = n := by
  rw [UInt8.toNat_ofNat', Nat.mod_eq_of_lt h]

theorem lead_of_ascii {n : Nat} (h : n < 0x80) : lead (UInt8.ofNat n) = .single (Char.ofNat n) := by
  have value : (UInt8.ofNat n).toNat = n := toNat_ofNat_of_lt (by omega)
  have below : UInt8.ofNat n < 0x80 := UInt8.lt_iff_toNat_lt.mpr (value.symm ▸ h)
  rw [lead, if_pos below, value]

theorem lead_of_two {k : Nat} (low : 2 ≤ k) (high : k < 32) :
    lead (UInt8.ofNat (k + 192)) = .opening ⟨k, 1, 0x80, 0xBF⟩ := by
  interval_cases k <;> rfl

theorem lead_of_three {k : Nat} (high : k < 16) : lead (UInt8.ofNat (k + 224)) =
    .opening ⟨k, 2, if k = 0 then 0xA0 else 0x80, if k = 13 then 0x9F else 0xBF⟩ := by
  interval_cases k <;> rfl

theorem lead_of_four {k : Nat} (high : k < 5) : lead (UInt8.ofNat (k + 240)) =
    .opening ⟨k, 3, if k = 0 then 0x90 else 0x80, if k = 4 then 0x8F else 0xBF⟩ := by
  interval_cases k <;> rfl

theorem piecesFrom_single {b : UInt8} {c : Char} (h : lead b = .single c) (rest : List UInt8) :
    piecesFrom none (b :: rest) = some c :: piecesFrom none rest := by
  rw [piecesFrom, h]

theorem piecesFrom_opening {b : UInt8} {p : Partial} (h : lead b = .opening p) (rest : List UInt8) :
    piecesFrom none (b :: rest) = piecesFrom (some p) rest := by
  rw [piecesFrom, h]

section

variable {bits k : Nat} {low high : UInt8} (inside : k < 64)

include inside

theorem join_ofNat (p : Partial) : p.join (UInt8.ofNat (k + 128)) = p.bits * 64 + k := by
  have value : (UInt8.ofNat (k + 128)).toNat = k + 128 := toNat_ofNat_of_lt (by omega)
  have rest : k + 128 - 0x80 = k := by omega
  unfold Partial.join
  rw [value, rest]

variable (above : low.toNat ≤ k + 128) (below : k + 128 ≤ high.toNat)

include above below

theorem follows_of_le : low ≤ UInt8.ofNat (k + 128) ∧ UInt8.ofNat (k + 128) ≤ high := by
  have value : (UInt8.ofNat (k + 128)).toNat = k + 128 := toNat_ofNat_of_lt (by omega)
  rw [UInt8.le_iff_toNat_le, UInt8.le_iff_toNat_le, value]
  exact ⟨above, below⟩

theorem piecesFrom_last (rest : List UInt8) :
    piecesFrom (some ⟨bits, 1, low, high⟩) (UInt8.ofNat (k + 128) :: rest) =
      some (Char.ofNat (bits * 64 + k)) :: piecesFrom none rest := by
  rw [piecesFrom, if_pos (follows_of_le inside above below), if_pos rfl, join_ofNat inside]

theorem piecesFrom_more {missing : Nat} (rest : List UInt8) :
    piecesFrom (some ⟨bits, missing + 2, low, high⟩) (UInt8.ofNat (k + 128) :: rest) =
      piecesFrom (some ⟨bits * 64 + k, missing + 1, 0x80, 0xBF⟩) rest := by
  have more : missing + 2 ≠ 1 := by omega
  rw [piecesFrom, if_pos (follows_of_le inside above below), if_neg more, join_ofNat inside]
  rfl

end

theorem toNat_bounds (c : Char) : c.toNat < 0xD800 ∨ 0xDFFF < c.toNat ∧ c.toNat < 0x110000 := c.valid

theorem piecesFrom_encodeChar (c : Char) (rest : List UInt8) :
    piecesFrom none (String.utf8EncodeChar c ++ rest) = some c :: piecesFrom none rest := by
  have bounds := toNat_bounds c
  have again : Char.ofNat c.toNat = c := Char.ofNat_toNat c
  have bytes : String.utf8EncodeChar c =
      if c.toNat ≤ 0x7F then [UInt8.ofNat c.toNat]
      else if c.toNat ≤ 0x7FF then [UInt8.ofNat (c.toNat / 64 % 32 + 192), UInt8.ofNat (c.toNat % 64 + 128)]
      else if c.toNat ≤ 0xFFFF then [UInt8.ofNat (c.toNat / 4096 % 16 + 224),
        UInt8.ofNat (c.toNat / 64 % 64 + 128), UInt8.ofNat (c.toNat % 64 + 128)]
      else [UInt8.ofNat (c.toNat / 262144 % 8 + 240), UInt8.ofNat (c.toNat / 4096 % 64 + 128),
        UInt8.ofNat (c.toNat / 64 % 64 + 128), UInt8.ofNat (c.toNat % 64 + 128)] := rfl
  have low : (0x80 : UInt8).toNat = 128 := rfl
  have high : (0xBF : UInt8).toNat = 191 := rfl
  rw [bytes]
  generalize c.toNat = n at bounds again
  by_cases one : n ≤ 0x7F
  · rw [if_pos one]
    have single := lead_of_ascii (n := n) (by omega)
    rw [again] at single
    exact piecesFrom_single single rest
  · by_cases two : n ≤ 0x7FF
    · rw [if_neg one, if_pos two]
      have joined : n / 64 % 32 * 64 + n % 64 = n := by omega
      have opens := lead_of_two (k := n / 64 % 32) (by omega) (by omega)
      refine (piecesFrom_opening opens _).trans ?_
      refine (piecesFrom_last (k := n % 64) (by omega) (by omega) (by omega) rest).trans ?_
      rw [joined, again]
    · by_cases three : n ≤ 0xFFFF
      · rw [if_neg one, if_neg two, if_pos three]
        have joined : (n / 4096 % 16 * 64 + n / 64 % 64) * 64 + n % 64 = n := by omega
        have opens := lead_of_three (k := n / 4096 % 16) (by omega)
        -- No overlong form below, no surrogate above.
        have above : (if n / 4096 % 16 = 0 then (0xA0 : UInt8) else 0x80).toNat ≤ n / 64 % 64 + 128 := by
          split
          · have : (0xA0 : UInt8).toNat = 160 := rfl
            omega
          · omega
        have below : n / 64 % 64 + 128 ≤ (if n / 4096 % 16 = 13 then (0x9F : UInt8) else 0xBF).toNat := by
          split
          · have : (0x9F : UInt8).toNat = 159 := rfl
            omega
          · omega
        refine (piecesFrom_opening opens _).trans ?_
        refine (piecesFrom_more (k := n / 64 % 64) (by omega) above below _).trans ?_
        refine (piecesFrom_last (k := n % 64) (by omega) (by omega) (by omega) rest).trans ?_
        rw [joined, again]
      · rw [if_neg one, if_neg two, if_neg three]
        have joined : ((n / 262144 % 8 * 64 + n / 4096 % 64) * 64 + n / 64 % 64) * 64 + n % 64 = n := by omega
        have opens := lead_of_four (k := n / 262144 % 8) (by omega)
        -- No overlong form below, nothing beyond the last code point above.
        have above : (if n / 262144 % 8 = 0 then (0x90 : UInt8) else 0x80).toNat ≤ n / 4096 % 64 + 128 := by
          split
          · have : (0x90 : UInt8).toNat = 144 := rfl
            omega
          · omega
        have below : n / 4096 % 64 + 128 ≤ (if n / 262144 % 8 = 4 then (0x8F : UInt8) else 0xBF).toNat := by
          split
          · have : (0x8F : UInt8).toNat = 143 := rfl
            omega
          · omega
        refine (piecesFrom_opening opens _).trans ?_
        refine (piecesFrom_more (k := n / 4096 % 64) (by omega) above below _).trans ?_
        refine (piecesFrom_more (k := n / 64 % 64) (by omega) (by omega) (by omega) _).trans ?_
        refine (piecesFrom_last (k := n % 64) (by omega) (by omega) (by omega) rest).trans ?_
        rw [joined, again]

theorem pieces_encode (text : List Char) : pieces (encode text) = text.map some := by
  induction text with
  | nil => rfl
  | cons c rest ih =>
    rw [encode, List.flatMap_cons, pieces, piecesFrom_encodeChar, List.map_cons]
    exact congrArg (some c :: ·) ih

theorem decodeLenient_encode (text : List Char) : decodeLenient (encode text) = text := by
  rw [decodeLenient, pieces_encode, List.map_map]
  exact List.map_id text

theorem encodeChar_of_ascii {c : Char} (h : c.toNat < 0x80) : String.utf8EncodeChar c = [UInt8.ofNat c.toNat] :=
  if_pos (Nat.le_of_lt_succ h)

end Utf8

namespace Percent

theorem value?_digit {n : Nat} (h : n < 16) : value? (digit n) = some n := by
  interval_cases n <;> rfl

theorem byte?_digits (b : UInt8) : byte? (digit (b.toNat / 16)) (digit (b.toNat % 16)) = some b := by
  have size : b.toNat < 256 := b.toNat_lt
  have whole : 16 * (b.toNat / 16) + b.toNat % 16 = b.toNat := Nat.div_add_mod b.toNat 16
  rw [byte?, value?_digit (by omega), value?_digit (by omega)]
  change some (UInt8.ofNat (16 * (b.toNat / 16) + b.toNat % 16)) = some b
  rw [whole, UInt8.ofNat_toNat]

theorem items_escape (b : UInt8) (rest : List Char) : items (escape b ++ rest) = .byte b :: items rest := by
  change items ('%' :: digit (b.toNat / 16) :: digit (b.toNat % 16) :: rest) = _
  rw [items, byte?_digits]

theorem items_escapes (bytes : List UInt8) (rest : List Char) :
    items (bytes.flatMap escape ++ rest) = bytes.map .byte ++ items rest := by
  induction bytes with
  | nil => rfl
  | cons b bytes ih =>
    rw [List.flatMap_cons, List.append_assoc, items_escape, ih]
    rfl

theorem items_of_ascii {c : Char} (ascii : c.toNat < 0x80) (ne : c ≠ '%') (rest : List Char) :
    items (c :: rest) = .byte (UInt8.ofNat c.toNat) :: items rest := by
  rw [items, Item.ofChar, if_pos ascii]
  rintro _ _ _ rfl
  exact absurd rfl ne

theorem ne_of_isPlain {c d : Char} (plain : isPlain c = true) (other : isPlain d = false) : c ≠ d := by
  rintro rfl
  rw [plain] at other
  cases other

theorem toNat_of_isAlphanum {c : Char} (h : c.isAlphanum = true) : 0x20 < c.toNat ∧ c.toNat < 0x80 := by
  rcases Bool.or_eq_true_iff.mp h with letter | digit
  · rcases Bool.or_eq_true_iff.mp letter with upper | lower
    · have bounds : 65 ≤ c.toNat ∧ c.toNat ≤ 90 := of_decide_eq_true upper
      omega
    · obtain ⟨low, high⟩ := Bool.and_eq_true_iff.mp lower
      have bounds : 97 ≤ c.toNat ∧ c.toNat ≤ 122 := ⟨of_decide_eq_true low, of_decide_eq_true high⟩
      omega
  · obtain ⟨low, high⟩ := Bool.and_eq_true_iff.mp digit
    have bounds : 48 ≤ c.toNat ∧ c.toNat ≤ 57 := ⟨of_decide_eq_true low, of_decide_eq_true high⟩
    omega

theorem toNat_of_isPlain {c : Char} (plain : isPlain c = true) : 0x20 < c.toNat ∧ c.toNat < 0x80 := by
  rcases Bool.or_eq_true_iff.mp plain with alphanum | mark
  · exact toNat_of_isAlphanum alphanum
  · have all : "_.-~!*'()".toList.all (fun m => 0x20 < m.toNat ∧ m.toNat < 0x80) = true := by decide
    exact of_decide_eq_true (List.all_eq_true.mp all c (List.contains_iff_mem.mp mark))

theorem isPlain_digit {n : Nat} (h : n < 16) : isPlain (digit n) = true := by
  interval_cases n <;> decide

theorem mem_encode {text : List Char} {c : Char} (h : c ∈ encode text) : isPlain c = true ∨ c = '%' := by
  obtain ⟨d, -, here⟩ := List.mem_flatMap.mp h
  split at here
  · rw [List.mem_singleton.mp here]
    exact Or.inl ‹_›
  · obtain ⟨b, -, here⟩ := List.mem_flatMap.mp here
    have size : b.toNat < 256 := b.toNat_lt
    rw [escape, List.mem_cons, List.mem_cons, List.mem_singleton] at here
    rcases here with rfl | rfl | rfl
    · exact Or.inr rfl
    · exact Or.inl (isPlain_digit (by omega))
    · exact Or.inl (isPlain_digit (by omega))

theorem encode_eq_nil {text : List Char} : encode text = [] ↔ text = [] := by
  refine ⟨fun none => ?_, fun none => by rw [none]; rfl⟩
  cases text with
  | nil => rfl
  | cons c rest =>
    rw [encode, List.flatMap_cons, List.append_eq_nil_iff] at none
    have bytes : String.utf8EncodeChar c ≠ [] := by
      intro empty
      have := String.length_utf8EncodeChar c
      rw [empty] at this
      exact absurd this.symm (Nat.ne_of_gt c.utf8Size_pos)
    split at none
    · cases none.1
    · obtain ⟨b, more, bytes_eq⟩ := List.exists_cons_of_ne_nil bytes
      rw [bytes_eq, List.flatMap_cons, escape] at none
      cases none.1

theorem items_encode (text rest : List Char) :
    items (encode text ++ rest) = (Utf8.encode text).map .byte ++ items rest := by
  induction text with
  | nil => rfl
  | cons c text ih =>
    rw [encode, List.flatMap_cons, List.append_assoc, Utf8.encode, List.flatMap_cons, List.map_append,
      List.append_assoc]
    split
    · rename_i plain
      have ascii := (toNat_of_isPlain plain).2
      rw [List.singleton_append, items_of_ascii ascii (ne_of_isPlain plain (by decide)),
        Utf8.encodeChar_of_ascii ascii]
      exact congrArg (.byte (UInt8.ofNat c.toNat) :: ·) ih
    · rw [items_escapes]
      exact congrArg (_ ++ ·) ih

theorem items_join (segments : List (List Char)) :
    items (join '/' (segments.map encode)) = (Utf8.encode (join '/' segments)).map .byte := by
  induction segments with
  | nil => rfl
  | cons segment rest ih =>
    cases rest with
    | nil =>
      have whole := items_encode segment []
      rw [List.append_nil] at whole
      rw [List.map_singleton, join, join, List.intercalate_singleton, List.intercalate_singleton, whole]
      exact List.append_nil _
    | cons next rest =>
      rw [List.map_cons, List.map_cons, join_cons, join_cons, items_encode, items_of_ascii (by decide) (by decide),
        ← List.map_cons, ih]
      simp only [Utf8.encode, List.flatMap_append, List.flatMap_cons, List.map_append,
        Utf8.encodeChar_of_ascii (c := '/') (by decide), List.singleton_append, List.map_cons]

theorem assemble_bytes (run bytes : List UInt8) :
    assemble run (bytes.map .byte) = Utf8.decodeLenient (run ++ bytes) := by
  induction bytes generalizing run with
  | nil => rw [List.append_nil]; rfl
  | cons b bytes ih =>
    rw [List.map_cons, assemble, ih, List.append_assoc]
    rfl

theorem decode_join (segments : List (List Char)) : decode (join '/' (segments.map encode)) = join '/' segments := by
  rw [decode, items_join, assemble_bytes]
  exact Utf8.decodeLenient_encode _

theorem decode_cons {c : Char} (ascii : c.toNat < 0x80) (ne : c ≠ '%') (rest : List Char) :
    decode (c :: rest) = c :: decode rest := by
  have single : Utf8.lead (UInt8.ofNat c.toNat) = .single c := by
    rw [Utf8.lead_of_ascii ascii, Char.ofNat_toNat]
  have front (run : List UInt8) :
      Utf8.decodeLenient (UInt8.ofNat c.toNat :: run) = c :: Utf8.decodeLenient run := by
    rw [Utf8.decodeLenient, Utf8.pieces, Utf8.piecesFrom_single single]
    rfl
  have apart (run : List UInt8) (all : List Item) :
      assemble (UInt8.ofNat c.toNat :: run) all = c :: assemble run all := by
    induction all generalizing run with
    | nil => exact front run
    | cons item all ih =>
      cases item with
      | byte b => exact ih (run ++ [b])
      | char d =>
        rw [assemble, front]
        rfl
  rw [decode, items_of_ascii ascii ne]
  exact apart [] _

end Percent
end GrammarWorkspace.Text
