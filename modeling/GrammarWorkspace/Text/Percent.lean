import GrammarWorkspace.Text.Utf8

/-!
# Percent encoding

A percent sign and two hexadecimal digits stand for a byte. Encoding writes the UTF-8 bytes of
every character that is not plain in this way; decoding reads any well-formed escape and leaves
all else as it stands.
-/
namespace GrammarWorkspace.Text.Percent

/-- The characters that stand for themselves: letters, digits and the marks that a segment of a
path may show. -/
def isPlain (c : Char) : Bool := c.isAlphanum || "_.-~!*'()".toList.contains c

def digit (n : Nat) : Char := if n < 10 then Char.ofNat (48 + n) else Char.ofNat (55 + n)

def escape (b : UInt8) : List Char := ['%', digit (b.toNat / 16), digit (b.toNat % 16)]

def encode (text : List Char) : List Char :=
  text.flatMap fun c => if isPlain c then [c] else (String.utf8EncodeChar c).flatMap escape

def value? (c : Char) : Option Nat :=
  if '0' ≤ c ∧ c ≤ '9' then some (c.toNat - 48)
  else if 'a' ≤ c ∧ c ≤ 'f' then some (c.toNat - 87)
  else if 'A' ≤ c ∧ c ≤ 'F' then some (c.toNat - 55)
  else none

def byte? (high low : Char) : Option UInt8 := do
  let h ← value? high
  let l ← value? low
  return UInt8.ofNat (16 * h + l)

/-- A byte, written as an escape or as an ASCII character, or any other character. -/
inductive Item where
  | byte (b : UInt8)
  | char (c : Char)

def Item.ofChar (c : Char) : Item :=
  if c.toNat < 0x80 then .byte (UInt8.ofNat c.toNat) else .char c

def items : List Char → List Item
  | [] => []
  | '%' :: high :: low :: rest =>
    match byte? high low with
    | some b => .byte b :: items rest
    | none => .byte 0x25 :: items (high :: low :: rest)
  | c :: rest => .ofChar c :: items rest

def assemble : List UInt8 → List Item → List Char
  | run, [] => Utf8.decodeLenient run
  | run, .byte b :: rest => assemble (run ++ [b]) rest
  | run, .char c :: rest => Utf8.decodeLenient run ++ c :: assemble [] rest

def decode (text : List Char) : List Char := assemble [] (items text)

end GrammarWorkspace.Text.Percent
