/-!
# UTF-8

Decoding splits the bytes into pieces, each a well-formed character or a stretch that is none. An
ill-formed stretch is a maximal one that some character starts with, or a single byte. A strict
reader refuses such stretches, a lenient one puts one replacement character for each.
-/
namespace GrammarWorkspace.Text.Utf8

/-- A character of which some bytes are read: the bits so far, how many bytes are missing, and the
range that the next one has to lie in. -/
structure Partial where
  bits : Nat
  missing : Nat
  low : UInt8
  high : UInt8

inductive Lead where
  | single (c : Char)
  | opening (p : Partial)
  | stray

/-- What a first byte announces. The narrowed second bytes keep out overlong forms, surrogates and
all beyond the last code point. -/
def lead (b : UInt8) : Lead :=
  if b < 0x80 then .single (Char.ofNat b.toNat)
  else if b < 0xC2 then .stray
  else if b < 0xE0 then .opening ⟨b.toNat - 0xC0, 1, 0x80, 0xBF⟩
  else if b < 0xF0 then
    .opening ⟨b.toNat - 0xE0, 2, if b = 0xE0 then 0xA0 else 0x80, if b = 0xED then 0x9F else 0xBF⟩
  else if b < 0xF5 then
    .opening ⟨b.toNat - 0xF0, 3, if b = 0xF0 then 0x90 else 0x80, if b = 0xF4 then 0x8F else 0xBF⟩
  else .stray

def Partial.join (p : Partial) (b : UInt8) : Nat := p.bits * 64 + (b.toNat - 0x80)

def piecesFrom : Option Partial → List UInt8 → List (Option Char)
  | none, [] => []
  | some _, [] => [none]
  | none, b :: rest =>
    match lead b with
    | .single c => some c :: piecesFrom none rest
    | .opening p => piecesFrom (some p) rest
    | .stray => none :: piecesFrom none rest
  | some p, b :: rest =>
    if p.low ≤ b ∧ b ≤ p.high then
      if p.missing = 1 then some (Char.ofNat (p.join b)) :: piecesFrom none rest
      else piecesFrom (some ⟨p.join b, p.missing - 1, 0x80, 0xBF⟩) rest
    else
      match lead b with
      | .single c => none :: some c :: piecesFrom none rest
      | .opening q => none :: piecesFrom (some q) rest
      | .stray => none :: none :: piecesFrom none rest

def pieces (bytes : List UInt8) : List (Option Char) := piecesFrom none bytes

def decode? (bytes : List UInt8) : Option (List Char) := (pieces bytes).mapM id

def replacement : Char := Char.ofNat 0xFFFD

def decodeLenient (bytes : List UInt8) : List Char := (pieces bytes).map (·.getD replacement)

def encode (text : List Char) : List UInt8 := text.flatMap String.utf8EncodeChar

end GrammarWorkspace.Text.Utf8
