import GrammarWorkspace.Text.Printable

/-!
# Quoted display of a text

A text is shown between quotes, with its line breaks, tabs and unprintable characters escaped, so
that it stays on one line and each text has a display of its own.
-/
namespace GrammarWorkspace.Text

def hexDigit (n : Nat) : Char := if n < 10 then Char.ofNat (48 + n) else Char.ofNat (87 + n)

def hexDigits : Nat → Nat → List Char
  | 0, _ => []
  | count + 1, n => hexDigits count (n / 16) ++ [hexDigit (n % 16)]

/-- An unprintable character takes the shortest of the three numeric escapes that holds it. -/
def escapeNumeric (c : Char) : List Char :=
  if c.toNat < 0x100 then '\\' :: 'x' :: hexDigits 2 c.toNat
  else if c.toNat < 0x10000 then '\\' :: 'u' :: hexDigits 4 c.toNat
  else '\\' :: 'U' :: hexDigits 8 c.toNat

def escapeFor (quote c : Char) : List Char :=
  if c = quote ∨ c = '\\' then ['\\', c]
  else if c = '\n' then ['\\', 'n']
  else if c = '\r' then ['\\', 'r']
  else if c = '\t' then ['\\', 't']
  else if isPrintable c then [c]
  else escapeNumeric c

/-- Double quotes only spare a text that has single quotes and no double ones. -/
def quoteFor (text : List Char) : Char :=
  if '\'' ∈ text ∧ '"' ∉ text then '"' else '\''

def quoted (text : List Char) : List Char :=
  let quote := quoteFor text
  quote :: text.flatMap (escapeFor quote) ++ [quote]

def display (text : String) : String := String.ofList (quoted text.toList)

end GrammarWorkspace.Text
