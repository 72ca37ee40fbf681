import GrammarWorkspace.Text.Blank
import GrammarWorkspace.Text.Digit

/-!
# Written integers

An integer may have white space around it, a sign, digits of any script, and single underscores
between digits. Very long ones are refused.
-/
namespace GrammarWorkspace.Text

def digitsOf : List Char → Option (List Nat)
  | [] => none
  | [c] => (digit? c).map ([·])
  | c :: '_' :: rest => do return (← digit? c) :: (← digitsOf rest)
  | c :: rest => do return (← digit? c) :: (← digitsOf rest)

def valueOf (digits : List Nat) : Nat := digits.foldl (fun value d => 10 * value + d) 0

def digitLimit : Nat := 4300

def magnitude? (text : List Char) : Option Nat := do
  let digits ← digitsOf text
  if digits.length ≤ digitLimit then some (valueOf digits) else none

def trim (text : List Char) : List Char :=
  ((text.dropWhile isWhiteSpace).reverse.dropWhile isWhiteSpace).reverse

def integer? (text : List Char) : Option Int :=
  match trim text with
  | '+' :: rest => (magnitude? rest).map Int.ofNat
  | '-' :: rest => (magnitude? rest).map fun n => -Int.ofNat n
  | rest => (magnitude? rest).map Int.ofNat

def isDigits (text : List Char) : Bool := text.all fun c => (digit? c).isSome

/-- A minus and digits, which may have a point before or among them, and perhaps a line feed. -/
def looksNegative (text : List Char) : Bool :=
  let body := if text.getLast? = some '\n' then text.dropLast else text
  match body with
  | '-' :: rest =>
    match rest.dropWhile (· ≠ '.') with
    | [] => !rest.isEmpty && isDigits rest
    | _ :: fraction => isDigits (rest.takeWhile (· ≠ '.')) && !fraction.isEmpty && isDigits fraction
  | _ => false

end GrammarWorkspace.Text
