/-!
# Lines of a text

Any of the vertical separators ends a line, and a carriage return with a line feed after it is one
of them. A separator at the very end starts no further line.
-/
namespace GrammarWorkspace.Text

def endsLine (c : Char) : Bool :=
  let n := c.toNat
  (0x0A ≤ n && n ≤ 0x0D) || (0x1C ≤ n && n ≤ 0x1E) || n == 0x85 || n == 0x2028 || n == 0x2029

def linesAfter : List Char → List Char → List (List Char)
  | [], [] => []
  | begun, [] => [begun]
  | begun, '\r' :: '\n' :: rest => begun :: linesAfter [] rest
  | begun, c :: rest =>
    if endsLine c then begun :: linesAfter [] rest else linesAfter (begun ++ [c]) rest

def lines (text : List Char) : List (List Char) := linesAfter [] text

end GrammarWorkspace.Text
