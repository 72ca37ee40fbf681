import GrammarWorkspace.Text.Split

/-!
# File paths

Slash-separated paths. The normal form of a path has no empty segment, no `.`, and a `..` only at
the start of a relative path. Two slashes in front are a root of their own; any other number of
them is one.
-/
namespace GrammarWorkspace.Path

def isAbsolute (path : String) : Bool := path.toList.head? == some '/'

def rootOf : List Char → List Char
  | '/' :: '/' :: '/' :: _ => ['/']
  | '/' :: '/' :: _ => ['/', '/']
  | '/' :: _ => ['/']
  | _ => []

/-- Follow one segment from the segments kept so far, the last one first. Going up takes the last
segment away; there is nothing above the root. -/
def follow (rooted : Bool) (kept : List (List Char)) (segment : List Char) : List (List Char) :=
  if segment = [] ∨ segment = ['.'] then kept
  else if segment ≠ ['.', '.'] then segment :: kept
  else
    match kept with
    | [] => if rooted then [] else [segment]
    | last :: before => if last = ['.', '.'] then segment :: kept else before

def normalize (path : String) : String :=
  let root := rootOf path.toList
  let kept := (Text.splitOn '/' path.toList).foldl (follow !root.isEmpty) []
  let normal := root ++ Text.join '/' kept.reverse
  String.ofList (if normal = [] then ['.'] else normal)

/-- A path as seen from a directory. An absolute path is the same from everywhere. -/
def join (directory path : String) : String :=
  if isAbsolute path then path
  else if directory.toList = [] ∨ directory.toList.getLast? = some '/' then directory ++ path
  else directory ++ "/" ++ path

def dropTrailing (isDropped : Char → Bool) (text : List Char) : List Char :=
  (text.reverse.dropWhile isDropped).reverse

/-- What stands before the last segment, without the slashes between unless there is nothing
else. -/
def directory (path : String) : String :=
  let head := dropTrailing (· ≠ '/') path.toList
  let trimmed := dropTrailing (· = '/') head
  String.ofList (if trimmed = [] then head else trimmed)

/-- The file that a path written in a file stands for. -/
def relativeTo (file path : String) : String := normalize (join (directory file) path)

end GrammarWorkspace.Path
