import GrammarWorkspace.Naming.Fault
import GrammarWorkspace.Naming.Path

/-!
# The host of the files

Every locator stands for one file name: absolute, in normal form, and the same for all spellings
that mean the same file.
-/
namespace GrammarWorkspace

/-- Where a program runs: in the root directory, unless something else is given. -/
class Surroundings where
  workingDirectory : String
  isAbsolute : Path.isAbsolute workingDirectory = true
  deriving DecidableEq, Repr

instance : Surroundings := ⟨"/", rfl⟩

/-- Relative paths are resolved against the root, or where that is missing or empty, against the
working directory. -/
structure Host where
  root : Option String
  [surroundings : Surroundings]
  deriving DecidableEq, Repr

namespace Host

def decodePath (path : String) : String :=
  String.ofList (Text.Percent.decode (Text.Percent.decode path.toList))

/-- The path that a URI names. An authority is a share in front of a path that is not absolute. -/
def pathOfUri (uri : String) : Except Fault String :=
  match Uri.parse uri with
  | .error flaw => .error (.flawed flaw)
  | .ok ⟨authority, path⟩ =>
    if authority = "" then .ok (Path.normalize (decodePath path))
    else .ok (Path.normalize (Path.join ("//" ++ authority ++ "/") (decodePath path)))

def resolve (host : Host) (path : String) : String :=
  if Path.isAbsolute path then path
  else
    match host.root with
    | none | some "" => Path.join host.surroundings.workingDirectory path
    | some root => Path.join root path

def carriedUri (locator : Locator) : Except Fault String :=
  match locator.carriedUri? with
  | some uri => .ok uri
  | none => .error (.notALocator locator)

def uri (locator : Locator) : Except Fault String :=
  match locator.uri? with
  | some uri => .ok uri
  | none => .error (.notALocator locator)

def fileName (host : Host) (locator : Locator) : Except Fault String := do
  let path ← match locator with
    | .text name => if Uri.isUri name then pathOfUri name else pure name
    | locator => carriedUri locator >>= pathOfUri
  return Path.normalize (host.resolve path)

def unifyLineBreaks : List Char → List Char
  | [] => []
  | '\r' :: '\n' :: rest => '\n' :: unifyLineBreaks rest
  | c :: rest => (if c = '\r' then '\n' else c) :: unifyLineBreaks rest

/-- The text of a file with these bytes; it has none if they are not well-formed. -/
def contents (bytes : List UInt8) : Option String :=
  (Text.Utf8.decode? bytes).map fun text => String.ofList (unifyLineBreaks text)

def obstacle? (failing : List String) (file : String) : Option Fault :=
  if file ∈ failing then some .readFailed
  else if '\x00' ∈ file.toList then some (.flawed .nullCharacter)
  else none

end Host
end GrammarWorkspace
