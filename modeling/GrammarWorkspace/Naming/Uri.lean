import GrammarWorkspace.Naming.Authority

/-!
# URIs

The parts of a URI that name a file, and the URI that shows a path to a client.
-/
namespace GrammarWorkspace

structure Uri where
  authority : String
  path : String
  deriving DecidableEq, Repr

namespace Uri

def isSchemeChar (c : Char) : Bool := c.isAlphanum || c == '+' || c == '.' || c == '-'

/-- A name with a scheme of at least two characters and two slashes is a URI, any other is a
path. -/
def isUri (name : String) : Bool :=
  match name.toList with
  | first :: second :: rest =>
    first.isAlpha && isSchemeChar second &&
      [':', '/', '/'].isPrefixOf (rest.dropWhile isSchemeChar)
  | _ => false

def splitScheme (text : List Char) : List Char × List Char :=
  match cut (· = ':') text with
  | (first :: more, some rest) =>
    if first.isAlpha && more.all isSchemeChar then ((first :: more).map Char.toLower, rest)
    else ([], text)
  | _ => ([], text)

/-- Take an authority off the front: it follows two slashes and ends before a slash, a question
mark or a hash. -/
def splitAuthority (text : List Char) : List Char × List Char :=
  match text with
  | '/' :: '/' :: rest =>
    let isMark (c : Char) := c == '/' || c == '?' || c == '#'
    (rest.takeWhile (!isMark ·), rest.dropWhile (!isMark ·))
  | _ => ([], text)

/-- Schemes whose paths carry parameters after a semicolon. A URI without a scheme is one of
them. -/
def schemesWithParameters : List (List Char) :=
  ["", "ftp", "hdl", "prospero", "http", "imap", "https", "shttp", "rtsp", "rtsps", "rtspu", "sip",
    "sips", "mms", "sftp", "tel"].map String.toList

def dropParameters (path : List Char) : List Char :=
  let last := (path.reverse.takeWhile (· ≠ '/')).reverse
  let before := (path.reverse.dropWhile (· ≠ '/')).reverse
  before ++ (cut (· = ';') last).1

/-- Leading controls and spaces do not count, nor do tabs and line breaks anywhere. -/
def strip (text : List Char) : List Char :=
  (text.dropWhile fun c => c.toNat ≤ 0x20).filter fun c => c ≠ '\t' ∧ c ≠ '\r' ∧ c ≠ '\n'

/-- Read a URI, which is refused for a flaw of its authority. -/
def parse (text : String) : Except Flaw Uri :=
  let (scheme, rest) := splitScheme (strip text.toList)
  let (authority, rest) := splitAuthority rest
  match authorityFlaw? authority with
  | some flaw => .error flaw
  | none =>
    let beforeFragment := (cut (· = '#') rest).1
    let path := (cut (· = '?') beforeFragment).1
    let path := if scheme ∈ schemesWithParameters then dropParameters path else path
    .ok ⟨String.ofList authority, String.ofList path⟩

/-- The URI of a path on this machine. Either kind of slash separates its segments. -/
def ofPath (path : String) : String :=
  let segments := (Text.split (fun c => c == '/' || c == '\\') path.toList).map Text.Percent.encode
  let encoded := Text.join '/' segments
  let front := if encoded.head? = some '/' then "file://" else "file:///"
  String.ofList (front.toList ++ encoded)

end Uri
end GrammarWorkspace
