import GrammarWorkspace.Text.Percent
import GrammarWorkspace.Text.Quoted
import GrammarWorkspace.Text.Split

/-!
# Authorities

What may stand for the host in a URI: a name, or between brackets the address of a machine. A
character that decomposes into one of the marks that end an authority is refused, for it could show
another host than the one that is asked.
-/
namespace GrammarWorkspace

inductive Flaw where
  | brackets
  | futureAddress
  | noAddress (host : String)
  | plainAddress
  | compatibility (authority : String)
  | nullCharacter
  deriving DecidableEq, Inhabited, Repr

def Flaw.message : Flaw → String
  | brackets => "Invalid IPv6 URL"
  | futureAddress => "IPvFuture address is invalid"
  | noAddress host => Text.display host ++ " does not appear to be an IPv4 or IPv6 address"
  | plainAddress => "An IPv4 address cannot be in brackets"
  | compatibility authority =>
    "netloc '" ++ authority ++ "' contains invalid characters under NFKC normalization"
  | nullCharacter => "embedded null byte"

namespace Uri

/-- The text before and after the first character of a class; the character itself goes away. -/
def cut (isMark : Char → Bool) (text : List Char) : List Char × Option (List Char) :=
  match text.dropWhile (!isMark ·) with
  | [] => (text, none)
  | _ :: rest => (text.takeWhile (!isMark ·), some rest)

def isHexDigit (c : Char) : Bool := (Text.Percent.value? c).isSome

def isOctet (text : List Char) : Bool :=
  !text.isEmpty && text.length ≤ 3 && text.all Char.isDigit &&
    (text.length == 1 || text.head? != some '0') &&
    text.foldl (fun n c => 10 * n + (c.toNat - 48)) 0 < 256

def isAddress4 (text : List Char) : Bool :=
  let octets := Text.splitOn '.' text
  octets.length == 4 && octets.all isOctet

def isGroup (text : List Char) : Bool :=
  !text.isEmpty && text.length ≤ 4 && text.all isHexDigit

/-- The groups between the colons. An address of four numbers at the end counts for two. -/
def groups (text : List Char) : List (List Char) :=
  let groups := Text.splitOn ':' text
  match groups.getLast? with
  | some last => if isAddress4 last then groups.dropLast ++ [['0'], ['0']] else groups
  | none => groups

/-- Eight groups, or fewer around two colons, which stand for all that are missing. -/
def isAddress6 (text : List Char) : Bool :=
  let groups := groups text
  let written (side : List (List Char)) := if side = [[]] then [] else side
  match groups.tail.dropLast.idxOf? [] with
  | none => groups.length == 8 && groups.all isGroup
  | some i =>
    let around := written (groups.take (i + 1)) ++ written (groups.drop (i + 2))
    around.length ≤ 7 && around.all isGroup

def isZoned6 (text : List Char) : Bool :=
  match cut (· = '%') text with
  | (address, none) => isAddress6 address
  | (address, some zone) => isAddress6 address && !zone.isEmpty && !zone.contains '%'

def isFutureAddress (text : List Char) : Bool :=
  match cut (· = '.') text.tail with
  | (version, some (_ :: _)) => !version.isEmpty && version.all isHexDigit
  | _ => false

def bracketedFlaw? (host : List Char) : Option Flaw :=
  if host.head? = some 'v' then
    if isFutureAddress host then none else some .futureAddress
  else if isAddress4 host then some .plainAddress
  else if isZoned6 host then none
  else some (.noAddress (String.ofList host))

/-- The characters beyond ASCII whose compatibility decomposition has a slash, a question mark, a
hash, an at sign or a colon in it. -/
def decomposing : List Nat :=
  [0x2047, 0x2048, 0x2049, 0x2100, 0x2101, 0x2105, 0x2106, 0x2A74, 0xFE13, 0xFE16, 0xFE55, 0xFE56,
    0xFE5F, 0xFE6B, 0xFF03, 0xFF0F, 0xFF1A, 0xFF1F, 0xFF20]

def authorityFlaw? (authority : List Char) : Option Flaw :=
  let bracketed :=
    match cut (· = '[') authority with
    | (_, some rest) => if authority.contains ']' then bracketedFlaw? (cut (· = ']') rest).1 else some .brackets
    | (_, none) => if authority.contains ']' then some .brackets else none
  bracketed <|> if authority.any (decomposing.contains ·.toNat) then
    some (.compatibility (String.ofList authority)) else none

end Uri
end GrammarWorkspace
