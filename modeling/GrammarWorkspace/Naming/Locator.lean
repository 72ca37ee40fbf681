import GrammarWorkspace.Naming.Uri
import GrammarWorkspace.Naming.Value

/-!
# Locators

What a client names a document by: a path or a URI, or something that carries a URI. Anything else
it may send is kept too, to be refused with a complaint that shows it.
-/
namespace GrammarWorkspace

inductive Locator where
  | text (s : String)
  /-- Something that carries a URI, which need not be a text. -/
  | reference (uri : Value)
  | other (value : Value)
  deriving Inhabited, Repr

namespace Locator

def display : Locator → String
  | text s => Text.display s
  | reference uri => "Reference(uri=" ++ uri.display ++ ")"
  | other value => value.display

def carriedUri? : Locator → Option String
  | reference (.text uri) => some uri
  | _ => none

def uri? : Locator → Option String
  | text s => some (if Uri.isUri s then s else Uri.ofPath s)
  | locator => locator.carriedUri?

end Locator
end GrammarWorkspace
