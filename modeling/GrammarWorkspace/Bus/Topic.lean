/-!
# Topics

What may happen to a document, and that the compilation has to be looked at again.
-/
namespace GrammarWorkspace

inductive Topic where
  | created
  | openedOnClient
  | openedOnServer
  | contentChanged
  | closed
  | closedOnClient
  | closedOnServer
  | updated
  deriving DecidableEq, Repr, Inhabited

namespace Topic

def all : List Topic :=
  [created, openedOnClient, openedOnServer, contentChanged, closed, closedOnClient, closedOnServer,
    updated]

def name : Topic → String
  | created => "created"
  | openedOnClient => "opened_on_client"
  | openedOnServer => "opened_on_server"
  | contentChanged => "content_changed"
  | closed => "closed"
  | closedOnClient => "closed_on_client"
  | closedOnServer => "closed_on_server"
  | updated => "updated"

theorem mem_all (topic : Topic) : topic ∈ all := by cases topic <;> decide

end Topic
end GrammarWorkspace
