/-!
# Settings of the language server

What the command line can set, and what the server is started with.
-/
namespace GrammarWorkspace.CommandLine

inductive LogLevel where
  | debug
  | info
  | warning
  | error
  deriving DecidableEq, Repr, Inhabited

namespace LogLevel

def all : List LogLevel := [debug, info, warning, error]

def name : LogLevel → String
  | debug => "DEBUG"
  | info => "INFO"
  | warning => "WARNING"
  | error => "ERROR"

def ofName? (text : String) : Option LogLevel := all.find? (·.name = text)

theorem ofName?_name (level : LogLevel) : ofName? level.name = some level := by
  cases level <;> rfl

end LogLevel

/-- A setting is none where its option was given and expressly left without a value. -/
structure Settings where
  tcp : Bool
  webSocket : Bool
  host : Option String
  port : Option Int
  logFile : Option String
  logLevel : Option LogLevel
  reportUnused : Bool
  deriving DecidableEq, Repr

def Settings.initial : Settings where
  tcp := false
  webSocket := false
  host := some "127.0.0.1"
  port := some 2087
  logFile := some "grammar-server.log"
  logLevel := some .debug
  reportUnused := false

inductive Transport where
  | tcp (host : Option String) (port : Option Int)
  | webSocket (host : Option String) (port : Option Int)
  | standardStreams
  deriving DecidableEq, Repr

def Settings.transport (s : Settings) : Transport :=
  if s.tcp then .tcp s.host s.port
  else if s.webSocket then .webSocket s.host s.port
  else .standardStreams

def programName : String := "grammar-server"

def version : String := "0.1.0"

def logMode : String := "w"

def logFormat : String := "%(levelname)s:%(filename)s:%(lineno)d:\t%(message)s"

/-- The requests and notifications that the server answers, in alphabetical order. -/
def features : List String :=
  ["textDocument/definition", "textDocument/didChange", "textDocument/didClose",
    "textDocument/didOpen", "textDocument/references", "textDocument/rename"]

def commands : List String := ["grammar.server.dumpDocuments"]

end GrammarWorkspace.CommandLine
