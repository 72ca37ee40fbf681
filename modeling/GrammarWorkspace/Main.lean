import GrammarWorkspace.CommandLine.Arguments

/-!
# The command line of the grammar server

Settles how the server is to be started, and says so. Serving itself is left to a transport.
-/
namespace GrammarWorkspace.CommandLine

def address (host : Option String) (port : Option Int) : String :=
  host.getD "no host" ++ ":" ++ (port.map toString).getD "no port"

def Transport.describe : Transport → String
  | .tcp host port => "TCP on " ++ address host port
  | .webSocket host port => "WebSocket on " ++ address host port
  | .standardStreams => "standard input and output"

def usage : String :=
  "usage: " ++ programName ++ " [-h] [--tcp] [--ws] [--host HOST] [--port PORT]" ++
    " [--log-file LOG_FILE]\n                      [--log-level LEVEL] [--report-unused]\n"

def run (arguments : List String) : IO UInt32 := do
  match read arguments with
  | .start s =>
    IO.println ("Starting Grammar Server " ++ version ++ " on " ++ s.transport.describe)
    return 0
  | .help =>
    IO.print (usage ++ "\nLanguage server for grammar files\n")
    return 0
  | .refuse e =>
    IO.eprint (usage ++ e.report)
    return 2

end GrammarWorkspace.CommandLine

def main (arguments : List String) : IO UInt32 := GrammarWorkspace.CommandLine.run arguments
