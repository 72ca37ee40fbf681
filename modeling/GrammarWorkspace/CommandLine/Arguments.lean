import GrammarWorkspace.CommandLine.Settings
import GrammarWorkspace.Text.Integer
import GrammarWorkspace.Text.Lines
import GrammarWorkspace.Text.Quoted

/-!
# Reading the command line

Each word of the command line is first taken by itself: an option, possibly shortened and possibly
with a value attached, or something else. An ambiguous option is refused at once. Then the options
are followed in order, and last of all words that belong to no option are refused.
-/
namespace GrammarWorkspace.CommandLine

inductive Switch where
  | help
  | tcp
  | webSocket
  | host
  | port
  | logFile
  | logLevel
  | reportUnused
  deriving DecidableEq, Repr

namespace Switch

def all : List Switch := [help, tcp, webSocket, host, port, logFile, logLevel, reportUnused]

def longName : Switch → String
  | help => "--help"
  | tcp => "--tcp"
  | webSocket => "--ws"
  | host => "--host"
  | port => "--port"
  | logFile => "--log-file"
  | logLevel => "--log-level"
  | reportUnused => "--report-unused"

def title : Switch → String
  | help => "-h/--help"
  | switch => switch.longName

def takesValue : Switch → Bool
  | host | port | logFile | logLevel => true
  | _ => false

end Switch

inductive UsageError where
  | ambiguous (word : String) (switches : List Switch)
  | missingValue (switch : Switch)
  | unwantedValue (switch : Switch) (value : String)
  | notAnInteger (switch : Switch) (value : String)
  | notALevel (switch : Switch) (value : String)
  | unrecognized (words : List String)
  deriving DecidableEq, Repr

namespace UsageError

def about (switch : Switch) (complaint : String) : String :=
  "argument " ++ switch.title ++ ": " ++ complaint

def message : UsageError → String
  | ambiguous word switches =>
    "ambiguous option: " ++ word ++ " could match " ++
      ", ".intercalate (switches.map Switch.longName)
  | missingValue switch => about switch "expected one argument"
  | unwantedValue switch value =>
    about switch ("ignored explicit argument " ++ Text.display value)
  | notAnInteger switch value => about switch ("invalid int value: " ++ Text.display value)
  | notALevel switch value =>
    about switch ("invalid choice: " ++ Text.display value ++ " (choose from " ++
      ", ".intercalate (LogLevel.all.map fun level => Text.display level.name) ++ ")")
  | unrecognized words => "unrecognized arguments: " ++ " ".intercalate words

def report (e : UsageError) : String := programName ++ ": error: " ++ e.message ++ "\n"

def lastLine (e : UsageError) : String :=
  String.ofList ((Text.lines e.report.toList).getLast?.getD [])

end UsageError

inductive Word where
  | plain (text : String)
  /-- The double dash. All words after it are plain. -/
  | separator
  | unknownOption (text : String)
  | option (switch : Switch) (attached : Option String)
  deriving DecidableEq, Repr

namespace Word

def text : Word → String
  | plain text | unknownOption text => text
  | separator => "--"
  | option switch _ => switch.longName

/-- What is attached to the short option for help. More of the same option may be run together with
it; what follows them is a value, and so is nothing at all after an equals sign. -/
def attachedToHelp (attached : List Char) : Option String :=
  if attached.isEmpty then some ""
  else
    match attached.dropWhile (· = 'h') with
    | [] => none
    | value => some (String.ofList value)

def unknown (word : String) : Word :=
  if Text.looksNegative word.toList ∨ ' ' ∈ word.toList then plain word else unknownOption word

/-- The part of a word before the first equals sign, and the part after it if there is one. -/
def splitValue (word : List Char) : List Char × Option String :=
  match word.dropWhile (· ≠ '=') with
  | [] => (word, none)
  | _ :: value => (word.takeWhile (· ≠ '='), some (String.ofList value))

/-- A word with two dashes: an option by its name or by any start of it that no other has. -/
def ofLong (word : String) : Except UsageError Word :=
  let (name, value) := splitValue word.toList
  match Switch.all.find? (·.longName.toList = name) with
  | some switch => .ok (option switch value)
  | none =>
    match Switch.all.filter fun switch => name.isPrefixOf switch.longName.toList with
    | [] => .ok (unknown word)
    | [switch] => .ok (option switch value)
    | switches => .error (.ambiguous word switches)

def ofText (word : String) : Except UsageError Word :=
  match word.toList with
  | '-' :: '-' :: _ => ofLong word
  | ['-', 'h'] => .ok (option .help none)
  | '-' :: 'h' :: '=' :: value => .ok (option .help (attachedToHelp value))
  | '-' :: 'h' :: more => .ok (option .help (attachedToHelp more))
  | '-' :: _ :: _ => .ok (unknown word)
  | _ => .ok (plain word)

def ofTexts : List String → Except UsageError (List Word)
  | [] => .ok []
  | word :: rest =>
    if word = "--" then .ok (separator :: rest.map plain)
    else do
      let first ← ofText word
      return first :: (← ofTexts rest)

end Word

inductive Command where
  | start (settings : Settings)
  | help
  | refuse (error : UsageError)
  deriving DecidableEq, Repr

namespace Settings

def turnOn (s : Settings) : Switch → Settings
  | .tcp => { s with tcp := true }
  | .webSocket => { s with webSocket := true }
  | .reportUnused => { s with reportUnused := true }
  | _ => s

/-- Two dashes in the place of a value stand for none. -/
def given (value : String) : Option String := if value = "--" then none else some value

def assign (s : Settings) (switch : Switch) (value : String) : Except UsageError Settings :=
  match switch, given value with
  | .host, host => .ok { s with host := host }
  | .logFile, file => .ok { s with logFile := file }
  | .port, none => .ok { s with port := none }
  | .port, some text =>
    match Text.integer? text.toList with
    | some port => .ok { s with port := some port }
    | none => .error (.notAnInteger switch text)
  | .logLevel, none => .ok { s with logLevel := none }
  | .logLevel, some name =>
    match LogLevel.ofName? name with
    | some level => .ok { s with logLevel := some level }
    | none => .error (.notALevel switch name)
  | _, _ => .error (.unwantedValue switch value)

end Settings

/-- Follow the words in order. Words that belong to no option are left over to the end. -/
def follow (s : Settings) (leftOver : List String) : List Word → Command
  | [] => if leftOver.isEmpty then .start s else .refuse (.unrecognized leftOver)
  | .option switch (some value) :: rest =>
    match s.assign switch value with
    | .ok s => follow s leftOver rest
    | .error e => .refuse e
  | .option .help none :: _ => .help
  | .option switch none :: rest =>
    if switch.takesValue then
      match rest with
      | .plain value :: rest =>
        match s.assign switch value with
        | .ok s => follow s leftOver rest
        | .error e => .refuse e
      | _ => .refuse (.missingValue switch)
    else follow (s.turnOn switch) leftOver rest
  | word :: rest => follow s (leftOver ++ [word.text]) rest

def read (arguments : List String) : Command :=
  match Word.ofTexts arguments with
  | .error e => .refuse e
  | .ok words => follow .initial [] words

end GrammarWorkspace.CommandLine
