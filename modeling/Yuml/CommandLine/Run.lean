import Yuml.CommandLine.Arguments
import Yuml.Render

namespace Yuml.CommandLine

def warningLevel : Nat := 30

def infoLevel : Nat := 20

def debugLevel : Nat := 10

def levelNames : List (Text × Nat) :=
  [("CRITICAL", 50), ("FATAL", 50), ("ERROR", 40), ("WARN", 30), ("WARNING", warningLevel),
    ("INFO", infoLevel), ("DEBUG", debugLevel), ("NOTSET", 0)]

/-- The capital form of a character, as far as the names of levels need it: besides ASCII, the
dotless i and the long s have capitals in ASCII. -/
def capital (c : Char) : Char :=
  if c = 'ı' then 'I' else if c = 'ſ' then 'S' else c.toUpper

def logLevel (setting : Option Text) (verbose : Bool) : Nat :=
  if verbose then debugLevel
  else match setting with
    | none => infoLevel
    | some s =>
      ((levelNames.find? (·.1 = (Text.trim s).map capital)).map (·.2)).getD infoLevel

structure Answer where
  exit : Nat
  stdout : Text := []
  stderr : List Text := []
  file : Option (Text × Text) := none

def Request.options (r : Request) : List (Text × Value) :=
  let dark : List (Text × Value) := [("isDark", .bool r.dark)]
  let kind := match r.kind with
    | none | some [] => []
    | some k => [("type".toList, Value.text k)]
  let direction := match r.direction with
    | none | some [] => []
    | some d => [("dir".toList, Value.text d)]
  dark ++ kind ++ direction

def logLine (w : Warning) : Text :=
  "WARNING [yuml2svg.ingest.directives] " ++ w

def failureLine : Failure → Text
  | .malformed e => "error: input is not valid UTF-8: " ++ e.message
  | f => "error: " ++ (f.message?.getD [])

inductive WriteFault
  | noSuchFolder
  | denied
  | notAFolder
  | isFolder
  deriving DecidableEq, Repr

def WriteFault.wording : WriteFault → Text
  | noSuchFolder => "[Errno 2] No such file or directory"
  | denied => "[Errno 13] Permission denied"
  | notAFolder => "[Errno 20] Not a directory"
  | isFolder => "[Errno 21] Is a directory"

def WriteFault.line (file : Text) (f : WriteFault) : Text :=
  "error: cannot write '" ++ file ++ "': " ++ f.wording ++ ": " ++ Text.quoted file

def misuse : Answer :=
  { exit := 2, stderr := ["Usage: main [OPTIONS] [INPUT]", "Try 'main --help' for help."] }

def helpText : Text :=
  "Usage: main [OPTIONS] [INPUT]

  yUML diagram text to SVG.

Options:
  -t, --type [class|usecase|activity|state|deployment|package|sequence]
                                  Default diagram type
  -d, --dir [TB|LR|RL]            Default direction
  --dark                          Use the dark theme
  -o, --output TEXT               Write output to this file instead of stdout
  -v, --verbose                   Enable debug logging
  --help                          Show this message and exit.
"

def answerWith (r : Request) (level : Nat) (source : Source.Input) : Answer :=
  let (result, warnings) := render source (Draft.ofOptions r.options) .none .none
  let log := if level ≤ warningLevel then warnings.map logLine else []
  match result with
  | .error f => { exit := 1, stderr := log ++ [failureLine f] }
  | .ok svg =>
    match r.output with
    | none | some [] => { exit := 0, stdout := svg ++ ['\n'], stderr := log }
    | some file => { exit := 0, stderr := log, file := some (file, svg) }

def answerFrom (r : Request) (level : Nat) (source : Source.Buffer) : Answer :=
  if r.input.isSome then answerWith r level (.stream (source.stream Source.chunkSize))
  else match source.decode with
    | .error e => { exit := 1, stderr := [failureLine (.malformed e)] }
    | .ok s => answerWith r level (.buffer (.text (Text.unifyLineEnds s)))

def answer (args : List Text) (setting : Option Text) (read : Option Text → Option Source.Buffer) :
    Answer :=
  match Request.ofArguments args with
  | none => misuse
  | some r =>
    if r.help then { exit := 0, stdout := helpText }
    else match read r.input with
      | none => misuse
      | some source => answerFrom r (logLevel setting r.verbose) source

end Yuml.CommandLine
