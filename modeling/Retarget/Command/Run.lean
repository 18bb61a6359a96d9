import Retarget.Command.Arguments
import Retarget.Conversion.Basic
import Retarget.Json
import Retarget.Settings.File

/-!
# Running a command

What a command does, given the files it reads: it may write one file, and it reports by an exit
code and by texts for the two output streams.
-/

namespace Retarget

/-- Why a file cannot be read or written. -/
inductive FileProblem where
  | missing
  | notDirectory
  | isDirectory
  | nameTooLong
  | notText
  | other (report : String)
  deriving DecidableEq, Inhabited

def FileProblem.message : FileProblem → String
  | missing => "No such file or directory (os error 2)"
  | notDirectory => "Not a directory (os error 20)"
  | isDirectory => "Is a directory (os error 21)"
  | nameTooLong => "File name too long (os error 36)"
  | notText => "stream did not contain valid UTF-8"
  | other report => report

structure Inputs where
  file : String → Except FileProblem ByteArray
  stdin : ByteArray
  /-- The settings file of the user, below that of the working directory. -/
  userSettings : Option String
  tree : String → Tree

structure Report where
  exit : Nat := 0
  stdout : String := ""
  stderr : String := ""
  deriving DecidableEq, Inhabited

/-- What a run does: it writes a file if it has one to write, and then reports. -/
structure Action where
  write : Option (String × String) := none
  report : Option FileProblem → Report

namespace Command

def projectSettings : String := ".xlate/config.toml"

def textOf (content : Except FileProblem ByteArray) : Except FileProblem String := do
  match String.fromUTF8? (← content) with
  | some text => return text
  | none => .error .notText

def commonSettings (inputs : Inputs) : Settings :=
  Settings.ofContents ((inputs.userSettings.toList ++ [projectSettings]).map fun path =>
    (inputs.file path).toOption)

def fileSettings (inputs : Inputs) (path : String) : Except String Settings :=
  match textOf (inputs.file path) with
  | .error problem => .error ("failed to read " ++ path ++ ": " ++ problem.message)
  | .ok text =>
    match Settings.Layer.ofText text with
    | .error _ => .error ("invalid config " ++ path ++ ": no valid settings")
    | .ok layer => .ok (Settings.ofLayers [layer])

def settingsFor (inputs : Inputs) (request : ConversionRequest) : Except String Settings :=
  match request.settingsFile with
  | some path => fileSettings inputs path
  | none => .ok (commonSettings inputs)

def sourceFor (inputs : Inputs) (request : ConversionRequest) : Except String String :=
  let content := if request.input = "-" then .ok inputs.stdin else inputs.file request.input
  match textOf content with
  | .error problem => .error ("Failed to read " ++ request.input ++ ": " ++ problem.message)
  | .ok text => .ok text

def outcomeJson (outcome : Outcome) : Json :=
  .object ([("success", .bool outcome.success), ("code", .string outcome.code),
    ("warnings", .list (outcome.warnings.map .string))] ++
    (outcome.error?.map fun error => ("error", Json.string error)).toList)

def outcomeText (request : ConversionRequest) (outcome : Outcome) : String :=
  if request.json then (outcomeJson outcome).pretty "" ++ "\n" else outcome.code

def outcomeReport (outcome : Outcome) (stdout stderr : String) : Report :=
  { exit := if outcome.success then 0 else 1
    stdout
    stderr := stderr ++ ((outcome.error?.map fun error => "error: " ++ error ++ "\n").getD "") }

def deliver (request : ConversionRequest) (outcome : Outcome) : Action :=
  let text := outcomeText request outcome
  match request.output with
  | none => { report := fun _ => outcomeReport outcome text "" }
  | some path =>
    { write := some (path, text)
      report := fun
        | some problem =>
          { exit := 1, stderr := "Failed to write " ++ path ++ ": " ++ problem.message ++ "\n" }
        | none => outcomeReport outcome "" ("Generated " ++ path ++ "\n") }

def say (report : Report) : Action :=
  { report := fun _ => report }

def complain (message : String) : Action :=
  say { exit := 1, stderr := message ++ "\n" }

def runConversion (inputs : Inputs) (request : ConversionRequest) : Action :=
  match settingsFor inputs request with
  | .error message => complain message
  | .ok settings =>
    match sourceFor inputs request with
    | .error message => complain message
    | .ok source =>
      deliver request (Retarget.convert settings request.target source (inputs.tree source))

def targetsText : String :=
  Text.join "" (Target.all.map fun target => target.name ++ "\t." ++ target.extension ++ "\n")

def versionText : String := "xlate 0.1.0\n"

def helpLines : HelpTopic → List String
  | .program =>
    ["Translate Java programs into C or Python", "", "Usage: xlate <COMMAND>", "", "Commands:",
      "  translate  Translate a Java source file",
      "  targets    List available target languages",
      "  help       Print this message or the help of the given subcommand(s)", "", "Options:",
      "  -h, --help     Print help", "  -V, --version  Print version"]
  | .conversion =>
    ["Translate a Java source file", "",
      "Usage: xlate translate [OPTIONS] --to <TO> <INPUT>", "", "Arguments:",
      "  <INPUT>  Java source file, or `-` for stdin", "", "Options:",
      "  -t, --to <TO>          Target language: c, python",
      "  -o, --output <OUTPUT>  Output file (stdout if not specified)",
      "      --json             Print the full result as JSON",
      "      --config <CONFIG>  Config file (defaults to global and .xlate/config.toml)",
      "  -h, --help             Print help"]
  | .targets =>
    ["List available target languages", "", "Usage: xlate targets", "", "Options:",
      "  -h, --help  Print help"]

def helpText (topic : HelpTopic) : String :=
  Text.join "" ((helpLines topic).map (· ++ "\n"))

def reads (userSettings : Option String) : Command → List String
  | convert request =>
    request.input ::
      match request.settingsFile with
      | some path => [path]
      | none => userSettings.toList ++ [projectSettings]
  | _ => []

def run (inputs : Inputs) : Command → Action
  | convert request => runConversion inputs request
  | targets => say { stdout := targetsText }
  | version => say { stdout := versionText }
  | help topic => say { stdout := helpText topic }

def usageReport : Report :=
  { exit := 2, stderr := "error: unexpected arguments\n\nFor more information, try '--help'.\n" }

def runArguments (inputs : Inputs) (arguments : List String) : Action :=
  match ofArguments arguments with
  | some command => run inputs command
  | none => say usageReport

end Command

end Retarget
