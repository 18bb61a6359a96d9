import Retarget.Target

/-!
# Command-line arguments

What the arguments of a call ask for. Options have a long name and may have a letter; the value of
an option is attached to it or is the next argument. After `--` all arguments are operands.
-/

namespace Retarget

inductive ConversionOption where
  | target
  | output
  | json
  | settings
  | help
  deriving DecidableEq, Inhabited

namespace ConversionOption

def all : List ConversionOption := [target, output, json, settings, help]

def long : ConversionOption → String
  | target => "to"
  | output => "output"
  | json => "json"
  | settings => "config"
  | help => "help"

def letter? : ConversionOption → Option Char
  | target => some 't'
  | output => some 'o'
  | help => some 'h'
  | json | settings => none

def takesValue : ConversionOption → Bool
  | target | output | settings => true
  | json | help => false

def ofLong? (name : List Char) : Option ConversionOption :=
  all.find? fun option => option.long.toList = name

def ofLetter? (letter : Char) : Option ConversionOption :=
  all.find? fun option => option.letter? = some letter

end ConversionOption

structure ConversionRequest where
  /-- The source file; a dash stands for the standard input. -/
  input : String
  target : Target
  output : Option String := none
  json : Bool := false
  settingsFile : Option String := none
  deriving DecidableEq, Inhabited

/-- The parts of the command line that help is given on. -/
inductive HelpTopic where
  | program
  | conversion
  | targets
  deriving DecidableEq, Inhabited

inductive Command where
  | convert (request : ConversionRequest)
  | targets
  | version
  | help (topic : HelpTopic)
  deriving DecidableEq, Inhabited

namespace Command

inductive Part where
  | operand (text : String)
  | option (option : ConversionOption) (value : Option String)
  deriving DecidableEq, Inhabited

/-- Whether an argument looks like an option or is `--`; a lone dash does not. -/
def isDashed (arg : String) : Bool :=
  Text.beginsWith "-" arg && arg != "-"

/-- The name before the first equals sign and the value after it. -/
def splitEquals (cs : List Char) : List Char × Option String :=
  match cs.span (· != '=') with
  | (name, []) => (name, none)
  | (name, _ :: value) => (name, some (String.ofList value))

/-- The value attached to a letter, with an equals sign or without. -/
def attached : List Char → Option String
  | [] => none
  | '=' :: cs => some (String.ofList cs)
  | cs => some (String.ofList cs)

def optionOf? (arg : String) : Option (ConversionOption × Option String) :=
  match arg.toList with
  | '-' :: '-' :: cs =>
    let (name, value) := splitEquals cs
    (ConversionOption.ofLong? name).map (·, value)
  | '-' :: letter :: cs =>
    (ConversionOption.ofLetter? letter).map fun option =>
      (option, if option.takesValue then attached cs else none)
  | _ => none

/-- The parts of arguments; `none` stands for a part that is none, and nothing follows it. -/
def parts : List String → List (Option Part)
  | [] => []
  | arg :: rest =>
    if arg = "--" then rest.map fun text => some (.operand text)
    else if !isDashed arg then some (.operand arg) :: parts rest
    else
      match optionOf? arg with
      | none => [none]
      | some (option, value) =>
        if !option.takesValue then
          if value.isSome then [none] else some (.option option none) :: parts rest
        else if value.isSome then some (.option option value) :: parts rest
        else
          match rest with
          | [] => [none]
          | next :: rest =>
            if isDashed next then [none] else some (.option option (some next)) :: parts rest

/-- The parts of a conversion's arguments seen so far. -/
structure Draft where
  input : Option String := none
  target : Option Target := none
  output : Option String := none
  json : Bool := false
  settingsFile : Option String := none
  deriving DecidableEq, Inhabited

namespace Draft

def path (place : Option String) (text : String) : Option String :=
  if place.isSome || text.isEmpty then none else some text

def add (draft : Draft) : Part → Option Draft
  | .operand text => (path draft.input text).map fun input => { draft with input := some input }
  | .option .output value =>
    (path draft.output (value.getD "")).map fun output => { draft with output := some output }
  | .option .settings value =>
    (path draft.settingsFile (value.getD "")).map fun file =>
      { draft with settingsFile := some file }
  | .option .target value =>
    if draft.target.isSome then none
    else (Target.ofName? (value.getD "")).map fun target => { draft with target := some target }
  | .option .json _ => if draft.json then none else some { draft with json := true }
  | .option .help _ => none

def request? (draft : Draft) : Option ConversionRequest := do
  let input ← draft.input
  let target ← draft.target
  return { input, target, output := draft.output, json := draft.json,
           settingsFile := draft.settingsFile }

end Draft

/-- The command of a conversion's arguments. Help that is asked for before any mistake is given. -/
def ofParts (draft : Draft) : List (Option Part) → Option Command
  | [] => draft.request?.map convert
  | none :: _ => none
  | some (.option .help _) :: _ => some (help .conversion)
  | some part :: rest =>
    match draft.add part with
    | some draft => ofParts draft rest
    | none => none

/-- Whether an argument asks for help: the long name, or the letter in front of others. -/
def asksHelp (arg : String) : Bool :=
  arg = "--help" || Text.beginsWith "-h" arg

def ofTargetsArguments : List String → Option Command
  | [] | ["--"] => some targets
  | arg :: _ => if asksHelp arg then some (help .targets) else none

def ofHelpArguments : List String → Option Command
  | [] | ["help"] => some (help .program)
  | ["translate"] => some (help .conversion)
  | ["targets"] => some (help .targets)
  | _ => none

def ofArguments : List String → Option Command
  | [] => none
  | "translate" :: rest => ofParts {} (parts rest)
  | "targets" :: rest => ofTargetsArguments rest
  | "help" :: rest => ofHelpArguments rest
  | arg :: _ =>
    if asksHelp arg then some (help .program)
    else if arg = "--version" || Text.beginsWith "-V" arg then some version
    else none

end Command

end Retarget
