import Retarget.Command.Run
import Retarget.Tree.OutlineText

/-!
# The command line

Reads the files that a call asks for, runs it, and writes what comes of it. The syntax tree of a
source file is read from its outline, a file of the same name with `.outline` appended.
-/

namespace Retarget.Shell

def problemOf : IO.Error → FileProblem
  | .noFileOrDirectory .. => .missing
  | .inappropriateType _ 20 _ => .notDirectory
  | .inappropriateType _ 21 _ => .isDirectory
  | .invalidArgument _ 36 _ => .nameTooLong
  | error => .other (toString error)

def readFile (path : String) : IO (Except FileProblem ByteArray) := do
  try
    return .ok (← IO.FS.readBinFile path)
  catch error =>
    return .error (problemOf error)

def writeFile (path text : String) : IO (Option FileProblem) := do
  try
    IO.FS.writeFile path text
    return none
  catch error =>
    return some (problemOf error)

partial def readAll (stream : IO.FS.Stream) (content : ByteArray) : IO ByteArray := do
  let chunk ← stream.read 65536
  if chunk.isEmpty then return content else readAll stream (content ++ chunk)

def userSettings : IO (Option String) := do
  match ← IO.getEnv "XDG_CONFIG_HOME" with
  | some directory => return some (directory ++ "/xlate/config.toml")
  | none => return (← IO.getEnv "HOME").map (· ++ "/.config/xlate/config.toml")

def contents (userSettings : Option String) (command : Command) :
    IO (List (String × Except FileProblem ByteArray)) :=
  (command.reads userSettings).mapM fun path => return (path, ← readFile path)

def outlineText : Command → IO String
  | .convert request => do
    match Command.textOf (← readFile (request.input ++ ".outline")) with
    | .ok text => return text
    | .error _ => return ""
  | _ => return ""

def readsStdin : Command → Bool
  | .convert request => request.input = "-"
  | _ => false

def run (command : Command) : IO Report := do
  let settings ← userSettings
  let files ← contents settings command
  let outline ← outlineText command
  let stdin ← if readsStdin command then readAll (← IO.getStdin) .empty else pure .empty
  let inputs : Inputs :=
    { file := fun path => (files.lookup path).getD (.error .missing)
      stdin
      userSettings := settings
      tree := fun source => (Tree.ofOutlineText? outline source).getD default }
  let action := command.run inputs
  match action.write with
  | none => return action.report none
  | some (path, text) => return action.report (← writeFile path text)

end Retarget.Shell

open Retarget in
def main (arguments : List String) : IO UInt32 := do
  let report ← match Command.ofArguments arguments with
    | some command => Shell.run command
    | none => pure Command.usageReport
  IO.print report.stdout
  IO.eprint report.stderr
  return report.exit.toUInt32
