import Retarget.Command.Place
import Retarget.Command.Run

/-!
# Workspaces

A working directory held in memory: files by their places. Directories are those on the way to a
file. Outside the working directory only what every system has is known: the root and the common
directories in it, the directories around the working directory, and the devices of a process. A
run of a command reads from a workspace and leaves another one.
-/

namespace Retarget

inductive Device where
  | null
  | stdin
  | stdout
  | stderr
  deriving DecidableEq, Inhabited

namespace Device

def name : Device → String
  | null => "null"
  | stdin => "stdin"
  | stdout => "stdout"
  | stderr => "stderr"

def at? (place : Place) : Option Device :=
  [null, stdin, stdout, stderr].find? fun device =>
    place = { anchor := .root, names := ["dev", device.name] }

def withText (device : Device) (text : String) (report : Report) : Report :=
  match device with
  | stdout => { report with stdout := text ++ report.stdout }
  | stderr => { report with stderr := text ++ report.stderr }
  | null | stdin => report

end Device

/-- The files of a working directory, and the files put beside it. -/
structure Workspace where
  files : List (Place × ByteArray) := []

namespace Workspace

def fileAt? (workspace : Workspace) (place : Place) : Option ByteArray :=
  (workspace.files.find? fun file => file.1 = place).map (·.2)

def commonDirectories : List String :=
  ["bin", "boot", "dev", "etc", "home", "lib", "media", "mnt", "opt", "proc", "run", "sbin",
    "srv", "sys", "tmp", "usr", "var"]

def isCommonDirectory (place : Place) : Bool :=
  commonDirectories.any fun name => place = Place.root.child name

def isDirectory (workspace : Workspace) (place : Place) : Bool :=
  place.names.isEmpty || isCommonDirectory place ||
    workspace.files.any fun file => file.1.isWithin place

inductive Entry where
  | directory (place : Place)
  | file (place : Place)
  | device (device : Device)
  | free (place : Place)
  deriving DecidableEq, Inhabited

def entryAt (workspace : Workspace) (place : Place) : Entry :=
  if workspace.isDirectory place then .directory place
  else
    match Device.at? place with
    | some device => .device device
    | none => if (workspace.fileAt? place).isSome then .file place else .free place

def step (workspace : Workspace) (directory : Place) (name : String) :
    Except FileProblem Entry :=
  if name.utf8ByteSize > Path.maxNameSize then .error .nameTooLong
  else .ok (workspace.entryAt (directory.step name))

def follow (workspace : Workspace) (directory : Place) :
    List String → Except FileProblem Entry
  | [] => .ok (.directory directory)
  | [name] => workspace.step directory name
  | name :: next :: rest => do
    match ← workspace.step directory name with
    | .directory place => workspace.follow place (next :: rest)
    | .file _ | .device _ => .error .notDirectory
    | .free _ => .error .missing

def pathOf (text : String) : Except FileProblem Path :=
  if text.isEmpty then .error .missing
  else if text.utf8ByteSize > Path.maxSize then .error .nameTooLong
  else .ok (Path.ofText text)

/-- What a path leads to for reading. A slash at the end asks for a directory, as a dot after it
would. -/
def source (workspace : Workspace) (path : Path) : Except FileProblem Entry :=
  workspace.follow path.start (path.steps ++ if path.endsInSlash then ["."] else [])

/-- What a path leads to for writing. A path with a slash at the end names a directory, whatever
there is, once the directories on the way are there. -/
def destination (workspace : Workspace) (path : Path) : Except FileProblem Entry :=
  if path.endsInSlash then do
    let _ ← workspace.follow path.start (path.steps.dropLast ++ ["."])
    return .directory path.place
  else workspace.follow path.start path.steps

/-- The content of a file. What can be read of a device other than the standard input is
nothing. -/
def read (workspace : Workspace) (stdin : ByteArray) (path : String) :
    Except FileProblem ByteArray := do
  match ← workspace.source (← pathOf path) with
  | .file place =>
    match workspace.fileAt? place with
    | some content => return content
    | none => .error .missing
  | .device .stdin => return stdin
  | .device _ => return .empty
  | .directory _ => .error .isDirectory
  | .free _ => .error .missing

def put (workspace : Workspace) (place : Place) (content : ByteArray) : Workspace :=
  { files := workspace.files.filter (fun file => file.1 != place) ++ [(place, content)] }

def ofFiles (files : List (String × ByteArray)) : Workspace :=
  files.foldl (fun workspace file => workspace.put (Path.ofText file.1).place file.2) {}

def write (workspace : Workspace) (path text : String) (report : Option FileProblem → Report) :
    Report × Workspace :=
  match (pathOf path).bind workspace.destination with
  | .ok (.file place) | .ok (.free place) => (report none, workspace.put place text.toUTF8)
  | .ok (.device device) => (device.withText text (report none), workspace)
  | .ok (.directory _) => (report (some .isDirectory), workspace)
  | .error problem => (report (some problem), workspace)

/-- Run a call in a workspace, with the trees of source texts given. -/
def run (workspace : Workspace) (stdin : ByteArray) (tree : String → Tree)
    (arguments : List String) : Report × Workspace :=
  let inputs := { file := workspace.read stdin, stdin, userSettings := none, tree }
  let action := Command.runArguments inputs arguments
  match action.write with
  | none => (action.report none, workspace)
  | some (path, text) => workspace.write path text action.report

end Workspace

end Retarget
