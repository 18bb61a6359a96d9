import Retarget.Degraded.Line
import Retarget.Program.Analysis
import Retarget.Text.Lines

/-!
# Settling a statement

What becomes of a statement whose rendering is refused: a line made from its bare text if that can
be had, and otherwise a comment in its place. A warning tells of either, so that a statement is
never dropped or degraded in silence.
-/

namespace Retarget.Render

def mayBeEmpty (settings : Settings) : Stmt → Bool
  | .comment _ => !settings.preserveComments
  | .block body => body.isEmpty
  | .sequence stmts => stmts.isEmpty
  | _ => false

/-- The bare text of a statement: its own, or the one that is handed along. -/
def sourceText (source : Option String) : Stmt → Option String
  | .unsupported _ text => some text
  | _ => source

/-- A line from the bare text of a statement, if there is such a text and it gives one. -/
def degradedLine (target : Target) (source : Option String) (stmt : Stmt) :
    Render (Option String) :=
  match sourceText source stmt with
  | some text => Degraded.line target text
  | none => pure none

/-- A line from the bare text of a statement, or a placeholder, with a warning that gives the
reason. -/
def degrade (target : Target) (source : Option String) (stmt : Stmt) (reason : String) :
    Render (List String) :=
  giveUp do
    match ← degradedLine target source stmt with
    | some text =>
      warn (reason ++ "; used degraded translation: " ++ text)
      oneLine text
    | none =>
      warn (reason ++ "; left a placeholder")
      oneLine (target.placeholder stmt.construct)

/-- The lines that an attempt gives, or what becomes of the statement otherwise. -/
def settle (target : Target) (source : Option String) (stmt : Stmt)
    (attempt : Attempt (List String)) : Render (List String) := do
  match ← attempt.run with
  | .ok lines =>
    if !lines.isEmpty || mayBeEmpty (← settings) stmt then return lines
    else degrade target source stmt (stmt.construct ++ " produced no output")
  | .error refusal => degrade target source stmt refusal.message

/-- The lines of a nested block, one level deeper and in a scope of its own. -/
def nested (body : Render (List String)) : Render (List String) :=
  indented (inScope body)

def commentText (mark text : String) : String :=
  if text.isEmpty then mark else mark ++ " " ++ text

def commentLines (mark text : String) : Render (List String) :=
  (Text.lines text).mapM fun part => line (commentText mark part)

def warnOpenCases (number : Nat) : List Case → Render Unit
  | [] | [_] => return
  | case :: rest => do
    if !endsWithJump case.body then
      warn ("switch case " ++ toString number ++ " falls through; the next case is not run")
    warnOpenCases (number + 1) rest

/-- Warn of what a switch loses when it becomes a chain of conditionals. -/
def warnFallthrough (cases : List Case) : Render Unit := do
  warnOpenCases 1 cases
  if cases.any fun case => blockBreaksOut (withoutFinalBreak case.body) then
    warn "`break` nested inside a switch case now applies to the enclosing loop"

end Retarget.Render

namespace Retarget

/-- A floating-point numeral with a digit on both sides of its point. Forms with an exponent and
hexadecimal ones stay as they are. -/
def decimalText (text : String) : String :=
  let small := Text.lower text
  if Text.beginsWith "0x" small || Text.contains "e" small then text
  else
    (if Text.beginsWith "." text then "0" else "") ++ text ++
      (if !Text.contains "." text then ".0" else if Text.endsIn "." text then "0" else "")

end Retarget
