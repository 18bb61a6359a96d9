import Retarget.Render.PythonPrint
import Retarget.Render.PythonDeclaration
import Retarget.Render.PythonLoop

/-!
# Python statements

The lines of a statement in Python. A header line ends in a colon and its block stands one level
deeper; a block that holds no statement gets a `pass`. A switch becomes a chain of conditionals.
-/

namespace Retarget.Python

open Text

def commentLines (comment : Comment) : Render (List String) := do
  if !(← Render.settings).preserveComments then return []
  if comment.text.isEmpty then Render.oneLine "#" else Render.commentLines "#" comment.text

def isSilent (line : String) : Bool :=
  match line.toList.dropWhile isBlank with
  | [] => true
  | c :: _ => c = '#'

/-- The lines of a block, with a `pass` one level deeper if they hold no statement. -/
def withPass (lines : List String) : Render (List String) := do
  if lines.all isSilent then return lines ++ (← Render.indented (Render.oneLine "pass"))
  else return lines

def suite (header : String) (body : Render (List String)) : Render (List String) := do
  let first ← Render.line header
  let inside ← Render.nested body
  return first :: (← withPass inside)

/-- The lines of a bare block: its statements at the same level, in a scope of their own. -/
def flattened (body : Render (List String)) : Render (List String) :=
  Render.inScope body

def rangeLines (loop : Counting) (body : Render (List String)) : Attempt (List String) := do
  let args ← rangeArgs loop
  Attempt.inScope do
    let name ← declareScalar loop.name loop.type
    suite ("for " ++ name ++ " in range(" ++ args ++ "):") body

def updateLines : List Expr → Attempt (List String)
  | [] => return []
  | update :: rest => do
    let first ← Render.line (← exprStatement update)
    let others ← updateLines rest
    return first :: others

def bodyWithUpdates (inside : List String) (update : List Expr) : Attempt (List String) :=
  Attempt.indented do
    let lines := inside ++ (← updateLines update)
    if lines.all isSilent then return lines ++ (← Render.oneLine "pass") else return lines

def loopTest : Option Expr → Attempt String
  | some e => expr e
  | none => return "True"

def whileLines (init : Render (List String)) (condition : Option Expr) (update : List Expr)
    (body : Render (List String)) : Attempt (List String) :=
  Attempt.inScope do
    let first ← init
    let test ← loopTest condition
    let header ← Render.line ("while " ++ test ++ ":")
    let inside ← Render.nested body
    let inside ← bodyWithUpdates inside update
    return first ++ header :: inside

def forLines (init : Option Stmt) (condition : Option Expr) (update : List Expr)
    (block : List Stmt) (first body : Render (List String)) : Attempt (List String) := do
  match ← Attempt.ofExcept (counting? init condition update block) with
  | some loop => rangeLines loop body
  | none =>
    if !update.isEmpty && blockHasOwnContinue block then
      Render.warn "`continue` in a for loop rewritten as while skips the loop update"
    whileLines first condition update body

/-- The lines of a loop over an array. The rows of an array of more dimensions are arrays. -/
def forEachLines (type : ValueType) (name : String) (iterable : Expr)
    (body : Render (List String)) : Attempt (List String) := do
  let symbol := iterable.ident?.bind (← Render.symbols).lookup
  let dimensions := ((symbol.filter Symbol.isArray).map Symbol.dimensions).getD 0
  let text ← expr iterable
  Attempt.inScope do
    let target ← if dimensions > 1 then declareArray name type (dimensions - 1) none
      else declareScalar name type
    suite ("for " ++ target ++ " in " ++ text ++ ":") body

def doWhileLines (condition : Expr) (hasContinue : Bool) (body : Render (List String)) :
    Attempt (List String) := do
  if hasContinue then
    Render.warn "`continue` in a do-while body now skips the loop condition"
  let test ← exitTest condition
  let header ← Render.line "while True:"
  let inside ← Render.nested body
  let tail ← Attempt.indented do
    let exit ← Render.line ("if " ++ test ++ ":")
    let leave ← Attempt.indented (Render.line "break")
    return [exit, leave]
  return header :: inside ++ tail

def labelTest (discriminant : String) (label : Expr) : Attempt String := do
  return discriminant ++ " == " ++ (← operand label)

def linkLines (isFirst : Bool) (discriminant : String) (labels : List Expr)
    (body : Render (List String)) : Attempt (List String) := do
  let tests ← labels.mapM (labelTest discriminant)
  let keyword := if isFirst then "if" else "elif"
  suite (keyword ++ " " ++ join " or " tests ++ ":") body

def chainEnd (chain : List String) (body : Render (List String)) : Render (List String) := do
  return chain ++ (← suite (if chain.isEmpty then "if True:" else "else:") body)

mutual

def stmt : Stmt → Attempt (List String)
  | .declare name type init => do Render.oneLine (← declareVariable name type init)
  | .declareArray name element dimensions init => do
    Render.oneLine (← declareArrayOf name element dimensions init)
  | .expr e => do Render.oneLine (← exprStatement e)
  | .print p => do Render.oneLine (← print p)
  | .conditional condition body elifs otherwise => do
    let test ← expr condition
    let first ← suite ("if " ++ test ++ ":") (stmts body)
    let middle ← branches elifs
    let rest ← match otherwise with
      | none => pure []
      | some block => suite "else:" (stmts block)
    return first ++ middle ++ rest
  | .switch discriminant cases => do
    Render.warnFallthrough cases
    let text ← operand discriminant
    let chain ← links true text cases
    chainEnd chain ((defaultBody cases).getD (return []))
  | .forLoop init condition update body =>
    let first := match init with
      | some s => Render.settle .python none s (stmt s)
      | none => return []
    forLines init condition update body first (stmts body)
  | .whileLoop condition body => do
    let test ← expr condition
    suite ("while " ++ test ++ ":") (stmts body)
  | .doWhile condition body => doWhileLines condition (blockHasOwnContinue body) (stmts body)
  | .forEach type name iterable body => forEachLines type name iterable (stmts body)
  | .breakStmt => Render.oneLine "break"
  | .continueStmt => Render.oneLine "continue"
  | .returnStmt value => do
    if value.isSome then Render.warn "return value dropped: the script exits instead"
    Render.oneLine "raise SystemExit"
  | .comment comment => commentLines comment
  | .block body => flattened (stmts body)
  | .sequence parts => stmts parts
  | .unsupported kind _ => Attempt.unsupported kind

/-- The Python lines of statements in order, each settled on its own. -/
def stmts : List Stmt → Render (List String)
  | [] => return []
  | s :: rest => do
    let first ← Render.settle .python none s (stmt s)
    let others ← stmts rest
    return first ++ others

/-- The Python lines of statements in order without a `break` at the end. -/
def stmtsOfCase : List Stmt → Render (List String)
  | [] => return []
  | s :: rest =>
    if rest.isEmpty && s.isBreak then return []
    else do
      let first ← Render.settle .python none s (stmt s)
      let others ← stmtsOfCase rest
      return first ++ others

def branches : List Branch → Attempt (List String)
  | [] => return []
  | .mk condition body :: rest => do
    let test ← expr condition
    let first ← suite ("elif " ++ test ++ ":") (stmts body)
    let others ← branches rest
    return first ++ others

/-- The links of the chain that a switch becomes, for the cases without a default label. -/
def links (isFirst : Bool) (discriminant : String) : List Case → Attempt (List String)
  | [] => return []
  | .mk labels body :: rest => do
    if labels.any SwitchLabel.isDefault then links isFirst discriminant rest
    else
      let first ← linkLines isFirst discriminant (labels.filterMap SwitchLabel.expr?)
        (stmtsOfCase body)
      let others ← links false discriminant rest
      return first ++ others

def defaultBody : List Case → Option (Render (List String))
  | [] => none
  | .mk labels body :: rest =>
    match defaultBody rest with
    | some later => some later
    | none => if labels.any SwitchLabel.isDefault then some (stmtsOfCase body) else none

end

def moduleName? : Capability → Option String
  | .math => some "math"
  | .stdlib => some "random"
  | .bool | .string | .limits => none

/-- A Python program with the given body, after its imports. -/
def assemble (cx : Context) (body : List String) : String :=
  let imports := (cx.capabilities.toList.filterMap moduleName?).map ("import " ++ ·)
  let head := if imports.isEmpty then [] else imports ++ [""]
  join "\n" (head ++ body) ++ "\n"

end Retarget.Python
