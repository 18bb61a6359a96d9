import Retarget.Render.CDeclaration

/-!
# C statements

The lines of a statement in C. Nested blocks stand between braces, one level deeper and in a scope
of their own. A switch on a string becomes a chain of comparisons.
-/

namespace Retarget.C

open Text

def commentLines (comment : Comment) : Render (List String) := do
  if !(← Render.settings).preserveComments then return []
  match lines comment.text with
  | [] => Render.oneLine "//"
  | [single] =>
    if comment.isBlock then Render.oneLine ("/* " ++ single ++ " */")
    else Render.commentLines "//" comment.text
  | many =>
    if comment.isBlock then
      let first ← Render.line "/*"
      let middle ← many.mapM fun part => Render.line (Render.commentText " *" part)
      let last ← Render.line " */"
      return first :: middle ++ [last]
    else Render.commentLines "//" comment.text

def braced (header : String) (body : Render (List String)) : Render (List String) := do
  let first ← Render.line header
  let inside ← Render.nested body
  let last ← Render.line "\x7d"
  return first :: inside ++ [last]

/-- The clauses of a `for` header that begins with several declarations or expressions. The type
of declarations is written once; `declared` says that it was. -/
def initClauses (declared : Bool) : List Stmt → Attempt (List String)
  | [] => return []
  | .declare name type init :: rest => do
    let written ← typeName type
    let text ← declarator name type init
    let clause := if declared then (afterStart? (written ++ " ") text).getD text else text
    let others ← initClauses true rest
    return clause :: others
  | .expr e :: rest => do
    if declared then Attempt.invalid "for" "initializer mixes declarations and expressions"
    else
      let clause ← expr e
      let others ← initClauses false rest
      return clause :: others
  | _ :: _ => Attempt.invalid "for" "initializer mixes declarations and expressions"

def initClause : Option Stmt → Attempt String
  | none => return ""
  | some (.declare name type init) => declarator name type init
  | some (.expr e) => expr e
  | some (.sequence stmts) => do return join ", " (← initClauses false stmts)
  | some other => Attempt.invalid "for" (other.construct ++ " in loop initializer")

def conditionClause : Option Expr → Attempt String
  | none => return ""
  | some e => do return " " ++ (← expr e)

def forLines (init : Option Stmt) (condition : Option Expr) (update : List Expr)
    (body : Render (List String)) : Attempt (List String) :=
  Attempt.inScope do
    let init ← initClause init
    let condition ← conditionClause condition
    let update ← exprs update
    let update := if update.isEmpty then "" else " " ++ join ", " update
    braced ("for (" ++ init ++ ";" ++ condition ++ ";" ++ update ++ ") \x7b") body

/-- Declare the index of a loop over an array; it differs from the loop's own variable. -/
def declareIndex (name : String) : Render String := do
  let index ← Render.declareFresh "i" .int
  if index = name then Render.declareFresh "i" .int else return index

/-- The line that binds the element of a loop over `source`, written `array`. The rows of an array
of more dimensions are bound through a pointer. -/
def bindElement (source : Symbol) (type : ValueType) (name array index : String) :
    Attempt String := do
  let written ← typeName type
  let element := array ++ "[" ++ index ++ "]"
  if source.dimensions > 1 then
    let measured := source.aliasOf.getD array ++ "[0]"
    let target ← declareArray name type (source.dimensions - 1) none (pointerTo written)
      (some measured)
    Render.line (pointerDeclarator written target ++ " = " ++ element ++ ";")
  else
    let target ← declareScalar name type written
    Render.line (written ++ " " ++ target ++ " = " ++ element ++ ";")

/-- The lines of a loop over an array: an index loop whose body first binds the element. -/
def forEachLines (type : ValueType) (name : String) (iterable : Expr)
    (body : Render (List String)) : Attempt (List String) := do
  let symbol := iterable.ident?.bind (← Render.symbols).lookup
  match symbol.filter Symbol.isArray with
  | none => Attempt.unsupported "for-each over a non-array value"
  | some source =>
    let array ← expr iterable
    let count ← length iterable
    Attempt.inScope do
      let index ← declareIndex name
      let binding ← Attempt.indented (bindElement source type name array index)
      let header ← Render.line ("for (int " ++ index ++ " = 0; " ++ index ++ " < " ++ count ++
        "; " ++ index ++ "++) \x7b")
      let inside ← Render.nested body
      let close ← Render.line "\x7d"
      return header :: binding :: inside ++ [close]

def doWhileLines (condition : Expr) (body : Render (List String)) : Attempt (List String) := do
  let first ← Render.line "do \x7b"
  let inside ← Render.nested body
  let text ← expr condition
  let last ← Render.line ("\x7d while (" ++ text ++ ");")
  return first :: inside ++ [last]

def labelText : SwitchLabel → Attempt String
  | .value e => do return "case " ++ (← expr e) ++ ":"
  | .default => return "default:"

/-- Whether a statement is a declaration, which cannot follow a label directly. -/
def isDeclaration : Stmt → Bool
  | .declare .. | .declareArray .. | .sequence _ => true
  | _ => false

def labelLines (opensBrace : Bool) : List String → Render (List String)
  | [] => return []
  | [label] => Render.oneLine (if opensBrace then label ++ " \x7b" else label)
  | label :: rest => do
    let first ← Render.line label
    let others ← labelLines opensBrace rest
    return first :: others

def labelledLines (labels : List String) (declares : Bool) (body : Render (List String)) :
    Render (List String) :=
  Render.indented do
    let first ← labelLines declares labels
    let inside ← Render.nested body
    let close ← if declares then Render.oneLine "\x7d" else pure []
    return first ++ inside ++ close

def caseLines (labels : List SwitchLabel) (declares : Bool) (body : Render (List String)) :
    Attempt (List String) := do
  labelledLines (← labels.mapM labelText) declares body

def stringTest (discriminant : String) (label : Expr) : Attempt String := do
  return "strcmp(" ++ discriminant ++ ", " ++ (← expr label) ++ ") == 0"

def linkLines (isFirst : Bool) (discriminant : String) (labels : List Expr)
    (body : Render (List String)) : Attempt (List String) := do
  let tests ← labels.mapM (stringTest discriminant)
  let keyword := if isFirst then "if" else "\x7d else if"
  let header ← Render.line (keyword ++ " (" ++ join " || " tests ++ ") \x7b")
  let inside ← Render.nested body
  return header :: inside

def chainEnd (chain : List String) (fallback : Option (Render (List String))) :
    Render (List String) := do
  match fallback with
  | some body =>
    let header ← Render.line (if chain.isEmpty then "\x7b" else "\x7d else \x7b")
    let inside ← Render.nested body
    let close ← Render.line "\x7d"
    return chain ++ header :: inside ++ [close]
  | none =>
    if chain.isEmpty then return []
    else return chain ++ [← Render.line "\x7d"]

mutual

def stmt : Stmt → Attempt (List String)
  | .declare name type init => declareVariable name type init
  | .declareArray name element dimensions init => declareArrayOf name element dimensions init
  | .expr e => do Render.oneLine ((← expr e) ++ ";")
  | .print p => do Render.oneLine (← print p)
  | .conditional condition body elifs otherwise => do
    let test ← expr condition
    let header ← Render.line ("if (" ++ test ++ ") \x7b")
    let inside ← Render.nested (stmts body)
    let middle ← branches elifs
    let rest ← match otherwise with
      | none => pure []
      | some block => do
        let header ← Render.line "\x7d else \x7b"
        let inside ← Render.nested (stmts block)
        pure (header :: inside)
    let close ← Render.line "\x7d"
    return header :: inside ++ middle ++ rest ++ [close]
  | .switch discriminant cases => do
    if (← Render.symbols).typeOf discriminant = .string then
      Render.warnFallthrough cases
      Render.require .string
      let text ← expr discriminant
      let chain ← links true text cases
      chainEnd chain (defaultBody cases)
    else
      let text ← expr discriminant
      let header ← Render.line ("switch (" ++ text ++ ") \x7b")
      let inside ← nativeCases cases
      let close ← Render.line "\x7d"
      return header :: inside ++ [close]
  | .forLoop init condition update body => forLines init condition update (stmts body)
  | .whileLoop condition body => do
    let test ← expr condition
    braced ("while (" ++ test ++ ") \x7b") (stmts body)
  | .doWhile condition body => doWhileLines condition (stmts body)
  | .forEach type name iterable body => forEachLines type name iterable (stmts body)
  | .breakStmt => Render.oneLine "break;"
  | .continueStmt => Render.oneLine "continue;"
  | .returnStmt value => do
    if value.isSome then Render.warn "return value dropped: main returns 0"
    Render.oneLine "return 0;"
  | .comment comment => commentLines comment
  | .block body => braced "\x7b" (stmts body)
  | .sequence parts => stmts parts
  | .unsupported kind _ => Attempt.unsupported kind

/-- The C lines of statements in order, each settled on its own. -/
def stmts : List Stmt → Render (List String)
  | [] => return []
  | s :: rest => do
    let first ← Render.settle .c none s (stmt s)
    let others ← stmts rest
    return first ++ others

/-- The C lines of statements in order without a `break` at the end. -/
def stmtsOfCase : List Stmt → Render (List String)
  | [] => return []
  | s :: rest =>
    if rest.isEmpty && s.isBreak then return []
    else do
      let first ← Render.settle .c none s (stmt s)
      let others ← stmtsOfCase rest
      return first ++ others

def branches : List Branch → Attempt (List String)
  | [] => return []
  | .mk condition body :: rest => do
    let test ← expr condition
    let header ← Render.line ("\x7d else if (" ++ test ++ ") \x7b")
    let inside ← Render.nested (stmts body)
    let others ← branches rest
    return header :: inside ++ others

def nativeCases : List Case → Attempt (List String)
  | [] => return []
  | .mk labels body :: rest => do
    let first ← caseLines labels (body.any isDeclaration) (stmts body)
    let others ← nativeCases rest
    return first ++ others

/-- The links of a chain of comparisons for the cases without a default label. -/
def links (isFirst : Bool) (discriminant : String) : List Case → Attempt (List String)
  | [] => return []
  | .mk labels body :: rest => do
    if labels.any SwitchLabel.isDefault then links isFirst discriminant rest
    else
      let first ← linkLines isFirst discriminant (labels.filterMap SwitchLabel.expr?)
        (stmtsOfCase body)
      let others ← links false discriminant rest
      return first ++ others

def defaultBody : List Case → Option (Render (List String))
  | [] => none
  | .mk labels body :: rest =>
    match defaultBody rest with
    | some later => some later
    | none => if labels.any SwitchLabel.isDefault then some (stmtsOfCase body) else none

end

def headerName : Capability → String
  | .bool => "stdbool.h"
  | .math => "math.h"
  | .stdlib => "stdlib.h"
  | .string => "string.h"
  | .limits => "limits.h"

def includeLine (header : String) : String :=
  "#include <" ++ header ++ ">"

/-- A C program with the given body: its headers, and `main` around the body if that is wanted. -/
def assemble (cx : Context) (body : List String) : Except Fault String := do
  let headers := includeLine "stdio.h" ::
    cx.capabilities.toList.map fun capability => includeLine (headerName capability)
  let program ←
    if cx.settings.emitMainWrapper then do
      let unit ← spaces cx.settings.indentWidth
      pure ("int main() \x7b" :: body ++ [unit ++ "return 0;", "\x7d"])
    else pure body
  return join "\n" (headers ++ "" :: program) ++ "\n"

end Retarget.C
