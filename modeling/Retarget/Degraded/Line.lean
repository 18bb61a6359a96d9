import Retarget.Degraded.Value
import Retarget.Render.CType
import Retarget.Scope.Naming

/-!
# Degraded lines

A statement that has no rendering of its own may still come out as a line made from its bare text.
In C a string passes only as a whole literal, since anything else would be pointer arithmetic.
-/

namespace Retarget.Degraded

open Text

def isQuoted (value : String) : Bool :=
  beginsWith "\"" (trimStart value)

def mentionsString (table : SymbolTable) (value : String) : Bool :=
  !isQuoted value && (names value).any table.isStringScalar

def spellInC (table : SymbolTable) (name : String) : String :=
  if name = "null" then "NULL" else table.targetName name

def spellInPython (table : SymbolTable) (name : String) : String :=
  match name with
  | "true" => "True"
  | "false" => "False"
  | "null" => "None"
  | _ => table.targetName name

def pythonDefault : ValueType → String
  | .float | .double => "0.0"
  | .boolean => "False"
  | .string => "\"\""
  | .char => "'\\x00'"
  | _ => "0"

/-- Whether a declaration would copy or compute with a string that is no literal. -/
def copiesString (table : SymbolTable) (type : ValueType) (value : String) : Bool :=
  (type = .string && !isQuoted value) || mentionsString table value

def cDeclaration (type : ValueType) (name : String) (value : Option String) :
    Render (Option String) := do
  let table ← Render.symbols
  if value.any (copiesString table type) then return none
  match ← (C.typeName type).run with
  | .error _ => return none
  | .ok typeName =>
    let init := match value with
      | some v => respelled? (spellInC table) v
      | none => some (C.defaultValue type)
    match init with
    | none => return none
    | some init =>
      if contains "true" init || contains "false" init then Render.require .bool
      let target ← Render.declareFor .c
        { Symbol.scalar name type with targetType := some typeName }
      return some (typeName ++ " " ++ target ++ " = " ++ init ++ ";")

def cLine (text : String) : Render (Option String) := do
  match shape? text with
  | none => return none
  | some (.declaration type name value) => cDeclaration type name value
  | some (.print body newline) =>
    let lineEnd := if newline then "\\n" else ""
    return some ("printf(" ++ quoted (respell '%' "%%" body ++ lineEnd) ++ ");")
  | some (.assignment name op value) =>
    let table ← Render.symbols
    if table.isStringScalar name || mentionsString table value then return none
    return (respelled? (spellInC table) value).map fun v =>
      table.targetName name ++ " " ++ op ++ " " ++ v ++ ";"

def pythonLine (text : String) : Render (Option String) := do
  match shape? text with
  | none => return none
  | some (.declaration type name value) =>
    let table ← Render.symbols
    let init := match value with
      | some v => respelled? (spellInPython table) v
      | none => some (pythonDefault type)
    match init with
    | none => return none
    | some init =>
      let target ← Render.declareFor .python (Symbol.scalar name type)
      return some (target ++ " = " ++ init)
  | some (.print body newline) =>
    let lineEnd := if newline then "" else ", end=\"\""
    return some ("print(" ++ quoted body ++ lineEnd ++ ")")
  | some (.assignment name op value) =>
    let table ← Render.symbols
    return (respelled? (spellInPython table) value).map fun v =>
      table.targetName name ++ " " ++ op ++ " " ++ v

def line : Target → String → Render (Option String)
  | .c => cLine
  | .python => pythonLine

end Retarget.Degraded
