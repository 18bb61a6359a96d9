import Retarget.Render.Settle
import Retarget.Scope.Typing

/-!
# Python expressions

The Python text of an expression. A character is a string of length one in Python, so it takes
part in arithmetic as its code point; a value that is joined to a string is made one first.
Assignments have no place inside an expression.
-/

namespace Retarget.Python

open Text

/-- The digits of an integer literal; a leading zero marks an octal numeral. -/
def integerText (digits : String) : String :=
  match digits.toList with
  | '0' :: c :: cs => if c.isDigit then "0o" ++ String.ofList (c :: cs) else digits
  | _ => digits

def literalText : Literal → String
  | .int digits => integerText digits
  | .long digits => integerText digits
  | .float digits => decimalText digits
  | .double digits => decimalText digits
  | .bool true => "True"
  | .bool false => "False"
  | .char body => "'" ++ body ++ "'"
  | .string body => quoted body
  | .null => "None"

def delimit (e : Expr) (text : String) : String :=
  if e.isCompound then bracketed text else text

def applied (function args : String) : String :=
  function ++ bracketed args

/-- The text of an operand of arithmetic: a character as its code point. -/
def numericForm (type : ValueType) (e : Expr) (text : String) : String :=
  if type = .char then applied "ord" text else delimit e text

def booleanForm (e : Expr) (text : String) : String :=
  match e with
  | .literal (.bool value) => quoted (if value then "true" else "false")
  | _ => applied "str" text ++ ".lower()"

def stringForm (type : ValueType) (e : Expr) (text : String) : String :=
  match type with
  | .string | .char => delimit e text
  | .boolean => booleanForm e text
  | _ => applied "str" text

def mask (type : ValueType) : String :=
  if type = .long then "0xFFFFFFFFFFFFFFFF" else "0xFFFFFFFF"

/-- How far from the end of `array` an index stands that is the array's length less a positive
literal. -/
def fromEnd (array : Expr) : Expr → Except Fault (Option Int)
  | .binary .sub left right =>
    if left.lengthOf? = some array then do
      return (← literalInteger right).filter (0 < ·)
    else .ok none
  | _ => .ok none

def memberText (owner : Option String) (field : String) : Attempt String := do
  match owner, field with
  | some "Integer", "MAX_VALUE" => return "2147483647"
  | some "Integer", "MIN_VALUE" => return "-2147483648"
  | some "Long", "MAX_VALUE" => return "9223372036854775807"
  | some "Long", "MIN_VALUE" => return "-9223372036854775808"
  | some "Math", "PI" =>
    Render.require .math
    return "math.pi"
  | some "Math", "E" =>
    Render.require .math
    return "math.e"
  | _, _ => Attempt.unsupported ("field access `." ++ field ++ "`")

def castText (type source : ValueType) (text : String) : Attempt String :=
  match type with
  | .byte | .short | .int | .long =>
    if source = .char then return applied "ord" text
    else if source.isIntegral then return text
    else return applied "int" text
  | .float | .double => return applied "float" text
  | .char =>
    if source.isIntegral && source ≠ .char then return applied "chr" text else return text
  | .string => return applied "str" text
  | .boolean => return applied "bool" text
  | .unknown => Attempt.unsupported "cast to an unknown type"

def mathFunctions : List String :=
  ["sqrt", "cbrt", "pow", "exp", "log", "log10", "sin", "cos", "tan", "asin", "acos", "atan",
    "atan2", "hypot"]

def mathApplication (function args : String) : Render String := do
  Render.require .math
  return applied ("math." ++ function) args

def mathCall? (method : String) (texts : List String) : Option (Render String) :=
  match method, texts with
  | "abs", _ => some (return applied "abs" (join ", " texts))
  | "max", _ => some (return applied "max" (join ", " texts))
  | "min", _ => some (return applied "min" (join ", " texts))
  | "round", [x] => some (mathApplication "floor" (x ++ " + 0.5"))
  | "floor", [x] => some do return applied "float" (← mathApplication "floor" x)
  | "ceil", [x] => some do return applied "float" (← mathApplication "ceil" x)
  | "random", [] => some do
    Render.require .stdlib
    return "random.random()"
  | _, _ =>
    if method ∈ mathFunctions then some (mathApplication method (join ", " texts)) else none

def stringCall (method : String) (args : List Expr) (texts : List String)
    (receiver : Attempt String) : Attempt String := do
  match method, args, texts with
  | "length", _, [] => return applied "len" (← receiver)
  | "charAt", _, [i] => return (← receiver) ++ "[" ++ i ++ "]"
  | "equals", [other], [text] => return (← receiver) ++ " == " ++ delimit other text
  | "toUpperCase", _, [] => return (← receiver) ++ ".upper()"
  | "toLowerCase", _, [] => return (← receiver) ++ ".lower()"
  | "trim", _, [] => return (← receiver) ++ ".strip()"
  | "substring", _, [start] => return (← receiver) ++ "[" ++ start ++ ":]"
  | "substring", _, [start, stop] => return (← receiver) ++ "[" ++ start ++ ":" ++ stop ++ "]"
  | _, _, _ => Attempt.unsupported ("call to `" ++ method ++ "`")

def staticCall (types : List ValueType) (owner : Option String) (method : String)
    (args : List Expr) (texts : List String) (receiver : Attempt String) : Attempt String :=
  match owner, method, types, args, texts with
  | some "Integer", "parseInt", _, _, [s] => return applied "int" s
  | some "Long", "parseLong", _, _, [s] => return applied "int" s
  | some "Double", "parseDouble", _, _, [s] => return applied "float" s
  | some "String", "valueOf", [type], [arg], [text] => return stringForm type arg text
  | _, _, _, _, _ => stringCall method args texts receiver

def callText (types : List ValueType) (owner : Option String) (method : String)
    (args : List Expr) (texts : List String) (receiver : Attempt String) : Attempt String :=
  match if owner = some "Math" then mathCall? method texts else none with
  | some text => text
  | none => staticCall types owner method args texts receiver

def nonString {α : Type} (method : String) : Attempt α :=
  Attempt.unsupported ("`" ++ method ++ "` on a non-string value")

def binaryText (op : BinaryOp) (type leftType : ValueType) (left right : String) : String :=
  match op with
  | .div => left ++ (if type.isIntegral then " // " else " / ") ++ right
  | .shiftRightUnsigned => "(" ++ left ++ " & " ++ mask leftType ++ ") >> " ++ right
  | op => left ++ " " ++ op.symbol ++ " " ++ right

def logicalWord : LogicalOp → String
  | .and => "and"
  | .or => "or"

def isMixed (left right : ValueType) : Bool :=
  (left = .char) != (right = .char) && left.isIntegral && right.isIntegral

def comparedForm (mixed : Bool) (type : ValueType) (e : Expr) (text : String) : String :=
  if mixed then numericForm type e text else delimit e text

mutual

def expr : Expr → Attempt String
  | .literal value => return literalText value
  | .ident name => return (← Render.symbols).targetName name
  | .binary op left right => do
    let table ← Render.symbols
    let l ← expr left
    let r ← expr right
    if table.isConcatenation (.binary op left right) then
      let l := if table.isConcatenation left then l else stringForm (table.typeOf left) left l
      let r := if table.isConcatenation right then r else stringForm (table.typeOf right) right r
      return l ++ " + " ++ r
    else
      return binaryText op (table.typeOf (.binary op left right)) (table.typeOf left)
        (numericForm (table.typeOf left) left l) (numericForm (table.typeOf right) right r)
  | .unary op operand => do
    let text := delimit operand (← expr operand)
    return if op = .not then "not " ++ text else op.symbol ++ text
  | .logical op left right => do
    let l := delimit left (← expr left)
    let r := delimit right (← expr right)
    return l ++ " " ++ logicalWord op ++ " " ++ r
  | .compare op left right => do
    let table ← Render.symbols
    let leftType := table.typeOf left
    let rightType := table.typeOf right
    if leftType = .string && rightType = .string && (op = .eq || op = .ne) then
      Render.warn "string `==` compares references; emitted a content comparison"
    let mixed := isMixed leftType rightType
    let l := comparedForm mixed leftType left (← expr left)
    let r := comparedForm mixed rightType right (← expr right)
    return l ++ " " ++ op.symbol ++ " " ++ r
  | .assign .. => Attempt.unsupported "assignment used as a value"
  | .update .. => Attempt.unsupported "increment used as a value"
  | .index array position => do
    let a := delimit array (← expr array)
    match ← Attempt.ofExcept (fromEnd array position) with
    | some k => return a ++ "[-" ++ toString k ++ "]"
    | none => return a ++ "[" ++ (← expr position) ++ "]"
  | .member object field => do
    if field = "length" then return applied "len" (← expr object)
    else memberText object.ident? field
  | .arrayLiteral items => do
    return "[" ++ join ", " (← exprs items) ++ "]"
  | .ternary condition onTrue onFalse => do
    let c := delimit condition (← expr condition)
    let a := delimit onTrue (← expr onTrue)
    let b := delimit onFalse (← expr onFalse)
    return a ++ " if " ++ c ++ " else " ++ b
  | .cast type operand => do
    let source := (← Render.symbols).typeOf operand
    castText type source (← expr operand)
  | .call none method args => do
    let types := (← Render.symbols).typesOf args
    let texts ← exprs args
    callText types none method args texts (nonString method)
  | .call (some receiver) method args => do
    let table ← Render.symbols
    let texts ← exprs args
    callText (table.typesOf args) receiver.ident? method args texts <|
      if table.typeOf receiver = .string then do return delimit receiver (← expr receiver)
      else nonString method

def exprs : List Expr → Attempt (List String)
  | [] => return []
  | e :: rest => do
    let first ← expr e
    let others ← exprs rest
    return first :: others

end

def operand (e : Expr) : Attempt String := do
  return delimit e (← expr e)

def numericOperand (e : Expr) : Attempt String := do
  return numericForm ((← Render.symbols).typeOf e) e (← expr e)

def stringValue (e : Expr) : Attempt String := do
  return stringForm ((← Render.symbols).typeOf e) e (← expr e)

def printedValue (e : Expr) : Attempt String := do
  let type := (← Render.symbols).typeOf e
  let text ← expr e
  return if type = .boolean then booleanForm e text else text

def concatenation (parts : List Expr) : Attempt String := do
  return join " + " (← parts.mapM stringValue)

def assignment (op : AssignOp) (target value : Expr) : Attempt String := do
  let type := (← Render.symbols).typeOf target
  let t ← expr target
  match op with
  | .plain => return t ++ " = " ++ (← expr value)
  | .compound op =>
    if op = .add && type = .string then return t ++ " += " ++ (← stringValue value)
    else if type = .char then
      return t ++ " = " ++ applied "chr"
        (applied "ord" t ++ " " ++ op.symbol ++ " " ++ (← numericOperand value))
    else if op = .div && type.isIntegral then return t ++ " //= " ++ (← numericOperand value)
    else if op = .shiftRightUnsigned then
      return t ++ " = (" ++ t ++ " & " ++ mask type ++ ") >> " ++ (← operand value)
    else return t ++ " " ++ op.symbol ++ "= " ++ (← numericOperand value)

def updateSign : UpdateOp → String
  | .increment => "+"
  | .decrement => "-"

def exprStatement : Expr → Attempt String
  | .update op _ target => do
    let t ← expr target
    if (← Render.symbols).typeOf target = .char then
      return t ++ " = " ++ applied "chr" (applied "ord" t ++ " " ++ updateSign op ++ " 1")
    else return t ++ " " ++ updateSign op ++ "= 1"
  | .assign op target value => assignment op target value
  | e => expr e

end Retarget.Python
