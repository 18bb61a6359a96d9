import Retarget.Render.Settle
import Retarget.Scope.Typing

/-!
# C expressions

The C text of an expression. A compound operand stands in brackets, so that no operator of C can
regroup it; the length of an array is a quotient of sizes and counts as compound.
-/

namespace Retarget.C

open Text

def concatenationRefusal : String :=
  "string concatenation outside a print or declaration"

/-- The digits of an integer literal; C99 has no binary numerals, so those become decimal. -/
def integerText (digits : String) : String :=
  match Literal.numeralValue digits with
  | some value => if beginsWith "0b" (lower digits) then toString value else digits
  | none => digits

def literalText : Literal → Render String
  | .int digits => return integerText digits
  | .long digits => return integerText digits ++ "LL"
  | .float digits => return decimalText digits ++ "f"
  | .double digits => return decimalText digits
  | .bool value => do
    Render.require .bool
    return if value then "true" else "false"
  | .char body => return "'" ++ body ++ "'"
  | .string body => return quoted body
  | .null => return "NULL"

def delimit (e : Expr) (text : String) : String :=
  if e.isCompound || e.lengthOf?.isSome then bracketed text else text

def unsignedName (type : ValueType) : String :=
  if type = .long then "unsigned long long" else "unsigned int"

def constant? (owner : Option String) (field : String) : Option (Capability × String) :=
  match owner, field with
  | some "Integer", "MAX_VALUE" => some (.limits, "INT_MAX")
  | some "Integer", "MIN_VALUE" => some (.limits, "INT_MIN")
  | some "Long", "MAX_VALUE" => some (.limits, "LLONG_MAX")
  | some "Long", "MIN_VALUE" => some (.limits, "LLONG_MIN")
  | some "Math", "PI" => some (.math, "M_PI")
  | some "Math", "E" => some (.math, "M_E")
  | _, _ => none

def memberText (owner : Option String) (field : String) : Attempt String := do
  match constant? owner field with
  | some (capability, text) =>
    Render.require capability
    return text
  | none => Attempt.unsupported ("field access `." ++ field ++ "`")

def isPointerName (name : String) : Bool :=
  endsIn "*" name

def checkMeasured (symbol : Symbol) : Attempt Unit := do
  if symbol.isStringScalar then
    Attempt.invalid "length" ("`" ++ symbol.sourceName ++ "` is a string, not an array")
  if symbol.targetType.any isPointerName && symbol.aliasOf.isNone then
    Render.warn ("`" ++ symbol.sourceName ++ "` is a pointer; sizeof does not give its length")

def sizeQuotient (text : String) : String :=
  "sizeof(" ++ text ++ ") / sizeof(" ++ text ++ "[0])"

/-- The number of elements of an array; `operand` renders it. An alias measures the array that it
refers to. -/
def arrayLength (array : Expr) (operand : Attempt String) : Attempt String := do
  let symbol := array.ident?.bind (← Render.symbols).lookup
  let text ← match symbol.bind (·.aliasOf) with
    | some measured => pure measured
    | none => operand
  if let some symbol := symbol then checkMeasured symbol
  return sizeQuotient text

def assignmentText (op : AssignOp) (targetType : ValueType) (value : Expr)
    (targetText valueText : String) : Render String := do
  match op with
  | .plain => return targetText ++ " = " ++ valueText
  | .compound .shiftRightUnsigned =>
    return targetText ++ " = (" ++ unsignedName targetType ++ ") " ++ targetText ++ " >> " ++
      delimit value valueText
  | .compound op =>
    if op = .mod && targetType.isFloating then
      Render.require .math
      return targetText ++ " = fmod(" ++ targetText ++ ", " ++ valueText ++ ")"
    else return targetText ++ " " ++ op.symbol ++ "= " ++ valueText

def mathFunctions : List String :=
  ["sqrt", "cbrt", "pow", "floor", "ceil", "exp", "log", "log10", "sin", "cos", "tan", "asin",
    "acos", "atan", "atan2", "hypot"]

def libraryCall (capability : Capability) (name args : String) : Render String := do
  Render.require capability
  return name ++ bracketed args

/-- The larger or smaller of two values as a conditional expression. -/
def selectText (sign a b : String) : String :=
  bracketed (a ++ " " ++ sign ++ " " ++ b ++ " ? " ++ a ++ " : " ++ b)

def mathCall (types : List ValueType) (method : String) (args : List Expr)
    (texts : List String) : Attempt String :=
  let floating := types.any ValueType.isFloating
  match method, args, texts with
  | "abs", _, [x] =>
    if floating then libraryCall .math "fabs" x
    else libraryCall .stdlib (if types.contains .long then "llabs" else "abs") x
  | "max", [a, b], [x, y] =>
    if floating then libraryCall .math "fmax" (join ", " [x, y])
    else return selectText ">" (delimit a x) (delimit b y)
  | "min", [a, b], [x, y] =>
    if floating then libraryCall .math "fmin" (join ", " [x, y])
    else return selectText "<" (delimit a x) (delimit b y)
  | "round", _, [x] => libraryCall .math "llround" x
  | "random", _, [] => do
    Render.require .stdlib
    return "((double) rand() / RAND_MAX)"
  | _, _, _ =>
    if method ∈ mathFunctions then libraryCall .math method (join ", " texts)
    else Attempt.unsupported ("call to `" ++ method ++ "`")

def stringCall (method : String) (texts : List String) (receiver : Attempt String) :
    Attempt String := do
  match method, texts with
  | "length", [] =>
    let s ← receiver
    libraryCall .string "strlen" s
  | "charAt", [i] =>
    let s ← receiver
    return s ++ "[" ++ i ++ "]"
  | "equals", [other] =>
    let s ← receiver
    Render.require .string
    return "(strcmp(" ++ s ++ ", " ++ other ++ ") == 0)"
  | _, _ => Attempt.unsupported ("call to `" ++ method ++ "`")

def isMathCall (method : String) (count : Nat) : Bool :=
  match method, count with
  | "abs", 1 | "max", 2 | "min", 2 | "round", 1 | "random", 0 => true
  | _, _ => method ∈ mathFunctions

def callText (types : List ValueType) (owner : Option String) (method : String)
    (args : List Expr) (texts : List String) (receiver : Attempt String) : Attempt String :=
  if owner = some "Math" && isMathCall method texts.length then mathCall types method args texts
  else
    match owner, method, texts with
    | some "Integer", "parseInt", [s] => libraryCall .stdlib "atoi" s
    | some "Long", "parseLong", [s] => libraryCall .stdlib "atoll" s
    | some "Double", "parseDouble", [s] => libraryCall .stdlib "atof" s
    | _, _, _ => stringCall method texts receiver

def nonString {α : Type} (method : String) : Attempt α :=
  Attempt.unsupported ("`" ++ method ++ "` on a non-string value")

mutual

def expr : Expr → Attempt String
  | .literal value => literalText value
  | .ident name => return (← Render.symbols).targetName name
  | .binary op left right => do
    let table ← Render.symbols
    if table.isConcatenation (.binary op left right) then
      Attempt.unsupported concatenationRefusal
    else
      let l := delimit left (← expr left)
      let r := delimit right (← expr right)
      match op with
      | .shiftRightUnsigned =>
        return "(" ++ unsignedName (table.typeOf left) ++ ") " ++ l ++ " >> " ++ r
      | op =>
        if op = .mod && (table.typeOf (.binary op left right)).isFloating then
          libraryCall .math "fmod" (join ", " [l, r])
        else return l ++ " " ++ op.symbol ++ " " ++ r
  | .unary op operand => do
    return op.symbol ++ delimit operand (← expr operand)
  | .logical op left right => do
    let l := delimit left (← expr left)
    let r := delimit right (← expr right)
    return l ++ " " ++ op.symbol ++ " " ++ r
  | .compare op left right => do
    let table ← Render.symbols
    if table.typeOf left = .string && table.typeOf right = .string &&
        (op = .eq || op = .ne) then
      Render.warn "string `==` compares references; emitted a strcmp content comparison"
      Render.require .string
      let l ← expr left
      let r ← expr right
      return "strcmp(" ++ l ++ ", " ++ r ++ ") " ++ op.symbol ++ " 0"
    else
      let l := delimit left (← expr left)
      let r := delimit right (← expr right)
      return l ++ " " ++ op.symbol ++ " " ++ r
  | .assign op target value => do
    let table ← Render.symbols
    if table.typeOf target = .string && (table.isConcatenation value || op ≠ .plain) then
      Attempt.unsupported concatenationRefusal
    else
      let t ← expr target
      let v ← expr value
      assignmentText op (table.typeOf target) value t v
  | .update op leading target => do
    let t ← expr target
    return if leading then op.symbol ++ t else t ++ op.symbol
  | .index array position => do
    let a := delimit array (← expr array)
    let i ← expr position
    return a ++ "[" ++ i ++ "]"
  | .member object field =>
    if field = "length" then arrayLength object (do return delimit object (← expr object))
    else memberText object.ident? field
  | .arrayLiteral items => do
    return "\x7b" ++ join ", " (← exprs items) ++ "\x7d"
  | .ternary condition onTrue onFalse => do
    let c := delimit condition (← expr condition)
    let a := delimit onTrue (← expr onTrue)
    let b := delimit onFalse (← expr onFalse)
    return c ++ " ? " ++ a ++ " : " ++ b
  | .cast type operand => do
    let name ← typeName type
    return "(" ++ name ++ ") " ++ delimit operand (← expr operand)
  | .call none method args => do
    let types := (← Render.symbols).typesOf args
    let texts ← exprs args
    callText types none method args texts (nonString method)
  | .call (some receiver) method args => do
    let table ← Render.symbols
    let texts ← exprs args
    callText (table.typesOf args) receiver.ident? method args texts <|
      if table.typeOf receiver = .string then do return delimit receiver (← expr receiver)
      else nonString method

def exprs : List Expr → Attempt (List String)
  | [] => return []
  | e :: rest => do
    let first ← expr e
    let others ← exprs rest
    return first :: others

end

def operand (e : Expr) : Attempt String := do
  return delimit e (← expr e)

def length (array : Expr) : Attempt String :=
  arrayLength array (operand array)

end Retarget.C
