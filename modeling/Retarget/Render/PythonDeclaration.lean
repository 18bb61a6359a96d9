import Retarget.Render.PythonExpr

/-!
# Python declarations

Python has no declarations: each one becomes an assignment of the value, or of the zero of the
type. Conversions that Java leaves implicit are written out where the value would differ.
-/

namespace Retarget.Python

open Text

def defaultValue : ValueType → String
  | .float | .double => "0.0"
  | .boolean => "False"
  | .char => "'\\x00'"
  | .string => "\"\""
  | .unknown => "None"
  | _ => "0"

def declareScalar (name : String) (type : ValueType) : Render String :=
  Render.declareFor .python (Symbol.scalar name type)

def declareArray (name : String) (element : ValueType) (dimensions : Nat) (size : Option Nat) :
    Render String :=
  Render.declareFor .python (Symbol.array name element dimensions size)

def isDecimal (digits : String) : Bool :=
  digits = "0" || (!beginsWith "0" digits && digits.toList.all Char.isDigit)

def integerDigits? : Expr → Option String
  | .literal (.int digits) => some digits
  | .literal (.long digits) => some digits
  | _ => none

def converted (type : ValueType) (value : Expr) : Attempt String := do
  let source := (← Render.symbols).typeOf value
  if type.isFloating && source.isIntegral then
    match (integerDigits? value).filter isDecimal with
    | some digits => return decimalText digits
    | none => return applied "float" (← expr value)
  else if type = .char && source.isIntegral && source ≠ .char then
    return applied "chr" (← expr value)
  else if type.isIntegral && type ≠ .char && source = .char then
    return applied "ord" (← expr value)
  else expr value

def declareVariable (name : String) (type : ValueType) (init : Option Expr) : Attempt String := do
  let value ← match init with
    | some value => converted type value
    | none => pure (defaultValue type)
  let target ← declareScalar name type
  return target ++ " = " ++ value

/-- A list of lists: the row `value` once for each index below each extent, from the innermost
extent to the outermost. -/
def comprehension (value : String) : List Expr → Attempt String
  | [] => return value
  | extent :: rest => do
    comprehension ("[" ++ value ++ " for _ in range(" ++ (← expr extent) ++ ")]") rest

def allocation (fill : String) (extents : List Expr) : Attempt String := do
  match extents.reverse with
  | [] => Attempt.invalid "array" "allocation without an extent"
  | last :: outer =>
    let row := "[" ++ fill ++ "] * " ++ (← operand last)
    comprehension row outer

def outerExtent : List Expr → Except Fault (Option Nat)
  | [] => .ok none
  | extent :: _ => do
    return (← literalInteger extent).bind Int.toNat?

def arrayValue (element : ValueType) (dimensions : Nat) :
    ArrayInit → Attempt (String × Option Nat)
  | .literal items => do
    return ("[" ++ join ", " (← exprs items) ++ "]", some items.length)
  | .clone source => do
    let size := (← Render.symbols).sizeOf? source.ident?
    return ((← operand source) ++ ".copy()", size)
  | .allocate extents => do
    let size ← Attempt.ofExcept (outerExtent extents)
    let fill := if extents.length < dimensions then "None" else defaultValue element
    return (← allocation fill extents, size)
  | .alias source => do
    let size := (← Render.symbols).sizeOf? source.ident?
    return (← expr source, size)
  | .absent => return ("None", none)

def declareArrayOf (name : String) (element : ValueType) (dimensions : Nat) (init : ArrayInit) :
    Attempt String := do
  let (value, size) ← arrayValue element dimensions init
  let target ← declareArray name element dimensions size
  return target ++ " = " ++ value

end Retarget.Python
