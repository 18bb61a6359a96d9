import Retarget.Text.Blank

/-!
# Value types

The types a variable of the source program can have, and Java's numeric promotions between them.
-/

namespace Retarget

/-- The type of a variable or expression. `unknown` stands for every type outside the subset. -/
inductive ValueType where
  | byte
  | short
  | int
  | long
  | float
  | double
  | boolean
  | char
  | string
  | unknown
  deriving DecidableEq, Inhabited

namespace ValueType

def ofJava (spelling : String) : ValueType :=
  match Text.trim spelling with
  | "byte" | "Byte" => byte
  | "short" | "Short" => short
  | "int" | "Integer" => int
  | "long" | "Long" => long
  | "float" | "Float" => float
  | "double" | "Double" => double
  | "boolean" | "Boolean" => boolean
  | "char" | "Character" => char
  | "String" | "java.lang.String" => string
  | _ => unknown

def javaName : ValueType → String
  | byte => "byte"
  | short => "short"
  | int => "int"
  | long => "long"
  | float => "float"
  | double => "double"
  | boolean => "boolean"
  | char => "char"
  | string => "String"
  | unknown => "?"

/-- The types whose values are whole numbers, characters among them. -/
def isIntegral : ValueType → Bool
  | byte | short | int | long | char => true
  | _ => false

def isFloating : ValueType → Bool
  | float | double => true
  | _ => false

def isNumeric (type : ValueType) : Bool :=
  type.isIntegral || type.isFloating

/-- Binary numeric promotion; `unknown` absorbs every other type. -/
def promote : ValueType → ValueType → ValueType
  | unknown, _ => unknown
  | _, unknown => unknown
  | double, _ => double
  | _, double => double
  | float, _ => float
  | _, float => float
  | long, _ => long
  | _, long => long
  | a, b => if a.isIntegral && b.isIntegral then int else unknown

/-- Unary numeric promotion: the narrow integers widen to `int`. -/
def promoteUnary : ValueType → ValueType
  | byte | short | char => int
  | type => type

end ValueType

end Retarget
