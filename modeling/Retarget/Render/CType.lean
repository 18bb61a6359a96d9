import Retarget.Render.Basic

/-!
# C types

The C spelling of each type, the value of a variable declared without one, and the `printf`
conversion of a value.
-/

namespace Retarget.C

def typeName : ValueType → Attempt String
  | .byte => return "signed char"
  | .short => return "short"
  | .int => return "int"
  | .long => return "long long"
  | .float => return "float"
  | .double => return "double"
  | .boolean => do
    Render.require .bool
    return "bool"
  | .char => return "char"
  | .string => return "char*"
  | .unknown => Attempt.unsupported "a value of unknown type"

def defaultValue : ValueType → String
  | .float | .double => "0.0"
  | .boolean => "false"
  | .char => "'\\0'"
  | .string => "\"\""
  | _ => "0"

def conversionLetters : ValueType → String
  | .string => "s"
  | .long => "lld"
  | .float => "f"
  | .double => "lf"
  | .char => "c"
  | _ => "d"

def formatSpecifier (type : ValueType) : String :=
  "%" ++ conversionLetters type

end Retarget.C
