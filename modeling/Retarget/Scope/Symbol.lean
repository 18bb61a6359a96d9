import Retarget.Program.ValueType

/-!
# Symbols

What is known about a declared name: its type and shape in the source program, and the identifier
and type it has in the output.
-/

namespace Retarget

structure ArrayShape where
  dimensions : Nat
  size : Option Nat
  deriving DecidableEq, Inhabited

structure Symbol where
  sourceName : String
  targetName : String
  type : ValueType
  targetType : Option String
  shape : Option ArrayShape
  /-- The array this name refers to, when its declaration made it an alias. -/
  aliasOf : Option String
  deriving DecidableEq, Inhabited

namespace Symbol

def scalar (name : String) (type : ValueType) : Symbol :=
  { sourceName := name, targetName := name, type, targetType := none, shape := none,
    aliasOf := none }

def array (name : String) (element : ValueType) (dimensions : Nat) (size : Option Nat) : Symbol :=
  { scalar name element with shape := some ⟨dimensions, size⟩ }

def isArray (symbol : Symbol) : Bool :=
  symbol.shape.isSome

def dimensions (symbol : Symbol) : Nat :=
  match symbol.shape with
  | some shape => shape.dimensions
  | none => 0

def size (symbol : Symbol) : Option Nat :=
  symbol.shape.bind (·.size)

def element? (symbol : Symbol) : Option ValueType :=
  symbol.shape.map fun _ => symbol.type

def isStringScalar (symbol : Symbol) : Bool :=
  symbol.type = .string && !symbol.isArray

end Symbol

end Retarget
