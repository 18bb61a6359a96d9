import Retarget.Text.Basic

/-!
# Operators

The operators of the source program with their Java spellings.
-/

namespace Retarget

/-- Arithmetic, bitwise and shift operators. -/
inductive BinaryOp where
  | add
  | sub
  | mul
  | div
  | mod
  | bitAnd
  | bitOr
  | bitXor
  | shiftLeft
  | shiftRight
  | shiftRightUnsigned
  deriving DecidableEq, Inhabited

def BinaryOp.ofJava? : String → Option BinaryOp
  | "+" => some .add
  | "-" => some .sub
  | "*" => some .mul
  | "/" => some .div
  | "%" => some .mod
  | "&" => some .bitAnd
  | "|" => some .bitOr
  | "^" => some .bitXor
  | "<<" => some .shiftLeft
  | ">>" => some .shiftRight
  | ">>>" => some .shiftRightUnsigned
  | _ => none

def BinaryOp.symbol : BinaryOp → String
  | .add => "+"
  | .sub => "-"
  | .mul => "*"
  | .div => "/"
  | .mod => "%"
  | .bitAnd => "&"
  | .bitOr => "|"
  | .bitXor => "^"
  | .shiftLeft => "<<"
  | .shiftRight => ">>"
  | .shiftRightUnsigned => ">>>"

/-- The operators that skip their right operand when the left one decides. -/
inductive LogicalOp where
  | and
  | or
  deriving DecidableEq, Inhabited

def LogicalOp.symbol : LogicalOp → String
  | .and => "&&"
  | .or => "||"

inductive CompareOp where
  | lt
  | le
  | gt
  | ge
  | eq
  | ne
  deriving DecidableEq, Inhabited

def CompareOp.ofJava? : String → Option CompareOp
  | "<" => some .lt
  | "<=" => some .le
  | ">" => some .gt
  | ">=" => some .ge
  | "==" => some .eq
  | "!=" => some .ne
  | _ => none

def CompareOp.symbol : CompareOp → String
  | .lt => "<"
  | .le => "<="
  | .gt => ">"
  | .ge => ">="
  | .eq => "=="
  | .ne => "!="

/-- The operator that holds of ordered values exactly when the given one does not. -/
def CompareOp.inverse : CompareOp → CompareOp
  | .lt => .ge
  | .le => .gt
  | .gt => .le
  | .ge => .lt
  | .eq => .ne
  | .ne => .eq

inductive UnaryOp where
  | neg
  | plus
  | not
  | bitNot
  deriving DecidableEq, Inhabited

def UnaryOp.ofJava? : String → Option UnaryOp
  | "-" => some .neg
  | "+" => some .plus
  | "!" => some .not
  | "~" => some .bitNot
  | _ => none

def UnaryOp.symbol : UnaryOp → String
  | .neg => "-"
  | .plus => "+"
  | .not => "!"
  | .bitNot => "~"

/-- Plain assignment, or an assignment that first applies an operator. -/
inductive AssignOp where
  | plain
  | compound (op : BinaryOp)
  deriving DecidableEq, Inhabited

def AssignOp.ofJava? (spelling : String) : Option AssignOp :=
  if spelling = "=" then some .plain
  else (Text.beforeEnd? "=" spelling).bind fun op => (BinaryOp.ofJava? op).map .compound

/-- Stepping a variable up or down by one. -/
inductive UpdateOp where
  | increment
  | decrement
  deriving DecidableEq, Inhabited

def UpdateOp.symbol : UpdateOp → String
  | .increment => "++"
  | .decrement => "--"

end Retarget
