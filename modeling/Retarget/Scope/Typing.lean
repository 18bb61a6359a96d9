import Retarget.Scope.Table
import Retarget.Program.Expr
import Retarget.Fault

/-!
# Static types

The static type of an expression, as far as the symbol table tells, and the parts of a string
concatenation.
-/

namespace Retarget

def memberType (object : Option String) (field : String) : ValueType :=
  match object, field with
  | _, "length" => .int
  | some "Integer", "MAX_VALUE" => .int
  | some "Integer", "MIN_VALUE" => .int
  | some "Long", "MAX_VALUE" => .long
  | some "Long", "MIN_VALUE" => .long
  | some "Math", "PI" => .double
  | some "Math", "E" => .double
  | _, _ => .unknown

def promoteAll : List ValueType → ValueType
  | [] => .unknown
  | type :: rest => rest.foldl (fun a b => a.promote b.promoteUnary) type.promoteUnary

def callType (receiver : Option String) (method : String) (args : List ValueType) : ValueType :=
  match receiver, method with
  | some "Math", "abs" => promoteAll args
  | some "Math", "max" => promoteAll args
  | some "Math", "min" => promoteAll args
  | some "Math", "round" => .long
  | some "Math", _ => .double
  | some "Integer", "parseInt" => .int
  | some "Double", "parseDouble" => .double
  | some "String", "valueOf" => .string
  | _, "length" => .int
  | _, "equals" => .boolean
  | _, "charAt" => .char
  | _, "toUpperCase" => .string
  | _, "toLowerCase" => .string
  | _, "trim" => .string
  | _, "substring" => .string
  | _, _ => .unknown

def binaryType (op : BinaryOp) (left right : ValueType) : ValueType :=
  match op with
  | .add => if left = .string || right = .string then .string else left.promote right
  | .shiftLeft | .shiftRight | .shiftRightUnsigned => left.promoteUnary
  | _ => left.promote right

/-- Type of a conditional expression from the types of its two results. -/
def ternaryType (onTrue onFalse : ValueType) : ValueType :=
  if onTrue = onFalse then onTrue
  else if onTrue.isNumeric && onFalse.isNumeric then onTrue.promote onFalse
  else .unknown

namespace SymbolTable

def accessType (table : SymbolTable) (root : Option String) (depth : Nat) : ValueType :=
  match root.bind table.lookup with
  | none => .unknown
  | some symbol =>
    if symbol.isArray && symbol.dimensions ≤ depth then symbol.type
    else if symbol.type = .string then .char
    else .unknown

def identType (table : SymbolTable) (name : String) : ValueType :=
  match table.lookup name with
  | some symbol => if symbol.isArray then .unknown else symbol.type
  | none => .unknown

mutual

def typeOf (table : SymbolTable) : Expr → ValueType
  | .literal value => value.type
  | .ident name => table.identType name
  | .binary op left right => binaryType op (table.typeOf left) (table.typeOf right)
  | .unary .not _ => .boolean
  | .unary _ operand => (table.typeOf operand).promoteUnary
  | .logical .. | .compare .. => .boolean
  | .assign _ target _ => table.typeOf target
  | .update _ _ target => table.typeOf target
  | .index array _ => table.accessType array.rootIdent? (1 + array.accessDepth)
  | .member object field => memberType object.ident? field
  | .arrayLiteral _ => .unknown
  | .ternary _ onTrue onFalse => ternaryType (table.typeOf onTrue) (table.typeOf onFalse)
  | .cast type _ => type
  | .call receiver method args =>
    callType (receiver.bind Expr.ident?) method (table.typesOf args)

def typesOf (table : SymbolTable) : List Expr → List ValueType
  | [] => []
  | e :: rest => table.typeOf e :: table.typesOf rest

end

def isConcatenation (table : SymbolTable) : Expr → Bool
  | .binary .add left right => table.typeOf (.binary .add left right) = .string
  | _ => false

/-- The parts of a concatenation in order; a sum of numbers stays whole, and any other expression
is its own only part. -/
def concatParts (table : SymbolTable) : Expr → List Expr
  | .binary .add left right =>
    if table.isConcatenation (.binary .add left right) then
      table.concatParts left ++ table.concatParts right
    else [.binary .add left right]
  | e => [e]

theorem forall_concatParts {holds : Expr → Prop} (table : SymbolTable) {e : Expr} (whole : holds e)
    (sides : ∀ left right, holds (.binary .add left right) → holds left ∧ holds right) :
    ∀ part ∈ table.concatParts e, holds part := by
  fun_induction concatParts table e with
  | case1 left right _ leftIh rightIh =>
    obtain ⟨onLeft, onRight⟩ := sides left right whole
    exact List.forall_mem_append.mpr ⟨leftIh onLeft, rightIh onRight⟩
  | case2 => simpa using whole
  | case3 => simpa using whole

theorem concatParts_ne_nil (table : SymbolTable) (e : Expr) : table.concatParts e ≠ [] := by
  fun_induction concatParts table e with
  | case1 left right _ leftIh rightIh => exact List.append_ne_nil_of_left_ne_nil leftIh _
  | case2 => simp
  | case3 => simp

end SymbolTable

/-- The value of an integer literal under any number of minus signs. -/
def literalInteger : Expr → Except Fault (Option Int)
  | .literal value => .ok value.integer?
  | .unary .neg operand =>
    match literalInteger operand with
    | .ok (some v) => if v = Text.minInteger then .error .negate else .ok (some (-v))
    | other => other
  | _ => .ok none

end Retarget
