import Retarget.Render.PythonExpr

/-!
# Counting loops

A `for` loop that counts a variable of its own from a start to a bound in equal steps is an
iteration over a range. The body has to leave the variable and a variable bound alone.
-/

namespace Retarget.Python

open Text

structure Counting where
  name : String
  type : ValueType
  start : Expr
  op : CompareOp
  bound : Expr
  step : Int

def stepOf (name : String) : Expr → Except Fault (Option Int)
  | .update op _ target =>
    if target.isIdent name then
      match op with
      | .increment => .ok (some 1)
      | .decrement => .ok (some (-1))
    else .ok none
  | .assign (.compound op) target value =>
    if target.isIdent name then do
      match (← literalInteger value).filter (0 < ·), op with
      | some k, .add => return some k
      | some k, .sub => return some (-k)
      | _, _ => return none
    else .ok none
  | _ => .ok none

def advances (op : CompareOp) (step : Int) : Bool :=
  match op with
  | .lt | .le => 0 < step
  | .gt | .ge => step < 0
  | .eq | .ne => false

def leavesHeaderAlone (name : String) (bound : Expr) (body : List Stmt) : Bool :=
  !blockWrites name body && !bound.ident?.any (blockWrites · body)

def isCountable (type : ValueType) : Bool :=
  type.isIntegral && type ≠ .char

def counting? (init : Option Stmt) (condition : Option Expr) (update : List Expr)
    (body : List Stmt) : Except Fault (Option Counting) :=
  match init, condition, update with
  | some (.declare name type (some start)), some (.compare op left bound), [change] =>
    if isCountable type && left.isIdent name then do
      match ← stepOf name change with
      | none => return none
      | some step =>
        if advances op step && leavesHeaderAlone name bound body then
          return some { name, type, start, op, bound, step }
        else return none
    else .ok none
  | _, _, _ => .ok none

def addIntegers (a b : Int) : Except Fault Int :=
  if Text.isInteger (a + b) then .ok (a + b) else .error .add

def subIntegers (a b : Int) : Except Fault Int :=
  if Text.isInteger (a - b) then .ok (a - b) else .error .subtract

def rangeEnd (op : CompareOp) (bound : Expr) : Attempt String := do
  match op, ← Attempt.ofExcept (literalInteger bound) with
  | .le, some n => return toString (← Attempt.ofExcept (addIntegers n 1))
  | .ge, some n => return toString (← Attempt.ofExcept (subIntegers n 1))
  | .le, none => return (← operand bound) ++ " + 1"
  | .ge, none => return (← operand bound) ++ " - 1"
  | _, _ => expr bound

def rangeArgs (loop : Counting) : Attempt String := do
  let start ← expr loop.start
  let stop ← rangeEnd loop.op loop.bound
  let first ← Attempt.ofExcept (literalInteger loop.start)
  if loop.step = 1 then
    if first = some 0 then return stop else return join ", " [start, stop]
  else return join ", " [start, stop, toString loop.step]

/-- The test on which a `do` loop ends: a comparison is inverted, anything else negated. -/
def exitTest : Expr → Attempt String
  | .compare op left right => expr (.compare op.inverse left right)
  | condition => do return "not " ++ (← operand condition)

end Retarget.Python
