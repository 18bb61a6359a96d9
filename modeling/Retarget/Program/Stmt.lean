import Retarget.Program.Expr

/-!
# Statements

Statements of the source program. Blocks are lists of statements in source order.
-/

namespace Retarget

/-- A print, with or without a line end; a formatted one takes a format string first. -/
structure Print where
  args : List Expr
  newline : Bool
  formatted : Bool
  deriving Inhabited

structure Comment where
  text : String
  isBlock : Bool
  deriving DecidableEq, Inhabited

inductive ArrayInit where
  | absent
  | literal (items : List Expr)
  | clone (source : Expr)
  | allocate (extents : List Expr)
  | alias (source : Expr)
  deriving Inhabited

inductive SwitchLabel where
  | value (expr : Expr)
  | default
  deriving Inhabited

def SwitchLabel.isDefault : SwitchLabel → Bool
  | default => true
  | value _ => false

def SwitchLabel.expr? : SwitchLabel → Option Expr
  | value expr => some expr
  | default => none

mutual

/-- A statement. `sequence` holds the parts of one source statement that declares several
variables, and `unsupported` a statement outside the subset. -/
inductive Stmt where
  | declare (name : String) (type : ValueType) (init : Option Expr)
  | declareArray (name : String) (element : ValueType) (dimensions : Nat) (init : ArrayInit)
  | expr (expr : Expr)
  | print (print : Print)
  | conditional (condition : Expr) (body : List Stmt) (elifs : List Branch)
      (otherwise : Option (List Stmt))
  | switch (discriminant : Expr) (cases : List Case)
  | forLoop (init : Option Stmt) (condition : Option Expr) (update : List Expr)
      (body : List Stmt)
  | whileLoop (condition : Expr) (body : List Stmt)
  | doWhile (condition : Expr) (body : List Stmt)
  | forEach (type : ValueType) (name : String) (iterable : Expr) (body : List Stmt)
  | breakStmt
  | continueStmt
  | returnStmt (value : Option Expr)
  | comment (comment : Comment)
  | block (body : List Stmt)
  | sequence (stmts : List Stmt)
  | unsupported (kind text : String)

inductive Branch where
  | mk (condition : Expr) (body : List Stmt)

/-- The labels of a switch case in source order and the statements after the last of them. -/
inductive Case where
  | mk (labels : List SwitchLabel) (body : List Stmt)

end

instance : Inhabited Stmt := ⟨.breakStmt⟩

namespace Case

def labels : Case → List SwitchLabel
  | mk labels _ => labels

def body : Case → List Stmt
  | mk _ body => body

def isDefault (case : Case) : Bool :=
  case.labels.any SwitchLabel.isDefault

def values (case : Case) : List Expr :=
  case.labels.filterMap SwitchLabel.expr?

end Case

namespace Stmt

/-- The name of a statement's construct, as placeholders and warnings give it. -/
def construct : Stmt → String
  | declare .. => "variable declaration"
  | declareArray .. => "array declaration"
  | expr _ => "expression"
  | print _ => "print"
  | conditional .. => "if"
  | switch .. => "switch"
  | forLoop .. => "for"
  | whileLoop .. => "while"
  | doWhile .. => "do_while"
  | forEach .. => "for_each"
  | breakStmt => "break"
  | continueStmt => "continue"
  | returnStmt _ => "return"
  | comment _ => "comment"
  | block _ => "block"
  | sequence _ => "declarations"
  | unsupported kind _ => kind

def isJump : Stmt → Bool
  | breakStmt | continueStmt | returnStmt _ => true
  | _ => false

def isBreak : Stmt → Bool
  | breakStmt => true
  | _ => false

end Stmt

end Retarget
