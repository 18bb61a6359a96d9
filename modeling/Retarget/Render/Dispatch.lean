import Retarget.Render.CStmt
import Retarget.Render.PythonStmt

/-!
# Rendering for a target

The renderers of both targets under one interface.
-/

namespace Retarget.Target

def baseIndent (settings : Settings) : Target → Nat
  | .c => if settings.emitMainWrapper then 1 else 0
  | .python => 0

def expression : Target → Expr → Attempt String
  | .c => C.expr
  | .python => Python.expr

def statement : Target → Stmt → Attempt (List String)
  | .c => C.stmt
  | .python => Python.stmt

def renderStatement (target : Target) (source : Option String) (stmt : Stmt) :
    Render (List String) :=
  Render.settle target source stmt (target.statement stmt)

def renderStatements : Target → List Stmt → Render (List String)
  | .c => C.stmts
  | .python => Python.stmts

/-- The lines of a nested block, one level deeper and in a scope of its own. -/
def blockLines (target : Target) (block : List Stmt) : Render (List String) :=
  Render.nested (target.renderStatements block)

def assemble (cx : Context) (body : List String) : Target → Except Fault String
  | .c => C.assemble cx body
  | .python => .ok (Python.assemble cx body)

end Retarget.Target
