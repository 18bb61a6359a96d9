import Retarget.Render.Basic
import Retarget.Tree.Node

/-!
# Reading a syntax tree

Errors of reading a statement or expression off a syntax tree, and the monad in which statements
are read: declarations go into the symbol table, and what an erring reading declared stays.
-/

namespace Retarget

/-- Why a node cannot be read. -/
inductive LoweringError where
  | parse (what : String)
  | unsupported (what : String)
  | unexpectedNode (expected got : String)
  deriving DecidableEq, Inhabited

def LoweringError.message : LoweringError → String
  | parse what => "parse error: " ++ what
  | unsupported what => "unsupported syntax: " ++ what
  | unexpectedNode expected got => "expected " ++ expected ++ ", got " ++ got

abbrev Lower := ExceptT LoweringError Render

namespace Lower

/-- Go on with the value of a reading that needs no context. -/
def ofExcept {α : Type} (result : Except LoweringError α) : Lower α :=
  ExceptT.mk (pure result)

def fail {α : Type} (error : LoweringError) : Lower α :=
  throw error

def checked {α : Type} (result : Except Fault α) : Lower α :=
  ExceptT.lift (Render.ofExcept result)

/-- Read in a scope of its own, which is left also on an error. -/
def inScope {α : Type} (body : Lower α) : Lower α :=
  ExceptT.mk (Render.inScope body.run)

def declare (symbol : Symbol) : Lower Unit :=
  ExceptT.lift (Render.declare symbol)

def warn (message : String) : Lower Unit :=
  ExceptT.lift (Render.warn message)

def symbols : Lower SymbolTable :=
  ExceptT.lift Render.symbols

end Lower

namespace Node

def missing (node : Node) (field : String) : LoweringError :=
  .parse (node.kind ++ " missing " ++ field)

def childIn (node : Node) (field : String) : Except LoweringError Node :=
  match node.child? field with
  | some child => .ok child
  | none => .error (node.missing field)

def textOf (node : Node) (field : String) : Except LoweringError String :=
  (node.childIn field).map Node.text

end Node

end Retarget
