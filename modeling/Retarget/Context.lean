import Retarget.Fault
import Retarget.Settings
import Retarget.Target
import Retarget.Scope.Table

/-!
# Rendering contexts

The state that rendering a program threads through its statements: the symbols in scope, the level
of indentation, the warnings given so far and the library features that the output relies on.
-/

namespace Retarget

/-- A feature of the target's library that output may rely on. -/
inductive Capability where
  | bool
  | math
  | stdlib
  | string
  | limits
  deriving DecidableEq, Inhabited

namespace Capability

def all : List Capability := [bool, math, stdlib, string, limits]

def name : Capability → String
  | bool => "bool"
  | math => "math"
  | stdlib => "stdlib"
  | string => "string"
  | limits => "limits"

def ofName? (name : String) : Option Capability :=
  all.find? fun capability => capability.name = name

end Capability

structure Caps where
  bool : Bool := false
  math : Bool := false
  stdlib : Bool := false
  string : Bool := false
  limits : Bool := false
  deriving DecidableEq, Inhabited

namespace Caps

def contains (set : Caps) : Capability → Bool
  | .bool => set.bool
  | .math => set.math
  | .stdlib => set.stdlib
  | .string => set.string
  | .limits => set.limits

def insert (set : Caps) : Capability → Caps
  | .bool => { set with bool := true }
  | .math => { set with math := true }
  | .stdlib => { set with stdlib := true }
  | .string => { set with string := true }
  | .limits => { set with limits := true }

/-- The members in the order their headers are written. -/
def toList (set : Caps) : List Capability :=
  Capability.all.filter set.contains

end Caps

structure Context where
  target : Target
  settings : Settings := {}
  symbols : SymbolTable := {}
  indent : Nat := 0
  /-- The warnings given so far, each once and in the order they were first given. -/
  warnings : List String := []
  capabilities : Caps := {}
  deriving DecidableEq, Inhabited

namespace Context

def warn (cx : Context) (message : String) : Context :=
  if message ∈ cx.warnings then cx else { cx with warnings := cx.warnings ++ [message] }

def require (cx : Context) (capability : Capability) : Context :=
  { cx with capabilities := cx.capabilities.insert capability }

def declare (cx : Context) (symbol : Symbol) : Context :=
  { cx with symbols := cx.symbols.declare symbol }

def pushScope (cx : Context) : Context :=
  { cx with symbols := cx.symbols.push }

def popScope (cx : Context) : Context :=
  { cx with symbols := cx.symbols.pop }

def line (cx : Context) (text : String) : Except Fault String := do
  let width ← mulWords cx.indent cx.settings.indentWidth
  let margin ← spaces width
  return margin ++ text

end Context

end Retarget
