import Retarget.Scope.Symbol

/-!
# Symbol tables

A table is a stack of scopes that always has a root. Reading a name goes from the innermost scope
outwards, and a declaration lands in the innermost one.
-/

namespace Retarget

abbrev Scope := List Symbol

namespace Scope

def find? (scope : Scope) (name : String) : Option Symbol :=
  List.find? (fun symbol => symbol.sourceName = name) scope

/-- The scope with a symbol in place of an earlier one of the same source name. -/
def insert (scope : Scope) (symbol : Symbol) : Scope :=
  symbol :: List.filter (fun other => other.sourceName ≠ symbol.sourceName) scope

end Scope

structure SymbolTable where
  inner : Scope := []
  outer : List Scope := []
  deriving DecidableEq, Inhabited

namespace SymbolTable

def scopes (table : SymbolTable) : List Scope :=
  table.inner :: table.outer

def symbols (table : SymbolTable) : List Symbol :=
  table.scopes.flatten

def depth (table : SymbolTable) : Nat :=
  table.outer.length

def push (table : SymbolTable) : SymbolTable :=
  { inner := [], outer := table.inner :: table.outer }

/-- The table without its innermost scope; the root stays. -/
def pop (table : SymbolTable) : SymbolTable :=
  match table.outer with
  | [] => table
  | scope :: rest => { inner := scope, outer := rest }

def declare (table : SymbolTable) (symbol : Symbol) : SymbolTable :=
  { table with inner := table.inner.insert symbol }

def lookup (table : SymbolTable) (name : String) : Option Symbol :=
  table.scopes.findSome? (·.find? name)

/-- The output identifier of a source name; an undeclared name keeps itself. -/
def targetName (table : SymbolTable) (name : String) : String :=
  match table.lookup name with
  | some symbol => symbol.targetName
  | none => name

def isTaken (table : SymbolTable) (name : String) : Bool :=
  table.symbols.any fun symbol => symbol.sourceName = name || symbol.targetName = name

def isTargetOfOther (table : SymbolTable) (name : String) : Bool :=
  table.symbols.any fun symbol => symbol.targetName = name && symbol.sourceName ≠ name

def isStringScalar (table : SymbolTable) (name : String) : Bool :=
  (table.lookup name).any Symbol.isStringScalar

/-- The outer extent of the array that an identifier names, when it is known. -/
def sizeOf? (table : SymbolTable) (name : Option String) : Option Nat :=
  (name.bind table.lookup).bind Symbol.size

end SymbolTable

end Retarget
