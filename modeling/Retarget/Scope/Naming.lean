import Retarget.Render.Basic

/-!
# Choosing names

Every variable of the output gets its identifier here. A declared name keeps itself unless the
target reserves it or another variable is already written that way; then the first free name of a
fixed series takes its place.
-/

namespace Retarget

namespace Naming

/-- The first of `candidate n`, `candidate (n + 1)`, … that is not blocked, after at most `tries`
refused ones. -/
def firstFree (blocked : String → Bool) (candidate : Nat → String) : Nat → Nat → String
  | 0, n => candidate n
  | tries + 1, n =>
    if blocked (candidate n) then firstFree blocked candidate tries (n + 1) else candidate n

def substitute (name : String) (n : Nat) : String :=
  if n ≤ 1 then name ++ "_var" else name ++ "_var" ++ toString n

def numbered (base : String) (n : Nat) : String :=
  base ++ toString n

end Naming

namespace SymbolTable

def takenBound (table : SymbolTable) : Nat :=
  2 * table.symbols.length

def collides (table : SymbolTable) (reserved : List String) (name : String) : Bool :=
  name ∈ reserved || table.isTargetOfOther name

def substituteFor (table : SymbolTable) (reserved : List String) (name : String) : String :=
  Naming.firstFree (fun candidate => table.isTaken candidate || candidate ∈ reserved)
    (Naming.substitute name) (table.takenBound + reserved.length) 1

def freshName (table : SymbolTable) (base : String) : String :=
  let preferred := if base = "i" then ["i", "j", "k"] else [base]
  match preferred.find? fun name => !table.isTaken name with
  | some name => name
  | none => Naming.firstFree table.isTaken (Naming.numbered base) table.takenBound 2

end SymbolTable

namespace Render

def renameMessage (target : Target) (isReserved : Bool) (name substitute : String) : String :=
  (if isReserved then "`" ++ name ++ "` is reserved in " ++ target.name
    else "`" ++ name ++ "` is already used for a renamed variable") ++
    "; renamed to `" ++ substitute ++ "`"

/-- The output identifier for a new declaration of `name`, with a warning if it is another one. -/
def chooseName (reserved : List String) (name : String) : Render String := do
  let cx ← get
  if cx.symbols.collides reserved name then
    let chosen := cx.symbols.substituteFor reserved name
    warn (renameMessage cx.target (name ∈ reserved) name chosen)
    return chosen
  else return name

/-- Declare a symbol under an output identifier chosen for the target, which is the result. -/
def declareFor (target : Target) (symbol : Symbol) : Render String := do
  let chosen ← chooseName target.reserved symbol.sourceName
  declare { symbol with targetName := chosen }
  return chosen

/-- Declare a scalar under a name that no symbol in scope has, which is the result. -/
def declareFresh (base : String) (type : ValueType) : Render String := do
  let name := (← symbols).freshName base
  declare (Symbol.scalar name type)
  return name

end Render

end Retarget
