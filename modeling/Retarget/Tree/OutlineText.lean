import Retarget.Text.Lines
import Retarget.Text.Numeral
import Retarget.Tree.Outline

/-!
# Outlines as texts

An outline written on lines. The first line is `ok` or `error`. Each other one stands for a node,
indented by one blank for each node above it: its kind, `named` or `token`, the places where it
begins and ends, and its role if it has one.
-/

namespace Retarget

/-- A line of an outline: how deep its node stands, and the node without its children. -/
structure OutlineLine where
  depth : Nat
  kind : String
  named : Bool
  start : Nat
  stop : Nat
  field : String

namespace OutlineLine

def ofText? (text : String) : Option OutlineLine :=
  match Text.words text with
  | kind :: form :: start :: stop :: field => do
    let named ← if form = "named" then some true else if form = "token" then some false else none
    return { depth := (text.toList.takeWhile (· = ' ')).length, kind, named,
             start := ← Text.unsignedValue 10 start.toList,
             stop := ← Text.unsignedValue 10 stop.toList,
             field := field.headD "" }
  | _ => none

def node (line : OutlineLine) (children : List Outline) : Outline :=
  .mk line.kind line.named line.field line.start line.stop children

end OutlineLine

namespace Outline

/-- The nodes of lines with their depths; a node has the deeper ones that follow it below it. -/
def nest : List OutlineLine → List (Nat × Outline)
  | [] => []
  | line :: rest =>
    let (below, others) := (nest rest).span fun node => node.1 > line.depth
    (line.depth, line.node (below.map (·.2))) :: others

def ofText? (text : String) : Option (Bool × Outline) :=
  match Text.lines text with
  | status :: rest => do
    let hasError ← match status with
      | "ok" => some false
      | "error" => some true
      | _ => none
    match nest (← rest.mapM OutlineLine.ofText?) with
    | [(_, outline)] => return (hasError, outline)
    | _ => none
  | [] => none

end Outline

def Tree.ofOutlineText? (outline source : String) : Option Tree :=
  (Outline.ofText? outline).map fun (hasError, outline) => Tree.ofOutline source hasError outline

end Retarget
