import Retarget.Tree.Node

/-!
# Items of a body

The parts of a method body in source order: statements, each with the comment that ends its last
row, comments of their own, and the blank rows between them.
-/

namespace Retarget

inductive Item where
  | blank (count : Nat)
  | comment (node : Node)
  /-- A statement and the comment that ends its last row. -/
  | statement (node : Node) (trailing : Option Node)

namespace Item

def single (node : Node) : Item :=
  if node.isComment then comment node else statement node none

/-- The blank rows before a node when the part before it ends on row `previous`; at most `cap` of
them are kept. -/
def gap (cap : Nat) (previous : Option Nat) (node : Node) : List Item :=
  match previous with
  | none => []
  | some row =>
    let count := min (node.firstRow - (row + 1)) cap
    if count = 0 then [] else [blank count]

def endsRowOf (stmt comment : Node) : Bool :=
  !stmt.isComment && comment.isComment && comment.firstRow = stmt.lastRow

/-- The items of nodes that follow a part that ends on row `previous`. -/
def listFrom (cap : Nat) (previous : Option Nat) : List Node → List Item
  | [] => []
  | [node] => gap cap previous node ++ [single node]
  | node :: next :: rest =>
    if endsRowOf node next then
      gap cap previous node ++ statement node (some next) :: listFrom cap (some next.lastRow) rest
    else
      gap cap previous node ++ single node :: listFrom cap (some node.lastRow) (next :: rest)

/-- The items of a body, with runs of blank rows cut down to `cap`. -/
def listOf (cap : Nat) (body : Node) : List Item :=
  listFrom cap none body.namedChildren

end Item

end Retarget
