import Retarget.Text.Basic
import Retarget.Text.Blank

/-!
# Syntax trees

The tree of a Java source text. A node knows its kind, the role it plays in its parent, the text it
spans and the rows on which that text begins and ends.
-/

namespace Retarget

structure NodeInfo where
  kind : String
  /-- Whether the node is one of the grammar's named ones and no mere token. -/
  named : Bool
  /-- The role of the node in its parent; empty if it has none. -/
  field : String
  text : String
  firstRow : Nat
  lastRow : Nat
  deriving DecidableEq, Inhabited

inductive Node where
  | mk (info : NodeInfo) (children : List Node)

instance : Inhabited Node := ⟨.mk default []⟩

@[elab_as_elim, induction_eliminator]
theorem Node.induction_children {holds : Node → Prop}
    (mk : ∀ info children, (∀ child ∈ children, holds child) → holds (.mk info children))
    (node : Node) : holds node :=
  @Node.rec holds (fun children => ∀ child ∈ children, holds child) mk
    (List.forall_mem_nil _)
    (fun _ _ first rest => List.forall_mem_cons.mpr ⟨first, rest⟩) node

/-- A syntax tree, which may have been made of a text with errors. -/
structure Tree where
  hasError : Bool
  root : Node
  deriving Inhabited

namespace Node

def info : Node → NodeInfo
  | mk info _ => info

def children : Node → List Node
  | mk _ children => children

def kind (node : Node) : String := node.info.kind

def named (node : Node) : Bool := node.info.named

def field (node : Node) : String := node.info.field

def text (node : Node) : String := node.info.text

def firstRow (node : Node) : Nat := node.info.firstRow

def lastRow (node : Node) : Nat := node.info.lastRow

def child? (node : Node) (field : String) : Option Node :=
  node.children.find? fun child => child.field = field

def childrenIn (node : Node) (field : String) : List Node :=
  node.children.filter fun child => child.field = field

def namedChildren (node : Node) : List Node :=
  node.children.filter named

def isCommentKind (kind : String) : Bool :=
  kind = "line_comment" || kind = "block_comment" || kind = "comment"

def isComment (node : Node) : Bool :=
  isCommentKind node.kind

def isEntryPoint (method : Node) : Bool :=
  (method.child? "name").any (·.text = "main") &&
    method.children.any fun child =>
      child.kind = "modifiers" && (Text.words child.text).contains "static"

mutual

def entryBody? : Node → Option Node
  | mk info children =>
    if info.kind = "method_declaration" && (mk info children).isEntryPoint then
      (mk info children).child? "body"
    else entryBodyIn? children

/-- The body of the first entry point at or below the named ones of the nodes. -/
def entryBodyIn? : List Node → Option Node
  | [] => none
  | node :: rest =>
    match if node.named then node.entryBody? else none with
    | some body => some body
    | none => entryBodyIn? rest

end

mutual

def methodBody? : Node → Option Node
  | mk info children =>
    match if info.kind = "method_declaration" then (mk info children).child? "body" else none with
    | some body => some body
    | none => methodBodyIn? children

def methodBodyIn? : List Node → Option Node
  | [] => none
  | node :: rest =>
    match node.methodBody? with
    | some body => some body
    | none => methodBodyIn? rest

end

/-- A node on the first row. -/
def sample (kind field text : String) (children : List Node) (named : Bool := true) : Node :=
  mk { kind, named, field, text, firstRow := 0, lastRow := 0 } children

end Node

end Retarget
