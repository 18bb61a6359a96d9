import Retarget.Lower.Declaration
import Retarget.Program.Analysis

/-!
# Statements of a syntax tree

The statement that a node stands for. Bodies of conditionals and loops are read in scopes of their
own, and all cases of a switch share one scope. A nested statement that cannot be read is kept as
an unsupported one, so that it costs no more than itself.
-/

namespace Retarget.Lower

def printMethods : List String := ["print", "println", "printf", "format"]

def printStreams : List String := ["System.out", "System.err"]

def isPrintCall (node : Node) : Bool :=
  node.kind = "method_invocation" &&
    (node.child? "name").any (fun name => printMethods.contains name.text) &&
    (node.child? "object").any (fun stream => printStreams.contains stream.text)

def print (node : Node) : Lower Stmt := do
  let method ← ofExcept (node.textOf "name")
  let stream ← ofExcept (node.textOf "object")
  if stream = "System.err" then warn "System.err output is written to standard output"
  let args ← ofExcept ((itemsIn "arguments" node.children).getD (.ok []))
  let formatted := method = "printf" || method = "format"
  if formatted && args.isEmpty then
    fail (.parse (method ++ " without a format string"))
  else return .print { args, newline := method = "println", formatted }

def expressionStatement (node : Node) : Lower Stmt := do
  match node.namedChildren with
  | [] => fail (.parse "expression_statement has no child")
  | child :: _ =>
    if isPrintCall child then print child else return .expr (← ofExcept (expr child))

def returnStatement (node : Node) : Lower Stmt := do
  match firstExpr node.children with
  | some value => return .returnStmt (some (← ofExcept value))
  | none => return .returnStmt none

def unsupportedOf (info : NodeInfo) : Stmt :=
  .unsupported info.kind info.text

def keptMessage (info : NodeInfo) (error : LoweringError) : String :=
  "line " ++ toString (info.firstRow + 1) ++ ": " ++ error.message ++
    "; statement kept as placeholder"

/-- A nested statement, kept as an unsupported one with a warning if it cannot be read. -/
def kept (info : NodeInfo) (reading : Lower (Option Stmt)) : Render (Option Stmt) := do
  match ← reading.run with
  | .ok stmt => return stmt
  | .error error =>
    Render.warn (keptMessage info error)
    return some (unsupportedOf info)

/-- The statements of a body: those of a block, or the only one; in a scope of their own. Only the
reading that applies is made. -/
def bodyOf (info : NodeInfo) (reading : Unit → Lower (Option Stmt))
    (block : Unit → Render (List Stmt)) : Lower (List Stmt) :=
  inScope do
    if info.kind = "block" then block () else return (← kept info (reading ())).toList

def forInit (inits : List Node) : Lower (Option Stmt) := do
  match inits with
  | [] => return none
  | [single] =>
    if single.kind = "local_variable_declaration" then return some (← localDeclaration single)
    else return some (.expr (← ofExcept (expr single)))
  | many => return some (.sequence ((← many.mapM fun e => ofExcept (expr e)).map .expr))

/-- The parts of a loop over an array: its type, name, iterable and body, without modifiers and
comments. -/
def isLoopPart (node : Node) : Bool :=
  node.named && node.kind != "modifiers" && !node.isComment

/-- The type, name and iterable of a loop over an array. -/
def loopHeader? (parts : List Node) : Option (Node × Node × Node) :=
  match parts, parts.reverse with
  | type :: name :: _ :: _ :: _, _ :: iterable :: _ => some (type, name, iterable)
  | _, _ => none

def loopType (type : Node) (source : Option Symbol) : ValueType :=
  match source with
  | some symbol =>
    if type.text = "var" then (symbol.element?).getD .unknown else written
  | none => written
where
  written : ValueType :=
    if type.kind = "array_type" then
      ValueType.ofJava (String.ofList
        (Text.dropTailWhile (fun c => c = '[' || c = ']' || c = ' ') type.text.toList))
    else ValueType.ofJava type.text

/-- The symbol of the variable of a loop over an array; the rows of an array of more dimensions
are arrays. -/
def loopSymbol (name : String) (type : ValueType) (source : Option Symbol) : Symbol :=
  match source with
  | some symbol =>
    if symbol.dimensions > 1 then Symbol.array name type (symbol.dimensions - 1) none
    else Symbol.scalar name type
  | none => Symbol.scalar name type

def patternKinds : List String := ["guard", "pattern", "record_pattern", "type_pattern"]

def labelValues : List Node → Except LoweringError (List SwitchLabel)
  | [] => .ok []
  | child :: rest =>
    if !child.named then labelValues rest
    else if child.kind ∈ patternKinds then .error (.unsupported "pattern matching case")
    else if child.isComment then labelValues rest
    else do
      let first ← expr child
      let others ← labelValues rest
      return .value first :: others

def labelsOf (node : Node) : Except LoweringError (List SwitchLabel) :=
  if Text.beginsWith "default" (Text.trimStart node.text) then .ok [.default]
  else labelValues node.children

def isCommentStmt : Stmt → Bool
  | .comment _ => true
  | _ => false

def commentOf (info : NodeInfo) : Stmt :=
  .comment (Lexeme.comment info.text)

/-- The body of an arrow rule with a `break` at its end unless it leaves otherwise. -/
def closed (body : List Stmt) : List Stmt :=
  if endsWithJump body then body else body ++ [.breakStmt]

/-- Cases of a switch read so far, and the labels and comments that wait for the next statement. -/
structure CaseList where
  cases : List Case := []
  labels : List SwitchLabel := []
  body : List Stmt := []

namespace CaseList

/-- The list after a group. A group without code shares the body of the next one. -/
def addGroup (list : CaseList) (labels : List SwitchLabel) (body : List Stmt) : CaseList :=
  let labels := list.labels ++ labels
  let body := list.body ++ body
  if body.all isCommentStmt then { list with labels, body }
  else { cases := list.cases ++ [.mk labels body] }

def addRule (list : CaseList) (labels : List SwitchLabel) (body : List Stmt) : CaseList :=
  { list with cases := list.cases ++ [.mk labels (closed body)] }

def appendToLast (cases : List Case) (stmt : Stmt) : List Case :=
  match cases.getLast? with
  | some (.mk labels body) => cases.dropLast ++ [.mk labels (body ++ [stmt])]
  | none => cases

/-- The list after a comment, which stays with waiting labels or else with the case before. -/
def addComment (list : CaseList) (comment : Stmt) : CaseList :=
  if list.labels.isEmpty then { list with cases := appendToLast list.cases comment }
  else { list with body := list.body ++ [comment] }

/-- All cases; labels that still wait make up a last one. -/
def finish (list : CaseList) : List Case :=
  if list.labels.isEmpty then list.cases else list.cases ++ [.mk list.labels list.body]

end CaseList

mutual

def statement : Node → Lower (Option Stmt)
  | .mk info children => do
    let node := Node.mk info children
    match info.kind with
    | "line_comment" | "block_comment" | "comment" => return some (commentOf info)
    | "local_variable_declaration" => return some (← localDeclaration node)
    | "expression_statement" => return some (← expressionStatement node)
    | "if_statement" =>
      let condition ← ofExcept (exprOf node "condition")
      let body ← (bodyIn "consequence" children).getD (fail (node.missing "consequence"))
      let (elifs, otherwise) ← alternatives children
      return some (.conditional condition body elifs otherwise)
    | "switch_expression" | "switch_statement" =>
      let discriminant ← ofExcept (exprOf node "condition")
      let cases ← (casesIn children).getD (fail (node.missing "body"))
      return some (.switch discriminant cases)
    | "for_statement" => inScope do
      let init ← forInit (node.childrenIn "init")
      let condition ← match node.child? "condition" with
        | some c => do pure (some (← ofExcept (expr c)))
        | none => pure none
      let update ← (node.childrenIn "update").mapM fun e => ofExcept (expr e)
      let body ← (bodyIn "body" children).getD (fail (node.missing "body"))
      return some (.forLoop init condition update body)
    | "enhanced_for_statement" =>
      match loopHeader? (children.filter isLoopPart), lastBody children with
      | some (typeNode, nameNode, iterableNode), some body =>
        let iterable ← ofExcept (expr iterableNode)
        let source := (iterable.ident?.bind (← symbols).lookup).filter Symbol.isArray
        let type := loopType typeNode source
        let body ← inScope do
          declare (loopSymbol nameNode.text type source)
          body
        return some (.forEach type nameNode.text iterable body)
      | _, _ => fail (.parse "enhanced_for_statement has too few parts")
    | "while_statement" =>
      let condition ← ofExcept (exprOf node "condition")
      let body ← (bodyIn "body" children).getD (fail (node.missing "body"))
      return some (.whileLoop condition body)
    | "do_statement" =>
      let body ← (bodyIn "body" children).getD (fail (node.missing "body"))
      let condition ← ofExcept (exprOf node "condition")
      return some (.doWhile condition body)
    | "break_statement" => return some .breakStmt
    | "continue_statement" => return some .continueStmt
    | "return_statement" => return some (← returnStatement node)
    | "block" =>
      let body ← inScope (block children)
      return some (.block body)
    | ";" | "empty_statement" => return none
    | _ => return some (unsupportedOf info)

def block : List Node → Render (List Stmt)
  | [] => return []
  | child :: rest => do
    if child.named then
      let first ← kept child.info (statement child)
      let others ← block rest
      return first.toList ++ others
    else block rest

def blockOf : Node → Render (List Stmt)
  | .mk _ children => block children

/-- The body that the first child in a role makes up. -/
def bodyIn (field : String) : List Node → Option (Lower (List Stmt))
  | [] => none
  | child :: rest =>
    if child.field = field then
      some (bodyOf child.info (fun _ => statement child) fun _ => blockOf child)
    else bodyIn field rest

/-- The body that the last part of a loop over an array makes up. -/
def lastBody : List Node → Option (Lower (List Stmt))
  | [] => none
  | child :: rest =>
    match lastBody rest with
    | some body => some body
    | none =>
      if isLoopPart child then
        some (bodyOf child.info (fun _ => statement child) fun _ => blockOf child)
      else none

/-- The `else if` parts and the `else` part of a conditional with the given children. -/
def alternatives : List Node → Lower (List Branch × Option (List Stmt))
  | [] => return ([], none)
  | child :: rest => do
    if child.field = "alternative" then
      if child.kind = "if_statement" then branchOf child
      else
        let body ← bodyOf child.info (fun _ => statement child) fun _ => blockOf child
        return ([], some body)
    else alternatives rest

def branchOf : Node → Lower (List Branch × Option (List Stmt))
  | .mk info children => do
    let node := Node.mk info children
    let condition ← ofExcept (exprOf node "condition")
    let body ← (bodyIn "consequence" children).getD (fail (node.missing "consequence"))
    let (elifs, otherwise) ← alternatives children
    return (.mk condition body :: elifs, otherwise)

/-- The cases below the first child that is the body of a switch. -/
def casesIn : List Node → Option (Lower (List Case))
  | [] => none
  | child :: rest => if child.field = "body" then some (casesOf child) else casesIn rest

/-- The cases below the body of a switch, read in one scope. -/
def casesOf : Node → Lower (List Case)
  | .mk _ children => inScope do return (← cases {} children).finish

/-- The cases read so far with those of the nodes that follow. -/
def cases (list : CaseList) : List Node → Lower CaseList
  | [] => return list
  | child :: rest => do
    if !child.named then cases list rest
    else if child.kind = "switch_block_statement_group" then
      let (labels, body) ← groupOf child
      cases (list.addGroup labels body) rest
    else if child.kind = "switch_rule" then
      let (labels, body) ← ruleOf child
      cases (list.addRule labels body) rest
    else if child.isComment then cases (list.addComment (commentOf child.info)) rest
    else fail (.unexpectedNode "switch case" child.kind)

def groupOf : Node → Lower (List SwitchLabel × List Stmt)
  | .mk _ children => groupParts children

def groupParts : List Node → Lower (List SwitchLabel × List Stmt)
  | [] => return ([], [])
  | child :: rest => do
    if !child.named then groupParts rest
    else if child.kind = "switch_label" then
      let first ← ofExcept (labelsOf child)
      let (labels, body) ← groupParts rest
      return (first ++ labels, body)
    else
      let first ← kept child.info (statement child)
      let (labels, body) ← groupParts rest
      return (labels, first.toList ++ body)

def ruleOf : Node → Lower (List SwitchLabel × List Stmt)
  | .mk _ children => ruleParts [] [] children

/-- The labels and the body of an arrow rule after some of its parts. A comment joins the body
read so far, and a body takes its place. -/
def ruleParts (labels : List SwitchLabel) (body : List Stmt) :
    List Node → Lower (List SwitchLabel × List Stmt)
  | [] => return (labels, body)
  | child :: rest => do
    if !child.named then ruleParts labels body rest
    else if child.kind = "switch_label" then
      let more ← ofExcept (labelsOf child)
      ruleParts (labels ++ more) body rest
    else if child.isComment then ruleParts labels (body ++ [commentOf child.info]) rest
    else
      let body ← bodyOf child.info (fun _ => statement child) fun _ => blockOf child
      ruleParts labels body rest

end

def readableKinds : List String :=
  ["local_variable_declaration", "expression_statement", "line_comment", "block_comment",
    "comment", "if_statement", "switch_expression", "switch_statement", "break_statement",
    "continue_statement", "return_statement", "block", "for_statement",
    "enhanced_for_statement", "while_statement", "do_statement"]

def canRead (node : Node) : Bool :=
  readableKinds.contains node.kind

end Retarget.Lower
