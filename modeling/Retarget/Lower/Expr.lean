import Retarget.Lower.Basic
import Retarget.Lower.Lexeme

/-!
# Expressions of a syntax tree

The expression that a node stands for. The operands of a node are its children in certain roles;
reading an expression changes no state.
-/

namespace Retarget.Lower

def numberKinds : List String :=
  ["decimal_integer_literal", "hex_integer_literal", "octal_integer_literal",
    "binary_integer_literal", "decimal_floating_point_literal", "hex_floating_point_literal"]

def leaf? (info : NodeInfo) : Option Expr :=
  match info.kind with
  | "true" => some (.literal (.bool true))
  | "false" => some (.literal (.bool false))
  | "null_literal" => some (.literal .null)
  | "character_literal" => some (.literal (.char (Lexeme.unquoted "'" info.text)))
  | "string_literal" => some (.literal (.string (Lexeme.stringBody info.text)))
  | "text_block" => some (.literal (.string (Lexeme.stringBody info.text)))
  | "identifier" => some (.ident info.text)
  | kind =>
    if kind ∈ numberKinds then some (.literal (Lexeme.number kind info.text)) else none

def binaryOf (spelling : String) (left right : Expr) : Except LoweringError Expr :=
  match BinaryOp.ofJava? spelling, CompareOp.ofJava? spelling with
  | some op, _ => .ok (.binary op left right)
  | none, some op => .ok (.compare op left right)
  | none, none =>
    match spelling with
    | "&&" => .ok (.logical .and left right)
    | "||" => .ok (.logical .or left right)
    | _ => .error (.parse ("unknown binary op: " ++ spelling))

/-- The operator of an update and whether it stands before its operand, from the first two
children. -/
def updateOpOf (children : List Node) : Except LoweringError (UpdateOp × Bool) := do
  let (leading, spelling) ← match children with
    | [] => .error (.parse "update_expression is empty")
    | first :: rest =>
      if first.named then pure (false, (rest.head?.map Node.text).getD "")
      else pure (true, first.text)
  match spelling with
  | "++" => return (.increment, leading)
  | "--" => return (.decrement, leading)
  | _ => .error (.parse ("unknown update op: " ++ spelling))

mutual

def expr : Node → Except LoweringError Expr
  | .mk info children =>
    match leaf? info with
    | some e => .ok e
    | none => do
      let node := Node.mk info children
      match info.kind with
      | "parenthesized_expression" =>
        match firstExpr children with
        | some inner => inner
        | none => .error (.parse "parenthesized_expression missing inner")
      | "binary_expression" =>
        let left ← (exprIn "left" children).getD (.error (node.missing "left"))
        let right ← (exprIn "right" children).getD (.error (node.missing "right"))
        binaryOf (← node.textOf "operator") left right
      | "unary_expression" =>
        let spelling ← node.textOf "operator"
        let operand ← (exprIn "operand" children).getD (.error (node.missing "operand"))
        match UnaryOp.ofJava? spelling with
        | some op => return .unary op operand
        | none => .error (.parse ("unknown unary op: " ++ spelling))
      | "update_expression" =>
        let (op, leading) ← updateOpOf children
        match firstExpr children with
        | some operand => return .update op leading (← operand)
        | none => .error (.parse "update_expression missing operand")
      | "assignment_expression" =>
        let target ← (exprIn "left" children).getD (.error (node.missing "left"))
        let value ← (exprIn "right" children).getD (.error (node.missing "right"))
        let spelling ← node.textOf "operator"
        match AssignOp.ofJava? spelling with
        | some op => return .assign op target value
        | none => .error (.parse ("unknown assignment op: " ++ spelling))
      | "ternary_expression" =>
        let condition ← (exprIn "condition" children).getD (.error (node.missing "condition"))
        let onTrue ← (exprIn "consequence" children).getD (.error (node.missing "consequence"))
        let onFalse ← (exprIn "alternative" children).getD (.error (node.missing "alternative"))
        return .ternary condition onTrue onFalse
      | "cast_expression" =>
        let spelling ← node.textOf "type"
        let value ← (exprIn "value" children).getD (.error (node.missing "value"))
        return .cast (ValueType.ofJava spelling) value
      | "array_access" =>
        let array ← (exprIn "array" children).getD (.error (node.missing "array"))
        let position ← (exprIn "index" children).getD (.error (node.missing "index"))
        return .index array position
      | "field_access" =>
        let object ← (exprIn "object" children).getD (.error (node.missing "object"))
        return .member object (← node.textOf "field")
      | "method_invocation" =>
        let method ← node.textOf "name"
        let receiver ← match exprIn "object" children with
          | some object => do pure (some (← object))
          | none => pure none
        let args ← (itemsIn "arguments" children).getD (.ok [])
        return .call receiver method args
      | "array_initializer" => return .arrayLiteral (← items children)
      | "array_creation_expression" =>
        match itemsIn "value" children with
        | some found => return .arrayLiteral (← found)
        | none => .error (.unsupported "array allocation outside a declaration")
      | kind => .error (.unsupported ("expression `" ++ kind ++ "`"))

def exprIn (field : String) : List Node → Option (Except LoweringError Expr)
  | [] => none
  | child :: rest => if child.field = field then some (expr child) else exprIn field rest

def firstExpr : List Node → Option (Except LoweringError Expr)
  | [] => none
  | child :: rest => if child.named then some (expr child) else firstExpr rest

def items : List Node → Except LoweringError (List Expr)
  | [] => .ok []
  | child :: rest =>
    if child.named && !child.isComment then do
      let first ← expr child
      let others ← items rest
      return first :: others
    else items rest

def itemsIn (field : String) : List Node → Option (Except LoweringError (List Expr))
  | [] => none
  | child :: rest => if child.field = field then some (itemsOf child) else itemsIn field rest

def itemsOf : Node → Except LoweringError (List Expr)
  | .mk _ children => items children

end

theorem exprIn_eq (field : String) (children : List Node) :
    exprIn field children = (children.find? fun child => child.field = field).map expr := by
  induction children with
  | nil => simp [exprIn]
  | cons child rest ih => by_cases same : child.field = field <;> simp [exprIn, same, ih]

theorem firstExpr_eq (children : List Node) :
    firstExpr children = (children.find? Node.named).map expr := by
  induction children with
  | nil => simp [firstExpr]
  | cons child rest ih => cases named : child.named <;> simp [firstExpr, named, ih]

theorem itemsIn_eq (field : String) (children : List Node) :
    itemsIn field children = (children.find? fun child => child.field = field).map itemsOf := by
  induction children with
  | nil => simp [itemsIn]
  | cons child rest ih => by_cases same : child.field = field <;> simp [itemsIn, same, ih]

def exprOf (node : Node) (field : String) : Except LoweringError Expr :=
  (exprIn field node.children).getD (.error (node.missing field))

end Retarget.Lower
