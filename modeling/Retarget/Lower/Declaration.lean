import Retarget.Lower.Expr
import Retarget.Scope.Typing

/-!
# Declarations of a syntax tree

The declarations that a node stands for. Each declared name goes into the symbol table as soon as
its declarator is read.
-/

namespace Retarget.Lower

def countBrackets (text : String) : Nat :=
  text.toList.count '['

/-- The number of dimensions that a part of an array creation adds. -/
def partRank (part : Node) : Nat :=
  match part.kind with
  | "dimensions_expr" => 1
  | "dimensions" => countBrackets part.text
  | _ => 0

/-- The rank of an array creation: sized and unsized brackets together. -/
def creationRank (creation : Node) : Nat :=
  creation.children.foldl (fun rank part => rank + partRank part) 0

def isCloneCall (call : Node) : Bool :=
  (call.child? "name").any (·.text = "clone") &&
    (call.child? "arguments").all (fun args => args.namedChildren.all Node.isComment) &&
    (call.child? "object").isSome

def extents : List Node → Except LoweringError (List Expr)
  | [] => .ok []
  | child :: rest =>
    if child.named && child.kind = "dimensions_expr" then do
      let first ← (firstExpr child.children).getD (.error (.parse "dimensions_expr missing size"))
      let others ← extents rest
      return first :: others
    else extents rest

/-- The value of an array declaration: how the array gets its contents, its outer extent if that
is known, and the array it is an alias of. -/
structure ArrayValue where
  init : ArrayInit
  size : Option Nat
  aliasOf : Option String := none

def literalValue (items : List Expr) : ArrayValue :=
  { init := .literal items, size := some items.length }

def outerExtent : List Expr → Except Fault (Option Nat)
  | [] => .ok none
  | extent :: _ => do
    return (← literalInteger extent).bind Int.toNat?

def creationValue (value : Node) : Lower ArrayValue := do
  match value.child? "value" with
  | some literal => return literalValue (← ofExcept (itemsOf literal))
  | none =>
    let extents ← ofExcept (extents value.children)
    let size ← checked (outerExtent extents)
    return { init := .allocate extents, size }

def cloneValue (value : Node) : Lower ArrayValue := do
  let source ← ofExcept (exprOf value "object")
  return { init := .clone source, size := (← symbols).sizeOf? source.ident? }

def aliasValue (value : Node) : Lower ArrayValue := do
  let source ← ofExcept (expr value)
  match (source.ident?.bind (← symbols).lookup).filter Symbol.isArray with
  | some symbol =>
    return { init := .alias source, size := symbol.size, aliasOf := some symbol.sourceName }
  | none =>
    warn ("array initializer `" ++ value.text ++ "` is not an array variable")
    return { init := .alias source, size := none }

def arrayValue (value : Node) : Lower ArrayValue := do
  match value.kind with
  | "array_initializer" => return literalValue (← ofExcept (itemsOf value))
  | "array_creation_expression" => creationValue value
  | kind =>
    if kind = "method_invocation" && isCloneCall value then cloneValue value
    else aliasValue value

def arrayDeclarator (name : String) (element : ValueType) (dimensions : Nat)
    (value : Option Node) : Lower Stmt := do
  if element = .unknown then
    warn ("element type of array `" ++ name ++ "` is not supported")
  let found ← match value with
    | none => pure { init := .absent, size := none }
    | some value => arrayValue value
  declare { Symbol.array name element dimensions found.size with aliasOf := found.aliasOf }
  return .declareArray name element dimensions found.init

def scalarType (typeName name : String) (init : Option Expr) : Lower ValueType := do
  if typeName = "var" then
    let table ← symbols
    let inferred := (init.map table.typeOf).getD .unknown
    if inferred = .unknown then
      warn ("could not infer a type for `var " ++ name ++ "`")
    return inferred
  else
    let type := ValueType.ofJava typeName
    if type = .unknown then
      warn ("type `" ++ typeName ++ "` of `" ++ name ++ "` is not supported")
    return type

def scalarDeclarator (typeName name : String) (value : Option Node) : Lower Stmt := do
  let init ← match value with
    | some value => do pure (some (← ofExcept (expr value)))
    | none => pure none
  let type ← scalarType typeName name init
  declare (Symbol.scalar name type)
  return .declare name type init

/-- The declaration of one name. Brackets may stand at the type, at the name, or only in an array
creation that a `var` gets as its value. -/
def declarator (typeName : String) (typeRank : Nat) (node : Node) : Lower Stmt := do
  let name ← ofExcept (node.textOf "name")
  let rank := typeRank + ((node.child? "dimensions").map (countBrackets ·.text)).getD 0
  let value := node.child? "value"
  if rank > 0 then arrayDeclarator name (ValueType.ofJava typeName) rank value
  else
    match value.filter fun v => v.kind = "array_creation_expression" && typeName = "var" with
    | some creation =>
      let element ← ofExcept (creation.textOf "type")
      arrayDeclarator name (ValueType.ofJava element) (creationRank creation) value
    | none => scalarDeclarator typeName name value

def writtenType (type : Node) : Except LoweringError (String × Nat) :=
  if type.kind = "array_type" then do
    let element ← type.textOf "element"
    let dimensions ← type.textOf "dimensions"
    return (element, countBrackets dimensions)
  else .ok (type.text, 0)

def localDeclaration (node : Node) : Lower Stmt := do
  let (typeName, rank) ← ofExcept ((node.childIn "type").bind writtenType)
  match ← (node.childrenIn "declarator").mapM (declarator typeName rank) with
  | [] => fail (.parse "local_variable_declaration without declarators")
  | [single] => return single
  | several => return .sequence several

end Retarget.Lower
