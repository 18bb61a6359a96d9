import Mathlib.Data.Fintype.OfMap
import Retarget.Scope.Typing

/-!
# Static types

The typing rules of Java for single values, and how far the type that the symbol table gives to an
expression follows them.
-/

namespace Retarget

/-- Binary numeric promotion. Promoted with itself, a type is that of an only operand. -/
def numericType (left right : ValueType) : ValueType :=
  if left = .double ∨ right = .double then .double
  else if left = .float ∨ right = .float then .float
  else if left = .long ∨ right = .long then .long
  else .int

def unaryRule? (op : UnaryOp) (type : ValueType) : Option ValueType :=
  match op with
  | .not => if type = .boolean then some .boolean else none
  | .bitNot => if type.isIntegral then some (numericType type type) else none
  | .neg | .plus => if type.isNumeric then some (numericType type type) else none

def binaryRule? (op : BinaryOp) (left right : ValueType) : Option ValueType :=
  match op with
  | .shiftLeft | .shiftRight | .shiftRightUnsigned =>
    if left.isIntegral && right.isIntegral then some (numericType left left) else none
  | .bitAnd | .bitOr | .bitXor =>
    if left = .boolean && right = .boolean then some .boolean
    else if left.isIntegral && right.isIntegral then some (numericType left right)
    else none
  | .add | .sub | .mul | .div | .mod =>
    if op = .add && (left = .string || right = .string) then some .string
    else if left.isNumeric && right.isNumeric then some (numericType left right)
    else none

def choiceRule? (onTrue onFalse : ValueType) : Option ValueType :=
  if onTrue = onFalse then some onTrue
  else if onTrue ∈ [.int, .long, .float, .double] ∧ onFalse ∈ [.int, .long, .float, .double] then
    some (numericType onTrue onFalse)
  else none

namespace SymbolTable

/-- The type that the rules give to an expression. An array has none, and an element of one is
reached through all its dimensions. -/
def javaType? (table : SymbolTable) : Expr → Option ValueType
  | .literal value => if value = .null then none else some value.type
  | .ident name => ((table.lookup name).filter (!·.isArray)).map Symbol.type
  | .index array _ =>
    ((array.rootIdent?.bind table.lookup).filter fun symbol =>
      symbol.isArray && symbol.dimensions = 1 + array.accessDepth).map Symbol.type
  | .unary op operand => do unaryRule? op (← table.javaType? operand)
  | .binary op left right => do
    binaryRule? op (← table.javaType? left) (← table.javaType? right)
  | .logical _ left right => do
    guard ((← table.javaType? left) = .boolean ∧ (← table.javaType? right) = .boolean)
    return .boolean
  | .compare op left right => do
    let first ← table.javaType? left
    let second ← table.javaType? right
    guard (first.isNumeric ∧ second.isNumeric ∨ first = second ∧ (op = .eq ∨ op = .ne))
    return .boolean
  | .assign _ target value => do
    guard (target.rootIdent?.isSome ∧ (table.javaType? value).isSome)
    table.javaType? target
  | .update _ _ target => do
    guard target.rootIdent?.isSome
    (table.javaType? target).filter (·.isNumeric)
  | .ternary condition onTrue onFalse => do
    guard (table.javaType? condition = some .boolean)
    choiceRule? (← table.javaType? onTrue) (← table.javaType? onFalse)
  | .cast type operand => (table.javaType? operand).map fun _ => type
  | .member .. | .arrayLiteral _ | .call .. => none

end SymbolTable

/-- Whether a bit operation gives the value of an expression, or one of its two values. -/
def Expr.isBitwise : Expr → Bool
  | .binary op _ _ => op = .bitAnd || op = .bitOr || op = .bitXor
  | .ternary _ onTrue onFalse => onTrue.isBitwise || onFalse.isBitwise
  | _ => false

/-- What is known of a type: all of it, unless it is that of truth values and `missed`. -/
def knownType (missed : Bool) (type : ValueType) : ValueType :=
  if type = .boolean ∧ missed = true then .unknown else type

/-! ## One operator -/

instance ValueType.fintype : Fintype ValueType :=
  .ofList [.byte, .short, .int, .long, .float, .double, .boolean, .char, .string, .unknown]
    fun type => by cases type <;> decide

theorem unaryType_of_rule (op : UnaryOp) : ∀ (type : ValueType) (missed : Bool),
    ∀ result ∈ unaryRule? op type,
      (if op = .not then .boolean else (knownType missed type).promoteUnary) = result := by
  cases op <;> decide

theorem binaryType_of_rule (op : BinaryOp) : ∀ (left right : ValueType) (first second : Bool),
    ∀ result ∈ binaryRule? op left right,
      binaryType op (knownType first left) (knownType second right) =
        knownType (op = .bitAnd || op = .bitOr || op = .bitXor) result := by
  cases op <;> decide +kernel

theorem ternaryType_of_rule : ∀ (onTrue onFalse : ValueType) (first second : Bool),
    ∀ result ∈ choiceRule? onTrue onFalse,
      ternaryType (knownType first onTrue) (knownType second onFalse) =
        knownType (first || second) result := by decide +kernel

/-! ## Expressions -/

namespace SymbolTable

variable (table : SymbolTable)

theorem isBitwise_of_rootIdent? {e : Expr} (place : e.rootIdent?.isSome = true) :
    e.isBitwise = false := by
  cases e <;> first | rfl | cases place

theorem typeOf_eq_knownType : (e : Expr) → {type : ValueType} → table.javaType? e = some type →
    table.typeOf e = knownType e.isBitwise type
  | .literal value, type, typed => by
    obtain ⟨-, same⟩ := Option.ite_none_left_eq_some.mp typed
    simpa [typeOf, knownType, Expr.isBitwise] using same
  | .ident name, type, typed => by
    obtain ⟨symbol, found, same⟩ := Option.map_eq_some_iff.mp typed
    obtain ⟨found, single⟩ := Option.filter_eq_some_iff.mp found
    simp_all [typeOf, identType, knownType, Expr.isBitwise]
  | .index array position, type, typed => by
    obtain ⟨symbol, found, same⟩ := Option.map_eq_some_iff.mp typed
    obtain ⟨found, deep⟩ := Option.filter_eq_some_iff.mp found
    simp_all [typeOf, accessType, knownType, Expr.isBitwise]
  | .unary op operand, type, typed => by
    obtain ⟨inner, found, rule⟩ := Option.bind_eq_some_iff.mp typed
    have known := unaryType_of_rule op inner operand.isBitwise type rule
    rw [← typeOf_eq_knownType operand found] at known
    cases op <;> simpa [typeOf, knownType, Expr.isBitwise] using known
  | .binary op left right, type, typed => by
    obtain ⟨first, foundLeft, typed⟩ := Option.bind_eq_some_iff.mp typed
    obtain ⟨second, foundRight, rule⟩ := Option.bind_eq_some_iff.mp typed
    rw [typeOf, typeOf_eq_knownType left foundLeft, typeOf_eq_knownType right foundRight]
    exact binaryType_of_rule op first second _ _ type rule
  | .logical _ left right, type, typed | .compare _ left right, type, typed => by
    simp only [javaType?, Option.bind_eq_bind, Option.bind_eq_some_iff] at typed
    obtain ⟨_, _, _, _, _, _, same⟩ := typed
    cases same
    rfl
  | .assign op target value, type, typed => by
    simp only [javaType?, Option.bind_eq_bind, Option.bind_eq_some_iff,
      Option.guard_eq_some'] at typed
    obtain ⟨_, ⟨place, _⟩, found⟩ := typed
    have known := typeOf_eq_knownType target found
    rw [isBitwise_of_rootIdent? place] at known
    exact known
  | .update op leading target, type, typed => by
    simp only [javaType?, Option.bind_eq_bind, Option.bind_eq_some_iff,
      Option.guard_eq_some'] at typed
    obtain ⟨_, place, found⟩ := typed
    have known := typeOf_eq_knownType target (Option.filter_eq_some_iff.mp found).1
    rw [isBitwise_of_rootIdent? place] at known
    exact known
  | .ternary condition onTrue onFalse, type, typed => by
    simp only [javaType?, Option.bind_eq_bind, Option.bind_eq_some_iff] at typed
    obtain ⟨_, _, first, foundTrue, second, foundFalse, rule⟩ := typed
    rw [typeOf, typeOf_eq_knownType onTrue foundTrue, typeOf_eq_knownType onFalse foundFalse]
    exact ternaryType_of_rule first second _ _ type rule
  | .cast _ operand, type, typed => by
    obtain ⟨_, _, same⟩ := Option.map_eq_some_iff.mp typed
    simpa [typeOf, knownType, Expr.isBitwise] using same
  | .member .., _, typed | .arrayLiteral _, _, typed | .call .., _, typed => by cases typed

/-- An expression has the type that the rules give it, save one whose value is that of a bit
operation on truth values: nothing is known of its type. -/
theorem typeOf_eq_javaType_iff {e : Expr} {type : ValueType}
    (typed : table.javaType? e = some type) :
    (table.typeOf e = type ↔ type ≠ .boolean ∨ e.isBitwise = false) ∧
      (table.typeOf e = type ∨ table.typeOf e = .unknown) := by
  have known := table.typeOf_eq_knownType e typed
  by_cases missed : type = .boolean ∧ e.isBitwise = true
  · simp [known, knownType, missed]
  · have kept : table.typeOf e = type := known.trans (if_neg missed)
    refine ⟨iff_of_true kept ?_, .inl kept⟩
    exact or_iff_not_imp_left.mpr (by simpa using missed)

/-- A step of a wide number, divided and added to a letter, is chosen or turned into text. -/
theorem typeOf_eq_javaType_iff_choice :
    let table : SymbolTable :=
      { inner := [.scalar "p" .boolean, .scalar "wide" .long, .array "rows" .char 2 none] }
    let letter : Expr := .index (.index (.ident "rows") (.ident "wide")) (.literal (.int "0"))
    let sum : Expr := .binary .add letter (.binary .div (.update .increment true (.ident "wide"))
      (.literal (.float "2")))
    let e : Expr := .ternary (.binary .bitAnd (.ident "p") (.literal (.bool true))) sum
      (.binary .shiftLeft (.literal (.int "1")) (.ident "wide"))
    table.javaType? e = some .float ∧ table.typeOf e = .float := by
  intro table letter sum e
  have typed : table.javaType? e = some .float := by decide
  exact ⟨typed, (table.typeOf_eq_javaType_iff typed).1.mpr (.inl (by decide))⟩

/-- Nothing is known of the type of two truth values joined by a bit operation. -/
theorem typeOf_joined_truths :
    let table : SymbolTable := { inner := [.scalar "p" .boolean, .scalar "q" .boolean] }
    let e : Expr := .binary .bitAnd (.ident "p") (.ident "q")
    table.javaType? e = some .boolean ∧ table.typeOf e = .unknown := by decide

end SymbolTable

end Retarget
