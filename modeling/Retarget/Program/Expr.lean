import Retarget.Program.ValueType
import Retarget.Program.Operator
import Retarget.Text.Numeral

/-!
# Expressions

Literals and expressions of the source program. A literal keeps its text as written, without
suffix and quotes, so that each target decides how to spell it.
-/

namespace Retarget

/-- A literal. The body of a character or string literal keeps its escapes. -/
inductive Literal where
  | int (digits : String)
  | long (digits : String)
  | float (digits : String)
  | double (digits : String)
  | bool (value : Bool)
  | char (body : String)
  | string (body : String)
  | null
  deriving DecidableEq, Inhabited

namespace Literal

def type : Literal → ValueType
  | int _ => .int
  | long _ => .long
  | float _ => .float
  | double _ => .double
  | bool _ => .boolean
  | char _ => .char
  | string _ => .string
  | null => .unknown

/-- The value of an integer numeral: hexadecimal after `0x`, binary after `0b`, octal after a
leading zero, decimal otherwise. -/
def numeralValue (digits : String) : Option Int :=
  match (Text.lower digits).toList with
  | '0' :: 'x' :: cs => Text.integerValue 16 cs
  | '0' :: 'b' :: cs => Text.integerValue 2 cs
  | '0' :: c :: cs => Text.integerValue 8 (c :: cs)
  | cs => Text.integerValue 10 cs

def integer? : Literal → Option Int
  | int digits => numeralValue digits
  | long digits => numeralValue digits
  | _ => none

end Literal

inductive Expr where
  | literal (value : Literal)
  | ident (name : String)
  | binary (op : BinaryOp) (left right : Expr)
  | unary (op : UnaryOp) (operand : Expr)
  | logical (op : LogicalOp) (left right : Expr)
  | compare (op : CompareOp) (left right : Expr)
  | assign (op : AssignOp) (target value : Expr)
  | update (op : UpdateOp) (leading : Bool) (target : Expr)
  | index (array position : Expr)
  | member (object : Expr) (field : String)
  | arrayLiteral (items : List Expr)
  | ternary (condition onTrue onFalse : Expr)
  | cast (type : ValueType) (operand : Expr)
  | call (receiver : Option Expr) (method : String) (args : List Expr)
  deriving Inhabited

namespace Expr

def isCompound : Expr → Bool
  | binary .. | unary .. | logical .. | compare .. | assign .. | ternary .. => true
  | _ => false

def lengthOf? : Expr → Option Expr
  | member object field => if field = "length" then some object else none
  | _ => none

def stringBody? : Expr → Option String
  | literal (.string body) => some body
  | _ => none

def ident? : Expr → Option String
  | ident name => some name
  | _ => none

def rootIdent? : Expr → Option String
  | ident name => some name
  | index array _ => array.rootIdent?
  | _ => none

def accessDepth : Expr → Nat
  | index array _ => 1 + array.accessDepth
  | _ => 0

def isIdent (name : String) : Expr → Bool
  | ident other => other = name
  | _ => false

mutual

/-- Whether `name` is the target of an assignment or update in the operands the analysis visits:
all of them but the targets themselves. -/
def writes (name : String) : Expr → Bool
  | literal _ | ident _ => false
  | binary _ left right => left.writes name || right.writes name
  | unary _ operand => operand.writes name
  | logical _ left right => left.writes name || right.writes name
  | compare _ left right => left.writes name || right.writes name
  | assign _ target value => target.isIdent name || value.writes name
  | update _ _ target => target.isIdent name
  | index array position => array.writes name || position.writes name
  | member object _ => object.writes name
  | arrayLiteral items => anyWrites name items
  | ternary condition onTrue onFalse =>
    condition.writes name || onTrue.writes name || onFalse.writes name
  | cast _ operand => operand.writes name
  | call none _ args => anyWrites name args
  | call (some receiver) _ args => receiver.writes name || anyWrites name args

def anyWrites (name : String) : List Expr → Bool
  | [] => false
  | e :: rest => e.writes name || anyWrites name rest

end

mutual

def same : Expr → Expr → Bool
  | literal a, literal b => a = b
  | ident a, ident b => a = b
  | binary o l r, binary o' l' r' => o = o' && l.same l' && r.same r'
  | unary o e, unary o' e' => o = o' && e.same e'
  | logical o l r, logical o' l' r' => o = o' && l.same l' && r.same r'
  | compare o l r, compare o' l' r' => o = o' && l.same l' && r.same r'
  | assign o t v, assign o' t' v' => o = o' && t.same t' && v.same v'
  | update o p t, update o' p' t' => o = o' && p = p' && t.same t'
  | index a p, index a' p' => a.same a' && p.same p'
  | member e f, member e' f' => f = f' && e.same e'
  | arrayLiteral xs, arrayLiteral ys => allSame xs ys
  | ternary c t e, ternary c' t' e' => c.same c' && t.same t' && e.same e'
  | cast t e, cast t' e' => t = t' && e.same e'
  | call none m xs, call none m' ys => m = m' && allSame xs ys
  | call (some r) m xs, call (some r') m' ys => m = m' && r.same r' && allSame xs ys
  | _, _ => false

def allSame : List Expr → List Expr → Bool
  | [], [] => true
  | x :: xs, y :: ys => x.same y && allSame xs ys
  | _, _ => false

end

mutual

theorem same_iff_eq : (a b : Expr) → (a.same b = true ↔ a = b)
  | call (some r) m xs, call (some r') m' ys => by
    simp [same, same_iff_eq r r', allSame_iff_eq xs ys, and_assoc, and_left_comm]
  | call (some r) m xs, call none m' ys => by simp [same]
  | call none m xs, b => by
    rcases b with _ | _ | _ | _ | _ | _ | _ | _ | _ | _ | _ | _ | _ | ⟨_ | _, _, _⟩ <;>
      simp [same, allSame_iff_eq xs]
  | literal _, b => by cases b <;> simp [same]
  | ident _, b => by cases b <;> simp [same]
  | binary _ l r, b => by cases b <;> simp [same, same_iff_eq l, same_iff_eq r, and_assoc]
  | unary _ e, b => by cases b <;> simp [same, same_iff_eq e]
  | logical _ l r, b => by cases b <;> simp [same, same_iff_eq l, same_iff_eq r, and_assoc]
  | compare _ l r, b => by cases b <;> simp [same, same_iff_eq l, same_iff_eq r, and_assoc]
  | assign _ t v, b => by cases b <;> simp [same, same_iff_eq t, same_iff_eq v, and_assoc]
  | update _ _ t, b => by cases b <;> simp [same, same_iff_eq t, and_assoc]
  | index a p, b => by cases b <;> simp [same, same_iff_eq a, same_iff_eq p]
  | member e _, b => by cases b <;> simp [same, same_iff_eq e, and_comm]
  | arrayLiteral xs, b => by cases b <;> simp [same, allSame_iff_eq xs]
  | ternary c t e, b => by
    cases b <;> simp [same, same_iff_eq c, same_iff_eq t, same_iff_eq e, and_assoc]
  | cast _ e, b => by cases b <;> simp [same, same_iff_eq e]
  | call (some _) _ _, literal _ | call (some _) _ _, ident _ | call (some _) _ _, binary ..
  | call (some _) _ _, unary .. | call (some _) _ _, logical .. | call (some _) _ _, compare ..
  | call (some _) _ _, assign .. | call (some _) _ _, update .. | call (some _) _ _, index ..
  | call (some _) _ _, member .. | call (some _) _ _, arrayLiteral _
  | call (some _) _ _, ternary .. | call (some _) _ _, cast .. => by simp [same]

theorem allSame_iff_eq : (xs ys : List Expr) → (allSame xs ys = true ↔ xs = ys)
  | [], ys => by cases ys <;> simp [allSame]
  | x :: xs, ys => by cases ys <;> simp [allSame, same_iff_eq x, allSame_iff_eq xs]

end

instance : DecidableEq Expr := fun a b => decidable_of_iff _ (same_iff_eq a b)

end Expr

end Retarget
