import Retarget.Proofs.Frame
import Retarget.Proofs.PythonOperators

/-!
# Python operands

What the text of an expression shows outside brackets, and when an operand is safe next to another
operator.
-/

namespace Retarget.Python

open Text

variable {args : List Expr} {texts : List String} {method : String} {receiver : Attempt String}

def vanishes (type source : ValueType) : Bool :=
  match type with
  | .byte | .short | .int | .long => source ≠ .char && source.isIntegral
  | .char => !(source.isIntegral && source ≠ .char)
  | _ => false

def isMathCall (method : String) (count : Nat) : Bool :=
  match method, count with
  | "abs", _ | "max", _ | "min", _ | "round", 1 | "floor", 1 | "ceil", 1 | "random", 0 => true
  | _, _ => method ∈ mathFunctions

/-- Whether a call of a string method is written behind the text of its receiver. -/
def isContinuation (method : String) (count : Nat) : Bool :=
  match method, count with
  | "charAt", 1 | "toUpperCase", 0 | "toLowerCase", 0 | "trim", 0 | "substring", 1
  | "substring", 2 => true
  | _, _ => false

/-- Whether a call of a method other than those of `Math` shows an operator; `bare` says it of its
arguments and `receiver` of its receiver. -/
def methodShows (types : List ValueType) (method : String) (bare : List Bool) (receiver : Bool) :
    Bool :=
  match method, bare with
  | "equals", [_] => true
  | "valueOf", [arg] => types.any (fun type => type = .string || type = .char) && arg
  | _, _ => isContinuation method bare.length && receiver

def callShows (types : List ValueType) (owner : Option String) (method : String)
    (bare : List Bool) (receiver : Bool) : Bool :=
  if owner = some "Math" && isMathCall method bare.length then false
  else methodShows types method bare receiver

mutual

def shows (table : SymbolTable) : Expr → Bool
  | .binary .. | .logical .. | .compare .. | .ternary .. => true
  | .unary op operand => op = .not || (!operand.isCompound && shows table operand)
  | .index array _ => !array.isCompound && shows table array
  | .cast type operand => vanishes type (table.typeOf operand) && shows table operand
  | .call none method args =>
    callShows (table.typesOf args) none method (bareArgs table args) false
  | .call (some receiver) method args =>
    callShows (table.typesOf args) receiver.ident? method (bareArgs table args)
      (!receiver.isCompound && shows table receiver)
  | _ => false

def bareArgs (table : SymbolTable) : List Expr → List Bool
  | [] => []
  | e :: rest => (!e.isCompound && shows table e) :: bareArgs table rest

end

def bare (table : SymbolTable) (e : Expr) : Bool :=
  !e.isCompound && shows table e

def binarySign (op : BinaryOp) (type : ValueType) : String :=
  match op with
  | .div => if type.isIntegral then "//" else "/"
  | .shiftRightUnsigned => ">>"
  | op => op.symbol

def ownOperators (table : SymbolTable) : Expr → List String
  | .binary op left right =>
    if table.isConcatenation (.binary op left right) then
      (if table.isConcatenation left then ownOperators table left else []) ++ "+" ::
        (if table.isConcatenation right then ownOperators table right else [])
    else [binarySign op (table.typeOf (.binary op left right))]
  | .unary .not _ => ["not"]
  | .logical op _ _ => [logicalWord op]
  | .compare op _ _ => [op.symbol]
  | .ternary .. => ["if", "else"]
  | _ => []

def isSheltered (table : SymbolTable) : Expr → Bool
  | .binary op left right =>
    if table.isConcatenation (.binary op left right) then
      (if table.isConcatenation left then isSheltered table left else !bare table left) &&
        (if table.isConcatenation right then isSheltered table right else !bare table right)
    else !bare table left && !bare table right
  | .unary _ operand => !bare table operand
  | .logical _ left right => !bare table left && !bare table right
  | .compare _ left right => !bare table left && !bare table right
  | .ternary condition onTrue onFalse =>
    !bare table condition && !bare table onTrue && !bare table onFalse
  | e => !shows table e

def isSingle (text : String) : Bool :=
  (lexis.operand? text).any isOperand

mutual

def hasSingleLeaves (table : SymbolTable) : Expr → Bool
  | .literal value => isSingle (literalText value)
  | .ident name => isSingle (table.targetName name)
  | .binary _ left right => hasSingleLeaves table left && hasSingleLeaves table right
  | .unary _ operand => hasSingleLeaves table operand
  | .logical _ left right => hasSingleLeaves table left && hasSingleLeaves table right
  | .compare _ left right => hasSingleLeaves table left && hasSingleLeaves table right
  | .assign _ target value => hasSingleLeaves table target && hasSingleLeaves table value
  | .update _ _ target => hasSingleLeaves table target
  | .index array position => hasSingleLeaves table array && hasSingleLeaves table position
  | .member object _ => hasSingleLeaves table object
  | .arrayLiteral items => haveSingleLeaves table items
  | .ternary condition onTrue onFalse =>
    hasSingleLeaves table condition && hasSingleLeaves table onTrue && hasSingleLeaves table onFalse
  | .cast _ operand => hasSingleLeaves table operand
  | .call none _ args => haveSingleLeaves table args
  | .call (some receiver) _ args => hasSingleLeaves table receiver && haveSingleLeaves table args

def haveSingleLeaves (table : SymbolTable) : List Expr → Bool
  | [] => true
  | e :: rest => hasSingleLeaves table e && haveSingleLeaves table rest

end

/-! ## Forms of operands -/

variable {table : SymbolTable} {e left right : Expr} {text l r : String}

def Rendered (table : SymbolTable) (e : Expr) (text : String) : Prop :=
  ∃ shown, Prints text shown ∧ (shown = [] ↔ shows table e = false) ∧
    (isSheltered table e = true → shown = ownOperators table e)

def Sheltered (table : SymbolTable) (e : Expr) (text : String) : Prop :=
  ∃ shown, Prints text shown ∧ (shown = [] ↔ bare table e = false)

def AllRendered (table : SymbolTable) : List Expr → List String → Prop
  | [], [] => True
  | e :: es, text :: texts => Rendered table e text ∧ AllRendered table es texts
  | _, _ => False

theorem prints_of_isSingle (single : isSingle text = true) : Prints text [] := by
  obtain ⟨token, cut, operand⟩ := (Option.any_eq_true _ _).mp single
  exact .leaf cut operand

theorem Rendered.prints (rendered : Rendered table e text) : ∃ shown, Prints text shown := by
  obtain ⟨shown, prints, _⟩ := rendered
  exact ⟨shown, prints⟩

theorem Rendered.inside (rendered : Rendered table e text) : Inside text := by
  obtain ⟨shown, prints⟩ := rendered.prints
  exact prints.inside

theorem Rendered.simple (simple : e.isCompound = false) {shown : List String}
    (prints : Prints text shown) (shown_iff : shown = [] ↔ shows table e = false) :
    Rendered table e text := by
  refine ⟨shown, prints, shown_iff, fun sheltered => ?_⟩
  have closed : shows table e = false ∧ ownOperators table e = [] := by
    cases e with
    | binary | unary | logical | compare | assign | ternary => cases simple
    | literal | ident | update | index | member | arrayLiteral | cast | call =>
      exact ⟨by simpa [isSheltered] using sheltered, rfl⟩
  rw [closed.2]
  exact shown_iff.mpr closed.1

theorem Rendered.closed (simple : e.isCompound = false) (closed : shows table e = false)
    (prints : Prints text []) : Rendered table e text :=
  .simple simple prints (by simp [closed])

theorem Rendered.delimited (rendered : Rendered table e text) :
    Sheltered table e (delimit e text) := by
  obtain ⟨shown, prints, shown_iff, _⟩ := rendered
  cases compound : e.isCompound with
  | true =>
    refine ⟨[], ?_, ?_⟩
    · rw [delimit, compound]
      exact prints.inside.bracketed
    · simp [bare, compound]
  | false =>
    refine ⟨shown, ?_, ?_⟩
    · rw [delimit, compound]
      exact prints
    · simp [bare, compound, shown_iff]

theorem prints_application {function : String} (single : isSingle function = true)
    (rendered : Rendered table e text) : Prints (applied function text) [] :=
  (prints_of_isSingle single).applied rendered.inside

theorem prints_suffix {tail : String} {shown : List String} (prints : Prints text shown)
    (name : String) (suffix : tail = "." ++ name ++ "()") (named : isName name.toList = true) :
    Prints (text ++ tail) shown :=
  ((prints.dotted named).applied .nil).respelled (by simp [suffix, applied, bracketed])

theorem Rendered.asNumber (rendered : Rendered table e text) (type : ValueType) :
    ∃ shown, Prints (numericForm type e text) shown ∧ (bare table e = false → shown = []) := by
  unfold numericForm
  split
  · exact ⟨[], prints_application (by decide) rendered, fun _ => rfl⟩
  · obtain ⟨shown, prints, shown_iff⟩ := rendered.delimited
    exact ⟨shown, prints, shown_iff.mpr⟩

theorem Rendered.asBoolean (rendered : Rendered table e text) : Prints (booleanForm e text) [] := by
  unfold booleanForm
  split
  next value => cases value <;> exact prints_of_isSingle (by decide)
  next =>
      exact prints_suffix (prints_application (by decide) rendered) "lower" (by decide) (by decide)

theorem Rendered.asString (rendered : Rendered table e text) (type : ValueType) :
    ∃ shown, Prints (stringForm type e text) shown ∧
      (shown = [] ↔ ((type = .string || type = .char) && bare table e) = false) := by
  have converted : Prints (applied "str" text) [] := prints_application (by decide) rendered
  obtain ⟨shown, prints, shown_iff⟩ := rendered.delimited
  cases type with
  | string => exact ⟨shown, prints, by simpa using shown_iff⟩
  | char => exact ⟨shown, prints, by simpa using shown_iff⟩
  | boolean => exact ⟨[], rendered.asBoolean, by simp⟩
  | byte | short | int | long | float | double | unknown => exact ⟨[], converted, by simp⟩

theorem isOperator_binarySign (op : BinaryOp) (type : ValueType) :
    IsOperator (binarySign op type) := by
  apply isOperator_of_sign
  cases op with
  | div =>
    rw [binarySign]
    split <;> decide
  | add | sub | mul | mod | bitAnd | bitOr | bitXor | shiftLeft | shiftRight
  | shiftRightUnsigned =>
    simp only [binarySign]
    decide

theorem isOperator_logicalWord (op : LogicalOp) : IsOperator (logicalWord op) := by
  apply isOperator_of_word
  cases op <;> decide

theorem isOperator_compare (op : CompareOp) : IsOperator op.symbol := by
  apply isOperator_of_sign
  cases op <;> decide

theorem prints_binaryText (op : BinaryOp) (type leftType : ValueType) {first second : List String}
    (before : Prints l first) (behind : Prints r second) :
    ∃ shown, Prints (binaryText op type leftType l r) (shown ++ binarySign op type :: second) ∧
      (first = [] → shown = []) := by
  have operator := isOperator_binarySign op type
  cases op with
  | div =>
    refine ⟨first, (before.spaced operator behind).respelled ?_, id⟩
    unfold binaryText binarySign
    dsimp only
    split <;> simp
  | shiftRightUnsigned =>
    -- The left operand and its mask stand in brackets.
    refine ⟨[], ?_, fun _ => rfl⟩
    have masked : Prints (l ++ " " ++ "&" ++ " " ++ mask leftType) (first ++ ["&"]) := by
      refine before.spaced (isOperator_of_sign (by decide)) ?_
      unfold mask
      split <;> exact prints_of_isSingle (by decide)
    refine (masked.inside.bracketed.spaced operator behind).respelled ?_
    simp [binaryText, binarySign, bracketed]
  | add | sub | mul | mod | bitAnd | bitOr | bitXor | shiftLeft | shiftRight =>
    exact ⟨first, before.spaced operator behind, id⟩

/-! ## Operations -/

theorem Rendered.part (rendered : Rendered table e text) :
    ∃ shown, Prints (if table.isConcatenation e then text
        else stringForm (table.typeOf e) e text) shown ∧
      ((if table.isConcatenation e then isSheltered table e else !bare table e) = true →
        shown = if table.isConcatenation e then ownOperators table e else []) := by
  split
  · obtain ⟨shown, prints, _, own⟩ := rendered
    exact ⟨shown, prints, own⟩
  · obtain ⟨shown, prints, shown_iff⟩ := rendered.asString (table.typeOf e)
    refine ⟨shown, prints, fun sheltered => shown_iff.mpr ?_⟩
    simp only [Bool.not_eq_true'] at sheltered
    simp [sheltered]

theorem Rendered.concatenation {op : BinaryOp}
    (sum : table.isConcatenation (.binary op left right) = true)
    (before : Rendered table left l) (behind : Rendered table right r) :
    Rendered table (.binary op left right)
      ((if table.isConcatenation left then l else stringForm (table.typeOf left) left l) ++ " + " ++
        (if table.isConcatenation right then r else stringForm (table.typeOf right) right r)) := by
  obtain ⟨first, printsFirst, ownFirst⟩ := before.part
  obtain ⟨second, printsSecond, ownSecond⟩ := behind.part
  refine ⟨first ++ "+" :: second, ?_, by simp [shows], ?_⟩
  · exact (printsFirst.spaced (isOperator_of_sign (by decide)) printsSecond).respelled (by simp)
  · intro sheltered
    rw [isSheltered, if_pos sum, Bool.and_eq_true] at sheltered
    rw [ownOperators, if_pos sum, ownFirst sheltered.1, ownSecond sheltered.2]

theorem Rendered.binary {op : BinaryOp}
    (noSum : table.isConcatenation (.binary op left right) = false)
    (before : Rendered table left l) (behind : Rendered table right r) :
    Rendered table (.binary op left right)
      (binaryText op (table.typeOf (.binary op left right)) (table.typeOf left)
        (numericForm (table.typeOf left) left l) (numericForm (table.typeOf right) right r)) := by
  obtain ⟨first, printsFirst, ownFirst⟩ := before.asNumber (table.typeOf left)
  obtain ⟨second, printsSecond, ownSecond⟩ := behind.asNumber (table.typeOf right)
  obtain ⟨shown, prints, own⟩ := prints_binaryText op (table.typeOf (.binary op left right))
    (table.typeOf left) printsFirst printsSecond
  refine ⟨_, prints, by simp [shows], ?_⟩
  intro sheltered
  simp only [isSheltered, noSum, Bool.false_eq_true, if_false, Bool.and_eq_true,
    Bool.not_eq_true'] at sheltered
  rw [own (ownFirst sheltered.1), ownSecond sheltered.2]
  simp [ownOperators, noSum]

theorem Rendered.unary (op : UnaryOp) (rendered : Rendered table e text) :
    Rendered table (.unary op e)
      (if op = .not then "not " ++ delimit e text else op.symbol ++ delimit e text) := by
  obtain ⟨shown, prints, shown_iff⟩ := rendered.delimited
  cases op with
  | not =>
    refine ⟨"not" :: shown, prints.negated, by simp [shows], fun sheltered => ?_⟩
    simp only [isSheltered, Bool.not_eq_true'] at sheltered
    simp [ownOperators, shown_iff.mpr sheltered]
  | neg | plus | bitNot =>
    refine ⟨shown, prints.signed (by decide), ?_, fun sheltered => ?_⟩
    · simpa [shows, bare] using shown_iff
    · simp only [isSheltered, Bool.not_eq_true'] at sheltered
      exact shown_iff.mpr sheltered

theorem Rendered.logical (op : LogicalOp) (before : Rendered table left l)
    (behind : Rendered table right r) : Rendered table (.logical op left right)
      (delimit left l ++ " " ++ logicalWord op ++ " " ++ delimit right r) := by
  obtain ⟨first, printsFirst, first_iff⟩ := before.delimited
  obtain ⟨second, printsSecond, second_iff⟩ := behind.delimited
  refine ⟨_, printsFirst.spaced (isOperator_logicalWord op) printsSecond, by simp [shows], ?_⟩
  intro sheltered
  simp only [isSheltered, Bool.and_eq_true, Bool.not_eq_true'] at sheltered
  rw [first_iff.mpr sheltered.1, second_iff.mpr sheltered.2]
  rfl

theorem Rendered.asCompared (rendered : Rendered table e text) (mixed : Bool) (type : ValueType) :
    ∃ shown, Prints (comparedForm mixed type e text) shown ∧
      (bare table e = false → shown = []) := by
  unfold comparedForm
  split
  · exact rendered.asNumber type
  · obtain ⟨shown, prints, shown_iff⟩ := rendered.delimited
    exact ⟨shown, prints, shown_iff.mpr⟩

theorem Rendered.compare (op : CompareOp) (mixed : Bool) (leftType rightType : ValueType)
    (before : Rendered table left l) (behind : Rendered table right r) :
    Rendered table (.compare op left right)
      (comparedForm mixed leftType left l ++ " " ++ op.symbol ++ " " ++
        comparedForm mixed rightType right r) := by
  obtain ⟨first, printsFirst, ownFirst⟩ := before.asCompared mixed leftType
  obtain ⟨second, printsSecond, ownSecond⟩ := behind.asCompared mixed rightType
  refine ⟨_, printsFirst.spaced (isOperator_compare op) printsSecond, by simp [shows], ?_⟩
  intro sheltered
  simp only [isSheltered, Bool.and_eq_true, Bool.not_eq_true'] at sheltered
  rw [ownFirst sheltered.1, ownSecond sheltered.2]
  rfl

theorem Rendered.ternary {condition onTrue onFalse : Expr} {c a b : String}
    (test : Rendered table condition c) (affirmed : Rendered table onTrue a)
    (denied : Rendered table onFalse b) : Rendered table (.ternary condition onTrue onFalse)
      (delimit onTrue a ++ " if " ++ delimit condition c ++ " else " ++ delimit onFalse b) := by
  obtain ⟨first, printsFirst, first_iff⟩ := affirmed.delimited
  obtain ⟨second, printsSecond, second_iff⟩ := test.delimited
  obtain ⟨third, printsThird, third_iff⟩ := denied.delimited
  refine ⟨(first ++ "if" :: second) ++ "else" :: third, ?_, by simp [shows], ?_⟩
  · exact ((printsFirst.spaced (isOperator_of_word (by decide)) printsSecond).spaced
      (isOperator_of_word (by decide)) printsThird).respelled (by simp)
  · intro sheltered
    simp only [isSheltered, Bool.and_eq_true, Bool.not_eq_true'] at sheltered
    rw [first_iff.mpr sheltered.1.2, second_iff.mpr sheltered.1.1, third_iff.mpr sheltered.2]
    rfl

theorem Rendered.index {array position : Expr} {place : String}
    (rendered : Rendered table array text) (inside : Inside place) :
    Rendered table (.index array position) (delimit array text ++ "[" ++ place ++ "]") := by
  obtain ⟨shown, prints, shown_iff⟩ := rendered.delimited
  exact .simple rfl (prints.subscript inside) shown_iff

/-! ## Casts, members and calls -/

theorem castText_yields (type : ValueType) (rendered : Rendered table e text) :
    Attempt.Yields table (castText type (table.typeOf e) text) (Rendered table (.cast type e)) := by
  have converted {function : String} (single : isSingle function = true)
      (kept : vanishes type (table.typeOf e) = false) :
      Rendered table (.cast type e) (applied function text) :=
    .closed rfl (by simp [shows, kept]) (prints_application single rendered)
  have dropped (gone : vanishes type (table.typeOf e) = true) :
      Rendered table (.cast type e) text := by
    obtain ⟨shown, prints, shown_iff, _⟩ := rendered
    exact .simple rfl prints (by simpa [shows, gone] using shown_iff)
  cases type with
  | byte | short | int | long =>
    rw [castText]
    split
    next char => exact .pure (converted (by decide) (by simp [vanishes, char]))
    next noChar =>
      split
      next integral => exact .pure (dropped (by simp [vanishes, noChar, integral]))
      next other => exact .pure (converted (by decide) (by simp [vanishes, other]))
  | float | double | string | boolean => exact .pure (converted (by decide) rfl)
  | char =>
    rw [castText]
    split
    next integral => exact .pure (converted (by decide) (by simpa [vanishes] using integral))
    next other =>
      refine .pure (dropped ?_)
      rw [vanishes, Bool.eq_false_iff.mpr other]
      rfl
  | unknown => exact .refuse _

theorem prints_math (function : String) (named : isName function.toList = true) :
    Prints ("math." ++ function) [] := by
  have module : Prints "math" [] := prints_of_isSingle (by decide)
  exact (module.dotted named).respelled (by simp)

theorem memberText_yields (owner : Option String) (field : String) :
    Attempt.Yields table (memberText owner field) (Prints · []) := by
  have negative (digits : String) (single : isSingle digits = true) : Prints ("-" ++ digits) [] :=
    (prints_of_isSingle single).signed (by decide)
  unfold memberText
  split
  · exact .pure (prints_of_isSingle (by decide))
  · exact .pure (negative "2147483648" (by decide))
  · exact .pure (prints_of_isSingle (by decide))
  · exact .pure (negative "9223372036854775808" (by decide))
  · exact (Attempt.Yields.require .math).bind fun _ _ => .pure (prints_math "pi" (by decide))
  · exact (Attempt.Yields.require .math).bind fun _ _ => .pure (prints_math "e" (by decide))
  · exact .refuse _

theorem AllRendered.prints (all : AllRendered table args texts) (member : text ∈ texts) :
    ∃ shown, Prints text shown := by
  induction args generalizing texts with
  | nil =>
    cases texts with
    | nil => cases member
    | cons => exact all.elim
  | cons e es ih =>
    cases texts with
    | nil => exact all.elim
    | cons first others =>
      obtain rfl | later := List.mem_cons.mp member
      · exact all.1.prints
      · exact ih all.2 later

theorem AllRendered.inside (all : AllRendered table args texts) : Inside (join ", " texts) :=
  .join fun _ member => all.prints member

theorem AllRendered.length_bareArgs (all : AllRendered table args texts) :
    (bareArgs table args).length = texts.length := by
  induction args generalizing texts with
  | nil =>
    cases texts with
    | nil => rfl
    | cons => exact all.elim
  | cons e es ih =>
    cases texts with
    | nil => exact all.elim
    | cons first others => simp [bareArgs, ih all.2]

theorem isSome_mathCall? (method : String) (texts : List String) :
    (mathCall? method texts).isSome = isMathCall method texts.length := by
  unfold mathCall?
  split
  · rfl
  · rfl
  · rfl
  · rfl
  · rfl
  · rfl
  · rfl
  next noAbs noMax noMin noRound noFloor noCeil noRandom =>
    have others : isMathCall method texts.length = decide (method ∈ mathFunctions) := by
      unfold isMathCall
      split
      · exact (noAbs rfl).elim
      · exact (noMax rfl).elim
      · exact (noMin rfl).elim
      next one => exact (noRound _ rfl (List.length_eq_one_iff.mp one).choose_spec).elim
      next one => exact (noFloor _ rfl (List.length_eq_one_iff.mp one).choose_spec).elim
      next one => exact (noCeil _ rfl (List.length_eq_one_iff.mp one).choose_spec).elim
      next none => exact (noRandom rfl (List.length_eq_zero_iff.mp none)).elim
      · rfl
    rw [others]
    split
    next member => simp [member]
    next other => simp [other]

theorem mathCall_yields {call : Render String} (all : AllRendered table args texts)
    (found : mathCall? method texts = some call) :
    Attempt.Yields table (liftM call) (Prints · []) := by
  have called {function : String} (single : isSingle function = true) :
      Prints (applied function (join ", " texts)) [] :=
    (prints_of_isSingle single).applied all.inside
  have mathematical {function arg : String} (named : isName function.toList = true)
      (inside : Inside arg) : Prints (applied ("math." ++ function) arg) [] :=
    (prints_math function named).applied inside
  refine .lift fun cx text after ends => ?_
  unfold mathCall? at found
  split at found
  case h_1 | h_2 | h_3 =>
    cases found
    cases ends
    exact ⟨rfl, called (by decide)⟩
  next x =>
    obtain ⟨shown, prints⟩ := all.prints List.mem_cons_self
    have half : Prints (x ++ " + 0.5") (shown ++ ["+"]) := by
      have added : Prints "0.5" [] := prints_of_isSingle (by decide)
      exact (prints.spaced (isOperator_of_sign (by decide)) added).respelled (by simp)
    cases found
    cases ends
    exact ⟨rfl, mathematical (by decide) half.inside⟩
  case h_5 x | h_6 x =>
    obtain ⟨shown, prints⟩ := all.prints List.mem_cons_self
    cases found
    cases ends
    exact ⟨rfl, (prints_of_isSingle (by decide)).applied
      (mathematical (by decide) prints.inside).inside⟩
  · cases found
    cases ends
    have module : Prints "random" [] := prints_of_isSingle (by decide)
    have grouped : "random.random()" = "random" ++ ".random()" := by decide
    exact ⟨rfl, grouped ▸ prints_suffix module "random" (by decide) (by decide)⟩
  · split at found
    next member =>
      cases found
      cases ends
      have named : ∀ function ∈ mathFunctions, isName function.toList = true := by decide
      exact ⟨rfl, mathematical (named method member) all.inside⟩
    next => cases found

theorem methodShows_continuation {types : List ValueType} {flags : List Bool} (receiver : Bool)
    (continues : isContinuation method flags.length = true) :
    methodShows types method flags receiver = receiver := by
  unfold methodShows
  split
  · cases continues
  · cases continues
  · rw [continues, Bool.true_and]

def ReceiverRendered (bare : Bool) (text : String) : Prop :=
  ∃ shown, Prints text shown ∧ (shown = [] ↔ bare = false)

theorem stringCall_yields {bare : Bool} (all : AllRendered table args texts)
    (yields : Attempt.Yields table receiver (ReceiverRendered bare)) :
    Attempt.Yields table (stringCall method args texts receiver)
      (ReceiverRendered (methodShows (table.typesOf args) method (bareArgs table args) bare)) := by
  have counted := all.length_bareArgs
  have continued {form : String → String}
      (continues : isContinuation method texts.length = true)
      (forms : ∀ text shown, Prints text shown → Prints (form text) shown) :
      Attempt.Yields table (receiver >>= fun text => pure (form text))
        (ReceiverRendered
          (methodShows (table.typesOf args) method (bareArgs table args) bare)) := by
    rw [methodShows_continuation bare (counted ▸ continues)]
    exact yields.bind fun text ⟨shown, prints, shown_iff⟩ =>
      .pure ⟨shown, forms text shown prints, shown_iff⟩
  unfold stringCall
  split
  next =>
    refine yields.bind fun text ⟨shown, prints, _⟩ => .pure ⟨[], ?_, ?_⟩
    · exact (prints_of_isSingle (by decide)).applied prints.inside
    · simp [methodShows, isContinuation]
  next i =>
    obtain ⟨_, place⟩ := all.prints List.mem_cons_self
    exact continued rfl fun text shown prints => prints.subscript place.inside
  next other text =>
    obtain ⟨second, printsOther, _⟩ := all.1.delimited
    refine yields.bind fun text ⟨shown, prints, _⟩ => .pure ⟨shown ++ "==" :: second, ?_, ?_⟩
    · exact (prints.spaced (isOperator_of_sign (by decide)) printsOther).respelled (by simp)
    · simp [methodShows, bareArgs]
  next =>
    exact continued rfl fun text shown prints =>
      prints_suffix prints "upper" (by decide) (by decide)
  next =>
    exact continued rfl fun text shown prints =>
      prints_suffix prints "lower" (by decide) (by decide)
  next =>
    exact continued rfl fun text shown prints =>
      prints_suffix prints "strip" (by decide) (by decide)
  next start =>
    obtain ⟨_, place⟩ := all.prints List.mem_cons_self
    exact continued rfl fun text shown prints =>
      (prints.subscript (Inside.colon place)).respelled (by simp)
  next start stop =>
    obtain ⟨_, first⟩ := all.prints List.mem_cons_self
    obtain ⟨_, last⟩ := all.prints (List.mem_cons_of_mem start List.mem_cons_self)
    exact continued rfl fun text shown prints =>
      (prints.subscript (Inside.slice first last)).respelled (by simp)
  · exact .refuse _

theorem staticCall_yields {owner : Option String} {bare : Bool} (all : AllRendered table args texts)
    (yields : Attempt.Yields table receiver (ReceiverRendered bare)) :
    Attempt.Yields table (staticCall (table.typesOf args) owner method args texts receiver)
      (ReceiverRendered (methodShows (table.typesOf args) method (bareArgs table args) bare)) := by
  have parsed {function s : String} (single : isSingle function = true)
      (member : s ∈ texts) : Prints (applied function s) [] := by
    obtain ⟨shown, prints⟩ := all.prints member
    exact (prints_of_isSingle single).applied prints.inside
  unfold staticCall
  split
  case h_1 | h_2 | h_3 =>
    refine .pure ⟨[], parsed (by decide) List.mem_cons_self, ?_⟩
    simp [methodShows, isContinuation]
  next type arg text typed =>
    obtain ⟨shown, prints, shown_iff⟩ := all.1.asString type
    refine .pure ⟨shown, prints, ?_⟩
    simpa [methodShows, bareArgs, Python.bare, typed] using shown_iff
  next => exact stringCall_yields all yields

theorem callText_yields {owner : Option String} {bare : Bool} (all : AllRendered table args texts)
    (yields : Attempt.Yields table receiver (ReceiverRendered bare)) :
    Attempt.Yields table (callText (table.typesOf args) owner method args texts receiver)
      (ReceiverRendered
        (callShows (table.typesOf args) owner method (bareArgs table args) bare)) := by
  have counted : isMathCall method (bareArgs table args).length =
      (mathCall? method texts).isSome := by
    rw [isSome_mathCall?, all.length_bareArgs]
  unfold callText callShows
  rw [counted]
  by_cases math : owner = some "Math"
  · rw [if_pos math]
    cases found : mathCall? method texts with
    | none =>
      simp only [Option.isSome_none, Bool.and_false, Bool.false_eq_true, if_false]
      exact staticCall_yields all yields
    | some call =>
      refine (mathCall_yields all found).mono fun text prints => ⟨[], prints, ?_⟩
      simp [math]
  · simp only [math, decide_false, Bool.false_and, Bool.false_eq_true, if_false]
    exact staticCall_yields all yields

theorem fromEnd_positive {array position : Expr} (distance : Option Int)
    (found : fromEnd array position = .ok distance) : ∀ k ∈ distance, 0 < k := by
  intro k member
  unfold fromEnd at found
  split at found
  next left right =>
    split at found
    · cases literal : literalInteger right with
      | error fault =>
        rw [literal] at found
        cases found
      | ok value =>
        rw [literal] at found
        cases found
        simpa using (Option.filter_eq_some_iff.mp member).2
    · cases found
      cases member
  · cases found
    cases member

/-! ## Expressions -/

mutual

theorem expr_rendered (table : SymbolTable) : (e : Expr) → hasSingleLeaves table e = true →
    Attempt.Yields table (expr e) (Rendered table e)
  | .literal value, single => .pure (.closed rfl rfl (prints_of_isSingle single))
  | .ident name, single => by
    refine .symbols ?_
    exact .pure (.closed rfl rfl (prints_of_isSingle single))
  | .binary op left right, single => by
    obtain ⟨leftSingle, rightSingle⟩ := Bool.and_eq_true_iff.mp single
    refine .symbols ?_
    refine (expr_rendered table left leftSingle).bind fun l before => ?_
    refine (expr_rendered table right rightSingle).bind fun r behind => ?_
    split
    next sum => exact .pure (before.concatenation sum behind)
    next noSum => exact .pure (before.binary (Bool.eq_false_iff.mpr noSum) behind)
  | .unary op operand, single =>
    (expr_rendered table operand single).bind fun text rendered =>
      .pure (rendered.unary op)
  | .logical op left right, single => by
    obtain ⟨leftSingle, rightSingle⟩ := Bool.and_eq_true_iff.mp single
    refine (expr_rendered table left leftSingle).bind fun l before => ?_
    exact (expr_rendered table right rightSingle).bind fun r behind =>
      .pure (before.logical op behind)
  | .compare op left right, single => by
    obtain ⟨leftSingle, rightSingle⟩ := Bool.and_eq_true_iff.mp single
    have sides (mixed : Bool) (leftType rightType : ValueType) :=
      (expr_rendered table left leftSingle).bind fun l before =>
        (expr_rendered table right rightSingle).bind fun r behind =>
          Attempt.Yields.pure (before.compare op mixed leftType rightType behind)
    refine .symbols ?_
    dsimp only
    split
    · exact (Attempt.Yields.warn _).bind fun _ _ => sides _ _ _
    · exact sides _ _ _
  | .assign .., _ => .refuse _
  | .update .., _ => .refuse _
  | .index array position, single => by
    obtain ⟨arraySingle, positionSingle⟩ := Bool.and_eq_true_iff.mp single
    refine (expr_rendered table array arraySingle).bind fun a rendered => ?_
    refine (Attempt.Yields.ofExcept fromEnd_positive).bind fun distance positive => ?_
    cases distance with
    | some k =>
      have minus : '-' ∈ ['-', '+', '~'] := by decide
      have counted : Inside ("-" ++ toString k) :=
        (Prints.signed minus (prints_toString (positive k rfl))).inside
      have grouped (x : String) : x ++ "[-" ++ toString k ++ "]" =
          x ++ "[" ++ ("-" ++ toString k) ++ "]" := by
        apply String.toList_injective
        simp
      dsimp only
      rw [grouped]
      exact .pure (rendered.index counted)
    | none =>
      exact (expr_rendered table position positionSingle).bind fun i place =>
        .pure (rendered.index place.inside)
  | .member object field, single => by
    rw [expr]
    split
    next length =>
      refine (expr_rendered table object single).bind fun text rendered => ?_
      exact .pure (.closed rfl rfl (prints_application (by decide) rendered))
    next =>
      exact (memberText_yields object.ident? field).mono fun text prints => .closed rfl rfl prints
  | .arrayLiteral items, single => by
    refine (exprs_rendered table items single).bind fun texts all => ?_
    exact .pure (.closed rfl rfl all.inside.listed)
  | .ternary condition onTrue onFalse, single => by
    simp only [hasSingleLeaves, Bool.and_eq_true] at single
    refine (expr_rendered table condition single.1.1).bind fun c test => ?_
    refine (expr_rendered table onTrue single.1.2).bind fun a affirmed => ?_
    refine (expr_rendered table onFalse single.2).bind fun b denied => ?_
    exact .pure (test.ternary affirmed denied)
  | .cast type operand, single => by
    refine .symbols ?_
    exact (expr_rendered table operand single).bind fun text rendered =>
      castText_yields type rendered
  | .call none method args, single => by
    refine .symbols ?_
    refine (exprs_rendered table args single).bind fun texts all => ?_
    have yields : Attempt.Yields table (nonString method) (ReceiverRendered false) := .refuse _
    exact (callText_yields all yields).mono fun text ⟨shown, prints, shown_iff⟩ =>
      .simple rfl prints shown_iff
  | .call (some receiver) method args, single => by
    obtain ⟨receiverSingle, argsSingle⟩ := Bool.and_eq_true_iff.mp single
    refine .symbols ?_
    refine (exprs_rendered table args argsSingle).bind fun texts all => ?_
    have yields : Attempt.Yields table (if table.typeOf receiver = .string then do
        return delimit receiver (← expr receiver) else nonString method)
        (ReceiverRendered (bare table receiver)) := by
      split
      · exact (expr_rendered table receiver receiverSingle).bind fun text rendered =>
          .pure rendered.delimited
      · exact .refuse _
    exact (callText_yields all yields).mono fun text ⟨shown, prints, shown_iff⟩ =>
      .simple rfl prints shown_iff

theorem exprs_rendered (table : SymbolTable) : (es : List Expr) → haveSingleLeaves table es = true →
    Attempt.Yields table (exprs es) (AllRendered table es)
  | [], _ => .pure trivial
  | e :: rest, single => by
    obtain ⟨firstSingle, restSingle⟩ := Bool.and_eq_true_iff.mp single
    refine (expr_rendered table e firstSingle).bind fun text rendered => ?_
    exact (exprs_rendered table rest restSingle).bind fun texts all => .pure ⟨rendered, all⟩

end

/-- The text of an operand shows an operator outside brackets exactly if the operand is bare. The
text of an expression none of whose operands is bare shows its own operators and no others. -/
theorem operators_of_operand {cx after : Context} {e : Expr} {text : String}
    (single : hasSingleLeaves cx.symbols e = true)
    (ends : (operand e).run.run cx = .ok (.ok text, after)) :
    ∃ shown, operators? text = some shown ∧ (shown = [] ↔ bare cx.symbols e = false) ∧
      ∃ raw, (expr e).run.run cx = .ok (.ok raw, after) ∧ text = delimit e raw ∧
        (isSheltered cx.symbols e = true → operators? raw = some (ownOperators cx.symbols e)) := by
  obtain ⟨raw, between, begun, same⟩ := Trial.bind_eq_ok.mp ends
  cases same
  obtain ⟨_, rendered⟩ := expr_rendered cx.symbols e single cx raw after rfl begun
  obtain ⟨shown, prints, shown_iff⟩ := rendered.delimited
  refine ⟨shown, prints.operators?, shown_iff, raw, begun, rfl, fun sheltered => ?_⟩
  obtain ⟨own, printsRaw, _, isOwn⟩ := rendered
  rw [← isOwn sheltered]
  exact printsRaw.operators?

/-- A product of a sum and an element, inside a comparison. -/
theorem operators_of_operand_comparison :
    let cx : Context := { target := .python, symbols := { inner := [.scalar "a" .int] } }
    let e : Expr := .compare .le
      (.binary .mul (.binary .add (.ident "a") (.literal (.int "1"))) (.cast .int (.ident "a")))
      (.index (.ident "xs") (.unary .neg (.ident "a")))
    hasSingleLeaves cx.symbols e = true ∧
      (operand e).run.run cx = .ok (.ok "(((a + 1) * a) <= xs[-a])", cx) ∧
      ∃ shown, operators? "(((a + 1) * a) <= xs[-a])" = some shown ∧
        (shown = [] ↔ bare cx.symbols e = false) ∧ ∃ raw, (expr e).run.run cx = .ok (.ok raw, cx) ∧
          "(((a + 1) * a) <= xs[-a])" = delimit e raw ∧ (isSheltered cx.symbols e = true →
            operators? raw = some (ownOperators cx.symbols e)) := by
  refine ⟨by decide +kernel, by decide +kernel, operators_of_operand ?_ ?_⟩ <;> decide +kernel

/-- A cast that leaves no trace on a sum, and a comparison of strings, are operands that another
operator tears apart. -/
theorem operand_torn_apart :
    let cx : Context :=
      { target := .python
        symbols := { inner := [.scalar "a" .int, .scalar "b" .int, .scalar "s" .string,
          .scalar "t" .string, .scalar "flag" .boolean] } }
    let sum : Expr := .cast .int (.binary .add (.ident "a") (.ident "b"))
    let same : Expr := .call (some (.ident "s")) "equals" [.ident "t"]
    hasSingleLeaves cx.symbols sum = true ∧ hasSingleLeaves cx.symbols same = true ∧
      (operand sum).run.run cx = .ok (.ok "a + b", cx) ∧ operators? "a + b" = some ["+"] ∧
      (operand same).run.run cx = .ok (.ok "s == t", cx) ∧ operators? "s == t" = some ["=="] ∧
      (expr (.binary .mul (.literal (.int "2")) sum)).run.run cx = .ok (.ok "2 * a + b", cx) ∧
      (expr (.compare .eq (.ident "flag") same)).run.run cx = .ok (.ok "flag == s == t", cx) := by
  dsimp only
  decide +kernel

end Retarget.Python
