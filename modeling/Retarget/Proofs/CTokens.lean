import Mathlib.Data.List.Chain
import Retarget.Proofs.CReading
import Retarget.Proofs.CStmtOrderly

/-!
# Tokens of C expressions

The text of an expression is put together from pieces: its literals and names, the signs of its
operators, and marks with a blank or a bracket at both ends. It is cut into the tokens of the pieces
again unless a sign runs into what stands directly beside it.
-/

namespace Retarget.C

open Text Lexis
open String (append_assoc toList_append toList_inj)
open Attempt (Yields)

/-- Whether the last token of a text ends before a character directly behind it. -/
def endsBefore (text : String) (c : Char) : Bool :=
  (lexis.scan .between text.toList).any fun reached =>
    lexis.advance reached.2 c = lexis.turn reached.2 c

/-- Whether a text can be cut by itself and its last token ends before any delimiter. -/
def cutsAlone (text : String) : Bool :=
  !text.toList.isEmpty && (lexis.tokens? text).isSome && delimiters.all (endsBefore text)

/-- Whether a text begins with a delimiter and ends with a blank or a bracket. -/
def isMark (text : String) : Bool :=
  cutsAlone text && text.toList.head?.any (· ∈ delimiters) &&
    (lexis.scan .between text.toList).any (·.2 ∈ .between :: brackets.map (.sign [·]))

inductive Piece where
  | mark (text : String) (isMark : isMark text = true)
  | sign (text : String) (alone : cutsAlone text = true)
  | atom (text : String)

namespace Piece

@[simp] def text : Piece → String
  | mark text _ | sign text _ | atom text => text

end Piece

@[simp] def textOf : List Piece → String
  | [] => ""
  | piece :: rest => piece.text ++ textOf rest

@[simp] theorem textOf_append (first second : List Piece) :
    textOf (first ++ second) = textOf first ++ textOf second := by
  induction first with
  | nil => simp [textOf]
  | cons piece first ih => simp [textOf, ih, append_assoc]

variable {cx : Context} {text left right : String} {before behind : List Token} {c : Char}

def castName (type : ValueType) : String :=
  match (typeName type).run.run { target := .c } with
  | .ok (.ok name, _) => name
  | _ => "void"

def operandPieces (e : Expr) (pieces : List Piece) : List Piece :=
  if e.isCompound || e.lengthOf?.isSome then
    .mark "(" (by decide) :: pieces ++ [.mark ")" (by decide)]
  else pieces

theorem cutsAlone_unsignedName (type : ValueType) : cutsAlone (unsignedName type) = true := by
  unfold unsignedName
  split <;> decide

@[simp] def conversion (name : Piece) : List Piece :=
  [.mark "(" (by decide), name, .mark ") " (by decide)]

@[simp] def remainder (first second : List Piece) : List Piece :=
  .sign "fmod" (by decide) :: .mark "(" (by decide) :: first ++ .mark ", " (by decide) :: second ++
    [.mark ")" (by decide)]

def assignmentPieces (op : AssignOp) (type : ValueType) (value : Expr)
    (target assigned : List Piece) : List Piece :=
  match op with
  | .plain => target ++ .mark " = " (by decide) :: assigned
  | .compound op =>
    if op = .shiftRightUnsigned then
      target ++ .mark " = " (by decide) :: conversion (.sign _ (cutsAlone_unsignedName type)) ++
        target ++ .mark " >> " (by decide) :: operandPieces value assigned
    else if op = .mod && type.isFloating then
      target ++ .mark " = " (by decide) :: remainder target assigned
    else target ++ .mark (" " ++ op.symbol ++ "= ") (by cases op <;> decide) :: assigned

/-- The pieces of an expression: its signs, its marks and what it has besides operators. -/
def pieces (cx : Context) : Expr → List Piece
  | .binary op left right =>
    let l := operandPieces left (pieces cx left)
    let r := operandPieces right (pieces cx right)
    if op = .shiftRightUnsigned then
      conversion (.sign _ (cutsAlone_unsignedName (cx.symbols.typeOf left))) ++ l ++
        .mark " >> " (by decide) :: r
    else if op = .mod && (cx.symbols.typeOf (.binary op left right)).isFloating then remainder l r
    else l ++ .mark (" " ++ op.symbol ++ " ") (by cases op <;> decide) :: r
  | .unary op operand =>
    .sign op.symbol (by cases op <;> decide) :: operandPieces operand (pieces cx operand)
  | .logical op left right =>
    operandPieces left (pieces cx left) ++
      .mark (" " ++ op.symbol ++ " ") (by cases op <;> decide) ::
      operandPieces right (pieces cx right)
  | .compare op left right =>
    let l := pieces cx left
    let r := pieces cx right
    if cx.symbols.typeOf left = .string && cx.symbols.typeOf right = .string &&
        (op = .eq || op = .ne) then
      .sign "strcmp" (by decide) :: .mark "(" (by decide) :: l ++ .mark ", " (by decide) :: r ++
        [.mark (") " ++ op.symbol ++ " ") (by cases op <;> decide), .sign "0" (by decide)]
    else
      operandPieces left l ++ .mark (" " ++ op.symbol ++ " ") (by cases op <;> decide) ::
        operandPieces right r
  | .assign op target value =>
    assignmentPieces op (cx.symbols.typeOf target) value (pieces cx target) (pieces cx value)
  | .update op leading target =>
    let sign : Piece := .sign op.symbol (by cases op <;> decide)
    if leading then sign :: pieces cx target else pieces cx target ++ [sign]
  | .index array position =>
    operandPieces array (pieces cx array) ++ .mark "[" (by decide) :: pieces cx position ++
      [.mark "]" (by decide)]
  | .ternary condition onTrue onFalse =>
    operandPieces condition (pieces cx condition) ++ .mark " ? " (by decide) ::
      operandPieces onTrue (pieces cx onTrue) ++ .mark " : " (by decide) ::
      operandPieces onFalse (pieces cx onFalse)
  | .cast type operand =>
    conversion (.sign (castName type) (by cases type <;> decide)) ++
      operandPieces operand (pieces cx operand)
  | e => [.atom (rendered cx e)]

@[simp] theorem textOf_operandPieces (e : Expr) (pieces : List Piece) :
    textOf (operandPieces e pieces) = delimit e (textOf pieces) := by
  unfold operandPieces delimit
  split
  · simp [textOf, Piece.text, bracketed, append_assoc]
  · rfl

end Retarget.C
