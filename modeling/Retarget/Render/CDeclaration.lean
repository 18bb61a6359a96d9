import Retarget.Render.CPrint

/-!
# C declarations

A scalar is declared with its value or the zero of its type. An array literal fixes its extents, a
clone gets storage of its own, and an alias is a pointer that remembers which array it measures.
-/

namespace Retarget.C

open Text

def bufferSize : Nat := 256

def declareScalar (name : String) (type : ValueType) (typeName : String) : Render String :=
  Render.declareFor .c { Symbol.scalar name type with targetType := some typeName }

def declareArray (name : String) (element : ValueType) (dimensions : Nat) (size : Option Nat)
    (typeName : String) (aliasOf : Option String) : Render String :=
  Render.declareFor .c
    { Symbol.array name element dimensions size with targetType := some typeName, aliasOf }

def narrows (value type : ValueType) : Bool :=
  value = .long && type.isIntegral && type ≠ .long

def initialValue (name : String) (type : ValueType) : Option Expr → Attempt String
  | none => return defaultValue type
  | some value => do
    if narrows ((← Render.symbols).typeOf value) type then
      Render.warn ("64-bit value narrowed to " ++ type.javaName ++ " in `" ++ name ++ "`")
    expr value

def declarator (name : String) (type : ValueType) (init : Option Expr) : Attempt String := do
  let written ← typeName type
  let value ← initialValue name type init
  let target ← declareScalar name type written
  return written ++ " " ++ target ++ " = " ++ value

def stringBuffer (name : String) (value : Expr) : Attempt (List String) := do
  let format ← formatParts ((← Render.symbols).concatParts value)
  let target ← declareScalar name .string "char[]"
  let storage ← Render.line ("char " ++ target ++ "[" ++ toString bufferSize ++ "];")
  let fill ← Render.line ("snprintf(" ++ target ++ ", sizeof(" ++ target ++ "), " ++
    quoted format.text ++ printArgs format.args ++ ");")
  return [storage, fill]

def declareVariable (name : String) (type : ValueType) (init : Option Expr) :
    Attempt (List String) := do
  let table ← Render.symbols
  match init.filter fun value => type = .string && table.isConcatenation value with
  | some value => stringBuffer name value
  | none => Render.oneLine ((← declarator name type init) ++ ";")

def arrayOf (element : String) : String :=
  element ++ "[]"

def pointerTo (element : String) : String :=
  element ++ "*"

def pointerDeclarator (element name : String) : String :=
  match beforeEnd? "*" element with
  | some base => base ++ " **" ++ name
  | none => element ++ " *" ++ name

/-- The greater of two lists' entries in each place, the longer list's where the other has none. -/
def mergeMax : List Nat → List Nat → List Nat
  | [], ys => ys
  | xs, [] => xs
  | x :: xs, y :: ys => max x y :: mergeMax xs ys

mutual

/-- The greatest length of the array literals at each depth, the literal itself at depth zero;
nothing for any other expression. -/
def levelLengths : Expr → List Nat
  | .arrayLiteral items => items.length :: deeperLengths items
  | _ => []

/-- The greatest length at each depth of the array literals among the items. -/
def deeperLengths : List Expr → List Nat
  | [] => []
  | item :: rest => mergeMax (levelLengths item) (deeperLengths rest)

end

/-- The first `count` entries, with zeros where the list has none. -/
def padded : Nat → List Nat → List Nat
  | 0, _ => []
  | count + 1, [] => 0 :: padded count []
  | count + 1, x :: xs => x :: padded count xs

def literalExtents (items : List Expr) (dimensions : Nat) : List Nat :=
  padded (max dimensions 1) (items.length :: deeperLengths items)

def countSize : Nat := 8

def checkedExtents (items : List Expr) (dimensions : Nat) : Except Fault (List Nat) :=
  if max dimensions 1 * countSize ≤ maxTextSize then .ok (literalExtents items dimensions)
  else .error .capacity

def extentText (extents : List String) : String :=
  String.join (extents.map fun extent => "[" ++ extent ++ "]")

def literalArray (name : String) (element : ValueType) (dimensions : Nat) (written : String)
    (items : List Expr) : Attempt (List String) := do
  if items.isEmpty then Attempt.invalid "array" "empty array literal"
  else
    let extents ← Attempt.ofExcept (checkedExtents items dimensions)
    let values ← expr (.arrayLiteral items)
    let target ← declareArray name element dimensions extents.head? (arrayOf written) none
    Render.oneLine (written ++ " " ++ target ++ extentText (extents.map toString) ++ " = " ++
      values ++ ";")

/-- Whether one of the literal extents up to the first such is not positive. -/
def hasEmptyExtent : List Expr → Except Fault Bool
  | [] => .ok false
  | extent :: rest => do
    match ← literalInteger extent with
    | some n => if n ≤ 0 then return true else hasEmptyExtent rest
    | none => hasEmptyExtent rest

def areConstant : List Expr → Except Fault Bool
  | [] => .ok true
  | extent :: rest => do
    match ← literalInteger extent with
    | some _ => areConstant rest
    | none => return false

def outerExtent : List Expr → Except Fault (Option Nat)
  | [] => .ok none
  | extent :: _ => do
    return (← literalInteger extent).bind Int.toNat?

/-- An array of zeros with the given extents. Only constant extents admit an initializer. -/
def allocatedArray (name : String) (element : ValueType) (dimensions : Nat) (written : String)
    (extents : List Expr) : Attempt (List String) := do
  if extents.length < dimensions then
    Attempt.unsupported "array allocation without every extent"
  else if ← Attempt.ofExcept (hasEmptyExtent extents) then Attempt.unsupported "zero-length array"
  else
    let isConstant ← Attempt.ofExcept (areConstant extents)
    let size ← Attempt.ofExcept (outerExtent extents)
    let texts ← exprs extents
    let target ← declareArray name element dimensions size (arrayOf written) none
    let declared := written ++ " " ++ target ++ extentText texts
    if isConstant then Render.oneLine (declared ++ " = \x7b0\x7d;")
    else
      Render.require .string
      let storage ← Render.line (declared ++ ";")
      let fill ← Render.line ("memset(" ++ target ++ ", 0, sizeof(" ++ target ++ "));")
      return [storage, fill]

def measuredArray (table : SymbolTable) (source : Expr) (text : String) : String :=
  ((source.ident?.bind table.lookup).bind (·.aliasOf)).getD text

def aliasArray (name : String) (element : ValueType) (dimensions : Nat) (written : String)
    (source : Expr) : Attempt (List String) := do
  if dimensions > 1 then Attempt.unsupported "alias of a multi-dimensional array"
  else
    let text ← expr source
    let measured := measuredArray (← Render.symbols) source text
    let target ← declareArray name element dimensions none (pointerTo written) (some measured)
    Render.oneLine (pointerDeclarator written target ++ " = " ++ text ++ ";")

def nullArray (name : String) (element : ValueType) (dimensions : Nat) (written : String) :
    Attempt (List String) := do
  if dimensions > 1 then Attempt.unsupported "multi-dimensional array without an initializer"
  else
    Render.warn ("array `" ++ name ++ "` has no size; declared as a null pointer")
    let target ← declareArray name element dimensions none (pointerTo written) none
    Render.oneLine (pointerDeclarator written target ++ " = NULL;")

def levelExtent (text : String) (level : Nat) : String :=
  sizeQuotient (text ++ String.join (List.replicate level "[0]"))

/-- A copy of an array in storage of its own: element by element in one dimension, by `memcpy` in
more. -/
def clonedArray (name : String) (element : ValueType) (dimensions : Nat) (written : String)
    (source : Expr) : Attempt (List String) := do
  let text ← expr source
  let count ← length source
  let table ← Render.symbols
  let size := table.sizeOf? source.ident?
  if dimensions ≤ 1 then
    let target ← declareArray name element dimensions size (arrayOf written) none
    let i := (← Render.symbols).freshName "i"
    let unit ← Attempt.ofExcept (spaces (← Render.settings).indentWidth)
    let storage ← Render.line (written ++ " " ++ target ++ "[" ++ count ++ "];")
    let header ← Render.line ("for (int " ++ i ++ " = 0; " ++ i ++ " < " ++ count ++ "; " ++ i ++
      "++) \x7b")
    let copy ← Render.line (unit ++ target ++ "[" ++ i ++ "] = " ++ text ++ "[" ++ i ++ "];")
    let close ← Render.line "\x7d"
    return [storage, header, copy, close]
  else
    let measured := measuredArray table source text
    let extents := (List.range dimensions).map (levelExtent measured)
    let target ← declareArray name element dimensions size (arrayOf written) none
    Render.require .string
    let storage ← Render.line (written ++ " " ++ target ++ extentText extents ++ ";")
    let copy ← Render.line ("memcpy(" ++ target ++ ", " ++ text ++ ", sizeof(" ++ target ++ "));")
    return [storage, copy]

def declareArrayOf (name : String) (element : ValueType) (dimensions : Nat) (init : ArrayInit) :
    Attempt (List String) := do
  let written ← typeName element
  match init with
  | .literal items => literalArray name element dimensions written items
  | .clone source => clonedArray name element dimensions written source
  | .allocate extents => allocatedArray name element dimensions written extents
  | .alias source => aliasArray name element dimensions written source
  | .absent => nullArray name element dimensions written

end Retarget.C
